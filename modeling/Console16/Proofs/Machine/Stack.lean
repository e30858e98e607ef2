import Console16.Proofs.Machine.Effect

/-!
# Console16.Proofs.Machine.Stack

The discipline of the stack. A run is balanced when every `PUSH` is undone by a `POP` and every
`CALL` by a `RET`, properly nested, and nothing else moves the stack pointer or writes to the live
part of the stack. Wherever the stack lies in memory, also across its end and at odd addresses, a
balanced run leaves the stack pointer where it was, and each of its pairs fits together.

* `Machine.Keeps.bracket`, `Machine.Keeps.nest`: a pair around a run that keeps the stack keeps it
  too, also after another such run.
* `Machine.keeps_of_balanced`: the frame of a balanced run, by induction on its nesting.
* `balanced_run_restores`: the stack pointer, the words popped and the addresses returned to.
-/

namespace Console16

/-! ## Live bytes -/

/-- The bytes of a stack that starts at `base`: from `base + 2` to one above the stack pointer,
modulo the size of memory. -/
def Live (base sp x : UInt16) : Prop :=
  (x - (base + 2)).toNat < (sp - base).toNat

section
variable {base sp x : UInt16}

theorem toNat_sub_of_push (h : (sp - base).toNat + 2 < 65536) :
    (sp + 2 - base).toNat = (sp - base).toNat + 2 := by
  simp only [UInt16.toNat_sub, UInt16.toNat_add, UInt16.reduceToNat] at *
  have := sp.toNat_lt
  have := base.toNat_lt
  omega

/-- While the stack is shorter than the memory, the next word goes to bytes that are not live. -/
theorem Live.push (h : (sp - base).toNat + 2 < 65536) (hx : Live base sp x) :
    Live base (sp + 2) x ∧ x ≠ sp + 2 ∧ x ≠ sp + 2 + 1 := by
  unfold Live at *
  rw [toNat_sub_of_push h]
  have hsp := sp.toNat_lt
  have hbase := base.toNat_lt
  refine ⟨by omega, ?_, ?_⟩
  · rintro rfl
    simp only [UInt16.toNat_sub, UInt16.toNat_add, UInt16.reduceToNat] at *
    omega
  · rintro rfl
    simp only [UInt16.toNat_sub, UInt16.toNat_add, UInt16.reduceToNat] at *
    omega

theorem live_top (h : (sp - base).toNat + 2 < 65536) :
    Live base (sp + 2) (sp + 2) ∧ Live base (sp + 2) (sp + 2 + 1) := by
  unfold Live
  rw [toNat_sub_of_push h]
  simp only [UInt16.toNat_sub, UInt16.toNat_add, UInt16.reduceToNat] at *
  have := sp.toNat_lt
  have := base.toNat_lt
  omega

end

/-! ## Instructions -/

/-- The register an instruction writes its result to. -/
def Instr.dest? : Instr → Option Register
  | .input dest _ | .load dest _ | .loadImm dest _ | .mov dest _ | .movImm dest _ | .pop dest
  | .time dest | .rnd dest => some dest
  | .alu op dest _ => if op.writesBack then some dest else none
  | _ => none

/-- The instructions that move the stack pointer by themselves. -/
def Instr.movesStack : Instr → Bool
  | .push _ | .pop _ | .call _ | .ret _ => true
  | _ => false

namespace Machine

variable {S K C : Type} [Screen S] [Keypad K] [Clock C]

omit [Screen S] in
/-- The registers that keep their words: not the destination, and not the stack pointer when the
instruction moves it. -/
theorem reg_work {m : Machine S K C} {i : Instr} {r : Register} (hdest : i.dest? ≠ some r)
    (hstack : i.movesStack = true → r ≠ .sp) : (m.work i).reg r = m.cpu.reg r := by
  have hset : ∀ (c : Cpu) (dest : Register) (v : UInt16), dest ≠ r →
      (c.setReg dest v).reg r = c.reg r := by
    intro c dest v hne
    rw [Cpu.reg_setReg, if_neg hne]
  cases i with
  | call | push | ret => exact hset m.cpu .sp _ (hstack rfl).symm
  | pop dest =>
    have hne : dest ≠ r := fun he => hdest (congrArg some he)
    exact (hset m.cpu.drop dest _ hne).trans (hset m.cpu .sp _ (hstack rfl).symm)
  | alu op dest src =>
    rw [work_alu]
    split
    · rename_i hw
      exact hset m.cpu dest _ fun he => hdest (by simp [Instr.dest?, hw, he])
    · rfl
  | input dest | load dest | loadImm dest | mov dest | movImm dest | time dest | rnd dest =>
    exact hset m.cpu dest _ fun he => hdest (congrArg some he)
  | _ => rfl

theorem reg_execute {m m' : Machine S K C} {i : Instr} {r : Register}
    (hi : i.movesStack = false) (hr : i.dest? ≠ some r) (h : m.execute i = .next m') :
    m'.cpu.reg r = m.cpu.reg r := by
  obtain rfl := of_execute_next h
  exact reg_work hr fun hmoves => absurd (hi.symm.trans hmoves) Bool.false_ne_true

section
variable {m m' : Machine S K C} {v : UInt16}

/-- A step that puts a word on the stack. -/
structure Pushes (m : Machine S K C) (v : UInt16) (m' : Machine S K C) : Prop where
  sp : m'.cpu.reg .sp = m.cpu.reg .sp + 2
  memory : m'.cpu.memory = m.cpu.memory.writeWord (m.cpu.reg .sp + 2) v

/-- A step that takes a word off the stack. -/
structure Pops (m m' : Machine S K C) : Prop where
  sp : m'.cpu.reg .sp = m.cpu.reg .sp - 2
  memory : m'.cpu.memory = m.cpu.memory

theorem pushes_of_push {src : Register} (hcur : m.current = .push src) (h : m.step = .next m') :
    m.Pushes (m.cpu.reg src) m' := by
  rw [step, hcur] at h
  cases h
  exact ⟨Cpu.sp_push m.cpu (m.cpu.reg src), rfl⟩

theorem pushes_of_call {addr : UInt16} (hcur : m.current = .call addr) (h : m.step = .next m') :
    m.Pushes m.cpu.ip m' := by
  rw [step, hcur] at h
  cases h
  exact ⟨Cpu.sp_push m.cpu m.cpu.ip, rfl⟩

theorem pops_of_pop {dest : Register} (hcur : m.current = .pop dest) (hdest : dest ≠ .sp)
    (h : m.step = .next m') : m.Pops m' ∧ m'.cpu.reg dest = m.cpu.top := by
  rw [step, hcur] at h
  cases h
  refine ⟨⟨?_, rfl⟩, ?_⟩
  · exact (Cpu.reg_setReg _ _ _ _).trans ((if_neg hdest).trans (Cpu.sp_drop m.cpu))
  · exact Cpu.reg_setReg_self _ _ _

theorem pops_of_ret {extra : UInt8} (hcur : m.current = .ret extra) (h : m.step = .next m') :
    m.Pops m' ∧ m'.cpu.ip = (m.cpu.top + extra.toUInt16 + 4) &&& 0xFFFC := by
  rw [step, hcur] at h
  cases h
  exact ⟨⟨Cpu.sp_drop m.cpu, rfl⟩, rfl⟩

omit [Screen S] [Keypad K] [Clock C] in
/-- Room for `e + 1` more words is room for one, and for `e` more after it. -/
theorem Pushes.room {base : UInt16} {e : Nat} (hpush : m.Pushes v m')
    (h : (m.cpu.reg .sp - base).toNat + 2 * (e + 1) < 65536) :
    (m.cpu.reg .sp - base).toNat + 2 < 65536 ∧
      (m'.cpu.reg .sp - base).toNat + 2 * e < 65536 := by
  have hfree : (m.cpu.reg .sp - base).toNat + 2 < 65536 := by omega
  rw [hpush.sp, toNat_sub_of_push hfree]
  omega

end

/-! ## Balanced runs -/

/-- The next instruction leaves a stack that starts at `base` alone: it is not one of the stack's
own, it does not write the stack pointer, and it stores no byte into the live part. -/
structure Plain (base : UInt16) (m : Machine S K C) : Prop where
  other : m.current.movesStack = false
  dest : m.current.dest? ≠ some .sp
  spares : ∀ a, m.storeAddr? m.current = some a →
    ¬Live base (m.cpu.reg .sp) a ∧ ¬Live base (m.cpu.reg .sp) (a + 1)

/-- Two matching instructions of a run: the machine before the `PUSH` or `CALL`, before the `POP`
or `RET` that undoes it, and after that. -/
structure Pair (S K C : Type) where
  opening : Machine S K C
  closing : Machine S K C
  closed : Machine S K C

/-- The two instructions fit together: what was pushed is popped, and a return goes to the
instruction after the call and some bytes on, rounded down to a multiple of four. -/
def Pair.Fits (p : Pair S K C) : Prop :=
  match p.opening.current, p.closing.current with
  | .push src, .pop dest => p.closed.cpu.reg dest = p.opening.cpu.reg src
  | .call _, .ret extra =>
    p.closed.cpu.ip = (p.opening.cpu.ip + 4 + extra.toUInt16) &&& 0xFFFC
  | _, _ => False

/-- Balanced runs over a stack that starts at `base`, with the depth of their nesting and the pairs
in them. Between instructions everything but the processor may change. -/
inductive Balanced (base : UInt16) :
    Machine S K C → Nat → List (Pair S K C) → Machine S K C → Prop where
  | start (m : Machine S K C) : Balanced base m 0 [] m
  | outside {m k k' : Machine S K C} {d : Nat} {ps : List (Pair S K C)} :
      Balanced base m d ps k → k'.cpu = k.cpu → Balanced base m d ps k'
  | plain {m k k' : Machine S K C} {d : Nat} {ps : List (Pair S K C)} :
      Balanced base m d ps k → Plain base k → k.step = .next k' → Balanced base m d ps k'
  | push {m o i c k : Machine S K C} {d e : Nat} {ps qs : List (Pair S K C)}
      {src dest : Register} :
      Balanced base m d ps o → o.current = .push src → o.step = .next i →
      Balanced base i e qs c → c.current = .pop dest → dest ≠ .sp → c.step = .next k →
      Balanced base m (max d (e + 1)) (ps ++ qs ++ [⟨o, c, k⟩]) k
  | call {m o i c k : Machine S K C} {d e : Nat} {ps qs : List (Pair S K C)} {addr : UInt16}
      {extra : UInt8} :
      Balanced base m d ps o → o.current = .call addr → o.step = .next i →
      Balanced base i e qs c → c.current = .ret extra → c.step = .next k →
      Balanced base m (max d (e + 1)) (ps ++ qs ++ [⟨o, c, k⟩]) k

/-- The stack pointer and the live part of the stack are as before. -/
structure Keeps (base : UInt16) (m m' : Machine S K C) : Prop where
  sp : m'.cpu.reg .sp = m.cpu.reg .sp
  live : ∀ x, Live base (m.cpu.reg .sp) x → m'.cpu.memory.read x = m.cpu.memory.read x

section
variable {base : UInt16} {m k m' : Machine S K C}

omit [Screen S] [Keypad K] [Clock C] in
theorem keeps_of_cpu_eq (h : m'.cpu = m.cpu) : Keeps base m m' where
  sp := by rw [h]
  live x _ := by rw [h]

omit [Screen S] [Keypad K] [Clock C] in
theorem Keeps.trans (h : Keeps base m k) (h' : Keeps base k m') : Keeps base m m' where
  sp := h'.sp.trans h.sp
  live x hx := (h'.live x (h.sp ▸ hx)).trans (h.live x hx)

theorem Plain.keeps (hm : Plain base m) (h : m.step = .next m') : Keeps base m m' where
  sp := reg_execute hm.other hm.dest h
  live x hx := by
    have hread := read_step (m := m) (x := x) fun a ha => by
      obtain ⟨hhi, hlo⟩ := hm.spares a ha
      exact ⟨fun he => hhi (he ▸ hx), fun he => hlo (he ▸ hx)⟩
    rwa [h] at hread

omit [Screen S] [Keypad K] [Clock C] in
/-- A pair around a run that keeps the stack: the word is still there at the end of the run, and
the stack is as before the pair. -/
theorem Keeps.bracket {o i c k : Machine S K C} {v : UInt16}
    (hroom : (o.cpu.reg .sp - base).toNat + 2 < 65536) (hpush : o.Pushes v i)
    (hinner : Keeps base i c) (hpop : c.Pops k) : Keeps base o k ∧ c.cpu.top = v := by
  have hsp : c.cpu.reg .sp = o.cpu.reg .sp + 2 := hinner.sp.trans hpush.sp
  have hread : ∀ x, Live base (o.cpu.reg .sp + 2) x →
      c.cpu.memory.read x = (o.cpu.memory.writeWord (o.cpu.reg .sp + 2) v).read x := by
    intro x hx
    rw [hinner.live x (hpush.sp ▸ hx), hpush.memory]
  refine ⟨⟨?_, fun x hx => ?_⟩, ?_⟩
  · rw [hpop.sp, hsp, UInt16.add_sub_cancel]
  · obtain ⟨hlive, hhi, hlo⟩ := hx.push hroom
    rw [hpop.memory, hread x hlive, Memory.read_writeWord, if_neg hlo, if_neg hhi]
  · obtain ⟨hhi, hlo⟩ := live_top hroom
    rw [Cpu.top, hsp, Memory.readWord, hread _ hhi, hread _ hlo]
    exact Memory.readWord_writeWord _ _ _

omit [Screen S] [Keypad K] [Clock C] in
/-- A pair after a run that keeps the stack, with room for the word of the pair and for `e` more in
the run between its two instructions. -/
theorem Keeps.nest {o i c k : Machine S K C} {v : UInt16} {e : Nat} {P : Prop}
    (houter : Keeps base m o) (hroom : (m.cpu.reg .sp - base).toNat + 2 * (e + 1) < 65536)
    (hpush : o.Pushes v i)
    (hinner : (i.cpu.reg .sp - base).toNat + 2 * e < 65536 → Keeps base i c ∧ P)
    (hpop : c.Pops k) : Keeps base m k ∧ c.cpu.top = v ∧ P := by
  rw [← houter.sp] at hroom
  obtain ⟨hfree, hrest⟩ := hpush.room hroom
  obtain ⟨hbetween, hP⟩ := hinner hrest
  obtain ⟨hpair, htop⟩ := Keeps.bracket hfree hpush hbetween hpop
  exact ⟨houter.trans hpair, htop, hP⟩

end

/-- A balanced run keeps the stack, and its pairs fit, by induction on its nesting. `depth` more
words have to fit into the memory above the live part. -/
theorem keeps_of_balanced {base : UInt16} {m m' : Machine S K C} {depth : Nat}
    {pairs : List (Pair S K C)} (h : Balanced base m depth pairs m')
    (hroom : (m.cpu.reg .sp - base).toNat + 2 * depth < 65536) :
    Keeps base m m' ∧ ∀ p ∈ pairs, p.Fits := by
  induction h with
  | start m => exact ⟨keeps_of_cpu_eq rfl, fun _ hp => absurd hp List.not_mem_nil⟩
  | outside _ hcpu ih =>
    obtain ⟨hk, hfits⟩ := ih hroom
    exact ⟨hk.trans (keeps_of_cpu_eq hcpu), hfits⟩
  | plain _ hplain hstep ih =>
    obtain ⟨hk, hfits⟩ := ih hroom
    exact ⟨hk.trans (hplain.keeps hstep), hfits⟩
  | @push m o i c k d e ps qs src dest _ ho hopen _ hc hdest hclose ihouter ihinner =>
    obtain ⟨houter, hps⟩ := ihouter (by omega)
    obtain ⟨hpop, hval⟩ := pops_of_pop hc hdest hclose
    obtain ⟨hk, htop, hqs⟩ := houter.nest (by omega) (pushes_of_push ho hopen) ihinner hpop
    have hfits : (⟨o, c, k⟩ : Pair S K C).Fits := by
      simp only [Pair.Fits, ho, hc]
      rw [hval, htop]
    exact ⟨hk, List.forall_mem_append.2
      ⟨List.forall_mem_append.2 ⟨hps, hqs⟩, List.forall_mem_singleton.2 hfits⟩⟩
  | @call m o i c k d e ps qs addr extra _ ho hopen _ hc hclose ihouter ihinner =>
    obtain ⟨houter, hps⟩ := ihouter (by omega)
    obtain ⟨hpop, hip⟩ := pops_of_ret hc hclose
    obtain ⟨hk, htop, hqs⟩ := houter.nest (by omega) (pushes_of_call ho hopen) ihinner hpop
    have hfits : (⟨o, c, k⟩ : Pair S K C).Fits := by
      simp only [Pair.Fits, ho, hc]
      -- the code adds the bytes to skip before the four of the call
      rw [hip, htop, UInt16.add_assoc, UInt16.add_comm extra.toUInt16, ← UInt16.add_assoc]
    exact ⟨hk, List.forall_mem_append.2
      ⟨List.forall_mem_append.2 ⟨hps, hqs⟩, List.forall_mem_singleton.2 hfits⟩⟩

end Machine

/-- A balanced run of depth at most 32767 leaves the stack pointer where it was; in it every `POP`
loads what its `PUSH` stored, and every `RET` goes back to its `CALL`. -/
theorem balanced_run_restores {S K C : Type} [Screen S] [Keypad K] [Clock C]
    {m m' : Machine S K C} {depth : Nat} {pairs : List (Machine.Pair S K C)}
    (h : Machine.Balanced (m.cpu.reg .sp) m depth pairs m') (hdepth : depth ≤ 32767) :
    m'.cpu.reg .sp = m.cpu.reg .sp ∧ ∀ p ∈ pairs, p.Fits := by
  have hroom : (m.cpu.reg .sp - m.cpu.reg .sp).toNat + 2 * depth < 65536 := by
    rw [UInt16.sub_self, UInt16.toNat_zero]
    omega
  obtain ⟨hkeeps, hfits⟩ := Machine.keeps_of_balanced h hroom
  exact ⟨hkeeps.sp, hfits⟩

/-- A subroutine that saves a register, its stack across the end of memory: `MOVI SP 0xFFFD`,
`MOVI A 0x1234`, `CALL 0x14`, and there `PUSH A`, `POP B`, `RET 4`. -/
theorem exists_balanced_subroutine :
    ∃ (m₀ m m' : Machine PixelLog KeyState ManualClock) (pairs : List (Machine.Pair _ _ _)),
      Machine.boot [7, 0, 0xff, 0xfd, 7, 2, 0x12, 0x34, 2, 0, 0x14, 0, 0x31, 0, 12, 0, 0, 0, 0, 0,
          8, 2, 0, 0, 9, 3, 0, 0, 3, 4, 0, 0] PixelLog.empty (KeyState.released .empty)
          (⟨0, 1⟩ : ManualClock) (.ofSeed 7) .default = .ok m₀ ∧
        m₀.run 2 = .next m ∧ m.cpu.reg .sp = 0xfffd ∧ pairs.length = 2 ∧
        Machine.Balanced (m.cpu.reg .sp) m 2 pairs m' :=
  ⟨_, _, _, _, rfl, rfl, by decide +kernel, by exact rfl,
    .call (.start _) rfl rfl (.push (.start _) rfl rfl (.start _) rfl (by decide) rfl) rfl rfl⟩

theorem balanced_run_restores_of_subroutine :
    ∃ (m m' : Machine PixelLog KeyState ManualClock) (pairs : List (Machine.Pair _ _ _)),
      m.cpu.reg .sp = 0xfffd ∧ pairs.length = 2 ∧
        Machine.Balanced (m.cpu.reg .sp) m 2 pairs m' ∧ 2 ≤ 32767 ∧
        m'.cpu.reg .sp = m.cpu.reg .sp ∧ ∀ p ∈ pairs, p.Fits := by
  obtain ⟨-, m, m', pairs, -, -, hsp, hlen, hrun⟩ := exists_balanced_subroutine
  exact ⟨m, m', pairs, hsp, hlen, hrun, by decide, balanced_run_restores hrun (by decide)⟩

end Console16
