import Console16.Proofs.Asm.Image
import Console16.Proofs.Machine.Effect

/-!
# Console16.Proofs.Machine.Execution

What is written is what executes. While no instruction writes to the image, a machine whose
instruction pointer is inside the image stands at the start of an instruction that is written, or in
a row of data; a jump to a label goes to the label.

* `Listing.executedBy_of_holds`: the statement under the instruction pointer is the one executed.
* `executes_what_is_written`: along every run of a machine that was booted from an image.
-/

namespace Console16

/-! ## Addresses -/

theorem exists_stmt_at {T : Type} {ss : List (Stmt T)} {n : Nat} (h : n < imageLen ss) :
    ∃ before s after, ss = before ++ s :: after ∧ imageLen before ≤ n ∧
      n < imageLen before + s.byteLen := by
  induction ss generalizing n with
  | nil => cases h
  | cons s ss ih =>
    rw [imageLen_cons] at h
    by_cases hn : n < s.byteLen
    · exact ⟨[], s, ss, rfl, Nat.zero_le n, by simpa using hn⟩
    · obtain ⟨before, u, after, rfl, hle, hlt⟩ := ih (n := n - s.byteLen) (by omega)
      refine ⟨s :: before, u, after, rfl, ?_, ?_⟩
      · rw [imageLen_cons]
        omega
      · rw [imageLen_cons]
        omega

theorem Listing.offset_dvd {source : List Char} {l : Listing} (hl : ofSource source = .ok l)
    {name : String} {offset : Nat} (h : l.labels.get? name = some offset) : 4 ∣ offset := by
  obtain ⟨-, rfl⟩ := ofSource_eq_ok_iff.1 hl
  have hn : name ∈ labelsOf (sourceLines source) := by
    by_contra hn
    rw [(Draft.get?_labels_eq_none_iff _ _).2 hn] at h
    cases h
  obtain ⟨before, line, after, hsplit, hlabel, hnew, -⟩ := split_at_label hn
  rw [hsplit, Draft.get?_labels_of_split hlabel hnew] at h
  cases h
  exact imageLen_dvd (stmtsOf before)

/-! ## Instructions -/

theorem Instr.imm?_of_jumpsTo? {flags : Flags} {op : Opcode} {o : Operands UInt16 op.format}
    {a : UInt16} (h : (Instr.of op o).jumpsTo? flags = some a) : o.imm? = some a := by
  cases op <;> cases o <;> simp_all [Instr.of, jumpsTo?, Operands.imm?]

theorem Instr.of_ne_unknown (op : Opcode) (o : Operands UInt16 op.format) (code : UInt8) :
    Instr.of op o ≠ .unknown code := by
  cases op <;> cases o <;> nofun

/-- Memory after the image is executed as `NOP`. -/
theorem current_eq_nop {S K C : Type} {m : Machine S K C} {image : List UInt8}
    (hm : m.cpu.memory.Holds memorySize image) (halign : m.cpu.ip.toNat % 4 = 0)
    (hip : image.length ≤ m.cpu.ip.toNat) : m.current = .nop := by
  have hlt := m.cpu.ip.toNat_lt
  have hf := hm.fetch (Nat.le_refl _) (i := m.cpu.ip.toNat) (by
    simp only [codeWordSize, memorySize]
    omega)
  rw [UInt16.ofNat_toNat, codeWordAt_of_le hip] at hf
  rw [Machine.current, hf]
  rfl

/-! ## Statements -/

/-- A machine executes a statement that is laid out at an offset: it stands at an instruction and
executes that, the values of its labels in place, or it stands inside data and executes four of its
bytes, filled up with zeros. A jump to a label that is taken goes to the offset of the label. -/
def Stmt.ExecutedBy {S K C : Type} [Screen S] [Keypad K] [Clock C] (m : Machine S K C)
    (labels : LabelTable) (offset : Nat) : Stmt Target → Prop
  | .instr _ op operands =>
    m.cpu.ip.toNat = offset ∧ m.current = .of op (operands.map (·.link labels)) ∧
      ∀ ref, operands.imm? = some (.label ref) → (m.current.jumpsTo? m.cpu.flags).isSome →
        ∃ target m', labels.get? ref.name = some target ∧ m.step = .next m' ∧
          m'.cpu.ip.toNat = target % 65536
  | .data _ bytes =>
    ∃ i, m.cpu.ip.toNat = offset + i ∧ i + codeWordSize ≤ (padded bytes).length ∧
      m.current = .decode (codeWordAt (padded bytes) i)

def Stmt.isInstr {T : Type} : Stmt T → Bool
  | .instr .. => true
  | .data .. => false

section
variable {S K C : Type} [Screen S] [Keypad K] [Clock C] {m : Machine S K C} {l : Listing}

/-- A jump that is taken and was written with a label goes to the offset of the label. -/
theorem jump_to_label {source : List Char} (hl : Listing.ofSource source = .ok l) {op : Opcode}
    {operands : Operands Target op.format} {ref : LabelRef}
    (hcur : m.current = .of op (operands.map (·.link l.labels)))
    (href : operands.imm? = some (.label ref)) (hdecl : l.labels.get? ref.name ≠ none)
    (hjump : (m.current.jumpsTo? m.cpu.flags).isSome) :
    ∃ target m', l.labels.get? ref.name = some target ∧ m.step = .next m' ∧
      m'.cpu.ip.toNat = target % 65536 := by
  obtain ⟨target, htarget⟩ := Option.ne_none_iff_exists'.1 hdecl
  obtain ⟨a, ha⟩ := Option.isSome_iff_exists.1 hjump
  have himm : (operands.map (·.link l.labels)).imm? = some a :=
    Instr.imm?_of_jumpsTo? (hcur ▸ ha)
  have hval : UInt16.ofNat target = a := by
    rw [Operands.imm?_map, href, Option.map_some, Option.some.injEq] at himm
    rwa [Target.link, htarget, Option.getD_some] at himm
  obtain ⟨m', hstep, hip⟩ := Machine.step_of_jumpsTo? ha
  refine ⟨target, m', htarget, hstep, ?_⟩
  have hnat : a.toNat = target % 65536 := by
    rw [← hval, UInt16.toNat_ofNat']
  have hdvd := Listing.offset_dvd hl htarget
  rw [hip, and_mask_of_aligned (by omega), hnat]

theorem Listing.executedBy_of_holds {source : List Char} (hl : ofSource source = .ok l)
    (hdecl : l.Declared) (hfit : l.image.length ≤ memorySize)
    (hm : m.cpu.memory.Holds l.image.length l.image) (halign : m.cpu.ip.toNat % 4 = 0)
    (hip : m.cpu.ip.toNat < l.image.length) :
    ∃ before s after, l.stmts.toList = before ++ s :: after ∧
      s.ExecutedBy m l.labels (imageLen before) := by
  rw [length_image] at hip
  obtain ⟨before, s, after, hsplit, hle, hlt⟩ := exists_stmt_at hip
  obtain ⟨i, hi⟩ := Nat.exists_eq_add_of_le hle
  have hbefore := imageLen_dvd before
  have hbytes := s.byteLen_dvd
  simp only [codeWordSize] at hbefore hbytes
  -- Both ends of the statement and the instruction pointer are multiples of four.
  have hroom : i + codeWordSize ≤ s.byteLen := by
    simp only [codeWordSize]
    omega
  have hcur : m.current = .decode (codeWordAt (s.link l.labels).bytes i) := by
    rw [← fetch_stmt hm hfit hsplit hroom, ← hi, UInt16.ofNat_toNat]
    rfl
  refine ⟨before, s, after, hsplit, ?_⟩
  cases s with
  | instr line op operands =>
    obtain rfl : i = 0 := by
      simpa [Stmt.byteLen] using hroom
    have hword : m.current = .of op (operands.map (·.link l.labels)) := by
      rw [hcur, Stmt.link, Stmt.bytes, codeWordAt_toList, Instr.decode_encode]
    refine ⟨hi, hword, fun ref href hjump => ?_⟩
    have hs := mem_of_split hsplit
    exact jump_to_label hl hword href (hdecl _ hs ref (by simp [Stmt.ref?, href])) hjump
  | data line bytes =>
    refine ⟨i, hi, ?_, hcur⟩
    rwa [length_padded]

/-- What a machine that was booted from an image makes of the listing of the image: while no
instruction writes to the image, every step inside it executes the statement that is there; and when
there are only instructions and none that writes to memory is executed, no step faults. -/
structure Listing.Executes (l : Listing) (image : List UInt8) (m₀ : Machine S K C) : Prop where
  executed : ∀ m, m₀.Runs (Machine.Spares image.length) m → m.cpu.ip.toNat < image.length →
    ∃ before s after, l.stmts.toList = before ++ s :: after ∧
      s.ExecutedBy m l.labels (imageLen before)
  faultless : (∀ s ∈ l.stmts.toList, s.isInstr) →
    ∀ m, m₀.Runs (fun m => m.current.stores = false) m → ∀ f m', m.step ≠ .fault f m'

theorem current_ne_unknown {s : Stmt Target} {labels : LabelTable} {offset : Nat}
    (hs : s.isInstr) (h : s.ExecutedBy m labels offset) (code : UInt8) :
    m.current ≠ .unknown code := by
  cases s with
  | instr line op operands =>
    rw [h.2.1]
    exact Instr.of_ne_unknown op _ code
  | data line bytes => cases hs

/-- What is written is what executes. -/
theorem executes_what_is_written {source : String} {image : List UInt8}
    (h : assemble source = .ok image) (screen : S) (keypad : K) (clock : C) (random : Stream)
    (config : RunConfig) :
    ∃ l m₀, Listing.ofSource source.toList = .ok l ∧
      Machine.boot image screen keypad clock random config = .ok m₀ ∧ l.Executes image m₀ := by
  obtain ⟨l, hl, hdecl, rfl, -, hfit⟩ := Listing.length_of_assemble h
  obtain ⟨memory, hload, hholds⟩ := Memory.exists_load hfit
  obtain ⟨m₀, hboot, hmem, hip₀⟩ := boot_of_load hload screen keypad clock random config
  rw [← hmem] at hholds
  have halign : m₀.cpu.ip.toNat % 4 = 0 := by
    rw [hip₀]
    rfl
  have hexec : ∀ m, m₀.Runs (Machine.Spares l.image.length) m →
      m.cpu.ip.toNat < l.image.length → ∃ before s after,
        l.stmts.toList = before ++ s :: after ∧ s.ExecutedBy m l.labels (imageLen before) :=
    fun m hruns hip => Listing.executedBy_of_holds hl hdecl hfit
      (hruns.holds (hholds.mono hfit)) (hruns.aligned halign) hip
  refine ⟨l, m₀, hl, hboot, hexec, fun hinstr m hruns f m' hfault => ?_⟩
  obtain ⟨code, hcur⟩ := Machine.unknown_of_fault hfault
  have hspares : ∀ limit, m₀.Runs (Machine.Spares limit) m := fun limit =>
    hruns.mono fun k hk => Machine.spares_of_stores hk limit
  rcases Nat.lt_or_ge m.cpu.ip.toNat l.image.length with hip | hip
  · obtain ⟨before, s, after, hsplit, hs⟩ := hexec m (hspares _) hip
    exact current_ne_unknown (hinstr s (Listing.mem_of_split hsplit)) hs code hcur
  · have hnop := current_eq_nop ((hspares memorySize).holds hholds) (hruns.aligned halign) hip
    rw [hnop] at hcur
    cases hcur

end

theorem executes_what_is_written_of_loop :
    assemble "CALL twice\nhalt: \nJMPI halt\n0x1ff\ntwice:\nADD A A\nRET 0x0" =
        .ok [2, 0, 12, 0, 0x31, 0, 4, 0, 1, 0xff, 0, 0, 10, 2, 2, 0, 3, 0, 0, 0] ∧
      ∃ l m₀, Listing.ofSource
          "CALL twice\nhalt: \nJMPI halt\n0x1ff\ntwice:\nADD A A\nRET 0x0".toList = .ok l ∧
        Machine.boot [2, 0, 12, 0, 0x31, 0, 4, 0, 1, 0xff, 0, 0, 10, 2, 2, 0, 3, 0, 0, 0]
          PixelLog.empty (KeyState.released .empty) (⟨0, 1⟩ : ManualClock) (.ofSeed 7)
          ⟨10, 100, ⟨true⟩⟩ = .ok m₀ ∧
        l.Executes [2, 0, 12, 0, 0x31, 0, 4, 0, 1, 0xff, 0, 0, 10, 2, 2, 0, 3, 0, 0, 0] m₀ := by
  have h : assemble "CALL twice\nhalt: \nJMPI halt\n0x1ff\ntwice:\nADD A A\nRET 0x0" =
      .ok [2, 0, 12, 0, 0x31, 0, 4, 0, 1, 0xff, 0, 0, 10, 2, 2, 0, 3, 0, 0, 0] := by decide +kernel
  exact ⟨h, executes_what_is_written h PixelLog.empty (KeyState.released .empty)
    (⟨0, 1⟩ : ManualClock) (.ofSeed 7) ⟨10, 100, ⟨true⟩⟩⟩

end Console16
