import Console16.Proofs.Machine.Loaded
import Console16.Proofs.Machine.Stepwise

/-!
# Console16.Proofs.Machine.Isolation

Two machines execute the same program step by step, each with devices of its own; between their
steps keys are pressed and clocks are set. The only words that get from a device into the processor
are those that `INPUT` and `TIME` store. As long as these are the same, the two machines cannot be
told apart by anything but their devices and the readings their timers count from.

* `Machine.Alongside`: what stays the same; the timer is not part of it.
* `Machine.Alongside.work`: one instruction, given the words that it reads from devices.
* `Machine.Alongside.stepsWith`: a row of steps, given all such words.
* `devices_act_through_input_and_time`: two machines booted from one image.
-/

namespace Console16

/-- Two processors that differ in nothing but the reading their timers count from. -/
structure Cpu.SameButTimer (c d : Cpu) : Prop where
  regs : d.regs = c.regs
  memory : d.memory = c.memory
  ip : d.ip = c.ip
  flags : d.flags = c.flags
  color : d.color = c.color
  cycles : d.cycles = c.cycles

namespace Cpu.SameButTimer

variable {c d : Cpu}

theorem symm (h : SameButTimer c d) : SameButTimer d c :=
  ⟨h.regs.symm, h.memory.symm, h.ip.symm, h.flags.symm, h.color.symm, h.cycles.symm⟩

theorem reg (h : SameButTimer c d) (r : Register) : d.reg r = c.reg r := by
  rw [Cpu.reg, h.regs, Cpu.reg]

theorem setReg (h : SameButTimer c d) (r : Register) (v : UInt16) :
    SameButTimer (c.setReg r v) (d.setReg r v) :=
  ⟨by rw [Cpu.setReg, h.regs, Cpu.setReg], h.memory, h.ip, h.flags, h.color, h.cycles⟩

theorem retire (h : SameButTimer c d) (next : UInt16) (flags : Flags) :
    SameButTimer (c.retire next flags) (d.retire next flags) :=
  ⟨h.regs, h.memory, rfl, rfl, h.color, congrArg Nat.succ h.cycles⟩

end Cpu.SameButTimer

/-! ## Words from devices -/

/-- The register that `INPUT` stores to. -/
def Instr.inputDest? : Instr → Option Register
  | .input dest _ => some dest
  | _ => none

/-- The register that `TIME` stores to. -/
def Instr.timeDest? : Instr → Option Register
  | .time dest => some dest
  | _ => none

/-- Where both lists have a word, it is the same word. -/
def Agreeing (vs ws : List UInt16) : Prop :=
  ∀ (k : Nat) (v w : UInt16), vs[k]? = some v → ws[k]? = some w → v = w

theorem agreeing_refl (vs : List UInt16) : Agreeing vs vs := by
  intro k v w hv hw
  exact Option.some.inj (hv.symm.trans hw)

theorem Agreeing.of_cons {v w : UInt16} {vs ws : List UInt16} (h : Agreeing (v :: vs) (w :: ws)) :
    v = w ∧ Agreeing vs ws :=
  ⟨h 0 v w rfl rfl, fun k => h (k + 1)⟩

theorem Agreeing.of_filterMap {α β : Type} {f : α → Option UInt16} {g : β → Option UInt16} {a : α}
    {b : β} {as : List α} {bs : List β} (hsome : (f a).isSome = (g b).isSome)
    (h : Agreeing ((a :: as).filterMap f) ((b :: bs).filterMap g)) :
    (∀ v w, f a = some v → g b = some w → v = w) ∧
      Agreeing (as.filterMap f) (bs.filterMap g) := by
  rw [List.filterMap_cons, List.filterMap_cons] at h
  cases ha : f a with
  | none =>
    cases hb : g b with
    | none =>
      rw [ha, hb] at h
      exact ⟨nofun, h⟩
    | some w => simp [ha, hb] at hsome
  | some v =>
    cases hb : g b with
    | none => simp [ha, hb] at hsome
    | some w =>
      rw [ha, hb] at h
      obtain ⟨hvw, h⟩ := h.of_cons
      refine ⟨?_, h⟩
      rintro _ _ ⟨⟩ ⟨⟩
      exact hvw

def Outcome.fault? {M : Type} : Outcome M → Option Fault
  | .next _ => none
  | .fault f _ => some f

/-- What happens to keypad and clock from outside, between two instructions. -/
structure Outside (K C : Type) where
  keypad : K → K
  clock : C → C

namespace Machine

section
variable {S K C : Type}

def outside (m : Machine S K C) (o : Outside K C) : Machine S K C :=
  (m.setKeypad (o.keypad m.keypad)).setClock (o.clock m.clock)

variable [Screen S] [Keypad K] [Clock C]

/-- The machine after a row of steps, each of them after something from outside. A step at which
there is a fault is one, too. -/
def stepsWith : List (Outside K C) → Machine S K C → Machine S K C
  | [], m => m
  | o :: os, m => (m.outside o).step.machine.stepsWith os

/-- The machines before these steps. -/
def beforeSteps : List (Outside K C) → Machine S K C → List (Machine S K C)
  | [], _ => []
  | o :: os, m => m.outside o :: (m.outside o).step.machine.beforeSteps os

/-- The word that the next instruction stores to a register. -/
def stored? (dest? : Instr → Option Register) (m : Machine S K C) : Option UInt16 :=
  (dest? m.current).map m.step.machine.cpu.reg

/-- The words that all `INPUT` instructions of a row of steps store, in their order. -/
def inputsOf (os : List (Outside K C)) (m : Machine S K C) : List UInt16 :=
  (m.beforeSteps os).filterMap (stored? Instr.inputDest?)

/-- The words that all `TIME` instructions of a row of steps store, in their order. -/
def timesOf (os : List (Outside K C)) (m : Machine S K C) : List UInt16 :=
  (m.beforeSteps os).filterMap (stored? Instr.timeDest?)

def faultsOf (os : List (Outside K C)) (m : Machine S K C) : List (Option Fault) :=
  (m.beforeSteps os).map fun p => p.step.fault?

def pixelsOf (os : List (Outside K C)) (m : Machine S K C) : List PixelEvent :=
  (m.beforeSteps os).filterMap fun p => p.pixel? p.current

end

/-- Pixels plotted one after another. -/
def draw {S : Type} [Screen S] (screen : S) (events : List PixelEvent) : S :=
  events.foldl (fun s e => Screen.plot s e.x e.y e.color) screen

section
variable {S K C : Type} [Screen S] [Keypad K] [Clock C] {m : Machine S K C} {dest : Register}

theorem stored?_input {id : Register} (hcur : m.current = .input dest id) :
    m.stored? Instr.inputDest? = some (m.inputWord id) := by
  have hreg : (m.complete (.input dest id)).cpu.reg dest = m.inputWord id :=
    Cpu.reg_setReg_self m.cpu dest _
  rw [stored?, step_eq hcur nofun, hcur]
  exact congrArg some hreg

theorem stored?_time (hcur : m.current = .time dest) :
    m.stored? Instr.timeDest? = some m.elapsed := by
  have hreg : (m.complete (.time dest)).cpu.reg dest = m.elapsed :=
    Cpu.reg_setReg_self m.cpu dest _
  rw [stored?, step_eq hcur nofun, hcur]
  exact congrArg some hreg

theorem screen_step (m : Machine S K C) :
    m.step.machine.screen = draw m.screen (m.pixel? m.current).toList := by
  cases hstep : m.step with
  | next k =>
    obtain rfl := of_step_next hstep
    change m.screenAfter m.current = _
    rw [screenAfter]
    cases m.pixel? m.current with
    | none => rfl
    | some e => rfl
  | fault f k =>
    obtain ⟨-, hcur, -, rfl⟩ := step_eq_fault_iff.1 hstep
    rw [hcur]
    rfl

theorem screen_stepsWith (os : List (Outside K C)) (m : Machine S K C) :
    (m.stepsWith os).screen = draw m.screen (m.pixelsOf os) := by
  induction os generalizing m with
  | nil => rfl
  | cons o os ih =>
    rw [stepsWith, ih, screen_step, pixelsOf, pixelsOf, beforeSteps, List.filterMap_cons]
    cases (m.outside o).pixel? (m.outside o).current with
    | none => rfl
    | some e => rfl

end

variable {S K C S' K' C' : Type}

/-- Two machines with different devices about to do the same. -/
structure Alongside (a : Machine S K C) (b : Machine S' K' C') : Prop where
  cpu : a.cpu.SameButTimer b.cpu
  random : b.random = a.random
  features : b.config.features = a.config.features

namespace Alongside

variable {a : Machine S K C} {b : Machine S' K' C'}

theorem symm (h : Alongside a b) : Alongside b a :=
  ⟨h.cpu.symm, h.random.symm, h.features.symm⟩

theorem current (h : Alongside a b) : b.current = a.current := by
  rw [Machine.current, h.cpu.memory, h.cpu.ip, Machine.current]

theorem outside (h : Alongside a b) (o : Outside K C) (o' : Outside K' C') :
    Alongside (a.outside o) (b.outside o') :=
  ⟨h.cpu, h.random, h.features⟩

theorem flagsOf (h : Alongside a b) (i : Instr) : b.flagsOf i = a.flagsOf i := by
  cases i with
  | alu op dest src => simp only [Machine.flagsOf, result, h.cpu.reg]
  | _ => rfl

theorem goesOnAt (h : Alongside a b) (i : Instr) : b.goesOnAt i = a.goesOnAt i := by
  cases i with
  | ret extra => simp only [Machine.goesOnAt, Cpu.top, h.cpu.memory, h.cpu.reg]
  | jmp target => exact h.cpu.reg target
  | jump cond addr => simp only [Machine.goesOnAt, Cpu.following, h.cpu.flags, h.cpu.ip]
  | call addr => rfl
  | jmpImm addr => rfl
  | _ => exact congrArg (· + 4) h.cpu.ip

theorem pixel? (h : Alongside a b) (i : Instr) : b.pixel? i = a.pixel? i := by
  cases i with
  | pixel x y => simp only [Machine.pixel?, h.cpu.reg, h.cpu.color]
  | _ => rfl

theorem randomAfter (h : Alongside a b) (i : Instr) : b.randomAfter i = a.randomAfter i := by
  cases i with
  | rnd dest => exact congrArg (·.next.2) h.random
  | _ => exact h.random

variable [Keypad K] [Clock C] [Keypad K'] [Clock C']

/-- An instruction does the same to both processors, if the word it reads from a device is the
same. -/
theorem work (h : Alongside a b) (i : Instr)
    (hinput : ∀ dest id, i = .input dest id → b.inputWord id = a.inputWord id)
    (htime : ∀ dest, i = .time dest → b.elapsed = a.elapsed) :
    (a.work i).SameButTimer (b.work i) := by
  cases i with
  | input dest id =>
    change (a.cpu.setReg dest (a.inputWord id)).SameButTimer (b.cpu.setReg dest (b.inputWord id))
    rw [hinput dest id rfl]
    exact h.cpu.setReg dest _
  | time dest =>
    change (a.cpu.setReg dest a.elapsed).SameButTimer (b.cpu.setReg dest b.elapsed)
    rw [htime dest rfl]
    exact h.cpu.setReg dest _
  | alu op dest src =>
    have hresult : b.result op dest src = a.result op dest src := by
      rw [result, h.cpu.reg, h.cpu.reg, result]
    rw [work_alu, work_alu, hresult]
    split
    · exact h.cpu.setReg dest _
    · exact h.cpu
  | _ =>
    -- the others read registers, memory, color and the random stream
    obtain ⟨⟨regs, memory, ip, flags, color, _, cycles⟩, _, _, _, random, _, _⟩ := a
    obtain ⟨⟨regs', memory', ip', flags', color', _, cycles'⟩, _, _, _, random', _, _⟩ := b
    obtain ⟨⟨rfl, rfl, rfl, rfl, rfl, rfl⟩, rfl, -⟩ := h
    exact ⟨rfl, rfl, rfl, rfl, rfl, rfl⟩

variable [Screen S] [Screen S']

theorem fault (h : Alongside a b) {f : Fault} {k : Machine S K C} (hstep : a.step = .fault f k) :
    b.step = .fault f b.halt := by
  obtain ⟨hstrict, hcur, haddr, -⟩ := step_eq_fault_iff.1 hstep
  have hstrict' : b.config.features.strict = true := by
    rw [h.features]
    exact hstrict
  exact step_eq_fault_iff.2 ⟨hstrict', h.current.trans hcur, haddr.trans h.cpu.ip.symm, rfl⟩

theorem complete (h : Alongside a b) (i : Instr)
    (hinput : ∀ dest id, i = .input dest id → b.inputWord id = a.inputWord id)
    (htime : ∀ dest, i = .time dest → b.elapsed = a.elapsed) :
    Alongside (a.complete i) (b.complete i) := by
  refine ⟨?_, h.randomAfter i, h.features⟩
  change ((a.work i).retire (a.goesOnAt i) (a.flagsOf i)).SameButTimer
    ((b.work i).retire (b.goesOnAt i) (b.flagsOf i))
  rw [h.goesOnAt, h.flagsOf]
  exact (h.work i hinput htime).retire _ _

theorem isSome_stored? (h : Alongside a b) (dest? : Instr → Option Register) :
    (a.stored? dest?).isSome = (b.stored? dest?).isSome := by
  rw [stored?, stored?, h.current, Option.isSome_map, Option.isSome_map]

theorem step (h : Alongside a b)
    (hinput : ∀ v w, a.stored? Instr.inputDest? = some v → b.stored? Instr.inputDest? = some w →
      v = w)
    (htime : ∀ v w, a.stored? Instr.timeDest? = some v → b.stored? Instr.timeDest? = some w →
      v = w) :
    Alongside a.step.machine b.step.machine ∧ a.step.fault? = b.step.fault? := by
  cases hstep : a.step with
  | fault f k =>
    obtain ⟨-, -, -, rfl⟩ := step_eq_fault_iff.1 hstep
    rw [h.fault hstep]
    exact ⟨⟨h.cpu, h.random, h.features⟩, rfl⟩
  | next k =>
    cases hstep' : b.step with
    | fault f k' =>
      rw [h.symm.fault hstep'] at hstep
      cases hstep
    | next k' =>
      obtain rfl := of_step_next hstep
      obtain rfl := of_step_next hstep'
      -- the hypotheses say nothing of the words themselves, only of what is found stored
      rw [h.current]
      refine ⟨h.complete _ (fun dest id hcur => ?_) (fun dest hcur => ?_), rfl⟩
      · exact (hinput _ _ (stored?_input hcur) (stored?_input (h.current.trans hcur))).symm
      · exact (htime _ _ (stored?_time hcur) (stored?_time (h.current.trans hcur))).symm

theorem stepsWith (h : Alongside a b) {as : List (Outside K C)} {bs : List (Outside K' C')}
    (hlength : as.length = bs.length) (hinput : Agreeing (a.inputsOf as) (b.inputsOf bs))
    (htime : Agreeing (a.timesOf as) (b.timesOf bs)) :
    Alongside (a.stepsWith as) (b.stepsWith bs) ∧ a.faultsOf as = b.faultsOf bs ∧
      a.pixelsOf as = b.pixelsOf bs := by
  -- the first steps are taken with the first words, the others with the words that are left
  induction as generalizing a b bs with
  | nil =>
    obtain rfl := List.length_eq_zero_iff.1 hlength.symm
    exact ⟨h, rfl, rfl⟩
  | cons o as ih =>
    obtain ⟨o', bs, rfl⟩ := List.exists_cons_of_length_eq_add_one hlength.symm
    have hnow : Alongside (a.outside o) (b.outside o') := h.outside o o'
    obtain ⟨hinput, hinputs⟩ := hinput.of_filterMap (hnow.isSome_stored? _)
    obtain ⟨htime, htimes⟩ := htime.of_filterMap (hnow.isSome_stored? _)
    obtain ⟨hnext, hfault⟩ := hnow.step hinput htime
    obtain ⟨hrest, hfaults, hpixels⟩ := ih hnext (Nat.succ.inj hlength) hinputs htimes
    have hpixel : (a.outside o).pixel? (a.outside o).current =
        (b.outside o').pixel? (b.outside o').current := by
      rw [hnow.pixel?, hnow.current]
    refine ⟨hrest, congrArg₂ List.cons hfault hfaults, ?_⟩
    rw [pixelsOf, pixelsOf, beforeSteps, beforeSteps, List.filterMap_cons, List.filterMap_cons,
      hpixel]
    split
    · exact hpixels
    · exact congrArg _ hpixels

end Alongside

theorem alongside_of_boot [Clock C] [Clock C'] {image : List UInt8} {screen : S} {keypad : K}
    {clock : C} {screen' : S'} {keypad' : K'} {clock' : C'} {random : Stream}
    {config config' : RunConfig} (hfeatures : config'.features = config.features)
    {a : Machine S K C} {b : Machine S' K' C'}
    (ha : boot image screen keypad clock random config = .ok a)
    (hb : boot image screen' keypad' clock' random config' = .ok b) : Alongside a b := by
  obtain ⟨memory, hload, rfl⟩ := boot_eq_ok_iff.1 ha
  obtain ⟨memory', hload', rfl⟩ := boot_eq_ok_iff.1 hb
  rw [hload] at hload'
  cases hload'
  exact ⟨⟨rfl, rfl, rfl, rfl, rfl, rfl⟩, rfl, hfeatures⟩

end Machine

/-- Two machines are booted from one image with the same features and the same random words, and
have devices of their own, changed from outside at any time. As long as their `INPUT` instructions
store the same words and their `TIME` instructions do, their processors are the same, they meet the
same faults and they draw the same pixels. -/
theorem devices_act_through_input_and_time {S K C S' K' C' : Type} [Screen S] [Keypad K] [Clock C]
    [Screen S'] [Keypad K'] [Clock C'] {image : List UInt8} {screen : S} {keypad : K} {clock : C}
    {screen' : S'} {keypad' : K'} {clock' : C'} {random : Stream} {config config' : RunConfig}
    (hfeatures : config'.features = config.features) {a : Machine S K C} {b : Machine S' K' C'}
    (ha : Machine.boot image screen keypad clock random config = .ok a)
    (hb : Machine.boot image screen' keypad' clock' random config' = .ok b)
    {as : List (Outside K C)} {bs : List (Outside K' C')} (hlength : as.length = bs.length)
    (hinput : Agreeing (a.inputsOf as) (b.inputsOf bs))
    (htime : Agreeing (a.timesOf as) (b.timesOf bs)) :
    (a.stepsWith as).cpu.SameButTimer (b.stepsWith bs).cpu ∧
    a.faultsOf as = b.faultsOf bs ∧
    a.pixelsOf as = b.pixelsOf bs ∧
    (a.stepsWith as).screen = Machine.draw a.screen (a.pixelsOf as) ∧
    (b.stepsWith bs).screen = Machine.draw b.screen (b.pixelsOf bs) := by
  have hboot : a.Alongside b := Machine.alongside_of_boot hfeatures ha hb
  obtain ⟨hafter, hfaults, hpixels⟩ := hboot.stepsWith hlength hinput htime
  exact ⟨hafter.cpu, hfaults, hpixels, Machine.screen_stepsWith as a,
    Machine.screen_stepsWith bs b⟩

/-- `INPUT A B`, `TIME C`, `PIXEL A C` and a byte that is no opcode. One host holds the key down all
the time and leaves the clock alone; the other has a clock that is ahead and goes faster, presses
the key just before it is read, and sets the clock back. -/
theorem exists_two_hosts :
    ∃ (a b : Machine PixelLog KeyState ManualClock) (as bs : List (Outside KeyState ManualClock)),
      Machine.boot [0x01, 2, 3, 0, 0x1a, 4, 0, 0, 0x17, 2, 4, 0, 0x20] PixelLog.empty
          ((KeyState.released .empty).set 0 true) (⟨0, 1⟩ : ManualClock) (.ofSeed 7)
          ⟨10, 100, ⟨true⟩⟩ = .ok a ∧
        Machine.boot [0x01, 2, 3, 0, 0x1a, 4, 0, 0, 0x17, 2, 4, 0, 0x20] PixelLog.empty
          (KeyState.released .empty) (⟨100, 3⟩ : ManualClock) (.ofSeed 7)
          ⟨5, 7, ⟨true⟩⟩ = .ok b ∧
        as.length = bs.length ∧ a.inputsOf as = [1] ∧ b.inputsOf bs = [1] ∧
        a.timesOf as = [1] ∧ b.timesOf bs = [1] ∧ a.pixelsOf as = [⟨1, 1, .black⟩] ∧
        a.faultsOf as = [none, none, none, some ⟨0x20, 12⟩] :=
  ⟨_, _, [⟨id, id⟩, ⟨id, id⟩, ⟨id, id⟩, ⟨id, id⟩],
    [⟨fun k => k.set 0 true, id⟩, ⟨fun k => k.set 0 false, fun c => c.set 101⟩, ⟨id, id⟩, ⟨id, id⟩],
    rfl, rfl, rfl, rfl, rfl, rfl, rfl, rfl, rfl⟩

theorem devices_act_through_input_and_time_of_two_hosts :
    ∃ (a b : Machine PixelLog KeyState ManualClock) (as bs : List (Outside KeyState ManualClock)),
      as.length = bs.length ∧ Agreeing (a.inputsOf as) (b.inputsOf bs) ∧
      Agreeing (a.timesOf as) (b.timesOf bs) ∧
      (a.stepsWith as).cpu.SameButTimer (b.stepsWith bs).cpu ∧
      b.faultsOf bs = [none, none, none, some ⟨0x20, 12⟩] ∧
      b.pixelsOf bs = [⟨1, 1, .black⟩] := by
  obtain ⟨a, b, as, bs, ha, hb, hlength, hinput, hinput', htime, htime', hpixels, hfaults⟩ :=
    exists_two_hosts
  have hfeatures :
      (⟨5, 7, ⟨true⟩⟩ : RunConfig).features = (⟨10, 100, ⟨true⟩⟩ : RunConfig).features := rfl
  have hinputs : Agreeing (a.inputsOf as) (b.inputsOf bs) := by
    rw [hinput, hinput']
    exact agreeing_refl _
  have htimes : Agreeing (a.timesOf as) (b.timesOf bs) := by
    rw [htime, htime']
    exact agreeing_refl _
  obtain ⟨hcpu, hfaults', hpixels', -, -⟩ :=
    devices_act_through_input_and_time hfeatures ha hb hlength hinputs htimes
  exact ⟨a, b, as, bs, hlength, hinputs, htimes, hcpu, hfaults'.symm.trans hfaults,
    hpixels'.symm.trans hpixels⟩

end Console16
