import Console16.Proofs.Machine.Loaded
import Console16.Proofs.Machine.Session

/-!
# Console16.Proofs.Machine.Invariants

What is true of a machine at any time of a session, whatever program it executes and whatever its
host does: it stands at a multiple of four, so that no instruction it fetches goes around the end of
memory; it has counted the instructions it executed; and its flags tell of the last of these and of
nothing else.

* `Machine.Accounts.step`: executing an instruction keeps the account.
* `Machine.accounts_of_executes`: so do all instructions, and what the host does between them.
* `session_keeps_account`: the account of every session with a machine that was just booted.
-/

namespace Console16

/-- The bytes of the next instruction lie one after another, and none of them beyond the end of
memory. -/
def Cpu.FetchesInRow (c : Cpu) : Prop :=
  ∃ h : c.ip.toNat + 3 < memorySize,
    c.memory.fetch c.ip =
      ⟨c.memory.bytes[c.ip.toNat], c.memory.bytes[c.ip.toNat + 1],
        c.memory.bytes[c.ip.toNat + 2], c.memory.bytes[c.ip.toNat + 3]⟩

theorem Memory.read_add (m : Memory) {a d : UInt16} {n : Nat} (hn : d.toNat = n)
    (h : a.toNat + n < memorySize) : m.read (a + d) = m.bytes[a.toNat + n] := by
  have hadd : (a + d).toNat = a.toNat + n := by
    rw [UInt16.toNat_add, hn]
    exact Nat.mod_eq_of_lt h
  simp only [read, index, Fin.getElem_fin, hadd]

theorem Cpu.fetchesInRow_of_aligned {c : Cpu} (h : c.ip.toNat % 4 = 0) : c.FetchesInRow := by
  have hlt := c.ip.toNat_lt
  have hend : c.ip.toNat + 3 < memorySize := by
    simp only [memorySize]
    omega
  have h1 : c.ip.toNat + 1 < memorySize := by omega
  have h2 : c.ip.toNat + 2 < memorySize := by omega
  refine ⟨hend, ?_⟩
  rw [Memory.fetch, Memory.read_add _ rfl h1, Memory.read_add _ rfl h2, Memory.read_add _ rfl hend]
  rfl

namespace Machine

variable {S K C : Type}

/-- The flags that the instructions of a history leave: those of the last of them. -/
def flagsAfter (past : List (Machine S K C)) : Flags :=
  match past.getLast? with
  | some p => p.flagsOf p.current
  | none => .clear

/-- A machine is what it must be after the instructions of a history. -/
structure Accounts (past : List (Machine S K C)) (m : Machine S K C) : Prop where
  aligned : m.cpu.ip.toNat % 4 = 0
  /-- It was so before every instruction. -/
  alignedBefore : ∀ p ∈ past, p.cpu.ip.toNat % 4 = 0
  cycles : m.cpu.cycles = past.length
  flags : m.cpu.flags = flagsAfter past

theorem Accounts.fetchesInRow {past : List (Machine S K C)} {m : Machine S K C}
    (h : Accounts past m) : ∀ p ∈ m :: past, p.cpu.FetchesInRow := by
  intro p hp
  rcases List.mem_cons.1 hp with rfl | hp
  · exact Cpu.fetchesInRow_of_aligned h.aligned
  · exact Cpu.fetchesInRow_of_aligned (h.alignedBefore p hp)

theorem accounts_of_boot [Clock C] {image : List UInt8} {screen : S} {keypad : K} {clock : C}
    {random : Stream} {config : RunConfig} {m : Machine S K C}
    (h : boot image screen keypad clock random config = .ok m) : Accounts [] m := by
  obtain ⟨memory, -, rfl⟩ := boot_eq_ok_iff.1 h
  exact ⟨rfl, nofun, rfl, rfl⟩

variable [Screen S] [Keypad K] [Clock C]

theorem Accounts.step {past : List (Machine S K C)} {m k : Machine S K C} (h : Accounts past m)
    (hstep : m.step = .next k) : Accounts (past ++ [m]) k := by
  obtain rfl := of_step_next hstep
  constructor
  case aligned => exact Cpu.ip_retire _ _ _
  case alignedBefore =>
    exact List.forall_mem_append.2 ⟨h.alignedBefore, List.forall_mem_singleton.2 h.aligned⟩
  case cycles =>
    rw [List.length_append, List.length_singleton, ← h.cycles]
    exact congrArg Nat.succ (cycles_work m m.current)
  case flags =>
    rw [flagsAfter, List.getLast?_concat]
    rfl

/-- Between two instructions a host changes nothing that is accounted for. -/
theorem accounts_of_executes {m₀ m : Machine S K C} {past : List (Machine S K C)}
    (h : Executes m₀ past m) (h₀ : Accounts [] m₀) : Accounts past m := by
  induction h with
  | start => exact h₀
  | step _ hstep ih => exact ih.step hstep
  | setReg _ _ _ ih => exact ⟨ih.aligned, ih.alignedBefore, ih.cycles, ih.flags⟩
  | setKeypad _ _ ih => exact ⟨ih.aligned, ih.alignedBefore, ih.cycles, ih.flags⟩
  | setClock _ _ ih => exact ⟨ih.aligned, ih.alignedBefore, ih.cycles, ih.flags⟩
  | halt _ ih => exact ⟨ih.aligned, ih.alignedBefore, ih.cycles, ih.flags⟩

end Machine

/-- A machine that was booted from an image that fits accounts for every session: it stands at a
multiple of four and fetches no instruction around the end of memory, has counted what it executed,
and has the flags of the last instruction. -/
theorem session_keeps_account {S K C : Type} [Screen S] [Keypad K] [Clock C] {image : List UInt8}
    (h : image.length ≤ memorySize) (screen : S) (keypad : K) (clock : C) (random : Stream)
    (config : RunConfig) :
    ∃ m₀, Machine.boot image screen keypad clock random config = .ok m₀ ∧
      ∀ ops : List (HostOp K C),
        (m₀.after ops).Accounts (m₀.history ops) ∧
        ∀ p ∈ m₀.after ops :: m₀.history ops, p.cpu.FetchesInRow := by
  obtain ⟨memory, hload, -⟩ := Memory.exists_load h
  obtain ⟨m₀, hboot, -, -⟩ := boot_of_load hload screen keypad clock random config
  refine ⟨m₀, hboot, fun ops => ?_⟩
  have haccounts := Machine.accounts_of_executes (Machine.executes_history m₀ ops)
    (Machine.accounts_of_boot hboot)
  exact ⟨haccounts, haccounts.fetchesInRow⟩

/-- A sum of two negative words, `ADD A A`, and a byte that is no opcode after it: the batch of a
strict machine fails there, and the flags of the sum are still set. -/
theorem exists_fault_session :
    ∃ m₀ : Machine PixelLog KeyState ManualClock,
      Machine.boot [0x0a, 2, 2, 0, 0x20, 0, 0, 0] PixelLog.empty (KeyState.released .empty)
          (⟨0, 1⟩ : ManualClock) (.ofSeed 7) ⟨10, 100, ⟨true⟩⟩ = .ok m₀ ∧
        (m₀.history [.setReg 2 0x8000, .batch 3, .step, .halt]).length = 1 ∧
        (m₀.after [.setReg 2 0x8000, .batch 3, .step, .halt]).cpu.flags =
          ⟨true, true, true, false⟩ :=
  ⟨_, rfl, rfl, rfl⟩

theorem session_keeps_account_of_fault :
    [(0x0a : UInt8), 2, 2, 0, 0x20, 0, 0, 0].length ≤ memorySize ∧
      ∃ m₀ : Machine PixelLog KeyState ManualClock,
        (m₀.after [.setReg 2 0x8000, .batch 3, .step, .halt]).Accounts
          (m₀.history [.setReg 2 0x8000, .batch 3, .step, .halt]) ∧
        (m₀.after [.setReg 2 0x8000, .batch 3, .step, .halt]).cpu.cycles = 1 ∧
        (m₀.after [.setReg 2 0x8000, .batch 3, .step, .halt]).cpu.flags =
          ⟨true, true, true, false⟩ := by
  have hfit : [(0x0a : UInt8), 2, 2, 0, 0x20, 0, 0, 0].length ≤ memorySize := by decide
  obtain ⟨m₀, hboot, hlength, hflags⟩ := exists_fault_session
  obtain ⟨m, hboot', h⟩ := session_keeps_account hfit PixelLog.empty (KeyState.released .empty)
    (⟨0, 1⟩ : ManualClock) (.ofSeed 7) ⟨10, 100, ⟨true⟩⟩
  obtain rfl : m₀ = m := Except.ok.inj (hboot.symm.trans hboot')
  obtain ⟨haccounts, -⟩ := h [.setReg 2 0x8000, .batch 3, .step, .halt]
  exact ⟨hfit, m₀, haccounts, haccounts.cycles.trans hlength, hflags⟩

end Console16
