import Console16.Config.Settings
import Console16.Proofs.Text.DecimalNumber
import Console16.Proofs.Text.Trim

/-!
# Console16.Proofs.Config.SettingsHistory

The settings under any sequence of calls. The first call that takes them settles them, whatever the
variables hold later; before it every read is refused, and after it every further attempt to take
them. A call that is refused leaves the settings as they are.

* `Settings.number?_eq_some_iff`: the texts that set a number.
* `SettingsCell.call_of_refused`: a refused call.
* `SettingsCell.taken_after`: any calls, of which the first that takes the settings decides.
* `first_init_decides`: what every call answers after any others.
-/

namespace Console16

open Text (Trimmed)

/-- What is done with the settings. Taking them looks at what the two variables hold just then. -/
inductive SettingsCall where
  | init (batch interval : Option String)
  | batchBudget
  | checkInterval
  deriving DecidableEq, Repr

/-- The settings that a call takes. -/
def SettingsCall.taken? : SettingsCall → Option Settings
  | .init batch interval => some (.ofVariables batch interval)
  | _ => none

inductive SettingsAnswer where
  | done
  | value (n : Option Nat)
  | refused (e : SettingsError)
  deriving DecidableEq, Repr

namespace Settings

variable {limit n : Nat} {text : String} {batch interval : Option String}

/-- The text is a numeral below the limit, with blanks around it or none. -/
def Sets (limit : Nat) (text : String) (n : Nat) : Prop :=
  ∃ core, Trimmed text.toList core ∧ Text.Numeral.Writes core n ∧ n < limit

theorem number?_eq_some_iff : number? limit text = some n ↔ Sets limit text n := by
  rw [number?, Text.Numeral.parse?_eq_some_iff]
  constructor
  · rintro ⟨hwrites, hlt⟩
    exact ⟨_, Text.trimmed_trimBlank _, hwrites, hlt⟩
  · rintro ⟨core, htrimmed, hwrites, hlt⟩
    rw [htrimmed.trimBlank_eq]
    exact ⟨hwrites, hlt⟩

theorem batchBudget_eq_some_iff :
    (ofVariables batch interval).batchBudget = some n ↔
      ∃ text, batch = some text ∧ Sets (2 ^ 64) text n := by
  simp only [ofVariables, Option.bind_eq_some_iff, number?_eq_some_iff]
  rfl

theorem checkInterval_eq_some_iff :
    (ofVariables batch interval).checkInterval = some n ↔
      ∃ text, interval = some text ∧ Sets (2 ^ 32) text n ∧ 0 < n := by
  simp only [ofVariables, Option.filter_eq_some_iff, Option.bind_eq_some_iff, number?_eq_some_iff,
    decide_eq_true_eq]
  constructor
  · rintro ⟨⟨text, htext, hsets⟩, hpos⟩
    exact ⟨text, htext, hsets, hpos⟩
  · rintro ⟨text, htext, hsets, hpos⟩
    exact ⟨⟨text, htext, hsets⟩, hpos⟩

end Settings

namespace SettingsCell

/-- What a read answers. -/
def answer (cell : SettingsCell) (setting : Settings → Option Nat) : SettingsAnswer :=
  match cell.read with
  | .ok s => .value (setting s)
  | .error e => .refused e

def call (cell : SettingsCell) : SettingsCall → SettingsAnswer × SettingsCell
  | .init batch interval =>
    match cell.init (.ofVariables batch interval) with
    | .ok taken => (.done, taken)
    | .error e => (.refused e, cell)
  | .batchBudget => (cell.answer Settings.batchBudget, cell)
  | .checkInterval => (cell.answer Settings.checkInterval, cell)

/-- The settings after some calls. -/
def after (cell : SettingsCell) (calls : List SettingsCall) : SettingsCell :=
  calls.foldl (fun cell c => (cell.call c).2) cell

variable {cell : SettingsCell} {calls past later : List SettingsCall}

theorem call_of_refused {c : SettingsCall} {e : SettingsError}
    (h : (cell.call c).1 = .refused e) : (cell.call c).2 = cell := by
  cases c with
  | init batch interval =>
    simp only [call] at h ⊢
    split at h
    · cases h
    · rfl
  | batchBudget => rfl
  | checkInterval => rfl

theorem after_append (cell : SettingsCell) (past later : List SettingsCall) :
    cell.after (past ++ later) = (cell.after past).after later :=
  List.foldl_append

/-- Settings that were taken stay, whatever is called. -/
theorem after_of_taken (s : Settings) (calls : List SettingsCall) :
    after ⟨some s⟩ calls = ⟨some s⟩ := by
  induction calls with
  | nil => rfl
  | cons c calls ih =>
    cases c with
    | init batch interval => exact ih
    | batchBudget => exact ih
    | checkInterval => exact ih

theorem after_empty_of_reads (h : ∀ c ∈ calls, c.taken? = none) : empty.after calls = empty := by
  induction calls with
  | nil => rfl
  | cons c calls ih =>
    have ih := ih fun d hd => h d (List.mem_cons_of_mem c hd)
    cases c with
    | init batch interval => cases h _ List.mem_cons_self
    | batchBudget => exact ih
    | checkInterval => exact ih

/-- The first call that takes the settings decides. -/
theorem taken_after {batch interval : Option String} (h : ∀ c ∈ past, c.taken? = none)
    (later : List SettingsCall) :
    empty.after (past ++ .init batch interval :: later) =
      ⟨some (.ofVariables batch interval)⟩ := by
  rw [after_append, after_empty_of_reads h]
  exact after_of_taken _ later

end SettingsCell

open SettingsCell in
/-- After any calls on fresh settings: as long as none of them has taken the settings, every read is
refused and taking them succeeds. After the first that has, taking them is refused, and reads give
what the two variables held then: a number, if its text is a numeral in range with blanks around it
or none. A refused call changes nothing. -/
theorem first_init_decides (calls : List SettingsCall) :
    ((∀ c ∈ calls, c.taken? = none) →
      let cell := empty.after calls
      (cell.call .batchBudget).1 = .refused .notInitialized ∧
      (cell.call .checkInterval).1 = .refused .notInitialized ∧
      ∀ batch interval, (cell.call (.init batch interval)).1 = .done) ∧
    (∀ past batch interval later, calls = past ++ .init batch interval :: later →
      (∀ c ∈ past, c.taken? = none) →
      let cell := empty.after calls
      (∀ batch interval, (cell.call (.init batch interval)).1 = .refused .alreadyInitialized) ∧
      (∃ v, (cell.call .batchBudget).1 = .value v ∧
        ∀ n, v = some n ↔ ∃ text, batch = some text ∧ Settings.Sets (2 ^ 64) text n) ∧
      ∃ v, (cell.call .checkInterval).1 = .value v ∧
        ∀ n, v = some n ↔ ∃ text, interval = some text ∧ Settings.Sets (2 ^ 32) text n ∧ 0 < n) ∧
    ∀ c e, ((empty.after calls).call c).1 = .refused e →
      ((empty.after calls).call c).2 = empty.after calls := by
  refine ⟨?_, ?_, fun c e => call_of_refused⟩
  · intro hnone cell
    have hcell : cell = empty := after_empty_of_reads hnone
    rw [hcell]
    exact ⟨rfl, rfl, fun _ _ => rfl⟩
  · rintro past batch interval later rfl hpast cell
    have hcell : cell = ⟨some (.ofVariables batch interval)⟩ := taken_after hpast later
    rw [hcell]
    refine ⟨fun _ _ => rfl, ⟨_, rfl, fun n => ?_⟩, ⟨_, rfl, fun n => ?_⟩⟩
    · exact Settings.batchBudget_eq_some_iff
    · exact Settings.checkInterval_eq_some_iff

open SettingsCell in
/-- A read that comes too early, a numeral with a sign, zeros and blanks, and a number that is too
small. What the variables hold when the settings are taken again does not count. -/
theorem first_init_decides_of_padded_numeral :
    let calls := [.batchBudget, .init (some " +0025\u00a0") (some "0"), .init (some "7") none]
    ((empty.after [.batchBudget]).call .checkInterval).1 = .refused .notInitialized ∧
      ((empty.after [.batchBudget]).call .checkInterval).2 = empty.after [.batchBudget] ∧
      ((empty.after calls).call .batchBudget).1 = .value (some 25) ∧
      ∃ v, ((empty.after calls).call .checkInterval).1 = .value v ∧ v ≠ some 0 := by
  intro calls
  obtain ⟨hearly, -, hrefused⟩ := first_init_decides [.batchBudget]
  have hread := (hearly (by simp [SettingsCall.taken?])).2.1
  obtain ⟨-, ⟨v, hv, hbudget⟩, w, hw, hinterval⟩ :=
    (first_init_decides calls).2.1 [.batchBudget] _ _ [.init (some "7") none] rfl
      (by simp [SettingsCall.taken?])
  have hsets : Settings.Sets (2 ^ 64) " +0025\u00a0" 25 := Settings.number?_eq_some_iff.1 (by rfl)
  obtain rfl := (hbudget 25).2 ⟨_, rfl, hsets⟩
  refine ⟨hread, hrefused _ _ hread, hv, w, hw, fun hzero => ?_⟩
  obtain ⟨_, _, _, hpos⟩ := (hinterval 0).1 hzero
  exact absurd hpos (by decide)

end Console16
