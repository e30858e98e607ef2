import Console16.Proofs.Asm.Image
import Console16.Proofs.Asm.Recast
import Console16.Proofs.Source.Shift

/-!
# Console16.Proofs.Asm.Concat

Two texts with a line feed between them, read as one. What a line says does not depend on where it
stands, but for the lines and the spans in it. So the second text is read after the first as it is
read alone, everything in it moved: its errors after the errors of the first, its statements after
the statements, and its labels to offsets after the bytes of the first. Only a name declared in both
texts would tie them together.

* `Shift.ofTokens_tokens`: what a moved line says.
* `Draft.append_read`, `Draft.ofLines_append`: one more line, and all lines, of the second text.
* `Listing.ofSource_append`: the listing of the two texts, or their errors.
-/

namespace Console16

namespace Shift

variable (d : Shift)

def ref (r : LabelRef) : LabelRef :=
  ⟨r.name, r.line + d.lines, d.span r.span⟩

def target : Target → Target
  | .value v => .value v
  | .label r => .label (d.ref r)

def stmt : Stmt Target → Stmt Target
  | .instr line op operands => .instr (line + d.lines) op (operands.map d.target)
  | .data line bytes => .data (line + d.lines) bytes

def item : Item → Item
  | .stmt s => .stmt (d.stmt s)
  | .label name span => .label name (d.span span)

def error : AsmError → AsmError
  | .located p line span => .located p (line + d.lines) (d.span span)
  | .outputTooLarge byteLen => .outputTooLarge byteLen

def result {α β : Type} (f : α → β) : Except AsmError α → Except AsmError β
  | .ok a => .ok (f a)
  | .error e => .error (d.error e)

@[simp] theorem byteLen_stmt (s : Stmt Target) : (d.stmt s).byteLen = s.byteLen := by
  cases s <;> rfl

/-! ## One line -/

/-- A moved line is told with its number and its spans moved. -/
def recast : Recast where
  name := id
  word := id
  line n := n + d.lines
  span := d.span
  through_span := d.through_span

theorem token_recast : d.recast.token = d.token := by
  funext t
  obtain ⟨kind, text, span⟩ := t
  cases kind <;> rfl

theorem target_recast : d.recast.target = d.target := by
  funext t
  cases t <;> rfl

theorem item_recast : d.recast.item = d.item := by
  funext it
  rcases it with (_ | _) | ⟨name, span⟩
  · simp only [Recast.item, Recast.stmt, item, stmt, target_recast]
    rfl
  · rfl
  · rfl

theorem error_recast : d.recast.error = d.error := by
  funext e
  rcases e with ⟨p, line, span⟩ | byteLen
  · cases p <;> rfl
  · rfl

theorem ofTokens_tokens (line : Nat) (toks : List Token) :
    Item.ofTokens (line + d.lines) (toks.map d.token) =
      d.result (Option.map d.item) (Item.ofTokens line toks) := by
  have h := d.recast.ofTokens_tokens line toks
  rw [token_recast, item_recast] at h
  rw [← show d.recast.line line = line + d.lines from rfl, h]
  cases Item.ofTokens line toks with
  | ok it => rfl
  | error e => rw [Recast.result, result, error_recast]

theorem item_line (l : Line) : (d.line l).item = d.result (Option.map d.item) l.item := by
  unfold Line.item
  rw [tokens_line]
  exact d.ofTokens_tokens l.number l.tokens

end Shift

/-! ## Two listings -/

/-- A table with the labels of another after its own, those at offsets from `base`. -/
def LabelTable.append (base : Nat) (t u : LabelTable) : LabelTable :=
  ⟨t.entries ++ u.entries.map fun entry => (entry.1, base + entry.2)⟩

/-- A listing with the statements and the labels of another, moved down, after its own. -/
def Listing.append (d : Shift) (l m : Listing) : Listing :=
  ⟨l.stmts ++ m.stmts.map d.stmt, l.labels.append l.byteLen m.labels, l.byteLen + m.byteLen⟩

namespace LabelTable

variable {base : Nat} {t u : LabelTable} {name : String}

theorem toList_append : (t.append base u).toList =
    t.toList ++ u.toList.map fun entry => (entry.1, base + entry.2) := by
  simp [append, toList]

theorem get?_append_eq_none_iff :
    (t.append base u).get? name = none ↔ t.get? name = none ∧ u.get? name = none := by
  simp only [get?_eq_lookup, toList_append, List.lookup_eq_none_iff, List.mem_append, List.mem_map]
  constructor
  · intro h
    refine ⟨fun entry he => h entry (.inl he), fun entry he => ?_⟩
    exact h (entry.1, base + entry.2) (.inr ⟨entry, he, rfl⟩)
  · rintro ⟨ht, hu⟩ entry (he | ⟨entry, he, rfl⟩)
    · exact ht entry he
    · exact hu entry he

theorem insert?_append (h : t.get? name = none) (offset : Nat) :
    (t.append base u).insert? name (base + offset) =
      (u.insert? name offset).map (t.append base) := by
  have hboth : (t.append base u).get? name = none ↔ u.get? name = none := by
    rw [get?_append_eq_none_iff]
    exact and_iff_right h
  unfold insert?
  cases hu : u.get? name with
  | none =>
    rw [hboth.2 hu]
    simp [append]
  | some o =>
    cases ht : (t.append base u).get? name with
    | none => simp [hboth.1 ht] at hu
    | some _ => rfl

end LabelTable

namespace Listing

variable (d : Shift) (l m : Listing)

theorem append_empty : l.append d empty = l := by
  simp [append, empty, LabelTable.append, LabelTable.empty]

theorem append_add (s : Stmt Target) : (l.append d m).add (d.stmt s) = l.append d (m.add s) := by
  simp [append, add, Nat.add_assoc]

theorem append_declare? {name : String} (h : l.labels.get? name = none) :
    (l.append d m).declare? name = (m.declare? name).map (l.append d) := by
  simp only [declare?, append, LabelTable.insert?_append h, Option.map_map]
  rfl

/-- The outcome for two texts in a row, the second moved down. -/
def join (d : Shift) : Except (List AsmError) Listing → Except (List AsmError) Listing →
    Except (List AsmError) Listing
  | .ok l, .ok m => .ok (l.append d m)
  | .ok _, .error below => .error (below.map d.error)
  | .error errors, .ok _ => .error errors
  | .error errors, .error below => .error (errors ++ below.map d.error)

end Listing

/-! ## Two texts -/

namespace Draft

def append (d : Shift) (x y : Draft) : Draft :=
  ⟨x.listing.append d y.listing, x.errors ++ y.errors.map d.error⟩

/-- The listing, or the errors if there are any. -/
def outcome (x : Draft) : Except (List AsmError) Listing :=
  if x.errors.isEmpty then .ok x.listing else .error x.errors.toList

variable (d : Shift) (x y : Draft)

theorem append_empty : x.append d empty = x := by
  simp [append, empty, Listing.append_empty]

theorem append_fail (e : AsmError) : (x.append d y).fail (d.error e) = x.append d (y.fail e) := by
  simp [append, fail]

theorem append_place (line : Nat) (it : Item)
    (h : ∀ name span, it = .label name span → x.listing.labels.get? name = none) :
    (x.append d y).place (line + d.lines) (d.item it) = x.append d (y.place line it) := by
  cases it with
  | stmt s =>
    simp only [Shift.item, place, append]
    rw [Listing.append_add]
  | label name span =>
    have hnew : (x.append d y).listing.declare? name =
        (y.listing.declare? name).map (x.listing.append d) :=
      Listing.append_declare? d x.listing y.listing (h name span rfl)
    simp only [Shift.item, place]
    cases hdecl : y.listing.declare? name with
    | none =>
      rw [hnew, hdecl]
      exact append_fail d x y (.located (.duplicateLabel name) line span)
    | some m =>
      rw [hnew, hdecl]
      rfl

/-- A line of the second text does after the first what it does in the second text alone. -/
theorem append_read {l : Line}
    (h : ∀ name, l.label? = some name → x.listing.labels.get? name = none) :
    (x.append d y).read (d.line l) = x.append d (y.read l) := by
  have hitem := d.item_line l
  unfold Line.item at hitem
  unfold Line.label? Line.item at h
  unfold read
  rw [hitem]
  generalize Item.ofTokens l.number l.tokens = said at h ⊢
  rcases said with e | _ | it
  · exact append_fail d x y e
  · rfl
  · apply append_place
    rintro name span rfl
    exact h name rfl

theorem ofLines_append {lines below : List Line}
    (h : ∀ name ∈ labelsOf below, name ∉ labelsOf lines) :
    ofLines (lines ++ below.map d.line) = (ofLines lines).append d (ofLines below) := by
  induction below using List.reverseRecOn with
  | nil => simp [append_empty]
  | append_singleton ls l ih =>
    rw [labelsOf_append, labelsOf_singleton] at h
    have ih := ih fun name hname => h name (List.mem_append_left _ hname)
    rw [List.map_append, ← List.append_assoc, List.map_singleton, ofLines_concat, ih,
      ofLines_concat]
    apply append_read
    -- the table of the first text has no label that the second declares
    intro name hname
    rw [get?_labels_eq_none_iff]
    exact h name (by simp [hname])

theorem outcome_append : (x.append d y).outcome = Listing.join d x.outcome y.outcome := by
  unfold outcome append
  by_cases hx : x.errors = #[]
  · by_cases hy : y.errors = #[]
    · simp [hx, hy, Listing.join]
    · simp [hx, hy, Listing.join]
  · by_cases hy : y.errors = #[]
    · simp [hx, hy, Listing.join]
    · simp [hx, hy, Listing.join]

end Draft

/-- A line of the text declares the name and says nothing else. -/
def Declares (source : List Char) (name : String) : Prop :=
  ∃ row ∈ source.splitOn '\n', Says (words row) (.label name)

theorem declares_iff {source : List Char} {name : String} :
    Declares source name ↔ name ∈ labelsOf (sourceLines source) := by
  rw [Declares, ← texts_sourceLines, labelsOf, List.mem_filterMap]
  simp only [List.mem_map, exists_exists_and_eq_and, Line.label?_eq_some_iff]

/-- Two texts with a line feed between them are read as each of them alone. -/
theorem Listing.ofSource_append {source below : List Char}
    (h : ∀ name, Declares source name → ¬Declares below name) :
    ofSource (source ++ '\n' :: below) =
      join (Shift.past source) (ofSource source) (ofSource below) := by
  have hlines : ∀ name ∈ labelsOf (sourceLines below), name ∉ labelsOf (sourceLines source) := by
    intro name hbelow hsource
    exact h name (declares_iff.2 hsource) (declares_iff.2 hbelow)
  have hread := Draft.ofLines_append (Shift.past source) hlines
  rw [← sourceLines_append] at hread
  have houtcome : ofSource (source ++ '\n' :: below) =
      (Draft.ofLines (sourceLines (source ++ '\n' :: below))).outcome := rfl
  rw [houtcome, hread, Draft.outcome_append]
  rfl

theorem Listing.ofSource_append_of_two_labels :
    (∀ name, Declares "a:\nJMPI b ; é".toList name → ¬Declares "b:\nJMPI a".toList name) ∧
      ofSource ("a:\nJMPI b ; é".toList ++ '\n' :: "b:\nJMPI a".toList) =
        join (Shift.past "a:\nJMPI b ; é".toList) (ofSource "a:\nJMPI b ; é".toList)
          (ofSource "b:\nJMPI a".toList) := by
  have ha : labelsOf (sourceLines "a:\nJMPI b ; é".toList) = ["a"] := by decide +kernel
  have hb : labelsOf (sourceLines "b:\nJMPI a".toList) = ["b"] := by decide +kernel
  have h : ∀ name, Declares "a:\nJMPI b ; é".toList name → ¬Declares "b:\nJMPI a".toList name := by
    intro name
    rw [declares_iff, declares_iff, ha, hb, List.mem_singleton, List.mem_singleton]
    rintro rfl
    decide
  exact ⟨h, Listing.ofSource_append h⟩

end Console16
