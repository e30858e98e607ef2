import Console16.Asm.Parse
import Mathlib.Algebra.Order.Ring.Nat
import Mathlib.Data.List.Induction
import Mathlib.Data.List.Nodup

/-!
# Console16.Proofs.Asm.Layout

What has been laid out after some lines, said of the lines. Reading a line adds what that line alone
says; only a label looks back, at the labels before it. Each fact is proved of one line more and
then, by induction from the last line, of a whole text.

* `Draft.stmts_ofLines`, `Draft.byteLen_ofLines`: the statements of the lines and their bytes.
* `Draft.get?_labels_of_split`: a label stands for the bytes before its first declaration.
* `Draft.errors_read_eq`: the error of a line comes after the errors before it.
* `Draft.errors_ofLines_iff`: there is no error exactly when every line is in order and no name is
  declared twice.
-/

namespace Console16

/-! ## Lines -/

namespace Line

/-- What a line is taken for. -/
def item (l : Line) : Except AsmError (Option Item) :=
  Item.ofTokens l.number l.tokens

def stmt? (l : Line) : Option (Stmt Target) :=
  match l.item with
  | .ok (some (.stmt s)) => some s
  | _ => none

def label? (l : Line) : Option String :=
  match l.item with
  | .ok (some (.label name _)) => some name
  | _ => none

/-- The error of a line, given the labels before it. -/
def error? (labels : LabelTable) (l : Line) : Option AsmError :=
  match l.item with
  | .error e => some e
  | .ok (some (.label name span)) =>
    if (labels.get? name).isSome then some (.located (.duplicateLabel name) l.number span) else none
  | .ok _ => none

theorem error?_eq_none_iff {labels : LabelTable} {l : Line} :
    l.error? labels = none ↔
      (∃ it, l.item = .ok it) ∧ ∀ name, l.label? = some name → labels.get? name = none := by
  unfold error? label?
  rcases l.item with e | _ | s | ⟨name, span⟩
  · simp
  · simp
  · simp
  · simp

end Line

/-- The statements of some lines. -/
def stmtsOf (lines : List Line) : List (Stmt Target) :=
  lines.filterMap Line.stmt?

/-- The names some lines declare. -/
def labelsOf (lines : List Line) : List String :=
  lines.filterMap Line.label?

/-- The bytes some statements take. -/
def imageLen {T : Type} (stmts : List (Stmt T)) : Nat :=
  (stmts.map Stmt.byteLen).sum

@[simp] theorem imageLen_nil {T : Type} : imageLen ([] : List (Stmt T)) = 0 := rfl

@[simp] theorem imageLen_cons {T : Type} (s : Stmt T) (ss : List (Stmt T)) :
    imageLen (s :: ss) = s.byteLen + imageLen ss := by
  simp [imageLen]

@[simp] theorem imageLen_append {T : Type} (ss us : List (Stmt T)) :
    imageLen (ss ++ us) = imageLen ss + imageLen us := by
  simp [imageLen]

theorem imageLen_dvd {T : Type} (ss : List (Stmt T)) : codeWordSize ∣ imageLen ss := by
  induction ss with
  | nil => exact Nat.dvd_zero codeWordSize
  | cons s ss ih =>
    rw [imageLen_cons]
    exact Nat.dvd_add s.byteLen_dvd ih

theorem stmtsOf_append (ls ms : List Line) : stmtsOf (ls ++ ms) = stmtsOf ls ++ stmtsOf ms := by
  simp [stmtsOf]

theorem labelsOf_append (ls ms : List Line) : labelsOf (ls ++ ms) = labelsOf ls ++ labelsOf ms := by
  simp [labelsOf]

theorem stmtsOf_singleton (l : Line) : stmtsOf [l] = l.stmt?.toList := by
  cases h : l.stmt? <;> simp [stmtsOf, h]

theorem labelsOf_singleton (l : Line) : labelsOf [l] = l.label?.toList := by
  cases h : l.label? <;> simp [labelsOf, h]

/-! ## Labels -/

namespace LabelTable

theorem get?_of_insert? {t u : LabelTable} {name : String} {offset : Nat}
    (h : t.insert? name offset = some u) (x : String) :
    u.get? x = if x = name then some offset else t.get? x := by
  have hnew : t.get? name = none := by
    rw [← Option.not_isSome_iff_eq_none]
    intro hs
    rw [insert?_eq_none_iff.2 hs] at h
    cases h
  rw [get?_eq_lookup, toList_insert? h, List.lookup_append, ← get?_eq_lookup]
  by_cases hx : x = name
  · subst hx
    simp [hnew]
  · have hbeq : (x == name) = false := beq_eq_false_iff_ne.2 hx
    simp [hx, List.lookup_cons, hbeq]

theorem get?_eq_none_iff {t : LabelTable} {name : String} :
    t.get? name = none ↔ name ∉ t.toList.map Prod.fst := by
  simp only [get?_eq_lookup, List.lookup_eq_none_iff, List.mem_map, not_exists, not_and,
    bne_iff_ne, ne_eq]
  exact forall₂_congr fun _ _ => not_congr eq_comm

end LabelTable

theorem Listing.of_declare? {l l' : Listing} {name : String} (h : l.declare? name = some l') :
    l'.stmts = l.stmts ∧ l'.byteLen = l.byteLen ∧
      l.labels.insert? name l.byteLen = some l'.labels := by
  obtain ⟨labels, hl, rfl⟩ := Option.map_eq_some_iff.1 h
  exact ⟨rfl, rfl, hl⟩

/-! ## One line -/

namespace Draft

/-- The three things a line can do: nothing to the listing, one more statement, a new label. -/
theorem read_cases (d : Draft) (l : Line) :
    (l.stmt? = none ∧ l.label? = none ∧ (d.read l).listing = d.listing) ∨
    (∃ s, l.stmt? = some s ∧ l.label? = none ∧ (d.read l).listing = d.listing.add s) ∨
    (∃ name, l.stmt? = none ∧ l.label? = some name ∧
      (d.read l).listing = (d.listing.declare? name).getD d.listing) := by
  unfold read Line.stmt? Line.label? Line.item
  rcases Item.ofTokens l.number l.tokens with e | _ | s | ⟨name, span⟩
  · exact .inl ⟨rfl, rfl, rfl⟩
  · exact .inl ⟨rfl, rfl, rfl⟩
  · exact .inr (.inl ⟨s, rfl, rfl, rfl⟩)
  · refine .inr (.inr ⟨name, rfl, rfl, ?_⟩)
    cases h : d.listing.declare? name <;> simp [place, h, fail]

theorem stmts_read (d : Draft) (l : Line) :
    (d.read l).listing.stmts.toList = d.listing.stmts.toList ++ l.stmt?.toList := by
  rcases read_cases d l with ⟨hs, -, hr⟩ | ⟨s, hs, -, hr⟩ | ⟨name, hs, -, hr⟩
  · simp [hs, hr]
  · simp [hs, hr]
  · cases h : d.listing.declare? name with
    | none => simp [hs, hr, h]
    | some l' => simp [hs, hr, h, (Listing.of_declare? h).1]

theorem byteLen_read (d : Draft) (l : Line) :
    (d.read l).listing.byteLen = d.listing.byteLen + imageLen l.stmt?.toList := by
  rcases read_cases d l with ⟨hs, -, hr⟩ | ⟨s, hs, -, hr⟩ | ⟨name, hs, -, hr⟩
  · simp [hs, hr]
  · simp [hs, hr]
  · cases h : d.listing.declare? name with
    | none => simp [hs, hr, h]
    | some l' => simp [hs, hr, h, (Listing.of_declare? h).2.1]

/-- A line changes the offset of the name it declares, if that name is new, and of no other. -/
theorem get?_labels_read (d : Draft) (l : Line) (name : String) :
    (d.read l).listing.labels.get? name =
      if l.label? = some name ∧ d.listing.labels.get? name = none then some d.listing.byteLen
      else d.listing.labels.get? name := by
  rcases read_cases d l with ⟨-, hl, hr⟩ | ⟨s, -, hl, hr⟩ | ⟨n, -, hl, hr⟩
  · simp [hl, hr]
  · simp [hl, hr, Listing.add]
  · rw [hr, hl]
    cases h : d.listing.declare? n with
    | none =>
      have hn := Listing.declare?_eq_none_iff.1 h
      rw [Option.getD_none, if_neg]
      rintro ⟨hname, hnone⟩
      cases hname
      simp [hnone] at hn
    | some l' =>
      have hnew : d.listing.labels.get? n = none := by
        rw [← Option.not_isSome_iff_eq_none, ← Listing.declare?_eq_none_iff, h]
        simp
      rw [Option.getD_some, LabelTable.get?_of_insert? (Listing.of_declare? h).2.2]
      by_cases hname : name = n
      · subst hname
        simp [hnew]
      · rw [if_neg hname, if_neg]
        rintro ⟨he, -⟩
        exact hname (Option.some.inj he).symm

theorem errors_read_eq (d : Draft) (l : Line) :
    (d.read l).errors.toList = d.errors.toList ++ (l.error? d.listing.labels).toList := by
  unfold read Line.error? Line.item
  rcases Item.ofTokens l.number l.tokens with e | _ | s | ⟨name, span⟩
  · simp [fail]
  · simp
  · simp [place]
  · cases h : d.listing.declare? name with
    | none =>
      have hold := Listing.declare?_eq_none_iff.1 h
      simp [place, h, fail, hold]
    | some l' =>
      have hnew : d.listing.labels.get? name = none := by
        rw [← Option.not_isSome_iff_eq_none, ← Listing.declare?_eq_none_iff, h]
        simp
      simp [place, h, hnew]

theorem errors_read_iff (d : Draft) (l : Line) :
    (d.read l).errors.toList = [] ↔
      d.errors.toList = [] ∧ (∃ it, l.item = .ok it) ∧
        ∀ name, l.label? = some name → d.listing.labels.get? name = none := by
  rw [errors_read_eq, List.append_eq_nil_iff, Option.toList_eq_nil_iff, Line.error?_eq_none_iff]

/-! ## A whole text -/

@[simp] theorem ofLines_nil : ofLines [] = empty := rfl

@[simp] theorem ofLines_concat (ls : List Line) (l : Line) :
    ofLines (ls ++ [l]) = (ofLines ls).read l := by
  simp [ofLines]

theorem stmts_ofLines (lines : List Line) :
    (ofLines lines).listing.stmts.toList = stmtsOf lines := by
  induction lines using List.reverseRecOn with
  | nil => rfl
  | append_singleton ls l ih =>
    rw [ofLines_concat, stmts_read, ih, stmtsOf_append, stmtsOf_singleton]

theorem byteLen_ofLines (lines : List Line) :
    (ofLines lines).listing.byteLen = imageLen (stmtsOf lines) := by
  induction lines using List.reverseRecOn with
  | nil => rfl
  | append_singleton ls l ih =>
    rw [ofLines_concat, byteLen_read, ih, stmtsOf_append, stmtsOf_singleton, imageLen_append]

theorem get?_labels_eq_none_iff (lines : List Line) (name : String) :
    (ofLines lines).listing.labels.get? name = none ↔ name ∉ labelsOf lines := by
  induction lines using List.reverseRecOn with
  | nil => simp [labelsOf, Draft.empty, Listing.empty, LabelTable.get?_eq_lookup]
  | append_singleton ls l ih =>
    rw [ofLines_concat, get?_labels_read, labelsOf_append, labelsOf_singleton]
    by_cases h : l.label? = some name
    · by_cases hn : (ofLines ls).listing.labels.get? name = none
      · simp [h, hn]
      · simp [h, hn]
    · simp [h, ih]

theorem get?_labels_of_split {before after : List Line} {l : Line} {name : String}
    (hl : l.label? = some name) (hnew : name ∉ labelsOf before) :
    (ofLines (before ++ l :: after)).listing.labels.get? name =
      some (imageLen (stmtsOf before)) := by
  induction after using List.reverseRecOn with
  | nil =>
    rw [ofLines_concat, get?_labels_read, if_pos ⟨hl, (get?_labels_eq_none_iff before name).2 hnew⟩,
      byteLen_ofLines]
  | append_singleton after m ih =>
    rw [← List.cons_append, ← List.append_assoc, ofLines_concat, get?_labels_read, ih]
    simp

theorem errors_ofLines_iff (lines : List Line) :
    (ofLines lines).errors.toList = [] ↔
      (∀ l ∈ lines, ∃ it, l.item = .ok it) ∧ (labelsOf lines).Nodup := by
  induction lines using List.reverseRecOn with
  | nil => simp [labelsOf, Draft.empty]
  | append_singleton ls l ih =>
    rw [ofLines_concat, errors_read_iff, ih, labelsOf_append, labelsOf_singleton, List.nodup_append]
    simp only [get?_labels_eq_none_iff, List.mem_append, List.mem_singleton, Option.mem_toList]
    constructor
    · rintro ⟨⟨hok, hnd⟩, hl, hnew⟩
      refine ⟨?_, hnd, ?_, ?_⟩
      · rintro m (hm | rfl)
        · exact hok m hm
        · exact hl
      · cases l.label? <;> simp
      · rintro a ha b hb rfl
        exact hnew a hb ha
    · rintro ⟨hok, hnd, -, hne⟩
      exact ⟨⟨fun m hm => hok m (.inl hm), hnd⟩, hok l (.inr rfl), fun n hn hm => hne n hm n hn rfl⟩

end Draft

theorem Listing.ofSource_eq_ok_iff {source : List Char} {l : Listing} :
    ofSource source = .ok l ↔
      ((∀ m ∈ sourceLines source, ∃ it, m.item = .ok it) ∧
        (labelsOf (sourceLines source)).Nodup) ∧
      l = (Draft.ofLines (sourceLines source)).listing := by
  rw [← Draft.errors_ofLines_iff, ofSource]
  simp only [Array.isEmpty_iff, Array.toList_eq_nil_iff]
  split
  · rename_i h
    simp [h, eq_comm]
  · rename_i h
    simp [h]

end Console16
