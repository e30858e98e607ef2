/-!
# Console16.Asm.LabelTable

Labels and the image offsets they stand for, in order of declaration. A name is declared once: a
second declaration is refused and the table stays as it was.

* `LabelTable.insert?_eq_none_iff`: exactly a declared name is refused.
* `LabelTable.toList_insert?`: a new name goes to the end.
* `LabelTable.get?_eq_lookup`: the offset of a name is the one it is listed with.
-/

namespace Console16

structure LabelTable where
  entries : Array (String × Nat)

namespace LabelTable

def empty : LabelTable := ⟨#[]⟩

/-- Names with offsets, first declared first. -/
def toList (t : LabelTable) : List (String × Nat) :=
  t.entries.toList

def size (t : LabelTable) : Nat :=
  t.entries.size

def get? (t : LabelTable) (name : String) : Option Nat :=
  (t.entries.find? fun entry => entry.1 == name).map Prod.snd

/-- Declares a name; `none` if it is declared already. -/
def insert? (t : LabelTable) (name : String) (offset : Nat) : Option LabelTable :=
  match t.get? name with
  | some _ => none
  | none => some ⟨t.entries.push (name, offset)⟩

@[simp] theorem toList_empty : empty.toList = [] := rfl

theorem insert?_eq_none_iff {t : LabelTable} {name : String} {offset : Nat} :
    t.insert? name offset = none ↔ (t.get? name).isSome := by
  unfold insert?
  split <;> simp_all

theorem toList_insert? {t u : LabelTable} {name : String} {offset : Nat}
    (h : t.insert? name offset = some u) : u.toList = t.toList ++ [(name, offset)] := by
  unfold insert? at h
  split at h
  · cases h
  · cases h
    simp [toList]

theorem get?_eq_lookup (t : LabelTable) (name : String) : t.get? name = t.toList.lookup name := by
  obtain ⟨⟨entries⟩⟩ := t
  simp only [get?, toList, List.find?_toArray]
  induction entries with
  | nil => rfl
  | cons entry entries ih =>
    obtain ⟨key, offset⟩ := entry
    by_cases h : key = name
    · subst h
      simp
    · have h' : (name == key) = false := beq_eq_false_iff_ne.2 (Ne.symm h)
      simpa [List.lookup_cons, List.find?_cons, h, h'] using ih

theorem size_eq_length (t : LabelTable) : t.size = t.toList.length := by
  simp [size, toList]

end LabelTable
end Console16
