import Console16.Proofs.Asm.Layout
import Mathlib.Data.Finset.Card
import Mathlib.Data.List.Induction

/-!
# Console16.Proofs.Asm.FirstInsertions

The label table after any insertions. A name is taken the first time it is offered and refused ever
after, with whatever offset; so the table lists every name once, with its first offset, in the order
of the first insertions, and looks up what it lists.

* `LabelTable.toList_offer_of_notMem`: one insertion.
* `firstOf_concat_iff`: the first insertions of a sequence with one more.
* `LabelTable.getElem?_toList_ofEntries`: what the table lists, and where.
* `first_insertion_decides`: every sequence of insertions.
-/

namespace Console16

/-- The names of some entries. -/
def namesOf (entries : List (String × Nat)) : List String :=
  entries.map Prod.fst

/-- The entry is the first of its name in a row of entries, behind these. -/
structure FirstOf (entries before : List (String × Nat)) (entry : String × Nat) : Prop where
  split : ∃ later, entries = before ++ entry :: later
  new : entry.1 ∉ namesOf before

variable {entries before : List (String × Nat)} {entry last : String × Nat}

@[simp] theorem namesOf_nil : namesOf [] = [] := rfl

@[simp] theorem namesOf_append (xs ys : List (String × Nat)) :
    namesOf (xs ++ ys) = namesOf xs ++ namesOf ys :=
  List.map_append

@[simp] theorem namesOf_singleton (entry : String × Nat) : namesOf [entry] = [entry.1] := rfl

/-! ## Rows of entries -/

theorem not_firstOf_nil : ¬FirstOf [] before entry := by
  rintro ⟨⟨later, h⟩, -⟩
  simp at h

theorem firstOf_concat_iff :
    FirstOf (entries ++ [last]) before entry ↔
      FirstOf entries before entry ∨
        before = entries ∧ entry = last ∧ last.1 ∉ namesOf entries := by
  constructor
  · rintro ⟨⟨later, h⟩, hnew⟩
    rcases List.eq_nil_or_concat later with rfl | ⟨init, e, rfl⟩
    · obtain ⟨rfl, hlast⟩ := List.append_inj' h rfl
      obtain rfl : last = entry := by simpa using hlast
      exact .inr ⟨rfl, rfl, hnew⟩
    · have hcut : entries ++ [last] = (before ++ entry :: init) ++ [e] := by simpa using h
      obtain ⟨hinit, -⟩ := List.append_inj' hcut rfl
      exact .inl ⟨⟨init, hinit⟩, hnew⟩
  · rintro (⟨⟨later, rfl⟩, hnew⟩ | ⟨rfl, rfl, hnew⟩)
    · exact ⟨⟨later ++ [last], by simp⟩, hnew⟩
    · exact ⟨⟨[], rfl⟩, hnew⟩

theorem getElem?_concat_eq_some_iff {α : Type} {xs : List α} {x y : α} {i : Nat} :
    (xs ++ [x])[i]? = some y ↔ xs[i]? = some y ∨ i = xs.length ∧ x = y := by
  rcases Nat.lt_trichotomy i xs.length with h | rfl | h
  · rw [List.getElem?_append_left h]
    have hne : i ≠ xs.length := by omega
    simp [hne]
  · simp
  · have hne : i ≠ xs.length := by omega
    have hout : xs[i]? = none := List.getElem?_eq_none (by omega)
    have hout' : (xs ++ [x])[i]? = none := List.getElem?_eq_none (by simp; omega)
    simp [hne, hout, hout']

theorem lookup_eq_some_iff_mem {name : String} {offset : Nat} (h : (namesOf entries).Nodup) :
    entries.lookup name = some offset ↔ (name, offset) ∈ entries := by
  rw [List.lookup_eq_some_iff]
  constructor
  · rintro ⟨front, rest, rfl, -⟩
    simp
  · intro hmem
    obtain ⟨front, rest, rfl⟩ := List.append_of_mem hmem
    refine ⟨front, rest, rfl, fun p hp => bne_iff_ne.2 ?_⟩
    rintro rfl
    have hdisjoint := (List.nodup_append.1 (namesOf_append _ _ ▸ h)).2.2
    exact hdisjoint _ (List.mem_map_of_mem hp) _ List.mem_cons_self rfl

namespace LabelTable

/-- The table after a name was offered: with the name, or as it was if the name is refused. -/
def offer (t : LabelTable) (entry : String × Nat) : LabelTable :=
  (t.insert? entry.1 entry.2).getD t

/-- The table after some insertions. -/
def ofEntries (entries : List (String × Nat)) : LabelTable :=
  entries.foldl offer empty

/-! ## One insertion -/

theorem insert?_eq_none_iff_mem {t : LabelTable} {name : String} {offset : Nat} :
    t.insert? name offset = none ↔ name ∈ namesOf t.toList := by
  rw [insert?_eq_none_iff, Option.isSome_iff_ne_none, ne_eq, get?_eq_none_iff, not_not, namesOf]

theorem offer_of_mem {t : LabelTable} (h : entry.1 ∈ namesOf t.toList) : t.offer entry = t := by
  rw [offer, insert?_eq_none_iff_mem.2 h]
  rfl

theorem toList_offer_of_notMem {t : LabelTable} (h : entry.1 ∉ namesOf t.toList) :
    (t.offer entry).toList = t.toList ++ [entry] := by
  cases hu : t.insert? entry.1 entry.2 with
  | none => exact absurd (insert?_eq_none_iff_mem.1 hu) h
  | some u =>
    rw [offer, hu]
    exact toList_insert? hu

/-! ## All insertions -/

theorem ofEntries_concat (entries : List (String × Nat)) (entry : String × Nat) :
    ofEntries (entries ++ [entry]) = (ofEntries entries).offer entry :=
  List.foldl_append

theorem mem_namesOf_ofEntries {name : String} :
    name ∈ namesOf (ofEntries entries).toList ↔ name ∈ namesOf entries := by
  induction entries using List.reverseRecOn with
  | nil => rfl
  | append_singleton entries entry ih =>
    rw [ofEntries_concat, namesOf_append, List.mem_append, namesOf_singleton, List.mem_singleton]
    by_cases h : entry.1 ∈ namesOf (ofEntries entries).toList
    · rw [offer_of_mem h, ih]
      constructor
      · exact .inl
      · rintro (hname | rfl)
        · exact hname
        · exact ih.1 h
    · rw [toList_offer_of_notMem h, namesOf_append, List.mem_append, ih, namesOf_singleton,
        List.mem_singleton]

theorem ofEntries_concat_of_mem (h : entry.1 ∈ namesOf entries) :
    ofEntries (entries ++ [entry]) = ofEntries entries := by
  rw [ofEntries_concat, offer_of_mem (mem_namesOf_ofEntries.2 h)]

theorem toList_ofEntries_concat_of_notMem (h : entry.1 ∉ namesOf entries) :
    (ofEntries (entries ++ [entry])).toList = (ofEntries entries).toList ++ [entry] := by
  rw [ofEntries_concat, toList_offer_of_notMem (mt mem_namesOf_ofEntries.1 h)]

theorem nodup_ofEntries (entries : List (String × Nat)) :
    (namesOf (ofEntries entries).toList).Nodup := by
  induction entries using List.reverseRecOn with
  | nil => exact .nil
  | append_singleton entries entry ih =>
    by_cases h : entry.1 ∈ namesOf entries
    · rwa [ofEntries_concat_of_mem h]
    · rw [toList_ofEntries_concat_of_notMem h, namesOf_append, List.nodup_append_comm]
      exact List.nodup_cons.2 ⟨mt mem_namesOf_ofEntries.1 h, ih⟩

/-- There are as many entries as different names. -/
theorem length_ofEntries (entries : List (String × Nat)) :
    (ofEntries entries).toList.length = (namesOf entries).toFinset.card := by
  have hsame : (namesOf entries).toFinset = (namesOf (ofEntries entries).toList).toFinset := by
    ext name
    rw [List.mem_toFinset, List.mem_toFinset, mem_namesOf_ofEntries]
  rw [hsame, List.toFinset_card_of_nodup (nodup_ofEntries entries), namesOf, List.length_map]

/-- A name is listed behind the different names offered before it, with its first offset. -/
theorem getElem?_toList_ofEntries {i : Nat} :
    (ofEntries entries).toList[i]? = some entry ↔
      ∃ before, FirstOf entries before entry ∧ i = (namesOf before).toFinset.card := by
  induction entries using List.reverseRecOn with
  | nil =>
    constructor
    · intro h
      simp [ofEntries] at h
    · rintro ⟨before, hfirst, -⟩
      exact absurd hfirst not_firstOf_nil
  | append_singleton entries last ih =>
    by_cases h : last.1 ∈ namesOf entries
    · rw [ofEntries_concat_of_mem h, ih]
      simp [firstOf_concat_iff, h]
    · rw [toList_ofEntries_concat_of_notMem h, getElem?_concat_eq_some_iff, ih, length_ofEntries]
      constructor
      · rintro (⟨before, hfirst, hi⟩ | ⟨hi, rfl⟩)
        · exact ⟨before, firstOf_concat_iff.2 (.inl hfirst), hi⟩
        · exact ⟨entries, firstOf_concat_iff.2 (.inr ⟨rfl, rfl, h⟩), hi⟩
      · rintro ⟨before, hfirst, hi⟩
        rcases firstOf_concat_iff.1 hfirst with hfirst | ⟨rfl, rfl, -⟩
        · exact .inl ⟨before, hfirst, hi⟩
        · exact .inr ⟨hi, rfl⟩

end LabelTable

open LabelTable in
/-- After any insertions into an empty table, the next name is taken exactly if it was not offered
before, and leaves the table as it is if it was. The table lists each name once, with its first
offset, at the place that the number of different names before its first insertion gives; it is as
long as there are different names, finds exactly what it lists and finds nothing for other names. -/
theorem first_insertion_decides (calls : List (String × Nat)) :
    (∀ name offset, ((ofEntries calls).insert? name offset).isSome ↔ name ∉ namesOf calls) ∧
    (∀ name offset, name ∈ namesOf calls →
      ofEntries (calls ++ [(name, offset)]) = ofEntries calls) ∧
    (∀ i entry, (ofEntries calls).toList[i]? = some entry ↔
      ∃ before, FirstOf calls before entry ∧ i = (namesOf before).toFinset.card) ∧
    (namesOf (ofEntries calls).toList).Nodup ∧
    (∀ name, name ∈ namesOf (ofEntries calls).toList ↔ name ∈ namesOf calls) ∧
    (ofEntries calls).size = (namesOf calls).toFinset.card ∧
    (∀ name offset, (ofEntries calls).get? name = some offset ↔
      (name, offset) ∈ (ofEntries calls).toList) ∧
    ∀ name, (ofEntries calls).get? name = none ↔ name ∉ namesOf calls := by
  refine ⟨?_, ?_, ?_, nodup_ofEntries calls, ?_, ?_, ?_, ?_⟩
  · intro name offset
    rw [Option.isSome_iff_ne_none, ne_eq, insert?_eq_none_iff_mem, mem_namesOf_ofEntries]
  · intro name offset hmem
    exact ofEntries_concat_of_mem hmem
  · intro i entry
    exact getElem?_toList_ofEntries
  · intro name
    exact mem_namesOf_ofEntries
  · rw [size_eq_length, length_ofEntries]
  · intro name offset
    rw [get?_eq_lookup, lookup_eq_some_iff_mem (nodup_ofEntries calls)]
  · intro name
    rw [get?_eq_none_iff, ← mem_namesOf_ofEntries]
    rfl

/-- A name offered again with another offset, between other names. -/
def repeatedCalls : List (String × Nat) :=
  [("zeta", 8), ("alpha", 4), ("zeta", 12), ("beta", 4)]

open LabelTable in
theorem first_insertion_decides_of_repeated :
    ofEntries (repeatedCalls ++ [("alpha", 0)]) = ofEntries repeatedCalls ∧
      ((ofEntries repeatedCalls).insert? "gamma" 16).isSome ∧
      (ofEntries repeatedCalls).toList[2]? = some ("beta", 4) ∧
      (ofEntries repeatedCalls).size = 3 := by
  obtain ⟨htaken, hkept, hlisted, -, -, hsize, -, -⟩ := first_insertion_decides repeatedCalls
  refine ⟨?_, ?_, ?_, ?_⟩
  · exact hkept "alpha" 0 (by decide)
  · exact (htaken "gamma" 16).2 (by decide)
  · refine (hlisted 2 ("beta", 4)).2 ⟨repeatedCalls.dropLast, ⟨⟨[], rfl⟩, ?_⟩, ?_⟩
    · decide
    · decide
  · rw [hsize]
    decide

end Console16
