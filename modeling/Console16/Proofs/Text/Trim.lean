import Console16.Text.Blank
import Mathlib.Data.List.Basic

/-!
# Console16.Proofs.Text.Trim

A text without the blanks at its ends, said by what stands around it.

* `trimBlank_eq_iff`: trimming takes away all blanks at the two ends and nothing else.
-/

namespace Console16.Text

/-- A part of a text that neither starts nor ends with a blank, while all that stands around it is
blank. -/
structure Trimmed (cs core : List Char) : Prop where
  around : ∃ before after, cs = before ++ core ++ after ∧
    (∀ c ∈ before, isBlank c = true) ∧ ∀ c ∈ after, isBlank c = true
  start : ∀ c ∈ core.head?, isBlank c = false
  finish : ∀ c ∈ core.getLast?, isBlank c = false

theorem isBlank_of_mem_takeWhile {c : Char} {cs : List Char} (h : c ∈ cs.takeWhile isBlank) :
    isBlank c = true :=
  List.all_eq_true.1 List.all_takeWhile c h

theorem isBlank_of_head?_dropWhile {c : Char} {cs : List Char}
    (h : c ∈ (cs.dropWhile isBlank).head?) : isBlank c = false := by
  have hnot := List.head?_dropWhile_not isBlank cs
  rw [Option.mem_def.1 h] at hnot
  exact hnot

theorem trimmed_trimBlank (cs : List Char) : Trimmed cs (trimBlank cs) := by
  generalize hrest : cs.dropWhile isBlank = rest
  generalize hcore : rest.reverse.dropWhile isBlank = core
  have htrim : trimBlank cs = core.reverse := by rw [trimBlank, hrest, hcore]
  have hcs : cs = cs.takeWhile isBlank ++ rest := by rw [← hrest, List.takeWhile_append_dropWhile]
  have hback : rest = core.reverse ++ (rest.reverse.takeWhile isBlank).reverse := by
    rw [← List.reverse_append, ← hcore, List.takeWhile_append_dropWhile, List.reverse_reverse]
  rw [htrim]
  refine ⟨⟨cs.takeWhile isBlank, (rest.reverse.takeWhile isBlank).reverse, ?_, ?_, ?_⟩, ?_, ?_⟩
  · rw [List.append_assoc, ← hback, ← hcs]
  · exact fun c hc => isBlank_of_mem_takeWhile hc
  · exact fun c hc => isBlank_of_mem_takeWhile (List.mem_reverse.1 hc)
  · -- the core starts where the text without its first blanks does
    intro c hc
    have hhead : c ∈ rest.head? := by
      rw [hback, List.head?_append, Option.mem_def.1 hc]
      rfl
    rw [← hrest] at hhead
    exact isBlank_of_head?_dropWhile hhead
  · intro c hc
    rw [List.getLast?_reverse, ← hcore] at hc
    exact isBlank_of_head?_dropWhile hc

theorem dropWhile_isBlank_append {before core : List Char}
    (hbefore : ∀ c ∈ before, isBlank c = true) (hcore : ∀ c ∈ core.head?, isBlank c = false) :
    (before ++ core).dropWhile isBlank = core := by
  rw [List.dropWhile_append_of_pos hbefore]
  cases core with
  | nil => rfl
  | cons c core => exact List.dropWhile_cons_of_neg (by simp [hcore c rfl])

theorem Trimmed.trimBlank_eq {cs core : List Char} (h : Trimmed cs core) : trimBlank cs = core := by
  obtain ⟨⟨before, after, rfl, hbefore, hafter⟩, hstart, hfinish⟩ := h
  have hafter' : ∀ c ∈ after.reverse, isBlank c = true :=
    fun c hc => hafter c (List.mem_reverse.1 hc)
  have hfinish' : ∀ c ∈ core.reverse.head?, isBlank c = false := by
    rw [List.head?_reverse]
    exact hfinish
  rw [trimBlank]
  cases core with
  | nil =>
    have hall : ∀ c ∈ before ++ after, isBlank c = true := by
      intro c hc
      exact (List.mem_append.1 hc).elim (hbefore c) (hafter c)
    have hnone : (before ++ after ++ []).dropWhile isBlank = [] :=
      dropWhile_isBlank_append hall nofun
    rw [List.append_nil] at hnone ⊢
    rw [hnone]
    rfl
  | cons c core =>
    have hstart' : ∀ d ∈ (c :: core ++ after).head?, isBlank d = false := hstart
    rw [List.append_assoc, dropWhile_isBlank_append hbefore hstart', List.reverse_append,
      dropWhile_isBlank_append hafter' hfinish', List.reverse_reverse]

theorem trimBlank_eq_iff {cs core : List Char} : trimBlank cs = core ↔ Trimmed cs core := by
  constructor
  · rintro rfl
    exact trimmed_trimBlank cs
  · exact Trimmed.trimBlank_eq

end Console16.Text
