import Console16.Proofs.Cli.Looking

/-!
# Console16.Proofs.Cli.Matching

What wildcards match, said element by element, and what a pattern of one component finds: the
entries of the working directory whose names it matches, in the order of their names. A component
that starts with a dot may also be the working directory itself or the one above it.

* `Wildcard.matchList_iff_meets`: all ends of a text at once, or one element after the other.
* `World.look_descend_wild`: a component with wildcards leads on from every entry it matches.
* `World.look_expand_component`: one component with wildcards.
* `World.mem_matched_component_iff`: the paths it finds, from the names in the directory.
-/

namespace Console16

namespace Wildcard

/-- The texts a row of elements matches: a run takes as much as it likes, any other element one
character. -/
inductive Meets : List Wildcard → List Char → Prop where
  | done : Meets [] []
  | one {w : Wildcard} {ws : List Wildcard} {c : Char} {cs : List Char} :
      w.isRun = false → w.accepts c = true → Meets ws cs → Meets (w :: ws) (c :: cs)
  | run {w : Wildcard} {ws : List Wildcard} (taken : List Char) {cs : List Char} :
      w.isRun = true → Meets ws cs → Meets (w :: ws) (taken ++ cs)

theorem matchedEnds_cons (ws : List Wildcard) (c : Char) (cs : List Char) :
    matchedEnds (c :: cs) ws = matchList ws (c :: cs) :: matchedEnds cs ws := by
  induction ws with
  | nil => rfl
  | cons w ws ih =>
    rw [matchList, matchedEnds, ih]
    rfl

theorem matchedEnds_nil (ws : List Wildcard) : matchedEnds [] ws = [matchList ws []] := by
  induction ws with
  | nil => rfl
  | cons w ws ih =>
    rw [matchList, matchedEnds, ih]
    rfl

theorem matchList_cons_nil (w : Wildcard) (ws : List Wildcard) :
    matchList (w :: ws) [] = (w.isRun && matchList ws []) := by
  rw [matchList, matchedEnds, matchedEnds_nil]
  rfl

theorem matchList_cons_cons (w : Wildcard) (ws : List Wildcard) (c : Char) (cs : List Char) :
    matchList (w :: ws) (c :: cs) =
      if w.isRun then matchList ws (c :: cs) || matchList (w :: ws) cs
      else w.accepts c && matchList ws cs := by
  rw [matchList, matchedEnds, matchedEnds_cons]
  rfl

theorem meets_of_matchList {ws : List Wildcard} {cs : List Char} (h : matchList ws cs = true) :
    Meets ws cs := by
  induction ws generalizing cs with
  | nil =>
    cases cs with
    | nil => exact .done
    | cons c cs => cases h
  | cons w ws ih =>
    induction cs with
    | nil =>
      rw [matchList_cons_nil, Bool.and_eq_true] at h
      exact .run [] h.1 (ih h.2)
    | cons c cs ihc =>
      rw [matchList_cons_cons] at h
      by_cases hw : w.isRun = true
      · rw [if_pos hw, Bool.or_eq_true] at h
        rcases h with h | h
        · exact .run [] hw (ih h)
        · cases ihc h with
          | one hone => rw [hw] at hone; cases hone
          | run taken _ hrest => exact .run (c :: taken) hw hrest
      · rw [if_neg hw, Bool.and_eq_true] at h
        exact .one (Bool.not_eq_true _ ▸ hw) h.1 (ih h.2)

theorem matchList_of_meets {ws : List Wildcard} {cs : List Char} (h : Meets ws cs) :
    matchList ws cs = true := by
  induction h with
  | done => rfl
  | one hone hc _ ih => simp [matchList_cons_cons, hone, hc, ih]
  | @run w ws taken cs hrun _ ih =>
    induction taken with
    | nil =>
      cases cs with
      | nil => simp [matchList_cons_nil, hrun, ih]
      | cons c cs => simp [matchList_cons_cons, hrun, ih]
    | cons c taken iht => rw [List.cons_append, matchList_cons_cons, if_pos hrun, iht, Bool.or_true]

theorem matchList_iff_meets {ws : List Wildcard} {cs : List Char} :
    matchList ws cs = true ↔ Meets ws cs :=
  ⟨meets_of_matchList, matchList_of_meets⟩

end Wildcard

namespace World

/-- What a pattern finds, in the order in which it is found. -/
def foundBy (w : World) (pattern : String) : Except PatternError (List Finding) :=
  (PathPattern.parse pattern).map fun p => w.look p.expand

/-- The paths a pattern finds; none if it makes no sense. -/
def matched (w : World) (pattern : String) : List String :=
  ((w.foundBy pattern).toOption.getD []).filterMap Except.toOption

variable {w : World} {pattern : String} {ws : List Wildcard} {names : List String}

theorem matched_of_foundBy {files : List String} (h : w.foundBy pattern = .ok (files.map .ok)) :
    w.matched pattern = files := by
  have hok : ∀ path : String, (Except.ok path : Finding).toOption = some path := fun _ => rfl
  rw [matched, h, Except.toOption, Option.getD_some, List.filterMap_map]
  simp only [Function.comp_def, hok, List.filterMap_some]

theorem isDirectory_of_entries {path : String} (h : w.entries path = .ok names) :
    w.isDirectory path = true := by
  unfold entries at h
  split at h
  · cases h
  · rename_i place hplace
    split at h
    · rename_i hlookup
      exact isDirectory_iff.2 ⟨place, hplace, hlookup⟩
    · cases h
    · cases h
    · cases h

theorem flatMap_ite {α : Type} (p : String → Bool) (f : String → List α) (names : List String) :
    (names.flatMap fun name => if p name then f name else []) = (names.filter p).flatMap f := by
  induction names with
  | nil => rfl
  | cons name names ih =>
    rw [List.flatMap_cons, ih, List.filter_cons]
    split
    · rfl
    · rfl

/-- A component with wildcards leads on from every entry whose name it matches. -/
theorem look_descend_wild (ws : List Wildcard) {dir : String} (h : w.entries dir = .ok names)
    (dirsOnly : Bool) (fuel : Nat) (rest : List PatternPart) :
    w.look (descend dirsOnly (fuel + 2) (.wild ws :: rest) dir) =
      ((["..", "."].filter fun dot => (PatternPart.wild ws).startsWithDot &&
          Wildcard.matchList ws dot.toList).flatMap
        fun dot => w.look (arrive dirsOnly (fuel + 1) rest (Path.join dir dot))) ++
      ((sortNames names).filter fun name => Wildcard.matchList ws name.toList).flatMap
        fun name => w.look (arrive dirsOnly fuel rest (entryPath dir name)) := by
  have hmeet : ∀ name path, w.look (meet dirsOnly (fuel + 1) (.wild ws) rest name path) =
      if Wildcard.matchList ws name.toList then w.look (arrive dirsOnly fuel rest path) else [] :=
    fun _ _ => look_ite ..
  rw [look_descend (by simp), isDirectory_of_entries h, h]
  simp only [hmeet, if_true, PatternPart.accepts, flatMap_ite]

/-- A pattern of one component with wildcards, looked for in the working directory. -/
theorem look_expand_component (ws : List Wildcard) (h : w.entries "." = .ok names) :
    w.look (PathPattern.expand ⟨".", [.wild ws], false⟩) =
      ((["..", "."].filter fun dot => (PatternPart.wild ws).startsWithDot &&
          Wildcard.matchList ws dot.toList).map (Path.join ".") ++
        (sortNames names).filter fun name => Wildcard.matchList ws name.toList).map .ok := by
  have hexpand : (PathPattern.expand ⟨".", [.wild ws], false⟩ : StateM World _) =
      descend false (3 * maxDepth + 1 + 2) [.wild ws] "." := rfl
  have harrive : ∀ fuel path, w.look (arrive false (fuel + 1) [] path) = [.ok path] :=
    fun _ _ => rfl
  have hhere : ∀ name, entryPath "." name = name := fun _ => rfl
  rw [hexpand, look_descend_wild ws h]
  simp only [hhere, harrive]
  rw [← List.map_eq_flatMap, ← List.map_eq_flatMap, List.map_append, List.map_map]
  rfl

/-- The paths that one component with wildcards finds: the names it matches and, if it starts with a
dot, the working directory and the one above it. -/
theorem mem_matched_component_iff
    (hpattern : PathPattern.parse pattern = .ok ⟨".", [.wild ws], false⟩)
    (hnames : w.entries "." = .ok names) {path : String} :
    path ∈ w.matched pattern ↔
      (∃ dot ∈ ["..", "."], (PatternPart.wild ws).startsWithDot ∧
        Wildcard.Meets ws dot.toList ∧ Path.join "." dot = path) ∨
      (path ∈ names ∧ Wildcard.Meets ws path.toList) := by
  have hfound := look_expand_component ws hnames
  rw [matched_of_foundBy (by rw [foundBy, hpattern, Except.map, hfound])]
  simp only [List.mem_append, List.mem_map, List.mem_filter, Bool.and_eq_true, and_assoc,
    Wildcard.matchList_iff_meets, sortNames, List.mem_mergeSort]

end World
end Console16
