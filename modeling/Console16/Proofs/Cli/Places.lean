import Console16.Proofs.Cli.Looking

/-!
# Console16.Proofs.Cli.Places

Where paths lead, and what a written file changes. A path is followed through directories that are
there already, so it leads where it did after a file was written, unless the file took the place of
a directory. A path that leads to something other than a directory ends with the name of its place,
so paths with different extensions lead to different places.

* `World.extension?_of_resolve`: the extension of a path is that of the place it leads to.
* `World.resolve_put`: paths lead where they did.
* `World.TakesFile.write`: when a file can be written.
* `World.TakesFile.read`, `World.TakesFile.read_other`: what is read afterwards.
-/

namespace Console16

/-- The extension of the name of a place. -/
def Place.extension? (p : Place) : Option String :=
  p.names.getLast?.bind fun name => (Path.splitName name.toList).2.map String.ofList

namespace World

variable {w : World} {path : String} {p q place : Place} {component : List Char}

/-! ## Following a path -/

theorem lookup_of_follow (h : w.follow p component = .ok q) : w.lookup p = some .directory := by
  unfold follow at h
  split at h
  · cases h
  · cases h
  · cases h
  · assumption

/-- A component that leads to no directory is a name. -/
theorem eq_child_of_follow (h : w.follow p component = .ok q)
    (hq : w.lookup q ≠ some .directory) (hup : component ≠ ['.', '.']) :
    component ≠ [] ∧ component ≠ ['.'] ∧ q = p.child (String.ofList component) := by
  have hp := lookup_of_follow h
  unfold follow at h
  rw [hp] at h
  simp only [Bool.or_eq_true, decide_eq_true_eq, hup, if_false] at h
  split at h
  · cases h
    exact absurd hp hq
  · rename_i hname
    split at h
    · cases h
    · cases h
      exact ⟨fun hnil => hname (.inl hnil), fun hdot => hname (.inr hdot), rfl⟩

/-- The last step on the way to a place. -/
theorem exists_last_of_resolve (h : w.resolve path = .ok p) :
    ∃ before component q, Path.components path = before ++ [component] ∧
      w.follow q component = .ok p := by
  rcases List.eq_nil_or_concat (Path.components path) with hnil | ⟨before, component, hsplit⟩
  · cases hnil
  · rw [List.concat_eq_append] at hsplit
    unfold resolve walk at h
    rw [hsplit] at h
    split at h
    · cases h
    · split at h
      · cases h
      · rw [List.foldlM_append] at h
        cases hbefore : before.foldlM w.follow
            (if path.startsWith "/" then ⟨.root, []⟩ else .here []) with
        | error e =>
          rw [hbefore] at h
          cases h
        | ok q =>
          rw [hbefore] at h
          have hlast : [component].foldlM w.follow q = .ok p := h
          exact ⟨before, component, q, hsplit, by simpa using hlast⟩

theorem fileName?_of_components {before : List (List Char)}
    (h : Path.components path = before ++ [component]) (hnil : component ≠ [])
    (hdot : component ≠ ['.']) :
    Path.fileName? path = if component = ['.', '.'] then none else some component := by
  simp [Path.fileName?, Path.named, h, hnil, hdot]

theorem extension?_of_resolve {ext : String} (h : w.resolve path = .ok p)
    (hp : w.lookup p ≠ some .directory) (hext : Path.extension? path = some ext) :
    p.extension? = some ext := by
  obtain ⟨before, component, q, hsplit, hfollow⟩ := exists_last_of_resolve h
  have hup : component ≠ ['.', '.'] := by
    rintro rfl
    simp [Path.extension?, fileName?_of_components hsplit] at hext
  obtain ⟨hnil, hdot, rfl⟩ := eq_child_of_follow hfollow hp hup
  rw [Path.extension?, fileName?_of_components hsplit hnil hdot, if_neg hup] at hext
  simpa [Place.extension?, Place.child] using hext

/-! ## After a file was written -/

section
variable {node : Node} {bytes content : List UInt8}

theorem holds_something_put (h : w.files.any fun entry => entry.1.within p) (place : Place)
    (bytes : List UInt8) : (w.put place bytes).files.any fun entry => entry.1.within p := by
  obtain ⟨entry, hentry, hwithin⟩ := List.any_eq_true.1 h
  refine List.any_eq_true.2 ?_
  by_cases hplace : entry.1 = place
  · exact ⟨(place, bytes), List.mem_cons_self, hplace ▸ hwithin⟩
  · have hkept : entry ∈ w.files.filter fun entry => entry.1 != place :=
      List.mem_filter.2 ⟨hentry, bne_iff_ne.2 hplace⟩
    exact ⟨entry, List.mem_cons_of_mem _ hkept, hwithin⟩

/-- What is somewhere else stays there, and so do the directories that hold the file. -/
theorem lookup_put_of_ne (hne : p ≠ place) (h : w.lookup p = some node) (bytes : List UInt8) :
    (w.put place bytes).lookup p = some node := by
  unfold lookup at h ⊢
  rw [lookup_put, if_neg hne]
  split at h
  · assumption
  · split at h
    · assumption
    · split at h
      · rename_i hdir
        rw [if_pos]
        · exact h
        · rcases Bool.or_eq_true_iff.1 hdir with hstanding | hany
          · rw [hstanding, Bool.true_or]
          · rw [holds_something_put hany, Bool.or_true]
      · cases h

theorem follow_put (hplace : w.lookup place ≠ some .directory) (h : w.follow p component = .ok q)
    (bytes : List UInt8) : (w.put place bytes).follow p component = .ok q := by
  have hp := lookup_of_follow h
  have hne : p ≠ place := by
    rintro rfl
    exact hplace hp
  unfold follow at h ⊢
  rw [lookup_put_of_ne hne hp]
  rwa [hp] at h

/-- By induction on the components: each is followed from a directory. -/
theorem foldlM_follow_put (hplace : w.lookup place ≠ some .directory)
    {components : List (List Char)} (h : components.foldlM w.follow p = .ok q)
    (bytes : List UInt8) : components.foldlM (w.put place bytes).follow p = .ok q := by
  induction components generalizing p with
  | nil => exact h
  | cons component components ih =>
    rw [List.foldlM_cons] at h ⊢
    cases hfollow : w.follow p component with
    | error e =>
      rw [hfollow] at h
      cases h
    | ok next =>
      rw [hfollow] at h
      rw [follow_put hplace hfollow]
      exact ih h

theorem resolve_put (hplace : w.lookup place ≠ some .directory) (h : w.resolve path = .ok p)
    (bytes : List UInt8) : (w.put place bytes).resolve path = .ok p := by
  unfold resolve walk at h ⊢
  by_cases hempty : path.isEmpty
  · rw [if_pos hempty] at h
    cases h
  · by_cases hlong : pathLimit ≤ Text.width path.toList
    · rw [if_neg hempty, if_pos hlong] at h
      cases h
    · rw [if_neg hempty, if_neg hlong] at h ⊢
      exact foldlM_follow_put hplace h bytes

theorem read_put_of_ne (hplace : w.lookup place ≠ some .directory) (h : w.read path = .ok content)
    (hne : w.resolve path ≠ .ok place) (bytes : List UInt8) :
    (w.put place bytes).read path = .ok content := by
  unfold read at h ⊢
  cases hpath : w.resolve path with
  | error e =>
    rw [hpath] at h
    cases h
  | ok p =>
    have hp : p ≠ place := by
      rintro rfl
      exact hne hpath
    rw [hpath] at h
    rw [resolve_put hplace hpath]
    cases hnode : w.lookup p with
    | none =>
      simp only [hnode] at h
      cases h
    | some node =>
      simp only [hnode] at h
      simp only [lookup_put_of_ne hp hnode]
      exact h

end

/-! ## Writing a file -/

/-- Writing depends on the files alone, and changes nothing else. -/
theorem write_congr {u v : World} (h : u.files = v.files) (path : String) (bytes : List UInt8) :
    (∃ e, u.write path bytes = .error e ∧ v.write path bytes = .error e) ∨
      ∃ files, u.write path bytes = .ok { u with files } ∧
        v.write path bytes = .ok { v with files } := by
  have hput : ∀ place, u.put place bytes = { u with files := (v.put place bytes).files } := by
    intro place
    rw [put, put, h]
  unfold World.write World.resolve
  rw [walk_congr h, lookup_congr h]
  split
  · cases v.walk path (holder path) with
    | error e => exact .inl ⟨_, rfl, rfl⟩
    | ok place => exact .inl ⟨_, rfl, rfl⟩
  · cases v.walk path (Path.components path) with
    | error e => exact .inl ⟨_, rfl, rfl⟩
    | ok place =>
      simp only
      cases v.lookup place with
      | none => exact .inr ⟨_, congrArg Except.ok (hput place), rfl⟩
      | some node =>
        cases node with
        | file old => exact .inr ⟨_, congrArg Except.ok (hput place), rfl⟩
        | directory => exact .inl ⟨_, rfl, rfl⟩
        | device d =>
          simp only
          cases d.write bytes with
          | error e => exact .inl ⟨_, rfl, rfl⟩
          | ok _ => exact .inr ⟨v.files, by rw [← h]; rfl, rfl⟩

/-- A path that names a file which is there, or one that can be created in its directory. -/
structure TakesFile (w : World) (path : String) (place : Place) : Prop where
  named : path.endsWith "/" = false
  leads : w.resolve path = .ok place
  free : w.lookup place = none ∨ ∃ old, w.lookup place = some (.file old)

namespace TakesFile

variable (h : w.TakesFile path place) (bytes : List UInt8)
include h

theorem not_directory : w.lookup place ≠ some .directory := by
  rcases h.free with hnone | ⟨old, hold⟩
  · rw [hnone]
    nofun
  · rw [hold]
    nofun

theorem write : w.write path bytes = .ok (w.put place bytes) := by
  unfold World.write
  rw [if_neg (Bool.eq_false_iff.1 h.named), h.leads]
  rcases h.free with hnone | ⟨old, hold⟩
  · simp only [hnone]
  · simp only [hold]

theorem read : (w.put place bytes).read path = .ok bytes := by
  have hplace : (w.put place bytes).lookup place = some (.file bytes) := by
    have hfree := h.free
    unfold lookup at hfree ⊢
    rw [lookup_put, if_pos rfl]
    split at hfree
    · rcases hfree with hnone | ⟨old, hold⟩
      · cases hnone
      · cases hold
    · rfl
  unfold World.read
  rw [resolve_put h.not_directory h.leads]
  simp only [hplace]

/-- A file of another extension reads as it did. -/
theorem read_other {other : String} {ext ext' : String} {content : List UInt8}
    (hread : w.read other = .ok content) (hext : Path.extension? path = some ext)
    (hext' : Path.extension? other = some ext') (hne : ext ≠ ext') :
    (w.put place bytes).read other = .ok content := by
  refine read_put_of_ne h.not_directory hread (fun hother => hne ?_) bytes
  have hplace := extension?_of_resolve h.leads h.not_directory hext
  rw [extension?_of_resolve hother h.not_directory hext', Option.some.injEq] at hplace
  exact hplace.symm

end TakesFile

theorem extension?_of_device {d : Device} (h : w.lookup place = some (.device d)) :
    place.extension? = none := by
  unfold lookup at h
  split at h
  · rename_i found hfound
    have hplace : place = .ofDevice found := by simpa using List.find?_some hfound
    rw [hplace]
    cases found with
    | null => rfl
    | full => rfl
  · split at h
    · cases h
    · split at h
      · cases h
      · cases h

/-- A path with an extension names no device, so there is a file to be written or the system
refuses. -/
theorem exists_error_of_not_takesFile {ext : String} (hext : Path.extension? path = some ext)
    (h : ∀ place, ¬w.TakesFile path place) (bytes : List UInt8) :
    ∃ e, w.write path bytes = .error e := by
  unfold World.write
  cases hnamed : path.endsWith "/" with
  | true =>
    rw [if_pos rfl]
    cases w.walk path (holder path) with
    | error e => exact ⟨e, rfl⟩
    | ok place => exact ⟨_, rfl⟩
  | false =>
    rw [if_neg Bool.false_ne_true]
    cases hpath : w.resolve path with
    | error e => exact ⟨e, rfl⟩
    | ok place =>
      cases hplace : w.lookup place with
      | none => exact absurd ⟨hnamed, hpath, .inl hplace⟩ (h place)
      | some node =>
        cases node with
        | file old => exact absurd ⟨hnamed, hpath, .inr ⟨old, hplace⟩⟩ (h place)
        | directory => exact ⟨.isADirectory, by simp only [hplace]⟩
        | device d =>
          have hnotDir : w.lookup place ≠ some .directory := by
            rw [hplace]
            nofun
          have hplaceExt := extension?_of_resolve hpath hnotDir hext
          rw [extension?_of_device hplace] at hplaceExt
          cases hplaceExt

end World
end Console16
