import PageManifest.Proofs.FileTree.Ways

/-!
# Changes at one place

What putting or removing an entry at one place leaves as it was (`ChangedAt`), and that no further
directory and no further link comes from a file, or from removing anything.
-/

namespace PageManifest.FileTree

variable {tree middle later : FileTree} {place : Place}

/-- A tree is changed at a place only. -/
structure ChangedAt (place : Place) (tree later : FileTree) : Prop where
  workingDirectory_eq : later.workingDirectory = tree.workingDirectory
  entry?_eq : ∀ other, other ≠ place → later.entry? other = tree.entry? other

namespace ChangedAt

theorem refl (place : Place) (tree : FileTree) : ChangedAt place tree tree := ⟨rfl, fun _ _ => rfl⟩

theorem trans (h : ChangedAt place tree middle) (h' : ChangedAt place middle later) :
    ChangedAt place tree later :=
  ⟨h'.workingDirectory_eq.trans h.workingDirectory_eq,
    fun other hother => (h'.entry?_eq other hother).trans (h.entry?_eq other hother)⟩

theorem put (hne : place ≠ []) (tree : FileTree) (entry : Entry) :
    ChangedAt place tree (tree.put place entry) :=
  ⟨rfl, fun _ hother => entry?_put_of_ne tree hne entry hother.symm⟩

theorem drop (hne : place ≠ []) (tree : FileTree) : ChangedAt place tree (tree.drop place) := by
  refine ⟨rfl, fun other hother => ?_⟩
  rw [entry?_drop tree hne, if_neg hother.symm]

/-- A file that comes to hold something else leaves all directories and links as they were. -/
theorem extends_of_files (h : ChangedAt place tree later) {bytes bytes' : ByteArray}
    (hfile : tree.entry? place = some (.file bytes))
    (hlater : later.entry? place = some (.file bytes')) :
    Extends tree later ∧ Extends later tree := by
  have hsame : ∀ entry : Entry, (∀ bytes, entry ≠ .file bytes) → ∀ other,
      tree.entry? other = some entry ↔ later.entry? other = some entry := by
    intro entry hentry other
    by_cases hother : other = place
    · subst hother
      rw [hfile, hlater]
      constructor
      · rintro ⟨⟩
        exact absurd rfl (hentry bytes)
      · rintro ⟨⟩
        exact absurd rfl (hentry bytes')
    · rw [h.entry?_eq other hother]
  have hdirectory := hsame .directory (by simp)
  have hlink := fun target => hsame (.link target) (by simp)
  exact ⟨⟨h.workingDirectory_eq, fun other => (hdirectory other).mp,
      fun other target => (hlink target other).mp⟩,
    ⟨h.workingDirectory_eq.symm, fun other => (hdirectory other).mpr,
      fun other target => (hlink target other).mpr⟩⟩

end ChangedAt

/-- Without what was at a place a tree has no further directory and no further link. -/
theorem extends_of_drop (hne : place ≠ []) (tree : FileTree) : Extends (tree.drop place) tree := by
  have hsame : ∀ other entry, FileTree.entry? (tree.drop place) other = some entry →
      tree.entry? other = some entry := by
    intro other entry hother
    rw [entry?_drop tree hne] at hother
    split at hother
    · cases hother
    · exact hother
  exact ⟨rfl, fun other => hsame other _, fun other target => hsame other _⟩

/-- A file in place of anything is no further directory and no further link. -/
theorem extends_of_put_file (hne : place ≠ []) (tree : FileTree) (bytes : ByteArray) :
    Extends (tree.put place (.file bytes)) tree := by
  refine ⟨rfl, fun other hother => ?_, fun other target hother => ?_⟩
  · rw [entry?_put tree hne] at hother
    split at hother
    · cases hother
    · exact hother
  · rw [entry?_put tree hne] at hother
    split at hother
    · cases hother
    · exact hother

theorem bytesAt_congr (h : ∀ bytes, later.entry? place = some (.file bytes) ↔
    tree.entry? place = some (.file bytes)) : later.bytesAt place = tree.bytesAt place := by
  unfold bytesAt
  cases htree : tree.entry? place with
  | none =>
    split
    · rename_i bytes hlater
      cases htree.symm.trans ((h bytes).mp hlater)
    · rfl
  | some entry =>
    cases entry with
    | file bytes => rw [(h bytes).mpr htree]
    | directory =>
      split
      · rename_i bytes hlater
        cases htree.symm.trans ((h bytes).mp hlater)
      · rfl
    | link target =>
      split
      · rename_i bytes hlater
        cases htree.symm.trans ((h bytes).mp hlater)
      · rfl

end PageManifest.FileTree
