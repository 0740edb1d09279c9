import PageManifest.Proofs.FileTree.Removed
import PageManifest.Proofs.Log.Writers

/-!
# Logs apart from a directory

If the paths of a log stay outside some directory, then what is in that directory makes no
difference to the log: in two trees that agree outside, creating it fails with the same fault, or
opens the same place, and leaves trees that agree outside again (`create_apart`).
-/

namespace PageManifest.LogFile

open PageManifest.FileTree PageManifest.Path

variable {start tree other : FileTree} {home : Place} {directory stamp : String}

/-- All paths of a log stay outside a directory. -/
structure PathsApart (home : Place) (tree : FileTree) (directory stamp : String) : Prop where
  ensured : StaysOutside home tree directory
  opened : StaysOutside home tree (join directory (nameAt stamp))
  linked : StaysOutside home tree (latestIn directory)

/-- The old link is removed in both trees, or in neither. -/
theorem removed_fewerLinks (h : AgreeOutside home start tree other)
    (hlatest : StaysOutside home start (latestIn directory)) :
    FewerLinks home start ((tree.removeFile (latestIn directory)).toOption.getD tree)
      ((other.removeFile (latestIn directory)).toOption.getD other) := by
  obtain ⟨hsame, hout⟩ := h.resolveParts_eq hlatest.steps false
  unfold removeFile
  rw [hsame]
  cases hresolve : tree.resolveParts false (latestIn directory)
      (FileTree.steps (latestIn directory)) with
  | «at» place =>
    rw [hresolve] at hout
    dsimp only
    rw [h.entry?_eq place hout.1]
    by_cases hdirectory : tree.entry? place = some .directory
    · rw [if_pos hdirectory, if_pos hdirectory]
      exact h.fewerLinks
    · rw [if_neg hdirectory, if_neg hdirectory]
      have hne : place ≠ [] := by
        rintro rfl
        exact hdirectory (entry?_nil tree)
      exact .drop h hne
  | missing directory name => exact h.fewerLinks
  | link directory target behind => exact h.fewerLinks
  | fault fault => exact h.fewerLinks

/-- The link is pointed to a log in both trees alike. -/
theorem pointTo_apart (h : AgreeOutside home start tree other)
    (hlatest : StaysOutside home start (latestIn directory)) (target : String) :
    AgreeOutside home (pointTo tree target (latestIn directory))
      (pointTo tree target (latestIn directory)) (pointTo other target (latestIn directory)) := by
  have hfewer := removed_fewerLinks h hlatest
  unfold pointTo
  generalize (tree.removeFile (latestIn directory)).toOption.getD tree = removed at hfewer ⊢
  generalize (other.removeFile (latestIn directory)).toOption.getD other = removed' at hfewer ⊢
  dsimp only
  cases hcreate : removed.createLink target (latestIn directory) with
  | ok later =>
    obtain ⟨place, -, hne, rfl, hcreate'⟩ :=
      hfewer.createLink_eq isFileName_latest hlatest hcreate
    rw [latestIn, hcreate']
    refine ⟨rfl, hfewer.agreeOutside.workingDirectory_other, fun found hfound => ?_,
      fun _ _ _ => Iff.rfl⟩
    have hsame := hfewer.entry?_eq found hfound
    exact (entry?_put removed' hne _ found).trans
      ((congrArg _ hsame).trans (entry?_put removed hne _ found).symm)
  | error fault =>
    cases hcreate' : removed'.createLink target (latestIn directory) with
    | ok later =>
      obtain ⟨place, -, -, -, hsame⟩ :=
        hfewer.symm.createLink_eq isFileName_latest hlatest hcreate'
      cases hcreate.symm.trans hsame
    | error fault' => exact hfewer.agreeOutside

/-- What is in the directory makes no difference to a log outside. -/
theorem create_apart (h : AgreeOutside home start tree other)
    (hpaths : PathsApart home start directory stamp) :
    (create other directory stamp).1 = (create tree directory stamp).1 ∧
      AgreeOutside home (create tree directory stamp).2 (create tree directory stamp).2
        (create other directory stamp).2 := by
  obtain ⟨hfault, h⟩ := h.ensureDirectory hpaths.ensured
  unfold create openForAppending
  generalize tree.ensureDirectory directory = ensured at hfault h ⊢
  generalize other.ensureDirectory directory = ensured' at hfault h ⊢
  obtain ⟨fault?, prepared⟩ := ensured
  obtain ⟨fault?', prepared'⟩ := ensured'
  dsimp only at hfault h
  subst hfault
  cases fault?' with
  | some fault => exact ⟨rfl, h.fewerLinks.agreeOutside⟩
  | none =>
    dsimp only
    obtain ⟨hsame, hlink⟩ := h.target_eq hpaths.opened
    rw [hsame]
    cases htarget : prepared.target (join directory (nameAt stamp)) with
    | error fault => exact ⟨rfl, h.fewerLinks.agreeOutside⟩
    | ok place =>
      have hout := h.outside_of_target hpaths.opened htarget
      have hne := (target_eq_ok_iff.mp htarget).ne_nil
      have hbytes : prepared'.bytesAt place = prepared.bytesAt place := by
        rw [bytesAt, bytesAt, h.entry?_eq place hout]
      have hopened : AgreeOutside home start (prepared.appendAt place .empty)
          (prepared'.appendAt place .empty) := by
        unfold appendAt
        rw [hbytes]
        exact h.put hne (hlink place htarget) (by simp)
      exact ⟨rfl, pointTo_apart hopened hpaths.linked _⟩

/-! ## Trees without links -/

/-- The tree once a log was created, or once its directory was and the log was not. -/
theorem create_snd_cases (tree : FileTree) (directory stamp : String) :
    (create tree directory stamp).2 = (tree.ensureDirectory directory).2 ∨
      ∃ file, Creation tree directory stamp file (create tree directory stamp).2 := by
  cases hcreate : create tree directory stamp with
  | mk result opened =>
  cases result with
  | ok file => exact .inr ⟨file, create_eq_ok_iff.mp hcreate⟩
  | error fault =>
    refine .inl ?_
    unfold create openForAppending at hcreate
    generalize tree.ensureDirectory directory = ensured at hcreate ⊢
    obtain ⟨fault?, prepared⟩ := ensured
    cases fault? with
    | some fault' =>
      cases hcreate
      rfl
    | none =>
      dsimp only at hcreate ⊢
      cases htarget : prepared.target (join directory (nameAt stamp)) with
      | error fault' =>
        rw [htarget] at hcreate
        cases hcreate
        rfl
      | ok place =>
        rw [htarget] at hcreate
        cases hcreate

theorem workingDirectory_create (tree : FileTree) (directory stamp : String) :
    (create tree directory stamp).2.workingDirectory = tree.workingDirectory := by
  have hensured := (ensureDirectory_created tree directory).workingDirectory_eq
  rcases create_snd_cases tree directory stamp with hsame | ⟨file, h⟩
  · rw [hsame, hensured]
  · obtain ⟨base, hbase⟩ := h.exists_isBase
    rw [(h.changedAt_latest hbase).workingDirectory_eq]
    exact hensured

/-- The one link that comes with a log is that to it. -/
theorem link_of_create (hfree : tree.LinkFree) {place : Place} {target : String}
    (hlink : FileTree.entry? (create tree directory stamp).2 place = some (.link target)) :
    place = latestPlace (placeOf tree directory) := by
  have hcreated := ensureDirectory_created tree directory
  have hensured := hfree.of_created hcreated
  rcases create_snd_cases tree directory stamp with hsame | ⟨file, h⟩
  · rw [hsame] at hlink
    exact absurd hlink (hensured place target)
  · obtain ⟨base, hbase⟩ := h.exists_isBase
    have hplace : placeOf tree directory = base := by
      rw [← hbase.placeOf_eq hensured, placeOf, placeOf, hcreated.workingDirectory_eq]
    rw [hplace]
    by_contra hne
    rw [(h.changedAt_latest hbase).entry?_eq place hne, appendAt,
      entry?_put _ h.place_ne_nil] at hlink
    split at hlink
    · cases hlink
    · exact hensured place target hlink

end PageManifest.LogFile
