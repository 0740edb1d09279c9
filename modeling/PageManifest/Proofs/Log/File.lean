import PageManifest.Log.File
import PageManifest.Proofs.FileTree.Inside

/-!
# What a log changes

The path of a log directory may enter some directory, such as that for all data. If no link leads
the log out of it, then creating a log file changes nothing outside but missing directories on the
way. So two trees that agree outside agree again after both were given a log (`create_agree`),
even if just one of them has got it; and all that is written to the log stays inside
(`inside_of_create`, `changed_of_write`).
-/

namespace PageManifest.LogFile

open PageManifest.FileTree PageManifest.Path

variable {start tree other : FileTree} {above : Place} {name directory stamp : String}
  {front rest : List String}

theorem isFileName_latest : IsFileName "latest.log" where
  isName := ⟨by decide, by decide, by decide, by decide⟩
  notMem_slash := by decide

/-- The link to the log is put inside, whatever was in its place. -/
theorem changed_of_pointTo (h : Enters above name start directory front rest)
    (hagree : AgreeOutside (above ++ [name]) start tree tree)
    (hfree : Avoids tree.IsLink (above ++ [name]) rest) (target : String) :
    ChangedInside (above ++ [name]) tree (pointTo tree target (latestIn directory)) := by
  have henters := h.join isFileName_latest
  have hsteps : steps (join directory "latest.log") = bareSteps (join directory "latest.log") := by
    rw [isFileName_latest.steps_join, isFileName_latest.bareSteps_join]
  have hremoved : ∀ removed, removed = (tree.removeFile (latestIn directory)).toOption.getD tree →
      ChangedInside (above ++ [name]) tree removed ∧
        ∀ place, removed.IsLink place → tree.IsLink place := by
    rintro removed rfl
    cases hremove : tree.removeFile (latestIn directory) with
    | error fault => exact ⟨.refl _ _, fun _ => id⟩
    | ok later =>
      exact henters.changed_of_removeFile hsteps hagree (unlinked_concat hfree _) hremove
  unfold pointTo
  generalize (tree.removeFile (latestIn directory)).toOption.getD tree = removed at hremoved ⊢
  obtain ⟨hchanged, hlinks⟩ := hremoved removed rfl
  dsimp only
  cases hcreate : removed.createLink target (latestIn directory) with
  | error fault => exact hchanged
  | ok later =>
    refine hchanged.trans (henters.changed_of_createLink hsteps (hagree.of_changes hchanged hchanged)
      (unlinked_concat ?_ _) hcreate)
    exact fun front hfront hlink => hfree front hfront (hlinks _ hlink)

/-- A log file is created inside, once its directory is there. -/
theorem changed_of_create (h : Enters above name start directory front rest)
    (hstamp : IsFileName (nameAt stamp))
    (hagree : AgreeOutside (above ++ [name]) start (tree.ensureDirectory directory).2
      (tree.ensureDirectory directory).2)
    (hfree : Avoids tree.IsLink (above ++ [name]) (rest ++ [nameAt stamp])) :
    ChangedInside (above ++ [name]) (tree.ensureDirectory directory).2
        (create tree directory stamp).2 ∧
      ∀ file, (create tree directory stamp).1 = .ok file → above ++ [name] <+: file.place := by
  have hmiddle := (ensureDirectory_created tree directory).avoids hfree
  unfold create
  generalize tree.ensureDirectory directory = outcome at hagree hmiddle ⊢
  obtain ⟨fault?, middle⟩ := outcome
  cases fault? with
  | some fault => exact ⟨.refl _ _, fun file hfile => by cases hfile⟩
  | none =>
    dsimp only at hagree hmiddle ⊢
    unfold openForAppending
    cases htarget : middle.target (join directory (nameAt stamp)) with
    | error fault => exact ⟨.refl _ _, fun file hfile => by cases hfile⟩
    | ok place =>
      have hinside := (h.join hstamp).inside_of_target hagree (unlinked_of_avoids true hmiddle)
        htarget
      have hopened : ChangedInside (above ++ [name]) middle (middle.appendAt place .empty) :=
        .put (by simp) hinside middle _
      have hopen : Avoids (middle.appendAt place .empty).IsLink (above ++ [name]) rest := by
        rintro some hsome ⟨target, hlink⟩
        rw [appendAt, entry?_put middle (ne_nil_of_inside (by simp) hinside)] at hlink
        split at hlink
        · cases hlink
        · exact hmiddle some (hsome.trans (List.prefix_append _ _)) ⟨target, hlink⟩
      refine ⟨hopened.trans ?_, ?_⟩
      · exact changed_of_pointTo h (hagree.of_changes hopened hopened) hopen _
      · intro file hfile
        cases hfile
        exact hinside

/-- Whether or not a log file can be created, two trees agree outside as before. -/
theorem create_agree (h : Enters above name start directory front rest) {stamp' : String}
    (hstamp : IsFileName (nameAt stamp)) (hstamp' : IsFileName (nameAt stamp'))
    (hagree : AgreeOutside (above ++ [name]) start tree other)
    (hfree : Avoids tree.IsLink (above ++ [name]) (rest ++ [nameAt stamp]))
    (hfree' : Avoids other.IsLink (above ++ [name]) (rest ++ [nameAt stamp'])) :
    AgreeOutside (above ++ [name]) start (create tree directory stamp).2
      (create other directory stamp').2 := by
  have hdirectory := h.ensureDirectory hagree (hfree.of_front (List.prefix_append _ _))
    (hfree'.of_front (List.prefix_append _ _))
  exact hdirectory.of_changes (changed_of_create h hstamp hdirectory.left hfree).1
    (changed_of_create h hstamp' hdirectory.right hfree').1

/-- The log is kept inside. -/
theorem inside_of_create (h : Enters above name start directory front rest)
    (hstamp : IsFileName (nameAt stamp)) (hagree : AgreeOutside (above ++ [name]) start tree tree)
    (hfree : Avoids tree.IsLink (above ++ [name]) (rest ++ [nameAt stamp])) {file : LogFile}
    (hfile : (create tree directory stamp).1 = .ok file) : above ++ [name] <+: file.place := by
  have hrest := hfree.of_front (List.prefix_append _ _)
  exact (changed_of_create h hstamp (h.ensureDirectory hagree hrest hrest) hfree).2 file hfile

/-! ## Writing -/

theorem place_ne_nil_of_file {file : LogFile} {bytes : ByteArray}
    (h : tree.entry? file.place = some (.file bytes)) : file.place ≠ [] := by
  intro hnil
  rw [hnil, entry?_nil] at h
  cases h

theorem changed_of_write {home : Place} {file : LogFile} (h : home <+: file.place)
    (tree : FileTree) (text : String) : ChangedInside home tree (file.write tree text) := by
  unfold write
  split
  · rename_i bytes hentry
    refine ⟨rfl, fun found hfound =>
      entry?_put_of_ne tree (place_ne_nil_of_file hentry) _ ?_⟩
    rintro rfl
    exact hfound h
  · exact .refl _ _

/-- Trees that agree outside a directory still do if the same is written to a log in both, wherever
it is. -/
theorem agree_of_write {home : Place} (file : LogFile) (h : AgreeOutside home start tree other)
    (text : String) :
    AgreeOutside home start (file.write tree text) (file.write other text) := by
  by_cases hinside : home <+: file.place
  · exact h.of_changes (changed_of_write hinside _ _) (changed_of_write hinside _ _)
  · unfold write
    rw [h.entry?_eq file.place hinside]
    split
    · rename_i bytes hentry
      exact h.put (place_ne_nil_of_file hentry) (by simp [hentry]) (by simp)
    · exact h

/-- Writing makes no link. -/
theorem link_of_write {file : LogFile} {text target : String} {place : Place}
    (h : FileTree.entry? (file.write tree text) place = some (.link target)) :
    tree.entry? place = some (.link target) := by
  unfold write at h
  split at h
  · rename_i bytes hentry
    rw [entry?_put tree (place_ne_nil_of_file hentry)] at h
    split at h
    · cases h
    · exact h
  · exact h

end PageManifest.LogFile
