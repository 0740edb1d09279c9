import PageManifest.Proofs.Config.Files
import PageManifest.Proofs.FileTree.Files

/-!
# Saving is all or nothing

Saving first creates the missing directories above the path (`Prepared`), then writes the
settings as a text, then writes that text to the file. If one of these steps fails, no file is
created, changed or removed; if none does, the path leads to the whole text and every other file
is as it was (`saveTo_allOrNothing`).
-/

namespace PageManifest.Config

open PageManifest.FileTree PageManifest.Path

variable {config : Config} {tree middle later : FileTree} {path : String} {place : Place}

/-! ## Directories above -/

/-- The later tree is the first one with directories where nothing was, each of them where a
path above the given one leads. -/
structure Prepared (tree later : FileTree) (path : String) : Prop where
  workingDirectory_eq : later.workingDirectory = tree.workingDirectory
  entry? : ∀ place, later.entry? place = tree.entry? place ∨
    tree.entry? place = none ∧ ∃ above top,
      parent? path = some above ∧ Encloses top above ∧ LeadsTo later top place

namespace Prepared

theorem toExtends (h : Prepared tree later path) : Extends tree later where
  workingDirectory_eq := h.workingDirectory_eq
  directory place hplace := by
    rcases h.entry? place with hsame | ⟨hnone, _⟩
    · exact hsame.trans hplace
    · cases hnone.symm.trans hplace
  link place target hplace := by
    rcases h.entry? place with hsame | ⟨hnone, _⟩
    · exact hsame.trans hplace
    · cases hnone.symm.trans hplace

theorem file_iff (h : Prepared tree later path) (place : Place) (bytes : ByteArray) :
    later.entry? place = some (.file bytes) ↔ tree.entry? place = some (.file bytes) := by
  rcases h.entry? place with hsame | ⟨hnone, above, top, _, _, hleads⟩
  · rw [hsame]
  · rw [hnone, hleads.directory]
    simp

/-- What could be read can be read as before. -/
theorem readBytes_eq (h : Prepared tree later path) {other : String} {bytes : ByteArray}
    (hread : tree.readBytes other = .ok bytes) : later.readBytes other = .ok bytes := by
  obtain ⟨place, hresolve, hfile⟩ := exists_resolve_of_readBytes hread
  have hkept := (h.file_iff place bytes).mpr hfile
  exact readBytes_of_resolve (resolve_of_file h.toExtends hresolve hkept) hkept

end Prepared

theorem ensureParent_prepared (tree : FileTree) (path : String) :
    Prepared tree (ensureParent tree path).2 path := by
  unfold ensureParent
  cases hparent : parent? path with
  | none => exact ⟨rfl, fun _ => .inl rfl⟩
  | some above =>
    have hcreated := tree.ensureDirectory_created above
    refine ⟨hcreated.workingDirectory_eq, fun place => ?_⟩
    rcases hcreated.entry? place with hsame | ⟨hnone, top, htop, hleads⟩
    · exact .inl hsame
    · exact .inr ⟨hnone, above, top, hparent, htop, hleads⟩

/-! ## The steps -/

/-- All that comes of an attempt to save: either a step fails and there is the tree with the
directories above, or all of them succeed and the file is written to that tree. -/
theorem saveTo_cases (config : Config) (tree : FileTree) (path : String) :
    (∃ error, config.saveTo tree path = (some error, (ensureParent tree path).2)) ∨
      ∃ text place, config.toToml = .ok text ∧ (ensureParent tree path).2.Opens path place ∧
        config.saveTo tree path =
          (none, (ensureParent tree path).2.put place (.file (Text.Utf8.encode text))) := by
  unfold saveTo
  generalize ensureParent tree path = ensured
  obtain ⟨fault?, middle⟩ := ensured
  cases fault? with
  | some fault => exact .inl ⟨.file fault, rfl⟩
  | none =>
    dsimp only
    cases config.toToml with
    | error error => exact .inl ⟨error, rfl⟩
    | ok text =>
      dsimp only
      cases hwrite : middle.writeText path text with
      | error fault => exact .inl ⟨.file fault, rfl⟩
      | ok written =>
        obtain ⟨place, hopens, rfl⟩ := writeText_eq_ok_iff.mp hwrite
        exact .inr ⟨text, place, rfl, hopens, rfl⟩

/-- If saving fails, then only missing directories above the path have been created: each file is
as it was, there is no further one, and whatever could be read is read as before. If it succeeds,
then the path leads to the text of the settings, and but for missing directories above it nothing
else has changed. This holds for every path, and with links, too. -/
theorem saveTo_allOrNothing (config : Config) (tree : FileTree) (path : String) :
    match config.saveTo tree path with
    | (some _, later) =>
      Prepared tree later path ∧
        (∀ place bytes, later.entry? place = some (.file bytes) ↔
          tree.entry? place = some (.file bytes)) ∧
        ∀ other bytes, tree.readBytes other = .ok bytes → later.readBytes other = .ok bytes
    | (none, later) =>
      ∃ text place middle, config.toToml = .ok text ∧ Prepared tree middle path ∧
        later = middle.put place (.file (Text.Utf8.encode text)) ∧
        later.resolve path = .at place ∧ later.readText path = .ok text ∧
        ∀ other, other ≠ place → ∀ bytes,
          (later.entry? other = some (.file bytes) ↔ tree.entry? other = some (.file bytes)) := by
  have hprepared := ensureParent_prepared tree path
  rcases saveTo_cases config tree path with ⟨error, hsave⟩ | ⟨text, place, htext, hopens, hsave⟩
  · rw [hsave]
    exact ⟨hprepared, hprepared.file_iff, fun other bytes => hprepared.readBytes_eq⟩
  · rw [hsave]
    refine ⟨text, place, _, htext, hprepared, rfl, hopens.resolve_put _, hopens.readText_put _, ?_⟩
    intro other hother bytes
    rw [entry?_put_of_ne _ hopens.ne_nil _ (Ne.symm hother)]
    exact hprepared.file_iff other bytes

end PageManifest.Config
