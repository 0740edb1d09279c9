import PageManifest.Proofs.Config.RoundTrip
import PageManifest.Proofs.FileTree.Writing

/-!
# Settings that were saved

Saved settings are loaded again, and saving and loading these changes nothing further. Settings
with a number of seconds past the range are not saved, and no file changes
(`saveTo_loadFrom`).
-/

namespace PageManifest.Config

variable {config : Config} {tree middle later : FileTree} {path : String} {place : Place}

/-! ## The directory above -/

theorem ensureParent_file_iff (tree : FileTree) (path : String) (place : Place)
    (bytes : ByteArray) :
    FileTree.entry? (ensureParent tree path).2 place = some (.file bytes) ↔
      tree.entry? place = some (.file bytes) := by
  unfold ensureParent
  cases Path.parent? path with
  | none => exact Iff.rfl
  | some parent => exact (tree.ensureDirectory_created parent).file_iff place bytes

theorem ensureParent_of_opens (h : tree.Opens path place) :
    ensureParent tree path = (none, tree) := by
  unfold ensureParent
  cases hparent : Path.parent? path with
  | none => rfl
  | some parent => exact FileTree.createDirectories_of_isDirectory (h.isDirectory_parent hparent)

/-! ## Saving -/

theorem saveTo_of_opens (h : config.IsWritable) (hparent : ensureParent tree path = (none, middle))
    (hopens : middle.Opens path place) :
    config.saveTo tree path =
      (none, middle.put place (.file (Text.Utf8.encode (String.ofList config.chars)))) := by
  have hwrite := FileTree.writeText_eq_ok_iff.mpr
    ⟨place, hopens, Eq.refl (middle.put place
      (.file (Text.Utf8.encode (String.ofList config.chars))))⟩
  rw [saveTo, hparent, toToml_eq h]
  dsimp only
  rw [hwrite]

theorem exists_opens_of_saveTo (h : config.IsWritable)
    (hsave : config.saveTo tree path = (none, later)) :
    ∃ (middle : FileTree) (place : Place), middle.Opens path place ∧
      later = middle.put place (.file (Text.Utf8.encode (String.ofList config.chars))) := by
  rw [saveTo, toToml_eq h] at hsave
  generalize ensureParent tree path = ensured at hsave
  obtain ⟨fault, middle⟩ := ensured
  cases fault with
  | some fault => cases hsave
  | none =>
    dsimp only at hsave
    cases hwrite : middle.writeText path (String.ofList config.chars) with
    | ok written =>
      rw [hwrite] at hsave
      cases hsave
      obtain ⟨place, hopens, hlater⟩ := FileTree.writeText_eq_ok_iff.mp hwrite
      exact ⟨middle, place, hopens, hlater⟩
    | error fault =>
      rw [hwrite] at hsave
      cases hsave

/-- Settings that cannot be written are not saved. It is the first step that fails which is
reported: creating the directory above, or writing the number of seconds. -/
theorem saveTo_of_not_isWritable (h : ¬ config.IsWritable) (tree : FileTree) (path : String) :
    config.saveTo tree path =
      (some ((ensureParent tree path).1.elim .timeoutOutOfRange .file),
        (ensureParent tree path).2) := by
  rw [saveTo, toToml_eq_error h]
  generalize ensureParent tree path = ensured
  obtain ⟨fault, middle⟩ := ensured
  cases fault with
  | some fault => rfl
  | none => rfl

theorem ensureParent_fst (tree : FileTree) (path : String) :
    (ensureParent tree path).1 =
      (Path.parent? path).bind fun parent => (tree.ensureDirectory parent).1 := by
  unfold ensureParent
  cases Path.parent? path with
  | some parent => rfl
  | none => rfl

/-! ## Loading -/

theorem loadFrom_put (h : config.IsWritable) (hopens : middle.Opens path place) :
    loadFrom (middle.put place (.file (Text.Utf8.encode (String.ofList config.chars)))) path =
      .ok config.withUsableIcons := by
  rw [loadFrom, hopens.readText_put]
  exact ofToml_chars h

/-- Settings within the range are written as a text that gives them back, with plain glyphs if
others are not to be used. If they are saved, their file holds that text, loading it gives the
same settings, and saving these and loading them again succeeds and gives them once more.
Settings with a number of seconds past the range are not saved, and all files stay as they are. If
the directory above the file cannot be created, the error says why; otherwise it says that the
number is past the range. -/
theorem saveTo_loadFrom (config : Config) (tree : FileTree) (path : String) :
    let loaded := if config.display.useGlyphs then config
      else { config with display := { config.display with icons := .simple } }
    ((∀ seconds ∈ config.server.timeout, seconds.toNat ≤ 0x7FFFFFFFFFFFFFFF) →
      ∃ text, config.toToml = .ok text ∧ ofToml text = .ok loaded ∧
        ∀ later, config.saveTo tree path = (none, later) →
          later.readText path = .ok text ∧ loadFrom later path = .ok loaded ∧
            ∃ again, loaded.saveTo later path = (none, again) ∧
              loadFrom again path = .ok loaded) ∧
      ((∃ seconds ∈ config.server.timeout, 0x7FFFFFFFFFFFFFFF < seconds.toNat) →
        ∃ error later, config.saveTo tree path = (some error, later) ∧
          (∀ parent fault, Path.parent? path = some parent →
            (tree.ensureDirectory parent).1 = some fault → error = .file fault) ∧
          ((∀ parent, Path.parent? path = some parent → (tree.ensureDirectory parent).1 = none) →
            error = .timeoutOutOfRange) ∧
          ∀ place bytes, later.entry? place = some (.file bytes) ↔
            tree.entry? place = some (.file bytes)) := by
  intro loaded
  have hloaded : loaded = config.withUsableIcons := rfl
  clear_value loaded
  subst hloaded
  constructor
  · intro hrange
    have hwritable : config.IsWritable := by
      intro seconds hseconds
      have hle := hrange seconds hseconds
      omega
    refine ⟨_, toToml_eq hwritable, ofToml_chars hwritable, ?_⟩
    intro later hsave
    obtain ⟨middle, place, hopens, rfl⟩ := exists_opens_of_saveTo hwritable hsave
    have hagain := hopens.put (Text.Utf8.encode (String.ofList config.chars))
    have hsaved := saveTo_of_opens hwritable.withUsableIcons (ensureParent_of_opens hagain) hagain
    have hload := loadFrom_put hwritable.withUsableIcons hagain
    rw [withUsableIcons_idem] at hload
    exact ⟨hopens.readText_put _, loadFrom_put hwritable hopens, _, hsaved, hload⟩
  · rintro ⟨seconds, hseconds, hpast⟩
    have hwritable : ¬ config.IsWritable := by
      intro h
      have hlt := h seconds hseconds
      omega
    refine ⟨_, _, saveTo_of_not_isWritable hwritable tree path, ?_, ?_,
      ensureParent_file_iff tree path⟩
    · intro parent fault hparent hfault
      rw [ensureParent_fst, hparent, Option.bind_some, hfault, Option.elim_some]
    · intro hmade
      have hnone : (ensureParent tree path).1 = none := by
        rw [ensureParent_fst, Option.bind_eq_none_iff]
        exact hmade
      rw [hnone, Option.elim_none]

/-- Below a file no directory can be created, and this is what is reported even if the number of
seconds is past the range. -/
theorem saveTo_below_file :
    let config : Config := { server := { timeout := some 9223372036854775808 } }
    let tree : FileTree := { entries := [(["f"], .file .empty)], workingDirectory := [] }
    (∃ seconds ∈ config.server.timeout, 0x7FFFFFFFFFFFFFFF < seconds.toNat) ∧
      (config.saveTo tree "f/x/config.toml").1 = some (.file .notDirectory) := by
  refine ⟨⟨9223372036854775808, rfl, ?_⟩, ?_⟩
  · decide
  · rfl

end PageManifest.Config
