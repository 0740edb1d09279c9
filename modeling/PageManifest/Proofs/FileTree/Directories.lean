import PageManifest.Proofs.FileTree.Resolution

/-!
# Paths to directories

Where a path leads to a directory (`LeadsTo`), all paths above it do, too
(`isDirectory_of_encloses`). Creating directories along a path adds directories where nothing
was, each of them where the path itself or a path above it leads, and changes nothing else
(`Created`).
-/

namespace PageManifest

namespace Path

/-- The first path is the second one, or above it. -/
inductive Encloses (top : String) : String → Prop
  | self : Encloses top top
  | above {path above : String} : parent? path = some above → Encloses top above →
      Encloses top path

theorem eq_empty_of_encloses {top : String} (h : Encloses top "") : top = "" := by
  cases h with
  | self => rfl
  | above hnone _ => simp [parent?, parts, pieces, splitSlashes] at hnone

end Path

theorem utf8ByteSize_le_of_sublist {a b : String} (h : a.toList.Sublist b.toList) :
    a.utf8ByteSize ≤ b.utf8ByteSize := by
  have hlist : ∀ {few many : List Char}, few.Sublist many →
      (String.ofList few).utf8ByteSize ≤ (String.ofList many).utf8ByteSize := by
    intro few many hsub
    induction hsub with
    | slnil => exact Nat.le_refl _
    | @cons few many c _ ih =>
      rw [← List.singleton_append, String.ofList_append, String.utf8ByteSize_append]
      omega
    | @cons_cons few many c _ ih =>
      rw [← List.singleton_append, ← List.singleton_append (l := many), String.ofList_append,
        String.ofList_append, String.utf8ByteSize_append, String.utf8ByteSize_append]
      omega
  simpa using hlist h

namespace FileTree

open PageManifest.Path

variable {tree later : FileTree} {path : String} {place : Place}

/-! ## Paths to directories -/

/-- A path that is resolved at all. -/
structure IsResolvable (path : String) : Prop where
  noZero : '\x00' ∉ path.toList
  ne_empty : path ≠ ""
  isShort : path.utf8ByteSize ≤ pathLimit

theorem resolveParts_of_isResolvable {last : Bool} {parts : List String} (h : IsResolvable path) :
    tree.resolveParts last path parts =
      tree.arrive last linkLimit (origin tree.workingDirectory path) parts := by
  unfold resolveParts
  rw [if_neg (by simpa using h.noZero), if_neg (by simpa using h.ne_empty),
    if_neg (Nat.not_lt.mpr h.isShort)]

theorem isResolvable_of_resolveParts {last : Bool} {parts : List String}
    (h : ∀ fault, tree.resolveParts last path parts ≠ .fault fault) : IsResolvable path := by
  unfold resolveParts at h
  split at h
  · exact absurd rfl (h _)
  split at h
  · exact absurd rfl (h _)
  split at h
  · exact absurd rfl (h _)
  rename_i hzero hempty hlong
  exact ⟨by simpa using hzero, by simpa using hempty, by omega⟩

theorem resolveParts_eq_iff {last : Bool} {parts : List String} {arrival : Arrival}
    (hfault : ∀ fault, arrival ≠ .fault fault) :
    tree.resolveParts last path parts = arrival ↔
      IsResolvable path ∧
        Arrives tree last linkLimit (origin tree.workingDirectory path) parts arrival := by
  constructor
  · intro h
    have hresolvable := isResolvable_of_resolveParts (h ▸ hfault)
    rw [resolveParts_of_isResolvable hresolvable] at h
    exact ⟨hresolvable, arrives_of_arrive_eq h (hfault _)⟩
  · rintro ⟨hresolvable, harrives⟩
    rw [resolveParts_of_isResolvable hresolvable, harrives.arrive_eq]

/-- A path leads to a directory. A slash at the end of the path does not matter. -/
structure LeadsTo (tree : FileTree) (path : String) (place : Place) : Prop where
  isResolvable : IsResolvable path
  arrives : Arrives tree true linkLimit (origin tree.workingDirectory path) (bareSteps path)
    (.at place)
  directory : tree.entry? place = some .directory

theorem resolve_eq_at_iff_leadsTo :
    tree.resolve path = .at place ∧ tree.entry? place = some .directory ↔
      LeadsTo tree path place := by
  unfold resolve
  rw [resolveParts_eq_iff (by simp)]
  have hdot : Undotted (bareSteps path ++ ["."]) (bareSteps path ++ []) :=
    (Undotted.refl _).append Undotted.nil.drop
  rw [List.append_nil] at hdot
  constructor
  · rintro ⟨⟨hresolvable, harrives⟩, hdirectory⟩
    refine ⟨hresolvable, ?_, hdirectory⟩
    rcases steps_cases path with hsteps | hsteps
    · exact hsteps ▸ harrives
    · exact (hsteps ▸ harrives).of_undotted hdirectory hdot
  · rintro ⟨hresolvable, harrives, hdirectory⟩
    refine ⟨⟨hresolvable, ?_⟩, hdirectory⟩
    rcases steps_cases path with hsteps | hsteps
    · exact hsteps ▸ harrives
    · rw [hsteps]
      exact harrives.append (follow_stay hdirectory (Or.inl rfl)) (by simp)

theorem isDirectory_iff : tree.isDirectory path = true ↔ ∃ place, LeadsTo tree path place := by
  simp only [← resolve_eq_at_iff_leadsTo]
  cases hresolve : tree.resolve path with
  | «at» found =>
    cases hentry : tree.entry? found with
    | none => simp [isDirectory, stat, hresolve, hentry, Except.toOption]
    | some entry => simp [isDirectory, stat, hresolve, hentry, Except.toOption]
  | missing directory name => simp [isDirectory, stat, hresolve, Except.toOption]
  | link directory target behind => simp [isDirectory, stat, hresolve, Except.toOption]
  | fault fault => simp [isDirectory, stat, hresolve, Except.toOption]

/-- A path that can be followed at all is found in a directory, which is where the path above
leads. -/
theorem exists_leadsTo_parent {last : Bool} {arrival : Arrival} {above : String}
    (hresolvable : IsResolvable path)
    (harrives : Arrives tree last linkLimit (origin tree.workingDirectory path) (bareSteps path)
      arrival)
    (hfault : ∀ fault, arrival ≠ .fault fault) (hparent : parent? path = some above)
    (hne : above ≠ "") : ∃ place, LeadsTo tree above place := by
  obtain ⟨⟨name, hparts⟩, _⟩ := exists_of_parent? hparent
  obtain ⟨front, behind, hsteps, hfront, hbehind⟩ := (hparts ▸ undotted_parts path).split
  have hbehind : behind ≠ [] := by
    rintro rfl
    cases hbehind
  rw [hsteps] at harrives
  obtain ⟨middle, hmiddle, hdirectory⟩ := harrives.exists_of_append hfault hbehind
  have hsub := toList_parent?_sublist hparent
  refine ⟨middle, ⟨fun hzero => hresolvable.noZero (hsub.subset hzero), hne,
    Nat.le_trans (utf8ByteSize_le_of_sublist hsub) hresolvable.isShort⟩, ?_, hdirectory⟩
  rw [bareSteps_parent? hparent, origin, isAbsolute_parent? hparent hne, ← origin]
  exact hmiddle.of_undotted hdirectory hfront

namespace LeadsTo

theorem of_extends (hext : Extends tree later) (h : LeadsTo tree path place) :
    LeadsTo later path place where
  isResolvable := h.isResolvable
  arrives := hext.workingDirectory_eq ▸ h.arrives.of_extends hext h.directory
  directory := hext.directory place h.directory

/-- Where a path leads to a directory, the path above it does. -/
theorem exists_parent (h : LeadsTo tree path place) {above : String}
    (hparent : parent? path = some above) (hne : above ≠ "") :
    ∃ place, LeadsTo tree above place :=
  exists_leadsTo_parent h.isResolvable h.arrives (by simp) hparent hne

end LeadsTo

/-- Where a path leads to a directory, every path above it does. The empty path stands for
the working directory. -/
theorem isDirectory_of_encloses {top : String} (hencloses : Encloses top path)
    (h : tree.isDirectory path = true) : top = "" ∨ tree.isDirectory top = true := by
  induction hencloses with
  | self => exact Or.inr h
  | @above path above hparent hencloses ih =>
    by_cases hne : above = ""
    · exact Or.inl (eq_empty_of_encloses (hne ▸ hencloses))
    · obtain ⟨place, hplace⟩ := isDirectory_iff.mp h
      exact ih (isDirectory_iff.mpr (hplace.exists_parent hparent hne))

/-- A path above another one starts where that one does, and goes a part of its way. -/
theorem exists_front_of_encloses {top : String} (h : Encloses top path) (hne : top ≠ "") :
    isAbsolute top = isAbsolute path ∧
      ∃ front, front <+: bareSteps path ∧ Undotted front (bareSteps top) := by
  induction h with
  | self => exact ⟨rfl, _, List.prefix_rfl, .refl _⟩
  | @above path above hparent hencloses ih =>
    have habove : above ≠ "" := by
      rintro rfl
      exact hne (eq_empty_of_encloses hencloses)
    obtain ⟨habsolute, few, ⟨behind, hbehind⟩, hdots⟩ := ih
    refine ⟨habsolute.trans (isAbsolute_parent? hparent habove), ?_⟩
    obtain ⟨⟨name, hparts⟩, _⟩ := exists_of_parent? hparent
    have hpath := undotted_parts path
    rw [hparts, ← bareSteps_parent? hparent, ← hbehind, List.append_assoc] at hpath
    obtain ⟨front, behind', hfront, hfew, -⟩ := hpath.split
    exact ⟨front, hfront ▸ List.prefix_append _ _, hfew.trans hdots⟩

/-! ## One directory -/

/-- The later tree has further directories where nothing was, each of them where a path or
one above it leads, and is the same elsewhere. -/
structure Created (tree later : FileTree) (path : String) : Prop where
  workingDirectory_eq : later.workingDirectory = tree.workingDirectory
  entry? : ∀ place, later.entry? place = tree.entry? place ∨
    tree.entry? place = none ∧ ∃ top, Encloses top path ∧ LeadsTo later top place

namespace Created

theorem refl (tree : FileTree) (path : String) : Created tree tree path :=
  ⟨rfl, fun _ => Or.inl rfl⟩

theorem keeps (h : Created tree later path) : Keeps tree later := by
  intro place entry hentry
  rcases Created.entry? h place with hsame | ⟨hnone, _⟩
  · exact hsame.trans hentry
  · cases hnone.symm.trans hentry

theorem toExtends (h : Created tree later path) : Extends tree later :=
  ⟨h.workingDirectory_eq, fun place hplace => h.keeps place _ hplace,
    fun place _ hplace => h.keeps place _ hplace⟩

/-- Directories above a path are created first, then the one at the path. -/
theorem trans {middle : FileTree} {above : String} (h : Created tree middle above)
    (habove : parent? path = some above) (h' : Created middle later path) :
    Created tree later path := by
  refine ⟨h'.workingDirectory_eq.trans h.workingDirectory_eq, ?_⟩
  intro place
  rcases Created.entry? h' place with hsame | ⟨hnone, top, htop, hleads⟩
  · rcases h.entry? place with hbefore | ⟨hnone, top, htop, hleads⟩
    · exact Or.inl (hsame.trans hbefore)
    · exact Or.inr ⟨hnone, top, .above habove htop, hleads.of_extends h'.toExtends⟩
  · rcases h.entry? place with hbefore | ⟨hbefore, _⟩
    · exact Or.inr ⟨hbefore ▸ hnone, top, htop, hleads⟩
    · exact Or.inr ⟨hbefore, top, htop, hleads⟩

/-- No file appears, disappears or changes. -/
theorem file_iff (h : Created tree later path) (place : Place) (bytes : ByteArray) :
    later.entry? place = some (.file bytes) ↔ tree.entry? place = some (.file bytes) := by
  rcases h.entry? place with hsame | ⟨hnone, top, _, hleads⟩
  · rw [hsame]
  · rw [hnone, hleads.directory]
    simp

end Created

/-- One directory is created where the path ends at a missing name. -/
theorem created_of_createDirectory (h : tree.createDirectory path = .ok later) :
    Created tree later path ∧ later.isDirectory path = true := by
  unfold createDirectory at h
  split at h
  · cases h
  · rename_i directory name hresolve
    split at h
    · cases h
    cases h
    obtain ⟨hresolvable, harrives⟩ := (resolveParts_eq_iff (by simp)).mp hresolve
    have hnone := harrives.entry?_of_missing
    have hne : directory ++ [name] ≠ [] := by simp
    have hnew := entry?_put_self tree hne .directory
    have hext : Extends tree (tree.put (directory ++ [name]) .directory) :=
      .put (by simp [hnone]) (by simp [hnone]) .directory
    have hleads : LeadsTo (tree.put (directory ++ [name]) .directory) path (directory ++ [name]) :=
      ⟨hresolvable, harrives.of_missing hext hnew, hnew⟩
    refine ⟨⟨rfl, fun place => ?_⟩, isDirectory_iff.mpr ⟨_, hleads⟩⟩
    by_cases hplace : directory ++ [name] = place
    · subst hplace
      exact Or.inr ⟨hnone, path, .self, hleads⟩
    · exact Or.inl (entry?_put_of_ne tree hne _ hplace)
  · cases h
  · cases h

theorem resolveParts_of_isDirectory (h : tree.isDirectory path = true) :
    ∃ place, tree.resolveParts false path (bareSteps path) = .at place := by
  obtain ⟨place, hplace⟩ := isDirectory_iff.mp h
  obtain ⟨other, hother⟩ := hplace.arrives.exists_unfollowed
  exact ⟨other, (resolveParts_eq_iff (by simp)).mpr ⟨hplace.isResolvable, hother⟩⟩

theorem createDirectory_of_isDirectory (h : tree.isDirectory path = true) :
    tree.createDirectory path = .error .exists := by
  obtain ⟨place, hplace⟩ := resolveParts_of_isDirectory h
  simp [createDirectory, hplace]

end FileTree

end PageManifest
