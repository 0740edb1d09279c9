import PageManifest.Proofs.FileTree.Directories

/-!
# Creating directories

Creating a directory with all that leads to it succeeds if and only if the directories on the
way are there or can be created one by one, from the top (`Made`,
`ensureDirectory_fst_eq_none_iff`), and then the path leads to a directory. Whether it succeeds
or not, only directories are added along the path (`ensureDirectory_created`).
-/

namespace PageManifest.FileTree

open PageManifest.Path

variable {tree later middle : FileTree} {path above : String}

/-! ## From the top -/

/-- The tree in which there is a directory at a path, all that are missing having been created
from the top. The empty path stands for the working directory, which is taken as it is. -/
inductive Made (tree : FileTree) : String → FileTree → Prop
  | there {path : String} (h : path = "" ∨ tree.isDirectory path = true) : Made tree path tree
  | alone {path : String} {later : FileTree} (hcreate : tree.createDirectory path = .ok later) :
      Made tree path later
  | found {path above : String} {middle : FileTree} (hparent : parent? path = some above)
      (h : Made tree above middle) (hdirectory : middle.isDirectory path = true) :
      Made tree path middle
  | behind {path above : String} {middle later : FileTree} (hparent : parent? path = some above)
      (h : Made tree above middle) (hcreate : middle.createDirectory path = .ok later) :
      Made tree path later

/-- A directory can be had at a path. -/
def CanEnsure (tree : FileTree) (path : String) : Prop := ∃ later, Made tree path later

namespace Made

theorem isDirectory (h : Made tree path later) : path = "" ∨ later.isDirectory path = true := by
  cases h with
  | there h => exact h
  | alone hcreate => exact Or.inr (created_of_createDirectory hcreate).2
  | found _ _ hdirectory => exact Or.inr hdirectory
  | behind _ _ hcreate => exact Or.inr (created_of_createDirectory hcreate).2

theorem created (h : Made tree path later) : Created tree later path := by
  induction h with
  | there _ => exact .refl tree _
  | alone hcreate => exact (created_of_createDirectory hcreate).1
  | found hparent _ _ ih => exact ih.trans hparent (.refl _ _)
  | behind hparent _ hcreate ih => exact ih.trans hparent (created_of_createDirectory hcreate).1

end Made

theorem createDirectory_empty : tree.createDirectory "" = .error .notFound := rfl

theorem isDirectory_parent (hparent : parent? path = some above)
    (h : tree.isDirectory path = true) : above = "" ∨ tree.isDirectory above = true :=
  isDirectory_of_encloses (.above hparent .self) h

/-- Nothing is created if the directory is there. -/
theorem Made.eq_of_isDirectory (h : Made tree path later)
    (hthere : path = "" ∨ tree.isDirectory path = true) : later = tree := by
  have hno : ∀ {path : String} {later : FileTree}, path = "" ∨ tree.isDirectory path = true →
      tree.createDirectory path ≠ .ok later := by
    rintro path later (rfl | h) hcreate
    · cases createDirectory_empty.symm.trans hcreate
    · cases (createDirectory_of_isDirectory h).symm.trans hcreate
  have habove : ∀ {path above : String}, parent? path = some above →
      path = "" ∨ tree.isDirectory path = true →
      above = "" ∨ tree.isDirectory above = true := by
    rintro path above hparent (rfl | h)
    · simp [parent?, parts, pieces, splitSlashes] at hparent
    · exact isDirectory_parent hparent h
  induction h with
  | there _ => rfl
  | alone hcreate => exact absurd hcreate (hno hthere)
  | found hparent _ _ ih => exact ih (habove hparent hthere)
  | behind hparent _ hcreate ih =>
    have hsame := ih (habove hparent hthere)
    subst hsame
    exact absurd hcreate (hno hthere)

/-! ## What is tried -/

/-- What comes of an attempt to have a directory at a path. -/
structure Ensured (tree : FileTree) (path : String) (outcome : Option FileFault × FileTree) :
    Prop where
  created : Created tree outcome.2 path
  eq_none_iff : outcome.1 = none ↔ path = "" ∨ outcome.2.isDirectory path = true
  made : outcome.1 = none → Made tree path outcome.2

theorem ensured_of_made (h : Made tree path later) : Ensured tree path (none, later) :=
  ⟨h.created, by simp [h.isDirectory], fun _ => h⟩

theorem ensured_of_not_isDirectory (hcreated : Created tree later path) (hne : path ≠ "")
    (hno : later.isDirectory path ≠ true) (fault : FileFault) :
    Ensured tree path (some fault, later) :=
  ⟨hcreated, by simp [hne, hno], by simp⟩

/-- Without a directory above there is none at the path. -/
theorem Ensured.of_fault {fault : FileFault} (hne : path ≠ "")
    (hparent : parent? path = some above) (h : Ensured tree above (some fault, later)) :
    Ensured tree path (some fault, later) := by
  have habove : ¬ (above = "" ∨ later.isDirectory above = true) := by
    rw [← h.eq_none_iff]
    simp
  refine ensured_of_not_isDirectory (h.created.trans hparent (.refl later path)) hne ?_ fault
  exact fun hdirectory => habove (isDirectory_parent hparent hdirectory)

theorem ensured_of_parents {fuel : Nat}
    (ih : ∀ fewer above, fuel = fewer + 1 →
      Ensured tree above (createDirectories fewer tree above)) :
    Ensured tree path (createDirectories fuel tree path) := by
  rw [createDirectories.eq_def]
  dsimp only
  split
  · rename_i hempty
    exact ensured_of_made (.there (Or.inl (by simpa using hempty)))
  rename_i hempty
  have hne : path ≠ "" := by simpa using hempty
  split
  · rename_i later hcreate
    exact ensured_of_made (.alone hcreate)
  rename_i fault hcreate
  split
  · split
    · rename_i hdirectory
      exact ensured_of_made (.there (Or.inr hdirectory))
    · rename_i hno
      exact ensured_of_not_isDirectory (.refl tree path) hne hno fault
  rename_i hfault
  simp only [ne_eq, Classical.not_not] at hfault
  split
  · rename_i fewer above hparent
    have habove := ih fewer above rfl
    split
    · rename_i fault' middle hdirectories
      exact (hdirectories ▸ habove).of_fault hne hparent
    · rename_i middle hdirectories
      have hmade := (hdirectories ▸ habove).made rfl
      split
      · rename_i later hlater
        exact ensured_of_made (.behind hparent hmade hlater)
      · split
        · rename_i hdirectory
          exact ensured_of_made (.found hparent hmade hdirectory)
        · rename_i hno
          exact ensured_of_not_isDirectory (hmade.created.trans hparent (.refl _ _)) hne hno _
  · refine ensured_of_not_isDirectory (.refl tree path) hne ?_ fault
    intro hdirectory
    cases (hfault ▸ hcreate).symm.trans (createDirectory_of_isDirectory hdirectory)

/-- The recursion goes up, one part of the path at a time. -/
theorem ensured_createDirectories (fuel : Nat) (tree : FileTree) (path : String) :
    Ensured tree path (createDirectories fuel tree path) := by
  induction fuel generalizing tree path with
  | zero => exact ensured_of_parents (by simp)
  | succ fuel ih =>
    refine ensured_of_parents fun fewer above hfuel => ?_
    cases hfuel
    exact ih tree above

theorem ensureDirectory_created (tree : FileTree) (path : String) :
    Created tree (tree.ensureDirectory path).2 path :=
  (ensured_createDirectories _ tree path).created

/-! ## Nothing else is needed -/

theorem resolveParts_fault_of_created {top : String} {last : Bool} {parts : List String}
    (hcreated : Created tree later top) {fault : FileFault}
    (h : tree.resolveParts last path parts = .fault fault) (hfault : fault ≠ .notFound) :
    later.resolveParts last path parts = .fault fault := by
  unfold resolveParts at h ⊢
  split at h
  · rename_i hzero
    rw [if_pos hzero, h]
  rename_i hzero
  rw [if_neg hzero]
  split at h
  · rename_i hempty
    rw [if_pos hempty, h]
  rename_i hempty
  rw [if_neg hempty]
  split at h
  · rename_i hlong
    rw [if_pos hlong, h]
  rename_i hlong
  rw [if_neg hlong, hcreated.workingDirectory_eq]
  exact arrive_fault_of_keeps hcreated.toExtends hcreated.keeps h hfault

/-- Without a directory above, one cannot be created, now for want of it, or ever. -/
theorem createDirectory_eq_notFound (hparent : parent? path = some above)
    (habove : ¬ (above = "" ∨ tree.isDirectory above = true))
    (hcreated : Created tree later above)
    (hlater : ∀ fault, later.resolveParts false path (bareSteps path) ≠ .fault fault) :
    tree.createDirectory path = .error .notFound := by
  have hresolve : ∃ fault, tree.resolveParts false path (bareSteps path) = .fault fault := by
    refine Classical.byContradiction fun hno => ?_
    have hfault : ∀ fault, tree.resolveParts false path (bareSteps path) ≠ .fault fault :=
      fun fault h => hno ⟨fault, h⟩
    obtain ⟨hresolvable, harrives⟩ := (resolveParts_eq_iff hfault).mp rfl
    rw [not_or] at habove
    obtain ⟨place, hplace⟩ := exists_leadsTo_parent hresolvable harrives hfault hparent habove.1
    exact habove.2 (isDirectory_iff.mpr ⟨place, hplace⟩)
  obtain ⟨fault, hresolve⟩ := hresolve
  have hnotFound : fault = .notFound := Classical.byContradiction fun hfault =>
    hlater fault (resolveParts_fault_of_created hcreated hresolve hfault)
  rw [createDirectory, hresolve, hnotFound]

theorem createDirectories_of_notFound {fuel : Nat} (hparent : parent? path = some above)
    (hcreate : tree.createDirectory path = .error .notFound)
    (habove : createDirectories fuel tree above = (none, middle)) :
    createDirectories (fuel + 1) tree path =
      match middle.createDirectory path with
      | .ok later => (none, later)
      | .error fault => (if middle.isDirectory path then none else some fault, middle) := by
  have hne : path.isEmpty = false := by
    rw [Bool.eq_false_iff]
    intro hempty
    rw [String.isEmpty_iff] at hempty
    subst hempty
    simp [parent?, parts, pieces, splitSlashes] at hparent
  rw [createDirectories]
  simp only [hne, hcreate, hparent, habove]
  cases middle.createDirectory path with
  | ok later => simp
  | error fault => simp

theorem createDirectories_of_isDirectory {fuel : Nat}
    (h : path = "" ∨ tree.isDirectory path = true) :
    createDirectories fuel tree path = (none, tree) := by
  rw [createDirectories.eq_def]
  rcases h with rfl | h
  · rfl
  · simp [createDirectory_of_isDirectory h, h]

theorem createDirectories_of_ok {fuel : Nat} (h : tree.createDirectory path = .ok later) :
    createDirectories fuel tree path = (none, later) := by
  have hne : path.isEmpty = false := by
    rw [Bool.eq_false_iff]
    intro hempty
    rw [String.isEmpty_iff] at hempty
    subst hempty
    cases createDirectory_empty.symm.trans h
  rw [createDirectories.eq_def]
  simp [hne, h]

/-- Where one directory cannot be created, no more is done than creating those above and trying
again. -/
theorem createDirectories_snd_cases (fuel : Nat) (path : String) (fault : FileFault) :
    (∀ tree : FileTree, tree.createDirectory path = .error fault →
      (createDirectories fuel tree path).2 = tree) ∨
    ∃ fewer above, fuel = fewer + 1 ∧ parent? path = some above ∧
      ∀ tree : FileTree, tree.createDirectory path = .error fault →
        (createDirectories fuel tree path).2 = (createDirectories fewer tree above).2 ∨
        (createDirectories fewer tree above).2.createDirectory path =
          .ok (createDirectories fuel tree path).2 := by
  by_cases hempty : path.isEmpty
  · exact Or.inl fun tree _ => by simp [createDirectories.eq_def, hempty]
  by_cases hfault : fault = .notFound
  · subst hfault
    cases fuel with
    | zero => exact Or.inl fun tree hcreate => by simp [createDirectories, hempty, hcreate]
    | succ fewer =>
      cases hparent : parent? path with
      | none =>
        exact Or.inl fun tree hcreate => by simp [createDirectories, hempty, hcreate, hparent]
      | some above =>
        refine Or.inr ⟨fewer, above, rfl, rfl, fun tree hcreate => ?_⟩
        rw [createDirectories, if_neg hempty]
        simp only [hcreate, hparent, ne_eq, not_true_eq_false, if_false]
        generalize createDirectories fewer tree above = outcome
        obtain ⟨fault?, middle⟩ := outcome
        cases fault? with
        | some fault => exact Or.inl rfl
        | none =>
          cases hagain : middle.createDirectory path with
          | ok later =>
            dsimp only
            rw [hagain]
            exact Or.inr rfl
          | error fault =>
            dsimp only
            rw [hagain]
            exact Or.inl rfl
  · exact Or.inl fun tree hcreate => by simp [createDirectories.eq_def, hempty, hcreate, hfault]

/-- The path above another one has fewer parts. -/
theorem length_parts_parent? (hparent : parent? path = some above) :
    (parts above).length < (parts path).length := by
  obtain ⟨⟨name, hparts⟩, _⟩ := exists_of_parent? hparent
  have hle := (undotted_parts above).sublist.length_le
  rw [bareSteps_parent? hparent] at hle
  rw [hparts, List.length_append, List.length_singleton]
  omega

/-- A directory that can be had from the top is found by trying from the bottom. -/
theorem createDirectories_of_made (h : Made tree path later) {fuel : Nat}
    (hfuel : (parts path).length ≤ fuel) :
    createDirectories fuel tree path = (none, later) := by
  -- A parent has one part fewer, so that the fuel that is left is enough for it.
  induction h generalizing fuel with
  | there h => exact createDirectories_of_isDirectory h
  | alone hcreate => exact createDirectories_of_ok hcreate
  | @found path above middle hparent hmade hdirectory ih =>
    by_cases habove : above = "" ∨ tree.isDirectory above = true
    · have hsame := hmade.eq_of_isDirectory habove
      subst hsame
      exact createDirectories_of_isDirectory (Or.inr hdirectory)
    · have hlength := length_parts_parent? hparent
      obtain ⟨fuel, rfl⟩ := Nat.exists_eq_succ_of_ne_zero (n := fuel) (by omega)
      obtain ⟨place, hplace⟩ := resolveParts_of_isDirectory hdirectory
      have hcreate := createDirectory_eq_notFound hparent habove hmade.created (by simp [hplace])
      rw [createDirectories_of_notFound hparent hcreate (ih (by omega)),
        createDirectory_of_isDirectory hdirectory]
      simp [hdirectory]
  | @behind path above middle later hparent hmade hcreate ih =>
    by_cases habove : above = "" ∨ tree.isDirectory above = true
    · have hsame := hmade.eq_of_isDirectory habove
      subst hsame
      exact createDirectories_of_ok hcreate
    · have hlength := length_parts_parent? hparent
      obtain ⟨fuel, rfl⟩ := Nat.exists_eq_succ_of_ne_zero (n := fuel) (by omega)
      have hlater : ∀ fault, middle.resolveParts false path (bareSteps path) ≠ .fault fault := by
        intro fault hfault
        simp [createDirectory, hfault] at hcreate
      have hnone := createDirectory_eq_notFound hparent habove hmade.created hlater
      rw [createDirectories_of_notFound hparent hnone (ih (by omega)), hcreate]

/-- Creating a directory with all that leads to it fails only if it cannot be had. -/
theorem ensureDirectory_fst_eq_none_iff (tree : FileTree) (path : String) :
    (tree.ensureDirectory path).1 = none ↔ tree.CanEnsure path := by
  constructor
  · intro h
    exact ⟨_, (ensured_createDirectories _ tree path).made h⟩
  · rintro ⟨later, hmade⟩
    rw [ensureDirectory, createDirectories_of_made hmade (Nat.le_refl _)]

theorem CanEnsure.isDirectory (h : tree.CanEnsure path) :
    path = "" ∨ (tree.ensureDirectory path).2.isDirectory path = true :=
  (ensured_createDirectories _ tree path).eq_none_iff.mp
    ((ensureDirectory_fst_eq_none_iff tree path).mpr h)

/-! ## Two trees -/

/-- The same change of two trees: it fails in both alike, or in neither, and then the trees
behind it are related. -/
inductive Paired (R : FileTree → FileTree → Prop) :
    Except FileFault FileTree → Except FileFault FileTree → Prop
  | fails (fault : FileFault) : Paired R (.error fault) (.error fault)
  | done {later later' : FileTree} (h : R later later') : Paired R (.ok later) (.ok later')

/-- What is known of the trees behind the change may be used for another relation. -/
theorem Paired.imp {R S : FileTree → FileTree → Prop} {result result' : Except FileFault FileTree}
    (h : Paired R result result')
    (hnext : ∀ later later', result = .ok later → result' = .ok later' → R later later' →
      S later later') : Paired S result result' := by
  cases h with
  | fails fault => exact .fails fault
  | done h => exact .done (hnext _ _ rfl rfl h)

section Paired

variable {R : FileTree → FileTree → Prop} {P : String → Prop}
  (hparent : ∀ {path above}, P path → parent? path = some above → above ≠ "" → P above)
  (hcreate : ∀ {tree other path}, R tree other → P path →
    Paired R (tree.createDirectory path) (other.createDirectory path))
  (hdirectory : ∀ {tree other path}, R tree other → P path →
    other.isDirectory path = tree.isDirectory path)

include hcreate hdirectory in
theorem createDirectories_paired_of_parents {other : FileTree} (h : R tree other) (hpath : P path)
    {fuel : Nat}
    (ih : ∀ fewer above, fuel = fewer + 1 → parent? path = some above → above ≠ "" →
      (createDirectories fewer other above).1 = (createDirectories fewer tree above).1 ∧
        R (createDirectories fewer tree above).2 (createDirectories fewer other above).2) :
    (createDirectories fuel other path).1 = (createDirectories fuel tree path).1 ∧
      R (createDirectories fuel tree path).2 (createDirectories fuel other path).2 := by
  have hfirst := hcreate h hpath
  rw [createDirectories.eq_def fuel tree, createDirectories.eq_def fuel other]
  dsimp only
  rw [hdirectory h hpath]
  generalize tree.createDirectory path = created at hfirst ⊢
  generalize other.createDirectory path = created' at hfirst ⊢
  split
  · exact ⟨rfl, h⟩
  cases hfirst with
  | done hlater => exact ⟨rfl, hlater⟩
  | fails fault =>
    dsimp only
    split
    · exact ⟨rfl, h⟩
    split
    · rename_i fewer above hparent
      have habove : (createDirectories fewer other above).1 =
          (createDirectories fewer tree above).1 ∧
          R (createDirectories fewer tree above).2 (createDirectories fewer other above).2 := by
        by_cases hne : above = ""
        · subst hne
          rw [createDirectories_of_isDirectory (Or.inl rfl),
            createDirectories_of_isDirectory (Or.inl rfl)]
          exact ⟨rfl, h⟩
        · exact ih fewer above rfl hparent hne
      generalize createDirectories fewer tree above = outcome at habove ⊢
      generalize createDirectories fewer other above = outcome' at habove ⊢
      obtain ⟨fault?, middle⟩ := outcome
      obtain ⟨fault?', middle'⟩ := outcome'
      obtain ⟨hfault, hmiddle⟩ := habove
      dsimp only at hfault hmiddle ⊢
      subst hfault
      cases fault?' with
      | some fault => exact ⟨rfl, hmiddle⟩
      | none =>
        have hsecond := hcreate hmiddle hpath
        dsimp only
        rw [hdirectory hmiddle hpath]
        generalize middle.createDirectory path = created at hsecond ⊢
        generalize middle'.createDirectory path = created' at hsecond ⊢
        cases hsecond with
        | fails fault => exact ⟨rfl, hmiddle⟩
        | done hlater => exact ⟨rfl, hlater⟩
    · exact ⟨rfl, h⟩

include hparent hcreate hdirectory in
/-- Directories are created alike in related trees if one directory is, and the paths above are
of the same kind. The recursion goes up the path. -/
theorem createDirectories_paired {other : FileTree} (h : R tree other) (hpath : P path)
    (fuel : Nat) :
    (createDirectories fuel other path).1 = (createDirectories fuel tree path).1 ∧
      R (createDirectories fuel tree path).2 (createDirectories fuel other path).2 := by
  induction fuel generalizing tree other path with
  | zero => exact createDirectories_paired_of_parents hcreate hdirectory h hpath (by simp)
  | succ fuel ih =>
    refine createDirectories_paired_of_parents hcreate hdirectory h hpath ?_
    intro fewer above hfuel habove hne
    cases hfuel
    exact ih h (hparent hpath habove hne)

end Paired

end PageManifest.FileTree
