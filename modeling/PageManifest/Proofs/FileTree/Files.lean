import PageManifest.Proofs.FileTree.Creation
import PageManifest.Proofs.OrderedMap

/-!
# Files in a directory

Where a file is that a path names as a directory and a name in it. In a tree without links
at that place, writing the file puts it right below the directory
(`writeText_join`), and what is there can be read by the same path (`readBytes_join`).

Without links and without `..` a path to a directory has as many names as its place is deep
(`length_of_leadsTo`), so that no path above it leads further down (`ne_of_encloses`).
-/

namespace PageManifest.FileTree

open PageManifest.Path

variable {tree later : FileTree} {directory name : String} {base : Place}

/-! ## The place of a file -/

/-- The place of a directory, be it there or not if it is the working directory that the
empty path stands for. -/
def IsBase (tree : FileTree) (directory : String) (base : Place) : Prop :=
  directory = "" ∧ base = tree.workingDirectory ∨ LeadsTo tree directory base

theorem IsBase.arrives (h : IsBase tree directory base) :
    Arrives tree true linkLimit (origin tree.workingDirectory directory) (bareSteps directory)
      (.at base) := by
  rcases h with ⟨rfl, rfl⟩ | h
  · exact .done rfl (by simp)
  · exact h.arrives

theorem IsBase.of_extends (hext : Extends tree later) (h : IsBase tree directory base) :
    IsBase later directory base := by
  rcases h with ⟨rfl, rfl⟩ | h
  · exact Or.inl ⟨rfl, hext.workingDirectory_eq.symm⟩
  · exact Or.inr (h.of_extends hext)

theorem IsBase.eq {other : Place} (h : IsBase tree directory base)
    (h' : IsBase tree directory other) : base = other := by
  rcases h with ⟨rfl, rfl⟩ | h
  · rcases h' with ⟨_, rfl⟩ | h'
    · rfl
    · exact absurd rfl h'.isResolvable.ne_empty
  · rcases h' with ⟨rfl, _⟩ | h'
    · exact absurd rfl h.isResolvable.ne_empty
    · cases h.arrives.arrive_eq.symm.trans h'.arrives.arrive_eq
      rfl

/-- Where a directory can be had, it has a place. -/
theorem exists_isBase (h : tree.CanEnsure directory) :
    ∃ base, IsBase (tree.ensureDirectory directory).2 directory base := by
  rcases h.isDirectory with rfl | h
  · exact ⟨_, Or.inl ⟨rfl, rfl⟩⟩
  · obtain ⟨place, hplace⟩ := isDirectory_iff.mp h
    exact ⟨place, Or.inr hplace⟩

/-- A name of a file as a path on its own. -/
structure IsFileName (name : String) : Prop where
  isName : IsName name
  notMem_slash : '/' ∉ name.toList

namespace IsFileName

theorem bareSteps_eq (h : IsFileName name) : bareSteps name = [name] := by
  have hempty : name.isEmpty = false := by simpa using h.isName.ne_empty
  simp [bareSteps, pieces, splitSlashes_of_not_mem h.notMem_slash, hempty]

theorem not_isAbsolute (h : IsFileName name) : isAbsolute name = false := by
  rw [Bool.eq_false_iff]
  intro habs
  obtain ⟨cs, hcs, _⟩ := exists_of_isAbsolute habs
  exact h.notMem_slash (by simp [hcs])

theorem bareSteps_join (h : IsFileName name) :
    bareSteps (join directory name) = bareSteps directory ++ [name] := by
  rw [FileTree.bareSteps_join h.not_isAbsolute, h.bareSteps_eq]

/-- The joined path has no slash at its end. -/
theorem steps_join (h : IsFileName name) :
    steps (join directory name) = bareSteps directory ++ [name] := by
  have hlast : (join directory name).toList.getLast? ≠ some '/' := by
    have hsome : name.toList ≠ [] := fun hnil =>
      h.isName.ne_empty (String.toList_eq_nil_iff.mp hnil)
    have hsuffix : ∀ front : List Char, (front ++ name.toList).getLast? ≠ some '/' := by
      intro front hfront
      rw [List.getLast?_append, List.getLast?_eq_some_getLast hsome, Option.some_or] at hfront
      exact h.notMem_slash (Option.some.inj hfront ▸ List.getLast_mem hsome)
    by_cases hne : directory = ""
    · subst hne
      simpa [join_empty] using hsuffix []
    · rcases join_of_ne_empty hne h.not_isAbsolute with ⟨hjoin, _⟩ | hjoin
      · rw [hjoin, String.toList_append]
        exact hsuffix _
      · rw [hjoin, String.toList_append]
        exact hsuffix _
  rw [← h.bareSteps_join]
  simp only [steps, beq_iff_eq, if_neg hlast]
  rfl

theorem origin_join (h : IsFileName name) (place : Place) :
    origin place (join directory name) = origin place directory := by
  simp only [origin, isAbsolute_join h.not_isAbsolute]

end IsFileName

theorem follow_name_cases (hname : IsName name)
    (hlink : ∀ target, tree.entry? (base ++ [name]) ≠ some (.link target)) :
    (∃ fault, tree.follow true base [name] = .fault fault) ∨
      tree.entry? base = some .directory ∧
        (tree.follow true base [name] = .missing base name ∨
          tree.follow true base [name] = .at (base ++ [name])) := by
  cases partCases tree true base name [] with
  | fault fault h => exact Or.inl ⟨fault, h true⟩
  | stay _ hpart _ => exact (hpart.elim hname.ne_point hname.ne_empty).elim
  | up _ hpart _ => exact absurd hpart hname.ne_up
  | missing hplace _ _ _ h => exact Or.inr ⟨hplace, Or.inl h⟩
  | lastLink _ _ target hentry _ _ => exact absurd hentry (hlink target)
  | link _ _ target hentry _ _ => exact absurd hentry (hlink target)
  | enter hplace _ _ _ _ h => exact Or.inr ⟨hplace, Or.inr h⟩

/-- A path in front of a name is resolved if the joined path is. -/
theorem isResolvable_of_join (hrelative : isAbsolute name = false) (hne : directory ≠ "")
    (h : IsResolvable (join directory name)) : IsResolvable directory := by
  have hsub : directory.toList.Sublist (join directory name).toList := by
    rcases join_of_ne_empty hne hrelative with ⟨hjoin, _⟩ | hjoin
    · rw [hjoin, String.toList_append]
      exact List.sublist_append_left _ _
    · rw [hjoin, String.toList_append, String.toList_append, List.append_assoc]
      exact List.sublist_append_left _ _
  exact ⟨fun hzero => h.noZero (hsub.subset hzero), hne,
    Nat.le_trans (utf8ByteSize_le_of_sublist hsub) h.isShort⟩

/-- What a name in a directory leads to, if it is no link. -/
theorem arrives_join (hbase : IsBase tree directory base) (hname : IsFileName name)
    (hlink : ∀ target, tree.entry? (base ++ [name]) ≠ some (.link target)) :
    Arrives tree true linkLimit (origin tree.workingDirectory (join directory name))
      (bareSteps (join directory name)) (tree.follow true base [name]) := by
  rw [hname.bareSteps_join, hname.origin_join]
  refine hbase.arrives.append rfl ?_
  rcases follow_name_cases hname.isName hlink with ⟨fault, h⟩ | ⟨_, h | h⟩
  · simp [h]
  · simp [h]
  · simp [h]

/-! ## Writing and reading -/

theorem isResolvable_of_target {path : String} {place : Place}
    (h : tree.target path = .ok place) : IsResolvable path := by
  have hfault : ∀ fault, tree.resolveParts true path (bareSteps path) ≠ .fault fault := by
    intro fault hfault
    simp [target, hfault] at h
  exact isResolvable_of_resolveParts hfault

/-- A name in a directory is opened for writing right below it, where no directory is. -/
theorem target_join (hbase : IsBase tree directory base) (hname : IsFileName name)
    (hlink : ∀ target, tree.entry? (base ++ [name]) ≠ some (.link target)) {place : Place}
    (h : tree.target (join directory name) = .ok place) :
    place = base ++ [name] ∧ tree.entry? base = some .directory ∧
      tree.entry? (base ++ [name]) ≠ some .directory := by
  have hresolve : tree.resolveParts true (join directory name) (bareSteps (join directory name)) =
      tree.follow true base [name] := by
    rw [resolveParts_of_isResolvable (isResolvable_of_target h),
      (arrives_join hbase hname hlink).arrive_eq]
  have hfree : ∀ {slash : Bool},
      (if slash || tree.entry? (base ++ [name]) = some .directory then .error .isDirectory
        else Except.ok (ε := FileFault) (base ++ [name])) = .ok place →
      place = base ++ [name] ∧ tree.entry? (base ++ [name]) ≠ some .directory := by
    intro slash hplace
    split at hplace
    · cases hplace
    · rename_i hno
      cases hplace
      exact ⟨rfl, by simp_all⟩
  rw [target, hresolve] at h
  rcases follow_name_cases hname.isName hlink with
    ⟨fault, hfollow⟩ | ⟨hdirectory, hfollow | hfollow⟩
  · simp [hfollow] at h
  · rw [hfollow] at h
    obtain ⟨hplace, hno⟩ := hfree h
    exact ⟨hplace, hdirectory, hno⟩
  · rw [hfollow] at h
    obtain ⟨hplace, hno⟩ := hfree h
    exact ⟨hplace, hdirectory, hno⟩

/-- Writing to a name in a directory puts a file right below it. -/
theorem writeText_join (hbase : IsBase tree directory base) (hname : IsFileName name)
    (hlink : ∀ target, tree.entry? (base ++ [name]) ≠ some (.link target)) {text : String}
    (h : tree.writeText (join directory name) text = .ok later) :
    later = tree.put (base ++ [name]) (.file (Text.Utf8.encode text)) ∧
      IsResolvable (join directory name) ∧ tree.entry? base = some .directory ∧
      tree.entry? (base ++ [name]) ≠ some .directory := by
  simp only [writeText, writeBytes] at h
  split at h
  · rename_i place htarget
    cases h
    obtain ⟨rfl, hdirectory, hno⟩ := target_join hbase hname hlink htarget
    exact ⟨rfl, isResolvable_of_target htarget, hdirectory, hno⟩
  · cases h

theorem exists_resolve_of_readBytes {path : String} {bytes : ByteArray}
    (h : tree.readBytes path = .ok bytes) :
    ∃ place, tree.resolve path = .at place ∧ tree.entry? place = some (.file bytes) := by
  cases hresolve : tree.resolve path with
  | «at» place =>
    cases hentry : tree.entry? place with
    | none => simp [readBytes, stat, hresolve, hentry] at h
    | some entry =>
      cases entry with
      | file other =>
        simp only [readBytes, stat, hresolve, hentry, Except.ok.injEq] at h
        exact ⟨place, rfl, by rw [hentry, h]⟩
      | directory => simp [readBytes, stat, hresolve, hentry] at h
      | link target => simp [readBytes, stat, hresolve, hentry] at h
  | missing directory name => simp [readBytes, stat, hresolve] at h
  | link directory target behind => simp [readBytes, stat, hresolve] at h
  | fault fault => simp [readBytes, stat, hresolve] at h

/-- A path leads to what it names in its directory. -/
theorem resolve_join (hbase : IsBase tree directory base) (hname : IsFileName name)
    (hresolvable : IsResolvable (join directory name))
    (hdirectory : tree.entry? base = some .directory) {bytes : ByteArray}
    (hfile : tree.entry? (base ++ [name]) = some (.file bytes)) :
    tree.resolve (join directory name) = .at (base ++ [name]) := by
  have hfollow : tree.follow true base [name] = .at (base ++ [name]) := by
    rw [follow_enter hdirectory hname.isName hfile (by simp)]
    rfl
  have harrives := arrives_join hbase hname (by simp [hfile])
  rw [hname.bareSteps_join, ← hname.steps_join, hfollow] at harrives
  exact (resolveParts_eq_iff (by simp)).mpr ⟨hresolvable, harrives⟩

/-- A file is read by the path by which it is found in its directory. -/
theorem readBytes_join (hbase : IsBase tree directory base) (hname : IsFileName name)
    (hresolvable : IsResolvable (join directory name))
    (hdirectory : tree.entry? base = some .directory) {bytes : ByteArray}
    (hfile : tree.entry? (base ++ [name]) = some (.file bytes)) :
    tree.readBytes (join directory name) = .ok bytes := by
  have hresolve := resolve_join hbase hname hresolvable hdirectory hfile
  simp [readBytes, stat, hresolve, hfile]

/-! ## Trees without links -/

/-- No link is anywhere in the tree. -/
def LinkFree (tree : FileTree) : Prop := ∀ place target, tree.entry? place ≠ some (.link target)

theorem linkFree_of_entries (h : ∀ entry ∈ tree.entries, ∀ target, entry.2 ≠ .link target) :
    tree.LinkFree := by
  intro place target hentry
  unfold entry? at hentry
  split at hentry
  · cases hentry
  · exact h _ (OrderedMap.mem_of_get?_eq_some hentry) target rfl

theorem LinkFree.of_created {path : String} (hfree : tree.LinkFree)
    (h : Created tree later path) : later.LinkFree := by
  intro place target
  rcases h.entry? place with hsame | ⟨_, top, _, hleads⟩
  · rw [hsame]
    exact hfree place target
  · rw [hleads.directory]
    simp

/-- How many names stand among some parts. -/
def nameCount (parts : List String) : Nat := parts.countP fun part => part ≠ "." && part ≠ ""

theorem nameCount_cons {part : String} (h : IsName part) (behind : List String) :
    nameCount (part :: behind) = nameCount behind + 1 := by
  simp [nameCount, h.ne_point, h.ne_empty]

theorem nameCount_of_undotted {many few : List String} (h : Undotted many few) :
    nameCount few = nameCount many := by
  induction h with
  | nil => rfl
  | drop _ ih => simpa [nameCount] using ih
  | keep part _ ih =>
    simp only [nameCount, List.countP_cons] at ih ⊢
    rw [ih]

/-- Every name leads one step down if nothing leads up. -/
theorem length_of_follow (hfree : tree.LinkFree) {parts : List String} (hup : ".." ∉ parts)
    {place found : Place} (h : tree.follow true place parts = .at found) :
    found.length = place.length + nameCount parts := by
  induction parts generalizing place with
  | nil =>
    cases h
    rfl
  | cons part behind ih =>
    simp only [List.mem_cons, not_or] at hup
    cases partCases tree true place part behind with
    | fault fault hfollow => simp [hfollow] at h
    | stay _ hpart hfollow =>
      have hlength := ih hup.2 (hfollow ▸ h)
      rcases hpart with rfl | rfl
      · simpa [nameCount] using hlength
      · simpa [nameCount] using hlength
    | up _ hpart _ => exact absurd hpart.symm hup.1
    | missing _ _ _ _ hfollow => simp [hfollow] at h
    | lastLink _ _ target hentry _ _ => exact absurd hentry (hfree _ target)
    | link _ _ target hentry _ _ => exact absurd hentry (hfree _ target)
    | enter _ hname entry _ _ hfollow =>
      have hlength := ih hup.2 (hfollow ▸ h)
      rw [List.length_append, List.length_singleton] at hlength
      rw [hlength, nameCount_cons hname]
      omega

theorem follow_ne_link (hfree : tree.LinkFree) {last : Bool} {place : Place}
    {parts : List String} (link : Place) (target : String) (rest : List String) :
    tree.follow last place parts ≠ .link link target rest := by
  induction parts generalizing place with
  | nil => simp [follow]
  | cons part behind ih =>
    cases partCases tree last place part behind with
    | fault fault hfollow => simp [hfollow]
    | stay _ _ hfollow => exact hfollow ▸ ih
    | up _ _ hfollow => exact hfollow ▸ ih
    | missing _ _ _ _ hfollow => simp [hfollow]
    | lastLink _ _ target hentry _ _ => exact absurd hentry (hfree _ target)
    | link _ _ target hentry _ _ => exact absurd hentry (hfree _ target)
    | enter _ _ _ _ _ hfollow => exact hfollow ▸ ih

theorem length_of_leadsTo (hfree : tree.LinkFree) {path : String} {place : Place}
    (hup : ".." ∉ bareSteps path) (h : LeadsTo tree path place) :
    place.length = (origin tree.workingDirectory path).length + nameCount (bareSteps path) := by
  cases h.arrives with
  | done hfollow _ => exact length_of_follow hfree hup hfollow
  | linked hfollow _ => exact absurd hfollow (follow_ne_link hfree _ _ _)

/-- A name at the end of a path is looked up in the directory that the path before it leads to. -/
theorem exists_of_follow_name (hfree : tree.LinkFree) (hname : IsName name) {front : List String}
    {place found : Place} (h : tree.follow true place (front ++ [name]) = .at found) :
    ∃ middle, tree.follow true place front = .at middle ∧
      tree.entry? middle = some .directory ∧ found = middle ++ [name] := by
  induction front generalizing place with
  | nil =>
    cases partCases tree true place name [] with
    | fault fault hfollow => simp [hfollow] at h
    | stay _ hpart _ => exact (hpart.elim hname.ne_point hname.ne_empty).elim
    | up _ hpart _ => exact absurd hpart hname.ne_up
    | missing _ _ _ _ hfollow => simp [hfollow] at h
    | lastLink _ _ target hentry _ _ => exact absurd hentry (hfree _ target)
    | link _ _ target hentry _ _ => exact absurd hentry (hfree _ target)
    | enter hplace _ _ _ _ hfollow =>
      rw [List.nil_append, hfollow] at h
      cases h
      exact ⟨place, rfl, hplace, rfl⟩
  | cons part front ih =>
    cases partCases tree true place part (front ++ [name]) with
    | fault fault hfollow => simp [hfollow] at h
    | stay hplace hpart hfollow =>
      rw [follow_stay hplace hpart]
      exact ih (hfollow ▸ h)
    | up hplace hpart hfollow =>
      subst hpart
      rw [follow_up hplace]
      exact ih (hfollow ▸ h)
    | missing _ _ _ hbehind _ => simp at hbehind
    | lastLink _ _ target hentry _ _ => exact absurd hentry (hfree _ target)
    | link _ _ target hentry _ _ => exact absurd hentry (hfree _ target)
    | enter hplace hpart _ hentry hlink hfollow =>
      rw [follow_enter hplace hpart hentry hlink]
      exact ih (hfollow ▸ h)

/-- A path from which a file can be read by a name leads to the directory of the file. -/
theorem exists_isBase_of_readBytes (hfree : tree.LinkFree) (hname : IsFileName name)
    {bytes : ByteArray} (h : tree.readBytes (join directory name) = .ok bytes) :
    ∃ base, IsBase tree directory base ∧ IsResolvable (join directory name) ∧
      tree.entry? base = some .directory ∧
      tree.entry? (base ++ [name]) = some (.file bytes) := by
  obtain ⟨found, hresolve, hfile⟩ := exists_resolve_of_readBytes h
  obtain ⟨hresolvable, harrives⟩ := (resolveParts_eq_iff (by simp)).mp hresolve
  rw [hname.steps_join, hname.origin_join] at harrives
  have hfollow : tree.follow true (origin tree.workingDirectory directory)
      (bareSteps directory ++ [name]) = .at found := by
    cases harrives with
    | done hfollow _ => exact hfollow
    | linked hfollow _ => exact absurd hfollow (follow_ne_link hfree _ _ _)
  obtain ⟨base, hbase, hdirectory, rfl⟩ := exists_of_follow_name hfree hname.isName hfollow
  refine ⟨base, ?_, hresolvable, hdirectory, hfile⟩
  by_cases hne : directory = ""
  · subst hne
    cases hbase
    exact Or.inl ⟨rfl, rfl⟩
  · exact Or.inr ⟨isResolvable_of_join hname.not_isAbsolute hne hresolvable,
      .done hbase (by simp), hdirectory⟩

/-- A path above another one starts where that one does, has no further names and leads up
only where that one does. -/
theorem steps_of_encloses {top path : String} (h : Encloses top path) (hne : top ≠ "") :
    isAbsolute top = isAbsolute path ∧
      nameCount (bareSteps top) ≤ nameCount (bareSteps path) ∧
      (".." ∈ bareSteps top → ".." ∈ bareSteps path) := by
  obtain ⟨habsolute, front, hfront, hdots⟩ := exists_front_of_encloses h hne
  refine ⟨habsolute, ?_, fun hup => hfront.subset (hdots.sublist.subset hup)⟩
  rw [nameCount_of_undotted hdots]
  exact hfront.sublist.countP_le

/-- Where nothing leads up, no path above a directory leads into it. -/
theorem ne_of_encloses (hfree : tree.LinkFree) {top : String} {place : Place}
    (hup : ".." ∉ bareSteps directory) (hbase : LeadsTo tree directory base)
    (hencloses : Encloses top directory) (htop : LeadsTo tree top place) (name : String) :
    place ≠ base ++ [name] := by
  obtain ⟨habsolute, hcount, hback⟩ := steps_of_encloses hencloses htop.isResolvable.ne_empty
  have hplace := length_of_leadsTo hfree (fun hmem => hup (hback hmem)) htop
  have hlength := length_of_leadsTo hfree hup hbase
  rintro rfl
  simp only [origin, habsolute, List.length_append, List.length_singleton] at hplace hlength
  omega

end PageManifest.FileTree
