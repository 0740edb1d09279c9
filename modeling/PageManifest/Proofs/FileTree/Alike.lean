import PageManifest.Proofs.FileTree.Files
import PageManifest.Proofs.FileTree.Writing

/-!
# Trees that differ at some places

Two trees without links that differ at some places only (`Alike`) cannot be told apart by a path
that leads through none of these places (`Clears`). Without links the parts of a path alone say
through which places it leads (`walk`). Reading gives the same in both trees; writing and
creating directories succeed in both or in neither, and leave trees that differ at these places
only.
-/

namespace PageManifest.FileTree

open PageManifest.Path

/-! ## The way of a path -/

/-- Where one part leads, provided that what it names is there. -/
def stepTo (place : Place) (part : String) : Place :=
  if part = "." || part = "" then place
  else if part = ".." then place.dropLast
  else place ++ [part]

/-- Where some parts lead, provided that what they name is there. -/
def walk (place : Place) (parts : List String) : Place := parts.foldl stepTo place

theorem stepTo_name {part : String} (h : IsName part) (place : Place) :
    stepTo place part = place ++ [part] := by
  simp [stepTo, h.ne_point, h.ne_empty, h.ne_up]

theorem walk_append (place : Place) (front behind : List String) :
    walk place (front ++ behind) = walk (walk place front) behind :=
  List.foldl_append ..

theorem walk_concat (place : Place) (parts : List String) (part : String) :
    walk place (parts ++ [part]) = stepTo (walk place parts) part :=
  walk_append place parts [part]

theorem walk_of_undotted {many few : List String} (h : Undotted many few) (place : Place) :
    walk place few = walk place many := by
  induction h generalizing place with
  | nil => rfl
  | drop _ ih => exact ih place
  | keep part _ ih => exact ih (stepTo place part)

/-- Without a part that leads up, the way only leads down. -/
theorem prefix_walk {parts : List String} (hup : ".." ∉ parts) (place : Place) :
    place <+: walk place parts := by
  induction parts generalizing place with
  | nil => exact List.prefix_rfl
  | cons part behind ih =>
    rw [List.mem_cons, not_or] at hup
    rw [walk, List.foldl_cons, ← walk]
    refine List.IsPrefix.trans ?_ (ih hup.2 (stepTo place part))
    rw [stepTo, if_neg (Ne.symm hup.1)]
    split
    · exact List.prefix_rfl
    · exact List.prefix_append place [part]

/-- The way from a place along some parts leads through no place of a kind. -/
def Avoids (apart : Place → Prop) (place : Place) (parts : List String) : Prop :=
  ∀ front, front <+: parts → ¬ apart (walk place front)

namespace Avoids

variable {apart : Place → Prop} {place : Place} {part : String} {parts behind : List String}

theorem start (h : Avoids apart place parts) : ¬ apart place := h [] List.nil_prefix

theorem stop (h : Avoids apart place parts) : ¬ apart (walk place parts) :=
  h parts List.prefix_rfl

theorem tail (h : Avoids apart place (part :: behind)) :
    Avoids apart (stepTo place part) behind := by
  intro front hfront
  exact h (part :: front) ((List.prefix_cons_inj part).mpr hfront)

theorem of_front (h : Avoids apart place parts) {front : List String} (hfront : front <+: parts) :
    Avoids apart place front :=
  fun other hother => h other (hother.trans hfront)

theorem concat (h : Avoids apart place parts) (hpart : ¬ apart (stepTo (walk place parts) part)) :
    Avoids apart place (parts ++ [part]) := by
  intro front hfront
  rcases List.prefix_concat_iff.mp hfront with rfl | hfront
  · rw [walk_concat]
    exact hpart
  · exact h front hfront

theorem of_undotted {many few : List String} (h : Avoids apart place many)
    (hdots : Undotted many few) : Avoids apart place few := by
  rintro front ⟨behind, rfl⟩
  obtain ⟨front', behind', rfl, hfront, -⟩ := hdots.split
  rw [walk_of_undotted hfront]
  exact h front' (List.prefix_append front' behind')

end Avoids

/-- Where a path leads, provided that what it names is there. -/
def placeOf (tree : FileTree) (path : String) : Place :=
  walk (origin tree.workingDirectory path) (bareSteps path)

/-- A path leads through no place of a kind, nor does it end at one. -/
def Clears (apart : Place → Prop) (tree : FileTree) (path : String) : Prop :=
  Avoids apart (origin tree.workingDirectory path) (bareSteps path)

variable {apart : Place → Prop} {tree other later : FileTree} {path : String} {last : Bool}
  {place : Place} {parts : List String}

namespace Clears

theorem congr (h : Clears apart tree path)
    (hstart : later.workingDirectory = tree.workingDirectory) : Clears apart later path := by
  rw [Clears, hstart]
  exact h

/-- A path above goes no other way. -/
theorem parent (h : Clears apart tree path) {above : String} (hparent : parent? path = some above)
    (hne : above ≠ "") : Clears apart tree above := by
  rw [Clears, origin, isAbsolute_parent? hparent hne, bareSteps_parent? hparent]
  exact (h.of_undotted (undotted_parts path)).of_front (List.dropLast_prefix _)

theorem steps (h : Clears apart tree path) :
    Avoids apart (origin tree.workingDirectory path) (steps path) := by
  rcases steps_cases path with hsteps | hsteps
  · rw [hsteps]
    exact h
  · rw [hsteps]
    exact h.concat h.stop

end Clears

/-! ## Following without links -/

theorem walk_of_follow (hfree : tree.LinkFree) {found : Place}
    (h : tree.follow last place parts = .at found) : walk place parts = found := by
  induction parts generalizing place with
  | nil =>
    cases h
    rfl
  | cons part behind ih =>
    rw [walk, List.foldl_cons, ← walk]
    cases partCases tree last place part behind with
    | fault fault hfollow => simp [hfollow] at h
    | stay _ hpart hfollow =>
      rw [← ih (hfollow ▸ h), stepTo, if_pos (by simpa using hpart)]
    | up _ hpart hfollow =>
      rw [← ih (hfollow ▸ h), hpart]
      rfl
    | missing _ _ _ _ hfollow => simp [hfollow] at h
    | lastLink _ _ target hentry _ _ => exact absurd hentry (hfree _ target)
    | link _ _ target hentry _ _ => exact absurd hentry (hfree _ target)
    | enter _ hname _ _ _ hfollow => rw [← ih (hfollow ▸ h), stepTo_name hname]

theorem walk_of_follow_missing {directory : Place} {name : String}
    (h : tree.follow last place parts = .missing directory name) :
    walk place parts = directory ++ [name] := by
  induction parts generalizing place with
  | nil => simp [follow] at h
  | cons part behind ih =>
    rw [walk, List.foldl_cons, ← walk]
    cases partCases tree last place part behind with
    | fault fault hfollow => simp [hfollow] at h
    | stay _ hpart hfollow =>
      rw [← ih (hfollow ▸ h), stepTo, if_pos (by simpa using hpart)]
    | up _ hpart hfollow =>
      rw [← ih (hfollow ▸ h), hpart]
      rfl
    | missing _ hname _ hbehind hfollow =>
      rw [hfollow] at h
      cases h
      rw [stepTo_name hname, hbehind]
      rfl
    | lastLink _ _ _ _ _ hfollow => simp [hfollow] at h
    | link _ _ _ _ _ hfollow => simp [hfollow] at h
    | enter _ hname _ _ _ hfollow => rw [← ih (hfollow ▸ h), stepTo_name hname]

theorem arrive_eq_follow (hfree : tree.LinkFree) (budget : Nat) :
    tree.arrive last budget place parts = tree.follow last place parts :=
  (Arrives.done rfl (follow_ne_link hfree)).arrive_eq

theorem follow_of_resolveParts (hfree : tree.LinkFree) {arrival : Arrival}
    (h : tree.resolveParts last path parts = arrival) (hfault : ∀ fault, arrival ≠ .fault fault) :
    tree.follow last (origin tree.workingDirectory path) parts = arrival := by
  have hresolvable := isResolvable_of_resolveParts (h ▸ hfault)
  rw [resolveParts_of_isResolvable hresolvable, arrive_eq_follow hfree] at h
  exact h

/-- Without links the place of a directory is where its path leads. -/
theorem IsBase.placeOf_eq (hfree : tree.LinkFree) {directory : String} {base : Place}
    (h : IsBase tree directory base) :
    placeOf tree directory = base := by
  have harrive := h.arrives.arrive_eq
  rw [arrive_eq_follow hfree] at harrive
  exact walk_of_follow hfree harrive

/-! ## Trees alike -/

/-- Two trees without links are the same but for places of a kind. -/
structure Alike (apart : Place → Prop) (tree other : FileTree) : Prop where
  workingDirectory_eq : other.workingDirectory = tree.workingDirectory
  entry?_eq : ∀ place, ¬ apart place → other.entry? place = tree.entry? place
  linkFree : tree.LinkFree
  linkFree_other : other.LinkFree

theorem LinkFree.put (hfree : tree.LinkFree) (hne : place ≠ []) {entry : Entry}
    (hentry : ∀ target, entry ≠ .link target) : (tree.put place entry).LinkFree := by
  intro found target
  rw [entry?_put tree hne]
  split
  · simpa using hentry target
  · exact hfree found target

namespace Alike

theorem put (h : Alike apart tree other) (hne : place ≠ []) {entry : Entry}
    (hentry : ∀ target, entry ≠ .link target) :
    Alike apart (tree.put place entry) (other.put place entry) := by
  refine ⟨h.workingDirectory_eq, ?_, h.linkFree.put hne hentry, h.linkFree_other.put hne hentry⟩
  intro found hfound
  rw [entry?_put tree hne, entry?_put other hne, h.entry?_eq found hfound]

theorem follow_eq (h : Alike apart tree other) (havoids : Avoids apart place parts) :
    other.follow last place parts = tree.follow last place parts := by
  induction parts generalizing place with
  | nil => rfl
  | cons part behind ih =>
    have hplace := h.entry?_eq place havoids.start
    have hbehind := ih havoids.tail
    have hnext := h.entry?_eq _ havoids.tail.start
    by_cases hdirectory : tree.entry? place = some .directory
    · by_cases hstay : part = "." ∨ part = ""
      · rw [stepTo, if_pos (by simpa using hstay)] at hbehind
        rw [follow_stay (hplace.trans hdirectory) hstay, follow_stay hdirectory hstay, hbehind]
      by_cases hup : part = ".."
      · subst hup
        rw [follow_up (hplace.trans hdirectory), follow_up hdirectory]
        exact hbehind
      rw [not_or] at hstay
      have hstep : stepTo place part = place ++ [part] := by
        simp [stepTo, hstay.1, hstay.2, hup]
      rw [hstep] at hbehind hnext
      simp [follow, hplace, hdirectory, hnext, hbehind, hstay.1, hstay.2, hup]
    · simp only [follow, hplace]
      split
      · rename_i hentry
        exact absurd hentry hdirectory
      · rfl
      · rfl

theorem resolveParts_eq (h : Alike apart tree other)
    (havoids : Avoids apart (origin tree.workingDirectory path) parts) :
    other.resolveParts last path parts = tree.resolveParts last path parts := by
  simp only [resolveParts, h.workingDirectory_eq, arrive_eq_follow h.linkFree,
    arrive_eq_follow h.linkFree_other, h.follow_eq havoids]

/-! ## Reading -/

theorem stat_eq (h : Alike apart tree other) (hclears : Clears apart tree path) :
    other.stat path = tree.stat path := by
  unfold stat resolve
  rw [h.resolveParts_eq hclears.steps]
  cases hresolve : tree.resolveParts true path (steps path) with
  | «at» place =>
    have hwalk := walk_of_follow h.linkFree
      (follow_of_resolveParts h.linkFree hresolve (by simp))
    dsimp only
    rw [h.entry?_eq place (hwalk ▸ hclears.steps.stop)]
  | missing directory name => rfl
  | link directory target behind => rfl
  | fault fault => rfl

theorem isDirectory_eq (h : Alike apart tree other) (hclears : Clears apart tree path) :
    other.isDirectory path = tree.isDirectory path := by
  rw [isDirectory, isDirectory, h.stat_eq hclears]

theorem readBytes_eq (h : Alike apart tree other) (hclears : Clears apart tree path) :
    other.readBytes path = tree.readBytes path := by
  rw [readBytes, readBytes, h.stat_eq hclears]

/-! ## Writing -/

/-- The same change in both trees: it fails in both alike, or in neither. -/
inductive Both (apart : Place → Prop) :
    Except FileFault FileTree → Except FileFault FileTree → Prop
  | fails (fault : FileFault) : Both apart (.error fault) (.error fault)
  | done {tree other : FileTree} (h : Alike apart tree other) : Both apart (.ok tree) (.ok other)

theorem target_eq (h : Alike apart tree other) (hclears : Clears apart tree path) :
    other.target path = tree.target path := by
  unfold target
  rw [h.resolveParts_eq hclears]
  cases hresolve : tree.resolveParts true path (bareSteps path) with
  | «at» place =>
    have hwalk := walk_of_follow h.linkFree
      (follow_of_resolveParts h.linkFree hresolve (by simp))
    dsimp only
    rw [h.entry?_eq place (hwalk ▸ hclears.stop)]
  | missing directory name =>
    have hwalk := walk_of_follow_missing (follow_of_resolveParts h.linkFree hresolve (by simp))
    dsimp only
    rw [h.entry?_eq _ (hwalk ▸ hclears.stop)]
  | link directory target behind => rfl
  | fault fault => rfl

theorem writeText (h : Alike apart tree other) (hclears : Clears apart tree path) (text : String) :
    Both apart (tree.writeText path text) (other.writeText path text) := by
  simp only [FileTree.writeText, writeBytes, h.target_eq hclears]
  cases htarget : tree.target path with
  | error fault => exact .fails fault
  | ok place => exact .done (h.put (target_eq_ok_iff.mp htarget).ne_nil (by simp))

/-! ## Creating directories -/

theorem createDirectory (h : Alike apart tree other) (hclears : Clears apart tree path) :
    Both apart (tree.createDirectory path) (other.createDirectory path) := by
  unfold FileTree.createDirectory
  rw [h.resolveParts_eq hclears]
  cases tree.resolveParts false path (bareSteps path) with
  | «at» place => exact .fails .exists
  | missing directory name =>
    dsimp only
    split
    · exact .fails .notFound
    · exact .done (h.put (by simp) (by simp))
  | link directory target behind => exact .fails .exists
  | fault fault => exact .fails fault

/-- The same attempt in both trees: it has the same fault, or none. -/
structure Attempted (apart : Place → Prop) (outcome outcome' : Option FileFault × FileTree) :
    Prop where
  fault_eq : outcome'.1 = outcome.1
  alike : Alike apart outcome.2 outcome'.2

theorem createDirectories (h : Alike apart tree other) (hclears : Clears apart tree path)
    (fuel : Nat) :
    Attempted apart (FileTree.createDirectories fuel tree path)
      (FileTree.createDirectories fuel other path) := by
  -- Where relative paths start has to stay the same, for the path to clear the same places.
  have hpaired := createDirectories_paired
    (R := fun later later' => Alike apart later later' ∧
      later.workingDirectory = tree.workingDirectory)
    (P := Clears apart tree) (fun hpath => hpath.parent) ?_ ?_ ⟨h, rfl⟩ hclears fuel
  · exact ⟨hpaired.1, hpaired.2.1⟩
  · rintro later later' path ⟨hlater, hstart⟩ hpath
    have hstarted : ∀ {last}, later.createDirectory path = .ok last →
        last.workingDirectory = tree.workingDirectory :=
      fun hlast => (created_of_createDirectory hlast).1.workingDirectory_eq.trans hstart
    have hboth := hlater.createDirectory (hpath.congr hstart)
    generalize later.createDirectory path = created at hboth hstarted ⊢
    generalize later'.createDirectory path = created' at hboth ⊢
    cases hboth with
    | fails fault => exact .fails fault
    | done hdone => exact .done ⟨hdone, hstarted rfl⟩
  · rintro later later' path ⟨hlater, hstart⟩ hpath
    exact hlater.isDirectory_eq (hpath.congr hstart)

theorem ensureDirectory (h : Alike apart tree other) (hclears : Clears apart tree path) :
    Attempted apart (tree.ensureDirectory path) (other.ensureDirectory path) :=
  h.createDirectories hclears _

end Alike

end PageManifest.FileTree
