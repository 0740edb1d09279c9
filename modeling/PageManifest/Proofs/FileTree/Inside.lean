import PageManifest.Proofs.FileTree.Outside

/-!
# Operations inside a directory

A path may lead into a directory from outside (`Enters`). Where no link is on its way in there,
an operation on it changes the tree inside the directory only; but the directories in front of it,
if they are missing, are created outside. In two trees that agree outside the directory they are
created alike, so that the trees agree again (`Enters.ensureDirectory`).
-/

namespace PageManifest.FileTree

open PageManifest.Path

variable {start tree other later : FileTree} {above place : Place} {name path : String}
  {front rest parts : List String} {last : Bool}

/-! ## Following parts inside -/

/-- Following parts has come to a place inside a directory, if it has come to any. -/
def Arrival.Inside (home : Place) : Arrival → Prop
  | .at place => home <+: place
  | .missing directory name => home <+: directory ++ [name]
  | .link _ _ _ => False
  | .fault _ => True

/-- A link is at a place. -/
def IsLink (tree : FileTree) (place : Place) : Prop :=
  ∃ target, tree.entry? place = some (.link target)

/-- No link is on the way along some parts, but for one at the end that is left unfollowed. -/
def Unlinked (tree : FileTree) (last : Bool) (place : Place) (parts : List String) : Prop :=
  ∀ front, front <+: parts → (front = parts → last = true) → ¬ tree.IsLink (walk place front)

theorem Unlinked.tail {part : String} {behind : List String}
    (h : Unlinked tree last place (part :: behind)) :
    Unlinked tree last (stepTo place part) behind := by
  intro front hfront hlast
  refine h (part :: front) ((List.prefix_cons_inj part).mpr hfront) fun heq => ?_
  exact hlast (List.cons.inj heq).2

theorem unlinked_of_avoids (last : Bool) (h : Avoids tree.IsLink place parts) :
    Unlinked tree last place parts :=
  fun front hfront _ => h front hfront

/-- Whether a link is at the end does not matter if it is left unfollowed. -/
theorem unlinked_concat (h : Avoids tree.IsLink place parts) (leaf : String) :
    Unlinked tree false place (parts ++ [leaf]) := by
  intro front hfront hlast
  rcases List.prefix_concat_iff.mp hfront with heq | hfront
  · exact absurd (hlast heq) Bool.false_ne_true
  · exact h front hfront

theorem inside_of_follow {home : Place} (hplace : home <+: place) (hup : ".." ∉ parts)
    (hlinks : Unlinked tree last place parts) : (tree.follow last place parts).Inside home := by
  induction parts generalizing place with
  | nil => exact hplace
  | cons part behind ih =>
    rw [List.mem_cons, not_or] at hup
    have htail := hlinks.tail
    cases partCases tree last place part behind with
    | fault fault hfollow =>
      rw [hfollow]
      trivial
    | stay _ hpart hfollow =>
      rw [stepTo, if_pos (by simpa using hpart)] at htail
      rw [hfollow]
      exact ih hplace hup.2 htail
    | up _ hpart _ => exact absurd hpart.symm hup.1
    | missing _ _ _ _ hfollow =>
      rw [hfollow]
      exact hplace.trans (List.prefix_append _ _)
    | lastLink _ _ _ _ _ hfollow =>
      rw [hfollow]
      exact hplace.trans (List.prefix_append _ _)
    | link _ hname target hentry hbehind _ =>
      have hfree := hlinks [part] ⟨behind, rfl⟩ fun heq => by
        simpa [(List.cons.inj heq).2.symm] using hbehind
      have hpart : walk place [part] = place ++ [part] := stepTo_name hname place
      exact absurd ⟨target, hpart ▸ hentry⟩ hfree
    | enter _ hname _ _ _ hfollow =>
      rw [stepTo_name hname] at htail
      rw [hfollow]
      exact ih (hplace.trans (List.prefix_append _ _)) hup.2 htail

theorem Arrival.Inside.arrive {home : Place} {budget : Nat}
    (h : (tree.follow last place parts).Inside home) :
    (tree.arrive last budget place parts).Inside home := by
  have harrive : tree.arrive last budget place parts = tree.follow last place parts := by
    refine arrive_of_follow rfl fun directory target behind hlink => ?_
    rw [hlink] at h
    exact h
  rw [harrive]
  exact h

/-! ## Ways into a directory -/

/-- A path comes to a directory outside, enters the one of some name there, and goes on. -/
structure Enters (above : Place) (name : String) (tree : FileTree) (path : String)
    (front rest : List String) : Prop where
  steps_eq : bareSteps path = front ++ name :: rest
  way : Way tree (above ++ [name]) linkLimit (origin tree.workingDirectory path) front
    (some above)
  ne_point : name ≠ "."
  ne_up : name ≠ ".."
  notMem_up : ".." ∉ rest

/-- The way of a path leads into a directory, and there along some parts. -/
def LeadsInto (home : Place) (tree : FileTree) (path : String) (rest : List String) : Prop :=
  ∃ above name front, home = above ++ [name] ∧ Enters above name tree path front rest

namespace Enters

theorem ne_empty (h : Enters above name tree path front rest) : name ≠ "" := by
  have hmem : name ∈ bareSteps path := by simp [h.steps_eq]
  exact ne_empty_of_mem_bareSteps hmem

/-- From the directory outside the path leads inside. -/
theorem inside_of_follow (h : Enters above name start path front rest)
    (hlinks : Unlinked tree last (above ++ [name]) rest) :
    (tree.follow last above (name :: rest)).Inside (above ++ [name]) := by
  cases partCases tree last above name rest with
  | fault fault hfollow =>
    rw [hfollow]
    trivial
  | stay _ hpart _ => exact absurd hpart (not_or.mpr ⟨h.ne_point, h.ne_empty⟩)
  | up _ hpart _ => exact absurd hpart h.ne_up
  | missing _ _ _ _ hfollow =>
    rw [hfollow]
    exact List.prefix_rfl
  | lastLink _ _ _ _ _ hfollow =>
    rw [hfollow]
    exact List.prefix_rfl
  | link _ _ target hentry hbehind _ =>
    have hfree := hlinks [] List.nil_prefix fun hnil => by simpa [← hnil] using hbehind
    exact absurd ⟨target, hentry⟩ hfree
  | enter _ _ _ _ _ hfollow =>
    rw [hfollow]
    exact FileTree.inside_of_follow List.prefix_rfl h.notMem_up hlinks

/-- A path that enters a directory is followed to the same fault in both trees, or the directory
above is there, and it is followed from there. -/
theorem arrive_cases (h : Enters above name start path front rest)
    (hagree : AgreeOutside (above ++ [name]) start tree other) (last : Bool) :
    let place := origin start.workingDirectory path
    (∃ fault, tree.arrive last linkLimit place (bareSteps path) = .fault fault ∧
        other.arrive last linkLimit place (bareSteps path) = .fault fault) ∨
      ∃ left, tree.arrive true linkLimit place front = .at above ∧
        tree.entry? above = some .directory ∧
        tree.arrive last linkLimit place (bareSteps path) =
          tree.arrive last left above (name :: rest) := by
  rw [h.steps_eq]
  have hfollowed := h.way.followed hagree last (name :: rest)
  cases hfollowed with
  | fault fault hfault hfault_other => exact Or.inl ⟨fault, hfault, hfault_other⟩
  | missing hbehind _ _ _ _ => cases hbehind
  | unfollowed hbehind _ _ _ _ => cases hbehind
  | @through left _ hstop hreach hend hend_other =>
    cases hstop
    by_cases hdirectory : tree.entry? above = some .directory
    · exact Or.inr ⟨left, hreach, hdirectory, hend⟩
    · obtain ⟨fault, hfault⟩ := exists_fault_of_not_directory hdirectory
      have hsame := hagree.entry?_eq above h.way.plain_stop.outside
      refine Or.inl ⟨fault, ?_, ?_⟩
      · rw [hend]
        exact arrive_of_follow (hfault tree rfl last _ _) (by simp)
      · rw [hend_other]
        exact arrive_of_follow (hfault other hsame last _ _) (by simp)

theorem inside_of_resolveParts (h : Enters above name start path front rest)
    (hagree : AgreeOutside (above ++ [name]) start tree tree)
    (hlinks : Unlinked tree last (above ++ [name]) rest) :
    (tree.resolveParts last path (bareSteps path)).Inside (above ++ [name]) := by
  unfold resolveParts
  split
  · trivial
  split
  · trivial
  split
  · trivial
  rw [hagree.workingDirectory_eq]
  rcases h.arrive_cases hagree last with ⟨fault, hfault, -⟩ | ⟨left, -, -, harrive⟩
  · rw [hfault]
    trivial
  · rw [harrive]
    exact (h.inside_of_follow hlinks).arrive

/-- A name in a directory is on the way that its path goes on. -/
theorem join (h : Enters above name tree path front rest) {leaf : String}
    (hleaf : IsFileName leaf) :
    Enters above name tree (Path.join path leaf) front (rest ++ [leaf]) where
  steps_eq := by rw [hleaf.bareSteps_join, h.steps_eq, List.append_assoc, List.cons_append]
  way := by
    rw [hleaf.origin_join]
    exact h.way
  ne_point := h.ne_point
  ne_up := h.ne_up
  notMem_up := by simp [h.notMem_up, Ne.symm hleaf.isName.ne_up]

/-! ## Changes inside -/

theorem changed_of_createDirectory (h : Enters above name start path front rest)
    (hagree : AgreeOutside (above ++ [name]) start tree tree)
    (hlinks : Unlinked tree false (above ++ [name]) rest)
    (hcreate : tree.createDirectory path = .ok later) :
    ChangedInside (above ++ [name]) tree later := by
  have hinside := h.inside_of_resolveParts hagree hlinks
  unfold createDirectory at hcreate
  split at hcreate
  · cases hcreate
  · rename_i directory leaf hresolve
    rw [hresolve] at hinside
    split at hcreate
    · cases hcreate
    · cases hcreate
      exact .put (by simp) hinside tree _
  · cases hcreate
  · cases hcreate

theorem changed_of_removeFile (h : Enters above name start path front rest)
    (hsteps : steps path = bareSteps path)
    (hagree : AgreeOutside (above ++ [name]) start tree tree)
    (hlinks : Unlinked tree false (above ++ [name]) rest)
    (hremove : tree.removeFile path = .ok later) :
    ChangedInside (above ++ [name]) tree later ∧ ∀ place, later.IsLink place → tree.IsLink place := by
  have hinside := h.inside_of_resolveParts hagree hlinks
  unfold removeFile at hremove
  rw [hsteps] at hremove
  split at hremove
  · rename_i place hresolve
    rw [hresolve] at hinside
    split at hremove
    · cases hremove
    · cases hremove
      refine ⟨.drop (by simp) hinside tree, ?_⟩
      rintro other ⟨target, hlink⟩
      rw [entry?_drop tree (ne_nil_of_inside (by simp) hinside)] at hlink
      split at hlink
      · cases hlink
      · exact ⟨target, hlink⟩
  · cases hremove
  · cases hremove

theorem changed_of_createLink (h : Enters above name start path front rest)
    (hsteps : steps path = bareSteps path)
    (hagree : AgreeOutside (above ++ [name]) start tree tree)
    (hlinks : Unlinked tree false (above ++ [name]) rest) {target : String}
    (hcreate : tree.createLink target path = .ok later) :
    ChangedInside (above ++ [name]) tree later := by
  have hinside := h.inside_of_resolveParts hagree hlinks
  unfold createLink at hcreate
  rw [hsteps] at hcreate
  split at hcreate
  · cases hcreate
  · rename_i directory leaf hresolve
    rw [hresolve] at hinside
    cases hcreate
    exact .put (by simp) hinside tree _
  · cases hcreate
  · cases hcreate

theorem inside_of_target (h : Enters above name start path front rest)
    (hagree : AgreeOutside (above ++ [name]) start tree tree)
    (hlinks : Unlinked tree true (above ++ [name]) rest)
    (htarget : tree.target path = .ok place) : above ++ [name] <+: place := by
  have hinside := h.inside_of_resolveParts hagree hlinks
  unfold target at htarget
  dsimp only at htarget
  split at htarget
  · rename_i found hresolve
    rw [hresolve] at hinside
    split at htarget
    · cases htarget
    · cases htarget
      exact hinside
  · rename_i directory leaf hresolve
    rw [hresolve] at hinside
    split at htarget
    · cases htarget
    · cases htarget
      exact hinside
  · cases htarget
  · cases htarget

end Enters

/-! ## Created directories -/

namespace Created

/-- Links are neither created nor removed along with directories. -/
theorem link_iff (h : Created tree later path) (place : Place) (target : String) :
    later.entry? place = some (.link target) ↔ tree.entry? place = some (.link target) := by
  rcases h.entry? place with hsame | ⟨hnone, top, _, hleads⟩
  · rw [hsame]
  · rw [hleads.directory, hnone]
    simp

theorem agreeOutside {home : Place} (h : Created tree later path)
    (hagree : AgreeOutside home start tree tree) : AgreeOutside home start later later := by
  have hstart := h.workingDirectory_eq.trans hagree.workingDirectory_eq
  refine ⟨hstart, hstart, fun _ _ => rfl, fun place target hplace => ?_⟩
  rw [h.link_iff, hagree.link_iff place target hplace]

theorem avoids (h : Created tree later path) (hfree : Avoids tree.IsLink place parts) :
    Avoids later.IsLink place parts := by
  rintro front hfront ⟨target, hlink⟩
  exact hfree front hfront ⟨target, (h.link_iff _ target).mp hlink⟩

end Created

namespace Enters

/-- A path above one that enters a directory enters it, too, or goes a part of the way in front
of it. -/
theorem of_encloses (h : Enters above name tree path front rest) {top : String}
    (hencloses : Encloses top path) (hne : top ≠ "") :
    (StaysOutside (above ++ [name]) tree top ∧
        ∃ few, few <+: front ∧ Undotted few (bareSteps top)) ∨
      ∃ front' rest' few, Enters above name tree top front' rest' ∧ few <+: rest ∧
        Undotted few rest' := by
  obtain ⟨habsolute, few, hfew, hdots⟩ := exists_front_of_encloses hencloses hne
  have hstays : ∀ {few}, few <+: front → Undotted few (bareSteps top) →
      StaysOutside (above ++ [name]) tree top := by
    rintro few ⟨behind, rfl⟩ hdots
    obtain ⟨stop, hway⟩ := h.way.exists_front
    rw [StaysOutside, origin, habsolute]
    exact ⟨stop, hway.of_undotted hdots⟩
  rw [h.steps_eq] at hfew
  rcases List.prefix_or_prefix_of_prefix hfew (List.prefix_append front _) with hfront | ⟨tail, rfl⟩
  · exact Or.inl ⟨hstays hfront hdots, few, hfront, hdots⟩
  rw [List.prefix_append_right_inj] at hfew
  cases tail with
  | nil =>
    rw [List.append_nil] at hdots
    exact Or.inl ⟨hstays List.prefix_rfl hdots, front, List.prefix_rfl, hdots⟩
  | cons first few =>
    obtain ⟨rfl, hrest⟩ := List.cons_prefix_cons.mp hfew
    obtain ⟨front', behind', hsteps, hfront', hbehind⟩ := hdots.split_many
    cases hbehind with
    | drop _ => exact absurd rfl h.ne_point
    | @keep _ rest' _ hdots' =>
      refine Or.inr ⟨front', rest', few, ⟨hsteps, ?_, h.ne_point, h.ne_up, ?_⟩, hrest, hdots'⟩
      · rw [origin, habsolute]
        exact h.way.of_undotted hfront'
      · exact fun hup => h.notMem_up (hrest.subset (hdots'.sublist.subset hup))

/-- If the directory above is there, directories are created inside only. -/
theorem changed_of_created (h : Enters above name start path front rest)
    (hagree : AgreeOutside (above ++ [name]) start tree tree)
    (hfree : Avoids tree.IsLink (above ++ [name]) rest)
    (hreach : tree.arrive true linkLimit (origin start.workingDirectory path) front = .at above)
    (habove : tree.entry? above = some .directory) (hcreated : Created tree later path) :
    ChangedInside (above ++ [name]) tree later := by
  refine ⟨hcreated.workingDirectory_eq, fun place hplace => ?_⟩
  rcases hcreated.entry? place with hsame | ⟨hnone, top, htop, hleads⟩
  · exact hsame
  have hne := hleads.isResolvable.ne_empty
  have horigin : origin tree.workingDirectory top = origin start.workingDirectory path := by
    rw [hagree.workingDirectory_eq, origin, origin, (exists_front_of_encloses htop hne).1]
  rcases h.of_encloses htop hne with ⟨-, few, ⟨behind, hfew⟩, hdots⟩ |
      ⟨front', rest', few, henters, hrest, hdots⟩
  · -- The path in front led to a directory before, which is the only one that it leads to.
    have hfront : ∃ found, Arrives tree true linkLimit (origin start.workingDirectory path) few
        (.at found) ∧ tree.entry? found = some .directory := by
      have harrives := arrives_of_arrive_eq hreach (by simp)
      by_cases hbehind : behind = []
      · subst hbehind
        rw [List.append_nil] at hfew
        exact ⟨above, hfew ▸ harrives, habove⟩
      · rw [← hfew] at harrives
        exact harrives.exists_of_append (by simp) hbehind
    obtain ⟨found, harrives, hfound⟩ := hfront
    rw [← horigin] at harrives
    have hbefore : LeadsTo tree top found :=
      ⟨hleads.isResolvable, harrives.of_undotted hfound hdots, hfound⟩
    have hsame := (hbefore.of_extends hcreated.toExtends).arrives.arrive_eq.symm.trans
      hleads.arrives.arrive_eq
    cases hsame
    cases hnone.symm.trans hfound
  · -- The path inside leads inside.
    have hlater := hcreated.avoids ((hfree.of_front hrest).of_undotted hdots)
    have hinside := henters.inside_of_resolveParts (hcreated.agreeOutside hagree)
      (unlinked_of_avoids true hlater)
    rw [(resolveParts_eq_iff (by simp)).mpr ⟨hleads.isResolvable, hleads.arrives⟩] at hinside
    exact absurd hinside hplace

/-- Directories are created along a path into a directory such that trees agree outside of it
again, though the attempts may end apart. -/
theorem createDirectories (h : Enters above name start path front rest)
    (hagree : AgreeOutside (above ++ [name]) start tree other)
    (hfree : Avoids tree.IsLink (above ++ [name]) rest)
    (hfree' : Avoids other.IsLink (above ++ [name]) rest) (fuel : Nat) :
    AgreeOutside (above ++ [name]) start (FileTree.createDirectories fuel tree path).2
      (FileTree.createDirectories fuel other path).2 := by
  -- The recursion goes up the path. Both trees take it alike as long as it is outside.
  induction fuel using Nat.strongRecOn generalizing path front rest with
  | ind fuel ih =>
  rcases h.arrive_cases hagree false with ⟨fault, hfault, hfault'⟩ | ⟨_, hreach, habove, -⟩
  · have hresolve : ∃ fault, tree.resolveParts false path (bareSteps path) = .fault fault ∧
        other.resolveParts false path (bareSteps path) = .fault fault := by
      simp only [resolveParts, hagree.workingDirectory_eq, hagree.workingDirectory_other, hfault,
        hfault']
      split
      · exact ⟨_, rfl, rfl⟩
      split
      · exact ⟨_, rfl, rfl⟩
      split
      · exact ⟨_, rfl, rfl⟩
      · exact ⟨_, rfl, rfl⟩
    obtain ⟨fault, hresolve, hresolve'⟩ := hresolve
    have hcreate : tree.createDirectory path = .error fault := by
      rw [createDirectory, hresolve]
    have hcreate' : other.createDirectory path = .error fault := by
      rw [createDirectory, hresolve']
    rcases createDirectories_snd_cases fuel path fault with
      hnone | ⟨fewer, up, rfl, hparent, hagain⟩
    · rw [hnone tree hcreate, hnone other hcreate']
      exact hagree
    have hmiddle : AgreeOutside (above ++ [name]) start (FileTree.createDirectories fewer tree up).2
        (FileTree.createDirectories fewer other up).2 := by
      by_cases hne : up = ""
      · subst hne
        rw [createDirectories_of_isDirectory (Or.inl rfl),
          createDirectories_of_isDirectory (Or.inl rfl)]
        exact hagree
      rcases h.of_encloses (.above hparent .self) hne with ⟨hstays, -⟩ |
          ⟨_, _, few, henters, hrest, hdots⟩
      · exact (hagree.createDirectories hstays fewer).2
      · exact ih fewer (Nat.lt_succ_self fewer) henters ((hfree.of_front hrest).of_undotted hdots)
          ((hfree'.of_front hrest).of_undotted hdots)
    have hchanged : ∀ each : FileTree, each.createDirectory path = .error fault →
        Avoids each.IsLink (above ++ [name]) rest →
        AgreeOutside (above ++ [name]) start (FileTree.createDirectories fewer each up).2
          (FileTree.createDirectories fewer each up).2 →
        ChangedInside (above ++ [name]) (FileTree.createDirectories fewer each up).2
          (FileTree.createDirectories (fewer + 1) each path).2 := by
      intro each heach hfree hagree
      rcases hagain each heach with hsame | hlater
      · rw [hsame]
        exact .refl _ _
      · have hcreated := (ensured_createDirectories fewer each up).created
        exact h.changed_of_createDirectory hagree (unlinked_of_avoids false (hcreated.avoids hfree))
          hlater
    exact hmiddle.of_changes (hchanged tree hcreate hfree hmiddle.left)
      (hchanged other hcreate' hfree' hmiddle.right)
  · have hreach' := (h.way.arrive_eq hagree true).1.trans hreach
    have habove' := (hagree.entry?_eq above h.way.plain_stop.outside).trans habove
    exact hagree.of_changes
      (h.changed_of_created hagree.left hfree hreach habove
        (ensured_createDirectories fuel tree path).created)
      (h.changed_of_created hagree.right hfree' hreach' habove'
        (ensured_createDirectories fuel other path).created)

theorem ensureDirectory (h : Enters above name start path front rest)
    (hagree : AgreeOutside (above ++ [name]) start tree other)
    (hfree : Avoids tree.IsLink (above ++ [name]) rest)
    (hfree' : Avoids other.IsLink (above ++ [name]) rest) :
    AgreeOutside (above ++ [name]) start (tree.ensureDirectory path).2
      (other.ensureDirectory path).2 :=
  h.createDirectories hagree hfree hfree' _

end Enters

end PageManifest.FileTree
