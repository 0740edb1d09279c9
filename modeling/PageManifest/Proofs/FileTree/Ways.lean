import PageManifest.Proofs.FileTree.Alike

/-!
# Ways that stay outside a directory

The way of a path are the places that it leads through, the targets of links included, if what
is missing is taken for directories. Two trees that agree outside a directory (`AgreeOutside`)
may have anything in it, and links anywhere. A way that does not lead into the directory (`Way`)
is followed alike in both (`Way.followed`): up to the same fault, or to the same place.

Such trees keep agreeing when the same entry is put into both (`AgreeOutside.put`), or when each
is changed inside the directory only (`AgreeOutside.of_changes`), unless a link appears outside.
-/

namespace PageManifest.FileTree

open PageManifest.Path

variable {start tree other later later' : FileTree} {home place : Place} {part : String}
  {front behind parts : List String} {budget : Nat} {last : Bool} {stop : Option Place}

/-! ## Ways -/

/-- A place outside a directory at which no link is. -/
structure Plain (tree : FileTree) (home place : Place) : Prop where
  outside : ¬ home <+: place
  ne_link : ∀ target, tree.entry? place ≠ some (.link target)

/-- The way along some parts, on which a number of links may be followed, stays outside a
directory. It ends at a place, unless it has too many links. -/
inductive Way (tree : FileTree) (home : Place) : Nat → Place → List String → Option Place → Prop
  | stop {budget : Nat} {place : Place} (hplace : Plain tree home place) :
      Way tree home budget place [] (some place)
  | step {budget : Nat} {place : Place} {part : String} {behind : List String}
      {stop : Option Place} (hplace : Plain tree home place)
      (h : Way tree home budget (stepTo place part) behind stop) :
      Way tree home budget place (part :: behind) stop
  | turn {budget : Nat} {place : Place} {part target : String} {behind : List String}
      {stop : Option Place} (hplace : Plain tree home place) (hname : IsName part)
      (hout : ¬ home <+: place ++ [part])
      (hlink : tree.entry? (place ++ [part]) = some (.link target))
      (h : Way tree home budget (origin place target) (steps target ++ behind) stop) :
      Way tree home (budget + 1) place (part :: behind) stop
  | spent {place : Place} {part target : String} {behind : List String}
      (hplace : Plain tree home place) (hname : IsName part)
      (hout : ¬ home <+: place ++ [part])
      (hlink : tree.entry? (place ++ [part]) = some (.link target)) :
      Way tree home 0 place (part :: behind) none

namespace Way

theorem plain (h : Way tree home budget place parts stop) : Plain tree home place := by
  cases h with
  | stop hplace => exact hplace
  | step hplace _ => exact hplace
  | turn hplace _ _ _ _ => exact hplace
  | spent hplace _ _ _ => exact hplace

theorem plain_stop {found : Place} (h : Way tree home budget place parts (some found)) :
    Plain tree home found := by
  generalize hstop : some found = stop at h
  induction h with
  | stop hplace =>
    cases hstop
    exact hplace
  | step _ _ ih => exact ih hstop
  | turn _ _ _ _ _ ih => exact ih hstop
  | spent _ _ _ _ => cases hstop

/-- What comes in front of a way's end goes no other way. -/
theorem exists_front (h : Way tree home budget place (front ++ behind) stop) :
    ∃ stop, Way tree home budget place front stop := by
  generalize hparts : front ++ behind = parts at h
  induction h generalizing front with
  | stop hplace =>
    obtain ⟨rfl, -⟩ := List.append_eq_nil_iff.mp hparts
    exact ⟨_, .stop hplace⟩
  | step hplace _ ih =>
    cases front with
    | nil => exact ⟨_, .stop hplace⟩
    | cons first front =>
      obtain ⟨rfl, hbehind⟩ := List.cons.inj hparts
      obtain ⟨stop, hway⟩ := ih hbehind
      exact ⟨stop, .step hplace hway⟩
  | @turn _ _ _ target _ _ hplace hname hout hlink _ ih =>
    cases front with
    | nil => exact ⟨_, .stop hplace⟩
    | cons first front =>
      obtain ⟨rfl, rfl⟩ := List.cons.inj hparts
      obtain ⟨stop, hway⟩ := ih (List.append_assoc (steps target) front behind)
      exact ⟨stop, .turn hplace hname hout hlink hway⟩
  | spent hplace hname hout hlink =>
    cases front with
    | nil => exact ⟨_, .stop hplace⟩
    | cons first front =>
      obtain ⟨rfl, -⟩ := List.cons.inj hparts
      exact ⟨none, .spent hplace hname hout hlink⟩

/-- Single points do not matter. -/
theorem of_undotted {many few : List String} (h : Way tree home budget place many stop)
    (hdots : Undotted many few) : Way tree home budget place few stop := by
  induction h generalizing few with
  | stop hplace =>
    cases hdots
    exact .stop hplace
  | @step _ _ _ _ _ hplace _ ih =>
    cases hdots with
    | drop hdots => exact ih hdots
    | keep part hdots => exact .step hplace (ih hdots)
  | turn hplace hname hout hlink _ ih =>
    cases hdots with
    | drop _ => exact absurd rfl hname.ne_point
    | keep part hdots =>
      exact .turn hplace hname hout hlink (ih ((Undotted.refl _).append hdots))
  | spent hplace hname hout hlink =>
    cases hdots with
    | drop _ => exact absurd rfl hname.ne_point
    | keep part _ => exact .spent hplace hname hout hlink

/-- A slash at the end of a path does not matter. -/
theorem concat_point (h : Way tree home budget place parts stop) :
    Way tree home budget place (parts ++ ["."]) stop := by
  induction h with
  | stop hplace => exact .step hplace (.stop hplace)
  | step hplace _ ih => exact .step hplace ih
  | turn hplace hname hout hlink _ ih =>
    exact .turn hplace hname hout hlink (List.append_assoc _ _ ["."] ▸ ih)
  | spent hplace hname hout hlink => exact .spent hplace hname hout hlink

end Way

/-- The way of a path stays outside a directory. -/
def StaysOutside (home : Place) (tree : FileTree) (path : String) : Prop :=
  ∃ stop, Way tree home linkLimit (origin tree.workingDirectory path) (bareSteps path) stop

namespace StaysOutside

variable {path : String}

theorem steps (h : StaysOutside home tree path) :
    ∃ stop, Way tree home linkLimit (origin tree.workingDirectory path) (steps path) stop := by
  obtain ⟨stop, hway⟩ := h
  rcases steps_cases path with hsteps | hsteps
  · exact ⟨stop, hsteps ▸ hway⟩
  · exact ⟨stop, hsteps ▸ hway.concat_point⟩

/-- A path above goes no other way. -/
theorem parent (h : StaysOutside home tree path) {above : String}
    (hparent : parent? path = some above) (hne : above ≠ "") : StaysOutside home tree above := by
  obtain ⟨stop, hway⟩ := h
  have hfew := hway.of_undotted (undotted_parts path)
  obtain ⟨⟨name, hparts⟩, _⟩ := exists_of_parent? hparent
  rw [hparts] at hfew
  rw [StaysOutside, bareSteps_parent? hparent, origin, isAbsolute_parent? hparent hne]
  exact hfew.exists_front

end StaysOutside

/-- Where no links are on it, a way is where its parts lead. -/
theorem way_of_plain (h : ∀ front, front <+: parts → Plain tree home (walk place front)) :
    Way tree home budget place parts (some (walk place parts)) := by
  induction parts generalizing place with
  | nil => exact .stop (h [] List.nil_prefix)
  | cons part behind ih =>
    refine .step (h [] List.nil_prefix) (ih fun front hfront => ?_)
    exact h (part :: front) (List.cons_prefix_cons.mpr ⟨rfl, hfront⟩)

theorem way_of_linkFree (hfree : tree.LinkFree) (h : Avoids (home <+: ·) place parts) :
    Way tree home budget place parts (some (walk place parts)) :=
  way_of_plain fun front hfront => ⟨h front hfront, hfree _⟩

theorem staysOutside_of_clears {path : String} (hfree : tree.LinkFree)
    (h : Clears (home <+: ·) tree path) : StaysOutside home tree path :=
  ⟨_, way_of_linkFree hfree h⟩

/-! ## Trees that agree outside a directory -/

/-- Two trees are the same outside a directory, and have the links of a third one there. -/
structure AgreeOutside (home : Place) (start tree other : FileTree) : Prop where
  workingDirectory_eq : tree.workingDirectory = start.workingDirectory
  workingDirectory_other : other.workingDirectory = start.workingDirectory
  entry?_eq : ∀ place, ¬ home <+: place → other.entry? place = tree.entry? place
  link_iff : ∀ place target, ¬ home <+: place →
    (tree.entry? place = some (.link target) ↔ start.entry? place = some (.link target))

theorem ne_nil_of_inside (hne : home ≠ []) (hplace : home <+: place) : place ≠ [] := by
  rintro rfl
  exact hne (List.prefix_nil.mp hplace)

/-- Removing what is at a place changes nothing elsewhere. -/
theorem entry?_drop (tree : FileTree) (hne : place ≠ []) (other : Place) :
    entry? (tree.drop place) other = if place = other then none else tree.entry? other := by
  unfold entry? drop
  by_cases hother : other = []
  · subst hother
    simp [hne]
  · have hnonempty : other.isEmpty = false := by simpa using hother
    rw [hnonempty]
    exact OrderedMap.get?_filter_ne tree.entries place other

/-- A tree is changed inside a directory only. -/
structure ChangedInside (home : Place) (tree later : FileTree) : Prop where
  workingDirectory_eq : later.workingDirectory = tree.workingDirectory
  entry?_eq : ∀ place, ¬ home <+: place → later.entry? place = tree.entry? place

namespace ChangedInside

theorem refl (home : Place) (tree : FileTree) : ChangedInside home tree tree :=
  ⟨rfl, fun _ _ => rfl⟩

theorem trans {middle : FileTree} (h : ChangedInside home tree middle)
    (h' : ChangedInside home middle later) : ChangedInside home tree later :=
  ⟨h'.workingDirectory_eq.trans h.workingDirectory_eq,
    fun found hfound => (h'.entry?_eq found hfound).trans (h.entry?_eq found hfound)⟩

theorem put (hne : home ≠ []) (hplace : home <+: place) (tree : FileTree) (entry : Entry) :
    ChangedInside home tree (tree.put place entry) := by
  refine ⟨rfl, fun found hfound => entry?_put_of_ne tree (ne_nil_of_inside hne hplace) entry ?_⟩
  rintro rfl
  exact hfound hplace

theorem drop (hne : home ≠ []) (hplace : home <+: place) (tree : FileTree) :
    ChangedInside home tree (tree.drop place) := by
  refine ⟨rfl, fun found hfound => ?_⟩
  rw [entry?_drop tree (ne_nil_of_inside hne hplace), if_neg]
  rintro rfl
  exact hfound hplace

end ChangedInside

namespace AgreeOutside

theorem refl (home : Place) (tree : FileTree) : AgreeOutside home tree tree tree :=
  ⟨rfl, rfl, fun _ _ => rfl, fun _ _ _ => Iff.rfl⟩

/-- Trees that agree have each other's links. -/
theorem rebase (h : AgreeOutside home start tree other) : AgreeOutside home tree tree other :=
  ⟨rfl, h.workingDirectory_other.trans h.workingDirectory_eq.symm, h.entry?_eq,
    fun _ _ _ => Iff.rfl⟩

theorem left (h : AgreeOutside home start tree other) : AgreeOutside home start tree tree :=
  ⟨h.workingDirectory_eq, h.workingDirectory_eq, fun _ _ => rfl, h.link_iff⟩

theorem right (h : AgreeOutside home start tree other) : AgreeOutside home start other other :=
  ⟨h.workingDirectory_other, h.workingDirectory_other, fun _ _ => rfl,
    fun place target hplace => h.entry?_eq place hplace ▸ h.link_iff place target hplace⟩

theorem of_changes (h : AgreeOutside home start tree other)
    (hlater : ChangedInside home tree later) (hlater' : ChangedInside home other later') :
    AgreeOutside home start later later' := by
  refine ⟨hlater.workingDirectory_eq.trans h.workingDirectory_eq,
    hlater'.workingDirectory_eq.trans h.workingDirectory_other, ?_, ?_⟩
  · intro place hplace
    rw [hlater.entry?_eq place hplace, hlater'.entry?_eq place hplace, h.entry?_eq place hplace]
  · intro place target hplace
    rw [hlater.entry?_eq place hplace, h.link_iff place target hplace]

theorem put (h : AgreeOutside home start tree other) (hne : place ≠ [])
    (hplace : ∀ target, tree.entry? place ≠ some (.link target)) {entry : Entry}
    (hentry : ∀ target, entry ≠ .link target) :
    AgreeOutside home start (tree.put place entry) (other.put place entry) := by
  refine ⟨h.workingDirectory_eq, h.workingDirectory_other, ?_, ?_⟩
  · intro found hfound
    rw [entry?_put tree hne, entry?_put other hne, h.entry?_eq found hfound]
  · intro found target hfound
    rw [entry?_put tree hne]
    split
    · rename_i heq
      subst heq
      rw [← h.link_iff place target hfound]
      exact iff_of_false (by simpa using hentry target) (hplace target)
    · exact h.link_iff found target hfound

theorem plain (h : AgreeOutside home start tree other) (hplace : Plain start home place) :
    Plain tree home place :=
  ⟨hplace.outside, fun target hlink =>
    hplace.ne_link target ((h.link_iff place target hplace.outside).mp hlink)⟩

end AgreeOutside

/-! ## Following a way -/

theorem arrive_of_follow {arrival : Arrival} (h : tree.follow last place parts = arrival)
    (hlink : ∀ directory target behind, arrival ≠ .link directory target behind) :
    tree.arrive last budget place parts = arrival :=
  (Arrives.done h hlink).arrive_eq

theorem arrive_nil : tree.arrive last budget place [] = .at place := arrive_of_follow rfl (by simp)

theorem arrive_congr {place' : Place} {parts' : List String}
    (h : tree.follow last place parts = tree.follow last place' parts') :
    tree.arrive last budget place parts = tree.arrive last budget place' parts' := by
  rw [arrive.eq_def, arrive.eq_def]
  dsimp only
  rw [h]

theorem arrive_link {target : String} (hplace : tree.entry? place = some .directory)
    (hname : IsName part) (hlink : tree.entry? (place ++ [part]) = some (.link target))
    (hbehind : ¬ (behind = [] ∧ last = false)) :
    tree.arrive last (budget + 1) place (part :: behind) =
      tree.arrive last budget (origin place target) (steps target ++ behind) := by
  rw [arrive.eq_def]
  simp only [follow_link hplace hname hlink, if_neg hbehind]

theorem arrive_link_zero {target : String} (hplace : tree.entry? place = some .directory)
    (hname : IsName part) (hlink : tree.entry? (place ++ [part]) = some (.link target))
    (hbehind : ¬ (behind = [] ∧ last = false)) :
    tree.arrive last 0 place (part :: behind) = .fault .tooManyLinks := by
  rw [arrive.eq_def]
  simp only [follow_link hplace hname hlink, if_neg hbehind]

theorem exists_fault_of_not_directory (h : tree.entry? place ≠ some .directory) :
    ∃ fault, ∀ each : FileTree, each.entry? place = tree.entry? place → ∀ last part behind,
      each.follow last place (part :: behind) = .fault fault := by
  cases hentry : tree.entry? place with
  | none => exact ⟨.notFound, fun each heach last part behind => by simp [follow, heach]⟩
  | some entry =>
    refine ⟨.notDirectory, fun each heach last part behind => ?_⟩
    cases entry with
    | directory => exact absurd hentry h
    | file bytes => simp [follow, heach]
    | link target => simp [follow, heach]

/-- What a part leads to is the same in all trees that have the same two entries. -/
theorem follow_cases_of_entries (tree : FileTree) (place : Place) (part : String)
    (behind : List String)
    (hlink : IsName part → ∀ target, tree.entry? (place ++ [part]) ≠ some (.link target)) :
    (∃ fault, ∀ each : FileTree, each.entry? place = tree.entry? place →
      (IsName part → each.entry? (place ++ [part]) = tree.entry? (place ++ [part])) → ∀ last,
        each.follow last place (part :: behind) = .fault fault) ∨
    (IsName part ∧ tree.entry? (place ++ [part]) = none ∧ behind = [] ∧
      ∀ each : FileTree, each.entry? place = tree.entry? place →
      (IsName part → each.entry? (place ++ [part]) = tree.entry? (place ++ [part])) → ∀ last,
        each.follow last place (part :: behind) = .missing place part) ∨
    ∀ each : FileTree, each.entry? place = tree.entry? place →
      (IsName part → each.entry? (place ++ [part]) = tree.entry? (place ++ [part])) →
      ∀ last behind,
        each.follow last place (part :: behind) = each.follow last (stepTo place part) behind := by
  by_cases hdirectory : tree.entry? place = some .directory
  · rw [hdirectory]
    by_cases hstay : part = "." ∨ part = ""
    · refine Or.inr (Or.inr fun each heach _ last behind => ?_)
      rw [follow_stay heach hstay, stepTo, if_pos (by simpa using hstay)]
    by_cases hup : part = ".."
    · refine Or.inr (Or.inr fun each heach _ last behind => ?_)
      subst hup
      rw [follow_up heach]
      rfl
    rw [not_or] at hstay
    by_cases hshort : part.utf8ByteSize ≤ nameLimit
    · have hname : IsName part := ⟨hstay.1, hstay.2, hup, hshort⟩
      cases hnext : tree.entry? (place ++ [part]) with
      | none =>
        by_cases hbehind : behind = []
        · refine Or.inr (Or.inl ⟨hname, rfl, hbehind, fun each heach hsame last => ?_⟩)
          rw [follow_missing heach hname (hsame hname), if_pos hbehind]
        · refine Or.inl ⟨.notFound, fun each heach hsame last => ?_⟩
          rw [follow_missing heach hname (hsame hname), if_neg hbehind]
      | some next =>
        refine Or.inr (Or.inr fun each heach hsame last behind => ?_)
        rw [stepTo_name hname, follow_enter heach hname (hsame hname)]
        exact fun target htarget => hlink hname target (by rw [hnext, htarget])
    · refine Or.inl ⟨.nameTooLong, fun each heach _ last => ?_⟩
      simp [follow, heach, hstay, hup, Nat.lt_of_not_le hshort]
  · obtain ⟨fault, hfault⟩ := exists_fault_of_not_directory hdirectory
    exact Or.inl ⟨fault, fun each heach _ last => hfault each heach last part behind⟩

/-- What following a way comes to in two trees that agree outside a directory, with further parts
behind it. A link at the end of all parts may be left unfollowed. -/
inductive Followed (home : Place) (tree other : FileTree) (last : Bool) (budget : Nat)
    (place : Place) (front behind : List String) (stop : Option Place) : Prop
  | fault (fault : FileFault)
      (h : tree.arrive last budget place (front ++ behind) = .fault fault)
      (h_other : other.arrive last budget place (front ++ behind) = .fault fault)
  | missing {directory : Place} {name : String} (hbehind : behind = [])
      (hout : ¬ home <+: directory ++ [name])
      (hnone : tree.entry? (directory ++ [name]) = none)
      (h : tree.arrive last budget place (front ++ behind) = .missing directory name)
      (h_other : other.arrive last budget place (front ++ behind) = .missing directory name)
  | unfollowed {found : Place} (hbehind : behind = []) (hlast : last = false)
      (hout : ¬ home <+: found)
      (h : tree.arrive last budget place (front ++ behind) = .at found)
      (h_other : other.arrive last budget place (front ++ behind) = .at found)
  | through {left : Nat} {found : Place} (hstop : stop = some found)
      (hreach : tree.arrive true budget place front = .at found)
      (h : tree.arrive last budget place (front ++ behind) = tree.arrive last left found behind)
      (h_other : other.arrive last budget place (front ++ behind) =
        other.arrive last left found behind)

theorem Followed.of_eq {budget' : Nat} {place' : Place} {front' : List String}
    (hreach : tree.arrive true budget' place' front' = tree.arrive true budget place front)
    (heq : tree.arrive last budget' place' (front' ++ behind) =
      tree.arrive last budget place (front ++ behind))
    (heq_other : other.arrive last budget' place' (front' ++ behind) =
      other.arrive last budget place (front ++ behind))
    (h : Followed home tree other last budget place front behind stop) :
    Followed home tree other last budget' place' front' behind stop := by
  cases h with
  | fault fault h h_other => exact .fault fault (heq.trans h) (heq_other.trans h_other)
  | missing hbehind hout hnone h h_other =>
    exact .missing hbehind hout hnone (heq.trans h) (heq_other.trans h_other)
  | unfollowed hbehind hlast hout h h_other =>
    exact .unfollowed hbehind hlast hout (heq.trans h) (heq_other.trans h_other)
  | through hstop hreached h h_other =>
    exact .through hstop (hreach.trans hreached) (heq.trans h) (heq_other.trans h_other)

/-- A link on the way has to be followed, unless it is the last part. -/
theorem Followed.of_link (hagree : AgreeOutside home start tree other)
    (hplace : Plain start home place) (hname : IsName part) (hout : ¬ home <+: place ++ [part])
    {target : String} (hlink : start.entry? (place ++ [part]) = some (.link target))
    (h : tree.entry? place = some .directory → ¬ (front ++ behind = [] ∧ last = false) →
      Followed home tree other last budget place (part :: front) behind stop) :
    Followed home tree other last budget place (part :: front) behind stop := by
  have hentry : tree.entry? (place ++ [part]) = some (.link target) :=
    (hagree.link_iff _ _ hout).mpr hlink
  have hsame := hagree.entry?_eq place hplace.outside
  by_cases hdirectory : tree.entry? place = some .directory
  · by_cases hbehind : front ++ behind = [] ∧ last = false
    · refine .unfollowed (List.append_eq_nil_iff.mp hbehind.1).2 hbehind.2 hout ?_ ?_
      · refine arrive_of_follow ?_ (by simp)
        rw [List.cons_append, follow_link hdirectory hname hentry, if_pos hbehind]
      · refine arrive_of_follow ?_ (by simp)
        rw [List.cons_append, follow_link (hsame.trans hdirectory) hname
          ((hagree.entry?_eq _ hout).trans hentry), if_pos hbehind]
    · exact h hdirectory hbehind
  · obtain ⟨fault, hfault⟩ := exists_fault_of_not_directory hdirectory
    refine .fault fault ?_ ?_
    · exact arrive_of_follow (hfault tree rfl last _ _) (by simp)
    · exact arrive_of_follow (hfault other hsame last _ _) (by simp)

/-- Two trees that agree outside a directory are told apart by no way that stays outside. -/
theorem Way.followed (h : Way start home budget place front stop)
    (hagree : AgreeOutside home start tree other) (last : Bool) (behind : List String) :
    Followed home tree other last budget place front behind stop := by
  -- By induction on the way: each step depends on entries outside only.
  induction h with
  | stop hplace => exact .through rfl arrive_nil rfl rfl
  | @step budget place part front stop hplace hway ih =>
    have hnext : IsName part → ¬ home <+: place ++ [part] ∧
        ∀ target, tree.entry? (place ++ [part]) ≠ some (.link target) := by
      intro hname
      rw [← stepTo_name hname]
      have hplain := hagree.plain hway.plain
      exact ⟨hplain.outside, hplain.ne_link⟩
    have hsame := hagree.entry?_eq place hplace.outside
    have hsame' : IsName part → other.entry? (place ++ [part]) = tree.entry? (place ++ [part]) :=
      fun hname => hagree.entry?_eq _ (hnext hname).1
    rcases follow_cases_of_entries tree place part (front ++ behind) (fun hname => (hnext hname).2)
      with ⟨fault, hfault⟩ | ⟨hname, hnone, hnil, hmissing⟩ | hgo
    · refine .fault fault ?_ ?_
      · exact arrive_of_follow (hfault tree rfl (fun _ => rfl) last) (by simp)
      · exact arrive_of_follow (hfault other hsame hsame' last) (by simp)
    · refine .missing (List.append_eq_nil_iff.mp hnil).2 (hnext hname).1 hnone ?_ ?_
      · exact arrive_of_follow (hmissing tree rfl (fun _ => rfl) last) (by simp)
      · exact arrive_of_follow (hmissing other hsame hsame' last) (by simp)
    · refine ih.of_eq ?_ ?_ ?_
      · exact arrive_congr (hgo tree rfl (fun _ => rfl) true front)
      · exact arrive_congr (hgo tree rfl (fun _ => rfl) last (front ++ behind))
      · exact arrive_congr (hgo other hsame hsame' last (front ++ behind))
  | @turn budget place part target front stop hplace hname hout hlink hway ih =>
    refine .of_link hagree hplace hname hout hlink fun hdirectory hbehind => ?_
    have hentry := (hagree.link_iff _ _ hout).mpr hlink
    refine ih.of_eq ?_ ?_ ?_
    · exact arrive_link hdirectory hname hentry (by simp)
    · rw [List.cons_append, arrive_link hdirectory hname hentry hbehind, List.append_assoc]
    · rw [List.cons_append, arrive_link ((hagree.entry?_eq _ hplace.outside).trans hdirectory) hname
        ((hagree.entry?_eq _ hout).trans hentry) hbehind, List.append_assoc]
  | @spent place part target front hplace hname hout hlink =>
    refine .of_link hagree hplace hname hout hlink fun hdirectory hbehind => ?_
    have hentry := (hagree.link_iff _ _ hout).mpr hlink
    refine .fault .tooManyLinks ?_ ?_
    · exact arrive_link_zero hdirectory hname hentry hbehind
    · exact arrive_link_zero ((hagree.entry?_eq _ hplace.outside).trans hdirectory) hname
        ((hagree.entry?_eq _ hout).trans hentry) hbehind

end PageManifest.FileTree
