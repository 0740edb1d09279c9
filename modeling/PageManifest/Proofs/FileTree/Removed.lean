import PageManifest.Proofs.FileTree.Joined
import PageManifest.Proofs.FileTree.Outside

/-!
# Ways after links were removed

A way that stays outside a directory is followed alike in trees that agree outside, as long as the
links on it are those of the tree that it was found in. When some of these links are removed, it
may end early. But where it still leads somewhere in one of two trees that agree outside, it does
so in the other one, too (`Way.reaches`).
-/

namespace PageManifest.FileTree

open PageManifest.Path

variable {start tree other : FileTree} {home place found : Place} {budget : Nat}
  {parts front behind : List String} {stop : Option Place} {path directory name : String}

/-! ## What is left of a way -/

/-- Outside a directory two trees are the same, and their links are those of a third one, some of
which may have been removed. -/
structure FewerLinks (home : Place) (start tree other : FileTree) : Prop where
  workingDirectory_eq : tree.workingDirectory = start.workingDirectory
  workingDirectory_other : other.workingDirectory = start.workingDirectory
  entry?_eq : ∀ place, ¬ home <+: place → other.entry? place = tree.entry? place
  link : ∀ place target, ¬ home <+: place → tree.entry? place = some (.link target) →
    start.entry? place = some (.link target)
  kept : ∀ place target, ¬ home <+: place → start.entry? place = some (.link target) →
    tree.entry? place = some (.link target) ∨ tree.entry? place = none

namespace FewerLinks

theorem symm (h : FewerLinks home start tree other) : FewerLinks home start other tree where
  workingDirectory_eq := h.workingDirectory_other
  workingDirectory_other := h.workingDirectory_eq
  entry?_eq place hplace := (h.entry?_eq place hplace).symm
  link place target hplace := by
    rw [h.entry?_eq place hplace]
    exact h.link place target hplace
  kept place target hplace := by
    rw [h.entry?_eq place hplace]
    exact h.kept place target hplace

theorem agreeOutside (h : FewerLinks home start tree other) : AgreeOutside home tree tree other :=
  ⟨rfl, h.workingDirectory_other.trans h.workingDirectory_eq.symm, h.entry?_eq,
    fun _ _ _ => Iff.rfl⟩

/-- Whatever a tree has a link for, removing what is at a place leaves no other links. -/
theorem drop (h : AgreeOutside home start tree other) (hne : place ≠ []) :
    FewerLinks home start (tree.drop place) (other.drop place) := by
  refine ⟨h.workingDirectory_eq, h.workingDirectory_other, ?_, ?_, ?_⟩
  · intro each heach
    rw [entry?_drop tree hne, entry?_drop other hne, h.entry?_eq each heach]
  · intro each target heach hlink
    rw [entry?_drop tree hne] at hlink
    split at hlink
    · cases hlink
    · exact (h.link_iff each target heach).mp hlink
  · intro each target heach hlink
    rw [entry?_drop tree hne]
    split
    · exact .inr rfl
    · exact .inl ((h.link_iff each target heach).mpr hlink)

end FewerLinks

theorem AgreeOutside.fewerLinks (h : AgreeOutside home start tree other) :
    FewerLinks home start tree other :=
  ⟨h.workingDirectory_eq, h.workingDirectory_other, h.entry?_eq,
    fun place target hplace => (h.link_iff place target hplace).mp,
    fun place target hplace hlink => .inl ((h.link_iff place target hplace).mpr hlink)⟩

theorem Arrives.congr {last : Bool} {place' : Place} {parts' : List String} {arrival : Arrival}
    (h : tree.follow last place parts = tree.follow last place' parts')
    (harrives : Arrives tree last budget place parts arrival) :
    Arrives tree last budget place' parts' arrival := by
  cases harrives with
  | done hfollow hlink => exact .done (h.symm.trans hfollow) hlink
  | linked hfollow hrest => exact .linked (h.symm.trans hfollow) hrest

/-- A link that was removed leads nowhere. -/
theorem not_arrives_missing {part : String} (hname : IsName part)
    (hnone : tree.entry? (place ++ [part]) = none) :
    ¬ Arrives tree true budget place (part :: parts) (.at found) := by
  intro h
  by_cases hplace : tree.entry? place = some .directory
  · by_cases hparts : parts = []
    · have hmissing : Arrives tree true budget place (part :: parts) (.missing place part) :=
        .done ((follow_missing hplace hname hnone).trans (if_pos hparts)) (by simp)
      cases h.unique hmissing
    · have hfault : Arrives tree true budget place (part :: parts) (.fault .notFound) :=
        .done ((follow_missing hplace hname hnone).trans (if_neg hparts)) (by simp)
      cases h.unique hfault
  · obtain ⟨fault, hfault⟩ := exists_fault_of_not_directory hplace
    have hends : Arrives tree true budget place (part :: parts) (.fault fault) :=
      .done (hfault tree rfl true part parts) (by simp)
    cases h.unique hends

/-- Where the front of a way leads in one of two trees, it leads in the other one, and what comes
behind it stays outside. -/
theorem Way.reaches (h : Way start home budget place (front ++ behind) stop)
    (hfewer : FewerLinks home start tree other) {used : Nat} (hused : used ≤ budget)
    (harrives : Arrives tree true used place front (.at found)) :
    Arrives other true used place front (.at found) ∧
      ∃ left, Way start home left found behind stop := by
  generalize hparts : front ++ behind = parts at h
  -- By induction on the way. A front without parts has come to its end.
  have hend : ∀ {used budget place parts stop}, Way start home budget place parts stop →
      [] ++ behind = parts → Arrives tree true used place [] (.at found) →
      Arrives other true used place [] (.at found) ∧
        ∃ left, Way start home left found behind stop := by
    rintro used budget place - stop hway rfl harrives
    have hstay : Arrives tree true used place [] (.at place) := .done rfl (by simp)
    cases harrives.unique hstay
    exact ⟨.done rfl (by simp), _, hway⟩
  induction h generalizing front used with
  | @stop budget place hplace =>
    obtain ⟨rfl, rfl⟩ := List.append_eq_nil_iff.mp hparts
    have hway : Way start home budget place [] (some place) := .stop hplace
    exact hend hway rfl harrives
  | @step budget place part rest stop hplace hway ih =>
    cases front with
    | nil => exact hend (.step hplace hway) hparts harrives
    | cons first front =>
      obtain ⟨rfl, hrest⟩ := List.cons.inj hparts
      have hnext : IsName first → ¬ home <+: place ++ [first] ∧
          ∀ target, tree.entry? (place ++ [first]) ≠ some (.link target) := by
        intro hname
        rw [← stepTo_name hname]
        exact ⟨hway.plain.outside, fun target hlink =>
          hway.plain.ne_link target (hfewer.link _ target hway.plain.outside hlink)⟩
      have hsame := hfewer.entry?_eq place hplace.outside
      have hsame' : IsName first →
          other.entry? (place ++ [first]) = tree.entry? (place ++ [first]) :=
        fun hname => hfewer.entry?_eq _ (hnext hname).1
      rcases follow_cases_of_entries tree place first front (fun hname => (hnext hname).2) with
        ⟨fault, hfault⟩ | ⟨_, _, _, hmissing⟩ | hgo
      · have hfails : Arrives tree true used place (first :: front) (.fault fault) :=
          .done (hfault tree rfl (fun _ => rfl) true) (by simp)
        cases harrives.unique hfails
      · have hfails : Arrives tree true used place (first :: front) (.missing place first) :=
          .done (hmissing tree rfl (fun _ => rfl) true) (by simp)
        cases harrives.unique hfails
      · obtain ⟨hother, hleft⟩ :=
          ih hused (harrives.congr (hgo tree rfl (fun _ => rfl) true front)) hrest
        exact ⟨hother.congr (hgo other hsame hsame' true front).symm, hleft⟩
  | @turn budget place part target rest stop hplace hname hout hlink hway ih =>
    cases front with
    | nil => exact hend (.turn hplace hname hout hlink hway) hparts harrives
    | cons first front =>
      obtain ⟨rfl, rfl⟩ := List.cons.inj hparts
      rcases hfewer.kept _ target hout hlink with hentry | hnone
      · by_cases hdirectory : tree.entry? place = some .directory
        · have hfollow : tree.follow true place (first :: front) = .link place target front := by
            rw [follow_link hdirectory hname hentry, if_neg (by simp)]
          have hfollow' : other.follow true place (first :: front) = .link place target front := by
            rw [follow_link ((hfewer.entry?_eq place hplace.outside).trans hdirectory) hname
              ((hfewer.entry?_eq _ hout).trans hentry), if_neg (by simp)]
          cases harrives with
          | done hother _ => cases hfollow.symm.trans hother
          | @linked used _ _ _ _ _ _ hother hrest =>
            cases hfollow.symm.trans hother
            obtain ⟨hlater, hleft⟩ := ih (Nat.le_of_succ_le_succ hused) hrest
              (List.append_assoc (steps target) front behind)
            exact ⟨.linked hfollow' hlater, hleft⟩
        · obtain ⟨fault, hfault⟩ := exists_fault_of_not_directory hdirectory
          have hfails : Arrives tree true used place (first :: front) (.fault fault) :=
            .done (hfault tree rfl true first front) (by simp)
          cases harrives.unique hfails
      · exact absurd harrives (not_arrives_missing hname hnone)
  | @spent place part target rest hplace hname hout hlink =>
    cases front with
    | nil => exact hend (.spent hplace hname hout hlink) hparts harrives
    | cons first front =>
      obtain ⟨rfl, rfl⟩ := List.cons.inj hparts
      obtain rfl := Nat.le_zero.mp hused
      rcases hfewer.kept _ target hout hlink with hentry | hnone
      · have hfails : tree.arrive true 0 place (first :: front) ≠ .at found := by
          by_cases hdirectory : tree.entry? place = some .directory
          · rw [arrive_link_zero hdirectory hname hentry (by simp)]
            simp
          · obtain ⟨fault, hfault⟩ := exists_fault_of_not_directory hdirectory
            rw [arrive_of_follow (hfault tree rfl true first front) (by simp)]
            simp
        exact absurd harrives.arrive_eq hfails
      · exact absurd harrives (not_arrives_missing hname hnone)

/-! ## Making a link again -/

/-- The directory in front of a name has the same place in both trees, and so has the name. -/
theorem FewerLinks.isBase (hfewer : FewerLinks home start tree other) (hname : IsFileName name)
    (hpath : StaysOutside home start (join directory name)) {base : Place}
    (hbase : IsBase tree directory base) :
    IsBase other directory base ∧ ¬ home <+: base ∧ ¬ home <+: base ++ [name] := by
  obtain ⟨stop, hway⟩ := hpath
  rw [hname.bareSteps_join, hname.origin_join] at hway
  have harrives := hbase.arrives
  rw [hfewer.workingDirectory_eq] at harrives
  obtain ⟨hother, left, hleft⟩ := hway.reaches hfewer (Nat.le_refl _) harrives
  have hout : ¬ home <+: base := hleft.plain.outside
  refine ⟨?_, hout, ?_⟩
  · rcases hbase with ⟨rfl, rfl⟩ | hleads
    · exact .inl ⟨rfl, hfewer.workingDirectory_eq.trans hfewer.workingDirectory_other.symm⟩
    · refine .inr ⟨hleads.isResolvable, ?_, ?_⟩
      · rw [hfewer.workingDirectory_other]
        exact hother
      · rw [hfewer.entry?_eq base hout, hleads.directory]
  · cases hleft with
    | step _ hrest => exact stepTo_name hname.isName base ▸ hrest.plain.outside
    | turn _ _ hout _ _ => exact hout
    | spent _ _ hout _ => exact hout

/-- A link is made in both trees, or in neither. -/
theorem FewerLinks.createLink_eq (hfewer : FewerLinks home start tree other)
    (hname : IsFileName name) (hpath : StaysOutside home start (join directory name))
    {target : String} {later : FileTree}
    (hcreate : tree.createLink target (join directory name) = .ok later) :
    ∃ place, ¬ home <+: place ∧ place ≠ [] ∧ later = tree.put place (.link target) ∧
      other.createLink target (join directory name) = .ok (other.put place (.link target)) := by
  obtain ⟨hresolvable, base, hbase, hdirectory, hnone, rfl⟩ :=
    (createLink_join_eq_ok_iff hname).mp hcreate
  obtain ⟨hbase', hout, hplace⟩ := hfewer.isBase hname hpath hbase
  refine ⟨_, hplace, by simp, rfl, (createLink_join_eq_ok_iff hname).mpr
    ⟨hresolvable, base, hbase', ?_, ?_, rfl⟩⟩
  · rw [hfewer.entry?_eq base hout, hdirectory]
  · rw [hfewer.entry?_eq _ hplace, hnone]

end PageManifest.FileTree
