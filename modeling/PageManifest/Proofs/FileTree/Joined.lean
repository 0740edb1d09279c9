import PageManifest.Proofs.FileTree.Files

/-!
# Paths in two parts

A path leads somewhere if its front leads to a directory from which the rest leads there; the
links that may be followed are shared between the two (`Arrives.split`, `Arrives.join`). So an
operation that leaves a link at the end unfollowed acts on the name itself, in the directory in
front of it (`removeFile_join_eq_ok_iff`, `createLink_join_eq_ok_iff`).
-/

namespace PageManifest.FileTree

open PageManifest.Path

variable {tree later : FileTree} {last : Bool} {budget : Nat} {place base : Place}
  {front behind parts : List String} {arrival : Arrival} {directory name : String}

/-! ## Sharing a budget -/

namespace Arrives

/-- A greater budget does no harm. -/
theorem mono (h : Arrives tree last budget place parts arrival) {more : Nat} (hle : budget ≤ more) :
    Arrives tree last more place parts arrival := by
  induction h generalizing more with
  | done hfollow hlink => exact .done hfollow hlink
  | linked hfollow _ ih =>
    obtain ⟨more, rfl⟩ : ∃ fewer, more = fewer + 1 := ⟨more - 1, by omega⟩
    exact .linked hfollow (ih (by omega))

/-- Parts lead to one end only, however many links may be followed. -/
theorem unique (h : Arrives tree last budget place parts arrival) {budget' : Nat}
    {arrival' : Arrival} (h' : Arrives tree last budget' place parts arrival') :
    arrival = arrival' := by
  have hmost := h.mono (Nat.le_max_left budget budget')
  exact hmost.arrive_eq.symm.trans (h'.mono (Nat.le_max_right budget budget')).arrive_eq

/-- The front leads to a directory from which the rest leads on, with the links that are left. -/
theorem split (h : Arrives tree last budget place (front ++ behind) arrival)
    (hfault : ∀ fault, arrival ≠ .fault fault) (hbehind : behind ≠ []) :
    ∃ n m middle, n + m = budget ∧ Arrives tree true n place front (.at middle) ∧
      tree.entry? middle = some .directory ∧ Arrives tree last m middle behind arrival := by
  generalize hparts : front ++ behind = parts at h
  induction h generalizing front with
  | @done budget place _ arrival hfollow hlink =>
    subst hparts
    rcases front_of_follow_append hbehind (hfollow ▸ hfault) with
      ⟨middle, hfront, hmiddle⟩ | ⟨directory, target, rest, hfront⟩
    · rw [follow_append_of_at hfront] at hfollow
      exact ⟨0, budget, middle, by omega, .done hfront (by simp), hmiddle, .done hfollow hlink⟩
    · rw [follow_append_of_link hfront (fun hnil => hbehind hnil.1)] at hfollow
      exact absurd hfollow.symm (hlink _ _ _)
  | @linked budget place directory _ rest target arrival hfollow hrest ih =>
    subst hparts
    have hlink : ∀ fault, Arrival.link directory target rest ≠ .fault fault := by simp
    rcases front_of_follow_append hbehind (hfollow ▸ hlink) with
      ⟨middle, hfront, hmiddle⟩ | ⟨directory', target', rest', hfront⟩
    · rw [follow_append_of_at hfront] at hfollow
      exact ⟨0, budget + 1, middle, by omega, .done hfront (by simp), hmiddle,
        .linked hfollow hrest⟩
    · rw [follow_append_of_link hfront (fun hnil => hbehind hnil.1)] at hfollow
      cases hfollow
      obtain ⟨n, m, middle, hsum, harrives, hmiddle, hbehind⟩ := ih hfault
        (List.append_assoc (steps target) rest' behind)
      exact ⟨n + 1, m, middle, by omega, .linked hfront harrives, hmiddle, hbehind⟩

/-- Where the front leads, the rest leads on. -/
theorem join {n m : Nat} {middle : Place} (h : Arrives tree true n place front (.at middle))
    (hbehind : ¬ (behind = [] ∧ last = false)) (h' : Arrives tree last m middle behind arrival) :
    Arrives tree last (n + m) place (front ++ behind) arrival := by
  generalize hreached : Arrival.at middle = reached at h
  induction h with
  | @done n place front _ hfront _ =>
    subst hreached
    have hgo : tree.follow last place (front ++ behind) = tree.follow last middle behind :=
      follow_append_of_at hfront
    cases h' with
    | done hfollow hlink => exact .done (hgo.trans hfollow) hlink
    | linked hfollow hrest => exact .linked (hgo.trans hfollow) (hrest.mono (Nat.le_add_left _ _))
  | @linked n place directory _ rest target _ hfront _ ih =>
    rw [Nat.add_right_comm]
    refine .linked (follow_append_of_link hfront hbehind) ?_
    rw [← List.append_assoc]
    exact ih hreached

end Arrives

/-! ## A name in a directory -/

/-- A name on its own is found or missing in its directory, be it a link or not. -/
theorem follow_false_name (hname : IsName name) (hbase : tree.entry? base = some .directory) :
    tree.follow false base [name] =
      if tree.entry? (base ++ [name]) = none then .missing base name else .at (base ++ [name]) := by
  cases hentry : tree.entry? (base ++ [name]) with
  | none => rw [follow_missing hbase hname hentry, if_pos rfl, if_pos rfl]
  | some entry =>
    rw [if_neg (by simp)]
    cases entry with
    | link target => rw [follow_link hbase hname hentry, if_pos ⟨rfl, rfl⟩]
    | file bytes =>
      rw [follow_enter hbase hname hentry (by simp)]
      rfl
    | directory =>
      rw [follow_enter hbase hname hentry (by simp)]
      rfl

theorem isBase_of_arrives (hresolvable : directory = "" ∨ IsResolvable directory) {n : Nat}
    (hn : n ≤ linkLimit)
    (h : Arrives tree true n (origin tree.workingDirectory directory) (bareSteps directory)
      (.at base))
    (hdirectory : tree.entry? base = some .directory) : IsBase tree directory base := by
  rcases hresolvable with rfl | hresolvable
  · have hstart : Arrives tree true n tree.workingDirectory [] (.at tree.workingDirectory) :=
      .done rfl (by simp)
    cases hstart.unique h
    exact .inl ⟨rfl, rfl⟩
  · exact .inr ⟨hresolvable, h.mono hn, hdirectory⟩

theorem isResolvable_front (hname : IsFileName name) (h : IsResolvable (join directory name)) :
    directory = "" ∨ IsResolvable directory :=
  or_iff_not_imp_left.mpr fun hne => isResolvable_of_join hname.not_isAbsolute hne h

/-- All names in a directory stand behind the same text. -/
theorem exists_join_eq (directory : String) :
    ∃ front, ∀ name, isAbsolute name = false → join directory name = front ++ name := by
  by_cases hempty : directory.isEmpty = true
  · exact ⟨"", fun name _ => by simp [join, hempty]⟩
  · by_cases hslash : (directory.toList.getLast? == some '/') = true
    · exact ⟨directory, fun name hname => by simp only [join, hname, hempty, hslash]; rfl⟩
    · exact ⟨directory ++ "/", fun name hname => by simp only [join, hname, hempty, hslash]; rfl⟩

/-- With a name that is not longer, a path can be resolved as well. -/
theorem isResolvable_join_of_le {longer : String} (hlonger : isAbsolute longer = false)
    (hname : IsFileName name) (hzero : '\x00' ∉ name.toList)
    (hsize : name.utf8ByteSize ≤ longer.utf8ByteSize) (h : IsResolvable (join directory longer)) :
    IsResolvable (join directory name) := by
  obtain ⟨front, hfront⟩ := exists_join_eq directory
  rw [hfront longer hlonger] at h
  rw [hfront name hname.not_isAbsolute]
  have hfree := h.noZero
  have hshort := h.isShort
  rw [String.toList_append, List.mem_append, not_or] at hfree
  rw [String.utf8ByteSize_append] at hshort
  refine ⟨?_, ?_, ?_⟩
  · rw [String.toList_append, List.mem_append, not_or]
    exact ⟨hfree.1, hzero⟩
  · simp [hname.isName.ne_empty]
  · rw [String.utf8ByteSize_append]
    omega

/-- A path to a name in a directory ends at this name if a link there is not followed. -/
theorem resolveParts_false_join_iff (hname : IsFileName name)
    (hfault : ∀ fault, arrival ≠ .fault fault) :
    tree.resolveParts false (join directory name) (steps (join directory name)) = arrival ↔
      IsResolvable (join directory name) ∧ ∃ base, IsBase tree directory base ∧
        tree.entry? base = some .directory ∧
        (if tree.entry? (base ++ [name]) = none then .missing base name
          else .at (base ++ [name])) = arrival := by
  rw [resolveParts_eq_iff hfault, hname.steps_join, hname.origin_join]
  have hends : ∀ base, tree.entry? base = some .directory →
      Arrives tree false 0 base [name] (if tree.entry? (base ++ [name]) = none
        then .missing base name else .at (base ++ [name])) := by
    intro base hbase
    refine .done (follow_false_name hname.isName hbase) ?_
    split
    · simp
    · simp
  constructor
  · rintro ⟨hresolvable, harrives⟩
    obtain ⟨n, m, base, hsum, hfront, hbase, hend⟩ := harrives.split hfault (by simp)
    exact ⟨hresolvable, base, isBase_of_arrives (isResolvable_front hname hresolvable) (by omega)
      hfront hbase, hbase, (hends base hbase).unique hend⟩
  · rintro ⟨hresolvable, base, hisBase, hbase, rfl⟩
    exact ⟨hresolvable, hisBase.arrives.join (by simp) (hends base hbase)⟩

theorem removeFile_join_eq_ok_iff (hname : IsFileName name) :
    tree.removeFile (join directory name) = .ok later ↔
      IsResolvable (join directory name) ∧ ∃ base, IsBase tree directory base ∧
        tree.entry? base = some .directory ∧ tree.entry? (base ++ [name]) ≠ none ∧
        tree.entry? (base ++ [name]) ≠ some .directory ∧ later = tree.drop (base ++ [name]) := by
  have hat : ∀ place, tree.resolveParts false (join directory name)
      (steps (join directory name)) = .at place ↔ _ :=
    fun place => resolveParts_false_join_iff hname (by simp)
  constructor
  · intro h
    unfold removeFile at h
    split at h
    · rename_i place hresolve
      obtain ⟨hresolvable, base, hisBase, hbase, hplace⟩ := (hat place).mp hresolve
      split at hplace
      · cases hplace
      · rename_i hsome
        cases hplace
        split at h
        · cases h
        · rename_i hfile
          cases h
          exact ⟨hresolvable, base, hisBase, hbase, hsome, hfile, rfl⟩
    · cases h
    · cases h
  · rintro ⟨hresolvable, base, hisBase, hbase, hsome, hfile, rfl⟩
    have hresolve := (hat (base ++ [name])).mpr ⟨hresolvable, base, hisBase, hbase, if_neg hsome⟩
    unfold removeFile
    rw [hresolve]
    exact if_neg hfile

theorem createLink_join_eq_ok_iff (hname : IsFileName name) {target : String} :
    tree.createLink target (join directory name) = .ok later ↔
      IsResolvable (join directory name) ∧ ∃ base, IsBase tree directory base ∧
        tree.entry? base = some .directory ∧ tree.entry? (base ++ [name]) = none ∧
        later = tree.put (base ++ [name]) (.link target) := by
  have hmissing : ∀ place name', tree.resolveParts false (join directory name)
      (steps (join directory name)) = .missing place name' ↔ _ :=
    fun place name' => resolveParts_false_join_iff hname (by simp)
  constructor
  · intro h
    unfold createLink at h
    split at h
    · cases h
    · rename_i place name' hresolve
      obtain ⟨hresolvable, base, hisBase, hbase, hend⟩ := (hmissing place name').mp hresolve
      split at hend
      · rename_i hnone
        cases hend
        cases h
        exact ⟨hresolvable, _, hisBase, hbase, hnone, rfl⟩
      · cases hend
    · cases h
    · cases h
  · rintro ⟨hresolvable, base, hisBase, hbase, hnone, rfl⟩
    have hresolve := (hmissing base name).mpr ⟨hresolvable, base, hisBase, hbase, if_pos hnone⟩
    unfold createLink
    rw [hresolve]

end PageManifest.FileTree
