import PageManifest.Proofs.FileTree.Creation

/-!
# Files that were written

What was written to a path is read from it (`readText_of_writeText`), and it can be written
again. This needs no law of file trees: where a path passes the place that it leads to, the
entry there decides nothing.
-/

namespace PageManifest.FileTree

open PageManifest.Path

variable {tree later : FileTree} {path : String} {place leaf : Place} {parts : List String}

/-! ## Where nothing or a file is -/

/-- A path that leads to a file or to a missing name leads to what is put there. -/
theorem follow_of_file (hext : Extends tree later) {bytes : ByteArray}
    (hnew : later.entry? leaf = some (.file bytes))
    (h : tree.follow true place parts = .at leaf ∨
      ∃ directory name, tree.follow true place parts = .missing directory name ∧
        leaf = directory ++ [name]) :
    later.follow true place parts = .at leaf := by
  have hfault : ∀ fault, tree.follow true place parts ≠ .fault fault := by
    rintro fault hfault
    rcases h with h | ⟨_, _, h, _⟩
    · cases hfault.symm.trans h
    · cases hfault.symm.trans h
  induction parts generalizing place with
  | nil =>
    rcases h with h | ⟨_, _, h, _⟩
    · cases h
      rfl
    · cases h
  | cons part behind ih =>
    cases partCases tree true place part behind with
    | fault fault hfollow => exact absurd (hfollow true) (hfault fault)
    | stay hplace hpart hfollow =>
      rw [follow_stay (hext.directory _ hplace) hpart]
      rw [hfollow] at h hfault
      exact ih h hfault
    | up hplace hpart hfollow =>
      rw [hpart, follow_up (hext.directory _ hplace)]
      rw [hfollow] at h hfault
      exact ih h hfault
    | missing hplace hname hentry hbehind hfollow =>
      rcases h with h | ⟨_, _, h, rfl⟩
      · cases hfollow.symm.trans h
      · cases hfollow.symm.trans h
        rw [follow_enter (hext.directory _ hplace) hname hnew (by simp), hbehind]
        rfl
    | lastLink hplace hname target hentry hbehind hfollow => simp at hbehind
    | link hplace hname target hentry hbehind hfollow =>
      rcases h with h | ⟨_, _, h, _⟩
      · cases hfollow.symm.trans h
      · cases hfollow.symm.trans h
    | enter hplace hname entry hentry hlink hfollow =>
      rw [hfollow] at h hfault
      cases behind with
      | nil =>
        rcases h with h | ⟨_, _, h, _⟩
        · cases h
          rw [follow_enter (hext.directory _ hplace) hname hnew (by simp)]
          rfl
        · cases h
      | cons next behind =>
        have hdirectory := directory_of_follow_cons rfl hfault
        rw [follow_enter (hext.directory _ hplace) hname (hext.directory _ hdirectory) (by simp)]
        exact ih h hfault

theorem Arrives.of_file (hext : Extends tree later) {bytes : ByteArray}
    (hnew : later.entry? leaf = some (.file bytes)) {budget : Nat} {arrival : Arrival}
    (h : Arrives tree true budget place parts arrival)
    (harrival : arrival = .at leaf ∨
      ∃ directory name, arrival = .missing directory name ∧ leaf = directory ++ [name]) :
    Arrives later true budget place parts (.at leaf) := by
  induction h with
  | done hfollow _ => exact .done (follow_of_file hext hnew (hfollow ▸ harrival)) (by simp)
  | @linked _ _ directory _ behind target _ hfollow _ ih =>
    have hpasses : (Arrival.link directory target behind).Passes tree := trivial
    exact .linked ((follow_of_extends hext (hfollow ▸ hpasses)).trans hfollow) (ih harrival)

/-! ## Where a link is -/

/-- A path that ends at or below a link without following it starts there, too, and does not
pass the link. -/
theorem follow_put_of_link {target : String} (hleaf : tree.entry? leaf = some (.link target))
    (entry : Entry) {found : Place} {arrival : Arrival}
    (h : tree.follow true place parts = arrival)
    (harrival : arrival = .at found ∨ ∃ target behind, arrival = .link found target behind)
    (hfound : leaf <+: found) :
    leaf <+: place ∧ (tree.put leaf entry).follow true place parts = arrival := by
  have hne : leaf ≠ [] := by
    rintro rfl
    cases hleaf
  have hkept : ∀ {other : Place} {kept : Entry}, tree.entry? other = some kept →
      (∀ target, kept ≠ .link target) → entry? (tree.put leaf entry) other = some kept := by
    intro other kept hother hlink
    rw [entry?_put_of_ne tree hne, hother]
    rintro rfl
    exact hlink target (Option.some.inj (hother.symm.trans hleaf))
  induction parts generalizing place with
  | nil =>
    subst h
    rcases harrival with heq | ⟨_, _, heq⟩
    · cases heq
      exact ⟨hfound, rfl⟩
    · cases heq
  | cons part behind ih =>
    cases partCases tree true place part behind with
    | fault fault hfollow =>
      rw [hfollow] at h
      subst h
      simp at harrival
    | stay hplace hpart hfollow =>
      rw [follow_stay (hkept hplace (by simp)) hpart]
      exact ih (hfollow ▸ h)
    | up hplace hpart hfollow =>
      obtain ⟨habove, hlater⟩ := ih (hfollow ▸ h)
      rw [hpart, follow_up (hkept hplace (by simp))]
      exact ⟨habove.trans (List.dropLast_prefix place), hlater⟩
    | missing hplace hname hentry hbehind hfollow =>
      rw [hfollow] at h
      subst h
      simp at harrival
    | lastLink hplace hname target hentry hbehind hfollow => simp at hbehind
    | link hplace hname target hentry hbehind hfollow =>
      rw [hfollow] at h
      subst h
      rcases harrival with heq | ⟨_, _, heq⟩
      · cases heq
      · cases heq
        have hother : leaf ≠ found ++ [part] := by
          rintro rfl
          have hlength := hfound.length_le
          rw [List.length_append, List.length_singleton] at hlength
          omega
        have hlink : entry? (tree.put leaf entry) (found ++ [part]) = some (.link target) := by
          rw [entry?_put_of_ne tree hne entry hother, hentry]
        rw [follow_link (hkept hplace (by simp)) hname hlink, if_neg hbehind]
        exact ⟨hfound, rfl⟩
    | enter hplace hname next hentry hlink hfollow =>
      obtain ⟨habove, hlater⟩ := ih (hfollow ▸ h)
      rw [follow_enter (hkept hplace (by simp)) hname (hkept hentry hlink) hlink]
      refine ⟨?_, hlater⟩
      rcases List.prefix_concat_iff.mp habove with heq | habove
      · rw [heq, hentry] at hleaf
        exact absurd (Option.some.inj hleaf) (hlink _)
      · exact habove

theorem Arrives.put_of_link {target : String} (hleaf : tree.entry? leaf = some (.link target))
    (entry : Entry) {budget : Nat} (h : Arrives tree true budget place parts (.at leaf)) :
    leaf <+: place ∧ Arrives (tree.put leaf entry) true budget place parts (.at leaf) := by
  generalize harrival : Arrival.at leaf = arrival at h
  induction h with
  | done hfollow hlink =>
    obtain ⟨habove, hlater⟩ := follow_put_of_link hleaf entry hfollow (.inl harrival.symm)
      (List.prefix_refl leaf)
    exact ⟨habove, .done hlater hlink⟩
  | @linked _ _ directory _ behind link _ hfollow _ ih =>
    obtain ⟨habove, hlater⟩ := ih harrival
    have hdirectory : leaf <+: directory := by
      unfold origin at habove
      split at habove
      · rw [List.prefix_nil.mp habove] at hleaf
        cases hleaf
      · exact habove
    obtain ⟨hstart, hfollowed⟩ := follow_put_of_link hleaf entry hfollow (.inr ⟨_, _, rfl⟩)
      hdirectory
    exact ⟨hstart, .linked hfollowed hlater⟩

/-! ## Writing and reading -/

/-- A path can be opened for writing at a place, be there a file or nothing. -/
structure Opens (tree : FileTree) (path : String) (place : Place) : Prop where
  isResolvable : IsResolvable path
  noSlash : path.toList.getLast? ≠ some '/'
  not_directory : tree.entry? place ≠ some .directory
  arrives : ∃ arrival,
    Arrives tree true linkLimit (origin tree.workingDirectory path) (bareSteps path) arrival ∧
      (arrival = .at place ∨
        ∃ directory name, arrival = .missing directory name ∧ place = directory ++ [name])

theorem target_eq_ok_iff : tree.target path = .ok place ↔ Opens tree path place := by
  have hfree : ∀ other, (if path.toList.getLast? == some '/' || tree.entry? other = some .directory
      then (.error .isDirectory : Except FileFault Place) else .ok other) = .ok place ↔
      other = place ∧ path.toList.getLast? ≠ some '/' ∧ tree.entry? place ≠ some .directory := by
    intro other
    split
    · rename_i htaken
      rw [Bool.or_eq_true, beq_iff_eq, decide_eq_true_eq] at htaken
      constructor
      · rintro ⟨⟩
      · rintro ⟨rfl, hslash, hdirectory⟩
        exact absurd htaken (not_or.mpr ⟨hslash, hdirectory⟩)
    · rename_i hfree
      rw [Bool.or_eq_true, beq_iff_eq, decide_eq_true_eq, not_or] at hfree
      rw [Except.ok.injEq]
      constructor
      · rintro rfl
        exact ⟨rfl, hfree⟩
      · exact And.left
  rw [target]
  constructor
  · intro h
    cases hresolve : tree.resolveParts true path (bareSteps path) with
    | «at» other =>
      rw [hresolve] at h
      obtain ⟨rfl, hslash, hdirectory⟩ := (hfree other).mp h
      obtain ⟨hresolvable, harrives⟩ := (resolveParts_eq_iff (by simp)).mp hresolve
      exact ⟨hresolvable, hslash, hdirectory, _, harrives, .inl rfl⟩
    | missing directory name =>
      rw [hresolve] at h
      obtain ⟨rfl, hslash, hdirectory⟩ := (hfree (directory ++ [name])).mp h
      obtain ⟨hresolvable, harrives⟩ := (resolveParts_eq_iff (by simp)).mp hresolve
      exact ⟨hresolvable, hslash, hdirectory, _, harrives, .inr ⟨_, _, rfl, rfl⟩⟩
    | link directory target behind =>
      rw [hresolve] at h
      cases h
    | fault fault =>
      rw [hresolve] at h
      cases h
  · rintro ⟨hresolvable, hslash, hdirectory, arrival, harrives, harrival⟩
    rcases harrival with rfl | ⟨directory, name, rfl, rfl⟩
    · rw [(resolveParts_eq_iff (by simp)).mpr ⟨hresolvable, harrives⟩]
      exact (hfree place).mpr ⟨rfl, hslash, hdirectory⟩
    · rw [(resolveParts_eq_iff (by simp)).mpr ⟨hresolvable, harrives⟩]
      exact (hfree (directory ++ [name])).mpr ⟨rfl, hslash, hdirectory⟩

theorem Opens.ne_nil (h : Opens tree path place) : place ≠ [] := by
  rintro rfl
  exact h.not_directory rfl

/-- Once a file was written, its path leads to it. -/
theorem Opens.arrives_put (h : Opens tree path place) (bytes : ByteArray) :
    Arrives (tree.put place (.file bytes)) true linkLimit (origin tree.workingDirectory path)
      (bareSteps path) (.at place) := by
  obtain ⟨arrival, harrives, harrival⟩ := h.arrives
  by_cases hlink : ∃ target, tree.entry? place = some (.link target)
  · obtain ⟨target, htarget⟩ := hlink
    rcases harrival with rfl | ⟨directory, name, rfl, rfl⟩
    · exact (harrives.put_of_link htarget _).2
    · cases harrives.entry?_of_missing.symm.trans htarget
  · have hext : Extends tree (tree.put place (.file bytes)) :=
      .put h.not_directory (fun target htarget => hlink ⟨target, htarget⟩) _
    exact harrives.of_file hext (entry?_put_self tree h.ne_nil _) harrival

theorem Opens.put (h : Opens tree path place) (bytes : ByteArray) :
    Opens (tree.put place (.file bytes)) path place where
  isResolvable := h.isResolvable
  noSlash := h.noSlash
  not_directory := by
    rw [entry?_put_self tree h.ne_nil]
    simp
  arrives := ⟨_, h.arrives_put bytes, .inl rfl⟩

theorem writeText_eq_ok_iff {text : String} :
    tree.writeText path text = .ok later ↔
      ∃ place, Opens tree path place ∧ later = tree.put place (.file (Text.Utf8.encode text)) := by
  simp only [← target_eq_ok_iff, writeText, writeBytes]
  cases tree.target path with
  | ok place => simp [eq_comm]
  | error fault => simp

/-- Once a file was written, its path is resolved to it. -/
theorem Opens.resolve_put (h : Opens tree path place) (bytes : ByteArray) :
    (tree.put place (.file bytes)).resolve path = .at place := by
  have hsteps : steps path = bareSteps path := by
    simp only [steps, beq_iff_eq, if_neg h.noSlash]
    rfl
  rw [resolve, hsteps]
  exact (resolveParts_eq_iff (by simp)).mpr ⟨h.isResolvable, h.arrives_put _⟩

/-- What was written to a path is read from it. -/
theorem Opens.readText_put (h : Opens tree path place) (text : String) :
    (tree.put place (.file (Text.Utf8.encode text))).readText path = .ok text := by
  have hentry := entry?_put_self tree h.ne_nil (.file (Text.Utf8.encode text))
  rw [readText, readBytes, stat, h.resolve_put]
  dsimp only
  rw [hentry]
  dsimp only
  rw [Text.Utf8.decode?_encode]

/-- A path that is resolved to a file stays so, whatever the file comes to hold. -/
theorem resolve_of_file (hext : Extends tree later) (h : tree.resolve path = .at place)
    {bytes : ByteArray} (hfile : later.entry? place = some (.file bytes)) :
    later.resolve path = .at place := by
  obtain ⟨hresolvable, harrives⟩ := (resolveParts_eq_iff (by simp)).mp h
  refine (resolveParts_eq_iff (by simp)).mpr ⟨hresolvable, ?_⟩
  rw [hext.workingDirectory_eq]
  exact harrives.of_file hext hfile (.inl rfl)

theorem readBytes_of_resolve (h : tree.resolve path = .at place) {bytes : ByteArray}
    (hfile : tree.entry? place = some (.file bytes)) : tree.readBytes path = .ok bytes := by
  simp [readBytes, stat, h, hfile]

/-- The directory above a file that can be opened is there. -/
theorem Opens.isDirectory_parent (h : Opens tree path place) {above : String}
    (hparent : parent? path = some above) : above = "" ∨ tree.isDirectory above = true := by
  obtain ⟨arrival, harrives, harrival⟩ := h.arrives
  by_cases hne : above = ""
  · exact .inl hne
  · have hfault : ∀ fault, arrival ≠ .fault fault := by
      rintro fault rfl
      simp at harrival
    exact .inr (isDirectory_iff.mpr
      (exists_leadsTo_parent h.isResolvable harrives hfault hparent hne))

end PageManifest.FileTree
