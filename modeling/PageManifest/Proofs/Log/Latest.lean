import PageManifest.Proofs.FileTree.Outside
import PageManifest.Proofs.FileTree.Writing
import PageManifest.Proofs.Log.Writers

/-!
# Where the link to a log leads

The link `latest.log` holds the path by which the log was opened. A link is followed from the
directory it is in, so it leads to the log if the path of the directory leads from the directory
itself to that directory again (`IsFoundAgain`, `latest_leads_to_log`). An absolute path does, with
few links on it; one like `a/b` does not, and then nothing can be read through the link
(`latest_misses_relative`).
-/

namespace PageManifest.LogFile

open PageManifest.FileTree PageManifest.Path

variable {tree middle prepared opened later : FileTree} {base : Place}
  {directory stamp target : String} {file : LogFile} {writes : List (LogFile × String)}

/-! ## Making the link -/

theorem base_ne_latestPlace (base : Place) : base ≠ latestPlace base := by simp [latestPlace]

/-- The path of the link can be resolved if that of the log can, which is longer. -/
theorem isResolvable_latest (h : IsResolvable (join directory (nameAt stamp))) :
    IsResolvable (latestIn directory) := by
  have habsolute : isAbsolute (nameAt stamp) = false := by
    obtain ⟨rest, hrest⟩ := exists_toList_nameAt stamp
    rw [isAbsolute, hrest]
    rfl
  have hlonger : "latest.log".utf8ByteSize ≤ (nameAt stamp).utf8ByteSize := by
    have hsize : (nameAt stamp).utf8ByteSize =
        ("manifest-client_" ++ stamp).utf8ByteSize + ".log".utf8ByteSize :=
      String.utf8ByteSize_append
    have hfront : ("manifest-client_" ++ stamp).utf8ByteSize =
        "manifest-client_".utf8ByteSize + stamp.utf8ByteSize := String.utf8ByteSize_append
    have hname : "manifest-client_".utf8ByteSize = 16 := rfl
    have hlatest : "latest.log".utf8ByteSize = 10 := rfl
    omega
  exact isResolvable_join_of_le habsolute isFileName_latest (by decide) hlonger h

/-- Where no directory is in its place, the link is made, unless removing the old one has cut the
way to the directory. -/
theorem pointTo_reached (target : String) (hbase : IsBase prepared directory base)
    (hext : Extends tree prepared) (hresolvable : IsResolvable (latestIn directory))
    (hdirectory : tree.entry? base = some .directory)
    (hlatest : tree.entry? (latestPlace base) ≠ some .directory) :
    let later := pointTo tree target (latestIn directory)
    IsBase later directory base ∧ later.entry? (latestPlace base) = some (.link target) ∨
      Extends later prepared ∧ ¬ IsBase later directory base := by
  have hne := latestPlace_ne_nil base
  obtain ⟨hchanged, hfewer⟩ := changedAt_removed hbase hext
  have hremove : tree.removeFile (latestIn directory) = .ok (tree.drop (latestPlace base)) ↔ _ :=
    removeFile_join_eq_ok_iff isFileName_latest
  unfold pointTo
  generalize hremoved : (tree.removeFile (latestIn directory)).toOption.getD tree = removed
    at hchanged hfewer
  dsimp only
  have hthere : removed.entry? base = some .directory := by
    rw [hchanged.entry?_eq base (base_ne_latestPlace base), hdirectory]
  by_cases hreached : IsBase removed directory base
  · refine .inl ?_
    have hbefore := hreached.of_extends hfewer
    have hnone : removed.entry? (latestPlace base) = none := by
      by_cases hnone : tree.entry? (latestPlace base) = none
      · rcases removed_cases hbase hext with hsame | ⟨-, hdropped⟩
        · rw [← hremoved, hsame, hnone]
        · rw [← hremoved, hdropped, entry?_drop tree hne, if_pos rfl]
      · have hok := hremove.mpr ⟨hresolvable, base, hbefore, hdirectory, hnone, hlatest, rfl⟩
        rw [← hremoved, hok]
        exact (entry?_drop tree hne _).trans (if_pos rfl)
    have hok : removed.createLink target (latestIn directory) =
        .ok (removed.put (latestPlace base) (.link target)) :=
      (createLink_join_eq_ok_iff isFileName_latest).mpr
        ⟨hresolvable, base, hreached, hthere, hnone, rfl⟩
    rw [hok]
    have hmore : Extends removed (removed.put (latestPlace base) (.link target)) :=
      .put (by simp [hnone]) (by simp [hnone]) _
    exact ⟨hreached.of_extends hmore, entry?_put_self removed hne _⟩
  · refine .inr ?_
    cases hcreate : removed.createLink target (latestIn directory) with
    | error fault => exact ⟨hfewer.trans hext, hreached⟩
    | ok later =>
      obtain ⟨-, other, hother, -⟩ := (createLink_join_eq_ok_iff isFileName_latest).mp hcreate
      obtain rfl := base_eq_of_extends hbase (hfewer.trans hext) hother
      exact absurd hother hreached

/-! ## Following the link -/

/-- Followed from a directory, the path of that directory leads to it again. The link beside a log
is followed on top of the links on both ways. -/
def IsFoundAgain (opened : FileTree) (directory : String) (base : Place) : Prop :=
  ∃ n m, n + m < linkLimit ∧
    Arrives opened true n (origin opened.workingDirectory directory) (bareSteps directory)
      (.at base) ∧
    Arrives opened true m (origin base directory) (bareSteps directory) (.at base)

/-- A name at which no link is leads to this name. -/
theorem place_of_arrives_name {name : String} {n : Nat} {place : Place} (hname : IsName name)
    (hdirectory : tree.entry? base = some .directory)
    (hlink : ∀ target, tree.entry? (base ++ [name]) ≠ some (.link target))
    (h : Arrives tree true n base [name] (.at place)) : place = base ++ [name] := by
  cases hentry : tree.entry? (base ++ [name]) with
  | none =>
    have hmissing : Arrives tree true n base [name] (.missing base name) :=
      .done ((follow_missing hdirectory hname hentry).trans (if_pos rfl)) (by simp)
    cases h.unique hmissing
  | some entry =>
    have hnext : Arrives tree true n base [name] (.at (base ++ [name])) :=
      .done (follow_enter hdirectory hname hentry fun target => by
        rintro rfl
        exact hlink target hentry) (by simp)
    cases h.unique hnext
    rfl

/-- A link that is the last part is followed from its directory. -/
theorem arrives_link_iff {name : String} {n : Nat} {arrival : Arrival} (hname : IsName name)
    (hdirectory : tree.entry? base = some .directory)
    (hlink : tree.entry? (base ++ [name]) = some (.link target)) :
    Arrives tree true n base [name] arrival ↔
      ∃ m, n = m + 1 ∧ Arrives tree true m (origin base target) (steps target) arrival := by
  have hfollow : tree.follow true base [name] = .link base target [] := by
    rw [follow_link hdirectory hname hlink, if_neg (by simp)]
  constructor
  · intro h
    cases h with
    | done hother hno =>
      subst hother
      exact absurd hfollow (hno _ _ _)
    | @linked m _ _ _ _ _ _ hother hrest =>
      cases hfollow.symm.trans hother
      rw [List.append_nil] at hrest
      exact ⟨m, rfl, hrest⟩
  · rintro ⟨m, rfl, hrest⟩
    refine .linked hfollow ?_
    rw [List.append_nil]
    exact hrest

namespace Creation

theorem isResolvable (h : Creation tree directory stamp file opened) :
    IsResolvable (join directory (nameAt stamp)) := h.path_eq ▸ h.opens.isResolvable

/-- The directory is there once a log is in it. -/
theorem entry?_base (h : Creation tree directory stamp file opened) (hstamp : '/' ∉ stamp.toList)
    (hbase : IsBase (tree.ensureDirectory directory).2 directory base)
    (hlink : ∀ target, tree.entry? (base ++ [nameAt stamp]) ≠ some (.link target)) :
    FileTree.entry? (tree.ensureDirectory directory).2 base = some .directory := by
  have hopens := h.path_eq ▸ h.opens
  refine (target_join hbase (h.isFileName hstamp) ?_ (target_eq_ok_iff.mpr hopens)).2.1
  exact fun target hentry => hlink target ((h.created.link_iff _ _).mp hentry)

/-- What is neither the log nor the link is as it was once the directory was there. -/
theorem entry?_eq (h : Creation tree directory stamp file opened)
    (hbase : IsBase (tree.ensureDirectory directory).2 directory base) {place : Place}
    (hplace : place ≠ file.place) (hlatest : place ≠ latestPlace base) :
    opened.entry? place = FileTree.entry? (tree.ensureDirectory directory).2 place := by
  rw [(h.changedAt_latest hbase).entry?_eq _ hlatest, appendAt,
    entry?_put_of_ne _ h.place_ne_nil _ hplace.symm]

variable (h : Creation tree directory stamp file opened) (hstamp : '/' ∉ stamp.toList)
  (hbase : IsBase (tree.ensureDirectory directory).2 directory base)
  (hnew : ∀ place target, tree.entry? (place ++ [nameAt stamp]) ≠ some (.link target))

include h hstamp hbase hnew

theorem opened_base : opened.entry? base = some .directory := by
  have hdirectory := h.entry?_base hstamp hbase (hnew base)
  rw [h.entry?_eq hbase ?_ (base_ne_latestPlace base), hdirectory]
  rintro rfl
  exact h.opens.not_directory hdirectory

/-- There is still no link of the log's name. -/
theorem opened_ne_link (place : Place) (target : String) :
    opened.entry? (place ++ [nameAt stamp]) ≠ some (.link target) := by
  intro hentry
  by_cases hplace : place ++ [nameAt stamp] = file.place
  · have hne := h.place_ne_latest hstamp hbase (hnew base)
    rw [hplace, h.entry?_place hbase hne] at hentry
    cases hentry
  · have hlatest : place ++ [nameAt stamp] ≠ latestPlace base := by
      intro heq
      have hlast := congrArg List.getLast? heq
      simp only [latestPlace, List.getLast?_concat, Option.some.injEq] at hlast
      exact nameAt_ne (by decide) stamp hlast
    rw [h.entry?_eq hbase hplace hlatest] at hentry
    exact hnew place target ((h.created.link_iff _ _).mp hentry)

/-- With no directory in its place, the link is made, or there is no way to it. -/
theorem latest_cases
    (hlatest : FileTree.entry? (tree.ensureDirectory directory).2 (latestPlace base) ≠
      some .directory) :
    IsBase opened directory base ∧
        opened.entry? (latestPlace base) = some (.link (join directory (nameAt stamp))) ∨
      ∀ other, ¬ IsBase opened directory other := by
  have hdirectory := h.entry?_base hstamp hbase (hnew base)
  have hplace : file.place ≠ base := by
    rintro rfl
    exact h.opens.not_directory hdirectory
  have hne := h.place_ne_latest hstamp hbase (hnew base)
  have hresolvable := isResolvable_latest h.isResolvable
  have hthere : FileTree.entry? ((tree.ensureDirectory directory).2.appendAt file.place .empty)
      base = some .directory := by
    rw [appendAt, entry?_put_of_ne _ h.place_ne_nil _ hplace, hdirectory]
  have hfree : FileTree.entry? ((tree.ensureDirectory directory).2.appendAt file.place .empty)
      (latestPlace base) ≠ some .directory := by
    rwa [appendAt, entry?_put_of_ne _ h.place_ne_nil _ hne]
  have hcases := pointTo_reached file.path hbase h.extends_appendAt hresolvable hthere hfree
  rw [← h.opened_eq] at hcases
  rcases hcases with ⟨hreached, hlink⟩ | ⟨hext, hcut⟩
  · exact .inl ⟨hreached, h.path_eq ▸ hlink⟩
  · refine .inr fun other hother => hcut ?_
    exact base_eq_of_extends hbase hext hother ▸ hother

/-- The link leads to the log just if the directory is found again from itself. -/
theorem resolve_latest_iff
    (hlatest : FileTree.entry? (tree.ensureDirectory directory).2 (latestPlace base) ≠
      some .directory) :
    opened.resolve (latestIn directory) = .at file.place ↔ IsFoundAgain opened directory base := by
  have hname := h.isFileName hstamp
  have hdirectory := h.opened_base hstamp hbase hnew
  have hnoLink := h.opened_ne_link hstamp hbase hnew
  have hplace := h.place_eq hstamp hbase (hnew base)
  have hresolvable := isResolvable_latest h.isResolvable
  have hfront := isResolvable_front isFileName_latest hresolvable
  have hcases := h.latest_cases hstamp hbase hnew hlatest
  rw [resolve, resolveParts_eq_iff (by simp), latestIn, isFileName_latest.steps_join,
    isFileName_latest.origin_join, hplace]
  constructor
  · rintro ⟨-, harrives⟩
    obtain ⟨n, m, other, hsum, hway, hother, hend⟩ := harrives.split (by simp) (by simp)
    have hreached := isBase_of_arrives hfront (by omega) hway hother
    rcases hcases with ⟨hisBase, hlink⟩ | hnone
    · obtain rfl := hisBase.eq hreached
      -- The link was followed, so the rest of the way is that of the log's path.
      obtain ⟨left, rfl, hrest⟩ :=
        (arrives_link_iff isFileName_latest.isName hdirectory hlink).mp hend
      rw [hname.steps_join, hname.origin_join] at hrest
      obtain ⟨k, l, again, hshare, hback, hagain, hlast⟩ := hrest.split (by simp) (by simp)
      have hsame := place_of_arrives_name hname.isName hagain (hnoLink again) hlast
      obtain ⟨rfl, -⟩ := List.append_inj' hsame rfl
      exact ⟨n, k, by omega, hway, hback⟩
    · exact absurd hreached (hnone other)
  · rintro ⟨n, m, hsum, hway, hback⟩
    have hreached := isBase_of_arrives hfront (by omega) hway hdirectory
    rcases hcases with ⟨-, hlink⟩ | hnone
    · refine ⟨hresolvable, ?_⟩
      have hfile := h.entry?_place hbase (h.place_ne_latest hstamp hbase (hnew base))
      rw [hplace] at hfile
      have hlast : Arrives opened true 0 base [nameAt stamp] (.at (base ++ [nameAt stamp])) :=
        .done (follow_enter hdirectory hname.isName hfile (by simp)) (by simp)
      have hrest := hback.join (by simp) hlast
      rw [← hname.steps_join, ← hname.origin_join] at hrest
      have hend := (arrives_link_iff isFileName_latest.isName hdirectory hlink).mpr ⟨_, rfl, hrest⟩
      exact (hway.join (by simp) hend).mono (by omega)
    · exact absurd hreached (hnone base)

/-- An absolute path finds its directory again if half of the links suffice for it and it does not
lead through the link itself. -/
theorem isFoundAgain_of_way {n : Nat} (habsolute : isAbsolute directory = true)
    (hn : n + n < linkLimit)
    (harrives : Arrives (tree.ensureDirectory directory).2 true n [] (bareSteps directory)
      (.at base))
    {stop : Option Place}
    (hway : Way (tree.ensureDirectory directory).2 (latestPlace base) n [] (bareSteps directory)
      stop) : IsFoundAgain opened directory base := by
  have hdirectory := h.entry?_base hstamp hbase (hnew base)
  have hchanged := h.changedAt_latest hbase
  have hplain : ∀ target, FileTree.entry? (tree.ensureDirectory directory).2 file.place ≠
      some (.link target) := by
    intro target hentry
    rw [h.place_eq hstamp hbase (hnew base)] at hentry
    exact hnew base target ((h.created.link_iff _ _).mp hentry)
  have hagree : AgreeOutside (latestPlace base) (tree.ensureDirectory directory).2
      ((tree.ensureDirectory directory).2.appendAt file.place .empty) opened := by
    refine ⟨rfl, hchanged.workingDirectory_eq, fun place hout => ?_, fun place target _ => ?_⟩
    · refine hchanged.entry?_eq place ?_
      rintro rfl
      exact hout List.prefix_rfl
    · rw [appendAt, entry?_put _ h.place_ne_nil]
      split
      · rename_i heq
        subst heq
        simp [hplain]
      · rfl
  have hmore : Extends (tree.ensureDirectory directory).2
      ((tree.ensureDirectory directory).2.appendAt file.place .empty) :=
    .put h.opens.not_directory hplain _
  have hopened : Arrives opened true n [] (bareSteps directory) (.at base) := by
    refine arrives_of_arrive_eq ?_ (by simp)
    rw [(hway.arrive_eq hagree true).1]
    exact (harrives.of_extends hmore hdirectory).arrive_eq
  have horigin : ∀ place, origin place directory = [] := fun place => if_pos habsolute
  refine ⟨n, n, hn, ?_, ?_⟩
  · rw [horigin]
    exact hopened
  · rw [horigin]
    exact hopened

end Creation

/-! ## After any writes -/

/-- If a log was created and there was no directory at its link, the link leads to the log just if
the path of its directory leads to that directory from there, too, whatever is written meanwhile
and whatever was at the link before. All that was written is then read through the link. An
absolute path has this property, if there are at most 19 links on it, and the link itself is none
of them. -/
theorem latest_leads_to_log (hcreate : create tree directory stamp = (.ok file, opened))
    (hstamp : '/' ∉ stamp.toList)
    (hnew : ∀ place target, tree.entry? (place ++ [nameAt stamp]) ≠ some (.link target))
    (hwriters : ∀ entry ∈ writes, IsWriterOf file entry.1) :
    ∃ base, IsBase (tree.ensureDirectory directory).2 directory base ∧
      file.place = base ++ [nameAt stamp] ∧
      (FileTree.entry? (tree.ensureDirectory directory).2 (latestPlace base) ≠ some .directory →
        ((writeEach opened writes).resolve (latestIn directory) = .at file.place ↔
          IsFoundAgain opened directory base) ∧
        (IsFoundAgain opened directory base →
          (writeEach opened writes).readBytes (latestIn directory) =
            .ok (tree.bytesAt file.place ++
              Text.Utf8.encode (String.join (writes.map Prod.snd)))) ∧
        (isAbsolute directory = true →
          Arrives (tree.ensureDirectory directory).2 true 19 [] (bareSteps directory) (.at base) →
          (∃ stop, Way (tree.ensureDirectory directory).2 (latestPlace base) 19 []
            (bareSteps directory) stop) → IsFoundAgain opened directory base)) := by
  have h := create_eq_ok_iff.mp hcreate
  obtain ⟨base, hbase⟩ := h.exists_isBase
  refine ⟨base, hbase, h.place_eq hstamp hbase (hnew base), fun hlatest => ?_⟩
  have hfile := h.entry?_place hbase (h.place_ne_latest hstamp hbase (hnew base))
  have hwritten := writeAll_of_file h.place_ne_nil hfile (writes.map Prod.snd)
  have hchanged := changedAt_writeAll h.place_ne_nil opened (writes.map Prod.snd)
  obtain ⟨hmore, hfewer⟩ := hchanged.extends_of_files hfile hwritten
  rw [writeEach_eq_writeAll hwriters]
  have hreaches : (file.writeAll opened (writes.map Prod.snd)).resolve (latestIn directory) =
      .at file.place ↔ IsFoundAgain opened directory base := by
    rw [← h.resolve_latest_iff hstamp hbase hnew hlatest]
    exact ⟨fun hlater => resolve_of_file hfewer hlater hfile,
      fun hopened => resolve_of_file hmore hopened hwritten⟩
  refine ⟨hreaches, fun hagain => readBytes_of_resolve (hreaches.mpr hagain) hwritten, ?_⟩
  rintro habsolute harrives ⟨stop, hway⟩
  exact h.isFoundAgain_of_way hstamp hbase hnew habsolute (by decide) harrives hway

/-! ## An absolute and a relative path -/

theorem earlierLogs_ne_link (place : Place) (target : String) :
    earlierLogs.entry? (place ++ [nameAt "20240131_235959"]) ≠ some (.link target) := by
  intro hentry
  have hnonempty : (place ++ [nameAt "20240131_235959"]).isEmpty = false := by simp
  unfold entry? at hentry
  rw [hnonempty] at hentry
  have hmem := OrderedMap.mem_of_get?_eq_some hentry
  have hlast : (place ++ [nameAt "20240131_235959"]).getLast? = some (nameAt "20240131_235959") :=
    List.getLast?_concat
  simp only [earlierLogs, List.mem_cons, Prod.mk.injEq, reduceCtorEq, and_false, false_or,
    List.not_mem_nil, or_false] at hmem
  rw [hmem.1] at hlast
  exact absurd hlast (by decide)

theorem way_logs : Way earlierLogs (latestPlace ["logs"]) 19 [] (bareSteps "/logs")
    (some ["logs"]) := by
  have hsteps : bareSteps "/logs" = ["logs"] := by decide
  have hlogs : stepTo [] "logs" = ["logs"] := by decide
  have hentry : earlierLogs.entry? ["logs"] = some .directory := rfl
  rw [hsteps]
  refine .step ⟨by decide, by simp [entry?_nil]⟩ ?_
  rw [hlogs]
  exact .stop ⟨by decide, by simp [hentry]⟩

/-- Where the link led to a log that was removed, it leads to the new log, and all of it can be
read through the link. -/
theorem latest_leads_to_reopened_log :
    create earlierLogs "/logs" "20240131_235959" = (.ok earlierLog, reopened.2) ∧
      '/' ∉ "20240131_235959".toList ∧
      (∀ place target,
        earlierLogs.entry? (place ++ [nameAt "20240131_235959"]) ≠ some (.link target)) ∧
      (∀ entry ∈ threeWrites, IsWriterOf earlierLog entry.1) ∧
      (writeEach reopened.2 threeWrites).resolve (latestIn "/logs") = .at earlierLog.place ∧
      (writeEach reopened.2 threeWrites).readBytes (latestIn "/logs") =
        .ok (Text.Utf8.encode "first\nabc\n") := by
  have hcreate : create earlierLogs "/logs" "20240131_235959" = (.ok earlierLog, reopened.2) := rfl
  have hstamp : '/' ∉ "20240131_235959".toList := by decide
  refine ⟨hcreate, hstamp, earlierLogs_ne_link, isWriterOf_threeWrites, ?_⟩
  obtain ⟨base, -, hplace, hlatest⟩ :=
    latest_leads_to_log hcreate hstamp earlierLogs_ne_link isWriterOf_threeWrites
  have hensured : (earlierLogs.ensureDirectory "/logs").2 = earlierLogs := rfl
  have hnamed : earlierLog.place = ["logs"] ++ [nameAt "20240131_235959"] := rfl
  have hbase := (List.append_inj' (hnamed.symm.trans hplace) rfl).1
  subst hbase
  rw [hensured] at hlatest
  obtain ⟨hreaches, hread, habsolute⟩ := hlatest (by decide)
  have harrives : Arrives earlierLogs true 19 [] (bareSteps "/logs") (.at ["logs"]) :=
    arrives_of_arrive_eq rfl (by simp)
  have hagain := habsolute rfl harrives ⟨_, way_logs⟩
  refine ⟨hreaches.mpr hagain, ?_⟩
  rw [hread hagain]
  rfl

/-- A working directory with nothing in it. -/
def emptyWork : FileTree where
  entries := [(["work"], .directory)]
  workingDirectory := ["work"]

/-- The log that is opened below a relative path. -/
def relativeLog : LogFile where
  path := "a/b/manifest-client_20240131_235959.log"
  place := ["work", "a", "b", "manifest-client_20240131_235959.log"]

/-- The files once something was written to that log. -/
def relativeLater : FileTree :=
  relativeLog.writeAll (create emptyWork "a/b" "20240131_235959").2 ["abc"]

/-- Below a relative path the link leads nowhere: it is followed from `a/b`, where there is no
`a/b` again. -/
theorem latest_misses_relative :
    (create emptyWork "a/b" "20240131_235959").1 = .ok relativeLog ∧
      emptyWork.entry? (latestPlace ["work", "a", "b"]) = none ∧
      relativeLater.readBytes relativeLog.path = .ok (Text.Utf8.encode "abc") ∧
      relativeLater.resolve (latestIn "a/b") ≠ .at relativeLog.place ∧
      relativeLater.readBytes (latestIn "a/b") = .error .notFound := by
  have hlatest : relativeLater.resolve (latestIn "a/b") = .fault .notFound := rfl
  have hlog : relativeLater.resolve relativeLog.path = .at relativeLog.place := by rfl
  have hfile : relativeLater.entry? relativeLog.place = some (.file (Text.Utf8.encode "abc")) := rfl
  refine ⟨rfl, rfl, readBytes_of_resolve hlog hfile, ?_, rfl⟩
  rw [hlatest]
  simp

end PageManifest.LogFile
