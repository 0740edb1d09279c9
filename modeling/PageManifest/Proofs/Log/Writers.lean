import PageManifest.Proofs.FileTree.Joined
import PageManifest.Proofs.FileTree.Places
import PageManifest.Proofs.Log.File

/-!
# Writing to a log

All writers to a log share its open file, so whichever of them a text is written to, it goes to
the end of that file (`writeEach_eq_writeAll`, `writeAll_of_file`). Creating the log keeps what a
log of the same second holds, and apart from directories and from the link beside the log it
changes nothing else (`Creation`). So no text is lost and no other file changes
(`writes_appended`).

There is one exception. If there is a link to `latest.log` with the name of the log, then the file
is opened as `latest.log` (`OpenedAsLatest`) and removed to make room for the link, and with it all
texts are lost (`writes_lost_of_link_to_latest`).
-/

namespace PageManifest.LogFile

open PageManifest.FileTree PageManifest.Path

variable {tree middle prepared opened later : FileTree} {place base : Place}
  {directory stamp target : String} {file writer : LogFile} {texts : List String}
  {writes : List (LogFile × String)}

/-! ## The link to the log -/

/-- The place of the link in a directory at some place. -/
def latestPlace (base : Place) : Place := base ++ ["latest.log"]

theorem latestPlace_ne_nil (base : Place) : latestPlace base ≠ [] := by simp [latestPlace]

/-- In a tree that has no further directories and links, a directory has no other place. -/
theorem base_eq_of_extends (hbase : IsBase prepared directory base) (hext : Extends tree prepared)
    {other : Place} (h : IsBase tree directory other) : other = base :=
  (h.of_extends hext).eq hbase

/-- Removing the old link removes it, or changes nothing. -/
theorem removed_cases (hbase : IsBase prepared directory base) (hext : Extends tree prepared) :
    let removed := (tree.removeFile (latestIn directory)).toOption.getD tree
    removed = tree ∨
      tree.entry? (latestPlace base) ≠ some .directory ∧
        removed = tree.drop (latestPlace base) := by
  intro removed
  cases hremove : tree.removeFile (latestIn directory) with
  | error fault => exact .inl (by simp [removed, hremove, Except.toOption])
  | ok later =>
    obtain ⟨-, other, hother, -, -, hdirectory, rfl⟩ :=
      (removeFile_join_eq_ok_iff isFileName_latest).mp hremove
    obtain rfl := base_eq_of_extends hbase hext hother
    exact .inr ⟨hdirectory, by simp [removed, hremove, Except.toOption, latestPlace]⟩

/-- The new link is made where nothing is, or nothing changes. -/
theorem linked_cases (target : String) (hbase : IsBase prepared directory base)
    (hext : Extends tree prepared) :
    let linked := (tree.createLink target (latestIn directory)).toOption.getD tree
    linked = tree ∨
      tree.entry? (latestPlace base) = none ∧
        linked = tree.put (latestPlace base) (.link target) := by
  intro linked
  cases hcreate : tree.createLink target (latestIn directory) with
  | error fault => exact .inl (by simp [linked, hcreate, Except.toOption])
  | ok later =>
    obtain ⟨-, other, hother, -, hnone, rfl⟩ :=
      (createLink_join_eq_ok_iff isFileName_latest).mp hcreate
    obtain rfl := base_eq_of_extends hbase hext hother
    exact .inr ⟨hnone, by simp [linked, hcreate, Except.toOption, latestPlace]⟩

/-- The tree once the old link is removed, be it that there is none or that it cannot be. -/
theorem changedAt_removed (hbase : IsBase prepared directory base) (hext : Extends tree prepared) :
    let removed := (tree.removeFile (latestIn directory)).toOption.getD tree
    ChangedAt (latestPlace base) tree removed ∧ Extends removed tree := by
  have hne := latestPlace_ne_nil base
  intro removed
  rcases removed_cases hbase hext with hsame | ⟨-, hdropped⟩
  · rw [show removed = tree from hsame]
    exact ⟨.refl _ _, .refl _⟩
  · rw [show removed = tree.drop (latestPlace base) from hdropped]
    exact ⟨.drop hne tree, extends_of_drop hne tree⟩

/-- Nothing but the link is touched, and a directory in its place stays. -/
theorem changedAt_pointTo (hbase : IsBase prepared directory base) (hext : Extends tree prepared) :
    ChangedAt (latestPlace base) tree (pointTo tree target (latestIn directory)) ∧
      (tree.entry? (latestPlace base) = some .directory →
        FileTree.entry? (pointTo tree target (latestIn directory)) (latestPlace base) =
          some .directory) := by
  have hremoved := removed_cases hbase hext
  have hchanged := changedAt_removed hbase hext
  unfold pointTo
  generalize (tree.removeFile (latestIn directory)).toOption.getD tree = removed
    at hremoved hchanged ⊢
  dsimp only at hremoved hchanged ⊢
  have hstays : tree.entry? (latestPlace base) = some .directory → removed = tree := by
    intro hdirectory
    rcases hremoved with hsame | ⟨hno, -⟩
    · exact hsame
    · exact absurd hdirectory hno
  rcases linked_cases target hbase (hchanged.2.trans hext) with hsame | ⟨hnone, hlinked⟩
  · rw [hsame]
    exact ⟨hchanged.1, fun hdirectory => (hstays hdirectory).symm ▸ hdirectory⟩
  · rw [hlinked]
    refine ⟨hchanged.1.trans (.put (latestPlace_ne_nil base) removed _), fun hdirectory => ?_⟩
    rw [hstays hdirectory] at hnone
    cases hnone.symm.trans hdirectory

/-! ## Creating a log -/

/-- How a log file came to be: its directory was there or was created, its path was opened, and
the link was pointed to it. -/
structure Creation (tree : FileTree) (directory stamp : String) (file : LogFile)
    (opened : FileTree) : Prop where
  ensured : (tree.ensureDirectory directory).1 = none
  path_eq : file.path = join directory (nameAt stamp)
  opens : (tree.ensureDirectory directory).2.Opens file.path file.place
  opened_eq : opened = pointTo ((tree.ensureDirectory directory).2.appendAt file.place .empty)
    file.path (latestIn directory)

theorem create_eq_ok_iff :
    create tree directory stamp = (.ok file, opened) ↔
      Creation tree directory stamp file opened := by
  constructor
  · intro h
    unfold create openForAppending at h
    generalize hensured : tree.ensureDirectory directory = outcome at h
    obtain ⟨fault?, prepared⟩ := outcome
    cases fault? with
    | some fault => cases h
    | none =>
      dsimp only at h
      cases htarget : prepared.target (join directory (nameAt stamp)) with
      | error fault =>
        rw [htarget] at h
        cases h
      | ok place =>
        rw [htarget] at h
        cases h
        have hopens := target_eq_ok_iff.mp htarget
        constructor
        · rw [hensured]
        · rfl
        · rw [hensured]
          exact hopens
        · rw [hensured]
  · rintro ⟨hensured, hpath, hopens, rfl⟩
    obtain ⟨path, place⟩ := file
    dsimp only at hpath hopens ⊢
    subst hpath
    unfold create openForAppending
    generalize tree.ensureDirectory directory = outcome at hensured hopens ⊢
    obtain ⟨fault?, prepared⟩ := outcome
    dsimp only at hensured hopens ⊢
    subst hensured
    dsimp only
    rw [target_eq_ok_iff.mpr hopens]

namespace Creation

theorem created (_ : Creation tree directory stamp file opened) :
    Created tree (tree.ensureDirectory directory).2 directory :=
  ensureDirectory_created tree directory

theorem place_ne_nil (h : Creation tree directory stamp file opened) : file.place ≠ [] :=
  h.opens.ne_nil

theorem exists_isBase (h : Creation tree directory stamp file opened) :
    ∃ base, IsBase (tree.ensureDirectory directory).2 directory base :=
  FileTree.exists_isBase ((ensureDirectory_fst_eq_none_iff tree directory).mp h.ensured)

/-- The tree with the log file in it, before the link is pointed to it. -/
theorem extends_appendAt (h : Creation tree directory stamp file opened) :
    Extends ((tree.ensureDirectory directory).2.appendAt file.place .empty)
      (tree.ensureDirectory directory).2 :=
  extends_of_put_file h.place_ne_nil _ _

theorem changedAt_latest (h : Creation tree directory stamp file opened)
    (hbase : IsBase (tree.ensureDirectory directory).2 directory base) :
    ChangedAt (latestPlace base) ((tree.ensureDirectory directory).2.appendAt file.place .empty)
      opened := by
  rw [h.opened_eq]
  exact (changedAt_pointTo hbase h.extends_appendAt).1

/-- The log starts with what a log of the same second holds. -/
theorem entry?_place (h : Creation tree directory stamp file opened)
    (hbase : IsBase (tree.ensureDirectory directory).2 directory base)
    (hplace : file.place ≠ latestPlace base) :
    opened.entry? file.place = some (.file (tree.bytesAt file.place)) := by
  have hbytes := bytesAt_congr (h.created.file_iff file.place)
  rw [(h.changedAt_latest hbase).entry?_eq _ hplace, appendAt, entry?_put_self _ h.place_ne_nil,
    ByteArray.append_empty, hbytes]

/-- Apart from the log and the link no file is touched. -/
theorem file_iff (h : Creation tree directory stamp file opened)
    (hbase : IsBase (tree.ensureDirectory directory).2 directory base) (hplace : place ≠ file.place)
    (hlatest : place ≠ latestPlace base) (bytes : ByteArray) :
    opened.entry? place = some (.file bytes) ↔ tree.entry? place = some (.file bytes) := by
  rw [(h.changedAt_latest hbase).entry?_eq _ hlatest, appendAt,
    entry?_put_of_ne _ h.place_ne_nil _ hplace.symm]
  exact h.created.file_iff place bytes

/-- A directory in place of the link stays. -/
theorem entry?_latest (h : Creation tree directory stamp file opened)
    (hbase : IsBase (tree.ensureDirectory directory).2 directory base)
    (hlatest : FileTree.entry? (tree.ensureDirectory directory).2 (latestPlace base) =
      some .directory) :
    file.place ≠ latestPlace base ∧ opened.entry? (latestPlace base) = some .directory := by
  have hne : file.place ≠ latestPlace base := by
    intro heq
    exact h.opens.not_directory (heq ▸ hlatest)
  refine ⟨hne, ?_⟩
  rw [h.opened_eq]
  refine (changedAt_pointTo hbase h.extends_appendAt).2 ?_
  rw [appendAt, entry?_put_of_ne _ h.place_ne_nil _ hne, hlatest]

end Creation

/-! ## The name of a log -/

theorem toList_nameAt (stamp : String) :
    (nameAt stamp).toList = "manifest-client_".toList ++ stamp.toList ++ ".log".toList := by
  have hfront : ("manifest-client_" ++ stamp).toList = "manifest-client_".toList ++ stamp.toList :=
    String.toList_append
  exact String.toList_append.trans (congrArg (· ++ ".log".toList) hfront)

theorem exists_toList_nameAt (stamp : String) : ∃ rest, (nameAt stamp).toList = 'm' :: rest :=
  ⟨_, toList_nameAt stamp⟩

theorem nameAt_ne {name : String} (h : name.toList.head? ≠ some 'm') (stamp : String) :
    nameAt stamp ≠ name := by
  rintro rfl
  obtain ⟨rest, hrest⟩ := exists_toList_nameAt stamp
  exact h (by rw [hrest]; rfl)

theorem notMem_slash_nameAt (h : '/' ∉ stamp.toList) : '/' ∉ (nameAt stamp).toList := by
  have hfront : '/' ∉ "manifest-client_".toList := by decide
  have hend : '/' ∉ ".log".toList := by decide
  simp only [toList_nameAt, List.mem_append, hfront, hend, h, or_self, not_false_eq_true]

/-- A path that can be opened ends with a name that is short enough. -/
theorem isName_of_opens {name : String} (hslash : '/' ∉ name.toList) (hpoint : name ≠ ".")
    (hempty : name ≠ "") (hup : name ≠ "..") (h : tree.Opens (join directory name) place) :
    IsName name := by
  have habsolute : isAbsolute name = false := by
    rw [Bool.eq_false_iff]
    intro habsolute
    obtain ⟨rest, hrest, -⟩ := exists_of_isAbsolute habsolute
    exact hslash (by simp [hrest])
  have hsteps : bareSteps (join directory name) = bareSteps directory ++ [name] := by
    have hnonempty : name.isEmpty = false := by simpa using hempty
    rw [FileTree.bareSteps_join habsolute]
    simp [bareSteps, pieces, splitSlashes_of_not_mem hslash, hnonempty]
  obtain ⟨arrival, harrives, harrival⟩ := h.arrives
  have hfault : ∀ fault, arrival ≠ .fault fault := by
    rintro fault rfl
    simp at harrival
  rw [hsteps] at harrives
  obtain ⟨n, m, middle, -, -, hmiddle, hend⟩ := harrives.split hfault (by simp)
  refine ⟨hpoint, hempty, hup, Nat.le_of_not_lt fun hlong => ?_⟩
  have hfollow : tree.follow true middle [name] = .fault .nameTooLong := by
    simp [follow, hmiddle, hpoint, hempty, hup, hlong]
  have hlast : Arrives tree true m middle [name] (.fault .nameTooLong) := .done hfollow (by simp)
  exact hfault _ (hend.unique hlast)

namespace Creation

theorem isFileName (h : Creation tree directory stamp file opened) (hstamp : '/' ∉ stamp.toList) :
    IsFileName (nameAt stamp) := by
  have hopens := h.path_eq ▸ h.opens
  have hslash := notMem_slash_nameAt hstamp
  exact ⟨isName_of_opens hslash (nameAt_ne (by decide) _) (nameAt_ne (by decide) _)
    (nameAt_ne (by decide) _) hopens, hslash⟩

/-- Unless there is a link of its name, the log is right in its directory. -/
theorem place_eq (h : Creation tree directory stamp file opened) (hstamp : '/' ∉ stamp.toList)
    (hbase : IsBase (tree.ensureDirectory directory).2 directory base)
    (hlink : ∀ target, tree.entry? (base ++ [nameAt stamp]) ≠ some (.link target)) :
    file.place = base ++ [nameAt stamp] := by
  have hopens := h.path_eq ▸ h.opens
  refine (target_join hbase (h.isFileName hstamp) ?_ (target_eq_ok_iff.mpr hopens)).1
  exact fun target hentry => hlink target ((h.created.link_iff _ _).mp hentry)

theorem place_ne_latest (h : Creation tree directory stamp file opened)
    (hstamp : '/' ∉ stamp.toList)
    (hbase : IsBase (tree.ensureDirectory directory).2 directory base)
    (hlink : ∀ target, tree.entry? (base ++ [nameAt stamp]) ≠ some (.link target)) :
    file.place ≠ latestPlace base := by
  rw [h.place_eq hstamp hbase hlink, latestPlace]
  intro heq
  exact nameAt_ne (by decide) stamp (List.singleton_inj.mp (List.append_cancel_left heq))

end Creation

/-! ## Writers -/

/-- A log file, or a writer that was made from it or from a writer to it. -/
inductive IsWriterOf (file : LogFile) : LogFile → Prop
  | self : IsWriterOf file file
  | made {writer : LogFile} (h : IsWriterOf file writer) : IsWriterOf file writer.makeWriter

theorem IsWriterOf.eq (h : IsWriterOf file writer) : writer = file := by
  induction h with
  | self => rfl
  | made _ ih => exact ih

/-- Writes texts one after the other, each of them by a writer of its own. -/
def writeEach (tree : FileTree) (writes : List (LogFile × String)) : FileTree :=
  writes.foldl (fun tree entry => entry.1.write tree entry.2) tree

/-- It makes no difference which writer a text is written by. -/
theorem writeEach_eq_writeAll (hwriters : ∀ entry ∈ writes, IsWriterOf file entry.1)
    (tree : FileTree) : writeEach tree writes = file.writeAll tree (writes.map Prod.snd) := by
  induction writes generalizing tree with
  | nil => rfl
  | cons entry writes ih =>
    have hfirst := (hwriters entry List.mem_cons_self).eq
    have hrest := ih fun other hother => hwriters other (List.mem_cons_of_mem _ hother)
    unfold writeEach writeAll at hrest ⊢
    rw [List.map_cons, List.foldl_cons, List.foldl_cons, hfirst, hrest]

theorem write_of_file {bytes : ByteArray} (h : tree.entry? file.place = some (.file bytes))
    (text : String) :
    file.write tree text = tree.put file.place (.file (bytes ++ Text.Utf8.encode text)) := by
  simp [write, h]

/-- Writing touches the log only. -/
theorem changedAt_write (hne : file.place ≠ []) (tree : FileTree) (text : String) :
    ChangedAt file.place tree (file.write tree text) := by
  unfold write
  split
  · exact .put hne tree _
  · exact .refl _ _

theorem changedAt_writeAll (hne : file.place ≠ []) (tree : FileTree) (texts : List String) :
    ChangedAt file.place tree (file.writeAll tree texts) := by
  induction texts generalizing tree with
  | nil => exact .refl _ _
  | cons text texts ih => exact (changedAt_write hne tree text).trans (ih _)

theorem encode_append (text rest : String) :
    Text.Utf8.encode (text ++ rest) = Text.Utf8.encode text ++ Text.Utf8.encode rest :=
  String.toByteArray_append

/-- All texts are at the end of the log, in the order in which they were written. -/
theorem writeAll_of_file (hne : file.place ≠ []) {bytes : ByteArray}
    (h : tree.entry? file.place = some (.file bytes)) (texts : List String) :
    FileTree.entry? (file.writeAll tree texts) file.place =
      some (.file (bytes ++ Text.Utf8.encode (String.join texts))) := by
  induction texts generalizing tree bytes with
  | nil => simpa [writeAll, Text.Utf8.encode] using h
  | cons text texts ih =>
    have hwritten := write_of_file h text
    have hfirst : FileTree.entry? (file.write tree text) file.place =
        some (.file (bytes ++ Text.Utf8.encode text)) := by
      rw [hwritten, entry?_put_self tree hne]
    have hrest := ih hfirst
    rw [ByteArray.append_assoc, ← encode_append, ← String.join_cons] at hrest
    exact hrest

/-- The log is opened at the place of the link beside it, as it is through a link of its name. -/
def OpenedAsLatest (tree : FileTree) (directory : String) (file : LogFile) : Prop :=
  ∃ base, IsBase (tree.ensureDirectory directory).2 directory base ∧ file.place = latestPlace base

/-- Unless the log is opened as `latest.log`, whatever is written to it, and by whichever of its
writers, it ends up with what it held before it was created, followed by all texts in the order of
writing. No other file changes but for the link in the directory of the log, and neither does that
if it was a directory. The log is the one with its name in that directory, unless there is a link
of this name. -/
theorem writes_appended (hcreate : create tree directory stamp = (.ok file, opened))
    (hplace : ¬ OpenedAsLatest tree directory file)
    (hwriters : ∀ entry ∈ writes, IsWriterOf file entry.1) :
    (tree.ensureDirectory directory).2.target (join directory (nameAt stamp)) = .ok file.place ∧
      FileTree.entry? (writeEach opened writes) file.place =
        some (.file (tree.bytesAt file.place ++
          Text.Utf8.encode (String.join (writes.map Prod.snd)))) ∧
      ∃ base, IsBase (tree.ensureDirectory directory).2 directory base ∧
        (∀ place, place ≠ file.place → place ≠ latestPlace base → ∀ bytes,
          (FileTree.entry? (writeEach opened writes) place = some (.file bytes) ↔
            tree.entry? place = some (.file bytes))) ∧
        (FileTree.entry? (tree.ensureDirectory directory).2 (latestPlace base) = some .directory →
          FileTree.entry? (writeEach opened writes) (latestPlace base) = some .directory) ∧
        ('/' ∉ stamp.toList →
          (∀ target, tree.entry? (base ++ [nameAt stamp]) ≠ some (.link target)) →
          file.place = base ++ [nameAt stamp]) := by
  have h := create_eq_ok_iff.mp hcreate
  obtain ⟨base, hbase⟩ := h.exists_isBase
  have hne : file.place ≠ latestPlace base := fun heq => hplace ⟨base, hbase, heq⟩
  rw [writeEach_eq_writeAll hwriters]
  have hchanged := changedAt_writeAll h.place_ne_nil opened (writes.map Prod.snd)
  refine ⟨target_eq_ok_iff.mpr (h.path_eq ▸ h.opens),
    writeAll_of_file h.place_ne_nil (h.entry?_place hbase hne) _, base, hbase, ?_, ?_, ?_⟩
  · intro place hplace hlatest bytes
    rw [hchanged.entry?_eq place hplace]
    exact h.file_iff hbase hplace hlatest bytes
  · intro hdirectory
    obtain ⟨hplace, hkept⟩ := h.entry?_latest hbase hdirectory
    rw [hchanged.entry?_eq _ hplace.symm, hkept]
  · intro hstamp hlink
    exact h.place_eq hstamp hbase hlink

/-! ## A log of the same second -/

/-- A directory with a log, and with a link to an older log that was removed. -/
def earlierLogs : FileTree where
  entries :=
    [(["logs"], .directory),
      (["logs", "manifest-client_20240131_235959.log"], .file (Text.Utf8.encode "first\n")),
      (["logs", "latest.log"], .link "/logs/manifest-client_20240131_120000.log")]
  workingDirectory := []

/-- That log, opened once more in the same second. -/
def reopened : Except FileFault LogFile × FileTree := create earlierLogs "/logs" "20240131_235959"

/-- The log that is opened. -/
def earlierLog : LogFile where
  path := "/logs/manifest-client_20240131_235959.log"
  place := ["logs", "manifest-client_20240131_235959.log"]

/-- Three texts by three writers. -/
def threeWrites : List (LogFile × String) :=
  [(earlierLog.makeWriter, "a"), (earlierLog, "b"), (earlierLog.makeWriter.makeWriter, "c\n")]

theorem isWriterOf_threeWrites : ∀ entry ∈ threeWrites, IsWriterOf earlierLog entry.1 := by
  simp only [threeWrites, List.forall_mem_cons]
  exact ⟨.made .self, .self, .made (.made .self), by simp⟩

/-- The log is not opened as `latest.log`, which is a link to somewhere else. -/
theorem not_openedAsLatest_earlierLog : ¬ OpenedAsLatest earlierLogs "/logs" earlierLog := by
  rintro ⟨base, -, heq⟩
  have hlast := congrArg List.getLast? heq
  simp [earlierLog, latestPlace] at hlast

/-- The log of the same second is kept, and goes on with what the writers add to it. -/
theorem writes_appended_to_earlier_log :
    create earlierLogs "/logs" "20240131_235959" = (.ok earlierLog, reopened.2) ∧
      ¬ OpenedAsLatest earlierLogs "/logs" earlierLog ∧
      (∀ entry ∈ threeWrites, IsWriterOf earlierLog entry.1) ∧
      FileTree.entry? (writeEach reopened.2 threeWrites) earlierLog.place =
        some (.file (Text.Utf8.encode "first\nabc\n")) := by
  have hcreate : create earlierLogs "/logs" "20240131_235959" = (.ok earlierLog, reopened.2) := rfl
  refine ⟨hcreate, not_openedAsLatest_earlierLog, isWriterOf_threeWrites, ?_⟩
  obtain ⟨-, hlog, -⟩ :=
    writes_appended hcreate not_openedAsLatest_earlierLog isWriterOf_threeWrites
  have hbytes : earlierLogs.bytesAt earlierLog.place = Text.Utf8.encode "first\n" := rfl
  rw [hlog, hbytes, ← encode_append]
  rfl

/-! ## A log that is opened as the link -/

/-- A directory in which the name of a log is a link to `latest.log`, a file. -/
def crossedLogs : FileTree where
  entries :=
    [(["logs"], .directory),
      (["logs", "manifest-client_20240131_235959.log"], .link "latest.log"),
      (["logs", "latest.log"], .file (Text.Utf8.encode "first\n"))]
  workingDirectory := []

/-- The log that is opened there. -/
def crossedLog : LogFile where
  path := "/logs/manifest-client_20240131_235959.log"
  place := ["logs", "latest.log"]

/-- The log is created, but its file makes room for the link: nothing is there of what is written
to it, nor of what was there before, and its path leads nowhere. A log that is not opened as
`latest.log` loses its texts only if something else is written through that link. -/
theorem writes_lost_of_link_to_latest :
    let opened := (create crossedLogs "/logs" "20240131_235959").2
    let later := writeEach opened [(crossedLog, "a"), (crossedLog.makeWriter, "b\n")]
    let begun := writeEach reopened.2 [(earlierLog, "a")]
    ((create crossedLogs "/logs" "20240131_235959").1 = .ok crossedLog ∧
        crossedLogs.readText "/logs/manifest-client_20240131_235959.log" = .ok "first\n" ∧
        FileTree.entry? later crossedLog.place =
          some (.link "/logs/manifest-client_20240131_235959.log") ∧
        later.readText "/logs/manifest-client_20240131_235959.log" = .error .tooManyLinks) ∧
      ((begun.writeText "/logs/latest.log" "page").toOption.map fun replaced =>
        FileTree.readText (writeEach replaced [(earlierLog.makeWriter, "b")]) earlierLog.path) =
        some (.ok "pageb") := by
  decide +kernel

end PageManifest.LogFile
