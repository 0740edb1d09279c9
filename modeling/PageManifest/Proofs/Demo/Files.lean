import PageManifest.Proofs.Client.BatchFiles
import PageManifest.Proofs.Demo.Course
import PageManifest.Proofs.FileTree.Writing

/-!
# The files of the example session

A session writes files twice: the outputs of the batch of its file (`batch_leaves`), and then the
built-in page (`saved_leaves`). Both are written below the same directory, but the page goes where
the settings say, which may be the place of an output. What a session leaves is the two together
(`run_leaves`): what is at a place is what was written there last, and all else is as before, but
for new directories that lead to the directory of both.
-/

namespace PageManifest

open PageManifest.FileTree PageManifest.Path

/-! ## Changes at some places -/

/-- A tree is changed at some places only. Elsewhere there is at most a new directory, to which a
path or one above it leads. -/
def FileTree.ChangesAt (tree later : FileTree) (path : String) (places : Place → Prop) : Prop :=
  ∀ place, ¬ places place → later.entry? place = tree.entry? place ∨
    tree.entry? place = none ∧ ∃ top, Encloses top path ∧ LeadsTo later top place

theorem FileTree.ChangesAt.trans {tree middle later : FileTree} {path : String}
    {places others : Place → Prop} (h : ChangesAt tree middle path places)
    (h' : ChangesAt middle later path others) (hext : Extends middle later) :
    ChangesAt tree later path fun place => places place ∨ others place := by
  intro place hplace
  rw [not_or] at hplace
  rcases h' place hplace.2 with hsame | ⟨hnone, top, htop, hleads⟩
  · rcases h place hplace.1 with hbefore | ⟨hnone, top, htop, hleads⟩
    · exact Or.inl (hsame.trans hbefore)
    · exact Or.inr ⟨hnone, top, htop, hleads.of_extends hext⟩
  · rcases h place hplace.1 with hbefore | ⟨hbefore, _⟩
    · exact Or.inr ⟨hbefore ▸ hnone, top, htop, hleads⟩
    · exact Or.inr ⟨hbefore, top, htop, hleads⟩

theorem FileTree.ChangesAt.mono {tree later : FileTree} {path : String}
    {places others : Place → Prop} (h : ChangesAt tree later path places)
    (hsub : ∀ place, places place → others place) : ChangesAt tree later path others :=
  fun place hplace => h place fun hmem => hplace (hsub place hmem)

namespace Client

/-! ## A batch -/

variable (client : Client) (world : World) (manifest : Manifest) (directory : String)

/-- What a lenient batch leaves, be there a directory for it or not. -/
structure Leaves (report : BatchReport) (after : FileTree) : Prop where
  extends_ : Extends world.files after
  linkFree : after.LinkFree
  written : ∀ format path, (format, path) ∈ report.written → ∃ text place,
    Delivers (client.conversion manifest format
      (client.worldAt world manifest directory format).network).1 text ∧
    after.resolve path = .at place ∧
    after.entry? place = some (.file (Text.Utf8.encode text))
  changes : ChangesAt world.files after directory fun place =>
    ∃ format path, (format, path) ∈ report.written ∧ after.resolve path = .at place

variable {client world manifest directory} {report : BatchReport} {after : FileTree}

theorem Effect.leaves {base : Place} (hfree : after.LinkFree) (hext : Extends world.files after)
    (hexact : report.IsExact) (h : Effect client manifest world directory base report after) :
    Leaves client world manifest directory report after := by
  have hresolve : ∀ format path, (format, path) ∈ report.written →
      after.resolve path = .at (outputPlace base format) := by
    intro format path hmem
    obtain ⟨rfl, text, -, -, hread⟩ := h.written format path hmem
    obtain ⟨place, hplace, hresolvable, hdirectory, hfile⟩ :=
      exists_isBase_of_readBytes hfree format.isFileName_outputFile hread
    cases hplace.eq h.isBase
    exact resolve_join hplace format.isFileName_outputFile hresolvable hdirectory hfile
  refine ⟨hext, hfree, ?_, ?_⟩
  · intro format path hmem
    obtain ⟨-, text, hdelivers, hentry, -⟩ := h.written format path hmem
    exact ⟨text, _, hdelivers, hresolve format path hmem, hentry⟩
  · intro place hplace
    by_cases houtput : ∃ format, place = outputPlace base format
    · obtain ⟨format, rfl⟩ := houtput
      have hmem : format ∈ (report.written ++ report.failed).map (·.1) := by
        refine List.one_le_count_iff.mp ?_
        exact Nat.le_of_eq (hexact.count_eq_one format).symm
      obtain ⟨⟨_, word⟩, hlisted, rfl⟩ := List.mem_map.mp hmem
      rcases List.mem_append.mp hlisted with hwritten | hfailed
      · exact absurd ⟨_, word, hwritten, hresolve _ word hwritten⟩ hplace
      · rcases h.failed _ word hfailed with hsame | ⟨hnone, _, top, htop, hleads⟩
        · exact Or.inl hsame
        · exact Or.inr ⟨hnone, top, htop, hleads⟩
    · exact h.others place fun format heq => houtput ⟨format, heq⟩

theorem batch_leaves (client : Client) (world : World) (manifest : Manifest) (directory : String)
    (hfree : world.files.LinkFree) :
    Leaves client world manifest directory (client.batch world manifest directory).1.value
      (client.batch world manifest directory).2.files := by
  have hcreated := ensureDirectory_created world.files directory
  by_cases hcan : world.files.CanEnsure directory
  · obtain ⟨base, hready⟩ := exists_ready world hfree hcan
    obtain ⟨hlater, hext, -⟩ := client.foldl_worldBehind_ready manifest Format.all hready
    obtain ⟨lines, hrun⟩ := client.runBatch_of_canEnsure world manifest directory hcan
    have heffect := client.effect_reportOf manifest world hfree hready hcan
    have hleaves := heffect.leaves hlater.linkFree (hcreated.toExtends.trans hext)
      (client.isExact_reportOf world manifest directory)
    rw [batch, hrun]
    dsimp only
    exact hleaves
  · obtain ⟨fault, hrun⟩ := client.runBatch_of_not_canEnsure world manifest directory hcan
    rw [batch, hrun]
    dsimp only [orReport, World.files_note, preparedWorld]
    refine ⟨hcreated.toExtends, hfree.of_created hcreated, ?_, ?_⟩
    · intro format path hmem
      cases hmem
    · intro place _
      exact hcreated.entry? place

end Client

namespace Demo

open Client

variable (client : Client) (settings : DemoSettings) (world : World)

/-! ## The example of the file -/

theorem load_files (source : String) : (client.load world source).2.files = world.files := by
  have hreport := orReport_eq "Error loading manifest: " (fun _ => Manifest.empty)
    (client.tryLoad world source)
  rw [← load] at hreport
  exact hreport.2.2.trans (client.tryLoad_files world source)

theorem validate_files (manifest : Manifest) :
    (client.validate world manifest).2.files = world.files := by
  have hreport := orReport_eq "Error validating manifest: " (fun error => .failed error.message)
    (client.tryValidate world manifest)
  rw [← validate] at hreport
  exact hreport.2.2.trans (client.tryValidate_call world manifest).2.2

/-- The page description that the example of the file works on. -/
def loaded : Manifest := (client.load world settings.manifestFile).1.value

/-- The world in which the example of the file starts its batch, if it comes to that. -/
def checkedWorld : World :=
  (client.validate (client.load world settings.manifestFile).2 (loaded client settings world)).2

theorem checkedWorld_files : (checkedWorld client settings world).files = world.files := by
  rw [checkedWorld, validate_files, load_files]

/-- A page description that was loaded makes for one batch, or no file is changed. -/
theorem checkAndConvert_cases (manifest : Manifest) :
    ((checkAndConvert client settings manifest world).1.value.batch = none ∧
      (checkAndConvert client settings manifest world).2.files = world.files) ∨
    ((checkAndConvert client settings manifest world).1.value.batch =
        some (client.batch (client.validate world manifest).2 manifest
          settings.outputDirectory).1.value ∧
      (checkAndConvert client settings manifest world).2.files =
        (client.batch (client.validate world manifest).2 manifest
          settings.outputDirectory).2.files) := by
  have hfiles := validate_files client world manifest
  unfold checkAndConvert
  generalize client.validate world manifest = validated at hfiles ⊢
  obtain ⟨verdict, later⟩ := validated
  dsimp only at hfiles ⊢
  by_cases hvalid : verdict.value.valid = true
  · rw [if_pos hvalid]
    generalize client.batch later manifest settings.outputDirectory = outcome
    exact Or.inr ⟨rfl, rfl⟩
  · rw [if_neg hvalid]
    exact Or.inl ⟨rfl, hfiles⟩

/-- The example of the file makes one batch, or changes no file. -/
theorem fileExample_cases :
    ((fileExample client settings world).1.value.batch = none ∧
      (fileExample client settings world).2.files = world.files) ∨
    ((fileExample client settings world).1.value.batch =
        some (client.batch (checkedWorld client settings world) (loaded client settings world)
          settings.outputDirectory).1.value ∧
      (fileExample client settings world).2.files =
        (client.batch (checkedWorld client settings world) (loaded client settings world)
          settings.outputDirectory).2.files) := by
  have hload := load_files client world settings.manifestFile
  unfold checkedWorld loaded fileExample
  dsimp only
  by_cases hpresent : world.files.isPresent settings.manifestFile = true
  · rw [if_pos hpresent]
    generalize client.load world settings.manifestFile = outcome at hload ⊢
    obtain ⟨found, later⟩ := outcome
    dsimp only at hload ⊢
    by_cases hempty : found.value.isEmpty = true
    · rw [if_pos hempty]
      exact Or.inl ⟨rfl, hload⟩
    · have hcases := checkAndConvert_cases client settings later found.value
      rw [if_neg hempty]
      generalize checkAndConvert client settings found.value later = checked at hcases ⊢
      rcases hcases with ⟨hnone, hfiles⟩ | hbatch
      · exact Or.inl ⟨hnone, hfiles.trans hload⟩
      · exact Or.inr hbatch
  · rw [if_neg hpresent]
    exact Or.inl ⟨rfl, rfl⟩

/-! ## The built-in page -/

theorem successText_eq_ok_iff {outcome : Except Http.Failure Http.Answer} {text : String} :
    successText outcome = .ok text ↔
      ∃ answer, outcome = .ok answer ∧ answer.status.isSuccess = true ∧ answer.text = .ok text := by
  cases outcome with
  | error failure => simp [successText, success, Except.bind]
  | ok answer =>
    unfold successText success
    cases hstatus : answer.status.isSuccess with
    | false => simp [Except.bind, hstatus]
    | true =>
      cases htext : answer.text with
      | ok other => simp [Except.bind, answerText, hstatus, htext]
      | error failure => simp [Except.bind, answerText, hstatus, htext]

theorem delivers_iff {outcome : Except Http.Failure Http.Answer} {text : String} :
    Delivers outcome text ↔ successText outcome = .ok text ∧ text ≠ "" := by
  rw [successText_eq_ok_iff]
  constructor
  · rintro ⟨answer, houtcome, hstatus, htext, hne⟩
    exact ⟨⟨answer, houtcome, hstatus, htext⟩, hne⟩
  · rintro ⟨⟨answer, houtcome, hstatus, htext⟩, hne⟩
    exact ⟨answer, houtcome, hstatus, htext, hne⟩

variable (files : FileTree) (outcome : Except Http.Failure Http.Answer)

/-- The built-in page is written once its directory is there, or no file is touched. -/
theorem saved_cases :
    (∃ text place, Delivers outcome text ∧
      (saved settings files outcome).1 =
        some (Path.join settings.outputDirectory settings.generatedFile) ∧
      Opens (files.ensureDirectory settings.outputDirectory).2
        (Path.join settings.outputDirectory settings.generatedFile) place ∧
      (saved settings files outcome).2 =
        (files.ensureDirectory settings.outputDirectory).2.put place
          (.file (Text.Utf8.encode text))) ∨
    (saved settings files outcome).1 = none ∧
      Created files (saved settings files outcome).2 settings.outputDirectory := by
  have hcreated := ensureDirectory_created files settings.outputDirectory
  unfold saved
  cases htext : successText outcome with
  | error error => exact Or.inr ⟨rfl, .refl _ _⟩
  | ok text =>
    by_cases hempty : text = ""
    · subst hempty
      exact Or.inr ⟨rfl, .refl _ _⟩
    dsimp only
    rw [if_neg (by simpa using hempty), writeBelow]
    generalize files.ensureDirectory settings.outputDirectory = ensured at hcreated ⊢
    obtain ⟨fault?, later⟩ := ensured
    cases fault? with
    | some fault => exact Or.inr ⟨rfl, hcreated⟩
    | none =>
      dsimp only at hcreated ⊢
      cases hwrite : later.writeText
          (Path.join settings.outputDirectory settings.generatedFile) text with
      | error fault => exact Or.inr ⟨rfl, hcreated⟩
      | ok written =>
        obtain ⟨place, hopens, rfl⟩ := writeText_eq_ok_iff.mp hwrite
        exact Or.inl ⟨text, place, delivers_iff.mpr ⟨htext, hempty⟩, rfl, hopens, rfl⟩

theorem saved_isSome_iff :
    (saved settings files outcome).1.isSome = true ↔ ∃ text, Delivers outcome text ∧
      (writeBelow files settings.outputDirectory
        (Path.join settings.outputDirectory settings.generatedFile) text).1 = none := by
  simp only [delivers_iff]
  unfold saved
  cases htext : successText outcome with
  | error error => simp
  | ok text =>
    by_cases hempty : text = ""
    · simp [hempty]
    · simp only [String.isEmpty_iff, if_neg hempty]
      generalize hwrite : writeBelow files settings.outputDirectory
        (Path.join settings.outputDirectory settings.generatedFile) text = written
      obtain ⟨fault?, later⟩ := written
      cases fault? with
      | none => simp [hempty, hwrite]
      | some fault => simp [hwrite]

/-- What the example of the built-in page leaves. -/
structure Saves (settings : DemoSettings) (files : FileTree)
    (outcome : Except Http.Failure Http.Answer) (path? : Option String) (after : FileTree) :
    Prop where
  extends_ : Extends files after
  isSome_iff : path?.isSome = true ↔ ∃ text, Delivers outcome text ∧
    (writeBelow files settings.outputDirectory
      (Path.join settings.outputDirectory settings.generatedFile) text).1 = none
  path : ∀ path, path? = some path →
    path = Path.join settings.outputDirectory settings.generatedFile ∧ ∃ text place,
      Delivers outcome text ∧ after.resolve path = .at place ∧
      after.entry? place = some (.file (Text.Utf8.encode text))
  file_iff : ∀ place bytes, (∀ path, path? = some path → after.resolve path ≠ .at place) →
    (after.entry? place = some (.file bytes) ↔ files.entry? place = some (.file bytes))
  changes : ChangesAt files after settings.outputDirectory fun place =>
    ∃ path, path? = some path ∧ after.resolve path = .at place

theorem saves_saved (hfree : files.LinkFree) :
    Saves settings files outcome (saved settings files outcome).1
      (saved settings files outcome).2 := by
  have hcreated := ensureDirectory_created files settings.outputDirectory
  have hsome := saved_isSome_iff settings files outcome
  rcases saved_cases settings files outcome with
    ⟨text, place, hdelivers, hpath, hopens, hafter⟩ | ⟨hnone, hcreated⟩
  · have hput := Extends.put hopens.not_directory (hfree.of_created hcreated place)
      (.file (Text.Utf8.encode text))
    have hresolve := hopens.resolve_put (Text.Utf8.encode text)
    rw [hpath] at hsome ⊢
    rw [hafter]
    refine ⟨hcreated.toExtends.trans hput, hsome, ?_, ?_, ?_⟩
    · rintro _ ⟨⟩
      exact ⟨rfl, text, place, hdelivers, hresolve, entry?_put_self _ hopens.ne_nil _⟩
    · intro other bytes hother
      have hne : place ≠ other := by
        rintro rfl
        exact hother _ rfl hresolve
      rw [entry?_put_of_ne _ hopens.ne_nil _ hne]
      exact hcreated.file_iff other bytes
    · intro other hother
      have hne : place ≠ other := by
        rintro rfl
        exact hother ⟨_, rfl, hresolve⟩
      rw [entry?_put_of_ne _ hopens.ne_nil _ hne]
      rcases hcreated.entry? other with hsame | ⟨hnone, top, htop, hleads⟩
      · exact Or.inl hsame
      · exact Or.inr ⟨hnone, top, htop, hleads.of_extends hput⟩
  · rw [hnone] at hsome ⊢
    exact ⟨hcreated.toExtends, hsome, by simp, fun place bytes _ => hcreated.file_iff place bytes,
      fun place _ => hcreated.entry? place⟩

/-! ## The session -/

variable {client settings world}

/-- The world in which a session comes to the built-in page. -/
def builtInWorld (client : Client) (settings : DemoSettings) (world : World) : World :=
  (pageExample client settings (fileExample client settings (client.health world).2).2).2

/-- Two paths are of the same file. -/
def SameFile (tree : FileTree) (path other : String) : Prop :=
  ∃ place, tree.resolve path = .at place ∧ tree.resolve other = .at place

/-- What a session leaves whose server is there. -/
structure Effect (client : Client) (settings : DemoSettings) (world : World) (summary : Summary)
    (after : FileTree) : Prop where
  /-- The built-in page is saved as it was answered. -/
  generated : ∀ path, summary.generatedFile = some path →
    path = Path.join settings.outputDirectory settings.generatedFile ∧ ∃ text,
      Delivers (client.conversion .sample .html (builtInWorld client settings world).network).1
        text ∧
      after.readBytes path = .ok (Text.Utf8.encode text)
  /-- It is saved just if there is a text for it that can be written. -/
  isSome_iff : summary.generatedFile.isSome = true ↔ ∃ text,
    Delivers (client.conversion .sample .html (builtInWorld client settings world).network).1
      text ∧
    (writeBelow (builtInWorld client settings world).files settings.outputDirectory
      (Path.join settings.outputDirectory settings.generatedFile) text).1 = none
  /-- So are the outputs of the batch, unless the built-in page is where one of them was. -/
  written : ∀ report format path, summary.batch = some report →
    (format, path) ∈ report.written → ∃ text,
      Delivers (client.conversion (loaded client settings (client.health world).2) format
        (client.worldAt (checkedWorld client settings (client.health world).2)
          (loaded client settings (client.health world).2) settings.outputDirectory
          format).network).1 text ∧
      ((∀ generated, summary.generatedFile = some generated → ¬ SameFile after generated path) →
        after.readBytes path = .ok (Text.Utf8.encode text)) ∧
      ∀ generated, summary.generatedFile = some generated → SameFile after generated path →
        after.readBytes path = after.readBytes generated
  /-- Without the built-in page its example changes no file. -/
  unsaved : summary.generatedFile = none → ∀ place bytes,
    after.entry? place = some (.file bytes) ↔
      (builtInWorld client settings world).files.entry? place = some (.file bytes)
  changes : ChangesAt world.files after settings.outputDirectory fun place =>
    (∃ path, summary.generatedFile = some path ∧ after.resolve path = .at place) ∨
      ∃ report format path, summary.batch = some report ∧ (format, path) ∈ report.written ∧
        after.resolve path = .at place

/-- What the batch of a session leaves, if there is one. -/
theorem fileExample_leaves (client : Client) (settings : DemoSettings) (world : World)
    (hfree : world.files.LinkFree) :
    ((fileExample client settings world).1.value.batch = none ∧
      (fileExample client settings world).2.files = world.files) ∨
    ∃ report, (fileExample client settings world).1.value.batch = some report ∧
      Leaves client (checkedWorld client settings world) (loaded client settings world)
        settings.outputDirectory report (fileExample client settings world).2.files := by
  rcases fileExample_cases client settings world with hnothing | ⟨hbatch, hfiles⟩
  · exact Or.inl hnothing
  · have hchecked : (checkedWorld client settings world).files.LinkFree := by
      rw [checkedWorld_files]
      exact hfree
    have hleaves := batch_leaves client (checkedWorld client settings world)
      (loaded client settings world) settings.outputDirectory hchecked
    rw [hbatch, hfiles]
    exact Or.inr ⟨_, rfl, hleaves⟩

/-- The files of a session are those of its batch, and then those of its built-in page. -/
theorem run_eq_of_health (settings : DemoSettings) (h : (client.health world).1.value = true) :
    (run client settings world).1.value.batch =
        (fileExample client settings (client.health world).2).1.value.batch ∧
      (run client settings world).1.value.generatedFile =
        (builtInExample client settings (builtInWorld client settings world)).1.value ∧
      (run client settings world).2 =
        (builtInExample client settings (builtInWorld client settings world)).2 := by
  unfold run builtInWorld
  generalize client.health world = outcome at h ⊢
  obtain ⟨healthy, served⟩ := outcome
  dsimp only at h ⊢
  rw [if_pos h]
  generalize fileExample client settings served = outcome
  obtain ⟨file, read⟩ := outcome
  dsimp only
  generalize pageExample client settings read = outcome
  obtain ⟨page, scraped⟩ := outcome
  dsimp only
  generalize builtInExample client settings scraped = outcome
  exact ⟨rfl, rfl, rfl⟩

variable {middle after : FileTree} {path? : Option String}

/-- A file that was there before the built-in page is there behind it, though it may be the one that
the page was written to. -/
theorem Saves.file {outcome : Except Http.Failure Http.Answer} {path : String} {place : Place}
    {bytes : ByteArray} (h : Saves settings middle outcome path? after)
    (hresolve : middle.resolve path = .at place) (hfile : middle.entry? place = some (.file bytes)) :
    after.resolve path = .at place ∧
      ((∀ generated, path? = some generated → ¬ SameFile after generated path) →
        after.entry? place = some (.file bytes)) := by
  by_cases hsame : ∃ generated, path? = some generated ∧ after.resolve generated = .at place
  · obtain ⟨generated, hpath, hgenerated⟩ := hsame
    obtain ⟨-, text, other, -, hother, hentry⟩ := h.path generated hpath
    cases hother.symm.trans hgenerated
    have hlater := resolve_of_file h.extends_ hresolve hentry
    exact ⟨hlater, fun hno => absurd ⟨place, hgenerated, hlater⟩ (hno generated hpath)⟩
  · have hkept : after.entry? place = some (.file bytes) :=
      (h.file_iff place bytes fun generated hpath hgenerated =>
        hsame ⟨generated, hpath, hgenerated⟩).mpr hfile
    exact ⟨resolve_of_file h.extends_ hresolve hkept, fun _ => hkept⟩

theorem readBytes_eq_of_sameFile {path other : String} (h : SameFile after path other) :
    after.readBytes other = after.readBytes path := by
  obtain ⟨place, hpath, hother⟩ := h
  rw [readBytes, readBytes, stat, stat, hpath, hother]

/-- The effect of a session, from what its two examples that write files leave. -/
theorem effect_of_leaves {summary : Summary}
    (hfile : (summary.batch = none ∧ (builtInWorld client settings world).files = world.files) ∨
      ∃ report, summary.batch = some report ∧
        Leaves client (checkedWorld client settings (client.health world).2)
          (loaded client settings (client.health world).2) settings.outputDirectory report
          (builtInWorld client settings world).files)
    (hsaves : Saves settings (builtInWorld client settings world).files
      (client.conversion .sample .html (builtInWorld client settings world).network).1
      summary.generatedFile after) :
    Effect client settings world summary after := by
  have hchecked : (checkedWorld client settings (client.health world).2).files = world.files :=
    (checkedWorld_files client settings _).trans (client.health_call world).2.2
  refine ⟨?_, hsaves.isSome_iff, ?_, ?_, ?_⟩
  · intro path hpath
    obtain ⟨heq, text, place, hdelivers, hresolve, hentry⟩ := hsaves.path path hpath
    exact ⟨heq, text, hdelivers, readBytes_of_resolve hresolve hentry⟩
  · intro report format path hbatch hmem
    rcases hfile with ⟨hnone, -⟩ | ⟨_, hsome, hleaves⟩
    · cases hnone.symm.trans hbatch
    · cases hsome.symm.trans hbatch
      obtain ⟨text, place, hdelivers, hresolve, hentry⟩ := hleaves.written format path hmem
      obtain ⟨hlater, hkept⟩ := hsaves.file hresolve hentry
      refine ⟨text, hdelivers, ?_, ?_⟩
      · exact fun hno => readBytes_of_resolve hlater (hkept hno)
      · exact fun generated _ hsame => readBytes_eq_of_sameFile hsame
  · intro hnone place bytes
    refine hsaves.file_iff place bytes fun path hpath => ?_
    cases hnone.symm.trans hpath
  · rcases hfile with ⟨hnone, hsame⟩ | ⟨report, hsome, hleaves⟩
    · rw [← hsame]
      exact hsaves.changes.mono fun place hplace => Or.inl hplace
    · have hchanges := hleaves.changes
      rw [hchecked] at hchanges
      refine (hchanges.trans hsaves.changes hsaves.extends_).mono ?_
      rintro place (⟨format, path, hmem, hresolve⟩ | hplace)
      · obtain ⟨text, other, -, hother, hentry⟩ := hleaves.written format path hmem
        cases hother.symm.trans hresolve
        exact Or.inr ⟨report, format, path, hsome, hmem, (hsaves.file hresolve hentry).1⟩
      · exact Or.inl hplace

/-- In a tree without links, a session whose server is there writes the outputs of its batch and
the built-in page as they were answered, and changes nothing else but for the directory of both. -/
theorem run_effect (client : Client) (settings : DemoSettings) (world : World)
    (hfree : world.files.LinkFree) (hhealth : (client.health world).1.value = true) :
    Effect client settings world (run client settings world).1.value
      (run client settings world).2.files := by
  obtain ⟨hbatch, hgenerated, hworld⟩ := run_eq_of_health settings hhealth
  have hserved : (client.health world).2.files = world.files := (client.health_call world).2.2
  have hpage : (builtInWorld client settings world).files =
      (fileExample client settings (client.health world).2).2.files := by
    rw [builtInWorld, (pageExample_call client settings _).2.2]
  have hfile := fileExample_leaves client settings (client.health world).2 (hserved.symm ▸ hfree)
  rw [← hpage, hserved, ← hbatch] at hfile
  have hmiddle : (builtInWorld client settings world).files.LinkFree := by
    rcases hfile with ⟨-, hsame⟩ | ⟨report, -, hleaves⟩
    · exact hsame.symm ▸ hfree
    · exact hleaves.linkFree
  obtain ⟨hvalue, -, hfiles⟩ :=
    builtInExample_call client settings (builtInWorld client settings world)
  refine effect_of_leaves hfile ?_
  rw [hgenerated, hworld, hvalue, hfiles]
  exact saves_saved settings _ _ hmiddle

/-- A file with a page description, and a server that has two texts for pages. -/
def pageWorld : World where
  network :=
    { obstacle := fun _ => none
      script :=
        [("/health", [.answer 200 [] .empty 0]),
          ("/api/validate", [.answer 200 [] (Text.Utf8.encode "\x7b\"valid\":true\x7d") 0]),
          (Format.html.endpoint,
            [.answer 200 [] (Text.Utf8.encode "<p>of the file</p>") 0,
              .answer 200 [] (Text.Utf8.encode "<p>built in</p>") 0])] }
  files :=
    { entries := [(["page.yaml"], .file (Text.Utf8.encode "title: Page\n"))]
      workingDirectory := [] }

/-- The built-in page is saved in place of an output. -/
def sharingSettings : DemoSettings :=
  { manifestFile := "page.yaml", outputDirectory := "out", generatedFile := "../out/output.html" }

/-- The client of a server on the same machine. -/
def localClient : Client := { baseUrl := "http://localhost" }

theorem run_effect_in_shared_file :
    pageWorld.files.LinkFree ∧ (localClient.health pageWorld).1.value = true ∧
      ((run localClient sharingSettings pageWorld).1.value.generatedFile =
          some "out/../out/output.html" ∧
        (run localClient sharingSettings pageWorld).2.files.readText "out/output.html" =
          .ok "<p>built in</p>") ∧
      Effect localClient sharingSettings pageWorld
        (run localClient sharingSettings pageWorld).1.value
        (run localClient sharingSettings pageWorld).2.files := by
  have hfree : pageWorld.files.LinkFree := linkFree_of_entries (by simp [pageWorld])
  have hhealth : (localClient.health pageWorld).1.value = true := by decide +kernel
  refine ⟨hfree, hhealth, ?_, run_effect localClient sharingSettings pageWorld hfree hhealth⟩
  decide +kernel

end Demo

end PageManifest
