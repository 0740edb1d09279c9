import PageManifest.Proofs.Client.Batch
import PageManifest.Proofs.FileTree.Files

/-!
# The files of a batch

A batch changes a tree without links in two steps: the directory is created with all that
leads to it, and each conversion that succeeds then puts one file right below it
(`worldBehind_cases`). Conversions of other formats do not touch that file
(`foldl_worldBehind_ready`), so that in the end the files of the formats that were written
hold what was delivered, and those of the others are as before (`batch_effect`). What can be
at the place of a format that failed is a directory above the directory of the batch, if the
path leads up again from there.
-/

namespace PageManifest

namespace Format

theorem isFileName_outputFile (format : Format) : FileTree.IsFileName format.outputFile := by
  cases format <;> exact ⟨⟨by decide, by decide, by decide, by decide⟩, by decide⟩

theorem outputFile_injective {format other : Format} (h : format.outputFile = other.outputFile) :
    format = other := by
  cases format <;> cases other <;> first | rfl | exact absurd h (by decide)

/-- Every format has others before it and behind it, and none of them twice. -/
theorem exists_all_eq (format : Format) : ∃ behind,
    all = all.takeWhile (· ≠ format) ++ format :: behind ∧
      format ∉ all.takeWhile (· ≠ format) ∧ format ∉ behind := by
  cases format <;> exact ⟨_, rfl, by decide, by decide⟩

end Format

namespace Client

open PageManifest.FileTree PageManifest.Path

/-- The place of a format's output below a directory. -/
def outputPlace (base : Place) (format : Format) : Place := base ++ [format.outputFile]

theorem outputPlace_injective {base : Place} {format other : Format}
    (h : outputPlace base format = outputPlace base other) : format = other := by
  have hname := List.append_cancel_left h
  exact Format.outputFile_injective (List.cons.inj hname).1

/-- A tree in which a batch can save its outputs: the directory has a place, and there are
no links. -/
structure Ready (tree : FileTree) (directory : String) (base : Place) : Prop where
  isBase : IsBase tree directory base
  linkFree : tree.LinkFree

variable (client : Client) (manifest : Manifest) {directory : String} {base : Place}

/-! ## One format -/

theorem Ready.put {tree : FileTree} (h : Ready tree directory base) (format : Format)
    (hno : tree.entry? (outputPlace base format) ≠ some .directory) (bytes : ByteArray) :
    Ready (tree.put (outputPlace base format) (.file bytes)) directory base := by
  refine ⟨h.isBase.of_extends (.put hno (h.linkFree _) _), ?_⟩
  intro place target
  have hne : outputPlace base format ≠ [] := by simp [outputPlace]
  by_cases hplace : outputPlace base format = place
  · subst hplace
    simp [entry?_put_self tree hne]
  · rw [entry?_put_of_ne tree hne _ hplace]
    exact h.linkFree place target

/-- A conversion puts what it delivers below the directory, or leaves the tree as it is. -/
theorem worldBehind_cases {world : World} (h : Ready world.files directory base)
    (format : Format) :
    (∃ text, Delivers (client.conversion manifest format world.network).1 text ∧
      (client.convertAndSave world manifest directory format).1 =
        .ok (outputPath directory format) ∧
      (client.worldBehind manifest directory world format).files =
        world.files.put (outputPlace base format) (.file (Text.Utf8.encode text)) ∧
      IsResolvable (outputPath directory format) ∧ world.files.entry? base = some .directory ∧
      world.files.entry? (outputPlace base format) ≠ some .directory) ∨
    (∃ error, (client.convertAndSave world manifest directory format).1 = .error error) ∧
      (client.worldBehind manifest directory world format).files = world.files := by
  rw [worldBehind_files]
  cases client.saveCases world manifest directory format with
  | saved text hdelivers hwrite hresult =>
    obtain ⟨hfiles, hresolvable, hdirectory, hno⟩ :=
      writeText_join h.isBase format.isFileName_outputFile (h.linkFree _) hwrite
    exact Or.inl ⟨text, hdelivers, hresult, hfiles, hresolvable, hdirectory, hno⟩
  | failed error _ hfiles hresult => exact Or.inr ⟨⟨error, hresult⟩, hfiles⟩

theorem worldBehind_ready {world : World} (h : Ready world.files directory base)
    (format : Format) :
    Ready (client.worldBehind manifest directory world format).files directory base ∧
      Extends world.files (client.worldBehind manifest directory world format).files ∧
      ∀ place, place ≠ outputPlace base format →
        FileTree.entry? (client.worldBehind manifest directory world format).files place =
          world.files.entry? place := by
  rcases client.worldBehind_cases manifest h format with
    ⟨text, _, _, hfiles, _, _, hno⟩ | ⟨_, hfiles⟩
  · rw [hfiles]
    refine ⟨h.put format hno _, .put hno (h.linkFree _) _, fun place hplace => ?_⟩
    exact entry?_put_of_ne world.files (by simp [outputPlace]) _ hplace.symm
  · rw [hfiles]
    exact ⟨h, .refl _, fun _ _ => rfl⟩

/-! ## All formats -/

/-- Only the places of the formats that are converted can change. -/
theorem foldl_worldBehind_ready (formats : List Format) {world : World}
    (h : Ready world.files directory base) :
    Ready (formats.foldl (client.worldBehind manifest directory) world).files directory base ∧
      Extends world.files (formats.foldl (client.worldBehind manifest directory) world).files ∧
      ∀ place, (∀ format ∈ formats, place ≠ outputPlace base format) →
        FileTree.entry? (formats.foldl (client.worldBehind manifest directory) world).files place =
          world.files.entry? place := by
  induction formats generalizing world with
  | nil => exact ⟨h, .refl _, fun _ _ => rfl⟩
  | cons format formats ih =>
    obtain ⟨hready, hextends, hframe⟩ := client.worldBehind_ready manifest h format
    obtain ⟨hready', hextends', hframe'⟩ := ih hready
    rw [List.foldl_cons]
    refine ⟨hready', hextends.trans hextends', fun place hplace => ?_⟩
    have hbehind := hframe' place fun other hmem => hplace other (List.mem_cons_of_mem _ hmem)
    exact hbehind.trans (hframe place (hplace format (List.mem_cons_self ..)))

variable (world : World) (format : Format)

theorem worldAt_ready (h : Ready (preparedWorld world directory).files directory base) :
    Ready (client.worldAt world manifest directory format).files directory base ∧
      FileTree.entry? (client.worldAt world manifest directory format).files
        (outputPlace base format) =
        FileTree.entry? (preparedWorld world directory).files (outputPlace base format) := by
  obtain ⟨_, _, hbefore, _⟩ := format.exists_all_eq
  obtain ⟨hready, _, hframe⟩ := client.foldl_worldBehind_ready manifest _ h
  refine ⟨hready, hframe _ fun other hmem hplace => ?_⟩
  exact hbefore (outputPlace_injective hplace ▸ hmem)

/-- What a conversion leaves at its place stays there. -/
theorem worldAfter_entry? (h : Ready (preparedWorld world directory).files directory base) :
    let behind := client.worldBehind manifest directory
      (client.worldAt world manifest directory format) format
    Extends behind.files (client.worldAfter world manifest directory).files ∧
      FileTree.entry? (client.worldAfter world manifest directory).files
        (outputPlace base format) = behind.files.entry? (outputPlace base format) := by
  obtain ⟨hready, _⟩ := client.worldAt_ready manifest world format h
  obtain ⟨hready, _, _⟩ := client.worldBehind_ready manifest hready format
  obtain ⟨formats, hall, _, hbehind⟩ := format.exists_all_eq
  have hafter : client.worldAfter world manifest directory =
      formats.foldl (client.worldBehind manifest directory)
        (client.worldBehind manifest directory (client.worldAt world manifest directory format)
          format) := by
    unfold worldAfter
    conv => lhs; rw [hall]
    rw [List.foldl_append, List.foldl_cons, worldAt]
  obtain ⟨_, hextends, hframe⟩ := client.foldl_worldBehind_ready manifest formats hready
  rw [← hafter] at hextends hframe
  refine ⟨hextends, hframe _ fun other hmem hplace => ?_⟩
  exact hbehind (outputPlace_injective hplace ▸ hmem)

/-- A file that was written holds what was delivered. -/
theorem written_of_ready (h : Ready (preparedWorld world directory).files directory base)
    {path : String} (hmem : (format, path) ∈ (client.reportOf world manifest directory).written) :
    path = outputPath directory format ∧ ∃ text,
      Delivers (client.conversion manifest format
        (client.worldAt world manifest directory format).network).1 text ∧
      FileTree.entry? (client.worldAfter world manifest directory).files
        (outputPlace base format) = some (.file (Text.Utf8.encode text)) ∧
      (client.worldAfter world manifest directory).files.readBytes path =
        .ok (Text.Utf8.encode text) := by
  rw [reportOf, BatchReport.mem_written_ofResults, mem_results_all_iff] at hmem
  obtain ⟨hready, _⟩ := client.worldAt_ready manifest world format h
  obtain ⟨hextends, hentry⟩ := client.worldAfter_entry? manifest world format h
  rcases client.worldBehind_cases manifest hready format with
    ⟨text, hdelivers, hresult, hfiles, hresolvable, hdirectory, hno⟩ | ⟨⟨error, hresult⟩, _⟩
  · cases hmem.trans hresult
    rw [hfiles] at hextends hentry
    rw [entry?_put_self _ (by simp [outputPlace])] at hentry
    have hput := Extends.put hno (hready.linkFree _) (.file (Text.Utf8.encode text))
    have hlater := hput.trans hextends
    refine ⟨rfl, text, hdelivers, hentry, ?_⟩
    exact readBytes_join (hready.isBase.of_extends hlater) format.isFileName_outputFile hresolvable
      (hlater.directory _ hdirectory) hentry
  · cases hmem.trans hresult

/-- The place of a format that failed is as it was behind the creation of the directory. -/
theorem failed_of_ready (h : Ready (preparedWorld world directory).files directory base)
    {message : String}
    (hmem : (format, message) ∈ (client.reportOf world manifest directory).failed) :
    FileTree.entry? (client.worldAfter world manifest directory).files
        (outputPlace base format) =
      FileTree.entry? (preparedWorld world directory).files (outputPlace base format) := by
  rw [reportOf, BatchReport.mem_failed_ofResults] at hmem
  obtain ⟨error, hmem, _⟩ := hmem
  rw [mem_results_all_iff] at hmem
  obtain ⟨hready, hbefore⟩ := client.worldAt_ready manifest world format h
  obtain ⟨_, hentry⟩ := client.worldAfter_entry? manifest world format h
  rcases client.worldBehind_cases manifest hready format with
    ⟨_, _, hresult, _⟩ | ⟨_, hfiles⟩
  · cases hmem.trans hresult
  · rw [hentry, hfiles, hbefore]

/-! ## The effect -/

/-- What a batch leaves in the files, its directory being at a place. -/
structure Effect (client : Client) (manifest : Manifest) (world : World) (directory : String)
    (base : Place) (report : BatchReport) (after : FileTree) : Prop where
  isBase : IsBase after directory base
  /-- The directory is there, and so are the ones above it. -/
  isDirectory : ∀ top, Encloses top directory → top = "" ∨ after.isDirectory top = true
  written : ∀ format path, (format, path) ∈ report.written →
    path = outputPath directory format ∧ ∃ text,
      Delivers (client.conversion manifest format
        (client.worldAt world manifest directory format).network).1 text ∧
      after.entry? (outputPlace base format) = some (.file (Text.Utf8.encode text)) ∧
      after.readBytes path = .ok (Text.Utf8.encode text)
  /-- Only where the path leads up can one of the directories above be new at the place. -/
  failed : ∀ format message, (format, message) ∈ report.failed →
    after.entry? (outputPlace base format) = world.files.entry? (outputPlace base format) ∨
      world.files.entry? (outputPlace base format) = none ∧ ".." ∈ bareSteps directory ∧
        ∃ top, Encloses top directory ∧ LeadsTo after top (outputPlace base format)
  /-- An earlier output of a format that failed can still be read. -/
  kept : ∀ format message bytes, (format, message) ∈ report.failed →
    world.files.readBytes (outputPath directory format) = .ok bytes →
    after.readBytes (outputPath directory format) = .ok bytes
  others : ∀ place, (∀ format, place ≠ outputPlace base format) →
    after.entry? place = world.files.entry? place ∨
      world.files.entry? place = none ∧
        ∃ top, Encloses top directory ∧ LeadsTo after top place

theorem exists_ready (hfree : world.files.LinkFree) (h : world.files.CanEnsure directory) :
    ∃ base, Ready (preparedWorld world directory).files directory base := by
  obtain ⟨base, hbase⟩ := exists_isBase h
  exact ⟨base, hbase, hfree.of_created (ensureDirectory_created world.files directory)⟩

/-- A directory that leads up nowhere is not above a place below it. -/
theorem mem_bareSteps_of_encloses {tree : FileTree} (h : Ready tree directory base) {top : String}
    (hencloses : Encloses top directory) (htop : LeadsTo tree top (outputPlace base format)) :
    ".." ∈ bareSteps directory := by
  refine Decidable.byContradiction fun hup => ?_
  rcases h.isBase with ⟨rfl, _⟩ | hbase
  · exact htop.isResolvable.ne_empty (eq_empty_of_encloses hencloses)
  · exact ne_of_encloses h.linkFree hup hbase hencloses htop _ rfl

/-- A file that could be read before the batch is found at the place of the output. -/
theorem kept_of_ready (hfree : world.files.LinkFree)
    (h : Ready (preparedWorld world directory).files directory base) {message : String}
    {bytes : ByteArray}
    (hmem : (format, message) ∈ (client.reportOf world manifest directory).failed)
    (hread : world.files.readBytes (outputPath directory format) = .ok bytes) :
    (client.worldAfter world manifest directory).files.readBytes (outputPath directory format) =
      .ok bytes := by
  have hcreated := ensureDirectory_created world.files directory
  obtain ⟨hready, hextends, _⟩ := client.foldl_worldBehind_ready manifest Format.all h
  obtain ⟨place, hplace, hresolvable, hdirectory, hfile⟩ :=
    exists_isBase_of_readBytes hfree format.isFileName_outputFile hread
  have hlater := hcreated.toExtends.trans hextends
  -- The directory was there to be read from, so it has the place that it has afterwards.
  have hsame : place = base := (hplace.of_extends hlater).eq hready.isBase
  subst hsame
  refine readBytes_join hready.isBase format.isFileName_outputFile hresolvable
    (hlater.directory _ hdirectory) ?_
  exact (client.failed_of_ready manifest world format h hmem).trans
    ((hcreated.file_iff _ _).mpr hfile)

theorem effect_reportOf (hfree : world.files.LinkFree)
    (h : Ready (preparedWorld world directory).files directory base)
    (hcan : world.files.CanEnsure directory) :
    Effect client manifest world directory base (client.reportOf world manifest directory)
      (client.worldAfter world manifest directory).files := by
  have hcreated := ensureDirectory_created world.files directory
  obtain ⟨hready, hextends, hframe⟩ := client.foldl_worldBehind_ready manifest
    Format.all h
  refine ⟨hready.isBase, ?_, ?_, ?_, ?_, ?_⟩
  · intro top htop
    rcases hcan.isDirectory with rfl | hdirectory
    · exact Or.inl (eq_empty_of_encloses htop)
    · obtain ⟨place, hplace⟩ := isDirectory_iff.mp hdirectory
      exact isDirectory_of_encloses htop (isDirectory_iff.mpr ⟨place, hplace.of_extends hextends⟩)
  · intro format path hmem
    exact client.written_of_ready manifest world format h hmem
  · intro format message hmem
    rw [client.failed_of_ready manifest world format h hmem]
    rcases hcreated.entry? (outputPlace base format) with hsame | ⟨hnone, top, htop, hleads⟩
    · exact Or.inl hsame
    · exact Or.inr ⟨hnone, mem_bareSteps_of_encloses format h htop hleads, top, htop,
        hleads.of_extends hextends⟩
  · intro format message bytes hmem hread
    exact client.kept_of_ready manifest world format hfree h hmem hread
  · intro place hplace
    rw [worldAfter, hframe place fun format _ => hplace format]
    rcases hcreated.entry? place with hsame | ⟨hnone, top, htop, hleads⟩
    · exact Or.inl hsame
    · exact Or.inr ⟨hnone, top, htop, hleads.of_extends hextends⟩

/-- In a tree without links, a batch that has its directory changes its outputs and nothing
else: those that were written hold what was delivered for them, those that failed are as
before, and whatever else is new is a directory above. A lenient batch does the same. -/
theorem batch_effect (hfree : world.files.LinkFree) (h : world.files.CanEnsure directory) :
    ∃ base report, (client.tryBatch world manifest directory).1 = .ok report ∧
      Effect client manifest world directory base report
        (client.tryBatch world manifest directory).2.files ∧
      Effect client manifest world directory base (client.batch world manifest directory).1.value
        (client.batch world manifest directory).2.files := by
  obtain ⟨base, hready⟩ := exists_ready world hfree h
  have heffect := client.effect_reportOf manifest world hfree hready h
  obtain ⟨lines, hrun⟩ := client.runBatch_of_canEnsure world manifest directory h
  refine ⟨base, client.reportOf world manifest directory, ?_, ?_, ?_⟩
  · rw [client.tryBatch_of_canEnsure world manifest directory h]
  · rw [client.tryBatch_of_canEnsure world manifest directory h]
    exact heffect
  · rw [batch, hrun]
    dsimp only
    exact heffect

/-- The outputs of an earlier batch, and a server that knows one format. -/
def laterWorld : World where
  network :=
    { obstacle := fun _ => none
      script := [(Format.html.endpoint, [.answer 200 [] (Text.Utf8.encode "<p>") 0])] }
  files :=
    { entries :=
        [(["out"], .directory),
          (["out", "output.html"], .file (Text.Utf8.encode "<h1>earlier</h1>")),
          (["out", "output.php"], .file (Text.Utf8.encode "<?php"))]
      workingDirectory := [] }

theorem batch_effect_over_earlier_outputs :
    laterWorld.files.LinkFree ∧ laterWorld.files.CanEnsure "out" ∧
      ∃ base report, (tryBatch { baseUrl := "http://localhost" } laterWorld .empty "out").1 =
          .ok report ∧
        Effect { baseUrl := "http://localhost" } .empty laterWorld "out" base report
          (tryBatch { baseUrl := "http://localhost" } laterWorld .empty "out").2.files ∧
        Effect { baseUrl := "http://localhost" } .empty laterWorld "out" base
          (batch { baseUrl := "http://localhost" } laterWorld .empty "out").1.value
          (batch { baseUrl := "http://localhost" } laterWorld .empty "out").2.files := by
  have hfree : laterWorld.files.LinkFree := linkFree_of_entries (by simp [laterWorld])
  have hcan : laterWorld.files.CanEnsure "out" :=
    (ensureDirectory_fst_eq_none_iff _ _).mp (by decide +kernel)
  exact ⟨hfree, hcan, batch_effect _ _ _ hfree hcan⟩

/-- A path that leads through the place of an output and up again: the output fails, and a
directory is new at its place. -/
theorem failed_output_becomes_directory :
    let world : World :=
      { network := { obstacle := fun _ => none, script := [] }
        files := { entries := [], workingDirectory := [] } }
    let directory := "x/output.html/.."
    let outcome := tryBatch { baseUrl := "http://localhost" } world .empty directory
    world.files.LinkFree ∧ world.files.CanEnsure directory ∧
      outcome.1.toOption.bind (fun report => report.failure? .html) =
        some "server returned 404 Not Found: no route POST /api/convert/manifest-to-html" ∧
      world.files.isPresent (outputPath directory .html) = false ∧
      outcome.2.files.isDirectory (outputPath directory .html) = true := by
  refine ⟨linkFree_of_entries (by simp), (ensureDirectory_fst_eq_none_iff _ _).mp ?_, ?_, ?_, ?_⟩
  · decide +kernel
  · decide +kernel
  · decide +kernel
  · decide +kernel

end Client

end PageManifest
