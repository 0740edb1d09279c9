import PageManifest.Client.Lenient
import PageManifest.Proofs.Client.Conversion
import PageManifest.Proofs.Client.Reports
import PageManifest.Proofs.FileTree.Creation

/-!
# What a batch does

A batch makes the conversions of all formats one after the other, whatever comes of the ones
before. Each format is converted in the world that the ones before it leave (`worldAt`), and
its result is the one of its conversion there (`mem_results_iff`). There is no report if and
only if there is no directory (`tryBatch_exact`).
-/

namespace PageManifest.Client

/-! ## One format after the other -/

section

variable (client : Client) (manifest : Manifest) (directory : String)

/-- The world behind the conversion into one format. -/
def worldBehind (world : World) (format : Format) : World :=
  let saved := client.convertAndSave world manifest directory format
  noteResult saved.2 format saved.1

/-- The results of some formats, converted one after the other. -/
def results : List Format → World → List (Format × Except Error String)
  | [], _ => []
  | format :: formats, world =>
    (format, (client.convertAndSave world manifest directory format).1) ::
      results formats (client.worldBehind manifest directory world format)

theorem convertEach_cons (format : Format) (formats : List Format) (world : World) :
    client.convertEach manifest directory (format :: formats) world =
      let result := (client.convertAndSave world manifest directory format).1
      let rest := client.convertEach manifest directory formats
        (client.worldBehind manifest directory world format)
      ((rest.1.1.withResult format result, resultLines format result ++ rest.1.2), rest.2) := by
  rw [convertEach, worldBehind]

theorem convertEach_report (formats : List Format) (world : World) :
    (client.convertEach manifest directory formats world).1.1 =
      .ofResults (client.results manifest directory formats world) := by
  induction formats generalizing world with
  | nil => rfl
  | cons format formats ih =>
    rw [convertEach_cons, results, BatchReport.ofResults_cons, ← ih]

theorem convertEach_world (formats : List Format) (world : World) :
    (client.convertEach manifest directory formats world).2 =
      formats.foldl (client.worldBehind manifest directory) world := by
  induction formats generalizing world with
  | nil => rfl
  | cons format formats ih =>
    rw [convertEach_cons, List.foldl_cons, ← ih]

theorem map_results (formats : List Format) (world : World) :
    (client.results manifest directory formats world).map (·.1) = formats := by
  induction formats generalizing world with
  | nil => rfl
  | cons format formats ih => rw [results, List.map_cons, ih]

/-- The result of a format is that of its conversion behind the formats before it. -/
theorem mem_results_iff {formats : List Format} (hnodup : formats.Nodup) (world : World)
    (format : Format) (result : Except Error String) :
    (format, result) ∈ client.results manifest directory formats world ↔
      format ∈ formats ∧
        result = (client.convertAndSave
          ((formats.takeWhile (· ≠ format)).foldl (client.worldBehind manifest directory) world)
          manifest directory format).1 := by
  induction formats generalizing world with
  | nil => simp [results]
  | cons head formats ih =>
    obtain ⟨hhead, hrest⟩ := List.nodup_cons.mp hnodup
    rw [results, List.mem_cons, ih hrest, Prod.mk.injEq]
    by_cases hformat : format = head
    · subst hformat
      simp [hhead]
    · have hother : head ≠ format := fun h => hformat h.symm
      simp [hformat, hother]

/-- The network that the conversions into some formats leave. -/
def networkBehind (network : Http.Network) (formats : List Format) : Http.Network :=
  formats.foldl (fun network format => (client.conversion manifest format network).2) network

theorem noteResult_network (world : World) (format : Format) (result : Except Error String) :
    (noteResult world format result).network = world.network := by
  cases result <;> rfl

theorem noteResult_files (world : World) (format : Format) (result : Except Error String) :
    (noteResult world format result).files = world.files := by
  cases result <;> rfl

theorem worldBehind_network (world : World) (format : Format) :
    (client.worldBehind manifest directory world format).network =
      (client.conversion manifest format world.network).2 := by
  rw [worldBehind, noteResult_network, convertAndSave_network]

theorem worldBehind_files (world : World) (format : Format) :
    (client.worldBehind manifest directory world format).files =
      (client.convertAndSave world manifest directory format).2.files := by
  rw [worldBehind, noteResult_files]

/-- No format is skipped, and none is converted twice. -/
theorem foldl_worldBehind_network (formats : List Format) (world : World) :
    (formats.foldl (client.worldBehind manifest directory) world).network =
      client.networkBehind manifest world.network formats := by
  induction formats generalizing world with
  | nil => rfl
  | cons format formats ih =>
    rw [List.foldl_cons, ih, worldBehind_network, networkBehind, networkBehind, List.foldl_cons]

end

/-! ## Batches -/

variable (client : Client) (world : World) (manifest : Manifest) (directory : String)

/-- The world behind the attempt to have the directory. -/
def preparedWorld (world : World) (directory : String) : World :=
  { world with files := (world.files.ensureDirectory directory).2 }

/-- The world in which a batch reaches a format. -/
def worldAt (format : Format) : World :=
  (Format.all.takeWhile (· ≠ format)).foldl (client.worldBehind manifest directory)
    (preparedWorld world directory)

/-- The report of a batch that has its directory. -/
def reportOf : BatchReport :=
  .ofResults (client.results manifest directory Format.all (preparedWorld world directory))

/-- The world behind a batch that has its directory. -/
def worldAfter : World :=
  Format.all.foldl (client.worldBehind manifest directory) (preparedWorld world directory)

theorem isExact_reportOf : (client.reportOf world manifest directory).IsExact :=
  BatchReport.isExact_ofResults _ (client.map_results manifest directory _ _)

theorem worldAt_network (format : Format) :
    (client.worldAt world manifest directory format).network =
      client.networkBehind manifest world.network (Format.all.takeWhile (· ≠ format)) :=
  client.foldl_worldBehind_network manifest directory _ _

theorem mem_results_all_iff (format : Format) (result : Except Error String) :
    (format, result) ∈
        client.results manifest directory Format.all (preparedWorld world directory) ↔
      result = (client.convertAndSave (client.worldAt world manifest directory format) manifest
        directory format).1 := by
  rw [client.mem_results_iff manifest directory Format.nodup_all]
  exact and_iff_right (Format.mem_all format)

/-- A format is written if and only if its conversion delivers a text that can be written. -/
theorem mem_written_reportOf_iff (format : Format) (path : String) :
    (format, path) ∈ (client.reportOf world manifest directory).written ↔
      path = outputPath directory format ∧
        ∃ text files,
          Delivers (client.conversion manifest format
            (client.worldAt world manifest directory format).network).1 text ∧
          (client.worldAt world manifest directory format).files.writeText path text =
            .ok files := by
  rw [reportOf, BatchReport.mem_written_ofResults, mem_results_all_iff, eq_comm,
    convertAndSave_eq_ok_iff]
  constructor
  · rintro ⟨rfl, h⟩
    exact ⟨rfl, h⟩
  · rintro ⟨rfl, h⟩
    exact ⟨rfl, h⟩

/-- A report says of a format what its conversion comes to. -/
theorem lookups_reportOf (format : Format) :
    (client.reportOf world manifest directory).writtenPath? format =
        (client.convertAndSave (client.worldAt world manifest directory format) manifest directory
          format).1.toOption ∧
      (client.reportOf world manifest directory).failure? format =
        BatchReport.reason? (client.convertAndSave (client.worldAt world manifest directory format)
          manifest directory format).1 := by
  refine BatchReport.lookups_ofResults _ format ?_ ?_
  · rw [map_results]
    exact Format.nodup_all
  · exact (client.mem_results_all_iff world manifest directory format _).mpr rfl

theorem fails_of_mem_failed_reportOf {format : Format} {message : String}
    (h : (format, message) ∈ (client.reportOf world manifest directory).failed) :
    ∃ error, message = error.message ∧
      Fails (client.worldAt world manifest directory format).files (outputPath directory format)
        format (client.conversion manifest format
          (client.worldAt world manifest directory format).network).1 error := by
  rw [reportOf, BatchReport.mem_failed_ofResults] at h
  obtain ⟨error, hmem, hmessage⟩ := h
  rw [mem_results_all_iff] at hmem
  exact ⟨error, hmessage, client.fails_of_convertAndSave _ manifest directory format hmem.symm⟩

/-! ## With and without a directory -/

theorem runBatch_of_not_canEnsure (h : ¬ world.files.CanEnsure directory) :
    ∃ fault, client.runBatch world manifest directory =
      (.error (.file directory fault), preparedWorld world directory) := by
  rw [← FileTree.ensureDirectory_fst_eq_none_iff] at h
  unfold runBatch preparedWorld
  generalize world.files.ensureDirectory directory = outcome at h ⊢
  obtain ⟨fault?, files⟩ := outcome
  cases fault? with
  | none => exact absurd rfl h
  | some fault => exact ⟨fault, rfl⟩

theorem runBatch_of_canEnsure (h : world.files.CanEnsure directory) :
    ∃ lines, client.runBatch world manifest directory =
      (.ok (client.reportOf world manifest directory, lines),
        client.worldAfter world manifest directory) := by
  rw [← FileTree.ensureDirectory_fst_eq_none_iff] at h
  rw [reportOf, worldAfter, ← convertEach_report, ← convertEach_world]
  unfold runBatch preparedWorld
  generalize world.files.ensureDirectory directory = outcome at h ⊢
  obtain ⟨fault?, files⟩ := outcome
  dsimp only at h
  subst h
  dsimp only
  generalize client.convertEach manifest directory Format.all { world with files } = converted
  exact ⟨converted.1.2, rfl⟩

theorem tryBatch_of_not_canEnsure (h : ¬ world.files.CanEnsure directory) :
    ∃ fault, client.tryBatch world manifest directory =
      (.error (.file directory fault), preparedWorld world directory) := by
  obtain ⟨fault, hrun⟩ := client.runBatch_of_not_canEnsure world manifest directory h
  refine ⟨fault, ?_⟩
  rw [tryBatch, hrun]
  rfl

theorem tryBatch_of_canEnsure (h : world.files.CanEnsure directory) :
    client.tryBatch world manifest directory =
      (.ok (client.reportOf world manifest directory),
        client.worldAfter world manifest directory) := by
  obtain ⟨lines, hrun⟩ := client.runBatch_of_canEnsure world manifest directory h
  rw [tryBatch, hrun]
  dsimp only [Except.map]

/-- A lenient batch has the report of the strict one, or one on which all formats failed. -/
theorem batch_value :
    (world.files.CanEnsure directory ∧
      (client.batch world manifest directory).1.value = client.reportOf world manifest directory) ∨
    ∃ fault, (client.batch world manifest directory).1.value =
      .allFailed (Error.file directory fault).message := by
  by_cases h : world.files.CanEnsure directory
  · obtain ⟨lines, hrun⟩ := client.runBatch_of_canEnsure world manifest directory h
    exact Or.inl ⟨h, by rw [batch, hrun]⟩
  · obtain ⟨fault, hrun⟩ := client.runBatch_of_not_canEnsure world manifest directory h
    refine Or.inr ⟨fault, ?_⟩
    rw [batch, hrun]
    rfl

theorem outputPath_ne_empty (format : Format) : outputPath directory format ≠ "" := by
  intro hempty
  have hrelative : Path.isAbsolute format.outputFile = false := by cases format <;> decide
  have hname : FileTree.bareSteps format.outputFile ≠ [] := by cases format <;> decide
  have hsteps : FileTree.bareSteps (outputPath directory format) =
      FileTree.bareSteps directory ++ FileTree.bareSteps format.outputFile :=
    FileTree.bareSteps_join hrelative
  rw [hempty, FileTree.bareSteps_empty] at hsteps
  exact hname (List.append_eq_nil_iff.mp hsteps.symm).2

theorem summaryRow_reportOf_ne (format : Format) :
    Demo.summaryRow (client.reportOf world manifest directory) format ≠ [format.name, ""] := by
  refine (client.isExact_reportOf world manifest directory).summaryRow_ne format ?_
  rintro ⟨other, path⟩ hmem
  obtain ⟨rfl, _⟩ := (client.mem_written_reportOf_iff world manifest directory other path).mp hmem
  exact outputPath_ne_empty directory other

/-- A batch fails if and only if its directory cannot be had, and then asks for nothing and
changes no file. Otherwise it makes one conversion a format, in order, and its report is
exact: what is written is what is delivered and can be written, and all else has failed for
the reason that its conversion gives. -/
theorem tryBatch_exact :
    ((∃ error, (client.tryBatch world manifest directory).1 = .error error) ↔
      ¬ world.files.CanEnsure directory) ∧
    (¬ world.files.CanEnsure directory →
      (∃ fault, (client.tryBatch world manifest directory).1 = .error (.file directory fault)) ∧
      (client.tryBatch world manifest directory).2.network = world.network ∧
      ∀ place bytes,
        FileTree.entry? (client.tryBatch world manifest directory).2.files place =
            some (.file bytes) ↔ world.files.entry? place = some (.file bytes)) ∧
    (world.files.CanEnsure directory →
      ∃ report, (client.tryBatch world manifest directory).1 = .ok report ∧ report.IsExact ∧
        (client.tryBatch world manifest directory).2.network =
          client.networkBehind manifest world.network Format.all ∧
        ∀ format,
          let before := client.worldAt world manifest directory format
          let outcome := (client.conversion manifest format before.network).1
          before.network =
            client.networkBehind manifest world.network (Format.all.takeWhile (· ≠ format)) ∧
          (∀ path, (format, path) ∈ report.written ↔ path = outputPath directory format ∧
            ∃ text files, Delivers outcome text ∧ before.files.writeText path text = .ok files) ∧
          (∀ message, (format, message) ∈ report.failed → ∃ error, message = error.message ∧
            Fails before.files (outputPath directory format) format outcome error) ∧
          Demo.summaryRow report format ≠ [format.name, ""]) ∧
    (client.batch world manifest directory).1.value.IsExact ∧
    ∀ format, Demo.summaryRow (client.batch world manifest directory).1.value format ≠
      [format.name, ""] := by
  refine ⟨⟨?_, ?_⟩, ?_, ?_, ?_, ?_⟩
  · rintro ⟨error, herror⟩ h
    rw [client.tryBatch_of_canEnsure world manifest directory h] at herror
    cases herror
  · intro h
    obtain ⟨fault, hbatch⟩ := client.tryBatch_of_not_canEnsure world manifest directory h
    exact ⟨_, by rw [hbatch]⟩
  · intro h
    obtain ⟨fault, hbatch⟩ := client.tryBatch_of_not_canEnsure world manifest directory h
    rw [hbatch]
    exact ⟨⟨fault, rfl⟩, rfl, (FileTree.ensureDirectory_created world.files directory).file_iff⟩
  · intro h
    rw [client.tryBatch_of_canEnsure world manifest directory h]
    refine ⟨_, rfl, client.isExact_reportOf world manifest directory,
      client.foldl_worldBehind_network manifest directory _ _, fun format => ⟨?_, ?_, ?_, ?_⟩⟩
    · exact client.worldAt_network world manifest directory format
    · exact client.mem_written_reportOf_iff world manifest directory format
    · exact fun message => client.fails_of_mem_failed_reportOf world manifest directory
    · exact client.summaryRow_reportOf_ne world manifest directory format
  · rcases client.batch_value world manifest directory with ⟨_, hvalue⟩ | ⟨fault, hvalue⟩
    · rw [hvalue]
      exact client.isExact_reportOf world manifest directory
    · rw [hvalue]
      exact BatchReport.isExact_allFailed _
  · intro format
    rcases client.batch_value world manifest directory with ⟨_, hvalue⟩ | ⟨fault, hvalue⟩
    · rw [hvalue]
      exact client.summaryRow_reportOf_ne world manifest directory format
    · rw [hvalue]
      exact (BatchReport.isExact_allFailed _).summaryRow_ne format (by simp [BatchReport.allFailed])

end PageManifest.Client
