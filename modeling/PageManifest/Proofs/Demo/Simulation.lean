import PageManifest.Demo
import PageManifest.Proofs.FileTree.Creation

/-!
# Simulating sessions

Two worlds may differ, and their records may be written to different log files. If every small step
of a session keeps a relation between them (`Simulates`), then each operation keeps it, too, and
gives and says the same in both worlds (`Related`). One lemma for each operation says so, and it
follows from those of the operations that it consists of, up to the whole session (`run_related`).

The small steps are these: a request is made, a record is noted, a file is looked up, read or
written, and a directory is created. They may need paths of some kind.
-/

namespace PageManifest

open FileTree

variable {world twin : World} {allowed : String → Prop} {sink sink' : Option Log.Sink}
  {R : World → World → Prop} {directory path : String} {format : Format}

/-! ## Relations between worlds -/

/-- A relation between two worlds is kept by all that a session does at paths that are allowed.
The records of each world are written to a log file of its own, or to none. -/
structure Simulates (allowed : String → Prop) (sink sink' : Option Log.Sink)
    (R : World → World → Prop) : Prop where
  network_eq : ∀ {world twin}, R world twin → twin.network = world.network
  withNetwork : ∀ {world twin} network, R world twin → R { world with network } { twin with network }
  note : ∀ {world twin} level origin message, R world twin →
    R (world.note level origin message sink) (twin.note level origin message sink')
  isPresent_eq : ∀ {world twin path}, R world twin → allowed path →
    twin.files.isPresent path = world.files.isPresent path
  readText_eq : ∀ {world twin path}, R world twin → allowed path →
    twin.files.readText path = world.files.readText path
  writeText : ∀ {world twin path} text, R world twin → allowed path →
    Paired (fun files files' => R { world with files } { twin with files := files' })
      (world.files.writeText path text) (twin.files.writeText path text)
  ensureDirectory : ∀ {world twin path}, R world twin → allowed path →
    (twin.files.ensureDirectory path).1 = (world.files.ensureDirectory path).1 ∧
      R { world with files := (world.files.ensureDirectory path).2 }
        { twin with files := (twin.files.ensureDirectory path).2 }

/-- Two outcomes are the same, and the worlds behind them are related. -/
def Related {α : Type} (R : World → World → Prop) (outcome outcome' : α × World) : Prop :=
  ∃ value world twin, outcome = (value, world) ∧ outcome' = (value, twin) ∧ R world twin

theorem Related.of {α : Type} (value : α) (h : R world twin) :
    Related R (value, world) (value, twin) :=
  ⟨value, world, twin, rfl, rfl, h⟩

namespace Client

variable (client : Client)

/-! ## The network alone -/

/-- What an exchange gives depends on nothing but the network. -/
theorem exchange_fst_congr (h : twin.network = world.network) (method : Http.Method)
    (path : String) (body : Option String) :
    (client.exchange twin method path body sink').1 =
      (client.exchange world method path body sink).1 := by
  unfold exchange noteRequest
  dsimp only
  rw [World.network_note, World.network_note, h]
  generalize world.network.exchange method (client.baseUrl ++ path) body client.timeout = outcome
  obtain ⟨result, network⟩ := outcome
  cases result with
  | error failure => rfl
  | ok answer => rfl

theorem tryHealth_fst_congr (h : twin.network = world.network) :
    (client.tryHealth twin sink').1 = (client.tryHealth world sink).1 := by
  have hexchange : (client.exchange twin .get healthPath none sink').1 =
      (client.exchange world .get healthPath none sink).1 := client.exchange_fst_congr h _ _ _
  unfold tryHealth
  generalize client.exchange twin .get healthPath none sink' = outcome' at hexchange ⊢
  generalize client.exchange world .get healthPath none sink = outcome at hexchange ⊢
  exact congrArg (Except.map fun _ => ()) hexchange

theorem tryHealth_note (world : World) (level : Log.Level) (origin : Log.Origin)
    (message : String) (sink : Option Log.Sink) :
    (client.tryHealth (world.note level origin message sink)).1 = (client.tryHealth world).1 :=
  client.tryHealth_fst_congr (World.network_note world level origin message sink)

/-- The lenient check is passed just if the strict one is. -/
theorem health_iff (world : World) (sink : Option Log.Sink) :
    (client.health world sink).1.value = true ↔ (client.tryHealth world).1 = .ok () := by
  have hsame : (client.tryHealth world sink).1 = (client.tryHealth world).1 :=
    client.tryHealth_fst_congr rfl
  rw [← hsame]
  unfold health
  generalize client.tryHealth world sink = outcome
  obtain ⟨result, later⟩ := outcome
  cases result with
  | error error =>
    constructor
    · intro h
      cases h
    · intro h
      cases h
  | ok value => exact ⟨fun _ => rfl, fun _ => rfl⟩

variable (hsim : Simulates allowed sink sink' R)
include hsim

/-! ## Requests -/

theorem exchange_related (h : R world twin) (method : Http.Method) (path : String)
    (body : Option String) :
    Related R (client.exchange world method path body sink)
      (client.exchange twin method path body sink') := by
  have hnoted : R (client.noteRequest world method path sink)
      (client.noteRequest twin method path sink') := hsim.note _ _ _ h
  unfold exchange
  dsimp only
  rw [hsim.network_eq hnoted]
  generalize (client.noteRequest world method path sink).network.exchange method
    (client.baseUrl ++ path) body client.timeout = outcome
  obtain ⟨result, network⟩ := outcome
  cases result with
  | error failure => exact .of _ (hsim.withNetwork network hnoted)
  | ok answer => exact .of _ (hsim.withNetwork network hnoted)

theorem askFor_related (h : R world twin) (path body : String) :
    Related R (client.askFor world path body sink) (client.askFor twin path body sink') := by
  obtain ⟨result, world, twin, hsame, hsame', h⟩ :=
    client.exchange_related hsim h .post path (some body)
  unfold askFor
  rw [hsame, hsame']
  exact .of _ h

theorem tryHealth_related (h : R world twin) :
    Related R (client.tryHealth world sink) (client.tryHealth twin sink') := by
  obtain ⟨result, world, twin, hsame, hsame', h⟩ :=
    client.exchange_related hsim h .get healthPath none
  unfold tryHealth
  rw [hsame, hsame']
  exact .of _ h

theorem tryPage_related (h : R world twin) (url : String) :
    Related R (client.tryPage world url sink) (client.tryPage twin url sink') := by
  obtain ⟨result, world, twin, hsame, hsame', h⟩ :=
    client.askFor_related hsim h pagePath (pageBody url)
  unfold tryPage
  rw [hsame, hsame']
  exact .of _ h

theorem tryConvert_related (h : R world twin) (manifest : Manifest) (format : Format) :
    Related R (client.tryConvert world manifest format sink)
      (client.tryConvert twin manifest format sink') :=
  client.askFor_related hsim h _ _

theorem tryValidate_related (h : R world twin) (manifest : Manifest) :
    Related R (client.tryValidate world manifest sink)
      (client.tryValidate twin manifest sink') := by
  obtain ⟨result, world, twin, hsame, hsame', h⟩ :=
    client.askFor_related hsim h validationPath manifest.toJson
  unfold tryValidate
  rw [hsame, hsame']
  exact .of _ h

theorem tryLoad_related (h : R world twin) (hpath : allowed path) :
    Related R (client.tryLoad world path sink) (client.tryLoad twin path sink') := by
  unfold tryLoad
  cases hsource : Source.ofText path with
  | url address => exact client.tryPage_related hsim h address
  | file found =>
    have hfound : found = path := by
      unfold Source.ofText at hsource
      split at hsource
      · cases hsource
      · cases hsource
        rfl
    subst hfound
    have hnoted := hsim.note .debug .client ("Reading manifest from " ++ found) h
    dsimp only [Manifest.ofYamlFile]
    rw [hsim.readText_eq hnoted hpath]
    exact .of _ hnoted

/-! ## Lenient operations -/

theorem orReport_related {α : Type} {outcome outcome' : Except Error α × World}
    (h : Related R outcome outcome') (words : String) (substitute : Error → α) :
    Related R (orReport words substitute outcome sink)
      (orReport words substitute outcome' sink') := by
  obtain ⟨result, world, twin, rfl, rfl, h⟩ := h
  cases result with
  | error error => exact .of _ (hsim.note _ _ _ h)
  | ok value => exact .of _ h

theorem health_related (h : R world twin) :
    Related R (client.health world sink) (client.health twin sink') := by
  obtain ⟨result, world, twin, hsame, hsame', h⟩ := client.tryHealth_related hsim h
  unfold health
  rw [hsame, hsame']
  cases result with
  | error error => exact .of _ (hsim.note _ _ _ h)
  | ok value => exact .of _ h

theorem load_related (h : R world twin) (hpath : allowed path) :
    Related R (client.load world path sink) (client.load twin path sink') :=
  orReport_related hsim (client.tryLoad_related hsim h hpath) _ _

theorem page_related (h : R world twin) (url : String) :
    Related R (client.page world url sink) (client.page twin url sink') :=
  orReport_related hsim (client.tryPage_related hsim h url) _ _

theorem convert_related (h : R world twin) (manifest : Manifest) (format : Format) :
    Related R (client.convert world manifest format sink)
      (client.convert twin manifest format sink') :=
  orReport_related hsim (client.tryConvert_related hsim h manifest format) _ _

theorem validate_related (h : R world twin) (manifest : Manifest) :
    Related R (client.validate world manifest sink) (client.validate twin manifest sink') :=
  orReport_related hsim (client.tryValidate_related hsim h manifest) _ _

/-! ## Batches -/

theorem saveOutput_related (h : R world twin)
    (hpath : allowed (outputPath directory format)) (content : String) :
    Related R (saveOutput world directory format content)
      (saveOutput twin directory format content) := by
  have hwrite := hsim.writeText content h hpath
  unfold saveOutput
  dsimp only
  generalize world.files.writeText (outputPath directory format) content = written at hwrite ⊢
  generalize twin.files.writeText (outputPath directory format) content = written' at hwrite ⊢
  cases hwrite with
  | fails fault => exact .of _ h
  | done hlater => exact .of _ hlater

theorem convertAndSave_related (h : R world twin)
    (hpath : allowed (outputPath directory format)) (manifest : Manifest) :
    Related R (client.convertAndSave world manifest directory format sink)
      (client.convertAndSave twin manifest directory format sink') := by
  obtain ⟨result, world, twin, hsame, hsame', h⟩ :=
    client.tryConvert_related hsim h manifest format
  unfold convertAndSave
  rw [hsame, hsame']
  cases result with
  | error error => exact .of _ h
  | ok content =>
    dsimp only
    split
    · exact .of _ h
    · exact saveOutput_related hsim h hpath content

theorem noteResult_related (h : R world twin) (format : Format) (result : Except Error String) :
    R (noteResult world format result sink) (noteResult twin format result sink') := by
  cases result with
  | error error => exact hsim.note _ _ _ h
  | ok path => exact hsim.note _ _ _ h

/-- The formats are converted one after the other, so this is by induction on them. -/
theorem convertEach_related (h : R world twin)
    (hpaths : ∀ format, allowed (outputPath directory format))
    (manifest : Manifest) (formats : List Format) :
    Related R (client.convertEach manifest directory formats world sink)
      (client.convertEach manifest directory formats twin sink') := by
  induction formats generalizing world twin with
  | nil => exact .of _ h
  | cons format formats ih =>
    obtain ⟨result, world, twin, hsame, hsame', h⟩ :=
      client.convertAndSave_related hsim h (hpaths format) manifest
    obtain ⟨others, world, twin, hothers, hothers', h⟩ :=
      ih (noteResult_related hsim h format result)
    unfold convertEach
    rw [hsame, hsame']
    dsimp only
    rw [hothers, hothers']
    exact .of _ h

theorem runBatch_related (h : R world twin) (hdirectory : allowed directory)
    (hpaths : ∀ format, allowed (outputPath directory format))
    (manifest : Manifest) :
    Related R (client.runBatch world manifest directory sink)
      (client.runBatch twin manifest directory sink') := by
  obtain ⟨hfault, h⟩ := hsim.ensureDirectory h hdirectory
  unfold runBatch
  generalize world.files.ensureDirectory directory = ensured at hfault h ⊢
  generalize twin.files.ensureDirectory directory = ensured' at hfault h ⊢
  obtain ⟨fault?, files⟩ := ensured
  obtain ⟨fault?', files'⟩ := ensured'
  dsimp only at hfault h ⊢
  subst hfault
  cases fault?' with
  | some fault => exact .of _ h
  | none =>
    obtain ⟨results, world, twin, hsame, hsame', h⟩ :=
      client.convertEach_related hsim h hpaths manifest Format.all
    dsimp only
    rw [hsame, hsame']
    exact .of _ h

theorem batch_related (h : R world twin) (hdirectory : allowed directory)
    (hpaths : ∀ format, allowed (outputPath directory format))
    (manifest : Manifest) :
    Related R (client.batch world manifest directory sink)
      (client.batch twin manifest directory sink') := by
  obtain ⟨result, world, twin, hsame, hsame', h⟩ :=
    client.runBatch_related hsim h hdirectory hpaths manifest
  unfold batch
  rw [hsame, hsame']
  cases result with
  | error error => exact orReport_related hsim (.of _ h) _ _
  | ok results => exact .of _ h

end Client

namespace Demo

/-! ## Sessions -/

/-- All paths at which a session reads or writes are allowed. -/
structure PathsAllowed (allowed : String → Prop) (settings : DemoSettings) : Prop where
  manifestFile : allowed settings.manifestFile
  outputDirectory : allowed settings.outputDirectory
  output : ∀ format, allowed (Client.outputPath settings.outputDirectory format)
  generated : allowed (Path.join settings.outputDirectory settings.generatedFile)

theorem PathsAllowed.all (settings : DemoSettings) : PathsAllowed (fun _ => True) settings :=
  ⟨trivial, trivial, fun _ => trivial, trivial⟩

variable (hsim : Simulates allowed sink sink' R)
include hsim

variable (client : Client) {settings : DemoSettings}

theorem checkAndConvert_related (h : R world twin) (hpaths : PathsAllowed allowed settings)
    (manifest : Manifest) :
    Related R (checkAndConvert client settings manifest world sink)
      (checkAndConvert client settings manifest twin sink') := by
  obtain ⟨verdict, world, twin, hsame, hsame', h⟩ := client.validate_related hsim h manifest
  unfold checkAndConvert
  rw [hsame, hsame']
  dsimp only
  split
  · obtain ⟨batch, world, twin, hsame, hsame', h⟩ :=
      client.batch_related hsim h hpaths.outputDirectory hpaths.output manifest
    rw [hsame, hsame']
    exact .of _ h
  · exact .of _ h

theorem fileExample_related (h : R world twin) (hpaths : PathsAllowed allowed settings) :
    Related R (fileExample client settings world sink)
      (fileExample client settings twin sink') := by
  unfold fileExample
  dsimp only
  rw [hsim.isPresent_eq h hpaths.manifestFile]
  split
  · obtain ⟨loaded, world, twin, hsame, hsame', h⟩ :=
      client.load_related hsim h hpaths.manifestFile
    rw [hsame, hsame']
    dsimp only
    split
    · exact .of _ h
    · obtain ⟨result, world, twin, hsame, hsame', h⟩ :=
        checkAndConvert_related hsim client h hpaths loaded.value
      rw [hsame, hsame']
      exact .of _ h
  · exact .of _ (hsim.note _ _ _ h)

theorem pageExample_related (h : R world twin) (settings : DemoSettings) :
    Related R (pageExample client settings world sink)
      (pageExample client settings twin sink') := by
  obtain ⟨page, world, twin, hsame, hsame', h⟩ := client.page_related hsim h settings.sampleUrl
  unfold pageExample
  rw [hsame, hsame']
  dsimp only
  split
  · exact .of _ h
  · exact .of _ h

theorem writeBelow_related (h : R world twin) (hdirectory : allowed directory)
    (hpath : allowed path) (content : String) :
    (writeBelow twin.files directory path content).1 =
        (writeBelow world.files directory path content).1 ∧
      R { world with files := (writeBelow world.files directory path content).2 }
        { twin with files := (writeBelow twin.files directory path content).2 } := by
  obtain ⟨hfault, h⟩ := hsim.ensureDirectory h hdirectory
  unfold writeBelow
  generalize world.files.ensureDirectory directory = ensured at hfault h ⊢
  generalize twin.files.ensureDirectory directory = ensured' at hfault h ⊢
  obtain ⟨fault?, files⟩ := ensured
  obtain ⟨fault?', files'⟩ := ensured'
  dsimp only at hfault h ⊢
  subst hfault
  cases fault?' with
  | some fault => exact ⟨rfl, h⟩
  | none =>
    have hwrite := hsim.writeText content h hpath
    dsimp only at hwrite ⊢
    generalize files.writeText path content = written at hwrite ⊢
    generalize files'.writeText path content = written' at hwrite ⊢
    cases hwrite with
    | fails fault => exact ⟨rfl, h⟩
    | done hlater => exact ⟨rfl, hlater⟩

theorem builtInExample_related (h : R world twin) (hpaths : PathsAllowed allowed settings) :
    Related R (builtInExample client settings world sink)
      (builtInExample client settings twin sink') := by
  obtain ⟨html, world, twin, hsame, hsame', h⟩ := client.convert_related hsim h .sample .html
  unfold builtInExample
  rw [hsame, hsame']
  dsimp only
  split
  · exact .of _ h
  · obtain ⟨hfault, h⟩ :=
      writeBelow_related hsim h hpaths.outputDirectory hpaths.generated html.value
    generalize writeBelow world.files settings.outputDirectory
      (Path.join settings.outputDirectory settings.generatedFile) html.value = written at hfault h ⊢
    generalize writeBelow twin.files settings.outputDirectory
      (Path.join settings.outputDirectory settings.generatedFile) html.value = written'
      at hfault h ⊢
    obtain ⟨fault?, files⟩ := written
    obtain ⟨fault?', files'⟩ := written'
    dsimp only at hfault h ⊢
    subst hfault
    cases fault?' with
    | none => exact .of _ h
    | some fault => exact .of _ h

/-- A session gives and says the same in related worlds. Its paths do not matter unless the server
is there. -/
theorem run_related (h : R world twin)
    (hpaths : (client.tryHealth world).1 = .ok () → PathsAllowed allowed settings) :
    Related R (run client settings world sink) (run client settings twin sink') := by
  rw [← client.health_iff world sink] at hpaths
  obtain ⟨healthy, world, twin, hsame, hsame', h⟩ := client.health_related hsim h
  rw [hsame] at hpaths
  unfold run
  rw [hsame, hsame']
  dsimp only at hpaths ⊢
  split
  · rename_i hhealthy
    have hpaths := hpaths hhealthy
    obtain ⟨file, world, twin, hsame, hsame', h⟩ := fileExample_related hsim client h hpaths
    rw [hsame, hsame']
    obtain ⟨page, world, twin, hsame, hsame', h⟩ := pageExample_related hsim client h settings
    dsimp only
    rw [hsame, hsame']
    obtain ⟨builtIn, world, twin, hsame, hsame', h⟩ :=
      builtInExample_related hsim client h hpaths
    dsimp only
    rw [hsame, hsame']
    exact .of _ h
  · exact .of _ h

end Demo

end PageManifest
