import PageManifest.Proofs.Demo.Course

/-!
# The source of the first example

The first example of a session is about a file, and is left out if there is no file at the path in
the settings. But that path is then loaded like any source: if it starts with a scheme, then it is
taken for an address and goes to the server, although a file is there (`Loading`). The example
works on what is loaded (`Worked`). So a session asks the server for the page of the second example
only, unless the path of the file starts with a scheme; then it asks for two pages (`run_sources`).
A path can be spelled like an address and lead to a file, since the slashes behind the colon count
as one.
-/

namespace PageManifest

namespace Demo

open Client

variable (client : Client) (settings : DemoSettings) (world : World)

/-- What is left to do behind the example of the file, if the server is there. -/
theorem run_of_healthy (hhealthy : (client.health world).1.value = true) :
    ∃ served : World, served.network = client.behindCalls world.network [.health] ∧
      served.files = world.files ∧
      (run client settings world).1.value.batch =
        (fileExample client settings served).1.value.batch ∧
      (run client settings world).1.value.validationErrors =
        (fileExample client settings served).1.value.validationErrors ∧
      (run client settings world).2.network =
        client.behindCalls (fileExample client settings served).2.network
          [.page settings.sampleUrl, .conversion .sample .html] := by
  obtain ⟨-, hcalled, hkept⟩ := client.health_call world
  unfold run
  generalize client.health world = outcome at hhealthy hcalled hkept ⊢
  obtain ⟨healthy, served⟩ := outcome
  dsimp only at hhealthy hcalled hkept ⊢
  refine ⟨served, hcalled, hkept, ?_⟩
  rw [if_pos hhealthy]
  generalize fileExample client settings served = outcome
  obtain ⟨file, loaded⟩ := outcome
  obtain ⟨-, hscraped, -⟩ := pageExample_call client settings loaded
  generalize pageExample client settings loaded = outcome at hscraped ⊢
  obtain ⟨page, scraped⟩ := outcome
  obtain ⟨-, hrendered, -⟩ := builtInExample_call client settings scraped
  generalize builtInExample client settings scraped = outcome at hrendered ⊢
  obtain ⟨builtIn, later⟩ := outcome
  dsimp only at hscraped hrendered ⊢
  refine ⟨rfl, rfl, ?_⟩
  rw [hrendered, hscraped]
  rfl

/-! ## Calls for pages -/

/-- Whether a call has a page description made of a page. -/
def isPage (one : Call) : Bool := one.path == pagePath

variable {client settings world}

@[simp] theorem isPage_health : isPage .health = false := by decide

@[simp] theorem isPage_page (url : String) : isPage (.page url) = true :=
  beq_self_eq_true pagePath

@[simp] theorem isPage_validation (manifest : Manifest) :
    isPage (.validation manifest) = false := by
  have hpath : (validationPath == pagePath) = false := by decide
  exact hpath

@[simp] theorem isPage_conversion (manifest : Manifest) (format : Format) :
    isPage (.conversion manifest format) = false := by
  have hpath : ∀ format : Format, (format.endpoint == pagePath) = false := by
    intro format
    cases format with
    | html => decide
    | react => decide
    | vue => decide
    | php => decide
  exact hpath format

theorem Loading.filter_isPage {path : String} {network : Http.Network} {files : FileTree}
    {manifest : Manifest} {calls : List Call}
    (h : Loading client path network files manifest calls) : calls.filter isPage = calls := by
  cases h with
  | file => rfl
  | page => simp

/-- What is checked and converted is not loaded again. -/
theorem Worked.filter_isPage {network : Http.Network} {files later : FileTree}
    {manifest : Manifest} {calls : List Call} {result : FileResult}
    (h : Worked client settings network files manifest calls result later) :
    calls.filter isPage = [] := by
  cases h with
  | nothing hempty => rfl
  | checked hempty hchecked =>
    cases hchecked with
    | unchecked => simp
    | invalid => simp
    | noDirectory => simp
    | converted => simp [List.filter_map]

/-! ## Sources -/

/-- The calls of a session that starts with those for the example of the file. -/
def callsWith (settings : DemoSettings) (loading working : List Call) : List Call :=
  .health :: (loading ++ working) ++ [.page settings.sampleUrl, .conversion .sample .html]

/-- What the first example of a session works on, where that comes from, and which calls and
requests the session makes for it and for all that follows. -/
structure Sourced (client : Client) (settings : DemoSettings) (world : World)
    (manifest : Manifest) (loading working : List Call) (result : FileResult)
    (ended : Outcome Summary × World) : Prop where
  /-- The page description is that of the file, just if its path does not start with a scheme. -/
  loads : Loading client settings.manifestFile (client.behindCalls world.network [.health])
    world.files manifest loading
  /-- Nothing else is checked and converted. -/
  works : ∃ later, Worked client settings (client.behindCalls world.network (.health :: loading))
    world.files manifest working result later
  batch_eq : ended.1.value.batch = result.batch
  validationErrors_eq : ended.1.value.validationErrors = result.validationErrors
  network_eq : ended.2.network =
    client.behindCalls world.network (callsWith settings loading working)
  requests_eq : ended.2.network.requests = world.network.requests ++
    (callsWith settings loading working).flatMap (client.sent world.network.obstacle)
  /-- The session has a page description made of the page of the second example, and before that
  of the path of the file if that is taken for an address. -/
  pages_eq : (callsWith settings loading working).filter isPage =
    loading ++ [.page settings.sampleUrl]

/-- If the file of the settings is there, then the first example works on what it gives, and the
page of the second example is the only one that the server is asked for, unless the path of the
file starts with a scheme. -/
theorem run_sources (hpresent : world.files.isPresent settings.manifestFile = true)
    (hhealthy : (client.health world).1.value = true)
    (hnowhere : ∀ target, Http.Network.LeadsNowhere world.network.script target) :
    ∃ manifest loading working result,
      Sourced client settings world manifest loading working result
        (run client settings world) := by
  obtain ⟨served, hnetwork, hfiles, hbatch, herrors, hcalls⟩ :=
    run_of_healthy client settings world hhealthy
  obtain ⟨manifest, loading, working, hloading, hworked, hworking⟩ :=
    exists_worked client settings served (hfiles ▸ hpresent)
  rw [hnetwork, hfiles] at hloading
  rw [hnetwork, hfiles, ← behindCalls_append] at hworked
  have hbehind : (run client settings world).2.network =
      client.behindCalls world.network (callsWith settings loading working) := by
    rw [hcalls, hworking, hnetwork, ← behindCalls_append, ← behindCalls_append]
    rfl
  refine ⟨manifest, loading, working, _, hloading, ⟨_, hworked⟩, hbatch, herrors, hbehind, ?_, ?_⟩
  · rw [hbehind, client.behindCalls_eq fun _ _ address _ => hnowhere address.target]
  · simp [callsWith, hloading.filter_isPage, hworked.filter_isPage]

/-! ## Paths like addresses -/

/-- One file, and another one in a directory that is called like a scheme. -/
def spelledFiles : FileTree where
  entries :=
    [(["page.yaml"], .file (Text.Utf8.encode "title: Page")), (["http:"], .directory),
      (["http:", "page.yaml"], .file (Text.Utf8.encode "title: Page"))]
  workingDirectory := []

/-- These files, and a server that is there and has no page descriptions. -/
def spelledWorld : World where
  network := { obstacle := fun _ => none, script := [("/health", [.answer 200 [] .empty 0])] }
  files := spelledFiles

theorem leadsNowhere_spelledWorld (target : String) :
    Http.Network.LeadsNowhere spelledWorld.network.script target := by
  refine Http.Network.leadsNowhere_of_entries (fun entry hentry => ?_) target
  cases List.mem_singleton.mp hentry
  intro status headers body missing hreply
  cases List.mem_singleton.mp hreply
  decide

theorem run_sources_of_file :
    let client : Client := { baseUrl := "http://localhost" }
    let settings : DemoSettings := { manifestFile := "page.yaml" }
    spelledWorld.files.isPresent settings.manifestFile = true ∧
      (client.health spelledWorld).1.value = true ∧
      (∀ target, Http.Network.LeadsNowhere spelledWorld.network.script target) ∧
      ∃ manifest loading working result,
        Sourced client settings spelledWorld manifest loading working result
          (run client settings spelledWorld) := by
  intro client settings
  have hthere : spelledWorld.files.isPresent settings.manifestFile = true ∧
      (client.health spelledWorld).1.value = true := by decide +kernel
  exact ⟨hthere.1, hthere.2, leadsNowhere_spelledWorld,
    run_sources hthere.1 hthere.2 leadsNowhere_spelledWorld⟩

/-- There is a file with a section at this path, which a session does not read: it has the server
make two page descriptions instead of one, and none is checked. -/
theorem pages_of_spelledFile :
    let client : Client := { baseUrl := "http://localhost" }
    let settings : DemoSettings := { manifestFile := "http://page.yaml" }
    (∀ target, Http.Network.LeadsNowhere spelledWorld.network.script target) ∧
      spelledFiles.isPresent settings.manifestFile = true ∧
      (Manifest.ofYamlFile spelledFiles settings.manifestFile).toOption.map Manifest.keys =
        some ["title"] ∧
      (client.health spelledWorld).1.value = true ∧
      (run client settings spelledWorld).2.network.requests.map (·.target) =
        [healthPath, pagePath, pagePath, Format.html.endpoint] ∧
      ((run client settings spelledWorld).2.network.requests.filter (·.target = pagePath)).map
          (·.body) =
        [pageBody settings.manifestFile, pageBody settings.sampleUrl] := by
  refine ⟨leadsNowhere_spelledWorld, ?_⟩
  decide +kernel

end Demo

end PageManifest
