import PageManifest.Proofs.Client.Calls

/-!
# The course of the example session

The session asks whether the server is there, and does nothing more if it is not. Else the
example of the file comes, then that of the page, and then that of the built-in page, whatever
came of the ones before. `Course` says which calls that makes, with which summary and files;
the calls depend on the answers to those before them. Every session takes such a course and
makes no other calls (`run_course`).
-/

namespace PageManifest

namespace Demo

open Client

/-! ## Courses -/

/-- The file of a session is there, and gives a page description with sections. -/
structure Loads (settings : DemoSettings) (files : FileTree) (manifest : Manifest) : Prop where
  isPresent : files.isPresent settings.manifestFile = true
  ofYamlFile_eq : Manifest.ofYamlFile files settings.manifestFile = .ok manifest
  isEmpty_eq : manifest.isEmpty = false

/-- The verdict on a page description that a call gets. -/
def verdictOn (client : Client) (network : Http.Network) (manifest : Manifest) :
    Except Error Validation :=
  (successText (client.call network (.validation manifest)).1).bind verdict

/-- The course of the example of the file, which may end at each of its steps: the calls that
it makes, what it has done, and the files behind it. -/
inductive FileCourse (client : Client) (settings : DemoSettings) (network : Http.Network)
    (files : FileTree) : List Call → FileResult → FileTree → Prop
  /-- There is no file, or it gives no sections. -/
  | nothingLoaded (h : ∀ manifest, ¬ Loads settings files manifest) :
      FileCourse client settings network files [] {} files
  /-- There is no verdict. -/
  | unchecked {manifest : Manifest} {error : Error} (h : Loads settings files manifest)
      (hverdict : verdictOn client network manifest = .error error) :
      FileCourse client settings network files [.validation manifest]
        { validationErrors := [error.message] } files
  | invalid {manifest : Manifest} {validation : Validation} (h : Loads settings files manifest)
      (hverdict : verdictOn client network manifest = .ok validation)
      (hinvalid : validation.valid = false) :
      FileCourse client settings network files [.validation manifest]
        { validationErrors := validation.errors } files
  /-- The batch has no directory. -/
  | noDirectory {manifest : Manifest} {validation : Validation} {before later : World}
      {error : Error} (h : Loads settings files manifest)
      (hverdict : verdictOn client network manifest = .ok validation)
      (hvalid : validation.valid = true)
      (hnetwork : before.network = client.behindCalls network [.validation manifest])
      (hfiles : before.files = files)
      (hdirectory : ¬ files.CanEnsure settings.outputDirectory)
      (hbatch : client.tryBatch before manifest settings.outputDirectory = (.error error, later)) :
      FileCourse client settings network files [.validation manifest]
        { batch := some (.allFailed error.message) } later.files
  | converted {manifest : Manifest} {validation : Validation} {before later : World}
      {report : BatchReport} (h : Loads settings files manifest)
      (hverdict : verdictOn client network manifest = .ok validation)
      (hvalid : validation.valid = true)
      (hnetwork : before.network = client.behindCalls network [.validation manifest])
      (hfiles : before.files = files)
      (hdirectory : files.CanEnsure settings.outputDirectory)
      (hbatch : client.tryBatch before manifest settings.outputDirectory = (.ok report, later)) :
      FileCourse client settings network files
        ([.validation manifest] ++ Format.all.map (.conversion manifest))
        { batch := some report } later.files

/-- What the check of a page description and the batch of a valid one come to: the calls that they
make, what they have done, and the files behind them. -/
inductive Checked (client : Client) (settings : DemoSettings) (network : Http.Network)
    (files : FileTree) (manifest : Manifest) : List Call → FileResult → FileTree → Prop
  /-- There is no verdict. -/
  | unchecked {error : Error} (hverdict : verdictOn client network manifest = .error error) :
      Checked client settings network files manifest [.validation manifest]
        { validationErrors := [error.message] } files
  | invalid {validation : Validation}
      (hverdict : verdictOn client network manifest = .ok validation)
      (hinvalid : validation.valid = false) :
      Checked client settings network files manifest [.validation manifest]
        { validationErrors := validation.errors } files
  /-- The batch has no directory. -/
  | noDirectory {validation : Validation} {before later : World} {error : Error}
      (hverdict : verdictOn client network manifest = .ok validation)
      (hvalid : validation.valid = true)
      (hnetwork : before.network = client.behindCalls network [.validation manifest])
      (hfiles : before.files = files)
      (hdirectory : ¬ files.CanEnsure settings.outputDirectory)
      (hbatch : client.tryBatch before manifest settings.outputDirectory = (.error error, later)) :
      Checked client settings network files manifest [.validation manifest]
        { batch := some (.allFailed error.message) } later.files
  | converted {validation : Validation} {before later : World} {report : BatchReport}
      (hverdict : verdictOn client network manifest = .ok validation)
      (hvalid : validation.valid = true)
      (hnetwork : before.network = client.behindCalls network [.validation manifest])
      (hfiles : before.files = files)
      (hdirectory : files.CanEnsure settings.outputDirectory)
      (hbatch : client.tryBatch before manifest settings.outputDirectory = (.ok report, later)) :
      Checked client settings network files manifest
        ([.validation manifest] ++ Format.all.map (.conversion manifest))
        { batch := some report } later.files

/-- If the page description comes from the file, that is the course of its example. -/
theorem Checked.fileCourse {client : Client} {settings : DemoSettings} {network : Http.Network}
    {files later : FileTree} {manifest : Manifest} {calls : List Call} {result : FileResult}
    (h : Checked client settings network files manifest calls result later)
    (hloads : Loads settings files manifest) :
    FileCourse client settings network files calls result later := by
  cases h with
  | unchecked hverdict => exact .unchecked hloads hverdict
  | invalid hverdict hinvalid => exact .invalid hloads hverdict hinvalid
  | noDirectory hverdict hvalid hnetwork hfiles hdirectory hbatch =>
    exact .noDirectory hloads hverdict hvalid hnetwork hfiles hdirectory hbatch
  | converted hverdict hvalid hnetwork hfiles hdirectory hbatch =>
    exact .converted hloads hverdict hvalid hnetwork hfiles hdirectory hbatch

/-- A page description, or the empty one if there is an error instead. -/
def orEmpty : Except Error Manifest → Manifest
  | .ok manifest => manifest
  | .error _ => .empty

/-- Where a page description is loaded from, and the calls which that makes. -/
inductive Loading (client : Client) (path : String) (network : Http.Network) (files : FileTree) :
    Manifest → List Call → Prop
  | file (h : Source.startsWithScheme path = false) :
      Loading client path network files (orEmpty (Manifest.ofYamlFile files path)) []
  /-- The server makes a page description of the page. No file is read. -/
  | page (h : Source.startsWithScheme path = true) :
      Loading client path network files
        (orEmpty ((successText (client.call network (.page path)).1).bind Manifest.ofJson))
        [.page path]

/-- What the example of the file does with a page description: nothing if it has no sections. -/
inductive Worked (client : Client) (settings : DemoSettings) (network : Http.Network)
    (files : FileTree) (manifest : Manifest) : List Call → FileResult → FileTree → Prop
  | nothing (hempty : manifest.isEmpty = true) :
      Worked client settings network files manifest [] {} files
  | checked {calls : List Call} {result : FileResult} {later : FileTree}
      (hempty : manifest.isEmpty = false)
      (h : Checked client settings network files manifest calls result later) :
      Worked client settings network files manifest calls result later

/-- The sections of the page description that a call gets, if there are any. -/
def sections? (outcome : Except Http.Failure Http.Answer) : Option (List String) :=
  match (successText outcome).bind Manifest.ofJson with
  | .ok manifest => if manifest.isEmpty then none else some manifest.keys
  | .error _ => none

/-- Where the built-in page is saved, if the call for it gets a text and that can be written,
and the files behind that. -/
def saved (settings : DemoSettings) (files : FileTree)
    (outcome : Except Http.Failure Http.Answer) : Option String × FileTree :=
  match successText outcome with
  | .ok text =>
    if text.isEmpty then (none, files)
    else
      let path := Path.join settings.outputDirectory settings.generatedFile
      match writeBelow files settings.outputDirectory path text with
      | (none, later) => (some path, later)
      | (some _, later) => (none, later)
  | .error _ => (none, files)

/-- The course of a session: the calls that it makes, its summary, and the files behind it. -/
inductive Course (client : Client) (settings : DemoSettings) (world : World) :
    List Call → Summary → FileTree → Prop
  | noServer (h : ∀ answer, success (client.call world.network .health).1 ≠ .ok answer) :
      Course client settings world [.health] {} world.files
  | served {answer : Http.Answer} {calls : List Call} {file : FileResult} {files : FileTree}
      {page html : Except Http.Failure Http.Answer}
      (h : success (client.call world.network .health).1 = .ok answer)
      (hfile : FileCourse client settings (client.behindCalls world.network [.health])
        world.files calls file files)
      (hpage : page = (client.call (client.behindCalls world.network (.health :: calls))
        (.page settings.sampleUrl)).1)
      (hhtml : html = (client.call
        (client.behindCalls world.network (.health :: calls ++ [.page settings.sampleUrl]))
        (.conversion .sample .html)).1) :
      Course client settings world
        (.health :: calls ++ [.page settings.sampleUrl, .conversion .sample .html])
        { serverHealthy := true
          batch := file.batch
          validationErrors := file.validationErrors
          pageKeys := sections? page
          generatedFile := (saved settings files html).1 }
        (saved settings files html).2

/-! ## The examples -/

variable (client : Client) (settings : DemoSettings) (world : World)

/-- The check of a page description, and the batch of a valid one. -/
theorem exists_checked (manifest : Manifest) :
    ∃ calls, Checked client settings world.network world.files manifest calls
        (checkAndConvert client settings manifest world).1.value
        (checkAndConvert client settings manifest world).2.files ∧
      (checkAndConvert client settings manifest world).2.network =
        client.behindCalls world.network calls := by
  obtain ⟨hanswer, hnetwork, hfiles⟩ := client.tryValidate_call world manifest
  have hreport := orReport_eq "Error validating manifest: " (fun error => .failed error.message)
    (client.tryValidate world manifest)
  rw [hanswer, hnetwork, hfiles, ← validate, ← verdictOn] at hreport
  unfold checkAndConvert
  generalize client.validate world manifest = validated at hreport ⊢
  obtain ⟨outcome, checked⟩ := validated
  obtain ⟨hvalue, hcalled, hkept⟩ := hreport
  dsimp only at hvalue hcalled hkept ⊢
  cases hverdict : verdictOn client world.network manifest with
  | error error =>
    rw [hverdict] at hvalue
    rw [hvalue]
    exact ⟨[.validation manifest], hkept ▸ .unchecked hverdict, hcalled⟩
  | ok validation =>
    rw [hverdict] at hvalue
    rw [hvalue]
    cases hvalid : validation.valid with
    | false => exact ⟨[.validation manifest], hkept ▸ .invalid hverdict hvalid, hcalled⟩
    | true =>
      rcases client.batch_cases checked manifest settings.outputDirectory with
        ⟨report, later, hbatch, hreport, hlater⟩ |
          ⟨error, later, hbatch, hreport, hnetwork, hfiles⟩
      · obtain ⟨hdirectory, hconverted⟩ := client.tryBatch_of_ok checked hbatch
        refine ⟨[.validation manifest] ++ Format.all.map (.conversion manifest), ?_, ?_⟩
        · rw [if_pos rfl, hreport, hlater]
          exact .converted hverdict hvalid hcalled hkept (hkept ▸ hdirectory) hbatch
        · rw [if_pos rfl, hlater, hconverted, behindCalls_append, hcalled]
          rfl
      · obtain ⟨hdirectory, huncalled⟩ := client.tryBatch_of_error checked hbatch
        refine ⟨[.validation manifest], ?_, ?_⟩
        · rw [if_pos rfl, hreport, hfiles]
          exact .noDirectory hverdict hvalid hcalled hkept (hkept ▸ hdirectory) hbatch
        · rw [if_pos rfl, hnetwork, huncalled, hcalled]
          rfl

theorem load_loading (path : String) :
    ∃ calls, Loading client path world.network world.files (client.load world path).1.value calls ∧
      (client.load world path).2.network = client.behindCalls world.network calls ∧
      (client.load world path).2.files = world.files := by
  obtain ⟨hvalue, hnetwork, hfiles⟩ := orReport_eq "Error loading manifest: "
    (fun _ => Manifest.empty) (client.tryLoad world path)
  have horEmpty : (client.load world path).1.value = orEmpty (client.tryLoad world path).1 := by
    rw [load, hvalue]
    cases (client.tryLoad world path).1 with
    | ok manifest => rfl
    | error error => rfl
  rw [← load] at hnetwork hfiles
  rw [horEmpty, hnetwork, hfiles]
  cases hscheme : Source.startsWithScheme path with
  | false =>
    obtain ⟨hanswer, huncalled, hkept⟩ := client.tryLoad_of_file world hscheme
    rw [hanswer, huncalled, hkept]
    exact ⟨[], .file hscheme, rfl, rfl⟩
  | true =>
    obtain ⟨hanswer, hcalled, hkept⟩ := client.tryPage_call world path
    rw [client.tryLoad_of_scheme world hscheme, hanswer, hcalled, hkept]
    exact ⟨[.page path], .page hscheme, rfl, rfl⟩

/-- The example of a file that is there works on what is loaded from its path. -/
theorem exists_worked (hpresent : world.files.isPresent settings.manifestFile = true) :
    ∃ manifest loading working,
      Loading client settings.manifestFile world.network world.files manifest loading ∧
      Worked client settings (client.behindCalls world.network loading) world.files manifest working
        (fileExample client settings world).1.value (fileExample client settings world).2.files ∧
      (fileExample client settings world).2.network =
        client.behindCalls world.network (loading ++ working) := by
  obtain ⟨loading, hloading, hcalled, hkept⟩ := load_loading client world settings.manifestFile
  unfold fileExample
  dsimp only
  rw [if_pos hpresent]
  generalize client.load world settings.manifestFile = outcome at hloading hcalled hkept ⊢
  obtain ⟨loaded, later⟩ := outcome
  dsimp only at hloading hcalled hkept ⊢
  cases hempty : loaded.value.isEmpty with
  | true =>
    refine ⟨loaded.value, loading, [], hloading, hkept ▸ .nothing hempty, ?_⟩
    rw [if_pos rfl, List.append_nil]
    exact hcalled
  | false =>
    obtain ⟨working, hchecked, hcalls⟩ := exists_checked client settings later loaded.value
    rw [hcalled, hkept] at hchecked
    rw [hcalled, ← behindCalls_append] at hcalls
    generalize checkAndConvert client settings loaded.value later = checked at hchecked hcalls ⊢
    rw [if_neg Bool.false_ne_true]
    exact ⟨loaded.value, loading, working, hloading, .checked hempty hchecked, hcalls⟩

theorem exists_fileCourse (hfile : Source.startsWithScheme settings.manifestFile = false) :
    ∃ calls, FileCourse client settings world.network world.files calls
        (fileExample client settings world).1.value
        (fileExample client settings world).2.files ∧
      (fileExample client settings world).2.network =
        client.behindCalls world.network calls := by
  by_cases hpresent : world.files.isPresent settings.manifestFile = true
  · obtain ⟨manifest, loading, working, hloading, hworked, hcalls⟩ :=
      exists_worked client settings world hpresent
    cases hloading with
    | page hscheme => cases hfile.symm.trans hscheme
    | file =>
      refine ⟨working, ?_, hcalls⟩
      generalize (fileExample client settings world).1.value = result at hworked ⊢
      generalize (fileExample client settings world).2.files = later at hworked ⊢
      cases hworked with
      | nothing hempty =>
        refine .nothingLoaded fun manifest hloads => ?_
        rw [hloads.ofYamlFile_eq, orEmpty, hloads.isEmpty_eq] at hempty
        cases hempty
      | checked hempty hchecked =>
        refine hchecked.fileCourse ⟨hpresent, ?_, hempty⟩
        cases hread : Manifest.ofYamlFile world.files settings.manifestFile with
        | ok manifest => rfl
        | error error =>
          rw [hread] at hempty
          cases hempty
  · unfold fileExample
    dsimp only
    rw [if_neg hpresent]
    exact ⟨[], .nothingLoaded fun manifest hloads => hpresent hloads.isPresent, rfl⟩

theorem pageExample_call :
    (pageExample client settings world).1.value =
        sections? (client.call world.network (.page settings.sampleUrl)).1 ∧
      (pageExample client settings world).2.network =
        (client.call world.network (.page settings.sampleUrl)).2 ∧
      (pageExample client settings world).2.files = world.files := by
  obtain ⟨hanswer, hnetwork, hfiles⟩ := client.tryPage_call world settings.sampleUrl
  have hreport := orReport_eq "Error converting URL to manifest: " (fun _ => Manifest.empty)
    (client.tryPage world settings.sampleUrl)
  rw [hanswer, hnetwork, hfiles, ← page] at hreport
  unfold pageExample sections?
  generalize client.page world settings.sampleUrl = outcome at hreport ⊢
  obtain ⟨page, later⟩ := outcome
  obtain ⟨hvalue, hcalled, hkept⟩ := hreport
  dsimp only at hvalue hcalled hkept ⊢
  rw [← hcalled, ← hkept, hvalue]
  generalize (successText (client.call world.network (.page settings.sampleUrl)).1).bind
    Manifest.ofJson = read
  cases read with
  | error error => exact ⟨rfl, rfl, rfl⟩
  | ok manifest =>
    dsimp only
    split
    · exact ⟨rfl, rfl, rfl⟩
    · exact ⟨rfl, rfl, rfl⟩

theorem builtInExample_call :
    (builtInExample client settings world).1.value =
        (saved settings world.files
          (client.call world.network (.conversion .sample .html)).1).1 ∧
      (builtInExample client settings world).2.network =
        (client.call world.network (.conversion .sample .html)).2 ∧
      (builtInExample client settings world).2.files =
        (saved settings world.files
          (client.call world.network (.conversion .sample .html)).1).2 := by
  obtain ⟨hanswer, hnetwork, hfiles⟩ := client.tryConvert_call world .sample .html
  have hreport := orReport_eq ("Error converting to " ++ Format.html.name ++ ": ") (fun _ => "")
    (client.tryConvert world .sample .html)
  rw [hanswer, hnetwork, hfiles, ← convert] at hreport
  unfold builtInExample saved
  generalize client.convert world .sample .html = outcome at hreport ⊢
  obtain ⟨html, later⟩ := outcome
  obtain ⟨hvalue, hcalled, hkept⟩ := hreport
  dsimp only at hvalue hcalled hkept ⊢
  rw [← hcalled, ← hkept, hvalue]
  generalize successText (client.call world.network (.conversion .sample .html)).1 = answered
  cases answered with
  | error error => exact ⟨rfl, rfl, rfl⟩
  | ok text =>
    dsimp only
    split
    · exact ⟨rfl, rfl, rfl⟩
    · generalize writeBelow later.files settings.outputDirectory
        (Path.join settings.outputDirectory settings.generatedFile) text = written
      obtain ⟨fault?, files⟩ := written
      cases fault? with
      | none => exact ⟨rfl, rfl, rfl⟩
      | some fault => exact ⟨rfl, rfl, rfl⟩

/-! ## The session -/

/-- Every session with a file for its page description takes a course, and makes no calls but
those of its course. -/
theorem run_course (hfile : Source.startsWithScheme settings.manifestFile = false) :
    ∃ calls, Course client settings world calls (run client settings world).1.value
        (run client settings world).2.files ∧
      (run client settings world).2.network = client.behindCalls world.network calls := by
  obtain ⟨hhealth, hcalled, hkept⟩ := client.health_call world
  unfold run
  generalize client.health world = outcome at hhealth hcalled hkept ⊢
  obtain ⟨healthy, served⟩ := outcome
  dsimp only at hhealth hcalled hkept ⊢
  by_cases hserver : healthy.value = true
  · rw [if_pos hserver]
    obtain ⟨answer, hanswer⟩ := hhealth.mp hserver
    obtain ⟨calls, hcourse, hcalls⟩ := exists_fileCourse client settings served hfile
    generalize fileExample client settings served = outcome at hcourse hcalls ⊢
    obtain ⟨file, loaded⟩ := outcome
    obtain ⟨hpage, hscraped, hunchanged⟩ := pageExample_call client settings loaded
    generalize pageExample client settings loaded = outcome at hpage hscraped hunchanged ⊢
    obtain ⟨page, scraped⟩ := outcome
    obtain ⟨hbuiltIn, hrendered, hsaved⟩ := builtInExample_call client settings scraped
    generalize builtInExample client settings scraped = outcome at hbuiltIn hrendered hsaved ⊢
    obtain ⟨builtIn, later⟩ := outcome
    dsimp only at *
    rw [hcalled, hkept] at hcourse
    have hbefore : loaded.network = client.behindCalls world.network (.health :: calls) := by
      rw [hcalls, hcalled]
      rfl
    have hbehind : scraped.network =
        client.behindCalls world.network (.health :: calls ++ [.page settings.sampleUrl]) := by
      rw [behindCalls_concat, hscraped, hbefore]
    rw [hbefore] at hpage
    rw [hbehind] at hbuiltIn hrendered hsaved
    rw [hunchanged] at hbuiltIn hsaved
    refine ⟨.health :: calls ++ [.page settings.sampleUrl, .conversion .sample .html], ?_, ?_⟩
    · rw [hpage, hbuiltIn, hsaved]
      exact .served hanswer hcourse rfl rfl
    · have hlast : Call.health :: calls ++ [.page settings.sampleUrl, .conversion .sample .html] =
          (.health :: calls ++ [.page settings.sampleUrl]) ++ [.conversion .sample .html] := by
        rw [List.append_assoc, List.singleton_append]
      rw [hrendered, hlast]
      exact (client.behindCalls_concat _ _ _).symm
  · rw [if_neg hserver]
    refine ⟨[.health], ?_, hcalled⟩
    rw [hkept]
    exact .noServer fun answer hanswer => hserver (hhealth.mpr ⟨answer, hanswer⟩)

theorem run_course_of_page :
    Source.startsWithScheme "page.yaml" = false ∧
      let client : Client := { baseUrl := "http://localhost" }
      let settings : DemoSettings := { manifestFile := "page.yaml" }
      let world : World :=
        { network :=
            { obstacle := fun _ => none
              script := [("/health", [.answer 200 [] .empty 0])] }
          files :=
            { entries := [(["page.yaml"], .file (Text.Utf8.encode "metadata: null"))]
              workingDirectory := [] } }
      ∃ calls, Course client settings world calls (run client settings world).1.value
          (run client settings world).2.files ∧
        (run client settings world).2.network = client.behindCalls world.network calls := by
  have hfile : Source.startsWithScheme "page.yaml" = false := by decide
  exact ⟨hfile, run_course _ _ _ hfile⟩

end Demo

end PageManifest
