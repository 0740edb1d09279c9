import PageManifest.Client.Lenient
import PageManifest.Manifest.Sample
import PageManifest.Text.Quoted

/-!
# The example session

A session shows what a client can do, provided that its server is there: it converts a
page description from a file, has one made of a page, and renders the built-in one. The
three examples do not depend on each other.
-/

namespace PageManifest.Demo

/-- What a session has done. -/
structure Summary where
  serverHealthy : Bool := false
  /-- What became of the file, if its page description is valid. -/
  batch : Option BatchReport := none
  /-- What is wrong with the page description in the file. -/
  validationErrors : List String := []
  /-- The sections of the page description made of a page. -/
  pageKeys : Option (List String) := none
  /-- Where the built-in page was saved. -/
  generatedFile : Option String := none
deriving DecidableEq, Repr

/-! ## What is said -/

/-- The row of a format in the table of a batch. -/
def summaryRow (report : BatchReport) (format : Format) : List String :=
  [format.name,
    match report.writtenPath? format, report.failure? format with
    | some path, _ => path
    | none, some message => "failed: " ++ message
    | none, none => ""]

/-- The table of a batch. -/
def summaryTable (report : BatchReport) : Text.Table where
  header := [{ text := "Format", isBold := true }, { text := "Result", isBold := true }]
  rows := Format.all.map (summaryRow report)

/-- Some texts between quotes, as a list. -/
def quotedList (texts : List String) : String :=
  "[" ++ ", ".intercalate (texts.map Text.Quoted.quote) ++ "]"

/-! ## A file -/

/-- What the example of a file has done. -/
structure FileResult where
  batch : Option BatchReport := none
  validationErrors : List String := []
deriving DecidableEq, Repr

/-- Has a page description checked, and converted into every format if it is valid. -/
def checkAndConvert (client : Client) (settings : DemoSettings) (manifest : Manifest)
    (world : World) (sink : Option Log.Sink := none) : Outcome FileResult × World :=
  let (verdict, world) := client.validate world manifest sink
  if verdict.value.valid then
    let (batch, world) := client.batch world manifest settings.outputDirectory sink
    ({ value := { batch := some batch.value }
       lines := verdict.lines ++ .success "Manifest is valid" :: batch.lines ++
        [.table (summaryTable batch.value)] }, world)
  else
    ({ value := { validationErrors := verdict.value.errors }
       lines := verdict.lines ++ .failure "Manifest validation failed:" ::
        verdict.value.errors.map .detail }, world)

/-- Loads a page description from a file and converts it, if the file exists. -/
def fileExample (client : Client) (settings : DemoSettings) (world : World)
    (sink : Option Log.Sink := none) : Outcome FileResult × World :=
  let path := settings.manifestFile
  if world.files.isPresent path then
    let heading := StatusLine.heading .file ("Loading manifest: " ++ path)
    let (loaded, world) := client.load world path sink
    if loaded.value.isEmpty then ({ value := {}, lines := heading :: loaded.lines }, world)
    else
      let (result, world) := checkAndConvert client settings loaded.value world sink
      ({ result with lines := heading :: loaded.lines ++ result.lines }, world)
  else
    ({ value := {} },
      world.note .info .demo ("Skipping local manifest example, " ++ path ++ " not found") sink)

/-! ## A page -/

/-- Has a page description made of a page: its sections, if there are any. -/
def pageExample (client : Client) (settings : DemoSettings) (world : World)
    (sink : Option Log.Sink := none) : Outcome (Option (List String)) × World :=
  let heading := StatusLine.heading .url "Converting URL to manifest..."
  let (page, world) := client.page world settings.sampleUrl sink
  if page.value.isEmpty then ({ value := none, lines := heading :: page.lines }, world)
  else
    let keys := page.value.keys
    ({ value := some keys
       lines := heading :: page.lines ++ [.success "URL converted to manifest",
        .progress ("Structure: " ++ quotedList keys)] }, world)

/-! ## The built-in page -/

/-- Creates a directory and writes a file in it. The directory stays even if the file
cannot be written. -/
def writeBelow (tree : FileTree) (directory path content : String) : Option FileFault × FileTree :=
  match tree.ensureDirectory directory with
  | (some fault, tree) => (some fault, tree)
  | (none, tree) =>
    match tree.writeText path content with
    | .ok tree => (none, tree)
    | .error fault => (some fault, tree)

/-- Renders the built-in page description: where it was saved, if it was. -/
def builtInExample (client : Client) (settings : DemoSettings) (world : World)
    (sink : Option Log.Sink := none) : Outcome (Option String) × World :=
  let heading := StatusLine.heading .build "Creating dynamic manifest..."
  let (html, world) := client.convert world .sample .html sink
  if html.value.isEmpty then ({ value := none, lines := heading :: html.lines }, world)
  else
    let path := Path.join settings.outputDirectory settings.generatedFile
    match writeBelow world.files settings.outputDirectory path html.value with
    | (none, files) =>
      ({ value := some path
         lines := heading :: html.lines ++
          [.success "Dynamic manifest converted and saved"] }, { world with files })
    | (some fault, files) =>
      ({ value := none
         lines := heading :: html.lines ++
          [.failure ("Could not write " ++ path ++ ": " ++ fault.message)] },
        { world with files })

/-! ## The session -/

/-- Runs the session. Without a server nothing is done. -/
def run (client : Client) (settings : DemoSettings) (world : World)
    (sink : Option Log.Sink := none) : Outcome Summary × World :=
  let (healthy, world) := client.health world sink
  if healthy.value then
    let (file, world) := fileExample client settings world sink
    let (page, world) := pageExample client settings world sink
    let (builtIn, world) := builtInExample client settings world sink
    ({ value :=
        { serverHealthy := true, batch := file.value.batch
          validationErrors := file.value.validationErrors, pageKeys := page.value
          generatedFile := builtIn.value }
       lines := healthy.lines ++ .success "Connected to manifest server" ::
        file.lines ++ page.lines ++ builtIn.lines }, world)
  else
    ({ value := {}
       lines := healthy.lines ++ [.failure "Manifest server is not running!",
        .progress "Start it with: npm start"] }, world)

end PageManifest.Demo
