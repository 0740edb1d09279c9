import PageManifest.Client.Basic

/-!
# Batches

A batch converts one page description into every format and saves what comes out. A format
that fails does not keep the others from being converted.
-/

namespace PageManifest

/-- What became of each format in a batch, in the order of conversion. -/
structure BatchReport where
  /-- The formats whose output was saved, and where. -/
  written : List (Format × String) := []
  /-- The formats without output, and why. -/
  failed : List (Format × String) := []
deriving DecidableEq, Repr

namespace BatchReport

/-- Whether every format was written. -/
def isComplete (report : BatchReport) : Bool := report.failed.isEmpty

/-- Where the output of a format was saved. -/
def writtenPath? (report : BatchReport) (format : Format) : Option String :=
  report.written.lookup format

/-- Why a format has no output. -/
def failure? (report : BatchReport) (format : Format) : Option String :=
  report.failed.lookup format

/-- No format was written, for one reason. -/
def allFailed (message : String) : BatchReport :=
  { failed := Format.all.map fun format => (format, message) }

/-- A report with the result of one more format in front. -/
def withResult (report : BatchReport) (format : Format) : Except Error String → BatchReport
  | .ok path => { report with written := (format, path) :: report.written }
  | .error error => { report with failed := (format, error.message) :: report.failed }

end BatchReport

namespace Client

/-- Where a batch saves the output of a format. -/
def outputPath (directory : String) (format : Format) : String :=
  Path.join directory format.outputFile

/-- Saves the output of a format. -/
def saveOutput (world : World) (directory : String) (format : Format) (content : String) :
    Except Error String × World :=
  let path := outputPath directory format
  match world.files.writeText path content with
  | .ok files => (.ok path, { world with files })
  | .error fault => (.error (.file path fault), world)

/-- Converts into a format and saves the output, if there is any. -/
def convertAndSave (client : Client) (world : World) (manifest : Manifest) (directory : String)
    (format : Format) (sink : Option Log.Sink := none) : Except Error String × World :=
  match client.tryConvert world manifest format sink with
  | (.error error, world) => (.error error, world)
  | (.ok content, world) =>
    if content.isEmpty then (.error (.emptyOutput format), world)
    else saveOutput world directory format content

/-- What is said about a format that failed. -/
def failureText (format : Format) (error : Error) : String :=
  "Failed to convert to " ++ format.name ++ ": " ++ error.message

/-- Notes the result of a format. -/
def noteResult (world : World) (format : Format) (result : Except Error String)
    (sink : Option Log.Sink := none) : World :=
  match result with
  | .ok path => world.note .info .client ("Saved " ++ format.name ++ " output to " ++ path) sink
  | .error error => world.note .warn .client (failureText format error) sink

/-- What is said about a format: that it is being converted, and with what result. -/
def resultLines (format : Format) (result : Except Error String) : List StatusLine :=
  [.progress ("Converting to " ++ format.name ++ "..."),
    match result with
    | .ok path => .success ("Saved: " ++ path)
    | .error error => .failure (failureText format error)]

/-- Converts into some formats one after the other. -/
def convertEach (client : Client) (manifest : Manifest) (directory : String)
    (formats : List Format) (world : World) (sink : Option Log.Sink := none) :
    (BatchReport × List StatusLine) × World :=
  match formats with
  | [] => (({}, []), world)
  | format :: formats =>
    let (result, world) := client.convertAndSave world manifest directory format sink
    let world := noteResult world format result sink
    let ((report, lines), world) := client.convertEach manifest directory formats world sink
    ((report.withResult format result, resultLines format result ++ lines), world)

/-- Converts into every format and saves the outputs in a directory, which is created if it
is not there. -/
def runBatch (client : Client) (world : World) (manifest : Manifest) (directory : String)
    (sink : Option Log.Sink := none) :
    Except Error (BatchReport × List StatusLine) × World :=
  match world.files.ensureDirectory directory with
  | (some fault, files) => (.error (.file directory fault), { world with files })
  | (none, files) =>
    let (results, world) :=
      client.convertEach manifest directory Format.all { world with files } sink
    (.ok results, world)

/-- Converts into every format; only a directory that cannot be created is an error. -/
def tryBatch (client : Client) (world : World) (manifest : Manifest) (directory : String)
    (sink : Option Log.Sink := none) : Except Error BatchReport × World :=
  let (result, world) := client.runBatch world manifest directory sink
  (result.map (·.1), world)

end Client

end PageManifest
