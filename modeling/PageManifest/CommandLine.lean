import PageManifest.Config.File
import PageManifest.Demo

/-!
# The command line

A call without arguments runs the example session and keeps a log of it, to which each record is
written as soon as it is noted. The arguments `--help` and `--generate-config` count wherever they
stand; any other one is an error.
-/

namespace PageManifest.CommandLine

/-- What a call depends on besides the world. -/
structure Call where
  arguments : List String := []
  /-- Where the settings are kept. -/
  configPath : String
  /-- Where logs are kept. -/
  logDirectory : String
  /-- Which records are wanted. -/
  logFilter : Option String := none
  /-- The time of the call, as it stands in names of log files. -/
  stamp : String
  /-- What is printed about a crash. -/
  crashReport : String := "overflow when adding duration to instant\n"
deriving DecidableEq, Repr

/-- What a call ends with: its code, and what it has printed. -/
structure Ending where
  code : UInt8 := 0
  output : String := ""
  errors : String := ""
deriving DecidableEq, Repr

/-- The code of a call that did not do its work. -/
def failureCode : UInt8 := 1

/-- The code of a call that was not understood. -/
def misuseCode : UInt8 := 2

/-- The code of a call that crashed. -/
def crashCode : UInt8 := 101

/-! ## Help -/

/-- Some lines as one text. -/
def ofLines (lines : List String) : String := String.join (lines.map (· ++ "\n"))

/-- How to call the program. -/
def help (configPath : String) : String :=
  ofLines
    [Text.paintBold .blue "Manifest Client - Modular YAML Manifest System examples",
      "",
      Text.paint .yellow "Usage:",
      "  manifest-client [OPTIONS]",
      "",
      Text.paint .yellow "Options:",
      "  " ++ Text.paint .green "--generate-config" ++ " - Write a commented default config file",
      "  " ++ Text.paint .green "--help" ++ "            - Show this help",
      "",
      "Settings are read from " ++ configPath,
      "Set RUST_LOG (e.g. RUST_LOG=debug) to also mirror the log on stderr."]

/-- The end of a call with an argument that is not known. -/
def unknownArgument (call : Call) (argument : String) : Ending :=
  { code := misuseCode, output := help call.configPath
    errors := ofLines [Text.paint .red ("Unknown argument: " ++ argument)] }

/-! ## Settings -/

/-- Writes the commented settings, over those that are there. -/
def generateConfig (call : Call) (world : World) : Ending × World :=
  let ended := fun (fault : FileFault) (files : FileTree) =>
    (({ code := failureCode, errors := ofLines ["Error: " ++ fault.message] } : Ending),
      { world with files })
  match Config.ensureParent world.files call.configPath with
  | (some fault, files) => ended fault files
  | (none, files) =>
    match files.writeText call.configPath Config.commented with
    | .error fault => ended fault files
    | .ok files =>
      ({ output := ofLines
          ["Configuration file created at: " ++ Text.Quoted.quote call.configPath,
            "Edit this file to point the client at your manifest server."] },
        { world with files })

/-- The settings to use: the defaults if they cannot be read, which is noted. -/
def settings (call : Call) (world : World) (sink : Option Log.Sink := none) : Config × World :=
  match Config.load world.files call.configPath with
  | .ok config => (config, world)
  | .error error =>
    ({}, world.note .warn .main ("Could not read config, using defaults: " ++ error.message) sink)

/-! ## The session and its log -/

/-- The record that a log starts with. -/
def firstRecord : Log.Record := ⟨.debug, .logging, "Logging initialized"⟩

/-- Starts a log: its file, if one can be created, which has the first record if it is wanted. -/
def openLog (call : Call) (world : World) : Option Log.Sink × World :=
  let (file, files) := LogFile.create world.files call.logDirectory call.stamp
  let sink : Option Log.Sink :=
    file.toOption.map fun file => ⟨file, .ofVariable call.logFilter⟩
  (sink,
    { world with files }.note firstRecord.level firstRecord.origin firstRecord.message sink)

/-- Runs the example session with some settings. There is no outcome if it crashes, which it does
at its first request or not at all. -/
def sessionWith (config : Config) (sink : Option Log.Sink) (world : World) :
    Option (Outcome Demo.Summary) × World :=
  let client := Client.ofConfig config
  let world := world.note .info .main ("Using manifest server at " ++ client.baseUrl) sink
  if client.crashes world.network Client.healthPath then
    (none, client.noteRequest world .get Client.healthPath sink)
  else
    let (outcome, world) := Demo.run client config.demo world sink
    (some outcome, world)

/-- Runs the example session with the settings that are there, which say how it prints. -/
def session (call : Call) (sink : Option Log.Sink) (world : World) :
    (Option (Outcome Demo.Summary) × Console) × World :=
  let (config, world) := settings call world sink
  let (outcome, world) := sessionWith config sink world
  ((outcome, (Client.ofConfig config).console), world)

/-- The records of a log that are wanted on the error output. -/
def copied (call : Call) (records : List Log.Record) : String :=
  if Log.Filter.wantsCopy call.logFilter then
    (Log.Filter.ofVariable call.logFilter).select records
  else ""

/-- The line that says where the log is. -/
def announcement : Option Log.Sink → String
  | some sink => ofLines ["📝 Logs will be written to: " ++ sink.file.path]
  | none => ""

/-- What a session ends with. Without a server the call has failed. -/
def sessionCode : Option (Outcome Demo.Summary) → UInt8
  | some outcome => if outcome.value.serverHealthy then 0 else failureCode
  | none => crashCode

/-- Runs the example session and keeps a log of it. -/
def runSession (call : Call) (world : World) : Ending × World :=
  let earlier := world.log
  let (sink, world) := openLog call world
  let ((outcome, console), world) := session call sink { world with log := [] }
  ({ code := sessionCode outcome
     output := (outcome.map fun outcome => console.transcript outcome.lines).getD ""
     errors := copied call [firstRecord] ++ announcement sink ++ copied call world.log ++
        (if outcome.isNone then call.crashReport else "") },
    { world with log := earlier ++ firstRecord :: world.log })

/-! ## Calls -/

/-- Carries out a call. -/
def run (call : Call) (world : World) : Ending × World :=
  if call.arguments.any fun argument => argument == "--help" || argument == "-h" then
    ({ output := help call.configPath }, world)
  else if call.arguments.contains "--generate-config" then generateConfig call world
  else
    match call.arguments with
    | argument :: _ => (unknownArgument call argument, world)
    | [] => runSession call world

end PageManifest.CommandLine
