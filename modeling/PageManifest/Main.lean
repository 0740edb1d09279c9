import PageManifest.CommandLine
import PageManifest.Log.Stamp
import Std.Time.DateTime.Timestamp

/-!
# The program

Carries out a call on this machine: reads the files that the call may look at, and writes
those that it changes. The machine is taken to have no network.
-/

namespace PageManifest.Main

/-! ## Files of the machine -/

/-- What a path in a directory leads to. -/
def entryAt? (path : String) : IO (Option Entry) := do
  match ← (IO.FS.readBinFile path).toBaseIO with
  | .ok bytes => return some (.file bytes)
  | .error (.inappropriateType ..) => return some .directory
  | .error _ => return none

/-- The place that a path names. -/
def placeOf (workingDirectory : Place) (path : String) : Place :=
  if Path.isAbsolute path then Path.parts path else workingDirectory ++ Path.parts path

/-- The path of a place. -/
def pathOf (place : Place) : String := "/" ++ "/".intercalate place

/-- A place and the places above it, the highest first. -/
def placesTo (place : Place) : List Place :=
  (List.range place.length).map fun n => place.take (n + 1)

/-- The files at some paths, and what is above them. -/
def snapshot (workingDirectory : Place) (paths : List String) : IO FileTree :=
  (paths.flatMap fun path => placesTo (placeOf workingDirectory path)).foldlM
    (fun (tree : FileTree) place => do
      if tree.entry? place.dropLast ≠ some .directory then return tree
      match ← entryAt? (pathOf place) with
      | some entry => return tree.put place entry
      | none => return tree)
    ⟨[], workingDirectory⟩

/-- Puts an entry at a path. A link is made as a second name of what it leads to. -/
def place (path : String) : Entry → IO Unit
  | .directory => IO.FS.createDirAll path
  | .file bytes => IO.FS.writeBinFile path bytes
  | .link target => do
    discard (IO.FS.removeFile path).toBaseIO
    IO.FS.hardLink target path

/-- Makes the machine's files what they have become. -/
def settle (before after : FileTree) : IO Unit :=
  after.entries.forM fun (found, entry) =>
    if before.entry? found = some entry then pure () else place (pathOf found) entry

/-! ## Calls -/

/-- The directory that a variable names, or one below the user's own. -/
def directory (variableName below : String) : IO String := do
  let home := (← IO.getEnv "HOME").getD "/"
  match ← IO.getEnv variableName with
  | some path => return if Path.isAbsolute path then path else Path.join home below
  | none => return Path.join home below

/-- The call that is being made. -/
def call (arguments : List String) : IO CommandLine.Call := do
  let now ← Std.Time.Timestamp.now
  return {
    arguments
    configPath := Config.pathBelow (← directory "XDG_CONFIG_HOME" ".config")
    logDirectory := LogFile.directoryBelow (← directory "XDG_DATA_HOME" ".local/share")
    logFilter := ← IO.getEnv "RUST_LOG"
    stamp := Log.Stamp.ofSeconds now.toSecondsSinceUnixEpoch.val.toNat }

/-- The paths that a call may look at. -/
def pathsOf (call : CommandLine.Call) : List String :=
  [call.configPath, Path.join call.logDirectory (LogFile.nameAt call.stamp),
    LogFile.latestIn call.logDirectory]

end PageManifest.Main

open PageManifest in
/-- Carries out a call with some arguments. -/
def main (arguments : List String) : IO UInt32 := do
  let call ← Main.call arguments
  let workingDirectory := Path.parts (← IO.currentDir).toString
  let before ← Main.snapshot workingDirectory (Main.pathsOf call)
  let clock := (← IO.monoMsNow) / 1000
  let world : World :=
    { network := { obstacle := fun _ => some .unreachable, script := [], clock }, files := before }
  let (ending, after) := CommandLine.run call world
  Main.settle before after.files
  IO.print ending.output
  IO.eprint ending.errors
  return ending.code.toUInt32
