import PageManifest.Config.Basic
import PageManifest.FileTree.Operations
import PageManifest.Toml.Reader
import PageManifest.Toml.Typed

/-!
# Settings files

Settings are read from and written to settings files. Saving writes either all settings
or nothing.
-/

namespace PageManifest

/-! ## Fields -/

/-- A field that holds a text. -/
def textField {α : Type} (name expected : String) (set : String → α → α) : Toml.Field α :=
  ⟨name, fun item record => do return set (← item.text expected) record⟩

/-- A field that holds a truth value. -/
def flagField {α : Type} (name : String) (set : Bool → α → α) : Toml.Field α :=
  ⟨name, fun item record => do return set (← item.flag) record⟩

/-- The fields of glyphs. -/
def Icons.fields : List (Toml.Field Icons) :=
  [textField "success" "a string" fun text icons => { icons with success := text },
   textField "failure" "a string" fun text icons => { icons with failure := text },
   textField "info" "a string" fun text icons => { icons with info := text },
   textField "file" "a string" fun text icons => { icons with file := text },
   textField "url" "a string" fun text icons => { icons with url := text },
   textField "build" "a string" fun text icons => { icons with build := text }]

/-- The fields of server settings. -/
def ServerSettings.fields : List (Toml.Field ServerSettings) :=
  [textField "base_url" "a string" fun text settings => { settings with baseUrl := text },
   ⟨"timeout_secs", fun item settings => do return { settings with timeout := some (← item.count) }⟩]

/-- The fields of display settings. -/
def DisplaySettings.fields : List (Toml.Field DisplaySettings) :=
  [flagField "use_glyphs" fun flag settings => { settings with useGlyphs := flag },
   flagField "use_color" fun flag settings => { settings with useColor := flag },
   ⟨"icons", fun item settings => do
    return { settings with icons := ← Toml.putRecord "IconConfig" Icons.fields {} item }⟩]

/-- The fields of session settings. -/
def DemoSettings.fields : List (Toml.Field DemoSettings) :=
  [textField "manifest_file" "path string" fun text settings => { settings with manifestFile := text },
   textField "output_dir" "path string" fun text settings => { settings with outputDirectory := text },
   textField "sample_url" "a string" fun text settings => { settings with sampleUrl := text },
   textField "generated_file" "a string" fun text settings => { settings with generatedFile := text }]

namespace Config

/-- The fields of all settings. -/
def fields : List (Toml.Field Config) :=
  [⟨"server", fun item config => do
    return { config with server := ← Toml.putRecord "ServerConfig" ServerSettings.fields {} item }⟩,
   ⟨"display", fun item config => do
    return { config with
      display := ← Toml.putRecord "DisplayConfig" DisplaySettings.fields {} item }⟩,
   ⟨"demo", fun item config => do
    return { config with demo := ← Toml.putRecord "DemoConfig" DemoSettings.fields {} item }⟩]

/-! ## Reading and writing -/

/-- Why settings cannot be read or saved. -/
inductive Error where
  | toml (error : Toml.Error)
  /-- The number of seconds to wait is past the range of settings files. -/
  | timeoutOutOfRange
  | file (fault : FileFault)

/-- Why settings cannot be read or saved, in words. -/
def Error.message : Error → String
  | .toml error => error.message
  | .timeoutOutOfRange => "out-of-range value for u64 type"
  | .file fault => fault.message

/-- Reads settings. -/
def ofToml (text : String) : Except Error Config :=
  match Toml.read text with
  | .error error => .error (.toml error)
  | .ok entries =>
    match Toml.putEntries fields {} entries with
    | .error misfit => .error (.toml (misfit.toError text))
    | .ok config => .ok config.withUsableIcons

/-- A line with a key and a text. -/
def textLine (key text : String) : String := key ++ " = " ++ Toml.writeString text ++ "\n"

/-- A line with a key and a truth value. -/
def flagLine (key : String) (flag : Bool) : String :=
  key ++ " = " ++ (if flag then "true" else "false") ++ "\n"

/-- The greatest number that a settings file may hold. -/
def greatestNumber : UInt64 := 0x7FFFFFFFFFFFFFFF

/-- The line of the number of seconds to wait, if there is one. -/
def timeoutLine : Option UInt64 → Except Error String
  | none => .ok ""
  | some seconds =>
    if greatestNumber < seconds then .error .timeoutOutOfRange
    else .ok ("timeout_secs = " ++ toString seconds.toNat ++ "\n")

/-- Writes settings. -/
def toToml (config : Config) : Except Error String := do
  let timeout ← timeoutLine config.server.timeout
  let display := config.display
  let icons := display.icons
  let demo := config.demo
  return "[server]\n" ++ textLine "base_url" config.server.baseUrl ++ timeout ++
    "\n[display]\n" ++ flagLine "use_glyphs" display.useGlyphs ++
    flagLine "use_color" display.useColor ++
    "\n[display.icons]\n" ++ textLine "success" icons.success ++ textLine "failure" icons.failure ++
    textLine "info" icons.info ++ textLine "file" icons.file ++ textLine "url" icons.url ++
    textLine "build" icons.build ++
    "\n[demo]\n" ++ textLine "manifest_file" demo.manifestFile ++
    textLine "output_dir" demo.outputDirectory ++ textLine "sample_url" demo.sampleUrl ++
    textLine "generated_file" demo.generatedFile

/-- The default settings with a comment on each of them. -/
def commented : String :=
  "# Manifest Client Configuration File\n" ++
  "# Location: ~/.config/manifest-client/config.toml (Linux)\n" ++
  "#           ~/Library/Application Support/manifest-client/config.toml (macOS)\n" ++
  "#           %APPDATA%\\manifest-client\\config.toml (Windows)\n" ++
  "\n" ++
  "[server]\n" ++
  "# Base URL of the manifest server (start it with: npm start)\n" ++
  "base_url = \"http://localhost:3009\"\n" ++
  "\n" ++
  "# Request timeout in seconds (leave commented to wait indefinitely)\n" ++
  "# timeout_secs = 30\n" ++
  "\n" ++
  "[display]\n" ++
  "# Use Unicode glyphs for status lines\n" ++
  "# Set to false for ASCII-only mode (better compatibility)\n" ++
  "use_glyphs = true\n" ++
  "\n" ++
  "# Colour success/failure lines\n" ++
  "use_color = true\n" ++
  "\n" ++
  "# These are automatically set to ASCII when use_glyphs = false\n" ++
  "[display.icons]\n" ++
  "success = \"✅\"\n" ++
  "failure = \"❌\"\n" ++
  "info = \"ℹ️\"\n" ++
  "file = \"📄\"\n" ++
  "url = \"🌐\"\n" ++
  "build = \"🔧\"\n" ++
  "\n" ++
  "[demo]\n" ++
  "# Local manifest loaded, validated and batch converted\n" ++
  "manifest_file = \"../../manifests/examples/complete-page.yaml\"\n" ++
  "\n" ++
  "# Where converted outputs are written\n" ++
  "output_dir = \"./output\"\n" ++
  "\n" ++
  "# Page converted to a manifest by the URL example\n" ++
  "sample_url = \"https://example.com\"\n" ++
  "\n" ++
  "# File name for the HTML of the dynamically built manifest\n" ++
  "generated_file = \"python-generated.html\"\n"

/-! ## Files -/

/-- Where settings are kept below the directory for settings. -/
def pathBelow (directory : String) : String :=
  Path.join (Path.join directory "manifest-client") "config.toml"

/-- Reads a file of settings. -/
def loadFrom (tree : FileTree) (path : String) : Except Error Config :=
  match tree.readText path with
  | .ok text => ofToml text
  | .error fault => .error (.file fault)

/-- Reads a file of settings; there are the defaults if nothing is at its path. -/
def load (tree : FileTree) (path : String) : Except Error Config :=
  if tree.isPresent path then loadFrom tree path else .ok {}

/-- Creates the directory above a path, if there is one. -/
def ensureParent (tree : FileTree) (path : String) : Option FileFault × FileTree :=
  match Path.parent? path with
  | some parent => tree.ensureDirectory parent
  | none => (none, tree)

/-- Writes a file of settings. The directories above it are created even if the rest
fails. -/
def saveTo (config : Config) (tree : FileTree) (path : String) : Option Error × FileTree :=
  match ensureParent tree path with
  | (some fault, tree) => (some (.file fault), tree)
  | (none, tree) =>
    match config.toToml with
    | .error error => (some error, tree)
    | .ok text =>
      match tree.writeText path text with
      | .ok tree => (none, tree)
      | .error fault => (some (.file fault), tree)

end Config

end PageManifest
