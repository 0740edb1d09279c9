import PageManifest.FileTree.Operations
import PageManifest.Json.Typed
import PageManifest.Json.Writer
import PageManifest.Manifest.Basic
import PageManifest.Text.Blank
import PageManifest.Yaml.Reader

/-!
# Reading page descriptions

Page descriptions are read from YAML and JSON text and written as JSON text.
-/

namespace PageManifest.Manifest

/-- Reads a YAML text. One with blank characters only is an empty page description. -/
def ofYaml (text : String) : Except Error Manifest :=
  if Text.isBlankText text then .ok empty
  else
    match Yaml.read text with
    | .ok value => ofValue value
    | .error error => .error (.yaml error)

/-- Reads a JSON text. -/
def ofJson (text : String) : Except Error Manifest :=
  match Json.read text with
  | .ok value => ofValue value
  | .error error => .error (.json error)

/-- Reads a JSON text that holds an object. -/
def ofJsonObject (text : String) : Except Json.Error Manifest :=
  match Json.readWhole Json.object text with
  | .ok entries => .ok ⟨entries⟩
  | .error error => .error error

/-- Reads a file of YAML text. -/
def ofYamlFile (tree : FileTree) (path : String) : Except Error Manifest :=
  match tree.readText path with
  | .ok text => ofYaml text
  | .error fault => .error (.file path fault)

/-- The page description as JSON text. -/
def toJson (manifest : Manifest) : String := Json.write manifest.toValue

end PageManifest.Manifest
