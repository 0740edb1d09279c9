import PageManifest.FileTree.Basic
import PageManifest.Format.Basic
import PageManifest.Http.Failure
import PageManifest.Http.Status
import PageManifest.Json.Error
import PageManifest.Yaml.Error

/-!
# Errors

Everything that can keep an operation on page descriptions from succeeding.
-/

namespace PageManifest

/-- Why an operation fails. -/
inductive Error where
  /-- A server gives no complete answer. -/
  | http (failure : Http.Failure)
  /-- A server answers, but not with success. -/
  | status (code : Http.Status) (body : String)
  | yaml (error : Yaml.Error)
  | json (error : Json.Error)
  | file (path : String) (fault : FileFault)
  /-- A server converts into nothing. -/
  | emptyOutput (format : Format)
  | unsupportedFormat (name : String)
  /-- A document holds something else than a page description. -/
  | notMapping (found : Value)

/-- Why an operation fails, in words. -/
def Error.message : Error → String
  | .http failure => "HTTP error: " ++ failure.message
  | .status code body => "server returned " ++ code.phrase ++ ": " ++ body
  | .yaml error => "YAML parse error: " ++ error.message
  | .json error => "JSON error: " ++ error.message
  | .file path fault => path ++ ": " ++ fault.message
  | .emptyOutput format => "server returned no " ++ format.name ++ " output"
  | .unsupportedFormat name => "unsupported format: " ++ name
  | .notMapping found =>
    "invalid manifest: expected a mapping at the document root, found " ++ found.kind

end PageManifest
