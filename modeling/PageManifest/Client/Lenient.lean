import PageManifest.Client.Batch

/-!
# Lenient operations

Each strict operation has a lenient one, which never fails. In place of an error it gives
a substitute, such as an empty page description, and says and notes what is wrong.
-/

namespace PageManifest

/-- What an operation gives, and what it says to the user. -/
structure Outcome (α : Type) where
  value : α
  lines : List StatusLine := []
deriving DecidableEq, Repr

namespace Client

/-- Gives a substitute in place of an error, which is said and noted behind some words. -/
def orReport {α : Type} (words : String) (substitute : Error → α)
    (outcome : Except Error α × World) (sink : Option Log.Sink := none) : Outcome α × World :=
  match outcome with
  | (.ok value, world) => ({ value }, world)
  | (.error error, world) =>
    let message := words ++ error.message
    ({ value := substitute error, lines := [.failure message] },
      world.note .error .client message sink)

/-- Whether the server is there. Nothing is said if it is not. -/
def health (client : Client) (world : World) (sink : Option Log.Sink := none) :
    Outcome Bool × World :=
  match client.tryHealth world sink with
  | (.ok (), world) => ({ value := true }, world)
  | (.error error, world) =>
    ({ value := false },
      world.note .debug .client
        ("Health check against " ++ client.baseUrl ++ " failed: " ++ error.message) sink)

/-- Gets a page description from its source, or an empty one. -/
def load (client : Client) (world : World) (source : String) (sink : Option Log.Sink := none) :
    Outcome Manifest × World :=
  orReport "Error loading manifest: " (fun _ => .empty) (client.tryLoad world source sink) sink

/-- Has the server make a page description of a page, or gives an empty one. -/
def page (client : Client) (world : World) (url : String) (sink : Option Log.Sink := none) :
    Outcome Manifest × World :=
  orReport "Error converting URL to manifest: " (fun _ => .empty)
    (client.tryPage world url sink) sink

/-- Has the server convert a page description, or gives an empty text. -/
def convert (client : Client) (world : World) (manifest : Manifest) (format : Format)
    (sink : Option Log.Sink := none) : Outcome String × World :=
  orReport ("Error converting to " ++ format.name ++ ": ") (fun _ => "")
    (client.tryConvert world manifest format sink) sink

/-- Has the server check a page description; a check that cannot be made has failed. -/
def validate (client : Client) (world : World) (manifest : Manifest)
    (sink : Option Log.Sink := none) : Outcome Validation × World :=
  orReport "Error validating manifest: " (fun error => .failed error.message)
    (client.tryValidate world manifest sink) sink

/-- Converts into every format; all of them have failed if there is no directory. -/
def batch (client : Client) (world : World) (manifest : Manifest) (directory : String)
    (sink : Option Log.Sink := none) : Outcome BatchReport × World :=
  match client.runBatch world manifest directory sink with
  | (.ok (report, lines), world) => ({ value := report, lines }, world)
  | (.error error, world) =>
    orReport "Cannot create output directory: " (fun error => .allFailed error.message)
      (.error error, world) sink

end Client

end PageManifest
