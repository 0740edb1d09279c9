import PageManifest.Demo

/-!
# Sessions of commands

A command is one operation of a client with what it works on. In strict manner a failure
is an error and nothing is said; in lenient manner there is a substitute. A session is a
list of commands that are carried out one after the other.
-/

namespace PageManifest.Session

/-- What happens if a command fails. -/
inductive Manner where
  | strict
  | lenient
deriving DecidableEq, Repr

/-- One operation of a client. -/
inductive Command where
  | health
  | load (source : String)
  | page (url : String)
  | convert (manifest : Manifest) (format : Format)
  | validate (manifest : Manifest)
  | batch (manifest : Manifest) (directory : String)
  /-- The example session, which is lenient in any manner. -/
  | demo (settings : DemoSettings)

/-- What a command gives. -/
inductive Result where
  | health (isThere : Bool)
  | manifest (manifest : Manifest)
  | text (text : String)
  | validation (validation : Validation)
  | report (report : BatchReport)
  | summary (summary : Demo.Summary)
  | error (error : Error)

/-- The result of a strict operation. -/
def strictly {α : Type} (wrap : α → Result) : Except Error α × World → Outcome Result × World
  | (.ok value, world) => ({ value := wrap value }, world)
  | (.error error, world) => ({ value := .error error }, world)

/-- The result of a lenient operation. -/
def leniently {α : Type} (wrap : α → Result) : Outcome α × World → Outcome Result × World
  | (outcome, world) => ({ value := wrap outcome.value, lines := outcome.lines }, world)

/-- Carries out a command. -/
def Command.perform (client : Client) (world : World) :
    Manner → Command → Outcome Result × World
  | .strict, .health => strictly (fun _ => .health true) (client.tryHealth world)
  | .strict, .load source => strictly .manifest (client.tryLoad world source)
  | .strict, .page url => strictly .manifest (client.tryPage world url)
  | .strict, .convert manifest format => strictly .text (client.tryConvert world manifest format)
  | .strict, .validate manifest => strictly .validation (client.tryValidate world manifest)
  | .strict, .batch manifest directory =>
    strictly .report (client.tryBatch world manifest directory)
  | .lenient, .health => leniently .health (client.health world)
  | .lenient, .load source => leniently .manifest (client.load world source)
  | .lenient, .page url => leniently .manifest (client.page world url)
  | .lenient, .convert manifest format => leniently .text (client.convert world manifest format)
  | .lenient, .validate manifest => leniently .validation (client.validate world manifest)
  | .lenient, .batch manifest directory =>
    leniently .report (client.batch world manifest directory)
  | _, .demo settings => leniently .summary (Demo.run client settings world)

/-- What a command gives, and what is printed meanwhile. -/
structure Turn where
  result : Result
  printed : String

/-- Carries out a command and prints what it says. -/
def turn (client : Client) (world : World) (manner : Manner) (command : Command) :
    Turn × World :=
  let (outcome, world) := command.perform client world manner
  ({ result := outcome.value, printed := client.console.transcript outcome.lines }, world)

/-- Carries out some commands one after the other. -/
def run (client : Client) : List (Manner × Command) → World → List Turn × World
  | [], world => ([], world)
  | (manner, command) :: commands, world =>
    let (first, world) := turn client world manner command
    let (others, world) := run client commands world
    (first :: others, world)

end PageManifest.Session
