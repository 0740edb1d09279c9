/-!
# Log records

What happens is noted in records. Each has a level and the part of the program that it
comes from.
-/

namespace PageManifest.Log

/-- How important a record is, the most important first. -/
inductive Level where
  | error
  | warn
  | info
  | debug
  | trace
deriving DecidableEq, Repr

namespace Level

/-- The name of a level. -/
def name : Level → String
  | .error => "ERROR"
  | .warn => "WARN"
  | .info => "INFO"
  | .debug => "DEBUG"
  | .trace => "TRACE"

/-- How many levels are at least as important. -/
def rank : Level → Nat
  | .error => 1
  | .warn => 2
  | .info => 3
  | .debug => 4
  | .trace => 5

end Level

/-- The parts of the program that write records. -/
inductive Origin where
  | main
  | client
  | demo
  | logging
deriving DecidableEq, Repr

/-- The name of a part of the program. -/
def Origin.name : Origin → String
  | .main => "manifest_client"
  | .client => "manifest_client::api_client"
  | .demo => "manifest_client::demo"
  | .logging => "manifest_client::logging"

/-- A note of what happened. -/
structure Record where
  level : Level
  origin : Origin
  message : String
deriving DecidableEq, Repr

namespace Record

/-- A record as it stands in a log, its level on the right of five columns. -/
def line (record : Record) : String :=
  let name := record.level.name
  let indent := String.ofList (List.replicate (5 - name.length) ' ')
  indent ++ name ++ " " ++ record.origin.name ++ ": " ++ record.message ++ "\n"

end Record

end PageManifest.Log
