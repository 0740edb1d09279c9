import PageManifest.FileTree.Operations
import PageManifest.Http.Network
import PageManifest.Log.Sink

/-!
# Worlds

What operations can see and change: the network, the files and the log. Nothing that they
say to the user is part of it.
-/

namespace PageManifest

/-- The surroundings of a client. -/
structure World where
  network : Http.Network
  files : FileTree
  /-- The records so far, in order. -/
  log : List Log.Record := []

namespace World

/-- Adds a record to the log. If there is a file for them, it is written there at once. -/
def note (world : World) (level : Log.Level) (origin : Log.Origin) (message : String)
    (sink : Option Log.Sink := none) : World :=
  let record : Log.Record := ⟨level, origin, message⟩
  match sink with
  | none => { world with log := world.log ++ [record] }
  | some sink =>
    { world with files := sink.write world.files record, log := world.log ++ [record] }

@[simp] theorem network_note (world : World) (level : Log.Level) (origin : Log.Origin)
    (message : String) (sink : Option Log.Sink) :
    (world.note level origin message sink).network = world.network := by
  cases sink <;> rfl

@[simp] theorem files_note (world : World) (level : Log.Level) (origin : Log.Origin)
    (message : String) : (world.note level origin message).files = world.files := rfl

end World

end PageManifest
