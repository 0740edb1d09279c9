import PageManifest.Proofs.Demo.Simulation
import PageManifest.Proofs.FileTree.Outside
import PageManifest.Proofs.Log.File

/-!
# Sessions on trees that agree

Two worlds may differ in what is inside some directory (`Alongside`), such as the files to which
their records are written. Sessions whose paths stay outside of it run alike in both
(`simulates_alongside`).
-/

namespace PageManifest

open FileTree

variable {home : Place} {start tree : FileTree} {world twin : World} {sink sink' : Option Log.Sink}

/-- Two worlds have the same network, and files that agree outside a directory. -/
structure Alongside (home : Place) (start : FileTree) (world twin : World) : Prop where
  network_eq : twin.network = world.network
  agree : AgreeOutside home start world.files twin.files

/-- Records are written to a file inside a directory, or to none. -/
def KeptInside (home : Place) (sink : Option Log.Sink) : Prop :=
  ∀ log, sink = some log → home <+: log.file.place

theorem KeptInside.none (home : Place) : KeptInside home none := fun _ hlog => by cases hlog

/-- Noting a record writes its line to the log file, or nothing, whatever else there is. -/
theorem World.files_note_cases (level : Log.Level) (origin : Log.Origin) (message : String)
    (sink : Option Log.Sink) :
    (∀ world : World, (world.note level origin message sink).files = world.files) ∨
      ∃ log, sink = some log ∧ ∀ world : World, (world.note level origin message sink).files =
        log.file.write world.files (Log.Record.line ⟨level, origin, message⟩) := by
  cases sink with
  | none => exact .inl fun _ => rfl
  | some log =>
    cases hwanted : log.filter.passes ⟨level, origin, message⟩ with
    | false =>
      refine .inl fun world => ?_
      simp only [note, Log.Sink.write, hwanted, Bool.false_eq_true, if_false]
    | true =>
      refine .inr ⟨log, rfl, fun world => ?_⟩
      simp only [note, Log.Sink.write, hwanted, if_true]

theorem KeptInside.changed_of_note (h : KeptInside home sink) (world : World) (level : Log.Level)
    (origin : Log.Origin) (message : String) :
    ChangedInside home world.files (world.note level origin message sink).files := by
  obtain hnone | ⟨log, hlog, hwritten⟩ := World.files_note_cases level origin message sink
  · rw [hnone]
    exact .refl _ _
  · rw [hwritten]
    exact LogFile.changed_of_write (h log hlog) _ _

theorem World.workingDirectory_note (world : World) (level : Log.Level) (origin : Log.Origin)
    (message : String) (sink : Option Log.Sink) :
    (world.note level origin message sink).files.workingDirectory =
      world.files.workingDirectory := by
  have hinside : KeptInside [] sink := fun _ _ => List.nil_prefix
  exact (hinside.changed_of_note world level origin message).workingDirectory_eq

/-- Noting a record makes no link. -/
theorem World.link_of_note {level : Log.Level} {origin : Log.Origin} {message target : String}
    {place : Place}
    (h : (world.note level origin message sink).files.entry? place = some (.link target)) :
    world.files.entry? place = some (.link target) := by
  obtain hnone | ⟨log, -, hwritten⟩ := files_note_cases level origin message sink
  · rwa [hnone] at h
  · rw [hwritten] at h
    exact LogFile.link_of_write h

/-- Two worlds alongside each other may have the same record written to the same log. -/
theorem Alongside.note (h : Alongside home start world twin) (level : Log.Level)
    (origin : Log.Origin) (message : String) (sink : Option Log.Sink) :
    Alongside home start (world.note level origin message sink)
      (twin.note level origin message sink) := by
  have hnetwork : (twin.note level origin message sink).network =
      (world.note level origin message sink).network := by
    rw [World.network_note, World.network_note, h.network_eq]
  refine ⟨hnetwork, ?_⟩
  obtain hnone | ⟨log, -, hwritten⟩ := World.files_note_cases level origin message sink
  · rw [hnone, hnone]
    exact h.agree
  · rw [hwritten, hwritten]
    exact log.file.agree_of_write h.agree _

/-- The worlds stay alongside each other, since their records are written inside only. -/
theorem simulates_alongside (hsink : KeptInside home sink) (hsink' : KeptInside home sink') :
    Simulates (StaysOutside home start) sink sink' (Alongside home start) where
  network_eq h := h.network_eq
  withNetwork network h := ⟨rfl, h.agree⟩
  note level origin message h := by
    refine ⟨?_, h.agree.of_changes (hsink.changed_of_note _ level origin message)
      (hsink'.changed_of_note _ level origin message)⟩
    rw [World.network_note, World.network_note, h.network_eq]
  isPresent_eq h hpath := h.agree.isPresent_eq hpath
  readText_eq h hpath := h.agree.readText_eq hpath
  writeText text h hpath :=
    (h.agree.writeText hpath text).imp fun _ _ _ _ hlater => ⟨h.network_eq, hlater⟩
  ensureDirectory h hpath := by
    obtain ⟨hfault, hlater⟩ := h.agree.ensureDirectory hpath
    exact ⟨hfault, h.network_eq, hlater⟩

namespace Demo

/-- All paths at which a session reads or writes stay outside a directory. -/
structure PathsOutside (home : Place) (tree : FileTree) (settings : DemoSettings) : Prop where
  manifestFile : StaysOutside home tree settings.manifestFile
  outputDirectory : StaysOutside home tree settings.outputDirectory
  output : ∀ format, StaysOutside home tree (Client.outputPath settings.outputDirectory format)
  generated : StaysOutside home tree
    (Path.join settings.outputDirectory settings.generatedFile)

theorem PathsOutside.allowed {settings : DemoSettings} (h : PathsOutside home tree settings) :
    PathsAllowed (StaysOutside home tree) settings :=
  ⟨h.manifestFile, h.outputDirectory, h.output, h.generated⟩

end Demo

end PageManifest
