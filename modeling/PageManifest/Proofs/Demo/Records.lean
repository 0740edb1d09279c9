import PageManifest.Proofs.Demo.Outside
import PageManifest.Proofs.Log.Writers

/-!
# Sessions and their records

A session does not read its records. Without log files, worlds that differ in them only are the same
to it (`simulates_sameFiles`). It drops none of them, either (`Demo.run_extends`).

With log files, each record is written as soon as it is noted, so that a log file always has what it
had at first, and behind it the lines of the records that are wanted there (`HasRecords`). Two log
files at one place may differ in what is wanted: sessions whose paths stay off that place have the
same records, and each has its part of them in the file (`simulates_sameRecords`).
-/

namespace PageManifest

open FileTree

variable {start : FileTree} {world twin : World} {sink sink' : Log.Sink} {first : Option Entry}
  {before : ByteArray}

/-! ## Without log files -/

/-- Two worlds have the same network and the same files. -/
structure SameFiles (world twin : World) : Prop where
  network_eq : twin.network = world.network
  files_eq : twin.files = world.files

theorem FileTree.paired_self {R : FileTree → FileTree → Prop} (h : ∀ tree, R tree tree)
    (result : Except FileFault FileTree) : Paired R result result := by
  cases result with
  | error fault => exact .fails fault
  | ok later => exact .done (h later)

/-- All paths are allowed. -/
theorem simulates_sameFiles : Simulates (fun _ => True) none none SameFiles where
  network_eq h := h.network_eq
  withNetwork network h := ⟨rfl, h.files_eq⟩
  note level origin message h := ⟨h.network_eq, h.files_eq⟩
  isPresent_eq h _ := by rw [h.files_eq]
  readText_eq h _ := by rw [h.files_eq]
  writeText text h _ := by
    rw [h.files_eq]
    exact paired_self (fun _ => ⟨h.network_eq, rfl⟩) _
  ensureDirectory h _ := by
    rw [h.files_eq]
    exact ⟨rfl, h.network_eq, rfl⟩

/-! ## Records that stay -/

theorem World.log_note (world : World) (level : Log.Level) (origin : Log.Origin)
    (message : String) (sink : Option Log.Sink) :
    (world.note level origin message sink).log = world.log ++ [⟨level, origin, message⟩] := by
  cases sink <;> rfl

theorem World.note_of_unwanted {level : Log.Level} {origin : Log.Origin} {message : String}
    (h : sink.filter.passes ⟨level, origin, message⟩ = false) (world : World) :
    world.note level origin message (some sink) = world.note level origin message := by
  unfold note Log.Sink.write
  dsimp only
  rw [h, if_neg Bool.false_ne_true]

/-- A world, compared with itself, goes on with the records that it has. -/
theorem simulates_extending (front : List Log.Record) (sink : Option Log.Sink) :
    Simulates (fun _ => True) sink sink fun world twin =>
      twin = world ∧ front <+: world.log where
  network_eq h := by rw [h.1]
  withNetwork network h := ⟨by rw [h.1], h.2⟩
  note level origin message h := by
    refine ⟨by rw [h.1], h.2.trans ?_⟩
    rw [World.log_note]
    exact List.prefix_append _ _
  isPresent_eq h _ := by rw [h.1]
  readText_eq h _ := by rw [h.1]
  writeText text h _ := by
    rw [h.1]
    exact paired_self (fun _ => ⟨rfl, h.2⟩) _
  ensureDirectory h _ := by
    rw [h.1]
    exact ⟨rfl, rfl, h.2⟩

/-- A session drops no record. -/
theorem Demo.run_extends (client : Client) (settings : DemoSettings) (world : World)
    (sink : Option Log.Sink) : world.log <+: (run client settings world sink).2.log := by
  obtain ⟨outcome, later, -, hended, -, -, hextends⟩ :=
    run_related (simulates_extending world.log sink) client ⟨rfl, List.prefix_refl _⟩
      fun _ => (.all settings)
  rw [hended]
  exact hextends

/-! ## With log files -/

theorem Log.Filter.select_append (filter : Log.Filter) (records others : List Log.Record) :
    filter.select (records ++ others) = filter.select records ++ filter.select others := by
  simp only [select, List.filter_append, List.map_append, String.join_append]

theorem Log.Filter.select_singleton (filter : Log.Filter) (record : Log.Record) :
    filter.select [record] = if filter.passes record then record.line else "" := by
  unfold select
  split
  · rename_i hwanted
    rw [List.filter_cons_of_pos hwanted]
    simp
  · rename_i hwanted
    rw [List.filter_cons_of_neg hwanted]
    rfl

/-- The log file has what it had at first, and the lines of the records that are wanted there. -/
def HasRecords (sink : Log.Sink) (before : ByteArray) (world : World) : Prop :=
  world.files.entry? sink.file.place =
    some (.file (before ++ Text.Utf8.encode (sink.filter.select world.log)))

/-- Noting one more record keeps this up, be it wanted or not. -/
theorem HasRecords.note (h : HasRecords sink before world) (level : Log.Level)
    (origin : Log.Origin) (message : String) :
    HasRecords sink before (world.note level origin message (some sink)) := by
  have hne := LogFile.place_ne_nil_of_file h
  unfold HasRecords World.note Log.Sink.write
  dsimp only
  rw [Log.Filter.select_append, Log.Filter.select_singleton, LogFile.encode_append,
    ← ByteArray.append_assoc]
  split
  · rw [LogFile.write_of_file h, entry?_put_self _ hne]
  · rw [h]
    simp [Text.Utf8.encode]

/-- What is written elsewhere keeps this up, too. -/
theorem HasRecords.withFiles {files : FileTree} (h : HasRecords sink before world)
    (hkept : KeepsInside sink.file.place world.files files) :
    HasRecords sink before { world with files } :=
  (hkept _ _ (List.prefix_refl _)).mpr h

/-- Two worlds have the same records, and the same files but for the log file. If it was a file at
first, then each of them has written the records to it that are wanted there. -/
structure SameRecords (start : FileTree) (first : Option Entry) (sink sink' : Log.Sink)
    (world twin : World) : Prop where
  alongside : Alongside sink.file.place start world twin
  log_eq : twin.log = world.log
  hasRecords : ∀ before, first = some (.file before) → HasRecords sink before world
  hasRecords' : ∀ before, first = some (.file before) → HasRecords sink' before twin

/-- A world without records may be compared with itself. -/
theorem SameRecords.of_log_eq_nil (hlog : world.log = [])
    (hplace : sink'.file.place = sink.file.place) :
    SameRecords world.files (world.files.entry? sink.file.place) sink sink' world world := by
  have hrecords : ∀ (sink : Log.Sink) before,
      world.files.entry? sink.file.place = some (.file before) → HasRecords sink before world := by
    intro sink before hfirst
    have hnone : sink.filter.select [] = "" := rfl
    have hempty : Text.Utf8.encode "" = .empty := rfl
    rw [HasRecords, hlog, hfirst, hnone, hempty, ByteArray.append_empty]
  exact ⟨⟨rfl, .refl _ _⟩, rfl, hrecords sink, hplace ▸ hrecords sink'⟩

theorem simulates_sameRecords (hplace : sink'.file.place = sink.file.place) :
    Simulates (StaysOutside sink.file.place start) (some sink) (some sink')
      (SameRecords start first sink sink') := by
  have hsink : KeptInside sink.file.place (some sink) := by
    rintro _ ⟨⟩
    exact List.prefix_refl _
  have hsink' : KeptInside sink.file.place (some sink') := by
    rintro _ ⟨⟩
    exact hplace ▸ List.prefix_refl _
  have hsim : Simulates (StaysOutside sink.file.place start) (some sink) (some sink')
    (Alongside sink.file.place start) := simulates_alongside hsink hsink'
  constructor
  case network_eq =>
    intro world twin h
    exact h.alongside.network_eq
  case withNetwork =>
    intro world twin network h
    exact ⟨hsim.withNetwork network h.alongside, h.log_eq, h.hasRecords, h.hasRecords'⟩
  case note =>
    intro world twin level origin message h
    refine ⟨hsim.note level origin message h.alongside, ?_,
      fun before hfirst => (h.hasRecords before hfirst).note _ _ _,
      fun before hfirst => (h.hasRecords' before hfirst).note _ _ _⟩
    rw [World.log_note, World.log_note, h.log_eq]
  case isPresent_eq =>
    intro world twin path h hpath
    exact hsim.isPresent_eq h.alongside hpath
  case readText_eq =>
    intro world twin path h hpath
    exact hsim.readText_eq h.alongside hpath
  case writeText =>
    intro world twin path text h hpath
    have hagree := h.alongside.agree
    refine (hsim.writeText text h.alongside hpath).imp
      fun files files' hwrite hwrite' hlater => ⟨hlater, h.log_eq, ?_, ?_⟩
    · exact fun before hfirst => (h.hasRecords before hfirst).withFiles
        (hagree.keepsInside_of_writeText hpath hwrite)
    · exact fun before hfirst => (h.hasRecords' before hfirst).withFiles
        (hplace ▸ hagree.right.keepsInside_of_writeText hpath hwrite')
  case ensureDirectory =>
    intro world twin path h hpath
    obtain ⟨hfault, hlater⟩ := hsim.ensureDirectory h.alongside hpath
    exact ⟨hfault, hlater, h.log_eq,
      fun before hfirst => (h.hasRecords before hfirst).withFiles
        (keepsInside_of_ensureDirectory _ _ path),
      fun before hfirst => (h.hasRecords' before hfirst).withFiles
        (keepsInside_of_ensureDirectory _ _ path)⟩

end PageManifest
