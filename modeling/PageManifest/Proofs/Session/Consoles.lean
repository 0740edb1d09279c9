import PageManifest.Session

/-!
# Sessions and consoles

A console decides how the lines of a session look and nothing else. Two sessions of the same
commands whose clients differ in the console only have the same results and leave the same
world, that is the same requests, files and records; and what they print are the same lines,
each in the look of its own console (`run_withConsole`).
-/

namespace PageManifest

namespace Client

/-- The same client with another console. -/
def withConsole (client : Client) (console : Console) : Client := { client with console }

variable (client : Client) (console : Console)

/-! ## Operations -/

theorem baseUrl_withConsole : (client.withConsole console).baseUrl = client.baseUrl := rfl

theorem console_withConsole : (client.withConsole console).console = console := rfl

theorem exchange_withConsole (world : World) (method : Http.Method) (path : String)
    (body : Option String) :
    (client.withConsole console).exchange world method path body =
      client.exchange world method path body := by
  rfl

theorem tryHealth_withConsole (world : World) :
    (client.withConsole console).tryHealth world = client.tryHealth world := by
  simp only [tryHealth, exchange_withConsole]

theorem askFor_withConsole (world : World) (path body : String) :
    (client.withConsole console).askFor world path body = client.askFor world path body := by
  simp only [askFor, exchange_withConsole]

theorem tryPage_withConsole (world : World) (url : String) :
    (client.withConsole console).tryPage world url = client.tryPage world url := by
  simp only [tryPage, askFor_withConsole]

theorem tryLoad_withConsole (world : World) (source : String) :
    (client.withConsole console).tryLoad world source = client.tryLoad world source := by
  simp only [tryLoad, tryPage_withConsole]

theorem tryConvert_withConsole (world : World) (manifest : Manifest) (format : Format) :
    (client.withConsole console).tryConvert world manifest format =
      client.tryConvert world manifest format := by
  simp only [tryConvert, askFor_withConsole]

theorem tryValidate_withConsole (world : World) (manifest : Manifest) :
    (client.withConsole console).tryValidate world manifest =
      client.tryValidate world manifest := by
  simp only [tryValidate, askFor_withConsole]

/-- The formats of a batch are converted one after the other, so this is by induction on
them. -/
theorem convertEach_withConsole (manifest : Manifest) (directory : String)
    (formats : List Format) (world : World) :
    (client.withConsole console).convertEach manifest directory formats world =
      client.convertEach manifest directory formats world := by
  induction formats generalizing world with
  | nil => rfl
  | cons format formats ih =>
    simp only [convertEach, convertAndSave, tryConvert_withConsole, ih]

theorem runBatch_withConsole (world : World) (manifest : Manifest) (directory : String) :
    (client.withConsole console).runBatch world manifest directory =
      client.runBatch world manifest directory := by
  simp only [runBatch, convertEach_withConsole]

theorem tryBatch_withConsole (world : World) (manifest : Manifest) (directory : String) :
    (client.withConsole console).tryBatch world manifest directory =
      client.tryBatch world manifest directory := by
  simp only [tryBatch, runBatch_withConsole]

theorem batch_withConsole (world : World) (manifest : Manifest) (directory : String) :
    (client.withConsole console).batch world manifest directory =
      client.batch world manifest directory := by
  simp only [batch, runBatch_withConsole]

theorem health_withConsole (world : World) :
    (client.withConsole console).health world = client.health world := by
  simp only [health, tryHealth_withConsole, baseUrl_withConsole]

theorem load_withConsole (world : World) (source : String) :
    (client.withConsole console).load world source = client.load world source := by
  simp only [load, tryLoad_withConsole]

theorem page_withConsole (world : World) (url : String) :
    (client.withConsole console).page world url = client.page world url := by
  simp only [page, tryPage_withConsole]

theorem convert_withConsole (world : World) (manifest : Manifest) (format : Format) :
    (client.withConsole console).convert world manifest format =
      client.convert world manifest format := by
  simp only [convert, tryConvert_withConsole]

theorem validate_withConsole (world : World) (manifest : Manifest) :
    (client.withConsole console).validate world manifest = client.validate world manifest := by
  simp only [validate, tryValidate_withConsole]

end Client

namespace Demo

variable (client : Client) (console : Console) (settings : DemoSettings) (world : World)

theorem fileExample_withConsole :
    fileExample (client.withConsole console) settings world =
      fileExample client settings world := by
  simp only [fileExample, checkAndConvert, Client.load_withConsole, Client.validate_withConsole,
    Client.batch_withConsole]

/-- The example session does the same on every console. -/
theorem run_eq_withConsole :
    run (client.withConsole console) settings world = run client settings world := by
  simp only [run, pageExample, builtInExample, Client.health_withConsole,
    Client.page_withConsole, Client.convert_withConsole, fileExample_withConsole]

end Demo

namespace Session

/-! ## Commands -/

theorem perform_withConsole (client : Client) (console : Console) (world : World)
    (manner : Manner) (command : Command) :
    command.perform (client.withConsole console) world manner =
      command.perform client world manner := by
  cases command with
  | health => cases manner <;>
      simp only [Command.perform, Client.tryHealth_withConsole, Client.health_withConsole]
  | load source => cases manner <;>
      simp only [Command.perform, Client.tryLoad_withConsole, Client.load_withConsole]
  | page url => cases manner <;>
      simp only [Command.perform, Client.tryPage_withConsole, Client.page_withConsole]
  | convert manifest format => cases manner <;>
      simp only [Command.perform, Client.tryConvert_withConsole, Client.convert_withConsole]
  | validate manifest => cases manner <;>
      simp only [Command.perform, Client.tryValidate_withConsole, Client.validate_withConsole]
  | batch manifest directory => cases manner <;>
      simp only [Command.perform, Client.tryBatch_withConsole, Client.batch_withConsole]
  | demo settings => cases manner <;> simp only [Command.perform, Demo.run_eq_withConsole]

/-- What some commands give and say, carried out one after the other, and the world behind
them. -/
def outcomes (client : Client) : List (Manner × Command) → World → List (Outcome Result) × World
  | [], world => ([], world)
  | (manner, command) :: commands, world =>
    let first := command.perform client world manner
    let others := outcomes client commands first.2
    (first.1 :: others.1, others.2)

/-- An outcome as it is shown on a console. -/
def shown (console : Console) (outcome : Outcome Result) : Turn :=
  { result := outcome.value, printed := console.transcript outcome.lines }

theorem run_eq_outcomes (client : Client) (commands : List (Manner × Command)) (world : World) :
    run client commands world =
      ((outcomes client commands world).1.map (shown client.console),
        (outcomes client commands world).2) := by
  induction commands generalizing world with
  | nil => rfl
  | cons entry commands ih =>
    obtain ⟨manner, command⟩ := entry
    rw [run, turn, outcomes]
    generalize command.perform client world manner = performed
    obtain ⟨outcome, later⟩ := performed
    dsimp only
    rw [ih later]
    rfl

theorem outcomes_withConsole (client : Client) (console : Console)
    (commands : List (Manner × Command)) (world : World) :
    outcomes (client.withConsole console) commands world = outcomes client commands world := by
  induction commands generalizing world with
  | nil => rfl
  | cons entry commands ih =>
    obtain ⟨manner, command⟩ := entry
    rw [outcomes, outcomes, perform_withConsole]
    simp only [ih]

/-! ## Sessions -/

theorem run_withConsole_eq (client : Client) (console : Console)
    (commands : List (Manner × Command)) (world : World) :
    run (client.withConsole console) commands world =
      ((outcomes client commands world).1.map (shown console),
        (outcomes client commands world).2) := by
  rw [run_eq_outcomes, outcomes_withConsole, Client.console_withConsole]

/-- On any two consoles a session gives the same results and leaves the same world, and both
print the same lines in their own look. -/
theorem run_withConsole (client : Client) (console console' : Console)
    (commands : List (Manner × Command)) (world : World) :
    let one := run (client.withConsole console) commands world
    let other := run (client.withConsole console') commands world
    one.1.map Turn.result = other.1.map Turn.result ∧ one.2 = other.2 ∧
      ∃ said : List (List StatusLine),
        one.1.map Turn.printed = said.map console.transcript ∧
          other.1.map Turn.printed = said.map console'.transcript := by
  rw [run_withConsole_eq, run_withConsole_eq]
  generalize outcomes client commands world = behaviour
  refine ⟨?_, rfl, behaviour.1.map Outcome.lines, ?_, ?_⟩
  · simp only [List.map_map, Function.comp_def, shown]
  · simp only [List.map_map, Function.comp_def, shown]
  · simp only [List.map_map, Function.comp_def, shown]

end Session

end PageManifest
