import PageManifest.Proofs.Client.Batch
import PageManifest.Session

/-!
# Both manners of an operation

A strict operation and its lenient one make the same requests and leave the same files. The
lenient one gives what the strict one gives; in place of an error it gives a substitute
(`substitute`), and says and notes the error once (`turn_agree`). Strict operations say nothing,
and note no error (`quiet_perform_strict`).
-/

namespace PageManifest

/-! ## Quiet changes -/

namespace World

/-- The later log has further records, none of which is that of an error. -/
def Quiet (world later : World) : Prop :=
  ∃ records, later.log = world.log ++ records ∧ ∀ record ∈ records, record.level ≠ .error

variable {world middle later : World}

theorem Quiet.of_log_eq (h : later.log = world.log) : Quiet world later :=
  ⟨[], by simp [h], by simp⟩

theorem Quiet.of_record {record : Log.Record} (h : later.log = world.log ++ [record])
    (hlevel : record.level ≠ .error) : Quiet world later :=
  ⟨[record], h, by simpa using hlevel⟩

theorem Quiet.trans (h : Quiet world middle) (h' : Quiet middle later) : Quiet world later := by
  obtain ⟨records, hlog, hlevel⟩ := h
  obtain ⟨records', hlog', hlevel'⟩ := h'
  refine ⟨records ++ records', by rw [hlog', hlog, List.append_assoc], ?_⟩
  intro record hmem
  exact (List.mem_append.mp hmem).elim (hlevel record) (hlevel' record)

/-- The records of errors that the later log has more. -/
def errorsSince (world later : World) : List Log.Record :=
  (later.log.drop world.log.length).filter (·.level = .error)

theorem Quiet.errorsSince_eq (h : Quiet world later) : errorsSince world later = [] := by
  obtain ⟨records, hlog, hlevel⟩ := h
  rw [errorsSince, hlog, List.drop_left, List.filter_eq_nil_iff]
  simpa using hlevel

theorem Quiet.errorsSince_append (h : Quiet world middle) {record : Log.Record}
    (hlog : later.log = middle.log ++ [record]) :
    errorsSince world later = [record].filter (·.level = .error) := by
  obtain ⟨records, hmiddle, hlevel⟩ := h
  have hnone : records.filter (·.level = .error) = [] := by
    rw [List.filter_eq_nil_iff]
    simpa using hlevel
  rw [errorsSince, hlog, hmiddle, List.append_assoc, List.drop_left, List.filter_append, hnone,
    List.nil_append]

end World

namespace Client

open World

variable (client : Client) (world : World)

/-! ## Strict operations note no error -/

theorem quiet_exchange (method : Http.Method) (path : String) (body : Option String) :
    Quiet world (client.exchange world method path body).2 := by
  rw [exchange_world]
  exact .of_record rfl (by simp)

theorem quiet_askFor (path body : String) : Quiet world (client.askFor world path body).2 := by
  rw [askFor_snd]
  exact client.quiet_exchange world _ _ _

theorem quiet_tryHealth : Quiet world (client.tryHealth world).2 := by
  have h := client.quiet_exchange world .get healthPath none
  unfold tryHealth
  generalize client.exchange world .get healthPath none = outcome at h ⊢
  exact h

theorem quiet_tryPage (url : String) : Quiet world (client.tryPage world url).2 := by
  have h := client.quiet_askFor world pagePath (pageBody url)
  unfold tryPage
  generalize client.askFor world pagePath (pageBody url) = outcome at h ⊢
  exact h

theorem quiet_tryLoad (source : String) : Quiet world (client.tryLoad world source).2 := by
  unfold tryLoad
  split
  · exact client.quiet_tryPage world _
  · exact .of_record rfl (by simp)

theorem quiet_tryConvert (manifest : Manifest) (format : Format) :
    Quiet world (client.tryConvert world manifest format).2 :=
  client.quiet_askFor world _ _

theorem quiet_tryValidate (manifest : Manifest) :
    Quiet world (client.tryValidate world manifest).2 := by
  have h := client.quiet_askFor world validationPath manifest.toJson
  unfold tryValidate
  generalize client.askFor world validationPath manifest.toJson = outcome at h ⊢
  exact h

theorem quiet_worldBehind (manifest : Manifest) (directory : String) (format : Format) :
    Quiet world (client.worldBehind manifest directory world format) := by
  obtain ⟨files, hfiles⟩ := client.exists_convertAndSave_snd world manifest directory format
  have hconvert := client.quiet_tryConvert world manifest format
  have hsave : Quiet world (client.convertAndSave world manifest directory format).2 := by
    rw [hfiles]
    generalize (client.tryConvert world manifest format).2 = converted at hconvert ⊢
    exact hconvert.trans (.of_log_eq rfl)
  rw [worldBehind]
  refine hsave.trans ?_
  generalize client.convertAndSave world manifest directory format = saved
  obtain ⟨result, later⟩ := saved
  cases result with
  | ok path => exact .of_record rfl (by simp)
  | error error => exact .of_record rfl (by simp)

/-- A format that fails is noted as a warning. -/
theorem quiet_foldl_worldBehind (manifest : Manifest) (directory : String)
    (formats : List Format) (world : World) :
    Quiet world (formats.foldl (client.worldBehind manifest directory) world) := by
  induction formats generalizing world with
  | nil => exact .of_log_eq rfl
  | cons format formats ih =>
    rw [List.foldl_cons]
    exact (client.quiet_worldBehind world manifest directory format).trans (ih _)

theorem quiet_tryBatch (manifest : Manifest) (directory : String) :
    Quiet world (client.tryBatch world manifest directory).2 := by
  by_cases h : world.files.CanEnsure directory
  · rw [client.tryBatch_of_canEnsure world manifest directory h, worldAfter]
    exact client.quiet_foldl_worldBehind manifest directory _ (preparedWorld world directory)
  · obtain ⟨fault, hbatch⟩ := client.tryBatch_of_not_canEnsure world manifest directory h
    rw [hbatch]
    exact .of_log_eq rfl

end Client

/-! ## Manners -/

namespace Session

open World

/-- What stands in front of the reason for which an operation fails. -/
def reasonWords : Command → String
  | .load _ => "Error loading manifest: "
  | .page _ => "Error converting URL to manifest: "
  | .convert _ format => "Error converting to " ++ format.name ++ ": "
  | .validate _ => "Error validating manifest: "
  | .batch _ _ => "Cannot create output directory: "
  | .health => ""
  | .demo _ => ""

/-- What a lenient operation gives in place of an error. -/
def substitute (error : Error) : Command → Result
  | .health => .health false
  | .load _ => .manifest ⟨[]⟩
  | .page _ => .manifest ⟨[]⟩
  | .convert _ _ => .text ""
  | .validate _ => .validation { valid := false, errors := [error.message] }
  | .batch _ _ =>
    .report { written := [], failed := Format.all.map fun format => (format, error.message) }
  | .demo _ => .error error

/-- What a lenient operation says about an error. -/
def errorLines (error : Error) : Command → List StatusLine
  | .health => []
  | command => [.failure (reasonWords command ++ error.message)]

/-- What a lenient operation notes about an error. -/
def errorRecord (client : Client) (error : Error) : Command → Log.Record
  | .health =>
    ⟨.debug, .client, "Health check against " ++ client.baseUrl ++ " failed: " ++ error.message⟩
  | command => ⟨.error, .client, reasonWords command ++ error.message⟩

/-- A lenient outcome is the strict one, which is silent, except that an error becomes a
substitute, some lines and a record. -/
structure Agrees (strict lenient : Outcome Result × World) (substitute : Error → Result)
    (lines : Error → List StatusLine) (record : Error → Log.Record) : Prop where
  network_eq : lenient.2.network = strict.2.network
  files_eq : lenient.2.files = strict.2.files
  silent : strict.1.lines = []
  of_ok : (∀ error, strict.1.value ≠ .error error) →
    lenient.1.value = strict.1.value ∧ lenient.2 = strict.2
  of_error : ∀ error, strict.1.value = .error error →
    lenient.1.value = substitute error ∧ lenient.1.lines = lines error ∧
      lenient.2.log = strict.2.log ++ [record error]

theorem agrees_of_ok {α : Type} {wrap : α → Result}
    (hwrap : ∀ value error, wrap value ≠ .error error) (value : α) (lines : List StatusLine)
    (world : World) {substitute : Error → Result} {errorLines : Error → List StatusLine}
    {record : Error → Log.Record} :
    Agrees (strictly wrap (.ok value, world)) (leniently wrap ({ value, lines }, world)) substitute
      errorLines record :=
  ⟨rfl, rfl, rfl, fun _ => ⟨rfl, rfl⟩, fun error h => absurd h (hwrap value error)⟩

/-- An operation whose lenient form reports errors agrees with it. -/
theorem agrees_orReport {α : Type} {wrap : α → Result}
    (hwrap : ∀ value error, wrap value ≠ .error error) (words : String) (instead : Error → α)
    (outcome : Except Error α × World) :
    Agrees (strictly wrap outcome) (leniently wrap (Client.orReport words instead outcome))
      (fun error => wrap (instead error))
      (fun error => [.failure (words ++ error.message)])
      (fun error => ⟨.error, .client, words ++ error.message⟩) := by
  obtain ⟨result, world⟩ := outcome
  cases result with
  | ok value => exact agrees_of_ok hwrap value [] world
  | error error =>
    refine ⟨rfl, rfl, rfl, fun h => absurd rfl (h error), ?_⟩
    intro other h
    cases h
    exact ⟨rfl, rfl, rfl⟩

theorem agrees_health (client : Client) (world : World) :
    Agrees (strictly (fun _ => .health true) (client.tryHealth world))
      (leniently .health (client.health world)) (fun error => substitute error .health)
      (fun error => errorLines error .health) (fun error => errorRecord client error .health) := by
  unfold Client.health
  generalize client.tryHealth world = outcome
  obtain ⟨result, world⟩ := outcome
  cases result with
  | ok value => exact ⟨rfl, rfl, rfl, fun _ => ⟨rfl, rfl⟩, fun error h => by cases h⟩
  | error error =>
    refine ⟨rfl, rfl, rfl, fun h => absurd rfl (h error), ?_⟩
    intro other h
    cases h
    exact ⟨rfl, rfl, rfl⟩

/-- What a batch says about its formats is all that its strict form leaves out. -/
theorem agrees_batch (client : Client) (world : World) (manifest : Manifest) (directory : String) :
    Agrees (strictly .report (client.tryBatch world manifest directory))
      (leniently .report (client.batch world manifest directory))
      (fun error => substitute error (.batch manifest directory))
      (fun error => errorLines error (.batch manifest directory))
      (fun error => errorRecord client error (.batch manifest directory)) := by
  unfold Client.tryBatch Client.batch
  generalize client.runBatch world manifest directory = outcome
  obtain ⟨result, later⟩ := outcome
  cases result with
  | ok results =>
    obtain ⟨report, lines⟩ := results
    dsimp only [Except.map]
    exact agrees_of_ok (by simp) report lines later
  | error error =>
    dsimp only [Except.map]
    exact agrees_orReport (by simp) _ _ _

theorem agrees_perform (client : Client) (world : World) {command : Command}
    (h : ∀ settings, command ≠ .demo settings) :
    Agrees (command.perform client world .strict) (command.perform client world .lenient)
      (fun error => substitute error command) (fun error => errorLines error command)
      (fun error => errorRecord client error command) := by
  cases command with
  | health =>
    rw [Command.perform, Command.perform]
    exact agrees_health client world
  | load source =>
    rw [Command.perform, Command.perform, Client.load]
    exact agrees_orReport (by simp) _ _ _
  | page url =>
    rw [Command.perform, Command.perform, Client.page]
    exact agrees_orReport (by simp) _ _ _
  | convert manifest format =>
    rw [Command.perform, Command.perform, Client.convert]
    exact agrees_orReport (by simp) _ _ _
  | validate manifest =>
    rw [Command.perform, Command.perform, Client.validate]
    exact agrees_orReport (by simp) _ _ _
  | batch manifest directory =>
    rw [Command.perform, Command.perform]
    exact agrees_batch client world manifest directory
  | demo settings => exact absurd rfl (h settings)

/-! ## Turns -/

theorem strictly_snd {α : Type} (wrap : α → Result) (outcome : Except Error α × World) :
    (strictly wrap outcome).2 = outcome.2 := by
  obtain ⟨result, world⟩ := outcome
  cases result with
  | ok value => rfl
  | error error => rfl

theorem quiet_perform_strict (client : Client) (world : World) {command : Command}
    (h : ∀ settings, command ≠ .demo settings) :
    Quiet world (command.perform client world .strict).2 := by
  cases command with
  | health =>
    rw [Command.perform, strictly_snd]
    exact client.quiet_tryHealth world
  | load source =>
    rw [Command.perform, strictly_snd]
    exact client.quiet_tryLoad world source
  | page url =>
    rw [Command.perform, strictly_snd]
    exact client.quiet_tryPage world url
  | convert manifest format =>
    rw [Command.perform, strictly_snd]
    exact client.quiet_tryConvert world manifest format
  | validate manifest =>
    rw [Command.perform, strictly_snd]
    exact client.quiet_tryValidate world manifest
  | batch manifest directory =>
    rw [Command.perform, strictly_snd]
    exact client.quiet_tryBatch world manifest directory
  | demo settings => exact absurd rfl (h settings)

theorem turn_eq (client : Client) (world : World) (manner : Manner) (command : Command) :
    turn client world manner command =
      ({ result := (command.perform client world manner).1.value
         printed := client.console.transcript (command.perform client world manner).1.lines },
        (command.perform client world manner).2) := by
  unfold turn
  generalize command.perform client world manner = performed
  rfl

/-- What the two manners of a command have in common, and what the lenient one does about
an error. -/
structure TurnsAgree (client : Client) (world : World) (command : Command)
    (strict lenient : Turn × World) : Prop where
  network_eq : lenient.2.network = strict.2.network
  files_eq : lenient.2.files = strict.2.files
  /-- The strict manner says nothing and notes no error. -/
  strict_printed : strict.1.printed = ""
  strict_errors : errorsSince world strict.2 = []
  /-- Without an error the results are the same, and so are the logs. -/
  of_ok : (∀ error, strict.1.result ≠ .error error) →
    lenient.1.result = strict.1.result ∧ lenient.2.log = strict.2.log
  /-- An error becomes a substitute, and but for the server's being there it is noted and
  said once. -/
  of_error : ∀ error, strict.1.result = .error error →
    lenient.1.result = substitute error command ∧
      (command = .health → lenient.1.printed = "" ∧ errorsSince world lenient.2 = []) ∧
      (command ≠ .health →
        let message := reasonWords command ++ error.message
        errorsSince world lenient.2 = [⟨.error, .client, message⟩] ∧
          lenient.1.printed =
            if client.console.isEnabled then client.console.decorate (.failure message) ++ "\n"
            else "")

/-- Both manners of an operation make the same requests, leave the same files and give the
same, except for what takes the place of an error. -/
theorem turn_agree (client : Client) (world : World) {command : Command}
    (h : ∀ settings, command ≠ .demo settings) :
    TurnsAgree client world command (turn client world .strict command)
      (turn client world .lenient command) := by
  have hagrees := agrees_perform client world h
  have hquiet := quiet_perform_strict client world h
  rw [turn_eq, turn_eq]
  generalize command.perform client world .strict = strict at hagrees hquiet ⊢
  generalize command.perform client world .lenient = lenient at hagrees ⊢
  refine ⟨hagrees.network_eq, hagrees.files_eq, ?_, hquiet.errorsSince_eq, ?_, ?_⟩
  · dsimp only
    rw [hagrees.silent]
    rfl
  · intro hok
    obtain ⟨hvalue, hworld⟩ := hagrees.of_ok hok
    exact ⟨hvalue, by rw [hworld]⟩
  · intro error herror
    obtain ⟨hvalue, hlines, hlog⟩ := hagrees.of_error error herror
    have herrors := hquiet.errorsSince_append hlog
    refine ⟨hvalue, ?_, ?_⟩
    · dsimp only
      rintro rfl
      exact ⟨by rw [hlines]; rfl, by rw [herrors]; rfl⟩
    · dsimp only
      intro hother
      have hline : errorLines error command =
          [.failure (reasonWords command ++ error.message)] := by
        cases command <;> first | rfl | exact absurd rfl hother
      have hrecord : errorRecord client error command =
          ⟨.error, .client, reasonWords command ++ error.message⟩ := by
        cases command <;> first | rfl | exact absurd rfl hother
      rw [herrors, hlines, hline, hrecord]
      exact ⟨by simp, by simp [Console.transcript, Console.render]⟩

theorem turn_agree_without_file :
    (∀ settings, Command.load "absent.yaml" ≠ .demo settings) ∧
      let client : Client := { baseUrl := "http://localhost" }
      let world : World :=
        { network := { obstacle := fun _ => none, script := [] }
          files := { entries := [], workingDirectory := [] } }
      TurnsAgree client world (.load "absent.yaml")
        (turn client world .strict (.load "absent.yaml"))
        (turn client world .lenient (.load "absent.yaml")) := by
  have h : ∀ settings, Command.load "absent.yaml" ≠ .demo settings := by simp
  exact ⟨h, turn_agree _ _ h⟩

end Session

end PageManifest
