import PageManifest.Proofs.CommandLine.Log
import PageManifest.Proofs.Config.RoundTrip
import PageManifest.Proofs.Demo.Records
import PageManifest.Proofs.Log.Apart

/-!
# The settings of a call

A call of the session reads its settings once its log was opened. Either the file of settings holds
a text that reads as settings (`HoldsSettings`), or the defaults are used as a whole. In both cases
the call is the session with these settings, and its code depends on nothing but whether the server
is there (`RunsWith`). If the session leaves the log file alone, the log makes no difference to it
(`RunsAlone`).

What is in the place of the file makes no further difference if it holds no settings: the call comes
to the same as without a file, if neither the log nor the session goes there (`run_with_settings`).
These conditions cannot be left out (`run_apart_from_settings`).
-/

namespace PageManifest.CommandLine

open FileTree

variable {call : Call} {world world' : World} {config : Config} {files : FileTree} {home : Place}
  {path : String} {sink : Option Log.Sink}

/-! ## Settings -/

/-- What a path leads to is a file of text that reads as settings. -/
def HoldsSettings (files : FileTree) (path : String) (config : Config) : Prop :=
  ∃ text, files.readText path = .ok text ∧ Config.ofToml text = .ok config

theorem isPresent_of_readText {text : String} (h : files.readText path = .ok text) :
    files.isPresent path = true := by
  unfold readText readBytes at h
  unfold isPresent
  cases hstat : files.stat path with
  | ok entry => rfl
  | error fault =>
    rw [hstat] at h
    cases h

theorem load_of_holdsSettings (h : HoldsSettings files path config) :
    Config.load files path = .ok config := by
  obtain ⟨text, hread, hconfig⟩ := h
  rw [Config.load, isPresent_of_readText hread, if_pos rfl, Config.loadFrom, hread]
  exact hconfig

/-- Without settings in its place, there is no file, or an error. -/
theorem load_of_no_settings (h : ∀ config, ¬ HoldsSettings files path config) :
    Config.load files path = .ok {} ∨ ∃ error, Config.load files path = .error error := by
  unfold Config.load
  split
  · refine .inr ?_
    unfold Config.loadFrom
    cases hread : files.readText path with
    | error fault => exact ⟨.file fault, rfl⟩
    | ok text =>
      cases hconfig : Config.ofToml text with
      | error error => exact ⟨error, hconfig⟩
      | ok config => exact absurd ⟨text, hread, hconfig⟩ (h config)
  · exact .inl rfl

theorem settings_of_holdsSettings (h : HoldsSettings world.files call.configPath config) :
    (settings call world sink).1 = config := by
  rw [settings, load_of_holdsSettings h]

theorem settings_of_no_settings (h : ∀ config, ¬ HoldsSettings world.files call.configPath config) :
    (settings call world sink).1 = {} := by
  unfold settings
  rcases load_of_no_settings h with hload | ⟨error, hload⟩
  · rw [hload]
  · rw [hload]

/-! ## Sessions -/

/-- The record of the server that a call uses. -/
def serverRecord (config : Config) : Log.Record :=
  ⟨.info, .main, "Using manifest server at " ++ (Client.ofConfig config).baseUrl⟩

/-- The world in which the session of a call starts. Its log was opened, and has what there is to
note about the settings. -/
def started (call : Call) (world : World) (config : Config) : World :=
  let record := serverRecord config
  (settings call (opened call world) (openLog call world).1).2.note
    record.level record.origin record.message (openLog call world).1

/-- The example session of a call with some settings. Its records are written to the log. -/
def demoOf (call : Call) (world : World) (config : Config) : Outcome Demo.Summary × World :=
  Demo.run (Client.ofConfig config) config.demo (started call world config) (openLog call world).1

/-- The example session with some settings by itself, where the log of a call was opened. -/
def demoAlone (call : Call) (world : World) (config : Config) : Outcome Demo.Summary × World :=
  Demo.run (Client.ofConfig config) config.demo (opened call world)

/-- A call runs the example session with some settings: it prints the lines of the session on the
console that the settings ask for, and leaves the network, which has the requests, and all files
as the session does. It succeeds just if the server is there. -/
structure RunsWith (call : Call) (world : World) (config : Config) : Prop where
  output_eq : (run call world).1.output =
    (Client.ofConfig config).console.transcript (demoOf call world config).1.lines
  network_eq : (run call world).2.network = (demoOf call world config).2.network
  files_eq : (run call world).2.files = (demoOf call world config).2.files
  code_of_healthy : ((Client.ofConfig config).tryHealth world).1 = .ok () →
    (run call world).1.code = 0
  code_of_error : ∀ error, ((Client.ofConfig config).tryHealth world).1 = .error error →
    (run call world).1.code = 1

/-- A place is not in the log file of a call. -/
def OffLog (call : Call) (world : World) (place : Place) : Prop :=
  ∀ sink, (openLog call world).1 = some sink → ¬ sink.file.place <+: place

/-- A call does what the example session by itself does, but for its log file. -/
structure RunsAlone (call : Call) (world : World) (config : Config) : Prop where
  output_eq : (run call world).1.output =
    (Client.ofConfig config).console.transcript (demoAlone call world config).1.lines
  network_eq : (run call world).2.network = (demoAlone call world config).2.network
  entry?_eq : ∀ place, OffLog call world place →
    (run call world).2.files.entry? place = (demoAlone call world config).2.files.entry? place

/-- If the server is there, the session with some settings does not go to a place. -/
def KeepsOff (home : Place) (call : Call) (world : World) (config : Config) : Prop :=
  ((Client.ofConfig config).tryHealth world).1 = .ok () →
    Demo.PathsOutside home (opened call world).files config.demo

theorem KeepsOff.of_opened (h : KeepsOff home call world config)
    (hok : ((Client.ofConfig config).tryHealth (opened call world)).1 = .ok ()) :
    Demo.PathsOutside home (opened call world).files config.demo :=
  h (((Client.ofConfig config).tryHealth_fst_congr (network_opened call world)).symm.trans hok)

/-- If the server is there, the session with some settings does not go to the log file. -/
def KeepsOffLog (call : Call) (world : World) (config : Config) : Prop :=
  ∀ sink, (openLog call world).1 = some sink → KeepsOff sink.file.place call world config

theorem serverHealthy_iff (client : Client) (demo : DemoSettings) (world : World)
    (sink : Option Log.Sink) :
    (Demo.run client demo world sink).1.value.serverHealthy = true ↔
      (client.tryHealth world).1 = .ok () := by
  rw [← client.health_iff world sink]
  unfold Demo.run
  generalize client.health world sink = outcome
  obtain ⟨healthy, served⟩ := outcome
  dsimp only
  split
  · rename_i h
    exact ⟨fun _ => h, fun _ => rfl⟩
  · rename_i h
    exact ⟨fun hno => absurd hno (by simp), fun hyes => absurd hyes h⟩

theorem network_started (call : Call) (world : World) (config : Config) :
    (started call world config).network = world.network := by
  unfold started
  dsimp only
  rw [World.network_note, network_settings, network_opened]

/-- With the settings at hand, and unless it crashes, a session is the example session. -/
theorem session_eq (hconfig : (settings call (opened call world) (openLog call world).1).1 = config)
    (hcrash : (Client.ofConfig config).crashes world.network Client.healthPath = false) :
    session call (openLog call world).1 (opened call world) =
      ((some (demoOf call world config).1, (Client.ofConfig config).console),
        (demoOf call world config).2) := by
  have hnetwork := network_started call world config
  unfold demoOf
  unfold started serverRecord at hnetwork ⊢
  unfold session sessionWith
  generalize settings call (opened call world) (openLog call world).1 = outcome
    at hconfig hnetwork ⊢
  obtain ⟨found, settled⟩ := outcome
  dsimp only at hconfig hnetwork ⊢
  subst hconfig
  rw [hnetwork, hcrash, if_neg Bool.false_ne_true]

/-- Whatever settings a call ends up with, it runs the session with them, unless it crashes. -/
theorem runsWith_of_settings (harguments : call.arguments = [])
    (hconfig : (settings call (opened call world) (openLog call world).1).1 = config)
    (hcrash : (Client.ofConfig config).crashes world.network Client.healthPath = false) :
    RunsWith call world config := by
  have hhealthy := serverHealthy_iff (Client.ofConfig config) config.demo
    (started call world config) (openLog call world).1
  have hhealth : ((Client.ofConfig config).tryHealth (started call world config)).1 =
      ((Client.ofConfig config).tryHealth world).1 :=
    (Client.ofConfig config).tryHealth_fst_congr (network_started call world config)
  rw [← demoOf, hhealth] at hhealthy
  have hrun := runSession_eq (session_eq hconfig hcrash)
  rw [← run_of_no_arguments harguments] at hrun
  constructor
  case output_eq => rw [hrun, Option.map_some, Option.getD_some]
  case network_eq => rw [hrun]
  case files_eq => rw [hrun]
  case code_of_healthy =>
    intro hok
    rw [hrun, sessionCode, hhealthy.mpr hok, if_pos rfl]
  case code_of_error =>
    intro error herror
    have hunhealthy : (demoOf call world config).1.value.serverHealthy ≠ true := by
      intro htrue
      cases (hhealthy.mp htrue).symm.trans herror
    rw [hrun, sessionCode, if_neg hunhealthy, failureCode]

/-! ## The log apart -/

theorem changed_of_settings (h : KeptInside home sink) (call : Call) (world : World) :
    ChangedInside home world.files (settings call world sink).2.files := by
  unfold settings
  cases Config.load world.files call.configPath with
  | ok config => exact .refl _ _
  | error error => exact h.changed_of_note _ _ _ _

/-- What is noted before the session is written to the log file only. -/
theorem changed_of_started (h : KeptInside home (openLog call world).1) (config : Config) :
    ChangedInside home (opened call world).files (started call world config).files :=
  (changed_of_settings h call (opened call world)).trans (h.changed_of_note _ _ _ _)

/-- A call does what the session by itself does if the two sessions end alike outside the log. -/
theorem runsAlone_of_related {R : World → World → Prop} (h : RunsWith call world config)
    (hended : Related R (demoOf call world config) (demoAlone call world config))
    (hnetwork : ∀ later alone, R later alone → alone.network = later.network)
    (hfiles : ∀ later alone, R later alone → ∀ place, OffLog call world place →
      alone.files.entry? place = later.files.entry? place) : RunsAlone call world config := by
  obtain ⟨outcome, later, alone, hended, hended', hlater⟩ := hended
  constructor
  case output_eq => rw [h.output_eq, hended, hended']
  case network_eq => rw [h.network_eq, hended, hended', hnetwork later alone hlater]
  case entry?_eq =>
    intro place hplace
    rw [h.files_eq, hended, hended', hfiles later alone hlater place hplace]

/-- Without a log file, the session makes nothing of the records that are there. Otherwise it runs
alongside the one by itself, which writes no records. -/
theorem runsAlone_of_runsWith (h : RunsWith call world config)
    (hpaths : KeepsOffLog call world config) : RunsAlone call world config := by
  have hnetwork : (opened call world).network = (started call world config).network := by
    rw [network_opened, network_started]
  cases hlog : (openLog call world).1 with
  | none =>
    have hchanged : (started call world config).files = (opened call world).files := by
      unfold started settings
      rw [hlog]
      cases Config.load (opened call world).files call.configPath with
      | ok config => rfl
      | error error => rfl
    have hstart : SameFiles (started call world config) (opened call world) :=
      ⟨hnetwork, hchanged.symm⟩
    have hended : Related SameFiles (demoOf call world config) (demoAlone call world config) := by
      rw [demoOf, demoAlone, hlog]
      exact Demo.run_related simulates_sameFiles (Client.ofConfig config) hstart
        fun _ => .all config.demo
    exact runsAlone_of_related h hended (fun _ _ hlater => hlater.network_eq)
      fun _ _ hlater place _ => by rw [hlater.files_eq]
  | some log =>
    have hinside : KeptInside log.file.place (openLog call world).1 := by
      intro found hfound
      cases hlog.symm.trans hfound
      exact List.prefix_refl _
    have hstart : Alongside log.file.place (opened call world).files (started call world config)
        (opened call world) :=
      ⟨hnetwork, (AgreeOutside.refl _ _).of_changes (changed_of_started hinside config)
        (.refl _ _)⟩
    have hhealth : ((Client.ofConfig config).tryHealth (started call world config)).1 =
        ((Client.ofConfig config).tryHealth world).1 :=
      (Client.ofConfig config).tryHealth_fst_congr (network_started call world config)
    have hended := Demo.run_related (simulates_alongside hinside (.none _))
      (Client.ofConfig config) hstart
      fun hok => (hpaths log hlog (hhealth.symm.trans hok)).allowed
    exact runsAlone_of_related h hended (fun _ _ hlater => hlater.network_eq)
      fun _ _ hlater place hplace => (hlater.agree.entry?_eq place (hplace log hlog))

/-! ## Without settings -/

/-- Two worlds differ at a place and below it only, such as the place of the file of settings. -/
structure DifferInside (home : Place) (world world' : World) : Prop where
  network_eq : world'.network = world.network
  workingDirectory_eq : world'.files.workingDirectory = world.files.workingDirectory
  entry?_eq : ∀ place, ¬ home <+: place → world'.files.entry? place = world.files.entry? place

/-- Two calls come to the same, but for what is at a place or below it, and for their logs. -/
structure SameApart (home : Place) (sink : Option Log.Sink) (ended ended' : Ending × World) :
    Prop where
  code_eq : ended'.1.code = ended.1.code
  output_eq : ended'.1.output = ended.1.output
  /-- The requests are a part of the network. -/
  network_eq : ended'.2.network = ended.2.network
  entry?_eq : ∀ place, ¬ home <+: place →
    (∀ log, sink = some log → ¬ log.file.place <+: place) →
    ended'.2.files.entry? place = ended.2.files.entry? place

/-- In a tree without links a path stays outside once the log was opened, if it leads neither there
nor through the link to the log. -/
theorem staysOutside_opened (hfree : world.files.LinkFree)
    (h : Clears (fun place => home <+: place ∨
      place = LogFile.latestPlace (placeOf world.files call.logDirectory)) world.files path) :
    StaysOutside home (opened call world).files path := by
  have hsame : (opened call world).files.workingDirectory = world.files.workingDirectory := by
    rw [opened_eq, World.workingDirectory_note, LogFile.workingDirectory_create]
  rw [Clears, ← hsame] at h
  refine ⟨_, way_of_plain fun front hfront => ?_⟩
  have hout := not_or.mp (h front hfront)
  exact ⟨hout.1, fun target hlink =>
    hout.2 (LogFile.link_of_create hfree (World.link_of_note hlink))⟩

/-- Both calls open the same log, and agree outside from then on. -/
theorem opened_apart (h : DifferInside home world world')
    (hlog : LogFile.PathsApart home world.files call.logDirectory call.stamp) :
    (openLog call world').1 = (openLog call world).1 ∧
      Alongside home (opened call world).files (opened call world) (opened call world') := by
  have hagree : AgreeOutside home world.files world.files world'.files :=
    ⟨rfl, h.workingDirectory_eq, h.entry?_eq, fun _ _ _ => Iff.rfl⟩
  obtain ⟨hfile, hfiles⟩ := LogFile.create_apart hagree hlog
  have hsink : (openLog call world').1 = (openLog call world).1 := by
    unfold openLog
    generalize LogFile.create world.files call.logDirectory call.stamp = outcome at hfile ⊢
    generalize LogFile.create world'.files call.logDirectory call.stamp = outcome' at hfile ⊢
    dsimp only
    rw [hfile]
  have hcreated : Alongside home
      (LogFile.create world.files call.logDirectory call.stamp).2
      { world with files := (LogFile.create world.files call.logDirectory call.stamp).2 }
      { world' with files := (LogFile.create world'.files call.logDirectory call.stamp).2 } :=
    ⟨h.network_eq, hfiles⟩
  have hnoted := hcreated.note firstRecord.level firstRecord.origin firstRecord.message
    (openLog call world).1
  refine ⟨hsink, ?_, ?_⟩
  · rw [network_opened, network_opened, h.network_eq]
  · rw [opened_eq, opened_eq, hsink]
    exact hnoted.agree.rebase

/-- With the default settings, both calls come to the same if the session leaves alone what makes
the difference, and the log. -/
theorem sameApart_of_runsAlone (h : DifferInside home world world')
    (hlog : LogFile.PathsApart home world.files call.logDirectory call.stamp)
    (hpaths : KeepsOff home call world {}) (hruns : RunsWith call world {})
    (hruns' : RunsWith call world' {}) (halone : RunsAlone call world {})
    (halone' : RunsAlone call world' {}) :
    SameApart home (openLog call world).1 (run call world) (run call world') := by
  obtain ⟨hsink, hopened⟩ := opened_apart h hlog
  have hhealth : ((Client.ofConfig {}).tryHealth world').1 =
      ((Client.ofConfig {}).tryHealth world).1 :=
    (Client.ofConfig {}).tryHealth_fst_congr h.network_eq
  obtain ⟨outcome, later, later', hended, hended', hlater⟩ :=
    Demo.run_related (simulates_alongside (.none home) (.none home)) (Client.ofConfig {}) hopened
      fun hok => (hpaths.of_opened hok).allowed
  rw [← demoAlone] at hended hended'
  constructor
  case code_eq =>
    cases hresult : ((Client.ofConfig {}).tryHealth world).1 with
    | ok =>
      rw [hruns.code_of_healthy hresult, hruns'.code_of_healthy (hhealth.trans hresult)]
    | error error =>
      rw [hruns.code_of_error error hresult, hruns'.code_of_error error (hhealth.trans hresult)]
  case output_eq => rw [halone.output_eq, halone'.output_eq, hended, hended']
  case network_eq => rw [halone.network_eq, halone'.network_eq, hended, hended', hlater.network_eq]
  case entry?_eq =>
    intro place hplace hout
    have hout' : OffLog call world' place := by
      rw [OffLog, hsink]
      exact hout
    rw [halone.entry?_eq place hout, halone'.entry?_eq place hout', hended, hended']
    exact hlater.agree.entry?_eq place hplace

/-- The default settings have no time-out, so a call with them does not crash. -/
theorem crashes_default (network : Http.Network) (path : String) :
    (Client.ofConfig {}).crashes network path = false :=
  Bool.and_false _

/-- A call without arguments runs the session with the settings that its file holds, unless it
crashes; and if the file holds none, then with the defaults. In each case the code is 0 if the
server is there, and 1 if not, whatever fails later. A session that leaves the log file alone runs
as by itself.

If there are no settings, it makes no difference what is in their place, be it that there is no
file at all. For this the log may not go there, and neither may a session with the defaults, nor
may that go to the log file. -/
theorem run_with_settings (harguments : call.arguments = []) :
    (∀ config, HoldsSettings (opened call world).files call.configPath config →
        (Client.ofConfig config).crashes world.network Client.healthPath = false →
        RunsWith call world config ∧
          (KeepsOffLog call world config → RunsAlone call world config)) ∧
      ((∀ config, ¬ HoldsSettings (opened call world).files call.configPath config) →
        RunsWith call world {} ∧ (KeepsOffLog call world {} → RunsAlone call world {}) ∧
          ∀ home world', DifferInside home world world' →
            (∀ config, ¬ HoldsSettings (opened call world').files call.configPath config) →
            LogFile.PathsApart home world.files call.logDirectory call.stamp →
            KeepsOff home call world {} → KeepsOffLog call world {} →
            KeepsOffLog call world' {} →
            SameApart home (openLog call world).1 (run call world) (run call world')) := by
  constructor
  · intro config hholds hcrash
    have hruns := runsWith_of_settings harguments (settings_of_holdsSettings hholds) hcrash
    exact ⟨hruns, runsAlone_of_runsWith hruns⟩
  · intro hnone
    have hruns := runsWith_of_settings harguments (settings_of_no_settings hnone)
      (crashes_default _ _)
    refine ⟨hruns, runsAlone_of_runsWith hruns, ?_⟩
    intro home world' hdiffer hnone' hlog hplace hoff hoff'
    have hruns' := runsWith_of_settings harguments (settings_of_no_settings hnone')
      (crashes_default _ _)
    exact sameApart_of_runsAlone hdiffer hlog hplace hruns hruns'
      (runsAlone_of_runsWith hruns hoff) (runsAlone_of_runsWith hruns' hoff')

/-! ## Where the conditions fail -/

/-- A call with short paths. -/
def shortCall : Call where
  configPath := "/c"
  logDirectory := "/l"
  stamp := "0"

/-- Some entries, among them a file of settings with some text. -/
def configured (text : String) (others : List (Place × Entry)) : FileTree where
  entries := (["c"], .file (Text.Utf8.encode text)) :: others
  workingDirectory := []

/-- The page description of the default settings is a link to the file of settings. -/
def linkedPage : List (Place × Entry) :=
  [(["manifests"], .directory), (["manifests", "examples"], .directory),
    (["manifests", "examples", "complete-page.yaml"], .link "/c")]

/-- How many requests a world has seen. -/
def requestCount (world : World) : Nat := world.network.requests.length

/-- A call does not just run the session that its settings ask for. That session may load the log
file of the call, which the session by itself does not find. Without settings, it may load what is
in their place. The log may go there, too, and fail, so that its directory is not created. And with
a time-out beyond what the clock can show, the call crashes. -/
theorem run_apart_from_settings :
    let logged := servedWorld (configured "demo.manifest_file = \"/l/latest.log\"\n" [])
    let ofLogged : Config := { demo := { manifestFile := "/l/latest.log" } }
    let rejected := servedWorld (configured "title: page\n" linkedPage)
    let unset := servedWorld { entries := linkedPage, workingDirectory := [] }
    let throughSettings : Call := { shortCall with logDirectory := "/c/../l" }
    let waiting := servedWorld (configured "server.timeout_secs = 9223372036854775807\n" [])
    let late : World := { waiting with network := { waiting.network with clock := 1 } }
    ((Config.ofToml "demo.manifest_file = \"/l/latest.log\"\n").toOption = some ofLogged ∧
        requestCount (run shortCall logged).2 = 4 ∧
        requestCount (Demo.run (Client.ofConfig ofLogged) ofLogged.demo logged).2 = 3) ∧
      ((Config.ofToml "title: page\n").toOption = none ∧
        requestCount (run shortCall rejected).2 = 4 ∧
        requestCount (run shortCall unset).2 = 3) ∧
      ((run throughSettings rejected).2.files.isPresent "/l" = false ∧
        (run throughSettings unset).2.files.isPresent "/l" = true) ∧
      (run shortCall late).1.code = 101 := by
  decide +kernel

/-! ## Files of settings -/

/-- A user's files with a directory for settings, which is empty. -/
def settingsHome : FileTree :=
  (emptyHome.put ["home", ".config"] .directory).put ["home", ".config", "manifest-client"]
    .directory

/-- The place of the file of settings. -/
def settingsPlace : Place := ["home", ".config", "manifest-client", "config.toml"]

/-- The place of the log. -/
def loggedPlace : Place :=
  ["home", ".local", "share", "manifest-client", "logs", "manifest-client_20240131_235959.log"]

/-- A user's files with some bytes in the file of settings. -/
def settledHome (bytes : ByteArray) : FileTree := settingsHome.put settingsPlace (.file bytes)

/-- A file that names another server, and leaves the rest to the defaults. -/
def otherServerText : String := "server.base_url = \"http://localhost:4000\"\n"

/-- The settings in this file. -/
def otherServer : Config := { server := { baseUrl := "http://localhost:4000" } }

/-- A byte that no text has. -/
def notText : ByteArray := ⟨#[0xFF]⟩

theorem linkFree_settingsHome : settingsHome.LinkFree :=
  (linkFree_emptyHome.put (by simp) (by simp)).put (by simp) (by simp)

theorem linkFree_settledHome (bytes : ByteArray) : (settledHome bytes).LinkFree :=
  linkFree_settingsHome.put (by decide) (by simp)

theorem holdsSettings_otherServer :
    HoldsSettings (opened loggedCall
        (servedWorld (settledHome (Text.Utf8.encode otherServerText)))).files
      loggedCall.configPath otherServer := by
  refine ⟨otherServerText, by decide +kernel, ?_⟩
  have hread : (Config.ofToml otherServerText).toOption = some otherServer := by decide +kernel
  cases hconfig : Config.ofToml otherServerText with
  | error error =>
    rw [hconfig] at hread
    cases hread
  | ok config =>
    rw [hconfig] at hread
    exact congrArg Except.ok (Option.some.inj hread)

theorem no_settings_of_error {fault : FileFault} (h : files.readText path = .error fault)
    (config : Config) : ¬ HoldsSettings files path config := by
  rintro ⟨text, hread, -⟩
  cases h.symm.trans hread

theorem no_settings_notText : ∀ config, ¬ HoldsSettings
    (opened loggedCall (servedWorld (settledHome notText))).files loggedCall.configPath config := by
  have hread : (opened loggedCall (servedWorld (settledHome notText))).files.readText
      loggedCall.configPath = .error .notText := by decide +kernel
  exact no_settings_of_error hread

theorem no_settings_without_file : ∀ config, ¬ HoldsSettings
    (opened loggedCall (servedWorld settingsHome)).files loggedCall.configPath config := by
  have hread : (opened loggedCall (servedWorld settingsHome)).files.readText loggedCall.configPath =
      .error .notFound := by decide +kernel
  exact no_settings_of_error hread

theorem differInside_notText :
    DifferInside settingsPlace (servedWorld (settledHome notText)) (servedWorld settingsHome) :=
  ⟨rfl, rfl, fun place hplace => ((ChangedInside.put (by decide) List.prefix_rfl
    settingsHome _).entry?_eq place hplace).symm⟩

theorem pathsApart_notText :
    LogFile.PathsApart settingsPlace (settledHome notText) loggedCall.logDirectory
      loggedCall.stamp := by
  have hclears : ∀ path, (∀ front ∈ (bareSteps path).inits, ¬ settingsPlace <+:
      walk (origin ["home", "work", "client"] path) front) →
      StaysOutside settingsPlace (settledHome notText) path :=
    fun path h => staysOutside_of_clears (linkFree_settledHome notText) (avoids_of_inits h)
  exact ⟨hclears _ (by decide), hclears _ (by decide), hclears _ (by decide)⟩

/-- The paths of the default settings. -/
def defaultPaths : List String :=
  let demo : DemoSettings := {}
  demo.manifestFile :: demo.outputDirectory ::
    Path.join demo.outputDirectory demo.generatedFile ::
    Format.all.map (Client.outputPath demo.outputDirectory)

/-- The session with default settings keeps off a place if none of its paths leads there, nor to
the link to the log. -/
theorem keepsOff_default (hfree : files.LinkFree)
    (hwork : files.workingDirectory = ["home", "work", "client"])
    (hplaces : ∀ path ∈ defaultPaths, ∀ front ∈ (bareSteps path).inits,
      let place := walk (origin ["home", "work", "client"] path) front
      ¬ (home <+: place ∨
        place = ["home", ".local", "share", "manifest-client", "logs", "latest.log"]))
    (hdemo : config.demo = {}) : KeepsOff home loggedCall (servedWorld files) config := by
  intro _
  have hlatest : LogFile.latestPlace (placeOf files loggedCall.logDirectory) =
      ["home", ".local", "share", "manifest-client", "logs", "latest.log"] := by
    rw [placeOf, hwork]
    decide
  have hstays : ∀ path ∈ defaultPaths,
      StaysOutside home (opened loggedCall (servedWorld files)).files path := by
    intro path hpath
    have hfiles : (servedWorld files).files = files := rfl
    refine staysOutside_opened hfree ?_
    rw [Clears, hfiles, hlatest, hwork]
    exact avoids_of_inits (hplaces path hpath)
  rw [hdemo]
  refine ⟨hstays _ ?_, hstays _ ?_, fun format => hstays _ ?_, hstays _ ?_⟩
  · exact List.mem_cons_self
  · exact List.mem_cons_of_mem _ List.mem_cons_self
  · refine List.mem_cons_of_mem _ (List.mem_cons_of_mem _ (List.mem_cons_of_mem _ ?_))
    exact List.mem_map_of_mem format.mem_all
  · exact List.mem_cons_of_mem _ (List.mem_cons_of_mem _ List.mem_cons_self)

theorem keepsOffLog_default (hfree : files.LinkFree)
    (hwork : files.workingDirectory = ["home", "work", "client"])
    (hlog : (openLog loggedCall (servedWorld files)).1.map (·.file.place) = some loggedPlace)
    (hdemo : config.demo = {}) : KeepsOffLog loggedCall (servedWorld files) config := by
  intro sink hsink
  rw [hsink] at hlog
  have hplace : sink.file.place = loggedPlace := Option.some.inj hlog
  rw [hplace]
  exact keepsOff_default hfree hwork (by decide) hdemo

/-- A file of settings names another server, which the call then uses. A file that is no text has
the call use the defaults, and come to the same as without the file. -/
theorem run_with_settings_of_files :
    let settled := servedWorld (settledHome (Text.Utf8.encode otherServerText))
    let broken := servedWorld (settledHome notText)
    let unset := servedWorld settingsHome
    loggedCall.arguments = [] ∧
      HoldsSettings (opened loggedCall settled).files loggedCall.configPath otherServer ∧
      KeepsOffLog loggedCall settled otherServer ∧
      RunsWith loggedCall settled otherServer ∧ RunsAlone loggedCall settled otherServer ∧
      DifferInside settingsPlace broken unset ∧
      LogFile.PathsApart settingsPlace broken.files loggedCall.logDirectory loggedCall.stamp ∧
      KeepsOff settingsPlace loggedCall broken {} ∧ KeepsOffLog loggedCall broken {} ∧
      KeepsOffLog loggedCall unset {} ∧
      SameApart settingsPlace (openLog loggedCall broken).1 (run loggedCall broken)
        (run loggedCall unset) := by
  intro settled broken unset
  have hoff : KeepsOffLog loggedCall settled otherServer :=
    keepsOffLog_default (linkFree_settledHome _) rfl (by decide +kernel) rfl
  have hbroken : KeepsOffLog loggedCall broken {} :=
    keepsOffLog_default (linkFree_settledHome _) rfl (by decide +kernel) rfl
  have hunset : KeepsOffLog loggedCall unset {} :=
    keepsOffLog_default linkFree_settingsHome rfl (by decide +kernel) rfl
  have hplace : KeepsOff settingsPlace loggedCall broken {} :=
    keepsOff_default (linkFree_settledHome _) rfl (by decide) rfl
  obtain ⟨hruns, halone⟩ :=
    (run_with_settings rfl).1 otherServer holdsSettings_otherServer (Bool.and_false _)
  exact ⟨rfl, holdsSettings_otherServer, hoff, hruns, halone hoff, differInside_notText,
    pathsApart_notText, hplace, hbroken, hunset,
    ((run_with_settings rfl).2 no_settings_notText).2.2 settingsPlace unset differInside_notText
      no_settings_without_file pathsApart_notText hplace hbroken hunset⟩

end PageManifest.CommandLine
