import Mathlib.Data.List.Infix
import PageManifest.CommandLine
import PageManifest.Proofs.Demo.Outside
import PageManifest.Proofs.Log.File

/-!
# Calls and their logs

Two calls of the session may have other filters and other times, and find their log directory in
another state: it may be missing, hold old logs, or be impossible to create. Let them agree on all
that is outside some directory on the way of the log, and let the paths of the settings stay
outside of it, too. Then both end with the same code, print the same, make the same requests and
leave the same outside (`run_sameOutside`).
-/

namespace PageManifest.CommandLine

open FileTree

/-- Two calls of the session, each in its world, differ in what concerns their logs only: which
records are wanted, the time, and what is in a directory on the way of the log. That may be the
directory for all data, or one in it. No link leads the log out of it again. -/
structure DifferInLog (home : Place) (rest : List String) (call call' : Call)
    (world world' : World) : Prop where
  arguments_eq : call.arguments = []
  arguments_eq' : call'.arguments = []
  configPath_eq : call'.configPath = call.configPath
  logDirectory_eq : call'.logDirectory = call.logDirectory
  network_eq : world'.network = world.network
  workingDirectory_eq : world'.files.workingDirectory = world.files.workingDirectory
  entry?_eq : ∀ place, ¬ home <+: place → world'.files.entry? place = world.files.entry? place
  leadsInto : LeadsInto home world.files call.logDirectory rest
  stamp : IsFileName (LogFile.nameAt call.stamp)
  stamp' : IsFileName (LogFile.nameAt call'.stamp)
  avoids : Avoids world.files.IsLink home (rest ++ [LogFile.nameAt call.stamp])
  avoids' : Avoids world'.files.IsLink home (rest ++ [LogFile.nameAt call'.stamp])

/-- The world in which the session of a call starts: its log has been opened, and is empty. -/
def opened (call : Call) (world : World) : World := { (openLog call world).2 with log := [] }

/-- All paths from which a call reads, or to which it writes, stay outside a directory, except
those of its log. A path does not that leads out of the directory again, since it leads anywhere
only if there is something in the directory. -/
structure PathsOutside (home : Place) (call : Call) (world : World) : Prop where
  configPath : StaysOutside home world.files call.configPath
  demo : Demo.PathsOutside home world.files (settings call (opened call world)).1.demo

/-- Two calls come to the same, but for what is inside a directory and on the error output. -/
structure SameOutside (home : Place) (ended ended' : Ending × World) : Prop where
  code_eq : ended'.1.code = ended.1.code
  output_eq : ended'.1.output = ended.1.output
  /-- The requests are a part of the network. -/
  network_eq : ended'.2.network = ended.2.network
  entry?_eq : ∀ place, ¬ home <+: place →
    ended'.2.files.entry? place = ended.2.files.entry? place

variable {home : Place} {rest : List String} {call call' : Call} {world world' : World}
  {start files : FileTree} {allowed : String → Prop} {sink sink' : Option Log.Sink}
  {R : World → World → Prop}

/-! ## Settings and sessions -/

/-- What is noted about the settings has no influence on them. -/
theorem settings_fst_congr (hload : Config.load world'.files call'.configPath =
      Config.load world.files call.configPath) :
    (settings call' world' sink').1 = (settings call world sink).1 := by
  unfold settings
  rw [hload]
  cases Config.load world.files call.configPath with
  | ok config => rfl
  | error error => rfl

theorem network_settings (call : Call) (world : World) (sink : Option Log.Sink) :
    (settings call world sink).2.network = world.network := by
  unfold settings
  cases Config.load world.files call.configPath with
  | ok config => rfl
  | error error => exact World.network_note _ _ _ _ _

section

variable (hsim : Simulates allowed sink sink' R)
include hsim

theorem settings_related (h : R world world')
    (hload : Config.load world'.files call'.configPath =
      Config.load world.files call.configPath) :
    Related R (settings call world sink) (settings call' world' sink') := by
  unfold settings
  rw [hload]
  cases Config.load world.files call.configPath with
  | ok config => exact .of _ h
  | error error => exact .of _ (hsim.note _ _ _ h)

theorem sessionWith_related (config : Config) (h : R world world')
    (hpaths : ((Client.ofConfig config).tryHealth world).1 = .ok () →
      Demo.PathsAllowed allowed config.demo) :
    Related R (sessionWith config sink world) (sessionWith config sink' world') := by
  have hnoted := hsim.note .info .main
    ("Using manifest server at " ++ (Client.ofConfig config).baseUrl) h
  rw [← Client.tryHealth_note _ world .info .main
    ("Using manifest server at " ++ (Client.ofConfig config).baseUrl) sink] at hpaths
  unfold sessionWith
  dsimp only
  rw [hsim.network_eq hnoted]
  split
  · exact .of _ (hsim.note _ _ _ hnoted)
  · obtain ⟨outcome, world, twin, hsame, hsame', h⟩ :=
      Demo.run_related hsim (Client.ofConfig config) hnoted hpaths
    rw [hsame, hsame']
    exact .of _ h

/-- A session says the same, on the same console, in related worlds that hold the same settings. -/
theorem session_related (h : R world world')
    (hload : Config.load world'.files call'.configPath = Config.load world.files call.configPath)
    (hpaths : ((Client.ofConfig (settings call world).1).tryHealth world).1 = .ok () →
      Demo.PathsAllowed allowed (settings call world).1.demo) :
    Related R (session call sink world) (session call' sink' world') := by
  have hconfig : (settings call world sink).1 = (settings call world).1 := settings_fst_congr rfl
  have hhealth : ((Client.ofConfig (settings call world).1).tryHealth
      (settings call world sink).2).1 =
        ((Client.ofConfig (settings call world).1).tryHealth world).1 :=
    (Client.ofConfig (settings call world).1).tryHealth_fst_congr (network_settings call world sink)
  rw [← hhealth, ← hconfig] at hpaths
  obtain ⟨config, world, twin, hsame, hsame', h⟩ := settings_related hsim h hload
  rw [hsame] at hpaths
  obtain ⟨outcome, world, twin, hended, hended', h⟩ := sessionWith_related hsim config h hpaths
  unfold session
  rw [hsame, hsame']
  dsimp only
  rw [hended, hended']
  exact .of _ h

end

/-! ## Logs -/

theorem run_of_no_arguments (h : call.arguments = []) (world : World) :
    run call world = runSession call world := by
  unfold run
  rw [h]
  rfl

/-- What a session with a log comes to. -/
theorem runSession_eq {outcome : Option (Outcome Demo.Summary)} {console : Console} {later : World}
    (h : session call (openLog call world).1 (opened call world) = ((outcome, console), later)) :
    runSession call world =
      ({ code := sessionCode outcome
         output := (outcome.map fun outcome => console.transcript outcome.lines).getD ""
         errors := copied call [firstRecord] ++ announcement (openLog call world).1 ++
          copied call later.log ++ (if outcome.isNone then call.crashReport else "") },
        { later with log := world.log ++ firstRecord :: later.log }) := by
  unfold opened at h
  unfold runSession
  generalize openLog call world = started at h ⊢
  obtain ⟨sink, started⟩ := started
  dsimp only at h ⊢
  rw [h]

theorem network_opened (call : Call) (world : World) :
    (opened call world).network = world.network :=
  World.network_note _ _ _ _ _

/-- Opening a log, a call notes its first record, and writes it there. -/
theorem opened_eq (call : Call) (world : World) :
    opened call world =
      { World.note
          { world with files := (LogFile.create world.files call.logDirectory call.stamp).2 }
          firstRecord.level firstRecord.origin firstRecord.message (openLog call world).1 with
        log := [] } := rfl

theorem changed_of_opened (h : KeptInside home (openLog call world).1) :
    ChangedInside home (LogFile.create world.files call.logDirectory call.stamp).2
      (opened call world).files :=
  h.changed_of_note
    { world with files := (LogFile.create world.files call.logDirectory call.stamp).2 }
    firstRecord.level firstRecord.origin firstRecord.message

theorem file_of_openLog {sink : Log.Sink} (h : (openLog call world).1 = some sink) :
    (LogFile.create world.files call.logDirectory call.stamp).1 = .ok sink.file := by
  unfold openLog at h
  generalize LogFile.create world.files call.logDirectory call.stamp = outcome at h ⊢
  obtain ⟨result, later⟩ := outcome
  cases result with
  | error fault => cases h
  | ok file =>
    cases h
    rfl

theorem keptInside_openLog {above : Place} {name : String} {front : List String}
    (henters : Enters above name start call.logDirectory front rest)
    (hagree : AgreeOutside (above ++ [name]) start world.files world.files)
    (hstamp : IsFileName (LogFile.nameAt call.stamp))
    (havoids : Avoids world.files.IsLink (above ++ [name]) (rest ++ [LogFile.nameAt call.stamp])) :
    KeptInside (above ++ [name]) (openLog call world).1 :=
  fun _ hsink => LogFile.inside_of_create henters hstamp hagree havoids (file_of_openLog hsink)

/-- Neither the filter of a log nor the state of its directory has an influence on a call of the
session. -/
theorem run_sameOutside (h : DifferInLog home rest call call' world world')
    (hpaths : PathsOutside home call world) :
    SameOutside home (run call world) (run call' world') := by
  obtain ⟨above, name, front, rfl, henters⟩ := h.leadsInto
  have hagree : AgreeOutside (above ++ [name]) world.files world.files world'.files :=
    ⟨rfl, h.workingDirectory_eq, h.entry?_eq, fun _ _ _ => Iff.rfl⟩
  have henters' : Enters above name world.files call'.logDirectory front rest :=
    h.logDirectory_eq ▸ henters
  have hlog := keptInside_openLog henters hagree.left h.stamp h.avoids
  have hlog' := keptInside_openLog henters' hagree.right h.stamp' h.avoids'
  -- Opening their logs, the calls change the same outside.
  have hcreated := LogFile.create_agree henters h.stamp h.stamp' hagree h.avoids h.avoids'
  rw [← h.logDirectory_eq] at hcreated
  have hopened : Alongside (above ++ [name]) world.files (opened call world)
      (opened call' world') := by
    refine ⟨?_, hcreated.of_changes (h.logDirectory_eq ▸ changed_of_opened hlog)
      (changed_of_opened hlog')⟩
    rw [network_opened, network_opened, h.network_eq]
  have hload : Config.load (opened call' world').files call'.configPath =
      Config.load (opened call world).files call.configPath := by
    rw [h.configPath_eq, Config.load, Config.load, Config.loadFrom, Config.loadFrom,
      hopened.agree.isPresent_eq hpaths.configPath, hopened.agree.readText_eq hpaths.configPath]
  obtain ⟨⟨outcome, console⟩, later, later', hended, hended', hlater⟩ :=
    session_related (simulates_alongside hlog hlog') hopened hload
      fun _ => hpaths.demo.allowed
  rw [run_of_no_arguments h.arguments_eq, run_of_no_arguments h.arguments_eq',
    runSession_eq hended, runSession_eq hended']
  exact ⟨rfl, rfl, hlater.network_eq, hlater.agree.entry?_eq⟩

/-! ## A log that cannot be kept -/

/-- A user's files; there is no log directory yet, and there are no settings. -/
def emptyHome : FileTree where
  entries :=
    [(["home"], .directory), (["home", ".local"], .directory),
      (["home", ".local", "share"], .directory), (["home", "work"], .directory),
      (["home", "work", "client"], .directory)]
  workingDirectory := ["home", "work", "client"]

/-- The same files, but a plain file is where the log directory should be. -/
def blockedHome : FileTree :=
  emptyHome.put ["home", ".local", "share", "manifest-client"] (.file (Text.Utf8.encode "logs"))

/-- A call that keeps a log. -/
def loggedCall : Call where
  configPath := "/home/.config/manifest-client/config.toml"
  logDirectory := LogFile.directoryBelow "/home/.local/share"
  stamp := "20240131_235959"

/-- A later call that wants to see all records. -/
def tracedCall : Call := { loggedCall with logFilter := some "trace", stamp := "20240201_000000" }

/-- A world whose server is there. -/
def servedWorld (files : FileTree) : World where
  network := { obstacle := fun _ => none, script := [("/health", [.answer 200 [] .empty 0])] }
  files := files

theorem linkFree_emptyHome : emptyHome.LinkFree := linkFree_of_entries (by simp [emptyHome])

theorem linkFree_blockedHome : blockedHome.LinkFree :=
  linkFree_emptyHome.put (by simp) (by simp)

theorem avoids_of_inits {apart : Place → Prop} {place : Place} {parts : List String}
    (h : ∀ front ∈ parts.inits, ¬ apart (walk place front)) : Avoids apart place parts :=
  fun front hfront => h front ((List.mem_inits front parts).mpr hfront)

theorem avoids_isLink_of_linkFree {tree : FileTree} (hfree : tree.LinkFree) (place : Place)
    (parts : List String) : Avoids tree.IsLink place parts := by
  rintro front - ⟨target, hlink⟩
  exact hfree _ target hlink

theorem differInLog_blocked :
    DifferInLog ["home", ".local", "share"] ["manifest-client", "logs"] loggedCall tracedCall
      (servedWorld emptyHome) (servedWorld blockedHome) where
  arguments_eq := rfl
  arguments_eq' := rfl
  configPath_eq := rfl
  logDirectory_eq := rfl
  network_eq := rfl
  workingDirectory_eq := rfl
  entry?_eq := (ChangedInside.put (by simp) (by decide) emptyHome _).entry?_eq
  leadsInto := by
    refine ⟨["home", ".local"], "share", ["home", ".local"], rfl, ?_, ?_, ?_, ?_, ?_⟩
    · decide
    · exact way_of_linkFree linkFree_emptyHome (avoids_of_inits (by decide))
    · decide
    · decide
    · decide
  stamp := ⟨⟨by decide, by decide, by decide, by decide⟩, by decide⟩
  stamp' := ⟨⟨by decide, by decide, by decide, by decide⟩, by decide⟩
  avoids := avoids_isLink_of_linkFree linkFree_emptyHome _ _
  avoids' := avoids_isLink_of_linkFree linkFree_blockedHome _ _

theorem pathsOutside_loggedCall :
    PathsOutside ["home", ".local", "share"] loggedCall (servedWorld emptyHome) := by
  have hout : ∀ path, (∀ front ∈ (bareSteps path).inits, ¬ ["home", ".local", "share"] <+:
      walk (origin ["home", "work", "client"] path) front) →
      StaysOutside ["home", ".local", "share"] emptyHome path :=
    fun path h => staysOutside_of_clears linkFree_emptyHome (avoids_of_inits h)
  have hsettings : (settings loggedCall (opened loggedCall (servedWorld emptyHome))).1 = {} := by
    have hpresent : (opened loggedCall (servedWorld emptyHome)).files.isPresent
        loggedCall.configPath = false := by decide +kernel
    rw [settings, Config.load, hpresent]
    rfl
  refine ⟨hout _ (by decide), ?_⟩
  rw [hsettings]
  refine ⟨hout _ (by decide), hout _ (by decide), fun format => ?_, hout _ (by decide)⟩
  cases format with
  | html => exact hout _ (by decide)
  | react => exact hout _ (by decide)
  | vue => exact hout _ (by decide)
  | php => exact hout _ (by decide)

/-- A call that cannot keep its log comes to the same as one that can. -/
theorem run_sameOutside_of_blocked :
    DifferInLog ["home", ".local", "share"] ["manifest-client", "logs"] loggedCall tracedCall
        (servedWorld emptyHome) (servedWorld blockedHome) ∧
      PathsOutside ["home", ".local", "share"] loggedCall (servedWorld emptyHome) ∧
      SameOutside ["home", ".local", "share"] (run loggedCall (servedWorld emptyHome))
        (run tracedCall (servedWorld blockedHome)) :=
  ⟨differInLog_blocked, pathsOutside_loggedCall,
    run_sameOutside differInLog_blocked pathsOutside_loggedCall⟩

end PageManifest.CommandLine
