import Mathlib.Data.List.TakeWhile
import PageManifest.Proofs.CommandLine.Settings

/-!
# Blank filters

The setting of the log filter is read twice: whether it asks for a copy of the log on the error
output, and which records it lets pass. To the first reading a blank text is as good as none. The
second one takes a text of blank characters for unreadable (`ofText?_of_isBlankText`), so that
the records up to those that inform pass, as without a setting. The empty text alone it reads as a
filter without directives, which lets errors pass only (`ofVariable_empty`).

So a call with a blank filter is the same as one without, unless the filter is empty
(`run_blankFilter`). With an empty one, too, nothing else is printed on the error output. If the
session keeps off the log file, nothing differs but this file: it has the lines of errors and lacks
all others (`AgreesButLog`). That is a difference in every call that has a log file, since each
session notes the server that it uses.
-/

namespace PageManifest

namespace Log

/-! ## Reading blank filters -/

theorem Filter.splitCommas_of_notMem {cs : List Char} (h : ',' ∉ cs) : splitCommas cs = [cs] := by
  induction cs with
  | nil => rfl
  | cons c cs ih =>
    rw [List.mem_cons, not_or] at h
    rw [splitCommas, if_neg (Ne.symm h.1), ih h.2]

theorem trim_of_isBlankText {text : String} (h : Text.isBlankText text = true) :
    Text.trim text = "" := by
  have hnone : text.toList.dropWhile Text.isBlank = [] := by
    rw [List.dropWhile_eq_nil_iff]
    exact List.all_eq_true.mp h
  rw [Text.trim, hnone]
  rfl

theorem Directive.ofText?_of_isBlankText {text : String} (h : Text.isBlankText text = true) :
    ofText? text = none := by
  rw [ofText?, trim_of_isBlankText h]
  rfl

namespace Filter

/-- Blank characters make one part, which is no directive. -/
theorem ofText?_of_isBlankText {text : String} (h : Text.isBlankText text = true)
    (hne : text ≠ "") : ofText? text = none := by
  have hcomma : ',' ∉ text.toList := by
    intro hmem
    have hblank := List.all_eq_true.mp h ',' hmem
    exact absurd hblank (by decide)
  have hparts : (splitCommas text.toList).filter (!·.isEmpty) = [text.toList] := by
    rw [splitCommas_of_notMem hcomma]
    simpa using hne
  rw [ofText?, hparts]
  simp [Directive.ofText?_of_isBlankText h]

theorem ofVariable_of_isBlankText {text : String} (h : Text.isBlankText text = true)
    (hne : text ≠ "") : ofVariable (some text) = ofVariable none := by
  rw [ofVariable, Option.bind_some, ofText?_of_isBlankText h hne]
  rfl

theorem ofVariable_empty : ofVariable (some "") = upTo .error := rfl

theorem wantsCopy_of_isBlankText {text : String} (h : Text.isBlankText text = true) :
    wantsCopy (some text) = false := by
  rw [wantsCopy, Option.any_some, h]
  rfl

theorem passes_upTo_error :
    (upTo .error).passes = fun record => decide (record.level = .error) := by
  funext record
  obtain ⟨level, origin, message⟩ := record
  cases level <;> rfl

end Filter

end Log

namespace CommandLine

open Log

variable {call : Call} {world later : World} {console : Console}
  {outcome : Option (Outcome Demo.Summary)} {setting setting' : Option String}

/-- The same call with another setting of the filter. -/
def Call.withFilter (call : Call) (setting : Option String) : Call :=
  { call with logFilter := setting }

/-! ## Calls and their filters -/

theorem session_withFilter (call : Call) (setting : Option String) :
    session (call.withFilter setting) = session call := by
  funext sink world
  simp only [session, settings, Call.withFilter]

/-- Filters of the same meaning make no difference. -/
theorem run_congr_filter (harguments : call.arguments = [])
    (hfilter : Filter.ofVariable setting' = Filter.ofVariable setting)
    (hcopy : Filter.wantsCopy setting' = Filter.wantsCopy setting) (world : World) :
    run (call.withFilter setting') world = run (call.withFilter setting) world := by
  have hopen : openLog (call.withFilter setting') world =
      openLog (call.withFilter setting) world := by
    simp only [openLog, Call.withFilter, hfilter]
  have hcopied : copied (call.withFilter setting') = copied (call.withFilter setting) := by
    funext records
    rw [copied, copied, Call.withFilter, Call.withFilter, hfilter, hcopy]
  have hcall : ∀ setting, (call.withFilter setting).arguments = [] := fun _ => harguments
  rw [run_of_no_arguments (hcall _), run_of_no_arguments (hcall _), runSession, runSession, hopen,
    session_withFilter, session_withFilter, hcopied]
  rfl

/-- What a call of the session comes to whose filter asks for no copy of the log. -/
theorem run_withFilter (harguments : call.arguments = [])
    (hquiet : Filter.wantsCopy setting = false)
    (h : session call (openLog (call.withFilter setting) world).1
      (opened (call.withFilter setting) world) = ((outcome, console), later)) :
    run (call.withFilter setting) world =
      ({ code := sessionCode outcome
         output := (outcome.map fun outcome => console.transcript outcome.lines).getD ""
         errors := announcement (openLog (call.withFilter setting) world).1 ++
          (if outcome.isNone then call.crashReport else "") },
        { later with log := world.log ++ firstRecord :: later.log }) := by
  have hcall : (call.withFilter setting).arguments = [] := harguments
  have hcopied : ∀ records, copied (call.withFilter setting) records = "" := by
    intro records
    rw [copied, Call.withFilter, hquiet, if_neg Bool.false_ne_true]
  rw [← session_withFilter call setting] at h
  rw [run_of_no_arguments hcall, runSession_eq h, hcopied, hcopied, String.empty_append,
    String.append_empty, Call.withFilter]

/-- Whether a session crashes depends on its settings and on the network. -/
theorem isNone_session (call : Call) (sink : Option Sink) (world : World) :
    (session call sink world).1.1.isNone =
      (Client.ofConfig (settings call world).1).crashes world.network Client.healthPath := by
  have hconfig : (settings call world sink).1 = (settings call world).1 := settings_fst_congr rfl
  have hnetwork := network_settings call world sink
  rw [← hconfig]
  unfold session sessionWith
  generalize settings call world sink = outcome at hnetwork ⊢
  obtain ⟨config, settled⟩ := outcome
  dsimp only at hnetwork ⊢
  rw [World.network_note, hnetwork]
  cases (Client.ofConfig config).crashes world.network Client.healthPath with
  | true => rfl
  | false => rfl

/-- A session notes which server it uses, and drops no record. -/
theorem serverRecord_mem_of_session
    (h : session call sink world = ((outcome, console), later)) :
    serverRecord (settings call world).1 ∈ later.log := by
  have hconfig : (settings call world sink).1 = (settings call world).1 := settings_fst_congr rfl
  rw [← hconfig]
  unfold session sessionWith at h
  unfold serverRecord
  generalize settings call world sink = outcome at h ⊢
  obtain ⟨config, settled⟩ := outcome
  dsimp only at h ⊢
  generalize hnoted : settled.note .info .main
    ("Using manifest server at " ++ (Client.ofConfig config).baseUrl) sink = noted at h
  have hmem : (⟨.info, .main, "Using manifest server at " ++ (Client.ofConfig config).baseUrl⟩ :
      Record) ∈ noted.log := by
    rw [← hnoted, World.log_note]
    exact List.mem_append_right _ (List.mem_singleton_self _)
  split at h
  · cases h
    unfold Client.noteRequest
    rw [World.log_note]
    exact List.mem_append_left _ hmem
  · have hextends := Demo.run_extends (Client.ofConfig config) config.demo noted sink
    generalize Demo.run (Client.ofConfig config) config.demo noted sink = ran at h hextends
    cases h
    exact hextends.subset hmem

/-! ## Empty filters -/

theorem openLog_withFilter (call : Call) (world : World) (setting : Option String) :
    (openLog (call.withFilter setting) world).1 =
      (LogFile.create world.files call.logDirectory call.stamp).1.toOption.map fun file =>
        ⟨file, .ofVariable setting⟩ := by
  unfold openLog Call.withFilter
  dsimp only

theorem announcement_withFilter (call : Call) (world : World) :
    announcement (openLog (call.withFilter setting') world).1 =
      announcement (openLog (call.withFilter setting) world).1 := by
  rw [openLog_withFilter, openLog_withFilter]
  cases (LogFile.create world.files call.logDirectory call.stamp).1 with
  | error fault => rfl
  | ok file => rfl

/-- The first record is wanted neither with an empty filter nor without any. -/
theorem firstRecord_unwanted :
    (Filter.ofVariable (some "")).passes firstRecord = false ∧
      (Filter.ofVariable none).passes firstRecord = false := by
  decide

theorem opened_of_emptyFilter (call : Call) (world : World) :
    opened (call.withFilter (some "")) world = opened (call.withFilter none) world := by
  obtain ⟨hempty, hunset⟩ := firstRecord_unwanted
  rw [opened_eq, opened_eq, openLog_withFilter, openLog_withFilter]
  unfold Call.withFilter
  dsimp only
  cases (LogFile.create world.files call.logDirectory call.stamp).1 with
  | error fault => rfl
  | ok file =>
    simp only [Except.toOption, Option.map_some]
    rw [World.note_of_unwanted hempty, World.note_of_unwanted hunset]

/-- What a call with an empty filter has in common with the same call without a filter, and how
their log files differ. -/
structure AgreesButLog (call : Call) (world : World) (empty unset : Ending × World) : Prop where
  /-- The ending has what is printed, on the error output too. -/
  ending_eq : empty.1 = unset.1
  network_eq : empty.2.network = unset.2.network
  log_eq : empty.2.log = unset.2.log
  entry?_eq : ∀ place, OffLog (call.withFilter none) world place →
    empty.2.files.entry? place = unset.2.files.entry? place
  /-- What is added to each log file, and that there is always a record that makes a difference. -/
  lines : ∀ sink, (openLog (call.withFilter none) world).1 = some sink →
    ¬ LogFile.OpenedAsLatest world.files call.logDirectory sink.file →
    ∃ records config, unset.2.log = world.log ++ records ∧ serverRecord config ∈ records ∧
      unset.2.files.entry? sink.file.place =
        some (.file (world.files.bytesAt sink.file.place ++ Text.Utf8.encode
          (String.join ((records.filter fun record => record.level.rank ≤ Level.info.rank).map
            Record.line)))) ∧
      empty.2.files.entry? sink.file.place =
        some (.file (world.files.bytesAt sink.file.place ++ Text.Utf8.encode
          (String.join ((records.filter fun record => record.level = .error).map Record.line))))

/-- A call with a blank filter and one without any come to the same, unless the filter is empty.
Then they do so but for the log file, if the session keeps off it. -/
structure AgreesWithUnset (call : Call) (world : World) (text : String)
    (blank unset : Ending × World) : Prop where
  errors_eq : blank.1.errors = unset.1.errors
  eq_of_ne : text ≠ "" → blank = unset
  agreesButLog : text = "" →
    KeepsOffLog (call.withFilter none) world
      (settings call (opened (call.withFilter none) world)).1 →
    AgreesButLog call world blank unset

/-- With an empty filter, too, the error output has nothing else. -/
theorem errors_of_emptyFilter (harguments : call.arguments = []) (world : World) :
    (run (call.withFilter (some "")) world).1.errors =
      (run (call.withFilter none) world).1.errors := by
  have hopened := opened_of_emptyFilter call world
  have hcrash := isNone_session call (openLog (call.withFilter (some "")) world).1
    (opened (call.withFilter (some "")) world)
  have hcrash' := isNone_session call (openLog (call.withFilter none) world).1
    (opened (call.withFilter none) world)
  cases hempty : session call (openLog (call.withFilter (some "")) world).1
    (opened (call.withFilter (some "")) world) with
  | mk ended later =>
  cases hunset : session call (openLog (call.withFilter none) world).1
    (opened (call.withFilter none) world) with
  | mk ended' later' =>
  obtain ⟨outcome, console⟩ := ended
  obtain ⟨outcome', console'⟩ := ended'
  rw [hempty, hopened] at hcrash
  rw [hunset, ← hcrash] at hcrash'
  dsimp only at hcrash'
  rw [run_withFilter harguments (by decide) hempty, run_withFilter harguments rfl hunset]
  dsimp only
  rw [announcement_withFilter, hcrash']

/-- Two sessions with log files at one place note the same records, and each writes to the file those
that it wants. -/
theorem session_sameRecords (call : Call) (sink sink' : Sink) (hlog : world.log = [])
    (hplace : sink'.file.place = sink.file.place)
    (hpaths : ((Client.ofConfig (settings call world).1).tryHealth world).1 = .ok () →
      Demo.PathsOutside sink.file.place world.files (settings call world).1.demo) :
    Related (SameRecords world.files (world.files.entry? sink.file.place) sink sink')
      (session call (some sink) world) (session call (some sink') world) :=
  session_related (simulates_sameRecords hplace) (.of_log_eq_nil hlog hplace) rfl
    fun hok => (hpaths hok).allowed

/-- Records behind the first one are in the log file. -/
theorem hasRecords_lines {sink : Sink} {before : ByteArray} (h : HasRecords sink before later)
    (hfirst : sink.filter.passes firstRecord = false) :
    later.files.entry? sink.file.place = some (.file (before ++ Text.Utf8.encode
      (String.join (((firstRecord :: later.log).filter sink.filter.passes).map Record.line)))) := by
  rw [List.filter_cons_of_neg (by simp [hfirst])]
  exact h

/-- When the log was opened, the file has what it had before the call. -/
theorem entry?_opened {sink : Sink} (h : (openLog call world).1 = some sink)
    (hfirst : sink.filter.passes firstRecord = false)
    (hplace : ¬ LogFile.OpenedAsLatest world.files call.logDirectory sink.file) :
    (opened call world).files.entry? sink.file.place =
      some (.file (world.files.bytesAt sink.file.place)) := by
  have hcreate : LogFile.create world.files call.logDirectory call.stamp =
      (.ok sink.file, (LogFile.create world.files call.logDirectory call.stamp).2) :=
    Prod.ext (file_of_openLog h) rfl
  have hcreation := LogFile.create_eq_ok_iff.mp hcreate
  obtain ⟨base, hbase⟩ := hcreation.exists_isBase
  have hopened : (opened call world).files =
      (LogFile.create world.files call.logDirectory call.stamp).2 := by
    rw [opened_eq, h]
    exact congrArg World.files (World.note_of_unwanted hfirst _)
  rw [hopened]
  exact hcreation.entry?_place hbase fun heq => hplace ⟨base, hbase, heq⟩

/-- Without a log file the filter has nothing to do. -/
theorem run_emptyFilter_of_no_log (harguments : call.arguments = []) {fault : FileFault}
    (hcreate : (LogFile.create world.files call.logDirectory call.stamp).1 = .error fault) :
    run (call.withFilter (some "")) world = run (call.withFilter none) world := by
  have hlog : ∀ setting, (openLog (call.withFilter setting) world).1 = none := by
    intro setting
    rw [openLog_withFilter, hcreate]
    rfl
  cases hended : session call none (opened (call.withFilter none) world) with
  | mk ended later =>
  obtain ⟨outcome, console⟩ := ended
  have hunset : session call (openLog (call.withFilter none) world).1
      (opened (call.withFilter none) world) = ((outcome, console), later) := by
    rw [hlog, hended]
  have hempty : session call (openLog (call.withFilter (some "")) world).1
      (opened (call.withFilter (some "")) world) = ((outcome, console), later) := by
    rw [hlog, opened_of_emptyFilter, hended]
  rw [run_withFilter harguments (by decide) hempty, run_withFilter harguments rfl hunset, hlog,
    hlog]

/-- Both sessions note the same records, and each writes to the log file those that it wants. -/
theorem emptyFilter_agreesButLog (harguments : call.arguments = []) (world : World)
    (hpaths : KeepsOffLog (call.withFilter none) world
      (settings call (opened (call.withFilter none) world)).1) :
    AgreesButLog call world (run (call.withFilter (some "")) world)
      (run (call.withFilter none) world) := by
  cases hcreate : (LogFile.create world.files call.logDirectory call.stamp).1 with
  | error fault =>
    rw [run_emptyFilter_of_no_log harguments hcreate]
    refine ⟨rfl, rfl, rfl, fun _ _ => rfl, fun sink hsink => ?_⟩
    rw [openLog_withFilter, hcreate] at hsink
    cases hsink
  | ok file =>
    have hlog : ∀ setting, (openLog (call.withFilter setting) world).1 =
        some ⟨file, .ofVariable setting⟩ := by
      intro setting
      rw [openLog_withFilter, hcreate]
      rfl
    obtain ⟨⟨outcome, console⟩, later, later', hunset, hempty, hlater⟩ :=
      session_sameRecords call ⟨file, .ofVariable none⟩ ⟨file, .ofVariable (some "")⟩ rfl rfl
        (hpaths _ (hlog none)).of_opened
    have hserver := serverRecord_mem_of_session hunset
    rw [← hlog] at hunset hempty
    rw [← opened_of_emptyFilter] at hempty
    rw [run_withFilter harguments (by decide) hempty, run_withFilter harguments rfl hunset]
    constructor
    case ending_eq => rw [announcement_withFilter]
    case network_eq => exact hlater.alongside.network_eq
    case log_eq => rw [hlater.log_eq]
    case entry?_eq =>
      intro place hplace
      exact hlater.alongside.agree.entry?_eq place (hplace _ (hlog none))
    case lines =>
      intro sink hsink hlatest
      obtain ⟨hunwanted, hunwanted'⟩ := firstRecord_unwanted
      cases (hlog none).symm.trans hsink
      have hfirst := entry?_opened (hlog none) hunwanted' hlatest
      have hlines := hasRecords_lines (hlater.hasRecords _ hfirst) hunwanted'
      have hlines' := hasRecords_lines (hlater.hasRecords' _ hfirst) hunwanted
      rw [hlater.log_eq] at hlines'
      refine ⟨_, _, rfl, List.mem_cons_of_mem _ hserver, hlines, ?_⟩
      rw [← Filter.passes_upTo_error]
      exact hlines'

/-- A call whose filter is blank is the same as without a filter, except that an empty filter keeps
all records but those of errors out of the log file. -/
theorem run_blankFilter {text : String} (harguments : call.arguments = [])
    (hblank : Text.isBlankText text = true) (world : World) :
    AgreesWithUnset call world text (run (call.withFilter (some text)) world)
      (run (call.withFilter none) world) := by
  have hsame : text ≠ "" →
      run (call.withFilter (some text)) world = run (call.withFilter none) world :=
    fun hne => run_congr_filter harguments (Filter.ofVariable_of_isBlankText hblank hne)
      (Filter.wantsCopy_of_isBlankText hblank) world
  by_cases hempty : text = ""
  · subst hempty
    exact ⟨errors_of_emptyFilter harguments world, hsame,
      fun _ hpaths => emptyFilter_agreesButLog harguments world hpaths⟩
  · rw [hsame hempty]
    exact ⟨rfl, fun _ => rfl, fun htext => absurd htext hempty⟩

/-- No files, and no server. -/
def emptyWorld : World where
  network := { obstacle := fun _ => some .unreachable, script := [] }
  files := { entries := [], workingDirectory := [] }

/-- Spaces make no difference at all, and an empty filter none but for the log file, as the session
ends without a server. -/
theorem run_blankFilter_of_blanks :
    shortCall.arguments = [] ∧ Text.isBlankText " \t" = true ∧ Text.isBlankText "" = true ∧
      run (shortCall.withFilter (some " \t")) emptyWorld =
        run (shortCall.withFilter none) emptyWorld ∧
      AgreesButLog shortCall emptyWorld (run (shortCall.withFilter (some "")) emptyWorld)
        (run (shortCall.withFilter none) emptyWorld) := by
  have hunhealthy : ((Client.ofConfig (settings shortCall
      (opened (shortCall.withFilter none) emptyWorld)).1).tryHealth emptyWorld).1.isOk = false := by
    decide +kernel
  refine ⟨rfl, by decide, by decide, ?_, ?_⟩
  · exact (run_blankFilter rfl (by decide) emptyWorld).eq_of_ne (by decide)
  · refine (run_blankFilter rfl (by decide) emptyWorld).agreesButLog rfl fun sink _ hok => ?_
    rw [hok] at hunhealthy
    cases hunhealthy

/-- Without a filter the log says which server is used. With an empty filter it is empty. -/
theorem log_of_emptyFilter :
    let log := fun setting => (run (shortCall.withFilter setting) emptyWorld).2.files.readText
      "/l/manifest-client_0.log"
    Text.isBlankText "" = true ∧
      (log none).toOption =
        some " INFO manifest_client: Using manifest server at http://localhost:3009\n" ∧
      (log (some "")).toOption = some "" := by
  decide +kernel

end CommandLine

end PageManifest
