import PageManifest.Config.File
import PageManifest.Proofs.Toml.Tables

/-!
# Settings that were written

Settings are read back from what is written of them, with any texts and flags
(`ofToml_of_toToml`). Glyphs that are not to be used are replaced by the plain ones on reading.
-/

namespace PageManifest

/-! ## Lines of settings -/

/-- The line of a key and a text. -/
def textEntry (key text : String) : Toml.Line := ⟨key.toList, Toml.stringText text, (.string · text)⟩

/-- The line of a key and a truth value. -/
def flagEntry (key : String) (flag : Bool) : Toml.Line :=
  ⟨key.toList, (if flag then "true" else "false").toList, (.boolean · flag)⟩

/-- The line of the number of seconds to wait. -/
def secondsEntry (seconds : UInt64) : Toml.Line :=
  ⟨"timeout_secs".toList, Nat.toDigits 10 seconds.toNat, (.integer · seconds.toNat)⟩

theorem toList_textLine (key text : String) :
    (Config.textLine key text).toList = (textEntry key text).text := by
  simp [Config.textLine, textEntry, Toml.Line.text, Toml.writeString]

theorem toList_flagLine (key : String) (flag : Bool) :
    (Config.flagLine key flag).toList = (flagEntry key flag).text := by
  simp [Config.flagLine, flagEntry, Toml.Line.text]

theorem toList_secondsLine (seconds : UInt64) :
    ("timeout_secs = " ++ toString seconds.toNat ++ "\n").toList = (secondsEntry seconds).text := by
  rw [String.toList_append, String.toList_append, Nat.toString_eq_repr, Nat.toList_repr,
    Toml.Line.text]
  dsimp only [secondsEntry]
  rw [List.append_assoc]
  rfl

/-- No name of a table or a field needs quotes. -/
theorem isBare_name : ∀ name ∈ ["server", "base_url", "timeout_secs", "display", "use_glyphs",
    "use_color", "icons", "success", "failure", "info", "file", "url", "build", "demo",
    "manifest_file", "output_dir", "sample_url", "generated_file"],
    Toml.IsBare name.toList := by
  decide +kernel

theorem isSound_textEntry {key : String} (h : Toml.IsBare key.toList) (text : String) :
    (textEntry key text).IsSound := ⟨h, Toml.readsAs_stringText text⟩

theorem isSound_flagEntry {key : String} (h : Toml.IsBare key.toList) (flag : Bool) :
    (flagEntry key flag).IsSound := ⟨h, Toml.readsAs_flag flag⟩

theorem isSound_secondsEntry {seconds : UInt64} (h : seconds.toNat < 0x8000000000000000) :
    (secondsEntry seconds).IsSound := by
  have hbare : Toml.IsBare "timeout_secs".toList := isBare_name _ (by simp)
  exact ⟨hbare, Toml.readsAs_toDigits h⟩

/-! ## Fields -/

theorem puts_textEntry {α : Type} {fields : List (Toml.Field α)} {key expected : String}
    {set : String → α → α}
    (h : fields.find? (·.name == key) = some (textField key expected set)) (text : String) :
    (textEntry key text).Puts fields (set text) := by
  refine ⟨textField key expected set, ?_, fun stretch record => rfl⟩
  rw [textEntry, String.ofList_toList]
  exact h

theorem puts_flagEntry {α : Type} {fields : List (Toml.Field α)} {key : String}
    {set : Bool → α → α} (h : fields.find? (·.name == key) = some (flagField key set))
    (flag : Bool) : (flagEntry key flag).Puts fields (set flag) := by
  refine ⟨flagField key set, ?_, fun stretch record => rfl⟩
  rw [flagEntry, String.ofList_toList]
  exact h

theorem puts_secondsEntry (seconds : UInt64) :
    (secondsEntry seconds).Puts ServerSettings.fields
      fun settings => { settings with timeout := some seconds } := by
  refine ⟨_, rfl, fun stretch settings => ?_⟩
  have hrange : decide (0 ≤ (seconds.toNat : Int)) &&
      decide ((seconds.toNat : Int) < 0x10000000000000000) := by
    have hlt := seconds.toNat_lt
    rw [Bool.and_eq_true, decide_eq_true_eq, decide_eq_true_eq]
    omega
  have hcount : (Toml.Item.integer stretch seconds.toNat).count = .ok seconds := by
    rw [Toml.Item.count, if_pos hrange, Int.toNat_natCast, UInt64.ofNat_toNat]
  dsimp only [secondsEntry]
  rw [hcount]
  rfl

/-! ## Tables of settings -/

/-- The lines of server settings. -/
def ServerSettings.block (settings : ServerSettings) : List Toml.Line :=
  textEntry "base_url" settings.baseUrl :: (settings.timeout.map secondsEntry).toList

/-- The lines of display settings, but for the glyphs. -/
def DisplaySettings.block (settings : DisplaySettings) : List Toml.Line :=
  [flagEntry "use_glyphs" settings.useGlyphs, flagEntry "use_color" settings.useColor]

/-- The lines of glyphs. -/
def Icons.block (icons : Icons) : List Toml.Line :=
  [textEntry "success" icons.success, textEntry "failure" icons.failure,
    textEntry "info" icons.info, textEntry "file" icons.file, textEntry "url" icons.url,
    textEntry "build" icons.build]

/-- The lines of session settings. -/
def DemoSettings.block (settings : DemoSettings) : List Toml.Line :=
  [textEntry "manifest_file" settings.manifestFile,
    textEntry "output_dir" settings.outputDirectory, textEntry "sample_url" settings.sampleUrl,
    textEntry "generated_file" settings.generatedFile]

theorem putEntries_serverBlock (settings : ServerSettings) {entries : Toml.Entries}
    (h : List.Forall₂ Toml.Line.Gives settings.block entries) :
    Toml.putEntries ServerSettings.fields {} entries = .ok settings := by
  obtain ⟨url, timeout⟩ := settings
  cases timeout with
  | none =>
    have hputs : List.Forall₂ (Toml.Line.Puts ServerSettings.fields)
        (ServerSettings.block ⟨url, none⟩) _ := .cons (puts_textEntry rfl url) .nil
    have hread := Toml.putEntries_of_gives hputs h {} []
    rw [List.append_nil] at hread
    exact hread
  | some seconds =>
    have hputs : List.Forall₂ (Toml.Line.Puts ServerSettings.fields)
        (ServerSettings.block ⟨url, some seconds⟩) _ :=
      .cons (puts_textEntry rfl url) (.cons (puts_secondsEntry seconds) .nil)
    have hread := Toml.putEntries_of_gives hputs h {} []
    rw [List.append_nil] at hread
    exact hread

theorem putEntries_iconsBlock (icons : Icons) {entries : Toml.Entries}
    (h : List.Forall₂ Toml.Line.Gives icons.block entries) :
    Toml.putEntries Icons.fields {} entries = .ok icons := by
  have hputs : List.Forall₂ (Toml.Line.Puts Icons.fields) icons.block _ :=
    .cons (puts_textEntry rfl _) <| .cons (puts_textEntry rfl _) <|
      .cons (puts_textEntry rfl _) <| .cons (puts_textEntry rfl _) <|
        .cons (puts_textEntry rfl _) <| .cons (puts_textEntry rfl _) .nil
  have hread := Toml.putEntries_of_gives hputs h {} []
  rw [List.append_nil] at hread
  exact hread

theorem putEntries_displayBlock (settings : DisplaySettings) {entries deeper : Toml.Entries}
    {key : Toml.Key} (hkey : key.text = "icons") (stretch : Option Toml.Stretch)
    (h : List.Forall₂ Toml.Line.Gives settings.block entries)
    (hicons : List.Forall₂ Toml.Line.Gives settings.icons.block deeper) :
    Toml.putEntries DisplaySettings.fields {}
      (entries ++ [(key, .table .header stretch deeper)]) = .ok settings := by
  have hputs : List.Forall₂ (Toml.Line.Puts DisplaySettings.fields) settings.block _ :=
    .cons (puts_flagEntry rfl _) <| .cons (puts_flagEntry rfl _) .nil
  have hfield : DisplaySettings.fields.find? (·.name == key.text) =
      DisplaySettings.fields.find? (·.name == "icons") := by rw [hkey]
  rw [Toml.putEntries_of_gives hputs h {},
    Toml.putEntries_table (hfield.trans rfl) (putEntries_iconsBlock settings.icons hicons)]
  rfl

theorem putEntries_demoBlock (settings : DemoSettings) {entries : Toml.Entries}
    (h : List.Forall₂ Toml.Line.Gives settings.block entries) :
    Toml.putEntries DemoSettings.fields {} entries = .ok settings := by
  have hputs : List.Forall₂ (Toml.Line.Puts DemoSettings.fields) settings.block _ :=
    .cons (puts_textEntry rfl _) <| .cons (puts_textEntry rfl _) <|
      .cons (puts_textEntry rfl _) <| .cons (puts_textEntry rfl _) .nil
  have hread := Toml.putEntries_of_gives hputs h {} []
  rw [List.append_nil] at hread
  exact hread

namespace Config

/-! ## Whole files -/

/-- The characters of written settings, from the session settings on. -/
def charsFromDemo (config : Config) : List Char :=
  Toml.sectionText "demo".toList [] config.demo.block ++ []

/-- The characters of written settings, from the glyphs on. -/
def charsFromIcons (config : Config) : List Char :=
  Toml.sectionText "display".toList ["icons".toList] config.display.icons.block ++
    '\n' :: config.charsFromDemo

/-- The characters of written settings, from the display settings on. -/
def charsFromDisplay (config : Config) : List Char :=
  Toml.sectionText "display".toList [] config.display.block ++ '\n' :: config.charsFromIcons

/-- The characters of written settings. -/
def chars (config : Config) : List Char :=
  Toml.sectionText "server".toList [] config.server.block ++ '\n' :: config.charsFromDisplay

/-- Whether the number of seconds to wait, if there is one, is within the range of settings
files: it has 63 bits. -/
def IsWritable (config : Config) : Prop :=
  ∀ seconds ∈ config.server.timeout, seconds.toNat < 0x8000000000000000

theorem greatestNumber_lt_iff (seconds : UInt64) :
    greatestNumber < seconds ↔ ¬ seconds.toNat < 0x8000000000000000 := by
  have hgreatest : greatestNumber.toNat = 0x7FFFFFFFFFFFFFFF := rfl
  rw [UInt64.lt_iff_toNat_lt, hgreatest]
  omega

theorem timeoutLine_eq {timeout : Option UInt64}
    (h : ∀ seconds ∈ timeout, seconds.toNat < 0x8000000000000000) :
    ∃ line, timeoutLine timeout = .ok line ∧
      line.toList = (timeout.map secondsEntry).toList.flatMap Toml.Line.text := by
  cases timeout with
  | none => exact ⟨"", rfl, rfl⟩
  | some seconds =>
    refine ⟨"timeout_secs = " ++ toString seconds.toNat ++ "\n", ?_, ?_⟩
    · rw [timeoutLine, if_neg (fun hpast => (greatestNumber_lt_iff seconds).mp hpast (h _ rfl))]
    · rw [toList_secondsLine]
      exact (List.append_nil _).symm

theorem toToml_eq {config : Config} (h : config.IsWritable) :
    config.toToml = .ok (String.ofList config.chars) := by
  obtain ⟨timeout, htimeout, hline⟩ := timeoutLine_eq h
  rw [toToml, htimeout]
  dsimp only [bind, Except.bind, pure, Except.pure]
  rw [Except.ok.injEq, ← String.toList_inj, String.toList_ofList]
  simp [chars, charsFromDisplay, charsFromIcons, charsFromDemo, Toml.sectionText, Toml.headerText,
    Toml.pointedParts, ServerSettings.block, DisplaySettings.block, Icons.block, DemoSettings.block, toList_textLine, toList_flagLine, hline]

theorem isSound_serverBlock {config : Config} (h : config.IsWritable) :
    ∀ line ∈ config.server.block, line.IsSound := by
  intro line hmem
  rcases List.mem_cons.mp hmem with rfl | hmem
  · exact isSound_textEntry (isBare_name _ (by simp)) _
  · obtain ⟨seconds, hseconds, rfl⟩ := Option.map_eq_some_iff.mp (Option.mem_toList.mp hmem)
    exact isSound_secondsEntry (h seconds hseconds)

theorem nodup_serverBlock (settings : ServerSettings) :
    (settings.block.map Toml.Line.key).Nodup := by
  obtain ⟨url, timeout⟩ := settings
  cases timeout with
  | none =>
    show ["base_url".toList].Nodup
    decide
  | some seconds =>
    show ["base_url".toList, "timeout_secs".toList].Nodup
    decide

theorem nodup_displayBlock (settings : DisplaySettings) :
    (settings.block.map Toml.Line.key).Nodup := by
  show ["use_glyphs".toList, "use_color".toList].Nodup
  decide

theorem nodup_iconsBlock (icons : Icons) : (icons.block.map Toml.Line.key).Nodup := by
  show ["success".toList, "failure".toList, "info".toList, "file".toList, "url".toList,
    "build".toList].Nodup
  decide

theorem nodup_demoBlock (settings : DemoSettings) :
    (settings.block.map Toml.Line.key).Nodup := by
  show ["manifest_file".toList, "output_dir".toList, "sample_url".toList,
    "generated_file".toList].Nodup
  decide

theorem isSound_displayBlock (settings : DisplaySettings) :
    ∀ line ∈ settings.block, line.IsSound := by
  simp only [DisplaySettings.block, List.forall_mem_cons, List.not_mem_nil, false_implies,
    implies_true, and_true]
  refine ⟨?_, ?_⟩ <;> exact isSound_flagEntry (isBare_name _ (by simp)) _

theorem isSound_iconsBlock (icons : Icons) : ∀ line ∈ icons.block, line.IsSound := by
  simp only [Icons.block, List.forall_mem_cons, List.not_mem_nil, false_implies, implies_true,
    and_true]
  refine ⟨?_, ?_, ?_, ?_, ?_, ?_⟩ <;> exact isSound_textEntry (isBare_name _ (by simp)) _

theorem isSound_demoBlock (settings : DemoSettings) : ∀ line ∈ settings.block, line.IsSound := by
  simp only [DemoSettings.block, List.forall_mem_cons, List.not_mem_nil, false_implies,
    implies_true, and_true]
  refine ⟨?_, ?_, ?_, ?_⟩ <;> exact isSound_textEntry (isBare_name _ (by simp)) _

/-- The three tables of written settings give the settings. -/
theorem putEntries_tables {config : Config} {server display icons demo : Toml.Key}
    (hserver : server.text = "server") (hdisplay : display.text = "display")
    (hicons : icons.text = "icons") (hdemo : demo.text = "demo")
    {serverEntries displayEntries iconsEntries demoEntries : Toml.Entries}
    (hserverGives : List.Forall₂ Toml.Line.Gives config.server.block serverEntries)
    (hdisplayGives : List.Forall₂ Toml.Line.Gives config.display.block displayEntries)
    (hiconsGives : List.Forall₂ Toml.Line.Gives config.display.icons.block iconsEntries)
    (hdemoGives : List.Forall₂ Toml.Line.Gives config.demo.block demoEntries)
    (ownServer ownDisplay ownIcons ownDemo : Option Toml.Stretch) :
    Toml.putEntries fields {} [(server, .table .header ownServer serverEntries),
      (display, .table .header ownDisplay
        (displayEntries ++ [(icons, .table .header ownIcons iconsEntries)])),
      (demo, .table .header ownDemo demoEntries)] = .ok config := by
  have hserverField : fields.find? (·.name == server.text) =
      fields.find? (·.name == "server") := by rw [hserver]
  have hdisplayField : fields.find? (·.name == display.text) =
      fields.find? (·.name == "display") := by rw [hdisplay]
  have hdemoField : fields.find? (·.name == demo.text) =
      fields.find? (·.name == "demo") := by rw [hdemo]
  have hdisplayRead := putEntries_displayBlock config.display hicons ownIcons hdisplayGives
    hiconsGives
  rw [Toml.putEntries_table (hserverField.trans rfl)
      (putEntries_serverBlock config.server hserverGives),
    Toml.putEntries_table (hdisplayField.trans rfl) hdisplayRead,
    Toml.putEntries_table (hdemoField.trans rfl) (putEntries_demoBlock config.demo hdemoGives)]
  rfl

/-- Written settings give a document with their three tables, and these give the settings. -/
theorem exists_read_chars {config : Config} (h : config.IsWritable) :
    ∃ entries, Toml.read (String.ofList config.chars) = .ok entries ∧
      Toml.putEntries fields {} entries = .ok config := by
  have hserverBare : Toml.IsBare "server".toList := isBare_name _ (by simp)
  have hdisplayBare : Toml.IsBare "display".toList := isBare_name _ (by simp)
  have hiconsBare : Toml.IsBare "icons".toList := isBare_name _ (by simp)
  have hdemoBare : Toml.IsBare "demo".toList := isBare_name _ (by simp)
  have hempty : ({} : Toml.Draft).closed = .ok [] := rfl
  obtain ⟨_, _, server, ownServer, serverEntries, hleads, hclosed, hserver, hserverGives⟩ :=
    Toml.exists_section hserverBare (isSound_serverBlock h) (nodup_serverBlock _) hempty rfl
      ('\n' :: config.charsFromDisplay)
  rw [String.ofList_toList] at hserver
  rw [List.nil_append] at hclosed
  have hdisplayNew : Toml.Entries.get? [(server, .table .header ownServer serverEntries)]
      (String.ofList "display".toList) = none := by
    simp [Toml.Entries.get?, hserver]
  obtain ⟨_, _, display, ownDisplay, displayEntries, hleadsDisplay, hclosed, hdisplay,
      hdisplayGives⟩ :=
    Toml.exists_section hdisplayBare (isSound_displayBlock config.display)
      (nodup_displayBlock _) hclosed hdisplayNew ('\n' :: config.charsFromIcons)
  rw [← hdisplay] at hdisplayNew
  have hiconsNew : Toml.Entries.get? displayEntries (String.ofList "icons".toList) = none := by
    refine Toml.get?_eq_none_of_gives hdisplayGives ?_
    simp [DisplaySettings.block, flagEntry]
  obtain ⟨_, _, icons, ownIcons, iconsEntries, hleadsIcons, hclosed, hicons, hiconsGives⟩ :=
    Toml.exists_innerSection hdisplayBare hiconsBare (isSound_iconsBlock config.display.icons)
      (nodup_iconsBlock _) hclosed hdisplay hdisplayNew hiconsNew ('\n' :: config.charsFromDemo)
  rw [String.ofList_toList] at hdisplay hicons
  have hdemoNew : Toml.Entries.get? ([(server, .table .header ownServer serverEntries)] ++
      [(display, .table .header ownDisplay
        (displayEntries ++ [(icons, .table .header ownIcons iconsEntries)]))])
      (String.ofList "demo".toList) = none := by
    simp [Toml.Entries.get?, hserver, hdisplay]
  obtain ⟨_, _, demo, ownDemo, demoEntries, hleadsDemo, hclosed, hdemo, hdemoGives⟩ :=
    Toml.exists_section hdemoBare (isSound_demoBlock config.demo) (nodup_demoBlock _) hclosed
      hdemoNew []
  rw [String.ofList_toList] at hdemo
  have hall := (((((hleads.trans (Toml.leads_blank _ _)).trans hleadsDisplay).trans
    (Toml.leads_blank _ _)).trans hleadsIcons).trans (Toml.leads_blank _ _)).trans hleadsDemo
  refine ⟨_, Toml.read_of_leads ?_ hall hclosed, ?_⟩
  · simp [Toml.sectionText, Toml.headerText]
  · exact putEntries_tables hserver hdisplay hicons hdemo hserverGives hdisplayGives hiconsGives
      hdemoGives ownServer ownDisplay ownIcons ownDemo

/-- Written settings are read back. -/
theorem ofToml_chars {config : Config} (h : config.IsWritable) :
    ofToml (String.ofList config.chars) = .ok config.withUsableIcons := by
  obtain ⟨entries, hread, hput⟩ := exists_read_chars h
  rw [ofToml, hread]
  dsimp only
  rw [hput]

theorem toToml_eq_error {config : Config} (h : ¬ config.IsWritable) :
    config.toToml = .error .timeoutOutOfRange := by
  have htimeout : timeoutLine config.server.timeout = .error .timeoutOutOfRange := by
    cases hseconds : config.server.timeout with
    | none => exact absurd (fun seconds hmem => by simp [hseconds] at hmem) h
    | some seconds =>
      refine if_pos ((greatestNumber_lt_iff seconds).mpr fun hlt => h fun other hmem => ?_)
      rw [hseconds, Option.mem_some_iff] at hmem
      exact hmem ▸ hlt
  rw [toToml, htimeout]
  rfl

theorem withUsableIcons_idem (config : Config) :
    config.withUsableIcons.withUsableIcons = config.withUsableIcons := by
  cases hglyphs : config.display.useGlyphs with
  | true => simp [withUsableIcons, hglyphs]
  | false => simp [withUsableIcons, hglyphs]

theorem IsWritable.withUsableIcons {config : Config} (h : config.IsWritable) :
    config.withUsableIcons.IsWritable := by
  unfold Config.withUsableIcons
  split
  · exact h
  · exact h

end Config

end PageManifest
