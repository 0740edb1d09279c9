import PageManifest.Proofs.Config.Settings
import PageManifest.Proofs.Toml.Sections

/-!
# Files that give some settings

A file may give any of the settings, each below the header of its table, and leave out the others.
Tables and names may come in any order, and between them may stand what no setting has to do with
(`ofToml_of_settings`).
-/

namespace PageManifest

/-! ## Files that were written -/

namespace Setting

/-- The line of a setting. -/
def line : Setting → Toml.Line
  | .text which value => textEntry which.name value
  | .flag which value => flagEntry which.name value
  | .timeout seconds => secondsEntry seconds

/-- Whether a setting is within the range of settings files. -/
def IsWritable : Setting → Prop
  | .timeout seconds => seconds.toNat ≤ 0x7FFFFFFFFFFFFFFF
  | _ => True

theorem isBare_name (setting : Setting) : Toml.IsBare setting.name.toList := by
  refine PageManifest.isBare_name _ ?_
  cases setting with
  | text which value => cases which <;> simp [name, TextSetting.name]
  | flag which value => cases which <;> simp [name, FlagSetting.name]
  | timeout seconds => simp [name]

theorem isSound_line {setting : Setting} (h : setting.IsWritable) : setting.line.IsSound := by
  cases setting with
  | text which value => exact isSound_textEntry (isBare_name (.text which value)) value
  | flag which value => exact isSound_flagEntry (isBare_name (.flag which value)) value
  | timeout seconds => exact isSound_secondsEntry (Nat.lt_succ_of_le h)

theorem key_line (setting : Setting) : String.ofList setting.line.key = setting.name := by
  cases setting <;> exact String.ofList_toList

theorem sets_of_gives {setting : Setting} {entry : Toml.Key × Toml.Item}
    (h : setting.line.Gives entry) : setting.Sets ⟨setting.table.path, entry.1, entry.2⟩ := by
  obtain ⟨hkey, stretch, hitem⟩ := h
  refine ⟨Prod.ext rfl (hkey.trans setting.key_line), ?_⟩
  cases setting <;> exact ⟨stretch, hitem⟩

theorem name_mem_fieldNames (setting : Setting) :
    setting.name ∈ Config.fieldNames setting.table.path := by
  cases htable : setting.table with
  | server => exact (readsSettings_server {}).name_mem (congrArg Section.path htable)
  | display => exact (readsSettings_display {}).name_mem (congrArg Section.path htable)
  | icons => exact (readsSettings_icons {}).name_mem (congrArg Section.path htable)
  | demo => exact (readsSettings_demo {}).name_mem (congrArg Section.path htable)

/-- No setting is a table. -/
theorem fieldNames_place (setting : Setting) :
    Config.fieldNames (setting.table.path ++ [setting.name]) = [] := by
  cases setting with
  | text which value => cases which <;> rfl
  | flag which value => cases which <;> rfl
  | timeout seconds => rfl

end Setting

namespace Section

/-- A path has one name or two. -/
theorem exists_path_eq_cons (table : Section) :
    ∃ part parts, table.path = part :: parts ∧ parts.length ≤ 1 := by
  cases table with
  | icons => exact ⟨_, _, rfl, Nat.le_refl 1⟩
  | _ => exact ⟨_, _, rfl, Nat.zero_le 1⟩

theorem isBare_path (table : Section) : ∀ part ∈ table.path, Toml.IsBare part.toList := by
  intro part hpart
  refine isBare_name part ?_
  cases table with
  | icons =>
    rcases List.mem_pair.mp hpart with rfl | rfl
    · simp
    · simp
  | _ =>
    rw [List.mem_singleton.mp hpart]
    simp

end Section

/-- The characters of a table with some of its settings. -/
def Section.chars (table : Section) (given : List Setting) : List Char :=
  Toml.sectionText (table.path.headD "").toList (table.path.tail.map String.toList)
    (given.map Setting.line)

/-- What was written of a table says that it starts, and what its keys get. -/
theorem Section.exists_says_chars (table : Section) {given : List Setting}
    (hgiven : ∀ setting ∈ given, setting.IsWritable) (rest : List Char) :
    ∃ keys stretch entries, Toml.Says (table.chars given ++ rest)
        (.header keys false stretch :: entries.map fun entry => .assignment [] entry.1 entry.2) rest
        (given.length + 1) ∧
      keys.map Toml.Key.text = table.path ∧
      List.Forall₂ Toml.Line.Gives (given.map Setting.line) entries := by
  obtain ⟨part, parts, hpath, hlength⟩ := table.exists_path_eq_cons
  have hbare := table.isBare_path
  rw [hpath, List.forall_mem_cons] at hbare
  have hblock : ∀ line ∈ given.map Setting.line, line.IsSound := by
    intro line hline
    obtain ⟨setting, hmem, rfl⟩ := List.mem_map.mp hline
    exact setting.isSound_line (hgiven setting hmem)
  have hparts : ∀ chars ∈ parts.map String.toList, Toml.IsBare chars := by
    intro chars hchars
    obtain ⟨name, hmem, rfl⟩ := List.mem_map.mp hchars
    exact hbare.2 name hmem
  have hdepth : (parts.map String.toList).length + 1 < Toml.depthLimit := by
    rw [List.length_map, Toml.depthLimit]
    omega
  obtain ⟨keys, stretch, entries, hsays, htexts, hentries⟩ :=
    Toml.says_section hbare.1 hparts hdepth hblock rest
  refine ⟨keys, stretch, entries, ?_, ?_, hentries⟩
  · rw [List.length_map] at hsays
    rw [Section.chars, hpath]
    exact hsays
  · rw [htexts, hpath, List.map_cons, List.map_map]
    simp [Function.comp_def]

/-- The keys of a table with some of its settings say these. -/
theorem exists_splits_fields {table : Section} {given : List Setting}
    (htable : ∀ setting ∈ given, setting.table = table) {entries : Toml.Entries}
    (hgives : List.Forall₂ Toml.Line.Gives (given.map Setting.line) entries)
    {said others : List Toml.Statement} {fields : List Toml.Addition}
    (h : Toml.Splits Config.layout table.path said fields others) :
    ∃ own, Toml.Splits Config.layout table.path
        ((entries.map fun entry => .assignment [] entry.1 entry.2) ++ said) (own ++ fields) others ∧
      List.Forall₂ Setting.Sets given own := by
  induction given generalizing entries with
  | nil =>
    cases hgives
    exact ⟨[], h, .nil⟩
  | cons setting given ih =>
    cases hgives with
    | @cons _ entry _ entries hentry hentries =>
      obtain ⟨own, hsplits, hown⟩ :=
        ih (fun other hmem => htable other (List.mem_cons_of_mem setting hmem)) hentries
      obtain rfl := htable setting List.mem_cons_self
      have hsets := setting.sets_of_gives hentry
      have hname : entry.1.text = setting.name := congrArg Prod.snd hsets.1
      refine ⟨⟨setting.table.path, entry.1, entry.2⟩ :: own, .field ?_ ?_ hsplits, .cons hsets hown⟩
      · rw [hname]
        exact setting.name_mem_fieldNames
      · rw [hname]
        exact setting.fieldNames_place

/-- Tables with some of their settings. -/
abbrev Sections := List (Section × List Setting)

/-- What was written of tables says that they start, and what their keys get. -/
theorem exists_says_sections {sections : Sections}
    (hsections : ∀ part ∈ sections, ∀ setting ∈ part.2, setting.table = part.1 ∧ setting.IsWritable)
    (here : List String) :
    ∃ (said : List Toml.Statement) (fields : List Toml.Addition)
      (tables : List (List Toml.Key × Toml.Stretch)) (steps : Nat),
      Toml.Says (sections.flatMap fun part => part.1.chars part.2) said [] steps ∧
      Toml.Splits Config.layout here said fields (tables.map Toml.opening) ∧
      List.Forall₂ Setting.Sets (sections.flatMap Prod.snd) fields ∧
      tables.map (fun table => table.1.map Toml.Key.text) =
        sections.map fun part => part.1.path := by
  induction sections generalizing here with
  | nil => exact ⟨[], [], [], 0, .refl [], .nil, .nil, rfl⟩
  | cons part sections ih =>
    obtain ⟨table, given⟩ := part
    obtain ⟨said, fields, tables, steps, hsays, hsplits, hfields, htables⟩ :=
      ih (fun other hmem => hsections other (List.mem_cons_of_mem _ hmem)) table.path
    have hgiven := hsections (table, given) List.mem_cons_self
    obtain ⟨keys, stretch, entries, hsection, htexts, hentries⟩ :=
      table.exists_says_chars (fun setting hmem => (hgiven setting hmem).2)
        (sections.flatMap fun part => part.1.chars part.2)
    obtain ⟨own, hown, hsets⟩ :=
      exists_splits_fields (fun setting hmem => (hgiven setting hmem).1) hentries hsplits
    rw [← htexts] at hown
    refine ⟨_, own ++ fields, (keys, stretch) :: tables, _, hsection.trans hsays, ?_, ?_, ?_⟩
    · refine .table ?_ ?_ hown
      · rintro rfl
        cases table <;> cases htexts
      · rw [htexts]
        cases table <;> exact List.cons_ne_nil _ _
    · exact List.rel_append hsets hfields
    · rw [List.map_cons, List.map_cons, htables, htexts]

namespace Config

/-- The text of tables with some of their settings. -/
def sectionsText (sections : Sections) : String :=
  String.ofList (sections.flatMap fun part => part.1.chars part.2)

/-- A text gives some settings if it says each of them below the header of its table, and all that
it says otherwise is a document of its own which keeps away from the names of settings. -/
def Gives (text : String) (given : List Setting) : Prop :=
  ∃ said fields others rest, Toml.statements text = .ok said ∧
    Toml.Splits layout [] said fields others ∧ Toml.build others = .ok rest ∧
    List.Forall₂ Setting.Sets given fields

theorem place_eq_of_sets {given : List Setting} {fields : List Toml.Addition}
    (h : List.Forall₂ Setting.Sets given fields) :
    fields.map Toml.Addition.place = given.map Setting.place := by
  induction h with
  | nil => rfl
  | cons hsets _ ih => rw [List.map_cons, List.map_cons, hsets.1, ih]

/-- The settings that a text gives are read from it, and the others are the default ones. -/
theorem ofToml_of_gives {text : String} {given : List Setting} (h : Gives text given)
    (hdiffer : (given.map Setting.place).Nodup) :
    ofToml text = .ok (withSettings {} given).withUsableIcons := by
  obtain ⟨said, fields, others, rest, hstatements, hsplits, hbuild, hgiven⟩ := h
  obtain ⟨full, added, hfull, hadds, hperm⟩ :=
    Toml.build_of_splits hsplits (by rwa [place_eq_of_sets hgiven]) hbuild
  have hread : Toml.read text = .ok full := Toml.read_eq_ok_iff.mpr ⟨said, hstatements, hfull⟩
  -- The fields may stand in the document in another order than in the text.
  obtain ⟨settings, hsettings, horder⟩ := List.perm_comp_forall₂ hperm hgiven.flip
  have hput := putEntries_of_adds hadds hsettings.flip
  rw [ofToml, hread]
  dsimp only
  rw [hput, withSettings_perm horder.symm hdiffer]

theorem room_path (table : Section) : Toml.Room [] table.path := by
  cases table <;> exact Or.inl rfl

/-- What was written of different tables gives their settings. -/
theorem gives_sectionsText {sections : Sections} (hdiffer : (sections.map Prod.fst).Nodup)
    (hsections : ∀ part ∈ sections, ∀ setting ∈ part.2,
      setting.table = part.1 ∧ setting.IsWritable) :
    Gives (sectionsText sections) (sections.flatMap Prod.snd) := by
  obtain ⟨said, fields, tables, steps, hsays, hsplits, hfields, htables⟩ :=
    exists_says_sections hsections []
  obtain ⟨rest, hbuild⟩ : ∃ rest, Toml.build (tables.map Toml.opening) = .ok rest := by
    refine Toml.exists_build_openings ?_ ?_
    · rw [htables]
      have hpaths := hdiffer.map (fun _ _ => Section.path_inj)
      rwa [List.map_map] at hpaths
    · intro table hmem
      have hpath : table.1.map Toml.Key.text ∈ sections.map fun part => part.1.path := by
        rw [← htables]
        exact List.mem_map_of_mem hmem
      obtain ⟨part, -, hpart⟩ := List.mem_map.mp hpath
      rw [← hpart]
      exact room_path part.1
  refine ⟨said, fields, _, rest, hsays.statements_eq_ok ?_, hsplits, hbuild, hfields⟩
  cases sections with
  | nil => exact nofun
  | cons part sections =>
    intro hmark
    cases hmark

/-- A settings file may give any settings, each once in its own table, in any order and among other
things: they are read, the others are the default ones, and glyphs that are not to be used are
replaced last. Any texts, flags and numbers in the range of settings files can be written so. -/
theorem ofToml_of_settings :
    (∀ text given, Gives text given → (given.map Setting.place).Nodup →
      ofToml text = .ok (withSettings {} given).withUsableIcons) ∧
    (∀ given others : List Setting, given.Perm others → (given.map Setting.place).Nodup →
      withSettings {} given = withSettings {} others) ∧
    (∀ sections : Sections, (sections.map Prod.fst).Nodup →
      (∀ part ∈ sections, ∀ setting ∈ part.2, setting.table = part.1 ∧ setting.IsWritable) →
      ((sections.flatMap Prod.snd).map Setting.place).Nodup →
      ofToml (sectionsText sections) =
        .ok (withSettings {} (sections.flatMap Prod.snd)).withUsableIcons) := by
  refine ⟨?_, ?_, ?_⟩
  · intro text given hgives hdiffer
    exact ofToml_of_gives hgives hdiffer
  · intro given others hperm hdiffer
    exact withSettings_perm hperm hdiffer {}
  · intro sections htables hsections hdiffer
    exact ofToml_of_gives (gives_sectionsText htables hsections) hdiffer

/-- A file that gives a setting in three tables, a table before the one around it, and other
things. -/
def mixedFile : String :=
  "theme = [1]\n[demo]\noutput_dir = \"o\"\nnote = \"x\"\n[display.icons]\nfile = \"F\"\n" ++
    "[other]\na.b = 1\n[display]\nuse_glyphs = false\n"

theorem gives_mixedFile :
    Gives mixedFile [.text .outputDirectory "o", .text .file "F", .flag .useGlyphs false] := by
  have hsplits : Toml.Splits layout []
      [.assignment [] ⟨"theme", ⟨119, 114⟩⟩ (.array ⟨111, 108⟩ [.integer ⟨110, 109⟩ 1]),
        .header [⟨"demo", ⟨106, 102⟩⟩] false ⟨107, 101⟩,
        .assignment [] ⟨"output_dir", ⟨100, 90⟩⟩ (.string ⟨87, 84⟩ "o"),
        .assignment [] ⟨"note", ⟨83, 79⟩⟩ (.string ⟨76, 73⟩ "x"),
        .header [⟨"display", ⟨71, 64⟩⟩, ⟨"icons", ⟨63, 58⟩⟩] false ⟨72, 57⟩,
        .assignment [] ⟨"file", ⟨56, 52⟩⟩ (.string ⟨49, 46⟩ "F"),
        .header [⟨"other", ⟨44, 39⟩⟩] false ⟨45, 38⟩,
        .assignment [⟨"a", ⟨37, 36⟩⟩] ⟨"b", ⟨35, 34⟩⟩ (.integer ⟨31, 30⟩ 1),
        .header [⟨"display", ⟨28, 21⟩⟩] false ⟨29, 20⟩,
        .assignment [] ⟨"use_glyphs", ⟨19, 9⟩⟩ (.boolean ⟨6, 1⟩ false)] _ _ :=
    .unknown (Or.inl (by decide)) <| .table (by simp) (by decide) <|
      .field (by decide) (by decide) <| .unknown (Or.inr ⟨by decide, Or.inl (by decide)⟩) <|
      .table (by simp) (by decide) <| .field (by decide) (by decide) <|
      .unknownTable (Or.inl (by decide)) <| .unknown (Or.inl (by decide)) <|
      .table (by simp) (by decide) <| .field (by decide) (by decide) .nil
  exact ⟨_, _, _, _, by decide +kernel, hsplits, rfl,
    .cons ⟨rfl, _, rfl⟩ (.cons ⟨rfl, _, rfl⟩ (.cons ⟨rfl, _, rfl⟩ .nil))⟩

theorem ofToml_of_settings_mixedFile :
    (Gives mixedFile [.text .outputDirectory "o", .text .file "F", .flag .useGlyphs false] ∧
      ofToml mixedFile = .ok
        { display := { useGlyphs := false, icons := .simple },
          demo := { outputDirectory := "o" } }) ∧
    withSettings {} [.flag .useColor false, .timeout 30] =
      withSettings {} [.timeout 30, .flag .useColor false] ∧
    ofToml (sectionsText [(.icons, [.text .url "u"]), (.display, []),
        (.server, [.timeout 30, .text .baseUrl "\n"])]) =
      .ok
        { server := { baseUrl := "\n", timeout := some 30 },
          display := { icons := { url := "u" } } } := by
  obtain ⟨hgives, hperm, hsections⟩ := ofToml_of_settings
  refine ⟨⟨gives_mixedFile, hgives _ _ gives_mixedFile (by decide)⟩, ?_, ?_⟩
  · exact hperm _ _ (.swap _ _ _) (by decide)
  · refine hsections _ (by decide) ?_ (by decide)
    simp [Setting.table, TextSetting.table, Setting.IsWritable]

end Config

end PageManifest
