import Mathlib.Data.List.Nodup
import Mathlib.Data.List.Perm.Basic
import PageManifest.Proofs.Config.RoundTrip
import PageManifest.Proofs.Toml.Additions

/-!
# Settings that a file gives

A setting has its place, a name in a table, and replaces the default there. Settings of different
places can be replaced in any order (`withSettings_perm`). What a document gives of them is read
table by table (`ReadsSettings.putEntries`): a table that is a field starts from its own defaults,
which are still there, as its name comes once.
-/

namespace PageManifest

/-! ## Settings -/

/-- The tables of a settings file. -/
inductive Section where
  | server
  | display
  | icons
  | demo
deriving DecidableEq

/-- The path of a table. -/
def Section.path : Section → List String
  | .server => ["server"]
  | .display => ["display"]
  | .icons => ["display", "icons"]
  | .demo => ["demo"]

/-- The settings that are texts. -/
inductive TextSetting where
  | baseUrl
  | success
  | failure
  | info
  | file
  | url
  | build
  | manifestFile
  | outputDirectory
  | sampleUrl
  | generatedFile

namespace TextSetting

/-- The table of a text. -/
def table : TextSetting → Section
  | baseUrl => .server
  | success | failure | info | file | url | build => .icons
  | manifestFile | outputDirectory | sampleUrl | generatedFile => .demo

/-- The name of a text. -/
def name : TextSetting → String
  | baseUrl => "base_url"
  | success => "success"
  | failure => "failure"
  | info => "info"
  | file => "file"
  | url => "url"
  | build => "build"
  | manifestFile => "manifest_file"
  | outputDirectory => "output_dir"
  | sampleUrl => "sample_url"
  | generatedFile => "generated_file"

/-- Replaces a text. -/
def set (which : TextSetting) (text : String) (config : Config) : Config :=
  match which with
  | baseUrl => { config with server.baseUrl := text }
  | success => { config with display.icons.success := text }
  | failure => { config with display.icons.failure := text }
  | info => { config with display.icons.info := text }
  | file => { config with display.icons.file := text }
  | url => { config with display.icons.url := text }
  | build => { config with display.icons.build := text }
  | manifestFile => { config with demo.manifestFile := text }
  | outputDirectory => { config with demo.outputDirectory := text }
  | sampleUrl => { config with demo.sampleUrl := text }
  | generatedFile => { config with demo.generatedFile := text }

end TextSetting

/-- The settings that are truth values. -/
inductive FlagSetting where
  | useGlyphs
  | useColor

namespace FlagSetting

/-- The name of a truth value. -/
def name : FlagSetting → String
  | useGlyphs => "use_glyphs"
  | useColor => "use_color"

/-- Replaces a truth value. -/
def set (which : FlagSetting) (flag : Bool) (config : Config) : Config :=
  match which with
  | useGlyphs => { config with display.useGlyphs := flag }
  | useColor => { config with display.useColor := flag }

end FlagSetting

/-- A setting with its value. -/
inductive Setting where
  | text (which : TextSetting) (value : String)
  | flag (which : FlagSetting) (value : Bool)
  | timeout (seconds : UInt64)

namespace Setting

/-- The table of a setting. -/
def table : Setting → Section
  | text which _ => which.table
  | flag _ _ => .display
  | timeout _ => .server

/-- The name of a setting in its table. -/
def name : Setting → String
  | text which _ => which.name
  | flag which _ => which.name
  | timeout _ => "timeout_secs"

/-- Where a setting stands. -/
def place (setting : Setting) : List String × String := (setting.table.path, setting.name)

/-- Replaces a setting. -/
def apply (setting : Setting) (config : Config) : Config :=
  match setting with
  | .text which value => which.set value config
  | .flag which value => which.set value config
  | .timeout seconds => { config with server.timeout := some seconds }

/-- Whether an item is the value of a setting. -/
def Fits : Setting → Toml.Item → Prop
  | .text _ value, item => ∃ stretch, item = .string stretch value
  | .flag _ value, item => ∃ stretch, item = .boolean stretch value
  | .timeout seconds, item => ∃ stretch, item = .integer stretch seconds.toNat

/-- Whether a field of a file gives a setting. -/
def Sets (setting : Setting) (addition : Toml.Addition) : Prop :=
  addition.place = setting.place ∧ setting.Fits addition.item

/-- Settings of different places can be replaced in any order. -/
theorem apply_comm {first later : Setting} (h : first.place ≠ later.place) (config : Config) :
    later.apply (first.apply config) = first.apply (later.apply config) := by
  cases first with
  | text which text =>
    cases later with
    | text other text => cases which <;> cases other <;> first | rfl | exact absurd rfl h
    | flag other flag => cases which <;> cases other <;> rfl
    | timeout seconds => cases which <;> rfl
  | flag which flag =>
    cases later with
    | text other text => cases which <;> cases other <;> rfl
    | flag other flag => cases which <;> cases other <;> first | rfl | exact absurd rfl h
    | timeout seconds => cases which <;> rfl
  | timeout seconds =>
    cases later with
    | text other text => cases other <;> rfl
    | flag other flag => cases other <;> rfl
    | timeout other => exact absurd rfl h

end Setting

/-- The settings with some of them replaced, one after the other. -/
def Config.withSettings (config : Config) (given : List Setting) : Config :=
  given.foldl (fun config setting => setting.apply config) config

theorem Config.withSettings_append (config : Config) (given others : List Setting) :
    config.withSettings (given ++ others) = (config.withSettings given).withSettings others :=
  List.foldl_append

/-- Settings of different places give the same in any order. -/
theorem Config.withSettings_perm {given others : List Setting} (h : given.Perm others)
    (hdiffer : (given.map Setting.place).Nodup) (config : Config) :
    config.withSettings given = config.withSettings others := by
  refine h.foldl_eq' ?_ config
  intro first hfirst later hlater config
  by_cases hsame : first = later
  · rw [hsame]
  · refine (Setting.apply_comm ?_ config)
    intro hplace
    exact hsame (List.inj_on_of_nodup_map hdiffer hfirst hlater hplace)

/-! ## Names -/

namespace Config

/-- The names of the fields of the table at a path. -/
def fieldNames : List String → List String
  | [] => fields.map Toml.Field.name
  | ["server"] => ServerSettings.fields.map Toml.Field.name
  | ["display"] => DisplaySettings.fields.map Toml.Field.name
  | ["display", "icons"] => Icons.fields.map Toml.Field.name
  | ["demo"] => DemoSettings.fields.map Toml.Field.name
  | _ => []

theorem fieldNames_cases {path : List String} (h : fieldNames path ≠ []) :
    path = [] ∨ ∃ table : Section, path = table.path := by
  unfold fieldNames at h
  split at h
  · exact Or.inl rfl
  · exact Or.inr ⟨.server, rfl⟩
  · exact Or.inr ⟨.display, rfl⟩
  · exact Or.inr ⟨.icons, rfl⟩
  · exact Or.inr ⟨.demo, rfl⟩
  · exact absurd rfl h

/-- The settings and their tables. -/
def layout : Toml.Layout where
  names := fieldNames
  mem_names {path name} h := by
    rcases fieldNames_cases h with hpath | ⟨table, hpath⟩
    · exact absurd hpath (List.append_ne_nil_of_right_ne_nil path (List.cons_ne_nil name []))
    · have hfront : path = table.path.dropLast := by rw [← hpath, List.dropLast_concat]
      have hlast : table.path.getLast? = some name := by rw [← hpath, List.getLast?_concat]
      rw [hfront]
      cases table with
      | server =>
        cases hlast
        decide
      | display =>
        cases hlast
        decide
      | icons =>
        cases hlast
        decide
      | demo =>
        cases hlast
        decide

end Config

/-! ## Reading -/

/-- Some field puts a setting into a record that is seen in the settings, and keeps what is fresh
there. -/
def Setting.IsPutBy {α : Type} (setting : Setting) (fields : List (Toml.Field α))
    (view : α → Config) (Fresh : String → α → Prop) : Prop :=
  ∃ field, fields.find? (·.name == setting.name) = some field ∧
    ∀ item record, setting.Fits item → ∃ later, field.put item record = .ok later ∧
      view later = setting.apply (view record) ∧ ∀ name, Fresh name record → Fresh name later

/-- How the entries of a table change a record that is seen in the settings. A field gives its
setting, and a table that is a field replaces what is still the default. -/
structure ReadsSettings {α : Type} (path : List String) (fields : List (Toml.Field α))
    (view : α → Config) (Fresh : String → α → Prop) : Prop where
  names : Config.fieldNames path = fields.map Toml.Field.name
  field : ∀ setting : Setting, setting.table.path = path → setting.IsPutBy fields view Fresh
  table : ∀ {name : String} {inner left : Toml.Entries} {added : List Toml.Addition}
    {given : List Setting},
    Config.fieldNames (path ++ [name]) ≠ [] →
    Toml.Adds Config.layout (path ++ [name]) inner left added →
    List.Forall₂ Setting.Sets given added →
    ∃ field, fields.find? (·.name == name) = some field ∧
      ∀ origin stretch record, Fresh name record → ∃ later,
        field.put (.table origin stretch inner) record = .ok later ∧
        view later = (view record).withSettings given ∧
        ∀ other, other ≠ name → Fresh other record → Fresh other later

/-- What the tables among some entries will replace is fresh in a record. -/
def IsFresh {α : Type} (path : List String) (Fresh : String → α → Prop) (entries : Toml.Entries)
    (record : α) : Prop :=
  ∀ name, Config.fieldNames (path ++ [name]) ≠ [] → Toml.Entries.get? entries name ≠ none →
    Fresh name record

section Fresh

variable {α : Type} {path : List String} {Fresh : String → α → Prop} {entries : Toml.Entries}
  {key : Toml.Key} {item : Toml.Item} {record later : α}

theorem IsFresh.head (h : IsFresh path Fresh ((key, item) :: entries) record)
    (htable : Config.fieldNames (path ++ [key.text]) ≠ []) : Fresh key.text record := by
  refine h key.text htable ?_
  rw [Toml.Entries.get?_cons_self]
  exact Option.some_ne_none _

/-- What is behind an entry is still fresh if the entry leaves it alone. -/
theorem IsFresh.tail (h : IsFresh path Fresh ((key, item) :: entries) record)
    (hkeeps : ∀ name, Toml.Entries.get? entries name ≠ none → Fresh name record →
      Fresh name later) : IsFresh path Fresh entries later := by
  intro name htable hthere
  exact hkeeps name hthere (h name htable (Toml.Entries.get?_cons_ne_none hthere))

end Fresh

theorem ReadsSettings.putEntries {α : Type} {path : List String} {fields : List (Toml.Field α)}
    {view : α → Config} {Fresh : String → α → Prop} (h : ReadsSettings path fields view Fresh)
    {full rest : Toml.Entries} {added : List Toml.Addition} {given : List Setting}
    (hadds : Toml.Adds Config.layout path full rest added)
    (hgiven : List.Forall₂ Setting.Sets given added) (record : α)
    (hfresh : IsFresh path Fresh full record) :
    ∃ later, Toml.putEntries fields record full = .ok later ∧
      view later = (view record).withSettings given := by
  induction hadds generalizing given record with
  | nil =>
    cases hgiven
    exact ⟨record, rfl, rfl⟩
  | @unknown path key item full rest added hkey _ ih =>
    have hname : key.text ∉ fields.map Toml.Field.name := by
      rw [← h.names]
      exact hkey
    rw [Toml.putEntries_cons_of_unknown hname]
    exact ih h hgiven record (hfresh.tail fun _ _ hbefore => hbefore)
  | @field path key item full rest added hkey hfield _ ih =>
    cases hgiven with
    | @cons setting _ given _ hsets hgiven =>
      obtain ⟨hplace, hfits⟩ := hsets
      have hpath : path = setting.table.path := congrArg Prod.fst hplace
      have hname : key.text = setting.name := congrArg Prod.snd hplace
      obtain ⟨field, hfind, hput⟩ := h.field setting hpath.symm
      obtain ⟨middle, hmiddle, hview, hkeeps⟩ := hput item record hfits
      obtain ⟨later, hlater, hall⟩ :=
        ih h hgiven middle (hfresh.tail fun name _ => hkeeps name)
      rw [← hname] at hfind
      rw [Toml.putEntries_cons hfind hmiddle]
      refine ⟨later, hlater, ?_⟩
      rw [hall, hview]
      rfl
  | @table path key origin stretch other inner left full rest added others htable hnew hinner _ _
      ih =>
    obtain ⟨front, behind, rfl, hfront, hbehind⟩ : ∃ front behind, given = front ++ behind ∧
        List.Forall₂ Setting.Sets front added ∧ List.Forall₂ Setting.Sets behind others :=
      ⟨_, _, (List.take_append_drop added.length given).symm,
        List.forall₂_take_append given added others hgiven,
        List.forall₂_drop_append given added others hgiven⟩
    obtain ⟨field, hfind, hput⟩ := h.table htable hinner hfront
    obtain ⟨middle, hmiddle, hview, hkeeps⟩ := hput origin stretch record (hfresh.head htable)
    have hfreshBehind : IsFresh path Fresh full middle := by
      refine hfresh.tail ?_
      intro name hthere hbefore
      have hne : name ≠ key.text := by
        rintro rfl
        exact hthere hnew
      exact hkeeps name hne hbefore
    obtain ⟨later, hlater, hall⟩ := ih h hbehind middle hfreshBehind
    rw [Toml.putEntries_cons hfind hmiddle]
    refine ⟨later, hlater, ?_⟩
    rw [hall, hview, Config.withSettings_append]

/-- A record of a table puts its settings into what is around it. -/
theorem ReadsSettings.exists_put {α β : Type} {path : List String} {fields : List (Toml.Field α)}
    {view : α → Config} {Fresh : String → α → Prop} (h : ReadsSettings path fields view Fresh)
    {inner left : Toml.Entries} {added : List Toml.Addition} {given : List Setting}
    (hadds : Toml.Adds Config.layout path inner left added)
    (hgiven : List.Forall₂ Setting.Sets given added) (base : α) (hfresh : ∀ name, Fresh name base)
    (set : α → β) (expected : String) (origin : Toml.Origin) (stretch : Option Toml.Stretch) :
    ∃ record, (do return set (← Toml.putRecord expected fields base
        (.table origin stretch inner))) = Except.ok (set record) ∧
      view record = (view base).withSettings given := by
  obtain ⟨record, hput, hview⟩ := h.putEntries hadds hgiven base (fun name _ _ => hfresh name)
  refine ⟨record, ?_, hview⟩
  rw [Toml.putRecord, hput]
  rfl

theorem ReadsSettings.name_mem {α : Type} {path : List String} {fields : List (Toml.Field α)}
    {view : α → Config} {Fresh : String → α → Prop} (h : ReadsSettings path fields view Fresh)
    {setting : Setting} (hpath : setting.table.path = path) :
    setting.name ∈ Config.fieldNames path := by
  obtain ⟨field, hfind, -⟩ := h.field setting hpath
  have hfound := List.find?_some hfind
  rw [h.names, ← eq_of_beq hfound]
  exact List.mem_map_of_mem (List.mem_of_find?_eq_some hfind)

theorem Section.path_inj {table other : Section} (h : table.path = other.path) : table = other := by
  cases table <;> cases other <;> first | rfl | exact absurd h (by decide)

/-- A table in a table that counts. -/
theorem exists_table_of_fieldNames {path : List String} {name : String}
    (h : Config.fieldNames (path ++ [name]) ≠ []) :
    ∃ table : Section, table.path = path ++ [name] := by
  rcases Config.fieldNames_cases h with hpath | ⟨table, hpath⟩
  · exact absurd hpath (List.append_ne_nil_of_right_ne_nil path (List.cons_ne_nil name []))
  · exact ⟨table, hpath.symm⟩

section Tables

variable {α : Type} {fields : List (Toml.Field α)} {view : α → Config} {Fresh : String → α → Prop}

theorem isPutBy_text {which : TextSetting} {expected : String} {set : String → α → α}
    (hfind : fields.find? (·.name == which.name) = some (textField which.name expected set))
    (hview : ∀ value record, view (set value record) = which.set value (view record))
    (hfresh : ∀ value record name, Fresh name record → Fresh name (set value record))
    (value : String) : (Setting.text which value).IsPutBy fields view Fresh := by
  refine ⟨_, hfind, ?_⟩
  rintro item record ⟨stretch, rfl⟩
  exact ⟨set value record, rfl, hview value record, hfresh value record⟩

theorem isPutBy_flag {which : FlagSetting} {set : Bool → α → α}
    (hfind : fields.find? (·.name == which.name) = some (flagField which.name set))
    (hview : ∀ value record, view (set value record) = which.set value (view record))
    (hfresh : ∀ value record name, Fresh name record → Fresh name (set value record))
    (value : Bool) : (Setting.flag which value).IsPutBy fields view Fresh := by
  refine ⟨_, hfind, ?_⟩
  rintro item record ⟨stretch, rfl⟩
  exact ⟨set value record, rfl, hview value record, hfresh value record⟩

end Tables

theorem readsSettings_icons (base : Config) :
    ReadsSettings Section.icons.path Icons.fields
      (fun icons => { base with display := { base.display with icons } }) (fun _ _ => True) where
  names := rfl
  field setting hpath := by
    have htable := Section.path_inj hpath
    cases setting with
    | text which value =>
      cases which <;>
        first
          | exact isPutBy_text rfl (fun _ _ => rfl) (fun _ _ _ _ => trivial) value
          | cases htable
    | flag which value => cases htable
    | timeout seconds => cases htable
  table h _ _ := absurd rfl h

theorem readsSettings_server (base : Config) :
    ReadsSettings Section.server.path ServerSettings.fields
      (fun server => { base with server }) (fun _ _ => True) where
  names := rfl
  field setting hpath := by
    have htable := Section.path_inj hpath
    cases setting with
    | text which value =>
      cases which <;>
        first
          | exact isPutBy_text rfl (fun _ _ => rfl) (fun _ _ _ _ => trivial) value
          | cases htable
    | flag which value => cases htable
    | timeout seconds =>
      obtain ⟨field, hfind, hput⟩ := puts_secondsEntry seconds
      refine ⟨field, hfind, ?_⟩
      rintro item record ⟨stretch, rfl⟩
      exact ⟨_, hput stretch record, rfl, fun _ _ => trivial⟩
  table h _ _ := absurd rfl h

theorem readsSettings_demo (base : Config) :
    ReadsSettings Section.demo.path DemoSettings.fields
      (fun demo => { base with demo }) (fun _ _ => True) where
  names := rfl
  field setting hpath := by
    have htable := Section.path_inj hpath
    cases setting with
    | text which value =>
      cases which <;>
        first
          | exact isPutBy_text rfl (fun _ _ => rfl) (fun _ _ _ _ => trivial) value
          | cases htable
    | flag which value => cases htable
    | timeout seconds => cases htable
  table h _ _ := absurd rfl h

theorem readsSettings_display (base : Config) :
    ReadsSettings Section.display.path DisplaySettings.fields
      (fun display => { base with display })
      (fun name display => name = "icons" → display.icons = {}) where
  names := rfl
  field setting hpath := by
    have htable := Section.path_inj hpath
    cases setting with
    | text which value => cases which <;> cases htable
    | flag which value =>
      cases which with
      | useGlyphs =>
        refine isPutBy_flag rfl ?_ ?_ value
        · intro value record
          rfl
        · intro value record name h
          exact h
      | useColor =>
        refine isPutBy_flag rfl ?_ ?_ value
        · intro value record
          rfl
        · intro value record name h
          exact h
    | timeout seconds => cases htable
  table {name inner left added given} h hadds hgiven := by
    obtain ⟨table, htable⟩ := exists_table_of_fieldNames h
    cases table with
    | icons =>
      have hname : name = "icons" := (List.cons.inj (List.cons.inj htable).2).1.symm
      subst hname
      refine ⟨_, rfl, ?_⟩
      intro origin stretch record hfresh
      obtain ⟨later, hput, hview⟩ :=
        (readsSettings_icons { base with display := record }).exists_put hadds hgiven {}
          (fun _ => trivial) (fun icons => { record with icons }) "IconConfig" origin stretch
      refine ⟨_, hput, ?_, ?_⟩
      · refine hview.trans ?_
        rw [← hfresh rfl]
      · intro other hother _ hicons
        exact absurd hicons hother
    | _ => exact absurd htable (by simp [Section.path])

theorem readsSettings_config :
    ReadsSettings [] Config.fields id fun name config =>
      (name = "server" → config.server = {}) ∧ (name = "display" → config.display = {}) ∧
        (name = "demo" → config.demo = {}) where
  names := rfl
  field setting hpath := by
    generalize setting.table = table at hpath
    cases table <;> cases hpath
  table {name inner left added given} h hadds hgiven := by
    obtain ⟨table, htable⟩ := exists_table_of_fieldNames h
    cases table with
    | server =>
      obtain rfl : name = "server" := (List.cons.inj htable).1.symm
      refine ⟨_, rfl, ?_⟩
      intro origin stretch config hfresh
      obtain ⟨later, hput, hview⟩ :=
        (readsSettings_server config).exists_put hadds hgiven {} (fun _ => trivial)
          (fun server => { config with server }) "ServerConfig" origin stretch
      refine ⟨_, hput, ?_, ?_⟩
      · refine hview.trans ?_
        rw [← hfresh.1 rfl]
        rfl
      · rintro other hother ⟨-, hdisplay, hdemo⟩
        exact ⟨fun hserver => absurd hserver hother, hdisplay, hdemo⟩
    | display =>
      obtain rfl : name = "display" := (List.cons.inj htable).1.symm
      refine ⟨_, rfl, ?_⟩
      intro origin stretch config hfresh
      obtain ⟨later, hput, hview⟩ :=
        (readsSettings_display config).exists_put hadds hgiven {} (fun _ _ => rfl)
          (fun display => { config with display }) "DisplayConfig" origin stretch
      refine ⟨_, hput, ?_, ?_⟩
      · refine hview.trans ?_
        rw [← hfresh.2.1 rfl]
        rfl
      · rintro other hother ⟨hserver, -, hdemo⟩
        exact ⟨hserver, fun hdisplay => absurd hdisplay hother, hdemo⟩
    | icons => exact absurd htable (by simp [Section.path])
    | demo =>
      obtain rfl : name = "demo" := (List.cons.inj htable).1.symm
      refine ⟨_, rfl, ?_⟩
      intro origin stretch config hfresh
      obtain ⟨later, hput, hview⟩ :=
        (readsSettings_demo config).exists_put hadds hgiven {} (fun _ => trivial)
          (fun demo => { config with demo }) "DemoConfig" origin stretch
      refine ⟨_, hput, ?_, ?_⟩
      · refine hview.trans ?_
        rw [← hfresh.2.2 rfl]
        rfl
      · rintro other hother ⟨hserver, hdisplay, -⟩
        exact ⟨hserver, hdisplay, fun hdemo => absurd hdemo hother⟩

/-- Of a document that gives some settings these are read, whatever else it says. -/
theorem Config.putEntries_of_adds {full rest : Toml.Entries} {added : List Toml.Addition}
    {given : List Setting} (hadds : Toml.Adds layout [] full rest added)
    (hgiven : List.Forall₂ Setting.Sets given added) :
    Toml.putEntries fields {} full = .ok (withSettings {} given) := by
  obtain ⟨later, hput, rfl⟩ := readsSettings_config.putEntries hadds hgiven {}
    (fun _ _ _ => ⟨fun _ => rfl, fun _ => rfl, fun _ => rfl⟩)
  exact hput

end PageManifest
