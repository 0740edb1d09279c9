import PageManifest.Proofs.Toml.Layout
import PageManifest.Proofs.Toml.Statements

/-!
# Fields among other statements

A document gives some fields of a layout, each in its own table, and says other things. What it
says otherwise may be anything that is well-formed on its own and keeps away from the names that
count. Then the whole is well-formed too, and holds the fields and what is said otherwise
(`build_of_splits`).

The document is compared with the one that is made without the fields, statement by statement:
a header or a dotted key that leads through the smaller one leads through the greater one
(`Adds.exists_entrance`), so that a change can be made there too (`Adds.within`), and the two
drafts stay related (`Draft.Gains`).
-/

namespace PageManifest.Toml

variable {layout : Layout} {path : List String} {full rest : Entries} {added : List Addition}
  {name : String} {key : Key} {item : Item}

/-! ## Ways into tables -/

/-- The way into a table: how the table came to be, what it holds, and the entries around it with
something else in it. -/
structure Entrance where
  origin : Origin
  inner : Entries
  around : Entries → Entries

/-- The way into the table under a key, which is created if it is not there. -/
def entrance? (approach : Approach) (key : Key) (entries : Entries) : Option Entrance :=
  match Entries.get? entries key.text with
  | none => some ⟨approach.origin, [], fun inner =>
      entries ++ [(key, .table approach.origin none inner)]⟩
  | some (.table origin stretch inner) =>
    if approach.mayEnter origin then
      some ⟨origin, inner, fun inner =>
        Entries.replace entries key.text (.table origin stretch inner)⟩
    else none
  | some (.tables stretch items) =>
    match items.getLast? with
    | some (.table origin own inner) =>
      some ⟨origin, inner, fun inner => Entries.replace entries key.text
        (.tables stretch (items.dropLast ++ [.table origin own inner]))⟩
    | _ => none
  | some _ => none

variable {α : Type} {approach : Approach} {behind : List String} {keys : List Key} {origin : Origin}
  {change other : Origin → Entries → Except Cause (Entries × α)}

theorem within_cons_of_entrance? {entries : Entries} {found : Entrance}
    (h : entrance? approach key entries = some found) :
    within approach change behind (key :: keys) origin entries = (do
      let changed ← within approach change (behind ++ [key.text]) keys found.origin found.inner
      return (found.around changed.1, changed.2)) := by
  rw [entrance?] at h
  split at h
  · rename_i hnone
    cases h
    rw [within, hnone]
  · rename_i hthere
    split at h
    · rename_i henter
      cases h
      rw [within, hthere]
      exact if_pos henter
    · cases h
  · rename_i hthere
    split at h
    · rename_i hlast
      cases h
      rw [within, hthere]
      dsimp only
      rw [hlast]
    · cases h
  · cases h

theorem exists_entrance?_of_within {entries later : Entries} {a : α}
    (h : within approach change behind (key :: keys) origin entries = .ok (later, a)) :
    ∃ found, entrance? approach key entries = some found := by
  rw [within] at h
  split at h
  · rename_i hnone
    rw [entrance?, hnone]
    exact ⟨_, rfl⟩
  · rename_i hthere
    split at h
    · rename_i henter
      rw [entrance?, hthere]
      exact ⟨_, if_pos henter⟩
    · cases h
  · rename_i hthere
    split at h
    · rename_i hlast
      rw [entrance?, hthere]
      dsimp only
      rw [hlast]
      exact ⟨_, rfl⟩
    · cases h
  · cases h

/-- Keys lead into a table and on from there. -/
theorem within_cons_eq_ok_iff {entries later : Entries} {a : α} :
    within approach change behind (key :: keys) origin entries = .ok (later, a) ↔
      ∃ found inner, entrance? approach key entries = some found ∧
        within approach change (behind ++ [key.text]) keys found.origin found.inner =
          .ok (inner, a) ∧
        later = found.around inner := by
  constructor
  · intro h
    obtain ⟨found, hfound⟩ := exists_entrance?_of_within h
    rw [within_cons_of_entrance? hfound] at h
    obtain ⟨⟨inner, b⟩, hinner, heq⟩ := bind_eq_ok.mp h
    cases heq
    exact ⟨found, inner, hfound, hinner, rfl⟩
  · rintro ⟨found, inner, hfound, hinner, rfl⟩
    rw [within_cons_of_entrance? hfound]
    exact bind_eq_ok.mpr ⟨_, hinner, rfl⟩

/-- The way into a table leads to what was put into it. -/
theorem inner_eq_of_entrance? {entries inner : Entries} {found again : Entrance}
    (h : entrance? approach key entries = some found)
    (hagain : entrance? approach key (found.around inner) = some again) : again.inner = inner := by
  rw [entrance?] at h
  split at h
  · rename_i hnone
    cases h
    rw [entrance?, Entries.get?_append_self hnone] at hagain
    dsimp only at hagain
    split at hagain
    · cases hagain
      rfl
    · cases hagain
  · rename_i own stretch entries hthere
    have hpresent := hthere.trans_ne (Option.some_ne_none _)
    split at h
    · rename_i henter
      cases h
      rw [entrance?, Entries.get?_replace_self hpresent] at hagain
      dsimp only at hagain
      rw [if_pos henter] at hagain
      cases hagain
      rfl
    · cases h
  · rename_i stretch items hthere
    have hpresent := hthere.trans_ne (Option.some_ne_none _)
    split at h
    · cases h
      rw [entrance?, Entries.get?_replace_self hpresent] at hagain
      dsimp only at hagain
      rw [List.getLast?_concat] at hagain
      cases hagain
      rfl
    · cases h
  · cases h

/-- Where some keys lead, if they lead to a table at all, the entries have a property. -/
def AtEnd (approach : Approach) (P : Entries → Prop) : List Key → Entries → Prop
  | [], entries => P entries
  | key :: keys, entries =>
    ∀ found, entrance? approach key entries = some found → AtEnd approach P keys found.inner

theorem atEnd_of_forall {P : Entries → Prop} (h : ∀ entries, P entries) (keys : List Key)
    (entries : Entries) : AtEnd approach P keys entries := by
  induction keys generalizing entries with
  | nil => exact h entries
  | cons key keys ih => exact fun found _ => ih found.inner

theorem atEnd_of_within {P : Entries → Prop} {later : Entries} {a : α}
    (hother : ∀ {origin entries later a}, other origin entries = .ok (later, a) → P later)
    (h : within approach other behind keys origin rest = .ok (later, a)) :
    AtEnd approach P keys later := by
  induction keys generalizing behind origin rest later a with
  | nil => exact hother h
  | cons key keys ih =>
    obtain ⟨found, inner, hfound, hinner, rfl⟩ := within_cons_eq_ok_iff.mp h
    intro again hagain
    rw [inner_eq_of_entrance? hfound hagain]
    exact ih hinner

/-- Ways into the tables at a name of two documents: what is there of the fields is in the one
table and not in the other, and stays where it is if others are put into them. -/
structure Entrance.Gains (layout : Layout) (path : List String) (name : String)
    (wide found : Entrance) (added here others : List Addition) : Prop where
  origin_eq : wide.origin = found.origin
  inner : Adds layout (path ++ [name]) wide.inner found.inner here
  perm : added.Perm (here ++ others)
  around : ∀ inner left later, Adds layout (path ++ [name]) inner left later →
    ∃ all, Adds layout path (wide.around inner) (found.around left) all ∧
      all.Perm (later ++ others)

/-- Where no field is below a name, the tables there are the same. -/
theorem Entrance.Gains.of_names_eq_nil {wide found : Entrance}
    (hname : layout.names (path ++ [name]) = []) (horigin : wide.origin = found.origin)
    (hinner : wide.inner = found.inner)
    (haround : ∀ inner, Adds layout path (wide.around inner) (found.around inner) added) :
    wide.Gains layout path name found added [] added where
  origin_eq := horigin
  inner := by
    rw [hinner]
    exact .refl hname _
  perm := .refl _
  around inner left later h := by
    obtain ⟨rfl, rfl⟩ := h.eq_of_names_eq_nil hname
    exact ⟨added, haround inner, .refl _⟩

theorem Adds.exists_entrance_of_not_mem (h : Adds layout path full rest added)
    (hname : key.text ∉ layout.names path) {found : Entrance}
    (hfound : entrance? approach key rest = some found) :
    ∃ wide, entrance? approach key full = some wide ∧
      wide.Gains layout path key.text found added [] added := by
  have hnil := Layout.names_eq_nil_of_not_mem hname
  rw [entrance?] at hfound ⊢
  rw [h.get?_eq hname]
  split at hfound
  · cases hfound
    exact ⟨_, rfl, .of_names_eq_nil hnil rfl rfl fun _ => h.append_unknown hname _⟩
  · split at hfound
    · rename_i henter
      cases hfound
      exact ⟨_, if_pos henter, .of_names_eq_nil hnil rfl rfl fun _ => h.replace hname _⟩
    · cases hfound
  · split at hfound
    · cases hfound
      exact ⟨_, rfl, .of_names_eq_nil hnil rfl rfl fun _ => h.replace hname _⟩
    · cases hfound
  · cases hfound

theorem Adds.exists_entrance_of_table (h : Adds layout path full rest added)
    (htable : layout.names (path ++ [key.text]) ≠ []) {found : Entrance}
    (hfound : entrance? approach key rest = some found) :
    ∃ wide here others, entrance? approach key full = some wide ∧
      wide.Gains layout path key.text found added here others := by
  rcases h.table_cases htable with ⟨hfull, hrest⟩ | ⟨own, inner, left, here, others, hthere⟩
  · rw [entrance?, hrest] at hfound
    cases hfound
    have hwide : entrance? approach key full = some ⟨approach.origin, [], fun inner =>
        full ++ [(key, .table approach.origin none inner)]⟩ := by
      rw [entrance?, hfull]
    refine ⟨_, [], added, hwide, rfl, .nil, .refl _, ?_⟩
    intro inner left later hinner
    exact ⟨_, h.append_table htable hfull hinner none none, List.perm_append_comm⟩
  · obtain ⟨stretch, hfull⟩ := hthere.get?_full
    obtain ⟨stretchLeft, hrest⟩ := hthere.get?_rest
    rw [entrance?, hrest] at hfound
    dsimp only at hfound
    split at hfound
    · rename_i henter
      cases hfound
      have hwide : entrance? approach key full = some ⟨own, inner, fun inner =>
          Entries.replace full key.text (.table own stretch inner)⟩ := by
        rw [entrance?, hfull]
        exact if_pos henter
      refine ⟨_, here, others, hwide, rfl, hthere.adds, hthere.perm, ?_⟩
      intro inner left later hinner
      exact hthere.replace own stretch stretchLeft inner left later hinner
    · cases hfound

/-- A way into a table of the smaller document is one into a table of the greater one. -/
theorem Adds.exists_entrance (h : Adds layout path full rest added)
    (hkey : key.text ∈ layout.names path → layout.names (path ++ [key.text]) ≠ [])
    {found : Entrance} (hfound : entrance? approach key rest = some found) :
    ∃ wide here others, entrance? approach key full = some wide ∧
      wide.Gains layout path key.text found added here others := by
  by_cases htable : layout.names (path ++ [key.text]) = []
  · obtain ⟨wide, hwide, hgains⟩ :=
      h.exists_entrance_of_not_mem (fun hmem => hkey hmem htable) hfound
    exact ⟨wide, [], added, hwide, hgains⟩
  · exact h.exists_entrance_of_table htable hfound

/-! ## Changes -/

/-- What is said of some fields before and after a change, while others stay. -/
def Among (moves : List Addition → List Addition → Prop) (added later : List Addition) : Prop :=
  ∃ here hereLater others, added.Perm (here ++ others) ∧ later.Perm (hereLater ++ others) ∧
    moves here hereLater

theorem Among.of {moves : List Addition → List Addition → Prop} {later : List Addition}
    (h : moves added later) : Among moves added later := by
  refine ⟨added, later, [], ?_, ?_, h⟩
  · rw [List.append_nil]
  · rw [List.append_nil]

theorem Among.frame {moves : List Addition → List Addition → Prop}
    {later inner innerLater others : List Addition} (h : Among moves inner innerLater)
    (hadded : added.Perm (inner ++ others)) (hlater : later.Perm (innerLater ++ others)) :
    Among moves added later := by
  obtain ⟨here, hereLater, more, hinner, hinnerLater, hmoves⟩ := h
  refine ⟨here, hereLater, more ++ others, ?_, ?_, hmoves⟩
  · rw [← List.append_assoc]
    exact hadded.trans (hinner.append_right others)
  · rw [← List.append_assoc]
    exact hlater.trans (hinnerLater.append_right others)

/-- A change that can be made in the smaller document can be made in the greater one, if it can be
made where the keys lead. The fields that are elsewhere stay. -/
theorem Adds.within (P : Entries → Prop) (Moves : α → α → List Addition → List Addition → Prop)
    (change : Origin → Entries → Except Cause (Entries × α))
    (hpasses : layout.Passes path (keys.map Key.text))
    (hchange : ∀ {origin full rest later added b},
      Adds layout (path ++ keys.map Key.text) full rest added → P rest →
      other origin rest = .ok (later, b) → ∃ laterFull a laterAdded,
        change origin full = .ok (laterFull, a) ∧
        Adds layout (path ++ keys.map Key.text) laterFull later laterAdded ∧
        Moves a b added laterAdded)
    (h : Adds layout path full rest added) (hend : AtEnd approach P keys rest)
    {later : Entries} {b : α}
    (hwithin : Toml.within approach other behind keys origin rest = .ok (later, b)) :
    ∃ laterFull a laterAdded,
      Toml.within approach change behind keys origin full = .ok (laterFull, a) ∧
      Adds layout path laterFull later laterAdded ∧ Among (Moves a b) added laterAdded := by
  induction keys generalizing path behind origin full rest added later b with
  | nil =>
    rw [List.map_nil, List.append_nil] at hchange
    obtain ⟨laterFull, a, laterAdded, hok, hadds, hmoves⟩ := hchange h hend hwithin
    exact ⟨laterFull, a, laterAdded, hok, hadds, .of hmoves⟩
  | cons key keys ih =>
    rw [List.map_cons, List.append_cons] at hchange
    obtain ⟨found, inner, hfound, hinner, rfl⟩ := within_cons_eq_ok_iff.mp hwithin
    obtain ⟨wide, here, others, hwide, hgains⟩ := h.exists_entrance hpasses.1 hfound
    obtain ⟨deeper, a, hereLater, hok, hdeeper, hmoves⟩ :=
      ih hpasses.2 hchange hgains.inner (hend found hfound) hinner
    obtain ⟨all, hall, hallPerm⟩ := hgains.around deeper inner hereLater hdeeper
    rw [← hgains.origin_eq] at hok
    exact ⟨wide.around deeper, a, all, within_cons_eq_ok_iff.mpr ⟨wide, deeper, hwide, hok, rfl⟩,
      hall, hmoves.frame hgains.perm hallPerm⟩

/-! ## Drafts -/

namespace Draft

/-- Puts the current table under the last key of its header. -/
def put (draft : Draft) (front : List Key) (key : Key) (_ : Origin) (entries : Entries) :
    Except Cause (Entries × Unit) :=
  let table := Item.table .header draft.stretch draft.current
  match Entries.get? entries key.text, draft.isRepeatable with
  | none, true => .ok (entries ++ [(key, .tables draft.stretch [table])], ())
  | some (.tables _ items), true =>
    let items := items ++ [table]
    .ok (Entries.replace entries key.text (.tables (spanning items) items), ())
  | none, false => .ok (entries ++ [(key, table)], ())
  | some (.table .implied _ _), false => .ok (Entries.replace entries key.text table, ())
  | _, _ => .error (.repeatedKey (writeKey key.text) (some (front.map Key.text)))

/-- Takes what is there of the table that a header starts. -/
def take (front : List Key) (key : Key) (isRepeatable : Bool) (_ : Origin) (entries : Entries) :
    Except Cause (Entries × Entries) :=
  match Entries.get? entries key.text, isRepeatable with
  | none, _ => .ok (entries, [])
  | some (.tables _ _), true => .ok (entries, [])
  | some (.table .implied _ inner), false => .ok (Entries.remove entries key.text, inner)
  | _, _ => .error (.repeatedKey (writeKey key.text) (some (front.map Key.text)))

variable {draft later : Draft} {front : List Key} {isRepeatable : Bool} {stretch : Stretch}

theorem closed_eq_ok_iff (hpath : draft.path = front ++ [key]) {document : Entries} :
    draft.closed = .ok document ↔
      within .header (draft.put front key) [] front .header draft.entries = .ok (document, ()) := by
  have hclosed : draft.closed = (do
      return (← within .header (draft.put front key) [] front .header draft.entries).1) := by
    rw [closed, hpath, List.getLast?_concat, List.dropLast_concat]
    rfl
  rw [hclosed, bind_eq_ok]
  constructor
  · rintro ⟨⟨found, ⟨⟩⟩, hwithin, heq⟩
    cases heq
    exact hwithin
  · intro hwithin
    exact ⟨_, hwithin, rfl⟩

theorem start_eq_ok_iff :
    draft.start (front ++ [key]) isRepeatable stretch = .ok later ↔
      ∃ document entries current, draft.closed = .ok document ∧
        within .header (take front key isRepeatable) [] front .header document =
          .ok (entries, current) ∧
        later =
          { entries, path := front ++ [key], isRepeatable, stretch := some stretch, current } := by
  have hstart : draft.start (front ++ [key]) isRepeatable stretch = (do
      let document ← draft.closed
      let found ← within .header (take front key isRepeatable) [] front .header document
      return {
        entries := found.1, path := front ++ [key], isRepeatable, stretch := some stretch,
        current := found.2 }) := by
    rw [start, List.getLast?_concat, List.dropLast_concat]
    rfl
  rw [hstart, bind_eq_ok]
  constructor
  · rintro ⟨document, hclosed, h⟩
    obtain ⟨⟨entries, current⟩, hwithin, heq⟩ := bind_eq_ok.mp h
    cases heq
    exact ⟨document, entries, current, hclosed, hwithin, rfl⟩
  · rintro ⟨document, entries, current, hclosed, hwithin, rfl⟩
    exact ⟨document, hclosed, bind_eq_ok.mpr ⟨_, hwithin, rfl⟩⟩

/-- Puts an item under a key that is new, as `putItem` does. -/
def place (draft : Draft) (path : List Key) (key : Key) (item : Item) (origin : Origin)
    (entries : Entries) : Except Cause (Entries × Unit) :=
  if !path.isEmpty && origin ≠ .dotted then .error (.repeatedKey key.text none)
  else if (Entries.get? entries key.text).isSome then
    .error (.repeatedKey key.text (some (draft.path.map Key.text)))
  else .ok (entries ++ [(key, item)], ())

/-- The stretch of the current table with one more item. -/
def stretchWith (draft : Draft) (item : Item) : Option Stretch :=
  match draft.stretch, item.stretch? with
  | some own, some last => some ⟨own.leftAtStart, last.leftAtEnd⟩
  | own, _ => own

theorem add_eq_ok_iff {path : List Key} :
    draft.add path key item = .ok later ↔
      ∃ current, within .dotted (draft.place path key item) [] path .header draft.current =
          .ok (current, ()) ∧
        later = { draft with current, stretch := draft.stretchWith item } := by
  have hadd : draft.add path key item = (do
      let current ← (do return (← within .dotted (draft.place path key item) [] path .header
        draft.current).1)
      return { draft with current, stretch := draft.stretchWith item }) := rfl
  rw [hadd, bind_eq_ok]
  constructor
  · rintro ⟨current, hcurrent, heq⟩
    obtain ⟨⟨found, ⟨⟩⟩, hwithin, hfound⟩ := bind_eq_ok.mp hcurrent
    cases heq
    cases hfound
    exact ⟨_, hwithin, rfl⟩
  · rintro ⟨current, hwithin, rfl⟩
    exact ⟨current, bind_eq_ok.mpr ⟨_, hwithin, rfl⟩, rfl⟩

end Draft

/-- One draft is as another one, but for some fields. -/
structure Draft.Gains (layout : Layout) (full rest : Draft) (added : List Addition) : Prop where
  path_eq : full.path = rest.path
  isRepeatable_eq : full.isRepeatable = rest.isRepeatable
  passes : layout.Passes [] (rest.path.map Key.text)
  top : rest.path = [] → full.entries = [] ∧ rest.entries = []
  single : layout.names (rest.path.map Key.text) ≠ [] → rest.isRepeatable = false
  vacant : ∀ front key, rest.path = front ++ [key] →
    AtEnd .header (fun entries => rest.isRepeatable = false → Entries.get? entries key.text = none)
      front rest.entries
  stretch_eq : layout.names (rest.path.map Key.text) = [] → full.stretch = rest.stretch
  parts : ∃ outer inner, Adds layout [] full.entries rest.entries outer ∧
    Adds layout (rest.path.map Key.text) full.current rest.current inner ∧
    added.Perm (outer ++ inner)

section Drafts

open scoped List

variable {full rest : Draft} {front : List Key}

theorem Draft.Gains.init : Draft.Gains layout {} {} [] where
  path_eq := rfl
  isRepeatable_eq := rfl
  passes := trivial
  top _ := ⟨rfl, rfl⟩
  single _ := rfl
  vacant front _ h :=
    absurd h.symm (List.append_ne_nil_of_right_ne_nil front (List.cons_ne_nil _ _))
  stretch_eq _ := rfl
  parts := ⟨[], [], .nil, .nil, .refl _⟩

/-- Where the current table is put in its place, so are its fields. -/
theorem Draft.Gains.put (h : Draft.Gains layout full rest added)
    (hpath : rest.path = front ++ [key])
    {inner : List Addition}
    (hcurrent : Adds layout (rest.path.map Key.text) full.current rest.current inner)
    {origin : Origin} {entries left later : Entries} {here : List Addition}
    (hadds : Adds layout (front.map Key.text) entries left here)
    (hvacant : rest.isRepeatable = false → Entries.get? left key.text = none)
    (hput : rest.put front key origin left = .ok (later, ())) :
    ∃ laterFull hereLater, full.put front key origin entries = .ok (laterFull, ()) ∧
      Adds layout (front.map Key.text) laterFull later hereLater ∧
      hereLater.Perm (here ++ inner) := by
  have hpasses := h.passes
  have hsingle := h.single
  have hstretch := h.stretch_eq
  rw [hpath, List.map_append, List.map_singleton] at hcurrent hpasses hsingle hstretch
  by_cases htable : layout.names (front.map Key.text ++ [key.text]) = []
  · have hname : key.text ∉ layout.names (front.map Key.text) :=
      fun hmem => (Layout.passes_append.mp hpasses).2.1 hmem htable
    obtain ⟨hsame, rfl⟩ := hcurrent.eq_of_names_eq_nil htable
    rw [Draft.put] at hput ⊢
    rw [hadds.get?_eq hname, hsame, hstretch htable, h.isRepeatable_eq]
    split at hput
    · cases hput
      exact ⟨_, here, rfl, hadds.append_unknown hname _, by rw [List.append_nil]⟩
    · cases hput
      exact ⟨_, here, rfl, hadds.replace hname _, by rw [List.append_nil]⟩
    · cases hput
      exact ⟨_, here, rfl, hadds.append_unknown hname _, by rw [List.append_nil]⟩
    · cases hput
      exact ⟨_, here, rfl, hadds.replace hname _, by rw [List.append_nil]⟩
    · cases hput
  · have hnone := hvacant (hsingle htable)
    rcases hadds.table_cases htable with ⟨hfull, -⟩ | ⟨_, _, _, _, _, hthere⟩
    · rw [Draft.put, hnone, hsingle htable] at hput
      cases hput
      refine ⟨_, _, ?_, hadds.append_table htable hfull hcurrent full.stretch rest.stretch, .refl _⟩
      rw [Draft.put, hfull, h.isRepeatable_eq, hsingle htable]
    · obtain ⟨_, hrest⟩ := hthere.get?_rest
      rw [hnone] at hrest
      cases hrest

/-- The smaller document can be closed, and so can the greater one. -/
theorem Draft.Gains.closed (h : Draft.Gains layout full rest added) {document : Entries}
    (hclosed : rest.closed = .ok document) :
    ∃ whole all, full.closed = .ok whole ∧ Adds layout [] whole document all ∧ all.Perm added := by
  obtain ⟨outer, inner, houter, hcurrent, hperm⟩ := h.parts
  rcases List.eq_nil_or_concat rest.path with hpath | ⟨front, key, hpath⟩
  · obtain ⟨hfull, hrest⟩ := h.top hpath
    rw [hfull, hrest] at houter
    cases houter
    rw [hpath] at hcurrent
    rw [Draft.closed, hpath] at hclosed
    cases hclosed
    refine ⟨full.current, inner, ?_, hcurrent, hperm.symm⟩
    rw [Draft.closed, h.path_eq, hpath]
    rfl
  · rw [List.concat_eq_append] at hpath
    have hpasses := h.passes
    rw [hpath, List.map_append] at hpasses
    have hwithin := (Draft.closed_eq_ok_iff hpath).mp hclosed
    obtain ⟨whole, ⟨⟩, all, hok, hadds, here, hereLater, others, houterPerm, hallPerm, hmoves⟩ :=
      Adds.within _ (fun _ _ here hereLater => hereLater.Perm (here ++ inner)) (full.put front key)
        (Layout.passes_append.mp hpasses).1
        (fun hadds hvacant hput => by
          obtain ⟨laterFull, hereLater, hok, hadds, hperm⟩ :=
            h.put hpath hcurrent hadds hvacant hput
          exact ⟨laterFull, (), hereLater, hok, hadds, hperm⟩)
        houter (h.vacant front key hpath) hwithin
    refine ⟨whole, all, (Draft.closed_eq_ok_iff (h.path_eq.trans hpath)).mpr hok, hadds, ?_⟩
    calc all
      _ ~ hereLater ++ others := hallPerm
      _ ~ here ++ inner ++ others := hmoves.append_right others
      _ = here ++ (inner ++ others) := List.append_assoc ..
      _ ~ here ++ (others ++ inner) := List.perm_append_comm.append_left here
      _ = here ++ others ++ inner := (List.append_assoc ..).symm
      _ ~ outer ++ inner := houterPerm.symm.append_right inner
      _ ~ added := hperm.symm

/-- What is there of a table is taken with its fields. -/
theorem Adds.take {isRepeatable : Bool}
    (hpasses : layout.Passes (front.map Key.text) [key.text])
    (hsingle : layout.names (front.map Key.text ++ [key.text]) ≠ [] → isRepeatable = false)
    {origin : Origin} {entries left later current : Entries} {here : List Addition}
    (hadds : Adds layout (front.map Key.text) entries left here)
    (htake : Draft.take front key isRepeatable origin left = .ok (later, current)) :
    ∃ laterFull currentFull hereLater,
      Draft.take front key isRepeatable origin entries = .ok (laterFull, currentFull) ∧
      Adds layout (front.map Key.text) laterFull later hereLater ∧
      ∃ inner, Adds layout (front.map Key.text ++ [key.text]) currentFull current inner ∧
        here ~ hereLater ++ inner := by
  unfold Draft.take at htake ⊢
  by_cases htable : layout.names (front.map Key.text ++ [key.text]) = []
  · have hname : key.text ∉ layout.names (front.map Key.text) := fun hmem => hpasses.1 hmem htable
    rw [hadds.get?_eq hname]
    split at htake
    · cases htake
      exact ⟨_, _, here, rfl, hadds, [], .nil, by rw [List.append_nil]⟩
    · cases htake
      exact ⟨_, _, here, rfl, hadds, [], .nil, by rw [List.append_nil]⟩
    · cases htake
      exact ⟨_, _, here, rfl, hadds.remove hname, [], .refl htable _, by rw [List.append_nil]⟩
    · cases htake
  · rw [hsingle htable] at htake ⊢
    rcases hadds.table_cases htable with
      ⟨hfull, hrest⟩ | ⟨own, inner, left', inside, others, hthere⟩
    · rw [hrest] at htake
      rw [hfull]
      cases htake
      exact ⟨_, _, here, rfl, hadds, [], .nil, by rw [List.append_nil]⟩
    · obtain ⟨stretch, hfull⟩ := hthere.get?_full
      obtain ⟨stretchLeft, hrest⟩ := hthere.get?_rest
      rw [hrest] at htake
      rw [hfull]
      cases own with
      | implied =>
        cases htake
        exact ⟨_, _, others, rfl, hthere.remove, inside, hthere.adds,
          hthere.perm.trans List.perm_append_comm⟩
      | _ => cases htake

/-- Nothing is left under the key of a table that was taken. -/
theorem get?_of_take {isRepeatable : Bool} (hsingle : isRepeatable = false) {origin : Origin}
    {entries later current : Entries}
    (h : Draft.take front key isRepeatable origin entries = .ok (later, current)) :
    Entries.get? later key.text = none := by
  unfold Draft.take at h
  rw [hsingle] at h
  split at h
  · rename_i hnone
    cases h
    exact hnone
  · rename_i hrepeatable
    cases hrepeatable
  · cases h
    exact Entries.get?_remove_self
  · cases h

/-- If a header starts a table in the smaller document, it does in the greater one. -/
theorem Draft.Gains.start (h : Draft.Gains layout full rest added) {keys : List Key}
    {isRepeatable : Bool} {stretch : Stretch} {later : Draft}
    (hpasses : layout.Passes [] (keys.map Key.text)) (hkeys : keys ≠ [])
    (hsingle : layout.names (keys.map Key.text) ≠ [] → isRepeatable = false)
    (hstart : rest.start keys isRepeatable stretch = .ok later) :
    ∃ laterFull, full.start keys isRepeatable stretch = .ok laterFull ∧
      Draft.Gains layout laterFull later added ∧ later.path = keys := by
  rcases List.eq_nil_or_concat keys with rfl | ⟨front, key, rfl⟩
  · exact absurd rfl hkeys
  rw [List.concat_eq_append] at hpasses hsingle hstart ⊢
  have hboth := hpasses
  have htexts : (front ++ [key]).map Key.text = front.map Key.text ++ [key.text] := List.map_append
  rw [htexts] at hboth hsingle
  rw [Layout.passes_append, List.nil_append] at hboth
  obtain ⟨document, entries, current, hclosed, htake, rfl⟩ := Draft.start_eq_ok_iff.mp hstart
  obtain ⟨whole, all, hwhole, hadds, hperm⟩ := h.closed hclosed
  obtain ⟨laterFull, currentFull, kept, hok, hlater, here, hereLater, others, hhere, hkept, inner,
      hinner, hmoves⟩ :=
    Adds.within (fun _ => True)
      (fun a b here hereLater => ∃ inner, Adds layout (front.map Key.text ++ [key.text]) a b inner ∧
        here ~ hereLater ++ inner)
      (Draft.take front key isRepeatable) hboth.1
      (fun hadds _ htake => hadds.take hboth.2 hsingle htake)
      hadds (atEnd_of_forall (fun _ => trivial) _ _) htake
  refine ⟨_, Draft.start_eq_ok_iff.mpr ⟨whole, laterFull, currentFull, hwhole, hok, rfl⟩, ?_, rfl⟩
  rw [← htexts] at hinner hsingle
  refine ⟨rfl, rfl, hpasses, ?_, hsingle, ?_, fun _ => rfl, kept, inner, hlater, hinner, ?_⟩
  · intro hnil
    exact absurd hnil (List.append_ne_nil_of_right_ne_nil front (List.cons_ne_nil key []))
  · intro other last hpath
    obtain ⟨rfl, hlast⟩ := List.append_inj' hpath rfl
    obtain rfl := List.singleton_inj.mp hlast
    refine atEnd_of_within ?_ htake
    intro origin entries later current htake hfalse
    exact get?_of_take hfalse htake
  · calc added
      _ ~ all := hperm.symm
      _ ~ here ++ others := hhere
      _ ~ hereLater ++ inner ++ others := hmoves.append_right others
      _ = hereLater ++ (inner ++ others) := List.append_assoc ..
      _ ~ hereLater ++ (others ++ inner) := List.perm_append_comm.append_left hereLater
      _ = hereLater ++ others ++ inner := (List.append_assoc ..).symm
      _ ~ kept ++ inner := hkept.symm.append_right inner

/-- What can be said in the smaller document under a name that does not count can be said in the
greater one. -/
theorem Draft.Gains.add (h : Draft.Gains layout full rest added) {path : List Key} {later : Draft}
    (hpasses : layout.Passes (rest.path.map Key.text) (path.map Key.text))
    (hname : key.text ∉ layout.names (rest.path.map Key.text ++ path.map Key.text))
    (hadd : rest.add path key item = .ok later) :
    ∃ laterFull, full.add path key item = .ok laterFull ∧ Draft.Gains layout laterFull later added ∧
      later.path = rest.path := by
  obtain ⟨current, hwithin, rfl⟩ := Draft.add_eq_ok_iff.mp hadd
  obtain ⟨outer, inner, houter, hcurrent, hperm⟩ := h.parts
  obtain ⟨currentFull, ⟨⟩, kept, hok, hkept, here, hereLater, others, hinner, hlater, hmoves⟩ :=
    Adds.within (fun _ => True) (fun _ _ here hereLater => hereLater ~ here)
      (full.place path key item) hpasses
      (fun {origin entries left later found _} hadds _ hplace => by
        unfold Draft.place at hplace ⊢
        rw [hadds.get?_eq hname, h.path_eq]
        split at hplace
        · cases hplace
        split at hplace
        · cases hplace
        cases hplace
        rename_i horigin hnew
        rw [if_neg horigin, if_neg hnew]
        exact ⟨_, (), found, rfl, hadds.append_unknown hname item, .refl _⟩)
      hcurrent (atEnd_of_forall (fun _ => trivial) _ _) hwithin
  refine ⟨_, Draft.add_eq_ok_iff.mpr ⟨currentFull, hok, rfl⟩, ?_, rfl⟩
  refine ⟨h.path_eq, h.isRepeatable_eq, h.passes, h.top, h.single, h.vacant, ?_, outer, kept,
    houter, hkept, ?_⟩
  · intro hnil
    show full.stretchWith item = rest.stretchWith item
    rw [Draft.stretchWith, Draft.stretchWith, h.stretch_eq hnil]
  · calc added
      _ ~ outer ++ inner := hperm
      _ ~ outer ++ (here ++ others) := hinner.append_left outer
      _ ~ outer ++ (hereLater ++ others) := (hmoves.symm.append_right others).append_left outer
      _ ~ outer ++ kept := hlater.symm.append_left outer

/-- A field that is new is added to the greater document alone. -/
theorem Draft.Gains.field (h : Draft.Gains layout full rest added)
    (hkey : key.text ∈ layout.names (rest.path.map Key.text))
    (hfield : layout.names (rest.path.map Key.text ++ [key.text]) = [])
    (hnew : ∀ addition ∈ added, addition.path = rest.path.map Key.text →
      addition.key.text ≠ key.text) (item : Item) :
    ∃ laterFull, full.add [] key item = .ok laterFull ∧
      Draft.Gains layout laterFull rest (added ++ [⟨rest.path.map Key.text, key, item⟩]) := by
  obtain ⟨outer, inner, houter, hcurrent, hperm⟩ := h.parts
  have hnone : Entries.get? full.current key.text = none := by
    by_contra hthere
    obtain ⟨addition, hmem, hpath, htext⟩ := hcurrent.exists_addition hkey hfield hthere
    exact hnew addition (hperm.mem_iff.mpr (List.mem_append_right outer hmem)) hpath htext
  obtain ⟨stretch, hadd⟩ := @Draft.add_new full key item hnone
  refine ⟨_, hadd, h.path_eq, h.isRepeatable_eq, h.passes, h.top, h.single, h.vacant, ?_, outer, _,
    houter, hcurrent.append_field hkey hfield item, ?_⟩
  · intro hnil
    rw [hnil] at hkey
    cases hkey
  · rw [← List.append_assoc]
    exact hperm.append_right _

end Drafts

/-! ## Statements -/

/-- The table and the name of a field. -/
def Addition.place (addition : Addition) : List String × String :=
  (addition.path, addition.key.text)

/-- Below a header some statements give fields of its table, and the others say what does not
count or start tables. -/
inductive Splits (layout : Layout) :
    List String → List Statement → List Addition → List Statement → Prop
  | nil {here : List String} : Splits layout here [] [] []
  | field {here : List String} {key : Key} {item : Item} {said others : List Statement}
      {fields : List Addition} (hkey : key.text ∈ layout.names here)
      (hfield : layout.names (here ++ [key.text]) = [])
      (h : Splits layout here said fields others) :
      Splits layout here (.assignment [] key item :: said) (⟨here, key, item⟩ :: fields) others
  | unknown {here : List String} {path : List Key} {key : Key} {item : Item}
      {said others : List Statement} {fields : List Addition}
      (hleaves : layout.Leaves [] (here ++ path.map Key.text ++ [key.text]))
      (h : Splits layout here said fields others) :
      Splits layout here (.assignment path key item :: said) fields
        (.assignment path key item :: others)
  | unknownTable {here : List String} {path : List Key} {isRepeatable : Bool} {stretch : Stretch}
      {said others : List Statement} {fields : List Addition}
      (hleaves : layout.Leaves [] (path.map Key.text))
      (h : Splits layout (path.map Key.text) said fields others) :
      Splits layout here (.header path isRepeatable stretch :: said) fields
        (.header path isRepeatable stretch :: others)
  | table {here : List String} {path : List Key} {stretch : Stretch} {said others : List Statement}
      {fields : List Addition} (hpath : path ≠ []) (htable : layout.names (path.map Key.text) ≠ [])
      (h : Splits layout (path.map Key.text) said fields others) :
      Splits layout here (.header path false stretch :: said) fields
        (.header path false stretch :: others)

variable {said others : List Statement} {fields : List Addition} {here : List String}

open scoped List in
/-- If the others can be followed, so can all statements. -/
theorem Splits.exists_follow (h : Splits layout here said fields others) {full rest last : Draft}
    (hdraft : Draft.Gains layout full rest added) (hhere : rest.path.map Key.text = here)
    (hdiffer : ((added ++ fields).map Addition.place).Nodup)
    (hfollow : others.foldlM Draft.follow rest = .ok last) :
    ∃ lastFull all, said.foldlM Draft.follow full = .ok lastFull ∧
      Draft.Gains layout lastFull last all ∧ all ~ added ++ fields := by
  induction h generalizing full rest added with
  | nil =>
    cases hfollow
    exact ⟨full, added, rfl, hdraft, by rw [List.append_nil]⟩
  | @field here key item said others fields hkey hfield _ ih =>
    subst hhere
    rw [List.append_cons] at hdiffer
    have hnew : ∀ addition ∈ added, addition.path = rest.path.map Key.text →
        addition.key.text ≠ key.text := by
      intro addition hmem hpath hsame
      rw [List.map_append, List.map_append] at hdiffer
      have hne := (List.nodup_append.mp (List.nodup_append.mp hdiffer).1).2.2 _
        (List.mem_map_of_mem hmem) _ (List.mem_singleton_self _)
      exact hne (Prod.ext hpath hsame)
    obtain ⟨laterFull, hadd, hlater⟩ := hdraft.field hkey hfield hnew item
    obtain ⟨lastFull, all, hall, hlast, hperm⟩ := ih hlater rfl hdiffer hfollow
    refine ⟨lastFull, all, (foldlM_follow_assignment hadd _).trans hall, hlast, ?_⟩
    rwa [List.append_cons]
  | unknown hleaves _ ih =>
    subst hhere
    obtain ⟨later, hadd, hmore⟩ := bind_eq_ok.mp hfollow
    have hpasses := hleaves.passes
    rw [Layout.passes_append, Layout.passes_append] at hpasses
    obtain ⟨laterFull, haddFull, hlater, hpath⟩ := hdraft.add hpasses.1.2 hleaves.not_mem hadd
    obtain ⟨lastFull, all, hall, hlast, hperm⟩ := ih hlater (by rw [hpath]) hdiffer hmore
    exact ⟨lastFull, all, (foldlM_follow_assignment haddFull _).trans hall, hlast, hperm⟩
  | @unknownTable here path isRepeatable stretch said others fields hleaves _ ih =>
    obtain ⟨later, hstart, hmore⟩ := bind_eq_ok.mp hfollow
    have hpath : path ≠ [] := by
      rintro rfl
      cases hleaves
    obtain ⟨laterFull, hstartFull, hlater, hpath⟩ :=
      hdraft.start hleaves.passes hpath (absurd hleaves.names_eq_nil) hstart
    obtain ⟨lastFull, all, hall, hlast, hperm⟩ := ih hlater (by rw [hpath]) hdiffer hmore
    exact ⟨lastFull, all, (foldlM_follow_header hstartFull _).trans hall, hlast, hperm⟩
  | table hpath htable _ ih =>
    obtain ⟨later, hstart, hmore⟩ := bind_eq_ok.mp hfollow
    obtain ⟨laterFull, hstartFull, hlater, hpath⟩ :=
      hdraft.start (Layout.passes_of_names_ne_nil htable) hpath (fun _ => rfl) hstart
    obtain ⟨lastFull, all, hall, hlast, hperm⟩ := ih hlater (by rw [hpath]) hdiffer hmore
    exact ⟨lastFull, all, (foldlM_follow_header hstartFull _).trans hall, hlast, hperm⟩

/-- A document of statements that give different fields and of others is what the others make, with
the fields. -/
theorem build_of_splits (h : Splits layout [] said fields others)
    (hdiffer : (fields.map Addition.place).Nodup) {rest : Entries}
    (hbuild : build others = .ok rest) :
    ∃ full added, build said = .ok full ∧ Adds layout [] full rest added ∧ added.Perm fields := by
  obtain ⟨last, hfollow, hclosed⟩ := bind_eq_ok.mp hbuild
  obtain ⟨lastFull, all, hall, hlast, hperm⟩ := h.exists_follow .init rfl hdiffer hfollow
  obtain ⟨full, added, hfull, hadds, hadded⟩ := hlast.closed hclosed
  exact ⟨full, added, bind_eq_ok.mpr ⟨lastFull, hall, hfull⟩, hadds, hadded.trans hperm⟩

end PageManifest.Toml
