import PageManifest.Proofs.Toml.Lines
import PageManifest.Toml.Typed

/-!
# Tables of settings files that were written

A header with the lines below it puts a table in its place: a new table of the document
(`exists_section`), or a new table in the last one (`exists_innerSection`). What a document
holds is what its draft gives once its current table is in its place.
-/

namespace PageManifest.Toml

/-! ## Entries -/

namespace Entries

theorem get?_append_self {front : Entries} {key : Key} (h : get? front key.text = none)
    (item : Item) : get? (front ++ [(key, item)]) key.text = some item := by
  induction front with
  | nil => simp [get?]
  | cons first front ih =>
    rw [get?] at h
    rw [List.cons_append, get?]
    by_cases hkey : first.1.text == key.text
    · rw [if_pos hkey] at h
      cases h
    · rw [if_neg hkey] at h ⊢
      exact ih h

theorem replace_append_self {front : Entries} {key : Key} (h : get? front key.text = none)
    (item later : Item) :
    replace (front ++ [(key, item)]) key.text later = front ++ [(key, later)] := by
  induction front with
  | nil => simp [replace]
  | cons first front ih =>
    rw [get?] at h
    by_cases hkey : first.1.text == key.text
    · rw [if_pos hkey] at h
      cases h
    · rw [if_neg hkey] at h
      rw [replace, List.cons_append, List.map_cons, if_neg hkey, List.cons_append]
      exact congrArg (first :: ·) (ih h)

end Entries

/-! ## Drafts -/

namespace Draft

theorem closed_top {draft : Draft} {key : Key} (hpath : draft.path = [key])
    (hsingle : draft.isRepeatable = false) (hnew : Entries.get? draft.entries key.text = none) :
    draft.closed =
      .ok (draft.entries ++ [(key, .table .header draft.stretch draft.current)]) := by
  rw [closed, hpath]
  simp only [List.getLast?_singleton, List.dropLast_singleton, within, hnew, hsingle]
  rfl

theorem start_top {draft : Draft} {entries : Entries} {key : Key}
    (hclosed : draft.closed = .ok entries) (hnew : Entries.get? entries key.text = none)
    (stretch : Stretch) :
    draft.start [key] false stretch =
      .ok { entries, path := [key], isRepeatable := false, stretch := some stretch,
            current := [] } := by
  rw [start, hclosed]
  simp only [List.getLast?_singleton, List.dropLast_singleton, within, hnew, bind, Except.bind]
  rfl

theorem closed_inner {draft : Draft} {front inner : Entries} {outer above key : Key}
    {stretch : Option Stretch} (hpath : draft.path = [above, key])
    (hsingle : draft.isRepeatable = false) (habove : above.text = outer.text)
    (hentries : draft.entries = front ++ [(outer, .table .header stretch inner)])
    (hfront : Entries.get? front outer.text = none) (hnew : Entries.get? inner key.text = none) :
    draft.closed = .ok (front ++ [(outer, .table .header stretch
      (inner ++ [(key, .table .header draft.stretch draft.current)]))]) := by
  have hlast : draft.path.getLast? = some key := by rw [hpath]; rfl
  rw [closed, hlast, hpath]
  simp only [List.dropLast, within, habove, hentries, Entries.get?_append_self hfront,
    Entries.replace_append_self hfront, hnew, hsingle]
  rfl

theorem start_inner {draft : Draft} {front inner : Entries} {outer above key : Key}
    {own : Option Stretch}
    (hclosed : draft.closed = .ok (front ++ [(outer, .table .header own inner)]))
    (habove : above.text = outer.text) (hfront : Entries.get? front outer.text = none)
    (hnew : Entries.get? inner key.text = none) (stretch : Stretch) :
    draft.start [above, key] false stretch =
      .ok { entries := front ++ [(outer, .table .header own inner)], path := [above, key],
            isRepeatable := false, stretch := some stretch, current := [] } := by
  have hlast : [above, key].getLast? = some key := rfl
  rw [start, hclosed, hlast]
  simp only [List.dropLast, within, habove, Entries.get?_append_self hfront,
    Entries.replace_append_self hfront, hnew, bind, Except.bind]
  rfl

end Draft

/-! ## Sections -/

/-- The characters of a header and the lines below it. -/
def sectionText (part : List Char) (parts : List (List Char)) (block : List Line) : List Char :=
  headerText part parts ++ block.flatMap Line.text

/-- A header with one part adds a table with the entries of its lines to the document. -/
theorem exists_section {part : List Char} {block : List Line} (hpart : IsBare part)
    (hblock : ∀ line ∈ block, line.IsSound) (hkeys : (block.map Line.key).Nodup) {draft : Draft}
    {entries : Entries} (hclosed : draft.closed = .ok entries)
    (hnew : Entries.get? entries (String.ofList part) = none) (rest : List Char) :
    ∃ later steps key stretch inner, Leads draft (sectionText part [] block ++ rest) later rest steps ∧
      later.closed = .ok (entries ++ [(key, .table .header stretch inner)]) ∧
      key.text = String.ofList part ∧ List.Forall₂ Line.Gives block inner := by
  have hnone : ∀ part ∈ ([] : List (List Char)), IsBare part := fun part hmem => nomatch hmem
  obtain ⟨keys, stretch, htexts, hheader⟩ :=
    leads_header hpart hnone (by decide) (block.flatMap Line.text ++ rest)
  obtain ⟨key, rfl, hkey⟩ := List.map_eq_singleton_iff.mp htexts
  rw [← hkey] at hnew
  have hstart := hheader draft _ (Draft.start_top hclosed hnew stretch)
  obtain ⟨inner, last, hlines, hgives⟩ := @leads_lines block hblock hkeys
    { entries, path := [key], isRepeatable := false, stretch := some stretch, current := [] }
    (fun _ _ => rfl) rest
  have hboth := hstart.trans hlines
  rw [← List.append_assoc] at hboth
  exact ⟨_, _, key, last, inner, hboth, Draft.closed_top rfl rfl hnew, hkey, hgives⟩

/-- A header with two parts adds a table to the last table of the document. -/
theorem exists_innerSection {above part : List Char} {block : List Line} (habove : IsBare above)
    (hpart : IsBare part) (hblock : ∀ line ∈ block, line.IsSound)
    (hkeys : (block.map Line.key).Nodup) {draft : Draft} {front inner : Entries} {outer : Key}
    {own : Option Stretch}
    (hclosed : draft.closed = .ok (front ++ [(outer, .table .header own inner)]))
    (houter : outer.text = String.ofList above) (hfront : Entries.get? front outer.text = none)
    (hnew : Entries.get? inner (String.ofList part) = none) (rest : List Char) :
    ∃ later steps key stretch deeper,
      Leads draft (sectionText above [part] block ++ rest) later rest steps ∧
      later.closed = .ok (front ++ [(outer, .table .header own
        (inner ++ [(key, .table .header stretch deeper)]))]) ∧
      key.text = String.ofList part ∧ List.Forall₂ Line.Gives block deeper := by
  have hparts : ∀ other ∈ [part], IsBare other := by
    intro other hmem
    rw [List.mem_singleton.mp hmem]
    exact hpart
  have hdepth : [part].length + 1 < depthLimit := by
    rw [List.length_singleton]
    decide
  obtain ⟨keys, stretch, htexts, hheader⟩ :=
    leads_header habove hparts hdepth (block.flatMap Line.text ++ rest)
  obtain ⟨first, more, rfl, hfirst, htexts⟩ := List.map_eq_cons_iff.mp htexts
  obtain ⟨key, rfl, hkey⟩ := List.map_eq_singleton_iff.mp htexts
  have hsame : first.text = outer.text := hfirst.trans houter.symm
  rw [← hkey] at hnew
  have hstart := hheader draft _ (Draft.start_inner hclosed hsame hfront hnew stretch)
  obtain ⟨deeper, last, hlines, hgives⟩ := @leads_lines block hblock hkeys
    { entries := front ++ [(outer, .table .header own inner)], path := [first, key],
      isRepeatable := false, stretch := some stretch, current := [] } (fun _ _ => rfl) rest
  have hboth := hstart.trans hlines
  rw [← List.append_assoc] at hboth
  exact ⟨_, _, key, last, deeper, hboth,
    Draft.closed_inner rfl rfl hsame rfl hfront hnew, hkey, hgives⟩

theorem get?_eq_none_of_gives {block : List Line} {entries : Entries}
    (hgives : List.Forall₂ Line.Gives block entries) {key : String}
    (h : ∀ line ∈ block, String.ofList line.key ≠ key) : Entries.get? entries key = none := by
  induction hgives with
  | nil => rfl
  | @cons line entry block entries hentry _ ih =>
    have hne : entry.1.text ≠ key := by
      rw [hentry.1]
      exact h line List.mem_cons_self
    rw [Entries.get?, if_neg (by simpa using hne)]
    exact ih fun other hmem => h other (List.mem_cons_of_mem line hmem)

/-- A text that leads to the end of a document gives its entries. -/
theorem read_of_leads {cs : List Char} (hmark : cs.head? ≠ some '\uFEFF') {later : Draft}
    {steps : Nat} (h : Leads {} cs later [] steps) {entries : Entries}
    (hclosed : later.closed = .ok entries) : read (String.ofList cs) = .ok entries := by
  have hskip : skipByteOrderMark (String.ofList cs).toList = cs := by
    rw [String.toList_ofList]
    refine skipByteOrderMark.eq_2 _ ?_
    rintro rest rfl
    exact hmark rfl
  rw [read, hskip, h.lines_eq_ok]
  dsimp only [bind, Except.bind]
  rw [hclosed]

/-! ## Fields -/

/-- Whether the item of a line changes a record in a given way, by the field of its key. -/
def Line.Puts {α : Type} (fields : List (Field α)) (line : Line) (change : α → α) : Prop :=
  ∃ field, fields.find? (·.name == String.ofList line.key) = some field ∧
    ∀ stretch record, field.put (line.item stretch) record = .ok (change record)

theorem putEntries_cons {α : Type} {fields : List (Field α)} {field : Field α} {key : Key}
    {item : Item} {record later : α} (hfield : fields.find? (·.name == key.text) = some field)
    (hput : field.put item record = .ok later) (entries : Entries) :
    putEntries fields record ((key, item) :: entries) = putEntries fields later entries := by
  rw [putEntries, List.foldlM_cons]
  dsimp only
  rw [hfield]
  dsimp only
  rw [hput]
  rfl

/-- A key that is not the name of a field does not count. -/
theorem putEntries_cons_of_unknown {α : Type} {fields : List (Field α)} {key : Key}
    (h : key.text ∉ fields.map Field.name) (item : Item) (record : α) (entries : Entries) :
    putEntries fields record ((key, item) :: entries) = putEntries fields record entries := by
  have hfield : fields.find? (·.name == key.text) = none := by
    rw [List.find?_eq_none]
    intro field hmem hname
    exact h (eq_of_beq hname ▸ List.mem_map_of_mem hmem)
  rw [putEntries, List.foldlM_cons]
  dsimp only
  rw [hfield]
  rfl

/-- A table gives the record that is a field of another one. -/
theorem putEntries_table {α β : Type} {fields : List (Field α)} {inner : List (Field β)}
    {field name : String} {set : β → α → α} {default value : β} {key : Key}
    (hfield : fields.find? (·.name == key.text) = some ⟨field, fun item record => do
      return set (← putRecord name inner default item) record⟩)
    {entries : Entries} (hentries : putEntries inner default entries = .ok value)
    (origin : Origin) (stretch : Option Stretch) (record : α) (more : Entries) :
    putEntries fields record ((key, .table origin stretch entries) :: more) =
      putEntries fields (set value record) more := by
  refine putEntries_cons hfield ?_ more
  dsimp only [putRecord]
  rw [hentries]
  rfl

/-- The entries of lines change a record one after the other. -/
theorem putEntries_of_gives {α : Type} {fields : List (Field α)} {block : List Line}
    {changes : List (α → α)} (hputs : List.Forall₂ (Line.Puts fields) block changes)
    {entries : Entries} (hgives : List.Forall₂ Line.Gives block entries) (record : α)
    (more : Entries) :
    putEntries fields record (entries ++ more) =
      putEntries fields (changes.foldl (fun record change => change record) record) more := by
  induction hputs generalizing entries record with
  | nil =>
    cases hgives
    rfl
  | cons hline _ ih =>
    cases hgives with
    | @cons _ entry _ entries hentry hmore =>
      obtain ⟨field, hfield, hput⟩ := hline
      obtain ⟨hkey, stretch, hitem⟩ := hentry
      rw [← hkey] at hfield
      have hone := hput stretch record
      rw [← hitem] at hone
      rw [List.cons_append, putEntries_cons hfield hone, ih hmore, List.foldl_cons]

end PageManifest.Toml
