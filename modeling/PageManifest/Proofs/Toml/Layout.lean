import PageManifest.Proofs.Toml.Tables

/-!
# Fields in tables

A layout says which names count in which table. A document may give some of its fields, and
anything else under names that do not count. `Adds` compares such a document with what is left of
it without the fields: where keys lead through the smaller one they lead through the greater one
as well, and a change there adds or moves the same fields (`Adds.within`).
-/

namespace PageManifest.Toml

/-- The names of a record's fields and, below the ones that are tables, of the fields of these. -/
structure Layout where
  /-- The names that count in the table at a path; there are none if no such table counts. -/
  names : List String → List String
  mem_names : ∀ {path name}, names (path ++ [name]) ≠ [] → name ∈ names path

/-- A field that a document gives: the path of its table, its key there and its item. -/
structure Addition where
  path : List String
  key : Key
  item : Item

/-! ## Ways -/

namespace Layout

variable {layout : Layout} {path names : List String} {name : String}

theorem names_append_eq_nil (h : layout.names path = []) (names : List String) :
    layout.names (path ++ names) = [] := by
  induction names generalizing path with
  | nil => rwa [List.append_nil]
  | cons name names ih =>
    rw [List.append_cons]
    refine ih ?_
    by_contra hne
    have hmem := layout.mem_names hne
    rw [h] at hmem
    cases hmem

/-- No name on the way is the one of a field. -/
def Passes (layout : Layout) : List String → List String → Prop
  | _, [] => True
  | path, name :: names =>
    (name ∈ layout.names path → layout.names (path ++ [name]) ≠ []) ∧
      layout.Passes (path ++ [name]) names

/-- The way comes to a name that does not count, through tables that count. -/
def Leaves (layout : Layout) : List String → List String → Prop
  | _, [] => False
  | path, name :: names =>
    name ∉ layout.names path ∨
      layout.names (path ++ [name]) ≠ [] ∧ layout.Leaves (path ++ [name]) names

theorem names_eq_nil_of_not_mem (h : name ∉ layout.names path) :
    layout.names (path ++ [name]) = [] := by
  by_contra hne
  exact h (layout.mem_names hne)

theorem passes_of_names_eq_nil (h : layout.names path = []) (names : List String) :
    layout.Passes path names := by
  induction names generalizing path with
  | nil => trivial
  | cons name names ih =>
    refine ⟨?_, ih (names_append_eq_nil h [name])⟩
    intro hmem
    rw [h] at hmem
    cases hmem

theorem passes_of_names_ne_nil (h : layout.names (path ++ names) ≠ []) :
    layout.Passes path names := by
  induction names generalizing path with
  | nil => trivial
  | cons name names ih =>
    rw [List.append_cons] at h
    refine ⟨?_, ih h⟩
    intro _ hnil
    exact h (names_append_eq_nil hnil names)

theorem passes_append {more : List String} :
    layout.Passes path (names ++ more) ↔
      layout.Passes path names ∧ layout.Passes (path ++ names) more := by
  induction names generalizing path with
  | nil => simp [Passes]
  | cons name names ih =>
    rw [List.cons_append, Passes, Passes, ih, and_assoc, List.append_assoc, List.singleton_append]

theorem Leaves.names_eq_nil (h : layout.Leaves path names) : layout.names (path ++ names) = [] := by
  induction names generalizing path with
  | nil => cases h
  | cons name names ih =>
    rw [List.append_cons]
    rcases h with hname | ⟨-, h⟩
    · exact names_append_eq_nil (names_eq_nil_of_not_mem hname) names
    · exact ih h

theorem Leaves.passes (h : layout.Leaves path names) : layout.Passes path names := by
  induction names generalizing path with
  | nil => trivial
  | cons name names ih =>
    rcases h with hname | ⟨htable, h⟩
    · exact ⟨fun hmem => absurd hmem hname,
        passes_of_names_eq_nil (names_eq_nil_of_not_mem hname) names⟩
    · exact ⟨fun _ => htable, ih h⟩

theorem Leaves.not_mem (h : layout.Leaves path (names ++ [name])) :
    name ∉ layout.names (path ++ names) := by
  induction names generalizing path with
  | nil =>
    rw [List.append_nil]
    rcases h with hname | ⟨-, h⟩
    · exact hname
    · cases h
  | cons first names ih =>
    rw [List.append_cons]
    rcases h with hname | ⟨-, h⟩
    · rw [names_append_eq_nil (names_eq_nil_of_not_mem hname) names]
      exact List.not_mem_nil
    · exact ih h

end Layout

/-! ## Entries -/

namespace Entries

variable {entries : Entries} {key : Key} {item : Item} {name : String}

theorem get?_cons_self : get? ((key, item) :: entries) key.text = some item := by
  rw [get?, if_pos (beq_self_eq_true _)]

theorem get?_cons_of_ne (h : key.text ≠ name) :
    get? ((key, item) :: entries) name = get? entries name := by
  rw [get?, if_neg (by simpa using h)]

theorem replace_cons_of_ne (h : key.text ≠ name) (later : Item) :
    replace ((key, item) :: entries) name later = (key, item) :: replace entries name later := by
  rw [replace, List.map_cons, if_neg (by simpa using h), replace]

theorem replace_cons_self (later : Item) :
    replace ((key, item) :: entries) key.text later =
      (key, later) :: replace entries key.text later := by
  rw [replace, List.map_cons, if_pos (beq_self_eq_true _), replace]

theorem replace_eq_self (h : get? entries name = none) (later : Item) :
    replace entries name later = entries := by
  induction entries with
  | nil => rfl
  | cons entry entries ih =>
    obtain ⟨key, item⟩ := entry
    by_cases hkey : key.text = name
    · rw [← hkey, get?_cons_self] at h
      cases h
    · rw [get?_cons_of_ne hkey] at h
      rw [replace_cons_of_ne hkey, ih h]

theorem remove_cons_of_ne (h : key.text ≠ name) :
    remove ((key, item) :: entries) name = (key, item) :: remove entries name :=
  List.filter_cons_of_pos (by simpa using h)

theorem remove_cons_self :
    remove ((key, item) :: entries) key.text = remove entries key.text :=
  List.filter_cons_of_neg (by simp)

theorem remove_eq_self (h : get? entries name = none) : remove entries name = entries := by
  induction entries with
  | nil => rfl
  | cons entry entries ih =>
    obtain ⟨key, item⟩ := entry
    by_cases hkey : key.text = name
    · rw [← hkey, get?_cons_self] at h
      cases h
    · rw [get?_cons_of_ne hkey] at h
      rw [remove_cons_of_ne hkey, ih h]

theorem get?_replace_of_ne {other : String} (h : other ≠ name) (later : Item) :
    get? (replace entries other later) name = get? entries name := by
  induction entries with
  | nil => rfl
  | cons entry entries ih =>
    obtain ⟨key, item⟩ := entry
    by_cases hkey : key.text = other
    · rw [← hkey, replace_cons_self, get?_cons_of_ne (hkey.trans_ne h),
        get?_cons_of_ne (hkey.trans_ne h), hkey, ih]
    · rw [replace_cons_of_ne hkey, get?, get?, ih]

theorem get?_replace_self (h : get? entries name ≠ none) (later : Item) :
    get? (replace entries name later) name = some later := by
  induction entries with
  | nil => exact absurd rfl h
  | cons entry entries ih =>
    obtain ⟨key, item⟩ := entry
    by_cases hkey : key.text = name
    · rw [← hkey, replace_cons_self, get?_cons_self]
    · rw [get?_cons_of_ne hkey] at h
      rw [replace_cons_of_ne hkey, get?_cons_of_ne hkey, ih h]

theorem get?_remove_of_ne {other : String} (h : other ≠ name) :
    get? (remove entries other) name = get? entries name := by
  induction entries with
  | nil => rfl
  | cons entry entries ih =>
    obtain ⟨key, item⟩ := entry
    by_cases hkey : key.text = other
    · rw [← hkey, remove_cons_self, get?_cons_of_ne (hkey.trans_ne h), hkey, ih]
    · rw [remove_cons_of_ne hkey, get?, get?, ih]

theorem get?_remove_self : get? (remove entries name) name = none := by
  induction entries with
  | nil => rfl
  | cons entry entries ih =>
    obtain ⟨key, item⟩ := entry
    by_cases hkey : key.text = name
    · rw [← hkey, remove_cons_self, hkey, ih]
    · rw [remove_cons_of_ne hkey, get?_cons_of_ne hkey, ih]

theorem get?_cons_ne_none (h : get? entries name ≠ none) :
    get? ((key, item) :: entries) name ≠ none := by
  by_cases hkey : key.text = name
  · rw [← hkey, get?_cons_self]
    exact Option.some_ne_none item
  · rw [get?_cons_of_ne hkey]
    exact h

theorem get?_append_of_eq_none {front : Entries} (h : get? front name = none) :
    get? (front ++ entries) name = get? entries name := by
  induction front with
  | nil => rfl
  | cons entry front ih =>
    obtain ⟨key, item⟩ := entry
    by_cases hkey : key.text = name
    · rw [← hkey, get?_cons_self] at h
      cases h
    · rw [get?_cons_of_ne hkey] at h
      rw [List.cons_append, get?_cons_of_ne hkey, ih h]

end Entries

/-! ## Documents with and without fields -/

/-- In a table at a path the one document has what the other has, and some fields. Tables that
count have the same origin, and their fields are compared in turn. -/
inductive Adds (layout : Layout) : List String → Entries → Entries → List Addition → Prop
  | nil {path : List String} : Adds layout path [] [] []
  | unknown {path : List String} {key : Key} {item : Item} {full rest : Entries}
      {added : List Addition} (hkey : key.text ∉ layout.names path)
      (h : Adds layout path full rest added) :
      Adds layout path ((key, item) :: full) ((key, item) :: rest) added
  | field {path : List String} {key : Key} {item : Item} {full rest : Entries}
      {added : List Addition} (hkey : key.text ∈ layout.names path)
      (hfield : layout.names (path ++ [key.text]) = []) (h : Adds layout path full rest added) :
      Adds layout path ((key, item) :: full) rest (⟨path, key, item⟩ :: added)
  | table {path : List String} {key : Key} {origin : Origin} {stretch other : Option Stretch}
      {inner left full rest : Entries} {added others : List Addition}
      (htable : layout.names (path ++ [key.text]) ≠ [])
      (hnew : Entries.get? full key.text = none)
      (hinner : Adds layout (path ++ [key.text]) inner left added)
      (h : Adds layout path full rest others) :
      Adds layout path ((key, .table origin stretch inner) :: full)
        ((key, .table origin other left) :: rest) (added ++ others)

variable {layout : Layout} {path : List String} {full rest : Entries} {added : List Addition}
  {name : String} {key : Key} {item : Item}

/-- Where no name counts there are no fields to add. -/
theorem Adds.refl (h : layout.names path = []) (entries : Entries) :
    Adds layout path entries entries [] := by
  induction entries with
  | nil => exact .nil
  | cons entry entries ih => exact .unknown (by rw [h]; exact List.not_mem_nil) ih

theorem Adds.eq_of_names_eq_nil (h : Adds layout path full rest added)
    (hnames : layout.names path = []) : full = rest ∧ added = [] := by
  induction h with
  | nil => exact ⟨rfl, rfl⟩
  | unknown _ _ ih =>
    obtain ⟨rfl, rfl⟩ := ih hnames
    exact ⟨rfl, rfl⟩
  | field hkey _ _ _ =>
    rw [hnames] at hkey
    cases hkey
  | table htable _ _ _ _ _ =>
    have hmem := layout.mem_names htable
    rw [hnames] at hmem
    cases hmem

theorem Adds.get?_eq (h : Adds layout path full rest added) (hname : name ∉ layout.names path) :
    Entries.get? full name = Entries.get? rest name := by
  induction h with
  | nil => rfl
  | unknown _ _ ih => rw [Entries.get?, Entries.get?, ih hname]
  | field hkey _ _ ih =>
    rw [Entries.get?_cons_of_ne (ne_of_mem_of_not_mem hkey hname), ih hname]
  | table htable _ _ _ _ ih =>
    have hne := ne_of_mem_of_not_mem (layout.mem_names htable) hname
    rw [Entries.get?_cons_of_ne hne, Entries.get?_cons_of_ne hne, ih hname]

theorem Adds.replace (h : Adds layout path full rest added) (hname : name ∉ layout.names path)
    (item : Item) : Adds layout path (Entries.replace full name item)
      (Entries.replace rest name item) added := by
  induction h with
  | nil => exact .nil
  | @unknown path key _ _ _ _ hkey _ ih =>
    by_cases hsame : key.text = name
    · rw [← hsame, Entries.replace_cons_self, Entries.replace_cons_self, hsame]
      exact .unknown hkey (ih hname)
    · rw [Entries.replace_cons_of_ne hsame, Entries.replace_cons_of_ne hsame]
      exact .unknown hkey (ih hname)
  | field hkey hfield _ ih =>
    rw [Entries.replace_cons_of_ne (ne_of_mem_of_not_mem hkey hname)]
    exact .field hkey hfield (ih hname)
  | table htable hnew hinner _ _ ih =>
    have hne := ne_of_mem_of_not_mem (layout.mem_names htable) hname
    rw [Entries.replace_cons_of_ne hne, Entries.replace_cons_of_ne hne]
    exact .table htable ((Entries.get?_replace_of_ne hne.symm _).trans hnew) hinner (ih hname)

theorem Adds.remove (h : Adds layout path full rest added) (hname : name ∉ layout.names path) :
    Adds layout path (Entries.remove full name) (Entries.remove rest name) added := by
  induction h with
  | nil => exact .nil
  | @unknown path key _ _ _ _ hkey _ ih =>
    by_cases hsame : key.text = name
    · rw [← hsame, Entries.remove_cons_self, Entries.remove_cons_self, hsame]
      exact ih hname
    · rw [Entries.remove_cons_of_ne hsame, Entries.remove_cons_of_ne hsame]
      exact .unknown hkey (ih hname)
  | field hkey hfield _ ih =>
    rw [Entries.remove_cons_of_ne (ne_of_mem_of_not_mem hkey hname)]
    exact .field hkey hfield (ih hname)
  | table htable hnew hinner _ _ ih =>
    have hne := ne_of_mem_of_not_mem (layout.mem_names htable) hname
    rw [Entries.remove_cons_of_ne hne, Entries.remove_cons_of_ne hne]
    exact .table htable ((Entries.get?_remove_of_ne hne.symm).trans hnew) hinner (ih hname)

theorem Adds.append {front behind : Entries} {later : List Addition}
    (h : Adds layout path full rest added) (hlater : Adds layout path front behind later)
    (hnew : ∀ name, layout.names (path ++ [name]) ≠ [] → Entries.get? full name ≠ none →
      Entries.get? front name = none) :
    Adds layout path (full ++ front) (rest ++ behind) (added ++ later) := by
  induction h with
  | nil => exact hlater
  | unknown hkey _ ih =>
    refine .unknown hkey (ih hlater ?_)
    intro name htable hthere
    exact hnew name htable (Entries.get?_cons_ne_none hthere)
  | field hkey hfield _ ih =>
    refine .field hkey hfield (ih hlater ?_)
    intro name htable hthere
    exact hnew name htable (Entries.get?_cons_ne_none hthere)
  | @table path key origin stretch other inner left full rest added others htable hfresh hinner _ _
      ih =>
    rw [List.append_assoc]
    refine .table htable ?_ hinner (ih hlater ?_)
    · refine (Entries.get?_append_of_eq_none hfresh).trans (hnew key.text htable ?_)
      rw [Entries.get?_cons_self]
      exact Option.some_ne_none _
    · intro name hname hthere
      exact hnew name hname (Entries.get?_cons_ne_none hthere)

theorem Adds.append_unknown (h : Adds layout path full rest added)
    (hkey : key.text ∉ layout.names path) (item : Item) :
    Adds layout path (full ++ [(key, item)]) (rest ++ [(key, item)]) added := by
  have hone : Adds layout path [(key, item)] [(key, item)] [] := .unknown hkey .nil
  have hlast := h.append hone ?_
  · rwa [List.append_nil] at hlast
  · intro name htable _
    exact Entries.get?_cons_of_ne (ne_of_mem_of_not_mem (layout.mem_names htable) hkey).symm

theorem Adds.append_field (h : Adds layout path full rest added)
    (hkey : key.text ∈ layout.names path) (hfield : layout.names (path ++ [key.text]) = [])
    (item : Item) :
    Adds layout path (full ++ [(key, item)]) rest (added ++ [⟨path, key, item⟩]) := by
  have hone : Adds layout path [(key, item)] [] [⟨path, key, item⟩] := .field hkey hfield .nil
  have hlast := h.append hone ?_
  · rwa [List.append_nil] at hlast
  · intro name htable _
    refine Entries.get?_cons_of_ne ?_
    rintro rfl
    exact htable hfield

theorem Adds.append_table {origin : Origin} {inner left : Entries} {later : List Addition}
    (h : Adds layout path full rest added) (htable : layout.names (path ++ [key.text]) ≠ [])
    (hnew : Entries.get? full key.text = none)
    (hinner : Adds layout (path ++ [key.text]) inner left later) (stretch other : Option Stretch) :
    Adds layout path (full ++ [(key, .table origin stretch inner)])
      (rest ++ [(key, .table origin other left)]) (added ++ later) := by
  have hone : Adds layout path [(key, .table origin stretch inner)]
      [(key, .table origin other left)] (later ++ []) := .table htable rfl hinner .nil
  have hlast := h.append hone ?_
  · rwa [List.append_nil] at hlast
  · intro name _ hthere
    refine Entries.get?_cons_of_ne ?_
    rintro rfl
    exact hthere hnew

/-- A table that counts is in both documents, with some of the fields. It can be taken away or
replaced. -/
structure HasTable (layout : Layout) (path : List String) (name : String) (full rest : Entries)
    (added : List Addition) (origin : Origin) (inner left : Entries) (here others : List Addition) :
    Prop where
  get?_full : ∃ stretch, Entries.get? full name = some (.table origin stretch inner)
  get?_rest : ∃ stretch, Entries.get? rest name = some (.table origin stretch left)
  adds : Adds layout (path ++ [name]) inner left here
  perm : added.Perm (here ++ others)
  remove : Adds layout path (Entries.remove full name) (Entries.remove rest name) others
  replace : ∀ origin stretch other inner left later, Adds layout (path ++ [name]) inner left later →
    ∃ all, Adds layout path (Entries.replace full name (.table origin stretch inner))
      (Entries.replace rest name (.table origin other left)) all ∧ all.Perm (later ++ others)

section HasTable

variable {origin : Origin} {inner left : Entries} {here others : List Addition}

theorem HasTable.unknown
    (h : HasTable layout path name full rest added origin inner left here others)
    (hkey : key.text ∉ layout.names path) (hne : key.text ≠ name) (item : Item) :
    HasTable layout path name ((key, item) :: full) ((key, item) :: rest) added origin inner left
      here others where
  get?_full := by
    rw [Entries.get?_cons_of_ne hne]
    exact h.get?_full
  get?_rest := by
    rw [Entries.get?_cons_of_ne hne]
    exact h.get?_rest
  adds := h.adds
  perm := h.perm
  remove := by
    rw [Entries.remove_cons_of_ne hne, Entries.remove_cons_of_ne hne]
    exact .unknown hkey h.remove
  replace origin stretch other inner left later hlater := by
    obtain ⟨all, hall, hperm⟩ := h.replace origin stretch other inner left later hlater
    rw [Entries.replace_cons_of_ne hne, Entries.replace_cons_of_ne hne]
    exact ⟨all, .unknown hkey hall, hperm⟩

theorem HasTable.field
    (h : HasTable layout path name full rest added origin inner left here others)
    (hkey : key.text ∈ layout.names path) (hfield : layout.names (path ++ [key.text]) = [])
    (hne : key.text ≠ name) (item : Item) :
    HasTable layout path name ((key, item) :: full) rest (⟨path, key, item⟩ :: added) origin inner
      left here (⟨path, key, item⟩ :: others) where
  get?_full := by
    rw [Entries.get?_cons_of_ne hne]
    exact h.get?_full
  get?_rest := h.get?_rest
  adds := h.adds
  perm := (h.perm.cons _).trans List.perm_middle.symm
  remove := by
    rw [Entries.remove_cons_of_ne hne]
    exact .field hkey hfield h.remove
  replace origin stretch other inner left later hlater := by
    obtain ⟨all, hall, hperm⟩ := h.replace origin stretch other inner left later hlater
    rw [Entries.replace_cons_of_ne hne]
    exact ⟨_, .field hkey hfield hall, (hperm.cons _).trans List.perm_middle.symm⟩

theorem HasTable.table {own : Origin} {deeper deeperLeft : Entries} {more : List Addition}
    (h : HasTable layout path name full rest added origin inner left here others)
    (htable : layout.names (path ++ [key.text]) ≠ []) (hnew : Entries.get? full key.text = none)
    (hinner : Adds layout (path ++ [key.text]) deeper deeperLeft more) (hne : key.text ≠ name)
    (stretch other : Option Stretch) :
    HasTable layout path name ((key, .table own stretch deeper) :: full)
      ((key, .table own other deeperLeft) :: rest) (more ++ added) origin inner left here
      (more ++ others) where
  get?_full := by
    rw [Entries.get?_cons_of_ne hne]
    exact h.get?_full
  get?_rest := by
    rw [Entries.get?_cons_of_ne hne]
    exact h.get?_rest
  adds := h.adds
  perm := (h.perm.append_left more).trans (List.perm_append_comm_assoc ..)
  remove := by
    rw [Entries.remove_cons_of_ne hne, Entries.remove_cons_of_ne hne]
    exact .table htable ((Entries.get?_remove_of_ne hne.symm).trans hnew) hinner h.remove
  replace origin stretch other inner left later hlater := by
    obtain ⟨all, hall, hperm⟩ := h.replace origin stretch other inner left later hlater
    rw [Entries.replace_cons_of_ne hne, Entries.replace_cons_of_ne hne]
    exact ⟨_, .table htable ((Entries.get?_replace_of_ne hne.symm _).trans hnew) hinner hall,
      (hperm.append_left more).trans (List.perm_append_comm_assoc ..)⟩

end HasTable

/-- A table that counts is in both documents or in none. -/
theorem Adds.table_cases (h : Adds layout path full rest added)
    (hname : layout.names (path ++ [name]) ≠ []) :
    Entries.get? full name = none ∧ Entries.get? rest name = none ∨
      ∃ origin inner left here others,
        HasTable layout path name full rest added origin inner left here others := by
  induction h with
  | nil => exact Or.inl ⟨rfl, rfl⟩
  | @unknown path key item full rest added hkey _ ih =>
    have hne := (ne_of_mem_of_not_mem (layout.mem_names hname) hkey).symm
    rcases ih hname with hnone | ⟨origin, inner, left, here, others, hthere⟩
    · rw [Entries.get?_cons_of_ne hne, Entries.get?_cons_of_ne hne]
      exact Or.inl hnone
    · exact Or.inr ⟨_, _, _, _, _, hthere.unknown hkey hne item⟩
  | @field path key item full rest added hkey hfield _ ih =>
    have hne : key.text ≠ name := by
      rintro rfl
      exact hname hfield
    rcases ih hname with hnone | ⟨origin, inner, left, here, others, hthere⟩
    · rw [Entries.get?_cons_of_ne hne]
      exact Or.inl hnone
    · exact Or.inr ⟨_, _, _, _, _, hthere.field hkey hfield hne item⟩
  | @table path key origin stretch other inner left full rest added others htable hnew hinner hadds
      _ ih =>
    by_cases hsame : key.text = name
    · subst hsame
      rcases ih hname with ⟨-, hrest⟩ | ⟨origin, _, _, _, _, hthere⟩
      · refine Or.inr ⟨origin, inner, left, added, others, ⟨stretch, Entries.get?_cons_self⟩,
          ⟨other, Entries.get?_cons_self⟩, hinner, .refl _, ?_, ?_⟩
        · rw [Entries.remove_cons_self, Entries.remove_cons_self, Entries.remove_eq_self hnew,
            Entries.remove_eq_self hrest]
          exact hadds
        · intro origin stretch other inner left later hlater
          rw [Entries.replace_cons_self, Entries.replace_cons_self, Entries.replace_eq_self hnew,
            Entries.replace_eq_self hrest]
          exact ⟨_, .table htable hnew hlater hadds, .refl _⟩
      · obtain ⟨_, hfull⟩ := hthere.get?_full
        rw [hnew] at hfull
        cases hfull
    · rcases ih hname with hnone | ⟨_, _, _, _, _, hthere⟩
      · rw [Entries.get?_cons_of_ne hsame, Entries.get?_cons_of_ne hsame]
        exact Or.inl hnone
      · exact Or.inr ⟨_, _, _, _, _, hthere.table htable hnew hinner hsame stretch other⟩

theorem Adds.exists_addition (h : Adds layout path full rest added)
    (hname : name ∈ layout.names path) (hfield : layout.names (path ++ [name]) = [])
    (hthere : Entries.get? full name ≠ none) :
    ∃ addition ∈ added, addition.path = path ∧ addition.key.text = name := by
  induction h with
  | nil => exact absurd rfl hthere
  | unknown hkey _ ih =>
    rw [Entries.get?_cons_of_ne (ne_of_mem_of_not_mem hname hkey).symm] at hthere
    exact ih hname hfield hthere
  | @field path key item full rest added hkey _ _ ih =>
    by_cases hsame : key.text = name
    · exact ⟨_, List.mem_cons_self, rfl, hsame⟩
    · rw [Entries.get?_cons_of_ne hsame] at hthere
      obtain ⟨addition, hmem, h⟩ := ih hname hfield hthere
      exact ⟨addition, List.mem_cons_of_mem _ hmem, h⟩
  | @table path key _ _ _ _ _ _ _ _ _ htable _ _ _ _ ih =>
    have hne : key.text ≠ name := by
      rintro rfl
      exact htable hfield
    rw [Entries.get?_cons_of_ne hne] at hthere
    obtain ⟨addition, hmem, h⟩ := ih hname hfield hthere
    exact ⟨addition, List.mem_append_right _ hmem, h⟩

end PageManifest.Toml
