import PageManifest.Manifest.Basic
import PageManifest.Manifest.Sample

/-!
# Putting in sections

Some sections are put into a page description one after the other (`insertEach`). One of them keeps
its place if it has one, and goes to the end if it has none. So a whole run keeps the sections that
are there, and adds the new ones in the order in which each is put in first (`keys_insertEach`);
under a name is what was put in last (`get?_insertEach_of_last`), and each step gives back what it
replaces (`old_insertEach`).

What else a page description tells depends on what is under each name, and not on how or in which
order that came about (`tellSame_of_get?`).
-/

namespace PageManifest.Manifest

variable {manifest : Manifest} {sections : List (String × Value)} {key : String}
  {value : Value}

/-- Puts in some sections one after the other: what each of them replaces, and the page
description behind them. -/
def insertEach : List (String × Value) → Manifest → List (Option Value) × Manifest
  | [], manifest => ([], manifest)
  | (key, value) :: sections, manifest =>
    let (old, manifest) := manifest.replace key value
    let (olds, manifest) := insertEach sections manifest
    (old :: olds, manifest)

/-! ## One section -/

theorem keys_insert_of_mem (h : key ∈ manifest.keys) (value : Value) :
    (manifest.insert key value).keys = manifest.keys := by
  rw [keys, insert, OrderedMap.keys_insert]
  exact if_pos h

theorem keys_insert_of_notMem (h : key ∉ manifest.keys) (value : Value) :
    (manifest.insert key value).keys = manifest.keys ++ [key] := by
  rw [keys, insert, OrderedMap.keys_insert]
  exact if_neg h

theorem get?_insert_self (manifest : Manifest) (key : String) (value : Value) :
    (manifest.insert key value).get? key = some value := by
  rw [get?, insert, OrderedMap.get?_insert, if_pos (beq_self_eq_true key)]

theorem get?_insert_of_ne {other : String} (manifest : Manifest) (h : key ≠ other)
    (value : Value) : (manifest.insert key value).get? other = manifest.get? other := by
  rw [get?, insert, OrderedMap.get?_insert, if_neg (by simpa using h), get?]

/-! ## Runs -/

theorem insertEach_cons (manifest : Manifest) (key : String) (value : Value)
    (sections : List (String × Value)) :
    insertEach ((key, value) :: sections) manifest =
      (manifest.get? key :: (insertEach sections (manifest.insert key value)).1,
        (insertEach sections (manifest.insert key value)).2) := by
  rw [insertEach, replace_eq]

/-- A run goes on where its first part ends. -/
theorem insertEach_append (front behind : List (String × Value)) (manifest : Manifest) :
    insertEach (front ++ behind) manifest =
      ((insertEach front manifest).1 ++ (insertEach behind (insertEach front manifest).2).1,
        (insertEach behind (insertEach front manifest).2).2) := by
  induction front generalizing manifest with
  | nil => rfl
  | cons entry front ih =>
    obtain ⟨key, value⟩ := entry
    rw [List.cons_append, insertEach_cons, insertEach_cons, ih, List.cons_append]

theorem length_insertEach (sections : List (String × Value)) (manifest : Manifest) :
    (insertEach sections manifest).1.length = sections.length := by
  induction sections generalizing manifest with
  | nil => rfl
  | cons entry sections ih =>
    obtain ⟨key, value⟩ := entry
    rw [insertEach_cons, List.length_cons, List.length_cons, ih]

/-- The names that are there stay in front, and each new one stands where it is put in first. -/
theorem keys_insertEach (sections : List (String × Value)) (manifest : Manifest) :
    (insertEach sections manifest).2.keys =
      manifest.keys ++ ((sections.map Prod.fst).filter (· ∉ manifest.keys)).eraseDups := by
  induction sections generalizing manifest with
  | nil => exact (List.append_nil _).symm
  | cons entry sections ih =>
    obtain ⟨key, value⟩ := entry
    rw [insertEach_cons, List.map_cons]
    dsimp only
    by_cases hmem : key ∈ manifest.keys
    · rw [ih, keys_insert_of_mem hmem, List.filter_cons_of_neg (by simpa using hmem)]
    · -- The new name is known from now on, so it is left out of those that come behind.
      have hbehind : (sections.map Prod.fst).filter (· ∉ manifest.keys ++ [key]) =
          ((sections.map Prod.fst).filter (· ∉ manifest.keys)).filter
            fun name => !name == key := by
        rw [List.filter_filter]
        refine List.filter_congr fun name _ => ?_
        by_cases hname : name = key
        · simp [hname]
        · simp [hname]
      rw [ih, keys_insert_of_notMem hmem, List.filter_cons_of_pos (by simpa using hmem),
        List.eraseDups_cons, hbehind, List.append_assoc, List.singleton_append]

theorem nodup_keys_insertEach (h : manifest.keys.Nodup) (sections : List (String × Value)) :
    (insertEach sections manifest).2.keys.Nodup := by
  induction sections generalizing manifest with
  | nil => exact h
  | cons entry sections ih =>
    obtain ⟨key, value⟩ := entry
    rw [insertEach_cons]
    exact ih (OrderedMap.nodup_keys_insert h key value)

/-- A name that is not put in keeps what is under it. -/
theorem get?_insertEach_of_notMem (h : key ∉ sections.map Prod.fst) (manifest : Manifest) :
    (insertEach sections manifest).2.get? key = manifest.get? key := by
  induction sections generalizing manifest with
  | nil => rfl
  | cons entry sections ih =>
    obtain ⟨other, value⟩ := entry
    rw [List.map_cons, List.mem_cons, not_or] at h
    rw [insertEach_cons]
    dsimp only
    rw [ih h.2, get?_insert_of_ne _ (Ne.symm h.1)]

/-- What is put in last under a name is there. -/
theorem get?_insertEach_of_last {front behind : List (String × Value)}
    (h : key ∉ behind.map Prod.fst) (value : Value) (manifest : Manifest) :
    (insertEach (front ++ (key, value) :: behind) manifest).2.get? key = some value := by
  rw [insertEach_append, insertEach_cons]
  dsimp only
  rw [get?_insertEach_of_notMem h, get?_insert_self]

/-- A step gives back what is under its name just before it. -/
theorem old_insertEach (front behind : List (String × Value)) (key : String) (value : Value)
    (manifest : Manifest) :
    (insertEach (front ++ (key, value) :: behind) manifest).1[front.length]? =
      some ((insertEach front manifest).2.get? key) := by
  rw [insertEach_append, insertEach_cons]
  dsimp only
  have hlength := length_insertEach front manifest
  rw [List.getElem?_append_right (Nat.le_of_eq hlength), hlength, Nat.sub_self,
    List.getElem?_cons_zero]

/-! ## What a page description tells -/

theorem isEmpty_iff_keys : manifest.isEmpty = true ↔ manifest.keys = [] := by
  rw [isEmpty, List.isEmpty_iff, keys, OrderedMap.keys, List.map_eq_nil_iff]

theorem isEmpty_iff : manifest.isEmpty = true ↔ ∀ key, manifest.get? key = none := by
  rw [isEmpty_iff_keys, List.eq_nil_iff_forall_not_mem]
  exact forall_congr' fun key => (OrderedMap.get?_eq_none_iff manifest.entries key).symm

theorem isEmpty_insertEach_iff :
    (insertEach sections manifest).2.isEmpty = true ↔ manifest.isEmpty = true ∧ sections = [] := by
  rw [isEmpty_iff_keys, isEmpty_iff_keys, keys_insertEach, List.append_eq_nil_iff]
  refine and_congr_right fun hkeys => ?_
  cases sections with
  | nil => simp
  | cons entry sections => simp [hkeys, List.eraseDups_cons]

theorem section?_eq_some_iff {name : String} {entries : OrderedMap String Value} :
    manifest.section? name = some entries ↔ manifest.get? name = some (.mapping entries) := by
  have hentries : ∀ value : Value, value.entries? = some entries ↔ value = .mapping entries := by
    intro value
    cases value <;> simp [Value.entries?]
  simp [section?, Option.bind_eq_some_iff, hentries]

theorem title?_eq_some_iff {text : String} :
    manifest.title? = some text ↔ ∃ entries, manifest.get? "metadata" = some (.mapping entries) ∧
      OrderedMap.get? entries "title" = some (.string text) := by
  have htext : ∀ value : Value, value.text? = some text ↔ value = .string text := by
    intro value
    cases value <;> simp [Value.text?]
  simp [title?, metadata?, Option.bind_eq_some_iff, section?_eq_some_iff, htext]

/-- Two page descriptions tell the same: whether there is anything, and the parts by which a page
is known. -/
structure TellSame (manifest other : Manifest) : Prop where
  isEmpty_eq : other.isEmpty = manifest.isEmpty
  metadata?_eq : other.metadata? = manifest.metadata?
  styles?_eq : other.styles? = manifest.styles?
  structure?_eq : other.structure? = manifest.structure?
  title?_eq : other.title? = manifest.title?

/-- What is told depends on what is under each name, and not on the order. -/
theorem tellSame_of_get? {other : Manifest} (h : ∀ key, other.get? key = manifest.get? key) :
    TellSame manifest other := by
  have hsection : ∀ name, other.section? name = manifest.section? name := by
    intro name
    rw [section?, section?, h]
  refine ⟨?_, hsection _, hsection _, h _, ?_⟩
  · rw [Bool.eq_iff_iff, Manifest.isEmpty_iff, Manifest.isEmpty_iff]
    exact forall_congr' fun key => by rw [h]
  · rw [title?, title?, metadata?, metadata?, hsection]

/-! ## Insertions -/

/-- What some insertions make of a page description, with all that they give back. -/
structure Inserts (sections : List (String × Value)) (manifest : Manifest)
    (olds : List (Option Value)) (later : Manifest) : Prop where
  /-- The names that are new come behind the others, each where it is put in first. -/
  keys_eq : later.keys =
    manifest.keys ++ ((sections.map Prod.fst).filter (· ∉ manifest.keys)).eraseDups
  nodup_keys : manifest.keys.Nodup → later.keys.Nodup
  get?_of_last : ∀ front key value behind, sections = front ++ (key, value) :: behind →
    key ∉ behind.map Prod.fst → later.get? key = some value
  get?_of_notMem : ∀ key, key ∉ sections.map Prod.fst → later.get? key = manifest.get? key
  length_eq : olds.length = sections.length
  /-- Each insertion gives back what was under its name behind those before it. -/
  old_eq : ∀ front key value behind, sections = front ++ (key, value) :: behind →
    olds[front.length]? = some ((insertEach front manifest).2.get? key)
  isEmpty_iff : later.isEmpty = true ↔ manifest.isEmpty = true ∧ sections = []
  tellSame : ∀ other : Manifest, (∀ key, other.get? key = later.get? key) → TellSame later other
  /-- There is a title just if `metadata` is a mapping with a string of that name. -/
  title?_iff : ∀ text, later.title? = some text ↔
    ∃ entries, later.get? "metadata" = some (.mapping entries) ∧
      OrderedMap.get? entries "title" = some (.string text)

/-- A page description stays an ordered map, whatever is put in. -/
theorem insertEach_inserts (sections : List (String × Value)) (manifest : Manifest) :
    Inserts sections manifest (insertEach sections manifest).1
      (insertEach sections manifest).2 := by
  refine ⟨keys_insertEach sections manifest, fun h => nodup_keys_insertEach h sections, ?_, ?_,
    length_insertEach sections manifest, ?_, isEmpty_insertEach_iff, ?_, ?_⟩
  · rintro front key value behind rfl hlast
    exact get?_insertEach_of_last hlast value manifest
  · intro key hnone
    exact get?_insertEach_of_notMem hnone manifest
  · rintro front key value behind rfl
    exact old_insertEach front behind key value manifest
  · intro other hsame
    exact tellSame_of_get? hsame
  · intro text
    exact title?_eq_some_iff

/-- Sections that replace each other: the title goes, and comes again in another text. -/
def retitled : List (String × Value) :=
  [("metadata", .null), ("extra", .bool true),
    ("metadata", .mapping [("title", .string "Again")]), ("extra", .null)]

example :
    (insertEach retitled .sample).2.keys = ["metadata", "styles", "structure", "extra"] ∧
      (insertEach (retitled.take 1) .sample).2.title? = none ∧
      (insertEach retitled .sample).2.title? = some "Again" ∧
      (insertEach (retitled.drop 1) .empty).2.keys = ["extra", "metadata"] := by
  decide

end PageManifest.Manifest
