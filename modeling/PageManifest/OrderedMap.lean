/-!
# Ordered maps

A map that remembers the order of its keys is a list of entries. Putting a value under
a present key keeps the key's place, and a new key goes to the end. Every operation is
stated on the list of keys, so that order and distinctness of keys are facts about lists.
-/

namespace PageManifest

/-- Entries in order. -/
abbrev OrderedMap (κ α : Type) := List (κ × α)

namespace OrderedMap

variable {κ α : Type} [BEq κ]

/-- The keys in order. -/
def keys (m : OrderedMap κ α) : List κ := m.map Prod.fst

/-- The values in order. -/
def values (m : OrderedMap κ α) : List α := m.map Prod.snd

/-- The value under a key. -/
def get? (m : OrderedMap κ α) (key : κ) : Option α :=
  match m with
  | [] => none
  | (k, v) :: rest => if k == key then some v else get? rest key

/-- Whether a key is present. -/
def hasKey (m : OrderedMap κ α) (key : κ) : Bool := (get? m key).isSome

/-- Puts a value under a key, in the key's place or at the end. -/
def insert (m : OrderedMap κ α) (key : κ) (value : α) : OrderedMap κ α :=
  match m with
  | [] => [(key, value)]
  | (k, v) :: rest => if k == key then (k, value) :: rest else (k, v) :: insert rest key value

/-- Puts a value under a key as `insert` does, and gives the value that was there. -/
def replace (m : OrderedMap κ α) (key : κ) (value : α) : Option α × OrderedMap κ α :=
  match m with
  | [] => (none, [(key, value)])
  | (k, v) :: rest =>
    if k == key then (some v, (k, value) :: rest)
    else
      let (old, rest) := replace rest key value
      (old, (k, v) :: rest)

/-- Puts a value under a key at the end, unless the key is present. -/
def insertNew (m : OrderedMap κ α) (key : κ) (value : α) : OrderedMap κ α :=
  if hasKey m key then m else m ++ [(key, value)]

/-- Adds the entries of another map whose keys are not present yet. -/
def addMissing (m other : OrderedMap κ α) : OrderedMap κ α :=
  other.foldl (fun acc entry => insertNew acc entry.1 entry.2) m

/-- Removes a key, the last entry taking its place. -/
def swapRemove (m : OrderedMap κ α) (key : κ) : OrderedMap κ α :=
  match m with
  | [] => []
  | (k, v) :: rest =>
    if k == key then
      match rest.getLast? with
      | none => []
      | some last => last :: rest.dropLast
    else (k, v) :: swapRemove rest key

/-- The map with each key once: a later entry gives the value, the first one the place. -/
def ofEntries (entries : List (κ × α)) : OrderedMap κ α :=
  entries.foldl (fun acc entry => insert acc entry.1 entry.2) []

/-! ## Laws of the operations -/

omit [BEq κ] in
@[simp] theorem keys_nil : keys ([] : OrderedMap κ α) = [] := rfl

omit [BEq κ] in
@[simp] theorem keys_cons (k : κ) (v : α) (m : OrderedMap κ α) :
    keys ((k, v) :: m) = k :: keys m := rfl

@[simp] theorem get?_nil (key : κ) : get? ([] : OrderedMap κ α) key = none := rfl

theorem get?_cons (k : κ) (v : α) (m : OrderedMap κ α) (key : κ) :
    get? ((k, v) :: m) key = if k == key then some v else get? m key := rfl

theorem replace_eq (m : OrderedMap κ α) (key : κ) (value : α) :
    replace m key value = (get? m key, insert m key value) := by
  induction m with
  | nil => rfl
  | cons entry rest ih =>
    obtain ⟨k, v⟩ := entry
    rw [replace, get?_cons, insert, ih]
    split <;> rfl

section Lawful

variable [LawfulBEq κ]

theorem get?_eq_none_iff (m : OrderedMap κ α) (key : κ) :
    get? m key = none ↔ key ∉ keys m := by
  induction m with
  | nil => simp
  | cons entry rest ih =>
    obtain ⟨k, v⟩ := entry
    by_cases h : k = key
    · simp [get?_cons, h]
    · simp [get?_cons, h, ih, Ne.symm h]

theorem hasKey_iff (m : OrderedMap κ α) (key : κ) : hasKey m key = true ↔ key ∈ keys m := by
  have h := get?_eq_none_iff m key
  unfold hasKey
  cases hg : get? m key with
  | none => simpa [hg] using h
  | some v =>
    simp only [Option.isSome_some, true_iff]
    exact Classical.not_not.mp fun hk => by simp [h.mpr hk] at hg

/-- A present key keeps its place and a new one goes to the end. -/
theorem keys_insert (m : OrderedMap κ α) (key : κ) (value : α) :
    keys (insert m key value) = if key ∈ keys m then keys m else keys m ++ [key] := by
  induction m with
  | nil => simp [insert]
  | cons entry rest ih =>
    obtain ⟨k, v⟩ := entry
    by_cases h : k = key
    · simp [insert, h]
    · by_cases hm : key ∈ keys rest
      · simp [insert, h, ih, hm]
      · simp [insert, h, ih, hm, Ne.symm h]

theorem get?_insert (m : OrderedMap κ α) (key other : κ) (value : α) :
    get? (insert m key value) other = if key == other then some value else get? m other := by
  induction m with
  | nil => by_cases h : key = other <;> simp [insert, get?_cons, h]
  | cons entry rest ih =>
    obtain ⟨k, v⟩ := entry
    by_cases h : k = key
    · by_cases ho : key = other <;> simp [insert, get?_cons, h, ho]
    · by_cases ho : k = other
      · subst ho
        simp [insert, get?_cons, h, Ne.symm h]
      · simp [insert, get?_cons, h, ho, ih]

theorem nodup_keys_insert {m : OrderedMap κ α} (h : (keys m).Nodup) (key : κ) (value : α) :
    (keys (insert m key value)).Nodup := by
  rw [keys_insert]
  split
  · exact h
  · rename_i hk
    rw [List.nodup_append]
    refine ⟨h, by simp, ?_⟩
    intro a ha b hb hab
    simp only [List.mem_singleton] at hb
    exact hk (hb ▸ hab ▸ ha)

end Lawful

end OrderedMap

end PageManifest
