import Mathlib.Data.List.Induction
import PageManifest.OrderedMap

/-!
# Entries of ordered maps

Entries with distinct keys are an ordered map as they are (`ofEntries_of_nodup`), and what
is under a key is one of the entries (`mem_of_get?_eq_some`).

Of any entries, an ordered map has each key where it comes first (`keys_ofEntries`) and has
there what comes last (`get?_ofEntries`).

Removing a key moves the last entry behind it into its place (`swapRemove_append`). What is added
comes behind the entries that are there (`exists_addMissing_eq`), and every key of it is there
afterwards (`mem_or_exists_key_addMissing`).
-/

namespace PageManifest.OrderedMap

variable {κ α : Type} [BEq κ] [LawfulBEq κ]

theorem mem_of_get?_eq_some {m : OrderedMap κ α} {key : κ} {value : α}
    (h : get? m key = some value) : (key, value) ∈ m := by
  induction m with
  | nil => simp at h
  | cons entry rest ih =>
    obtain ⟨k, v⟩ := entry
    rw [get?_cons] at h
    split at h
    · rename_i hkey
      rw [eq_of_beq hkey, Option.some.inj h]
      exact List.mem_cons_self ..
    · exact List.mem_cons_of_mem _ (ih h)

/-- So is what a lookup in any list of entries finds. -/
theorem mem_of_lookup_eq_some {entries : List (κ × α)} {key : κ} {value : α}
    (h : entries.lookup key = some value) : (key, value) ∈ entries := by
  obtain ⟨before, behind, rfl, -⟩ := List.lookup_eq_some_iff.mp h
  simp

/-- Without a key, what is under the others stays. -/
theorem get?_filter_ne [DecidableEq κ] (m : OrderedMap κ α) (key other : κ) :
    get? (m.filter (·.1 ≠ key)) other = if key = other then none else get? m other := by
  induction m with
  | nil => simp
  | cons entry rest ih =>
    obtain ⟨k, v⟩ := entry
    by_cases hkey : k = key
    · subst hkey
      rw [List.filter_cons_of_neg (by simp), ih, get?_cons]
      by_cases hother : k = other
      · rw [if_pos hother, if_pos hother]
      · rw [if_neg hother, if_neg hother, if_neg (by simpa using hother)]
    · rw [List.filter_cons_of_pos (by simpa using hkey), get?_cons, get?_cons, ih]
      by_cases hother : k = other
      · subst hother
        simp [Ne.symm hkey]
      · simp [hother]

/-- A new key goes to the end. -/
theorem insert_of_not_mem {m : OrderedMap κ α} {key : κ} (h : key ∉ keys m) (value : α) :
    insert m key value = m ++ [(key, value)] := by
  induction m with
  | nil => rfl
  | cons entry rest ih =>
    obtain ⟨k, v⟩ := entry
    rw [keys_cons, List.mem_cons, not_or] at h
    have hkey : (k == key) = false := beq_eq_false_iff_ne.mpr (Ne.symm h.1)
    rw [insert, if_neg (by simp [hkey]), ih h.2, List.cons_append]

theorem foldl_insert_of_nodup (m entries : OrderedMap κ α) (h : (keys (m ++ entries)).Nodup) :
    entries.foldl (fun acc entry => insert acc entry.1 entry.2) m = m ++ entries := by
  induction entries generalizing m with
  | nil => simp
  | cons entry rest ih =>
    obtain ⟨k, v⟩ := entry
    have hnew : k ∉ keys m := by
      intro hmem
      rw [keys, List.map_append, List.nodup_append] at h
      exact h.2.2 k hmem k (by simp) rfl
    rw [List.foldl_cons, insert_of_not_mem hnew, ih]
    · simp
    · simpa using h

theorem ofEntries_of_nodup {entries : OrderedMap κ α} (h : (keys entries).Nodup) :
    ofEntries entries = entries :=
  foldl_insert_of_nodup [] entries h

/-! ## Repeated keys -/

omit [LawfulBEq κ] in
theorem ofEntries_concat (entries : List (κ × α)) (entry : κ × α) :
    ofEntries (entries ++ [entry]) = insert (ofEntries entries) entry.1 entry.2 := by
  rw [ofEntries, ofEntries, List.foldl_append]
  rfl

/-- Each key is where it comes first. -/
theorem keys_ofEntries (entries : List (κ × α)) :
    keys (ofEntries entries) = (keys entries).eraseDups := by
  induction entries using List.reverseRecOn with
  | nil => rfl
  | append_singleton entries entry ih =>
    have hkeys : keys (entries ++ [entry]) = keys entries ++ [entry.1] := List.map_append
    rw [ofEntries_concat, keys_insert, ih, hkeys, List.eraseDups_append]
    by_cases h : entry.1 ∈ keys entries
    · simp [h, List.removeAll]
    · simp [h, List.removeAll, List.eraseDups_cons]

/-- What comes last under a key is there. -/
theorem get?_ofEntries (entries : List (κ × α)) (key : κ) :
    get? (ofEntries entries) key = get? entries.reverse key := by
  induction entries using List.reverseRecOn with
  | nil => rfl
  | append_singleton entries entry ih =>
    rw [ofEntries_concat, get?_insert, ih, List.reverse_append]
    rfl

theorem nodup_ofEntries (entries : List (κ × α)) : (keys (ofEntries entries)).Nodup := by
  induction entries using List.reverseRecOn with
  | nil => exact List.nodup_nil
  | append_singleton entries entry ih =>
    rw [ofEntries_concat]
    exact nodup_keys_insert ih entry.1 entry.2

omit [BEq κ] [LawfulBEq κ] in
theorem keys_map_pair (names : List κ) : keys (names.map fun name => (name, ())) = names := by
  simp [keys, Function.comp_def]

theorem nodup_eraseDups (names : List κ) : names.eraseDups.Nodup := by
  have h := nodup_ofEntries (names.map fun name => (name, ()))
  rwa [keys_ofEntries, keys_map_pair] at h

theorem eraseDups_of_nodup {names : List κ} (h : names.Nodup) : names.eraseDups = names := by
  have hkeys := keys_ofEntries (names.map fun name => (name, ()))
  rw [ofEntries_of_nodup (by rwa [keys_map_pair]), keys_map_pair] at hkeys
  exact hkeys.symm

theorem mem_insert {m : OrderedMap κ α} {key : κ} {value : α} {entry : κ × α}
    (h : entry ∈ insert m key value) : entry = (key, value) ∨ entry ∈ m := by
  induction m with
  | nil => exact Or.inl (List.mem_singleton.mp h)
  | cons head rest ih =>
    obtain ⟨k, v⟩ := head
    rw [insert] at h
    split at h
    · rename_i hkey
      rcases List.mem_cons.mp h with h | h
      · exact Or.inl (h.trans (by rw [eq_of_beq hkey]))
      · exact Or.inr (List.mem_cons_of_mem _ h)
    · rcases List.mem_cons.mp h with rfl | h
      · exact Or.inr (List.mem_cons_self ..)
      · exact (ih h).imp_right (List.mem_cons_of_mem _)

/-- No value is made up. -/
theorem mem_of_mem_ofEntries {entries : List (κ × α)} {entry : κ × α}
    (h : entry ∈ ofEntries entries) : entry ∈ entries := by
  induction entries using List.reverseRecOn with
  | nil => exact h
  | append_singleton entries last ih =>
    rw [ofEntries_concat] at h
    rcases mem_insert h with rfl | h
    · simp
    · exact List.mem_append_left _ (ih h)

/-! ## Removing and adding -/

section Removal

omit [LawfulBEq κ]

/-- What is found under a key has no other entry of that key in front of it. -/
theorem exists_append_of_get? {m : OrderedMap κ α} {key : κ} {value : α}
    (h : get? m key = some value) :
    ∃ front found behind, m = front ++ (found, value) :: behind ∧ (found == key) = true ∧
      ∀ entry ∈ front, (entry.1 == key) = false := by
  induction m with
  | nil => cases h
  | cons entry rest ih =>
    obtain ⟨k, v⟩ := entry
    rw [get?_cons] at h
    split at h
    · rename_i hkey
      cases h
      exact ⟨[], k, rest, rfl, hkey, by simp⟩
    · rename_i hkey
      obtain ⟨front, found, behind, rfl, hfound, hfront⟩ := ih h
      refine ⟨(k, v) :: front, found, behind, rfl, hfound, ?_⟩
      rw [List.forall_mem_cons]
      exact ⟨Bool.eq_false_iff.mpr hkey, hfront⟩

theorem get?_append_of_notMem {front behind : OrderedMap κ α} {key : κ}
    (hfront : ∀ entry ∈ front, (entry.1 == key) = false) :
    get? (front ++ behind) key = get? behind key := by
  induction front with
  | nil => rfl
  | cons entry front ih =>
    rw [List.forall_mem_cons] at hfront
    rw [List.cons_append, get?_cons, if_neg (by simp [hfront.1]), ih hfront.2]

theorem rotateRight_concat {β : Type} (items : List β) (last : β) :
    (items ++ [last]).rotateRight = last :: items := by
  rw [List.rotateRight, List.length_append, List.length_singleton]
  split
  · rename_i hlength
    rw [List.length_eq_zero_iff.mp (show items.length = 0 by omega)]
    rfl
  · rename_i hlength
    rw [Nat.mod_eq_of_lt (by omega), Nat.add_sub_cancel]
    simp

theorem perm_rotateRight {β : Type} (items : List β) : items.rotateRight.Perm items := by
  rcases List.eq_nil_or_concat items with rfl | ⟨init, last, rfl⟩
  · rfl
  · rw [List.concat_eq_append, rotateRight_concat]
    exact (List.perm_append_singleton last init).symm

theorem mem_rotateRight {β : Type} {items : List β} {item : β} :
    item ∈ items.rotateRight ↔ item ∈ items := (perm_rotateRight items).mem_iff

/-- What is behind a removed key is led by its last entry. -/
theorem swapRemove_append {front behind : List (κ × α)} {key found : κ} (value : α)
    (hfront : ∀ entry ∈ front, (entry.1 == key) = false) (hfound : (found == key) = true) :
    swapRemove (front ++ (found, value) :: behind) key = front ++ behind.rotateRight := by
  induction front with
  | nil =>
    rw [List.nil_append, List.nil_append, swapRemove, if_pos hfound]
    rcases List.eq_nil_or_concat behind with rfl | ⟨init, last, rfl⟩
    · rfl
    · rw [List.concat_eq_append, rotateRight_concat, List.getLast?_concat, List.dropLast_concat]
  | cons entry front ih =>
    obtain ⟨k, v⟩ := entry
    rw [List.forall_mem_cons] at hfront
    rw [List.cons_append, swapRemove, if_neg (by simp [hfront.1]), ih hfront.2, List.cons_append]

theorem hasKey_eq_true_iff {m : OrderedMap κ α} {key : κ} :
    hasKey m key = true ↔ ∃ found ∈ keys m, (found == key) = true := by
  induction m with
  | nil => simp [hasKey]
  | cons entry rest ih =>
    obtain ⟨k, v⟩ := entry
    rw [hasKey] at ih ⊢
    rw [get?_cons, keys_cons]
    by_cases hkey : (k == key) = true
    · simp [hkey]
    · rw [if_neg hkey, ih]
      simp [hkey]

/-- Some of the entries that are to be added come behind those that are there, in their order. -/
theorem exists_addMissing_eq (m other : OrderedMap κ α) :
    ∃ added, addMissing m other = m ++ added ∧ added.Sublist other := by
  induction other generalizing m with
  | nil => exact ⟨[], (List.append_nil m).symm, List.nil_sublist _⟩
  | cons entry other ih =>
    obtain ⟨added, hadded, hsublist⟩ := ih (insertNew m entry.1 entry.2)
    rw [addMissing, List.foldl_cons, ← addMissing, hadded]
    unfold insertNew
    split
    · exact ⟨added, rfl, hsublist.cons entry⟩
    · exact ⟨entry :: added, by simp, hsublist.cons_cons entry⟩

/-- Adding several maps one after the other is adding all their entries. -/
theorem foldl_addMissing (m : OrderedMap κ α) (others : List (OrderedMap κ α)) :
    others.foldl addMissing m = addMissing m others.flatten := List.foldl_flatten.symm

/-- A key that is to be added is there afterwards, or one that is the same. -/
theorem mem_or_exists_key_addMissing (m : OrderedMap κ α) {other : OrderedMap κ α} {key : κ}
    (hkey : key ∈ keys other) :
    key ∈ keys (addMissing m other) ∨
      ∃ found ∈ keys (addMissing m other), (found == key) = true := by
  induction other generalizing m with
  | nil => cases hkey
  | cons entry other ih =>
    rw [addMissing, List.foldl_cons, ← addMissing]
    rcases List.mem_cons.mp hkey with rfl | hkey
    · obtain ⟨added, hadded, -⟩ := exists_addMissing_eq (insertNew m entry.1 entry.2) other
      rw [hadded, keys, List.map_append]
      unfold insertNew
      split
      · rename_i hpresent
        obtain ⟨found, hfound, hsame⟩ := hasKey_eq_true_iff.mp hpresent
        exact Or.inr ⟨found, List.mem_append_left _ hfound, hsame⟩
      · exact Or.inl (by simp)
    · exact ih _ hkey

theorem exists_key_foldl_addMissing (m : OrderedMap κ α) {others : List (OrderedMap κ α)}
    {other : OrderedMap κ α} {key : κ} (hself : (key == key) = true) (hother : other ∈ others)
    (hkey : key ∈ keys other) :
    ∃ found ∈ keys (others.foldl addMissing m), (found == key) = true := by
  obtain ⟨entry, hentry, rfl⟩ := List.mem_map.mp hkey
  have hmem : entry.1 ∈ keys others.flatten :=
    List.mem_map_of_mem (List.mem_flatten_of_mem hother hentry)
  rw [foldl_addMissing]
  rcases mem_or_exists_key_addMissing m hmem with hthere | hthere
  · exact ⟨entry.1, hthere, hself⟩
  · exact hthere

end Removal

/-! ## Last entries -/

theorem get?_eq_some_of_mem {m : OrderedMap κ α} {key : κ} {value : α} (h : (keys m).Nodup)
    (hmem : (key, value) ∈ m) : get? m key = some value := by
  obtain ⟨front, behind, rfl⟩ := List.append_of_mem hmem
  rw [keys, List.map_append, List.map_cons] at h
  have hfront : ∀ entry ∈ front, (entry.1 == key) = false := by
    intro entry hentry
    refine beq_false_of_ne fun heq => ?_
    exact (List.nodup_append.mp h).2.2 _ (List.mem_map_of_mem hentry) _ List.mem_cons_self heq
  rw [get?_append_of_notMem hfront, get?_cons, if_pos (beq_self_eq_true key)]

/-- The entries that stay are the last ones of their keys. -/
theorem mem_ofEntries_iff {entries : List (κ × α)} {entry : κ × α} :
    entry ∈ ofEntries entries ↔
      ∃ front behind, entries = front ++ entry :: behind ∧ entry.1 ∉ keys behind := by
  obtain ⟨key, value⟩ := entry
  constructor
  · intro hmem
    have hget := get?_eq_some_of_mem (nodup_ofEntries entries) hmem
    rw [get?_ofEntries] at hget
    obtain ⟨front, found, behind, hreverse, hfound, hfront⟩ := exists_append_of_get? hget
    cases eq_of_beq hfound
    refine ⟨behind.reverse, front.reverse, ?_, ?_⟩
    · rw [← List.reverse_reverse entries, hreverse]
      simp
    · rw [keys, List.map_reverse, List.mem_reverse]
      intro hkey
      obtain ⟨entry, hentry, heq⟩ := List.mem_map.mp hkey
      exact ne_of_beq_false (hfront entry hentry) heq
  · rintro ⟨front, behind, rfl, hbehind⟩
    refine mem_of_get?_eq_some ?_
    have hnone : ∀ entry ∈ behind.reverse, (entry.1 == key) = false := by
      intro entry hentry
      refine beq_false_of_ne fun heq => ?_
      have hkey : entry.1 ∈ keys behind := List.mem_map_of_mem (List.mem_reverse.mp hentry)
      rw [heq] at hkey
      exact hbehind hkey
    rw [get?_ofEntries, List.reverse_append, List.reverse_cons, List.append_assoc,
      get?_append_of_notMem hnone]
    exact if_pos (beq_self_eq_true key)

end PageManifest.OrderedMap
