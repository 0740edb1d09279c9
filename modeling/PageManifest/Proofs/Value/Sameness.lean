import Mathlib.Data.List.Nodup
import Mathlib.Data.List.Perm.Subperm
import PageManifest.Proofs.Json.RoundTrip
import PageManifest.Proofs.Value.Keys
import PageManifest.Proofs.Value.Places

/-!
# Sameness of values

Two values are the same if they differ in the order of mapping entries only. This is said in three
ways, for values whose keys are distinct and whose numbers are whole: they are equal once the
entries of all mappings are sorted (`same_iff_sorted_eq`), one comes from the other by permuting
entries (`same_iff_rearranged`), and at each place that one can go to both hold alike things
(`same_iff_alike`).

The comparison looks up the entries of one mapping in the other. That this is no one-sided matter
is due to the keys being distinct and as many (`same_mapping_iff`).
-/

namespace PageManifest

namespace Value

/-! ## Parts of values -/

/-- What holds of a value as soon as it holds of the values in it, holds of every value. -/
theorem inductParts {P : Value → Prop} (scalar : ∀ v, v.IsScalar → P v)
    (sequence : ∀ items, (∀ item ∈ items, P item) → P (.sequence items))
    (mapping : ∀ entries, (∀ entry ∈ entries, P entry.2) → P (.mapping entries)) (v : Value) :
    P v := by
  cases v with
  | sequence items => exact sequence items fun item _ => inductParts scalar sequence mapping item
  | mapping entries =>
    exact mapping entries fun entry _ => inductParts scalar sequence mapping entry.2
  | _ => exact scalar _ trivial
termination_by v
decreasing_by
  · have hitem := List.sizeOf_lt_of_mem ‹item ∈ items›
    rw [Value.sequence.sizeOf_spec]
    omega
  · have hentry := List.sizeOf_lt_of_mem ‹entry ∈ entries›
    have hparts : sizeOf entry = 1 + sizeOf entry.1 + sizeOf entry.2 := rfl
    rw [Value.mapping.sizeOf_spec]
    omega

theorem wholeNumbersItems_iff (items : List Value) :
    WholeNumbersItems items ↔ ∀ item ∈ items, item.WholeNumbers := by
  induction items with
  | nil => simp [WholeNumbersItems]
  | cons item items ih => rw [WholeNumbersItems, ih, List.forall_mem_cons]

theorem wholeNumbersEntries_iff (entries : List (String × Value)) :
    WholeNumbersEntries entries ↔ ∀ entry ∈ entries, entry.2.WholeNumbers := by
  induction entries with
  | nil => simp [WholeNumbersEntries]
  | cons entry entries ih => rw [WholeNumbersEntries, ih, List.forall_mem_cons]

theorem sameItems_iff (xs ys : List Value) :
    sameItems xs ys = true ↔ List.Forall₂ (fun x y => x.same y = true) xs ys := by
  induction xs generalizing ys with
  | nil => cases ys <;> simp [sameItems]
  | cons x xs ih => cases ys <;> simp [sameItems, ih]

/-! ## Sorted entries -/

/-- Whether an entry may stand in front of another one in the order of their keys. -/
def inKeyOrder (a b : String × Value) : Bool := decide (a.1 ≤ b.1)

mutual

/-- A value with the entries of every mapping in the order of their keys. -/
def sorted : Value → Value
  | .sequence items => .sequence (sortedItems items)
  | .mapping entries => .mapping ((sortedEntries entries).mergeSort inKeyOrder)
  | v => v

/-- The items of a list, each one sorted. -/
def sortedItems : List Value → List Value
  | [] => []
  | item :: items => item.sorted :: sortedItems items

/-- The entries of a mapping in their places, the value of each one sorted. -/
def sortedEntries : List (String × Value) → List (String × Value)
  | [] => []
  | (key, item) :: entries => (key, item.sorted) :: sortedEntries entries

end

theorem sortedItems_eq_map (items : List Value) : sortedItems items = items.map sorted := by
  induction items with
  | nil => rfl
  | cons item items ih => rw [sortedItems, ih, List.map_cons]

theorem sortedEntries_eq_map (entries : List (String × Value)) :
    sortedEntries entries = entries.map fun entry => (entry.1, entry.2.sorted) := by
  induction entries with
  | nil => rfl
  | cons entry entries ih => rw [sortedEntries, ih, List.map_cons]

theorem keys_sortedEntries (entries : List (String × Value)) :
    OrderedMap.keys (sortedEntries entries) = OrderedMap.keys entries := by
  rw [sortedEntries_eq_map, OrderedMap.keys, List.map_map]
  rfl

theorem nodup_of_nodup_keys {entries : List (String × Value)}
    (h : (OrderedMap.keys entries).Nodup) : entries.Nodup := List.Nodup.of_map Prod.fst h

theorem pairwise_inKeyOrder (entries : List (String × Value)) :
    (entries.mergeSort inKeyOrder).Pairwise fun a b => inKeyOrder a b = true := by
  refine List.pairwise_mergeSort (fun a b c hab hbc => ?_) (fun a b => ?_) entries
  · rw [inKeyOrder, decide_eq_true_eq] at *
    exact String.le_trans hab hbc
  · rw [Bool.or_eq_true, inKeyOrder, inKeyOrder, decide_eq_true_eq, decide_eq_true_eq]
    exact String.le_total a.1 b.1

/-- In the order of distinct keys entries can stand in one way only. -/
theorem mergeSort_inKeyOrder_eq_iff {xs ys : List (String × Value)}
    (hys : (OrderedMap.keys ys).Nodup) :
    xs.mergeSort inKeyOrder = ys.mergeSort inKeyOrder ↔ xs.Perm ys := by
  constructor
  · intro h
    exact ((List.mergeSort_perm xs inKeyOrder).symm.trans (h ▸ .refl _)).trans
      (List.mergeSort_perm ys inKeyOrder)
  · intro h
    have hperm := ((List.mergeSort_perm xs inKeyOrder).trans h).trans
      (List.mergeSort_perm ys inKeyOrder).symm
    refine hperm.eq_of_pairwise (fun a b ha hb hab hba => ?_) (pairwise_inKeyOrder xs)
      (pairwise_inKeyOrder ys)
    rw [inKeyOrder, decide_eq_true_eq] at hab hba
    have hmem : a ∈ ys := h.mem_iff.mp ((List.mergeSort_perm xs inKeyOrder).mem_iff.mp ha)
    have hmem' : b ∈ ys := (List.mergeSort_perm ys inKeyOrder).mem_iff.mp hb
    exact List.inj_on_of_nodup_map hys hmem hmem' (String.le_antisymm hab hba)

/-! ## Mappings -/

theorem sameEntries_iff (xs ys : List (String × Value)) :
    sameEntries xs ys = true ↔
      ∀ entry ∈ xs, ∃ y, OrderedMap.get? ys entry.1 = some y ∧ entry.2.same y = true := by
  induction xs with
  | nil => simp [sameEntries]
  | cons entry xs ih =>
    obtain ⟨key, x⟩ := entry
    rw [sameEntries, Bool.and_eq_true, ih, List.forall_mem_cons]
    cases OrderedMap.get? ys key with
    | none => simp
    | some y => simp

theorem same_mapping_iff (xs ys : List (String × Value)) :
    same (.mapping xs) (.mapping ys) = true ↔
      xs.length = ys.length ∧
        ∀ entry ∈ xs, ∃ y, OrderedMap.get? ys entry.1 = some y ∧ entry.2.same y = true := by
  rw [same, Bool.and_eq_true, beq_iff_eq, sameEntries_iff]

/-- If each entry of one mapping is found in another one with as many entries, all entries are
found: the keys being distinct, none of them is found twice. -/
theorem perm_of_lookups {f : String × Value → String × Value} (hf : ∀ entry, (f entry).1 = entry.1)
    {xs ys : List (String × Value)} (hxs : (OrderedMap.keys xs).Nodup)
    (hlength : xs.length = ys.length)
    (hfound : ∀ entry ∈ xs, ∃ y, OrderedMap.get? ys entry.1 = some y ∧ f entry = f (entry.1, y)) :
    (xs.map f).Perm (ys.map f) := by
  have hkeys : OrderedMap.keys (xs.map f) = OrderedMap.keys xs := by
    simp [OrderedMap.keys, Function.comp_def, hf]
  have hsubset : xs.map f ⊆ ys.map f := by
    intro found hmem
    obtain ⟨entry, hentry, rfl⟩ := List.mem_map.mp hmem
    obtain ⟨y, hget, hy⟩ := hfound entry hentry
    exact hy ▸ List.mem_map_of_mem (OrderedMap.mem_of_get?_eq_some hget)
  refine (List.subperm_of_subset (nodup_of_nodup_keys (hkeys ▸ hxs)) hsubset).perm_of_length_le ?_
  rw [List.length_map, List.length_map]
  exact Nat.le_of_eq hlength.symm

/-- Mappings are the same if their sorted forms are equal, provided that this is so for the values
in them. -/
theorem same_mapping_iff_sorted_eq {xs ys : List (String × Value)}
    (hxs : (OrderedMap.keys xs).Nodup) (hys : (OrderedMap.keys ys).Nodup)
    (hvalues : ∀ entry ∈ xs, ∀ other ∈ ys,
      entry.2.same other.2 = true ↔ entry.2.sorted = other.2.sorted) :
    same (.mapping xs) (.mapping ys) = true ↔
      sorted (.mapping xs) = sorted (.mapping ys) := by
  have hys' : (OrderedMap.keys (sortedEntries ys)).Nodup := keys_sortedEntries ys ▸ hys
  rw [same_mapping_iff, sorted, sorted, Value.mapping.injEq, mergeSort_inKeyOrder_eq_iff hys',
    sortedEntries_eq_map, sortedEntries_eq_map]
  constructor
  · rintro ⟨hlength, hfound⟩
    refine perm_of_lookups (f := fun entry => (entry.1, entry.2.sorted)) (fun _ => rfl) hxs hlength
      fun entry hentry => ?_
    obtain ⟨y, hget, hsame⟩ := hfound entry hentry
    have hsorted := (hvalues entry hentry _ (OrderedMap.mem_of_get?_eq_some hget)).mp hsame
    exact ⟨y, hget, congrArg (entry.1, ·) hsorted⟩
  · intro hperm
    refine ⟨by simpa using hperm.length_eq, fun entry hentry => ?_⟩
    obtain ⟨⟨key, y⟩, hmem, heq⟩ :=
      List.mem_map.mp (hperm.mem_iff.mp (List.mem_map_of_mem hentry))
    obtain ⟨rfl, hsorted⟩ := Prod.mk.inj heq
    exact ⟨y, OrderedMap.get?_eq_some_of_mem hys hmem, (hvalues entry hentry _ hmem).mpr hsorted.symm⟩

/-! ## Sameness is equality of sorted forms -/

theorem sameItems_iff_sortedItems_eq {xs ys : List Value}
    (hvalues : ∀ x ∈ xs, ∀ y ∈ ys, x.same y = true ↔ x.sorted = y.sorted) :
    sameItems xs ys = true ↔ sortedItems xs = sortedItems ys := by
  induction xs generalizing ys with
  | nil => cases ys <;> simp [sameItems, sortedItems]
  | cons x xs ih =>
    cases ys with
    | nil => simp [sameItems, sortedItems]
    | cons y ys =>
      have hothers := ih fun x hx y hy =>
        hvalues x (List.mem_cons_of_mem _ hx) y (List.mem_cons_of_mem _ hy)
      rw [sameItems, Bool.and_eq_true, hvalues x List.mem_cons_self y List.mem_cons_self, hothers,
        sortedItems, sortedItems, List.cons.injEq]

theorem same_iff_sorted_eq {v w : Value} (hwhole : v.WholeNumbers) (hv : v.DistinctKeys)
    (hw : w.DistinctKeys) : v.same w = true ↔ v.sorted = w.sorted := by
  induction v using inductParts generalizing w with
  | scalar v hscalar =>
    match v with
    | .null | .bool _ | .string _ => cases w <;> simp [same, sorted]
    | .number (.float _) => exact hwhole.elim
    | .number (.int _) =>
      cases w with
      | number n => cases n <;> simp [same, Number.same, sorted]
      | _ => simp [same, sorted]
  | sequence xs ih =>
    cases w with
    | sequence ys =>
      rw [same, sorted, sorted, Value.sequence.injEq]
      refine sameItems_iff_sortedItems_eq fun x hx y hy => ?_
      exact ih x hx ((wholeNumbersItems_iff xs).mp hwhole x hx)
        ((distinctKeysItems_iff xs).mp hv x hx) ((distinctKeysItems_iff ys).mp hw y hy)
    | _ => simp [same, sorted]
  | mapping xs ih =>
    cases w with
    | mapping ys =>
      refine same_mapping_iff_sorted_eq hv.1 hw.1 fun entry hentry other hother => ?_
      exact ih entry hentry ((wholeNumbersEntries_iff xs).mp hwhole entry hentry)
        ((distinctKeysEntries_iff xs).mp hv.2 entry hentry)
        ((distinctKeysEntries_iff ys).mp hw.2 other hother)
    | _ => simp [same, sorted]

/-! ## Sameness is rearrangement -/

/-- One value comes from another by permuting the entries of mappings, one mapping after the other,
at any depth. -/
inductive Rearranged : Value → Value → Prop
  | refl (v : Value) : Rearranged v v
  | trans {u v w : Value} (huv : Rearranged u v) (hvw : Rearranged v w) : Rearranged u w
  | entries {xs ys : List (String × Value)} (h : xs.Perm ys) :
      Rearranged (.mapping xs) (.mapping ys)
  | item {v w : Value} (front behind : List Value) (h : Rearranged v w) :
      Rearranged (.sequence (front ++ v :: behind)) (.sequence (front ++ w :: behind))
  | entry {v w : Value} (front behind : List (String × Value)) (key : String)
      (h : Rearranged v w) :
      Rearranged (.mapping (front ++ (key, v) :: behind)) (.mapping (front ++ (key, w) :: behind))

theorem Rearranged.symm {v w : Value} (h : Rearranged v w) : Rearranged w v := by
  induction h with
  | refl v => exact .refl v
  | trans _ _ huv hvw => exact hvw.trans huv
  | entries h => exact .entries h.symm
  | item front behind _ ih => exact .item front behind ih
  | entry front behind key _ ih => exact .entry front behind key ih

/-- A value whose keys are distinct still has distinct keys when it is rearranged, and the same
sorted form. -/
theorem Rearranged.sorted_eq {v w : Value} (h : Rearranged v w) (hv : v.DistinctKeys) :
    w.DistinctKeys ∧ v.sorted = w.sorted := by
  induction h with
  | refl v => exact ⟨hv, rfl⟩
  | trans _ _ huv hvw =>
    obtain ⟨hmiddle, heq⟩ := huv hv
    obtain ⟨hlast, heq'⟩ := hvw hmiddle
    exact ⟨hlast, heq.trans heq'⟩
  | @entries xs ys h =>
    have hperm : (OrderedMap.keys xs).Perm (OrderedMap.keys ys) := h.map Prod.fst
    have hys : (OrderedMap.keys ys).Nodup := hperm.nodup_iff.mp hv.1
    refine ⟨⟨hys, (distinctKeysEntries_iff ys).mpr fun entry hentry => ?_⟩, ?_⟩
    · exact (distinctKeysEntries_iff xs).mp hv.2 entry (h.mem_iff.mpr hentry)
    · rw [sorted, sorted, Value.mapping.injEq,
        mergeSort_inKeyOrder_eq_iff (keys_sortedEntries ys ▸ hys), sortedEntries_eq_map,
        sortedEntries_eq_map]
      exact h.map _
  | item front behind _ ih =>
    have hitems := (distinctKeysItems_iff _).mp hv
    rw [List.forall_mem_append, List.forall_mem_cons] at hitems
    obtain ⟨hitem, heq⟩ := ih hitems.2.1
    refine ⟨(distinctKeysItems_iff _).mpr ?_, ?_⟩
    · rw [List.forall_mem_append, List.forall_mem_cons]
      exact ⟨hitems.1, hitem, hitems.2.2⟩
    · simp [sorted, sortedItems_eq_map, heq]
  | entry front behind key _ ih =>
    have hentries := (distinctKeysEntries_iff _).mp hv.2
    rw [List.forall_mem_append, List.forall_mem_cons] at hentries
    obtain ⟨hitem, heq⟩ := ih hentries.2.1
    refine ⟨⟨?_, (distinctKeysEntries_iff _).mpr ?_⟩, ?_⟩
    · simpa [OrderedMap.keys] using hv.1
    · rw [List.forall_mem_append, List.forall_mem_cons]
      exact ⟨hentries.1, hitem, hentries.2.2⟩
    · simp [sorted, sortedEntries_eq_map, heq]

mutual

theorem rearranged_sorted (v : Value) : Rearranged v v.sorted := by
  match v with
  | .null | .bool _ | .number _ | .string _ => exact .refl _
  | .sequence items => exact rearranged_sortedItems [] items
  | .mapping entries =>
    exact (rearranged_sortedEntries [] entries).trans
      (.entries (List.mergeSort_perm _ inKeyOrder).symm)

/-- The items in front have been sorted before. -/
theorem rearranged_sortedItems (front items : List Value) :
    Rearranged (.sequence (front ++ items)) (.sequence (front ++ sortedItems items)) := by
  match items with
  | [] => exact .refl _
  | item :: items =>
    have hitem : Rearranged (.sequence (front ++ item :: items))
        (.sequence (front ++ item.sorted :: items)) :=
      .item front items (rearranged_sorted item)
    have hitems := rearranged_sortedItems (front ++ [item.sorted]) items
    rw [List.append_assoc, List.append_assoc] at hitems
    exact hitem.trans hitems

theorem rearranged_sortedEntries (front entries : List (String × Value)) :
    Rearranged (.mapping (front ++ entries)) (.mapping (front ++ sortedEntries entries)) := by
  match entries with
  | [] => exact .refl _
  | (key, item) :: entries =>
    have hentry : Rearranged (.mapping (front ++ (key, item) :: entries))
        (.mapping (front ++ (key, item.sorted) :: entries)) :=
      .entry front entries key (rearranged_sorted item)
    have hentries := rearranged_sortedEntries (front ++ [(key, item.sorted)]) entries
    rw [List.append_assoc, List.append_assoc] at hentries
    exact hentry.trans hentries

end

theorem same_iff_rearranged {v w : Value} (hwhole : v.WholeNumbers) (hv : v.DistinctKeys)
    (hw : w.DistinctKeys) : v.same w = true ↔ Rearranged v w := by
  rw [same_iff_sorted_eq hwhole hv hw]
  constructor
  · intro h
    exact (rearranged_sorted v).trans (h ▸ (rearranged_sorted w).symm)
  · intro h
    exact (h.sorted_eq hv).2

/-! ## Sameness place by place -/

/-- What is at a place of one value and of another is alike, whatever is below it: nothing at all,
one and the same scalar, sequences of one length, or mappings with the same keys. -/
inductive Alike : Option Value → Option Value → Prop
  | nothing : Alike none none
  | scalar {v : Value} (h : v.IsScalar) : Alike (some v) (some v)
  | sequences {xs ys : List Value} (h : xs.length = ys.length) :
      Alike (some (.sequence xs)) (some (.sequence ys))
  | mappings {xs ys : List (String × Value)}
      (h : ∀ key, key ∈ OrderedMap.keys xs ↔ key ∈ OrderedMap.keys ys) :
      Alike (some (.mapping xs)) (some (.mapping ys))

theorem eq_of_same_of_isScalar {v w : Value} (hwhole : v.WholeNumbers) (h : v.IsScalar)
    (hsame : v.same w = true) : w = v := by
  match v with
  | .null | .bool _ | .string _ => cases w <;> simp_all [same]
  | .number (.float _) => exact hwhole.elim
  | .number (.int _) =>
    cases w with
    | number n => cases n <;> simp_all [same, Number.same]
    | _ => simp [same] at hsame

/-- Mappings that are the same have the same keys. -/
theorem keys_perm_of_same {xs ys : List (String × Value)} (hxs : (OrderedMap.keys xs).Nodup)
    (h : same (.mapping xs) (.mapping ys) = true) :
    (OrderedMap.keys xs).Perm (OrderedMap.keys ys) := by
  obtain ⟨hlength, hfound⟩ := (same_mapping_iff xs ys).mp h
  have hperm := perm_of_lookups (f := fun entry => (entry.1, .null)) (fun _ => rfl) hxs hlength
    fun entry hentry => (hfound entry hentry).imp fun y hy => ⟨hy.1, rfl⟩
  simpa [OrderedMap.keys, Function.comp_def] using hperm.map Prod.fst

/-- Under each key, mappings that are the same hold the same or nothing. -/
theorem rel_get?_of_same {xs ys : List (String × Value)} (hxs : (OrderedMap.keys xs).Nodup)
    (h : same (.mapping xs) (.mapping ys) = true) (key : String) :
    Option.Rel (fun x y => same x y = true) (OrderedMap.get? xs key) (OrderedMap.get? ys key) := by
  cases hget : OrderedMap.get? xs key with
  | none =>
    rw [OrderedMap.get?_eq_none_iff, (keys_perm_of_same hxs h).mem_iff,
      ← OrderedMap.get?_eq_none_iff] at hget
    rw [hget]
    exact .none
  | some x =>
    obtain ⟨y, hy, hsame⟩ :=
      ((same_mapping_iff xs ys).mp h).2 _ (OrderedMap.mem_of_get?_eq_some hget)
    rw [hy]
    exact .some hsame

theorem rel_getElem?_of_same {xs ys : List Value} (h : sameItems xs ys = true) (index : Nat) :
    Option.Rel (fun x y => same x y = true) xs[index]? ys[index]? := by
  rw [sameItems_iff] at h
  induction h generalizing index with
  | nil => exact .none
  | cons hsame _ ih =>
    cases index with
    | zero => exact .some hsame
    | succ index => exact ih index

theorem rel_child?_of_same {v w : Value} (hwhole : v.WholeNumbers) (hv : v.DistinctKeys)
    (h : v.same w = true) (step : Step) :
    Option.Rel (fun x y => same x y = true) (child? step v) (child? step w) := by
  cases v with
  | sequence xs =>
    cases w with
    | sequence ys =>
      cases step with
      | item index => exact rel_getElem?_of_same h index
      | key key => exact .none
    | _ => simp [same] at h
  | mapping xs =>
    cases w with
    | mapping ys =>
      cases step with
      | item index => exact .none
      | key key => exact rel_get?_of_same hv.1 h key
    | _ => simp [same] at h
  | null | bool _ | number _ | string _ =>
    rw [eq_of_same_of_isScalar hwhole trivial h, child?_of_isScalar (by exact trivial)]
    exact .none

/-- What a value holds has whole numbers and distinct keys as the value has. -/
theorem exact_child? {v x : Value} {step : Step} (h : child? step v = some x)
    (hwhole : v.WholeNumbers) (hv : v.DistinctKeys) : x.WholeNumbers ∧ x.DistinctKeys := by
  unfold child? at h
  split at h
  · have hmem := List.mem_of_getElem? h
    exact ⟨(wholeNumbersItems_iff _).mp hwhole x hmem, (distinctKeysItems_iff _).mp hv x hmem⟩
  · have hmem := OrderedMap.mem_of_get?_eq_some h
    exact ⟨(wholeNumbersEntries_iff _).mp hwhole _ hmem,
      (distinctKeysEntries_iff _).mp hv.2 _ hmem⟩
  · cases h

/-- Values that are the same hold the same or nothing at each place, by induction on the steps that
lead there. -/
theorem rel_at?_of_same {v w : Value} (hwhole : v.WholeNumbers) (hv : v.DistinctKeys)
    (h : v.same w = true) (place : List Step) :
    Option.Rel (fun x y => x.WholeNumbers ∧ x.DistinctKeys ∧ same x y = true)
      (at? place v) (at? place w) := by
  induction place generalizing v w with
  | nil => exact .some ⟨hwhole, hv, h⟩
  | cons step place ih =>
    have hrel := rel_child?_of_same hwhole hv h step
    rw [at?_cons, at?_cons]
    generalize hx : child? step v = x at hrel
    generalize child? step w = y at hrel
    cases hrel with
    | none => exact .none
    | some hsame =>
      obtain ⟨hwhole', hv'⟩ := exact_child? hx hwhole hv
      exact ih hwhole' hv' hsame

theorem alike_of_same {v w : Value} (hwhole : v.WholeNumbers) (hv : v.DistinctKeys)
    (h : v.same w = true) : Alike (some v) (some w) := by
  cases v with
  | sequence xs =>
    cases w with
    | sequence ys => exact .sequences ((sameItems_iff xs ys).mp h).length_eq
    | _ => simp [same] at h
  | mapping xs =>
    cases w with
    | mapping ys => exact .mappings fun _ => (keys_perm_of_same hv.1 h).mem_iff
    | _ => simp [same] at h
  | null | bool _ | number _ | string _ =>
    rw [eq_of_same_of_isScalar hwhole trivial h]
    exact .scalar trivial

/-- What is alike at each place is the same: from each value one gets to the values in it, so this
is by induction on the parts. -/
theorem same_of_alike {v w : Value} (hwhole : v.WholeNumbers) (hv : v.DistinctKeys)
    (hw : w.DistinctKeys) (h : ∀ place, Alike (at? place v) (at? place w)) : v.same w = true := by
  induction v using inductParts generalizing w with
  | scalar v hscalar =>
    have hroot : Alike (some v) (some w) := h []
    cases hroot with
    | sequences => exact hscalar.elim
    | mappings => exact hscalar.elim
    | scalar => exact (same_iff_sorted_eq hwhole hv hw).mpr rfl
  | sequence xs ih =>
    have hroot : Alike (some (.sequence xs)) (some w) := h []
    cases hroot with
    | scalar hscalar => exact hscalar.elim
    | @sequences _ ys hlength =>
      rw [same, sameItems_iff, List.forall₂_iff_get]
      refine ⟨hlength, fun index hx hy => ?_⟩
      have hmem := List.get_mem xs ⟨index, hx⟩
      refine ih _ hmem ((wholeNumbersItems_iff xs).mp hwhole _ hmem)
        ((distinctKeysItems_iff xs).mp hv _ hmem)
        ((distinctKeysItems_iff ys).mp hw _ (List.get_mem ys ⟨index, hy⟩)) fun place => ?_
      have hbelow := h (.item index :: place)
      rw [at?_cons, at?_cons, child?, child?, List.getElem?_eq_getElem hx,
        List.getElem?_eq_getElem hy] at hbelow
      exact hbelow
  | mapping xs ih =>
    have hroot : Alike (some (.mapping xs)) (some w) := h []
    cases hroot with
    | scalar hscalar => exact hscalar.elim
    | @mappings _ ys hkeys =>
      have hperm := (List.perm_ext_iff_of_nodup hv.1 hw.1).mpr hkeys
      refine (same_mapping_iff xs ys).mpr ⟨?_, fun entry hentry => ?_⟩
      · simpa [OrderedMap.keys] using hperm.length_eq
      · obtain ⟨⟨key, y⟩, hmem, rfl⟩ :=
          List.mem_map.mp ((hkeys entry.1).mp (List.mem_map_of_mem hentry))
        have hy := OrderedMap.get?_eq_some_of_mem hw.1 hmem
        refine ⟨y, hy, ih entry hentry ((wholeNumbersEntries_iff xs).mp hwhole entry hentry)
          ((distinctKeysEntries_iff xs).mp hv.2 entry hentry)
          ((distinctKeysEntries_iff ys).mp hw.2 _ hmem) fun place => ?_⟩
        have hbelow := h (.key entry.1 :: place)
        rw [at?_cons, at?_cons, child?, child?, OrderedMap.get?_eq_some_of_mem hv.1 hentry, hy] at hbelow
        exact hbelow

theorem same_iff_alike {v w : Value} (hwhole : v.WholeNumbers) (hv : v.DistinctKeys)
    (hw : w.DistinctKeys) :
    v.same w = true ↔ ∀ place, Alike (at? place v) (at? place w) := by
  refine ⟨fun h place => ?_, same_of_alike hwhole hv hw⟩
  have hrel := rel_at?_of_same hwhole hv h place
  generalize at? place v = x at hrel
  generalize at? place w = y at hrel
  cases hrel with
  | none => exact .nothing
  | some hsame => exact alike_of_same hsame.1 hsame.2.1 hsame.2.2

end Value

end PageManifest
