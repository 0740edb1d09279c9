import PageManifest.Proofs.OrderedMap
import PageManifest.Value.Basic

/-!
# Distinct keys

A tree of values in which a key may stand more than once is settled by its last occurrences: a
key stays where it comes first and has what comes last, in every mapping of the tree
(`settled_mapping`). All keys of what is settled are distinct (`distinctKeys_settled`).
-/

namespace PageManifest

namespace Value

/-! ## Settled keys -/

mutual

/-- The value of a tree in which keys may repeat. -/
def settled : Value → Value
  | .sequence items => .sequence (settledItems items)
  | .mapping entries => .mapping (OrderedMap.ofEntries (settledEntries entries))
  | v => v

/-- The values of some trees. -/
def settledItems : List Value → List Value
  | [] => []
  | item :: items => item.settled :: settledItems items

/-- The entries of a mapping with the values of their trees, as they are written. -/
def settledEntries : List (String × Value) → List (String × Value)
  | [] => []
  | (key, item) :: entries => (key, item.settled) :: settledEntries entries

end

theorem settledEntries_eq_map (entries : List (String × Value)) :
    settledEntries entries = entries.map fun entry => (entry.1, entry.2.settled) := by
  induction entries with
  | nil => rfl
  | cons entry entries ih => rw [settledEntries, ih, List.map_cons]

theorem settledItems_eq_map (items : List Value) : settledItems items = items.map settled := by
  induction items with
  | nil => rfl
  | cons item items ih => rw [settledItems, ih, List.map_cons]

theorem get?_map_settled (entries : List (String × Value)) (key : String) :
    OrderedMap.get? (entries.map fun entry => (entry.1, entry.2.settled)) key =
      (OrderedMap.get? entries key).map settled := by
  induction entries with
  | nil => rfl
  | cons entry entries ih =>
    obtain ⟨name, item⟩ := entry
    rw [List.map_cons, OrderedMap.get?_cons, OrderedMap.get?_cons, ih]
    split
    · rfl
    · rfl

/-- Each key of a mapping stays where it comes first, and has what comes last under it. -/
theorem settled_mapping (entries : List (String × Value)) :
    ∃ kept, settled (.mapping entries) = .mapping kept ∧
      OrderedMap.keys kept = (OrderedMap.keys entries).eraseDups ∧
      ∀ key, OrderedMap.get? kept key = (OrderedMap.get? entries.reverse key).map settled := by
  refine ⟨OrderedMap.ofEntries (settledEntries entries), rfl, ?_, ?_⟩
  · rw [OrderedMap.keys_ofEntries, settledEntries_eq_map]
    simp [OrderedMap.keys, Function.comp_def]
  · intro key
    rw [OrderedMap.get?_ofEntries, settledEntries_eq_map, ← List.map_reverse, get?_map_settled]

theorem distinctKeysItems_iff (items : List Value) :
    DistinctKeysItems items ↔ ∀ item ∈ items, item.DistinctKeys := by
  induction items with
  | nil => simp [DistinctKeysItems]
  | cons item items ih => rw [DistinctKeysItems, ih, List.forall_mem_cons]

theorem distinctKeysEntries_iff (entries : List (String × Value)) :
    DistinctKeysEntries entries ↔ ∀ entry ∈ entries, entry.2.DistinctKeys := by
  induction entries with
  | nil => simp [DistinctKeysEntries]
  | cons entry entries ih => rw [DistinctKeysEntries, ih, List.forall_mem_cons]

/-- An ordered map of values with distinct keys has distinct keys at every depth. -/
theorem distinctKeys_ofEntries {entries : List (String × Value)}
    (h : DistinctKeysEntries entries) :
    DistinctKeys (.mapping (OrderedMap.ofEntries entries)) := by
  rw [distinctKeysEntries_iff] at h
  refine ⟨OrderedMap.nodup_ofEntries entries, (distinctKeysEntries_iff _).mpr ?_⟩
  exact fun entry hmem => h entry (OrderedMap.mem_of_mem_ofEntries hmem)

mutual

theorem distinctKeys_settled (v : Value) : v.settled.DistinctKeys := by
  match v with
  | .null | .bool _ | .number _ | .string _ => exact trivial
  | .sequence items => exact distinctKeys_settledItems items
  | .mapping entries => exact distinctKeys_ofEntries (distinctKeys_settledEntries entries)

theorem distinctKeys_settledItems (items : List Value) :
    DistinctKeysItems (settledItems items) := by
  match items with
  | [] => exact trivial
  | item :: items => exact ⟨distinctKeys_settled item, distinctKeys_settledItems items⟩

theorem distinctKeys_settledEntries (entries : List (String × Value)) :
    DistinctKeysEntries (settledEntries entries) := by
  match entries with
  | [] => exact trivial
  | (_, item) :: entries =>
    exact ⟨distinctKeys_settled item, distinctKeys_settledEntries entries⟩

end

end Value

end PageManifest
