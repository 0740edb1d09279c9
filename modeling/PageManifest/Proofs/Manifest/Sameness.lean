import PageManifest.Manifest.Reader
import PageManifest.Proofs.Json.Writing
import PageManifest.Proofs.Value.Sameness

/-!
# Sameness of page descriptions

Page descriptions are compared as trees in which the order of entries does not count, at any depth,
and everything else does. `same_iff_toJson_sorted` says this by their JSON texts, by permutations
and place by place. That equal texts come from equal trees is due to each text spelling one tree
only (`write_injective`), which holds at any depth, also where the reader gives up.
-/

namespace PageManifest

theorem Json.write_injective {v w : Value} (hv : v.WholeNumbers) (hw : w.WholeNumbers)
    (h : Json.write v = Json.write w) : v = w := by
  have hspelled := Json.spelled_write hv
  rw [h] at hspelled
  exact hspelled.unique (Json.spelled_write hw)

/-- Sorting the entries of mappings leaves all numbers as they are. -/
theorem Value.wholeNumbers_sorted_iff (v : Value) : v.sorted.WholeNumbers ↔ v.WholeNumbers := by
  induction v using Value.inductParts with
  | scalar v hscalar =>
    cases v with
    | sequence _ => exact hscalar.elim
    | mapping _ => exact hscalar.elim
    | _ => exact Iff.rfl
  | sequence items ih =>
    have hsorted : (sorted (.sequence items)).WholeNumbers ↔
        WholeNumbersItems (sortedItems items) := Iff.rfl
    rw [hsorted, wholeNumbersItems_iff, sortedItems_eq_map, List.forall_mem_map]
    exact (forall₂_congr ih).trans (wholeNumbersItems_iff items).symm
  | mapping entries ih =>
    have hsorted : (sorted (.mapping entries)).WholeNumbers ↔
        WholeNumbersEntries ((sortedEntries entries).mergeSort inKeyOrder) := Iff.rfl
    rw [hsorted, wholeNumbersEntries_iff]
    simp only [List.mem_mergeSort, sortedEntries_eq_map, List.forall_mem_map]
    exact (forall₂_congr ih).trans (wholeNumbersEntries_iff entries).symm

namespace Manifest

/-- A page description without floating-point numbers, each mapping of which has each key once. -/
structure IsExact (manifest : Manifest) : Prop where
  whole : manifest.toValue.WholeNumbers
  distinct : manifest.toValue.DistinctKeys

/-- A page description with the entries of every mapping in the order of their keys. -/
def sorted (manifest : Manifest) : Manifest :=
  ⟨(Value.sortedEntries manifest.entries).mergeSort Value.inKeyOrder⟩

theorem toValue_sorted (manifest : Manifest) :
    manifest.sorted.toValue = manifest.toValue.sorted := rfl

variable {a b c : Manifest}

theorem same_iff_sorted_eq (ha : a.IsExact) (hb : b.IsExact) :
    a.same b = true ↔ a.toValue.sorted = b.toValue.sorted :=
  Value.same_iff_sorted_eq ha.whole ha.distinct hb.distinct

theorem same_self (ha : a.IsExact) : a.same a = true := (same_iff_sorted_eq ha ha).mpr rfl

theorem same_comm (ha : a.IsExact) (hb : b.IsExact) : a.same b = b.same a := by
  rw [Bool.eq_iff_iff, same_iff_sorted_eq ha hb, same_iff_sorted_eq hb ha, eq_comm]

theorem same_trans (ha : a.IsExact) (hb : b.IsExact) (hc : c.IsExact) (hab : a.same b = true)
    (hbc : b.same c = true) : a.same c = true := by
  rw [same_iff_sorted_eq ha hb] at hab
  rw [same_iff_sorted_eq hb hc] at hbc
  exact (same_iff_sorted_eq ha hc).mpr (hab.trans hbc)

theorem same_iff_toJson_eq (ha : a.IsExact) (hb : b.IsExact) :
    a.same b = true ↔ a.sorted.toJson = b.sorted.toJson := by
  rw [same_iff_sorted_eq ha hb]
  constructor
  · intro h
    rw [toJson, toJson, toValue_sorted, toValue_sorted, h]
  · exact Json.write_injective ((Value.wholeNumbers_sorted_iff _).mpr ha.whole)
      ((Value.wholeNumbers_sorted_iff _).mpr hb.whole)

theorem isExact_of_rearranged (ha : a.IsExact) (h : Value.Rearranged a.toValue c.toValue) :
    c.IsExact ∧ a.same c = true := by
  obtain ⟨hdistinct, hsorted⟩ := h.sorted_eq ha.distinct
  have hwhole : c.toValue.WholeNumbers := by
    rw [← Value.wholeNumbers_sorted_iff, ← hsorted, Value.wholeNumbers_sorted_iff]
    exact ha.whole
  exact ⟨⟨hwhole, hdistinct⟩, (same_iff_sorted_eq ha ⟨hwhole, hdistinct⟩).mpr hsorted⟩

/-- Rearranging a page description makes no difference to what it is compared with. -/
theorem same_congr_rearranged (ha : a.IsExact) (hb : b.IsExact)
    (h : Value.Rearranged a.toValue c.toValue) : c.same b = a.same b ∧ b.same c = b.same a := by
  obtain ⟨hc, hsame⟩ := isExact_of_rearranged ha h
  have hleft : c.same b = a.same b := by
    rw [Bool.eq_iff_iff, same_iff_sorted_eq hc hb, same_iff_sorted_eq ha hb,
      (same_iff_sorted_eq ha hc).mp hsame]
  exact ⟨hleft, by rw [same_comm hb hc, same_comm hb ha, hleft]⟩

/-- In places where both hold a sequence, page descriptions that are the same hold the same items
in the same order. -/
theorem forall₂_same_of_same (ha : a.IsExact) (h : a.same b = true) {place : List Step}
    {xs ys : List Value} (hxs : Value.at? place a.toValue = some (.sequence xs))
    (hys : Value.at? place b.toValue = some (.sequence ys)) :
    List.Forall₂ (fun x y => x.same y = true) xs ys := by
  have hrel := Value.rel_at?_of_same ha.whole ha.distinct h place
  rw [hxs, hys] at hrel
  cases hrel with
  | some hsame => exact (Value.sameItems_iff xs ys).mp hsame.2.2

/-! ## Comparing page descriptions -/

/-- How a page description compares with another one. -/
structure Compared (a b : Manifest) : Prop where
  /-- The two are the same just if their texts are equal once all entries are in the order of their
  keys. -/
  texts : a.same b = true ↔ a.sorted.toJson = b.sorted.toJson
  /-- The two are the same just if entries can be permuted to get from one to the other. -/
  permutations : a.same b = true ↔ Value.Rearranged a.toValue b.toValue
  /-- The two are the same just if they agree place by place: in what scalars there are, in how
  many items sequences have, and in what keys mappings have. -/
  places : a.same b = true ↔
    ∀ place, Value.Alike (Value.at? place a.toValue) (Value.at? place b.toValue)
  /-- The order of items counts: if the items of two sequences in one place are not the same one by
  one, the two differ. -/
  items : ∀ place xs ys, Value.at? place a.toValue = some (.sequence xs) →
    Value.at? place b.toValue = some (.sequence ys) →
      ¬ List.Forall₂ (fun x y => x.same y = true) xs ys → a.same b = false
  self : a.same a = true
  comm : a.same b = b.same a
  trans : ∀ c : Manifest, c.IsExact → a.same b = true → b.same c = true → a.same c = true
  /-- Permuting the entries of mappings in one of the two makes no difference. -/
  rearranged : ∀ c : Manifest, Value.Rearranged a.toValue c.toValue →
    c.same b = a.same b ∧ b.same c = b.same a

/-- Page descriptions without floating-point numbers are compared up to the order of entries, at
every depth. -/
theorem same_iff_toJson_sorted (a b : Manifest) (ha : a.IsExact) (hb : b.IsExact) :
    Compared a b where
  texts := same_iff_toJson_eq ha hb
  permutations := Value.same_iff_rearranged ha.whole ha.distinct hb.distinct
  places := Value.same_iff_alike ha.whole ha.distinct hb.distinct
  items place xs ys hxs hys hitems := by
    rw [← Bool.not_eq_true]
    exact fun h => hitems (forall₂_same_of_same ha h hxs hys)
  self := same_self ha
  comm := same_comm ha hb
  trans c hc := same_trans ha hb hc
  rearranged c := same_congr_rearranged ha hb

/-- Mappings in a sequence in a mapping. -/
def nested : Manifest :=
  ⟨[("m", .sequence [.mapping [("x", .number (.int 1)), ("y", .null)], .bool true]),
    ("k", .string "1")]⟩

/-- The same with the entries of both levels the other way round. -/
def turned : Manifest :=
  ⟨[("k", .string "1"),
    ("m", .sequence [.mapping [("y", .null), ("x", .number (.int 1))], .bool true])]⟩

theorem same_iff_toJson_sorted_turned :
    nested.IsExact ∧ turned.IsExact ∧ Compared nested turned ∧ nested.same turned = true := by
  have hnested : nested.IsExact := by
    constructor <;> simp [nested, toValue, Value.WholeNumbers, Value.WholeNumbersEntries,
      Value.WholeNumbersItems, Number.leastInt, Number.greatestInt, Value.DistinctKeys,
      Value.DistinctKeysEntries, Value.DistinctKeysItems]
  have hturned : turned.IsExact := by
    constructor <;> simp [turned, toValue, Value.WholeNumbers, Value.WholeNumbersEntries,
      Value.WholeNumbersItems, Number.leastInt, Number.greatestInt, Value.DistinctKeys,
      Value.DistinctKeysEntries, Value.DistinctKeysItems]
  exact ⟨hnested, hturned, same_iff_toJson_sorted nested turned hnested hturned, by decide⟩

/-- A number, a string of its digits and a truth value are three things. -/
example : Manifest.same ⟨[("a", .number (.int 1))]⟩ ⟨[("a", .string "1")]⟩ = false ∧
    Manifest.same ⟨[("a", .number (.int 1))]⟩ ⟨[("a", .bool true)]⟩ = false := by decide

end Manifest

end PageManifest
