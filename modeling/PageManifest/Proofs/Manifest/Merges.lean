import PageManifest.Proofs.Manifest.Keys
import PageManifest.Proofs.Yaml.Merges

/-!
# Merges in page descriptions

Merge keys are resolved from the outside to the inside, each once. A mapping that is lent with a
merge key of its own hands this on as it is, and it stays (`merge_keys_left`). To remove a merge
key means to put the last entry in its place, so keys are in the order of the text only where at
most one is written behind it (`keys_arranged`).
-/

namespace PageManifest.Manifest

open Yaml

variable {text : String} {manifest : Manifest}

/-- A page description that is not empty is what the tree of its text is read as. -/
theorem exists_reads_of_ofYaml (h : ofYaml text = .ok manifest) :
    manifest = empty ∨
      ∃ root, Spelled text root ∧ ¬ root.RepeatsKey ∧ Reads root manifest.toValue := by
  rcases ofYaml_cases h with rfl | ⟨value, hread, h⟩
  · exact Or.inl rfl
  · cases value with
    | null =>
      cases h
      exact Or.inl rfl
    | mapping entries =>
      cases h
      exact Or.inr (exists_reads_of_read hread)
    | _ => cases h

theorem exists_ofYaml {check : Manifest → Bool}
    (h : (ofYaml text).toOption.any check = true) :
    ∃ manifest, ofYaml text = .ok manifest ∧ check manifest = true := by
  cases hread : ofYaml text with
  | ok manifest =>
    rw [hread] at h
    exact ⟨manifest, rfl, h⟩
  | error error =>
    rw [hread] at h
    cases h

/-! ## Keys `<<` -/

/-- A mapping in a page description has a key `<<` just if the mapping of the document that it
comes from was lent one with such a key, or has the key under a tag. So one is found somewhere just
if something that is kept of the document leaves it. -/
theorem merge_keys_left (text : String) (manifest : Manifest) (h : ofYaml text = .ok manifest) :
    manifest = empty ∨ ∃ root, Spelled text root ∧
      (∀ fields, manifest.toValue.Within (.mapping fields) →
        ∃ entries, Becomes root manifest.toValue (.mapping entries) (.mapping fields) ∧
          ("<<" ∈ OrderedMap.keys fields ↔ LeavesMergeKey entries)) ∧
      ((∃ fields, manifest.toValue.Within (.mapping fields) ∧ "<<" ∈ OrderedMap.keys fields) ↔
        ∃ entries, Kept root (.mapping entries) ∧ LeavesMergeKey entries) := by
  rcases exists_reads_of_ofYaml h with hempty | ⟨root, hspelled, hdiffer, hroot⟩
  · exact Or.inl hempty
  have hfields : ∀ fields, manifest.toValue.Within (.mapping fields) →
      ∃ entries, Becomes root manifest.toValue (.mapping entries) (.mapping fields) ∧
        ("<<" ∈ OrderedMap.keys fields ↔ LeavesMergeKey entries) := by
    intro fields hwithin
    obtain ⟨entries, hbecomes⟩ := exists_mapping_of_within hroot hwithin
    exact ⟨entries, hbecomes, hbecomes.mergeKey_iff hroot hdiffer⟩
  refine Or.inr ⟨root, hspelled, hfields, ?_, ?_⟩
  · rintro ⟨fields, hwithin, hmem⟩
    obtain ⟨entries, hbecomes, hiff⟩ := hfields fields hwithin
    exact ⟨entries, hbecomes.kept, hiff.mp hmem⟩
  · rintro ⟨entries, hkept, hleaves⟩
    obtain ⟨fields, hbecomes⟩ := hkept.exists_mapping hroot
    exact ⟨fields, hbecomes.within, (hbecomes.mergeKey_iff hroot hdiffer).mpr hleaves⟩

/-- A mapping with a merge key is lent to another one. -/
def chainText : String := "a: &a\n  <<: \x7bx: 1\x7d\nb:\n  <<: *a\n"

/-- The mapping under `b` has a key `<<`. -/
def leavesInB (manifest : Manifest) : Bool :=
  match OrderedMap.get? manifest.entries "b" with
  | some (.mapping fields) => OrderedMap.hasKey fields "<<"
  | _ => false

theorem exists_ofYaml_chain :
    ∃ manifest, ofYaml chainText = .ok manifest ∧ leavesInB manifest = true ∧
      manifest.toJson = "\x7b\"a\":\x7b\"x\":1\x7d,\"b\":\x7b\"<<\":\x7b\"x\":1\x7d\x7d\x7d" := by
  have hread : (ofYaml chainText).toOption.any (fun manifest => leavesInB manifest &&
      manifest.toJson == "\x7b\"a\":\x7b\"x\":1\x7d,\"b\":\x7b\"<<\":\x7b\"x\":1\x7d\x7d\x7d") =
        true := by
    decide +kernel
  obtain ⟨manifest, hmanifest, hchecked⟩ := exists_ofYaml hread
  rw [Bool.and_eq_true] at hchecked
  exact ⟨manifest, hmanifest, hchecked.1, eq_of_beq hchecked.2⟩

theorem merge_keys_left_of_chain :
    ∃ manifest root entries, ofYaml chainText = .ok manifest ∧ Spelled chainText root ∧
      Kept root (.mapping entries) ∧ LeavesMergeKey entries := by
  obtain ⟨manifest, hmanifest, hleaves, -⟩ := exists_ofYaml_chain
  unfold leavesInB at hleaves
  split at hleaves
  · rename_i fields hfields
    rcases merge_keys_left chainText manifest hmanifest with rfl | ⟨root, hspelled, -, hiff⟩
    · cases hfields
    · have hwithin : manifest.toValue.Within (.mapping fields) :=
        .field .self (OrderedMap.mem_of_get?_eq_some hfields)
      obtain ⟨entries, hkept, hentries⟩ :=
        hiff.mp ⟨fields, hwithin, (OrderedMap.hasKey_iff fields "<<").mp hleaves⟩
      exact ⟨manifest, root, entries, hmanifest, hspelled, hkept, hentries⟩
  · cases hleaves

/-- The merge key of the mapping that is lent comes back with its entries. -/
theorem ofYaml_chain :
    (ofYaml chainText).toOption.map toJson =
      some "\x7b\"a\":\x7b\"x\":1\x7d,\"b\":\x7b\"<<\":\x7b\"x\":1\x7d\x7d\x7d" := by
  obtain ⟨manifest, hmanifest, -, hjson⟩ := exists_ofYaml_chain
  rw [hmanifest, Except.toOption, Option.map_some, hjson]

/-! ## The order of keys -/

/-- The keys of a mapping are in the order of the text. Where they are merged, the last one behind
the merge key is in its place, and the ones that are lent are behind them all. -/
theorem keys_arranged (text : String) (manifest : Manifest) (h : ofYaml text = .ok manifest) :
    manifest = empty ∨ ∃ root, Spelled text root ∧
      (∀ fields, manifest.toValue.Within (.mapping fields) →
        ∃ entries, Becomes root manifest.toValue (.mapping entries) (.mapping fields)) ∧
      ∀ entries, Kept root (.mapping entries) →
        (∃ fields, Becomes root manifest.toValue (.mapping entries) (.mapping fields)) ∧
        ∀ fields, Becomes root manifest.toValue (.mapping entries) (.mapping fields) →
          Arranged entries (OrderedMap.keys fields) := by
  rcases exists_reads_of_ofYaml h with hempty | ⟨root, hspelled, -, hroot⟩
  · exact Or.inl hempty
  refine Or.inr ⟨root, hspelled, ?_, ?_⟩
  · intro fields hwithin
    exact exists_mapping_of_within hroot hwithin
  · intro entries hkept
    refine ⟨hkept.exists_mapping hroot, ?_⟩
    intro fields hbecomes
    exact hbecomes.arranged hroot

/-- A merge key with two keys behind it. -/
def leadText : String := "<<: \x7ba: 1\x7d\nb: 2\nc: 3\n"

theorem exists_ofYaml_lead :
    ∃ manifest, ofYaml leadText = .ok manifest ∧
      OrderedMap.keys manifest.entries = ["c", "b", "a"] ∧
      manifest.toJson = "\x7b\"c\":3,\"b\":2,\"a\":1\x7d" := by
  have hread : (ofYaml leadText).toOption.any (fun manifest =>
      OrderedMap.keys manifest.entries == ["c", "b", "a"] &&
        manifest.toJson == "\x7b\"c\":3,\"b\":2,\"a\":1\x7d") = true := by
    decide +kernel
  obtain ⟨manifest, hmanifest, hchecked⟩ := exists_ofYaml hread
  rw [Bool.and_eq_true] at hchecked
  exact ⟨manifest, hmanifest, eq_of_beq hchecked.1, eq_of_beq hchecked.2⟩

theorem keys_arranged_behind_merge :
    ∃ manifest root entries, ofYaml leadText = .ok manifest ∧ Spelled leadText root ∧
      Kept root (.mapping entries) ∧ Arranged entries ["c", "b", "a"] := by
  obtain ⟨manifest, hmanifest, hkeys, -⟩ := exists_ofYaml_lead
  rcases keys_arranged leadText manifest hmanifest with rfl | ⟨root, hspelled, hfound, hkept⟩
  · cases hkeys
  · obtain ⟨entries, hbecomes⟩ := hfound manifest.entries .self
    refine ⟨manifest, root, entries, hmanifest, hspelled, hbecomes.kept, ?_⟩
    rw [← hkeys]
    exact (hkept entries hbecomes.kept).2 manifest.entries hbecomes

/-- Of the two keys the second one comes first. -/
theorem ofYaml_lead :
    (ofYaml leadText).toOption.map toJson =
      some "\x7b\"c\":3,\"b\":2,\"a\":1\x7d" := by
  obtain ⟨manifest, hmanifest, -, hjson⟩ := exists_ofYaml_lead
  rw [hmanifest, Except.toOption, Option.map_some, hjson]

end PageManifest.Manifest
