import PageManifest.Manifest.Reader
import PageManifest.Proofs.Yaml.Trees

/-!
# The two readers of page descriptions

The JSON text of a page description is read back to the same page description by the YAML
reader and by the JSON reader, the order of entries included (`ofYaml_toJson`). Both stop at
the same depth. The YAML reader alone asks for keys that do not reach too far, and it counts
their bytes: fewer than a thousand characters can be too many (`ofYaml_toJson_farKey`).
-/

namespace PageManifest.Manifest

open Yaml

theorem not_isBlankText_toJson (manifest : Manifest) :
    Text.isBlankText manifest.toJson = false := by
  have htext : ∃ cs, Json.valueText manifest.toValue = '{' :: cs := by
    obtain ⟨entries⟩ := manifest
    cases entries with
    | nil => exact ⟨_, rfl⟩
    | cons entry entries => exact ⟨_, rfl⟩
  obtain ⟨cs, htext⟩ := htext
  rw [Text.isBlankText, toJson, Json.write, String.toList_ofList, htext]
  rfl

/-- The YAML reader and the JSON reader agree on the JSON text of a page description: both
give it back, its entries in their order at every depth. -/
theorem ofYaml_toJson (manifest : Manifest) (hwhole : manifest.toValue.WholeNumbers)
    (hkeys : manifest.toValue.DistinctKeys) (hdepth : manifest.toValue.depth ≤ 127)
    (htexts : manifest.toValue.EveryText fun text => ∀ c ∈ text.toList, IsShared c)
    (hmerge : manifest.toValue.EveryKey fun key => key ≠ "<<")
    (hnear : manifest.toValue.EveryKey fun key => byteCount (Json.stringText key) ≤ 1024) :
    ofYaml manifest.toJson = .ok manifest ∧ ofJson manifest.toJson = .ok manifest := by
  have hyaml : Yaml.read manifest.toJson = .ok manifest.toValue :=
    Yaml.read_write hwhole hkeys (Nat.le_succ_of_le hdepth) htexts hnear hmerge
  have hjson : Json.read manifest.toJson = .ok manifest.toValue :=
    (Json.read_write hwhole hkeys).1 (Nat.lt_succ_of_le hdepth)
  constructor
  · rw [ofYaml, not_isBlankText_toJson, if_neg Bool.false_ne_true, hyaml]
    exact ofValue_toValue manifest
  · rw [ofJson, hjson]
    exact ofValue_toValue manifest

/-- Strings that look like other scalars, escapes, spaces at both ends, and empty collections
inside one another. -/
def motley : Manifest :=
  ⟨[("null", .string " a  \"b\"\n"), ("- x: 1", .sequence [.mapping [], .sequence [], .bool true]),
    ("", .mapping [("é😀", .number (.int (-7))), ("#", .null)])]⟩

theorem ofYaml_toJson_motley :
    motley.toValue.WholeNumbers ∧ motley.toValue.DistinctKeys ∧ motley.toValue.depth ≤ 127 ∧
      (motley.toValue.EveryText fun text => ∀ c ∈ text.toList, IsShared c) ∧
      (motley.toValue.EveryKey fun key => key ≠ "<<") ∧
      (motley.toValue.EveryKey fun key => byteCount (Json.stringText key) ≤ 1024) ∧
      ofYaml motley.toJson = .ok motley ∧ ofJson motley.toJson = .ok motley := by
  have hwhole : motley.toValue.WholeNumbers := by
    simp [motley, toValue, Value.WholeNumbers, Value.WholeNumbersEntries,
      Value.WholeNumbersItems, Number.leastInt, Number.greatestInt]
  have hkeys : motley.toValue.DistinctKeys := by
    simp [motley, toValue, Value.DistinctKeys, Value.DistinctKeysEntries,
      Value.DistinctKeysItems]
  have hdepth : motley.toValue.depth ≤ 127 := by decide
  have htexts : motley.toValue.EveryText fun text => ∀ c ∈ text.toList, IsShared c := by
    simp [motley, toValue, Value.EveryText, Value.EveryTextEntries, Value.EveryTextItems, IsShared]
  have hmerge : motley.toValue.EveryKey fun key => key ≠ "<<" := by
    simp [motley, toValue, Value.EveryKey, Value.EveryKeyEntries, Value.EveryKeyItems]
  have hnear : motley.toValue.EveryKey fun key => byteCount (Json.stringText key) ≤ 1024 := by
    simp only [motley, toValue, Value.EveryKey, Value.EveryKeyEntries, Value.EveryKeyItems, and_true]
    decide
  exact ⟨hwhole, hkeys, hdepth, htexts, hmerge, hnear,
    ofYaml_toJson motley hwhole hkeys hdepth htexts hmerge hnear⟩

/-- A key of 256 characters that take four bytes each. -/
def farKey : Manifest := ⟨[(String.ofList (List.replicate 256 '😀'), .number (.int 1))]⟩

theorem flatMap_escapeChar_farKey :
    (List.replicate 256 '😀').flatMap Json.escapeChar = List.replicate 256 '😀' := by
  have hplain : Json.escapeChar '😀' = ['😀'] := by decide
  rw [List.flatMap_replicate, hplain, List.flatten_replicate_singleton]

theorem valueText_farKey : Json.valueText farKey.toValue =
    '{' :: '"' :: (List.replicate 256 '😀' ++ ['"', ':', '1', '}']) := by
  have hdigits : Json.numberText (.int 1) = ['1'] := by decide
  simp only [farKey, toValue, Json.valueText, Json.stringText, String.toList_ofList,
    flatMap_escapeChar_farKey, hdigits, Json.entriesText]
  simp only [List.cons_append, List.append_assoc, List.nil_append]

/-- A key whose JSON text has less than a thousand characters, but more than 1024 bytes, is
read by the JSON reader only. -/
theorem ofYaml_toJson_farKey :
    farKey.toValue.WholeNumbers ∧ farKey.toValue.DistinctKeys ∧ farKey.toValue.depth ≤ 127 ∧
      (farKey.toValue.EveryText fun text => ∀ c ∈ text.toList, IsShared c) ∧
      (farKey.toValue.EveryKey fun key => key ≠ "<<") ∧
      (farKey.toValue.EveryKey fun key => (Json.stringText key).length ≤ 1000) ∧
      ofJson farKey.toJson = .ok farKey ∧ ¬ ofYaml farKey.toJson = .ok farKey := by
  have hchars : (String.ofList (List.replicate 256 '😀')).toList = List.replicate 256 '😀' :=
    String.toList_ofList
  have hwhole : farKey.toValue.WholeNumbers := ⟨⟨by decide, by decide⟩, trivial⟩
  have hkeys : farKey.toValue.DistinctKeys := ⟨List.pairwise_singleton .., trivial, trivial⟩
  have hdepth : farKey.toValue.depth ≤ 127 := by decide
  have htexts : farKey.toValue.EveryText fun text => ∀ c ∈ text.toList, IsShared c := by
    refine ⟨fun c hc => ?_, trivial, trivial⟩
    rw [hchars] at hc
    rw [List.eq_of_mem_replicate hc]
    simp [IsShared]
  have hmerge : farKey.toValue.EveryKey fun key => key ≠ "<<" := by
    refine ⟨fun heq => ?_, trivial, trivial⟩
    have hlength := congrArg (fun text => text.toList.length) heq
    rw [hchars, List.length_replicate] at hlength
    cases hlength
  have hlength : farKey.toValue.EveryKey fun key => (Json.stringText key).length ≤ 1000 := by
    refine ⟨?_, trivial, trivial⟩
    show (Json.stringText (String.ofList (List.replicate 256 '😀'))).length ≤ 1000
    rw [Json.stringText, hchars, flatMap_escapeChar_farKey, List.length_append, List.length_cons,
      List.length_replicate]
    decide
  have hjson : Json.read farKey.toJson = .ok farKey.toValue :=
    (Json.read_write hwhole hkeys).1 (by decide)
  have hyaml : (Yaml.read farKey.toJson).toOption = none := by
    rw [toJson, Json.write, valueText_farKey, Yaml.read, load, scan, String.toList_ofList]
    rw [← Option.isNone_iff_eq_none]
    decide +kernel
  refine ⟨hwhole, hkeys, hdepth, htexts, hmerge, hlength, ?_, ?_⟩
  · rw [ofJson, hjson]
    exact ofValue_toValue farKey
  · intro hread
    rw [ofYaml, not_isBlankText_toJson, if_neg Bool.false_ne_true] at hread
    cases hresult : Yaml.read farKey.toJson with
    | ok value =>
      rw [hresult] at hyaml
      cases hyaml
    | error error =>
      rw [hresult] at hread
      cases hread

end PageManifest.Manifest
