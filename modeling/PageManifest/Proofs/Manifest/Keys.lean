import PageManifest.Manifest.Reader
import PageManifest.Manifest.Sample
import PageManifest.Proofs.Json.Grammar
import PageManifest.Proofs.Yaml.Spelling

/-!
# The keys of page descriptions

However a page description has come about, no mapping in it has a key twice
(`distinctKeys_of_made`). The readers see to it in two ways: of a key that a JSON text repeats the
last value is kept, and a YAML text that repeats a key is refused (`repeated_keys`).
-/

namespace PageManifest.Manifest

/-! ## Building and changing -/

/-- A value that comes up when page descriptions are built and changed, in any order and as often
as one likes. A page description comes up as the mapping that it is, so that turning it into a
value and back is no step of its own, and writing it is one by the readers, which take any
text. -/
inductive Made : Value → Prop
  | empty : Made empty.toValue
  | sample : Made sample.toValue
  | ofYaml {text : String} {manifest : Manifest} (h : ofYaml text = .ok manifest) :
      Made manifest.toValue
  | ofYamlFile {tree : FileTree} {path : String} {manifest : Manifest}
      (h : ofYamlFile tree path = .ok manifest) : Made manifest.toValue
  | ofJson {text : String} {manifest : Manifest} (h : ofJson text = .ok manifest) :
      Made manifest.toValue
  | ofJsonObject {text : String} {manifest : Manifest} (h : ofJsonObject text = .ok manifest) :
      Made manifest.toValue
  | yamlValue {text : String} {value : Value} (h : Yaml.read text = .ok value) : Made value
  | jsonValue {text : String} {value : Value} (h : Json.read text = .ok value) : Made value
  | ofValue {value : Value} {manifest : Manifest} (hvalue : Made value)
      (h : ofValue value = .ok manifest) : Made manifest.toValue
  | insert {manifest : Manifest} {key : String} {value : Value} (hmanifest : Made manifest.toValue)
      (hvalue : Made value) : Made (manifest.insert key value).toValue
  | entry {entries : OrderedMap String Value} {key : String} {value : Value}
      (hentries : Made (.mapping entries)) (h : OrderedMap.get? entries key = some value) :
      Made value
  | item {items : List Value} {item : Value} (hitems : Made (.sequence items))
      (hmem : item ∈ items) : Made item

variable {text : String} {value : Value} {manifest : Manifest}

theorem distinctKeys_ofValue (h : ofValue value = .ok manifest) (hvalue : value.DistinctKeys) :
    manifest.toValue.DistinctKeys := by
  cases value with
  | mapping entries =>
    cases h
    exact hvalue
  | null =>
    cases h
    exact ⟨List.nodup_nil, trivial⟩
  | _ => cases h

theorem distinctKeys_insert {key : String} (hmanifest : manifest.toValue.DistinctKeys)
    (hvalue : value.DistinctKeys) : (manifest.insert key value).toValue.DistinctKeys := by
  obtain ⟨hkeys, hentries⟩ := hmanifest
  rw [Value.distinctKeysEntries_iff] at hentries
  refine ⟨OrderedMap.nodup_keys_insert hkeys key value, ?_⟩
  rw [Value.distinctKeysEntries_iff]
  intro entry hmem
  rcases OrderedMap.mem_insert hmem with rfl | hmem
  · exact hvalue
  · exact hentries entry hmem

theorem ofYaml_cases (h : ofYaml text = .ok manifest) :
    manifest = empty ∨ ∃ value, Yaml.read text = .ok value ∧ ofValue value = .ok manifest := by
  unfold ofYaml at h
  split at h
  · cases h
    exact Or.inl rfl
  · split at h
    · rename_i value hread
      exact Or.inr ⟨value, hread, h⟩
    · cases h

theorem ofJson_eq_ok_iff :
    ofJson text = .ok manifest ↔
      ∃ value, Json.read text = .ok value ∧ ofValue value = .ok manifest := by
  unfold ofJson
  cases Json.read text with
  | ok value => simp
  | error error => simp

theorem ofJsonObject_eq_ok_iff :
    ofJsonObject text = .ok manifest ↔ Json.read text = .ok manifest.toValue := by
  rw [toValue, ← Json.readWhole_object_eq_ok_iff]
  unfold ofJsonObject
  cases Json.readWhole Json.object text with
  | ok entries =>
    constructor
    · intro h
      cases h
      rfl
    · intro h
      cases h
      rfl
  | error error => simp

theorem distinctKeys_of_ofYaml (h : ofYaml text = .ok manifest) :
    manifest.toValue.DistinctKeys := by
  rcases ofYaml_cases h with rfl | ⟨value, hread, h⟩
  · exact ⟨List.nodup_nil, trivial⟩
  · exact distinctKeys_ofValue h (Yaml.distinctKeys_of_read hread)

theorem distinctKeys_of_readJson (h : Json.read text = .ok value) : value.DistinctKeys := by
  obtain ⟨tree, -, -, rfl⟩ := Json.read_eq_ok_iff.mp h
  exact Value.distinctKeys_settled tree

/-- Every step keeps the keys distinct, at every depth. -/
theorem distinctKeys_of_made (h : Made value) : value.DistinctKeys := by
  induction h with
  | empty => exact ⟨List.nodup_nil, trivial⟩
  | sample =>
    simp [sample, element, toValue, Value.DistinctKeys, Value.DistinctKeysEntries,
      Value.DistinctKeysItems, OrderedMap.keys]
  | ofYaml h => exact distinctKeys_of_ofYaml h
  | @ofYamlFile tree path manifest h =>
    unfold ofYamlFile at h
    split at h
    · exact distinctKeys_of_ofYaml h
    · cases h
  | ofJson h =>
    obtain ⟨value, hread, h⟩ := ofJson_eq_ok_iff.mp h
    exact distinctKeys_ofValue h (distinctKeys_of_readJson hread)
  | ofJsonObject h => exact distinctKeys_of_readJson (ofJsonObject_eq_ok_iff.mp h)
  | yamlValue h => exact Yaml.distinctKeys_of_read h
  | jsonValue h => exact distinctKeys_of_readJson h
  | ofValue _ h ih => exact distinctKeys_ofValue h ih
  | insert _ _ ihmanifest ihvalue => exact distinctKeys_insert ihmanifest ihvalue
  | entry _ h ih =>
    have hmem := OrderedMap.mem_of_get?_eq_some h
    exact (Value.distinctKeysEntries_iff _).mp ih.2 _ hmem
  | item _ hmem ih => exact (Value.distinctKeysItems_iff _).mp ih _ hmem

/-! ## Texts with repeated keys -/

theorem ofJsonObject_eq_ok_iff_spelled :
    ofJsonObject text = .ok manifest ↔
      ∃ entries, Json.Spelled text (.mapping entries) ∧
        (Value.mapping entries).depth < Json.depthLimit ∧
        Value.settled (.mapping entries) = manifest.toValue := by
  rw [ofJsonObject_eq_ok_iff, Json.read_eq_ok_iff]
  constructor
  · rintro ⟨tree, hspelled, hdepth, hsettled⟩
    cases tree with
    | mapping entries => exact ⟨entries, hspelled, hdepth, hsettled⟩
    | _ => cases hsettled
  · rintro ⟨entries, hread⟩
    exact ⟨.mapping entries, hread⟩

/-- As a whole text null stands for the empty page description. -/
theorem ofJson_eq_ok_iff_object :
    ofJson text = .ok manifest ↔
      ofJsonObject text = .ok manifest ∨ Json.Spelled text .null ∧ manifest = empty := by
  rw [ofJson_eq_ok_iff, ofJsonObject_eq_ok_iff]
  constructor
  · rintro ⟨value, hread, hvalue⟩
    cases value with
    | mapping entries =>
      cases hvalue
      exact Or.inl hread
    | null =>
      cases hvalue
      obtain ⟨tree, hspelled, -, hsettled⟩ := Json.read_eq_ok_iff.mp hread
      cases tree with
      | null => exact Or.inr ⟨hspelled, rfl⟩
      | _ => cases hsettled
    | _ => cases hvalue
  · rintro (hread | ⟨hspelled, rfl⟩)
    · exact ⟨manifest.toValue, hread, rfl⟩
    · exact ⟨.null, Json.read_eq_ok_iff.mpr ⟨.null, hspelled, by decide, rfl⟩, rfl⟩

theorem ofYaml_of_repeatsKey {root : Yaml.Node} (hblank : Text.isBlankText text = false)
    (hspelled : Yaml.Spelled text root) (hrepeats : root.RepeatsKey) :
    ∃ error, ofYaml text = .error (.yaml error) := by
  unfold ofYaml
  rw [if_neg (by rw [hblank]; exact Bool.false_ne_true)]
  cases hread : Yaml.read text with
  | error error => exact ⟨error, rfl⟩
  | ok value =>
    obtain ⟨-, -, other, hother, hdiffer⟩ := Yaml.spelled_of_read hread
    cases hspelled.unique hother
    exact absurd hrepeats hdiffer

/-! ## A key twice -/

/-- The entries of `{"x":1,"x":2}`. -/
def twice : List (String × Value) := [("x", .number (.int 1)), ("x", .number (.int 2))]

/-- The text `{"x":1,"x":2}`. -/
def twiceText : String := "\x7b\"x\":1,\"x\":2\x7d"

theorem spells_twice (rest : List Char) :
    Json.Spells .value (twiceText.toList ++ rest) (.mapping twice) rest := by
  have hend : Json.Spells (.members false) ('}' :: rest) (.mapping []) rest := .objectEnd rfl
  have hlater : Json.Spells (.members true) ("\"x\":2\x7d".toList ++ rest)
      (.mapping [("x", .number (.int 2))]) rest :=
    .firstMember rfl rfl rfl (.positive rfl rfl rfl) hend
  have hfirst : Json.Spells (.members true) ("\"x\":1,\"x\":2\x7d".toList ++ rest)
      (.mapping twice) rest :=
    .firstMember rfl rfl rfl (.positive rfl rfl rfl) (.nextMember rfl hlater)
  exact .object rfl hfirst

theorem spelled_twice :
    Yaml.Spelled twiceText (Yaml.valueNode (.mapping twice)) := by
  have htext : Json.write (.mapping twice) = twiceText := by decide
  have hnear : Yaml.IsNearKey "x" := by
    unfold Yaml.IsNearKey
    decide
  have hwhole : Value.WholeNumbersEntries twice :=
    ⟨⟨by decide, by decide⟩, ⟨by decide, by decide⟩, trivial⟩
  have hshared : Yaml.IsSharedText "x" := by
    intro c hc
    cases List.mem_singleton.mp hc
    exact Or.inl (by decide)
  have htexts : Value.EveryTextEntries Yaml.IsSharedText twice :=
    ⟨hshared, trivial, hshared, trivial, trivial⟩
  have hkeys : Value.EveryKeyEntries Yaml.IsNearKey twice :=
    ⟨hnear, trivial, hnear, trivial, trivial⟩
  rw [← htext]
  exact Yaml.spelled_write hwhole htexts hkeys

/-- The characters of that text below a number of lists, under the key `a` of an object. -/
def buried (count : Nat) : List Char :=
  "\x7b\"a\":".toList ++ (List.replicate count '[' ++
    (twiceText.toList ++ (List.replicate count ']' ++ ['}'])))

theorem spelled_buried (count : Nat) :
    Json.Spelled (String.ofList (buried count))
      (.mapping [("a", Json.below count (.mapping twice))]) := by
  have hend : Json.Spells (.members false) ['}'] (.mapping []) [] := .objectEnd rfl
  have hitem := Json.spells_below count (spells_twice (List.replicate count ']' ++ ['}']))
  refine ⟨[], ?_, rfl⟩
  rw [String.toList_ofList]
  exact .object rfl (.firstMember rfl rfl rfl hitem hend)

theorem spelled_of_tag :
    Yaml.Spelled "!a x: 1\nx: 2\n"
      (.mapping [(.tagged "a" (.string "x"), .int 1), (.string "x", .int 2)]) := by
  have hpieces : (Yaml.load "!a x: 1\nx: 2\n").pieces.map Prod.fst =
      [.mappingStart none, .scalar (some ⟨"!a", true⟩) "x" .plain, .scalar none "1" .plain,
        .scalar none "x" .plain, .scalar none "2" .plain, .mappingEnd] := by
    decide
  obtain ⟨mark, inside, hload, hkey⟩ := Yaml.exists_piece hpieces
  obtain ⟨_, behind, rfl, hvalue⟩ := Yaml.exists_piece hkey
  obtain ⟨_, behind, rfl, hkey'⟩ := Yaml.exists_piece hvalue
  obtain ⟨_, behind, rfl, hvalue'⟩ := Yaml.exists_piece hkey'
  obtain ⟨_, behind, rfl, hend⟩ := Yaml.exists_piece hvalue'
  obtain ⟨_, rest, rfl, -⟩ := Yaml.exists_piece hend
  refine ⟨rest, ?_⟩
  rw [hload]
  exact .mapping (Or.inl rfl) (.entry (.tagged rfl (.scalar (Or.inr rfl) rfl))
    (.scalar (Or.inl rfl) rfl) (.entry (.scalar (Or.inl rfl) rfl) (.scalar (Or.inl rfl) rfl)
      .mappingEnd))

theorem toJson_ofYaml_tag :
    (ofYaml "!a x: 1\nx: 2\n").toOption.map toJson = some "\x7b\"x\":2\x7d" := by
  decide +kernel

theorem exists_read_of_tag : ∃ value, Yaml.read "!a x: 1\nx: 2\n" = .ok value := by
  have hjson := toJson_ofYaml_tag
  cases hmanifest : ofYaml "!a x: 1\nx: 2\n" with
  | ok manifest =>
    rw [hmanifest] at hjson
    rcases ofYaml_cases hmanifest with rfl | ⟨value, hread, -⟩
    · exact absurd hjson (by decide)
    · exact ⟨value, hread⟩
  | error error =>
    rw [hmanifest] at hjson
    cases hjson

/-! ## All page descriptions -/

/-- Page descriptions have distinct keys at every depth, however they have come about. Of a key
that a JSON text repeats, in whatever object of the text, the first place and the last value are
kept. A YAML text that repeats a key, be it `<<`, is refused; the same text under different tags
is not the same key. -/
theorem repeated_keys :
    (∀ value, Made value → value.DistinctKeys) ∧
    (∀ text manifest, ofJsonObject text = .ok manifest ↔
      ∃ entries, Json.Spelled text (.mapping entries) ∧
        (Value.mapping entries).depth < Json.depthLimit ∧
        Value.settled (.mapping entries) = manifest.toValue) ∧
    (∀ text manifest, ofJson text = .ok manifest ↔
      ofJsonObject text = .ok manifest ∨ Json.Spelled text .null ∧ manifest = empty) ∧
    (∀ entries, ∃ kept, Value.settled (.mapping entries) = .mapping kept ∧
      OrderedMap.keys kept = (OrderedMap.keys entries).eraseDups ∧
      ∀ key, OrderedMap.get? kept key =
        (OrderedMap.get? entries.reverse key).map Value.settled) ∧
    (∀ items, Value.settled (.sequence items) = .sequence (items.map Value.settled)) ∧
    (∀ text value, Yaml.read text = .ok value →
      (Yaml.load text).fault = none ∧ (Yaml.load text).alone = true ∧
        ∃ root, Yaml.Spelled text root ∧ ¬ root.RepeatsKey) ∧
    (∀ text root, Text.isBlankText text = false → Yaml.Spelled text root → root.RepeatsKey →
      ∃ error, ofYaml text = .error (.yaml error)) := by
  refine ⟨?_, ?_, ?_, ?_, ?_, ?_, ?_⟩
  · intro value h
    exact distinctKeys_of_made h
  · intro text manifest
    exact ofJsonObject_eq_ok_iff_spelled
  · intro text manifest
    exact ofJson_eq_ok_iff_object
  · intro entries
    exact Value.settled_mapping entries
  · intro items
    rw [Value.settled, Value.settledItems_eq_map]
  · intro text value h
    exact Yaml.spelled_of_read h
  · intro text root hblank hspelled hrepeats
    exact ofYaml_of_repeatsKey hblank hspelled hrepeats

theorem repeated_keys_twice :
    Made (empty.insert "page" sample.toValue).toValue ∧
    (empty.insert "page" sample.toValue).toValue.DistinctKeys ∧
    Json.Spelled twiceText (.mapping twice) ∧
    ofJsonObject twiceText = .ok ⟨[("x", .number (.int 2))]⟩ ∧
    Yaml.Spelled twiceText (Yaml.valueNode (.mapping twice)) ∧
    (∃ error, ofYaml twiceText = .error (.yaml error)) ∧
    ∃ root, Yaml.Spelled "!a x: 1\nx: 2\n" root ∧ ¬ root.RepeatsKey := by
  obtain ⟨hmade, hobject, -, -, -, haccepted, hrefused⟩ := repeated_keys
  have hpage : Made (empty.insert "page" sample.toValue).toValue := .insert .empty .sample
  have hjson : Json.Spelled twiceText (.mapping twice) := ⟨[], spells_twice [], rfl⟩
  obtain ⟨value, hread⟩ := exists_read_of_tag
  obtain ⟨-, -, hroot⟩ := haccepted _ _ hread
  refine ⟨hpage, hmade _ hpage, hjson, ?_, spelled_twice, ?_, hroot⟩
  · exact (hobject _ _).mpr ⟨twice, hjson, by decide, rfl⟩
  · exact hrefused _ _ (by decide) spelled_twice (.here (List.Sublist.refl _) rfl)

/-- Entries whose keys differ by a tag alone are not refused, and only the last one stays. An
object below 127 lists is not read at all. -/
theorem ofYaml_of_tag :
    Yaml.Spelled "!a x: 1\nx: 2\n"
      (.mapping [(.tagged "a" (.string "x"), .int 1), (.string "x", .int 2)]) ∧
    (ofYaml "!a x: 1\nx: 2\n").toOption.map toJson = some "\x7b\"x\":2\x7d" ∧
    Json.Spelled (String.ofList (buried 127)) (.mapping [("a", Json.below 127 (.mapping twice))]) ∧
    ∀ manifest, ofJson (String.ofList (buried 127)) ≠ .ok manifest := by
  refine ⟨spelled_of_tag, toJson_ofYaml_tag, spelled_buried 127, ?_⟩
  intro manifest h
  rcases ofJson_eq_ok_iff_object.mp h with hobject | ⟨hnull, -⟩
  · obtain ⟨entries, hother, hdepth, -⟩ := ofJsonObject_eq_ok_iff_spelled.mp hobject
    cases (spelled_buried 127).unique hother
    rw [Value.depth, Value.depthEntries, Json.depth_below] at hdepth
    exact absurd hdepth (by decide)
  · cases (spelled_buried 127).unique hnull

end PageManifest.Manifest
