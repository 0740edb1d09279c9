import PageManifest.Proofs.Manifest.Agreement
import PageManifest.Proofs.Yaml.FarKeys

/-!
# Page descriptions without content

A YAML text of blank characters is an empty page description without being parsed, and a text
of comments and blank lines is one because its stream has no document. Behind the JSON text of
a page description such lines change nothing, also where a key reaches too far for the text to
be read. `ofYaml_comments` says all three.
-/

namespace PageManifest.Manifest

open Yaml

theorem isBlankText_toJson_append (manifest : Manifest) (tail : String) :
    Text.isBlankText (manifest.toJson ++ tail) = false := by
  have htext := not_isBlankText_toJson manifest
  rw [Text.isBlankText] at htext ⊢
  rw [String.toList_append, List.all_append, htext, Bool.false_and]

/-- Comments and blank lines behind the JSON text of a page description do not matter, whether
it can be read or not. -/
theorem ofYaml_toJson_append {manifest : Manifest} (hwhole : manifest.toValue.WholeNumbers)
    (htexts : manifest.toValue.EveryText IsSharedText) {tail : List Char} (hidle : IdleText tail) :
    ofYaml (manifest.toJson ++ String.ofList tail) = ofYaml manifest.toJson := by
  have hload : load (manifest.toJson ++ String.ofList tail) = load manifest.toJson :=
    load_write_idle hwhole htexts hidle
  rw [ofYaml, ofYaml, isBlankText_toJson_append, not_isBlankText_toJson, Yaml.read, hload,
    ← Yaml.read]

theorem ofYaml_idle {text : String} (h : IdleText text.toList) : ofYaml text = .ok empty := by
  rw [ofYaml, read_idle h]
  split
  · rfl
  · rfl

/-- What ends a line: a character, or a carriage return with a line feed. -/
def IsLineBreak (lineBreak : List Char) : Prop :=
  lineBreak = ['\r', '\n'] ∨ ∃ c, lineBreak = [c] ∧ isBreak c = true

theorem idleText_lineBreak {lineBreak block : List Char} (hbreak : IsLineBreak lineBreak)
    (hblock : IdleText block) : IdleText (lineBreak ++ block) := by
  obtain rfl | ⟨c, rfl, hc⟩ := hbreak
  · exact .cons_break rfl (.cons_break rfl hblock)
  · exact .cons_break hc hblock

/-- A text of blank characters and a text of comments and blank lines are the empty page
description, and comments and blank lines on lines of their own behind the JSON text of a page
description do not change what is read: the page description, or what is wrong with a key that
reaches too far. -/
theorem ofYaml_comments :
    (∀ text : String, (∀ c ∈ text.toList, Text.isBlank c = true) → ofYaml text = .ok empty) ∧
    (∀ text : String, IdleText text.toList → ofYaml text = .ok empty) ∧
    ∀ (manifest : Manifest) (lineBreak block : List Char),
      manifest.toValue.WholeNumbers →
      (manifest.toValue.EveryText fun text => ∀ c ∈ text.toList, IsShared c) →
      IsLineBreak lineBreak → IdleText block →
        ofYaml (manifest.toJson ++ String.ofList (lineBreak ++ block)) =
          ofYaml manifest.toJson := by
  refine ⟨fun text hblank => ?_, fun text => ofYaml_idle, ?_⟩
  · rw [ofYaml, Text.isBlankText, List.all_eq_true.mpr hblank, if_pos rfl]
  · intro manifest lineBreak block hwhole htexts hbreak hblock
    exact ofYaml_toJson_append hwhole htexts (idleText_lineBreak hbreak hblock)

/-- A page description whose strings look like comments. -/
def hashes : Manifest :=
  ⟨[("# no comment", .sequence [.string "#", .number (.int (-1))]), ("", .string "a\n # b")]⟩

/-- A comment, a line of spaces, an indented comment and an empty line. -/
def remarks : List Char := "# one\n  \n   # : two\n".toList

theorem idleText_remarks : IdleText remarks := by
  have hone : isIdleLine "# one".toList = true := by decide
  have hspaces : isIdleLine "  ".toList = true := by decide
  have htwo : isIdleLine "   # : two".toList = true := by decide
  exact .next hone rfl (.next hspaces rfl (.next htwo rfl .nil))

theorem ofYaml_comments_hashes :
    (∀ c ∈ "\t\u00A0\n\u3000".toList, Text.isBlank c = true) ∧
      ofYaml "\t\u00A0\n\u3000" = .ok empty ∧
      IdleText (String.ofList remarks).toList ∧ ofYaml (String.ofList remarks) = .ok empty ∧
      hashes.toValue.WholeNumbers ∧
      (hashes.toValue.EveryText fun text => ∀ c ∈ text.toList, IsShared c) ∧
      IsLineBreak ['\r', '\n'] ∧ IdleText remarks ∧
      ofYaml (hashes.toJson ++ String.ofList (['\r', '\n'] ++ remarks)) =
        ofYaml hashes.toJson := by
  have hblank : ∀ c ∈ "\t\u00A0\n\u3000".toList, Text.isBlank c = true :=
    List.all_eq_true.mp (by decide)
  have hidle : IdleText (String.ofList remarks).toList := by
    rw [String.toList_ofList]
    exact idleText_remarks
  have hwhole : hashes.toValue.WholeNumbers := by
    simp [hashes, toValue, Value.WholeNumbers, Value.WholeNumbersEntries,
      Value.WholeNumbersItems, Number.leastInt, Number.greatestInt]
  have htexts : hashes.toValue.EveryText fun text => ∀ c ∈ text.toList, IsShared c := by
    simp [hashes, toValue, Value.EveryText, Value.EveryTextEntries, Value.EveryTextItems, IsShared]
  exact ⟨hblank, ofYaml_comments.1 _ hblank, hidle, ofYaml_comments.2.1 _ hidle, hwhole, htexts,
    .inl rfl, idleText_remarks,
    ofYaml_comments.2.2 hashes ['\r', '\n'] remarks hwhole htexts (.inl rfl) idleText_remarks⟩

end PageManifest.Manifest
