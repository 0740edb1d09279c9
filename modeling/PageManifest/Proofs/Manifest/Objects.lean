import Mathlib.Data.List.TakeWhile
import PageManifest.Proofs.Json.Steps
import PageManifest.Proofs.Manifest.Keys

/-!
# The two JSON readers of page descriptions

One reader takes an object only, the other one takes any value and looks afterwards at what it
is. They agree on each text that opens an object: either both read the same page description, or
both find the same fault at the same place. Any other text is refused by the first reader, and the
second one takes nothing but null, as the empty page description (`ofJson_eq_ofJsonObject`).
-/

namespace PageManifest

namespace Json

/-- A text whose first character behind the space in front opens an object. -/
def OpensObject (text : String) : Prop := (skipSpace text.toList).head? = some '{'

/-- The word null with space around it. -/
def IsNullText (text : String) : Prop :=
  ∃ before after, text.toList = before ++ ['n', 'u', 'l', 'l'] ++ after ∧
    (∀ c ∈ before, isSpace c = true) ∧ ∀ c ∈ after, isSpace c = true

theorem skipSpace_append {before : List Char} (h : ∀ c ∈ before, isSpace c = true)
    (cs : List Char) : skipSpace (before ++ cs) = skipSpace cs :=
  List.dropWhile_append_of_pos h

theorem exists_append_skipSpace (cs : List Char) :
    ∃ before, cs = before ++ skipSpace cs ∧ ∀ c ∈ before, isSpace c = true :=
  ⟨cs.takeWhile isSpace, List.takeWhile_append_dropWhile.symm, fun _ => List.mem_takeWhile_imp⟩

theorem skipSpace_eq_nil_iff {cs : List Char} :
    skipSpace cs = [] ↔ ∀ c ∈ cs, isSpace c = true := List.dropWhile_eq_nil_iff

theorem spelled_null_iff {text : String} : Spelled text .null ↔ IsNullText text := by
  constructor
  · rintro ⟨rest, hspells, hend⟩
    cases hspells with
    | null hskip =>
      obtain ⟨before, htext, hbefore⟩ := exists_append_skipSpace text.toList
      refine ⟨before, rest, ?_, hbefore, skipSpace_eq_nil_iff.mp hend⟩
      rw [hskip] at htext
      rw [htext, List.append_assoc]
      rfl
  · rintro ⟨before, after, htext, hbefore, hafter⟩
    refine ⟨after, .null ?_, skipSpace_eq_nil_iff.mpr hafter⟩
    rw [htext, List.append_assoc, skipSpace_append hbefore]
    exact skipSpace_of_not_isSpace (by decide) _

theorem Spelled.opensObject {text : String} {entries : List (String × Value)}
    (h : Spelled text (.mapping entries)) : OpensObject text := by
  obtain ⟨rest, hspells, -⟩ := h
  cases hspells with
  | object hskip _ => rw [OpensObject, hskip, List.head?_cons]

end Json

namespace Manifest

open Json

variable {text : String}

/-- A page description cannot be made of such a value. -/
def IsForeign (found : Value) : Prop :=
  (∃ b, found = .bool b) ∨ (∃ n, found = .number n) ∨ (∃ text, found = .string text) ∨
    ∃ items, found = .sequence items

theorem ofValue_eq_notMapping_iff {value found : Value} :
    ofValue value = .error (.notMapping found) ↔ value = found ∧ IsForeign found := by
  constructor
  · intro h
    cases value with
    | null => cases h
    | mapping entries => cases h
    | bool b =>
      cases h
      exact ⟨rfl, Or.inl ⟨b, rfl⟩⟩
    | number n =>
      cases h
      exact ⟨rfl, Or.inr (Or.inl ⟨n, rfl⟩)⟩
    | string text =>
      cases h
      exact ⟨rfl, Or.inr (Or.inr (Or.inl ⟨text, rfl⟩))⟩
    | sequence items =>
      cases h
      exact ⟨rfl, Or.inr (Or.inr (Or.inr ⟨items, rfl⟩))⟩
  · rintro ⟨rfl, ⟨b, rfl⟩ | ⟨n, rfl⟩ | ⟨text, rfl⟩ | ⟨items, rfl⟩⟩
    · rfl
    · rfl
    · rfl
    · rfl

theorem ofJson_eq_notMapping_iff {found : Value} :
    ofJson text = .error (.notMapping found) ↔ Json.read text = .ok found ∧ IsForeign found := by
  unfold ofJson
  cases Json.read text with
  | error error =>
    constructor
    · intro h
      cases h
    · rintro ⟨h, -⟩
      cases h
  | ok value =>
    dsimp only
    rw [ofValue_eq_notMapping_iff, Except.ok.injEq]

theorem ofJson_cases (text : String) :
    (∃ manifest, ofJson text = .ok manifest) ∨ (∃ found, ofJson text = .error (.notMapping found)) ∨
      ∃ error, ofJson text = .error (.json error) := by
  unfold ofJson
  cases Json.read text with
  | error error => exact Or.inr (Or.inr ⟨error, rfl⟩)
  | ok value =>
    cases value with
    | null => exact Or.inl ⟨empty, rfl⟩
    | mapping entries => exact Or.inl ⟨⟨entries⟩, rfl⟩
    | _ => exact Or.inr (Or.inl ⟨_, rfl⟩)

theorem opensObject_of_read {entries : OrderedMap String Value}
    (h : Json.read text = .ok (.mapping entries)) : OpensObject text := by
  obtain ⟨tree, hspelled, -, hsettled⟩ := read_eq_ok_iff.mp h
  cases tree with
  | mapping entries => exact hspelled.opensObject
  | _ => cases hsettled

theorem ofJson_of_opensObject (h : OpensObject text) :
    (∃ manifest, ofJsonObject text = .ok manifest ∧ ofJson text = .ok manifest) ∨
      ∃ error, ofJsonObject text = .error error ∧ ofJson text = .error (.json error) := by
  obtain ⟨rest, hskip⟩ : ∃ rest, skipSpace text.toList = '{' :: rest := List.head?_eq_some_iff.mp h
  rw [ofJson, ofJsonObject, read_eq_readWhole_object hskip]
  cases readWhole object text with
  | ok entries => exact Or.inl ⟨⟨entries⟩, rfl, rfl⟩
  | error error => exact Or.inr ⟨error, rfl, rfl⟩

theorem ofJsonObject_of_not_opensObject (h : ¬ OpensObject text) :
    ∃ error, ofJsonObject text = .error error := by
  cases hobject : ofJsonObject text with
  | error error => exact ⟨error, rfl⟩
  | ok manifest => exact absurd (opensObject_of_read (ofJsonObject_eq_ok_iff.mp hobject)) h

theorem ofJson_eq_ok_iff_of_not_opensObject (h : ¬ OpensObject text) {manifest : Manifest} :
    ofJson text = .ok manifest ↔ manifest = empty ∧ IsNullText text := by
  rw [ofJson_eq_ok_iff, ← spelled_null_iff]
  constructor
  · rintro ⟨value, hread, hvalue⟩
    cases value with
    | null =>
      cases hvalue
      obtain ⟨tree, hspelled, -, hsettled⟩ := read_eq_ok_iff.mp hread
      cases tree with
      | null => exact ⟨rfl, hspelled⟩
      | _ => cases hsettled
    | mapping entries => exact absurd (opensObject_of_read hread) h
    | _ => cases hvalue
  · rintro ⟨rfl, hspelled⟩
    exact ⟨.null, read_eq_ok_iff.mpr ⟨.null, hspelled, by decide, rfl⟩, rfl⟩

/-- The two readers agree on each text that opens an object, the order of keys at every depth and
the message of a fault included. On any other text one of them fails, and the other one takes
null, names a value that is no mapping, or finds a fault. -/
theorem ofJson_eq_ofJsonObject (text : String) :
    (OpensObject text ∧
        ((∃ manifest, ofJsonObject text = .ok manifest ∧ ofJson text = .ok manifest) ∨
          ∃ error, ofJsonObject text = .error error ∧ ofJson text = .error (.json error) ∧
            (Error.json error).message = "JSON error: " ++ error.message) ∨
      ¬ OpensObject text ∧ (∃ error, ofJsonObject text = .error error) ∧
        ∀ manifest, ofJson text = .ok manifest ↔ manifest = empty ∧ IsNullText text) ∧
      (∀ found, ofJson text = .error (.notMapping found) ↔
        Json.read text = .ok found ∧ IsForeign found) ∧
      ((∃ manifest, ofJson text = .ok manifest) ∨
        (∃ found, ofJson text = .error (.notMapping found)) ∨
          ∃ error, ofJson text = .error (.json error)) := by
  refine ⟨?_, fun found => ofJson_eq_notMapping_iff, ofJson_cases text⟩
  by_cases h : OpensObject text
  · refine Or.inl ⟨h, ?_⟩
    rcases ofJson_of_opensObject h with hok | ⟨error, hobject, hjson⟩
    · exact Or.inl hok
    · exact Or.inr ⟨error, hobject, hjson, rfl⟩
  · exact Or.inr ⟨h, ofJsonObject_of_not_opensObject h,
      fun manifest => ofJson_eq_ok_iff_of_not_opensObject h⟩

end Manifest

end PageManifest
