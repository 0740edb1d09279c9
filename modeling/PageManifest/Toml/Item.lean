import PageManifest.Binary64
import PageManifest.Text.Quoted

/-!
# Items of settings files

A settings file is a tree of tables. Every item remembers the stretch of the text that
gave it, so that an error about it can show the place.
-/

namespace PageManifest.Toml

/-- A stretch of a text, by how many bytes are left at its start and at its end. -/
structure Stretch where
  leftAtStart : Nat
  leftAtEnd : Nat
deriving DecidableEq, Repr

/-- One part of a dotted key. -/
structure Key where
  text : String
  stretch : Stretch
deriving DecidableEq, Repr

/-- How a table came to be. -/
inductive Origin where
  /-- By a header of its own. -/
  | header
  /-- By the header of a table inside it. -/
  | implied
  /-- By a dotted key. -/
  | dotted
  /-- Between braces. -/
  | inline
deriving DecidableEq, Repr

/-- An item of a settings file. -/
inductive Item where
  | string (stretch : Stretch) (text : String)
  | integer (stretch : Stretch) (value : Int)
  | float (stretch : Stretch) (value : Binary64)
  | boolean (stretch : Stretch) (value : Bool)
  /-- A date, a time of day or both. -/
  | moment (stretch : Stretch)
  | array (stretch : Stretch) (items : List Item)
  | table (origin : Origin) (stretch : Option Stretch) (entries : List (Key × Item))
  /-- The tables of headers with double brackets. -/
  | tables (stretch : Option Stretch) (items : List Item)
deriving Repr

namespace Item

/-- The stretch that gave an item. -/
def stretch? : Item → Option Stretch
  | .string stretch _ | .integer stretch _ | .float stretch _ | .boolean stretch _
  | .moment stretch | .array stretch _ => some stretch
  | .table _ stretch _ | .tables stretch _ => stretch

/-- What kind of value an item is. -/
def kind : Item → String
  | .string _ _ => "string"
  | .integer _ _ => "integer"
  | .float _ _ => "float"
  | .boolean _ _ => "boolean"
  | .moment _ => "datetime"
  | .array _ _ => "array"
  | .table .inline _ _ => "inline table"
  | .table _ _ _ => "table"
  | .tables _ _ => "array of tables"

/-! ### Equality -/

mutual

/-- Whether two items are equal. -/
def same : Item → Item → Bool
  | .string s a, .string t b => s == t && a == b
  | .integer s a, .integer t b => s == t && a == b
  | .float s a, .float t b => s == t && a == b
  | .boolean s a, .boolean t b => s == t && a == b
  | .moment s, .moment t => s == t
  | .array s xs, .array t ys => s == t && sameItems xs ys
  | .table origin s xs, .table other t ys => origin == other && s == t && sameEntries xs ys
  | .tables s xs, .tables t ys => s == t && sameItems xs ys
  | _, _ => false

/-- Whether two lists of items are equal. -/
def sameItems : List Item → List Item → Bool
  | [], [] => true
  | x :: xs, y :: ys => x.same y && sameItems xs ys
  | _, _ => false

/-- Whether the entries of two tables are equal. -/
def sameEntries : List (Key × Item) → List (Key × Item) → Bool
  | [], [] => true
  | (key, x) :: xs, (other, y) :: ys => key == other && x.same y && sameEntries xs ys
  | _, _ => false

end

mutual

theorem same_eq_true_iff : ∀ a b : Item, a.same b = true ↔ a = b
  | .string .., b | .integer .., b | .float .., b | .boolean .., b | .moment _, b => by
    cases b <;> simp [same]
  | .array _ xs, b => by cases b <;> simp [same, sameItems_eq_true_iff xs]
  | .table _ _ xs, b => by cases b <;> simp [same, sameEntries_eq_true_iff xs, and_assoc]
  | .tables _ xs, b => by cases b <;> simp [same, sameItems_eq_true_iff xs]

theorem sameItems_eq_true_iff : ∀ xs ys : List Item, sameItems xs ys = true ↔ xs = ys
  | [], ys => by cases ys <;> simp [sameItems]
  | x :: xs, ys => by
    cases ys <;> simp [sameItems, same_eq_true_iff x, sameItems_eq_true_iff xs]

theorem sameEntries_eq_true_iff :
    ∀ xs ys : List (Key × Item), sameEntries xs ys = true ↔ xs = ys
  | [], ys => by cases ys <;> simp [sameEntries]
  | (key, x) :: xs, ys => by
    cases ys <;>
      simp [sameEntries, same_eq_true_iff x, sameEntries_eq_true_iff xs, Prod.ext_iff]

end

/-- Items are nested in lists, so this is not derived. -/
instance : DecidableEq Item := fun a b => decidable_of_iff _ (same_eq_true_iff a b)

end Item

/-! ## Entries of a table -/

/-- The entries of a table in order. -/
abbrev Entries := List (Key × Item)

namespace Entries

/-- The item under a key. -/
def get? (entries : Entries) (key : String) : Option Item :=
  match entries with
  | [] => none
  | (k, item) :: rest => if k.text == key then some item else get? rest key

/-- Puts an item under a key that is present. -/
def replace (entries : Entries) (key : String) (item : Item) : Entries :=
  entries.map fun entry => if entry.1.text == key then (entry.1, item) else entry

/-- Removes a key. -/
def remove (entries : Entries) (key : String) : Entries := entries.filter (·.1.text != key)

end Entries

end PageManifest.Toml
