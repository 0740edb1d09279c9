import PageManifest.Toml.Item
import PageManifest.Toml.Error

/-!
# Typed fields of settings files

A field expects one kind of item. A record of fields is a table, whose unknown keys do not
count, or an array with the values of the first fields in their order.
-/

namespace PageManifest.Toml

/-- A fault of an item, and the stretch that it concerns. -/
structure Misfit where
  fault : Fault
  stretch : Option Stretch

namespace Misfit

/-- The misfit with a stretch, unless it has one. -/
def atStretch (misfit : Misfit) (stretch : Option Stretch) : Misfit :=
  { misfit with stretch := misfit.stretch <|> stretch }

/-- The error of a misfit at its place in the text. -/
def toError (misfit : Misfit) (text : String) : Error :=
  let stretch := misfit.stretch.getD ⟨0, 0⟩
  { fault := misfit.fault
    text
    start := text.utf8ByteSize - stretch.leftAtStart
    length := stretch.leftAtStart - stretch.leftAtEnd }

end Misfit

namespace Item

/-- What an item is, in words. -/
def phrase : Item → String
  | .string _ text => "string " ++ Text.Quoted.quote text
  | .integer _ n => "integer `" ++ toString n ++ "`"
  | .float _ x =>
    let text :=
      if x.isFinite then Decimal.pointed.write x
      else if x.isNaN then "NaN"
      else if x.isNegative then "-inf"
      else "inf"
    "floating point `" ++ text ++ "`"
  | .boolean _ b => if b then "boolean `true`" else "boolean `false`"
  | .array _ _ | .tables _ _ => "sequence"
  | .moment _ | .table _ _ _ => "map"

/-- The misfit of an item where another kind of item was expected. -/
def mismatch (item : Item) (expected : String) : Misfit :=
  ⟨.mismatch item.phrase expected, item.stretch?⟩

/-- The text of an item, named as the field expects it. -/
def text (expected : String) : Item → Except Misfit String
  | .string _ text => .ok text
  | item => .error (item.mismatch expected)

/-- The truth value of an item. -/
def flag : Item → Except Misfit Bool
  | .boolean _ b => .ok b
  | item => .error (item.mismatch "a boolean")

/-- The number of an item that is not negative. -/
def count : Item → Except Misfit UInt64
  | .integer stretch n =>
    if 0 ≤ n && n < 0x10000000000000000 then .ok (UInt64.ofNat n.toNat)
    else .error ⟨.unfit ("integer `" ++ toString n ++ "`") "u64", some stretch⟩
  | item => .error (item.mismatch "u64")

end Item

/-- A field of a record: its name, and how its item changes the record. -/
structure Field (α : Type) where
  name : String
  put : Item → α → Except Misfit α

/-- Puts the entries of a table into a record. -/
def putEntries {α : Type} (fields : List (Field α)) (record : α) (entries : Entries) :
    Except Misfit α :=
  entries.foldlM (fun record (key, item) =>
    match fields.find? (·.name == key.text) with
    | none => .ok record
    | some field => (field.put item record).mapError (·.atStretch (item.stretch? <|> key.stretch))) record

/-- Puts the items of an array into the first fields of a record. -/
def putItems {α : Type} : List (Field α) → α → List Item → Except Misfit α
  | field :: fields, record, item :: items => do
    putItems fields (← field.put item record) items
  | _, record, _ => .ok record

/-- Puts an item that holds a record into one. -/
def putRecord {α : Type} (name : String) (fields : List (Field α)) (record : α) (item : Item) :
    Except Misfit α :=
  match item with
  | .table _ _ entries => putEntries fields record entries
  | .array _ items | .tables _ items => putItems fields record items
  | .moment _ => .ok record
  | item => .error (item.mismatch ("struct " ++ name))

end PageManifest.Toml
