import PageManifest.Error

/-!
# Page descriptions

A page description is an ordered mapping from section names to values. The sections
`metadata`, `styles` and `structure` are usual, but none has to be there.
-/

namespace PageManifest

/-- A page description: its sections in order. -/
structure Manifest where
  entries : OrderedMap String Value
deriving Repr

namespace Manifest

/-- The page description without sections. -/
def empty : Manifest := ⟨[]⟩

/-- Accepts a mapping, and null as the empty page description. -/
def ofValue : Value → Except Error Manifest
  | .mapping entries => .ok ⟨entries⟩
  | .null => .ok empty
  | found => .error (.notMapping found)

/-- The mapping that a page description is. -/
def toValue (manifest : Manifest) : Value := .mapping manifest.entries

theorem ofValue_toValue (manifest : Manifest) : ofValue manifest.toValue = .ok manifest := rfl

/-- Whether there are no sections. -/
def isEmpty (manifest : Manifest) : Bool := manifest.entries.isEmpty

/-- The names of the sections in order. -/
def keys (manifest : Manifest) : List String := OrderedMap.keys manifest.entries

/-- The section of a name. -/
def get? (manifest : Manifest) (key : String) : Option Value :=
  OrderedMap.get? manifest.entries key

/-- Puts a section in the place of one of the same name, or at the end. -/
def insert (manifest : Manifest) (key : String) (value : Value) : Manifest :=
  ⟨OrderedMap.insert manifest.entries key value⟩

/-- Puts a section in as `insert` does, and gives the one that it replaces. -/
def replace (manifest : Manifest) (key : String) (value : Value) : Option Value × Manifest :=
  let (old, entries) := OrderedMap.replace manifest.entries key value
  (old, ⟨entries⟩)

theorem replace_eq (manifest : Manifest) (key : String) (value : Value) :
    manifest.replace key value = (manifest.get? key, manifest.insert key value) := by
  rw [replace, OrderedMap.replace_eq, get?, insert]

/-- A section that is a mapping. -/
def section? (manifest : Manifest) (name : String) : Option (OrderedMap String Value) := do
  (← manifest.get? name).entries?

/-- What is said about the page. -/
def metadata? (manifest : Manifest) : Option (OrderedMap String Value) :=
  manifest.section? "metadata"

/-- The styles by name. -/
def styles? (manifest : Manifest) : Option (OrderedMap String Value) := manifest.section? "styles"

/-- What the page consists of. -/
def structure? (manifest : Manifest) : Option Value := manifest.get? "structure"

/-- The title of the page. -/
def title? (manifest : Manifest) : Option String := do
  (← OrderedMap.get? (← manifest.metadata?) "title").text?

/-- Two page descriptions are the same up to the order of entries. -/
def same (a b : Manifest) : Bool := a.toValue.same b.toValue

end Manifest

end PageManifest
