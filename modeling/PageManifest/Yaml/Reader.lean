import PageManifest.Value.Basic
import PageManifest.Yaml.Document
import PageManifest.Yaml.Merge

/-!
# Reading YAML text

`read` gives the value of a text that holds one document, with merge keys resolved and
the entries of mappings in their order. Keys must be strings, tags of the document's own
are refused, and numbers that are not finite become null.
-/

namespace PageManifest.Yaml

/-- The text of a key; tags around it do not count. -/
def keyText (wanted : Wanted) (key : Node) : Except Error String :=
  match key.untagged with
  | .string text => .ok text
  | other => .error (.unsuitable other wanted)

mutual

/-- The value of a node. -/
def Node.toValue : Node → Except Error Value
  | .null => .ok .null
  | .bool b => .ok (.bool b)
  | .int n => .ok (.number (.int n))
  | .float x => .ok (if x.isFinite then .number (.float x) else .null)
  | .string text => .ok (.string text)
  | .sequence items => do return .sequence (← toItems items)
  | .mapping entries => do
    return .mapping (OrderedMap.ofEntries (← toEntries .firstKey entries))
  | .tagged tag node => .error (.unsuitable (.tagged tag node) .value)

/-- The values of some nodes. -/
def Node.toItems : List Node → Except Error (List Value)
  | [] => .ok []
  | item :: items => do
    let value ← item.toValue
    return value :: (← toItems items)

/-- The entries of a mapping as they are written. -/
def Node.toEntries : Wanted → List (Node × Node) → Except Error (List (String × Value))
  | _, [] => .ok []
  | wanted, (key, item) :: entries => do
    let text ← keyText wanted key
    let value ← item.toValue
    return (text, value) :: (← toEntries .key entries)

end

/-- Reads a text that holds one document. -/
def read (text : String) : Except Error Value := do
  let node ← (load text).build
  match resolveMerges node with
  | .ok node => node.toValue
  | .error fault => .error (.badMerge fault)

end PageManifest.Yaml
