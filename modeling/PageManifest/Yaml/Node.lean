import PageManifest.Binary64
import PageManifest.OrderedMap

/-!
# Nodes of a YAML document

The tree of a document before it is known to be a value: any node may be a key, and a
node may carry a tag of its own.
-/

namespace PageManifest.Yaml

/-- A tree of scalars, sequences, mappings and tagged nodes. -/
inductive Node where
  | null
  | bool (value : Bool)
  | int (value : Int)
  | float (value : Binary64)
  | string (text : String)
  | sequence (items : List Node)
  | mapping (entries : List (Node × Node))
  | tagged (tag : String) (node : Node)
deriving Repr, Inhabited

namespace Node

/-- Two numbers are the same key: undefined numbers are alike, and so are the zeros. -/
def sameFloat (x y : Binary64) : Bool := (x.isNaN && y.isNaN) || x.same y

/-- A tag without an exclamation mark in front, unless it is nothing else. -/
def bareTag (tag : String) : String :=
  match tag.toList with
  | '!' :: c :: rest => String.ofList (c :: rest)
  | _ => tag

mutual

/-- Two nodes are the same key. Mappings are compared without regard to order, and tags
without regard to an exclamation mark in front. -/
def same : Node → Node → Bool
  | .null, .null => true
  | .bool a, .bool b => a == b
  | .int a, .int b => a == b
  | .float a, .float b => sameFloat a b
  | .string a, .string b => a == b
  | .sequence xs, .sequence ys => sameItems xs ys
  | .mapping xs, .mapping ys => xs.length == ys.length && sameEntries xs ys
  | .tagged s x, .tagged t y => bareTag s == bareTag t && x.same y
  | _, _ => false

/-- Two lists of nodes are the same, place by place. -/
def sameItems : List Node → List Node → Bool
  | [], [] => true
  | x :: xs, y :: ys => x.same y && sameItems xs ys
  | _, _ => false

/-- Every entry has the same key and value in the second mapping. -/
def sameEntries : List (Node × Node) → List (Node × Node) → Bool
  | [], _ => true
  | (key, x) :: xs, ys => ys.any (fun (k, y) => key.same k && x.same y) && sameEntries xs ys

end

instance : BEq Node := ⟨same⟩

/-- A node without the tags around it. -/
def untagged : Node → Node
  | .tagged _ node => node.untagged
  | node => node

mutual

/-- How deep sequences, mappings and tags nest. -/
def depth : Node → Nat
  | .sequence items => depthItems items + 1
  | .mapping entries => depthEntries entries + 1
  | .tagged _ node => node.depth + 1
  | _ => 0

/-- The greatest depth in a list of nodes. -/
def depthItems : List Node → Nat
  | [] => 0
  | x :: xs => max x.depth (depthItems xs)

/-- The greatest depth among the keys and values of a mapping. -/
def depthEntries : List (Node × Node) → Nat
  | [] => 0
  | (key, x) :: xs => max (max key.depth x.depth) (depthEntries xs)

end

end Node

end PageManifest.Yaml
