import PageManifest.Yaml.Error

/-!
# Merge keys

A mapping under the key `<<`, or each mapping of a sequence there, lends its entries to
the mapping around it, which keeps what it has. The merge key itself is removed, the last
entry taking its place, and lent entries come behind. Merge keys are resolved from the
outside to the inside; an entry that is lent under the key `<<` stays.
-/

namespace PageManifest.Yaml

/-- The key that asks for a merge. -/
def mergeKey : Node := .string "<<"

/-- The mappings that a merge key lends, in order. -/
def mergeSources : Node → Except MergeFault (List (List (Node × Node)))
  | .mapping entries => .ok [entries]
  | .sequence items =>
    items.mapM fun
      | .mapping entries => .ok entries
      | .sequence _ => .error .sequenceItem
      | .tagged _ _ => .error .tagged
      | _ => .error .scalarItem
  | .tagged _ _ => .error .tagged
  | _ => .error .scalar

/-- The entries of a mapping after its own merge key is resolved. -/
def mergeEntries (entries : List (Node × Node)) : Except MergeFault (List (Node × Node)) :=
  match OrderedMap.get? entries mergeKey with
  | none => .ok entries
  | some source => do
    let sources ← mergeSources source
    return sources.foldl OrderedMap.addMissing (OrderedMap.swapRemove entries mergeKey)

/-- Applies a function that may fail to the items of a list, the last one first. -/
def mapLastFirst {α β ε : Type} (f : α → Except ε β) : List α → Except ε (List β)
  | [] => .ok []
  | x :: xs => do
    let ys ← mapLastFirst f xs
    let y ← f x
    return y :: ys

/-- Resolves the merge keys of a node down to a depth. Of two faults the later one in the
document is found. -/
def resolveMergesTo : Nat → Node → Except MergeFault Node
  | 0, node => .ok node
  | depth + 1, node =>
    match node with
    | .mapping entries => do
      let merged ← mergeEntries entries
      let values ← mapLastFirst (fun (entry : Node × Node) =>
        (resolveMergesTo depth entry.2).map (entry.1, ·)) merged
      return .mapping values
    | .sequence items => return .sequence (← mapLastFirst (resolveMergesTo depth) items)
    | .tagged tag inner => return .tagged tag (← resolveMergesTo depth inner)
    | node => .ok node

/-- Resolves the merge keys of a node. -/
def resolveMerges (node : Node) : Except MergeFault Node := resolveMergesTo node.depth node

end PageManifest.Yaml
