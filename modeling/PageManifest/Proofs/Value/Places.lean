import PageManifest.Value.Basic

/-!
# Places in values

A place in a value is given by the steps that lead there from its root. From a scalar no step
leads on.
-/

namespace PageManifest

/-- A step into a tree: to an item of a sequence, or to what is under a key of a mapping. -/
inductive Step where
  | item (index : Nat)
  | key (name : String)

/-- What is at a place of a value. -/
def Value.at? : List Step → Value → Option Value
  | [], value => some value
  | .item index :: place, .sequence items => items[index]?.bind (Value.at? place)
  | .key name :: place, .mapping fields => (OrderedMap.get? fields name).bind (Value.at? place)
  | _ :: _, _ => none

namespace Value

/-- What a step leads to. -/
def child? : Step → Value → Option Value
  | .item index, .sequence items => items[index]?
  | .key name, .mapping fields => OrderedMap.get? fields name
  | _, _ => none

theorem at?_cons (step : Step) (place : List Step) (v : Value) :
    at? (step :: place) v = (child? step v).bind (at? place) := by
  cases step <;> cases v <;> rfl

/-- A value that holds no other values. -/
def IsScalar : Value → Prop
  | .sequence _ | .mapping _ => False
  | _ => True

theorem child?_of_isScalar {v : Value} (h : v.IsScalar) (step : Step) : child? step v = none := by
  cases v with
  | sequence items => exact h.elim
  | mapping entries => exact h.elim
  | _ => cases step <;> rfl

end Value

end PageManifest
