import PageManifest.Proofs.Json.Grammar

/-!
# How many steps it takes to read JSON text

The readers take a bound on their steps. Two steps for each character are enough for a value:
with one more the result is the same, be it a value or a fault (`stepsSuffice`). So an object is
read as it would be if any value were expected (`value_eq_object`), with the same fault if
something is wrong with it.
-/

namespace PageManifest.Json

open Value

/-! ## More steps -/

variable {fuel depth : Nat} {cs rest : List Char}

theorem length_value {v : Value} (hdepth : 0 < depth)
    (h : value fuel depth cs = .ok (v, rest)) : rest.length < cs.length := by
  obtain ⟨tree, hspells, -⟩ := (readsSpelled fuel).value hdepth h
  exact hspells.length_lt

theorem length_nextItem? {first more : Bool} (h : nextItem? first cs = .ok (more, rest)) :
    rest.length ≤ cs.length := by
  rcases nextItem?_cases h with ⟨-, hskip⟩ | ⟨-, -, rfl⟩ | ⟨-, -, after, hskip, rfl⟩
  · exact Nat.le_of_lt (length_of_skipSpace hskip)
  · exact length_skipSpace cs
  · exact Nat.le_trans (length_skipSpace after) (Nat.le_of_lt (length_of_skipSpace hskip))

theorem length_nextKey? {first more : Bool} (h : nextKey? first cs = .ok (more, rest)) :
    rest.length < cs.length := by
  rcases nextKey?_cases h with ⟨-, hskip⟩ | ⟨-, -, hskip⟩ | ⟨-, -, after, hskip, hquote⟩
  · exact length_of_skipSpace hskip
  · exact length_of_skipSpace hskip
  · exact Nat.lt_trans (length_of_skipSpace hquote) (length_of_skipSpace hskip)

/-- One step more than so many changes nothing, for texts that are short enough for them. -/
structure StepsSuffice (fuel : Nat) : Prop where
  value : ∀ {depth cs}, 0 < depth → 2 * cs.length ≤ fuel →
    value (fuel + 1) depth cs = value fuel depth cs
  items : ∀ {depth first cs}, 0 < depth → 2 * cs.length < fuel →
    items (fuel + 1) depth first cs = items fuel depth first cs
  members : ∀ {depth first cs}, 0 < depth → 2 * cs.length < fuel →
    members (fuel + 1) depth first cs = members fuel depth first cs

theorem value_succ_of_stepsSuffice (ih : StepsSuffice fuel) (_ : 0 < depth)
    (hfuel : 2 * cs.length ≤ fuel + 1) :
    value (fuel + 2) depth cs = value (fuel + 1) depth cs := by
  unfold value
  split
  all_goals try rfl
  · rename_i inside hskip
    have hlength := length_of_skipSpace hskip
    split
    · rfl
    · rw [ih.items (by omega) (by omega)]
  · rename_i inside hskip
    have hlength := length_of_skipSpace hskip
    split
    · rfl
    · rw [ih.members (by omega) (by omega)]

theorem items_succ_of_stepsSuffice {first : Bool} (ih : StepsSuffice fuel) (hdepth : 0 < depth)
    (hfuel : 2 * cs.length < fuel + 1) :
    items (fuel + 2) depth first cs = items (fuel + 1) depth first cs := by
  rw [items, items]
  refine bind_congr_ok ?_
  rintro ⟨more, inside⟩ hnext
  have hinside := length_nextItem? hnext
  cases more with
  | false => rfl
  | true =>
    dsimp only
    rw [ih.value hdepth (by omega)]
    refine bind_congr_ok ?_
    rintro ⟨item, behind⟩ hitem
    have hbehind := length_value hdepth hitem
    dsimp only
    rw [ih.items hdepth (by omega)]

theorem members_succ_of_stepsSuffice {first : Bool} (ih : StepsSuffice fuel) (hdepth : 0 < depth)
    (hfuel : 2 * cs.length < fuel + 1) :
    members (fuel + 2) depth first cs = members (fuel + 1) depth first cs := by
  rw [members, members]
  refine bind_congr_ok ?_
  rintro ⟨more, inside⟩ hnext
  have hinside := length_nextKey? hnext
  cases more with
  | false => rfl
  | true =>
    dsimp only
    refine bind_congr_ok ?_
    rintro ⟨key, between⟩ hkey
    have hbetween := length_string hkey
    dsimp only
    refine bind_congr_ok fun after hcolon => ?_
    have hafter := length_of_skipSpace (skipSpace_of_colon hcolon)
    rw [ih.value hdepth (by omega)]
    refine bind_congr_ok ?_
    rintro ⟨item, behind⟩ hitem
    have hbehind := length_value hdepth hitem
    dsimp only
    rw [ih.members hdepth (by omega)]

theorem stepsSuffice (fuel : Nat) : StepsSuffice fuel := by
  induction fuel with
  | zero =>
    refine ⟨?_, ?_, ?_⟩
    · intro depth cs _ hfuel
      obtain rfl := List.eq_nil_of_length_eq_zero (by omega : cs.length = 0)
      rfl
    · intro depth first cs _ hfuel
      cases hfuel
    · intro depth first cs _ hfuel
      cases hfuel
  | succ fuel ih =>
    exact ⟨value_succ_of_stepsSuffice ih, items_succ_of_stepsSuffice ih,
      members_succ_of_stepsSuffice ih⟩

/-! ## Objects -/

/-- The value that an object's entries make. -/
def asMapping (read : OrderedMap String Value × List Char) : Value × List Char :=
  (.mapping read.1, read.2)

/-- An object is read as a value would be, whether there is a fault in it or not. -/
theorem value_eq_object (h : skipSpace cs = '{' :: rest) :
    value (stepsFor cs) depthLimit cs = (object cs).map asMapping := by
  have hlength := length_of_skipSpace h
  have hfewer : members (stepsFor cs) (depthLimit - 1) true rest =
      members (2 * cs.length + 1) (depthLimit - 1) true rest :=
    (stepsSuffice _).members (by decide) (by omega)
  rw [stepsFor, ← value_skipSpace, h, value_brace, if_neg (by decide), ← hfewer]
  simp only [object, h]
  cases members (stepsFor cs) (depthLimit - 1) true rest with
  | error failure => rfl
  | ok read => rfl

theorem readWhole_map {α β : Type} {reader : List Char → Except Failure (α × List Char)}
    {other : List Char → Except Failure (β × List Char)} {text : String} {f : α → β}
    (h : other text.toList = (reader text.toList).map fun read => (f read.1, read.2)) :
    readWhole other text = (readWhole reader text).map f := by
  unfold readWhole
  rw [h]
  cases reader text.toList with
  | error failure => rfl
  | ok read =>
    dsimp only [Except.map, bind, Except.bind]
    cases skipSpace read.2 with
    | nil => rfl
    | cons c rest => rfl

/-- A text that opens an object is read as a value or as an object, with the same result. -/
theorem read_eq_readWhole_object {text : String} (h : skipSpace text.toList = '{' :: rest) :
    read text = (readWhole object text).map .mapping :=
  readWhole_map (value_eq_object h)

end PageManifest.Json
