import PageManifest.Proofs.Json.Grammar

/-!
# What written JSON text spells

The text of a value spells just that value (`spelled_write`), however deep it is and with whatever
keys, as long as it has whole numbers only.
-/

namespace PageManifest.Json

open Value

variable {cs rest : List Char} {v : Value}

/-- Without any depth to go, what is read is what is spelled. -/
theorem spells_scalar (h : value 1 1 cs = .ok (v, rest)) : Spells .value cs v rest := by
  obtain ⟨tree, hspells, hdepth, rfl⟩ := (readsSpelled 1).value Nat.one_pos h
  cases tree with
  | sequence items => exact absurd hdepth (by simp [Value.depth])
  | mapping entries => exact absurd hdepth (by simp [Value.depth])
  | _ => exact hspells

theorem skipSpace_quote (cs : List Char) : skipSpace ('"' :: cs) = '"' :: cs :=
  skipSpace_of_not_isSpace (by decide) cs

theorem skipSpace_comma (cs : List Char) : skipSpace (',' :: cs) = ',' :: cs :=
  skipSpace_of_not_isSpace (by decide) cs

/-- A member is spelled by its key, a colon and its value. -/
theorem spells_firstMember {key : String} {item : Value} {behind : List Char}
    {others : List (String × Value)} (hitem : Spells .value cs item behind)
    (hothers : Spells (.members false) behind (.mapping others) rest) :
    Spells (.members true) (stringText key ++ ':' :: cs) (.mapping ((key, item) :: others))
      rest := by
  have htext : stringText key ++ ':' :: cs =
      '"' :: (key.toList.flatMap escapeChar ++ '"' :: ':' :: cs) := by simp [stringText]
  rw [htext]
  exact .firstMember (skipSpace_quote _) (string_stringText key _)
    (skipSpace_of_not_isSpace (by decide) cs) hitem hothers

mutual

/-- The text of a value spells it, up to what ends a number. -/
theorem spells_valueText (v : Value) (hwhole : v.WholeNumbers) {rest : List Char}
    (hrest : EndsNumber rest) : Spells .value (valueText v ++ rest) v rest := by
  match v with
  | .null => exact spells_scalar rfl
  | .bool true => exact spells_scalar rfl
  | .bool false => exact spells_scalar rfl
  | .number (.float _) => exact hwhole.elim
  | .number (.int n) => exact spells_scalar (value_intText hwhole hrest)
  | .string text => exact spells_scalar (value_stringText text)
  | .sequence [] =>
    exact .list (skipSpace_of_not_isSpace (by decide) _)
      (.listEnd (skipSpace_of_not_isSpace (by decide) _))
  | .sequence (item :: others) =>
    have htext : valueText (.sequence (item :: others)) ++ rest =
        '[' :: (valueText item ++ (itemsText others ++ ']' :: rest)) := by
      simp [valueText]
    rw [htext]
    exact .list (skipSpace_of_not_isSpace (by decide) _)
      (.firstItem (spells_valueText item hwhole.1 (endsNumber_itemsText others rest))
        (spells_itemsText others hwhole.2 rest))
  | .mapping [] =>
    exact .object (skipSpace_of_not_isSpace (by decide) _)
      (.objectEnd (skipSpace_of_not_isSpace (by decide) _))
  | .mapping ((key, item) :: others) =>
    have htext : valueText (.mapping ((key, item) :: others)) ++ rest =
        '{' :: (stringText key ++ ':' ::
          (valueText item ++ (entriesText others ++ '}' :: rest))) := by
      simp [valueText]
    rw [htext]
    exact .object (skipSpace_of_not_isSpace (by decide) _)
      (spells_firstMember (spells_valueText item hwhole.1 (endsNumber_entriesText others rest))
        (spells_entriesText others hwhole.2 rest))

theorem spells_itemsText (others : List Value) (hwhole : WholeNumbersItems others)
    (rest : List Char) :
    Spells (.items false) (itemsText others ++ ']' :: rest) (.sequence others) rest := by
  match others with
  | [] => exact .listEnd (skipSpace_of_not_isSpace (by decide) _)
  | item :: others =>
    have htext : itemsText (item :: others) ++ ']' :: rest =
        ',' :: (valueText item ++ (itemsText others ++ ']' :: rest)) := by
      simp [itemsText]
    rw [htext]
    exact .nextItem (skipSpace_comma _)
      (.firstItem (spells_valueText item hwhole.1 (endsNumber_itemsText others rest))
        (spells_itemsText others hwhole.2 rest))

theorem spells_entriesText (others : List (String × Value)) (hwhole : WholeNumbersEntries others)
    (rest : List Char) :
    Spells (.members false) (entriesText others ++ '}' :: rest) (.mapping others) rest := by
  match others with
  | [] => exact .objectEnd (skipSpace_of_not_isSpace (by decide) _)
  | (key, item) :: others =>
    have htext : entriesText ((key, item) :: others) ++ '}' :: rest =
        ',' :: (stringText key ++ ':' ::
          (valueText item ++ (entriesText others ++ '}' :: rest))) := by
      simp [entriesText]
    rw [htext]
    exact .nextMember (skipSpace_comma _)
      (spells_firstMember (spells_valueText item hwhole.1 (endsNumber_entriesText others rest))
        (spells_entriesText others hwhole.2 rest))

end

theorem spelled_write (hwhole : v.WholeNumbers) : Spelled (write v) v := by
  refine ⟨[], ?_, rfl⟩
  rw [write, String.toList_ofList, ← List.append_nil (valueText v)]
  exact spells_valueText v hwhole (by simp [EndsNumber])

end PageManifest.Json
