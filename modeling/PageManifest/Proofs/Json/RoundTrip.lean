import PageManifest.Manifest.Reader
import PageManifest.Proofs.Json.Lexical
import PageManifest.Proofs.OrderedMap

/-!
# JSON text that was written

Reading undoes writing for values without floating-point numbers (`WholeNumbers`), as long as
they are not too deep (`reads_value`). The proof follows the value: each item of a list and
each member of an object is read by itself (`reads_items_cons`, `reads_members_cons`), and the
depth that is left decides whether a list or an object is entered. For page descriptions the
limit is exact (`ofJson_toJson`).
-/

namespace PageManifest

namespace Value

mutual

/-- No number is a floating-point number, and all are within the range of documents. -/
def WholeNumbers : Value → Prop
  | .number (.int n) => Number.leastInt ≤ n ∧ n ≤ Number.greatestInt
  | .number (.float _) => False
  | .sequence items => WholeNumbersItems items
  | .mapping entries => WholeNumbersEntries entries
  | _ => True

/-- All values of a list have whole numbers only. -/
def WholeNumbersItems : List Value → Prop
  | [] => True
  | item :: items => item.WholeNumbers ∧ WholeNumbersItems items

/-- All values of a mapping have whole numbers only. -/
def WholeNumbersEntries : List (String × Value) → Prop
  | [] => True
  | (_, item) :: entries => item.WholeNumbers ∧ WholeNumbersEntries entries

end

end Value

namespace Json

open Value

/-! ## Separators -/

theorem skipSpace_of_not_isSpace {c : Char} (h : isSpace c = false) (cs : List Char) :
    skipSpace (c :: cs) = c :: cs := by
  simp [skipSpace, h]

theorem not_isSpace_of_isDigit {c : Char} (h : c.isDigit = true) : isSpace c = false := by
  have hne : ∀ d, d.isDigit = false → c ≠ d := by
    rintro d hd rfl
    cases h.symm.trans hd
  simp [isSpace, hne ' ' (by decide), hne '\n' (by decide), hne '\t' (by decide),
    hne '\r' (by decide)]

/-- No value starts with a space, or like the end of a list. -/
theorem exists_valueText_eq_cons {v : Value} (h : v.WholeNumbers) :
    ∃ c cs, valueText v = c :: cs ∧ isSpace c = false ∧ c ≠ ']' := by
  have hcons : ∀ {c : Char} {cs : List Char}, isSpace c = false → c ≠ ']' →
      valueText v = c :: cs → ∃ c cs, valueText v = c :: cs ∧ isSpace c = false ∧ c ≠ ']' :=
    fun hspace hne htext => ⟨_, _, htext, hspace, hne⟩
  cases v with
  | null => exact hcons (by decide) (by decide) rfl
  | bool b =>
    cases b with
    | true => exact hcons (by decide) (by decide) rfl
    | false => exact hcons (by decide) (by decide) rfl
  | number n =>
    cases n with
    | float x => exact h.elim
    | int n =>
      cases n with
      | ofNat n =>
        obtain ⟨c, cs, hdigits, hc, _⟩ := exists_toDigits_eq_cons n
        refine ⟨c, cs, hdigits, not_isSpace_of_isDigit hc, ?_⟩
        rintro rfl
        cases hc
      | negSucc n => exact hcons (by decide) (by decide) rfl
  | string text => exact hcons (by decide) (by decide) rfl
  | sequence items => cases items <;> exact hcons (by decide) (by decide) rfl
  | mapping entries => cases entries <;> exact hcons (by decide) (by decide) rfl

theorem nextItem?_end (first : Bool) (rest : List Char) :
    nextItem? first (']' :: rest) = .ok (false, rest) := rfl

theorem nextItem?_first {v : Value} (h : v.WholeNumbers) (rest : List Char) :
    nextItem? true (valueText v ++ rest) = .ok (true, valueText v ++ rest) := by
  obtain ⟨c, cs, htext, hspace, hne⟩ := exists_valueText_eq_cons h
  simp [nextItem?, htext, skipSpace_of_not_isSpace hspace]

theorem nextItem?_next {v : Value} (h : v.WholeNumbers) (rest : List Char) :
    nextItem? false (',' :: (valueText v ++ rest)) = .ok (true, valueText v ++ rest) := by
  obtain ⟨c, cs, htext, hspace, hne⟩ := exists_valueText_eq_cons h
  have hcomma : ∀ cs, skipSpace (',' :: cs) = ',' :: cs := skipSpace_of_not_isSpace (by decide)
  simp [nextItem?, hcomma, htext, skipSpace_of_not_isSpace hspace, hne]

theorem nextKey?_end (first : Bool) (rest : List Char) :
    nextKey? first ('}' :: rest) = .ok (false, rest) := rfl

theorem nextKey?_first (key : String) (rest : List Char) :
    nextKey? true (stringText key ++ rest) =
      .ok (true, key.toList.flatMap escapeChar ++ '"' :: rest) := by
  have hquote : ∀ cs, skipSpace ('"' :: cs) = '"' :: cs := skipSpace_of_not_isSpace (by decide)
  simp [nextKey?, stringText, hquote]

theorem nextKey?_next (key : String) (rest : List Char) :
    nextKey? false (',' :: (stringText key ++ rest)) =
      .ok (true, key.toList.flatMap escapeChar ++ '"' :: rest) := by
  have hquote : ∀ cs, skipSpace ('"' :: cs) = '"' :: cs := skipSpace_of_not_isSpace (by decide)
  have hcomma : ∀ cs, skipSpace (',' :: cs) = ',' :: cs := skipSpace_of_not_isSpace (by decide)
  simp [nextKey?, stringText, hquote, hcomma]

/-! ## Scalars -/

variable {fuel depth : Nat} {rest : List Char}

theorem value_of_isDigit {c : Char} (h : c.isDigit = true) (cs : List Char) :
    value (fuel + 1) depth (c :: cs) = do
      let (n, rest) ← number true (c :: cs)
      return (.number n, rest) := by
  have hne : ∀ d, d.isDigit = false → c ≠ d := by
    rintro d hd rfl
    cases h.symm.trans hd
  rw [value, skipSpace_of_not_isSpace (not_isSpace_of_isDigit h)]
  simp [hne 'n' (by decide), hne 't' (by decide), hne 'f' (by decide), hne '"' (by decide),
    hne '-' (by decide), hne '[' (by decide), hne '{' (by decide), h]

theorem value_minus (cs : List Char) :
    value (fuel + 1) depth ('-' :: cs) = do
      let (n, rest) ← number false cs
      return (.number n, rest) := by
  rw [value, skipSpace_of_not_isSpace (by decide)]
  rfl

/-- A whole number is read back, the least one as well as the greatest. -/
theorem value_intText {n : Int} (h : Number.leastInt ≤ n ∧ n ≤ Number.greatestInt)
    (hrest : EndsNumber rest) :
    value (fuel + 1) depth (intText n ++ rest) = .ok (.number (.int n), rest) := by
  obtain ⟨hleast, hgreatest⟩ := h
  cases n with
  | ofNat n =>
    have hn : n ≤ significandLimit := by
      have : (n : Int) ≤ 0xFFFFFFFFFFFFFFFF := hgreatest
      simp only [significandLimit]
      omega
    have hread := number_toDigits hn hrest true
    obtain ⟨c, cs, hdigits, hc, _⟩ := exists_toDigits_eq_cons n
    have htext : intText (Int.ofNat n) = Nat.toDigits 10 n := rfl
    rw [hdigits, List.cons_append] at hread
    rw [htext, hdigits, List.cons_append, value_of_isDigit hc, hread]
    rfl
  | negSucc n =>
    have hn : n + 1 ≤ 0x8000000000000000 := by
      have : (-0x8000000000000000 : Int) ≤ Int.negSucc n := hleast
      omega
    have hread := number_toDigits (n := n + 1) (by simp only [significandLimit]; omega) hrest false
    have htext : intText (Int.negSucc n) = '-' :: Nat.toDigits 10 (n + 1) := rfl
    rw [htext, List.cons_append, value_minus, hread]
    have hsmall : ¬ (0x8000000000000000 < n + 1) := by omega
    simp [wholeNumber, hsmall, bind, Except.bind, pure, Except.pure]
    omega

theorem value_quote (cs : List Char) :
    value (fuel + 1) depth ('"' :: cs) = do
      let (text, rest) ← string cs
      return (.string text, rest) := by
  rw [value, skipSpace_of_not_isSpace (by decide)]
  rfl

theorem value_stringText (text : String) :
    value (fuel + 1) depth (stringText text ++ rest) = .ok (.string text, rest) := by
  have hread := string_stringText text rest
  rw [stringText, List.cons_append, List.cons_append, List.append_assoc, List.singleton_append,
    value_quote, hread]
  rfl

/-! ## Lists and objects -/

/-- What comes of reading the text of something that is so deep, with something behind it: it
is read back if it is not deeper than the limit allows. -/
inductive Reads {α : Type} (deep limit : Nat) (a : α) (rest : List Char) :
    Except Failure (α × List Char) → Prop
  | read (h : deep < limit) : Reads deep limit a rest (.ok (a, rest))
  | tooDeep (h : limit ≤ deep) (unread : Nat) : Reads deep limit a rest (.error ⟨.tooDeep, unread⟩)

theorem reads_items_nil {first : Bool} (h : 0 < depth) :
    Reads (depthItems []) depth [] rest (items (fuel + 1) depth first (']' :: rest)) := by
  rw [items, nextItem?_end]
  exact .read h

theorem items_of_nextItem? {first : Bool} {cs after : List Char}
    (h : nextItem? first cs = .ok (true, after)) :
    items (fuel + 1) depth first cs = do
      let (item, rest) ← value fuel depth after
      let (others, rest) ← items fuel depth false rest
      return (item :: others, rest) := by
  rw [items, h]
  rfl

/-- A list is read item by item. -/
theorem reads_items_cons {first : Bool} {item : Value} {others : List Value}
    {cs after behind : List Char} (hnext : nextItem? first cs = .ok (true, after))
    (hitem : Reads item.depth depth item behind (value fuel depth after))
    (hothers : Reads (depthItems others) depth others rest (items fuel depth false behind)) :
    Reads (depthItems (item :: others)) depth (item :: others) rest
      (items (fuel + 1) depth first cs) := by
  have hdepth : depthItems (item :: others) = max item.depth (depthItems others) := rfl
  rw [items_of_nextItem? hnext, hdepth]
  generalize value fuel depth after = result at hitem ⊢
  cases hitem with
  | tooDeep hdeep unread => exact .tooDeep (by omega) unread
  | read hdeep =>
    dsimp only [bind, Except.bind]
    generalize items fuel depth false behind = result at hothers ⊢
    cases hothers with
    | tooDeep hdeep' unread => exact .tooDeep (by omega) unread
    | read hdeep' => exact .read (by omega)

theorem reads_members_nil {first : Bool} (h : 0 < depth) :
    Reads (depthEntries []) depth [] rest (members (fuel + 1) depth first ('}' :: rest)) := by
  rw [members, nextKey?_end]
  exact .read h

theorem members_of_nextKey? {first : Bool} {key : String} {cs after : List Char}
    (h : nextKey? first cs = .ok (true, key.toList.flatMap escapeChar ++ '"' :: ':' :: after)) :
    members (fuel + 1) depth first cs = do
      let (item, rest) ← value fuel depth after
      let (others, rest) ← members fuel depth false rest
      return ((key, item) :: others, rest) := by
  rw [members, h]
  dsimp only [bind, Except.bind]
  rw [string_stringText]
  rfl

/-- An object is read member by member. -/
theorem reads_members_cons {first : Bool} {key : String} {item : Value}
    {others : List (String × Value)} {cs after behind : List Char}
    (hnext : nextKey? first cs = .ok (true, key.toList.flatMap escapeChar ++ '"' :: ':' :: after))
    (hitem : Reads item.depth depth item behind (value fuel depth after))
    (hothers : Reads (depthEntries others) depth others rest (members fuel depth false behind)) :
    Reads (depthEntries ((key, item) :: others)) depth ((key, item) :: others) rest
      (members (fuel + 1) depth first cs) := by
  have hdepth : depthEntries ((key, item) :: others) = max item.depth (depthEntries others) := rfl
  rw [members_of_nextKey? hnext, hdepth]
  generalize value fuel depth after = result at hitem ⊢
  cases hitem with
  | tooDeep hdeep unread => exact .tooDeep (by omega) unread
  | read hdeep =>
    dsimp only [bind, Except.bind]
    generalize members fuel depth false behind = result at hothers ⊢
    cases hothers with
    | tooDeep hdeep' unread => exact .tooDeep (by omega) unread
    | read hdeep' => exact .read (by omega)

theorem endsNumber_itemsText (others : List Value) (rest : List Char) :
    EndsNumber (itemsText others ++ ']' :: rest) := by
  cases others with
  | nil =>
    rintro c hc
    cases hc
    decide
  | cons item others =>
    rintro c hc
    cases hc
    decide

theorem endsNumber_entriesText (others : List (String × Value)) (rest : List Char) :
    EndsNumber (entriesText others ++ '}' :: rest) := by
  cases others with
  | nil =>
    rintro c hc
    cases hc
    decide
  | cons entry others =>
    obtain ⟨key, item⟩ := entry
    rintro c hc
    cases hc
    decide

theorem value_bracket (cs : List Char) :
    value (fuel + 1) depth ('[' :: cs) =
      if depth ≤ 1 then failPast .tooDeep ('[' :: cs)
      else do
        let (items, rest) ← Json.items fuel (depth - 1) true cs
        return (.sequence items, rest) := by
  rw [value, skipSpace_of_not_isSpace (by decide)]
  rfl

/-- A list is entered if its items are not too deep for what is left. -/
theorem reads_sequence {items : List Value} {cs : List Char} (hdepth : 0 < depth)
    (hitems : 1 < depth → Reads (depthItems items) (depth - 1) items rest
      (Json.items fuel (depth - 1) true cs)) :
    Reads (sequence items).depth depth (.sequence items) rest
      (value (fuel + 1) depth ('[' :: cs)) := by
  have hdeep : (sequence items).depth = depthItems items + 1 := rfl
  rw [value_bracket, hdeep]
  by_cases hlast : depth ≤ 1
  · rw [if_pos hlast]
    exact .tooDeep (by omega) _
  · rw [if_neg hlast]
    have hitems := hitems (by omega)
    generalize Json.items fuel (depth - 1) true cs = result at hitems ⊢
    cases hitems with
    | tooDeep h unread => exact .tooDeep (by omega) unread
    | read h => exact .read (by omega)

theorem value_brace (cs : List Char) :
    value (fuel + 1) depth ('{' :: cs) =
      if depth ≤ 1 then failPast .tooDeep ('{' :: cs)
      else do
        let (entries, rest) ← members fuel (depth - 1) true cs
        return (.mapping (OrderedMap.ofEntries entries), rest) := by
  rw [value, skipSpace_of_not_isSpace (by decide)]
  rfl

/-- An object is entered if its values are not too deep for what is left. -/
theorem reads_mapping {entries : List (String × Value)} {cs : List Char} (hdepth : 0 < depth)
    (hkeys : (OrderedMap.keys entries).Nodup)
    (hentries : 1 < depth → Reads (depthEntries entries) (depth - 1) entries rest
      (members fuel (depth - 1) true cs)) :
    Reads (mapping entries).depth depth (.mapping entries) rest
      (value (fuel + 1) depth ('{' :: cs)) := by
  have hdeep : (mapping entries).depth = depthEntries entries + 1 := rfl
  rw [value_brace, hdeep]
  by_cases hlast : depth ≤ 1
  · rw [if_pos hlast]
    exact .tooDeep (by omega) _
  · rw [if_neg hlast]
    have hentries := hentries (by omega)
    generalize members fuel (depth - 1) true cs = result at hentries ⊢
    cases hentries with
    | tooDeep h unread => exact .tooDeep (by omega) unread
    | read h =>
      dsimp only [bind, Except.bind]
      rw [OrderedMap.ofEntries_of_nodup hkeys]
      exact .read (by omega)

/-! ## Values -/

mutual

/-- A value is read back if it is not too deep. -/
theorem reads_value (v : Value) (hwhole : v.WholeNumbers) (hkeys : v.DistinctKeys)
    {fuel depth : Nat} (hfuel : (valueText v).length < fuel) (hdepth : 0 < depth)
    {rest : List Char} (hrest : EndsNumber rest) :
    Reads v.depth depth v rest (value fuel depth (valueText v ++ rest)) := by
  obtain ⟨fuel, rfl⟩ := Nat.exists_eq_succ_of_ne_zero (Nat.ne_of_gt (Nat.zero_lt_of_lt hfuel))
  match v with
  | .null => exact .read hdepth
  | .bool true => exact .read hdepth
  | .bool false => exact .read hdepth
  | .number (.float _) => exact hwhole.elim
  | .number (.int n) =>
    have hread : value (fuel + 1) depth (valueText (.number (.int n)) ++ rest) =
        .ok (.number (.int n), rest) := value_intText hwhole hrest
    exact hread ▸ .read hdepth
  | .string text =>
    have hread : value (fuel + 1) depth (valueText (.string text) ++ rest) =
        .ok (.string text, rest) := value_stringText text
    exact hread ▸ .read hdepth
  | .sequence [] =>
    refine reads_sequence hdepth fun hmore => ?_
    have hlength : (valueText (.sequence [])).length = 2 := rfl
    obtain ⟨fuel, rfl⟩ := Nat.exists_eq_succ_of_ne_zero (n := fuel) (by omega)
    exact reads_items_nil (by omega)
  | .sequence (item :: others) =>
    have htext : valueText (.sequence (item :: others)) =
        '[' :: valueText item ++ itemsText others ++ [']'] := rfl
    rw [htext] at hfuel ⊢
    simp only [List.length_append, List.length_cons, List.length_nil] at hfuel
    simp only [List.cons_append, List.append_assoc, List.nil_append]
    refine reads_sequence hdepth fun hmore => ?_
    obtain ⟨fuel, rfl⟩ := Nat.exists_eq_succ_of_ne_zero (n := fuel) (by omega)
    exact reads_items_cons (nextItem?_first hwhole.1 _)
      (reads_value item hwhole.1 hkeys.1 (by omega) (by omega) (endsNumber_itemsText others rest))
      (reads_itemsText others hwhole.2 hkeys.2 (by omega) (by omega) rest)
  | .mapping [] =>
    refine reads_mapping hdepth hkeys.1 fun hmore => ?_
    have hlength : (valueText (.mapping [])).length = 2 := rfl
    obtain ⟨fuel, rfl⟩ := Nat.exists_eq_succ_of_ne_zero (n := fuel) (by omega)
    exact reads_members_nil (by omega)
  | .mapping ((key, item) :: others) =>
    have htext : valueText (.mapping ((key, item) :: others)) =
        '{' :: stringText key ++ ':' :: valueText item ++ entriesText others ++ ['}'] := rfl
    rw [htext] at hfuel ⊢
    simp only [List.length_append, List.length_cons, List.length_nil] at hfuel
    simp only [List.cons_append, List.append_assoc, List.nil_append]
    refine reads_mapping hdepth hkeys.1 fun hmore => ?_
    obtain ⟨fuel, rfl⟩ := Nat.exists_eq_succ_of_ne_zero (n := fuel) (by omega)
    exact reads_members_cons (nextKey?_first key _)
      (reads_value item hwhole.1 hkeys.2.1 (by omega) (by omega)
        (endsNumber_entriesText others rest))
      (reads_entriesText others hwhole.2 hkeys.2.2 (by omega) (by omega) rest)

theorem reads_itemsText (others : List Value) (hwhole : WholeNumbersItems others)
    (hkeys : DistinctKeysItems others) {fuel depth : Nat}
    (hfuel : (itemsText others).length < fuel) (hdepth : 0 < depth) (rest : List Char) :
    Reads (depthItems others) depth others rest
      (items fuel depth false (itemsText others ++ ']' :: rest)) := by
  obtain ⟨fuel, rfl⟩ := Nat.exists_eq_succ_of_ne_zero (Nat.ne_of_gt (Nat.zero_lt_of_lt hfuel))
  match others with
  | [] => exact reads_items_nil hdepth
  | item :: others =>
    have htext : itemsText (item :: others) = ',' :: valueText item ++ itemsText others := rfl
    rw [htext] at hfuel ⊢
    simp only [List.length_append, List.length_cons] at hfuel
    simp only [List.cons_append, List.append_assoc]
    exact reads_items_cons (nextItem?_next hwhole.1 _)
      (reads_value item hwhole.1 hkeys.1 (by omega) hdepth (endsNumber_itemsText others rest))
      (reads_itemsText others hwhole.2 hkeys.2 (by omega) hdepth rest)

theorem reads_entriesText (others : List (String × Value)) (hwhole : WholeNumbersEntries others)
    (hkeys : DistinctKeysEntries others) {fuel depth : Nat}
    (hfuel : (entriesText others).length < fuel) (hdepth : 0 < depth) (rest : List Char) :
    Reads (depthEntries others) depth others rest
      (members fuel depth false (entriesText others ++ '}' :: rest)) := by
  obtain ⟨fuel, rfl⟩ := Nat.exists_eq_succ_of_ne_zero (Nat.ne_of_gt (Nat.zero_lt_of_lt hfuel))
  match others with
  | [] => exact reads_members_nil hdepth
  | (key, item) :: others =>
    have htext : entriesText ((key, item) :: others) =
        ',' :: stringText key ++ ':' :: valueText item ++ entriesText others := rfl
    rw [htext] at hfuel ⊢
    simp only [List.length_append, List.length_cons] at hfuel
    simp only [List.cons_append, List.append_assoc]
    exact reads_members_cons (nextKey?_next key _)
      (reads_value item hwhole.1 hkeys.1 (by omega) hdepth (endsNumber_entriesText others rest))
      (reads_entriesText others hwhole.2 hkeys.2 (by omega) hdepth rest)

end

/-! ## Whole texts -/

/-- A text that was written is read back, or it is too deep. -/
theorem read_write {v : Value} (hwhole : v.WholeNumbers) (hkeys : v.DistinctKeys) :
    (v.depth < depthLimit → read (write v) = .ok v) ∧
      (depthLimit ≤ v.depth → ∃ error, read (write v) = .error error ∧ error.fault = .tooDeep) := by
  have hlength : (valueText v).length < stepsFor (valueText v) := by
    simp only [stepsFor]
    omega
  have hreads : Reads v.depth depthLimit v []
      (value (stepsFor (valueText v)) depthLimit (valueText v ++ [])) :=
    reads_value v hwhole hkeys hlength (by decide) (by simp [EndsNumber])
  rw [List.append_nil] at hreads
  rw [read, readWhole, write, String.toList_ofList]
  dsimp only
  generalize value (stepsFor (valueText v)) depthLimit (valueText v) = result at hreads ⊢
  cases hreads with
  | read h => exact ⟨fun _ => rfl, fun hdeep => absurd h (Nat.not_lt.mpr hdeep)⟩
  | tooDeep h unread =>
    exact ⟨fun hshallow => absurd hshallow (Nat.not_lt.mpr h), fun _ => ⟨_, rfl, rfl⟩⟩

end Json

namespace Manifest

/-- A page description with whole numbers only is read back from its JSON text, the order of its
entries included, unless it is too deep; then there is an error, and no other page
description. -/
theorem ofJson_toJson (manifest : Manifest) (hwhole : manifest.toValue.WholeNumbers)
    (hkeys : manifest.toValue.DistinctKeys) :
    (manifest.toValue.depth ≤ 127 → ofJson manifest.toJson = .ok manifest) ∧
      (127 < manifest.toValue.depth →
        ∃ error, ofJson manifest.toJson = .error (.json error) ∧ error.fault = .tooDeep) := by
  obtain ⟨hread, hdeep⟩ := Json.read_write hwhole hkeys
  rw [ofJson, toJson]
  constructor
  · intro h
    rw [hread (by simp only [Json.depthLimit]; omega)]
    exact ofValue_toValue manifest
  · intro h
    obtain ⟨error, herror, hfault⟩ := hdeep (by simp only [Json.depthLimit]; omega)
    rw [herror]
    exact ⟨error, rfl, hfault⟩

/-- Numbers at both ends of the range, a control that has no short escape, and keys whose order
is not that of their characters. -/
def unusual : Manifest :=
  ⟨[("z\"\\", .sequence [.number (.int Number.leastInt), .number (.int Number.greatestInt)]),
    ("a", .mapping [("é", .string "\x00\n"), ("b", .null)])]⟩

theorem ofJson_toJson_unusual :
    unusual.toValue.WholeNumbers ∧ unusual.toValue.DistinctKeys ∧ unusual.toValue.depth ≤ 127 ∧
      ofJson unusual.toJson = .ok unusual := by
  have hwhole : unusual.toValue.WholeNumbers := by
    simp [unusual, toValue, Value.WholeNumbers, Value.WholeNumbersEntries,
      Value.WholeNumbersItems, Number.leastInt, Number.greatestInt]
  have hkeys : unusual.toValue.DistinctKeys := by
    simp [unusual, toValue, Value.DistinctKeys, Value.DistinctKeysEntries,
      Value.DistinctKeysItems]
  have hdepth : unusual.toValue.depth ≤ 127 := by decide
  exact ⟨hwhole, hkeys, hdepth, (ofJson_toJson unusual hwhole hkeys).1 hdepth⟩

end Manifest

end PageManifest
