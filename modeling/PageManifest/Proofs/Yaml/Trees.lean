import PageManifest.Proofs.Decimal.Reader
import PageManifest.Proofs.Yaml.Events
import PageManifest.Yaml.Reader

/-!
# The tree of a value

The parts of a value build its tree (`node_value`), no deeper than the value is. Resolving
merges changes nothing in it as long as no mapping has a merge key (`resolveMergesTo_valueNode`),
and it gives the value back (`toValue_valueNode`). Together with the steps before, the text
of a mapping is read back (`read_write`).
-/

namespace PageManifest.Yaml

open Json Value

mutual

/-- The tree of a value. -/
def valueNode : Value → Node
  | .null => .null
  | .bool b => .bool b
  | .number (.int n) => .int n
  | .number (.float x) => .float x
  | .string text => .string text
  | .sequence items => .sequence (itemsNodes items)
  | .mapping entries => .mapping (entriesNodes entries)

def itemsNodes : List Value → List Node
  | [] => []
  | item :: items => valueNode item :: itemsNodes items

def entriesNodes : List (String × Value) → List (Node × Node)
  | [] => []
  | (key, item) :: entries => (.string key, valueNode item) :: entriesNodes entries

end

/-! ## Plain scalars -/

theorem basedNumber?_toDigits (n : Nat) : basedNumber? (Nat.toDigits 10 n) = none := by
  obtain ⟨c, cs, hdigits, -, hzero⟩ := exists_toDigits_eq_cons n
  rw [hdigits]
  unfold basedNumber?
  split
  · rename_i heq
    obtain ⟨rfl, rfl⟩ := List.cons.inj heq
    cases (hzero rfl).2
  · rfl

theorem not_padded_toDigits (n : Nat) : isPaddedNumber (Nat.toDigits 10 n) = false := by
  obtain ⟨c, cs, hdigits, hc, hzero⟩ := exists_toDigits_eq_cons n
  have hsign : withoutSign (c :: cs) = c :: cs := by
    unfold withoutSign
    split
    · rename_i heq
      obtain ⟨rfl, -⟩ := List.cons.inj heq
      cases hc
    · rename_i heq
      obtain ⟨rfl, -⟩ := List.cons.inj heq
      cases hc
    · rfl
  rw [hdigits, isPaddedNumber, hsign]
  split
  · rename_i heq
    obtain ⟨rfl, rfl⟩ := List.cons.inj heq
    cases (hzero rfl).2
  · rfl

theorem not_padded_minus {n : Nat} (hn : 0 < n) :
    isPaddedNumber ('-' :: Nat.toDigits 10 n) = false := by
  obtain ⟨c, cs, hdigits, hc, hzero⟩ := exists_toDigits_eq_cons n
  rw [hdigits, isPaddedNumber, withoutSign]
  split
  · rename_i heq
    obtain ⟨rfl, rfl⟩ := List.cons.inj heq
    have := (hzero rfl).1
    omega
  · rfl

theorem positiveNumber?_of_ne_plus {c : Char} (hc : c ≠ '+') (cs : List Char) :
    positiveNumber? (c :: cs) =
      match basedNumber? (c :: cs) with
      | some n => some n
      | none => if isPaddedNumber (c :: cs) then none else Decimal.digitsNumber? 10 (c :: cs) := by
  unfold positiveNumber?
  split
  · rename_i heq
    exact absurd (List.cons.inj heq).1 hc
  · rfl

theorem positiveNumber?_toDigits (n : Nat) : positiveNumber? (Nat.toDigits 10 n) = some n := by
  obtain ⟨c, cs, hdigits, hc, -⟩ := exists_toDigits_eq_cons n
  have hplus : c ≠ '+' := by
    rintro rfl
    cases hc
  have hbased := basedNumber?_toDigits n
  have hpadded := not_padded_toDigits n
  have hnumber := Decimal.digitsNumber?_toDigits n
  rw [hdigits] at hbased hpadded hnumber ⊢
  rw [positiveNumber?_of_ne_plus hplus, hbased, hpadded]
  exact hnumber

theorem positiveNumber?_minus {n : Nat} (hn : 0 < n) :
    positiveNumber? ('-' :: Nat.toDigits 10 n) = none := by
  have hbased : basedNumber? ('-' :: Nat.toDigits 10 n) = none := by
    rw [basedNumber?]
    rintro letter digits heq
    cases heq
  rw [positiveNumber?_of_ne_plus (by decide), hbased, not_padded_minus hn]
  rfl

theorem negativeNumber?_minus {n : Nat} (hn : 0 < n) :
    negativeNumber? ('-' :: Nat.toDigits 10 n) = some (-(n : Int)) := by
  rw [negativeNumber?, basedNumber?_toDigits, not_padded_minus hn, Decimal.digitsNumber?_toDigits]
  rfl

theorem intWord?_intText {n : Int} (h : Number.leastInt ≤ n ∧ n ≤ Number.greatestInt) :
    intWord? (intText n) = some (.int n) := by
  obtain ⟨hleast, hgreatest⟩ := h
  cases n with
  | ofNat n =>
    have hn : n < 0x10000000000000000 := by
      have : (n : Int) ≤ 0xFFFFFFFFFFFFFFFF := hgreatest
      omega
    rw [intText, intWord?, positiveNumber?_toDigits]
    dsimp only
    rw [if_pos hn]
    rfl
  | negSucc n =>
    have hn : -0x8000000000000000 ≤ -((n + 1 : Nat) : Int) := by
      have : (-0x8000000000000000 : Int) ≤ Int.negSucc n := hleast
      omega
    rw [intText, intWord?, positiveNumber?_minus (Nat.succ_pos n),
      negativeNumber?_minus (Nat.succ_pos n)]
    dsimp only
    rw [if_pos hn]
    rfl

/-- A text that does not start like a whole number is not the text of one. -/
theorem intText_ne {n : Int} (word : String)
    (h : (word.toList.head?.all fun c => !c.isDigit && c != '-') = true) :
    (String.ofList (intText n) == word) = false := by
  rw [beq_eq_false_iff_ne]
  rintro rfl
  rw [String.toList_ofList] at h
  cases n with
  | ofNat n =>
    obtain ⟨c, cs, hdigits, hc, -⟩ := exists_toDigits_eq_cons n
    have htext : intText (Int.ofNat n) = c :: cs := hdigits
    rw [htext, List.head?_cons, Option.all_some, hc] at h
    cases h
  | negSucc n => cases h

theorem resolvePlain_intText {n : Int} (h : Number.leastInt ≤ n ∧ n ≤ Number.greatestInt) :
    resolvePlain (String.ofList (intText n)) = .ok (.int n) := by
  have hempty : (String.ofList (intText n)).isEmpty = false := by
    simpa using intText_ne_nil n
  have hnull : isNullWord (String.ofList (intText n)) = false := by
    rw [isNullWord, intText_ne "null" (by decide), intText_ne "Null" (by decide),
      intText_ne "NULL" (by decide), intText_ne "~" (by decide)]
    rfl
  have hbool : boolWord? (String.ofList (intText n)) = none := by
    rw [boolWord?, intText_ne "true" (by decide), intText_ne "True" (by decide),
      intText_ne "TRUE" (by decide), intText_ne "false" (by decide), intText_ne "False" (by decide),
      intText_ne "FALSE" (by decide)]
    rfl
  rw [resolvePlain, hempty, hnull, hbool, String.toList_ofList, intWord?_intText h]
  rfl

/-! ## Building the tree -/

section Building

variable {doc : Document} {fuel depth aliases : Nat} {path : Path}

theorem node_scalar {text : String} {style : ScalarStyle} {node : Node}
    (h : untaggedScalar text style = .ok node) (mark : Mark) (rest : List (Piece × Mark)) :
    doc.node (fuel + 1) depth path false ((.scalar none text style, mark) :: rest) aliases =
      .ok (node, rest, aliases) := by
  have hscalar : scalarNode none text style = .ok node := h
  unfold Document.node
  dsimp only [ownTag?]
  rw [if_neg Bool.false_ne_true, hscalar]

theorem node_void (mark : Mark) (rest : List (Piece × Mark)) :
    doc.node (fuel + 1) depth path false ((.void, mark) :: rest) aliases =
      .ok (.null, rest, aliases) := by
  unfold Document.node
  rfl

theorem node_sequence (mark : Mark) (rest : List (Piece × Mark)) :
    doc.node (fuel + 1) (depth + 1) path false ((.sequenceStart none, mark) :: rest) aliases = do
      let (items, rest, aliases) ← doc.items fuel depth path 0 rest aliases
      return (.sequence items, rest, aliases) := by
  unfold Document.node
  rfl

theorem node_mapping (mark : Mark) (rest : List (Piece × Mark)) :
    doc.node (fuel + 1) (depth + 1) path false ((.mappingStart none, mark) :: rest) aliases = do
      let (entries, rest, aliases) ← doc.entries fuel depth path mark [] rest aliases
      return (.mapping entries, rest, aliases) := by
  unfold Document.node
  rfl

theorem exists_valuePieces_eq_cons (v : Value) : ∃ piece pieces,
    valuePieces v = piece :: pieces ∧ piece ≠ .sequenceEnd ∧ piece ≠ .mappingEnd := by
  cases v with
  | null => exact ⟨_, _, rfl, Piece.noConfusion, Piece.noConfusion⟩
  | bool b => exact ⟨_, _, rfl, Piece.noConfusion, Piece.noConfusion⟩
  | number n => exact ⟨_, _, rfl, Piece.noConfusion, Piece.noConfusion⟩
  | string text => exact ⟨_, _, rfl, Piece.noConfusion, Piece.noConfusion⟩
  | sequence items => exact ⟨_, _, rfl, Piece.noConfusion, Piece.noConfusion⟩
  | mapping entries => exact ⟨_, _, rfl, Piece.noConfusion, Piece.noConfusion⟩

theorem items_cons {piece : Piece} (h : piece ≠ .sequenceEnd) (index : Nat) (mark : Mark)
    (rest : List (Piece × Mark)) :
    doc.items (fuel + 1) depth path index ((piece, mark) :: rest) aliases = do
      let (item, rest, aliases) ←
        doc.node fuel depth (.index index :: path) false ((piece, mark) :: rest) aliases
      let (others, rest, aliases) ← doc.items fuel depth path (index + 1) rest aliases
      return (item :: others, rest, aliases) := by
  rw [Document.items]
  · rintro ⟨⟩
  · rintro _ _ heq
    exact h (Prod.mk.inj (List.cons.inj heq).1).1

theorem entries_cons {key : String} (present : List (Node × Node)) (began mark : Mark)
    (rest : List (Piece × Mark)) :
    doc.entries (fuel + 2) depth path began present
        ((.scalar none key .doubleQuoted, mark) :: rest) aliases =
      (if OrderedMap.hasKey present (.string key) then
        .error (.unfit (.duplicateKey (.string key)) path began)
      else do
        let (item, rest, aliases) ← doc.node (fuel + 1) depth (.key key :: path) false rest aliases
        doc.entries (fuel + 1) depth path began (present ++ [(.string key, item)]) rest aliases) := by
  rw [Document.entries, node_scalar rfl]
  · rfl
  · rintro ⟨⟩

end Building

theorem exists_piece {pieces : List (Piece × Mark)} {piece : Piece} {rest : List Piece}
    (h : pieces.map Prod.fst = piece :: rest) :
    ∃ mark left, pieces = (piece, mark) :: left ∧ left.map Prod.fst = rest := by
  obtain ⟨⟨_, mark⟩, left, rfl, rfl, hleft⟩ := List.map_eq_cons_iff.mp h
  exact ⟨mark, left, rfl, hleft⟩

theorem entriesNodes_append (a b : List (String × Value)) :
    entriesNodes (a ++ b) = entriesNodes a ++ entriesNodes b := by
  induction a with
  | nil => rfl
  | cons entry a ih =>
    obtain ⟨key, item⟩ := entry
    rw [List.cons_append, entriesNodes, ih, entriesNodes, List.cons_append]

theorem get?_entriesNodes (entries : List (String × Value)) (key : String) :
    OrderedMap.get? (entriesNodes entries) (.string key) =
      (OrderedMap.get? entries key).map valueNode := by
  induction entries with
  | nil => rfl
  | cons entry entries ih =>
    obtain ⟨k, item⟩ := entry
    have hsame : (Node.string k == Node.string key) = (k == key) := rfl
    rw [entriesNodes, OrderedMap.get?_cons, OrderedMap.get?_cons, hsame]
    split
    · rfl
    · exact ih

/-- The keys of a mapping are as distinct in its tree as they are in the mapping. -/
theorem not_hasKey_entriesNodes {present entries : List (String × Value)} {key : String}
    {item : Value} (h : (OrderedMap.keys (present ++ (key, item) :: entries)).Nodup) :
    OrderedMap.hasKey (entriesNodes present) (.string key) = false := by
  have hnew : key ∉ OrderedMap.keys present := by
    intro hmem
    rw [OrderedMap.keys, List.map_append, List.nodup_append] at h
    exact h.2.2 key hmem key List.mem_cons_self rfl
  rw [OrderedMap.hasKey, get?_entriesNodes, (OrderedMap.get?_eq_none_iff present key).mpr hnew]
  rfl

mutual

/-- The parts of a value build its tree, whatever stands behind them. -/
theorem node_value (v : Value) (hwhole : v.WholeNumbers) (hkeys : v.DistinctKeys)
    {doc : Document} {fuel depth aliases : Nat} {path : Path} {pieces : List (Piece × Mark)}
    {rest : List Piece} (hfuel : (valuePieces v).length ≤ fuel) (hdepth : v.depth ≤ depth)
    (h : pieces.map Prod.fst = valuePieces v ++ rest) :
    ∃ left, left.map Prod.fst = rest ∧
      doc.node fuel depth path false pieces aliases = .ok (valueNode v, left, aliases) := by
  have hpos : 0 < fuel := by
    obtain ⟨piece, others, hcons, -⟩ := exists_valuePieces_eq_cons v
    rw [hcons, List.length_cons] at hfuel
    omega
  obtain ⟨fuel, rfl⟩ := Nat.exists_eq_succ_of_ne_zero (Nat.ne_of_gt hpos)
  match v with
  | .null =>
    obtain ⟨mark, left, rfl, hleft⟩ := exists_piece h
    exact ⟨left, hleft, node_scalar rfl mark left⟩
  | .bool true =>
    obtain ⟨mark, left, rfl, hleft⟩ := exists_piece h
    exact ⟨left, hleft, node_scalar rfl mark left⟩
  | .bool false =>
    obtain ⟨mark, left, rfl, hleft⟩ := exists_piece h
    exact ⟨left, hleft, node_scalar rfl mark left⟩
  | .number (.float _) => exact hwhole.elim
  | .number (.int n) =>
    obtain ⟨mark, left, rfl, hleft⟩ := exists_piece h
    have hscalar : untaggedScalar (String.ofList (intText n)) .plain = .ok (.int n) := by
      rw [untaggedScalar, if_pos rfl, resolvePlain_intText hwhole]
    exact ⟨left, hleft, node_scalar hscalar mark left⟩
  | .string text =>
    obtain ⟨mark, left, rfl, hleft⟩ := exists_piece h
    exact ⟨left, hleft, node_scalar rfl mark left⟩
  | .sequence items =>
    have hdeep : (sequence items).depth = depthItems items + 1 := rfl
    rw [hdeep] at hdepth
    obtain ⟨depth, rfl⟩ := Nat.exists_eq_succ_of_ne_zero (n := depth) (by omega)
    rw [valuePieces, List.cons_append, List.append_assoc] at h
    obtain ⟨mark, behind, rfl, hbehind⟩ := exists_piece h
    rw [valuePieces, List.length_cons, List.length_append, List.length_singleton] at hfuel
    have hspare : (itemsPieces items).length < fuel := by omega
    obtain ⟨left, hleft, hitems⟩ := items_values items hwhole hkeys hspare
      (Nat.le_of_succ_le_succ hdepth) hbehind
    refine ⟨left, hleft, ?_⟩
    rw [node_sequence, hitems]
    rfl
  | .mapping entries =>
    have hdeep : (mapping entries).depth = depthEntries entries + 1 := rfl
    rw [hdeep] at hdepth
    obtain ⟨depth, rfl⟩ := Nat.exists_eq_succ_of_ne_zero (n := depth) (by omega)
    rw [valuePieces, List.cons_append, List.append_assoc] at h
    obtain ⟨mark, behind, rfl, hbehind⟩ := exists_piece h
    rw [valuePieces, List.length_cons, List.length_append, List.length_singleton] at hfuel
    have hspare : (entriesPieces entries).length < fuel := by omega
    obtain ⟨left, hleft, hentries⟩ := entries_values entries [] hwhole hkeys.2 hkeys.1 hspare
      (Nat.le_of_succ_le_succ hdepth) hbehind
    rw [entriesNodes, List.nil_append] at hentries
    refine ⟨left, hleft, ?_⟩
    rw [node_mapping, hentries]
    rfl

theorem items_values (items : List Value) (hwhole : WholeNumbersItems items)
    (hkeys : DistinctKeysItems items) {doc : Document} {fuel depth aliases index : Nat}
    {path : Path} {pieces : List (Piece × Mark)} {rest : List Piece}
    (hfuel : (itemsPieces items).length < fuel) (hdepth : depthItems items ≤ depth)
    (h : pieces.map Prod.fst = itemsPieces items ++ .sequenceEnd :: rest) :
    ∃ left, left.map Prod.fst = rest ∧
      doc.items fuel depth path index pieces aliases = .ok (itemsNodes items, left, aliases) := by
  obtain ⟨fuel, rfl⟩ := Nat.exists_eq_succ_of_ne_zero (Nat.ne_of_gt (Nat.zero_lt_of_lt hfuel))
  match items with
  | [] =>
    obtain ⟨mark, left, rfl, hleft⟩ := exists_piece h
    exact ⟨left, hleft, by rw [Document.items]; rfl⟩
  | item :: items =>
    have hdeep : depthItems (item :: items) = max item.depth (depthItems items) := rfl
    rw [hdeep] at hdepth
    rw [itemsPieces, List.append_assoc] at h
    obtain ⟨piece, others, hcons, hend, -⟩ := exists_valuePieces_eq_cons item
    rw [itemsPieces, List.length_append, hcons, List.length_cons] at hfuel
    have hitem : (valuePieces item).length ≤ fuel := by
      rw [hcons, List.length_cons]
      omega
    have hitems : (itemsPieces items).length < fuel := by omega
    obtain ⟨behind, hbehind, hitem⟩ := node_value item hwhole.1 hkeys.1 hitem
      (Nat.le_trans (Nat.le_max_left ..) hdepth) h
    obtain ⟨left, hleft, hitems⟩ := items_values items hwhole.2 hkeys.2 hitems
      (Nat.le_trans (Nat.le_max_right ..) hdepth) hbehind
    refine ⟨left, hleft, ?_⟩
    rw [hcons] at h
    obtain ⟨mark, tail, rfl, -⟩ := exists_piece h
    rw [items_cons hend, hitem]
    dsimp only [bind, Except.bind]
    rw [hitems]
    rfl

theorem entries_values (entries present : List (String × Value))
    (hwhole : WholeNumbersEntries entries) (hkeys : DistinctKeysEntries entries)
    (hdistinct : (OrderedMap.keys (present ++ entries)).Nodup) {doc : Document}
    {fuel depth aliases : Nat} {path : Path} {began : Mark} {pieces : List (Piece × Mark)}
    {rest : List Piece} (hfuel : (entriesPieces entries).length < fuel)
    (hdepth : depthEntries entries ≤ depth)
    (h : pieces.map Prod.fst = entriesPieces entries ++ .mappingEnd :: rest) :
    ∃ left, left.map Prod.fst = rest ∧
      doc.entries fuel depth path began (entriesNodes present) pieces aliases =
        .ok (entriesNodes (present ++ entries), left, aliases) := by
  match entries with
  | [] =>
    obtain ⟨fuel, rfl⟩ := Nat.exists_eq_succ_of_ne_zero (Nat.ne_of_gt (Nat.zero_lt_of_lt hfuel))
    obtain ⟨mark, left, rfl, hleft⟩ := exists_piece h
    rw [List.append_nil]
    exact ⟨left, hleft, by rw [Document.entries]⟩
  | (key, item) :: entries =>
    -- The key takes a part, so what is left is enough for the value and the other entries.
    have hdeep : depthEntries ((key, item) :: entries) = max item.depth (depthEntries entries) := rfl
    rw [hdeep] at hdepth
    rw [entriesPieces, List.length_cons, List.length_append] at hfuel
    obtain ⟨fuel, rfl⟩ : ∃ spare, fuel = spare + 2 := ⟨fuel - 2, by omega⟩
    rw [entriesPieces, List.cons_append, List.append_assoc] at h
    obtain ⟨mark, behind, rfl, hbehind⟩ := exists_piece h
    have hitem : (valuePieces item).length ≤ fuel + 1 := by omega
    have hentries : (entriesPieces entries).length < fuel + 1 := by
      obtain ⟨piece, others, hcons, -⟩ := exists_valuePieces_eq_cons item
      rw [hcons, List.length_cons] at hfuel
      omega
    have hpresent : present ++ (key, item) :: entries = present ++ [(key, item)] ++ entries :=
      List.append_cons ..
    obtain ⟨after, hafter, hitem⟩ := node_value item hwhole.1 hkeys.1 hitem
      (Nat.le_trans (Nat.le_max_left ..) hdepth) hbehind
    obtain ⟨left, hleft, hentries⟩ := entries_values entries (present ++ [(key, item)]) hwhole.2
      hkeys.2 (hpresent ▸ hdistinct) hentries (Nat.le_trans (Nat.le_max_right ..) hdepth) hafter
    refine ⟨left, hleft, ?_⟩
    rw [entries_cons, not_hasKey_entriesNodes hdistinct, if_neg Bool.false_ne_true, hitem]
    dsimp only [bind, Except.bind]
    rw [hpresent, ← hentries, entriesNodes_append present]
    rfl

end

theorem build_value {v : Value} (hwhole : v.WholeNumbers) (hkeys : v.DistinctKeys)
    (hdepth : v.depth ≤ depthLimit) {pieces : List (Piece × Mark)}
    (h : pieces.map Prod.fst = valuePieces v) :
    Document.build ⟨pieces, [], none, true⟩ = .ok (valueNode v) := by
  have hlength : (valuePieces v).length = pieces.length := by
    rw [← h, List.length_map]
  have hfuel : (valuePieces v).length ≤ (depthLimit + 2) * (pieces.length + 3) := by
    rw [hlength, depthLimit]
    omega
  obtain ⟨left, -, hnode⟩ := node_value v hwhole hkeys hfuel hdepth (h.trans (List.append_nil _).symm)
  rw [Document.build]
  dsimp only
  rw [hnode]
  rfl

/-! ## Merges -/

theorem mergeEntries_entriesNodes {entries : List (String × Value)}
    (h : EveryKeyEntries (· ≠ "<<") entries) :
    mergeEntries (entriesNodes entries) = .ok (entriesNodes entries) := by
  have hmerge : OrderedMap.get? entries "<<" = none := by
    induction entries with
    | nil => rfl
    | cons entry entries ih =>
      obtain ⟨key, item⟩ := entry
      rw [OrderedMap.get?_cons, if_neg (by simpa using h.1)]
      exact ih h.2.2
  rw [mergeEntries, mergeKey, get?_entriesNodes, hmerge]
  rfl

mutual

/-- Without merge keys there is nothing to resolve, down to any depth. -/
theorem resolveMergesTo_valueNode (v : Value) (h : v.EveryKey (· ≠ "<<")) (depth : Nat) :
    resolveMergesTo depth (valueNode v) = .ok (valueNode v) := by
  cases depth with
  | zero => rfl
  | succ depth =>
    match v with
    | .null => rfl
    | .bool _ => rfl
    | .number (.int _) => rfl
    | .number (.float _) => rfl
    | .string _ => rfl
    | .sequence items =>
      rw [valueNode, resolveMergesTo, mapLastFirst_itemsNodes items h depth]
      rfl
    | .mapping entries =>
      -- The mapping itself lends nothing; its values are resolved one level less deep.
      rw [valueNode, resolveMergesTo, mergeEntries_entriesNodes h]
      dsimp only [bind, Except.bind]
      rw [mapLastFirst_entriesNodes entries h depth]
      rfl

theorem mapLastFirst_itemsNodes (items : List Value) (h : EveryKeyItems (· ≠ "<<") items)
    (depth : Nat) :
    mapLastFirst (resolveMergesTo depth) (itemsNodes items) = .ok (itemsNodes items) := by
  match items with
  | [] => rfl
  | item :: items =>
    rw [itemsNodes, mapLastFirst, mapLastFirst_itemsNodes items h.2 depth]
    dsimp only [bind, Except.bind]
    rw [resolveMergesTo_valueNode item h.1 depth]
    rfl

theorem mapLastFirst_entriesNodes (entries : List (String × Value))
    (h : EveryKeyEntries (· ≠ "<<") entries) (depth : Nat) :
    mapLastFirst (fun entry : Node × Node => (resolveMergesTo depth entry.2).map (entry.1, ·))
      (entriesNodes entries) = .ok (entriesNodes entries) := by
  match entries with
  | [] => rfl
  | (key, item) :: entries =>
    rw [entriesNodes, mapLastFirst, mapLastFirst_entriesNodes entries h.2.2 depth]
    dsimp only [bind, Except.bind]
    rw [resolveMergesTo_valueNode item h.2.1 depth]
    rfl

end

/-! ## Values -/

mutual

theorem toValue_valueNode (v : Value) (hwhole : v.WholeNumbers) (hkeys : v.DistinctKeys) :
    (valueNode v).toValue = .ok v := by
  match v with
  | .null => rfl
  | .bool _ => rfl
  | .number (.int _) => rfl
  | .number (.float _) => exact hwhole.elim
  | .string _ => rfl
  | .sequence items =>
    rw [valueNode, Node.toValue, toItems_itemsNodes items hwhole hkeys]
    rfl
  | .mapping entries =>
    rw [valueNode, Node.toValue, toEntries_entriesNodes entries hwhole hkeys.2]
    dsimp only [bind, Except.bind]
    rw [OrderedMap.ofEntries_of_nodup hkeys.1]
    rfl

theorem toItems_itemsNodes (items : List Value) (hwhole : WholeNumbersItems items)
    (hkeys : DistinctKeysItems items) : Node.toItems (itemsNodes items) = .ok items := by
  match items with
  | [] => rfl
  | item :: items =>
    rw [itemsNodes, Node.toItems, toValue_valueNode item hwhole.1 hkeys.1]
    dsimp only [bind, Except.bind]
    rw [toItems_itemsNodes items hwhole.2 hkeys.2]
    rfl

theorem toEntries_entriesNodes (entries : List (String × Value))
    (hwhole : WholeNumbersEntries entries) (hkeys : DistinctKeysEntries entries) (wanted : Wanted) :
    Node.toEntries wanted (entriesNodes entries) = .ok entries := by
  match entries with
  | [] => rfl
  | (key, item) :: entries =>
    have hkey : keyText wanted (.string key) = .ok key := rfl
    rw [entriesNodes, Node.toEntries, hkey]
    dsimp only [bind, Except.bind]
    rw [toValue_valueNode item hwhole.1 hkeys.1]
    dsimp only
    rw [toEntries_entriesNodes entries hwhole.2 hkeys.2]
    rfl

end

/-! ## Whole texts -/

/-- The JSON text of a mapping is read back as YAML text. -/
theorem read_write {entries : List (String × Value)}
    (hwhole : (mapping entries).WholeNumbers) (hkeys : (mapping entries).DistinctKeys)
    (hdepth : (mapping entries).depth ≤ depthLimit)
    (htexts : (mapping entries).EveryText IsSharedText)
    (hnear : (mapping entries).EveryKey IsNearKey)
    (hmerge : (mapping entries).EveryKey (· ≠ "<<")) :
    read (write (.mapping entries)) = .ok (.mapping entries) := by
  obtain ⟨pieces, hload, hpieces⟩ := load_write hwhole htexts hnear
  have hbuild := build_value hwhole hkeys hdepth hpieces
  have hmerges := resolveMergesTo_valueNode (.mapping entries) hmerge
    (valueNode (.mapping entries)).depth
  rw [read, hload, hbuild]
  dsimp only [bind, Except.bind]
  rw [resolveMerges, hmerges]
  exact toValue_valueNode (.mapping entries) hwhole hkeys

/-- A text without a document is read as null. -/
theorem read_idle {text : String} (h : IdleText text.toList) : read text = .ok .null := by
  obtain ⟨mark, hload⟩ := load_idle h
  have hbuild : Document.build ⟨[(.void, mark)], [], none, true⟩ = .ok .null := by
    rw [Document.build, show (depthLimit + 2) * ([(Piece.void, mark)].length + 3) = 519 + 1 from rfl,
      node_void]
    rfl
  have hmerges : resolveMerges .null = .ok .null := rfl
  rw [read, hload, hbuild]
  dsimp only [bind, Except.bind]
  rw [hmerges]
  rfl

end PageManifest.Yaml
