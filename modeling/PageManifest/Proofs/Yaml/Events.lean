import PageManifest.Proofs.Yaml.Tokens
import PageManifest.Yaml.Document

/-!
# The document of a value

The tokens of a value give the parts of the value (`gives_value`). Each state of the grammar
is written out with what waits and where the collections began, so that one step is a
computation; a collection leaves the state in which what waits behind it is expected. All
this holds whatever tokens are added at the end (`Grammar.extend`). The text of a mapping is one
document with the parts of the mapping (`load_write`).
-/

namespace PageManifest.Yaml

open Json Value

mutual

/-- The parts of a document that a value stands for. -/
def valuePieces : Value → List Piece
  | .null => [.scalar none "null" .plain]
  | .bool b => [.scalar none (if b then "true" else "false") .plain]
  | .number n => [.scalar none (String.ofList (numberText n)) .plain]
  | .string text => [.scalar none text .doubleQuoted]
  | .sequence items => .sequenceStart none :: (itemsPieces items ++ [.sequenceEnd])
  | .mapping entries => .mappingStart none :: (entriesPieces entries ++ [.mappingEnd])

def itemsPieces : List Value → List Piece
  | [] => []
  | item :: items => valuePieces item ++ itemsPieces items

def entriesPieces : List (String × Value) → List Piece
  | [] => []
  | (key, item) :: entries =>
    .scalar none key .doubleQuoted :: (valuePieces item ++ entriesPieces entries)

end

/-! ## Collecting parts -/

/-- The part that an event without an anchor is. -/
def Event.piece? : Event → Option Piece
  | .scalar none tag text style => some (.scalar tag text style)
  | .sequenceStart none tag => some (.sequenceStart tag)
  | .sequenceEnd => some .sequenceEnd
  | .mappingStart none tag => some (.mappingStart tag)
  | .mappingEnd => some .mappingEnd
  | _ => none

theorem collect_of_step {g later : Grammar} {event : Event} {mark : Mark} {piece : Piece}
    (hstep : g.step = .ok (event, mark, later)) (hpiece : event.piece? = some piece)
    (fuel : Nat) (c : Collector) :
    collect (fuel + 1) c g = collect fuel (c.push piece mark) later := by
  rw [collect, hstep]
  unfold Event.piece? at hpiece
  split at hpiece
  · cases hpiece
    rfl
  · cases hpiece
    rfl
  · cases hpiece
    rfl
  · cases hpiece
    rfl
  · cases hpiece
    rfl
  · cases hpiece

/-- The state with more tokens at the end. -/
def Grammar.extend (g : Grammar) (behind : List Lexeme) : Grammar :=
  { g with lexemes := g.lexemes ++ behind }

/-- From one state of the grammar to a later one some parts are collected, whatever tokens are
at the end. -/
def Gives (g : Grammar) (found : List Piece) (later : Grammar) : Prop :=
  ∃ pieces : List (Piece × Mark), pieces.map Prod.fst = found ∧
    ∀ behind fuel c, collect (fuel + found.length) c (g.extend behind) =
      collect fuel { c with pieces := pieces.reverse ++ c.pieces } (later.extend behind)

theorem gives_of_step {g later : Grammar} {event : Event} {mark : Mark} {piece : Piece}
    (hstep : ∀ behind, (g.extend behind).step = .ok (event, mark, later.extend behind))
    (hpiece : event.piece? = some piece) : Gives g [piece] later :=
  ⟨[(piece, mark)], rfl, fun behind => collect_of_step (hstep behind) hpiece⟩

theorem Gives.trans {a b c : Grammar} {found others : List Piece} (hab : Gives a found b)
    (hbc : Gives b others c) : Gives a (found ++ others) c := by
  obtain ⟨pieces, rfl, hab⟩ := hab
  obtain ⟨pieces', rfl, hbc⟩ := hbc
  refine ⟨pieces ++ pieces', List.map_append, fun behind fuel collector => ?_⟩
  rw [List.length_append, Nat.add_comm (pieces.map Prod.fst).length, ← Nat.add_assoc, hab, hbc,
    List.reverse_append, List.append_assoc]

/-! ## Steps of the grammar -/

/-- A token with which a value starts. -/
def StartsValue (token : Token) : Prop :=
  (∃ text style, token = .scalar text style) ∨ token = .flowSequenceStart ∨
    token = .flowMappingStart

theorem exists_valueTokens_eq_cons (v : Value) :
    ∃ token tokens, valueTokens v = token :: tokens ∧ StartsValue token := by
  match v with
  | .null => exact ⟨_, _, rfl, .inl ⟨_, _, rfl⟩⟩
  | .bool _ => exact ⟨_, _, rfl, .inl ⟨_, _, rfl⟩⟩
  | .number _ => exact ⟨_, _, rfl, .inl ⟨_, _, rfl⟩⟩
  | .string _ => exact ⟨_, _, rfl, .inl ⟨_, _, rfl⟩⟩
  | .sequence [] => exact ⟨_, _, rfl, .inr (.inl rfl)⟩
  | .sequence (_ :: _) => exact ⟨_, _, rfl, .inr (.inl rfl)⟩
  | .mapping [] => exact ⟨_, _, rfl, .inr (.inr rfl)⟩
  | .mapping (_ :: _) => exact ⟨_, _, rfl, .inr (.inr rfl)⟩

variable {expecting next : Expecting} {waiting : List Expecting} {mark : Mark} {began : List Mark}
  {handles : List (String × TagText)} {lexemes : List Lexeme} {fault : Option Malformation}
  {token : Token} {tokens rest : List Token}

theorem exists_lexeme (h : lexemes.map Lexeme.token = token :: tokens) :
    ∃ start stop left, lexemes = ⟨token, start, stop⟩ :: left ∧ left.map Lexeme.token = tokens := by
  obtain ⟨⟨_, start, stop⟩, left, rfl, rfl, hleft⟩ := List.map_eq_cons_iff.mp h
  exact ⟨start, stop, left, rfl, hleft⟩

/-- The next step reads a node in a state that may be another one, whatever tokens are at the
end. -/
def Grammar.ReadsNode (g start : Grammar) (block : Bool) : Prop :=
  ∀ behind, (g.extend behind).step = (start.extend behind).node block false

/-- The content of a document whose start is not marked. -/
theorem readsNode_blockNode :
    Grammar.ReadsNode ⟨.blockNode, waiting, began, handles, lexemes, fault⟩
      ⟨.blockNode, waiting, began, handles, lexemes, fault⟩ true := fun _ => rfl

theorem gives_scalar {g : Grammar} {text : String} {style : ScalarStyle} {block : Bool}
    (hstep : g.ReadsNode ⟨expecting, next :: waiting, began, handles, lexemes, fault⟩ block)
    (h : lexemes.map Lexeme.token = .scalar text style :: rest) :
    ∃ left, left.map Lexeme.token = rest ∧
      Gives g [.scalar none text style] ⟨next, waiting, began, handles, left, fault⟩ := by
  obtain ⟨start, stop, left, rfl, hleft⟩ := exists_lexeme h
  exact ⟨left, hleft, gives_of_step hstep rfl⟩

/-- The start of a sequence, which stays in front for its first item. -/
theorem gives_sequenceStart {g : Grammar} {block : Bool}
    (hstep : g.ReadsNode ⟨expecting, waiting, began, handles, lexemes, fault⟩ block)
    (h : lexemes.map Lexeme.token = .flowSequenceStart :: rest) :
    Gives g [.sequenceStart none] ⟨.firstFlowEntry, waiting, began, handles, lexemes, fault⟩ := by
  obtain ⟨start, stop, left, rfl, -⟩ := exists_lexeme h
  exact gives_of_step hstep rfl

/-- The start of a mapping, which stays in front for its first key. -/
theorem gives_mappingStart {g : Grammar} {block : Bool}
    (hstep : g.ReadsNode ⟨expecting, waiting, began, handles, lexemes, fault⟩ block)
    (h : lexemes.map Lexeme.token = .flowMappingStart :: rest) :
    Gives g [.mappingStart none] ⟨.firstFlowKey, waiting, began, handles, lexemes, fault⟩ := by
  obtain ⟨start, stop, left, rfl, -⟩ := exists_lexeme h
  exact gives_of_step hstep rfl

theorem exists_lexeme_value {v : Value} (h : lexemes.map Lexeme.token = valueTokens v ++ rest) :
    ∃ lexeme left, lexemes = lexeme :: left ∧ StartsValue lexeme.token := by
  obtain ⟨token, tokens, htokens, hstarts⟩ := exists_valueTokens_eq_cons v
  rw [htokens] at h
  obtain ⟨start, stop, left, rfl, -⟩ := exists_lexeme h
  exact ⟨_, _, rfl, hstarts⟩

theorem step_firstFlowEntry {item : Value} (h : lexemes.map Lexeme.token =
      .flowSequenceStart :: (valueTokens item ++ rest)) :
    ∃ mark left, left.map Lexeme.token = valueTokens item ++ rest ∧
      Grammar.ReadsNode ⟨.firstFlowEntry, waiting, began, handles, lexemes, fault⟩
        ⟨.firstFlowEntry, .flowEntry :: waiting, mark :: began, handles, left, fault⟩ false := by
  obtain ⟨start, stop, left, rfl, hleft⟩ := exists_lexeme h
  obtain ⟨⟨token, _, _⟩, others, rfl, hstarts⟩ := exists_lexeme_value hleft
  refine ⟨start, _, hleft, ?_⟩
  obtain ⟨text, style, rfl⟩ | rfl | rfl := hstarts
  · exact fun _ => rfl
  · exact fun _ => rfl
  · exact fun _ => rfl

theorem step_flowEntry {item : Value} (h : lexemes.map Lexeme.token =
      .flowEntry :: (valueTokens item ++ rest)) :
    ∃ left, left.map Lexeme.token = valueTokens item ++ rest ∧
      Grammar.ReadsNode ⟨.flowEntry, waiting, began, handles, lexemes, fault⟩
        ⟨.flowEntry, .flowEntry :: waiting, began, handles, left, fault⟩ false := by
  obtain ⟨start, stop, left, rfl, hleft⟩ := exists_lexeme h
  obtain ⟨⟨token, _, _⟩, others, rfl, hstarts⟩ := exists_lexeme_value hleft
  refine ⟨_, hleft, ?_⟩
  obtain ⟨text, style, rfl⟩ | rfl | rfl := hstarts
  · exact fun _ => rfl
  · exact fun _ => rfl
  · exact fun _ => rfl

/-- A key with its value behind it; what is left is the value. -/
theorem gives_key {g : Grammar} {key : String} {item : Value}
    (hstep : g.ReadsNode ⟨expecting, .flowValue :: waiting, began, handles, lexemes, fault⟩ false)
    (h : lexemes.map Lexeme.token =
      .scalar key .doubleQuoted :: .value :: (valueTokens item ++ rest)) :
    ∃ behind left, left.map Lexeme.token = valueTokens item ++ rest ∧
      Gives g [.scalar none key .doubleQuoted] behind ∧
      behind.ReadsNode ⟨.flowValue, .flowKey :: waiting, began, handles, left, fault⟩ false := by
  obtain ⟨left, hvalue, hgives⟩ := gives_scalar hstep h
  obtain ⟨start, stop, left, rfl, hitem⟩ := exists_lexeme hvalue
  obtain ⟨⟨token, _, _⟩, others, rfl, hstarts⟩ := exists_lexeme_value hitem
  refine ⟨_, _, hitem, hgives, ?_⟩
  obtain ⟨text, style, rfl⟩ | rfl | rfl := hstarts
  · exact fun _ => rfl
  · exact fun _ => rfl
  · exact fun _ => rfl

theorem step_firstFlowKey {key : String} (h : lexemes.map Lexeme.token =
      .flowMappingStart :: .key :: .scalar key .doubleQuoted :: rest) :
    ∃ mark left, left.map Lexeme.token = .scalar key .doubleQuoted :: rest ∧
      Grammar.ReadsNode ⟨.firstFlowKey, waiting, began, handles, lexemes, fault⟩
        ⟨.firstFlowKey, .flowValue :: waiting, mark :: began, handles, left, fault⟩ false := by
  obtain ⟨start, stop, left, rfl, hkey⟩ := exists_lexeme h
  obtain ⟨_, _, left, rfl, hscalar⟩ := exists_lexeme hkey
  obtain ⟨_, _, left, rfl, -⟩ := exists_lexeme hscalar
  exact ⟨start, _, hscalar, fun _ => rfl⟩

theorem step_flowKey {key : String} (h : lexemes.map Lexeme.token =
      .flowEntry :: .key :: .scalar key .doubleQuoted :: rest) :
    ∃ left, left.map Lexeme.token = .scalar key .doubleQuoted :: rest ∧
      Grammar.ReadsNode ⟨.flowKey, waiting, began, handles, lexemes, fault⟩
        ⟨.flowKey, .flowValue :: waiting, began, handles, left, fault⟩ false := by
  obtain ⟨start, stop, left, rfl, hkey⟩ := exists_lexeme h
  obtain ⟨_, _, left, rfl, hscalar⟩ := exists_lexeme hkey
  obtain ⟨_, _, left, rfl, -⟩ := exists_lexeme hscalar
  exact ⟨_, hscalar, fun _ => rfl⟩

/-! ## Values -/

mutual

/-- A value with near keys leaves the state in which what waits behind it is expected. -/
theorem gives_value (v : Value) (hkeys : v.EveryKey IsNearKey) {g : Grammar}
    {expecting next : Expecting} {waiting : List Expecting} {began : List Mark}
    {handles : List (String × TagText)} {lexemes : List Lexeme} {fault : Option Malformation}
    {rest : List Token} {block : Bool}
    (hstep : g.ReadsNode ⟨expecting, next :: waiting, began, handles, lexemes, fault⟩ block)
    (h : lexemes.map Lexeme.token = valueTokens v ++ rest) :
    ∃ left, left.map Lexeme.token = rest ∧
      Gives g (valuePieces v) ⟨next, waiting, began, handles, left, fault⟩ := by
  match v with
  | .null => exact gives_scalar hstep h
  | .bool _ => exact gives_scalar hstep h
  | .number _ => exact gives_scalar hstep h
  | .string _ => exact gives_scalar hstep h
  | .sequence [] =>
    obtain ⟨start, stop, left, rfl, hend⟩ := exists_lexeme h
    obtain ⟨stopped, behind, left, rfl, hleft⟩ := exists_lexeme hend
    have hclose : Gives ⟨.firstFlowEntry, next :: waiting, began, handles,
        ⟨.flowSequenceStart, start, stop⟩ :: ⟨.flowSequenceEnd, stopped, behind⟩ :: left, fault⟩
        [.sequenceEnd] ⟨next, waiting, began, handles, left, fault⟩ :=
      gives_of_step (fun _ => rfl) rfl
    exact ⟨left, hleft, (gives_sequenceStart hstep h).trans hclose⟩
  | .sequence (item :: items) =>
    simp only [valueTokens, List.cons_append, List.append_assoc, List.nil_append] at h
    -- The bracket gives the start now and is passed with the first item.
    have hopen := gives_sequenceStart hstep h
    obtain ⟨mark, left, hleft, hstep⟩ := step_firstFlowEntry h
    obtain ⟨left, hleft, hitem⟩ := gives_value item hkeys.1 hstep hleft
    obtain ⟨left, hleft, hitems⟩ := gives_items items hkeys.2 hleft
    rw [valuePieces, itemsPieces, List.append_assoc]
    exact ⟨left, hleft, hopen.trans (hitem.trans hitems)⟩
  | .mapping [] =>
    obtain ⟨start, stop, left, rfl, hend⟩ := exists_lexeme h
    obtain ⟨stopped, behind, left, rfl, hleft⟩ := exists_lexeme hend
    have hclose : Gives ⟨.firstFlowKey, next :: waiting, began, handles,
        ⟨.flowMappingStart, start, stop⟩ :: ⟨.flowMappingEnd, stopped, behind⟩ :: left, fault⟩
        [.mappingEnd] ⟨next, waiting, began, handles, left, fault⟩ :=
      gives_of_step (fun _ => rfl) rfl
    exact ⟨left, hleft, (gives_mappingStart hstep h).trans hclose⟩
  | .mapping ((key, item) :: entries) =>
    simp only [valueTokens, keyTokens, if_pos hkeys.1, List.cons_append, List.append_assoc,
      List.nil_append] at h
    have hopen := gives_mappingStart hstep h
    obtain ⟨mark, left, hleft, hstep⟩ := step_firstFlowKey h
    obtain ⟨behind, left, hleft, hkey, hstep⟩ := gives_key hstep hleft
    obtain ⟨left, hleft, hitem⟩ := gives_value item hkeys.2.1 hstep hleft
    obtain ⟨left, hleft, hentries⟩ := gives_entries entries hkeys.2.2 hleft
    rw [valuePieces, entriesPieces, List.cons_append, List.append_assoc]
    exact ⟨left, hleft, hopen.trans (hkey.trans (hitem.trans hentries))⟩

theorem gives_items (items : List Value) (hkeys : EveryKeyItems IsNearKey items)
    {next : Expecting} {waiting : List Expecting} {mark : Mark} {began : List Mark}
    {handles : List (String × TagText)} {lexemes : List Lexeme} {fault : Option Malformation}
    {rest : List Token}
    (h : lexemes.map Lexeme.token = itemsTokens items ++ .flowSequenceEnd :: rest) :
    ∃ left, left.map Lexeme.token = rest ∧
      Gives ⟨.flowEntry, next :: waiting, mark :: began, handles, lexemes, fault⟩
        (itemsPieces items ++ [.sequenceEnd]) ⟨next, waiting, began, handles, left, fault⟩ := by
  match items with
  | [] =>
    obtain ⟨stopped, behind, left, rfl, hleft⟩ := exists_lexeme h
    exact ⟨left, hleft, gives_of_step (fun _ => rfl) rfl⟩
  | item :: items =>
    simp only [itemsTokens, List.cons_append, List.append_assoc] at h
    obtain ⟨left, hleft, hstep⟩ := step_flowEntry h
    obtain ⟨left, hleft, hitem⟩ := gives_value item hkeys.1 hstep hleft
    obtain ⟨left, hleft, hitems⟩ := gives_items items hkeys.2 hleft
    rw [itemsPieces, List.append_assoc]
    exact ⟨left, hleft, hitem.trans hitems⟩

theorem gives_entries (entries : List (String × Value))
    (hkeys : EveryKeyEntries IsNearKey entries) {next : Expecting} {waiting : List Expecting}
    {mark : Mark} {began : List Mark} {handles : List (String × TagText)} {lexemes : List Lexeme}
    {fault : Option Malformation} {rest : List Token}
    (h : lexemes.map Lexeme.token = entriesTokens entries ++ .flowMappingEnd :: rest) :
    ∃ left, left.map Lexeme.token = rest ∧
      Gives ⟨.flowKey, next :: waiting, mark :: began, handles, lexemes, fault⟩
        (entriesPieces entries ++ [.mappingEnd]) ⟨next, waiting, began, handles, left, fault⟩ := by
  match entries with
  | [] =>
    obtain ⟨stopped, behind, left, rfl, hleft⟩ := exists_lexeme h
    exact ⟨left, hleft, gives_of_step (fun _ => rfl) rfl⟩
  | (key, item) :: entries =>
    simp only [entriesTokens, keyTokens, if_pos hkeys.1, List.cons_append, List.append_assoc,
      List.nil_append] at h
    obtain ⟨left, hleft, hstep⟩ := step_flowKey h
    obtain ⟨behind, left, hleft, hkey, hstep⟩ := gives_key hstep hleft
    obtain ⟨left, hleft, hitem⟩ := gives_value item hkeys.2.1 hstep hleft
    obtain ⟨left, hleft, hentries⟩ := gives_entries entries hkeys.2.2 hleft
    rw [entriesPieces, List.cons_append, List.append_assoc]
    exact ⟨left, hleft, hkey.trans (hitem.trans hentries)⟩

end

/-! ## Whole texts -/

theorem two_le_length_keyTokens (key : String) : 2 ≤ (keyTokens key).length := by
  rw [keyTokens]
  split
  · exact Nat.le_succ 2
  · exact Nat.le_refl 2

mutual

theorem length_valuePieces (v : Value) : (valuePieces v).length ≤ (valueTokens v).length := by
  match v with
  | .null => exact Nat.le_refl _
  | .bool _ => exact Nat.le_refl _
  | .number _ => exact Nat.le_refl _
  | .string _ => exact Nat.le_refl _
  | .sequence [] => exact Nat.le_refl _
  | .sequence (item :: items) =>
    have hitem := length_valuePieces item
    have hitems := length_itemsPieces items
    simp only [valuePieces, itemsPieces, valueTokens, List.length_append, List.length_cons]
    omega
  | .mapping [] => exact Nat.le_refl _
  | .mapping ((key, item) :: entries) =>
    have hkey := two_le_length_keyTokens key
    have hitem := length_valuePieces item
    have hentries := length_entriesPieces entries
    simp only [valuePieces, entriesPieces, valueTokens, List.length_append, List.length_cons]
    omega

theorem length_itemsPieces (items : List Value) :
    (itemsPieces items).length ≤ (itemsTokens items).length := by
  match items with
  | [] => exact Nat.le_refl _
  | item :: items =>
    have hitem := length_valuePieces item
    have hitems := length_itemsPieces items
    simp only [itemsPieces, itemsTokens, List.length_append, List.length_cons]
    omega

theorem length_entriesPieces (entries : List (String × Value)) :
    (entriesPieces entries).length ≤ (entriesTokens entries).length := by
  match entries with
  | [] => exact Nat.le_refl _
  | (key, item) :: entries =>
    have hkey := two_le_length_keyTokens key
    have hitem := length_valuePieces item
    have hentries := length_entriesPieces entries
    simp only [entriesPieces, entriesTokens, List.length_append, List.length_cons]
    omega

end

/-- The parts of the first document are collected from its first node on: its start need not
be marked. -/
theorem exists_load_eq {v : Value} (h : lexemes.map Lexeme.token = .streamStart :: valueTokens v) :
    ∃ left : List Lexeme, left.map Lexeme.token = valueTokens v ∧
      ∀ text last, scan text = ⟨lexemes ++ [last], none⟩ →
        load text = collect (4 * left.length + 15) ⟨[], [], []⟩ (Grammar.extend
          ⟨.blockNode, [.documentEnd], [], Grammar.defaultHandles, left, none⟩ [last]) := by
  obtain ⟨start, stop, left, rfl, hleft⟩ := exists_lexeme h
  refine ⟨left, hleft, fun text last hscan => ?_⟩
  have hfirst : ∃ mark, Grammar.step ⟨.firstDocument, [], [], [], left ++ [last], none⟩ =
      .ok (.documentStart, mark, Grammar.extend
        ⟨.blockNode, [.documentEnd], [], Grammar.defaultHandles, left, none⟩ [last]) := by
    obtain ⟨⟨token, start, stop⟩, others, rfl, hstarts⟩ :=
      exists_lexeme_value (hleft.trans (List.append_nil _).symm)
    refine ⟨start, ?_⟩
    obtain ⟨text, style, rfl⟩ | rfl | rfl := hstarts
    · rfl
    · rfl
    · rfl
  obtain ⟨mark, hfirst⟩ := hfirst
  have hstart : Grammar.start ⟨⟨.streamStart, start, stop⟩ :: left ++ [last], none⟩ =
      ⟨.firstDocument, [], [], [], left ++ [last], none⟩ := rfl
  have hfuel : 4 * (⟨.streamStart, start, stop⟩ :: left ++ [last]).length + 8 =
      4 * left.length + 15 + 1 := by
    simp only [List.length_append, List.length_cons, List.length_nil]
    omega
  rw [load, hscan]
  dsimp only
  rw [hfuel, hstart, collect, hfirst]

/-- A document that the stream ends behind. -/
theorem collect_documentEnd {last : Lexeme} (hlast : last.token = .streamEnd) (fuel : Nat)
    (c : Collector) :
    collect (fuel + 1) c (Grammar.extend ⟨.documentEnd, [], [], handles, [], none⟩ [last]) =
      c.finish none true := by
  obtain ⟨token, start, stop⟩ := last
  cases hlast
  rfl

/-- The text of a mapping with near keys is one document, with the parts of the mapping, also
with comments and blank lines behind it. -/
theorem load_write_near {entries : List (String × Value)} (hwhole : WholeNumbersEntries entries)
    (htexts : EveryTextEntries IsSharedText entries) (hkeys : EveryKeyEntries IsNearKey entries) :
    ∃ pieces, pieces.map Prod.fst = valuePieces (.mapping entries) ∧
      ∀ tail, IdleText tail →
        load (write (.mapping entries) ++ String.ofList tail) = ⟨pieces, [], none, true⟩ := by
  obtain ⟨lexemes, htokens, hscan⟩ := scan_write_idle hwhole htexts
  obtain ⟨left, hleft, hload⟩ := exists_load_eq htokens
  obtain ⟨behind, hbehind, pieces, hpieces, hcollect⟩ := gives_value (.mapping entries) hkeys
    readsNode_blockNode (hleft.trans (List.append_nil _).symm)
  rw [List.map_eq_nil_iff] at hbehind
  subst hbehind
  refine ⟨pieces, hpieces, fun tail hidle => ?_⟩
  obtain ⟨last, hlast, hscan⟩ := hscan tail hidle
  have hlength : (valuePieces (.mapping entries)).length ≤ left.length := by
    have hle := length_valuePieces (.mapping entries)
    rwa [← hleft, List.length_map] at hle
  -- One step ends the document, and the others give a part each.
  obtain ⟨spare, hfuel⟩ : ∃ spare, 4 * left.length + 15 =
      spare + 1 + (valuePieces (.mapping entries)).length :=
    ⟨4 * left.length + 14 - (valuePieces (.mapping entries)).length, by omega⟩
  rw [hload _ last hscan, hfuel, hcollect, collect_documentEnd hlast, Collector.finish]
  simp

/-- The text of a mapping with near keys is one document, with the parts of the mapping. -/
theorem load_write {entries : List (String × Value)} (hwhole : WholeNumbersEntries entries)
    (htexts : EveryTextEntries IsSharedText entries) (hkeys : EveryKeyEntries IsNearKey entries) :
    ∃ pieces, load (write (.mapping entries)) = ⟨pieces, [], none, true⟩ ∧
      pieces.map Prod.fst = valuePieces (.mapping entries) := by
  obtain ⟨pieces, hpieces, hload⟩ := load_write_near hwhole htexts hkeys
  have halone := hload [] IdleText.nil
  rw [String.ofList_nil, String.append_empty] at halone
  exact ⟨pieces, halone, hpieces⟩

/-- A stream without a document has one part, which stands for nothing. -/
theorem load_idle {text : String} (h : IdleText text.toList) :
    ∃ mark, load text = ⟨[(.void, mark)], [], none, true⟩ := by
  obtain ⟨lexemes, hscan, htokens⟩ := scan_idle h
  obtain ⟨start, stop, left, rfl, hleft⟩ := exists_lexeme htokens
  obtain ⟨mark, behind, left, rfl, hleft⟩ := exists_lexeme hleft
  refine ⟨mark, ?_⟩
  rw [load, hscan]
  rfl

end PageManifest.Yaml
