import PageManifest.Proofs.Yaml.Events

/-!
# Keys that reach too far

A key that its colon cannot follow in time is not marked as one. The grammar takes it for a
key without a value and fails at the colon behind it (`stops_farKey`), so a value with such a
key gives the parts in front of the first one and no more (`stops_value`). What is wrong has its
place inside the value: whatever the keys of a mapping are, its document stays the same with
comments and blank lines behind its text (`load_write_idle`).
-/

namespace PageManifest.Yaml

open Json Value

/-! ## Failing behind some parts -/

/-- No more than a number of parts are collected, and then the next step fails, both in the
same way whatever tokens are at the end. -/
def Stops (g : Grammar) (count : Nat) : Prop :=
  ∃ found later malformation, found.length ≤ count ∧ Gives g found later ∧
    ∀ behind, (later.extend behind).step = .error malformation

theorem Stops.mono {g : Grammar} {m n : Nat} (h : Stops g m) (hmn : m ≤ n) : Stops g n := by
  obtain ⟨found, later, malformation, hcount, hgives, hstep⟩ := h
  exact ⟨found, later, malformation, Nat.le_trans hcount hmn, hgives, hstep⟩

theorem Gives.stops {g later : Grammar} {found : List Piece} {count : Nat}
    (hgives : Gives g found later) (h : Stops later count) : Stops g (found.length + count) := by
  obtain ⟨others, last, malformation, hcount, hothers, hstep⟩ := h
  refine ⟨found ++ others, last, malformation, ?_, hgives.trans hothers, hstep⟩
  rw [List.length_append]
  exact Nat.add_le_add_left hcount _

/-- What is collected by then, and what is wrong. -/
theorem Stops.collect_eq {g : Grammar} {count : Nat} (h : Stops g count) :
    ∃ doc : Document, ∀ behind fuel, count < fuel →
      collect fuel ⟨[], [], []⟩ (g.extend behind) = doc := by
  obtain ⟨found, later, malformation, hcount, ⟨pieces, -, hcollect⟩, hstep⟩ := h
  refine ⟨⟨pieces, [], some (.malformed malformation), false⟩, fun behind fuel hfuel => ?_⟩
  obtain ⟨spare, rfl⟩ : ∃ spare, fuel = spare + 1 + found.length :=
    ⟨fuel - 1 - found.length, by omega⟩
  rw [hcollect, collect, hstep]
  simp [Collector.finish]

/-! ## Steps of the grammar -/

variable {expecting : Expecting} {waiting : List Expecting} {mark : Mark} {began : List Mark}
  {handles : List (String × TagText)} {lexemes : List Lexeme} {fault : Option Malformation}
  {rest : List Token}

/-- A far key is read as one without a value, and its colon is no comma. -/
theorem stops_farKey {g : Grammar} {key : String}
    (hstep : g.ReadsNode ⟨expecting, .flowEmptyValue :: waiting, mark :: began, handles, lexemes,
      fault⟩ false)
    (h : lexemes.map Lexeme.token = .scalar key .doubleQuoted :: .value :: rest) : Stops g 2 := by
  obtain ⟨left, hvalue, hkey⟩ := gives_scalar hstep h
  obtain ⟨start, stop, left, rfl, -⟩ := exists_lexeme hvalue
  have hempty : Gives ⟨.flowEmptyValue, waiting, mark :: began, handles,
      ⟨.value, start, stop⟩ :: left, fault⟩ [.scalar none "" .plain]
      ⟨.flowKey, waiting, mark :: began, handles, ⟨.value, start, stop⟩ :: left, fault⟩ :=
    gives_of_step (fun _ => rfl) rfl
  exact ⟨[.scalar none key .doubleQuoted, .scalar none "" .plain], _,
    .faulty .noMappingSeparator start (some (.flowMapping, mark)), Nat.le_refl 2,
    hkey.trans hempty, fun _ => rfl⟩

theorem step_firstFlowKey_far {key : String} (h : lexemes.map Lexeme.token =
      .flowMappingStart :: .scalar key .doubleQuoted :: rest) :
    ∃ mark left, left.map Lexeme.token = .scalar key .doubleQuoted :: rest ∧
      Grammar.ReadsNode ⟨.firstFlowKey, waiting, began, handles, lexemes, fault⟩
        ⟨.firstFlowKey, .flowEmptyValue :: waiting, mark :: began, handles, left, fault⟩
        false := by
  obtain ⟨start, stop, left, rfl, hscalar⟩ := exists_lexeme h
  obtain ⟨_, _, left, rfl, -⟩ := exists_lexeme hscalar
  exact ⟨start, _, hscalar, fun _ => rfl⟩

theorem step_flowKey_far {key : String} (h : lexemes.map Lexeme.token =
      .flowEntry :: .scalar key .doubleQuoted :: rest) :
    ∃ left, left.map Lexeme.token = .scalar key .doubleQuoted :: rest ∧
      Grammar.ReadsNode ⟨.flowKey, waiting, began, handles, lexemes, fault⟩
        ⟨.flowKey, .flowEmptyValue :: waiting, began, handles, left, fault⟩ false := by
  obtain ⟨start, stop, left, rfl, hscalar⟩ := exists_lexeme h
  obtain ⟨_, _, left, rfl, -⟩ := exists_lexeme hscalar
  exact ⟨_, hscalar, fun _ => rfl⟩

/-! ## Values -/

/-- Behind a near key the far one is in the value or in the entries behind it. -/
theorem stops_pair {item : Value} {entries : List (String × Value)}
    (hfar : ¬ (item.EveryKey IsNearKey ∧ EveryKeyEntries IsNearKey entries)) {g : Grammar}
    (hstep : g.ReadsNode ⟨expecting, .flowKey :: waiting, mark :: began, handles, lexemes, fault⟩
      false)
    (h : lexemes.map Lexeme.token = valueTokens item ++ (entriesTokens entries ++ rest))
    (hitem : ¬ item.EveryKey IsNearKey → Stops g (valueTokens item).length)
    (hentries : ¬ EveryKeyEntries IsNearKey entries → ∀ left : List Lexeme,
      left.map Lexeme.token = entriesTokens entries ++ rest →
        Stops ⟨.flowKey, waiting, mark :: began, handles, left, fault⟩
          (entriesTokens entries).length) :
    Stops g ((valueTokens item).length + (entriesTokens entries).length) := by
  by_cases hnear : item.EveryKey IsNearKey
  · obtain ⟨left, hleft, hgives⟩ := gives_value item hnear hstep h
    have hothers := hentries (fun hentries => hfar ⟨hnear, hentries⟩) left hleft
    have hlength := length_valuePieces item
    exact (hgives.stops hothers).mono (Nat.add_le_add_right hlength _)
  · exact (hitem hnear).mono (Nat.le_add_right _ _)

mutual

/-- A value with a far key fails at the first one. -/
theorem stops_value (v : Value) (hfar : ¬ v.EveryKey IsNearKey) {g : Grammar}
    {expecting next : Expecting} {waiting : List Expecting} {began : List Mark}
    {handles : List (String × TagText)} {lexemes : List Lexeme} {fault : Option Malformation}
    {rest : List Token} {block : Bool}
    (hstep : g.ReadsNode ⟨expecting, next :: waiting, began, handles, lexemes, fault⟩ block)
    (h : lexemes.map Lexeme.token = valueTokens v ++ rest) : Stops g (valueTokens v).length := by
  match v with
  | .null | .bool _ | .number _ | .string _ => exact absurd trivial hfar
  | .sequence [] => exact absurd trivial hfar
  | .sequence (item :: items) =>
    simp only [valueTokens, List.cons_append, List.append_assoc, List.nil_append] at h
    have hopen := gives_sequenceStart hstep h
    obtain ⟨mark, left, hleft, hstep⟩ := step_firstFlowEntry h
    simp only [valueTokens, List.length_append, List.length_cons]
    by_cases hitem : item.EveryKey IsNearKey
    · obtain ⟨left, hleft, hgives⟩ := gives_value item hitem hstep hleft
      have hlength := length_valuePieces item
      refine (hopen.stops (hgives.stops
        (stops_items items (fun hitems => hfar ⟨hitem, hitems⟩) hleft))).mono ?_
      rw [List.length_singleton]
      omega
    · refine (hopen.stops (stops_value item hitem hstep hleft)).mono ?_
      rw [List.length_singleton]
      omega
  | .mapping [] => exact absurd trivial hfar
  | .mapping ((key, item) :: entries) =>
    simp only [valueTokens, List.cons_append, List.append_assoc, List.nil_append] at h
    have hopen := gives_mappingStart hstep h
    have hlengthKey := two_le_length_keyTokens key
    simp only [valueTokens, List.length_append, List.length_cons]
    by_cases hkey : IsNearKey key
    · simp only [keyTokens, if_pos hkey, List.cons_append, List.nil_append] at h
      obtain ⟨mark, left, hleft, hstep⟩ := step_firstFlowKey h
      obtain ⟨behind, left, hleft, hgives, hstep⟩ := gives_key hstep hleft
      refine (hopen.stops (hgives.stops (stops_pair (fun hpair => hfar ⟨hkey, hpair⟩) hstep hleft
        (fun hitem => stops_value item hitem hstep hleft)
        fun hentries left hleft => stops_entries entries hentries hleft))).mono ?_
      rw [List.length_singleton, List.length_singleton]
      omega
    · simp only [keyTokens, if_neg hkey, List.cons_append, List.nil_append] at h
      obtain ⟨mark, left, hleft, hstep⟩ := step_firstFlowKey_far h
      refine (hopen.stops (stops_farKey hstep hleft)).mono ?_
      rw [List.length_singleton]
      omega

theorem stops_items (items : List Value) (hfar : ¬ EveryKeyItems IsNearKey items)
    {waiting : List Expecting} {began : List Mark} {handles : List (String × TagText)}
    {lexemes : List Lexeme} {fault : Option Malformation} {rest : List Token}
    (h : lexemes.map Lexeme.token = itemsTokens items ++ rest) :
    Stops ⟨.flowEntry, waiting, began, handles, lexemes, fault⟩ (itemsTokens items).length := by
  match items with
  | [] => exact absurd trivial hfar
  | item :: items =>
    simp only [itemsTokens, List.cons_append, List.append_assoc] at h
    obtain ⟨left, hleft, hstep⟩ := step_flowEntry h
    simp only [itemsTokens, List.length_append, List.length_cons]
    by_cases hitem : item.EveryKey IsNearKey
    · obtain ⟨left, hleft, hgives⟩ := gives_value item hitem hstep hleft
      have hlength := length_valuePieces item
      refine (hgives.stops (stops_items items (fun hitems => hfar ⟨hitem, hitems⟩) hleft)).mono ?_
      omega
    · exact (stops_value item hitem hstep hleft).mono (by omega)

theorem stops_entries (entries : List (String × Value))
    (hfar : ¬ EveryKeyEntries IsNearKey entries) {waiting : List Expecting} {mark : Mark}
    {began : List Mark} {handles : List (String × TagText)} {lexemes : List Lexeme}
    {fault : Option Malformation} {rest : List Token}
    (h : lexemes.map Lexeme.token = entriesTokens entries ++ rest) :
    Stops ⟨.flowKey, waiting, mark :: began, handles, lexemes, fault⟩
      (entriesTokens entries).length := by
  match entries with
  | [] => exact absurd trivial hfar
  | (key, item) :: entries =>
    simp only [entriesTokens, List.cons_append, List.append_assoc] at h
    have hlength := two_le_length_keyTokens key
    simp only [entriesTokens, List.length_append, List.length_cons]
    by_cases hkey : IsNearKey key
    · simp only [keyTokens, if_pos hkey, List.cons_append, List.nil_append] at h
      obtain ⟨left, hleft, hstep⟩ := step_flowKey h
      obtain ⟨behind, left, hleft, hgives, hstep⟩ := gives_key hstep hleft
      refine (hgives.stops (stops_pair (fun hpair => hfar ⟨hkey, hpair⟩) hstep hleft
        (fun hitem => stops_value item hitem hstep hleft)
        fun hentries left hleft => stops_entries entries hentries hleft)).mono ?_
      rw [List.length_singleton]
      omega
    · simp only [keyTokens, if_neg hkey, List.cons_append, List.nil_append] at h
      obtain ⟨left, hleft, hstep⟩ := step_flowKey_far h
      exact (stops_farKey hstep hleft).mono (by omega)

end

/-! ## Whole texts -/

/-- Comments and blank lines behind the text of a mapping change nothing in its document. -/
theorem load_write_idle {entries : List (String × Value)} (hwhole : WholeNumbersEntries entries)
    (htexts : EveryTextEntries IsSharedText entries) {tail : List Char} (hidle : IdleText tail) :
    load (write (.mapping entries) ++ String.ofList tail) = load (write (.mapping entries)) := by
  obtain ⟨doc, hdoc⟩ : ∃ doc, ∀ tail, IdleText tail →
      load (write (.mapping entries) ++ String.ofList tail) = doc := by
    by_cases hkeys : EveryKeyEntries IsNearKey entries
    · obtain ⟨pieces, -, hload⟩ := load_write_near hwhole htexts hkeys
      exact ⟨_, hload⟩
    · obtain ⟨lexemes, htokens, hscan⟩ := scan_write_idle hwhole htexts
      obtain ⟨left, hleft, hload⟩ := exists_load_eq htokens
      obtain ⟨doc, hdoc⟩ := (stops_value (.mapping entries) hkeys readsNode_blockNode
        (hleft.trans (List.append_nil _).symm)).collect_eq
      rw [← hleft, List.length_map] at hdoc
      refine ⟨doc, fun tail hidle => ?_⟩
      obtain ⟨last, -, hscan⟩ := hscan tail hidle
      rw [hload _ last hscan]
      exact hdoc _ _ (by omega)
  have halone := hdoc [] IdleText.nil
  rw [String.ofList_nil, String.append_empty] at halone
  rw [hdoc tail hidle, halone]

end PageManifest.Yaml
