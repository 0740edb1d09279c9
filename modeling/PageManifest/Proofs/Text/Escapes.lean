import PageManifest.Decimal.Form
import PageManifest.Proofs.General
import PageManifest.Proofs.Json.Lexical
import PageManifest.Text.Paint
import PageManifest.Text.Quoted
import PageManifest.Text.Table

/-!
# Texts without escape characters

A text without escape characters (`EscapeFree`) stays the same when escape sequences are
deleted, and a painted one becomes what it is without paint (`deleteSequences_paint`). Numbers,
quoted texts and tables of such texts are without escape characters, too.
-/

namespace PageManifest.Text

/-! ## Deleting sequences -/

/-- The characters without the escape sequences among them. What has been read of a sequence is
kept until its end is found, since one that does not end stays. -/
def deleteSequences : Option (List Char) → List Char → List Char
  | none, [] => []
  | some begun, [] => begun
  | some begun, c :: rest =>
    if c = 'm' then deleteSequences none rest else deleteSequences (some (begun ++ [c])) rest
  | none, '\x1b' :: '[' :: rest => deleteSequences (some ['\x1b', '[']) rest
  | none, c :: rest => c :: deleteSequences none rest

/-- The text without its escape sequences. -/
def withoutSequences (text : String) : String := String.ofList (deleteSequences none text.toList)

/-- No escape character is among the characters of a text. -/
def EscapeFree (text : String) : Prop := '\x1b' ∉ text.toList

instance (text : String) : Decidable (EscapeFree text) := inferInstanceAs (Decidable (¬ _))

theorem deleteSequences_cons {c : Char} (hc : c ≠ '\x1b') (cs : List Char) :
    deleteSequences none (c :: cs) = c :: deleteSequences none cs := by
  rw [deleteSequences]
  rintro rest rfl
  exact absurd rfl hc

theorem deleteSequences_append {front : List Char} (h : '\x1b' ∉ front) (behind : List Char) :
    deleteSequences none (front ++ behind) = front ++ deleteSequences none behind := by
  induction front with
  | nil => rfl
  | cons c front ih =>
    rw [List.mem_cons, not_or] at h
    rw [List.cons_append, deleteSequences_cons (Ne.symm h.1), ih h.2, List.cons_append]

theorem deleteSequences_of_notMem {cs : List Char} (h : '\x1b' ∉ cs) :
    deleteSequences none cs = cs := by
  have hnothing := deleteSequences_append h []
  rw [List.append_nil] at hnothing
  rw [hnothing]
  exact List.append_nil cs

theorem EscapeFree.withoutSequences_eq {text : String} (h : EscapeFree text) :
    withoutSequences text = text := by
  rw [withoutSequences, deleteSequences_of_notMem h, String.ofList_toList]

/-- All sequences that a text starts end in it, so that they are deleted in the text as they are
with something behind it. -/
def Completed (text : String) : Prop :=
  ∀ behind, deleteSequences none (text.toList ++ behind) =
    deleteSequences none text.toList ++ deleteSequences none behind

theorem EscapeFree.completed {text : String} (h : EscapeFree text) : Completed text := by
  intro behind
  rw [deleteSequences_append h, deleteSequences_of_notMem h]

theorem Completed.append {a b : String} (ha : Completed a) (hb : Completed b) :
    Completed (a ++ b) := by
  intro behind
  rw [String.toList_append, List.append_assoc, ha, hb, ha, List.append_assoc]

/-- A sequence ends at the first letter `m`. -/
theorem deleteSequences_begun {body : List Char} (h : 'm' ∉ body) (begun behind : List Char) :
    deleteSequences (some begun) (body ++ 'm' :: behind) = deleteSequences none behind := by
  induction body generalizing begun with
  | nil => rw [List.nil_append, deleteSequences, if_pos rfl]
  | cons c body ih =>
    rw [List.mem_cons, not_or] at h
    rw [List.cons_append, deleteSequences, if_neg (Ne.symm h.1), ih h.2]

theorem deleteSequences_escapeSequence {body : String} (h : 'm' ∉ body.toList)
    (behind : List Char) :
    deleteSequences none ((escapeSequence body).toList ++ behind) = deleteSequences none behind := by
  have htext : (escapeSequence body).toList ++ behind =
      '\x1b' :: '[' :: (body.toList ++ 'm' :: behind) := by
    simp [escapeSequence]
  rw [htext, deleteSequences, deleteSequences_begun h]

/-- What is painted is only the text that is left when the sequences around it are deleted. -/
theorem deleteSequences_paint (color : Color) {text : String} (h : EscapeFree text)
    (behind : List Char) :
    deleteSequences none ((paint color text).toList ++ behind) =
      text.toList ++ deleteSequences none behind := by
  have hcolor : 'm' ∉ ("38;5;" ++ toString color.number).toList := by cases color <;> decide
  have hend : 'm' ∉ "39".toList := by decide
  rw [paint, String.toList_append, String.toList_append, List.append_assoc, List.append_assoc,
    startColor, deleteSequences_escapeSequence hcolor, deleteSequences_append h,
    deleteSequences_escapeSequence hend]

/-! ## Texts that are put together -/

@[simp] theorem escapeFree_append {a b : String} :
    EscapeFree (a ++ b) ↔ EscapeFree a ∧ EscapeFree b := by
  simp [EscapeFree]

theorem escapeFree_ofList {cs : List Char} : EscapeFree (String.ofList cs) ↔ '\x1b' ∉ cs := by
  rw [EscapeFree, String.toList_ofList]

/-- A literal is the text of its characters. -/
theorem EscapeFree.of_chars {cs : List Char} (h : '\x1b' ∉ cs) : EscapeFree (String.ofList cs) :=
  escapeFree_ofList.mpr h

theorem escapeFree_intercalate {separator : String} {texts : List String}
    (hseparator : EscapeFree separator) (h : ∀ text ∈ texts, EscapeFree text) :
    EscapeFree (separator.intercalate texts) := by
  rw [EscapeFree, String.toList_intercalate]
  intro hmem
  obtain hmem | ⟨part, hpart, hmem⟩ := mem_of_mem_intercalate hmem
  · exact hseparator hmem
  · obtain ⟨text, htext, rfl⟩ := List.mem_map.mp hpart
    exact h text htext hmem

/-! ## Numbers -/

theorem mem_toDigits {base n : Nat} (hbase : 1 < base) {c : Char} (h : c ∈ Nat.toDigits base n) :
    ∃ digit, c = Nat.digitChar digit := by
  induction n using Nat.strongRecOn with
  | ind n ih =>
    rw [Nat.toDigits_eq_if hbase] at h
    split at h
    · exact ⟨n, List.mem_singleton.mp h⟩
    · rename_i hle
      obtain h | h := List.mem_append.mp h
      · exact ih _ (Nat.div_lt_self (by omega) hbase) h
      · exact ⟨_, List.mem_singleton.mp h⟩

/-- A character is ASCII and not a control. -/
def IsPrintableAscii (c : Char) : Prop := 0x20 ≤ c.toNat ∧ c.toNat ≤ 0x7E

instance (c : Char) : Decidable (IsPrintableAscii c) := inferInstanceAs (Decidable (_ ∧ _))

theorem isPrintableAscii_of_mem_toDigits {base n : Nat} (hbase : 1 < base) :
    ∀ c ∈ Nat.toDigits base n, IsPrintableAscii c := by
  intro c hc
  obtain ⟨digit, rfl⟩ := mem_toDigits hbase hc
  by_cases hdigit : digit < 16
  · have hall : ∀ d < 16, IsPrintableAscii (Nat.digitChar d) := by decide
    exact hall digit hdigit
  · rw [Nat.digitChar_eq_star.mpr (by omega)]
    decide

theorem notMem_of_isPrintableAscii {cs : List Char} (h : ∀ c ∈ cs, IsPrintableAscii c) :
    '\x1b' ∉ cs := fun hmem => absurd (h _ hmem) (by decide)

theorem notMem_toDigits {base n : Nat} (hbase : 1 < base) : '\x1b' ∉ Nat.toDigits base n :=
  notMem_of_isPrintableAscii (isPrintableAscii_of_mem_toDigits hbase)

theorem escapeFree_toString_nat (n : Nat) : EscapeFree (toString n) := by
  rw [Nat.toString_eq_ofList_toDigits, escapeFree_ofList]
  exact notMem_toDigits (by decide)

theorem escapeFree_toString_int (n : Int) : EscapeFree (toString n) := by
  cases n with
  | ofNat n => exact escapeFree_toString_nat n
  | negSucc n =>
    show EscapeFree ("-" ++ toString (n + 1))
    rw [escapeFree_append]
    exact ⟨.of_chars (by decide), escapeFree_toString_nat _⟩

theorem escapeFree_toString_bool (b : Bool) : EscapeFree (toString b) := by
  cases b
  · exact .of_chars (by decide)
  · exact .of_chars (by decide)

theorem notMem_positional (form : Decimal.Form) {digits : List Char} (h : '\x1b' ∉ digits)
    (lead : Int) : '\x1b' ∉ form.positional digits lead := by
  have htake : ∀ n, '\x1b' ∉ digits.take n := fun n hmem => h (List.mem_of_mem_take hmem)
  have hdrop : ∀ n, '\x1b' ∉ digits.drop n := fun n hmem => h (List.mem_of_mem_drop hmem)
  unfold Decimal.Form.positional
  dsimp only
  split
  · split
    · simp [htake, hdrop]
    · split <;> simp [h]
  · simp [h]

theorem notMem_scientific (form : Decimal.Form) {digits : List Char} (h : '\x1b' ∉ digits)
    (lead : Int) : '\x1b' ∉ form.scientific digits lead := by
  have hexponent : ∀ n, '\x1b' ∉ Nat.toDigits 10 n := fun n => notMem_toDigits (by decide)
  unfold Decimal.Form.scientific
  dsimp only
  rw [List.mem_append, List.mem_cons]
  rintro (hmem | hmem | hmem)
  · revert hmem
    split <;> simp_all
  · cases hmem
  · revert hmem
    split
    · split <;> simp [hexponent]
    · simp [hexponent]

theorem escapeFree_write (form : Decimal.Form) (x : Binary64) : EscapeFree (form.write x) := by
  have hdigits := notMem_toDigits (n := (Decimal.shortest x).digits) (show 1 < 10 by decide)
  rw [Decimal.Form.write, escapeFree_ofList, List.mem_append]
  rintro (hmem | hmem)
  · revert hmem
    split <;> decide
  · revert hmem
    split
    · exact notMem_positional form hdigits _
    · exact notMem_scientific form hdigits _

/-! ## Quoted texts and tables -/

/-- An escape character has no visible form, so it is written by its number. -/
theorem notMem_escape (c : Char) : '\x1b' ∉ Quoted.escape c := by
  have hnumbered : '\x1b' ∉ Quoted.numbered c := by
    have := notMem_toDigits (n := c.toNat) (show 1 < 16 by decide)
    simp [Quoted.numbered, this]
  unfold Quoted.escape
  split
  · decide
  · decide
  · decide
  · decide
  · decide
  · decide
  · split
    · exact hnumbered
    · rename_i hvisible
      rw [List.mem_singleton]
      rintro rfl
      exact hvisible (by decide)

theorem escapeFree_quote (text : String) : EscapeFree (Quoted.quote text) := by
  have hescaped : '\x1b' ∉ text.toList.flatMap Quoted.escape := by
    intro hmem
    obtain ⟨c, -, hc⟩ := List.mem_flatMap.mp hmem
    exact notMem_escape c hc
  rw [Quoted.quote, escapeFree_ofList]
  simp [hescaped]

theorem notMem_lines {cs : List Char} (h : '\x1b' ∉ cs) : ∀ line ∈ Table.lines cs, '\x1b' ∉ line := by
  induction cs with
  | nil => simp [Table.lines]
  | cons c cs ih =>
    rw [List.mem_cons, not_or] at h
    have hrest := ih h.2
    unfold Table.lines
    split
    · exact List.forall_mem_cons.mpr ⟨List.not_mem_nil, hrest⟩
    · split
      · simpa using h.1
      · rename_i line others hlines
        rw [hlines, List.forall_mem_cons] at hrest
        rw [List.forall_mem_cons]
        exact ⟨List.not_mem_cons_of_ne_of_not_mem h.1 hrest.1, hrest.2⟩

/-- No line of a cell has an escape character. -/
def RowEscapeFree (row : Table.Row) : Prop := ∀ cell ∈ row, ∀ line ∈ cell, '\x1b' ∉ line

theorem rowEscapeFree_row {texts : List String} (h : ∀ text ∈ texts, EscapeFree text) :
    RowEscapeFree (Table.row texts) := by
  intro cell hcell
  obtain ⟨text, htext, rfl⟩ := List.mem_map.mp hcell
  exact notMem_lines (h text htext)

theorem notMem_rule {outer stroke crossing : Char} (houter : outer ≠ '\x1b')
    (hstroke : stroke ≠ '\x1b') (hcrossing : crossing ≠ '\x1b') (widths : List Nat) :
    '\x1b' ∉ Table.rule outer stroke crossing widths := by
  have hinner : '\x1b' ∉ [crossing].intercalate
      (widths.map fun n => List.replicate (n + 2) stroke) := by
    intro hmem
    obtain hmem | ⟨part, hpart, hmem⟩ := mem_of_mem_intercalate hmem
    · exact hcrossing (List.mem_singleton.mp hmem).symm
    · obtain ⟨n, -, rfl⟩ := List.mem_map.mp hpart
      exact hstroke (List.eq_of_mem_replicate hmem).symm
  simp [Table.rule, hinner, houter.symm]

theorem notMem_rowLines (widths : List Nat) {row : Table.Row} (h : RowEscapeFree row) :
    ∀ line ∈ Table.rowLines widths row, '\x1b' ∉ line := by
  intro line hline
  obtain ⟨index, -, rfl⟩ := List.mem_map.mp hline
  unfold Table.textLine
  dsimp only
  rw [List.mem_append, List.mem_cons]
  rintro ((hmem | hmem) | hmem)
  · exact absurd hmem (by decide)
  · obtain hmem | ⟨part, hpart, hmem⟩ := mem_of_mem_intercalate hmem
    · exact absurd hmem (by decide)
    · obtain ⟨⟨n, cell⟩, hcell, rfl⟩ := List.mem_map.mp hpart
      have hline : '\x1b' ∉ (cell[index]?).getD [] := by
        cases hline : cell[index]? with
        | none => exact List.not_mem_nil
        | some line => exact h cell (List.of_mem_zip hcell).2 line (List.mem_of_getElem? hline)
      simp [padTo, hline] at hmem
  · exact absurd hmem (by decide)

/-- No cell of the table has an escape character. -/
structure Table.IsPlain (table : Table) : Prop where
  header : ∀ cell ∈ table.header, EscapeFree cell.text
  rows : ∀ row ∈ table.rows, ∀ text ∈ row, EscapeFree text

theorem Table.IsPlain.escapeFree_draw {table : Table} (h : table.IsPlain) :
    EscapeFree table.draw := by
  have hrule : ∀ outer stroke crossing, outer ≠ '\x1b' ∧ stroke ≠ '\x1b' ∧ crossing ≠ '\x1b' →
      ∀ widths, '\x1b' ∉ Table.rule outer stroke crossing widths :=
    fun outer stroke crossing h => notMem_rule h.1 h.2.1 h.2.2
  have hheader : ∀ text ∈ table.header.map HeaderCell.text, EscapeFree text := by
    rw [List.forall_mem_map]
    exact h.header
  have hlines := fun widths => notMem_rowLines widths (rowEscapeFree_row hheader)
  have hrows : ∀ widths, ∀ lines ∈ (table.rows.map Table.row).map (Table.rowLines widths),
      ∀ line ∈ lines, '\x1b' ∉ line := by
    intro widths lines hmem
    obtain ⟨row, hrow, rfl⟩ := List.mem_map.mp hmem
    obtain ⟨texts, htexts, rfl⟩ := List.mem_map.mp hrow
    exact notMem_rowLines widths (rowEscapeFree_row (h.rows texts htexts))
  rw [Table.draw, escapeFree_ofList]
  intro hmem
  obtain hmem | ⟨line, hline, hmem⟩ := mem_of_mem_intercalate hmem
  · exact absurd hmem (by decide)
  · simp only [List.mem_append, List.mem_singleton, or_assoc] at hline
    obtain rfl | hline | rfl | hline | rfl := hline
    · exact hrule _ _ _ (by decide) _ hmem
    · exact hlines _ line hline hmem
    · exact hrule _ _ _ (by decide) _ hmem
    · obtain hbetween | ⟨lines, hlines, hline⟩ := mem_of_mem_intercalate hline
      · rw [List.mem_singleton.mp hbetween] at hmem
        exact hrule _ _ _ (by decide) _ hmem
      · exact hrows _ lines hlines line hline hmem
    · exact hrule _ _ _ (by decide) _ hmem

end PageManifest.Text
