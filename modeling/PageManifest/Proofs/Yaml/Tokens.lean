import PageManifest.Proofs.Json.RoundTrip
import PageManifest.Proofs.Yaml.Comments

/-!
# Tokens of JSON text

The text of a value gives the tokens that the value suggests (`at_value`), as long as its
strings and keys (`EveryText`) have shared characters only. A key is marked as one if it does
not reach too far (`keyTokens`). The text of a mapping does so with nothing around it but
comments and blank lines (`scan_write_idle`).
-/

namespace PageManifest

namespace Value

mutual

/-- Every string and every key of a value has a property, at every depth. -/
def EveryText (p : String → Prop) : Value → Prop
  | .string text => p text
  | .sequence items => EveryTextItems p items
  | .mapping entries => EveryTextEntries p entries
  | _ => True

def EveryTextItems (p : String → Prop) : List Value → Prop
  | [] => True
  | item :: items => item.EveryText p ∧ EveryTextItems p items

def EveryTextEntries (p : String → Prop) : List (String × Value) → Prop
  | [] => True
  | (key, item) :: entries => p key ∧ item.EveryText p ∧ EveryTextEntries p entries

end

mutual

/-- Every key of a value has a property, at every depth. -/
def EveryKey (p : String → Prop) : Value → Prop
  | .sequence items => EveryKeyItems p items
  | .mapping entries => EveryKeyEntries p entries
  | _ => True

def EveryKeyItems (p : String → Prop) : List Value → Prop
  | [] => True
  | item :: items => item.EveryKey p ∧ EveryKeyItems p items

def EveryKeyEntries (p : String → Prop) : List (String × Value) → Prop
  | [] => True
  | (key, item) :: entries => p key ∧ item.EveryKey p ∧ EveryKeyEntries p entries

end

end Value

namespace Yaml

open Json Value

/-! ## Values -/

/-- A key that its colon can follow in time. -/
def IsNearKey (key : String) : Prop := byteCount (stringText key) ≤ keyReach

instance (key : String) : Decidable (IsNearKey key) :=
  inferInstanceAs (Decidable (byteCount (stringText key) ≤ keyReach))

/-- The tokens that a key is written with. A key that reaches too far is not marked as one. -/
def keyTokens (key : String) : List Token :=
  if IsNearKey key then [.key, .scalar key .doubleQuoted, .value]
  else [.scalar key .doubleQuoted, .value]

mutual

/-- The tokens that a value is written with. -/
def valueTokens : Value → List Token
  | .string text => [.scalar text .doubleQuoted]
  | .sequence [] => [.flowSequenceStart, .flowSequenceEnd]
  | .sequence (item :: items) =>
    .flowSequenceStart :: valueTokens item ++ itemsTokens items ++ [.flowSequenceEnd]
  | .mapping [] => [.flowMappingStart, .flowMappingEnd]
  | .mapping ((key, item) :: entries) =>
    .flowMappingStart :: keyTokens key ++ valueTokens item ++ entriesTokens entries ++
      [.flowMappingEnd]
  | .null => [.scalar "null" .plain]
  | .bool b => [.scalar (if b then "true" else "false") .plain]
  | .number n => [.scalar (String.ofList (numberText n)) .plain]

/-- The tokens of items, each behind a comma. -/
def itemsTokens : List Value → List Token
  | [] => []
  | item :: items => .flowEntry :: valueTokens item ++ itemsTokens items

/-- The tokens of entries, each behind a comma. -/
def entriesTokens : List (String × Value) → List Token
  | [] => []
  | (key, item) :: entries =>
    .flowEntry :: keyTokens key ++ valueTokens item ++ entriesTokens entries

end

theorem isNameChar_intText (n : Int) : ∀ c ∈ intText n, isNameChar c = true := by
  have hdigit : ∀ c : Char, c.isDigit = true → isNameChar c = true := by
    intro c hc
    simp [isNameChar, Char.isAlphanum, hc]
  intro c hc
  cases n with
  | ofNat n => exact hdigit c (isDigit_of_mem_toDigits hc)
  | negSucc n =>
    obtain rfl | hc := List.mem_cons.mp hc
    · decide
    · exact hdigit c (isDigit_of_mem_toDigits hc)

theorem intText_ne_nil (n : Int) : intText n ≠ [] := by
  cases n with
  | ofNat n =>
    obtain ⟨c, cs, hdigits, -⟩ := exists_toDigits_eq_cons n
    rw [intText, hdigits]
    exact List.cons_ne_nil c cs
  | negSucc n => exact List.cons_ne_nil _ _

theorem endsPlain_itemsText (items : List Value) (rest : List Char) :
    EndsPlain (itemsText items ++ ']' :: rest) := by
  cases items with
  | nil => exact ⟨']', rest, rfl, by decide⟩
  | cons item items => exact ⟨',', _, rfl, by decide⟩

theorem endsPlain_entriesText (entries : List (String × Value)) (rest : List Char) :
    EndsPlain (entriesText entries ++ '}' :: rest) := by
  cases entries with
  | nil => exact ⟨'}', rest, rfl, by decide⟩
  | cons entry entries => exact ⟨',', _, rfl, by decide⟩

/-- A key with its colon gives its tokens. -/
theorem at_key {key : String} {lx : Lexer} {depth : Nat} {found : List Token} {rest : List Char}
    (hdepth : 0 < depth) (hallowed : lx.keyAllowed = true) (hshared : IsSharedText key)
    (h : lx.At depth found (stringText key ++ ':' :: rest)) :
    ∃ later, Lexer.Reaches ((stringText key).length + 1) lx later ∧
      later.At depth (found ++ keyTokens key) rest := by
  rw [keyTokens]
  split
  · rename_i hnear
    exact h.key hdepth hallowed hshared hnear
  · rename_i hfar
    exact h.farKey hdepth hallowed hshared (Nat.lt_of_not_le hfar)

mutual

/-- A value in brackets gives its tokens. -/
theorem at_value (v : Value) (hwhole : v.WholeNumbers) (htexts : v.EveryText IsSharedText)
    {lx : Lexer} {depth : Nat} {found : List Token} {rest : List Char} (hdepth : 0 < depth)
    (hrest : EndsPlain rest)
    (h : lx.At depth found (valueText v ++ rest)) :
    ∃ later, Lexer.Reaches (valueText v).length lx later ∧
      later.At depth (found ++ valueTokens v) rest := by
  match v with
  | .null =>
    obtain ⟨later, hreaches, hat⟩ := h.plain hdepth (by decide)
      (List.all_eq_true.mp (by decide)) hrest
    exact ⟨later, hreaches.mono (by decide), hat⟩
  | .bool true =>
    obtain ⟨later, hreaches, hat⟩ := h.plain hdepth (by decide)
      (List.all_eq_true.mp (by decide)) hrest
    exact ⟨later, hreaches.mono (by decide), hat⟩
  | .bool false =>
    obtain ⟨later, hreaches, hat⟩ := h.plain hdepth (by decide)
      (List.all_eq_true.mp (by decide)) hrest
    exact ⟨later, hreaches.mono (by decide), hat⟩
  | .number (.float _) => exact hwhole.elim
  | .number (.int n) =>
    obtain ⟨later, hreaches, hat⟩ := h.plain hdepth (intText_ne_nil n) (isNameChar_intText n) hrest
    exact ⟨later, hreaches.mono (List.length_pos_iff.mpr (intText_ne_nil n)), hat⟩
  | .string text =>
    obtain ⟨next, -, hreaches, hat⟩ := h.quoted htexts
    exact ⟨next.fresh, hreaches.mono (Nat.succ_pos _), hat.fresh⟩
  | .sequence items => exact at_sequence items hwhole htexts h
  | .mapping entries => exact at_mapping entries hwhole htexts h

theorem at_sequence (items : List Value) (hwhole : WholeNumbersItems items)
    (htexts : EveryTextItems IsSharedText items) {lx : Lexer} {depth : Nat} {found : List Token}
    {rest : List Char}
    (h : lx.At depth found (valueText (.sequence items) ++ rest)) :
    ∃ later, Lexer.Reaches (valueText (.sequence items)).length lx later ∧
      later.At depth (found ++ valueTokens (.sequence items)) rest := by
  match items with
  | [] =>
    obtain ⟨inside, hopen, hat, -⟩ := h.opening (.inl ⟨rfl, rfl⟩)
    obtain ⟨later, hclose, hat⟩ := hat.closing (.inl ⟨rfl, rfl⟩)
    rw [List.append_assoc] at hat
    exact ⟨later, hopen.trans hclose, hat⟩
  | item :: items =>
    have htext : valueText (.sequence (item :: items)) ++ rest =
        '[' :: (valueText item ++ (itemsText items ++ ']' :: rest)) := by
      simp [valueText]
    rw [htext] at h
    obtain ⟨inside, hopen, hat, -⟩ := h.opening (.inl ⟨rfl, rfl⟩)
    obtain ⟨next, hitem, hat⟩ := at_value item hwhole.1 htexts.1 (Nat.succ_pos depth)
      (endsPlain_itemsText items rest) hat
    obtain ⟨last, hitems, hat⟩ := at_itemsText items hwhole.2 htexts.2 hat
    obtain ⟨later, hclose, hat⟩ := hat.closing (.inl ⟨rfl, rfl⟩)
    refine ⟨later, (hopen.trans (hitem.trans (hitems.trans hclose))).mono ?_, ?_⟩
    · simp only [valueText, List.length_append, List.length_cons, List.length_nil]
      omega
    · simpa [valueTokens] using hat

theorem at_mapping (entries : List (String × Value)) (hwhole : WholeNumbersEntries entries)
    (htexts : EveryTextEntries IsSharedText entries) {lx : Lexer} {depth : Nat}
    {found : List Token} {rest : List Char}
    (h : lx.At depth found (valueText (.mapping entries) ++ rest)) :
    ∃ later, Lexer.Reaches (valueText (.mapping entries)).length lx later ∧
      later.At depth (found ++ valueTokens (.mapping entries)) rest := by
  match entries with
  | [] =>
    obtain ⟨inside, hopen, hat, -⟩ := h.opening (.inr ⟨rfl, rfl⟩)
    obtain ⟨later, hclose, hat⟩ := hat.closing (.inr ⟨rfl, rfl⟩)
    rw [List.append_assoc] at hat
    exact ⟨later, hopen.trans hclose, hat⟩
  | (key, item) :: entries =>
    have htext : valueText (.mapping ((key, item) :: entries)) ++ rest =
        '{' :: (stringText key ++ ':' :: (valueText item ++ (entriesText entries ++ '}' :: rest))) := by
      simp [valueText]
    rw [htext] at h
    obtain ⟨inside, hopen, hat, hallowed⟩ := h.opening (.inr ⟨rfl, rfl⟩)
    obtain ⟨middle, hkey, hat⟩ := at_key (Nat.succ_pos depth) hallowed htexts.1 hat
    obtain ⟨next, hitem, hat⟩ := at_value item hwhole.1 htexts.2.1 (Nat.succ_pos depth)
      (endsPlain_entriesText entries rest) hat
    obtain ⟨last, hentries, hat⟩ := at_entriesText entries hwhole.2 htexts.2.2 hat
    obtain ⟨later, hclose, hat⟩ := hat.closing (.inr ⟨rfl, rfl⟩)
    refine ⟨later, (hopen.trans (hkey.trans (hitem.trans (hentries.trans hclose)))).mono ?_, ?_⟩
    · simp only [valueText, List.length_append, List.length_cons, List.length_nil]
      omega
    · simpa [valueTokens] using hat

theorem at_itemsText (items : List Value) (hwhole : WholeNumbersItems items)
    (htexts : EveryTextItems IsSharedText items) {lx : Lexer} {depth : Nat} {found : List Token}
    {rest : List Char}
    (h : lx.At (depth + 1) found (itemsText items ++ ']' :: rest)) :
    ∃ later, Lexer.Reaches (itemsText items).length lx later ∧
      later.At (depth + 1) (found ++ itemsTokens items) (']' :: rest) := by
  match items with
  | [] => exact ⟨lx, .refl lx, by simpa [itemsTokens, itemsText] using h⟩
  | item :: items =>
    have htext : itemsText (item :: items) ++ ']' :: rest =
        ',' :: (valueText item ++ (itemsText items ++ ']' :: rest)) := by
      simp [itemsText]
    rw [htext] at h
    obtain ⟨first, hcomma, hat, -⟩ := h.comma
    obtain ⟨next, hitem, hat⟩ := at_value item hwhole.1 htexts.1 (Nat.succ_pos depth)
      (endsPlain_itemsText items rest) hat
    obtain ⟨later, hitems, hat⟩ := at_itemsText items hwhole.2 htexts.2 hat
    refine ⟨later, (hcomma.trans (hitem.trans hitems)).mono ?_, ?_⟩
    · simp only [itemsText, List.length_append, List.length_cons]
      omega
    · simpa [itemsTokens] using hat

theorem at_entriesText (entries : List (String × Value)) (hwhole : WholeNumbersEntries entries)
    (htexts : EveryTextEntries IsSharedText entries) {lx : Lexer} {depth : Nat}
    {found : List Token} {rest : List Char}
    (h : lx.At (depth + 1) found (entriesText entries ++ '}' :: rest)) :
    ∃ later, Lexer.Reaches (entriesText entries).length lx later ∧
      later.At (depth + 1) (found ++ entriesTokens entries) ('}' :: rest) := by
  match entries with
  | [] => exact ⟨lx, .refl lx, by simpa [entriesTokens, entriesText] using h⟩
  | (key, item) :: entries =>
    have htext : entriesText ((key, item) :: entries) ++ '}' :: rest =
        ',' :: (stringText key ++ ':' :: (valueText item ++ (entriesText entries ++ '}' :: rest))) := by
      simp [entriesText]
    rw [htext] at h
    obtain ⟨first, hcomma, hat, hallowed⟩ := h.comma
    obtain ⟨middle, hkey, hat⟩ := at_key (Nat.succ_pos depth) hallowed htexts.1 hat
    obtain ⟨next, hitem, hat⟩ := at_value item hwhole.1 htexts.2.1 (Nat.succ_pos depth)
      (endsPlain_entriesText entries rest) hat
    obtain ⟨later, hentries, hat⟩ := at_entriesText entries hwhole.2 htexts.2.2 hat
    refine ⟨later, (hcomma.trans (hkey.trans (hitem.trans hentries))).mono ?_, ?_⟩
    · simp only [entriesText, List.length_append, List.length_cons]
      omega
    · simpa [entriesTokens] using hat

end

/-! ## Whole texts -/

theorem cutForbidden_of_isAllowed {cs : List Char} (h : ∀ c ∈ cs, isAllowed c = true)
    (start offset : Nat) (chunk : List Char) :
    cutForbidden start offset chunk cs = (chunk.reverse ++ cs, none) := by
  induction cs generalizing start offset chunk with
  | nil => rw [cutForbidden, List.append_nil]
  | cons c cs ih =>
    have hcs := ih fun d hd => h d (List.mem_cons_of_mem _ hd)
    rw [cutForbidden, if_neg (by simp [h c List.mem_cons_self])]
    split
    · rw [hcs]
      rfl
    · rw [hcs, List.reverse_cons, List.append_assoc, List.singleton_append]

theorem isAllowed_of_isNameChar {c : Char} (h : isNameChar c = true) : isAllowed c = true := by
  have hrange : ∀ low high : Char, low.val ≤ c.val ∧ c.val ≤ high.val → 0x20 ≤ low.toNat →
      high.toNat ≤ 0x7E → isAllowed c = true := by
    intro low high hc hlow hhigh
    have hleast : 0x20 ≤ c.toNat := Nat.le_trans hlow hc.1
    have hgreatest : c.toNat ≤ 0x7E := Nat.le_trans hc.2 hhigh
    simp [isAllowed, hleast, hgreatest]
  simp only [isNameChar, Bool.or_eq_true, beq_iff_eq] at h
  obtain (h | rfl) | rfl := h
  · obtain h | h := Bool.or_eq_true_iff.mp h
    · obtain h | h := Bool.or_eq_true_iff.mp h
      · exact hrange 'A' 'Z' (of_decide_eq_true h) (by decide) (by decide)
      · have hc := Bool.and_eq_true_iff.mp h
        exact hrange 'a' 'z' ⟨of_decide_eq_true hc.1, of_decide_eq_true hc.2⟩ (by decide)
          (by decide)
    · have hc := Bool.and_eq_true_iff.mp h
      exact hrange '0' '9' ⟨of_decide_eq_true hc.1, of_decide_eq_true hc.2⟩ (by decide) (by decide)
  · decide
  · decide

theorem isAllowed_escapeChar {c : Char} (h : IsShared c) : ∀ d ∈ escapeChar c, isAllowed d = true := by
  unfold escapeChar
  split
  · exact List.all_eq_true.mp (by decide)
  · exact List.all_eq_true.mp (by decide)
  · exact List.all_eq_true.mp (by decide)
  · exact List.all_eq_true.mp (by decide)
  · exact List.all_eq_true.mp (by decide)
  · exact List.all_eq_true.mp (by decide)
  · exact List.all_eq_true.mp (by decide)
  · split
    · rename_i hcontrol
      have hdigits : ∀ n < 0x20, isAllowed (hexDigit (n / 16)) = true ∧
          isAllowed (hexDigit (n % 16)) = true := by decide
      obtain ⟨hhigh, hlow⟩ := hdigits c.toNat hcontrol
      simp only [List.forall_mem_cons]
      exact ⟨by decide, by decide, by decide, by decide, hhigh, hlow, by simp⟩
    · rename_i hplain
      have hc : isAllowed c = true := by
        simp only [isAllowed, Bool.or_eq_true, Bool.and_eq_true, beq_iff_eq, decide_eq_true_eq]
        rw [IsShared] at h
        omega
      simpa using hc

theorem isAllowed_stringText {text : String} (h : IsSharedText text) :
    ∀ c ∈ stringText text, isAllowed c = true := by
  have hchars : ∀ c ∈ text.toList.flatMap escapeChar, isAllowed c = true := by
    intro c hc
    obtain ⟨d, hd, hc⟩ := List.mem_flatMap.mp hc
    exact isAllowed_escapeChar (h d hd) c hc
  have hquote : isAllowed '"' = true := by decide
  simp only [stringText, List.cons_append, List.forall_mem_cons, List.forall_mem_append]
  exact ⟨hquote, hchars, hquote, by simp⟩

mutual

theorem isAllowed_valueText (v : Value) (hwhole : v.WholeNumbers)
    (htexts : v.EveryText IsSharedText) : ∀ c ∈ valueText v, isAllowed c = true := by
  match v with
  | .null => exact List.all_eq_true.mp (by decide)
  | .bool true => exact List.all_eq_true.mp (by decide)
  | .bool false => exact List.all_eq_true.mp (by decide)
  | .number (.float _) => exact hwhole.elim
  | .number (.int n) => exact fun c hc => isAllowed_of_isNameChar (isNameChar_intText n c hc)
  | .string text => exact isAllowed_stringText htexts
  | .sequence [] => exact List.all_eq_true.mp (by decide)
  | .sequence (item :: items) =>
    have hitem := isAllowed_valueText item hwhole.1 htexts.1
    have hitems := isAllowed_itemsText items hwhole.2 htexts.2
    have hopen : isAllowed '[' = true := by decide
    have hclose : isAllowed ']' = true := by decide
    simp only [valueText, List.cons_append, List.forall_mem_cons, List.forall_mem_append]
    exact ⟨hopen, ⟨hitem, hitems⟩, hclose, by simp⟩
  | .mapping [] => exact List.all_eq_true.mp (by decide)
  | .mapping ((key, item) :: entries) =>
    have hkey := isAllowed_stringText htexts.1
    have hitem := isAllowed_valueText item hwhole.1 htexts.2.1
    have hentries := isAllowed_entriesText entries hwhole.2 htexts.2.2
    have hopen : isAllowed '{' = true := by decide
    have hcolon : isAllowed ':' = true := by decide
    have hclose : isAllowed '}' = true := by decide
    simp only [valueText, List.cons_append, List.forall_mem_cons, List.forall_mem_append]
    exact ⟨hopen, ⟨⟨hkey, hcolon, hitem⟩, hentries⟩, hclose, by simp⟩

theorem isAllowed_itemsText (items : List Value) (hwhole : WholeNumbersItems items)
    (htexts : EveryTextItems IsSharedText items) : ∀ c ∈ itemsText items, isAllowed c = true := by
  match items with
  | [] => simp [itemsText]
  | item :: items =>
    have hitem := isAllowed_valueText item hwhole.1 htexts.1
    have hitems := isAllowed_itemsText items hwhole.2 htexts.2
    have hcomma : isAllowed ',' = true := by decide
    simp only [itemsText, List.cons_append, List.forall_mem_cons, List.forall_mem_append]
    exact ⟨hcomma, hitem, hitems⟩

theorem isAllowed_entriesText (entries : List (String × Value))
    (hwhole : WholeNumbersEntries entries) (htexts : EveryTextEntries IsSharedText entries) :
    ∀ c ∈ entriesText entries, isAllowed c = true := by
  match entries with
  | [] => simp [entriesText]
  | (key, item) :: entries =>
    have hkey := isAllowed_stringText htexts.1
    have hitem := isAllowed_valueText item hwhole.1 htexts.2.1
    have hentries := isAllowed_entriesText entries hwhole.2 htexts.2.2
    have hcomma : isAllowed ',' = true := by decide
    have hcolon : isAllowed ':' = true := by decide
    simp only [entriesText, List.cons_append, List.forall_mem_cons, List.forall_mem_append]
    exact ⟨hcomma, ⟨hkey, hcolon, hitem⟩, hentries⟩

end

theorem scan_of_isAllowed {text : String} (h : ∀ c ∈ text.toList, isAllowed c = true) :
    scan text = (Lexer.start text.toList).run none (text.toList.length + 2) := by
  rw [scan, cutForbidden_of_isAllowed h]
  dsimp only [Option.map_none, List.reverse_nil, List.nil_append, Option.isSome_none]
  rw [if_neg (by simp)]

/-- Comments and blank lines are a stream without a document. -/
theorem scan_idle {text : String} (h : IdleText text.toList) :
    ∃ lexemes, scan text = ⟨lexemes, none⟩ ∧
      lexemes.map Lexeme.token = [.streamStart, .streamEnd] := by
  obtain ⟨last, hlast, hrun⟩ := (Lexer.at_start _).run_idle h (text.toList.length + 1)
  rw [scan_of_isAllowed h.isAllowed, hrun]
  exact ⟨_, rfl, by rw [List.map_append, List.map_singleton, hlast]; rfl⟩

/-- The text of a mapping is cut into the tokens of the mapping, and comments and blank lines
behind it only move the end of the stream. -/
theorem scan_write_idle {entries : List (String × Value)} (hwhole : WholeNumbersEntries entries)
    (htexts : EveryTextEntries IsSharedText entries) :
    ∃ lexemes : List Lexeme,
      lexemes.map Lexeme.token = .streamStart :: valueTokens (.mapping entries) ∧
      ∀ tail, IdleText tail → ∃ last, last.token = .streamEnd ∧
        scan (write (.mapping entries) ++ String.ofList tail) = ⟨lexemes ++ [last], none⟩ := by
  have hstart : (Lexer.start (valueText (.mapping entries))).At 0 [.streamStart]
      (valueText (.mapping entries) ++ []) := by
    rw [List.append_nil]
    exact Lexer.at_start _
  obtain ⟨later, ⟨n, hn, hrun⟩, hat⟩ := at_mapping entries hwhole htexts hstart
  refine ⟨later.lexemes.reverse, hat.tokens_eq, fun tail hidle => ?_⟩
  have hchars : (write (.mapping entries) ++ String.ofList tail).toList =
      valueText (.mapping entries) ++ tail := by
    rw [write, String.toList_append, String.toList_ofList, String.toList_ofList]
  have hallowed : ∀ c ∈ valueText (.mapping entries) ++ tail, isAllowed c = true := by
    rw [List.forall_mem_append]
    exact ⟨isAllowed_valueText (.mapping entries) hwhole htexts, hidle.isAllowed⟩
  obtain ⟨fuel, hfuel⟩ := Nat.exists_eq_add_of_le hn
  obtain ⟨last, hlast, hend⟩ := (hat.extend tail).run_idle hidle (fuel + tail.length + 1)
  have hsteps : (valueText (.mapping entries) ++ tail).length + 2 =
      fuel + tail.length + 1 + 1 + n := by
    rw [List.length_append]
    omega
  refine ⟨last, hlast, ?_⟩
  rw [scan_of_isAllowed (hchars ▸ hallowed), hchars, hsteps, ← Lexer.start_extend, hrun, hend]
  rfl

end Yaml

end PageManifest
