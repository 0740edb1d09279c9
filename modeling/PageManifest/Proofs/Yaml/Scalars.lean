import PageManifest.Json.Writer
import PageManifest.Proofs.Json.Lexical
import PageManifest.Yaml.Scalar

/-!
# Scalars from JSON text

A quoted JSON string is a double-quoted scalar of YAML text with the same characters
(`readQuoted_escaped`), as long as none of them ends a line for one of the two and not for
the other (`IsShared`). The string is read word by word: an escape never ends a word
(`doubleQuotedWord_escapeChar`), a space always does, and the spaces between two words are
kept because the line does not end (`readGap_spaces`).

The other JSON scalars are plain scalars of one word (`readPlain_word`).
-/

namespace PageManifest.Yaml

open Json

/-! ## Places -/

namespace Mark

/-- The place behind some characters of the same line. -/
def past (mark : Mark) (written : List Char) : Mark :=
  { mark with
    index := mark.index + byteCount written
    column := mark.column + written.length }

@[simp] theorem past_line (mark : Mark) (written : List Char) :
    (mark.past written).line = mark.line := rfl

@[simp] theorem past_column (mark : Mark) (written : List Char) :
    (mark.past written).column = mark.column + written.length := rfl

@[simp] theorem past_index (mark : Mark) (written : List Char) :
    (mark.past written).index = mark.index + byteCount written := rfl

end Mark

theorem byteCount_append (a b : List Char) : byteCount (a ++ b) = byteCount a + byteCount b := by
  have hacc : ∀ (cs : List Char) (n : Nat),
      cs.foldl (fun n c => n + c.utf8Size) n = n + byteCount cs := by
    intro cs
    induction cs with
    | nil => exact fun n => rfl
    | cons c cs ih =>
      intro n
      have hcs : byteCount (c :: cs) = cs.foldl (fun n c => n + c.utf8Size) (0 + c.utf8Size) := rfl
      rw [hcs, List.foldl_cons, ih, ih]
      omega
  rw [byteCount, List.foldl_append]
  exact hacc b _

@[simp] theorem Mark.past_past (mark : Mark) (a b : List Char) :
    (mark.past a).past b = mark.past (a ++ b) := by
  simp [past, byteCount_append, Nat.add_assoc]

@[simp] theorem Mark.past_nil (mark : Mark) : mark.past [] = mark := rfl

/-- Reading on past some characters leaves what is behind them. -/
theorem Cursor.advance_append (written rest : List Char) (mark : Mark) {n : Nat}
    (h : n = written.length) :
    (⟨written ++ rest, mark⟩ : Cursor).advance n = ⟨rest, mark.past written⟩ := by
  subst h
  simp [advance, Mark.past]

/-! ## Characters -/

/-- A character that a string of JSON text keeps when it is read as YAML text: a control,
which is escaped, or one that is allowed there and neither ends a line nor marks an order of
bytes. -/
def IsShared (c : Char) : Prop :=
  c.toNat ≤ 0x7E ∨
    (0xA0 ≤ c.toNat ∧ c.toNat ≤ 0xD7FF ∧ c.toNat ≠ 0x2028 ∧ c.toNat ≠ 0x2029) ∨
    (0xE000 ≤ c.toNat ∧ c.toNat ≤ 0xFFFD ∧ c.toNat ≠ 0xFEFF) ∨ 0x10000 ≤ c.toNat

def IsSharedText (text : String) : Prop := ∀ c ∈ text.toList, IsShared c

theorem isGap_eq_false_iff {c : Char} :
    isGap c = false ↔ isPad c = false ∧ isBreak c = false := Bool.or_eq_false_iff

/-- Only spaces and controls separate the words of a string. -/
theorem not_isGap_of_isShared {c : Char} (h : IsShared c) (hspace : c ≠ ' ')
    (hcontrol : ¬ c.toNat < 0x20) : isGap c = false := by
  have hne : ∀ d : Char, d.toNat < 0x20 ∨ ¬ IsShared d → c ≠ d := by
    rintro d (hd | hd) rfl
    · exact hcontrol hd
    · exact hd h
  simp [isGap, isPad, isBreak, hspace, hne '\t' (.inl (by decide)), hne '\n' (.inl (by decide)),
    hne '\r' (.inl (by decide)), hne '\x85' (.inr (by simp [IsShared])),
    hne '\u2028' (.inr (by simp [IsShared])), hne '\u2029' (.inr (by simp [IsShared]))]

/-! ## Words in double quotes -/

variable {began : Mark}

theorem hexNumber?_control {c : Char} (h : c.toNat < 0x20) (rest : List Char) :
    Text.hexNumber? 4 0 ('0' :: '0' :: hexDigit (c.toNat / 16) :: hexDigit (c.toNat % 16) :: rest) =
      some c.toNat := by
  have hread := hexEscape_control h rest
  rw [hexEscape] at hread
  split at hread
  · rename_i hnumber
    rw [hnumber, (Prod.mk.inj (Except.ok.inj hread)).1]
  · split at hread
    · cases hread
    · cases hread

theorem readEscape_short {c d : Char} (h : escapeMeaning? c = some (.inl d)) (rest : List Char)
    (mark : Mark) :
    readEscape began ⟨'\\' :: c :: rest, mark⟩ = .ok (d, ⟨rest, mark.past ['\\', c]⟩) := by
  have hnext := Cursor.advance_append ['\\', c] rest mark rfl
  rw [readEscape]
  dsimp only
  rw [h]
  exact congrArg (fun next => Except.ok (d, next)) hnext

theorem readEscape_control {c : Char} (h : c.toNat < 0x20) (rest : List Char) (mark : Mark) :
    readEscape began
        ⟨['\\', 'u', '0', '0', hexDigit (c.toNat / 16), hexDigit (c.toNat % 16)] ++ rest, mark⟩ =
      .ok (c, ⟨rest, mark.past
        ['\\', 'u', '0', '0', hexDigit (c.toNat / 16), hexDigit (c.toNat % 16)]⟩) := by
  have hnext := Cursor.advance_append
    ['\\', 'u', '0', '0', hexDigit (c.toNat / 16), hexDigit (c.toNat % 16)] rest mark
    (n := 2 + 4) rfl
  have hrange : ¬ (((0xD800 ≤ c.toNat && c.toNat ≤ 0xDFFF) || 0x10FFFF < c.toNat) = true) := by
    simp
    omega
  rw [readEscape]
  dsimp only [List.cons_append]
  have hmeaning : escapeMeaning? 'u' = some (.inr 4) := rfl
  rw [hmeaning]
  dsimp only
  rw [List.nil_append, hexNumber?_control h]
  dsimp only
  rw [if_neg hrange, Char.ofNat_toNat]
  exact congrArg (fun next => Except.ok (c, next)) hnext

/-- An escape never ends a word. -/
theorem doubleQuotedWord_escape {fuel : Nat} {c d : Char} {cs rest : List Char} {mark : Mark}
    (hc : isBreak c = false)
    (hread : readEscape began ⟨'\\' :: c :: cs ++ rest, mark⟩ =
      .ok (d, ⟨rest, mark.past ('\\' :: c :: cs)⟩)) :
    doubleQuotedWord began (fuel + 1) ⟨'\\' :: c :: cs ++ rest, mark⟩ = do
      let (word, next) ← doubleQuotedWord began fuel ⟨rest, mark.past ('\\' :: c :: cs)⟩
      return (d :: word, next) := by
  have hgap : isGap '\\' = false := by decide
  have hescape : startsEscapedBreak ('\\' :: c :: (cs ++ rest)) = false := hc
  rw [doubleQuotedWord]
  dsimp only [List.cons_append] at hread ⊢
  rw [if_neg (by simp [hgap, hescape]), if_pos (by decide), hread]
  rfl

/-- A character other than a space is read back from what stands for it. -/
theorem doubleQuotedWord_escapeChar {fuel : Nat} {c : Char} (hshared : IsShared c)
    (hspace : c ≠ ' ') (rest : List Char) (mark : Mark) :
    doubleQuotedWord began (fuel + 1) ⟨escapeChar c ++ rest, mark⟩ = do
      let (word, next) ← doubleQuotedWord began fuel ⟨rest, mark.past (escapeChar c)⟩
      return (c :: word, next) := by
  unfold escapeChar
  split
  · exact doubleQuotedWord_escape (by decide) (readEscape_short rfl rest mark)
  · exact doubleQuotedWord_escape (by decide) (readEscape_short rfl rest mark)
  · exact doubleQuotedWord_escape (by decide) (readEscape_short rfl rest mark)
  · exact doubleQuotedWord_escape (by decide) (readEscape_short rfl rest mark)
  · exact doubleQuotedWord_escape (by decide) (readEscape_short rfl rest mark)
  · exact doubleQuotedWord_escape (by decide) (readEscape_short rfl rest mark)
  · exact doubleQuotedWord_escape (by decide) (readEscape_short rfl rest mark)
  · rename_i hquote hbackslash _ _ _ _ _
    split
    · rename_i hcontrol
      -- A control without a letter of its own is four hexadecimal digits in both readers.
      exact doubleQuotedWord_escape (by decide) (readEscape_control hcontrol rest mark)
    · rename_i hplain
      have hquote : c ≠ '"' := hquote
      have hbackslash : c ≠ '\\' := hbackslash
      have hnext : (⟨c :: rest, mark⟩ : Cursor).advance 1 = ⟨rest, mark.past [c]⟩ :=
        Cursor.advance_append [c] rest mark rfl
      have hgap := not_isGap_of_isShared hshared hspace hplain
      have hescape : startsEscapedBreak (c :: rest) = false := by
        rw [startsEscapedBreak]
        rintro d ds heq
        exact hbackslash (List.cons.inj heq).1
      rw [doubleQuotedWord, List.singleton_append]
      dsimp only
      rw [if_neg (by simp [hquote, hgap, hescape]), if_neg (by simp [hbackslash]), hnext]
      rfl

/-- A word ends in front of a space or the closing quote. -/
theorem doubleQuotedWord_word {cs : List Char} (hshared : ∀ c ∈ cs, IsShared c)
    (hspace : ∀ c ∈ cs, c ≠ ' ') {fuel : Nat} (hfuel : cs.length < fuel) {stop : Char}
    (hstop : stop = ' ' ∨ stop = '"') (rest : List Char) (mark : Mark) :
    doubleQuotedWord began fuel ⟨cs.flatMap escapeChar ++ stop :: rest, mark⟩ =
      .ok (cs, ⟨stop :: rest, mark.past (cs.flatMap escapeChar)⟩) := by
  induction cs generalizing fuel mark with
  | nil =>
    obtain ⟨fuel, rfl⟩ := Nat.exists_eq_succ_of_ne_zero (Nat.ne_of_gt hfuel)
    obtain rfl | rfl := hstop
    · rfl
    · rfl
  | cons c cs ih =>
    obtain ⟨fuel, rfl⟩ := Nat.exists_eq_succ_of_ne_zero (Nat.ne_of_gt (Nat.zero_lt_of_lt hfuel))
    have hcs := ih (fun d hd => hshared d (List.mem_cons_of_mem _ hd))
      (fun d hd => hspace d (List.mem_cons_of_mem _ hd)) (Nat.lt_of_succ_lt_succ hfuel)
      (mark.past (escapeChar c))
    rw [List.flatMap_cons, List.append_assoc,
      doubleQuotedWord_escapeChar (hshared c List.mem_cons_self) (hspace c List.mem_cons_self),
      hcs, Mark.past_past]
    rfl

/-! ## Spaces in double quotes -/

theorem readGap_spaces {n fuel : Nat} (hfuel : n < fuel) (pads : List Char) {c : Char}
    (hc : isGap c = false) (rest : List Char) (mark : Mark) :
    readGap none fuel ⟨pads, false, [], []⟩ ⟨List.replicate n ' ' ++ c :: rest, mark⟩ =
      (⟨pads ++ List.replicate n ' ', false, [], []⟩,
        ⟨c :: rest, mark.past (List.replicate n ' ')⟩) := by
  induction n generalizing fuel pads mark with
  | zero =>
    obtain ⟨fuel, rfl⟩ := Nat.exists_eq_succ_of_ne_zero (Nat.ne_of_gt hfuel)
    obtain ⟨hpad, hbreak⟩ := isGap_eq_false_iff.mp hc
    simp [readGap, hpad, hbreak]
  | succ n ih =>
    obtain ⟨fuel, rfl⟩ := Nat.exists_eq_succ_of_ne_zero (Nat.ne_of_gt (Nat.zero_lt_of_lt hfuel))
    have hnext : ∀ behind, (⟨' ' :: behind, mark⟩ : Cursor).advance 1 =
        ⟨behind, mark.past [' ']⟩ := fun behind => Cursor.advance_append [' '] behind mark rfl
    have hpad : (⟨pads, false, [], []⟩ : Gap).addPad ' ' = ⟨pads ++ [' '], false, [], []⟩ := rfl
    rw [List.replicate_succ, List.cons_append, readGap]
    dsimp only
    rw [if_pos (by decide), if_neg (by simp), hnext, hpad, ih (Nat.lt_of_succ_lt_succ hfuel),
      Mark.past_past, List.append_assoc]
    rfl

/-! ## Strings in double quotes -/

/-- Characters are a word, the spaces behind it, and what follows these. -/
theorem exists_word_spaces (cs : List Char) : ∃ word n rest,
    cs = word ++ (List.replicate n ' ' ++ rest) ∧ (∀ c ∈ word, c ≠ ' ') ∧
      rest.head? ≠ some ' ' ∧ (n = 0 → rest = []) := by
  induction cs with
  | nil => exact ⟨[], 0, [], rfl, by simp, by simp, fun _ => rfl⟩
  | cons c cs ih =>
    obtain ⟨word, n, rest, rfl, hword, hrest, hn⟩ := ih
    by_cases hc : c = ' '
    · subst hc
      cases word with
      | nil =>
        refine ⟨[], n + 1, rest, by simp [List.replicate_succ], by simp, hrest, ?_⟩
        intro h
        omega
      | cons d word =>
        refine ⟨[], 1, d :: word ++ (List.replicate n ' ' ++ rest), rfl, by simp, ?_, by simp⟩
        intro h
        exact hword d List.mem_cons_self (Option.some.inj h)
    · exact ⟨c :: word, n, rest, rfl, List.forall_mem_cons.mpr ⟨hc, hword⟩, hrest, hn⟩

theorem flatMap_escapeChar_replicate (n : Nat) :
    (List.replicate n ' ').flatMap escapeChar = List.replicate n ' ' := by
  induction n with
  | zero => rfl
  | succ n ih =>
    rw [List.replicate_succ, List.flatMap_cons, ih]
    rfl

/-- What stands for a string that starts with no space does not start with a gap. -/
theorem exists_escaped_eq_cons {cs : List Char} (hshared : ∀ c ∈ cs, IsShared c)
    (hhead : cs.head? ≠ some ' ') (rest : List Char) : ∃ d ds,
    cs.flatMap escapeChar ++ '"' :: rest = d :: ds ∧ isGap d = false := by
  cases cs with
  | nil => exact ⟨'"', rest, rfl, by decide⟩
  | cons c cs =>
    have hspace : c ≠ ' ' := fun h => hhead (congrArg some h)
    have hc : ∃ d ds, escapeChar c = d :: ds ∧ isGap d = false := by
      unfold escapeChar
      split
      · exact ⟨_, _, rfl, by decide⟩
      · exact ⟨_, _, rfl, by decide⟩
      · exact ⟨_, _, rfl, by decide⟩
      · exact ⟨_, _, rfl, by decide⟩
      · exact ⟨_, _, rfl, by decide⟩
      · exact ⟨_, _, rfl, by decide⟩
      · exact ⟨_, _, rfl, by decide⟩
      · split
        · exact ⟨_, _, rfl, by decide⟩
        · rename_i hplain
          exact ⟨_, _, rfl, not_isGap_of_isShared (hshared c List.mem_cons_self) hspace hplain⟩
    obtain ⟨d, ds, hd, hgap⟩ := hc
    exact ⟨d, _, by rw [List.flatMap_cons, hd, List.cons_append, List.cons_append], hgap⟩

theorem not_atDocumentMarker {cur : Cursor} (h : 0 < cur.mark.column) :
    cur.atDocumentMarker = false := by
  have hcolumn : (cur.mark.column == 0) = false := beq_eq_false_iff_ne.mpr (Nat.ne_of_gt h)
  rw [Cursor.atDocumentMarker, hcolumn, Bool.false_and]

theorem readQuoted_last {fuel : Nat} {text word rest : List Char} {cur : Cursor} {mark : Mark}
    (hcolumn : 0 < cur.mark.column) (hne : cur.rest ≠ [])
    (hword : doubleQuotedWord began (fuel + 1) cur = .ok (word, ⟨'"' :: rest, mark⟩)) :
    readQuoted .doubleQuoted began (fuel + 1) text cur =
      .ok (text ++ word, ⟨rest, mark.past ['"']⟩) := by
  have hnext : (⟨'"' :: rest, mark⟩ : Cursor).advance 1 = ⟨rest, mark.past ['"']⟩ :=
    Cursor.advance_append ['"'] rest mark rfl
  rw [readQuoted, if_neg (by simp [not_atDocumentMarker hcolumn]), if_neg (by simpa using hne),
    if_neg (by decide), hword]
  exact congrArg (fun next => Except.ok (text ++ word, next)) hnext

theorem readQuoted_spaces {fuel n : Nat} {text word rest : List Char} {c : Char} {cur : Cursor}
    {mark : Mark} (hcolumn : 0 < cur.mark.column) (hne : cur.rest ≠ []) (hn : n < fuel)
    (hc : isGap c = false)
    (hword : doubleQuotedWord began (fuel + 1) cur =
      .ok (word, ⟨List.replicate (n + 1) ' ' ++ c :: rest, mark⟩)) :
    readQuoted .doubleQuoted began (fuel + 1) text cur =
      readQuoted .doubleQuoted began fuel (text ++ word ++ List.replicate (n + 1) ' ')
        ⟨c :: rest, mark.past (List.replicate (n + 1) ' ')⟩ := by
  have hgap := readGap_spaces (Nat.succ_lt_succ hn) [] hc rest mark
  have hescape : startsEscapedBreak (List.replicate (n + 1) ' ' ++ c :: rest) = false := by
    rw [List.replicate_succ, List.cons_append, startsEscapedBreak]
    rintro d ds heq
    cases heq
  have hquote : startsWith (· == quoteOf .doubleQuoted)
      (List.replicate (n + 1) ' ' ++ c :: rest) = false := rfl
  rw [readQuoted, if_neg (by simp [not_atDocumentMarker hcolumn]), if_neg (by simpa using hne),
    if_neg (by decide), hword]
  simp only [bind, Except.bind, hescape, hquote, Gap.none, hgap, Bool.and_false,
    Bool.false_eq_true, if_false]
  rfl

/-- A string is read back from between its quotes. -/
theorem readQuoted_escaped {cs : List Char} (hshared : ∀ c ∈ cs, IsShared c) {fuel : Nat}
    (hfuel : cs.length < fuel) (text rest : List Char) {mark : Mark} (hcolumn : 0 < mark.column) :
    readQuoted .doubleQuoted began fuel text ⟨cs.flatMap escapeChar ++ '"' :: rest, mark⟩ =
      .ok (text ++ cs, ⟨rest, mark.past (cs.flatMap escapeChar ++ ['"'])⟩) := by
  -- Each round reads a word and the spaces behind it, so the induction is on the rounds that
  -- are left; all but the last one read a space at least.
  induction fuel generalizing cs text mark with
  | zero => omega
  | succ fuel ih =>
    obtain ⟨word, n, behind, rfl, hspace, hbehind, hn⟩ := exists_word_spaces cs
    simp only [List.length_append, List.length_replicate] at hfuel
    have hword : ∀ c ∈ word, IsShared c := fun c hc => hshared c (List.mem_append_left _ hc)
    have hshared' : ∀ c ∈ behind, IsShared c := fun c hc =>
      hshared c (List.mem_append_right _ (List.mem_append_right _ hc))
    have hne : (word ++ (List.replicate n ' ' ++ behind)).flatMap escapeChar ++ '"' :: rest ≠ [] :=
      List.append_ne_nil_of_right_ne_nil _ (List.cons_ne_nil _ _)
    cases n with
    | zero =>
      obtain rfl := hn rfl
      have hread : doubleQuotedWord began (fuel + 1)
          ⟨word.flatMap escapeChar ++ '"' :: rest, mark⟩ = _ :=
        doubleQuotedWord_word hword hspace (by omega) (.inr rfl) rest mark
      simp only [List.replicate_zero, List.append_nil] at hne ⊢
      rw [readQuoted_last hcolumn hne hread, Mark.past_past]
    | succ n =>
      obtain ⟨c, behind', hcons, hc⟩ := exists_escaped_eq_cons hshared' hbehind rest
      have hread : doubleQuotedWord began (fuel + 1) ⟨word.flatMap escapeChar ++
          ' ' :: (List.replicate n ' ' ++ c :: behind'), mark⟩ = _ :=
        doubleQuotedWord_word hword hspace (by omega) (.inl rfl) _ mark
      have htext : (word ++ (List.replicate (n + 1) ' ' ++ behind)).flatMap escapeChar ++
          '"' :: rest = word.flatMap escapeChar ++
            ' ' :: (List.replicate n ' ' ++ c :: behind') := by
        rw [List.flatMap_append, List.flatMap_append, flatMap_escapeChar_replicate,
          List.append_assoc, List.append_assoc, hcons]
        rfl
      rw [htext] at hne ⊢
      rw [readQuoted_spaces hcolumn hne (by omega) hc hread, ← hcons,
        ih hshared' (by omega) _ (Nat.lt_of_lt_of_le hcolumn (by simp))]
      simp [List.append_assoc, flatMap_escapeChar_replicate]

/-! ## Plain words -/

/-- What stands behind a plain scalar in brackets ends it. -/
def EndsPlain (rest : List Char) : Prop := ∃ c cs, rest = c :: cs ∧ isFlowIndicator c = true

theorem EndsPlain.append {rest : List Char} (h : EndsPlain rest) (tail : List Char) :
    EndsPlain (rest ++ tail) := by
  obtain ⟨c, cs, rfl, hc⟩ := h
  exact ⟨c, cs ++ tail, rfl, hc⟩

theorem ne_of_isNameChar {c : Char} (h : isNameChar c = true) {d : Char}
    (hd : isNameChar d = false) : c ≠ d := by
  rintro rfl
  cases h.symm.trans hd

theorem not_isGap_of_isNameChar {c : Char} (h : isNameChar c = true) : isGap c = false := by
  have hne : ∀ d, isNameChar d = false → c ≠ d := fun d => ne_of_isNameChar h
  simp [isGap, isPad, isBreak, hne ' ' (by decide), hne '\t' (by decide), hne '\n' (by decide),
    hne '\r' (by decide), hne '\x85' (by decide), hne '\u2028' (by decide),
    hne '\u2029' (by decide)]

theorem not_isFlowIndicator_of_isNameChar {c : Char} (h : isNameChar c = true) :
    isFlowIndicator c = false := by
  have hne : ∀ d, isNameChar d = false → c ≠ d := fun d => ne_of_isNameChar h
  simp [isFlowIndicator, hne ',' (by decide), hne '[' (by decide), hne ']' (by decide),
    hne '{' (by decide), hne '}' (by decide)]

theorem not_isGap_of_isFlowIndicator {c : Char} (h : isFlowIndicator c = true) :
    isGap c = false := by
  simp only [isFlowIndicator, Bool.or_eq_true, beq_iff_eq] at h
  obtain (((rfl | rfl) | rfl) | rfl) | rfl := h <;> decide

theorem plainWord_word {word : List Char} (hword : ∀ c ∈ word, isNameChar c = true)
    {rest : List Char} (hrest : EndsPlain rest) : plainWord true (word ++ rest) = word := by
  induction word with
  | nil =>
    obtain ⟨c, cs, rfl, hc⟩ := hrest
    simp [plainWord, hc]
  | cons c word ih =>
    have hc := hword c List.mem_cons_self
    have hcolon : c ≠ ':' := ne_of_isNameChar hc (by decide)
    rw [List.cons_append, plainWord,
      if_neg (by simp [not_isGap_of_isNameChar hc, not_isFlowIndicator_of_isNameChar hc, hcolon]),
      if_neg (by simp [hcolon]), ih fun d hd => hword d (List.mem_cons_of_mem _ hd)]

/-- A word in brackets is a plain scalar. -/
theorem readPlain_word {word : List Char} (hne : word ≠ [])
    (hword : ∀ c ∈ word, isNameChar c = true) {rest : List Char} (hrest : EndsPlain rest)
    (fuel leastColumn : Nat) {mark : Mark} (hcolumn : 0 < mark.column) :
    readPlain true leastColumn began (fuel + 1) [] mark Gap.none ⟨word ++ rest, mark⟩ =
      .ok ⟨word, mark.past word, false, ⟨rest, mark.past word⟩⟩ := by
  have hplain := plainWord_word hword hrest
  have hnext := Cursor.advance_append word rest mark rfl
  have hhash : startsWith (· == '#') (word ++ rest) = false := by
    cases word with
    | nil => exact absurd rfl hne
    | cons c word =>
      exact beq_eq_false_iff_ne.mpr (ne_of_isNameChar (hword c List.mem_cons_self) (by decide))
  have hempty : word.isEmpty = false := by simpa using hne
  have hmarker : (⟨word ++ rest, mark⟩ : Cursor).atDocumentMarker = false :=
    not_atDocumentMarker hcolumn
  obtain ⟨c, cs, rfl, hc⟩ := hrest
  have hcolon : isColonInFlow (c :: cs) = false := by
    have : c ≠ ':' := by
      rintro rfl
      cases hc
    simp [isColonInFlow, this]
  rw [readPlain, if_neg (by simp [hmarker, hhash])]
  simp only [hplain, hnext, hcolon, hempty, Bool.and_false, Bool.false_eq_true, if_false]
  rw [if_pos (by simp [startsWith, not_isGap_of_isFlowIndicator hc])]
  rfl

end PageManifest.Yaml
