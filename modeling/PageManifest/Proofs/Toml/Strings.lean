import PageManifest.Toml.Lexical
import PageManifest.Toml.Writer

/-!
# Strings of settings files that were written

A string is read back from each of its four forms (`string_stringText`). Between double quotes
every character has a spelling, and reading a spelling gives the character. On lines of its own
a text may hold one or two of its quotes in a row; reading goes on behind them, and the last
ones of the text stand in front of the three that close it.
-/

namespace PageManifest.Toml

/-! ## Spellings -/

/-- What stands for a character between double quotes. The mark behind a backslash is no
blank, since a backslash before the end of a line has another meaning. -/
inductive Spells : List Char → Char → Prop
  | plain {c : Char} (h : isQuotedChar c = true) : Spells [c] c
  | escape {mark c : Char} {tail : List Char} (hmark : mark.isWhitespace = false)
      (h : ∀ rest, escape mark (tail ++ rest) = .ok (c, rest)) : Spells ('\\' :: mark :: tail) c

theorem spells_quote : Spells ['\\', '"'] '"' := .escape (by decide) fun _ => rfl

theorem hexNumber?_control {n : Nat} (h : n < 0x20 ∨ n = 0x7F) (rest : List Char) :
    Text.hexNumber? 4 0 ('0' :: '0' :: numberDigit (n / 16) :: numberDigit (n % 16) :: rest) =
      some n := by
  have hzero : Text.hexValue? '0' = some 0 := by decide
  have hdigits : ∀ n < 0x80, (Text.hexValue? (numberDigit (n / 16))).bind (fun high =>
      (Text.hexValue? (numberDigit (n % 16))).map (high * 16 + ·)) = some n := by
    decide
  have hnumber := hdigits n (by omega)
  obtain ⟨high, hhigh, hlow⟩ := Option.bind_eq_some_iff.mp hnumber
  obtain ⟨low, hlow, hsum⟩ := Option.map_eq_some_iff.mp hlow
  simp [Text.hexNumber?, hzero, hhigh, hlow, hsum]

theorem spells_numbered {c : Char} (h : c.toNat < 0x20 ∨ c.toNat = 0x7F) :
    Spells (numbered c) c := by
  refine .escape (by decide) fun rest => ?_
  have hchar : isCharNumber c.toNat = true := by
    rw [isCharNumber, Bool.or_eq_true, decide_eq_true_eq]
    omega
  have hnumber := hexNumber?_control h rest
  simp only [escape, charNumber, naming, List.cons_append, List.nil_append, hnumber, hchar,
    if_true, Char.ofNat_toNat, List.drop_succ_cons, List.drop_zero]
  rfl

/-- A character is spelled as it is written, but a line break on lines of their own. -/
theorem spells_escaped {multiline : Bool} {c : Char} (hquote : c ≠ '"')
    (hbreak : multiline = true → c ≠ '\n') : Spells (escaped multiline c) c := by
  unfold escaped
  split
  · exact .escape (by decide) fun _ => rfl
  · exact .escape (by decide) fun _ => rfl
  · cases multiline with
    | false => exact .escape (by decide) fun _ => rfl
    | true => exact absurd rfl (hbreak rfl)
  · exact .escape (by decide) fun _ => rfl
  · exact .escape (by decide) fun _ => rfl
  · exact .escape (by decide) fun _ => rfl
  · rename_i hbackslash
    split
    · rename_i hcontrol
      rw [Bool.or_eq_true, decide_eq_true_eq, beq_iff_eq] at hcontrol
      exact spells_numbered hcontrol
    · rename_i hplain
      refine .plain ?_
      simp only [Bool.or_eq_true, decide_eq_true_eq, beq_iff_eq, not_or] at hplain
      have hlow : 0x20 ≤ c.toNat := by omega
      simp only [isQuotedChar, Bool.or_eq_true, Bool.and_eq_true, beq_iff_eq, bne_iff_ne,
        decide_eq_true_eq]
      exact .inr ⟨⟨⟨hlow, hquote⟩, hbackslash⟩, hplain.2⟩

/-- A character with what is read behind it. -/
def consRead {ε : Type} (c : Char) (attempt : Except ε (List Char × List Char)) :
    Except ε (List Char × List Char) :=
  attempt.map fun (text, rest) => (c :: text, rest)

@[simp] theorem consRead_ok {ε : Type} (c : Char) (text rest : List Char) :
    consRead (ε := ε) c (.ok (text, rest)) = .ok (c :: text, rest) := rfl

/-! ## On one line -/

theorem quotedChars_spelled {written : List Char} {c : Char} (h : Spells written c) (fuel : Nat)
    (rest : List Char) :
    quotedChars (fuel + 1) (written ++ rest) = consRead c (quotedChars fuel rest) := by
  cases h with
  | plain h =>
    have hbackslash : c ≠ '\\' := by
      rintro rfl
      exact absurd h (by decide)
    rw [List.singleton_append, quotedChars.eq_3 _ _ _ (by grind), if_pos h]
    rfl
  | escape hmark h =>
    rw [List.cons_append, List.cons_append, quotedChars, h]
    rfl

theorem escapedText_false (quotes : Nat) (c : Char) (cs : List Char) :
    ∃ written, escapedText false quotes (c :: cs) = written ++ escapedText false 0 cs ∧
      Spells written c := by
  rw [escapedText]
  by_cases hquote : c = '"'
  · subst hquote
    exact ⟨['\\', '"'], rfl, spells_quote⟩
  · rw [if_neg hquote]
    exact ⟨_, rfl, spells_escaped hquote (absurd · Bool.false_ne_true)⟩

theorem quotedChars_escapedText {fuel : Nat} {cs : List Char} (quotes : Nat) (h : cs.length < fuel)
    (rest : List Char) :
    quotedChars fuel (escapedText false quotes cs ++ '"' :: rest) = .ok (cs, '"' :: rest) := by
  induction cs generalizing fuel quotes with
  | nil =>
    obtain ⟨fuel, rfl⟩ := Nat.exists_eq_succ_of_ne_zero (Nat.ne_of_gt h)
    rfl
  | cons c cs ih =>
    obtain ⟨fuel, rfl⟩ := Nat.exists_eq_succ_of_ne_zero (Nat.ne_of_gt (Nat.zero_lt_of_lt h))
    obtain ⟨written, hwritten, hspells⟩ := escapedText_false quotes c cs
    rw [hwritten, List.append_assoc, quotedChars_spelled hspells,
      ih 0 (Nat.lt_of_succ_lt_succ h)]
    rfl

theorem length_le_length_escapedText (multiline : Bool) (quotes : Nat) (cs : List Char) :
    cs.length ≤ (escapedText multiline quotes cs).length := by
  induction cs generalizing quotes with
  | nil => exact Nat.le_refl _
  | cons c cs ih =>
    have hpos : 0 < (escaped multiline c).length := by
      unfold escaped
      split <;> (try split) <;> simp [numbered]
    have hquote := ih (quotes + 1)
    have hother := ih 0
    rw [escapedText]
    split
    · split <;> simp only [List.length_cons] <;> omega
    · rw [List.length_append, List.length_cons]
      omega

theorem quoted_escapedText (cs rest : List Char) :
    quoted (escapedText false 0 cs ++ '"' :: rest) = .ok (cs, rest) := by
  have hlength := length_le_length_escapedText false 0 cs
  have hread : quotedChars (escapedText false 0 cs ++ '"' :: rest).length
      (escapedText false 0 cs ++ '"' :: rest) = .ok (cs, '"' :: rest) := by
    refine quotedChars_escapedText 0 ?_ rest
    rw [List.length_append, List.length_cons]
    omega
  rw [quoted, hread]
  rfl

theorem literal_append {cs : List Char} (h : ∀ c ∈ cs, isLiteralChar c = true) (rest : List Char) :
    literal (cs ++ '\'' :: rest) = .ok (cs, rest) := by
  have hend : isLiteralChar '\'' = false := by decide
  have htake : (cs ++ '\'' :: rest).takeWhile isLiteralChar = cs := by
    rw [List.takeWhile_append_of_pos h, List.takeWhile_cons_of_neg (by simp [hend]),
      List.append_nil]
  have hdrop : (cs ++ '\'' :: rest).dropWhile isLiteralChar = '\'' :: rest := by
    rw [List.dropWhile_append_of_pos h, List.dropWhile_cons_of_neg (by simp [hend])]
  rw [literal, htake, hdrop]
  rfl

/-! ## Marks in a row -/

/-- A body between three marks: lines with one or two marks between them, and the three marks
behind the last line and the one or two that may end the text. A line is what is read of it up
to a mark. -/
inductive Body (mark : Char) (Line : List Char → List Char → List Char → Prop) :
    List Char → List Char → List Char → Prop
  | last {cs text rest : List Char} {outer : Nat}
      (hline : Line cs text (List.replicate (outer + 3) mark ++ rest)) (houter : outer ≤ 2)
      (hrest : rest.head? ≠ some mark) :
      Body mark Line cs (text ++ List.replicate outer mark) (List.replicate 3 mark ++ rest)
  | more {cs text behind further rest : List Char} {inner : Nat}
      (hline : Line cs text (List.replicate inner mark ++ behind)) (hpos : 0 < inner)
      (hinner : inner ≤ 2) (hnext : ∃ c ∈ behind.head?, c ≠ mark)
      (hshort : behind.length < cs.length) (hbehind : Body mark Line behind further rest) :
      Body mark Line cs (text ++ List.replicate inner mark ++ further) rest

namespace Body

variable {mark : Char} {Line : List Char → List Char → List Char → Prop}

theorem cons {cs written text rest : List Char} {c : Char}
    (hcons : ∀ {text rest}, Line cs text rest → Line (written ++ cs) (c :: text) rest)
    (h : Body mark Line cs text rest) : Body mark Line (written ++ cs) (c :: text) rest := by
  cases h with
  | last hline houter hrest => exact .last (hcons hline) houter hrest
  | more hline hpos hinner hnext hshort hbehind =>
    refine .more (hcons hline) hpos hinner hnext ?_ hbehind
    rw [List.length_append]
    omega

theorem marks {cs text rest : List Char} {count : Nat}
    (hstop : ∀ cs, Line (mark :: cs) [] (mark :: cs)) (hcount : count ≤ 2)
    (hnext : ∃ c ∈ cs.head?, c ≠ mark) (h : Body mark Line cs text rest) :
    Body mark Line (List.replicate count mark ++ cs) (List.replicate count mark ++ text) rest := by
  cases count with
  | zero => exact h
  | succ count =>
    have hline : Line (List.replicate (count + 1) mark ++ cs) []
        (List.replicate (count + 1) mark ++ cs) := hstop _
    have hshort : cs.length < (List.replicate (count + 1) mark ++ cs).length := by
      rw [List.length_append, List.length_replicate]
      omega
    exact .more hline (Nat.succ_pos count) hcount hnext hshort h

theorem close {rest : List Char} {count : Nat} (hstop : ∀ cs, Line (mark :: cs) [] (mark :: cs))
    (hcount : count ≤ 2) (hrest : rest.head? ≠ some mark) :
    Body mark Line (List.replicate count mark ++ (List.replicate 3 mark ++ rest))
      (List.replicate count mark) (List.replicate 3 mark ++ rest) := by
  rw [← List.append_assoc, List.replicate_append_replicate]
  have hline : Line (List.replicate (count + 3) mark ++ rest) []
      (List.replicate (count + 3) mark ++ rest) := hstop _
  exact .last hline hcount hrest

end Body

theorem leading_replicate_append {mark : Char} {rest : List Char} (h : rest.head? ≠ some mark)
    (count : Nat) : leading mark (List.replicate count mark ++ rest) = count := by
  have hrest : rest.takeWhile (· = mark) = [] := by
    cases rest with
    | nil => rfl
    | cons c rest =>
      have hc : c ≠ mark := fun hc => h (by rw [hc, List.head?_cons])
      rw [List.takeWhile_cons_of_neg (by simp [hc])]
  rw [leading, List.takeWhile_append_of_pos (by simp), hrest, List.append_nil,
    List.length_replicate]

theorem innerMarks_of_le {mark : Char} {behind : List Char} {count : Nat} (hcount : count ≤ 2)
    (hnext : ∃ c ∈ behind.head?, c ≠ mark) :
    innerMarks mark (List.replicate count mark ++ behind) = count := by
  obtain ⟨c, hc, hne⟩ := hnext
  have hhead : behind.head? ≠ some mark := fun h => hne (Option.some.inj (hc.symm.trans h))
  have hpos : 0 < behind.length := List.length_pos_of_mem (List.mem_of_mem_head? hc)
  simp [innerMarks, leading_replicate_append hhead, hcount, hpos]

theorem innerMarks_close {mark : Char} {rest : List Char} (h : rest.head? ≠ some mark)
    (outer : Nat) : innerMarks mark (List.replicate (outer + 3) mark ++ rest) = 0 := by
  simp [innerMarks, leading_replicate_append h]

theorem outerMarks_close {mark : Char} {rest : List Char} (h : rest.head? ≠ some mark)
    {outer : Nat} (houter : outer ≤ 2) :
    outerMarks mark (List.replicate (outer + 3) mark ++ rest) = outer := by
  rw [outerMarks, leading_replicate_append h]
  omega

theorem drop_marks (mark : Char) (count more : Nat) (rest : List Char) :
    (List.replicate (count + more) mark ++ rest).drop count = List.replicate more mark ++ rest := by
  rw [List.drop_append_of_le_length (by simp), List.drop_replicate, Nat.add_sub_cancel_left]

/-! ## Between three double quotes -/

theorem lineBreak_of_ne {c : Char} (hbreak : c ≠ '\n') (hreturn : c ≠ '\r') (rest : List Char) :
    lineBreak (c :: rest) = stop (c :: rest) := by
  refine lineBreak.eq_4 _ ?_ ?_ ?_
  · rintro rest ⟨⟩
    exact hbreak rfl
  · rintro rest ⟨⟩
    exact hreturn rfl
  · rintro rest ⟨⟩
    exact hreturn rfl

/-- What stands for a character between three double quotes, unless it is one of two quotes. -/
inductive SpellsLine : List Char → Char → Prop
  | spelled {written : List Char} {c : Char} (h : Spells written c) : SpellsLine written c
  | lineBreak : SpellsLine ['\n'] '\n'

theorem SpellsLine.exists_eq_cons {written : List Char} {c : Char} (h : SpellsLine written c) :
    ∃ first tail, written = first :: tail ∧ first ≠ '"' ∧ first ≠ '\r' ∧
      (first = '\n' → c = '\n') := by
  cases h with
  | spelled h =>
    cases h with
    | plain h =>
      refine ⟨c, [], rfl, ?_, ?_, id⟩
      · rintro rfl
        exact absurd h (by decide)
      · rintro rfl
        exact absurd h (by decide)
    | escape => exact ⟨'\\', _, rfl, by decide, by decide, fun h => absurd h (by decide)⟩
  | lineBreak => exact ⟨_, _, rfl, by decide, by decide, fun _ => rfl⟩

theorem spellsLine_escaped {c : Char} (hquote : c ≠ '"') : SpellsLine (escaped true c) c := by
  by_cases hbreak : c = '\n'
  · subst hbreak
    exact .lineBreak
  · exact .spelled (spells_escaped hquote fun _ => hbreak)

theorem quotedLineChars_spelled {written : List Char} {c : Char} (h : SpellsLine written c)
    (fuel : Nat) (rest : List Char) :
    quotedLineChars (fuel + 1) (written ++ rest) = consRead c (quotedLineChars fuel rest) := by
  cases h with
  | lineBreak => rfl
  | spelled h =>
    cases h with
    | plain h =>
      have hbackslash : c ≠ '\\' := by
        rintro rfl
        exact absurd h (by decide)
      have hbreak : c ≠ '\n' := by
        rintro rfl
        exact absurd h (by decide)
      have hreturn : c ≠ '\r' := by
        rintro rfl
        exact absurd h (by decide)
      rw [List.singleton_append, quotedLineChars.eq_5 _ _ _ (by grind) (by grind) (by grind),
        if_pos h]
      rfl
    | @escape mark _ tail hmark h =>
      simp only [Char.isWhitespace, Bool.or_eq_false_iff, decide_eq_false_iff_not] at hmark
      obtain ⟨⟨⟨hspace, htab⟩, hreturn⟩, hbreak⟩ := hmark
      have hblanks : skipBlanks (mark :: (tail ++ rest)) = mark :: (tail ++ rest) :=
        List.dropWhile_cons_of_neg (by simp [isBlank, hspace, htab])
      rw [List.cons_append, List.cons_append, quotedLineChars, hblanks,
        lineBreak_of_ne hbreak hreturn, stop]
      dsimp only
      rw [h]
      rfl

/-- What is read of a line between three double quotes, in any number of steps that is
enough. -/
def ReadsLine (cs text rest : List Char) : Prop :=
  ∀ fuel, cs.length ≤ fuel → quotedLineChars fuel cs = .ok (text, rest)

theorem readsLine_quote (cs : List Char) : ReadsLine ('"' :: cs) [] ('"' :: cs) := by
  intro fuel hfuel
  obtain ⟨fuel, rfl⟩ := Nat.exists_eq_succ_of_ne_zero (Nat.ne_of_gt (Nat.zero_lt_of_lt hfuel))
  rfl

theorem ReadsLine.cons {written cs text rest : List Char} {c : Char}
    (hc : SpellsLine written c) (h : ReadsLine cs text rest) :
    ReadsLine (written ++ cs) (c :: text) rest := by
  intro fuel hfuel
  obtain ⟨first, tail, rfl, -⟩ := hc.exists_eq_cons
  rw [List.length_append, List.length_cons] at hfuel
  obtain ⟨fuel, rfl⟩ := Nat.exists_eq_succ_of_ne_zero (n := fuel) (by omega)
  rw [quotedLineChars_spelled hc, h fuel (by omega), consRead_ok]

/-- The body of a written text is a body, also behind one or two quotes. -/
theorem body_escapedText {count : Nat} (hcount : count ≤ 2) (cs : List Char) {rest : List Char}
    (hrest : rest.head? ≠ some '"') :
    Body '"' ReadsLine
      (List.replicate count '"' ++ (escapedText true count cs ++ (List.replicate 3 '"' ++ rest)))
      (List.replicate count '"' ++ cs) (List.replicate 3 '"' ++ rest) := by
  induction cs generalizing count with
  | nil =>
    rw [escapedText, List.nil_append, List.append_nil]
    exact .close readsLine_quote hcount hrest
  | cons c cs ih =>
    rw [escapedText]
    by_cases hquote : c = '"'
    · subst hquote
      rw [if_pos rfl]
      by_cases hfew : count < 2
      · have hbody := @ih (count + 1) hfew
        rw [List.replicate_succ', List.append_assoc, List.append_assoc] at hbody
        simpa [hfew] using hbody
      · have hbody := (@ih 0 (Nat.zero_le 2)).cons (.cons (.spelled spells_quote))
        have hmarked := hbody.marks readsLine_quote hcount ⟨'\\', rfl, by decide⟩
        simpa [hfew] using hmarked
    · rw [if_neg hquote]
      have hspells := spellsLine_escaped hquote
      obtain ⟨first, tail, hwritten, hfirst, -⟩ := hspells.exists_eq_cons
      have hbody := (@ih 0 (Nat.zero_le 2)).cons (.cons hspells)
      have hmarked := hbody.marks readsLine_quote hcount ⟨first, by simp [hwritten], hfirst⟩
      simpa using hmarked

theorem quotedBody_of_body {cs text rest : List Char} (h : Body '"' ReadsLine cs text rest)
    {fuel : Nat} (hfuel : cs.length < fuel) : quotedBody fuel cs = .ok (text, rest) := by
  induction h generalizing fuel with
  | last hline houter hrest =>
    obtain ⟨fuel, rfl⟩ := Nat.exists_eq_succ_of_ne_zero (Nat.ne_of_gt (Nat.zero_lt_of_lt hfuel))
    rw [quotedBody, hline _ (Nat.le_refl _)]
    simp [innerMarks_close hrest, outerMarks_close hrest houter, drop_marks, bind, Except.bind, pure, Except.pure]
  | more hline hpos hinner hnext hshort _ ih =>
    obtain ⟨fuel, rfl⟩ := Nat.exists_eq_succ_of_ne_zero (Nat.ne_of_gt (Nat.zero_lt_of_lt hfuel))
    rw [quotedBody, hline _ (Nat.le_refl _)]
    have hread := @ih fuel (by omega)
    simp [innerMarks_of_le hinner hnext, Nat.ne_of_gt hpos, hread, bind, Except.bind, pure, Except.pure]

theorem head?_escapedText {cs : List Char} (h : '\n' ∉ cs) (rest : List Char) :
    ∃ first tail, escapedText true 0 cs ++ '"' :: rest = first :: tail ∧ first ≠ '\n' ∧
      first ≠ '\r' := by
  cases cs with
  | nil => exact ⟨'"', rest, rfl, by decide, by decide⟩
  | cons c cs =>
    rw [escapedText]
    by_cases hquote : c = '"'
    · rw [if_pos hquote]
      exact ⟨'"', _, rfl, by decide, by decide⟩
    · rw [if_neg hquote]
      obtain ⟨first, tail, hwritten, -, hreturn, hbreak⟩ :=
        (spellsLine_escaped hquote).exists_eq_cons
      refine ⟨first, _, by rw [hwritten]; rfl, fun hfirst => ?_, hreturn⟩
      exact h (hbreak hfirst ▸ List.mem_cons_self)

/-- A line break in front of the text is written if the text has one, and is not read. -/
theorem quotedLines_escapedText {cs opening rest : List Char}
    (hopening : opening = if cs.contains '\n' then ['\n'] else [])
    (hrest : rest.head? ≠ some '"') :
    quotedLines (opening ++ (escapedText true 0 cs ++ (List.replicate 3 '"' ++ rest))) =
      .ok (cs, rest) := by
  have hbody := body_escapedText (Nat.zero_le 2) cs hrest
  have hread := quotedBody_of_body hbody (Nat.lt_succ_self _)
  have hskip : (lineBreak (opening ++ (escapedText true 0 cs ++
      (List.replicate 3 '"' ++ rest)))).toOption.getD
        (opening ++ (escapedText true 0 cs ++ (List.replicate 3 '"' ++ rest))) =
      escapedText true 0 cs ++ (List.replicate 3 '"' ++ rest) := by
    by_cases hbreak : '\n' ∈ cs
    · rw [hopening, if_pos (List.contains_iff_mem.mpr hbreak)]
      rfl
    · obtain ⟨first, tail, hfront, hne, hreturn⟩ :=
        head?_escapedText hbreak (List.replicate 2 '"' ++ rest)
      rw [hopening, if_neg (mt List.contains_iff_mem.mp hbreak), List.nil_append,
        List.replicate_succ, List.cons_append, hfront, lineBreak_of_ne hne hreturn]
      rfl
  simp only [List.replicate_zero, List.nil_append] at hread
  simp only [quotedLines, hskip, hread, bind, Except.bind]
  rfl

/-! ## Between three apostrophes -/

/-- Whether a character stands for itself between three apostrophes. -/
def isLiteralLineChar (c : Char) : Bool := c == '\n' || isLiteralChar c

/-- What is read of a line between three apostrophes. Something is, unless an apostrophe is in
front. -/
def ReadsLiteralLine (cs text rest : List Char) : Prop :=
  literalLineChars cs = (text, rest) ∧ (cs.head? ≠ some '\'' → rest.length < cs.length)

theorem readsLiteralLine_apostrophe (cs : List Char) :
    ReadsLiteralLine ('\'' :: cs) [] ('\'' :: cs) :=
  ⟨rfl, absurd rfl⟩

theorem literalLineChars_cons {c : Char} (hc : isLiteralLineChar c = true) (cs : List Char) :
    literalLineChars (c :: cs) = (c :: (literalLineChars cs).1, (literalLineChars cs).2) := by
  by_cases hbreak : c = '\n'
  · subst hbreak
    rfl
  · have hreturn : c ≠ '\r' := by
      rintro rfl
      exact absurd hc (by decide)
    have hliteral : isLiteralChar c = true := by simpa [isLiteralLineChar, hbreak] using hc
    rw [literalLineChars.eq_3 _ _ hbreak (by grind), if_pos hliteral]

theorem ReadsLiteralLine.cons {c : Char} {cs text rest : List Char}
    (hc : isLiteralLineChar c = true) (h : ReadsLiteralLine cs text rest) :
    ReadsLiteralLine ([c] ++ cs) (c :: text) rest := by
  obtain ⟨hread, hshort⟩ := h
  refine ⟨?_, fun _ => ?_⟩
  · rw [List.singleton_append, literalLineChars_cons hc, hread]
  · have hle : rest.length ≤ cs.length := by
      cases cs with
      | nil =>
        cases hread
        exact Nat.le_refl _
      | cons d cs =>
        by_cases hd : d = '\''
        · subst hd
          cases hread
          exact Nat.le_refl _
        · exact Nat.le_of_lt (hshort (by simpa using hd))
    rw [List.singleton_append, List.length_cons]
    omega

/-- A text in which at most two apostrophes stand in a row is a body, also behind one or two
that count with its first ones. -/
theorem body_literal {count : Nat} {cs : List Char} (hrun : longestRun '\'' count cs ≤ 2)
    (hcs : ∀ c ∈ cs, c ≠ '\'' → isLiteralLineChar c = true) {rest : List Char}
    (hrest : rest.head? ≠ some '\'') :
    Body '\'' ReadsLiteralLine
      (List.replicate count '\'' ++ (cs ++ (List.replicate 3 '\'' ++ rest)))
      (List.replicate count '\'' ++ cs) (List.replicate 3 '\'' ++ rest) := by
  induction cs generalizing count with
  | nil =>
    rw [List.nil_append, List.append_nil]
    exact .close readsLiteralLine_apostrophe hrun hrest
  | cons c cs ih =>
    have htail : ∀ d ∈ cs, d ≠ '\'' → isLiteralLineChar d = true :=
      fun d hd => hcs d (List.mem_cons_of_mem c hd)
    rw [longestRun] at hrun
    by_cases hmark : c = '\''
    · subst hmark
      rw [if_pos rfl] at hrun
      have hbody := ih hrun htail
      rw [List.replicate_succ', List.append_assoc, List.append_assoc] at hbody
      exact hbody
    · rw [if_neg hmark] at hrun
      have hcount : count ≤ 2 := Nat.le_trans (Nat.le_max_left ..) hrun
      have hlater : longestRun '\'' 0 cs ≤ 2 := Nat.le_trans (Nat.le_max_right ..) hrun
      have hbody := (ih hlater htail).cons (.cons (hcs c List.mem_cons_self hmark))
      exact hbody.marks readsLiteralLine_apostrophe hcount ⟨c, rfl, hmark⟩

theorem literalBody_of_body {cs text rest : List Char}
    (h : Body '\'' ReadsLiteralLine cs text rest) {fuel : Nat} (hfuel : cs.length < fuel) :
    literalBody fuel cs = (text, rest) := by
  induction h generalizing fuel with
  | last hline houter hrest =>
    obtain ⟨fuel, rfl⟩ := Nat.exists_eq_succ_of_ne_zero (Nat.ne_of_gt (Nat.zero_lt_of_lt hfuel))
    rw [literalBody, hline.1]
    simp [innerMarks_close hrest, outerMarks_close hrest houter, drop_marks]
  | @more cs text behind further rest inner hline hpos hinner hnext hshort hbehind ih =>
    obtain ⟨fuel, rfl⟩ := Nat.exists_eq_succ_of_ne_zero (Nat.ne_of_gt (Nat.zero_lt_of_lt hfuel))
    have hread := @ih fuel (by omega)
    have hprogress : (literalLineChars behind).2.length ≠ behind.length := by
      obtain ⟨c, hc, hne⟩ := hnext
      have hhead : behind.head? ≠ some '\'' := fun h => hne (Option.some.inj (hc.symm.trans h))
      cases hbehind with
      | last hline => exact hline.1 ▸ Nat.ne_of_lt (hline.2 hhead)
      | more hline => exact hline.1 ▸ Nat.ne_of_lt (hline.2 hhead)
    rw [literalBody, hline.1]
    simp [innerMarks_of_le hinner hnext, Nat.ne_of_gt hpos, hprogress, hread]

theorem literalLines_append {cs opening rest : List Char}
    (hopening : opening = if cs.contains '\n' then ['\n'] else [])
    (hrun : longestRun '\'' 0 cs ≤ 2) (hcs : ∀ c ∈ cs, c ≠ '\'' → isLiteralLineChar c = true)
    (hrest : rest.head? ≠ some '\'') :
    literalLines (opening ++ (cs ++ (List.replicate 3 '\'' ++ rest))) = .ok (cs, rest) := by
  have hread := literalBody_of_body (body_literal hrun hcs hrest) (Nat.lt_succ_self _)
  have hskip : (lineBreak (opening ++ (cs ++ (List.replicate 3 '\'' ++ rest)))).toOption.getD
      (opening ++ (cs ++ (List.replicate 3 '\'' ++ rest))) =
        cs ++ (List.replicate 3 '\'' ++ rest) := by
    by_cases hbreak : '\n' ∈ cs
    · rw [hopening, if_pos (List.contains_iff_mem.mpr hbreak)]
      rfl
    · rw [hopening, if_neg (mt List.contains_iff_mem.mp hbreak), List.nil_append]
      cases cs with
      | nil => rfl
      | cons c cs =>
        have hne : c ≠ '\n' := fun h => hbreak (h ▸ List.mem_cons_self)
        have hreturn : c ≠ '\r' := by
          rintro rfl
          exact absurd (hcs _ List.mem_cons_self (by decide)) (by decide)
        rw [List.cons_append, lineBreak_of_ne hne hreturn]
        rfl
  simp only [List.replicate_zero, List.nil_append] at hread
  simp only [literalLines, hskip, hread, bind, Except.bind]
  rfl

/-! ## Strings in their forms -/

theorem le_longestRun (mark : Char) (before : Nat) (cs : List Char) :
    before ≤ longestRun mark before cs := by
  induction cs generalizing before with
  | nil => exact Nat.le_refl _
  | cons c cs ih =>
    rw [longestRun]
    split
    · exact Nat.le_trans (Nat.le_succ before) (ih (before + 1))
    · exact Nat.le_max_left ..

theorem longestRun_pos {mark : Char} {cs : List Char} (h : mark ∈ cs) (before : Nat) :
    0 < longestRun mark before cs := by
  induction cs generalizing before with
  | nil => cases h
  | cons c cs ih =>
    rw [longestRun]
    by_cases hc : c = mark
    · rw [if_pos hc]
      exact Nat.lt_of_lt_of_le (Nat.succ_pos before) (le_longestRun mark (before + 1) cs)
    · rw [if_neg hc]
      have hmem := (List.mem_cons.mp h).resolve_left (Ne.symm hc)
      exact Nat.lt_of_lt_of_le (ih hmem 0) (Nat.le_max_right ..)

theorem isLiteralLineChar_of_not_isBadControl {c : Char} (h : isBadControl c = false)
    (hmark : c ≠ '\'') : isLiteralLineChar c = true := by
  by_cases hbreak : c = '\n'
  · subst hbreak
    rfl
  · by_cases htab : c = '\t'
    · subst htab
      rfl
    · simp only [isBadControl, Bool.or_eq_false_iff, Bool.and_eq_false_iff, bne_eq_false_iff_eq,
        decide_eq_false_iff_not, beq_eq_false_iff_ne, htab, hbreak, or_false] at h
      have hlow : 0x20 ≤ c.toNat := by omega
      simp [isLiteralLineChar, isLiteralChar, hlow, hmark, h.2]

theorem isLiteralLineChar_of_ofChars {cs : List Char}
    (h : (Traits.ofChars cs).hasControl = false) :
    ∀ c ∈ cs, c ≠ '\'' → isLiteralLineChar c = true := by
  intro c hc
  refine isLiteralLineChar_of_not_isBadControl ?_
  rw [← Bool.not_eq_true]
  exact List.any_eq_false.mp h c hc

theorem isLiteralChar_of_form {cs : List Char} (h : (Traits.ofChars cs).form = .literal) :
    ∀ c ∈ cs, isLiteralChar c = true := by
  have htraits : (Traits.ofChars cs).hasControl = false ∧ longestRun '\'' 0 cs = 0 ∧
      cs.contains '\n' = false := by
    unfold Traits.form at h
    split at h
    · cases h
    · split at h
      · rename_i htraits
        simpa [Traits.ofChars, and_assoc] using htraits
      · split at h
        · cases h
        · split at h
          · cases h
          · split at h <;> cases h
  obtain ⟨hcontrol, hrun, hbreak⟩ := htraits
  intro c hc
  have hmark : c ≠ '\'' := by
    rintro rfl
    have hpos := longestRun_pos hc 0
    omega
  have hne : c ≠ '\n' := by
    rintro rfl
    exact Bool.false_ne_true (hbreak.symm.trans (List.contains_iff_mem.mpr hc))
  simpa [isLiteralLineChar, hne] using isLiteralLineChar_of_ofChars hcontrol c hc hmark

theorem apostrophes_of_form {cs : List Char} (h : (Traits.ofChars cs).form = .literalLines) :
    (Traits.ofChars cs).hasControl = false ∧ longestRun '\'' 0 cs ≤ 2 := by
  unfold Traits.form at h
  split at h
  · cases h
  · split at h
    · cases h
    · split at h
      · cases h
      · split at h
        · rename_i htraits
          simpa [Traits.ofChars] using htraits
        · split at h <;> cases h

theorem string_quoted (cs rest : List Char) :
    string ('"' :: escapedText false 0 cs ++ ['"'] ++ '\n' :: rest) = .ok (cs, '\n' :: rest) := by
  have hfront : ∀ tail, escapedText false 0 cs ++ '"' :: '\n' :: rest ≠ '"' :: '"' :: tail := by
    intro tail
    cases cs with
    | nil =>
      rintro ⟨⟩
    | cons c cs =>
      obtain ⟨written, hwritten, hspells⟩ := escapedText_false 0 c cs
      obtain ⟨first, more, rfl, hfirst, -⟩ := (SpellsLine.spelled hspells).exists_eq_cons
      rw [hwritten]
      intro heq
      exact hfirst (List.cons.inj heq).1
  rw [List.append_assoc, List.singleton_append, List.cons_append, string.eq_2 _ hfront,
    quoted_escapedText]

theorem string_literal {cs : List Char} (h : ∀ c ∈ cs, isLiteralChar c = true)
    (rest : List Char) :
    string ('\'' :: cs ++ ['\''] ++ '\n' :: rest) = .ok (cs, '\n' :: rest) := by
  have hfront : ∀ tail, cs ++ '\'' :: '\n' :: rest ≠ '\'' :: '\'' :: tail := by
    intro tail
    cases cs with
    | nil =>
      rintro ⟨⟩
    | cons c cs =>
      intro heq
      have hc := h c List.mem_cons_self
      rw [(List.cons.inj heq).1] at hc
      exact absurd hc (by decide)
  rw [List.append_assoc, List.singleton_append, List.cons_append, string.eq_4 _ hfront,
    literal_append h]

/-- A written text is read back from its form, at the end of a line. -/
theorem string_stringText (text : String) (rest : List Char) :
    string (stringText text ++ '\n' :: rest) = .ok (text.toList, '\n' :: rest) := by
  generalize hcs : text.toList = cs
  have hopening : (if (Traits.ofChars cs).hasLineBreak then ['\n'] else []) =
      if cs.contains '\n' then ['\n'] else [] := rfl
  rw [stringText, hcs]
  cases hform : (Traits.ofChars cs).form with
  | quoted => exact string_quoted cs rest
  | literal => exact string_literal (isLiteralChar_of_form hform) rest
  | quotedLines =>
    have hrest : ('\n' :: rest).head? ≠ some '"' := by simp
    have hread := quotedLines_escapedText hopening hrest
    simp only [List.append_assoc]
    exact hread
  | literalLines =>
    obtain ⟨hcontrol, hrun⟩ := apostrophes_of_form hform
    have hrest : ('\n' :: rest).head? ≠ some '\'' := by simp
    have hread := literalLines_append hopening hrun (isLiteralLineChar_of_ofChars hcontrol) hrest
    simp only [List.append_assoc]
    exact hread

end PageManifest.Toml
