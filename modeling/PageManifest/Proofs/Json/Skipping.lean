import PageManifest.Proofs.Json.Grammar

/-!
# Passing over JSON text

What is passed over without being read ends where it would end if it were read. This holds for
strings (`skipString_of_string`), for numbers (`skipNumber_of_number`) and so for every value
that is spelled, however deep it is (`skip_of_spells`): what is passed over is on a stack of
brackets, and a value leaves the stack as it was (`Passes`).
-/

namespace PageManifest.Json

/-! ## Strings -/

variable {cs rest : List Char}

theorem skipEscape_short {c d : Char} (h : shortEscape? c = some d) :
    skipEscape (c :: rest) = .ok rest := by
  have hc : c ≠ 'u' := by
    rintro rfl
    cases h
  unfold skipEscape
  split
  · rename_i hnil
    cases hnil
  · rename_i hcons
    cases hcons
    exact absurd rfl hc
  · rename_i hcons
    cases hcons
    rw [h, Option.isSome_some, if_pos rfl]

theorem length_skipEscape (h : skipEscape cs = .ok rest) : rest.length < cs.length := by
  unfold skipEscape at h
  split at h
  · cases h
  · obtain ⟨⟨value, behind⟩, hvalue, h⟩ := bind_eq_ok.mp h
    cases h
    exact Nat.lt_succ_of_le (length_hexEscape hvalue)
  · split at h
    · cases h
      exact Nat.lt_succ_self _
    · cases h

theorem eq_cons_of_pairMark {mark : Char} (h : pairMark mark cs = .ok rest) :
    cs = mark :: rest := by
  unfold pairMark at h
  split at h
  · cases h
  · split at h
    · rename_i hmark
      cases h
      rw [hmark]
    · cases h

/-- What an escape is followed by, when it was passed over. A character outside the first plane
is read from two escapes, and the second one is still there. -/
theorem skipEscape_of_escape {c : Char} (h : escape cs = .ok (c, rest)) :
    skipEscape cs = .ok rest ∨
      ∃ inside, skipEscape cs = .ok ('\\' :: inside) ∧ skipEscape inside = .ok rest := by
  unfold escape at h
  split at h
  · cases h
  · rename_i digits
    obtain ⟨⟨high, behind⟩, hhigh, h⟩ := bind_eq_ok.mp h
    have hskip : skipEscape ('u' :: digits) = .ok behind := by
      rw [skipEscape, hhigh]
      rfl
    dsimp only at h
    split at h
    · cases h
    · split at h
      · cases h
        exact Or.inl hskip
      · obtain ⟨second, hsecond, h⟩ := bind_eq_ok.mp h
        obtain ⟨third, hthird, h⟩ := bind_eq_ok.mp h
        obtain ⟨⟨low, last⟩, hlow, h⟩ := bind_eq_ok.mp h
        dsimp only at h
        split at h
        · cases h
        · obtain ⟨-, rfl⟩ := Prod.mk.inj (Except.ok.inj h)
          obtain rfl := eq_cons_of_pairMark hsecond
          obtain rfl := eq_cons_of_pairMark hthird
          refine Or.inr ⟨'u' :: third, hskip, ?_⟩
          rw [skipEscape, hlow]
          rfl
  · split at h
    · rename_i hshort
      cases h
      exact Or.inl (skipEscape_short hshort)
    · cases h

theorem skipStringChars_of_stringChars {fuel more : Nat} {inside : List Char}
    (h : stringChars fuel cs = .ok (inside, rest)) (hmore : cs.length < more) :
    skipStringChars more cs = .ok rest := by
  induction fuel generalizing cs inside more with
  | zero =>
    rw [stringChars] at h
    cases h
  | succ fuel ih =>
    obtain ⟨left, rfl⟩ := Nat.exists_eq_succ_of_ne_zero (n := more) (by omega)
    cases cs with
    | nil =>
      rw [stringChars] at h
      cases h
    | cons c cs =>
      rw [List.length_cons] at hmore
      by_cases hquote : c = '"'
      · subst hquote
        rw [stringChars] at h
        cases h
        rw [skipStringChars]
      by_cases hescape : c = '\\'
      · subst hescape
        rw [stringChars] at h
        obtain ⟨⟨d, behind⟩, hd, h⟩ := bind_eq_ok.mp h
        obtain ⟨⟨others, last⟩, hothers, h⟩ := bind_eq_ok.mp h
        cases h
        have hbehind := length_escape hd
        rw [skipStringChars]
        rcases skipEscape_of_escape hd with hskip | ⟨second, hskip, hsecond⟩
        · rw [hskip]
          exact ih hothers (by omega)
        · have hlength := length_skipEscape hskip
          have hfewer := length_skipEscape hsecond
          rw [List.length_cons] at hlength
          rw [hskip]
          dsimp only [bind, Except.bind]
          obtain ⟨fewer, rfl⟩ := Nat.exists_eq_succ_of_ne_zero (n := left) (by omega)
          rw [skipStringChars, hsecond]
          exact ih hothers (by omega)
      · rw [stringChars] at h
        · split at h
          · cases h
          · rename_i hcontrol
            obtain ⟨⟨others, last⟩, hothers, h⟩ := bind_eq_ok.mp h
            cases h
            rw [skipStringChars, if_neg hcontrol]
            · exact ih hothers (by omega)
            · exact hquote
            · exact hescape
        · exact hquote
        · exact hescape

theorem skipString_of_string {text : String} (h : string cs = .ok (text, rest)) :
    skipString cs = .ok rest := by
  obtain ⟨⟨inside, behind⟩, hchars, h⟩ := bind_eq_ok.mp h
  cases h
  exact skipStringChars_of_stringChars hchars (Nat.lt_succ_self _)

/-! ## Numbers -/

theorem skipDigits_cons {c : Char} (h : c.isDigit = true) (cs : List Char) :
    skipDigits (c :: cs) = skipDigits cs := List.dropWhile_cons_of_pos h

theorem skipDigits_of_not_startsWithDigit (h : startsWithDigit cs = false) :
    skipDigits cs = cs := by
  cases cs with
  | nil => rfl
  | cons c cs => exact List.dropWhile_cons_of_neg (Bool.not_eq_true _ ▸ h)

/-- Digits that are read are passed over. -/
theorem skipDigits_digitsWithin (limit : Nat) (cs : List Char) (acc count : Nat) :
    skipDigits (digitsWithin limit cs acc count).2.2 = skipDigits cs := by
  induction cs generalizing acc count with
  | nil => rfl
  | cons c cs ih =>
    rw [digitsWithin]
    split
    · rename_i h
      rw [ih, skipDigits_cons (Bool.and_eq_true_iff.mp h).1]
    · rfl

theorem digitsWithin_of_not_startsWithDigit (h : startsWithDigit cs = false)
    (limit acc count : Nat) : digitsWithin limit cs acc count = (acc, count, cs) := by
  cases cs with
  | nil => rfl
  | cons c cs =>
    have hdigit : c.isDigit = false := h
    rw [digitsWithin, hdigit, Bool.false_and, if_neg Bool.false_ne_true]

variable {positive : Bool} {n : Number}

theorem rest_of_finishFloat {significand : Nat} {exponent : Int}
    (h : finishFloat positive significand exponent cs = .ok (n, rest)) : rest = cs := by
  unfold finishFloat at h
  split at h
  · cases h
    rfl
  · cases h

/-- A sign is passed over as it is read. -/
theorem skipExponent_of_sign {up : Bool} {digits : List Char}
    (h : (match cs with
      | '+' :: rest => (true, rest)
      | '-' :: rest => (false, rest)
      | rest => (true, rest)) = (up, digits)) :
    skipExponent cs =
      if startsWithDigit digits then .ok (skipDigits digits) else failPast .badNumber digits := by
  cases cs with
  | nil =>
    cases h
    rfl
  | cons c rest =>
    by_cases hplus : c = '+'
    · subst hplus
      cases h
      rfl
    by_cases hminus : c = '-'
    · subst hminus
      cases h
      rfl
    · simp only [List.cons.injEq, hplus, hminus, false_and, imp_self, implies_true] at h
      cases h
      simp [skipExponent, hplus, hminus]

theorem skipExponent_of_exponentPart {significand : Nat} {start : Int}
    (h : exponentPart positive significand start cs = .ok (n, rest)) :
    skipExponent cs = .ok rest := by
  unfold exponentPart at h
  split at h
  rename_i up digits hsigned
  have hsign := skipExponent_of_sign hsigned
  cases digits with
  | nil => cases h
  | cons c digits =>
    dsimp only at h
    split at h
    · cases h
    · rename_i hdigit
      have hstarts : startsWithDigit (c :: digits) = true := by
        rw [startsWithDigit]
        simpa using hdigit
      have hskip := skipDigits_digitsWithin exponentLimit (c :: digits) 0 0
      rw [hsign, if_pos hstarts, ← hskip]
      generalize digitsWithin exponentLimit (c :: digits) 0 0 = read at h ⊢
      obtain ⟨exponent, count, behind⟩ := read
      dsimp only at h ⊢
      split at h
      · rename_i d after
        split at h
        · rename_i hmore
          rw [skipDigits_cons hmore]
          split at h
          · cases h
          · cases h
            rfl
        · rename_i hend
          rw [rest_of_finishFloat h, skipDigits_of_not_startsWithDigit (Bool.not_eq_true _ ▸ hend)]
      · rw [rest_of_finishFloat h]
        rfl

theorem skipExponentOrEnd_of_exponentOrEnd {significand : Nat} {exponent : Int}
    (h : exponentOrEnd positive significand exponent cs = .ok (n, rest)) :
    skipExponentOrEnd cs = .ok rest := by
  unfold exponentOrEnd at h
  split at h
  · exact skipExponent_of_exponentPart h
  · exact skipExponent_of_exponentPart h
  · rename_i hsmall hlarge
    rw [rest_of_finishFloat h]
    unfold skipExponentOrEnd
    split
    · rename_i rest
      exact absurd rfl (hsmall rest)
    · rename_i rest
      exact absurd rfl (hlarge rest)
    · rfl

/-- Behind a point there is at least one digit. -/
theorem skipFraction_of_fractionPart {significand : Nat} {exponent : Int}
    (h : fractionPart positive significand exponent cs = .ok (n, rest)) :
    startsWithDigit cs = true ∧ skipExponentOrEnd (skipDigits cs) = .ok rest := by
  have hskip := skipDigits_digitsWithin significandLimit cs significand 0
  unfold fractionPart at h
  cases hstarts : startsWithDigit cs with
  | false =>
    rw [digitsWithin_of_not_startsWithDigit hstarts] at h
    dsimp only at h
    rw [hstarts, if_neg Bool.false_ne_true, if_pos rfl] at h
    cases h
  | true =>
    refine ⟨rfl, ?_⟩
    rw [← hskip]
    generalize digitsWithin significandLimit cs significand 0 = read at h ⊢
    obtain ⟨value, count, behind⟩ := read
    dsimp only at h ⊢
    split at h
    · exact skipExponentOrEnd_of_exponentOrEnd h
    · rename_i hend
      split at h
      · cases h
      · rw [skipDigits_of_not_startsWithDigit (Bool.not_eq_true _ ▸ hend)]
        exact skipExponentOrEnd_of_exponentOrEnd h

theorem skipAfterInteger_of_afterInteger {value : Nat}
    (h : afterInteger positive value cs = .ok (n, rest)) : skipAfterInteger cs = .ok rest := by
  unfold afterInteger at h
  split at h
  · obtain ⟨hstarts, hskip⟩ := skipFraction_of_fractionPart h
    rw [skipAfterInteger, if_pos hstarts, hskip]
  · exact skipExponent_of_exponentPart h
  · exact skipExponent_of_exponentPart h
  · rename_i hpoint hsmall hlarge
    cases h
    unfold skipAfterInteger
    split
    · rename_i rest
      exact absurd rfl (hpoint rest)
    · unfold skipExponentOrEnd
      split
      · rename_i rest _
        exact absurd rfl (hsmall rest)
      · rename_i rest _
        exact absurd rfl (hlarge rest)
      · rfl

theorem skipAfterInteger_of_longInteger {value : Nat}
    (h : longInteger positive value cs = .ok (n, rest)) :
    skipAfterInteger (skipDigits cs) = .ok rest := by
  unfold longInteger at h
  dsimp only at h
  generalize skipDigits cs = behind at h ⊢
  split at h
  · obtain ⟨hstarts, hskip⟩ := skipFraction_of_fractionPart h
    rw [skipAfterInteger, if_pos hstarts, hskip]
  · rename_i hpoint
    unfold skipAfterInteger
    split
    · rename_i rest
      exact absurd rfl (hpoint rest)
    · exact skipExponentOrEnd_of_exponentOrEnd h

theorem skipNumber_of_number (h : number positive cs = .ok (n, rest)) :
    skipNumber cs = .ok rest := by
  unfold number at h
  split at h
  · cases h
  · split at h
    · cases h
    · rename_i hend
      rw [skipNumber, if_neg hend]
      exact skipAfterInteger_of_afterInteger h
  · rename_i c digits hzero
    by_cases hdigit : c.isDigit = true
    · rw [if_neg (by simp [hdigit])] at h
      have hskip := skipDigits_digitsWithin significandLimit (c :: digits) 0 0
      have hpasses : skipNumber (c :: digits) = skipAfterInteger (skipDigits (c :: digits)) := by
        unfold skipNumber
        split
        · rename_i hcons
          cases hcons
          exact absurd rfl hzero
        · exact if_pos hdigit
      rw [hpasses, ← hskip]
      generalize digitsWithin significandLimit (c :: digits) 0 0 = read at h ⊢
      obtain ⟨value, count, after⟩ := read
      dsimp only at h ⊢
      split at h
      · exact skipAfterInteger_of_longInteger h
      · rename_i hend
        rw [skipDigits_of_not_startsWithDigit (Bool.not_eq_true _ ▸ hend)]
        exact skipAfterInteger_of_afterInteger h
    · rw [if_pos (by simp [hdigit])] at h
      cases h

/-! ## Values -/

/-- Goes on behind a value that is enclosed by brackets, or behind the last one that opens. -/
def goOn (fuel : Nat) (commaAccepted : Bool) (enclosing : List Bracket) (cs : List Char) :
    Except Failure (List Char) := do
  match ← skipClosings commaAccepted enclosing cs with
  | ([], rest) => return rest
  | (bracket :: outer, rest) => skipValues fuel (bracket :: outer) (← skipKey bracket rest)

/-- Passing over a value takes a number of steps and goes on behind it, whatever encloses it. What
is inside brackets takes a number of steps and goes on behind the closing one. -/
def Passes (cs : List Char) (tree : Value) (rest : List Char) : Aim → Prop
  | .value => ∃ steps, 0 < steps ∧ steps + rest.length ≤ cs.length ∧ ∀ fuel enclosing,
      skipValues (fuel + steps) enclosing cs = goOn fuel true enclosing rest
  | .items first => ∃ steps, (tree ≠ .sequence [] → 0 < steps) ∧
      steps + rest.length ≤ cs.length ∧ ∀ fuel enclosing,
      goOn (fuel + steps) (!first) (.list :: enclosing) cs = goOn fuel true enclosing rest
  | .members first => ∃ steps, steps + rest.length ≤ cs.length ∧ ∀ fuel enclosing,
      goOn (fuel + steps) (!first) (.object :: enclosing) cs = goOn fuel true enclosing rest

variable {fuel : Nat} {enclosing : List Bracket} {bracket : Bracket}

theorem goOn_close {commaAccepted : Bool} (h : skipSpace cs = bracket.close :: rest) :
    goOn fuel commaAccepted (bracket :: enclosing) cs = goOn fuel true enclosing rest := by
  have hcomma : bracket.close ≠ ',' := by cases bracket <;> decide
  simp [goOn, skipClosings, h, hcomma]

theorem goOn_comma (h : skipSpace cs = ',' :: rest) :
    goOn fuel true (bracket :: enclosing) cs =
      skipKey bracket rest >>= skipValues fuel (bracket :: enclosing) := by
  rw [goOn, skipClosings, h]
  rfl

theorem goOn_open {c : Char} (bracket : Bracket) (h : skipSpace cs = c :: rest)
    (hc : c ≠ bracket.close) :
    goOn fuel false (bracket :: enclosing) cs =
      skipKey bracket (c :: rest) >>= skipValues fuel (bracket :: enclosing) := by
  simp [goOn, skipClosings, h, hc, bind, Except.bind]

theorem skipValues_skipSpace (fuel : Nat) (enclosing : List Bracket) (cs : List Char) :
    skipValues (fuel + 1) enclosing (skipSpace cs) = skipValues (fuel + 1) enclosing cs := by
  rw [skipValues, skipValues, skipSpace_skipSpace]

theorem skipKey_skipSpace (cs : List Char) :
    skipKey .object (skipSpace cs) = skipKey .object cs := by
  rw [skipKey, skipKey, skipSpace_skipSpace]

theorem skipValues_quote (h : skipSpace cs = '"' :: rest) :
    skipValues (fuel + 1) enclosing cs = skipString rest >>= goOn fuel true enclosing := by
  rw [skipValues, h]
  rfl

theorem skipValues_minus (h : skipSpace cs = '-' :: rest) :
    skipValues (fuel + 1) enclosing cs = skipNumber rest >>= goOn fuel true enclosing := by
  rw [skipValues, h]
  rfl

theorem skipValues_of_isDigit {c : Char} (h : c.isDigit = true) (cs : List Char) :
    skipValues (fuel + 1) enclosing (c :: cs) =
      skipNumber (c :: cs) >>= goOn fuel true enclosing := by
  have hne : ∀ d, d.isDigit = false → c ≠ d := by
    rintro d hd rfl
    cases h.symm.trans hd
  rw [skipValues, skipSpace_of_not_isSpace (not_isSpace_of_isDigit h)]
  simp [hne 'n' (by decide), hne 't' (by decide), hne 'f' (by decide), hne '"' (by decide),
    hne '-' (by decide), hne '[' (by decide), hne '{' (by decide), h]
  rfl

/-- A scalar is passed over in one step. -/
theorem passes_scalar {tree : Value} (h : Spells .value cs tree rest)
    (hskip : ∀ fuel enclosing, skipValues (fuel + 1) enclosing cs = goOn fuel true enclosing rest) :
    Passes cs tree rest .value := by
  have hlength := h.length_lt
  exact ⟨1, Nat.one_pos, by omega, hskip⟩

theorem passes_firstItem {behind : List Char} {item : Value} {others : List Value}
    (hitem : Spells .value cs item behind) (ihitem : Passes cs item behind .value)
    (ihothers : Passes behind (.sequence others) rest (.items false)) :
    Passes cs (.sequence (item :: others)) rest (.items true) := by
  obtain ⟨first, hfirst, hbehind, hitems⟩ := ihitem
  obtain ⟨more, -, hrest, hmore⟩ := ihothers
  obtain ⟨c, inside, hstart, hne⟩ := hitem.exists_start
  refine ⟨more + first, fun _ => by omega, by omega, fun fuel enclosing => ?_⟩
  obtain ⟨left, hleft⟩ := Nat.exists_eq_succ_of_ne_zero (n := fuel + (more + first)) (by omega)
  have hopen : goOn (fuel + (more + first)) false (.list :: enclosing) cs =
      skipValues (fuel + (more + first)) (.list :: enclosing) cs := by
    rw [goOn_open .list hstart hne, ← hstart, hleft, ← skipValues_skipSpace]
    rfl
  rw [Bool.not_true, hopen, ← Nat.add_assoc, hitems]
  exact hmore fuel enclosing

theorem passes_nextItem {after : List Char} {item : Value} {others : List Value}
    (h : skipSpace cs = ',' :: after)
    (hitems : Spells (.items true) after (.sequence (item :: others)) rest)
    (ih : Passes after (.sequence (item :: others)) rest (.items true)) :
    Passes cs (.sequence (item :: others)) rest (.items false) := by
  obtain ⟨steps, hsteps, hrest, hpasses⟩ := ih
  have hlength := length_of_skipSpace h
  have hsome : 0 < steps := hsteps (by simp)
  refine ⟨steps, hsteps, by omega, fun fuel enclosing => ?_⟩
  rw [← hpasses, Bool.not_false, goOn_comma h]
  cases hitems with
  | firstItem hitem _ =>
    obtain ⟨c, inside, hstart, hne⟩ := hitem.exists_start
    obtain ⟨left, hleft⟩ := Nat.exists_eq_succ_of_ne_zero (n := fuel + steps) (by omega)
    rw [Bool.not_true, goOn_open .list hstart hne, ← hstart, hleft]
    exact (skipValues_skipSpace left _ after).symm

theorem passes_firstMember {inside between after behind : List Char} {key : String}
    {item : Value} {others : List (String × Value)} (h : skipSpace cs = '"' :: inside)
    (hkey : string inside = .ok (key, between)) (hcolon : skipSpace between = ':' :: after)
    (ihitem : Passes after item behind .value)
    (ihothers : Passes behind (.mapping others) rest (.members false)) :
    Passes cs (.mapping ((key, item) :: others)) rest (.members true) := by
  obtain ⟨first, hfirst, hbehind, hitems⟩ := ihitem
  obtain ⟨more, hrest, hmore⟩ := ihothers
  have hquote := length_of_skipSpace h
  have hname := length_string hkey
  have hpoint := length_of_skipSpace hcolon
  refine ⟨more + first, by omega, fun fuel enclosing => ?_⟩
  have hbetween : skipKey .object ('"' :: inside) = .ok after := by
    rw [← h, skipKey_skipSpace, skipKey]
    simp [h, skipString_of_string hkey, colon_of_skipSpace hcolon, bind, Except.bind]
  rw [Bool.not_true, goOn_open .object h (by decide), hbetween, ← Nat.add_assoc]
  exact (hitems (fuel + more) (.object :: enclosing)).trans (hmore fuel enclosing)

theorem passes_nextMember {after : List Char} {entry : String × Value}
    {others : List (String × Value)} (h : skipSpace cs = ',' :: after)
    (hmembers : Spells (.members true) after (.mapping (entry :: others)) rest)
    (ih : Passes after (.mapping (entry :: others)) rest (.members true)) :
    Passes cs (.mapping (entry :: others)) rest (.members false) := by
  obtain ⟨steps, hrest, hpasses⟩ := ih
  have hlength := length_of_skipSpace h
  refine ⟨steps, by omega, fun fuel enclosing => ?_⟩
  rw [← hpasses, Bool.not_false, goOn_comma h]
  cases hmembers with
  | firstMember hquote _ _ _ _ =>
    rw [Bool.not_true, goOn_open .object hquote (by decide), ← hquote, skipKey_skipSpace]

/-- Whatever is spelled is passed over. The induction is on how it is spelled. -/
theorem passes_of_spells {tree : Value} {aim : Aim} (h : Spells aim cs tree rest) :
    Passes cs tree rest aim := by
  induction h with
  | null h =>
    refine passes_scalar (.null h) fun fuel enclosing => ?_
    rw [skipValues, h]
    rfl
  | yes h =>
    refine passes_scalar (.yes h) fun fuel enclosing => ?_
    rw [skipValues, h]
    rfl
  | no h =>
    refine passes_scalar (.no h) fun fuel enclosing => ?_
    rw [skipValues, h]
    rfl
  | string h htext =>
    refine passes_scalar (.string h htext) fun fuel enclosing => ?_
    rw [skipValues_quote h, skipString_of_string htext]
    rfl
  | negative h hnumber =>
    refine passes_scalar (.negative h hnumber) fun fuel enclosing => ?_
    rw [skipValues_minus h, skipNumber_of_number hnumber]
    rfl
  | positive h hdigit hnumber =>
    refine passes_scalar (.positive h hdigit hnumber) fun fuel enclosing => ?_
    rw [← skipValues_skipSpace, h, skipValues_of_isDigit hdigit, skipNumber_of_number hnumber]
    rfl
  | list h _ ih =>
    obtain ⟨steps, -, hrest, hpasses⟩ := ih
    have hlength := length_of_skipSpace h
    refine ⟨steps + 1, Nat.succ_pos _, by omega, fun fuel enclosing => ?_⟩
    rw [← Nat.add_assoc, skipValues, h]
    exact hpasses fuel enclosing
  | object h _ ih =>
    obtain ⟨steps, hrest, hpasses⟩ := ih
    have hlength := length_of_skipSpace h
    refine ⟨steps + 1, Nat.succ_pos _, by omega, fun fuel enclosing => ?_⟩
    rw [← Nat.add_assoc, skipValues, h]
    exact hpasses fuel enclosing
  | listEnd h =>
    have hlength := length_of_skipSpace h
    exact ⟨0, fun hsome => absurd rfl hsome, by omega, fun fuel enclosing => goOn_close h⟩
  | firstItem hitem _ ihitem ihothers => exact passes_firstItem hitem ihitem ihothers
  | nextItem h hitems ih => exact passes_nextItem h hitems ih
  | objectEnd h =>
    have hlength := length_of_skipSpace h
    exact ⟨0, by omega, fun fuel enclosing => goOn_close h⟩
  | firstMember h hkey hcolon _ _ ihitem ihothers =>
    exact passes_firstMember h hkey hcolon ihitem ihothers
  | nextMember h hmembers ih => exact passes_nextMember h hmembers ih

/-- A value is passed over just to its end. -/
theorem skip_of_spells {tree : Value} (h : Spells .value cs tree rest) : skip cs = .ok rest := by
  obtain ⟨steps, -, hlength, hpasses⟩ := passes_of_spells h
  have hfuel : stepsFor cs = (stepsFor cs - steps) + steps := by
    rw [stepsFor]
    omega
  rw [skip, hfuel, hpasses]
  rfl

end PageManifest.Json
