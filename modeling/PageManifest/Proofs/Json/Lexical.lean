import PageManifest.Json.Reader
import PageManifest.Json.Writer

/-!
# Strings and numbers that were written

A string is read back with all its characters, be they quotes, backslashes or controls
(`string_stringText`). The digits of a whole number are read back if they fit into 64 bits and
nothing behind continues them (`number_toDigits`).
-/

namespace PageManifest.Json

/-! ## Strings -/

/-- A control that has no short escape is written by its number. -/
theorem hexEscape_control {c : Char} (h : c.toNat < 0x20) (rest : List Char) :
    hexEscape ('0' :: '0' :: hexDigit (c.toNat / 16) :: hexDigit (c.toNat % 16) :: rest) =
      .ok (c.toNat, rest) := by
  have hdigits : ∀ n < 0x20, (Text.hexValue? (hexDigit (n / 16))).bind (fun high =>
      (Text.hexValue? (hexDigit (n % 16))).map (high * 16 + ·)) = some n := by
    decide
  have hzero : Text.hexValue? '0' = some 0 := by decide
  have hnumber := hdigits c.toNat h
  obtain ⟨high, hhigh, hlow⟩ := Option.bind_eq_some_iff.mp hnumber
  obtain ⟨low, hlow, hsum⟩ := Option.map_eq_some_iff.mp hlow
  simp [hexEscape, Text.hexNumber?, hzero, hhigh, hlow, hsum]

theorem escape_control {c : Char} (h : c.toNat < 0x20) (rest : List Char) :
    escape ('u' :: '0' :: '0' :: hexDigit (c.toNat / 16) :: hexDigit (c.toNat % 16) :: rest) =
      .ok (c, rest) := by
  have hlow : ¬ (0xDC00 ≤ c.toNat) := by omega
  have hhigh : c.toNat < 0xD800 := by omega
  simp [escape, unicodeEscape, hexEscape_control h, hlow, hhigh, bind, Except.bind, pure,
    Except.pure]

/-- A character is read back from what stands for it. -/
theorem stringChars_escapeChar (fuel : Nat) (c : Char) (rest : List Char) :
    stringChars (fuel + 1) (escapeChar c ++ rest) = do
      let (cs, rest) ← stringChars fuel rest
      return (c :: cs, rest) := by
  unfold escapeChar
  split
  · simp [stringChars, escape, shortEscape?, bind, Except.bind]
  · simp [stringChars, escape, shortEscape?, bind, Except.bind]
  · simp [stringChars, escape, shortEscape?, bind, Except.bind]
  · simp [stringChars, escape, shortEscape?, bind, Except.bind]
  · simp [stringChars, escape, shortEscape?, bind, Except.bind]
  · simp [stringChars, escape, shortEscape?, bind, Except.bind]
  · simp [stringChars, escape, shortEscape?, bind, Except.bind]
  · rename_i hquote hbackslash _ _ _ _ _
    split
    · rename_i hcontrol
      simp only [List.cons_append, List.nil_append, stringChars, escape_control hcontrol]
      rfl
    · rename_i hplain
      rw [List.singleton_append, stringChars.eq_5 _ _ _ hquote hbackslash, if_neg hplain]

theorem length_le_length_flatMap_escapeChar (cs : List Char) :
    cs.length ≤ (cs.flatMap escapeChar).length := by
  induction cs with
  | nil => exact Nat.le_refl _
  | cons c cs ih =>
    have hpos : 0 < (escapeChar c).length := by
      unfold escapeChar
      split <;> first | simp | (split <;> simp)
    rw [List.flatMap_cons, List.length_append, List.length_cons]
    omega

theorem stringChars_flatMap_escapeChar {fuel : Nat} {cs : List Char} (h : cs.length < fuel)
    (rest : List Char) :
    stringChars fuel (cs.flatMap escapeChar ++ '"' :: rest) = .ok (cs, rest) := by
  induction cs generalizing fuel with
  | nil =>
    obtain ⟨fuel, rfl⟩ := Nat.exists_eq_succ_of_ne_zero (Nat.ne_of_gt h)
    rfl
  | cons c cs ih =>
    obtain ⟨fuel, rfl⟩ := Nat.exists_eq_succ_of_ne_zero (Nat.ne_of_gt (Nat.zero_lt_of_lt h))
    rw [List.flatMap_cons, List.append_assoc, stringChars_escapeChar,
      ih (Nat.lt_of_succ_lt_succ h)]
    rfl

/-- A string is read back. -/
theorem string_stringText (text : String) (rest : List Char) :
    string (text.toList.flatMap escapeChar ++ '"' :: rest) = .ok (text, rest) := by
  have hlength := length_le_length_flatMap_escapeChar text.toList
  rw [string, stringChars_flatMap_escapeChar]
  · simp [bind, Except.bind, pure, Except.pure]
  · rw [List.length_append, List.length_cons]
    omega

/-! ## Digits -/

/-- What stands behind a number does not continue it. -/
def EndsNumber (rest : List Char) : Prop :=
  ∀ c ∈ rest.head?, c.isDigit = false ∧ c ≠ '.' ∧ c ≠ 'e' ∧ c ≠ 'E'

theorem startsWithDigit_of_endsNumber {rest : List Char} (h : EndsNumber rest) :
    startsWithDigit rest = false := by
  cases rest with
  | nil => rfl
  | cons c rest => exact (h c rfl).1

theorem le_ofDigitChars (cs : List Char) (acc : Nat) : acc ≤ Nat.ofDigitChars 10 cs acc := by
  rw [Nat.ofDigitChars_eq_ofDigitChars_zero]
  have hpow : 1 ≤ 10 ^ cs.length := Nat.one_le_pow _ _ (by decide)
  have := Nat.mul_le_mul_right acc hpow
  omega

/-- Digits within the limit are all read. -/
theorem digitsWithin_append {limit : Nat} {digits : List Char} {acc : Nat}
    (hdigits : ∀ c ∈ digits, c.isDigit = true) (hlimit : Nat.ofDigitChars 10 digits acc ≤ limit)
    {rest : List Char} (hrest : startsWithDigit rest = false) (count : Nat) :
    digitsWithin limit (digits ++ rest) acc count =
      (Nat.ofDigitChars 10 digits acc, count + digits.length, rest) := by
  induction digits generalizing acc count with
  | nil =>
    cases rest with
    | nil => rfl
    | cons c rest =>
      have hc : c.isDigit = false := hrest
      simp [digitsWithin, hc]
  | cons c digits ih =>
    rw [Nat.ofDigitChars_cons, Nat.mul_comm] at hlimit ⊢
    have hc := hdigits c (List.mem_cons_self ..)
    have hstep : acc * 10 + digitValue c ≤ limit := Nat.le_trans (le_ofDigitChars digits _) hlimit
    have hread := ih (fun d hd => hdigits d (List.mem_cons_of_mem _ hd)) hlimit (count + 1)
    rw [List.cons_append, digitsWithin, hc, Bool.true_and, if_pos (by simpa using hstep),
      digitValue, hread, List.length_cons, Nat.add_right_comm, Nat.add_assoc]

theorem isDigit_of_mem_toDigits {n : Nat} {c : Char} (h : c ∈ Nat.toDigits 10 n) :
    c.isDigit = true :=
  Nat.isDigit_of_mem_toDigits (by decide) (by decide) h

/-- No digits are in front that could be left out. -/
theorem exists_toDigits_eq_cons (n : Nat) : ∃ c cs, Nat.toDigits 10 n = c :: cs ∧
    c.isDigit = true ∧ (c = '0' → n = 0 ∧ cs = []) := by
  induction n using Nat.strongRecOn with
  | ind n ih =>
    by_cases hsmall : n < 10
    · refine ⟨Nat.digitChar n, [], Nat.toDigits_of_lt_base hsmall, ?_, ?_⟩
      · exact isDigit_of_mem_toDigits (n := n) (by simp [Nat.toDigits_of_lt_base hsmall])
      · have hzero : ∀ m < 10, Nat.digitChar m = '0' → m = 0 := by decide
        exact fun h => ⟨hzero n hsmall h, rfl⟩
    · obtain ⟨c, cs, hdigits, hc, hzero⟩ := ih (n / 10) (by omega)
      refine ⟨c, cs ++ [Nat.digitChar (n % 10)], ?_, hc, ?_⟩
      · rw [Nat.toDigits_of_base_le (by decide) (by omega), hdigits, List.cons_append]
      · intro h
        have := (hzero h).1
        omega

/-! ## Whole numbers -/

theorem afterInteger_of_endsNumber {rest : List Char} (h : EndsNumber rest) (positive : Bool)
    (n : Nat) : afterInteger positive n rest = .ok (wholeNumber positive n, rest) := by
  unfold afterInteger
  split
  · exact absurd rfl (h _ rfl).2.1
  · exact absurd rfl (h _ rfl).2.2.1
  · exact absurd rfl (h _ rfl).2.2.2
  · rfl

theorem digitsWithin_toDigits {limit n : Nat} (hn : n ≤ limit) {rest : List Char}
    (hrest : startsWithDigit rest = false) :
    digitsWithin limit (Nat.toDigits 10 n ++ rest) 0 0 =
      (n, 0 + (Nat.toDigits 10 n).length, rest) := by
  rw [digitsWithin_append (fun c hc => isDigit_of_mem_toDigits hc) (by simpa using hn) hrest,
    Nat.ofDigitChars_ten_toDigits]

/-- A number whose digits fit into 64 bits is read exactly. -/
theorem number_toDigits {n : Nat} (hn : n ≤ significandLimit) {rest : List Char}
    (hrest : EndsNumber rest) (positive : Bool) :
    number positive (Nat.toDigits 10 n ++ rest) = .ok (wholeNumber positive n, rest) := by
  have hstart := startsWithDigit_of_endsNumber hrest
  have hread := digitsWithin_toDigits hn hstart
  obtain ⟨c, cs, hdigits, hc, hzero⟩ := exists_toDigits_eq_cons n
  rw [hdigits, List.cons_append] at hread ⊢
  unfold number
  split
  · rename_i hnil
    cases hnil
  · rename_i hcons
    cases hcons
    obtain ⟨rfl, rfl⟩ := hzero rfl
    rw [List.nil_append, hstart, if_neg Bool.false_ne_true, afterInteger_of_endsNumber hrest]
  · rename_i hcons
    cases hcons
    rw [hc, hread]
    simp [hstart, afterInteger_of_endsNumber hrest]

end PageManifest.Json
