import PageManifest.Json.Reader
import PageManifest.Proofs.Decimal.Reader
import PageManifest.Proofs.General

/-!
# What readers of JSON text leave

A reader of a word, a number or a string leaves no more characters than it got, and fewer if it
reads a number (`length_number`).
-/

namespace PageManifest

namespace Json

theorem length_skipSpace (cs : List Char) : (skipSpace cs).length ≤ cs.length :=
  (List.dropWhile_suffix _).length_le

theorem length_skipDigits (cs : List Char) : (skipDigits cs).length ≤ cs.length :=
  (List.dropWhile_suffix _).length_le

theorem word_eq_ok_iff {letters cs rest : List Char} :
    word letters cs = .ok rest ↔ cs = letters ++ rest := by
  induction letters generalizing cs with
  | nil => exact ⟨fun h => by cases h; rfl, fun h => by rw [h]; rfl⟩
  | cons letter letters ih =>
    cases cs with
    | nil => simp [word, failAt]
    | cons c cs =>
      by_cases h : c = letter
      · simp [word, h, ih]
      · simp [word, h, failPast]

theorem length_digitsWithin (limit : Nat) (cs : List Char) (acc count : Nat) :
    (digitsWithin limit cs acc count).2.2.length ≤ cs.length := by
  induction cs generalizing acc count with
  | nil => exact Nat.le_refl _
  | cons c cs ih =>
    rw [digitsWithin]
    split
    · exact Nat.le_succ_of_le (ih _ _)
    · exact Nat.le_refl _

variable {positive : Bool} {n : Number} {cs rest : List Char}

theorem length_finishFloat {significand : Nat} {exponent : Int}
    (h : finishFloat positive significand exponent cs = .ok (n, rest)) :
    rest.length ≤ cs.length := by
  unfold finishFloat at h
  split at h
  · cases h
    exact Nat.le_refl _
  · cases h

theorem length_exponentPart {significand : Nat} {start : Int}
    (h : exponentPart positive significand start cs = .ok (n, rest)) :
    rest.length ≤ cs.length := by
  unfold exponentPart at h
  split at h
  rename_i up digits hsigned
  have hsign : digits.length ≤ cs.length := by
    split at hsigned
    · cases hsigned
      exact Nat.le_succ _
    · cases hsigned
      exact Nat.le_succ _
    · cases hsigned
      exact Nat.le_refl _
  cases digits with
  | nil => cases h
  | cons c digits =>
    dsimp only at h
    split at h
    · cases h
    · have hdigits := length_digitsWithin exponentLimit (c :: digits) 0 0
      generalize digitsWithin exponentLimit (c :: digits) 0 0 = read at h hdigits
      obtain ⟨exponent, count, behind⟩ := read
      dsimp only at h hdigits
      refine Nat.le_trans ?_ (Nat.le_trans hdigits hsign)
      split at h
      · rename_i d after
        split at h
        · split at h
          · cases h
          · cases h
            exact Nat.le_succ_of_le (length_skipDigits after)
        · exact length_finishFloat h
      · exact length_finishFloat h

theorem length_exponentOrEnd {significand : Nat} {exponent : Int}
    (h : exponentOrEnd positive significand exponent cs = .ok (n, rest)) :
    rest.length ≤ cs.length := by
  unfold exponentOrEnd at h
  split at h
  · exact Nat.le_succ_of_le (length_exponentPart h)
  · exact Nat.le_succ_of_le (length_exponentPart h)
  · exact length_finishFloat h

theorem length_fractionPart {significand : Nat} {exponent : Int}
    (h : fractionPart positive significand exponent cs = .ok (n, rest)) :
    rest.length ≤ cs.length := by
  have hdigits := length_digitsWithin significandLimit cs significand 0
  unfold fractionPart at h
  generalize digitsWithin significandLimit cs significand 0 = digits at h hdigits
  obtain ⟨value, count, behind⟩ := digits
  dsimp only at h hdigits
  split at h
  · have hskip := length_skipDigits behind
    have hend := length_exponentOrEnd h
    omega
  · split at h
    · cases h
    · exact Nat.le_trans (length_exponentOrEnd h) hdigits

theorem length_afterInteger {value : Nat} (h : afterInteger positive value cs = .ok (n, rest)) :
    rest.length ≤ cs.length := by
  unfold afterInteger at h
  split at h
  · exact Nat.le_succ_of_le (length_fractionPart h)
  · exact Nat.le_succ_of_le (length_exponentPart h)
  · exact Nat.le_succ_of_le (length_exponentPart h)
  · cases h
    exact Nat.le_refl _

theorem length_longInteger {value : Nat} (h : longInteger positive value cs = .ok (n, rest)) :
    rest.length ≤ cs.length := by
  have hskip := length_skipDigits cs
  unfold longInteger at h
  dsimp only at h
  split at h
  · rename_i hdigits
    have hfraction := length_fractionPart h
    rw [hdigits, List.length_cons] at hskip
    omega
  · exact Nat.le_trans (length_exponentOrEnd h) hskip

/-- The first digit is read in any case. -/
theorem length_digitsWithin_of_isDigit {c : Char} (h : c.isDigit = true) (cs : List Char) :
    (digitsWithin significandLimit (c :: cs) 0 0).2.2.length ≤ cs.length := by
  have hvalue : digitValue c < 10 := Decimal.digit_lt_ten h
  have hlimit : digitValue c ≤ significandLimit := by
    rw [significandLimit]
    omega
  rw [digitsWithin, if_pos (by simp [h, hlimit])]
  exact length_digitsWithin ..

/-- A number has at least one digit. -/
theorem length_number (h : number positive cs = .ok (n, rest)) : rest.length < cs.length := by
  unfold number at h
  split at h
  · cases h
  · split at h
    · cases h
    · exact Nat.lt_succ_of_le (length_afterInteger h)
  · rename_i c digits _
    by_cases hdigit : c.isDigit = true
    · rw [if_neg (by simp [hdigit])] at h
      have hdigits := length_digitsWithin_of_isDigit hdigit digits
      generalize digitsWithin significandLimit (c :: digits) 0 0 = read at h hdigits
      obtain ⟨value, count, after⟩ := read
      dsimp only at h hdigits
      refine Nat.lt_succ_of_le (Nat.le_trans ?_ hdigits)
      split at h
      · exact length_longInteger h
      · exact length_afterInteger h
    · rw [if_pos (by simp [hdigit])] at h
      cases h

theorem length_hexEscape {cs rest : List Char} {value : Nat}
    (h : hexEscape cs = .ok (value, rest)) : rest.length ≤ cs.length := by
  unfold hexEscape at h
  split at h
  · cases h
    simp
  · split at h
    · cases h
    · cases h

theorem length_pairMark {mark : Char} {cs rest : List Char} (h : pairMark mark cs = .ok rest) :
    rest.length ≤ cs.length := by
  unfold pairMark at h
  split at h
  · cases h
  · split at h
    · cases h
      exact Nat.le_succ _
    · cases h

theorem length_unicodeEscape {cs rest : List Char} {c : Char}
    (h : unicodeEscape cs = .ok (c, rest)) : rest.length ≤ cs.length := by
  obtain ⟨⟨high, behind⟩, hhigh, h⟩ := bind_eq_ok.mp h
  have hlength := length_hexEscape hhigh
  dsimp only at h
  split at h
  · cases h
  · split at h
    · cases h
      exact hlength
    · obtain ⟨second, hsecond, h⟩ := bind_eq_ok.mp h
      obtain ⟨third, hthird, h⟩ := bind_eq_ok.mp h
      obtain ⟨⟨low, last⟩, hlow, h⟩ := bind_eq_ok.mp h
      have h₂ := length_pairMark hsecond
      have h₃ := length_pairMark hthird
      have h₄ := length_hexEscape hlow
      dsimp only at h
      split at h
      · cases h
      · obtain ⟨-, rfl⟩ := Prod.mk.inj (Except.ok.inj h)
        omega

theorem length_escape {cs rest : List Char} {c : Char} (h : escape cs = .ok (c, rest)) :
    rest.length ≤ cs.length := by
  unfold escape at h
  split at h
  · cases h
  · exact Nat.le_succ_of_le (length_unicodeEscape h)
  · split at h
    · cases h
      exact Nat.le_succ _
    · cases h

theorem length_stringChars {fuel : Nat} {cs inside rest : List Char}
    (h : stringChars fuel cs = .ok (inside, rest)) : rest.length ≤ cs.length := by
  induction fuel generalizing cs inside rest with
  | zero =>
    rw [stringChars] at h
    cases h
  | succ fuel ih =>
    cases cs with
    | nil =>
      rw [stringChars] at h
      cases h
    | cons c cs =>
      by_cases hquote : c = '"'
      · subst hquote
        rw [stringChars] at h
        cases h
        exact Nat.le_succ _
      by_cases hescape : c = '\\'
      · subst hescape
        obtain ⟨⟨d, behind⟩, hd, h⟩ := bind_eq_ok.mp h
        obtain ⟨⟨others, last⟩, hothers, h⟩ := bind_eq_ok.mp h
        cases h
        exact Nat.le_succ_of_le (Nat.le_trans (ih hothers) (length_escape hd))
      · rw [stringChars] at h
        · split at h
          · cases h
          · obtain ⟨⟨others, last⟩, hothers, h⟩ := bind_eq_ok.mp h
            cases h
            exact Nat.le_succ_of_le (ih hothers)
        · exact hquote
        · exact hescape

theorem length_string {cs rest : List Char} {text : String} (h : string cs = .ok (text, rest)) :
    rest.length ≤ cs.length := by
  obtain ⟨⟨inside, behind⟩, hchars, h⟩ := bind_eq_ok.mp h
  cases h
  exact length_stringChars hchars

end Json

end PageManifest
