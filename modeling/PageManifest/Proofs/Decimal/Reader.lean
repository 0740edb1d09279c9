import PageManifest.Decimal.Reader
import PageManifest.Proofs.Json.Lexical

/-!
# Whole numbers in decimal digits

The digits of a whole number give the number back (`digitsNumber?_toDigits`).
-/

namespace PageManifest.Decimal

theorem digit_lt_ten {c : Char} (h : c.isDigit = true) : c.toNat - '0'.toNat < 10 := by
  rw [Char.isDigit, Bool.and_eq_true, decide_eq_true_eq, decide_eq_true_eq] at h
  obtain ⟨-, hhigh⟩ := h
  have hle : c.toNat ≤ '9'.toNat := hhigh
  have hnine : '9'.toNat = 57 := rfl
  have hzero : '0'.toNat = 48 := rfl
  omega

theorem digitsNumber?_of_isDigit {cs : List Char} (hne : cs ≠ [])
    (h : ∀ c ∈ cs, c.isDigit = true) :
    digitsNumber? 10 cs = some (Nat.ofDigitChars 10 cs 0) := by
  rw [digitsNumber?, if_neg (by simpa using hne)]
  generalize 0 = acc
  induction cs generalizing acc with
  | nil => exact absurd rfl hne
  | cons c cs ih =>
    have hc := h c List.mem_cons_self
    have hlt := digit_lt_ten hc
    rw [List.foldlM_cons, Nat.ofDigitChars_cons, Nat.mul_comm 10]
    dsimp only
    rw [if_pos hc, if_pos hlt, Option.map_some]
    cases cs with
    | nil => rfl
    | cons d cs =>
      exact ih (List.cons_ne_nil d cs) (fun e he => h e (List.mem_cons_of_mem c he)) _

theorem digitsNumber?_toDigits (n : Nat) : digitsNumber? 10 (Nat.toDigits 10 n) = some n := by
  obtain ⟨c, cs, hdigits, -⟩ := Json.exists_toDigits_eq_cons n
  have hne : Nat.toDigits 10 n ≠ [] := by
    rw [hdigits]
    exact List.cons_ne_nil c cs
  rw [digitsNumber?_of_isDigit hne fun _ => Json.isDigit_of_mem_toDigits,
    Nat.ofDigitChars_ten_toDigits]

end PageManifest.Decimal
