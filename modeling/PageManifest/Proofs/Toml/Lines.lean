import Mathlib.Data.List.Forall2
import PageManifest.Proofs.Decimal.Reader
import PageManifest.Proofs.Toml.Strings
import PageManifest.Toml.Reader

/-!
# Lines of settings files that were written

A line with a key without quotes and a value in its form adds the value to the current table
(`lines_assignment`), and a header starts its table (`lines_header`). Items remember their
stretches of the text, which what follows a line decides; the theorems leave them open.
-/

namespace PageManifest.Toml

/-! ## Keys -/

/-- Whether a part of a key needs no quotes. -/
def IsBare (part : List Char) : Prop := part ≠ [] ∧ ∀ c ∈ part, isBareKeyChar c = true

instance (part : List Char) : Decidable (IsBare part) :=
  decidable_of_iff (part ≠ [] ∧ part.all isBareKeyChar = true) (by simp [IsBare])

/-- What stands behind a key does not continue it. -/
def EndsKey (rest : List Char) : Prop :=
  (∀ c ∈ rest.head?, isBareKeyChar c = false) ∧ ∀ c ∈ (skipBlanks rest).head?, c ≠ '.'

theorem skipBlanks_of_isBare {part : List Char} (h : IsBare part) (rest : List Char) :
    skipBlanks (part ++ rest) = part ++ rest := by
  obtain ⟨hne, hbare⟩ := h
  cases part with
  | nil => exact absurd rfl hne
  | cons c part =>
    have hc := hbare c List.mem_cons_self
    have hblank : isBlank c = false := by
      rw [← Bool.not_eq_true]
      intro hblank
      rw [isBlank, Bool.or_eq_true, beq_iff_eq, beq_iff_eq] at hblank
      rcases hblank with rfl | rfl
      · exact absurd hc (by decide)
      · exact absurd hc (by decide)
    exact List.dropWhile_cons_of_neg (by rw [hblank]; exact Bool.false_ne_true)

theorem keyPart_bare {part rest : List Char} (h : IsBare part)
    (hrest : ∀ c ∈ rest.head?, isBareKeyChar c = false) :
    ∃ key, keyPart (part ++ rest) = .ok (key, rest) ∧ key.text = String.ofList part := by
  refine ⟨⟨String.ofList part, stretchTo (part ++ rest) rest⟩, ?_, rfl⟩
  obtain ⟨hne, hbare⟩ := h
  have htake : (part ++ rest).takeWhile isBareKeyChar = part := by
    rw [List.takeWhile_append_of_pos hbare]
    cases rest with
    | nil => simp
    | cons c rest => rw [List.takeWhile_cons_of_neg (by simp [hrest c rfl]), List.append_nil]
  have hdrop : (part ++ rest).dropWhile isBareKeyChar = rest := by
    rw [List.dropWhile_append_of_pos hbare]
    cases rest with
    | nil => rfl
    | cons c rest => rw [List.dropWhile_cons_of_neg (by simp [hrest c rfl])]
  cases part with
  | nil => exact absurd rfl hne
  | cons c part =>
    have hc := hbare c List.mem_cons_self
    rw [List.cons_append] at htake hdrop ⊢
    unfold keyPart
    split
    · rename_i heq
      rw [(List.cons.inj heq).1] at hc
      exact absurd hc (by decide)
    · rename_i heq
      rw [(List.cons.inj heq).1] at hc
      exact absurd hc (by decide)
    · rename_i heq
      cases heq
      rw [if_pos hc, htake, hdrop]
      rfl
    · rename_i heq
      cases heq

/-- Further parts of a key, each behind its point. -/
def pointedParts (parts : List (List Char)) : List Char := parts.flatMap ('.' :: ·)

theorem endsKey_pointedParts (parts : List (List Char)) {rest : List Char} (hrest : EndsKey rest) :
    ∀ c ∈ (pointedParts parts ++ rest).head?, isBareKeyChar c = false := by
  cases parts with
  | nil => exact hrest.1
  | cons part parts =>
    rintro c ⟨⟩
    decide

theorem keyParts_bare {parts : List (List Char)} (hparts : ∀ part ∈ parts, IsBare part)
    {rest : List Char} (hrest : EndsKey rest) {fuel : Nat} (hfuel : parts.length ≤ fuel) :
    ∃ keys, keyParts fuel (skipBlanks (pointedParts parts ++ rest)) = .ok (keys, skipBlanks rest) ∧
      keys.map Key.text = parts.map String.ofList := by
  induction parts generalizing fuel with
  | nil =>
    refine ⟨[], ?_, rfl⟩
    cases fuel with
    | zero => rfl
    | succ fuel =>
      refine keyParts.eq_3 _ _ fun tail heq => ?_
      have hpoint : '.' ∈ (skipBlanks rest).head? := by
        rw [show skipBlanks rest = '.' :: tail from heq]
        rfl
      exact hrest.2 '.' hpoint rfl
  | cons part parts ih =>
    obtain ⟨fuel, rfl⟩ := Nat.exists_eq_succ_of_ne_zero (n := fuel) (by
      rw [List.length_cons] at hfuel
      omega)
    have hpart := hparts part List.mem_cons_self
    obtain ⟨keys, hkeys, htexts⟩ := @ih (fun part hmem => hparts part (List.mem_cons_of_mem _ hmem))
      fuel (Nat.le_of_succ_le_succ hfuel)
    have hskip : skipBlanks (pointedParts (part :: parts) ++ rest) =
        '.' :: (part ++ (pointedParts parts ++ rest)) := by
      rw [pointedParts, List.flatMap_cons, List.append_assoc]
      rfl
    obtain ⟨key, hkey, htext⟩ := keyPart_bare hpart (endsKey_pointedParts parts hrest)
    refine ⟨key :: keys, ?_, by rw [List.map_cons, List.map_cons, htext, htexts]⟩
    rw [hskip, keyParts, skipBlanks_of_isBare hpart, hkey]
    simp only [optional, bind, Except.bind, hkeys, pure, Except.pure]

theorem dottedKey_bare {part : List Char} {parts : List (List Char)} (hpart : IsBare part)
    (hparts : ∀ part ∈ parts, IsBare part) (hdepth : parts.length + 1 < depthLimit)
    {rest : List Char} (hrest : EndsKey rest) :
    ∃ keys, dottedKey (part ++ (pointedParts parts ++ rest)) = .ok (keys, skipBlanks rest) ∧
      keys.map Key.text = (part :: parts).map String.ofList := by
  have hfuel : parts.length ≤ (pointedParts parts ++ rest).length := by
    rw [List.length_append, pointedParts, List.length_flatMap]
    have hsum : ∀ parts : List (List Char),
        parts.length ≤ (parts.map fun part => ('.' :: part).length).sum := by
      intro parts
      induction parts with
      | nil => exact Nat.le_refl _
      | cons part parts ih =>
        rw [List.map_cons, List.sum_cons, List.length_cons, List.length_cons]
        omega
    exact Nat.le_trans (hsum parts) (Nat.le_add_right ..)
  obtain ⟨keys, hkeys, htexts⟩ := keyParts_bare hparts hrest hfuel
  obtain ⟨key, hkey, htext⟩ := keyPart_bare hpart (endsKey_pointedParts parts hrest)
  have hlength : keys.length = parts.length := by
    simpa using congrArg List.length htexts
  refine ⟨key :: keys, ?_, by rw [List.map_cons, List.map_cons, htext, htexts]⟩
  have hfew : ¬ depthLimit ≤ (key :: keys).length := by
    rw [List.length_cons, hlength]
    omega
  rw [dottedKey, skipBlanks_of_isBare hpart, hkey]
  simp only [naming, bind, Except.bind, hkeys, pure, Except.pure, Except.mapError]
  rw [if_neg hfew]

/-! ## Numbers -/

/-- Digits at the end of a line. -/
def DigitsOnly (cs : List Char) : Prop :=
  ∃ digits rest, cs = digits ++ '\n' :: rest ∧ ∀ c ∈ digits, c.isDigit = true

theorem DigitsOnly.head? {cs : List Char} (h : DigitsOnly cs) :
    ∃ c rest, cs = c :: rest ∧ (c.isDigit = true ∨ c = '\n') := by
  obtain ⟨digits, rest, rfl, hdigits⟩ := h
  cases digits with
  | nil => exact ⟨'\n', rest, rfl, .inr rfl⟩
  | cons c digits => exact ⟨c, _, rfl, .inl (hdigits c List.mem_cons_self)⟩

theorem DigitsOnly.char_eq {cs : List Char} (h : DigitsOnly cs) {mark : Char}
    (hdigit : mark.isDigit = false) (hbreak : mark ≠ '\n') : char mark cs = stop cs := by
  obtain ⟨c, rest, rfl, hc⟩ := h.head?
  refine if_neg ?_
  rintro rfl
  rcases hc with hc | hc
  · rw [hdigit] at hc
    cases hc
  · exact hbreak hc

/-- A number of exactly so many digits has only digits behind it, or there is none. -/
theorem fixedDigits_cases {cs : List Char} (h : DigitsOnly cs) (count : Nat) :
    fixedDigits count cs = stop cs ∨
      ∃ n later, fixedDigits count cs = .ok (n, later) ∧ DigitsOnly later := by
  obtain ⟨digits, rest, rfl, hdigits⟩ := h
  rw [fixedDigits]
  by_cases hfront : count ≤ digits.length
  · by_cases htake : ((digits ++ '\n' :: rest).take count).length = count &&
        ((digits ++ '\n' :: rest).take count).all Char.isDigit
    · rw [if_pos htake]
      refine .inr ⟨_, _, rfl, digits.drop count, rest, ?_, ?_⟩
      · exact List.drop_append_of_le_length hfront
      · exact fun c hc => hdigits c (List.mem_of_mem_drop hc)
    · rw [if_neg htake]
      exact .inl rfl
  · refine .inl (if_neg ?_)
    rw [Bool.and_eq_true, not_and]
    intro _ hall
    have hmem : '\n' ∈ (digits ++ '\n' :: rest).take count := by
      rw [List.take_append, List.mem_append]
      obtain ⟨more, hmore⟩ := Nat.exists_eq_succ_of_ne_zero (n := count - digits.length) (by omega)
      rw [hmore]
      exact .inr List.mem_cons_self
    exact absurd (List.all_eq_true.mp hall '\n' hmem) (by decide)

/-- Whether an attempt fails in a way that another one may be tried. -/
def FailsForNow {α : Type} (attempt : Except Failure α) : Prop :=
  ∃ failure, attempt = .error failure ∧ failure.isFinal = false

theorem FailsForNow.orTry_eq {α : Type} {first : Except Failure α} (h : FailsForNow first)
    (second : Except Failure α) : orTry first second = second := by
  obtain ⟨failure, rfl, hfinal⟩ := h
  rw [orTry, hfinal, if_neg Bool.false_ne_true]

theorem FailsForNow.naming {α : Type} {attempt : Except Failure α} (h : FailsForNow attempt)
    (part : String) : FailsForNow (naming part attempt) := by
  obtain ⟨failure, rfl, hfinal⟩ := h
  exact ⟨_, rfl, hfinal⟩

theorem FailsForNow.bind {α β : Type} {attempt : Except Failure α} (h : FailsForNow attempt)
    (f : α → Except Failure β) : FailsForNow (attempt >>= f) := by
  obtain ⟨failure, rfl, hfinal⟩ := h
  exact ⟨failure, rfl, hfinal⟩

theorem failsForNow_stop {α : Type} (cs : List Char) : FailsForNow (stop cs : Except Failure α) :=
  ⟨_, rfl, rfl⟩

theorem failsForNow_moment {cs : List Char} (h : DigitsOnly cs) : FailsForNow (moment cs) := by
  have hdate : FailsForNow (date cs) := by
    rw [date]
    rcases fixedDigits_cases h 4 with hstop | ⟨year, later, hyear, hlater⟩
    · rw [hstop]
      exact (failsForNow_stop cs).bind _
    · rw [hyear]
      dsimp only [Bind.bind, Except.bind]
      rw [hlater.char_eq (by decide) (by decide)]
      exact failsForNow_stop _
  have htime : FailsForNow (timeOfDay cs) := by
    rw [timeOfDay, twoDigits]
    rcases fixedDigits_cases h 2 with hstop | ⟨hour, later, hhour, hlater⟩
    · rw [hstop]
      exact (failsForNow_stop cs).bind _
    · rw [hhour]
      dsimp only [Bind.bind, Except.bind]
      by_cases hrange : decide (0 ≤ hour) && decide (hour ≤ 23)
      · rw [if_pos hrange]
        dsimp only [pure, Except.pure]
        rw [hlater.char_eq (by decide) (by decide)]
        exact failsForNow_stop _
      · rw [if_neg hrange]
        exact ⟨_, rfl, rfl⟩
  rw [moment, ((hdate.bind _).naming "date-time").orTry_eq]
  exact htime.naming "time"

theorem digitsBehind_append {digits : List Char} (h : ∀ c ∈ digits, c.isDigit = true)
    (rest : List Char) :
    digitsBehind Char.isDigit (digits ++ '\n' :: rest) = .ok ('\n' :: rest) := by
  induction digits with
  | nil =>
    refine digitsBehind.eq_3 _ _ _ ?_ |>.trans ?_
    · rintro c rest ⟨⟩
    · rfl
  | cons c digits ih =>
    have hc := h c List.mem_cons_self
    have hmark : c ≠ '_' := by
      rintro rfl
      exact absurd hc (by decide)
    rw [List.cons_append, digitsBehind.eq_3 _ _ _ (fun _ _ heq _ => hmark heq), if_pos hc]
    exact ih fun d hd => h d (List.mem_cons_of_mem c hd)

theorem skipSign_of_isDigit {c : Char} (hc : c.isDigit = true) (rest : List Char) :
    skipSign (c :: rest) = c :: rest := by
  refine skipSign.eq_3 _ ?_ ?_
  · rintro rest ⟨⟩
    exact absurd hc (by decide)
  · rintro rest ⟨⟩
    exact absurd hc (by decide)

theorem decimal_toDigits (n : Nat) (rest : List Char) :
    decimal (Nat.toDigits 10 n ++ '\n' :: rest) = .ok ('\n' :: rest) := by
  obtain ⟨c, digits, hdigits, hc, hzero⟩ := Json.exists_toDigits_eq_cons n
  have hmore : ∀ d ∈ digits, d.isDigit = true := fun d hd =>
    Json.isDigit_of_mem_toDigits (n := n) (by rw [hdigits]; exact List.mem_cons_of_mem c hd)
  rw [decimal, hdigits, List.cons_append, skipSign_of_isDigit hc]
  split
  · rename_i heq
    obtain ⟨hc, hrest⟩ := List.cons.inj heq
    rw [← hrest, (hzero hc).2]
    rfl
  · rename_i heq
    cases heq
    rw [if_pos hc, digitsBehind_append hmore]
    rfl
  · rename_i heq
    cases heq

theorem failsForNow_float {n : Nat} (rest : List Char) :
    FailsForNow (float (Nat.toDigits 10 n ++ '\n' :: rest)) := by
  have htail : FailsForNow (floatTail ('\n' :: rest)) := by
    have hexponent : FailsForNow (exponent ('\n' :: rest)) := failsForNow_stop _
    rw [floatTail, hexponent.orTry_eq]
    exact (failsForNow_stop _).bind _
  have hspecial : FailsForNow (specialFloat (Nat.toDigits 10 n ++ '\n' :: rest)) := by
    obtain ⟨c, digits, hdigits, hc, -⟩ := Json.exists_toDigits_eq_cons n
    rw [specialFloat, hdigits, List.cons_append, skipSign_of_isDigit hc]
    split
    · rename_i heq
      rw [(List.cons.inj heq).1] at hc
      exact absurd hc (by decide)
    · rename_i heq
      rw [(List.cons.inj heq).1] at hc
      exact absurd hc (by decide)
    · exact failsForNow_stop _
  rw [float, decimal_toDigits]
  refine FailsForNow.naming ?_ _
  have hfirst : ∀ f : List Char → Except Failure (Binary64 × List Char),
      FailsForNow (.ok ('\n' :: rest) >>= fun behind => floatTail behind >>= f) :=
    fun f => htail.bind f
  rw [(hfirst _).orTry_eq]
  exact hspecial

theorem written_append {digits : List Char} (h : ∀ c ∈ digits, c.isDigit = true)
    (rest : List Char) : written (digits ++ rest) rest = digits := by
  have htake : (digits ++ rest).take ((digits ++ rest).length - rest.length) = digits := by
    rw [List.length_append, Nat.add_sub_cancel, List.take_left']
    rfl
  rw [written, htake, List.filter_eq_self]
  intro c hc
  have hmark : c ≠ '_' := by
    rintro rfl
    exact absurd (h _ hc) (by decide)
  simpa using hmark

theorem signedNumber?_toDigits (n : Nat) :
    Decimal.signedNumber? (Nat.toDigits 10 n) = some (n : Int) := by
  have hnumber := Decimal.digitsNumber?_toDigits n
  obtain ⟨c, digits, hdigits, hc, -⟩ := Json.exists_toDigits_eq_cons n
  rw [hdigits] at hnumber ⊢
  rw [Decimal.signedNumber?.eq_3, hnumber]
  · rfl
  · rintro digits ⟨⟩
    exact absurd hc (by decide)
  · rintro digits ⟨⟩
    exact absurd hc (by decide)

theorem integer_toDigits {n : Nat} (h : n < 0x8000000000000000) (rest : List Char) :
    integer (Nat.toDigits 10 n ++ '\n' :: rest) = .ok ((n : Int), '\n' :: rest) := by
  have hdecimal := decimal_toDigits n rest
  have hwritten := written_append (fun _ => Json.isDigit_of_mem_toDigits (n := n)) ('\n' :: rest)
  have hbounded : bounded (Nat.toDigits 10 n ++ '\n' :: rest) n ('\n' :: rest) =
      .ok ((n : Int), '\n' :: rest) := by
    rw [bounded, if_neg (by omega), if_neg (by omega)]
  have hbase : ∀ mark behind, mark.isDigit = false → mark ≠ '\n' →
      Nat.toDigits 10 n ++ '\n' :: rest ≠ '0' :: mark :: behind := by
    intro mark behind hmark hbreak heq
    obtain ⟨c, digits, hdigits, hc, hzero⟩ := Json.exists_toDigits_eq_cons n
    rw [hdigits, List.cons_append] at heq
    obtain ⟨hfirst, hrest⟩ := List.cons.inj heq
    rw [(hzero hfirst).2] at hrest
    exact hbreak (List.cons.inj hrest).1.symm
  rw [integer.eq_4 _ (fun _ => hbase _ _ (by decide) (by decide))
    (fun _ => hbase _ _ (by decide) (by decide)) (fun _ => hbase _ _ (by decide) (by decide)),
    hdecimal]
  dsimp only [bind, Except.bind]
  rw [hwritten, signedNumber?_toDigits, Option.getD_some, hbounded]

/-! ## Values -/

/-- A value in its form at the end of a line is read, in any number of steps. Its item depends
on its stretch. -/
def ReadsAs (written : List Char) (item : Stretch → Item) : Prop :=
  ∀ fuel rest, ∃ stretch, value (fuel + 1) 0 (skipBlanks (' ' :: (written ++ '\n' :: rest))) =
    .ok (item stretch, '\n' :: rest)

theorem value_eq_scalar {c : Char} (harray : c ≠ '[') (htable : c ≠ '{') (fuel depth : Nat)
    (rest : List Char) : value (fuel + 1) depth (c :: rest) = scalar (c :: rest) := by
  refine value.eq_4 _ _ _ ?_ ?_
  · rintro rest ⟨⟩
    exact harray rfl
  · rintro rest ⟨⟩
    exact htable rfl

theorem readsAs_of_scalar {written : List Char} {item : Stretch → Item}
    (hfront : ∃ c more, written = c :: more ∧ isBlank c = false ∧ c ≠ '[' ∧ c ≠ '{')
    (h : ∀ rest, ∃ stretch, scalar (written ++ '\n' :: rest) = .ok (item stretch, '\n' :: rest)) :
    ReadsAs written item := by
  intro fuel rest
  obtain ⟨stretch, hread⟩ := h rest
  obtain ⟨c, more, rfl, hblank, harray, htable⟩ := hfront
  refine ⟨stretch, ?_⟩
  have hskip : skipBlanks (' ' :: (c :: more ++ '\n' :: rest)) = c :: (more ++ '\n' :: rest) := by
    rw [skipBlanks, List.dropWhile_cons_of_pos (by decide), List.cons_append,
      List.dropWhile_cons_of_neg (by rw [hblank]; exact Bool.false_ne_true)]
  rw [hskip, value_eq_scalar harray htable]
  exact hread

theorem exists_stringText_eq_cons (text : String) :
    ∃ c more, stringText text = c :: more ∧ (c = '"' ∨ c = '\'') := by
  rw [stringText]
  cases (Traits.ofChars text.toList).form with
  | quoted => exact ⟨'"', _, rfl, .inl rfl⟩
  | literal => exact ⟨'\'', _, rfl, .inr rfl⟩
  | quotedLines => exact ⟨'"', _, rfl, .inl rfl⟩
  | literalLines => exact ⟨'\'', _, rfl, .inr rfl⟩

theorem readsAs_stringText (text : String) : ReadsAs (stringText text) (.string · text) := by
  obtain ⟨c, more, hfront, hc⟩ := exists_stringText_eq_cons text
  refine readsAs_of_scalar ⟨c, more, hfront, ?_⟩ fun rest => ?_
  · rcases hc with rfl | rfl
    · decide
    · decide
  · have hread := string_stringText text rest
    rw [hfront, List.cons_append] at hread ⊢
    refine ⟨stretchTo (c :: (more ++ '\n' :: rest)) ('\n' :: rest), ?_⟩
    rw [scalar, if_pos (by simpa using hc), hread]
    dsimp only [bind, Except.bind, pure, Except.pure]
    rw [String.ofList_toList]

theorem readsAs_flag (flag : Bool) :
    ReadsAs (if flag then "true" else "false").toList (.boolean · flag) := by
  cases flag with
  | false =>
    refine readsAs_of_scalar ⟨'f', "alse".toList, rfl, ?_⟩ fun rest => ?_
    · decide
    · exact ⟨stretchTo ("false".toList ++ '\n' :: rest) ('\n' :: rest), rfl⟩
  | true =>
    refine readsAs_of_scalar ⟨'t', "rue".toList, rfl, ?_⟩ fun rest => ?_
    · decide
    · exact ⟨stretchTo ("true".toList ++ '\n' :: rest) ('\n' :: rest), rfl⟩

theorem readsAs_toDigits {n : Nat} (h : n < 0x8000000000000000) :
    ReadsAs (Nat.toDigits 10 n) (.integer · n) := by
  obtain ⟨c, more, hdigits, hc, -⟩ := Json.exists_toDigits_eq_cons n
  have hne : ∀ mark : Char, mark.isDigit = false → c ≠ mark := by
    rintro mark hmark rfl
    rw [hc] at hmark
    cases hmark
  refine readsAs_of_scalar ⟨c, more, hdigits, ?_, hne _ (by decide), hne _ (by decide)⟩ fun rest => ?_
  · simp [isBlank, hne ' ' (by decide), hne '\t' (by decide)]
  · have honly : DigitsOnly (Nat.toDigits 10 n ++ '\n' :: rest) :=
      ⟨_, rest, rfl, fun _ => Json.isDigit_of_mem_toDigits⟩
    have hnumeric : scalar (Nat.toDigits 10 n ++ '\n' :: rest) =
        numeric (Nat.toDigits 10 n ++ '\n' :: rest) := by
      rw [hdigits, List.cons_append, scalar, if_neg (by simp [hne]), if_pos (by simp [hc])]
    refine ⟨stretchTo (Nat.toDigits 10 n ++ '\n' :: rest) ('\n' :: rest), ?_⟩
    rw [hnumeric, numeric, ((failsForNow_moment honly).bind _).orTry_eq,
      ((failsForNow_float rest).bind _).orTry_eq, integer_toDigits h]
    rfl

/-! ## Lines -/

/-- Reading leads from a draft and the characters behind it to another draft and to what is
left there, in a number of steps that the characters passed over bound. -/
structure Leads (draft : Draft) (cs : List Char) (later : Draft) (rest : List Char) (steps : Nat) :
    Prop where
  short : rest.length + steps ≤ cs.length
  lines_eq : ∀ fuel, lines (fuel + steps) draft cs = lines fuel later rest

theorem Leads.trans {draft middle later : Draft} {cs between rest : List Char} {steps more : Nat}
    (h : Leads draft cs middle between steps) (hmore : Leads middle between later rest more) :
    Leads draft cs later rest (more + steps) where
  short := by
    have hshort := h.short
    have hshortMore := hmore.short
    omega
  lines_eq fuel := by rw [← Nat.add_assoc, h.lines_eq, hmore.lines_eq]

theorem Leads.lines_eq_ok {draft later : Draft} {cs : List Char} {steps : Nat}
    (h : Leads draft cs later [] steps) : lines (cs.length + 1) draft cs = .ok later := by
  have hshort := h.short
  obtain ⟨fuel, hfuel⟩ : ∃ fuel, cs.length + 1 = (fuel + 1) + steps :=
    ⟨cs.length - steps, by rw [List.length_nil] at hshort; omega⟩
  rw [hfuel, h.lines_eq]
  rfl

theorem leads_blank (draft : Draft) (rest : List Char) : Leads draft ('\n' :: rest) draft rest 1 where
  short := Nat.le_refl _
  lines_eq _ := rfl

/-- A line with a key without quotes, what stands there for its value, and the item that this
gives at a stretch. -/
structure Line where
  key : List Char
  written : List Char
  item : Stretch → Item

namespace Line

/-- The characters of a line. -/
def text (line : Line) : List Char := line.key ++ ' ' :: '=' :: ' ' :: (line.written ++ ['\n'])

/-- Whether the parts of a line are read as what they stand for. -/
def IsSound (line : Line) : Prop := IsBare line.key ∧ ReadsAs line.written line.item

/-- Whether an entry is the one of a line. -/
def Gives (line : Line) (entry : Key × Item) : Prop :=
  entry.1.text = String.ofList line.key ∧ ∃ stretch, entry.2 = line.item stretch

end Line

theorem assignmentLine_text {line : Line} (h : line.IsSound) (rest : List Char) :
    ∃ entry, assignmentLine (line.text ++ rest) = .ok (([], entry), rest) ∧ line.Gives entry := by
  obtain ⟨hbare, hreads⟩ := h
  have htext : line.text ++ rest =
      line.key ++ (pointedParts [] ++ ' ' :: '=' :: ' ' :: (line.written ++ '\n' :: rest)) := by
    simp [Line.text, pointedParts]
  have hends : EndsKey (' ' :: '=' :: ' ' :: (line.written ++ '\n' :: rest)) := by
    constructor
    · rintro c ⟨⟩
      decide
    · rintro c ⟨⟩
      decide
  have hnone : ∀ part ∈ ([] : List (List Char)), IsBare part := fun part hmem => nomatch hmem
  obtain ⟨keys, hkeys, htexts⟩ := dottedKey_bare hbare hnone (by decide) hends
  obtain ⟨key, rfl, hkey⟩ := List.map_eq_singleton_iff.mp htexts
  obtain ⟨stretch, hvalue⟩ := hreads
    (2 * (' ' :: (line.written ++ '\n' :: rest)).length + 1) rest
  refine ⟨(key, line.item stretch), ?_, hkey, stretch, rfl⟩
  have hequals : equalsSign (skipBlanks (' ' :: '=' :: ' ' :: (line.written ++ '\n' :: rest))) =
      .ok (' ' :: (line.written ++ '\n' :: rest)) := rfl
  rw [htext, assignmentLine, hkeys]
  dsimp only [bind, Except.bind]
  rw [hequals]
  dsimp only
  rw [stepsFor, hvalue]
  rfl

theorem Draft.add_new {draft : Draft} {key : Key} {item : Item}
    (h : Entries.get? draft.current key.text = none) :
    ∃ stretch, draft.add [] key item =
      .ok { draft with current := draft.current ++ [(key, item)], stretch } := by
  rw [add, putItem, within, h]
  exact ⟨_, rfl⟩

theorem lines_of_isBare {part : List Char} (h : IsBare part) (fuel : Nat) (draft : Draft)
    (rest : List Char) :
    lines (fuel + 1) draft (part ++ rest) = (do
      let ((path, key, item), later) ← commit (assignmentLine (part ++ rest))
      match draft.add path key item with
      | .ok draft => lines fuel draft later
      | .error cause => refuse (part ++ rest) cause) := by
  have hskip := skipBlanks_of_isBare h rest
  obtain ⟨hne, hbare⟩ := h
  cases part with
  | nil => exact absurd rfl hne
  | cons c part =>
    have hc := hbare c List.mem_cons_self
    have hother : ∀ mark tail, isBareKeyChar mark = false → c :: (part ++ rest) ≠ mark :: tail := by
      intro mark tail hmark heq
      rw [(List.cons.inj heq).1, hmark] at hc
      cases hc
    rw [List.cons_append] at hskip ⊢
    rw [lines, hskip]
    split
    · rename_i heq
      cases heq
    · rename_i heq
      exact absurd heq (hother _ _ (by decide))
    · rename_i heq
      exact absurd heq (hother _ _ (by decide))
    · rename_i heq
      exact absurd heq (hother _ _ (by decide))
    · rename_i heq
      exact absurd heq (hother _ _ (by decide))
    · rfl

theorem leads_line {line : Line} (h : line.IsSound) {draft : Draft}
    (hnew : Entries.get? draft.current (String.ofList line.key) = none) (rest : List Char) :
    ∃ entry stretch, Leads draft (line.text ++ rest)
      { draft with current := draft.current ++ [entry], stretch } rest 1 ∧ line.Gives entry := by
  obtain ⟨⟨key, item⟩, hread, hgives⟩ := assignmentLine_text h rest
  rw [← hgives.1] at hnew
  obtain ⟨stretch, hadd⟩ := @Draft.add_new draft key item hnew
  refine ⟨(key, item), stretch, ⟨?_, fun fuel => ?_⟩, hgives⟩
  · simp only [Line.text, List.length_append, List.length_cons]
    omega
  · rw [Line.text, List.append_assoc, lines_of_isBare h.1, ← List.append_assoc, ← Line.text, hread]
    dsimp only [commit, Except.mapError, bind, Except.bind]
    rw [hadd]

theorem get?_append_of_ne {entries : Entries} {entry : Key × Item} {key : String}
    (hkey : entry.1.text ≠ key) :
    Entries.get? (entries ++ [entry]) key = Entries.get? entries key := by
  induction entries with
  | nil => simp [Entries.get?, hkey]
  | cons first entries ih => rw [List.cons_append, Entries.get?, Entries.get?, ih]

/-- Lines with different keys add their entries in order. -/
theorem leads_lines {block : List Line} (h : ∀ line ∈ block, line.IsSound)
    (hkeys : (block.map Line.key).Nodup) {draft : Draft}
    (hnew : ∀ line ∈ block, Entries.get? draft.current (String.ofList line.key) = none)
    (rest : List Char) :
    ∃ entries stretch, Leads draft (block.flatMap Line.text ++ rest)
      { draft with current := draft.current ++ entries, stretch } rest block.length ∧
      List.Forall₂ Line.Gives block entries := by
  induction block generalizing draft with
  | nil =>
    refine ⟨[], draft.stretch, ?_, .nil⟩
    rw [List.append_nil]
    exact ⟨Nat.le_refl _, fun _ => rfl⟩
  | cons line block ih =>
    rw [List.map_cons, List.nodup_cons] at hkeys
    obtain ⟨hfresh, hkeys⟩ := hkeys
    obtain ⟨entry, stretch, hline, hgives⟩ := leads_line (h line List.mem_cons_self)
      (hnew line List.mem_cons_self) (block.flatMap Line.text ++ rest)
    have hsound : ∀ other ∈ block, other.IsSound :=
      fun other hmem => h other (List.mem_cons_of_mem line hmem)
    have hlater : ∀ other ∈ block,
        Entries.get? (draft.current ++ [entry]) (String.ofList other.key) = none := by
      intro other hmem
      have hne : entry.1.text ≠ String.ofList other.key := by
        rw [hgives.1]
        intro heq
        rw [String.ofList_inj.mp heq] at hfresh
        exact hfresh (List.mem_map_of_mem hmem)
      rw [get?_append_of_ne hne]
      exact hnew other (List.mem_cons_of_mem line hmem)
    obtain ⟨entries, last, hblock, hentries⟩ :=
      @ih hsound hkeys { draft with current := draft.current ++ [entry], stretch } hlater
    refine ⟨entry :: entries, last, ?_, .cons hgives hentries⟩
    have hboth := hline.trans hblock
    rw [List.append_assoc, List.singleton_append] at hboth
    rw [List.flatMap_cons, List.append_assoc]
    exact hboth

/-! ## Headers -/

/-- The characters of a header. -/
def headerText (part : List Char) (parts : List (List Char)) : List Char :=
  '[' :: (part ++ (pointedParts parts ++ [']', '\n']))

theorem headerLine_text {part : List Char} {parts : List (List Char)} (hpart : IsBare part)
    (hparts : ∀ part ∈ parts, IsBare part) (hdepth : parts.length + 1 < depthLimit)
    (rest : List Char) :
    ∃ keys stretch, headerLine (headerText part parts ++ rest) 1 = .ok (keys, stretch, rest) ∧
      keys.map Key.text = (part :: parts).map String.ofList := by
  have hends : EndsKey (']' :: '\n' :: rest) := by
    constructor
    · rintro c ⟨⟩
      decide
    · rintro c ⟨⟩
      decide
  obtain ⟨keys, hkeys, htexts⟩ := dottedKey_bare hpart hparts hdepth hends
  have htext : headerText part parts ++ rest =
      '[' :: (part ++ (pointedParts parts ++ ']' :: '\n' :: rest)) := by
    simp [headerText]
  refine ⟨keys, stretchTo (headerText part parts ++ rest) ('\n' :: rest), ?_, htexts⟩
  rw [htext, headerLine, List.drop_succ_cons, List.drop_zero, hkeys]
  rfl

theorem lines_bracket (fuel : Nat) (draft : Draft) (rest : List Char) :
    lines (fuel + 1) draft ('[' :: rest) =
      (commit (header draft ('[' :: rest)) >>= fun (draft, rest) => lines fuel draft rest) := rfl

/-- A header starts its table. -/
theorem leads_header {part : List Char} {parts : List (List Char)} (hpart : IsBare part)
    (hparts : ∀ part ∈ parts, IsBare part) (hdepth : parts.length + 1 < depthLimit)
    (rest : List Char) :
    ∃ keys stretch, keys.map Key.text = (part :: parts).map String.ofList ∧
      ∀ draft later, draft.start keys false stretch = .ok later →
        Leads draft (headerText part parts ++ rest) later rest 1 := by
  obtain ⟨keys, stretch, hline, htexts⟩ := headerLine_text hpart hparts hdepth rest
  obtain ⟨hne, hbare⟩ := hpart
  cases part with
  | nil => exact absurd rfl hne
  | cons c part =>
    have hsingle : word ['[', '['] (headerText (c :: part) parts ++ rest) =
        stop (headerText (c :: part) parts ++ rest) := by
      have hc : c ≠ '[' := by
        rintro rfl
        exact absurd (hbare '[' List.mem_cons_self) (by decide)
      refine if_neg ?_
      simp [headerText, Ne.symm hc]
    refine ⟨keys, stretch, htexts, fun draft later hstart => ⟨?_, fun fuel => ?_⟩⟩
    · simp only [headerText, List.length_append, List.length_cons]
      omega
    · have hheader : header draft (headerText (c :: part) parts ++ rest) = .ok (later, rest) := by
        unfold header
        split
        · rename_i heq
          simp [headerText] at heq
        rw [hsingle, naming]
        dsimp only [stop, Except.toOption, Option.isSome]
        rw [if_neg Bool.false_ne_true, hline]
        dsimp only [bind, Except.bind]
        rw [hstart]
        rfl
      have hfront : headerText (c :: part) parts ++ rest =
          '[' :: (c :: part ++ (pointedParts parts ++ [']', '\n']) ++ rest) := rfl
      rw [hfront] at hheader ⊢
      rw [lines_bracket, hheader]
      rfl

end PageManifest.Toml
