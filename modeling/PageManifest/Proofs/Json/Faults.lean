import PageManifest.Proofs.Json.Skipping
import PageManifest.Proofs.Text.Escapes
import PageManifest.Validation.Reader

/-!
# What is said about JSON text

A message about a JSON text is fixed words, numbers and quoted texts, whatever the text is
(`Fault.IsFixed`), for each reader: of a value, of a verdict, and of what is passed over. So no
message has an escape character.
-/

namespace PageManifest

/-! ## Failures -/

/-- A computation that may fail does so with errors of a kind only. -/
inductive FailsWith {ε α : Type} (P : ε → Prop) : Except ε α → Prop where
  | ok (a : α) : FailsWith P (.ok a)
  | error {e : ε} (h : P e) : FailsWith P (.error e)

namespace FailsWith

variable {ε α β : Type} {P Q : ε → Prop}

theorem of_error {e : ε} : FailsWith P (.error e : Except ε α) → P e
  | .error h => h

theorem of_eq_error {result : Except ε α} {e : ε} (h : FailsWith P result)
    (hresult : result = .error e) : P e := (hresult ▸ h).of_error

theorem bind {first : Except ε α} {next : α → Except ε β} (hfirst : FailsWith P first)
    (hnext : ∀ a, first = .ok a → FailsWith P (next a)) : FailsWith P (first >>= next) := by
  cases hfirst with
  | ok a => exact hnext a rfl
  | error h => exact .error h

theorem mono {result : Except ε α} (h : FailsWith P result) (hPQ : ∀ e, P e → Q e) :
    FailsWith Q result := by
  cases h with
  | ok a => exact .ok a
  | error h => exact .error (hPQ _ h)

end FailsWith

namespace Json

open Text (EscapeFree)

/-! ## Faults -/

/-- The message about a fault has no text of its own but quoted ones. -/
def Fault.IsFixed : Fault → Prop
  | .mismatch _ expected => EscapeFree expected
  | .unknownName _ _ => False
  | .repeatedField name => EscapeFree name
  | _ => True

theorem escapeFree_phrase_part (part : Part) : EscapeFree part.phrase := by
  cases part <;> exact .of_chars (by decide)

theorem escapeFree_phrase_found (found : Found) : EscapeFree found.phrase := by
  rcases found with _ | b | (n | x) | text | _ | _
  · exact .of_chars (by decide)
  · cases b <;> exact .of_chars (by decide)
  · show EscapeFree ("integer `" ++ toString n ++ "`")
    simp only [Text.escapeFree_append]
    exact ⟨⟨.of_chars (by decide), Text.escapeFree_toString_int n⟩, .of_chars (by decide)⟩
  · show EscapeFree ("floating point `" ++ numberForm.write x ++ "`")
    simp only [Text.escapeFree_append]
    exact ⟨⟨.of_chars (by decide), Text.escapeFree_write numberForm x⟩, .of_chars (by decide)⟩
  · show EscapeFree ("string " ++ Text.Quoted.quote text)
    rw [Text.escapeFree_append]
    exact ⟨.of_chars (by decide), Text.escapeFree_quote text⟩
  · exact .of_chars (by decide)
  · exact .of_chars (by decide)

theorem Fault.IsFixed.escapeFree {fault : Fault} (h : fault.IsFixed) :
    EscapeFree fault.message := by
  cases fault with
  | unfinished part =>
    show EscapeFree ("EOF while parsing " ++ part.phrase)
    rw [Text.escapeFree_append]
    exact ⟨.of_chars (by decide), escapeFree_phrase_part part⟩
  | mismatch found expected =>
    show EscapeFree ("invalid type: " ++ found.phrase ++ ", expected " ++ expected)
    simp only [Text.escapeFree_append]
    exact ⟨⟨⟨.of_chars (by decide), escapeFree_phrase_found found⟩, .of_chars (by decide)⟩, h⟩
  | unknownName name known => cases h
  | repeatedField name =>
    show EscapeFree ("duplicate field `" ++ name ++ "`")
    simp only [Text.escapeFree_append]
    exact ⟨⟨.of_chars (by decide), h⟩, .of_chars (by decide)⟩
  | _ => exact .of_chars (by decide)

/-- What is said about a fault and its place has no escape character. -/
theorem Error.escapeFree_message {error : Error} (h : error.fault.IsFixed) :
    EscapeFree error.message := by
  show EscapeFree (error.fault.message ++ " at line " ++ toString error.line ++ " column " ++
    toString error.column)
  simp only [Text.escapeFree_append]
  exact ⟨⟨⟨⟨h.escapeFree, .of_chars (by decide)⟩, Text.escapeFree_toString_nat _⟩,
    .of_chars (by decide)⟩, Text.escapeFree_toString_nat _⟩

/-- A reader fails with fixed messages only. -/
abbrev FailsPlainly {α : Type} (result : Except Failure α) : Prop :=
  FailsWith (fun failure => failure.fault.IsFixed) result

theorem failsPlainly_failAt {α : Type} {fault : Fault} (h : fault.IsFixed) (rest : List Char) :
    FailsPlainly (failAt fault rest : Except Failure α) := .error h

theorem failsPlainly_failPast {α : Type} {fault : Fault} (h : fault.IsFixed) (rest : List Char) :
    FailsPlainly (failPast fault rest : Except Failure α) := .error h

theorem isFixed_of_eq_error {α : Type} {result : Except Failure α} {failure : Failure}
    (h : FailsPlainly result) (hresult : result = .error failure) : failure.fault.IsFixed :=
  h.of_eq_error hresult

/-! ## Words, numbers and strings -/

theorem failsPlainly_word (es rest : List Char) : FailsPlainly (word es rest) := by
  induction es generalizing rest with
  | nil => exact .ok rest
  | cons e es ih =>
    cases rest with
    | nil => exact failsPlainly_failAt (by trivial) []
    | cons c rest =>
      rw [word]
      split
      · exact ih rest
      · exact failsPlainly_failPast (by trivial) _

theorem failsPlainly_finishFloat (positive : Bool) (significand : Nat) (exponent : Int)
    (rest : List Char) : FailsPlainly (finishFloat positive significand exponent rest) := by
  unfold finishFloat
  split
  · exact .ok _
  · exact failsPlainly_failAt (by trivial) rest

theorem failsPlainly_exponentPart (positive : Bool) (significand : Nat) (start : Int)
    (cs : List Char) : FailsPlainly (exponentPart positive significand start cs) := by
  unfold exponentPart
  dsimp only
  repeat' split
  all_goals first
    | exact .ok _
    | exact failsPlainly_failAt (by trivial) _
    | exact failsPlainly_failPast (by trivial) _
    | exact failsPlainly_finishFloat ..

theorem failsPlainly_exponentOrEnd (positive : Bool) (significand : Nat) (exponent : Int)
    (cs : List Char) : FailsPlainly (exponentOrEnd positive significand exponent cs) := by
  unfold exponentOrEnd
  split
  · exact failsPlainly_exponentPart ..
  · exact failsPlainly_exponentPart ..
  · exact failsPlainly_finishFloat ..

theorem failsPlainly_fractionPart (positive : Bool) (significand : Nat) (exponent : Int)
    (cs : List Char) : FailsPlainly (fractionPart positive significand exponent cs) := by
  unfold fractionPart
  dsimp only
  split
  · exact failsPlainly_exponentOrEnd ..
  split
  · split
    · exact failsPlainly_failPast (by trivial) _
    · exact failsPlainly_failPast (by trivial) _
  · exact failsPlainly_exponentOrEnd ..

theorem failsPlainly_afterInteger (positive : Bool) (value : Nat) (cs : List Char) :
    FailsPlainly (afterInteger positive value cs) := by
  unfold afterInteger
  split
  · exact failsPlainly_fractionPart ..
  · exact failsPlainly_exponentPart ..
  · exact failsPlainly_exponentPart ..
  · exact .ok _

theorem failsPlainly_longInteger (positive : Bool) (value : Nat) (cs : List Char) :
    FailsPlainly (longInteger positive value cs) := by
  unfold longInteger
  dsimp only
  split
  · exact failsPlainly_fractionPart ..
  · exact failsPlainly_exponentOrEnd ..

theorem failsPlainly_number (positive : Bool) (cs : List Char) :
    FailsPlainly (number positive cs) := by
  unfold number
  split
  · exact failsPlainly_failAt (by trivial) []
  · split
    · exact failsPlainly_failPast (by trivial) _
    · exact failsPlainly_afterInteger ..
  · split
    · exact failsPlainly_failPast (by trivial) _
    · dsimp only
      split
      · exact failsPlainly_longInteger ..
      · exact failsPlainly_afterInteger ..

theorem failsPlainly_hexEscape (cs : List Char) : FailsPlainly (hexEscape cs) := by
  unfold hexEscape
  split
  · exact .ok _
  · split
    · exact failsPlainly_failAt (by trivial) []
    · exact .error (by trivial)

theorem failsPlainly_pairMark (mark : Char) (cs : List Char) : FailsPlainly (pairMark mark cs) := by
  unfold pairMark
  split
  · exact failsPlainly_failAt (by trivial) []
  · split
    · exact .ok _
    · exact failsPlainly_failPast (by trivial) _

theorem failsPlainly_unicodeEscape (cs : List Char) : FailsPlainly (unicodeEscape cs) := by
  refine .bind (failsPlainly_hexEscape cs) ?_
  rintro ⟨high, rest⟩ -
  dsimp only
  split
  · exact failsPlainly_failAt (by trivial) rest
  split
  · exact .ok _
  refine .bind (failsPlainly_pairMark ..) fun rest _ => ?_
  refine .bind (failsPlainly_pairMark ..) fun rest _ => ?_
  refine .bind (failsPlainly_hexEscape rest) ?_
  rintro ⟨low, rest⟩ -
  dsimp only
  split
  · exact failsPlainly_failAt (by trivial) rest
  · exact .ok _

theorem failsPlainly_escape (cs : List Char) : FailsPlainly (escape cs) := by
  unfold escape
  split
  · exact failsPlainly_failAt (by trivial) []
  · exact failsPlainly_unicodeEscape _
  · split
    · exact .ok _
    · exact failsPlainly_failPast (by trivial) _

theorem failsPlainly_stringChars (fuel : Nat) (cs : List Char) :
    FailsPlainly (stringChars fuel cs) := by
  fun_induction stringChars fuel cs with
  | case1 rest => exact failsPlainly_failAt (by trivial) rest
  | case2 => exact failsPlainly_failAt (by trivial) []
  | case3 => exact .ok _
  | case4 fuel rest ih =>
    refine .bind (failsPlainly_escape rest) ?_
    rintro ⟨c, rest⟩ -
    exact .bind (ih rest) fun _ _ => .ok _
  | case5 => exact failsPlainly_failAt (by trivial) _
  | case6 _ _ _ _ _ _ ih => exact .bind ih fun _ _ => .ok _

theorem failsPlainly_string (cs : List Char) : FailsPlainly (string cs) :=
  .bind (failsPlainly_stringChars ..) fun _ _ => .ok _

/-! ## Separators -/

theorem failsPlainly_nextItem? (first : Bool) (cs : List Char) :
    FailsPlainly (nextItem? first cs) := by
  unfold nextItem?
  repeat' split
  all_goals first
    | exact .ok _
    | exact failsPlainly_failPast (by trivial) _

theorem failsPlainly_nextKey? (first : Bool) (cs : List Char) :
    FailsPlainly (nextKey? first cs) := by
  unfold nextKey?
  repeat' split
  all_goals first
    | exact .ok _
    | exact failsPlainly_failPast (by trivial) _

theorem failsPlainly_colon (cs : List Char) : FailsPlainly (colon cs) := by
  unfold colon
  split
  · exact failsPlainly_failPast (by trivial) []
  · exact .ok _
  · exact failsPlainly_failPast (by trivial) _

/-! ## Values -/

/-- The readers of values fail plainly with so many steps. -/
structure ValuesFailPlainly (fuel : Nat) : Prop where
  value : ∀ depth cs, FailsPlainly (value fuel depth cs)
  items : ∀ depth first cs, FailsPlainly (items fuel depth first cs)
  members : ∀ depth first cs, FailsPlainly (members fuel depth first cs)

variable {fuel : Nat}

theorem failsPlainly_value (ih : ValuesFailPlainly fuel) (depth : Nat) (cs : List Char) :
    FailsPlainly (value (fuel + 1) depth cs) := by
  unfold value
  split
  · exact failsPlainly_failPast (by trivial) []
  · exact .bind (failsPlainly_word _ _) fun _ _ => .ok _
  · exact .bind (failsPlainly_word _ _) fun _ _ => .ok _
  · exact .bind (failsPlainly_word _ _) fun _ _ => .ok _
  · exact .bind (failsPlainly_string _) fun _ _ => .ok _
  · exact .bind (failsPlainly_number _ _) fun _ _ => .ok _
  · split
    · exact failsPlainly_failPast (by trivial) _
    · exact .bind (ih.items _ _ _) fun _ _ => .ok _
  · split
    · exact failsPlainly_failPast (by trivial) _
    · exact .bind (ih.members _ _ _) fun _ _ => .ok _
  · split
    · exact .bind (failsPlainly_number _ _) fun _ _ => .ok _
    · exact failsPlainly_failPast (by trivial) _

theorem failsPlainly_items (ih : ValuesFailPlainly fuel) (depth : Nat) (first : Bool)
    (cs : List Char) : FailsPlainly (items (fuel + 1) depth first cs) := by
  unfold items
  refine .bind (failsPlainly_nextItem? first cs) ?_
  rintro ⟨_ | _, rest⟩ -
  · exact .ok _
  · exact .bind (ih.value _ _) fun _ _ => .bind (ih.items _ _ _) fun _ _ => .ok _

theorem failsPlainly_members (ih : ValuesFailPlainly fuel) (depth : Nat) (first : Bool)
    (cs : List Char) : FailsPlainly (members (fuel + 1) depth first cs) := by
  unfold members
  refine .bind (failsPlainly_nextKey? first cs) ?_
  rintro ⟨_ | _, rest⟩ -
  · exact .ok _
  · refine .bind (failsPlainly_string rest) ?_
    rintro ⟨key, rest⟩ -
    exact .bind (failsPlainly_colon rest) fun _ _ =>
      .bind (ih.value _ _) fun _ _ => .bind (ih.members _ _ _) fun _ _ => .ok _

theorem valuesFailPlainly (fuel : Nat) : ValuesFailPlainly fuel := by
  induction fuel with
  | zero =>
    refine ⟨?_, ?_, ?_⟩
    · intro depth cs
      exact failsPlainly_failPast (by trivial) cs
    · intro depth first cs
      exact failsPlainly_failPast (by trivial) cs
    · intro depth first cs
      exact failsPlainly_failPast (by trivial) cs
  | succ fuel ih => exact ⟨failsPlainly_value ih, failsPlainly_items ih, failsPlainly_members ih⟩

/-- What is wrong with a whole text is what its reader finds, or that more follows. -/
theorem failsPlainly_readWhole {α : Type} {reader : List Char → Except Failure (α × List Char)}
    (h : ∀ cs, FailsPlainly (reader cs)) (text : String) :
    FailsWith (fun error => error.fault.IsFixed) (readWhole reader text) := by
  unfold readWhole
  dsimp only
  split
  · exact .ok _
  · rename_i failure hfailure
    have hfixed : failure.fault.IsFixed := by
      refine isFixed_of_eq_error (.bind (h text.toList) ?_) hfailure
      rintro ⟨a, rest⟩ -
      dsimp only
      split
      · exact .ok a
      · exact failsPlainly_failPast (by trivial) _
    exact .error hfixed

theorem failsPlainly_read (text : String) :
    FailsWith (fun error => error.fault.IsFixed) (read text) :=
  failsPlainly_readWhole (fun cs => (valuesFailPlainly (stepsFor cs)).value depthLimit cs) text

/-! ## Values of a given type -/

/-- Behind a scalar it is said what was found, unless the scalar cannot be read. -/
theorem isFixed_mismatch {expected : String} (hexpected : EscapeFree expected) (cs : List Char) :
    (mismatch expected cs).fault.IsFixed := by
  unfold mismatch
  dsimp only
  split
  · split
    · exact hexpected
    · rename_i hfailure
      exact isFixed_of_eq_error (.bind (failsPlainly_word _ _) fun _ _ => .ok _) hfailure
  · split
    · exact hexpected
    · rename_i hfailure
      exact isFixed_of_eq_error (.bind (failsPlainly_word _ _) fun _ _ => .ok _) hfailure
  · split
    · exact hexpected
    · rename_i hfailure
      exact isFixed_of_eq_error (.bind (failsPlainly_word _ _) fun _ _ => .ok _) hfailure
  · split
    · exact hexpected
    · rename_i hfailure
      exact isFixed_of_eq_error (.bind (failsPlainly_string _) fun _ _ => .ok _) hfailure
  · split
    · exact hexpected
    · rename_i hfailure
      exact isFixed_of_eq_error (.bind (failsPlainly_number _ _) fun _ _ => .ok _) hfailure
  · exact hexpected
  · exact hexpected
  · split
    · split
      · exact hexpected
      · rename_i hfailure
        exact isFixed_of_eq_error (.bind (failsPlainly_number _ _) fun _ _ => .ok _) hfailure
    · trivial
  · trivial

theorem failsPlainly_bool (cs : List Char) : FailsPlainly (bool cs) := by
  unfold bool
  split
  · exact failsPlainly_failPast (by trivial) []
  · exact .bind (failsPlainly_word _ _) fun _ _ => .ok _
  · exact .bind (failsPlainly_word _ _) fun _ _ => .ok _
  · exact .error (isFixed_mismatch (.of_chars (by decide)) _)

theorem failsPlainly_text {expected : String} (hexpected : EscapeFree expected) (cs : List Char) :
    FailsPlainly (text expected cs) := by
  unfold text
  split
  · exact failsPlainly_failPast (by trivial) []
  · exact failsPlainly_string _
  · exact .error (isFixed_mismatch hexpected _)

theorem failsPlainly_textItems (fuel : Nat) (first : Bool) (cs : List Char) :
    FailsPlainly (textItems fuel first cs) := by
  induction fuel generalizing first cs with
  | zero => exact failsPlainly_failPast (by trivial) cs
  | succ fuel ih =>
    unfold textItems
    refine .bind (failsPlainly_nextItem? first cs) ?_
    rintro ⟨_ | _, rest⟩ -
    · exact .ok _
    · refine .bind (failsPlainly_text (.of_chars (by decide)) rest) ?_
      rintro ⟨item, rest⟩ -
      exact .bind (ih false rest) fun _ _ => .ok _

theorem failsPlainly_texts (cs : List Char) : FailsPlainly (texts cs) := by
  unfold texts
  split
  · exact failsPlainly_failPast (by trivial) []
  · exact failsPlainly_textItems _ _ _
  · exact .error (isFixed_mismatch (.of_chars (by decide)) _)

/-! ## What is passed over -/

theorem failsPlainly_skipEscape (cs : List Char) : FailsPlainly (skipEscape cs) := by
  unfold skipEscape
  split
  · exact failsPlainly_failAt (by trivial) []
  · exact .bind (failsPlainly_hexEscape _) fun _ _ => .ok _
  · split
    · exact .ok _
    · exact failsPlainly_failPast (by trivial) _

theorem failsPlainly_skipStringChars (fuel : Nat) (cs : List Char) :
    FailsPlainly (skipStringChars fuel cs) := by
  fun_induction skipStringChars fuel cs with
  | case1 rest => exact failsPlainly_failAt (by trivial) rest
  | case2 => exact failsPlainly_failAt (by trivial) []
  | case3 => exact .ok _
  | case4 fuel rest ih => exact .bind (failsPlainly_skipEscape rest) fun rest _ => ih rest
  | case5 => exact failsPlainly_failAt (by trivial) _
  | case6 _ _ _ _ _ _ ih => exact ih

theorem failsPlainly_skipString (cs : List Char) : FailsPlainly (skipString cs) :=
  failsPlainly_skipStringChars _ cs

theorem failsPlainly_skipExponentOrEnd (cs : List Char) : FailsPlainly (skipExponentOrEnd cs) := by
  have hexponent : ∀ cs, FailsPlainly (skipExponent cs) := by
    intro cs
    unfold skipExponent
    dsimp only
    -- By the sign, and by whether a digit follows.
    repeat' split
    all_goals first
      | exact .ok _
      | exact failsPlainly_failPast (by trivial) _
  unfold skipExponentOrEnd
  split
  · exact hexponent _
  · exact hexponent _
  · exact .ok _

theorem failsPlainly_skipAfterInteger (cs : List Char) : FailsPlainly (skipAfterInteger cs) := by
  unfold skipAfterInteger
  split
  · split
    · exact failsPlainly_skipExponentOrEnd _
    · exact failsPlainly_failPast (by trivial) _
  · exact failsPlainly_skipExponentOrEnd _

theorem failsPlainly_skipNumber (cs : List Char) : FailsPlainly (skipNumber cs) := by
  unfold skipNumber
  split
  · split
    · exact failsPlainly_failPast (by trivial) _
    · exact failsPlainly_skipAfterInteger _
  · split
    · exact failsPlainly_skipAfterInteger _
    · exact failsPlainly_failPast (by trivial) _

theorem failsPlainly_skipKey (bracket : Bracket) (cs : List Char) :
    FailsPlainly (skipKey bracket cs) := by
  unfold skipKey
  split
  · exact .ok cs
  · split
    · exact failsPlainly_failPast (by trivial) []
    · exact .bind (failsPlainly_skipString _) fun _ _ => failsPlainly_colon _
    · exact failsPlainly_failPast (by trivial) _

theorem failsPlainly_skipClosings (commaAccepted : Bool) (brackets : List Bracket)
    (cs : List Char) : FailsPlainly (skipClosings commaAccepted brackets cs) := by
  induction brackets generalizing commaAccepted cs with
  | nil => exact .ok _
  | cons bracket outer ih =>
    unfold skipClosings
    split
    · exact failsPlainly_failPast (by trivial) []
    · split
      · exact .ok _
      split
      · exact ih _ _
      split
      · cases bracket <;> exact failsPlainly_failPast (by trivial) _
      · exact .ok _

theorem failsPlainly_goOn {fuel : Nat}
    (ih : ∀ enclosing cs, FailsPlainly (skipValues fuel enclosing cs)) (commaAccepted : Bool)
    (enclosing : List Bracket) (cs : List Char) :
    FailsPlainly (goOn fuel commaAccepted enclosing cs) := by
  unfold goOn
  refine .bind (failsPlainly_skipClosings commaAccepted enclosing cs) ?_
  rintro ⟨_ | ⟨bracket, outer⟩, rest⟩ -
  · exact .ok _
  · exact .bind (failsPlainly_skipKey bracket rest) fun _ _ => ih _ _

theorem failsPlainly_skipValues (fuel : Nat) (enclosing : List Bracket) (cs : List Char) :
    FailsPlainly (skipValues fuel enclosing cs) := by
  induction fuel generalizing enclosing cs with
  | zero => exact failsPlainly_failPast (by trivial) cs
  | succ fuel ih =>
    have hgoOn := failsPlainly_goOn ih
    unfold skipValues
    dsimp only
    split
    · exact failsPlainly_failPast (by trivial) []
    · exact .bind (failsPlainly_word _ _) fun rest _ => hgoOn true enclosing rest
    · exact .bind (failsPlainly_word _ _) fun rest _ => hgoOn true enclosing rest
    · exact .bind (failsPlainly_word _ _) fun rest _ => hgoOn true enclosing rest
    · exact .bind (failsPlainly_skipString _) fun rest _ => hgoOn true enclosing rest
    · exact .bind (failsPlainly_skipNumber _) fun rest _ => hgoOn true enclosing rest
    · exact hgoOn false _ _
    · exact hgoOn false _ _
    · split
      · exact .bind (failsPlainly_skipNumber _) fun rest _ => hgoOn true enclosing rest
      · exact failsPlainly_failPast (by trivial) _

end Json

/-! ## Verdicts -/

namespace Validation

open Json (FailsPlainly failsPlainly_failAt failsPlainly_failPast)

theorem failsPlainly_repeated {α : Type} {name : String}
    (h : (Json.Fault.repeatedField name).IsFixed) (rest : List Char) : FailsPlainly (repeated name rest : Except Json.Failure α) := by
  unfold repeated
  split
  · exact failsPlainly_failAt h _
  · exact failsPlainly_failAt h _

theorem failsPlainly_member (found : Members) (key : String) (cs : List Char) :
    FailsPlainly (member found key cs) := by
  unfold member
  split
  · rename_i hkey
    split
    · exact failsPlainly_repeated (hkey ▸ .of_chars (by decide)) cs
    · exact .bind (Json.failsPlainly_colon cs) fun rest _ =>
        .bind (Json.failsPlainly_bool rest) fun _ _ => .ok _
  split
  · rename_i hkey
    split
    · exact failsPlainly_repeated (hkey ▸ .of_chars (by decide)) cs
    · exact .bind (Json.failsPlainly_colon cs) fun rest _ =>
        .bind (Json.failsPlainly_texts rest) fun _ _ => .ok _
  · exact .bind (Json.failsPlainly_colon cs) fun rest _ =>
      .bind (Json.failsPlainly_skipValues _ _ rest) fun _ _ => .ok _

theorem failsPlainly_members (fuel : Nat) (first : Bool) (found : Members) (cs : List Char) :
    FailsPlainly (members fuel first found cs) := by
  induction fuel generalizing first found cs with
  | zero => exact failsPlainly_failPast (by trivial) cs
  | succ fuel ih =>
    unfold members
    refine .bind (Json.failsPlainly_nextKey? first cs) ?_
    rintro ⟨_ | _, rest⟩ -
    · exact .ok _
    · refine .bind (Json.failsPlainly_string rest) ?_
      rintro ⟨key, rest⟩ -
      exact .bind (failsPlainly_member found key rest) fun _ _ => ih _ _ _

theorem failsPlainly_endOfList (cs : List Char) : FailsPlainly (endOfList cs) := by
  unfold endOfList
  split
  · exact .ok _
  · split
    · exact failsPlainly_failPast (by trivial) _
    · exact failsPlainly_failPast (by trivial) _
  · exact failsPlainly_failPast (by trivial) []
  · exact failsPlainly_failPast (by trivial) _

theorem failsPlainly_items (cs : List Char) : FailsPlainly (items cs) := by
  unfold items
  refine .bind (Json.failsPlainly_nextItem? true cs) ?_
  rintro ⟨_ | _, rest⟩ -
  · exact .ok _
  refine .bind (Json.failsPlainly_bool rest) ?_
  rintro ⟨valid, rest⟩ -
  refine .bind (Json.failsPlainly_nextItem? false rest) ?_
  rintro ⟨_ | _, rest⟩ -
  · exact .ok _
  · refine .bind (Json.failsPlainly_texts rest) ?_
    rintro ⟨errors, rest⟩ -
    exact .bind (failsPlainly_endOfList rest) fun _ _ => .ok _

theorem failsPlainly_ofJson (text : String) :
    FailsWith (fun error => error.fault.IsFixed) (ofJson text) := by
  refine Json.failsPlainly_readWhole (fun cs => ?_) text
  dsimp only
  split
  · exact .bind (failsPlainly_members _ _ _ _) fun _ _ => .ok _
  · exact failsPlainly_items _
  · exact failsPlainly_failPast (by trivial) []
  · exact .error (Json.isFixed_mismatch (.of_chars (by decide)) _)

end Validation

end PageManifest
