/-!
# Bytes as text

Reading bytes as UTF-8. `decode?` accepts well-formed bytes only; `decodeLossy` puts one
replacement character for each longest start of a character that is not completed.
-/

namespace PageManifest.Text.Utf8

/-- The bytes of a text. -/
def encode (text : String) : ByteArray := text.toUTF8

/-- The text of well-formed bytes. -/
def decode? (bytes : ByteArray) : Option String := String.fromUTF8? bytes

theorem decode?_encode (text : String) : decode? (encode text) = some text := by
  unfold decode? encode String.fromUTF8? String.toUTF8
  exact dif_pos text.isValidUTF8

/-- The character that stands for bytes that are no text. -/
def replacement : Char := '\uFFFD'

/-- What may follow a first byte: the bits it brings, and for each further byte the
least and greatest admissible one. -/
def following? (first : UInt8) : Option (Nat × List (UInt8 × UInt8)) :=
  let n := first.toNat
  let any := ((0x80 : UInt8), (0xBF : UInt8))
  if n < 0x80 then some (n, [])
  else if 0xC2 ≤ n && n ≤ 0xDF then some (n - 0xC0, [any])
  else if n = 0xE0 then some (0, [(0xA0, 0xBF), any])
  else if n = 0xED then some (0xD, [(0x80, 0x9F), any])
  else if 0xE1 ≤ n && n ≤ 0xEF then some (n - 0xE0, [any, any])
  else if n = 0xF0 then some (0, [(0x90, 0xBF), any, any])
  else if 0xF1 ≤ n && n ≤ 0xF3 then some (n - 0xF0, [any, any, any])
  else if n = 0xF4 then some (4, [(0x80, 0x8F), any, any])
  else none

/-- Reads the further bytes of a character: the character if all are there, and what
comes after those that are. -/
def continue? (bits : Nat) : List (UInt8 × UInt8) → List UInt8 → Option Nat × List UInt8
  | [], rest => (some bits, rest)
  | _ :: _, [] => (none, [])
  | (least, greatest) :: ranges, byte :: rest =>
    if least ≤ byte && byte ≤ greatest then
      continue? (bits * 64 + (byte.toNat - 0x80)) ranges rest
    else (none, byte :: rest)

theorem length_continue? (bits : Nat) (ranges : List (UInt8 × UInt8)) (bytes : List UInt8) :
    (continue? bits ranges bytes).2.length ≤ bytes.length := by
  induction bytes generalizing bits ranges with
  | nil => cases ranges <;> simp [continue?]
  | cons byte rest ih =>
    cases ranges with
    | nil => simp [continue?]
    | cons range ranges =>
      obtain ⟨least, greatest⟩ := range
      simp only [continue?]
      split
      · exact Nat.le_succ_of_le (ih _ _)
      · exact Nat.le_refl _

/-- The characters of any bytes. -/
def decodeChars : List UInt8 → List Char
  | [] => []
  | byte :: rest =>
    match following? byte with
    | none => replacement :: decodeChars rest
    | some (bits, ranges) =>
      let found := continue? bits ranges rest
      (match found.1 with
        | some code => Char.ofNat code
        | none => replacement) :: decodeChars found.2
termination_by bytes => bytes.length
decreasing_by
  · exact Nat.lt_succ_self rest.length
  · exact Nat.lt_succ_of_le (length_continue? bits ranges rest)

/-- The text of any bytes. -/
def decodeLossy (bytes : ByteArray) : String := String.ofList (decodeChars bytes.data.toList)

end PageManifest.Text.Utf8
