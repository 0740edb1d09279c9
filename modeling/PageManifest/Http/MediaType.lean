import PageManifest.Text.Charset

/-!
# Media types

A media type is a pair of names with parameters behind it, such as
`text/html; charset=utf-8`. Only the character set is of interest here. A text that is no
media type names none.
-/

namespace PageManifest.Http.MediaType

/-- Whether a character may stand in a name. -/
def isNameChar (c : Char) : Bool :=
  c.isAlphanum || "!#$%&'*+-.^_\x60|~".toList.contains c

/-- Whether a character may stand in a value between quotes. -/
def isQuotable (c : Char) : Bool := c.toNat = 9 || (31 < c.toNat && c.toNat ≠ 127)

/-- Cuts off a name, which may not be empty. -/
def name? (cs : List Char) : Option (List Char × List Char) :=
  let name := cs.takeWhile isNameChar
  if name.isEmpty then none else some (name, cs.drop name.length)

/-- Cuts off a value and what separates it from the next parameter. -/
def value? (cs : List Char) : Option (List Char × List Char) :=
  match cs with
  | '"' :: rest =>
    let value := rest.takeWhile fun c => c ≠ '"' && isQuotable c
    match rest.drop value.length with
    | '"' :: behind =>
      if value.isEmpty then none
      else
        match behind.dropWhile (· = ' ') with
        | [] => some (value, [])
        | ';' :: next => some (value, next)
        | _ => none
    | _ => none
  | cs => do
    let (value, behind) ← name? cs
    match behind with
    | [] => some (value, [])
    | ';' :: next => some (value, next)
    | _ => none

/-- Reads the parameters from the left, at most as many as the number says. -/
def parameters? : Nat → List Char → Option (List (String × String))
  | 0, _ => none
  | fuel + 1, cs =>
    match cs.dropWhile (· = ' ') with
    | [] => some []
    | cs => do
      let (name, rest) ← name? cs
      match rest with
      | '=' :: rest =>
        let (value, next) ← value? rest
        let others ← parameters? fuel next
        return (String.ofList (name.map Char.toLower), String.ofList value) :: others
      | _ => none

/-- The parameters of a media type. -/
def ofText? (text : String) : Option (List (String × String)) := do
  let (_, rest) ← name? text.toList
  match rest with
  | '/' :: rest =>
    let (_, rest) ← name? rest
    match rest with
    | [] => some []
    | ';' :: rest | ' ' :: rest => parameters? (rest.length + 1) rest
    | _ => none
  | _ => none

/-- The character set of a media type; one that is not named, or not known, is UTF-8. -/
def charset (text : String) : Text.Charset :=
  let named := do
    let label ← (← ofText? text).lookup "charset"
    Text.Charset.ofLabel? label
  named.getD .utf8

end PageManifest.Http.MediaType
