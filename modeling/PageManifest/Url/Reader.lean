import PageManifest.Url.Basic

/-!
# Reading addresses

`read` gives the address of a text, or says what is wrong with it. A relative text is read
from a base. Blanks and controls around the text, and tabs and line breaks within it, do
not count; a backslash is a slash where the scheme is a common one.
-/

namespace PageManifest.Url

/-! ## Cutting a text -/

/-- The characters of a text that count. -/
def significant (text : String) : List Char :=
  let outer := fun c : Char => c.toNat ≤ 0x20
  let cs := ((text.toList.dropWhile outer).reverse.dropWhile outer).reverse
  cs.filter fun c => c ≠ '\t' && c ≠ '\n' && c ≠ '\r'

/-- Cuts a text at the first occurrence of a mark: what is before it, and what follows
it if it is there. -/
def cut (mark : Char) (cs : List Char) : List Char × Option (List Char) :=
  match cs.dropWhile (· ≠ mark) with
  | [] => (cs, none)
  | _ :: behind => (cs.takeWhile (· ≠ mark), some behind)

/-- Cuts a text at the last occurrence of a mark. -/
def cutLast (mark : Char) (cs : List Char) : Option (List Char × List Char) :=
  match cut mark cs.reverse with
  | (behind, some before) => some (before.reverse, behind.reverse)
  | (_, none) => none

/-- A text in its parts: before the query, the query and the fragment. -/
structure Pieces where
  front : List Char
  query : Option (List Char)
  fragment : Option (List Char)

/-- Cuts off query and fragment. -/
def Pieces.ofChars (cs : List Char) : Pieces :=
  let (cs, fragment) := cut '#' cs
  let (front, query) := cut '?' cs
  { front, query, fragment }

/-- Whether a character may stand in a scheme. -/
def isSchemeChar (c : Char) : Bool := c.isAlphanum || c == '+' || c == '-' || c == '.'

/-- Cuts off the scheme in front, in small letters. -/
def scheme? (cs : List Char) : Option (String × List Char) :=
  match cs with
  | c :: _ =>
    if !c.isAlpha then none
    else
      match cs.dropWhile isSchemeChar with
      | ':' :: rest =>
        some (String.ofList ((cs.takeWhile isSchemeChar).map Char.toLower), rest)
      | _ => none
  | [] => none

/-- Whether a character separates the segments of a path. -/
def isSlash (common : Bool) (c : Char) : Bool := c == '/' || (common && c == '\\')

/-! ## Paths -/

/-- Splits characters at slashes. -/
def segments (common : Bool) : List Char → List (List Char)
  | [] => [[]]
  | c :: rest =>
    if isSlash common c then [] :: segments common rest
    else
      match segments common rest with
      | [] => [[c]]
      | part :: parts => (c :: part) :: parts

/-- A segment with its encoded points written out. -/
def withPoints : List Char → List Char
  | '%' :: '2' :: 'e' :: rest | '%' :: '2' :: 'E' :: rest => '.' :: withPoints rest
  | c :: rest => c :: withPoints rest
  | [] => []

/-- Whether a segment means the place where it stands. -/
def isHere (segment : List Char) : Bool := withPoints segment == ['.']

/-- Whether a segment means the place above. -/
def isAbove (segment : List Char) : Bool := withPoints segment == ['.', '.']

/-- Whether a segment names a drive: a letter with a colon or a bar. -/
def isDrive (segment : List Char) : Bool :=
  match segment with
  | [letter, mark] => letter.isAlpha && (mark == ':' || mark == '|')
  | _ => false

/-- The place above a place, whose segments come last first. Nothing is above a drive. -/
def above : List String → List String
  | [] => []
  | segment :: place => if isDrive segment.toList then segment :: place else place

/-- Goes along segments from a place, whose segments come last first. -/
def walk : List String → List (List Char) → List String
  | place, [] => place
  | place, segment :: rest =>
    let ended := fun (place : List String) => if rest.isEmpty then "" :: place else place
    if isAbove segment then walk (ended (above place)) rest
    else if isHere segment then walk (ended place) rest
    else walk (String.ofList (Percent.encode Percent.inPath segment) :: place) rest

/-- The path that leads along segments from a place. -/
def routeFrom (place : List String) (common : Bool) (cs : List Char) : Route :=
  .segments (walk place.reverse (segments common cs)).reverse

/-- The path from the root. An absent path of a common scheme is the root. -/
def routeFromRoot (common : Bool) (cs : List Char) : Route :=
  match cs with
  | [] => .segments (if common then [""] else [])
  | c :: rest => routeFrom [] common (if isSlash common c then rest else c :: rest)

/-! ## Authorities -/

/-- Reads a port, if one is given. -/
def port? (scheme : String) (cs : List Char) : Except Fault (Option Nat) :=
  if cs.isEmpty then .ok none
  else if cs.all Char.isDigit then
    let n := cs.foldl (fun acc c => acc * 10 + (c.toNat - '0'.toNat)) 0
    if 65535 < n then .error .badPort
    else .ok (if defaultPort? scheme = some n then none else some n)
  else .error .badPort

/-- Cuts off the host: up to the first colon outside brackets. -/
def cutHost : Bool → List Char → List Char × Option (List Char)
  | _, [] => ([], none)
  | inside, c :: rest =>
    if c = ':' && !inside then ([], some rest)
    else
      let (host, port) := cutHost ((inside || c = '[') && c ≠ ']') rest
      (c :: host, port)

/-- User and password in encoded form. -/
def credentials (cs : List Char) : String × String :=
  let (user, password) := cut ':' cs
  let encoded := fun cs => String.ofList (Percent.encode Percent.inCredentials cs)
  (encoded user, encoded (password.getD []))

/-- Reads an authority. -/
def authority (scheme : String) (cs : List Char) : Except Fault Authority := do
  let (user, password, place) := match cutLast '@' cs with
    | some (before, behind) => ((credentials before).1, (credentials before).2, behind)
    | none => ("", "", cs)
  if place.isEmpty && place.length < cs.length then .error .emptyHost
  else
    let (hostText, portText) := cutHost false place
    let common := isCommon scheme
    if hostText.isEmpty && (common || portText.isSome) then .error .emptyHost
    else
      let host ← if common then Host.ofCommon hostText else Host.ofOther hostText
      let port ← port? scheme (portText.getD [])
      return { user, password, host, port }

/-! ## Addresses -/

/-- An address from its parts, query and fragment being encoded. -/
def assemble (scheme : String) (authority : Option Authority) (route : Route) (pieces : Pieces) :
    Address :=
  let encoded := fun test cs => String.ofList (Percent.encode test cs)
  { scheme, authority, route
    query := pieces.query.map (encoded (Percent.inQuery (isCommon scheme)))
    fragment := pieces.fragment.map (encoded Percent.inFragment) }

/-- Reads what follows the two slashes in front of an authority. -/
def withAuthority (scheme : String) (cs : List Char) (pieces : Pieces) : Except Fault Address := do
  let common := isCommon scheme
  let place := cs.takeWhile fun c => !isSlash common c
  let found ← authority scheme place
  return assemble scheme (some found) (routeFromRoot common (cs.drop place.length)) pieces

/-- Whether a path starts at a drive. -/
def startsAtDrive : Route → Bool
  | .segments (segment :: _) => isDrive segment.toList
  | _ => false

/-- A path in a file address. A drive in front has a colon, and only one slash stands in
front of the first name. -/
def filePath (cs : List Char) : Route :=
  match routeFromRoot true cs with
  | .segments (drive :: parts) =>
    if isDrive drive.toList then .segments (String.ofList (drive.toList.take 1 ++ [':']) :: parts)
    else
      let named := (drive :: parts).dropWhile String.isEmpty
      .segments (if named.isEmpty then [""] else named)
  | route => route

/-- Reads a file address behind its scheme. The host may be absent, and a drive has none. -/
def fileAddress (cs : List Char) (pieces : Pieces) : Except Fault Address := do
  let nowhere : Authority := { user := "", password := "", host := .name "", port := none }
  match cs with
  | a :: b :: rest =>
    if isSlash true a && isSlash true b then
      let name := rest.takeWhile fun c => !isSlash true c
      let route := filePath (rest.drop name.length)
      if name.isEmpty then return assemble "file" (some nowhere) route pieces
      else if isDrive name then return assemble "file" (some nowhere) (filePath rest) pieces
      else
        let host ← Host.ofCommon name
        let host := if host = .name "localhost" || startsAtDrive route then .name "" else host
        return assemble "file" (some { nowhere with host }) route pieces
    else return assemble "file" (some nowhere) (filePath cs) pieces
  | _ => return assemble "file" (some nowhere) (filePath cs) pieces

/-- Reads a text without a scheme from a base. -/
def relative (base : Address) (cs : List Char) (pieces : Pieces) : Except Fault Address :=
  let common := isCommon base.scheme
  match base.route, cs with
  | .opaqueText _, [] =>
    if pieces.query.isNone && pieces.fragment.isSome then
      .ok { assemble base.scheme none base.route pieces with query := base.query }
    else .error .opaqueBase
  | .opaqueText _, _ => .error .opaqueBase
  | route, [] =>
    let address := assemble base.scheme base.authority route pieces
    .ok (if pieces.query.isNone then { address with query := base.query } else address)
  | .segments parts, c :: rest =>
    if isSlash common c then
      match rest with
      | d :: behind =>
        if isSlash common d then
          if c = '/' && d = '/' then withAuthority base.scheme behind pieces
          else withAuthority base.scheme (behind.dropWhile (isSlash common)) pieces
        else .ok (assemble base.scheme base.authority (routeFrom [] common rest) pieces)
      | [] => .ok (assemble base.scheme base.authority (routeFrom [] common rest) pieces)
    else
      .ok (assemble base.scheme base.authority (routeFrom parts.dropLast common (c :: rest)) pieces)

/-- Reads an address, a relative one from a base if there is one. -/
def readFrom (base : Option Address) (text : String) : Except Fault Address :=
  let pieces := Pieces.ofChars (significant text)
  match scheme? pieces.front, base with
  | some (scheme, rest), base =>
    if scheme = "file" then fileAddress rest pieces
    else if isCommon scheme then
      let behind := rest.dropWhile (isSlash true)
      match base with
      | some base =>
        if base.scheme = scheme && rest.length < behind.length + 2 then relative base rest pieces
        else withAuthority scheme behind pieces
      | none => withAuthority scheme behind pieces
    else
      match rest with
      | '/' :: '/' :: behind => withAuthority scheme behind pieces
      | '/' :: _ => .ok (assemble scheme none (routeFromRoot false rest) pieces)
      | rest =>
        .ok (assemble scheme none
          (.opaqueText (String.ofList (Percent.encode Percent.isControl rest))) pieces)
  | none, some base => relative base pieces.front pieces
  | none, none => .error .withoutBase

/-- Reads an address. -/
def read (text : String) : Except Fault Address := readFrom none text

end PageManifest.Url
