import PageManifest.Url.Host

/-!
# Addresses

An address is a scheme and what it gives access to: a path on a host, or a text of the
scheme's own. `Address.text` writes it.
-/

namespace PageManifest.Url

/-- Who asks, where, and at which port. An absent port is the scheme's own. -/
structure Authority where
  user : String
  password : String
  host : Host
  port : Option Nat
deriving DecidableEq, Repr

/-- What an address leads to on its host. -/
inductive Route where
  /-- A path of segments, each behind a slash. -/
  | segments (parts : List String)
  /-- A text that only the scheme knows how to read. -/
  | opaqueText (text : String)
deriving DecidableEq, Repr

/-- The parts of an address. -/
structure Address where
  scheme : String
  authority : Option Authority
  route : Route
  query : Option String
  fragment : Option String
deriving DecidableEq, Repr

/-- The port that a scheme uses if none is given. -/
def defaultPort? : String → Option Nat
  | "http" => some 80
  | "https" => some 443
  | "ftp" => some 21
  | "ws" => some 80
  | "wss" => some 443
  | _ => none

/-- Whether a scheme is one of those whose addresses name a host. -/
def isCommon (scheme : String) : Bool := (defaultPort? scheme).isSome || scheme == "file"

/-- An authority as it stands in an address. -/
def Authority.text (authority : Authority) : String :=
  let password := if authority.password.isEmpty then "" else ":" ++ authority.password
  let credentials := authority.user ++ password
  let port := match authority.port with
    | some port => ":" ++ toString port
    | none => ""
  (if credentials.isEmpty then "" else credentials ++ "@") ++ authority.host.text ++ port

/-- An authority without user and password. It keeps a user that stands for no text, and
a password that stands for none if there is no user. -/
def Authority.anonymous (authority : Authority) : Authority :=
  if Percent.isReadable authority.user &&
      (!authority.user.isEmpty || Percent.isReadable authority.password) then
    { authority with user := "", password := "" }
  else authority

/-- A route as it stands in an address. -/
def Route.text : Route → String
  | .segments parts => String.join (parts.map ("/" ++ ·))
  | .opaqueText text => text

/-- What keeps the two slashes in front of a route from being read as those of an
authority. -/
def Route.guard : Route → String
  | .segments ("" :: _ :: _) => "/."
  | _ => ""

namespace Address

/-- What follows a mark, with the mark, if it is there. -/
def marked (mark : String) : Option String → String
  | some text => mark ++ text
  | none => ""

/-- The address as a text. -/
def text (address : Address) : String :=
  let authority := match address.authority with
    | some authority => "//" ++ authority.text
    | none => address.route.guard
  address.scheme ++ ":" ++ authority ++ address.route.text ++ marked "?" address.query ++
    marked "#" address.fragment

/-- What a request asks its host for. -/
def target (address : Address) : String :=
  let route := address.route.text
  (if route.isEmpty then "/" else route) ++ marked "?" address.query

/-- Whether the address names a host. -/
def namesHost (address : Address) : Bool :=
  match address.authority with
  | some authority => authority.host != .name ""
  | none => false

/-- The address without user and password, as far as they can be read. -/
def withoutCredentials (address : Address) : Address :=
  { address with authority := address.authority.map Authority.anonymous }

end Address

end PageManifest.Url
