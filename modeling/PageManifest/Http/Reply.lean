import PageManifest.Http.Failure
import PageManifest.Http.MediaType
import PageManifest.Http.Request
import PageManifest.Http.Status

/-!
# Replies

What a server sends back. A client cannot use all of it: the connection may end before the
body does, and some statuses have no body.
-/

namespace PageManifest.Http

/-- What a server does with a request. -/
inductive Reply where
  /-- The connection ends without an answer. -/
  | hangUp
  /-- An answer, of whose body some bytes that were promised may be missing. -/
  | answer (status : Status) (headers : List (String × String)) (body : ByteArray) (missing : Nat)

/-- What a server does that knows nothing of a target. -/
def Reply.unknownTarget (request : Request) : Reply :=
  let body := "no route " ++ request.method.name ++ " " ++ request.target
  .answer 404 [] (Text.Utf8.encode body) 0

/-- Whether answers of a status never have a body. -/
def Status.isBodiless (status : Status) : Bool := status = 204 || status = 304

/-- An answer as a client gets it. -/
structure Answer where
  status : Status
  headers : List (String × String)
  /-- The body, if it comes to its end. -/
  body : Option ByteArray

namespace Answer

/-- What a client gets of an answer. -/
def receive (status : Status) (headers : List (String × String)) (body : ByteArray)
    (missing : Nat) : Answer :=
  let body :=
    if status.isBodiless then some .empty else if missing = 0 then some body else none
  { status, headers, body }

/-- The first header of a name; the size of its letters does not count. -/
def header? (answer : Answer) (name : String) : Option String :=
  let plain := fun (name : String) => name.toList.map Char.toLower
  (answer.headers.find? fun header => plain header.1 == plain name).map (·.2)

/-- The text of the body, in the character set that its content type names. -/
def text (answer : Answer) : Except Failure String :=
  match answer.body with
  | none => .error .brokenBody
  | some bytes =>
    .ok (((answer.header? "content-type").elim .utf8 MediaType.charset : Text.Charset).decode bytes)

/-- What to ask for next, should the answer lead on: the request, and the text of its
address. A status that only says that something is elsewhere has it fetched; the others
have the same request made there. -/
def leadsTo? (answer : Answer) (request : Request) : Option (Request × String) := do
  let location ← answer.header? "location"
  if [301, 302, 303].contains answer.status then return (request.withoutBody, location)
  else if [307, 308].contains answer.status then return (request, location)
  else none

end Answer

end PageManifest.Http
