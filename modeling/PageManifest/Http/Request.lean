/-!
# Requests

What a client asks a server for.
-/

namespace PageManifest.Http

/-- What is to be done with what a request asks for. -/
inductive Method where
  | get
  | post
deriving DecidableEq, Repr

/-- The name of a method. -/
def Method.name : Method → String
  | .get => "GET"
  | .post => "POST"

/-- A request as a server sees it. One without a body has an empty body and no content
type. -/
structure Request where
  method : Method
  /-- The path with the query. -/
  target : String
  contentType : Option String := none
  body : String := ""
deriving DecidableEq, Repr

namespace Request

/-- The same request for another target. -/
def aimedAt (request : Request) (target : String) : Request := { request with target }

/-- A request for what is at the target now. -/
def withoutBody (request : Request) : Request := { method := .get, target := request.target }

end Request

end PageManifest.Http
