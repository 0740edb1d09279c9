/-!
# Paths

A path is a text whose parts are separated by slashes; one that starts with a slash is
absolute. Empty parts and single points do not count, except a point in front.
-/

namespace PageManifest.Path

/-- Whether a path starts at the root. -/
def isAbsolute (path : String) : Bool := path.toList.head? == some '/'

/-- Splits characters at slashes. -/
def splitSlashes : List Char → List (List Char)
  | [] => [[]]
  | c :: rest =>
    if c = '/' then [] :: splitSlashes rest
    else
      match splitSlashes rest with
      | [] => [[c]]
      | part :: parts => (c :: part) :: parts

/-- The parts of a path between its slashes, the empty ones included. -/
def pieces (path : String) : List String := (splitSlashes path.toList).map String.ofList

/-- The parts of a path that count. -/
def parts (path : String) : List String :=
  let named := (pieces path).filter (!·.isEmpty)
  match named with
  | "." :: rest =>
    if isAbsolute path then rest.filter (· ≠ ".") else "." :: rest.filter (· ≠ ".")
  | named => named.filter (· ≠ ".")

/-- A path without its last part. -/
def parent? (path : String) : Option String :=
  let named := parts path
  if named.isEmpty then none
  else some ((if isAbsolute path then "/" else "") ++ "/".intercalate named.dropLast)

/-- A path below another one. An absolute path stays as it is. -/
def join (path below : String) : String :=
  if isAbsolute below || path.isEmpty then below
  else if path.toList.getLast? == some '/' then path ++ below
  else path ++ "/" ++ below

/-- The last part of a path. -/
def name? (path : String) : Option String := (parts path).getLast?

/-- Two paths are the same if their parts are. -/
def same (a b : String) : Bool := isAbsolute a == isAbsolute b && parts a == parts b

end PageManifest.Path
