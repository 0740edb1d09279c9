/-!
# Sources

A page description comes from an address, which the server reads, or from a file.
-/

namespace PageManifest

/-- Where a page description comes from. -/
inductive Source where
  | url (address : String)
  | file (path : String)
deriving DecidableEq, Repr

namespace Source

/-- Whether a text starts with one of the two schemes, in small letters. -/
def startsWithScheme (text : String) : Bool :=
  "http://".toList.isPrefixOf text.toList || "https://".toList.isPrefixOf text.toList

/-- A text that starts with one of the schemes names an address, any other one a file. -/
def ofText (text : String) : Source := if startsWithScheme text then .url text else .file text

/-- Whether the source is an address. -/
def isUrl : Source → Bool
  | .url _ => true
  | .file _ => false

/-- The text that names the source. -/
def text : Source → String
  | .url address => address
  | .file path => path

end Source

end PageManifest
