import PageManifest.Text.Blank

/-!
# Output formats

The formats into which a page description can be converted. Names, endpoints and file
names tell any two formats apart.
-/

namespace PageManifest

/-- What a page description can be converted into. -/
inductive Format where
  | html
  | react
  | vue
  | php
deriving DecidableEq, Repr

namespace Format

/-- Every format, in the order of conversion. -/
def all : List Format := [.html, .react, .vue, .php]

theorem mem_all (format : Format) : format ∈ all := by cases format <;> decide

theorem nodup_all : all.Nodup := by decide

/-- The name of a format. -/
def name : Format → String
  | .html => "html"
  | .react => "react"
  | .vue => "vue"
  | .php => "php"

/-- How names of files in a format end. -/
def fileExtension : Format → String
  | .react => "jsx"
  | format => format.name

/-- Where a server converts into a format. -/
def endpoint (format : Format) : String := "/api/convert/manifest-to-" ++ format.name

/-- The file that holds a conversion's output. -/
def outputFile (format : Format) : String := "output." ++ format.fileExtension

/-- The format that has a name. -/
def named? (name : String) : Option Format := all.find? (·.name == name)

/-- The format that a text names; blanks around the name and the size of its letters do
not count. -/
def ofText? (text : String) : Option Format :=
  named? (String.ofList ((Text.trim text).toList.map Char.toLower))

end Format

end PageManifest
