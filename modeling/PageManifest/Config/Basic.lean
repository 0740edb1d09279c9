import PageManifest.FileTree.Path

/-!
# Settings

The settings of a client: where the server is, how status lines look, and what the
example session works on. A setting that is not given has its default.
-/

namespace PageManifest

/-- The glyphs in front of status lines. -/
structure Icons where
  success : String := "✅"
  failure : String := "❌"
  info : String := "ℹ️"
  file : String := "📄"
  url : String := "🌐"
  build : String := "🔧"
deriving DecidableEq, Repr

namespace Icons

/-- Glyphs of ASCII characters only. -/
def simple : Icons :=
  { success := "[OK]", failure := "[X]", info := "[i]", file := "[F]", url := "[URL]", build := "[+]" }

/-- The glyphs in order. -/
def toList (icons : Icons) : List String :=
  [icons.success, icons.failure, icons.info, icons.file, icons.url, icons.build]

end Icons

/-- Where the server is, and how many seconds to wait for an answer. -/
structure ServerSettings where
  baseUrl : String := "http://localhost:3009"
  timeout : Option UInt64 := none
deriving DecidableEq, Repr

/-- How status lines look. -/
structure DisplaySettings where
  useGlyphs : Bool := true
  useColor : Bool := true
  icons : Icons := {}
deriving DecidableEq, Repr

/-- What the example session works on. -/
structure DemoSettings where
  manifestFile : String := "../../manifests/examples/complete-page.yaml"
  outputDirectory : String := "./output"
  sampleUrl : String := "https://example.com"
  generatedFile : String := "python-generated.html"
deriving DecidableEq, Repr

/-- All settings. -/
structure Config where
  server : ServerSettings := {}
  display : DisplaySettings := {}
  demo : DemoSettings := {}
deriving DecidableEq, Repr

namespace Config

/-- The settings with ASCII glyphs, unless others may be used. -/
def withUsableIcons (config : Config) : Config :=
  if config.display.useGlyphs then config
  else { config with display := { config.display with icons := .simple } }

/-- Two settings are the same, paths being compared by their parts. -/
def same (a b : Config) : Bool :=
  let demo := fun (config : Config) => { config.demo with manifestFile := "", outputDirectory := "" }
  a.server == b.server && a.display == b.display && demo a == demo b &&
    Path.same a.demo.manifestFile b.demo.manifestFile &&
    Path.same a.demo.outputDirectory b.demo.outputDirectory

end Config

end PageManifest
