import PageManifest.Manifest.Basic

/-!
# A built-in page description

A small page with a heading and a paragraph, which needs no file.
-/

namespace PageManifest.Manifest

/-- One element of the page: its kind, its style and its text. -/
def element (kind style text : String) : Value :=
  .mapping [(kind, .mapping [("style", .string style), ("text", .string text)])]

/-- The built-in page description. -/
def sample : Manifest :=
  ⟨[("metadata", .mapping
      [("title", .string "Rust Generated Page"),
       ("description", .string "Page created dynamically from Rust")]),
    ("styles", .mapping
      [("container", .string "max-width: 800px; margin: 0 auto; padding: 20px;"),
       ("header", .string
        "background: #007acc; color: white; padding: 20px; border-radius: 8px;"),
       ("content", .string "margin: 20px 0; line-height: 1.6;")]),
    ("structure", .mapping
      [("div", .mapping
        [("style", .string "container"),
         ("children", .sequence
          [element "h1" "header" "Rust Integration Example",
           element "p" "content"
            ("This page was generated dynamically using Rust and the " ++
              "Modular YAML Manifest System!")])])])]⟩

end PageManifest.Manifest
