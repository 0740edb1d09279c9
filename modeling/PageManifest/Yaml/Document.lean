import PageManifest.Yaml.Error
import PageManifest.Yaml.Event
import PageManifest.Yaml.Resolution

/-!
# From events to a tree

`load` collects the events of the first document of a text, with what each anchor stands
for; `build` makes the tree. Aliases are read where they stand, as often as they stand,
so both the depth and the number of aliases are limited. What is wrong with the form of
a document shows only when the tree reaches it.
-/

namespace PageManifest.Yaml

/-! ## The events of a document -/

/-- A part of a document: an event with its alias resolved to the number of its anchor. -/
inductive Piece where
  | void
  | alias (number : Nat)
  | scalar (tag : Option TagText) (text : String) (style : ScalarStyle)
  | sequenceStart (tag : Option TagText)
  | sequenceEnd
  | mappingStart (tag : Option TagText)
  | mappingEnd
deriving Repr

/-- The parts of a document and what follows them. -/
structure Document where
  pieces : List (Piece × Mark)
  /-- Where the node of each numbered anchor is; a later entry counts. -/
  targets : List (Nat × Nat)
  /-- What is wrong behind the parts. -/
  fault : Option Error
  /-- Whether the stream ends behind the document. -/
  alone : Bool

/-- The state of collecting the parts of a document. -/
structure Collector where
  /-- The parts so far, the last one first. -/
  pieces : List (Piece × Mark)
  /-- The number of each anchor's name. -/
  anchors : OrderedMap String Nat
  targets : List (Nat × Nat)

namespace Collector

/-- Adds a part. -/
def push (c : Collector) (piece : Piece) (mark : Mark) : Collector :=
  { c with pieces := (piece, mark) :: c.pieces }

/-- Notes the anchor of the next part. Its number is how many names there are. -/
def note (c : Collector) (anchor : Option String) : Collector :=
  match anchor with
  | none => c
  | some name =>
    { c with
      anchors := OrderedMap.insert c.anchors name c.anchors.length
      targets := c.targets ++ [(c.anchors.length, c.pieces.length)] }

/-- The document that has been collected. -/
def finish (c : Collector) (fault : Option Error) (alone : Bool) : Document :=
  { pieces := c.pieces.reverse, targets := c.targets, fault := fault, alone := alone }

end Collector

/-- Whether nothing follows but the end of the stream. -/
def endsStream (g : Grammar) : Bool :=
  match g.step with
  | .ok (.streamEnd, _, _) => true
  | _ => false

/-- Collects the parts of the first document. A stream without documents has a part of
its own. -/
def collect : Nat → Collector → Grammar → Document
  | 0, c, _ => c.finish none true
  | fuel + 1, c, g =>
    match g.step with
    | .error malformation => c.finish (some (.malformed malformation)) false
    | .ok (event, mark, g) =>
      match event with
      | .documentStart => collect fuel c g
      | .documentEnd => c.finish none (endsStream g)
      | .streamEnd =>
        (if c.pieces.isEmpty then c.push .void mark else c).finish none true
      | .alias name =>
        match OrderedMap.get? c.anchors name with
        | some number => collect fuel (c.push (.alias number) mark) g
        | none => c.finish (some (.unknownAnchor mark)) false
      | .scalar anchor tag text style =>
        collect fuel ((c.note anchor).push (.scalar tag text style) mark) g
      | .sequenceStart anchor tag =>
        collect fuel ((c.note anchor).push (.sequenceStart tag) mark) g
      | .sequenceEnd => collect fuel (c.push .sequenceEnd mark) g
      | .mappingStart anchor tag =>
        collect fuel ((c.note anchor).push (.mappingStart tag) mark) g
      | .mappingEnd => collect fuel (c.push .mappingEnd mark) g

/-- The first document of a text. -/
def load (text : String) : Document :=
  let tokens := scan text
  collect (4 * tokens.lexemes.length + 8) ⟨[], [], []⟩ (.start tokens)

/-! ## The tree of a document -/

/-- The tag that a node keeps in the tree: one that starts with an exclamation mark. -/
def ownTag? (tag : Option TagText) : Option String :=
  match tag with
  | some ⟨text, true⟩ =>
    match text.toList with
    | ['!'] => some "!"
    | '!' :: rest => some (String.ofList rest)
    | _ => none
  | _ => none

/-- What a scalar is without regard to a tag. -/
def untaggedScalar (text : String) (style : ScalarStyle) : Except Misfit Node :=
  if style = .plain then
    match resolvePlain text with
    | .ok node => .ok node
    | .error n => .error (.wideInteger n)
  else .ok (.string text)

/-- A node that a tag of the core demands, or what is wrong with its text. -/
def demanded (node? : Option Node) (text expected : String) : Except Misfit Node :=
  match node? with
  | some node => .ok node
  | none => .error (.badScalar text expected)

/-- What a scalar is. -/
def scalarNode (tag : Option TagText) (text : String) (style : ScalarStyle) : Except Misfit Node :=
  match tag with
  | none => untaggedScalar text style
  | some tag =>
    if tag.text == "tag:yaml.org,2002:bool" then
      demanded ((boolWord? text).map .bool) text "a boolean"
    else if tag.text == "tag:yaml.org,2002:int" then
      match intWord? text.toList with
      | some (.int n) => .ok (.int n)
      | some (.wide n) => .error (.wideInteger n)
      | none => .error (.badScalar text "an integer")
    else if tag.text == "tag:yaml.org,2002:float" then
      demanded ((floatWord? text).map .float) text "a float"
    else if tag.text == "tag:yaml.org,2002:null" then
      demanded (if isNullWord text then some .null else none) text "null"
    else if tag.text.startsWith "!" then untaggedScalar text style
    else .ok (.string text)

/-- How many levels of collections a tree may have. -/
def depthLimit : Nat := 128

/-- How many aliases may be read for each part of a document. -/
def aliasesPerPiece : Nat := 100

/-- What reading a part of a document gives: what was read, the parts behind it, and how
many aliases have been read. -/
abbrev Built (α : Type) := α × List (Piece × Mark) × Nat

namespace Document

/-- The error of reaching the end of the parts. -/
def missing (doc : Document) : Error := doc.fault.getD .unfinished

/-- The parts from the node of an anchor on. -/
def target (doc : Document) (number : Nat) : List (Piece × Mark) :=
  match doc.targets.reverse.find? (·.1 == number) with
  | some (_, position) => doc.pieces.drop position
  | none => []

/-- The step to the value of a key whose first part is given. -/
def keyStep : Piece → PathStep
  | .scalar _ text _ => .key text
  | _ => .unnamed

mutual

/-- Builds the node in front. A node whose tag has been read is built without it. -/
def node (doc : Document) :
    Nat → Nat → Path → Bool → List (Piece × Mark) → Nat → Except Error (Built Node)
  | 0, _, _, _, _, _ => .error doc.missing
  | fuel + 1, depth, path, tagRead, pieces, aliases =>
    match pieces with
    | [] => .error doc.missing
    | (piece, mark) :: rest =>
      let tag := match piece with
        | .scalar tag _ _ | .sequenceStart tag | .mappingStart tag => ownTag? tag
        | _ => none
      match tag, tagRead with
      | some tag, false => do
        let (inner, rest, aliases) ← doc.node fuel depth path true pieces aliases
        return (.tagged tag inner, rest, aliases)
      | _, _ =>
        match piece with
        | .void => .ok (.null, rest, aliases)
        | .alias number =>
          if doc.pieces.length * aliasesPerPiece < aliases + 1 then .error .tooManyAliases
          else do
            let (inner, _, aliases) ← doc.node fuel depth path false (doc.target number) (aliases + 1)
            return (inner, rest, aliases)
        | .scalar tag text style =>
          match if tagRead then untaggedScalar text style else scalarNode tag text style with
          | .ok inner => .ok (inner, rest, aliases)
          | .error misfit => .error (.unfit misfit path mark)
        | .sequenceStart _ =>
          match depth with
          | 0 => .error (.tooDeep mark)
          | depth + 1 => do
            let (items, rest, aliases) ← doc.items fuel depth path 0 rest aliases
            return (.sequence items, rest, aliases)
        | .mappingStart _ =>
          match depth with
          | 0 => .error (.tooDeep mark)
          | depth + 1 => do
            let (entries, rest, aliases) ← doc.entries fuel depth path mark [] rest aliases
            return (.mapping entries, rest, aliases)
        | .sequenceEnd | .mappingEnd => .error doc.missing

/-- Builds the items of a sequence up to and past its end. -/
def items (doc : Document) :
    Nat → Nat → Path → Nat → List (Piece × Mark) → Nat → Except Error (Built (List Node))
  | 0, _, _, _, _, _ => .error doc.missing
  | fuel + 1, depth, path, index, pieces, aliases =>
    match pieces with
    | [] => .error doc.missing
    | (.sequenceEnd, _) :: rest => .ok ([], rest, aliases)
    | _ => do
      let (item, rest, aliases) ← doc.node fuel depth (.index index :: path) false pieces aliases
      let (others, rest, aliases) ← doc.items fuel depth path (index + 1) rest aliases
      return (item :: others, rest, aliases)

/-- Builds the entries of a mapping up to and past its end, behind those that are there
already. -/
def entries (doc : Document) :
    Nat → Nat → Path → Mark → List (Node × Node) → List (Piece × Mark) → Nat →
      Except Error (Built (List (Node × Node)))
  | 0, _, _, _, _, _, _ => .error doc.missing
  | fuel + 1, depth, path, began, present, pieces, aliases =>
    match pieces with
    | [] => .error doc.missing
    | (.mappingEnd, _) :: rest => .ok (present, rest, aliases)
    | (first, _) :: _ => do
      let (key, rest, aliases) ← doc.node fuel depth path false pieces aliases
      if OrderedMap.hasKey present key then .error (.unfit (.duplicateKey key) path began)
      else
        let (value, rest, aliases) ←
          doc.node fuel depth (keyStep first :: path) false rest aliases
        doc.entries fuel depth path began (present ++ [(key, value)]) rest aliases

end

/-- The tree of a document. -/
def build (doc : Document) : Except Error Node := do
  let fuel := (depthLimit + 2) * (doc.pieces.length + 3)
  let (root, _, _) ← doc.node fuel depthLimit [] false doc.pieces 0
  match doc.fault with
  | some error => .error error
  | none => if doc.alone then return root else .error .severalDocuments

end Document

end PageManifest.Yaml
