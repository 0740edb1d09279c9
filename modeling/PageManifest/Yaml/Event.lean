import PageManifest.Yaml.Lexer

/-!
# From tokens to events

The events of a document are its scalars, aliases, and the starts and ends of its
sequences and mappings, with a scalar wherever a value is left out. A grammar state says
what may come next; the states of what encloses it wait on a stack, and so do the places
where the collections began. `Grammar.step` gives one event at a time.
-/

namespace PageManifest.Yaml

/-- What a document consists of. -/
inductive Event where
  | documentStart
  | documentEnd
  | streamEnd
  | alias (name : String)
  | scalar (anchor : Option String) (tag : Option TagText) (text : String) (style : ScalarStyle)
  | sequenceStart (anchor : Option String) (tag : Option TagText)
  | sequenceEnd
  | mappingStart (anchor : Option String) (tag : Option TagText)
  | mappingEnd
deriving Repr

/-- What may come next. -/
inductive Expecting where
  | firstDocument
  | document
  | documentContent
  | documentEnd
  | blockNode
  | firstBlockEntry
  | blockEntry
  | indentlessEntry
  | firstBlockKey
  | blockKey
  | blockValue
  | firstFlowEntry
  | flowEntry
  | flowPairKey
  | flowPairValue
  | flowPairEnd
  | firstFlowKey
  | flowKey
  | flowValue
  | flowEmptyValue
  | nothing
deriving DecidableEq, Repr

/-- The state of reading events. -/
structure Grammar where
  expecting : Expecting
  /-- What comes next after the enclosing parts. -/
  waiting : List Expecting
  /-- Where the enclosing collections began. -/
  began : List Mark
  /-- What the handles of tags stand for in this document. -/
  handles : List (String × TagText)
  /-- The tokens that are left. -/
  lexemes : List Lexeme
  /-- What is wrong behind them. -/
  fault : Option Malformation

namespace Grammar

/-- An event, where it starts, and the state behind it. -/
abbrev Step := Event × Mark × Grammar

/-- The state in front of some tokens, the first of which starts the stream. -/
def start (tokens : Tokens) : Grammar :=
  { expecting := .firstDocument
    waiting := []
    began := []
    handles := []
    lexemes := tokens.lexemes.drop 1
    fault := tokens.fault }

/-- The next token. -/
def peek (g : Grammar) : Except Malformation Lexeme :=
  match g.lexemes with
  | lexeme :: _ => .ok lexeme
  | [] => .error (g.fault.getD (.faulty .unfinishedQuotes .origin none))

/-- The state behind the next token. -/
def skip (g : Grammar) : Grammar := { g with lexemes := g.lexemes.drop 1 }

/-- The state in which something else is expected. -/
def expect (g : Grammar) (expecting : Expecting) : Grammar := { g with expecting := expecting }

/-- The state in which what waits is expected. -/
def resume (g : Grammar) : Grammar :=
  match g.waiting with
  | next :: rest => { g with expecting := next, waiting := rest }
  | [] => { g with expecting := .nothing }

/-- The state in which something waits. -/
def await (g : Grammar) (next : Expecting) : Grammar := { g with waiting := next :: g.waiting }

/-- The state inside a collection that begins at a mark. -/
def enter (g : Grammar) (mark : Mark) : Grammar := { g with began := mark :: g.began }

/-- The state behind a collection. -/
def leave (g : Grammar) : Grammar := { g.resume with began := g.began.drop 1 }

/-- A problem at a mark, outside of any activity. -/
def problem {α : Type} (problem : Problem) (mark : Mark) : Except Malformation α :=
  .error (.faulty problem mark none)

/-- A problem in the innermost collection. -/
def problemIn {α : Type} (g : Grammar) (problem : Problem) (activity : Activity) (mark : Mark) :
    Except Malformation α :=
  .error (.faulty problem mark (some (activity, g.began.headD .origin)))

/-- A scalar that is left out. -/
def emptyScalar (g : Grammar) (mark : Mark) : Except Malformation Step :=
  .ok (.scalar none none "" .plain, mark, g)

/-! ## Directives -/

/-- What two handles stand for in every document, unless it says otherwise. -/
def defaultHandles : List (String × TagText) :=
  [("!", ⟨"!", true⟩), ("!!", ⟨"tag:yaml.org,2002:", true⟩)]

/-- Reads the directives in front of a document. -/
def readDirectives (g : Grammar) : Nat → Bool → Except Malformation Grammar
  | 0, _ => .ok g
  | fuel + 1, versionSeen => do
    let lexeme ← g.peek
    match lexeme.token with
    | .versionDirective major minor =>
      if versionSeen then problem .secondVersion lexeme.start
      else if major = 1 && (minor = 1 || minor = 2) then readDirectives g.skip fuel true
      else problem .badVersion lexeme.start
    | .tagDirective handle replacement =>
      if g.handles.any (·.1 == handle) then problem .secondTagDirective lexeme.start
      else
        readDirectives { g.skip with handles := g.handles ++ [(handle, replacement)] } fuel versionSeen
    | _ =>
      let added := defaultHandles.filter fun d => !g.handles.any (·.1 == d.1)
      return { g with handles := g.handles ++ added }

/-- Skips markers of the end of a document. -/
def skipEndMarkers (g : Grammar) : Nat → Except Malformation Grammar
  | 0 => .ok g
  | fuel + 1 => do
    let lexeme ← g.peek
    if lexeme.token = .documentEnd then skipEndMarkers g.skip fuel else return g

/-! ## Documents -/

/-- Whether a token starts something else than a document's content. -/
def isDocumentBoundary : Token → Bool
  | .versionDirective _ _ | .tagDirective _ _ | .documentStart | .documentEnd | .streamEnd => true
  | _ => false

/-- The start of a document, which the first one need not mark, or the end of the
stream. -/
def documentStart (g : Grammar) (implicit : Bool) : Except Malformation Step := do
  let g ← if implicit then .ok g else g.skipEndMarkers (g.lexemes.length + 1)
  let lexeme ← g.peek
  let isContent := match lexeme.token with
    | .versionDirective _ _ | .tagDirective _ _ | .documentStart | .streamEnd => false
    | _ => true
  if implicit && isContent then
    let g ← g.readDirectives (g.lexemes.length + 1) false
    return (.documentStart, lexeme.start, (g.await .documentEnd).expect .blockNode)
  else if lexeme.token = .streamEnd then
    return (.streamEnd, lexeme.start, g.skip.expect .nothing)
  else
    let g ← g.readDirectives (g.lexemes.length + 1) false
    let marker ← g.peek
    if marker.token = .documentStart then
      return (.documentStart, lexeme.start, (g.skip.await .documentEnd).expect .documentContent)
    else problem .noDocumentStart marker.start

/-- The end of a document. -/
def documentEnd (g : Grammar) : Except Malformation Step := do
  let lexeme ← g.peek
  let g := if lexeme.token = .documentEnd then g.skip else g
  return (.documentEnd, lexeme.start, { g with handles := [], expecting := .document })

/-! ## Nodes -/

/-- The anchor and tag in front of a node. -/
structure Properties where
  anchor : Option String
  tag : Option (String × TagText × Mark)
  start : Mark

/-- Reads an anchor and a tag in either order. -/
def readProperties (g : Grammar) : Except Malformation (Properties × Grammar) := do
  let first ← g.peek
  match first.token with
  | .anchor name =>
    let second ← g.skip.peek
    match second.token with
    | .tag handle suffix =>
      return (⟨some name, some (handle, suffix, second.start), first.start⟩, g.skip.skip)
    | _ => return (⟨some name, none, first.start⟩, g.skip)
  | .tag handle suffix =>
    let second ← g.skip.peek
    match second.token with
    | .anchor name =>
      return (⟨some name, some (handle, suffix, first.start), first.start⟩, g.skip.skip)
    | _ => return (⟨none, some (handle, suffix, first.start), first.start⟩, g.skip)
  | _ => return (⟨none, none, first.start⟩, g)

/-- The full tag of a node. -/
def resolveTag (g : Grammar) (properties : Properties) : Except Malformation (Option TagText) :=
  match properties.tag with
  | none => .ok none
  | some (handle, suffix, mark) =>
    if handle.isEmpty then .ok (some suffix)
    else
      match g.handles.find? (·.1 == handle) with
      | some (_, replacement) => .ok (some (replacement.append suffix))
      | none => .error (.faulty .undefinedHandle mark (some (.node, properties.start)))

/-- A node. In a block mapping a sequence need not be indented. -/
def node (g : Grammar) (block indentless : Bool) : Except Malformation Step := do
  let first ← g.peek
  match first.token with
  | .alias name => return (.alias name, first.start, g.skip.resume)
  | _ =>
    let (properties, g) ← g.readProperties
    let lexeme ← g.peek
    let tag ← g.resolveTag properties
    let anchor := properties.anchor
    let here := properties.start
    match lexeme.token with
    | .scalar text style => return (.scalar anchor tag text style, here, g.skip.resume)
    | .flowSequenceStart => return (.sequenceStart anchor tag, here, g.expect .firstFlowEntry)
    | .flowMappingStart => return (.mappingStart anchor tag, here, g.expect .firstFlowKey)
    | token =>
      if indentless && token = .blockEntry then
        return (.sequenceStart anchor tag, here, g.expect .indentlessEntry)
      else if block && token = .blockSequenceStart then
        return (.sequenceStart anchor tag, here, g.expect .firstBlockEntry)
      else if block && token = .blockMappingStart then
        return (.mappingStart anchor tag, here, g.expect .firstBlockKey)
      else if anchor.isSome || tag.isSome then
        return (.scalar anchor tag "" .plain, here, g.resume)
      else
        .error (.faulty .noContent lexeme.start
          (some (if block then .blockNode else .flowNode, here)))

/-- What a document that was marked holds. -/
def documentContent (g : Grammar) : Except Malformation Step := do
  let lexeme ← g.peek
  if isDocumentBoundary lexeme.token then g.resume.emptyScalar lexeme.start
  else g.node true false

/-! ## Block collections -/

/-- An entry of a block sequence, or its end. -/
def blockEntry (g : Grammar) : Except Malformation Step := do
  let lexeme ← g.peek
  match lexeme.token with
  | .blockEntry =>
    let g := g.skip
    let next ← g.peek
    if next.token = .blockEntry || next.token = .blockEnd then
      (g.expect .blockEntry).emptyScalar lexeme.stop
    else (g.await .blockEntry).node true false
  | .blockEnd => return (.sequenceEnd, lexeme.start, g.skip.leave)
  | _ => g.problemIn .noSequenceEntry .blockCollection lexeme.start

/-- Whether a token ends an entry of a mapping's sequence that is not indented. -/
def endsIndentless (token : Token) : Bool :=
  token = .blockEntry || token = .key || token = .value || token = .blockEnd

/-- An entry of a block sequence that is not indented, or its end. -/
def indentlessEntry (g : Grammar) : Except Malformation Step := do
  let lexeme ← g.peek
  if lexeme.token = .blockEntry then
    let g := g.skip
    let next ← g.peek
    if endsIndentless next.token then (g.expect .indentlessEntry).emptyScalar lexeme.stop
    else (g.await .indentlessEntry).node true false
  else return (.sequenceEnd, lexeme.start, g.resume)

/-- Whether a token ends a key or a value of a block mapping. -/
def endsPart (token : Token) : Bool := token = .key || token = .value || token = .blockEnd

/-- A key of a block mapping, or its end. -/
def blockKey (g : Grammar) : Except Malformation Step := do
  let lexeme ← g.peek
  match lexeme.token with
  | .key =>
    let g := g.skip
    let next ← g.peek
    if endsPart next.token then (g.expect .blockValue).emptyScalar lexeme.stop
    else (g.await .blockValue).node true true
  | .blockEnd => return (.mappingEnd, lexeme.start, g.skip.leave)
  | _ => g.problemIn .noKey .blockMapping lexeme.start

/-- A value of a block mapping. -/
def blockValue (g : Grammar) : Except Malformation Step := do
  let lexeme ← g.peek
  if lexeme.token = .value then
    let g := g.skip
    let next ← g.peek
    if endsPart next.token then (g.expect .blockKey).emptyScalar lexeme.stop
    else (g.await .blockKey).node true true
  else (g.expect .blockKey).emptyScalar lexeme.start

/-! ## Flow collections -/

/-- An entry of a flow sequence, or its end. A key starts a mapping of one pair. -/
def flowEntry (g : Grammar) (first : Bool) : Except Malformation Step := do
  let lexeme ← g.peek
  let close := fun (g : Grammar) (end_ : Lexeme) =>
    (.ok (.sequenceEnd, end_.start, g.skip.leave) : Except Malformation Step)
  if lexeme.token = .flowSequenceEnd then close g lexeme
  else if !first && lexeme.token ≠ .flowEntry then
    g.problemIn .noSequenceSeparator .flowSequence lexeme.start
  else
    let g := if first then g else g.skip
    let lexeme ← g.peek
    match lexeme.token with
    | .key => return (.mappingStart none none, lexeme.start, g.skip.expect .flowPairKey)
    | .flowSequenceEnd => close g lexeme
    | _ => (g.await .flowEntry).node false false

/-- The key of a single pair. An absent key takes the token in its place with it. -/
def flowPairKey (g : Grammar) : Except Malformation Step := do
  let lexeme ← g.peek
  if lexeme.token = .value || lexeme.token = .flowEntry || lexeme.token = .flowSequenceEnd then
    (g.skip.expect .flowPairValue).emptyScalar lexeme.stop
  else (g.await .flowPairValue).node false false

/-- The value of a single pair. -/
def flowPairValue (g : Grammar) : Except Malformation Step := do
  let lexeme ← g.peek
  if lexeme.token = .value then
    let g := g.skip
    let next ← g.peek
    if next.token = .flowEntry || next.token = .flowSequenceEnd then
      (g.expect .flowPairEnd).emptyScalar next.start
    else (g.await .flowPairEnd).node false false
  else (g.expect .flowPairEnd).emptyScalar lexeme.start

/-- The end of a single pair. -/
def flowPairEnd (g : Grammar) : Except Malformation Step := do
  let lexeme ← g.peek
  return (.mappingEnd, lexeme.start, g.expect .flowEntry)

/-- A key of a flow mapping, or its end. A key without a mark has no value. -/
def flowKey (g : Grammar) (first : Bool) : Except Malformation Step := do
  let lexeme ← g.peek
  let close := fun (g : Grammar) (end_ : Lexeme) =>
    (.ok (.mappingEnd, end_.start, g.skip.leave) : Except Malformation Step)
  if lexeme.token = .flowMappingEnd then close g lexeme
  else if !first && lexeme.token ≠ .flowEntry then
    g.problemIn .noMappingSeparator .flowMapping lexeme.start
  else
    let g := if first then g else g.skip
    let lexeme ← g.peek
    match lexeme.token with
    | .key =>
      let g := g.skip
      let next ← g.peek
      if next.token = .value || next.token = .flowEntry || next.token = .flowMappingEnd then
        (g.expect .flowValue).emptyScalar next.start
      else (g.await .flowValue).node false false
    | .flowMappingEnd => close g lexeme
    | _ => (g.await .flowEmptyValue).node false false

/-- A value of a flow mapping. -/
def flowValue (g : Grammar) : Except Malformation Step := do
  let lexeme ← g.peek
  if lexeme.token = .value then
    let g := g.skip
    let next ← g.peek
    if next.token = .flowEntry || next.token = .flowMappingEnd then
      (g.expect .flowKey).emptyScalar next.start
    else (g.await .flowKey).node false false
  else (g.expect .flowKey).emptyScalar lexeme.start

/-- The value of a key of a flow mapping that has none. -/
def flowEmptyValue (g : Grammar) : Except Malformation Step := do
  let lexeme ← g.peek
  (g.expect .flowKey).emptyScalar lexeme.start

/-- The state inside the collection whose opening token is next. -/
def openCollection (g : Grammar) : Except Malformation Grammar := do
  let lexeme ← g.peek
  return (g.enter lexeme.start).skip

/-- The next event. -/
def step (g : Grammar) : Except Malformation Step :=
  match g.expecting with
  | .firstDocument => g.documentStart true
  | .document => g.documentStart false
  | .documentContent => g.documentContent
  | .documentEnd => g.documentEnd
  | .blockNode => g.node true false
  | .firstBlockEntry => do (← g.openCollection).blockEntry
  | .blockEntry => g.blockEntry
  | .indentlessEntry => g.indentlessEntry
  | .firstBlockKey => do (← g.openCollection).blockKey
  | .blockKey => g.blockKey
  | .blockValue => g.blockValue
  | .firstFlowEntry => do (← g.openCollection).flowEntry true
  | .flowEntry => g.flowEntry false
  | .flowPairKey => g.flowPairKey
  | .flowPairValue => g.flowPairValue
  | .flowPairEnd => g.flowPairEnd
  | .firstFlowKey => do (← g.openCollection).flowKey true
  | .flowKey => g.flowKey false
  | .flowValue => g.flowValue
  | .flowEmptyValue => g.flowEmptyValue
  | .nothing => .ok (.streamEnd, .origin, g)

end Grammar

end PageManifest.Yaml
