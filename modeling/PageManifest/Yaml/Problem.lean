import PageManifest.Yaml.Cursor

/-!
# Problems in a YAML text

What can be wrong with the form of a document, and what was being read when it was found.
-/

namespace PageManifest.Yaml

/-- What was being read. -/
inductive Activity where
  | simpleKey
  | nextToken
  | directive
  | versionDirective
  | tagDirective
  | tagDirectiveHandle
  | tagDirectiveHandleEnd
  | tagDirectivePrefix
  | anchor
  | alias
  | tagToken
  | tag
  | blockScalar
  | quotedScalarText
  | quotedScalar
  | plainScalar
  | node
  | blockNode
  | flowNode
  | blockCollection
  | blockMapping
  | flowSequence
  | flowMapping
deriving DecidableEq, Repr

/-- What was being read, in words. -/
def Activity.phrase : Activity → String
  | .simpleKey => "while scanning a simple key"
  | .nextToken => "while scanning for the next token"
  | .directive => "while scanning a directive"
  | .versionDirective => "while scanning a %YAML directive"
  | .tagDirective => "while scanning a %TAG directive"
  | .tagDirectiveHandle => "while scanning a tag directive"
  | .tagDirectiveHandleEnd => "while parsing a tag directive"
  | .tagDirectivePrefix => "while parsing a %TAG directive"
  | .anchor => "while scanning an anchor"
  | .alias => "while scanning an alias"
  | .tagToken => "while scanning a tag"
  | .tag => "while parsing a tag"
  | .blockScalar => "while scanning a block scalar"
  | .quotedScalarText => "while scanning a quoted scalar"
  | .quotedScalar => "while parsing a quoted scalar"
  | .plainScalar => "while scanning a plain scalar"
  | .node => "while parsing a node"
  | .blockNode => "while parsing a block node"
  | .flowNode => "while parsing a flow node"
  | .blockCollection => "while parsing a block collection"
  | .blockMapping => "while parsing a block mapping"
  | .flowSequence => "while parsing a flow sequence"
  | .flowMapping => "while parsing a flow mapping"

/-- What is wrong. -/
inductive Problem where
  | noColonAfterKey
  | sequenceEntryHere
  | mappingKeyHere
  | mappingValueHere
  | noTokenStartsSo
  | unknownDirective
  | noDirectiveName
  | badDirectiveName
  | noLineEnd
  | noVersionNumber
  | noVersionPoint
  | longVersionNumber
  | noSpaceAfterHandle
  | noGapAfterPrefix
  | noTagMark
  | noTagHandleEnd
  | noTagText
  | noTagOctet
  | badLeadingOctet
  | badTrailingOctet
  | noTagClose
  | noGapAfterTag
  | noAnchorName
  | zeroIndentation
  | tabInIndentation
  | markerInQuotes
  | unfinishedQuotes
  | unknownEscape
  | noHexDigits
  | badCharacterNumber
  | colonInFlow
  | tabBeforeText
  | noDocumentStart
  | noContent
  | undefinedHandle
  | noSequenceEntry
  | noKey
  | noSequenceSeparator
  | noMappingSeparator
  | secondVersion
  | badVersion
  | secondTagDirective
deriving DecidableEq, Repr

/-- What is wrong, in words. -/
def Problem.phrase : Problem → String
  | .noColonAfterKey => "could not find expected ':'"
  | .sequenceEntryHere => "block sequence entries are not allowed in this context"
  | .mappingKeyHere => "mapping keys are not allowed in this context"
  | .mappingValueHere => "mapping values are not allowed in this context"
  | .noTokenStartsSo => "found character that cannot start any token"
  | .unknownDirective => "found unknown directive name"
  | .noDirectiveName => "could not find expected directive name"
  | .badDirectiveName => "found unexpected non-alphabetical character"
  | .noLineEnd => "did not find expected comment or line break"
  | .noVersionNumber => "did not find expected version number"
  | .noVersionPoint => "did not find expected digit or '.' character"
  | .longVersionNumber => "found extremely long version number"
  | .noSpaceAfterHandle => "did not find expected whitespace"
  | .noGapAfterPrefix => "did not find expected whitespace or line break"
  | .noTagMark => "did not find expected '!'"
  | .noTagHandleEnd => "did not find expected '!'"
  | .noTagText => "did not find expected tag URI"
  | .noTagOctet => "did not find URI escaped octet"
  | .badLeadingOctet => "found an incorrect leading UTF-8 octet"
  | .badTrailingOctet => "found an incorrect trailing UTF-8 octet"
  | .noTagClose => "did not find the expected '>'"
  | .noGapAfterTag => "did not find expected whitespace or line break"
  | .noAnchorName => "did not find expected alphabetic or numeric character"
  | .zeroIndentation => "found an indentation indicator equal to 0"
  | .tabInIndentation => "found a tab character where an indentation space is expected"
  | .markerInQuotes => "found unexpected document indicator"
  | .unfinishedQuotes => "found unexpected end of stream"
  | .unknownEscape => "found unknown escape character"
  | .noHexDigits => "did not find expected hexadecimal number"
  | .badCharacterNumber => "found invalid Unicode character escape code"
  | .colonInFlow => "found unexpected ':'"
  | .tabBeforeText => "found a tab character that violates indentation"
  | .noDocumentStart => "did not find expected <document start>"
  | .noContent => "did not find expected node content"
  | .undefinedHandle => "found undefined tag handle"
  | .noSequenceEntry => "did not find expected '-' indicator"
  | .noKey => "did not find expected key"
  | .noSequenceSeparator => "did not find expected ',' or ']'"
  | .noMappingSeparator => "did not find expected ',' or '\x7d'"
  | .secondVersion => "found duplicate %YAML directive"
  | .badVersion => "found incompatible YAML document"
  | .secondTagDirective => "found duplicate %TAG directive"

/-- A problem with its place, and with what was being read and where that began. -/
inductive Malformation where
  | forbiddenCharacter (offset : Nat)
  | faulty (problem : Problem) (mark : Mark) (context : Option (Activity × Mark))
deriving Repr

/-- Where a problem was found. -/
def Malformation.mark? : Malformation → Option Mark
  | .forbiddenCharacter _ => none
  | .faulty _ mark _ => some mark

/-- The text of a malformation. The place where the reading began is left out when it
says nothing new. -/
def Malformation.message : Malformation → String
  | .forbiddenCharacter offset =>
    "control characters are not allowed" ++
      if offset = 0 then "" else s!" at position {offset}"
  | .faulty problem mark context =>
    problem.phrase ++ mark.suffix ++
      match context with
      | none => ""
      | some (activity, began) =>
        ", " ++ activity.phrase ++ if began.samePlace mark then "" else began.suffix

end PageManifest.Yaml
