import ExprLang.Text.Bytes

/-!
# What can be wrong with a YAML text

A fault is a problem and the line that is named with it. Lines are counted from zero while a text
is read and mostly from one when they are named.
-/

namespace ExprLang.Yaml

/-- Why a text is no document. -/
inductive Problem
  -- the encoding
  | leadingByte
  | truncatedCharacter
  | trailingByte
  | overlongCharacter
  | invalidCharacter
  | controlCharacter
  | truncatedUnit
  | truncatedPair
  | strayLowSurrogate
  | missingLowSurrogate
  -- scalars
  | unclosedQuote
  | quotedDocumentMark
  | unknownEscape
  | escapeDigits
  | escapeCharacter
  | tabInPlain
  | tabInBlock
  | zeroIndentation
  | lineEnd
  -- anchors, tags and directives
  | anchorName
  | tagMark
  | tagText
  | tagBracket
  | tagEnd
  | tagEscape
  | tagLeadingByte
  | tagTrailingByte
  | directiveName
  | directiveCharacter
  | unknownDirective
  | versionNumber
  | versionPoint
  | longVersion
  | directiveBlank
  -- the order of tokens
  | unexpectedCharacter
  | sequenceEntry
  | mappingKey
  | mappingValue
  | missingColon
  | tooDeep
  | missingKey
  | missingDash
  | missingContent
  | missingDocumentStart
  | listSeparator
  | mappingSeparator
  | repeatedVersion
  | otherVersion
  | repeatedTagPrefix
  | unknownTagHandle
  | unknownAnchor (name : Bytes)
  deriving DecidableEq, Repr

/-- How deep collections can be nested. -/
def maxDepth : Nat := 10000

def Problem.message : Problem → Bytes
  | .leadingByte => bytes "invalid leading UTF-8 octet"
  | .truncatedCharacter => bytes "incomplete UTF-8 octet sequence"
  | .trailingByte => bytes "invalid trailing UTF-8 octet"
  | .overlongCharacter => bytes "invalid length of a UTF-8 sequence"
  | .invalidCharacter => bytes "invalid Unicode character"
  | .controlCharacter => bytes "control characters are not allowed"
  | .truncatedUnit => bytes "incomplete UTF-16 character"
  | .truncatedPair => bytes "incomplete UTF-16 surrogate pair"
  | .strayLowSurrogate => bytes "unexpected low surrogate area"
  | .missingLowSurrogate => bytes "expected low surrogate area"
  | .unclosedQuote => bytes "found unexpected end of stream"
  | .quotedDocumentMark => bytes "found unexpected document indicator"
  | .unknownEscape => bytes "found unknown escape character"
  | .escapeDigits => bytes "did not find expected hexdecimal number"
  | .escapeCharacter => bytes "found invalid Unicode character escape code"
  | .tabInPlain => bytes "found a tab character that violates indentation"
  | .tabInBlock => bytes "found a tab character where an indentation space is expected"
  | .zeroIndentation => bytes "found an indentation indicator equal to 0"
  | .lineEnd => bytes "did not find expected comment or line break"
  | .anchorName => bytes "did not find expected alphabetic or numeric character"
  | .tagMark => bytes "did not find expected '!'"
  | .tagText => bytes "did not find expected tag URI"
  | .tagBracket => bytes "did not find the expected '>'"
  | .tagEnd => bytes "did not find expected whitespace or line break"
  | .tagEscape => bytes "did not find URI escaped octet"
  | .tagLeadingByte => bytes "found an incorrect leading UTF-8 octet"
  | .tagTrailingByte => bytes "found an incorrect trailing UTF-8 octet"
  | .directiveName => bytes "could not find expected directive name"
  | .directiveCharacter => bytes "found unexpected non-alphabetical character"
  | .unknownDirective => bytes "found unknown directive name"
  | .versionNumber => bytes "did not find expected version number"
  | .versionPoint => bytes "did not find expected digit or '.' character"
  | .longVersion => bytes "found extremely long version number"
  | .directiveBlank => bytes "did not find expected whitespace"
  | .unexpectedCharacter => bytes "found character that cannot start any token"
  | .sequenceEntry => bytes "block sequence entries are not allowed in this context"
  | .mappingKey => bytes "mapping keys are not allowed in this context"
  | .mappingValue => bytes "mapping values are not allowed in this context"
  | .missingColon => bytes "could not find expected ':'"
  | .tooDeep => bytes "exceeded max depth of " ++ Text.decimal maxDepth
  | .missingKey => bytes "did not find expected key"
  | .missingDash => bytes "did not find expected '-' indicator"
  | .missingContent => bytes "did not find expected node content"
  | .missingDocumentStart => bytes "did not find expected <document start>"
  | .listSeparator => bytes "did not find expected ',' or ']'"
  | .mappingSeparator => bytes "did not find expected ',' or '\x7d'"
  | .repeatedVersion => bytes "found duplicate %YAML directive"
  | .otherVersion => bytes "found incompatible YAML document"
  | .repeatedTagPrefix => bytes "found duplicate %TAG directive"
  | .unknownTagHandle => bytes "found undefined tag handle"
  | .unknownAnchor name => bytes "unknown anchor '" ++ name ++ bytes "' referenced"

/-- A problem and the line that is named with it; zero names none. -/
structure Fault where
  problem : Problem
  line : Nat
  deriving DecidableEq, Repr

namespace Fault

/-- A problem that is not tied to a line. -/
def ofText (problem : Problem) : Fault := ⟨problem, 0⟩

/-- A problem with a token. Lines are given counted from zero: where the construct starts and where
the problem is. The first that is not the first line of the text is named, counted from one. -/
def ofToken (problem : Problem) (start place : Nat) : Fault :=
  ⟨problem, if start ≠ 0 then start + 1 else if place ≠ 0 then place + 1 else 0⟩

/-- A problem with the order of tokens. Here the line is named counted from zero. -/
def ofStructure (problem : Problem) (start place : Nat) : Fault :=
  ⟨problem, if start ≠ 0 then start else place⟩

def message (f : Fault) : Bytes :=
  bytes "yaml: " ++
    (if f.line = 0 then [] else bytes "line " ++ Text.decimal f.line ++ bytes ": ") ++
    f.problem.message

end Fault

end ExprLang.Yaml
