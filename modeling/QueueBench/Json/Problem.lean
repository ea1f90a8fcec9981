import QueueBench.Document.Mismatch
import QueueBench.Json.Printer

set_option autoImplicit false

namespace QueueBench.Json

/-- What was being read when the text ended. -/
inductive Place where
  | value
  | list
  | object
  | string
deriving DecidableEq

/-- The first problem of a text in reading order. -/
inductive Problem where
  | ended (place : Place)
  | expectedValue
  | expectedIdent
  | expectedColon
  | expectedItemEnd
  | expectedMemberEnd
  | expectedQuote
  | keyNotString
  | keyNotNumber
  | trailingComma
  | trailingCharacters
  | invalidNumber
  | numberOutOfRange
  | invalidEscape
  | brokenSurrogate
  | loneSurrogate
  | invalidCodePoint
  | controlCharacter
  | tooDeep
  | mismatch (m : Document.Mismatch)
deriving DecidableEq

def Place.text : Place → String
  | .value => "a value"
  | .list => "a list"
  | .object => "an object"
  | .string => "a string"

def Problem.message : Problem → String
  | .ended place => "EOF while parsing " ++ place.text
  | .expectedValue => "expected value"
  | .expectedIdent => "expected ident"
  | .expectedColon => "expected `:`"
  | .expectedItemEnd => "expected `,` or `]`"
  | .expectedMemberEnd => "expected `,` or `\x7d`"
  | .expectedQuote => "expected `\"`"
  | .keyNotString => "key must be a string"
  | .keyNotNumber => "invalid value: expected key to be a number in quotes"
  | .trailingComma => "trailing comma"
  | .trailingCharacters => "trailing characters"
  | .invalidNumber => "invalid number"
  | .numberOutOfRange => "number out of range"
  | .invalidEscape => "invalid escape"
  | .brokenSurrogate => "unexpected end of hex escape"
  | .loneSurrogate => "lone leading surrogate in hex escape"
  | .invalidCodePoint => "invalid unicode code point"
  | .controlCharacter => "control character (\\u0000-\\u001F) found while parsing a string"
  | .tooDeep => "recursion limit exceeded"
  | .mismatch m => m.message numberLayout

end QueueBench.Json
