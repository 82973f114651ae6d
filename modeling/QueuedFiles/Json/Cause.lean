import QueuedFiles.Decimal.Layout
import QueuedFiles.Text.Quoted

/-!
Why a document cannot be read, with the words for each reason.
-/

namespace QueuedFiles.Json

open Decimal

inductive Found where
  | null
  | boolean (value : Bool)
  | integer (value : Int)
  | float (value : Binary64)
  | text (value : String)
  | list
  | object
deriving DecidableEq

inductive Cause where
  | endInValue
  | endInList
  | endInObject
  | endInText
  | trailingText
  | trailingComma
  | colonMissing
  | listCommaMissing
  | objectCommaMissing
  | keyNotText
  | unknownWord
  | noValue
  | malformedNumber
  | numberTooLarge
  | unknownEscape
  | controlCharacter
  | loneSurrogate
  | brokenSurrogatePair
  | wrongType (found : Found) (expected : String)
  | wrongValue (found : Found) (expected : String)
  | wrongLength (length : Nat) (expected : String)
  | duplicateField (name : String)
  | missingField (name : String)
  | unknownField (name : String) (known : List String)
  | unknownVariant (name : String) (known : List String)
  | durationTooLong
deriving DecidableEq

/-- Names in backquotes: one, two with "or" between them, or a list after "one of". -/
def alternatives (names : List String) : String :=
  let quotedNames := names.map fun n ↦ "`" ++ n ++ "`"
  match quotedNames with
  | [a, b] => a ++ " or " ++ b
  | [a] => a
  | many => "one of " ++ String.intercalate ", " many

def Found.message : Found → String
  | .null => "null"
  | .boolean b => "boolean `" ++ (if b then "true" else "false") ++ "`"
  | .integer n => "integer `" ++ toString n ++ "`"
  | .float x => "floating point `" ++ String.ofList (x.render .document) ++ "`"
  | .text s => "string " ++ Text.quoted s
  | .list => "sequence"
  | .object => "map"

def Cause.message : Cause → String
  | .endInValue => "EOF while parsing a value"
  | .endInList => "EOF while parsing a list"
  | .endInObject => "EOF while parsing an object"
  | .endInText => "EOF while parsing a string"
  | .trailingText => "trailing characters"
  | .trailingComma => "trailing comma"
  | .colonMissing => "expected `:`"
  | .listCommaMissing => "expected `,` or `]`"
  | .objectCommaMissing => "expected `,` or `\x7d`"
  | .keyNotText => "key must be a string"
  | .unknownWord => "expected ident"
  | .noValue => "expected value"
  | .malformedNumber => "invalid number"
  | .numberTooLarge => "number out of range"
  | .unknownEscape => "invalid escape"
  | .controlCharacter => "control character (\\u0000-\\u001F) found while parsing a string"
  | .loneSurrogate => "lone leading surrogate in hex escape"
  | .brokenSurrogatePair => "unexpected end of hex escape"
  | .wrongType f e => "invalid type: " ++ f.message ++ ", expected " ++ e
  | .wrongValue f e => "invalid value: " ++ f.message ++ ", expected " ++ e
  | .wrongLength n e => "invalid length " ++ toString n ++ ", expected " ++ e
  | .duplicateField n => "duplicate field `" ++ n ++ "`"
  | .missingField n => "missing field `" ++ n ++ "`"
  | .unknownField n known => "unknown field `" ++ n ++ "`, expected " ++ alternatives known
  | .unknownVariant n known => "unknown variant `" ++ n ++ "`, expected " ++ alternatives known
  | .durationTooLong => "overflow deserializing Duration"

end QueuedFiles.Json
