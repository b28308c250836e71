import AccessReview.Binary64.Shortest
import AccessReview.Text.Quoted

/-!
# Faults of a JSON reading

A reading of JSON text into a fixed shape can fail in two ways. The text can break the
JSON grammar (`Grammar`), or a well-formed value can be of the wrong kind or out of range for
the place where it stands (`Fault`). Every fault has a fixed wording; the reader places it
at a byte offset of the text, which is then shown as a line and a column.

Values met where something else was wanted are described by `Unexpected`: a number by its
text, a string as a quoted literal, containers by their kind, and `null` as `null`. A
floating-point number is written with the fewest digits that read back, positionally when
its leading digit stands between the 10^-5 and the 10^15 place, in scientific form
otherwise.
-/

namespace AccessReview.Json

/-- Breaks of the JSON grammar. -/
inductive Grammar where
  /-- The text ended inside an array. -/
  | eofInList
  /-- The text ended inside an object. -/
  | eofInObject
  /-- The text ended inside a string. -/
  | eofInString
  /-- The text ended where a value was due. -/
  | eofInValue
  /-- An object key was not followed by a colon. -/
  | expectedColon
  /-- An array element was followed by neither a comma nor the closing bracket. -/
  | expectedListCommaOrEnd
  /-- An object member was followed by neither a comma nor the closing brace. -/
  | expectedObjectCommaOrEnd
  /-- A literal `null`, `true` or `false` was misspelt. -/
  | expectedIdent
  /-- No value starts at this byte. -/
  | expectedValue
  /-- A backslash escape is not one of the defined ones. -/
  | invalidEscape
  /-- A number breaks the number grammar. -/
  | invalidNumber
  /-- A number is too large for a double. -/
  | numberOutOfRange
  /-- A string is not valid UTF-8. -/
  | invalidCodePoint
  /-- A control character stands unescaped in a string. -/
  | controlInString
  /-- An object key is not a string. -/
  | keyMustBeString
  /-- A surrogate escape is not part of a proper pair. -/
  | loneSurrogate
  /-- A comma is followed by a closing bracket or brace. -/
  | trailingComma
  /-- Text follows the value. -/
  | trailingCharacters
  /-- A leading surrogate escape is not followed by another escape. -/
  | unexpectedEndOfHexEscape
  deriving DecidableEq, Repr

/-- The wording of a grammar break. -/
def Grammar.message : Grammar → String
  | .eofInList => "EOF while parsing a list"
  | .eofInObject => "EOF while parsing an object"
  | .eofInString => "EOF while parsing a string"
  | .eofInValue => "EOF while parsing a value"
  | .expectedColon => "expected `:`"
  | .expectedListCommaOrEnd => "expected `,` or `]`"
  | .expectedObjectCommaOrEnd => "expected `,` or `\x7d`"
  | .expectedIdent => "expected ident"
  | .expectedValue => "expected value"
  | .invalidEscape => "invalid escape"
  | .invalidNumber => "invalid number"
  | .numberOutOfRange => "number out of range"
  | .invalidCodePoint => "invalid unicode code point"
  | .controlInString => "control character (\\u0000-\\u001F) found while parsing a string"
  | .keyMustBeString => "key must be a string"
  | .loneSurrogate => "lone leading surrogate in hex escape"
  | .trailingComma => "trailing comma"
  | .trailingCharacters => "trailing characters"
  | .unexpectedEndOfHexEscape => "unexpected end of hex escape"

/-- A value met where another kind was wanted. -/
inductive Unexpected where
  /-- `true` or `false`. -/
  | bool (b : Bool)
  /-- A non-negative integer. -/
  | unsigned (n : Nat)
  /-- A negative integer. -/
  | signed (i : Int)
  /-- A number read as a double, kept as its bits. -/
  | float (bits : UInt64)
  /-- A string. -/
  | str (s : String)
  /-- `null`. -/
  | null
  /-- An array. -/
  | seq
  /-- An object. -/
  | map
  deriving DecidableEq, Repr

/-- The exponent written after `e` in scientific form: always signed, `+` or `-`, with no
leading zeros. -/
def exponentText (e : Int) : String :=
  if e < 0 then toString e else "+" ++ toString e

/-- The text of a double: the shortest digits that read back, positional when the leading
digit stands between the 10^-5 and the 10^15 place (an integer keeps a `.0`), scientific
otherwise. -/
def floatText (x : Float) : String :=
  let p := Binary64.Parts.ofFloat x
  let sign := if p.negative then "-" else ""
  if p.mantissa == 0 then sign ++ "0.0"
  else
    let (c, t) := Binary64.shortestDecimal p
    let digits := Nat.toDigits 10 c
    let n : Int := digits.length
    let lead := n + t
    let body :=
      if 0 ≤ t && lead ≤ 16 then
        String.ofList (digits ++ List.replicate t.toNat '0' ++ ['.', '0'])
      else if 0 < lead && lead ≤ 16 then
        String.ofList (digits.take lead.toNat ++ '.' :: digits.drop lead.toNat)
      else if -5 < lead && lead ≤ 0 then
        String.ofList ('0' :: '.' :: (List.replicate (-lead).toNat '0' ++ digits))
      else if digits.length == 1 then
        String.ofList digits ++ "e" ++ exponentText (lead - 1)
      else
        String.ofList (digits.take 1 ++ '.' :: digits.drop 1) ++ "e" ++ exponentText (lead - 1)
    sign ++ body

/-- How an unexpected value is named in a message. -/
def Unexpected.describe : Unexpected → String
  | .bool b => "boolean `" ++ toString b ++ "`"
  | .unsigned n => "integer `" ++ toString n ++ "`"
  | .signed i => "integer `" ++ toString i ++ "`"
  | .float bits => "floating point `" ++ floatText (Float.ofBits bits) ++ "`"
  | .str s => "string " ++ Text.quote s
  | .null => "null"
  | .seq => "sequence"
  | .map => "map"

/-- The names of the variants an enumeration accepts, as a message lists them. -/
def oneOf : List String → String
  | [] => "there are no variants"
  | [a] => "`" ++ a ++ "`"
  | [a, b] => "`" ++ a ++ "` or `" ++ b ++ "`"
  | names => "one of " ++ ", ".intercalate (names.map fun a => "`" ++ a ++ "`")

/-- Why a reading failed. -/
inductive Fault where
  /-- The text breaks the JSON grammar. -/
  | grammar (s : Grammar)
  /-- A value of the wrong kind; `expected` names what was wanted. -/
  | invalidType (found : Unexpected) (expected : String)
  /-- A value of the right kind but out of range. -/
  | invalidValue (found : Unexpected) (expected : String)
  /-- An array with too few elements for a record written as an array. -/
  | invalidLength (count : Nat) (expected : String)
  /-- A record lacks a required field. -/
  | missingField (name : String)
  /-- A record names a field twice. -/
  | duplicateField (name : String)
  /-- An enumeration value that is none of the variants. -/
  | unknownVariant (name : String) (variants : List String)
  /-- A value the schema itself refused, with its own message. -/
  | refused (message : String)
  deriving DecidableEq, Repr

/-- The wording of a fault. -/
def Fault.message : Fault → String
  | .grammar s => s.message
  | .invalidType u e => "invalid type: " ++ u.describe ++ ", expected " ++ e
  | .invalidValue u e => "invalid value: " ++ u.describe ++ ", expected " ++ e
  | .invalidLength n e => "invalid length " ++ toString n ++ ", expected " ++ e
  | .missingField f => "missing field `" ++ f ++ "`"
  | .duplicateField f => "duplicate field `" ++ f ++ "`"
  | .unknownVariant v [] => "unknown variant `" ++ v ++ "`, " ++ oneOf []
  | .unknownVariant v names => "unknown variant `" ++ v ++ "`, expected " ++ oneOf names
  | .refused m => m

/-- A fault and the byte offset it is placed at, once placed. -/
structure ReadError where
  /-- What went wrong. -/
  fault : Fault
  /-- The byte offset of the text the fault is reported at. -/
  offset : Option Nat
  deriving DecidableEq, Repr

/-- The line and column of a byte offset: lines count from 1, and the column is the number
of bytes between the last line feed before the offset and the offset. -/
def lineColumn (text : List UInt8) (offset : Nat) : Nat × Nat :=
  let before := text.take offset
  let lines := before.count 0x0A
  let column := (before.reverse.takeWhile (· != 0x0A)).length
  (lines + 1, column)

/-- The message of a reading error of `text`: the fault's wording, followed by its line and
column once it is placed. -/
def ReadError.render (text : List UInt8) (e : ReadError) : String :=
  match e.offset with
  | none => e.fault.message
  | some offset =>
    let (line, column) := lineColumn text offset
    e.fault.message ++ " at line " ++ toString line ++ " column " ++ toString column

end AccessReview.Json
