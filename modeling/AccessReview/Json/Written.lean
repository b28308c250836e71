/-!
# Writing JSON strings

A string is written between double quotes. The double quote and the backslash are
preceded by a backslash; backspace, form feed, line feed, carriage return and tab are
written `\b`, `\f`, `\n`, `\r`, `\t`; every other character below U+0020 is written
`\u00XX` with two lower-case hexadecimal digits. All other characters, DEL and non-ASCII
included, are written as themselves.
-/

namespace AccessReview.Json

/-- A lower-case hexadecimal digit. -/
def hexDigit (n : Nat) : Char :=
  if n < 10 then Char.ofNat (0x30 + n) else Char.ofNat (0x61 + (n - 10))

/-- How one character is written inside a JSON string. -/
def writtenChar (c : Char) : List Char :=
  if c == '"' then ['\\', '"']
  else if c == '\\' then ['\\', '\\']
  else if c == '\x08' then ['\\', 'b']
  else if c == '\x0c' then ['\\', 'f']
  else if c == '\n' then ['\\', 'n']
  else if c == '\r' then ['\\', 'r']
  else if c == '\t' then ['\\', 't']
  else if c.toNat < 0x20 then
    ['\\', 'u', '0', '0', hexDigit (c.toNat / 16), hexDigit (c.toNat % 16)]
  else [c]

/-- A text written as a JSON string. -/
def writeString (s : String) : String :=
  String.ofList ('"' :: (s.toList.flatMap writtenChar ++ ['"']))

end AccessReview.Json
