import AccessReview.Text.Printable
import AccessReview.Text.GraphemeExtend

/-!
# Quoted text

Error messages show offending input as a quoted literal: the text between double quotes,
with a few characters written as escapes so that every character is visible.

* NUL, TAB, CR and LF are written `\0`, `\t`, `\r`, `\n`; the backslash and the double
  quote are preceded by a backslash. The single quote stands as it is.
* A grapheme extender (a combining mark) would attach to the quote or to the character
  before it, so it is written `\u{hex}` wherever it stands.
* A character that does not print (`AccessReview.Text.isPrintable`) is written `\u{hex}`.
* Every other character stands as it is.

The hexadecimal digits are lower case, without leading zeros.
-/

namespace AccessReview.Text

/-- The escape `\u{hex}` of a code point, in lower-case hexadecimal without leading zeros. -/
def unicodeEscape (c : Char) : List Char :=
  ['\\', 'u', '{'] ++ Nat.toDigits 16 c.toNat ++ ['}']

/-- How one character is written inside a quoted literal. -/
def quotedChar (c : Char) : List Char :=
  match c with
  | '\x00' => ['\\', '0']
  | '\t' => ['\\', 't']
  | '\r' => ['\\', 'r']
  | '\n' => ['\\', 'n']
  | '\\' => ['\\', '\\']
  | '"' => ['\\', '"']
  | c =>
    if (0x2FF < c.toNat && isGraphemeExtend c) || !isPrintable c then unicodeEscape c
    else [c]

/-- The quoted literal of a text: its characters written by `quotedChar`, between double
quotes. -/
def quote (s : String) : String :=
  String.ofList ('"' :: (s.toList.flatMap quotedChar ++ ['"']))

end AccessReview.Text
