import AccessReview.Json.Reader
import AccessReview.Text.Utf8

/-!
# Scanning one token

Strings and numbers are scanned by total functions on the bytes ahead. A scan either
takes a token, giving its value and the number of bytes it used, or breaks the grammar,
giving the offset from the token's start where the break is reported. `Reader.scan` runs a
scan at the cursor.
-/

namespace AccessReview.Json

/-- The outcome of scanning one token. -/
inductive Scan (α : Type) where
  /-- The token's value and the bytes it used. -/
  | took (value : α) (used : Nat)
  /-- A grammar break, reported this many bytes after the token's start. -/
  | broke (fault : Grammar) (pos : Nat)

/-- The same scan, counted from `n` bytes earlier. -/
def Scan.shift (n : Nat) : Scan α → Scan α
  | .took a used => .took a (n + used)
  | .broke g pos => .broke g (n + pos)

/-- The same scan with its value changed. -/
def Scan.map (f : α → β) : Scan α → Scan β
  | .took a used => .took (f a) used
  | .broke g pos => .broke g pos

/-- Runs a scan at the cursor: takes the bytes it used, or fails where it broke. -/
def scan (s : List UInt8 → Scan α) : Reader α := do
  let c ← get
  match s c.rest with
  | .took a used =>
    set (c.advance used)
    return a
  | .broke g pos =>
    set (c.advance pos)
    fail g

/-- The value of a hexadecimal digit, either case. -/
def hexValue (b : UInt8) : Option Nat :=
  let n := b.toNat
  if 0x30 ≤ n && n ≤ 0x39 then some (n - 0x30)
  else if 0x41 ≤ n && n ≤ 0x46 then some (n - 0x41 + 10)
  else if 0x61 ≤ n && n ≤ 0x66 then some (n - 0x61 + 10)
  else none

/-- The value of four hexadecimal digits. -/
def hexQuad (a b c d : UInt8) : Option Nat := do
  return (← hexValue a) * 4096 + (← hexValue b) * 256 + (← hexValue c) * 16 + (← hexValue d)

/-- The byte a one-letter escape stands for: `\"`, `\\`, `\/`, `\b`, `\f`, `\n`, `\r`, `\t`. -/
def simpleEscape (e : UInt8) : Option UInt8 :=
  if e == 0x22 then some 0x22
  else if e == 0x5C then some 0x5C
  else if e == 0x2F then some 0x2F
  else if e == 0x62 then some 0x08
  else if e == 0x66 then some 0x0C
  else if e == 0x6E then some 0x0A
  else if e == 0x72 then some 0x0D
  else if e == 0x74 then some 0x09
  else none

/-- Prepends bytes to the value of a string scan. -/
def Scan.prepend (bs : List UInt8) (s : Scan (List UInt8)) : Scan (List UInt8) :=
  s.map (bs ++ ·)

/-- Scans the body of a string after its opening quote, decoding escapes, up to and
including the closing quote. A `\u` escape of a leading surrogate must be followed by the
escape of a trailing one; the pair stands for one code point past U+FFFF. Bytes of `80`–`FF`
are taken as they stand: whether they form UTF-8 is checked once the whole string is read
(`readStringBody`), so a break of the grammar anywhere in the string is reported first. -/
def scanStringBody : List UInt8 → Scan (List UInt8)
  | [] => .broke .eofInString 0
  | b :: rest =>
    if b == 0x22 then .took [] 1
    else if b == 0x5C then
      match rest with
      | [] => .broke .eofInString 1
      | e :: rest =>
        match simpleEscape e with
        | some x => ((scanStringBody rest).prepend [x]).shift 2
        | none =>
          if e != 0x75 then .broke .invalidEscape 2
          else
            match rest with
            | h1 :: h2 :: h3 :: h4 :: rest =>
              match hexQuad h1 h2 h3 h4 with
              | none => .broke .invalidEscape 6
              | some n =>
                if 0xDC00 ≤ n && n ≤ 0xDFFF then .broke .loneSurrogate 6
                else if n < 0xD800 || 0xDBFF < n then
                  ((scanStringBody rest).prepend (Text.encodeCodePoint n)).shift 6
                else
                  match rest with
                  | [] => .broke .eofInString 6
                  | x :: rest =>
                    if x != 0x5C then .broke .unexpectedEndOfHexEscape 7
                    else
                      match rest with
                      | [] => .broke .eofInString 7
                      | y :: rest =>
                        if y != 0x75 then .broke .unexpectedEndOfHexEscape 8
                        else
                          match rest with
                          | k1 :: k2 :: k3 :: k4 :: rest =>
                            match hexQuad k1 k2 k3 k4 with
                            | none => .broke .invalidEscape 12
                            | some m =>
                              if m < 0xDC00 || 0xDFFF < m then .broke .loneSurrogate 12
                              else
                                let cp := (n - 0xD800) * 1024 + (m - 0xDC00) + 0x10000
                                ((scanStringBody rest).prepend (Text.encodeCodePoint cp)).shift 12
                          | short => .broke .eofInString (8 + short.length)
            | short => .broke .eofInString (2 + short.length)
    else if b < 0x20 then .broke .controlInString 1
    else ((scanStringBody rest).prepend [b]).shift 1

/-- Scans the body of a string that is skipped: escapes are checked for form only, the
bytes are not decoded, and an unescaped control character is reported at itself. -/
def skipStringBody : List UInt8 → Scan Unit
  | [] => .broke .eofInString 0
  | b :: rest =>
    if b == 0x22 then .took () 1
    else if b == 0x5C then
      match rest with
      | [] => .broke .eofInString 1
      | e :: rest =>
        if (simpleEscape e).isSome then (skipStringBody rest).shift 2
        else if e != 0x75 then .broke .invalidEscape 2
        else
          match rest with
          | h1 :: h2 :: h3 :: h4 :: rest =>
            if (hexQuad h1 h2 h3 h4).isSome then (skipStringBody rest).shift 6
            else .broke .invalidEscape 6
          | short => .broke .eofInString (2 + short.length)
    else if b < 0x20 then .broke .controlInString 0
    else (skipStringBody rest).shift 1

/-- Reads the rest of a string whose opening quote has been taken, as text. The decoded
bytes that are not UTF-8 are reported once the closing quote is taken, at the first byte
past their longest well-formed prefix, counted back from the cursor by the decoded length:
where an escape stands before that byte, the place is measured in decoded bytes, not in
bytes of the text. -/
def readStringBody : Reader String := do
  let bytes ← scan scanStringBody
  match Text.decodeUtf8 bytes with
  | some cs => return String.ofList cs
  | none => failBehind (bytes.length - Text.validPrefixLength bytes) .invalidCodePoint

/-- Skips the rest of a string whose opening quote has been taken. -/
def skipString : Reader Unit :=
  scan skipStringBody

end AccessReview.Json
