/-!
# URL-safe base64 without padding

Bytes are written three at a time as four symbols of six bits each, from the alphabet
`A`–`Z`, `a`–`z`, `0`–`9`, `-`, `_`. A last group of one or two bytes is written as two or
three symbols, and no padding follows.

Reading is strict: every symbol must come from the alphabet (so `=` is refused), the
number of symbols must not leave a single symbol over (a length of the form `4k + 1`), and
the bits of the last symbol beyond the last whole byte must be zero. Each byte string then
has exactly one written form.
-/

namespace AccessReview.Base64

/-- The symbol for a six-bit value. -/
def symbol (v : Nat) : Char :=
  if v < 26 then Char.ofNat (0x41 + v)
  else if v < 52 then Char.ofNat (0x61 + (v - 26))
  else if v < 62 then Char.ofNat (0x30 + (v - 52))
  else if v == 62 then '-' else '_'

/-- The six-bit value of a symbol of the alphabet. -/
def value? (c : Char) : Option Nat :=
  let n := c.toNat
  if 0x41 ≤ n && n ≤ 0x5A then some (n - 0x41)
  else if 0x61 ≤ n && n ≤ 0x7A then some (n - 0x61 + 26)
  else if 0x30 ≤ n && n ≤ 0x39 then some (n - 0x30 + 52)
  else if c == '-' then some 62
  else if c == '_' then some 63
  else none

/-- The symbols of a byte string, three bytes to four symbols. -/
def encodeList : List UInt8 → List Char
  | [] => []
  | [a] =>
    let x := a.toNat
    [symbol (x / 4), symbol (x % 4 * 16)]
  | [a, b] =>
    let x := a.toNat * 256 + b.toNat
    [symbol (x / 1024), symbol (x / 16 % 64), symbol (x % 16 * 4)]
  | a :: b :: c :: rest =>
    let x := a.toNat * 65536 + b.toNat * 256 + c.toNat
    symbol (x / 262144) :: symbol (x / 4096 % 64) :: symbol (x / 64 % 64) ::
      symbol (x % 64) :: encodeList rest

/-- The written form of a byte string. -/
def encode (bytes : List UInt8) : String :=
  String.ofList (encodeList bytes)

/-- The bytes of a list of six-bit values, four values to three bytes; `none` when a single
value is left over or the last value has bits set beyond the last whole byte. -/
def decodeValues : List Nat → Option (List UInt8)
  | [] => some []
  | [_] => none
  | [a, b] =>
    if b % 16 == 0 then some [(a * 4 + b / 16).toUInt8] else none
  | [a, b, c] =>
    if c % 4 == 0 then
      let x := a * 4096 + b * 64 + c
      some [(x / 1024).toUInt8, (x / 4 % 256).toUInt8]
    else none
  | a :: b :: c :: d :: rest =>
    let x := a * 262144 + b * 4096 + c * 64 + d
    (decodeValues rest).map fun tail =>
      (x / 65536).toUInt8 :: (x / 256 % 256).toUInt8 :: (x % 256).toUInt8 :: tail

/-- The bytes a text writes, or `none` when it is not a written form. -/
def decode (s : String) : Option (List UInt8) :=
  (s.toList.mapM value?).bind decodeValues

end AccessReview.Base64
