import AccessReview.Json.Scan
import AccessReview.Binary64.Nearest

/-!
# Numbers

A number is read as an unsigned 64-bit integer when it has neither fraction nor exponent
and fits; as a negative 64-bit integer when it is negative, has neither fraction nor
exponent, and fits; and as a double otherwise, `-0` included.

A double is built from a significand and a power of ten. The significand takes decimal
digits, integer part first, while it stays below `2^64`; further integer digits each raise
the power by one, further fraction digits are dropped. The significand is rounded to the
nearest double and then multiplied or divided by the nearest double to the power of ten,
in double arithmetic; powers past 10^308 divide by 10^308 repeatedly. A product that
overflows, or an exponent past the 32-bit range on a non-zero number, is out of range; an
exponent past that range downwards gives zero.
-/

namespace AccessReview.Json

/-- A number as read. -/
inductive Number where
  /-- A non-negative integer below `2^64`. -/
  | unsigned (n : Nat)
  /-- A negative integer of at least `-2^63`. -/
  | negative (i : Int)
  /-- Any other number, as a double. -/
  | float (x : Float)

/-- The description of a number met where something else was wanted. -/
def Number.unexpected : Number → Unexpected
  | .unsigned n => .unsigned n
  | .negative i => .signed i
  | .float x => .float x.toBits

/-- The value of a decimal digit byte. -/
def digitValue (b : UInt8) : Nat := b.toNat - 0x30

/-- The largest unsigned 64-bit integer. -/
def maxU64 : Nat := 18446744073709551615

/-- The largest signed 32-bit integer. -/
def maxI32 : Int := 2147483647

/-- Clamps an exponent to the signed 32-bit range. -/
def saturateI32 (e : Int) : Int := max (-2147483648) (min maxI32 e)

/-- The nearest double to `10^k`. -/
def pow10 (k : Nat) : Float := Binary64.ofNatNearest (Nat.pow 10 k)

/-- Scales `f` by `10^exp` in double arithmetic; `none` when the product overflows. -/
def scaleByPow10 (f : Float) (exp : Int) : Nat → Option Float
  | 0 => some f
  | fuel + 1 =>
    let k := exp.natAbs
    if k ≤ 308 then
      if 0 ≤ exp then
        let g := f * pow10 k
        if g.isInf then none else some g
      else some (f / pow10 k)
    else if f == 0 then some f
    else if 0 ≤ exp then none
    else scaleByPow10 (f / pow10 308) (exp + 308) fuel

/-- The double of a significand and a power of ten, with its sign. Three divisions by
10^308 bring any significand below `2^64` to zero, so eight rounds suffice. -/
def doubleOfParts (positive : Bool) (sig : Nat) (exp : Int) : Option Float :=
  (scaleByPow10 (Binary64.ofNatNearest sig) exp 8).map fun f => if positive then f else -f

/-- A finished double, or the out-of-range break at the end of the number. -/
def finishDouble (positive : Bool) (sig : Nat) (exp : Int) (used : Nat) : Scan Number :=
  match doubleOfParts positive sig exp with
  | some x => .took (.float x) used
  | none => .broke .numberOutOfRange used

/-- An integer without fraction or exponent. -/
def integerNumber (positive : Bool) (sig : Nat) : Number :=
  if positive then .unsigned sig
  else if sig == 0 then .float (-0.0)
  else if sig ≤ Nat.pow 2 63 then .negative (-(sig : Int))
  else .float (-(Binary64.ofNatNearest sig))

/-- The digits of an exponent after its first: `exp` so far, `negExp` its sign. -/
def exponentDigits (positive : Bool) (sig : Nat) (start : Int) (negExp : Bool) (exp : Nat) :
    List UInt8 → Nat → Scan Number
  | d :: rest, used =>
    if isDigit d then
      let e := exp * 10 + digitValue d
      if maxI32 < e then
        if sig != 0 && !negExp then .broke .numberOutOfRange (used + 1)
        else
          .took (.float (if positive then 0.0 else -0.0))
            (used + 1 + (rest.takeWhile isDigit).length)
      else exponentDigits positive sig start negExp e rest (used + 1)
    else finishDouble positive sig (saturateI32 (if negExp then start - exp else start + exp)) used
  | [], used =>
    finishDouble positive sig (saturateI32 (if negExp then start - exp else start + exp)) used

/-- An exponent part, from its `e` or `E`. -/
def exponentPart (positive : Bool) (sig : Nat) (start : Int) (bs : List UInt8) (used : Nat) :
    Scan Number :=
  let (negExp, rest, used) :=
    match bs.drop 1 with
    | s :: rest => if s == 0x2B then (false, rest, used + 2)
        else if s == 0x2D then (true, rest, used + 2)
        else (false, s :: rest, used + 1)
    | [] => (false, [], used + 1)
  match rest with
  | [] => .broke .eofInValue used
  | d :: rest =>
    if isDigit d then exponentDigits positive sig start negExp (digitValue d) rest (used + 1)
    else .broke .invalidNumber (used + 1)

/-- Whether a byte starts an exponent part. -/
def isExponentMark (b : UInt8) : Bool := b == 0x65 || b == 0x45

/-- What follows the digits of a double: an exponent part or the end of the number. -/
def afterDigits (positive : Bool) (sig : Nat) (exp : Int) (bs : List UInt8) (used : Nat) :
    Scan Number :=
  match bs with
  | e :: _ => if isExponentMark e then exponentPart positive sig exp bs used
      else finishDouble positive sig exp used
  | [] => finishDouble positive sig exp used

/-- Fraction digits once the significand is full: skipped. -/
def droppedDigits (positive : Bool) (sig : Nat) (exp : Int) (bs : List UInt8) (used : Nat) :
    Scan Number :=
  afterDigits positive sig exp (bs.dropWhile isDigit) (used + (bs.takeWhile isDigit).length)

/-- Fraction digits; `count` of them have entered the significand. -/
def fractionDigits (positive : Bool) (sig : Nat) (start : Int) (count : Nat) :
    List UInt8 → Nat → Scan Number
  | d :: rest, used =>
    if isDigit d then
      if maxU64 < sig * 10 + digitValue d then
        droppedDigits positive sig (start - count) (d :: rest) used
      else fractionDigits positive (sig * 10 + digitValue d) start (count + 1) rest (used + 1)
    else if count == 0 then .broke .invalidNumber (used + 1)
    else afterDigits positive sig (start - count) (d :: rest) used
  | [], used =>
    if count == 0 then .broke .eofInValue used
    else finishDouble positive sig (start - count) used

/-- Integer digits once the significand is full: each raises the power of ten. -/
def extraIntegerDigits (positive : Bool) (sig : Nat) (exp : Int) :
    List UInt8 → Nat → Scan Number
  | d :: rest, used =>
    if isDigit d then extraIntegerDigits positive sig (exp + 1) rest (used + 1)
    else if d == 0x2E then fractionDigits positive sig exp 0 rest (used + 1)
    else afterDigits positive sig exp (d :: rest) used
  | [], used => finishDouble positive sig exp used

/-- What follows the integer digits: a fraction, an exponent, or the end. -/
def afterInteger (positive : Bool) (sig : Nat) (bs : List UInt8) (used : Nat) : Scan Number :=
  match bs with
  | d :: rest =>
    if d == 0x2E then fractionDigits positive sig 0 0 rest (used + 1)
    else if isExponentMark d then exponentPart positive sig 0 bs used
    else .took (integerNumber positive sig) used
  | [] => .took (integerNumber positive sig) used

/-- Integer digits after the first, while the significand stays below `2^64`. -/
def integerDigits (positive : Bool) (sig : Nat) : List UInt8 → Nat → Scan Number
  | d :: rest, used =>
    if isDigit d then
      if maxU64 < sig * 10 + digitValue d then extraIntegerDigits positive sig 0 (d :: rest) used
      else integerDigits positive (sig * 10 + digitValue d) rest (used + 1)
    else afterInteger positive sig (d :: rest) used
  | [], used => afterInteger positive sig [] used

/-- Scans a number after its sign: a lone `0` or a digit `1`–`9` and more digits, then an
optional fraction and exponent. -/
def scanNumber (positive : Bool) : List UInt8 → Scan Number
  | [] => .broke .eofInValue 0
  | b :: rest =>
    if b == 0x30 then
      match rest with
      | d :: _ => if isDigit d then .broke .invalidNumber 2 else afterInteger positive 0 rest 1
      | [] => .took (integerNumber positive 0) 1
    else if isDigit b then integerDigits positive (digitValue b) rest 1
    else .broke .invalidNumber 1

/-- Reads a number at the cursor; `positive` is false when its minus sign has been taken. -/
def readNumber (positive : Bool) : Reader Number :=
  scan (scanNumber positive)

/-- Skips the exponent part of a skipped number, from its `e` or `E`. -/
def skipExponent (bs : List UInt8) (used : Nat) : Scan Unit :=
  let (rest, used) :=
    match bs.drop 1 with
    | s :: rest => if s == 0x2B || s == 0x2D then (rest, used + 2) else (s :: rest, used + 1)
    | [] => ([], used + 1)
  match rest with
  | [] => .broke .invalidNumber used
  | d :: rest =>
    if isDigit d then .took () (used + 1 + (rest.takeWhile isDigit).length)
    else .broke .invalidNumber (used + 1)

/-- Skips the fraction and exponent of a skipped number. -/
def skipFraction (bs : List UInt8) (used : Nat) : Scan Unit :=
  match bs with
  | d :: rest =>
    if d == 0x2E then
      let n := (rest.takeWhile isDigit).length
      if n == 0 then
        match rest with
        | [] => .broke .invalidNumber (used + 1)
        | _ => .broke .invalidNumber (used + 2)
      else
        match rest.drop n with
        | e :: tail => if isExponentMark e then skipExponent (e :: tail) (used + 1 + n)
            else .took () (used + 1 + n)
        | [] => .took () (used + 1 + n)
    else if isExponentMark d then skipExponent bs used
    else .took () used
  | [] => .took () used

/-- Scans a skipped number after its sign, checking its form only. -/
def skipNumberBody : List UInt8 → Scan Unit
  | [] => .broke .invalidNumber 0
  | b :: rest =>
    if b == 0x30 then
      match rest with
      | d :: _ => if isDigit d then .broke .invalidNumber 2 else skipFraction rest 1
      | [] => .took () 1
    else if isDigit b then
      let n := (rest.takeWhile isDigit).length
      skipFraction (rest.drop n) (1 + n)
    else .broke .invalidNumber 1

/-- Skips a number at the cursor, after its minus sign if any. -/
def skipNumber : Reader Unit :=
  scan skipNumberBody

end AccessReview.Json
