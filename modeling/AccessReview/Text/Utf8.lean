/-!
# UTF-8

Reading a byte string as UTF-8 text (RFC 3629): a byte below `0x80` is a character by
itself; a lead byte `C2`–`DF`, `E0`–`EF` or `F0`–`F4` starts a sequence of two, three or four
bytes whose continuation bytes lie in `80`–`BF`, with the second byte narrowed after `E0`
(`A0`–`BF`), `ED` (`80`–`9F`), `F0` (`90`–`BF`) and `F4` (`80`–`8F`). These rules exclude
overlong forms, surrogates and code points past U+10FFFF, so every accepted sequence is
the encoding of exactly one character.
-/

namespace AccessReview.Text

/-- A continuation byte: `80`–`BF`. -/
def isContinuation (b : UInt8) : Bool := 0x80 ≤ b.toNat && b.toNat ≤ 0xBF

/-- The least and greatest second byte allowed after a lead byte of three or four bytes. -/
def secondByteRange (lead : Nat) : Nat × Nat :=
  if lead == 0xE0 then (0xA0, 0xBF)
  else if lead == 0xED then (0x80, 0x9F)
  else if lead == 0xF0 then (0x90, 0xBF)
  else if lead == 0xF4 then (0x80, 0x8F)
  else (0x80, 0xBF)

/-- Whether `b` may follow the lead byte `lead` as the second byte of a sequence. -/
def secondByteFits (lead : Nat) (b : UInt8) : Bool :=
  (secondByteRange lead).1 ≤ b.toNat && b.toNat ≤ (secondByteRange lead).2

/-- What stands at the head of a byte string that starts with a byte of `80`–`FF`. -/
inductive Sequence where
  /-- A well-formed sequence of this many bytes. -/
  | whole (length : Nat)
  /-- A byte that no well-formed sequence allows where it stands. -/
  | broken
  /-- A sequence that is well-formed so far but cut by the end of the bytes. -/
  | cut
  deriving DecidableEq, Repr

/-- The number of bytes of the sequence a lead byte starts, 0 for a byte that starts none. -/
def leadLength (x : Nat) : Nat :=
  if 0xC2 ≤ x && x ≤ 0xDF then 2
  else if 0xE0 ≤ x && x ≤ 0xEF then 3
  else if 0xF0 ≤ x && x ≤ 0xF4 then 4
  else 0

/-- Checks the sequence at the head of a byte string byte by byte, stopping at the first byte
that cannot continue it. -/
def sequenceAt : List UInt8 → Sequence
  | [] => .cut
  | a :: rest =>
    let n := leadLength a.toNat
    if n == 0 then .broken
    else match rest with
      | [] => .cut
      | b :: rest =>
        if !secondByteFits a.toNat b then .broken
        else if n == 2 then .whole 2
        else match rest with
          | [] => .cut
          | c :: rest =>
            if !isContinuation c then .broken
            else if n == 3 then .whole 3
            else match rest with
              | [] => .cut
              | d :: _ => if isContinuation d then .whole 4 else .broken

/-- The length of the longest prefix of a byte string that is well-formed UTF-8. -/
def validPrefixLength : List UInt8 → Nat
  | [] => 0
  | a :: rest =>
    if a.toNat < 0x80 then validPrefixLength rest + 1
    else match sequenceAt (a :: rest), rest with
      | .whole 2, _ :: more => validPrefixLength more + 2
      | .whole 3, _ :: _ :: more => validPrefixLength more + 3
      | .whole 4, _ :: _ :: _ :: more => validPrefixLength more + 4
      | _, _ => 0

/-- The characters a byte string encodes, or `none` when it is not well-formed UTF-8. -/
def decodeUtf8 : List UInt8 → Option (List Char)
  | [] => some []
  | a :: rest =>
    let x := a.toNat
    if x < 0x80 then (decodeUtf8 rest).map (Char.ofNat x :: ·)
    else match rest with
      | [] => none
      | b :: rest =>
        if 0xC2 ≤ x && x ≤ 0xDF then
          if isContinuation b then
            (decodeUtf8 rest).map (Char.ofNat ((x % 32) * 64 + b.toNat % 64) :: ·)
          else none
        else match rest with
          | [] => none
          | c :: rest =>
            if 0xE0 ≤ x && x ≤ 0xEF then
              if secondByteFits x b && isContinuation c then
                (decodeUtf8 rest).map
                  (Char.ofNat ((x % 16) * 4096 + (b.toNat % 64) * 64 + c.toNat % 64) :: ·)
              else none
            else match rest with
              | [] => none
              | d :: rest =>
                if 0xF0 ≤ x && x ≤ 0xF4 && secondByteFits x b && isContinuation c &&
                    isContinuation d then
                  (decodeUtf8 rest).map (Char.ofNat ((x % 8) * 262144 + (b.toNat % 64) * 4096 +
                    (c.toNat % 64) * 64 + d.toNat % 64) :: ·)
                else none

/-- The UTF-8 bytes of a code point below U+10FFFF (surrogates included, as a plain
three-byte form). -/
def encodeCodePoint (n : Nat) : List UInt8 :=
  if n < 0x80 then [n.toUInt8]
  else if n < 0x800 then [(0xC0 + n / 64).toUInt8, (0x80 + n % 64).toUInt8]
  else if n < 0x10000 then
    [(0xE0 + n / 4096).toUInt8, (0x80 + n / 64 % 64).toUInt8, (0x80 + n % 64).toUInt8]
  else
    [(0xF0 + n / 262144).toUInt8, (0x80 + n / 4096 % 64).toUInt8,
      (0x80 + n / 64 % 64).toUInt8, (0x80 + n % 64).toUInt8]

end AccessReview.Text
