import AccessReview.Text.Utf8

/-! # Reading back UTF-8

    Reading a byte string as UTF-8 inverts writing text as UTF-8: the bytes of every list of
    characters decode to that list (`decodeUtf8_flatMap`), and the bytes of a string are the
    UTF-8 forms of its characters one after another (`toUTF8_toList`).

    The reader is checked one character at a time. Its equations split on the shape of the
    byte list, so each length of sequence first gets an equation of its own
    (`decodeUtf8_one` to `decodeUtf8_four`); a character's encoding then meets the conditions
    of the equation for its length. Validity of the character is what keeps a three-byte
    encoding out of the surrogate range and a four-byte one below U+110000, the two places
    where the reader narrows the second byte.
-/

namespace AccessReview.Text

/-! ## One equation per sequence length -/

/-- A byte below `80` is a character by itself. -/
theorem decodeUtf8_one {a : UInt8} (rest : List UInt8) (ha : a.toNat < 0x80) :
    decodeUtf8 (a :: rest) = (decodeUtf8 rest).map (Char.ofNat a.toNat :: ·) := by
  rw [decodeUtf8.eq_def]
  simp only [ha, if_true]

/-- A lead byte `C2`–`DF` and a continuation byte form one character. -/
theorem decodeUtf8_two {a b : UInt8} (rest : List UInt8) (ha : 0xC2 ≤ a.toNat ∧ a.toNat ≤ 0xDF)
    (hb : isContinuation b = true) :
    decodeUtf8 (a :: b :: rest) =
      (decodeUtf8 rest).map (Char.ofNat ((a.toNat % 32) * 64 + b.toNat % 64) :: ·) := by
  rw [decodeUtf8.eq_def]
  simp only [show ¬ a.toNat < 0x80 by omega, if_false, ha, decide_true, Bool.and_true, hb,
    if_true]

/-- A lead byte `E0`–`EF`, a second byte it allows and a continuation byte form one
character. -/
theorem decodeUtf8_three {a b c : UInt8} (rest : List UInt8)
    (ha : 0xE0 ≤ a.toNat ∧ a.toNat ≤ 0xEF) (hb : secondByteFits a.toNat b = true)
    (hc : isContinuation c = true) :
    decodeUtf8 (a :: b :: c :: rest) =
      (decodeUtf8 rest).map
        (Char.ofNat ((a.toNat % 16) * 4096 + (b.toNat % 64) * 64 + c.toNat % 64) :: ·) := by
  rw [decodeUtf8.eq_def]
  have h1 : ¬ a.toNat < 0x80 := by omega
  have h2 : (decide (0xC2 ≤ a.toNat) && decide (a.toNat ≤ 0xDF)) = false := by simp; omega
  simp only [h1, if_false, h2, Bool.false_eq_true, ha, decide_true, Bool.and_true, hb, hc,
    if_true]

/-- A lead byte `F0`–`F4`, a second byte it allows and two continuation bytes form one
character. -/
theorem decodeUtf8_four {a b c d : UInt8} (rest : List UInt8)
    (ha : 0xF0 ≤ a.toNat ∧ a.toNat ≤ 0xF4) (hb : secondByteFits a.toNat b = true)
    (hc : isContinuation c = true) (hd : isContinuation d = true) :
    decodeUtf8 (a :: b :: c :: d :: rest) =
      (decodeUtf8 rest).map (Char.ofNat ((a.toNat % 8) * 262144 + (b.toNat % 64) * 4096 +
        (c.toNat % 64) * 64 + d.toNat % 64) :: ·) := by
  rw [decodeUtf8.eq_def]
  have h1 : ¬ a.toNat < 0x80 := by omega
  have h2 : (decide (0xC2 ≤ a.toNat) && decide (a.toNat ≤ 0xDF)) = false := by simp; omega
  have h3 : (decide (0xE0 ≤ a.toNat) && decide (a.toNat ≤ 0xEF)) = false := by simp; omega
  simp only [h1, if_false, h2, h3, Bool.false_eq_true, ha, decide_true, Bool.and_true, hb, hc,
    hd, if_true]

/-! ## One character -/

/-- A number equal to a character's code point names that character. -/
theorem ofNat_eq_of_toNat (c : Char) {n : Nat} (h : n = c.toNat) : Char.ofNat n = c := by
  subst h
  exact Char.ofNat_toNat c

/-- The second byte of a three-byte encoding fits its lead byte: after `E0` the code point
is at least U+0800, and after `ED` it stays below the surrogates. -/
theorem secondByteFits_three {v : Nat} (hlo : 2048 ≤ v) (hhi : v < 65536)
    (hs : v < 0xD800 ∨ 0xDFFF < v) :
    secondByteFits (v / 4096 % 16 + 224) (UInt8.ofNat (v / 64 % 64 + 128)) = true := by
  simp only [secondByteFits, secondByteRange, UInt8.toNat_ofNat', beq_iff_eq]
  repeat' split
  all_goals simp only [Bool.and_eq_true, decide_eq_true_eq]; omega

/-- The second byte of a four-byte encoding fits its lead byte: after `F0` the code point is
at least U+10000, and after `F4` it stays below U+110000. -/
theorem secondByteFits_four {v : Nat} (hlo : 65536 ≤ v) (hhi : v < 0x110000) :
    secondByteFits (v / 262144 % 8 + 240) (UInt8.ofNat (v / 4096 % 64 + 128)) = true := by
  simp only [secondByteFits, secondByteRange, UInt8.toNat_ofNat', beq_iff_eq]
  repeat' split
  all_goals simp only [Bool.and_eq_true, decide_eq_true_eq]; omega

/-- The UTF-8 form of a character decodes to that character, whatever follows it. -/
theorem decodeUtf8_utf8EncodeChar_append (c : Char) (rest : List UInt8) :
    decodeUtf8 (String.utf8EncodeChar c ++ rest) = (decodeUtf8 rest).map (c :: ·) := by
  have hv : c.toNat < 0xd800 ∨ (0xdfff < c.toNat ∧ c.toNat < 0x110000) := c.valid
  have hval : c.val.toNat = c.toNat := rfl
  simp only [String.utf8EncodeChar, hval]
  -- the encoding's length is chosen by the same bounds the reader's lead bytes encode
  by_cases h1 : c.toNat ≤ 127
  · rw [if_pos h1, List.cons_append, List.nil_append, decodeUtf8_one _ (by simp; omega),
      ofNat_eq_of_toNat c (by simp; omega)]
  rw [if_neg h1]
  by_cases h2 : c.toNat ≤ 2047
  · rw [if_pos h2, List.cons_append, List.cons_append, List.nil_append,
      decodeUtf8_two _ (by simp; omega) (by simp [isContinuation]; omega),
      ofNat_eq_of_toNat c (by simp; omega)]
  rw [if_neg h2]
  by_cases h3 : c.toNat ≤ 65535
  · have hlead : (UInt8.ofNat (c.toNat / 4096 % 16 + 224)).toNat = c.toNat / 4096 % 16 + 224 := by
      simp; omega
    rw [if_pos h3, List.cons_append, List.cons_append, List.cons_append, List.nil_append,
      decodeUtf8_three _ (by omega)
        (by rw [hlead]; exact secondByteFits_three (by omega) (by omega) (by omega))
        (by simp [isContinuation]; omega),
      ofNat_eq_of_toNat c (by simp; omega)]
  have hlead : (UInt8.ofNat (c.toNat / 262144 % 8 + 240)).toNat = c.toNat / 262144 % 8 + 240 := by
    simp; omega
  rw [if_neg h3, List.cons_append, List.cons_append, List.cons_append, List.cons_append,
    List.nil_append, decodeUtf8_four _ (by omega)
      (by rw [hlead]; exact secondByteFits_four (by omega) (by omega))
      (by simp [isContinuation]; omega) (by simp [isContinuation]; omega),
    ofNat_eq_of_toNat c (by simp; omega)]

/-! ## Whole texts -/

/-- The UTF-8 form of a list of characters decodes to that list, whatever follows it. -/
theorem decodeUtf8_flatMap_append (cs : List Char) (rest : List UInt8) :
    decodeUtf8 (cs.flatMap String.utf8EncodeChar ++ rest) = (decodeUtf8 rest).map (cs ++ ·) := by
  induction cs with
  | nil => simp
  | cons c cs ih =>
    rw [List.flatMap_cons, List.append_assoc, decodeUtf8_utf8EncodeChar_append, ih,
      Option.map_map]
    rfl

/-- **Round trip.** The UTF-8 form of a list of characters decodes to that list. -/
theorem decodeUtf8_flatMap (cs : List Char) :
    decodeUtf8 (cs.flatMap String.utf8EncodeChar) = some cs := by
  simpa [decodeUtf8.eq_1] using decodeUtf8_flatMap_append cs []

/-- Reading a byte array into a list, from position `i` with the bytes read so far in `r`,
ends with the bytes from `i` on after those. -/
theorem toList_loop_eq (bs : ByteArray) (i : Nat) (r : List UInt8) :
    ByteArray.toList.loop bs i r = r.reverse ++ bs.data.toList.drop i := by
  fun_induction ByteArray.toList.loop bs i r with
  | case1 i r hi ih =>
    have hlen : i < bs.data.toList.length := by simpa using hi
    have hd : bs.data.toList.drop i = bs.data.toList[i] :: bs.data.toList.drop (i + 1) :=
      List.drop_eq_getElem_cons hlen
    have hget : bs.get! i = bs.data.toList[i] := by
      show bs.data[i]! = _
      simp [getElem!_pos bs.data i (by simpa using hi)]
    rw [ih, hd, hget, List.reverse_cons, List.append_assoc, List.singleton_append]
  | case2 i r hi =>
    rw [List.drop_of_length_le (by simp; omega), List.append_nil]

/-! ## The bytes of a text -/

/-- The UTF-8 bytes of a text, as a list: the forms of its characters, one after another. -/
def utf8Bytes (s : String) : List UInt8 := s.toList.flatMap String.utf8EncodeChar

@[simp] theorem utf8Bytes_append (s t : String) :
    utf8Bytes (s ++ t) = utf8Bytes s ++ utf8Bytes t := by
  simp [utf8Bytes, String.toList_append]

@[simp] theorem utf8Bytes_ofList (cs : List Char) :
    utf8Bytes (String.ofList cs) = cs.flatMap String.utf8EncodeChar := by
  simp [utf8Bytes]

/-- The bytes of a string, read into a list, are its UTF-8 bytes. -/
theorem toUTF8_toList (s : String) : s.toUTF8.toList = utf8Bytes s := by
  have hbytes : s.toUTF8.toList = s.toUTF8.data.toList := by
    simp [ByteArray.toList, toList_loop_eq]
  rw [hbytes, String.toUTF8_eq_toByteArray, ← String.utf8Encode_toList, List.utf8Encode,
    List.toList_data_toByteArray, utf8Bytes]

end AccessReview.Text
