import AccessReview.Codec.Base64
import AccessReview.Text.WhiteSpace

/-! # Reading back URL-safe base64

    Every byte string is read back from its written form: `decode (encode bytes) = some bytes`.
    Writing takes the bytes three at a time, so the proof follows `encodeList` group by group:
    each symbol of a group reads back as its six-bit value, and the values of a group rebuild
    the group's bytes. A last group of one or two bytes leaves its spare low bits zero, which
    is what the strict reader checks.

    The written form is also plain text: no symbol is white space, so trimming leaves it as
    it is, and only the empty byte string is written as the empty text.
-/

namespace AccessReview.Base64

/-! ## Symbols -/

/-- Every six-bit value reads back from its symbol. -/
theorem value?_symbol : ∀ v, v < 64 → value? (symbol v) = some v := by
  decide

/-- No symbol is white space. -/
theorem isWhiteSpace_symbol (v : Nat) : Text.isWhiteSpace (symbol v) = false := by
  by_cases hv : v < 64
  · have hall : ∀ v, v < 64 → Text.isWhiteSpace (symbol v) = false := by decide
    exact hall v hv
  · -- past the alphabet every value is written as its last symbol
    have h26 : ¬ v < 26 := by omega
    have h52 : ¬ v < 52 := by omega
    have h62 : ¬ v < 62 := by omega
    have h63 : (v == 62) = false := by simp; omega
    simp only [symbol, h26, h52, h62, h63, if_false, Bool.false_eq_true]
    decide

/-- A number equal to a byte modulo 256 converts to that byte. -/
theorem toUInt8_eq_of_toNat {n : Nat} {a : UInt8} (h : n % 256 = a.toNat) : n.toUInt8 = a := by
  apply UInt8.toNat_inj.mp
  simpa using h

/-! ## Groups -/

/-- The symbols written for a byte string read back as six-bit values that rebuild it. -/
theorem decodeValues_encodeList (bytes : List UInt8) :
    (encodeList bytes).mapM value? >>= decodeValues = some bytes := by
  fun_induction encodeList bytes with
  | case1 => rfl
  | case2 a x =>
    -- one byte: eight bits in two symbols, four spare bits
    have hx : x = a.toNat := rfl
    clear_value x
    have ha := a.toNat_lt
    rw [List.mapM_cons, List.mapM_cons, List.mapM_nil, value?_symbol _ (by omega),
      value?_symbol _ (by omega)]
    have hbits : x % 4 * 16 % 16 = 0 := by omega
    have ha' : (x / 4 * 4 + x % 4 * 16 / 16).toUInt8 = a := toUInt8_eq_of_toNat (by omega)
    show decodeValues [x / 4, x % 4 * 16] = some [a]
    simp only [decodeValues, hbits, ha', beq_self_eq_true, if_true]
  | case3 a b x =>
    -- two bytes: sixteen bits in three symbols, two spare bits
    have hx : x = a.toNat * 256 + b.toNat := rfl
    clear_value x
    have ha := a.toNat_lt
    have hb := b.toNat_lt
    rw [List.mapM_cons, List.mapM_cons, List.mapM_cons, List.mapM_nil,
      value?_symbol _ (by omega), value?_symbol _ (by omega), value?_symbol _ (by omega)]
    have hbits : x % 16 * 4 % 4 = 0 := by omega
    have hy : x / 1024 * 4096 + x / 16 % 64 * 64 + x % 16 * 4 = x * 4 := by omega
    have ha' : (x * 4 / 1024).toUInt8 = a := toUInt8_eq_of_toNat (by omega)
    have hb' : (x * 4 / 4 % 256).toUInt8 = b := toUInt8_eq_of_toNat (by omega)
    show decodeValues [x / 1024, x / 16 % 64, x % 16 * 4] = some [a, b]
    simp only [decodeValues, hbits, hy, ha', hb', beq_self_eq_true, if_true]
  | case4 a b c rest x ih =>
    -- a whole group: twenty-four bits in four symbols, then the rest of the bytes
    have hx : x = a.toNat * 65536 + b.toNat * 256 + c.toNat := rfl
    clear_value x
    have ha := a.toNat_lt
    have hb := b.toNat_lt
    have hc := c.toNat_lt
    obtain ⟨vs, hvs, hdec⟩ := Option.bind_eq_some_iff.mp ih
    rw [List.mapM_cons, List.mapM_cons, List.mapM_cons, List.mapM_cons, hvs,
      value?_symbol _ (by omega), value?_symbol _ (by omega), value?_symbol _ (by omega),
      value?_symbol _ (by omega)]
    have hy : x / 262144 * 262144 + x / 4096 % 64 * 4096 + x / 64 % 64 * 64 + x % 64 = x := by
      omega
    have ha' : (x / 65536).toUInt8 = a := toUInt8_eq_of_toNat (by omega)
    have hb' : (x / 256 % 256).toUInt8 = b := toUInt8_eq_of_toNat (by omega)
    have hc' : (x % 256).toUInt8 = c := toUInt8_eq_of_toNat (by omega)
    show decodeValues (x / 262144 :: x / 4096 % 64 :: x / 64 % 64 :: x % 64 :: vs) = _
    simp only [decodeValues, hy, ha', hb', hc', hdec, Option.map_some]

/-- **Round trip.** Every byte string is read back from its written form. -/
theorem decode_encode (bytes : List UInt8) : decode (encode bytes) = some bytes := by
  simp only [decode, encode, String.toList_ofList]
  exact decodeValues_encodeList bytes

/-! ## The written text -/

/-- Every character written is a symbol. -/
theorem mem_encodeList {bytes : List UInt8} {ch : Char} (h : ch ∈ encodeList bytes) :
    ∃ v, ch = symbol v := by
  fun_induction encodeList bytes with
  | case1 => simp at h
  | case2 a x => simp only [List.mem_cons, List.not_mem_nil, or_false] at h; grind
  | case3 a b x => simp only [List.mem_cons, List.not_mem_nil, or_false] at h; grind
  | case4 a b c rest x ih =>
    simp only [List.mem_cons] at h
    rcases h with h | h | h | h | h
    · exact ⟨_, h⟩
    · exact ⟨_, h⟩
    · exact ⟨_, h⟩
    · exact ⟨_, h⟩
    · exact ih h

/-- The written form holds no white space. -/
theorem encode_no_whiteSpace (bytes : List UInt8) :
    ∀ ch ∈ (encode bytes).toList, Text.isWhiteSpace ch = false := by
  intro ch hch
  rw [encode, String.toList_ofList] at hch
  obtain ⟨v, rfl⟩ := mem_encodeList hch
  exact isWhiteSpace_symbol v

/-- Only the empty byte string is written as the empty text. -/
theorem encode_ne_empty {bytes : List UInt8} (h : bytes ≠ []) : encode bytes ≠ "" := by
  intro he
  have hl : encodeList bytes = [] := by
    simpa [encode] using congrArg String.toList he
  match bytes, h, hl with
  | [_], _, hl => simp [encodeList] at hl
  | [_, _], _, hl => simp [encodeList] at hl
  | _ :: _ :: _ :: _, _, hl => simp [encodeList] at hl

end AccessReview.Base64
