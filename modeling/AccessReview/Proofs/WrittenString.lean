import AccessReview.Proofs.Reads
import AccessReview.Proofs.Utf8
import AccessReview.Json.Written
import AccessReview.Token.Envelope

/-! # Reading back written strings

    A text written as a JSON string reads back as that text: `readText` takes exactly the bytes
    of `writeString s` and yields `s`, whatever follows (`readText_reads`).

    The body of a string is scanned byte by byte, and the writer works character by
    character, so the proof goes one written character at a time
    (`scanStringBody_writtenChar`). A character is written in one of three ways, and each
    is scanned back to the character's UTF-8 bytes: a one-letter escape (`\n`, `\"`, ...),
    a `\u00XX` escape for the other controls, or its own UTF-8 bytes, none of which is a
    quote, a backslash or a control. Decoding the scanned bytes as UTF-8 then gives the text
    back (`Text.decodeUtf8_flatMap`).
-/

namespace AccessReview.Json

/-! ## Bytes that stand for themselves -/

/-- A byte that a string body holds as it stands: not a quote, not a backslash, not a control. -/
def IsPlain (b : UInt8) : Prop := b.toNat ≠ 0x22 ∧ b.toNat ≠ 0x5C ∧ 0x20 ≤ b.toNat

/-- A plain byte is taken into the string as it stands. -/
theorem scanStringBody_plain {b : UInt8} (hb : IsPlain b) {tail : List UInt8} {v : List UInt8}
    {u : Nat} (ht : scanStringBody tail = .took v u) :
    scanStringBody (b :: tail) = .took (b :: v) (u + 1) := by
  obtain ⟨h1, h2, h3⟩ := hb
  have h1' : b ≠ 0x22 := fun h => h1 (by simp [h])
  have h2' : b ≠ 0x5C := fun h => h2 (by simp [h])
  have h3' : ¬ b < 0x20 := by rw [UInt8.lt_iff_toNat_lt]; simp; omega
  rw [scanStringBody.eq_def]
  simp [h1', h2', h3', ht, Scan.prepend, Scan.map, Scan.shift]
  omega

/-- A run of plain bytes is taken into the string as it stands. -/
theorem scanStringBody_plains {bs : List UInt8} (hbs : ∀ b ∈ bs, IsPlain b) {tail v : List UInt8}
    {u : Nat} (ht : scanStringBody tail = .took v u) :
    scanStringBody (bs ++ tail) = .took (bs ++ v) (u + bs.length) := by
  induction bs with
  | nil => simpa using ht
  | cons b bs ih =>
    rw [List.cons_append, scanStringBody_plain (hbs b List.mem_cons_self)
      (ih fun x hx => hbs x (List.mem_cons_of_mem b hx))]
    simp only [List.cons_append, List.length_cons]
    congr 1

/-- Every byte of the UTF-8 form of a character that is no quote, no backslash and no control
is plain. -/
theorem isPlain_of_utf8 {c : Char} (h1 : c ≠ '"') (h2 : c ≠ '\\') (h3 : 0x20 ≤ c.toNat) :
    ∀ b ∈ String.utf8EncodeChar c, IsPlain b := by
  have hv : c.toNat < 0xd800 ∨ (0xdfff < c.toNat ∧ c.toNat < 0x110000) := c.valid
  have hval : c.val.toNat = c.toNat := rfl
  have hq : c.toNat ≠ 0x22 := fun h => h1 (Text.ofNat_eq_of_toNat c h.symm).symm
  have hs : c.toNat ≠ 0x5C := fun h => h2 (Text.ofNat_eq_of_toNat c h.symm).symm
  intro b hb
  simp only [String.utf8EncodeChar, hval] at hb
  -- a byte below `80` is the character itself; every other byte of an encoding is `80` or more
  by_cases r1 : c.toNat ≤ 127
  · rw [if_pos r1, List.mem_singleton] at hb
    subst hb
    simp only [IsPlain, UInt8.toNat_ofNat']
    omega
  rw [if_neg r1] at hb
  by_cases r2 : c.toNat ≤ 2047
  · rw [if_pos r2] at hb
    simp only [List.mem_cons, List.not_mem_nil, or_false] at hb
    rcases hb with rfl | rfl <;> simp only [IsPlain, UInt8.toNat_ofNat'] <;> omega
  rw [if_neg r2] at hb
  by_cases r3 : c.toNat ≤ 65535
  · rw [if_pos r3] at hb
    simp only [List.mem_cons, List.not_mem_nil, or_false] at hb
    rcases hb with rfl | rfl | rfl <;> simp only [IsPlain, UInt8.toNat_ofNat'] <;> omega
  rw [if_neg r3] at hb
  simp only [List.mem_cons, List.not_mem_nil, or_false] at hb
  rcases hb with rfl | rfl | rfl | rfl <;> simp only [IsPlain, UInt8.toNat_ofNat'] <;> omega

/-! ## Escapes -/

/-- A one-letter escape stands for the byte it names. -/
theorem scanStringBody_escape (e x : UInt8) (h : simpleEscape e = some x) (tail : List UInt8) :
    scanStringBody (0x5C :: e :: tail) = ((scanStringBody tail).prepend [x]).shift 2 := by
  rw [scanStringBody.eq_def]
  simp [h]

/-- A `\\u` escape of a code point below the surrogates stands for its UTF-8 bytes. -/
theorem scanStringBody_unicode {h1 h2 h3 h4 : UInt8} {n : Nat} (hq : hexQuad h1 h2 h3 h4 = some n)
    (hn : n < 0xD800) (tail : List UInt8) :
    scanStringBody (0x5C :: 0x75 :: h1 :: h2 :: h3 :: h4 :: tail) =
      ((scanStringBody tail).prepend (Text.encodeCodePoint n)).shift 6 := by
  rw [scanStringBody.eq_def]
  simp [hq, show ¬ 0xDC00 ≤ n by omega, show n < 0xD800 from hn, simpleEscape]

/-- The hexadecimal digits of a control character's escape read back as its code point. -/
theorem hexQuad_control : ∀ n, n < 0x20 →
    hexQuad 0x30 0x30 (UInt8.ofNat (hexDigit (n / 16)).toNat)
      (UInt8.ofNat (hexDigit (n % 16)).toNat) = some n := by
  decide

/-- A hexadecimal digit is a single byte. -/
theorem utf8EncodeChar_hexDigit : ∀ k, k < 16 →
    String.utf8EncodeChar (hexDigit k) = [UInt8.ofNat (hexDigit k).toNat] := by
  decide

/-- An ASCII character is a single byte. -/
theorem utf8EncodeChar_ascii {c : Char} (h : c.toNat < 0x80) :
    String.utf8EncodeChar c = [UInt8.ofNat c.toNat] := by
  have hval : c.val.toNat = c.toNat := rfl
  simp only [String.utf8EncodeChar, hval, if_pos (show c.toNat ≤ 127 by omega)]

/-- A character written as a backslash and the letter `l` scans back to the character. -/
theorem scanStringBody_named {c l : Char} {tail v : List UInt8} {u : Nat}
    (hesc : simpleEscape (UInt8.ofNat l.toNat) = some (UInt8.ofNat c.toNat))
    (hl : l.toNat < 0x80) (hc : c.toNat < 0x80) (ht : scanStringBody tail = .took v u) :
    scanStringBody (['\\', l].flatMap String.utf8EncodeChar ++ tail) =
      .took (String.utf8EncodeChar c ++ v) ((['\\', l].flatMap String.utf8EncodeChar).length + u) := by
  simp only [List.flatMap_cons, List.flatMap_nil, utf8EncodeChar_ascii hl, utf8EncodeChar_ascii hc,
    utf8EncodeChar_ascii (show '\\'.toNat < 0x80 by decide), List.append_nil, List.cons_append,
    List.nil_append]
  rw [show UInt8.ofNat '\\'.toNat = 0x5C from rfl, scanStringBody_escape _ _ hesc tail, ht]
  rfl

/-! ## Whole strings -/

/-- Each written character scans back to its UTF-8 bytes, whatever follows. -/
theorem scanStringBody_writtenChar (c : Char) {tail v : List UInt8} {u : Nat}
    (ht : scanStringBody tail = .took v u) :
    scanStringBody ((writtenChar c).flatMap String.utf8EncodeChar ++ tail) =
      .took (String.utf8EncodeChar c ++ v)
        (((writtenChar c).flatMap String.utf8EncodeChar).length + u) := by
  by_cases hnamed : c ∈ ['"', '\\', '\x08', '\x0c', '\n', '\r', '\t']
  · -- the seven characters written with a one-letter escape
    simp only [List.mem_cons, List.not_mem_nil, or_false] at hnamed
    rcases hnamed with rfl | rfl | rfl | rfl | rfl | rfl | rfl <;>
      exact scanStringBody_named (by decide) (by decide) (by decide) ht
  simp only [List.mem_cons, List.not_mem_nil, or_false, not_or] at hnamed
  obtain ⟨hq, hs, hb, hf, hn, hr, htab⟩ := hnamed
  have hrest : writtenChar c = if c.toNat < 0x20 then
      ['\\', 'u', '0', '0', hexDigit (c.toNat / 16), hexDigit (c.toNat % 16)] else [c] := by
    simp [writtenChar, hq, hs, hb, hf, hn, hr, htab]
  rw [hrest]
  by_cases hc : c.toNat < 0x20
  · -- any other control character is written as a \u escape of its code point
    rw [if_pos hc]
    have hd1 := utf8EncodeChar_hexDigit (c.toNat / 16) (by omega)
    have hd2 := utf8EncodeChar_hexDigit (c.toNat % 16) (by omega)
    simp only [List.flatMap_cons, List.flatMap_nil, hd1, hd2,
      utf8EncodeChar_ascii (show c.toNat < 0x80 by omega)]
    simp only [utf8EncodeChar_ascii (show '\\'.toNat < 0x80 by decide),
      utf8EncodeChar_ascii (show 'u'.toNat < 0x80 by decide),
      utf8EncodeChar_ascii (show '0'.toNat < 0x80 by decide), List.append_nil, List.cons_append,
      List.nil_append]
    rw [show UInt8.ofNat '\\'.toNat = 0x5C from rfl, show UInt8.ofNat 'u'.toNat = 0x75 from rfl,
      show UInt8.ofNat '0'.toNat = 0x30 from rfl,
      scanStringBody_unicode (hexQuad_control c.toNat hc) (by omega) tail, ht]
    simp only [Text.encodeCodePoint, if_pos (show c.toNat < 0x80 by omega)]
    rfl
  · rw [if_neg hc]
    simp only [List.flatMap_cons, List.flatMap_nil, List.append_nil]
    rw [scanStringBody_plains (isPlain_of_utf8 hq hs (by omega)) ht]
    congr 1
    omega

/-- A written body and its closing quote scan back to the UTF-8 bytes of the text. -/
theorem scanStringBody_written (cs : List Char) (rest : List UInt8) :
    scanStringBody ((cs.flatMap writtenChar).flatMap String.utf8EncodeChar ++ 0x22 :: rest) =
      .took (cs.flatMap String.utf8EncodeChar)
        (((cs.flatMap writtenChar).flatMap String.utf8EncodeChar).length + 1) := by
  induction cs with
  | nil =>
    show scanStringBody (0x22 :: rest) = .took [] 1
    rw [scanStringBody.eq_def]
    rfl
  | cons c cs ih =>
    rw [List.flatMap_cons, List.flatMap_append, List.append_assoc,
      scanStringBody_writtenChar c ih, List.flatMap_cons, List.length_append, Nat.add_assoc]

/-- Scanning a written string body gives the UTF-8 bytes of the text written. -/
theorem scan_written_reads (s : String) :
    Reads (scan scanStringBody)
      ((s.toList.flatMap writtenChar).flatMap String.utf8EncodeChar ++ [0x22])
      (s.toList.flatMap String.utf8EncodeChar) (fun _ => True) := by
  refine scan_reads fun rest _ => ?_
  rw [List.append_assoc, List.singleton_append, scanStringBody_written, List.length_append,
    List.length_singleton]

/-- The rest of a written string, after its opening quote, reads back as the text. -/
theorem readStringBody_reads (s : String) :
    Reads readStringBody ((s.toList.flatMap writtenChar).flatMap String.utf8EncodeChar ++ [0x22]) s
      (fun _ => True) := by
  unfold readStringBody
  refine Reads.bind (scan_written_reads s) ?_ (fun _ _ => trivial) (List.append_nil _)
  simp only [Text.decodeUtf8_flatMap, String.ofList_toList]
  exact Reads.of_pure s

/-- The bytes of a written string: a quote, the written characters, a quote. -/
theorem utf8Bytes_writeString (s : String) :
    Text.utf8Bytes (writeString s) =
      0x22 :: ((s.toList.flatMap writtenChar).flatMap String.utf8EncodeChar ++ [0x22]) := by
  simp [writeString, Text.utf8Bytes_ofList]
  rfl

/-- A written string is read whole, and handed to `visit`. -/
theorem readStringWith_reads {α : Type} (expected : String) {visit : String → Except Fault α}
    {s : String} {a : α} (h : visit s = .ok a) :
    Reads (readStringWith expected visit) (Text.utf8Bytes (writeString s)) a (fun _ => True) := by
  rw [utf8Bytes_writeString]
  unfold readStringWith
  refine placed_reads ?_
  refine Reads.bind (skipBlank_reads 0x22 rfl) ?_ (fun rest _ => rfl) (List.nil_append _)
  simp only [beq_self_eq_true, if_true]
  refine Reads.bind (bump_reads 0x22) ?_ (fun _ _ => trivial) rfl
  refine Reads.bind (readStringBody_reads s) ?_ (fun _ _ => trivial) (List.append_nil _)
  simp only [h]
  exact Reads.of_pure a

/-- **Round trip.** A written string reads back as its text, whatever follows it. -/
theorem readText_reads (s : String) :
    Reads readText (Text.utf8Bytes (writeString s)) s (fun _ => True) :=
  readStringWith_reads "a string" rfl

end AccessReview.Json
