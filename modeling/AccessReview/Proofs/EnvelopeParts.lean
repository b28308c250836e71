import AccessReview.Proofs.WrittenString
import AccessReview.Proofs.RoleKeyText

/-! # Reading back the parts of an envelope

    The envelope reader is built from small readers: member keys and colons of objects,
    elements and commas of arrays, and the values an envelope holds (its version, an entry's
    kind, role keys and cursors). This file gives each of them its `Reads` judgement on the
    bytes the writer produces, with nothing but the next byte assumed of what follows.

    Arrays are the one place with a loop: `elementsWithin` reads elements until the closing
    bracket, with a fuel of one more than the bytes ahead. Each element takes at least one
    byte, so the fuel outlasts the elements (`length_le_commaSeparated`), and the loop is
    read by induction on the elements (`elementsWithin_rest_reads`).
-/

namespace AccessReview.Json

/-! ## Objects -/

/-- A colon, not preceded by white space, is taken. -/
theorem objectColon_reads : Reads objectColon [0x3A] () (fun _ => True) := by
  unfold objectColon
  refine skipBlank_bind 0x3A rfl ?_ (fun rest _ => rfl)
  simp only [beq_self_eq_true, if_true]
  exact bump_reads 0x3A

/-- Before the first member, an opening quote starts a key. -/
theorem hasNextKey_first_reads :
    Reads (hasNextKey true) [] true (fun rest => rest.head? = some 0x22) := by
  unfold hasNextKey
  refine skipBlank_bind 0x22 rfl ?_ (fun rest h => h)
  simp only [↓reduceIte, Bool.not_true, BEq.rfl]
  exact Reads.of_pure true

/-- After a member, a comma and an opening quote start the next key. -/
theorem hasNextKey_next_reads :
    Reads (hasNextKey false) [0x2C] true (fun rest => rest.head? = some 0x22) := by
  unfold hasNextKey
  refine skipBlank_bind 0x2C rfl ?_ (fun rest h => rfl)
  simp only [↓reduceIte, BEq.rfl, Bool.not_false, Bool.and_self]
  refine Reads.bind (bump_reads 0x2C) ?_ (fun _ _ => trivial) rfl
  refine skipBlank_bind 0x22 rfl ?_ (fun rest h => h)
  simp only
  exact Reads.of_pure true

/-- A closing brace ends the members. -/
theorem hasNextKey_end_reads (first : Bool) :
    Reads (hasNextKey first) [] false (fun rest => rest.head? = some 0x7D) := by
  unfold hasNextKey
  refine skipBlank_bind 0x7D rfl ?_ (fun rest h => h)
  simp only [BEq.rfl, ↓reduceIte]
  exact Reads.of_pure false

/-- A key, once `hasNextKey` has seen its opening quote after `p`. -/
theorem nextKey_reads {first : Bool} {p : List UInt8}
    (h : Reads (hasNextKey first) p true (fun rest => rest.head? = some 0x22)) (k : String) :
    Reads (nextKey first) (p ++ Text.utf8Bytes (writeString k)) (some k) (fun _ => True) := by
  unfold nextKey
  rw [utf8Bytes_writeString]
  refine Reads.bind h ?_ (fun rest _ => rfl) rfl
  simp only [↓reduceIte]
  refine Reads.bind (bump_reads 0x22) ?_ (fun _ _ => trivial) rfl
  refine Reads.bind (readStringBody_reads k) ?_ (fun _ _ => trivial) (List.append_nil _)
  exact Reads.of_pure (some k)

/-- The key of the first member of an object. -/
theorem nextKey_first_reads (k : String) :
    Reads (nextKey true) (Text.utf8Bytes (writeString k)) (some k) (fun _ => True) := by
  have h := nextKey_reads hasNextKey_first_reads k
  rwa [List.nil_append] at h

/-- The key of a later member, after its comma. -/
theorem nextKey_next_reads (k : String) :
    Reads (nextKey false) (0x2C :: Text.utf8Bytes (writeString k)) (some k) (fun _ => True) := by
  have h := nextKey_reads hasNextKey_next_reads k
  rwa [List.singleton_append] at h

/-- No key follows at the closing brace. -/
theorem nextKey_end_reads (first : Bool) :
    Reads (nextKey first) [] none (fun rest => rest.head? = some 0x7D) := by
  unfold nextKey
  refine Reads.bind (hasNextKey_end_reads first) ?_ (fun rest h => ?_) rfl
  · simp only [Bool.false_eq_true, ↓reduceIte]
    exact Reads.of_pure none
  · exact h

/-! ## Arrays -/

/-- Before the first element, a byte other than the closing bracket starts it. -/
theorem hasNextElement_first_reads {o : UInt8} (ho : isBlank o = false) (hno : o ≠ 0x5D) :
    Reads (hasNextElement true) [] true (fun rest => rest.head? = some o) := by
  unfold hasNextElement
  refine skipBlank_bind o ho ?_ (fun rest h => h)
  simp only [beq_iff_eq, hno, ↓reduceIte]
  exact Reads.of_pure true

/-- After an element, a comma and a byte other than the closing bracket start the next. -/
theorem hasNextElement_next_reads {o : UInt8} (ho : isBlank o = false) (hno : o ≠ 0x5D) :
    Reads (hasNextElement false) [0x2C] true (fun rest => rest.head? = some o) := by
  unfold hasNextElement
  refine skipBlank_bind 0x2C rfl ?_ (fun rest h => rfl)
  simp only [↓reduceIte, Bool.false_eq_true, BEq.rfl]
  refine Reads.bind (bump_reads 0x2C) ?_ (fun _ _ => trivial) rfl
  refine skipBlank_bind o ho ?_ (fun rest h => h)
  simp only [beq_iff_eq, hno, ↓reduceIte]
  exact Reads.of_pure true

/-- A closing bracket ends the elements. -/
theorem hasNextElement_end_reads (first : Bool) :
    Reads (hasNextElement first) [] false (fun rest => rest.head? = some 0x5D) := by
  unfold hasNextElement
  refine skipBlank_bind 0x5D rfl ?_ (fun rest h => h)
  simp only [BEq.rfl, ↓reduceIte]
  exact Reads.of_pure false

/-- An element, once `hasNextElement` has seen its first byte after `p`. -/
theorem nextElement_reads {α : Type} {r : Reader α} {first : Bool} {p q : List UInt8} {o : UInt8}
    {a : α} (h : Reads (hasNextElement first) p true (fun rest => rest.head? = some o))
    (hr : Reads r q a (fun _ => True)) (hq : q.head? = some o) :
    Reads (nextElement first r) (p ++ q) (some a) (fun _ => True) := by
  unfold nextElement
  refine Reads.bind h ?_ (fun rest _ => ?_) rfl
  · simp only [↓reduceIte]
    refine Reads.bind hr ?_ (fun _ _ => trivial) (List.append_nil q)
    exact Reads.of_pure (some a)
  · obtain ⟨tail, rfl⟩ : ∃ tail, q = o :: tail := by
      cases q with
      | nil => cases hq
      | cons x tail => exact ⟨tail, by rw [Option.some.inj hq]⟩
    rfl

/-- No element follows at the closing bracket. -/
theorem nextElement_end_reads {α : Type} (r : Reader α) (first : Bool) :
    Reads (nextElement first r) [] none (fun rest => rest.head? = some 0x5D) := by
  unfold nextElement
  refine Reads.bind (hasNextElement_end_reads first) ?_ (fun rest h => ?_) rfl
  · simp only [Bool.false_eq_true, ↓reduceIte]
    exact Reads.of_pure none
  · exact h

/-- The closing bracket of an array. -/
theorem endSeq_reads : Reads endSeq [0x5D] () (fun _ => True) := by
  unfold endSeq
  refine skipBlank_bind 0x5D rfl ?_ (fun rest _ => rfl)
  simp only [BEq.rfl, ↓reduceIte]
  exact bump_reads 0x5D

/-- The closing brace of an object. -/
theorem endMap_reads : Reads endMap [0x7D] () (fun _ => True) := by
  unfold endMap
  refine skipBlank_bind 0x7D rfl ?_ (fun rest _ => rfl)
  simp only [BEq.rfl, ↓reduceIte]
  exact bump_reads 0x7D


/-- The bytes of array elements, each written by `w`, with commas between them. -/
def commaSeparated {α : Type} (w : α → List UInt8) : List α → List UInt8
  | [] => []
  | x :: xs => w x ++ xs.flatMap fun y => 0x2C :: w y

/-- Texts joined by commas are the comma-separated bytes of the texts. -/
theorem utf8Bytes_intercalate {α : Type} (f : α → String) (xs : List α) :
    Text.utf8Bytes (",".intercalate (xs.map f)) = commaSeparated (fun x => Text.utf8Bytes (f x)) xs := by
  match xs with
  | [] => rfl
  | [x] => simp [commaSeparated]
  | x :: y :: ys =>
    rw [List.map_cons, List.map_cons, String.intercalate_cons_cons, Text.utf8Bytes_append,
      Text.utf8Bytes_append, ← List.map_cons, utf8Bytes_intercalate f (y :: ys)]
    simp [commaSeparated]
    rfl

/-- Each element takes a byte at least, so the elements are no more than their bytes. -/
theorem length_le_commaSeparated {α : Type} {w : α → List UInt8} {xs : List α}
    (hw : ∀ x ∈ xs, w x ≠ []) : xs.length ≤ (commaSeparated w xs).length := by
  cases xs with
  | nil => simp [commaSeparated]
  | cons x xs =>
    have hx : 0 < (w x).length := List.length_pos_of_ne_nil (hw x List.mem_cons_self)
    have hrest : ∀ ys : List α, ys.length ≤ (ys.flatMap fun y => 0x2C :: w y).length := by
      intro ys
      induction ys with
      | nil => simp
      | cons y ys ih => simp only [List.flatMap_cons, List.length_append, List.length_cons]; omega
    have := hrest xs
    simp only [commaSeparated, List.length_append, List.length_cons]
    omega

section Elements

variable {α : Type} {r : Reader α} {w : α → List UInt8} (o : UInt8)

/-- The elements after the first, each after its comma, up to the closing bracket. -/
theorem elementsWithin_rest_reads (ho : isBlank o = false) (hno : o ≠ 0x5D) {xs : List α}
    (hw : ∀ x ∈ xs, (w x).head? = some o) (hr : ∀ x ∈ xs, Reads r (w x) x (fun _ => True))
    {fuel : Nat} (hfuel : xs.length < fuel) :
    Reads (elementsWithin r false fuel) (xs.flatMap fun x => 0x2C :: w x) xs
      (fun rest => rest.head? = some 0x5D) := by
  induction xs generalizing fuel with
  | nil =>
    obtain ⟨fuel, rfl⟩ : ∃ f, fuel = f + 1 := ⟨fuel - 1, by simp at hfuel; omega⟩
    unfold elementsWithin
    refine Reads.bind (nextElement_end_reads r false) ?_ (fun rest h => ?_) rfl
    · exact Reads.of_pure []
    · exact h
  | cons x xs ih =>
    obtain ⟨fuel, rfl⟩ : ∃ f, fuel = f + 1 := ⟨fuel - 1, by simp at hfuel; omega⟩
    unfold elementsWithin
    have hx := nextElement_reads (hasNextElement_next_reads ho hno) (hr x List.mem_cons_self)
      (hw x List.mem_cons_self)
    have hxs := ih (fun y hy => hw y (List.mem_cons_of_mem x hy))
      (fun y hy => hr y (List.mem_cons_of_mem x hy)) (by simp at hfuel; omega)
    refine Reads.bind hx (Reads.bind hxs (Reads.of_pure (x :: xs)) (fun rest h => h)
      (List.append_nil _)) (fun _ _ => trivial) ?_
    simp

/-- All the elements of an array, up to its closing bracket. -/
theorem elementsWithin_reads (ho : isBlank o = false) (hno : o ≠ 0x5D) {xs : List α}
    (hw : ∀ x ∈ xs, (w x).head? = some o) (hr : ∀ x ∈ xs, Reads r (w x) x (fun _ => True))
    {fuel : Nat} (hfuel : xs.length < fuel) :
    Reads (elementsWithin r true fuel) (commaSeparated w xs) xs
      (fun rest => rest.head? = some 0x5D) := by
  obtain ⟨fuel, rfl⟩ : ∃ f, fuel = f + 1 := ⟨fuel - 1, by omega⟩
  cases xs with
  | nil =>
    unfold elementsWithin
    refine Reads.bind (nextElement_end_reads r true) ?_ (fun rest h => ?_) rfl
    · exact Reads.of_pure []
    · exact h
  | cons x xs =>
    unfold elementsWithin
    have hx := nextElement_reads (hasNextElement_first_reads ho hno) (hr x List.mem_cons_self)
      (hw x List.mem_cons_self)
    have hxs := elementsWithin_rest_reads o ho hno (fun y hy => hw y (List.mem_cons_of_mem x hy))
      (fun y hy => hr y (List.mem_cons_of_mem x hy)) (show xs.length < fuel by simp at hfuel; omega)
    refine Reads.bind hx (Reads.bind hxs (Reads.of_pure (x :: xs)) (fun rest h => h)
      (List.append_nil _)) (fun _ _ => trivial) ?_
    simp [commaSeparated]

/-- **Arrays.** An array of elements that each read back reads back whole. -/
theorem readSeq_reads (ho : isBlank o = false) (hno : o ≠ 0x5D) {xs : List α}
    (hw : ∀ x ∈ xs, (w x).head? = some o) (hr : ∀ x ∈ xs, Reads r (w x) x (fun _ => True)) :
    Reads (readSeq r) (0x5B :: (commaSeparated w xs ++ [0x5D])) xs (fun _ => True) := by
  have hne : ∀ x ∈ xs, w x ≠ [] := fun x hx he => by
    have hh := hw x hx
    rw [he] at hh
    cases hh
  unfold readSeq
  refine placed_reads ?_
  refine skipBlank_bind 0x5B rfl ?_ (fun rest _ => rfl)
  simp only [BEq.rfl, ↓reduceIte]
  refine Reads.bind (bump_reads 0x5B) ?_ (fun _ _ => trivial) rfl
  exact thenClose_reads (Reads.withFuel (length_le_commaSeparated hne)
    fun fuel hf => elementsWithin_reads o ho hno hw hr hf) endSeq_reads (fun rest _ => rfl)

end Elements

/-! ## Values -/

/-- The version `1`, followed by a comma, reads as `1`. -/
theorem readVersion_reads : Reads readVersion [0x31] 1 (fun rest => rest.head? = some 0x2C) := by
  have hnum : Reads (readNumber true) [0x31] (.unsigned 1) (fun rest => rest.head? = some 0x2C) := by
    refine scan_reads fun rest hr => ?_
    obtain ⟨tail, rfl⟩ : ∃ tail, rest = 0x2C :: tail := by
      cases rest with
      | nil => cases hr
      | cons b tail => exact ⟨tail, by rw [Option.some.inj hr]⟩
    simp [scanNumber, integerDigits, afterInteger, isDigit, isExponentMark, digitValue,
      integerNumber]
  unfold readVersion
  refine placed_reads ?_
  refine skipBlank_bind 0x31 rfl ?_ (fun rest _ => rfl)
  simp only [isDigit]
  refine Reads.bind hnum ?_ (fun rest h => ?_) (List.append_nil _)
  · simp only [versionOfNumber]
    exact Reads.of_pure 1
  · exact h

/-- A variant written as the string of its name reads back when its name does. -/
theorem readUnitVariant_reads {α : Type} {readName : Reader α} {n : String} {a : α}
    (h : Reads readName (Text.utf8Bytes (writeString n)) a (fun _ => True)) :
    Reads (readUnitVariant readName) (Text.utf8Bytes (writeString n)) a (fun _ => True) := by
  unfold readUnitVariant
  refine skipBlank_bind 0x22 rfl ?_ (fun rest _ => by rw [utf8Bytes_writeString]; rfl)
  simp only
  exact h

/-- The kind of an entry, written as the string of its name, reads back. -/
theorem readKind_reads : Reads readKind (Text.utf8Bytes (writeString "role")) () (fun _ => True) :=
  readUnitVariant_reads (readStringWith_reads _ rfl)

/-- A valid role key, written as the string of its text, reads back. -/
theorem readRoleKey_reads {k : RoleKey} (hk : k.Valid) :
    Reads readRoleKey (Text.utf8Bytes (writeString k.display)) k (fun _ => True) := by
  unfold readRoleKey
  refine Reads.bind (readText_reads k.display) ?_ (fun _ _ => trivial) (List.append_nil _)
  simp only [RoleKey.parse_display hk]
  exact Reads.of_pure k

/-- The text of a cursor: `null`, or the written string. -/
def cursorText : Option String → String
  | none => "null"
  | some c => writeString c

/-- A cursor reads back from its text. -/
theorem readCursor_reads (c : Option String) :
    Reads readCursor (Text.utf8Bytes (cursorText c)) c (fun _ => True) := by
  unfold readCursor
  cases c with
  | none =>
    refine skipBlank_bind 0x6E rfl ?_ (fun rest _ => rfl)
    simp only
    refine Reads.bind (bump_reads 0x6E) ?_ (fun _ _ => trivial) rfl
    exact Reads.bind (expectBytes_reads _) (Reads.of_pure none) (fun _ _ => trivial) rfl
  | some s =>
    refine skipBlank_bind 0x22 rfl ?_ (fun rest _ => ?_)
    · simp only
      exact Reads.map (readText_reads s)
    · rw [cursorText, utf8Bytes_writeString]
      rfl

end AccessReview.Json
