import Mathlib
import AccessReview.RoleKey

/-! # Role keys as text

    A role key is written as its id, or as its database name, a colon and its id; reading
    splits at the last colon. Writing and reading are inverse on the keys a reading can
    produce (`RoleKey.parse_display`): database names as their check leaves them, and ids in
    the signed 64-bit range. Three facts carry it. An id's text is a minus sign and digits,
    so it holds no colon and the split finds the colon written before it; it holds no white
    space, so trimming leaves it alone; and a checked name is its own trimmed form, because
    trimming twice is trimming once.

    Visited keys are kept in the order of `RoleKey.compare`, each once. Inserting keys that
    already come in strictly increasing order appends them (`RoleKey.foldl_insertSorted`),
    so a sorted list of keys is rebuilt as it was.
-/

namespace AccessReview

namespace Text

/-! ## Decimal integers -/

/-- The decimal digits of a number read back as that number. -/
theorem digitsValue_toDigits (n : Nat) : digitsValue (Nat.toDigits 10 n) = some n := by
  have hne : (Nat.toDigits 10 n).isEmpty = false := by
    simp [Nat.toDigits_ne_nil]
  have hall : (Nat.toDigits 10 n).all Char.isDigit = true := by
    simpa using fun c hc => Nat.isDigit_of_mem_toDigits (by decide) (by decide) hc
  simp only [digitsValue, hne, hall, Bool.not_true, Bool.or_false, Bool.false_eq_true, if_false]
  have hval : Nat.ofDigitChars 10 (Nat.toDigits 10 n) 0 = n := Nat.ofDigitChars_ten_toDigits
  rw [Nat.ofDigitChars_eq_foldl] at hval
  exact congrArg some hval

/-- The first decimal digit of a number is a digit, so no sign. -/
theorem toDigits_head (n : Nat) : ∃ c cs, Nat.toDigits 10 n = c :: cs ∧ c.isDigit := by
  obtain ⟨c, cs, h⟩ := List.exists_cons_of_ne_nil (Nat.toDigits_ne_nil : Nat.toDigits 10 n ≠ [])
  exact ⟨c, cs, h, Nat.isDigit_of_mem_toDigits (by decide) (by decide) (h ▸ List.mem_cons_self)⟩

/-- An integer in the signed 64-bit range reads back from its decimal text. -/
theorem parseI64_toString {v : Int} (hlo : -2 ^ 63 ≤ v) (hhi : v < 2 ^ 63) :
    parseI64 (toString v).toList = some v := by
  rw [Int.toString_eq_repr, Int.repr_eq_if]
  by_cases hv : 0 ≤ v
  · rw [if_pos hv, Nat.toList_repr]
    obtain ⟨c, cs, hcs, hc⟩ := toDigits_head v.toNat
    have hminus : c ≠ '-' := by rintro rfl; simp at hc
    have hplus : c ≠ '+' := by rintro rfl; simp at hc
    have hval := digitsValue_toDigits v.toNat
    rw [hcs] at hval ⊢
    unfold parseI64
    split
    · next ds h => exact absurd (List.cons.inj h).1 hminus
    · next ds h => exact absurd (List.cons.inj h).1 hplus
    · rw [hval]
      simp only [Option.bind_some, Nat.pow_eq]
      rw [if_pos (by omega)]
      congr 1
      omega
  · rw [if_neg hv, String.toList_append, Nat.toList_repr]
    have hval := digitsValue_toDigits (-v).toNat
    show parseI64 ('-' :: Nat.toDigits 10 (-v).toNat) = some v
    simp only [parseI64, hval, Option.bind_some, Nat.pow_eq]
    rw [if_pos (by omega)]
    congr 1
    omega

/-- A decimal digit is not white space. -/
theorem isWhiteSpace_of_isDigit {c : Char} (hd : c.isDigit = true) : isWhiteSpace c = false := by
  have hn : 48 ≤ c.toNat ∧ c.toNat ≤ 57 := by
    simp only [Char.isDigit, Bool.and_eq_true, decide_eq_true_eq] at hd
    exact ⟨hd.1, hd.2⟩
  simp [isWhiteSpace]
  omega

/-- A number below `2 ^ 64` reads back from its decimal text. -/
theorem parseU64_toString {n : Nat} (h : n < 2 ^ 64) : parseU64 (toString n).toList = some n := by
  show parseU64 (Nat.repr n).toList = some n
  rw [Nat.toList_repr]
  obtain ⟨c, cs, hcs, hc⟩ := toDigits_head n
  have hplus : c ≠ '+' := by rintro rfl; simp at hc
  have hval := digitsValue_toDigits n
  rw [hcs] at hval ⊢
  unfold parseU64
  split
  · next ds h => exact absurd (List.cons.inj h).1 hplus
  · rw [hval]
    simp only [Option.bind_some, Nat.pow_eq]
    rw [if_pos h]

/-! ## Trimming -/

/-- A list with no white space is its own trimmed form. -/
theorem trimList_of_forall {cs : List Char} (h : ∀ c ∈ cs, isWhiteSpace c = false) :
    trimList cs = cs := by
  have hdrop : ∀ l : List Char, (∀ c ∈ l, isWhiteSpace c = false) → l.dropWhile isWhiteSpace = l := by
    intro l hl
    cases l with
    | nil => rfl
    | cons c l => simp [hl c List.mem_cons_self]
  unfold trimList
  rw [hdrop cs h, hdrop cs.reverse (by simpa using h), List.reverse_reverse]

/-- Trimming twice is trimming once. -/
theorem trimList_trimList (cs : List Char) : trimList (trimList cs) = trimList cs := by
  -- trimming drops from the front, then from the back; what is left starts with no blank,
  -- and so does every prefix of it, the back's dropping included
  have hfront : ∀ l : List Char, trimList l = (l.dropWhile isWhiteSpace).rdropWhile isWhiteSpace :=
    fun l => rfl
  set t := cs.dropWhile isWhiteSpace with ht
  have hkeep : (t.rdropWhile isWhiteSpace).dropWhile isWhiteSpace = t.rdropWhile isWhiteSpace := by
    rw [List.dropWhile_eq_self_iff]
    intro hl
    have hpre := List.rdropWhile_prefix isWhiteSpace t
    have hlt : 0 < t.length := Nat.lt_of_lt_of_le hl hpre.length_le
    rw [hpre.getElem hl]
    exact List.dropWhile_get_zero_not isWhiteSpace cs (by rw [← ht]; exact hlt)
  rw [hfront, hfront, ← ht, hkeep, List.rdropWhile_idempotent]

end Text

/-- Decimal text holds no white space, so trimming keeps it. -/
theorem Text.trimList_toString (n : Nat) : Text.trimList (toString n).toList = (toString n).toList := by
  refine Text.trimList_of_forall fun c hc => Text.isWhiteSpace_of_isDigit ?_
  rw [show toString n = Nat.repr n from rfl, Nat.toList_repr] at hc
  exact Nat.isDigit_of_mem_toDigits (by decide) (by decide) hc

/-! ## Principal ids -/

/-- A principal id within the signed 64-bit range. -/
def PrincipalId.InRange (p : PrincipalId) : Prop := -2 ^ 63 ≤ p.val ∧ p.val < 2 ^ 63

instance : DecidablePred PrincipalId.InRange :=
  fun p => inferInstanceAs (Decidable (-2 ^ 63 ≤ p.val ∧ p.val < 2 ^ 63))

/-- An id's text is a minus sign and digits. -/
theorem PrincipalId.mem_display {p : PrincipalId} {c : Char} (hc : c ∈ p.display.toList) :
    c = '-' ∨ c.isDigit := by
  simp only [PrincipalId.display, Int.toString_eq_repr, Int.repr_eq_if] at hc
  split at hc
  · rw [Nat.toList_repr] at hc
    exact .inr (Nat.isDigit_of_mem_toDigits (by decide) (by decide) hc)
  · simp only [String.toList_append, Nat.toList_repr, List.mem_append] at hc
    rcases hc with hc | hc
    · exact .inl (by simpa using hc)
    · exact .inr (Nat.isDigit_of_mem_toDigits (by decide) (by decide) hc)

/-- An id in range reads back from its text. -/
theorem PrincipalId.parse_display {p : PrincipalId} (h : p.InRange) :
    PrincipalId.parse p.display = .ok p := by
  have hblank : ∀ c ∈ p.display.toList, Text.isWhiteSpace c = false := by
    intro c hc
    rcases p.mem_display hc with rfl | hd
    · decide
    · exact Text.isWhiteSpace_of_isDigit hd
  unfold PrincipalId.parse
  rw [Text.trimList_of_forall hblank, PrincipalId.display, Text.parseI64_toString h.1 h.2]

/-- An id's text holds no colon. -/
theorem PrincipalId.colon_not_mem_display (p : PrincipalId) : ':' ∉ p.display.toList := by
  intro hc
  rcases p.mem_display hc with h | h
  · exact absurd h (by decide)
  · exact absurd h (by decide)

/-! ## Database names -/

/-- Checking a name looks only at its trimmed form. -/
theorem checkName_trim (kind : NameKind) (raw : String) :
    checkName kind (String.ofList (Text.trimList raw.toList)) = checkName kind raw := by
  unfold checkName
  rw [String.toList_ofList, Text.trimList_trimList]

/-- A name that passes its check is its trimmed form. -/
theorem checkName_eq_ok {kind : NameKind} {raw s : String} (h : checkName kind raw = .ok s) :
    s = String.ofList (Text.trimList raw.toList) := by
  simp only [checkName] at h
  split at h
  · cases h
  split at h
  · cases h
  split at h
  · cases h
  exact (Except.ok.inj h).symm

/-- A name that passes its check passes it again, unchanged. -/
theorem checkName_of_ok {kind : NameKind} {raw s : String} (h : checkName kind raw = .ok s) :
    checkName kind s = .ok s :=
  calc checkName kind s = checkName kind (String.ofList (Text.trimList raw.toList)) := by
        rw [← checkName_eq_ok h]
    _ = checkName kind raw := checkName_trim kind raw
    _ = .ok s := h

/-- A database name as checking leaves it: what `DatabaseName.parse` returns for some text. -/
def DatabaseName.Checked (d : DatabaseName) : Prop := ∃ raw, DatabaseName.parse raw = .ok d

/-- A checked database name passes its check again, unchanged. -/
theorem DatabaseName.parse_text {d : DatabaseName} (h : d.Checked) :
    DatabaseName.parse d.text = .ok d := by
  obtain ⟨raw, hraw⟩ := h
  obtain ⟨s, hs, rfl⟩ : ∃ s, checkName .database raw = .ok s ∧ DatabaseName.mk s = d := by
    unfold DatabaseName.parse at hraw
    cases hc : checkName .database raw with
    | error e => rw [hc] at hraw; cases hraw
    | ok s => rw [hc] at hraw; exact ⟨s, rfl, Except.ok.inj hraw⟩
  unfold DatabaseName.parse
  rw [checkName_of_ok hs]
  rfl

/-! ## Role keys -/

/-- Splitting at the last separator, when none stands after it. -/
theorem Text.splitLast_append {sep : Char} {before after : List Char} (h : sep ∉ after) :
    Text.splitLast sep (before ++ sep :: after) = some (before, after) := by
  have hall : ∀ c ∈ after.reverse, (c != sep) = true := by
    intro c hc
    have : c ≠ sep := fun e => h (e ▸ List.mem_reverse.mp hc)
    simpa using this
  unfold Text.splitLast
  rw [List.reverse_append, List.reverse_cons, List.append_assoc, List.singleton_append,
    List.span_eq_takeWhile_dropWhile, List.takeWhile_append_of_pos hall,
    List.dropWhile_append_of_pos hall]
  simp

/-- A text with no separator does not split. -/
theorem Text.splitLast_none {sep : Char} {cs : List Char} (h : sep ∉ cs) :
    Text.splitLast sep cs = none := by
  have hall : ∀ c ∈ cs.reverse, (c != sep) = true := by
    intro c hc
    have : c ≠ sep := fun e => h (e ▸ List.mem_reverse.mp hc)
    simpa using this
  unfold Text.splitLast
  rw [List.span_eq_takeWhile_dropWhile, List.dropWhile_eq_nil_iff.mpr hall]

/-- A role key whose parts are as reading leaves them: a checked database name, and an id in
the signed 64-bit range. -/
def RoleKey.Valid : RoleKey → Prop
  | .server r => r.InRange
  | .database d r => d.Checked ∧ r.InRange

/-- A valid role key reads back from its text. -/
theorem RoleKey.parse_display {k : RoleKey} (h : k.Valid) : RoleKey.parse k.display = .ok k := by
  cases k with
  | server r =>
    unfold RoleKey.parse
    simp only [RoleKey.display]
    rw [Text.splitLast_none r.colon_not_mem_display, PrincipalId.parse_display h]
    rfl
  | database d r =>
    obtain ⟨hd, hr⟩ := h
    have htext : (RoleKey.database d r).display.toList = d.text.toList ++ ':' :: r.display.toList := by
      simp [RoleKey.display]
    unfold RoleKey.parse
    rw [htext, Text.splitLast_append r.colon_not_mem_display]
    simp only [String.ofList_toList, DatabaseName.parse_text hd, PrincipalId.parse_display hr]
    rfl

/-! ## The order of role keys -/

/-- Comparing the other way round swaps the answer. -/
theorem RoleKey.compare_swap (a b : RoleKey) :
    RoleKey.compare a b = (RoleKey.compare b a).swap := by
  have hid : ∀ p q : PrincipalId, Ord.compare p q = (Ord.compare q p).swap := fun p q =>
    show Ord.compare p.val q.val = (Ord.compare q.val p.val).swap from Std.OrientedCmp.eq_swap
  have hname : ∀ d e : DatabaseName, Ord.compare d e = (Ord.compare e d).swap := fun d e =>
    show Ord.compare d.text e.text = (Ord.compare e.text d.text).swap from
      Std.OrientedCmp.eq_swap
  cases a with
  | server p =>
    cases b with
    | server q => exact hid p q
    | database e q => rfl
  | database d p =>
    cases b with
    | server q => rfl
    | database e q =>
      simp only [RoleKey.compare]
      rw [Ordering.swap_then, ← hname, ← hid]

/-- A key above every key of a list is inserted at its end. -/
theorem RoleKey.insertSorted_of_lt {k : RoleKey} {acc : List RoleKey}
    (h : ∀ a ∈ acc, RoleKey.compare a k = .lt) : k.insertSorted acc = acc ++ [k] := by
  induction acc with
  | nil => rfl
  | cons a acc ih =>
    have hgt : RoleKey.compare k a = .gt := by
      rw [RoleKey.compare_swap, h a List.mem_cons_self]
      rfl
    rw [RoleKey.insertSorted, hgt, ih fun x hx => h x (List.mem_cons_of_mem a hx)]
    rfl

/-- Inserting, one after another, keys that are already in strictly increasing order after
those of `acc` appends them. -/
theorem RoleKey.foldl_insertSorted {acc xs : List RoleKey}
    (h : (acc ++ xs).Pairwise (fun a b => RoleKey.compare a b = .lt)) :
    xs.foldl (fun s k => k.insertSorted s) acc = acc ++ xs := by
  induction xs generalizing acc with
  | nil => simp
  | cons x xs ih =>
    have hlt : ∀ a ∈ acc, RoleKey.compare a x = .lt := by
      intro a ha
      exact List.pairwise_append.mp h |>.2.2 a ha x List.mem_cons_self
    rw [List.foldl_cons, RoleKey.insertSorted_of_lt hlt, ih (by simpa using h),
      List.append_assoc, List.singleton_append]

end AccessReview
