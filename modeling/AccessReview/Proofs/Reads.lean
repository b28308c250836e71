import AccessReview.Json.Scan

/-! # What a reader takes

    `Reads r pre a F` says that the reader `r`, run on any input that starts with the bytes
    `pre` followed by a rest that satisfies `F`, succeeds with `a` and stops right after `pre`,
    the offset counted on by the length of `pre`. The condition on the rest is what the reader
    looks at beyond its own bytes: a skip of white space looks at the byte after it, a string
    or a record looks at nothing.

    Readers are built with `bind`, so the judgement is too (`Reads.bind`): the bytes of a
    sequence are the bytes of its parts, and the first part's condition on its rest must
    follow from the second part's bytes and condition. The rest of the file gives the
    judgement of each primitive the format readers are built from: taking and peeking at a
    byte, skipping white space, literals, scans, and the wrappers that place faults and close
    records.
-/

namespace AccessReview.Json

/-- The reader `r` takes exactly `pre` from an input whose rest satisfies `follows`, and
yields `a`. -/
def Reads {α : Type} (r : Reader α) (pre : List UInt8) (a : α) (follows : List UInt8 → Prop) :
    Prop :=
  ∀ offset rest, follows rest →
    r.run.run ⟨offset, pre ++ rest⟩ = (.ok a, ⟨offset + pre.length, rest⟩)

namespace Reads

variable {α β : Type} {r : Reader α} {pre : List UInt8} {a : α} {F G : List UInt8 → Prop}

/-- A value returned outright takes nothing. -/
theorem of_pure (a : α) : Reads (pure a) [] a F := by
  intro offset rest _
  rfl

/-- A reader followed by another takes the bytes of the first, then those of the second. -/
theorem bind {x : Reader α} {f : α → Reader β} {p q : List UInt8} {b : β}
    (hx : Reads x p a F) (hf : Reads (f a) q b G) (hG : ∀ rest, G rest → F (q ++ rest))
    (hpre : p ++ q = pre) :
    Reads (x >>= f) pre b G := by
  subst hpre
  intro offset rest hr
  have h1 := hx offset (q ++ rest) (hG rest hr)
  have h2 := hf (offset + p.length) rest hr
  simp only [ExceptT.run_bind, StateT.run_bind, List.append_assoc, h1]
  change StateT.run (ExceptT.run (f a)) _ = _
  rw [h2, List.length_append, Nat.add_assoc]

/-- A function applied to what a reader yields: the same bytes are read. -/
theorem map {f : α → β} (h : Reads r pre a F) : Reads (f <$> r) pre (f a) F := by
  rw [map_eq_pure_bind]
  exact bind h (of_pure (f a)) (fun rest hr => by simpa using hr) (List.append_nil pre)

/-- A stronger condition on the rest keeps the judgement. -/
theorem mono (h : Reads r pre a F) (hGF : ∀ rest, G rest → F rest) : Reads r pre a G :=
  fun offset rest hr => h offset rest (hGF rest hr)

/-- A reader whose bound depends on the bytes ahead (a fuel of one more than their number)
reads as it does with every bound above `n`, once `pre` has at least `n` bytes. -/
theorem withFuel {g : Nat → Reader α} {n : Nat} (hn : n ≤ pre.length)
    (h : ∀ fuel, n < fuel → Reads (g fuel) pre a F) :
    Reads (do g ((← get).rest.length + 1)) pre a F := by
  intro offset rest hr
  have hlt : n < (pre ++ rest).length + 1 := by
    rw [List.length_append]
    omega
  exact h _ hlt offset rest hr

end Reads

/-! ## Bytes one at a time -/

/-- Taking a byte takes it, whatever follows. -/
theorem bump_reads (b : UInt8) : Reads bump [b] () (fun _ => True) := by
  intro offset rest _
  rfl

/-- Peeking sees the byte ahead and takes nothing. -/
theorem peek_reads (b : UInt8) : Reads peek [] (some b) (fun rest => rest.head? = some b) := by
  intro offset rest hr
  show (Except.ok rest.head?, _) = _
  rw [hr]
  rfl

/-- Skipping white space, in one step: the run of blanks ahead is taken and the byte after
it is seen. -/
theorem skipBlank_run (c : Cursor) :
    skipBlank.run.run c = (.ok (c.rest.drop (c.rest.takeWhile isBlank).length).head?,
      c.advance (c.rest.takeWhile isBlank).length) := rfl

/-- Before a byte that is not white space, skipping white space takes nothing and sees it. -/
theorem skipBlank_reads (b : UInt8) (hb : isBlank b = false) :
    Reads skipBlank [] (some b) (fun rest => rest.head? = some b) := by
  intro offset rest hr
  obtain ⟨tail, rfl⟩ : ∃ tail, rest = b :: tail := by
    cases rest with
    | nil => simp at hr
    | cons x tail => simp at hr; exact ⟨tail, by rw [hr]⟩
  have ht : (b :: tail).takeWhile isBlank = [] := by simp [hb]
  rw [List.nil_append, skipBlank_run]
  simp only [ht, List.length_nil, List.drop_zero, List.head?_cons, Cursor.advance, Nat.zero_min]

/-- At the end of the input, skipping white space sees the end. -/
theorem skipBlank_reads_end : Reads skipBlank [] none (fun rest => rest = []) := by
  intro offset rest hr
  subst hr
  rfl

/-- Skipping white space before a byte `b` that is not white space: the reading goes on
with `b` seen. -/
theorem skipBlank_bind {β : Type} {f : Option UInt8 → Reader β} (b : UInt8)
    (hb : isBlank b = false) {q : List UInt8} {c : β} {G : List UInt8 → Prop}
    (hf : Reads (f (some b)) q c G) (hq : ∀ rest, G rest → (q ++ rest).head? = some b) :
    Reads (skipBlank >>= f) q c G :=
  Reads.bind (skipBlank_reads b hb) hf hq (List.nil_append q)

/-- A literal reads its own bytes. -/
theorem expectBytes_reads (bs : List UInt8) : Reads (expectBytes bs) bs () (fun _ => True) := by
  induction bs with
  | nil => exact Reads.of_pure ()
  | cons b bs ih =>
    rw [expectBytes]
    refine Reads.bind (peek_reads b) ?_ (fun rest _ => rfl) (List.nil_append _)
    refine Reads.bind (bump_reads b) ?_ (fun _ _ => trivial) rfl
    simpa using ih

/-! ## Scans -/

/-- Running a scan, in one step: the cursor moves by what the scan used, or to where it
broke. -/
theorem scan_run {α : Type} (s : List UInt8 → Scan α) (c : Cursor) :
    (scan s).run.run c = match s c.rest with
      | .took a used => (.ok a, c.advance used)
      | .broke g pos => (.error ⟨.grammar g, some (c.advance pos).offset⟩, c.advance pos) := by
  unfold scan
  show StateT.run (ExceptT.run (match s c.rest with
    | .took a used => do set (c.advance used); pure a
    | .broke g pos => do set (c.advance pos); fail g)) c = _
  split <;> rfl

/-- A scan that takes exactly `pre` from every admitted input reads `pre`. -/
theorem scan_reads {α : Type} {s : List UInt8 → Scan α} {pre : List UInt8} {a : α}
    {F : List UInt8 → Prop} (h : ∀ rest, F rest → s (pre ++ rest) = .took a pre.length) :
    Reads (scan s) pre a F := by
  intro offset rest hr
  rw [scan_run]
  simp only [h rest hr, Cursor.advance, List.length_append, List.drop_left]
  congr 3
  omega

/-! ## Wrappers -/

/-- Placing faults changes nothing on a reading that succeeds. -/
theorem placed_reads {α : Type} {r : Reader α} {pre : List UInt8} {a : α}
    {F : List UInt8 → Prop} (h : Reads r pre a F) : Reads (placed r) pre a F := by
  intro offset rest hr
  unfold placed
  simp only [tryCatch, MonadExcept.tryCatch, tryCatchThe, MonadExceptOf.tryCatch,
    ExceptT.tryCatch, ExceptT.run_mk, StateT.run_bind]
  rw [show StateT.run r ⟨offset, pre ++ rest⟩ = _ from h offset rest hr]
  rfl

/-- Attempting a reading that succeeds yields its value as an outcome. -/
theorem attempt_reads {α : Type} {r : Reader α} {pre : List UInt8} {a : α}
    {F : List UInt8 → Prop} (h : Reads r pre a F) : Reads (attempt r) pre (.ok a) F := by
  intro offset rest hr
  show (Except.ok (r.run.run _).1, (r.run.run _).2) = _
  rw [h offset rest hr]

/-- A body and its closing, both read, yield the body's value. -/
theorem thenClose_reads {α : Type} {body : Reader α} {close : Reader Unit} {p q : List UInt8}
    {a : α} {F G : List UInt8 → Prop} (hb : Reads body p a F) (hc : Reads close q () G)
    (hG : ∀ rest, G rest → F (q ++ rest)) : Reads (thenClose body close) (p ++ q) a G := by
  unfold thenClose
  refine Reads.bind (attempt_reads hb) ?_ hG rfl
  refine Reads.bind (attempt_reads hc) ?_ (fun _ h => by simpa using h) (List.append_nil q)
  exact Reads.of_pure a

end AccessReview.Json
