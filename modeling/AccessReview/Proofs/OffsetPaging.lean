import Mathlib
import AccessReview.Proofs.Discovery

/-! # Offset paging

A listing is read one page at a time. The page at a cursor holds the rows from the cursor's
offset, as many as the page limit allows, and hands back the decimal offset of the row after
them when rows are left (`pageOf_eq_map`). A reader that starts from no cursor and follows each
page's next cursor (`pageChain`) reads the whole listing in consecutive slices of the limit's
size, all full but the last, one page at least (`Partitions`, `pageChain_partitions`).

Every cursor at all is refused as not naming an offset, or read as an offset below `2 ^ 64`;
the next offset is formed only when rows are left after the page, so it is below the length of
the listing (`pageOf_reads_listing`).
-/

namespace AccessReview

/-! ## One page -/

/-- An unsigned 64-bit integer read from text is below `2 ^ 64`. -/
theorem Text.parseU64_lt {cs : List Char} {n : Nat} (h : Text.parseU64 cs = some n) :
    n < 2 ^ 64 := by
  unfold Text.parseU64 at h
  split at h <;>
  · obtain ⟨v, -, hv⟩ := Option.bind_eq_some_iff.mp h
    split at hv
    · cases hv
      assumption
    · cases hv

/-- The offset a cursor names is below `2 ^ 64`. -/
theorem pageOffset_lt {cursor : Option String} {o : Nat} (h : pageOffset cursor = .ok o) :
    o < 2 ^ 64 := by
  unfold pageOffset at h
  split at h
  · cases h
    decide
  · cases h
    decide
  · split at h
    · cases h
      exact Text.parseU64_lt ‹_›
    · cases h

/-- A cursor is refused only as text that names no offset. -/
theorem pageOffset_error {cursor : Option String} {f : TokenFault}
    (h : pageOffset cursor = .error f) : ∃ raw, f = .pageOffset raw := by
  unfold pageOffset at h
  split at h
  · cases h
  · cases h
  · split at h
    · cases h
    · cases h
      exact ⟨_, rfl⟩

/-- A page of a listing: the rows from the cursor's offset, as many as the limit allows, with
the offset after them when rows are left; a cursor that names no offset is refused. -/
theorem pageOf_eq_map {α : Type} (rows : List α) (cursor : Option String) (size : Nat) :
    pageOf rows cursor size = (pageOffset cursor).map fun o =>
      ((rows.drop o).take (pageLimit size),
        if o + pageLimit size < rows.length then some (toString (o + pageLimit size))
        else none) := by
  unfold pageOf pageBounds
  cases pageOffset cursor with
  | error f => rfl
  | ok o =>
    show Except.ok (finishPage o (pageLimit size) ((rows.drop o).take (pageLimit size + 1))) = _
    rw [finishPage_drop]
    rfl

/-- The page at an offset below `2 ^ 64`, written as a cursor (the first page with none). -/
theorem pageOf_at {α : Type} (rows : List α) (o? : Option Nat) (ho : ∀ o ∈ o?, o < 2 ^ 64)
    (size : Nat) :
    pageOf rows (o?.map toString) size =
      .ok ((rows.drop (o?.getD 0)).take (pageLimit size),
        if o?.getD 0 + pageLimit size < rows.length then
          some (toString (o?.getD 0 + pageLimit size)) else none) := by
  rw [pageOf_eq_map, pageOffset_map_toString o? ho]
  rfl

/-! ## Following the pages -/

/-- The pages a reader gets from a listing by reading at a cursor and then at each page's next
cursor, for at most `calls` reads: it stops after the last page, or at a refused cursor. -/
def pageChain {α : Type} (rows : List α) (size : Nat) :
    Nat → Option String → Except TokenFault (List (List α × Option String))
  | 0, _ => .ok []
  | calls + 1, cursor => do
    let page ← pageOf rows cursor size
    match page.2 with
    | none => return [page]
    | some next => return page :: (← pageChain rows size calls (some next))

/-- One read at an offset: the page there and, when rows are left after it, the reads from
the offset after it. -/
theorem pageChain_succ {α : Type} (rows : List α) (size calls : Nat) (o? : Option Nat)
    (ho : ∀ o ∈ o?, o < 2 ^ 64) :
    pageChain rows size (calls + 1) (o?.map toString) =
      if o?.getD 0 + pageLimit size < rows.length then
        (pageChain rows size calls (some (toString (o?.getD 0 + pageLimit size)))).map
          (((rows.drop (o?.getD 0)).take (pageLimit size),
            some (toString (o?.getD 0 + pageLimit size))) :: ·)
      else .ok [((rows.drop (o?.getD 0)).take (pageLimit size), none)] := by
  rw [pageChain, pageOf_at rows o? ho]
  by_cases hmore : o?.getD 0 + pageLimit size < rows.length
  · rw [if_pos hmore, if_pos hmore]
    show (pageChain rows size calls _ >>= _) = _
    cases pageChain rows size calls (some (toString (o?.getD 0 + pageLimit size))) <;> rfl
  · rw [if_neg hmore, if_neg hmore]
    rfl

/-- Pages that read a listing from offset `o` in slices of `L` rows: one page for each `L`
rows left, one at least; the `k`-th holds the rows from `o + k * L`; every page but the last
is full and hands back the offset of the row after it; the last hands back none, and is empty
only when no row is left. -/
structure Partitions {α : Type} (rows : List α) (L o : Nat)
    (pages : List (List α × Option String)) : Prop where
  /-- One page for each `L` rows left, one at least. -/
  length : pages.length = pagesFor L (rows.length - o)
  /-- The pages hold the rows left, in order. -/
  flatten : (pages.map Prod.fst).flatten = rows.drop o
  /-- The `k`-th page holds the rows from `o + k * L`. -/
  slice : ∀ k (hk : k < pages.length), pages[k].1 = (rows.drop (o + k * L)).take L
  /-- A page before the last is full and hands back the offset after it. -/
  full : ∀ k (hk : k + 1 < pages.length),
    pages[k].1.length = L ∧ pages[k].2 = some (toString (o + (k + 1) * L))
  /-- The last page hands back no cursor and is empty only when no row is left. -/
  last : ∃ p, pages.getLast? = some p ∧ p.2 = none ∧ p.1.length ≤ L ∧
    (p.1 = [] ↔ rows.drop o = [])

namespace Partitions

variable {α : Type} {rows : List α} {L o : Nat}

/-- The rows left from `o`, when no more than `L` are, make the last page. -/
theorem single (hL : 0 < L) (hlast : ¬o + L < rows.length) :
    Partitions rows L o [((rows.drop o).take L, none)] := by
  have htake : (rows.drop o).take L = rows.drop o :=
    List.take_of_length_le (by simp only [List.length_drop]; omega)
  refine ⟨?_, ?_, ?_, ?_,
    ⟨((rows.drop o).take L, none), rfl, rfl, List.length_take_le _ _, by rw [htake]⟩⟩
  · rw [pagesFor_read hL, if_neg hlast]
    rfl
  · simp [htake]
  · intro k hk
    have hk0 : k = 0 := by simpa using hk
    subst hk0
    simp
  · intro k hk
    simp at hk

/-- A full page from `o`, handing back the offset after it, before the pages from there. -/
theorem cons (hL : 0 < L) (hmore : o + L < rows.length)
    {pages : List (List α × Option String)} (h : Partitions rows L (o + L) pages) :
    Partitions rows L o (((rows.drop o).take L, some (toString (o + L))) :: pages) := by
  -- the rows from `o + L` are the rows from `o` after the first page
  have hdrop : ∀ k, o + L + k * L = o + (k + 1) * L := fun k => by ring
  refine ⟨?_, ?_, ?_, ?_, ?_⟩
  · rw [List.length_cons, h.length, pagesFor_read hL rows.length o, if_pos hmore]
    omega
  · rw [List.map_cons, List.flatten_cons, h.flatten, ← List.drop_drop, List.take_append_drop]
  · intro k hk
    cases k with
    | zero => simp
    | succ k =>
      rw [List.getElem_cons_succ, h.slice k (by simpa using hk), hdrop]
  · intro k hk
    cases k with
    | zero =>
      refine ⟨?_, by simp⟩
      simp only [List.getElem_cons_zero, List.length_take, List.length_drop]
      omega
    | succ k =>
      obtain ⟨hfull, hnext⟩ := h.full k (by simpa using hk)
      refine ⟨hfull, ?_⟩
      rw [List.getElem_cons_succ, hnext, hdrop]
  · obtain ⟨p, hp, hnone, hle, hempty⟩ := h.last
    refine ⟨p, ?_, hnone, hle, ?_⟩
    · rw [List.getLast?_cons, hp]
      rfl
    -- rows are left both from `o` and from `o + L`
    have hleft : rows.drop (o + L) ≠ [] := by
      simp only [ne_eq, List.drop_eq_nil_iff]
      omega
    have hleft' : rows.drop o ≠ [] := by
      simp only [ne_eq, List.drop_eq_nil_iff]
      omega
    exact ⟨fun hp' => absurd (hempty.mp hp') hleft, fun h' => absurd h' hleft'⟩

end Partitions

/-- Reading from offset `o` (the first page with no offset), with reads enough for the rows
left, partitions the rows left. -/
theorem pageChain_partitions {α : Type} (rows : List α) (size : Nat)
    (hfit : rows.length < 2 ^ 64) :
    ∀ (calls : Nat) (o? : Option Nat), (∀ o ∈ o?, o < rows.length) →
      pagesFor (pageLimit size) (rows.length - o?.getD 0) ≤ calls →
      ∃ pages, pageChain rows size calls (o?.map toString) = .ok pages ∧
        Partitions rows (pageLimit size) (o?.getD 0) pages := by
  intro calls
  induction calls with
  | zero =>
    intro o? _ hcalls
    exact absurd (le_trans (one_le_pagesFor _ _) hcalls) (by decide)
  | succ calls ih =>
    intro o? ho hcalls
    have hL := pageLimit_pos size
    rw [pageChain_succ rows size calls o? fun o h => lt_trans (ho o h) hfit]
    by_cases hmore : o?.getD 0 + pageLimit size < rows.length
    · -- another page follows, read from the offset after this one
      have hcalls' : pagesFor (pageLimit size) (rows.length - (o?.getD 0 + pageLimit size)) ≤
          calls := by
        rw [pagesFor_read hL, if_pos hmore] at hcalls
        omega
      obtain ⟨pages, hrun, hparts⟩ := ih (some (o?.getD 0 + pageLimit size))
        (fun o h => by cases h; exact hmore) hcalls'
      rw [if_pos hmore]
      refine ⟨_, ?_, Partitions.cons hL hmore hparts⟩
      rw [Option.map_some] at hrun
      rw [hrun]
      rfl
    · rw [if_neg hmore]
      exact ⟨_, rfl, Partitions.single hL hmore⟩

/-- **Offset paging.** A reader that starts from no cursor and follows next cursors, with reads
enough, gets one page for each `L` rows of the listing (one at least), `L` being the page
limit: the `k`-th page holds the rows from `k * L`, so that the pages together hold the rows in
order; every page but the last is full and hands back the offset of the row after it; the last
hands back none and is empty only for an empty listing. Every cursor at all is refused as
naming no offset, or read as an offset below `2 ^ 64` whose page forms the next offset only
when rows are left after it. -/
theorem pageOf_reads_listing {α : Type} (rows : List α) (size : Nat)
    (hfit : rows.length < 2 ^ 64) {calls : Nat}
    (hcalls : pagesFor (pageLimit size) rows.length ≤ calls) :
    (∃ pages, pageChain rows size calls none = .ok pages ∧
      pages.length = pagesFor (pageLimit size) rows.length ∧
      (pages.map Prod.fst).flatten = rows ∧
      (∀ k (hk : k < pages.length),
        pages[k].1 = (rows.drop (k * pageLimit size)).take (pageLimit size)) ∧
      (∀ k (hk : k + 1 < pages.length), pages[k].1.length = pageLimit size ∧
        pages[k].2 = some (toString ((k + 1) * pageLimit size))) ∧
      ∃ p, pages.getLast? = some p ∧ p.2 = none ∧ p.1.length ≤ pageLimit size ∧
        (p.1 = [] ↔ rows = [])) ∧
    ∀ cursor : Option String,
      (∃ raw, pageOffset cursor = .error (.pageOffset raw) ∧
        pageOf rows cursor size = .error (.pageOffset raw)) ∨
      ∃ o, pageOffset cursor = .ok o ∧ o < 2 ^ 64 ∧
        pageOf rows cursor size = .ok ((rows.drop o).take (pageLimit size),
          if o + pageLimit size < rows.length then some (toString (o + pageLimit size))
          else none) := by
  refine ⟨?_, fun cursor => ?_⟩
  · obtain ⟨pages, hrun, hparts⟩ :=
      pageChain_partitions rows size hfit calls none (fun _ h => nomatch h) hcalls
    refine ⟨pages, hrun, hparts.length, hparts.flatten, fun k hk => ?_, fun k hk => ?_,
      hparts.last⟩
    · simpa using hparts.slice k hk
    · simpa using hparts.full k hk
  · rw [pageOf_eq_map]
    rcases hoff : pageOffset cursor with f | o
    · obtain ⟨raw, rfl⟩ := pageOffset_error hoff
      exact .inl ⟨raw, rfl, rfl⟩
    · exact .inr ⟨o, rfl, pageOffset_lt hoff, rfl⟩

/-- Five rows read two at a time: three pages, the last holding one row. -/
theorem pageOf_reads_listing_five_rows :
    ([10, 20, 30, 40, 50] : List Nat).length < 2 ^ 64 ∧
      pagesFor (pageLimit 2) ([10, 20, 30, 40, 50] : List Nat).length ≤ 3 ∧
    (∃ pages, pageChain [10, 20, 30, 40, 50] 2 3 none = .ok pages ∧
      pages.length = pagesFor (pageLimit 2) ([10, 20, 30, 40, 50] : List Nat).length ∧
      (pages.map Prod.fst).flatten = [10, 20, 30, 40, 50] ∧
      (∀ k (hk : k < pages.length),
        pages[k].1 = (([10, 20, 30, 40, 50] : List Nat).drop (k * pageLimit 2)).take (pageLimit 2)) ∧
      (∀ k (hk : k + 1 < pages.length), pages[k].1.length = pageLimit 2 ∧
        pages[k].2 = some (toString ((k + 1) * pageLimit 2))) ∧
      ∃ p, pages.getLast? = some p ∧ p.2 = none ∧ p.1.length ≤ pageLimit 2 ∧
        (p.1 = [] ↔ ([10, 20, 30, 40, 50] : List Nat) = [])) ∧
    ∀ cursor : Option String,
      (∃ raw, pageOffset cursor = .error (.pageOffset raw) ∧
        pageOf [10, 20, 30, 40, 50] cursor 2 = .error (.pageOffset raw)) ∨
      ∃ o, pageOffset cursor = .ok o ∧ o < 2 ^ 64 ∧
        pageOf [10, 20, 30, 40, 50] cursor 2 = .ok ((([10, 20, 30, 40, 50] : List Nat).drop o).take
          (pageLimit 2),
          if o + pageLimit 2 < ([10, 20, 30, 40, 50] : List Nat).length then
            some (toString (o + pageLimit 2)) else none) :=
  ⟨by decide, by decide, pageOf_reads_listing _ 2 (by decide) (by decide)⟩

end AccessReview
