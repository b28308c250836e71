import AccessReview.Proofs.RoleKeyText
import AccessReview.Walk

/-! # What a traversal token holds

    A token is a stack of pending entries and a list of visited roles. Traversal proofs look
    at it through two sets: the roles visited and the roles pending. This file gives the
    operations of a step (`markVisited`, `push`, `queueFound`, `startFrom`) through those
    sets, and shows that the visited list stays strictly increasing in role-key order, so
    that it holds each role once.

    The main statements are `RoleKey.insertSorted_pairwise` (inserting keeps the order strict,
    which rests on `RoleKey.compare_lt_trans`) and `TraversalToken.trackedRoles_eq_card`: the
    count a step checks against its bound is the number of distinct roles the token names.
-/

namespace AccessReview

/-! ## The order of role keys is a strict total order -/

theorem PrincipalId.eq_of_compare_eq {p q : PrincipalId} (h : Ord.compare p q = .eq) :
    p = q := by
  have hv : p.val = q.val := Std.LawfulEqCmp.eq_of_compare (show Ord.compare p.val q.val = .eq from h)
  cases p
  cases q
  simp only at hv
  rw [hv]

theorem PrincipalId.compare_lt_trans {p q r : PrincipalId} (h1 : Ord.compare p q = .lt)
    (h2 : Ord.compare q r = .lt) : Ord.compare p r = .lt := by
  show Ord.compare p.val r.val = .lt
  exact Std.TransCmp.lt_trans (show Ord.compare p.val q.val = .lt from h1)
    (show Ord.compare q.val r.val = .lt from h2)

theorem DatabaseName.eq_of_compare_eq {d e : DatabaseName} (h : Ord.compare d e = .eq) :
    d = e := by
  have ht : d.text = e.text :=
    Std.LawfulEqCmp.eq_of_compare (show Ord.compare d.text e.text = .eq from h)
  cases d
  cases e
  simp only at ht
  rw [ht]

theorem DatabaseName.compare_lt_trans {d e f : DatabaseName} (h1 : Ord.compare d e = .lt)
    (h2 : Ord.compare e f = .lt) : Ord.compare d f = .lt := by
  show Ord.compare d.text f.text = .lt
  exact Std.TransCmp.lt_trans (show Ord.compare d.text e.text = .lt from h1)
    (show Ord.compare e.text f.text = .lt from h2)

/-- A key compares equal to itself only. -/
theorem RoleKey.eq_of_compare_eq {a b : RoleKey} (h : RoleKey.compare a b = .eq) : a = b := by
  cases a with
  | server p =>
    cases b with
    | server q => rw [PrincipalId.eq_of_compare_eq h]
    | database e q => cases h
  | database d p =>
    cases b with
    | server q => cases h
    | database e q =>
      simp only [RoleKey.compare, Ordering.then_eq_eq] at h
      rw [DatabaseName.eq_of_compare_eq h.1, PrincipalId.eq_of_compare_eq h.2]

/-- A key is never below itself. -/
theorem RoleKey.compare_self (a : RoleKey) : RoleKey.compare a a = .eq := by
  have h := RoleKey.compare_swap a a
  cases hc : RoleKey.compare a a <;> rw [hc] at h <;> first | rfl | cases h

/-- Role-key order is transitive. -/
theorem RoleKey.compare_lt_trans {a b c : RoleKey} (hab : RoleKey.compare a b = .lt)
    (hbc : RoleKey.compare b c = .lt) : RoleKey.compare a c = .lt := by
  cases a with
  | server p =>
    cases b with
    | server q =>
      cases c with
      | server r => exact PrincipalId.compare_lt_trans hab hbc
      | database f r => rfl
    | database e q =>
      cases c with
      | server r => cases hbc
      | database f r => rfl
  | database d p =>
    cases b with
    | server q => cases hab
    | database e q =>
      cases c with
      | server r => cases hbc
      | database f r =>
        simp only [RoleKey.compare, Ordering.then_eq_lt] at hab hbc ⊢
        -- by database name first; equal names pass the comparison to the ids
        rcases hab with hde | ⟨hde, hpq⟩ <;> rcases hbc with hef | ⟨hef, hqr⟩
        · exact .inl (DatabaseName.compare_lt_trans hde hef)
        · rw [← DatabaseName.eq_of_compare_eq hef]
          exact .inl hde
        · rw [DatabaseName.eq_of_compare_eq hde]
          exact .inl hef
        · rw [DatabaseName.eq_of_compare_eq hde]
          exact .inr ⟨hef, PrincipalId.compare_lt_trans hpq hqr⟩

/-- Keys strictly increasing in role-key order. -/
abbrev RoleKey.Ascending (ks : List RoleKey) : Prop :=
  ks.Pairwise fun a b => RoleKey.compare a b = .lt

/-- Strictly increasing keys hold each key once. -/
theorem RoleKey.Ascending.nodup {ks : List RoleKey} (h : RoleKey.Ascending ks) : ks.Nodup :=
  h.imp fun {a b} hab heq => by
    subst heq
    rw [RoleKey.compare_self] at hab
    cases hab

/-- Inserting a key adds it and keeps every other. -/
theorem RoleKey.mem_insertSorted {k x : RoleKey} {ks : List RoleKey} :
    x ∈ k.insertSorted ks ↔ x = k ∨ x ∈ ks := by
  induction ks with
  | nil => simp [RoleKey.insertSorted]
  | cons y ys ih =>
    unfold RoleKey.insertSorted
    cases hc : RoleKey.compare k y
    · simp only [List.mem_cons]
    · -- the key is already there
      have hky : k = y := RoleKey.eq_of_compare_eq hc
      subst hky
      simp
    · rw [List.mem_cons, List.mem_cons, ih]
      tauto

/-- Inserting a key keeps the keys strictly increasing. -/
theorem RoleKey.insertSorted_pairwise (k : RoleKey) {ks : List RoleKey}
    (h : RoleKey.Ascending ks) : RoleKey.Ascending (k.insertSorted ks) := by
  induction ks with
  | nil => exact List.pairwise_singleton _ k
  | cons y ys ih =>
    have hy := List.pairwise_cons.mp h
    unfold RoleKey.insertSorted
    cases hc : RoleKey.compare k y
    · refine List.pairwise_cons.mpr ⟨?_, h⟩
      intro b hb
      rcases List.mem_cons.mp hb with rfl | hb
      · exact hc
      · exact RoleKey.compare_lt_trans hc (hy.1 b hb)
    · exact h
    · have hyk : RoleKey.compare y k = .lt := by
        rw [RoleKey.compare_swap, hc]
        rfl
      refine List.pairwise_cons.mpr ⟨?_, ih hy.2⟩
      intro b hb
      rcases RoleKey.mem_insertSorted.mp hb with rfl | hb
      · exact hyk
      · exact hy.1 b hb

/-! ## Tokens as sets of roles -/

namespace TraversalToken

/-- The roles of the pending entries, top of the stack first. -/
def pendingRoles (t : TraversalToken) : List RoleKey := t.pending.map (·.role)

@[simp] theorem isVisited_eq_true {t : TraversalToken} {k : RoleKey} :
    t.isVisited k = true ↔ k ∈ t.visited := by
  simp [isVisited]

@[simp] theorem isQueued_eq_true {t : TraversalToken} {k : RoleKey} :
    t.isQueued k = true ↔ k ∈ t.pendingRoles := by
  simp [isQueued, pendingRoles]

@[simp] theorem isVisited_eq_false {t : TraversalToken} {k : RoleKey} :
    t.isVisited k = false ↔ k ∉ t.visited := by
  simp [isVisited]

@[simp] theorem isQueued_eq_false {t : TraversalToken} {k : RoleKey} :
    t.isQueued k = false ↔ k ∉ t.pendingRoles := by
  simp [isQueued, pendingRoles]

/-- A list with the repeats after the first of each dropped holds each member once. -/
theorem eraseDups_nodup {α : Type} [BEq α] [LawfulBEq α] : ∀ l : List α, l.eraseDups.Nodup
  | [] => by simp
  | a :: as => by
    rw [List.eraseDups_cons]
    refine List.nodup_cons.mpr ⟨?_, eraseDups_nodup _⟩
    simp [List.mem_eraseDups]
termination_by l => l.length
decreasing_by exact Nat.lt_succ_of_le (List.length_filter_le _ _)

/-- The roles a token tracks are counted once each, visited or pending. -/
theorem trackedRoles_eq_card {t : TraversalToken} (h : t.visited.Nodup) :
    t.trackedRoles = (t.visited.toFinset ∪ t.pendingRoles.toFinset).card := by
  have hfilter : ((t.pendingRoles.eraseDups.filter fun k => !t.visited.contains k)).toFinset =
      t.pendingRoles.toFinset \ t.visited.toFinset := by
    ext k
    simp [List.mem_eraseDups]
  have hcard := List.toFinset_card_of_nodup ((eraseDups_nodup t.pendingRoles).filter
    fun k => !t.visited.contains k)
  rw [hfilter] at hcard
  calc t.trackedRoles
      = t.visited.toFinset.card + (t.pendingRoles.toFinset \ t.visited.toFinset).card := by
        unfold trackedRoles
        rw [List.toFinset_card_of_nodup h, hcard]
        rfl
    _ = (t.visited.toFinset ∪ t.pendingRoles.toFinset).card := by
        rw [Nat.add_comm, Finset.card_sdiff_add_card, Finset.union_comm]

/-! ## The operations of a step -/

@[simp] theorem markVisited_pending (t : TraversalToken) (k : RoleKey) :
    (t.markVisited k).pending = t.pending := rfl

@[simp] theorem mem_markVisited_visited {t : TraversalToken} {k x : RoleKey} :
    x ∈ (t.markVisited k).visited ↔ x = k ∨ x ∈ t.visited :=
  RoleKey.mem_insertSorted

theorem markVisited_ascending {t : TraversalToken} (h : RoleKey.Ascending t.visited)
    (k : RoleKey) : RoleKey.Ascending (t.markVisited k).visited :=
  RoleKey.insertSorted_pairwise k h

@[simp] theorem push_pending (t : TraversalToken) (e : FrontierEntry) :
    (t.push e).pending = e :: t.pending := rfl

@[simp] theorem push_visited (t : TraversalToken) (e : FrontierEntry) :
    (t.push e).visited = t.visited := rfl

end TraversalToken

section Queue

variable (policy : VisitPolicy) (found : List RoleKey) (t : TraversalToken)

/-- Roles found are pushed so that the first found is on top. -/
@[simp] theorem queueFound_pending :
    (queueFound policy found t).pending = found.map (⟨·, none⟩) ++ t.pending := by
  induction found with
  | nil => rfl
  | cons k ks ih =>
    show (queueFound.mark policy (queueFound policy ks t) k).pending.cons _ = _
    cases policy <;> simp [queueFound.mark, ih]

/-- Under `onDiscovery` the roles found are visited as they are queued; under
`onCompletion` queueing visits nothing. -/
theorem mem_queueFound_visited {x : RoleKey} :
    x ∈ (queueFound policy found t).visited ↔
      (policy = .onDiscovery ∧ x ∈ found) ∨ x ∈ t.visited := by
  induction found with
  | nil => simp [queueFound]
  | cons k ks ih =>
    show x ∈ (queueFound.mark policy (queueFound policy ks t) k).visited ↔ _
    cases policy with
    | onCompletion => simpa [queueFound.mark] using ih
    | onDiscovery =>
      simp only [queueFound.mark, TraversalToken.mem_markVisited_visited, ih, List.mem_cons]
      tauto

theorem queueFound_ascending (h : RoleKey.Ascending t.visited) :
    RoleKey.Ascending (queueFound policy found t).visited := by
  induction found with
  | nil => exact h
  | cons k ks ih =>
    show RoleKey.Ascending (queueFound.mark policy (queueFound policy ks t) k).visited
    cases policy with
    | onCompletion => exact ih
    | onDiscovery => exact TraversalToken.markVisited_ascending ih k

end Queue

section Start

variable (policy : VisitPolicy) (root : RoleKey) (t : TraversalToken)

/-- A finished token starts over at the root with its listing from the start. -/
theorem startFrom_of_isDone (h : t.isDone = true) :
    (startFrom policy root t).pending = [⟨root, none⟩] ∧
      ∀ x, x ∈ (startFrom policy root t).visited ↔
        (policy = .onDiscovery ∧ x = root) ∨ x ∈ t.visited := by
  have hp : t.pending = [] := by simpa [TraversalToken.isDone] using h
  unfold startFrom
  rw [if_pos h]
  cases policy with
  | onCompletion => simp [hp]
  | onDiscovery => simp [hp]

/-- A token with pending entries is resumed as it is. -/
theorem startFrom_of_not_isDone (h : t.isDone = false) : startFrom policy root t = t := by
  unfold startFrom
  rw [if_neg (by simp [h])]

theorem startFrom_ascending (h : RoleKey.Ascending t.visited) :
    RoleKey.Ascending (startFrom policy root t).visited := by
  unfold startFrom
  split
  · cases policy with
    | onCompletion => exact h
    | onDiscovery => exact TraversalToken.markVisited_ascending h root
  · exact h

end Start

/-! ## The token after a page -/

/-- The token a step leaves after a page of the listing of `entry`, taken off the stack of
`rest`: under `onCompletion` a finished listing is visited, the roles found are queued with
the first found on top, and a listing that goes on resumes above them at cursor `next`. -/
def afterPage (policy : VisitPolicy) (entry : FrontierEntry) (rest : TraversalToken)
    (found : List RoleKey) (next : Option String) : TraversalToken :=
  let token := match next, policy with
    | none, .onCompletion => rest.markVisited entry.role
    | _, _ => rest
  let token := queueFound policy found token
  match next with
  | some c => token.push { entry with cursor := some c }
  | none => token

section AfterPage

variable (policy : VisitPolicy) (entry : FrontierEntry) (rest : TraversalToken)
  (found : List RoleKey) (next : Option String)

/-- The stack after a page: the resumed listing, the roles found, then the rest. -/
theorem afterPage_pending :
    (afterPage policy entry rest found next).pending =
      (next.map fun c => { entry with cursor := some c }).toList ++
        found.map (⟨·, none⟩) ++ rest.pending := by
  cases next with
  | none => cases policy <;> simp [afterPage]
  | some c => cases policy <;> simp [afterPage]

/-- The roles visited after a page: those of the rest, the roles found under
`onDiscovery`, and the role listed under `onCompletion` once its listing is finished. -/
theorem mem_afterPage_visited {x : RoleKey} :
    x ∈ (afterPage policy entry rest found next).visited ↔
      x ∈ rest.visited ∨ (policy = .onDiscovery ∧ x ∈ found) ∨
        (policy = .onCompletion ∧ next = none ∧ x = entry.role) := by
  cases next with
  | none =>
    cases policy with
    | onCompletion =>
      simp only [afterPage, mem_queueFound_visited, TraversalToken.mem_markVisited_visited]
      simp only [reduceCtorEq, false_and, false_or, true_and]
      tauto
    | onDiscovery =>
      simp only [afterPage, mem_queueFound_visited, true_and]
      simp only [reduceCtorEq, false_and, or_false]
      tauto
  | some c =>
    cases policy with
    | onCompletion => simp [afterPage, mem_queueFound_visited]
    | onDiscovery =>
      simp only [afterPage, TraversalToken.push_visited, mem_queueFound_visited, true_and]
      simp only [reduceCtorEq, false_and, and_false, or_false]
      tauto

theorem afterPage_ascending (h : RoleKey.Ascending rest.visited) :
    RoleKey.Ascending (afterPage policy entry rest found next).visited := by
  have hmark : RoleKey.Ascending (match next, policy with
      | none, .onCompletion => rest.markVisited entry.role
      | _, _ => rest).visited := by
    split
    · exact TraversalToken.markVisited_ascending h entry.role
    · exact h
  unfold afterPage
  cases next with
  | none => exact queueFound_ascending policy found _ hmark
  | some c => exact queueFound_ascending policy found _ hmark

end AfterPage

end AccessReview
