import AccessReview.Proofs.Discovery

/-! # Traversals that visit roles when their listing ends

    Under `onCompletion` a role is marked visited once the last page of its listing has been
    read, and a role is queued whenever a page names it and it is not visited: a role can be
    queued again while it is pending, and a call never asks whether the role it takes off
    the stack is visited already. This file proves that a drain from the empty token still
    ends, hands out the grants of the members of every reachable role and no others, opens
    the root's listing once, and every other reachable role's at least once and at most as
    often as rows of other reachable roles name it (`onCompletion_drain_complete`).

    It rests on the shape of the stack. A listing once opened is read to its end over
    consecutive calls, since its resumed entry goes on top of the roles its page found, so
    the roles queued above an entry are visited by the time the entry comes back to the top.
    The invariant (`CompletionInv`) says so of every entry whose role is visited already
    (`Settled`): each role its rows name is visited, or listed by an entry above it. A role
    taken off the stack once it is visited therefore queues nothing
    (`CompletionInv.found_eq_nil`), and the rows that queue roles are read once, in the
    listing that visits their role.

    What is left is counted over the unvisited reachable roles, weighing each row they have
    not read yet (`owed`): a call reads one page, whose rows leave the count
    (`CompletionInv.owed_after`). Weighing a row by the pages of the role it names bounds the
    calls (`callsBound`); by its grant, it gives the grants still owed; by whether it names a
    role `R`, it bounds how often `R`'s listing is opened again (`opensLeft`).
-/

namespace AccessReview

/-! ## Listings opened by a drain -/

/-- The role whose listing a call from `t` opens: the role of the entry on top of the token,
once started, when its listing is read from the start. -/
def opening (policy : VisitPolicy) (root : RoleKey) (t : TraversalToken) : Option RoleKey :=
  match (startFrom policy root t).pending with
  | e :: _ => if e.cursor = none then some e.role else none
  | [] => none

/-- The role whose listing a call of a connector's traversal from `root` opens, given the
token the call is made with. -/
def Connector.listingOpened (c : Connector) (root : RoleKey) (token : String) : Option RoleKey :=
  match TraversalToken.decode token with
  | .ok t => opening c.policy root t
  | .error _ => none

/-- The tokens the calls of a drain were made with, the first being `token`: each page is
answered to one call, and the call after it is made with the page's next token. -/
def callTokens (token : String) : List (Except Error GrantPage) → List String
  | [] => []
  | p :: rest => token :: match p with
    | .ok q => callTokens q.nextToken rest
    | .error _ => []

/-- How many calls of a drain from `token` open the listing of `k`. -/
def listingsOpened (c : Connector) (root k : RoleKey) (token : String)
    (pages : List (Except Error GrantPage)) : Nat :=
  (callTokens token pages).countP fun tok => c.listingOpened root tok = some k

/-! ## Settled stacks -/

/-- Every entry of a stack whose role is in `V` has each role its rows name equal to its own,
in `V`, or among `above`: the roles of the entries above it. -/
def Settled (st : Store) (V : List RoleKey) : List RoleKey → List FrontierEntry → Prop
  | _, [] => True
  | above, e :: rest =>
    (e.role ∈ V → ∀ c ∈ childRoles st e.role, c = e.role ∨ c ∈ V ∨ c ∈ above) ∧
      Settled st V (e.role :: above) rest

namespace Settled

variable {st : Store}

/-- A stack stays settled when roles none of its entries list become visited, and each role
above it stays above it or becomes visited. -/
theorem mono {V V' : List RoleKey} (hV : ∀ x ∈ V, x ∈ V') {l : List FrontierEntry}
    (hl : ∀ e ∈ l, e.role ∈ V' → e.role ∈ V) {A A' : List RoleKey}
    (hA : ∀ x ∈ A, x ∈ A' ∨ x ∈ V') (h : Settled st V A l) : Settled st V' A' l := by
  induction l generalizing A A' with
  | nil => trivial
  | cons e rest ih =>
    obtain ⟨he, hrest⟩ := h
    refine ⟨fun hv c hc => ?_, ih (fun x hx => hl x (List.mem_cons_of_mem e hx)) ?_ hrest⟩
    · rcases he (hl e List.mem_cons_self hv) c hc with h | h | h
      · exact .inl h
      · exact .inr (.inl (hV c h))
      · rcases hA c h with h | h
        · exact .inr (.inr h)
        · exact .inr (.inl h)
    · intro x hx
      rcases List.mem_cons.mp hx with rfl | hx
      · exact .inl List.mem_cons_self
      · rcases hA x hx with h | h
        · exact .inl (List.mem_cons_of_mem _ h)
        · exact .inr h

/-- A stack put on top of another is settled when each part is, the lower one under the
roles of the upper one. -/
theorem append {V A : List RoleKey} {l₁ l₂ : List FrontierEntry} :
    Settled st V A (l₁ ++ l₂) ↔
      Settled st V A l₁ ∧ Settled st V ((l₁.map (·.role)).reverse ++ A) l₂ := by
  induction l₁ generalizing A with
  | nil => simp [Settled]
  | cons e rest ih =>
    simp only [List.cons_append, Settled, ih, List.map_cons, List.reverse_cons,
      List.append_assoc, List.cons_append, List.nil_append, and_assoc]

/-- A stack of unvisited roles is settled. -/
theorem of_unvisited {V A : List RoleKey} {l : List FrontierEntry} (h : ∀ e ∈ l, e.role ∉ V) :
    Settled st V A l := by
  induction l generalizing A with
  | nil => trivial
  | cons e rest ih =>
    exact ⟨fun hv => absurd hv (h e List.mem_cons_self),
      ih fun x hx => h x (List.mem_cons_of_mem e hx)⟩

/-- A stack below a finished listing of `Q` stays settled once `Q` is visited, when each role
the rows of `Q` name is `Q`, visited, among `A'`, or listed above every entry of `Q` in the
stack. -/
theorem visit {V V' : List RoleKey} {Q : RoleKey} (hV' : ∀ x, x ∈ V' ↔ x ∈ V ∨ x = Q)
    {l : List FrontierEntry} {A A' : List RoleKey} (hA : A ⊆ A')
    (hQ : ∀ c ∈ childRoles st Q, c = Q ∨ c ∈ V ∨ c ∈ A' ∨
      c ∈ (l.takeWhile fun x => x.role != Q).map (·.role))
    (h : Settled st V (Q :: A) l) : Settled st V' A' l := by
  induction l generalizing A A' with
  | nil => trivial
  | cons e rest ih =>
    obtain ⟨he, hrest⟩ := h
    by_cases heQ : e.role = Q
    · -- a later entry of `Q` itself, whose rows have all been read
      have hQ' : ∀ c ∈ childRoles st Q, c = Q ∨ c ∈ V ∨ c ∈ A' := by
        intro c hc
        rcases hQ c hc with h | h | h | h
        · exact .inl h
        · exact .inr (.inl h)
        · exact .inr (.inr h)
        · rw [List.takeWhile_cons_of_neg (by simp [heQ])] at h
          cases h
      refine ⟨fun _ c hc => ?_, ?_⟩
      · rw [heQ] at hc ⊢
        rcases hQ' c hc with h | h | h
        · exact .inl h
        · exact .inr (.inl ((hV' c).mpr (.inl h)))
        · exact .inr (.inr h)
      · rw [heQ] at hrest ⊢
        have hQ₁ : ∀ c ∈ childRoles st Q, c = Q ∨ c ∈ V ∨ c ∈ Q :: A' ∨
            c ∈ (rest.takeWhile fun x => x.role != Q).map (·.role) := by
          intro c hc
          rcases hQ' c hc with h | h | h
          · exact .inl h
          · exact .inr (.inl h)
          · exact .inr (.inr (.inl (List.mem_cons_of_mem _ h)))
        exact ih (List.cons_subset_cons Q hA) hQ₁ hrest
    · -- an entry of another role: `Q` stands above it, and is visited now
      refine ⟨fun hv c hc => ?_, ?_⟩
      · have hv' : e.role ∈ V := ((hV' e.role).mp hv).resolve_right heQ
        rcases he hv' c hc with h | h | h
        · exact .inl h
        · exact .inr (.inl ((hV' c).mpr (.inl h)))
        · rcases List.mem_cons.mp h with rfl | h
          · exact .inr (.inl ((hV' c).mpr (.inr rfl)))
          · exact .inr (.inr (hA h))
      · have hswap : Settled st V (Q :: e.role :: A) rest := by
          refine mono (fun x hx => hx) (fun _ _ h => h) (fun x hx => .inl ?_) hrest
          simp only [List.mem_cons] at hx ⊢
          tauto
        have hQ₁ : ∀ c ∈ childRoles st Q, c = Q ∨ c ∈ V ∨ c ∈ e.role :: A' ∨
            c ∈ (rest.takeWhile fun x => x.role != Q).map (·.role) := by
          intro c hc
          rcases hQ c hc with h | h | h | h
          · exact .inl h
          · exact .inr (.inl h)
          · exact .inr (.inr (.inl (List.mem_cons_of_mem _ h)))
          · rw [List.takeWhile_cons_of_pos (by simp [heQ]), List.map_cons] at h
            rcases List.mem_cons.mp h with rfl | h
            · exact .inr (.inr (.inl List.mem_cons_self))
            · exact .inr (.inr (.inr h))
        exact ih (List.cons_subset_cons e.role hA) hQ₁ hswap

end Settled

namespace Traversal

variable (w : Traversal)

/-- The invariant of a traversal under `onCompletion`, on the token a call starts from. -/
structure CompletionInv (s : TraversalToken) : Prop where
  /-- A role is pending. -/
  pending_ne : s.pending ≠ []
  /-- Every cursor names an offset inside its listing. -/
  cursors : ∀ e ∈ s.pending, w.CursorFits e
  /-- Only the entry on top has a listing under way. -/
  below_fresh : ∀ e ∈ s.pending.tail, e.cursor = none
  /-- Pending roles are reachable. -/
  pending_reach : ∀ k ∈ s.pendingRoles, k ∈ reach w.store w.root
  /-- Visited roles are reachable. -/
  visited_reach : ∀ k ∈ s.visited, k ∈ reach w.store w.root
  /-- The visited roles are in strictly increasing order. -/
  visited_ascending : RoleKey.Ascending s.visited
  /-- The root is visited or pending. -/
  root_seen : w.root ∈ s.visited ∨ w.root ∈ s.pendingRoles
  /-- The roles a visited role's rows name are the role itself, visited, or pending. -/
  closed : ∀ k ∈ s.visited, ∀ c ∈ childRoles w.store k,
    c = k ∨ c ∈ s.visited ∨ c ∈ s.pendingRoles
  /-- The roles named by the rows the top listing has read are its own role, visited, or
  listed above every other entry of that role. -/
  top_read : ∀ e below, s.pending = e :: below →
    ∀ m ∈ (w.rows e.role).take (offsetOf e), ∀ c, childRole e.role m = some c →
      c = e.role ∨ c ∈ s.visited ∨ c ∈ (below.takeWhile fun x => x.role != e.role).map (·.role)
  /-- Every entry whose role is visited has the roles its rows name visited, or above it. -/
  settled : Settled w.store s.visited [] s.pending

section Step

variable {w} {s : TraversalToken} {e : FrontierEntry} {below : List FrontierEntry}

/-- Under `onCompletion` a page queues the roles its rows name, other than its own, that are
not visited. -/
theorem mem_found_of_completion (hpol : w.policy = .onCompletion) {V : List RoleKey} {o : Nat}
    {k : RoleKey} :
    k ∈ w.found V e below o ↔
      k ≠ e.role ∧ k ∉ V ∧ ∃ m ∈ w.pageAt e.role o, childRole e.role m = some k := by
  rw [Traversal.mem_found, admits_eq_true, hpol]
  simp [and_assoc]

/-- Under `onCompletion` a page marks its role visited when it is its listing's last. -/
theorem mem_after_visited_of_completion (hpol : w.policy = .onCompletion) {V : List RoleKey}
    {o : Nat} {x : RoleKey} :
    x ∈ (w.after V e below o).visited ↔ x ∈ V ∨ (w.nextAt e.role o = none ∧ x = e.role) := by
  rw [Traversal.mem_after_visited, hpol]
  simp

/-- The entries a page leaves below the top of the stack: the roles found, at their start,
and the entries below. -/
theorem mem_after_tail {V : List RoleKey} {o : Nat} {x : FrontierEntry}
    (hx : x ∈ (w.after V e below o).pending.tail) :
    x ∈ (w.found V e below o).map (⟨·, none⟩) ∨ x ∈ below := by
  rw [after_pending] at hx
  cases hn : w.nextAt e.role o with
  | none =>
    rw [hn] at hx
    simp only [Option.map_none, Option.toList_none, List.nil_append] at hx
    exact List.mem_append.mp (List.mem_of_mem_tail hx)
  | some n =>
    rw [hn] at hx
    simp only [Option.map_some, Option.toList_some, List.cons_append, List.tail_cons] at hx
    exact List.mem_append.mp hx

/-- A role pending before a page is pending after it, or visited when the page finished its
listing. -/
theorem pending_after (hpol : w.policy = .onCompletion) (hP : s.pending = e :: below)
    {k : RoleKey} (hk : k ∈ s.pendingRoles) :
    k ∈ (w.after s.visited e below (offsetOf e)).visited ∨
      k ∈ (w.after s.visited e below (offsetOf e)).pendingRoles := by
  rw [TraversalToken.pendingRoles, hP, List.map_cons, List.mem_cons] at hk
  rcases hk with rfl | hk
  · cases hn : w.nextAt e.role (offsetOf e) with
    | none => exact .inl ((mem_after_visited_of_completion hpol).mpr (.inr ⟨hn, rfl⟩))
    | some n => exact .inr (w.mem_after_pendingRoles.mpr (.inl ⟨by simp [hn], rfl⟩))
  · exact .inr (w.mem_after_pendingRoles.mpr (.inr (.inr hk)))

/-- The role on top of the stack is reachable. -/
theorem CompletionInv.top_reach (hs : w.CompletionInv s) (hP : s.pending = e :: below) :
    e.role ∈ reach w.store w.root :=
  hs.pending_reach e.role (by simp [TraversalToken.pendingRoles, hP])

/-- The roles a page queues are reachable. -/
theorem CompletionInv.found_reach (hpol : w.policy = .onCompletion) (hs : w.CompletionInv s)
    (hP : s.pending = e :: below) {k : RoleKey}
    (hk : k ∈ w.found s.visited e below (offsetOf e)) : k ∈ reach w.store w.root := by
  obtain ⟨-, -, m, hm, hc⟩ := (mem_found_of_completion hpol).mp hk
  exact child_mem_reach (hs.top_reach hP)
    (List.mem_filterMap.mpr ⟨m, w.mem_rows_of_mem_pageAt hm, hc⟩)

/-- **A visited role queues nothing.** A role taken off the stack once it is visited finds
every role its rows name visited already. -/
theorem CompletionInv.found_eq_nil (hpol : w.policy = .onCompletion) (hs : w.CompletionInv s)
    (hP : s.pending = e :: below) (hv : e.role ∈ s.visited) :
    w.found s.visited e below (offsetOf e) = [] := by
  have hset := hs.settled
  rw [hP] at hset
  refine List.eq_nil_iff_forall_not_mem.mpr fun k hk => ?_
  obtain ⟨hne, hnv, m, hm, hc⟩ := (mem_found_of_completion hpol).mp hk
  rcases hset.1 hv k (List.mem_filterMap.mpr ⟨m, w.mem_rows_of_mem_pageAt hm, hc⟩) with h | h | h
  · exact hne h
  · exact hnv h
  · cases h

/-- The roles named by the rows read once the page is read: the role itself, visited roles,
the roles the page found, and roles listed above every other entry of the role. -/
theorem CompletionInv.read_children (hpol : w.policy = .onCompletion) (hs : w.CompletionInv s)
    (hP : s.pending = e :: below) {m : MemberRow}
    (hm : m ∈ (w.rows e.role).take (offsetOf e + w.limit)) {c : RoleKey}
    (hc : childRole e.role m = some c) :
    c = e.role ∨ c ∈ s.visited ∨ c ∈ w.found s.visited e below (offsetOf e) ∨
      c ∈ (below.takeWhile fun x => x.role != e.role).map (·.role) := by
  rw [take_add_limit, List.mem_append] at hm
  rcases hm with hm | hm
  · rcases hs.top_read e below hP m hm c hc with h | h | h
    · exact .inl h
    · exact .inr (.inl h)
    · exact .inr (.inr (.inr h))
  · by_cases hf : c ∈ w.found s.visited e below (offsetOf e)
    · exact .inr (.inr (.inl hf))
    · -- a role the page names and does not queue is the page's own, or visited
      rw [mem_found_of_completion hpol] at hf
      by_cases hce : c = e.role
      · exact .inl hce
      · by_cases hcv : c ∈ s.visited
        · exact .inr (.inl hcv)
        · exact absurd ⟨hce, hcv, m, hm, hc⟩ hf

/-- Once a listing's last page is read, every role its rows name is the role itself, visited,
found by the page, or listed above every other entry of the role. -/
theorem CompletionInv.finished_children (hpol : w.policy = .onCompletion)
    (hs : w.CompletionInv s) (hP : s.pending = e :: below)
    (hnext : w.nextAt e.role (offsetOf e) = none) {c : RoleKey}
    (hc : c ∈ childRoles w.store e.role) :
    c = e.role ∨ c ∈ s.visited ∨ c ∈ w.found s.visited e below (offsetOf e) ∨
      c ∈ (below.takeWhile fun x => x.role != e.role).map (·.role) := by
  obtain ⟨m, hm, hcm⟩ := List.mem_filterMap.mp hc
  refine hs.read_children hpol hP ?_ hcm
  rw [List.take_of_length_le (w.length_le_of_nextAt hnext)]
  exact hm

/-- A page that finishes its listing leaves only entries at their start. -/
theorem CompletionInv.after_fresh_of_none (hs : w.CompletionInv s) (hP : s.pending = e :: below)
    (hnext : w.nextAt e.role (offsetOf e) = none) :
    ∀ x ∈ (w.after s.visited e below (offsetOf e)).pending, x.cursor = none := by
  intro x hx
  rw [after_pending, hnext] at hx
  simp only [Option.map_none, Option.toList_none, List.nil_append, List.mem_append,
    List.mem_map] at hx
  rcases hx with ⟨k, -, rfl⟩ | hx
  · rfl
  · exact hs.below_fresh x (by rw [hP]; exact hx)

/-- Only the top entry's listing is under way after a page when only the top one's was
before: the roles found start their listings. -/
theorem below_fresh_after {V : List RoleKey} {o : Nat} (h : ∀ x ∈ below, x.cursor = none) :
    ∀ x ∈ (w.after V e below o).pending.tail, x.cursor = none := by
  intro x hx
  rcases mem_after_tail hx with hx | hx
  · obtain ⟨k, -, rfl⟩ := List.mem_map.mp hx
    rfl
  · exact h x hx

theorem CompletionInv.after_below_fresh (hs : w.CompletionInv s) (hP : s.pending = e :: below) :
    ∀ x ∈ (w.after s.visited e below (offsetOf e)).pending.tail, x.cursor = none :=
  below_fresh_after fun x hx => hs.below_fresh x (by rw [hP]; exact hx)

theorem CompletionInv.after_pending_reach (hpol : w.policy = .onCompletion)
    (hs : w.CompletionInv s) (hP : s.pending = e :: below) :
    ∀ k ∈ (w.after s.visited e below (offsetOf e)).pendingRoles, k ∈ reach w.store w.root := by
  intro k hk
  rcases w.mem_after_pendingRoles.mp hk with ⟨-, rfl⟩ | hk | hk
  · exact hs.top_reach hP
  · exact hs.found_reach hpol hP hk
  · exact hs.pending_reach k (by simp [TraversalToken.pendingRoles, hP, hk])

theorem CompletionInv.after_visited_reach (hpol : w.policy = .onCompletion)
    (hs : w.CompletionInv s) (hP : s.pending = e :: below) :
    ∀ k ∈ (w.after s.visited e below (offsetOf e)).visited, k ∈ reach w.store w.root := by
  intro k hk
  rcases (mem_after_visited_of_completion hpol).mp hk with hk | ⟨-, rfl⟩
  · exact hs.visited_reach k hk
  · exact hs.top_reach hP

theorem CompletionInv.after_root_seen (hpol : w.policy = .onCompletion) (hs : w.CompletionInv s)
    (hP : s.pending = e :: below) :
    w.root ∈ (w.after s.visited e below (offsetOf e)).visited ∨
      w.root ∈ (w.after s.visited e below (offsetOf e)).pendingRoles := by
  rcases hs.root_seen with h | h
  · exact .inl ((mem_after_visited_of_completion hpol).mpr (.inl h))
  · exact pending_after hpol hP h

theorem CompletionInv.after_closed (hpol : w.policy = .onCompletion) (hs : w.CompletionInv s)
    (hP : s.pending = e :: below) :
    ∀ k ∈ (w.after s.visited e below (offsetOf e)).visited, ∀ c ∈ childRoles w.store k,
      c = k ∨ c ∈ (w.after s.visited e below (offsetOf e)).visited ∨
        c ∈ (w.after s.visited e below (offsetOf e)).pendingRoles := by
  have hV : ∀ x ∈ s.visited, x ∈ (w.after s.visited e below (offsetOf e)).visited :=
    fun x hx => (mem_after_visited_of_completion hpol).mpr (.inl hx)
  intro k hk c hc
  rcases (mem_after_visited_of_completion hpol).mp hk with hk | ⟨hnext, rfl⟩
  · rcases hs.closed k hk c hc with h | h | h
    · exact .inl h
    · exact .inr (.inl (hV c h))
    · exact .inr (pending_after hpol hP h)
  · -- the listing just finished, having read all its rows
    rcases hs.finished_children hpol hP hnext hc with h | h | h | h
    · exact .inl h
    · exact .inr (.inl (hV c h))
    · exact .inr (.inr (w.mem_after_pendingRoles.mpr (.inr (.inl h))))
    · obtain ⟨x, hx, rfl⟩ := List.mem_map.mp h
      exact .inr (.inr (w.mem_after_pendingRoles.mpr
        (.inr (.inr (List.mem_map.mpr ⟨x, (List.takeWhile_prefix _).subset hx, rfl⟩)))))

theorem CompletionInv.after_top_read (hpol : w.policy = .onCompletion)
    (hfit : w.store.MembersFit) (hs : w.CompletionInv s) (hP : s.pending = e :: below) :
    ∀ e' below', (w.after s.visited e below (offsetOf e)).pending = e' :: below' →
      ∀ m ∈ (w.rows e'.role).take (offsetOf e'), ∀ c, childRole e'.role m = some c →
        c = e'.role ∨ c ∈ (w.after s.visited e below (offsetOf e)).visited ∨
          c ∈ (below'.takeWhile fun x => x.role != e'.role).map (·.role) := by
  intro e' below' hP' m hm c hc
  cases hn : w.nextAt e.role (offsetOf e) with
  | none =>
    -- the new top is at its start and has read nothing
    have hfresh := hs.after_fresh_of_none hP hn e' (by rw [hP']; exact List.mem_cons_self)
    obtain ⟨k, cur⟩ := e'
    simp only at hfresh
    subst hfresh
    simp at hm
  | some n =>
    -- the resumed listing is on top, over the roles found and the stack below
    obtain ⟨rfl, hlen⟩ := w.nextAt_eq_some hn
    have hpend := w.after_pending s.visited e below (offsetOf e)
    rw [hn, hP'] at hpend
    simp only [Option.map_some, Option.toList_some, List.cons_append, List.nil_append,
      List.cons.injEq] at hpend
    obtain ⟨rfl, rfl⟩ := hpend
    rw [offsetOf_resume e (Nat.lt_trans hlen (hfit.lengths e.role))] at hm
    have hfound : ∀ x ∈ (w.found s.visited e below (offsetOf e)).map (⟨·, none⟩),
        (fun x : FrontierEntry => x.role != e.role) x = true := by
      intro x hx
      obtain ⟨k, hk, rfl⟩ := List.mem_map.mp hx
      simpa using ((mem_found_of_completion hpol).mp hk).1
    simp only
    rw [List.takeWhile_append_of_pos hfound, List.map_append, List.map_map]
    rcases hs.read_children hpol hP hm hc with h | h | h | h
    · exact .inl h
    · exact .inr (.inl ((mem_after_visited_of_completion hpol).mpr (.inl h)))
    · exact .inr (.inr (List.mem_append_left _ (by simpa using h)))
    · exact .inr (.inr (List.mem_append_right _ h))

theorem CompletionInv.after_settled (hpol : w.policy = .onCompletion) (hs : w.CompletionInv s)
    (hP : s.pending = e :: below) :
    Settled w.store (w.after s.visited e below (offsetOf e)).visited []
      (w.after s.visited e below (offsetOf e)).pending := by
  have hset := hs.settled
  rw [hP] at hset
  obtain ⟨htop, hbelow⟩ := hset
  have hnew : ∀ x ∈ (w.found s.visited e below (offsetOf e)).map
      (fun k => (⟨k, none⟩ : FrontierEntry)), x.role ∉ s.visited ∧ x.role ≠ e.role := by
    intro x hx
    obtain ⟨k, hk, rfl⟩ := List.mem_map.mp hx
    obtain ⟨hne, hnv, -⟩ := (mem_found_of_completion hpol).mp hk
    exact ⟨hnv, hne⟩
  rw [after_pending]
  cases hn : w.nextAt e.role (offsetOf e) with
  | some n =>
    -- the visited roles stay as they were; the resumed listing keeps its place on top
    have hV' : ∀ x, x ∈ (w.after s.visited e below (offsetOf e)).visited ↔ x ∈ s.visited := by
      intro x
      simp [mem_after_visited_of_completion hpol, hn]
    simp only [Option.map_some, Option.toList_some, List.cons_append]
    refine ⟨fun hv c hc => ?_, Settled.append.mpr ⟨Settled.of_unvisited ?_, ?_⟩⟩
    · rcases htop ((hV' _).mp hv) c hc with h | h | h
      · exact .inl h
      · exact .inr (.inl ((hV' c).mpr h))
      · cases h
    · exact fun x hx hv => (hnew x hx).1 ((hV' _).mp hv)
    · refine Settled.mono (fun x hx => (hV' x).mpr hx) (fun x _ hv => (hV' _).mp hv) ?_ hbelow
      intro x hx
      rw [List.mem_singleton] at hx
      subst hx
      exact .inl (List.mem_append_right _ List.mem_cons_self)
  | none =>
    have hV' : ∀ x, x ∈ (w.after s.visited e below (offsetOf e)).visited ↔
        x ∈ s.visited ∨ x = e.role := by
      intro x
      simp [mem_after_visited_of_completion hpol, hn]
    simp only [Option.map_none, Option.toList_none, List.nil_append]
    by_cases hv : e.role ∈ s.visited
    · -- a visited role taken off again: it found nothing, and the stack below is as it was
      rw [hs.found_eq_nil hpol hP hv, List.map_nil, List.nil_append]
      refine Settled.mono (fun x hx => (hV' x).mpr (.inl hx)) ?_ ?_ hbelow
      · intro x _ hx
        rcases (hV' _).mp hx with hx | hx
        · exact hx
        · exact hx ▸ hv
      · intro x hx
        rw [List.mem_singleton] at hx
        exact .inr ((hV' x).mpr (.inr hx))
    · -- the role's listing ends for the first time: it is visited now
      refine Settled.append.mpr ⟨Settled.of_unvisited ?_, Settled.visit hV' (List.nil_subset _) ?_ hbelow⟩
      · intro x hx hx'
        rcases (hV' _).mp hx' with h | h
        · exact (hnew x hx).1 h
        · exact (hnew x hx).2 h
      · intro c hc
        rcases hs.finished_children hpol hP hn hc with h | h | h | h
        · exact .inl h
        · exact .inr (.inl h)
        · exact .inr (.inr (.inl (by simpa using h)))
        · exact .inr (.inr (.inr h))

/-- Under `onCompletion` the invariant holds after a page that leaves a role pending. -/
theorem CompletionInv.after (hpol : w.policy = .onCompletion) (hfit : w.store.MembersFit)
    (hs : w.CompletionInv s) (hP : s.pending = e :: below)
    (hne : (w.after s.visited e below (offsetOf e)).pending ≠ []) :
    w.CompletionInv (w.after s.visited e below (offsetOf e)) where
  pending_ne := hne
  cursors := w.cursors_after fun x hx => hs.cursors x (by rw [hP]; exact List.mem_cons_of_mem e hx)
  below_fresh := hs.after_below_fresh hP
  pending_reach := hs.after_pending_reach hpol hP
  visited_reach := hs.after_visited_reach hpol hP
  visited_ascending := w.after_ascending hs.visited_ascending e below _
  root_seen := hs.after_root_seen hpol hP
  closed := hs.after_closed hpol hP
  top_read := hs.after_top_read hpol hfit hP
  settled := hs.after_settled hpol hP

/-- A page leaves no more roles tracked than there are reachable roles. -/
theorem CompletionInv.after_tracked (hpol : w.policy = .onCompletion) (hs : w.CompletionInv s)
    (hP : s.pending = e :: below) :
    (w.after s.visited e below (offsetOf e)).trackedRoles ≤ (reach w.store w.root).card := by
  rw [TraversalToken.trackedRoles_eq_card (w.after_ascending hs.visited_ascending e below _).nodup]
  apply Finset.card_le_card
  intro x hx
  rw [Finset.mem_union, List.mem_toFinset, List.mem_toFinset] at hx
  rcases hx with hx | hx
  · exact hs.after_visited_reach hpol hP x hx
  · exact hs.after_pending_reach hpol hP x hx

/-- **A call under the invariant.** With room for every reachable role, a call from a token of
the invariant reads the page of the entry on top and hands back the token `after` builds. -/
theorem CompletionInv.step_eq (hpol : w.policy = .onCompletion) (hfit : w.store.MembersFit)
    (hmax : (reach w.store w.root).card ≤ w.maxRoles) (hs : w.CompletionInv s)
    (hP : s.pending = e :: below) :
    w.step s = .ok ((w.pageAt e.role (offsetOf e)).filterMap (memberGrant w.store w.root e.role),
      w.after s.visited e below (offsetOf e)) := by
  rw [w.step_of_pending hfit hP (hs.cursors e (by rw [hP]; exact List.mem_cons_self))]
  exact checked_of_le (le_trans (hs.after_tracked hpol hP) hmax)

/-- When a page empties the stack, every reachable role is visited. -/
theorem CompletionInv.reach_subset_of_done (hpol : w.policy = .onCompletion)
    (hs : w.CompletionInv s) (hP : s.pending = e :: below)
    (hd : (w.after s.visited e below (offsetOf e)).isDone = true) :
    reach w.store w.root ⊆ (w.after s.visited e below (offsetOf e)).visited.toFinset := by
  have hnp : ∀ x, x ∉ (w.after s.visited e below (offsetOf e)).pendingRoles := by
    have hnil : (w.after s.visited e below (offsetOf e)).pending = [] := by
      simpa [TraversalToken.isDone] using hd
    simp [TraversalToken.pendingRoles, hnil]
  refine reach_subset_of_closed ?_ ?_
  · rw [List.mem_toFinset]
    exact (hs.after_root_seen hpol hP).resolve_right (hnp _)
  · intro k hk c hc
    rw [List.mem_toFinset] at hk ⊢
    rcases hs.after_closed hpol hP k hk c hc with h | h | h
    · exact h ▸ hk
    · exact h
    · exact absurd h (hnp c)

end Step

end Traversal

/-! ## What is left to read -/

/-- Counting the members of a list that satisfy `p` by ones. -/
theorem sum_map_ite_one {α : Type} (l : List α) (p : α → Prop) [DecidablePred p] :
    (l.map fun x => if p x then 1 else 0).sum = l.countP fun x => decide (p x) := by
  induction l with
  | nil => rfl
  | cons a l ih =>
    simp only [List.map_cons, List.sum_cons, List.countP_cons, ih, decide_eq_true_eq]
    omega

/-- The grants of a list of rows, as the sum of the grant each row gives. -/
theorem sum_map_toList {α β : Type} (l : List α) (f : α → Option β) :
    (l.map fun x => ((f x).toList : Multiset β)).sum = ↑(l.filterMap f) := by
  induction l with
  | nil => rfl
  | cons a l ih =>
    rw [List.map_cons, List.sum_cons, ih, List.filterMap_cons]
    cases f a <;> simp

/-- Whether a row of `k` names `R`, when `k` is another role than `R`. -/
def mentions (R k : RoleKey) (m : MemberRow) : Nat :=
  if k ≠ R ∧ childRole k m = some R then 1 else 0

/-- The rows of another role than `R` that name it, counted by `mentions`. -/
theorem sum_mentions (R k : RoleKey) (rows : List MemberRow) :
    (rows.map (mentions R k)).sum =
      if k = R then 0 else rows.countP fun m => childRole k m = some R := by
  unfold mentions
  by_cases hk : k = R
  · simp [hk]
  · rw [if_neg hk, ← sum_map_ite_one]
    simp [hk]

namespace Traversal

variable (w : Traversal)

/-- The offset the listing of `k` is read from next: the top entry's, when it lists `k`, or
the listing's start. -/
def offTop (s : TraversalToken) (k : RoleKey) : Nat :=
  match s.pending with
  | e :: _ => if e.role = k then offsetOf e else 0
  | [] => 0

/-- What the unvisited reachable roles still owe, each row they have not read weighed by
`wt`. -/
noncomputable def owed {M : Type} [AddCommMonoid M] (wt : RoleKey → MemberRow → M)
    (s : TraversalToken) : M :=
  ∑ k ∈ reach w.store w.root \ s.visited.toFinset,
    (((w.rows k).drop (offTop s k)).map (wt k)).sum

/-- What queueing the role a row of `k` names costs: the pages of that role's listing, or
nothing when the row names no role other than `k`. -/
def childPages (k : RoleKey) (m : MemberRow) : Nat :=
  match childRole k m with
  | some c => if c = k then 0 else pagesFor w.limit (w.rows c).length
  | none => 0

/-- A bound on the calls left: the pages of the pending listings from their offsets, and the
pages of the listings the unvisited reachable roles may still queue. -/
noncomputable def callsBound (s : TraversalToken) : Nat :=
  (s.pending.map fun e => pagesFor w.limit ((w.rows e.role).length - offsetOf e)).sum +
    w.owed w.childPages s

/-- The grants still owed: those of the rows the unvisited reachable roles have not read. -/
noncomputable def grantsOwed (s : TraversalToken) : Multiset Grant :=
  w.owed (fun k m => ((memberGrant w.store w.root k m).toList : Multiset Grant)) s

/-- The listing on top of the stack when it is under way. -/
def underWay (t : TraversalToken) : Option RoleKey :=
  match t.pending with
  | e :: _ => if e.cursor = none then none else some e.role
  | [] => none

/-- Whether the listing of `R` must still be opened for `R` to be visited. -/
def unopened (R : RoleKey) (s : TraversalToken) : Nat :=
  if R ∈ s.visited ∨ underWay s = some R then 0 else 1

/-- How many more times the listing of `R` may be opened: its entries waiting at their start,
and, unless `R` is visited or its listing is on top, the unread rows of the unvisited roles
that name it. -/
noncomputable def opensLeft (R : RoleKey) (s : TraversalToken) : Nat :=
  s.pending.count ⟨R, none⟩ +
    if R ∈ s.visited ∨ s.pending.head?.map (·.role) = some R then 0 else w.owed (mentions R) s

/-- The cost of the rows of a page: the pages of the roles other than `k` they name. -/
theorem sum_childPages (k : RoleKey) (page : List MemberRow) :
    (page.map (w.childPages k)).sum =
      ((page.filterMap fun m => (childRole k m).filter (· != k)).map
        fun c => pagesFor w.limit (w.rows c).length).sum := by
  induction page with
  | nil => rfl
  | cons m rest ih =>
    rw [List.map_cons, List.sum_cons, ih, List.filterMap_cons]
    unfold childPages
    cases childRole k m with
    | none => simp
    | some c => by_cases hc : c = k <;> simp [hc, Option.filter_some]

section Step

variable {w} {s : TraversalToken} {e : FrontierEntry} {below : List FrontierEntry}

theorem offTop_of_top (hP : s.pending = e :: below) (k : RoleKey) :
    offTop s k = if e.role = k then offsetOf e else 0 := by
  unfold offTop
  rw [hP]

/-- After a page, the listing read from somewhere else than its start is at most the one
the page resumes. -/
theorem CompletionInv.offTop_after (hfit : w.store.MembersFit) (hs : w.CompletionInv s)
    (hP : s.pending = e :: below) (k : RoleKey) :
    offTop (w.after s.visited e below (offsetOf e)) k =
      if e.role = k then ((w.nextAt e.role (offsetOf e)).getD 0) else 0 := by
  cases hn : w.nextAt e.role (offsetOf e) with
  | none =>
    -- every entry left is at its start
    have hfresh := hs.after_fresh_of_none hP hn
    unfold offTop
    split
    · next x rest hx =>
      have hx0 : x.cursor = none := hfresh x (by rw [hx]; exact List.mem_cons_self)
      obtain ⟨r, cur⟩ := x
      simp only at hx0
      subst hx0
      simp
    · simp
  | some n =>
    obtain ⟨rfl, hlen⟩ := w.nextAt_eq_some hn
    have hpend := w.after_pending s.visited e below (offsetOf e)
    rw [hn] at hpend
    simp only [Option.map_some, Option.toList_some, List.cons_append, List.nil_append] at hpend
    rw [offTop_of_top hpend, offsetOf_resume e (Nat.lt_trans hlen (hfit.lengths e.role))]
    rfl

/-- **A page leaves what is owed.** A call reads one page: the page's rows leave what the
unvisited roles owe when its role is not visited, and nothing else changes. -/
theorem CompletionInv.owed_after {M : Type} [AddCommMonoid M] (hpol : w.policy = .onCompletion)
    (hfit : w.store.MembersFit) (hs : w.CompletionInv s) (hP : s.pending = e :: below)
    (wt : RoleKey → MemberRow → M) :
    w.owed wt s = w.owed wt (w.after s.visited e below (offsetOf e)) +
      if e.role ∈ s.visited then 0 else ((w.pageAt e.role (offsetOf e)).map (wt e.role)).sum := by
  -- the listings of other roles are at their start, before the page and after it
  have hother : ∀ k, k ≠ e.role → offTop s k = 0 ∧
      offTop (w.after s.visited e below (offsetOf e)) k = 0 := by
    intro k hk
    rw [offTop_of_top hP, hs.offTop_after hfit hP, if_neg (Ne.symm hk), if_neg (Ne.symm hk)]
    exact ⟨rfl, rfl⟩
  have hsame : ∀ T : Finset RoleKey, e.role ∉ T →
      ∑ k ∈ T, (((w.rows k).drop (offTop (w.after s.visited e below (offsetOf e)) k)).map
        (wt k)).sum = ∑ k ∈ T, (((w.rows k).drop (offTop s k)).map (wt k)).sum := by
    intro T hT
    refine Finset.sum_congr rfl fun k hk => ?_
    have hk' : k ≠ e.role := fun h => hT (h ▸ hk)
    rw [(hother k hk').1, (hother k hk').2]
  unfold owed
  by_cases hv : e.role ∈ s.visited
  · -- a visited role: the unvisited roles are as they were, and none of them is read
    have hset : reach w.store w.root \ (w.after s.visited e below (offsetOf e)).visited.toFinset =
        reach w.store w.root \ s.visited.toFinset := by
      ext x
      simp only [Finset.mem_sdiff, List.mem_toFinset, mem_after_visited_of_completion hpol]
      constructor
      · rintro ⟨hx, hnv⟩
        exact ⟨hx, fun h => hnv (.inl h)⟩
      · rintro ⟨hx, hnv⟩
        refine ⟨hx, fun h => ?_⟩
        rcases h with h | ⟨-, rfl⟩
        · exact hnv h
        · exact hnv hv
    rw [if_pos hv, add_zero, hset, hsame _ fun h => (Finset.mem_sdiff.mp h).2 (by simpa using hv)]
  · rw [if_neg hv]
    have he : e.role ∈ reach w.store w.root \ s.visited.toFinset :=
      Finset.mem_sdiff.mpr ⟨hs.top_reach hP, by simpa using hv⟩
    rw [← Finset.add_sum_erase _ _ he, offTop_of_top hP, if_pos rfl, drop_eq_pageAt_append,
      List.map_append, List.sum_append,
      ← hsame _ (Finset.notMem_erase _ _)]
    cases hn : w.nextAt e.role (offsetOf e) with
    | some n =>
      -- the listing goes on: the role stays unvisited, read from after the page
      obtain ⟨rfl, -⟩ := w.nextAt_eq_some hn
      have hset : reach w.store w.root \ (w.after s.visited e below (offsetOf e)).visited.toFinset =
          reach w.store w.root \ s.visited.toFinset := by
        ext x
        simp [mem_after_visited_of_completion hpol, hn]
      rw [hset, ← Finset.add_sum_erase _ _ he, hs.offTop_after hfit hP, if_pos rfl, hn,
        Option.getD_some]
      abel
    | none =>
      -- the listing ends: the role is visited, and no rows are left after the page
      have hset : reach w.store w.root \ (w.after s.visited e below (offsetOf e)).visited.toFinset =
          (reach w.store w.root \ s.visited.toFinset).erase e.role := by
        ext x
        simp only [Finset.mem_sdiff, Finset.mem_erase, List.mem_toFinset,
          mem_after_visited_of_completion hpol, hn, true_and, not_or]
        tauto
      rw [hset, List.drop_of_length_le (w.length_le_of_nextAt hn), List.map_nil, List.sum_nil,
        add_zero]
      abel

/-- The pages of the roles a page queues are paid by its rows, when its role is not visited;
a visited role queues nothing. -/
theorem CompletionInv.found_pages_le (hpol : w.policy = .onCompletion) (hs : w.CompletionInv s)
    (hP : s.pending = e :: below) :
    ((w.found s.visited e below (offsetOf e)).map fun k => pagesFor w.limit (w.rows k).length).sum ≤
      if e.role ∈ s.visited then 0 else
        ((w.pageAt e.role (offsetOf e)).map (w.childPages e.role)).sum := by
  by_cases hv : e.role ∈ s.visited
  · rw [hs.found_eq_nil hpol hP hv, if_pos hv]
    rfl
  · rw [if_neg hv, sum_childPages]
    -- the roles found, each once, are among the roles the page's rows name
    have hsub : (w.found s.visited e below (offsetOf e)).Subperm
        ((w.pageAt e.role (offsetOf e)).filterMap fun m => (childRole e.role m).filter (· != e.role)) := by
      refine (w.found_nodup _ _ _ _).subperm fun k hk => ?_
      obtain ⟨hne, -, m, hm, hc⟩ := (mem_found_of_completion hpol).mp hk
      exact List.mem_filterMap.mpr ⟨m, hm, by simp [hc, hne]⟩
    obtain ⟨l, hperm, hl⟩ := hsub
    rw [← (hperm.map _).sum_eq]
    exact (hl.map _).sum_le_sum fun _ _ => Nat.zero_le _

/-- **A call spends at least one unit of the bound.** -/
theorem CompletionInv.callsBound_after (hpol : w.policy = .onCompletion)
    (hfit : w.store.MembersFit) (hs : w.CompletionInv s) (hP : s.pending = e :: below) :
    w.callsBound (w.after s.visited e below (offsetOf e)) + 1 ≤ w.callsBound s := by
  have howed := hs.owed_after hpol hfit hP w.childPages
  have hfound := hs.found_pages_le hpol hP
  unfold callsBound
  rw [hP, List.map_cons, List.sum_cons, sum_after_pending, w.pagesFor_after hfit e, howed]
  simp only [offsetOf_none, Nat.sub_zero]
  by_cases hv : e.role ∈ s.visited
  · rw [if_pos hv] at hfound ⊢
    omega
  · rw [if_neg hv] at hfound ⊢
    omega

/-- A call from a token of the invariant hands out exactly the grants it owes of its page. -/
theorem CompletionInv.grantsOwed_after (hpol : w.policy = .onCompletion)
    (hfit : w.store.MembersFit) (hs : w.CompletionInv s) (hP : s.pending = e :: below) :
    w.grantsOwed s ≤
      ↑((w.pageAt e.role (offsetOf e)).filterMap (memberGrant w.store w.root e.role)) +
        w.grantsOwed (w.after s.visited e below (offsetOf e)) := by
  have howed := hs.owed_after hpol hfit hP
    (fun k m => ((memberGrant w.store w.root k m).toList : Multiset Grant))
  rw [sum_map_toList] at howed
  unfold grantsOwed
  rw [howed]
  split
  · rw [add_zero]
    exact le_add_self
  · exact le_of_eq (add_comm _ _)

/-- A call opens the listing on top of its token when it is at its start. -/
theorem opening_of_top (hP : s.pending = e :: below) (policy : VisitPolicy) (root : RoleKey) :
    opening policy root s = if e.cursor = none then some e.role else none := by
  unfold opening
  rw [startFrom_of_not_isDone _ _ _ (by simp [TraversalToken.isDone, hP]), hP]

/-- A page queues a role at most once, and only when its rows name it and its own role is not
visited. -/
theorem CompletionInv.count_found_le (hpol : w.policy = .onCompletion) (hs : w.CompletionInv s)
    (hP : s.pending = e :: below) (R : RoleKey) :
    (w.found s.visited e below (offsetOf e)).count R ≤
      if e.role ∈ s.visited then 0 else ((w.pageAt e.role (offsetOf e)).map (mentions R e.role)).sum := by
  rw [(w.found_nodup _ _ _ _).count]
  by_cases hR : R ∈ w.found s.visited e below (offsetOf e)
  · obtain ⟨hne, -, m, hm, hc⟩ := (mem_found_of_completion hpol).mp hR
    have hv : e.role ∉ s.visited := fun hv => by
      rw [hs.found_eq_nil hpol hP hv] at hR
      cases hR
    rw [if_pos hR, if_neg hv]
    -- the row that names `R` counts one
    have hone : mentions R e.role m = 1 := by simp [mentions, hc, Ne.symm hne]
    calc 1 = mentions R e.role m := hone.symm
      _ ≤ ((w.pageAt e.role (offsetOf e)).map (mentions R e.role)).sum :=
        List.le_sum_of_mem (List.mem_map.mpr ⟨m, hm, rfl⟩)
  · rw [if_neg hR]
    exact Nat.zero_le _

/-- **A call opening `R`'s listing spends one of its opens left.** -/
theorem CompletionInv.opensLeft_after (hpol : w.policy = .onCompletion)
    (hfit : w.store.MembersFit) (hs : w.CompletionInv s) (hP : s.pending = e :: below)
    (R : RoleKey) :
    (if opening w.policy w.root s = some R then 1 else 0) +
        w.opensLeft R (w.after s.visited e below (offsetOf e)) ≤ w.opensLeft R s := by
  have hmap : ((w.found s.visited e below (offsetOf e)).map
      fun x => (⟨x, none⟩ : FrontierEntry)).count ⟨R, none⟩ =
        (w.found s.visited e below (offsetOf e)).count R :=
    List.count_map_of_injective _ (fun x => (⟨x, none⟩ : FrontierEntry))
      (fun a b h => by cases h; rfl) R
  have hcount : (w.after s.visited e below (offsetOf e)).pending.count ⟨R, none⟩ =
      (w.found s.visited e below (offsetOf e)).count R + below.count ⟨R, none⟩ := by
    rw [after_pending, List.count_append, List.count_append, hmap]
    cases w.nextAt e.role (offsetOf e) <;> simp
  have hopen : opening w.policy w.root s = some R ↔ e = ⟨R, none⟩ := by
    rw [opening_of_top hP]
    obtain ⟨r, cur⟩ := e
    cases cur <;> simp
  have htop : s.pending.head?.map (·.role) = some e.role := by
    rw [hP]
    rfl
  -- while the listing of `R` is read, nothing queues `R`, and after it `R` is on top or visited
  have hread : e.role = R → (w.found s.visited e below (offsetOf e)).count R = 0 ∧
      (R ∈ (w.after s.visited e below (offsetOf e)).visited ∨
        (w.after s.visited e below (offsetOf e)).pending.head?.map (·.role) = some R) := by
    rintro rfl
    refine ⟨List.count_eq_zero.mpr fun h => ((mem_found_of_completion hpol).mp h).1 rfl, ?_⟩
    cases hn : w.nextAt e.role (offsetOf e) with
    | none => exact .inl ((mem_after_visited_of_completion hpol).mpr (.inr ⟨hn, rfl⟩))
    | some n => exact .inr (by rw [after_pending, hn]; rfl)
  unfold opensLeft
  rw [hcount, htop, hP, List.count_cons]
  simp only [beq_iff_eq]
  by_cases he : e = ⟨R, none⟩
  · -- the call opens the listing of `R`
    obtain ⟨hnf, hleft⟩ := hread (by rw [he])
    rw [if_pos (hopen.mpr he), if_pos he, hnf, if_pos hleft, if_pos (.inr (by rw [he]))]
    omega
  · rw [if_neg (mt hopen.mp he), if_neg he]
    by_cases heR : e.role = R
    · -- the listing of `R` is under way on top
      obtain ⟨hnf, hleft⟩ := hread heR
      rw [hnf, if_pos hleft, if_pos (.inr (by rw [heR]))]
      omega
    · have hvis : R ∈ (w.after s.visited e below (offsetOf e)).visited ↔ R ∈ s.visited := by
        simp [mem_after_visited_of_completion hpol, Ne.symm heR]
      have hhead : some e.role ≠ some R := fun h => heR (Option.some.inj h)
      by_cases hRv : R ∈ s.visited
      · -- a visited role is queued no more
        have hnf : (w.found s.visited e below (offsetOf e)).count R = 0 :=
          List.count_eq_zero.mpr fun h => ((mem_found_of_completion hpol).mp h).2.1 hRv
        rw [hnf, if_pos (.inl (hvis.mpr hRv)), if_pos (.inl hRv)]
        omega
      · -- a page of another role queues `R` at most once, paid by a row that names it
        have hfound := hs.count_found_le hpol hP R
        rw [if_neg (not_or.mpr ⟨hRv, hhead⟩), hs.owed_after hpol hfit hP (mentions R)]
        have hleft : (if R ∈ (w.after s.visited e below (offsetOf e)).visited ∨
            (w.after s.visited e below (offsetOf e)).pending.head?.map (·.role) = some R then 0
            else w.owed (mentions R) (w.after s.visited e below (offsetOf e))) ≤
              w.owed (mentions R) (w.after s.visited e below (offsetOf e)) := by
          split
          · exact Nat.zero_le _
          · exact le_rfl
        by_cases hv : e.role ∈ s.visited
        · rw [if_pos hv] at hfound ⊢
          omega
        · rw [if_neg hv] at hfound ⊢
          omega

/-- A call opens `R`'s listing, or leaves as much to open as there was. -/
theorem CompletionInv.unopened_after (hpol : w.policy = .onCompletion) (hs : w.CompletionInv s)
    (hP : s.pending = e :: below) (R : RoleKey) :
    unopened R s ≤ (if opening w.policy w.root s = some R then 1 else 0) +
      unopened R (w.after s.visited e below (offsetOf e)) := by
  unfold unopened
  rw [opening_of_top hP]
  by_cases heR : e.role = R
  · subst heR
    cases hc : e.cursor with
    | none =>
      simp only [if_true]
      split <;> omega
    | some c =>
      -- the listing of the role is under way
      have hway : underWay s = some e.role := by
        unfold underWay
        rw [hP]
        simp [hc]
      simp [hway]
  · -- another role is read: `R` is visited after it exactly when before, and not under way
    have hvis : R ∈ (w.after s.visited e below (offsetOf e)).visited ↔ R ∈ s.visited := by
      simp [mem_after_visited_of_completion hpol, Ne.symm heR]
    have hway : underWay s ≠ some R := by
      unfold underWay
      rw [hP]
      by_cases hc : e.cursor = none
      · simp [hc]
      · simp [hc, heR]
    have hway' : underWay (w.after s.visited e below (offsetOf e)) ≠ some R := by
      unfold underWay
      split
      · next x rest hx =>
        split
        · simp
        · -- only the resumed listing can be under way after the page
          next hcur =>
          have hx' : x ∈ (w.after s.visited e below (offsetOf e)).pending := by
            rw [hx]
            exact List.mem_cons_self
          rw [after_pending, List.mem_append, List.mem_append] at hx'
          rcases hx' with (hx' | hx') | hx'
          · cases hn : w.nextAt e.role (offsetOf e) <;> simp_all
          · obtain ⟨k, -, rfl⟩ := List.mem_map.mp hx'
            exact absurd rfl hcur
          · exact absurd (hs.below_fresh x (by rw [hP]; exact hx')) hcur
      · simp
    simp only [hvis, hway, hway', or_false]
    split <;> simp

end Step

end Traversal

/-- The grants of the calls of a list, as a sum of multisets. -/
theorem sum_map_coe {α β : Type} (l : List α) (g : α → List β) :
    (l.map fun t => (↑(g t) : Multiset β)).sum = ↑(l.flatMap g) := by
  induction l with
  | nil => rfl
  | cons a l ih => rw [List.map_cons, List.sum_cons, ih, List.flatMap_cons, Multiset.coe_add]

namespace Traversal

variable {w : Traversal} {s : TraversalToken} {e : FrontierEntry} {below : List FrontierEntry}

/-- Under `onCompletion` the invariant holds after a page that leaves a role pending. -/
theorem CompletionInv.next (hpol : w.policy = .onCompletion) (hfit : w.store.MembersFit)
    (hs : w.CompletionInv s) (hP : s.pending = e :: below)
    (hd : (w.after s.visited e below (offsetOf e)).isDone = false) :
    w.CompletionInv (w.after s.visited e below (offsetOf e)) :=
  hs.after hpol hfit hP (by simpa [TraversalToken.isDone] using hd)

/-- Once the stack is empty, no reachable role's listing is left to open. -/
theorem CompletionInv.unopened_of_done (hpol : w.policy = .onCompletion) (hs : w.CompletionInv s)
    (hP : s.pending = e :: below)
    (hd : (w.after s.visited e below (offsetOf e)).isDone = true) {R : RoleKey}
    (hR : R ∈ reach w.store w.root) : unopened R (w.after s.visited e below (offsetOf e)) = 0 := by
  have hv := hs.reach_subset_of_done hpol hP hd hR
  rw [List.mem_toFinset] at hv
  simp [unopened, hv]

/-- Once the stack is empty, no grant is owed. -/
theorem CompletionInv.grantsOwed_of_done (hpol : w.policy = .onCompletion)
    (hs : w.CompletionInv s) (hP : s.pending = e :: below)
    (hd : (w.after s.visited e below (offsetOf e)).isDone = true) :
    w.grantsOwed (w.after s.visited e below (offsetOf e)) = 0 := by
  unfold grantsOwed owed
  rw [Finset.sdiff_eq_empty_iff_subset.mpr (hs.reach_subset_of_done hpol hP hd),
    Finset.sum_empty]

/-- A call from a token of the invariant hands out grants of the members of a reachable
role. -/
theorem CompletionInv.grants_sound (hs : w.CompletionInv s) (hP : s.pending = e :: below)
    {x : Grant} (hx : x ∈ (w.pageAt e.role (offsetOf e)).filterMap (memberGrant w.store w.root e.role)) :
    ∃ k ∈ reach w.store w.root, x ∈ memberGrants w.store w.root k := by
  obtain ⟨m, hm, hg⟩ := List.mem_filterMap.mp hx
  exact ⟨e.role, hs.top_reach hP, List.mem_filterMap.mpr ⟨m, w.mem_rows_of_mem_pageAt hm, hg⟩⟩

end Traversal

/-! ## From the empty token -/

namespace Traversal

variable (w : Traversal)

/-- The token the first call starts from: the root, with its listing at its start. -/
theorem startFrom_fresh_completion (hpol : w.policy = .onCompletion) :
    startFrom w.policy w.root .fresh = ⟨[⟨w.root, none⟩], []⟩ := by
  unfold startFrom
  rw [hpol]
  rfl

/-- The first call's token is one of the invariant. -/
theorem completionInv_start : w.CompletionInv ⟨[⟨w.root, none⟩], []⟩ where
  pending_ne := List.cons_ne_nil _ _
  cursors := by
    intro e he
    rw [List.mem_singleton] at he
    subst he
    exact ⟨none, rfl, by simp⟩
  below_fresh := fun _ h => by cases h
  pending_reach := by
    intro k hk
    simp only [TraversalToken.pendingRoles, List.map_cons, List.map_nil,
      List.mem_singleton] at hk
    subst hk
    exact root_mem_reach _ _
  visited_reach := fun _ h => by cases h
  visited_ascending := List.Pairwise.nil
  root_seen := .inr (by simp [TraversalToken.pendingRoles])
  closed := fun _ h => by cases h
  top_read := by
    intro e below hP m hm
    simp only [List.cons.injEq] at hP
    obtain ⟨rfl, -⟩ := hP
    simp at hm
  settled := ⟨fun h => (by cases h), trivial⟩

theorem offTop_start (k : RoleKey) : offTop ⟨[⟨w.root, none⟩], []⟩ k = 0 := by
  show (if w.root = k then offsetOf ⟨w.root, none⟩ else 0) = 0
  split <;> rfl

/-- At the start every listing but the root's may be opened once for each row of another
reachable role that names it; the root's is opened once. -/
theorem opensLeft_start (R : RoleKey) :
    w.opensLeft R ⟨[⟨w.root, none⟩], []⟩ =
      if R = w.root then 1 else roleMentions w.store w.root R := by
  unfold opensLeft
  by_cases hR : R = w.root
  · subst hR
    simp
  · have hne : (⟨w.root, none⟩ : FrontierEntry) ≠ ⟨R, none⟩ := fun h => hR (by cases h; rfl)
    rw [if_neg hR, List.count_singleton, if_neg (by simpa using hne), zero_add,
      if_neg (by simpa [eq_comm] using hR)]
    unfold owed roleMentions
    simp only [List.toFinset_nil, Finset.sdiff_empty, offTop_start, List.drop_zero, sum_mentions]
    -- the root's own rows are not counted, and rows of other roles naming `R` are
    by_cases hRr : R ∈ reach w.store w.root
    · rw [← Finset.add_sum_erase _ _ hRr, if_pos rfl, zero_add]
      refine Finset.sum_congr rfl fun k hk => ?_
      rw [if_neg (Finset.ne_of_mem_erase hk)]
      rfl
    · rw [Finset.erase_eq_of_notMem hRr]
      refine Finset.sum_congr rfl fun k hk => ?_
      rw [if_neg (fun (h : k = R) => hRr (h ▸ hk))]
      rfl

/-- At the start every listing is still to be opened. -/
theorem unopened_start (R : RoleKey) : unopened R ⟨[⟨w.root, none⟩], []⟩ = 1 := by
  simp [unopened, underWay]

/-- At the start every grant of every reachable role is owed. -/
theorem grantsOwed_start :
    w.grantsOwed ⟨[⟨w.root, none⟩], []⟩ =
      ∑ k ∈ reach w.store w.root, (memberGrants w.store w.root k : Multiset Grant) := by
  unfold grantsOwed owed memberGrants
  simp only [List.toFinset_nil, Finset.sdiff_empty, offTop_start, List.drop_zero, sum_map_toList]
  rfl

/-- A call reads its token only once started, so it opens the listing of its started token. -/
theorem opening_startFrom (t : TraversalToken) :
    opening w.policy w.root (startFrom w.policy w.root t) = opening w.policy w.root t := by
  have h : startFrom w.policy w.root (startFrom w.policy w.root t) = startFrom w.policy w.root t := by
    refine startFrom_of_not_isDone _ _ _ ?_
    simpa [TraversalToken.isDone] using startFrom_pending_ne_nil w.policy w.root t
  unfold opening
  rw [h]

theorem inputs_startFrom (calls : Nat) (t : TraversalToken) :
    (w.inputs calls (startFrom w.policy w.root t)).map (opening w.policy w.root) =
      (w.inputs calls t).map (opening w.policy w.root) := by
  cases calls with
  | zero => rfl
  | succ calls => simp only [inputs, step_startFrom, List.map_cons, opening_startFrom]

/-- A run from the root's listing opens a role's listing no more often than the start leaves
openings of it. -/
theorem opened_le_opensLeft (hpol : w.policy = .onCompletion) (hfit : w.store.MembersFit)
    (hmax : (reach w.store w.root).card ≤ w.maxRoles) (R : RoleKey) (calls : Nat) :
    ((w.inputs calls ⟨[⟨w.root, none⟩], []⟩).map fun t =>
        if opening w.policy w.root t = some R then 1 else 0).sum ≤
      w.opensLeft R ⟨[⟨w.root, none⟩], []⟩ :=
  w.sum_inputs_le w.CompletionInv _ (w.opensLeft R) (fun s hs => by
    obtain ⟨e, below, hP⟩ := List.exists_cons_of_ne_nil hs.pending_ne
    exact ⟨_, _, hs.step_eq hpol hfit hmax hP, hs.opensLeft_after hpol hfit hP R,
      hs.next hpol hfit hP⟩) calls _ w.completionInv_start

/-- A finished run from the root's listing opens every reachable role's listing at least
once: each is unopened at the start and opened when the run ends. -/
theorem one_le_opened (hpol : w.policy = .onCompletion) (hfit : w.store.MembersFit)
    (hmax : (reach w.store w.root).card ≤ w.maxRoles) {R : RoleKey}
    (hR : R ∈ reach w.store w.root) {calls : Nat}
    (hfin : Finishes (w.run calls ⟨[⟨w.root, none⟩], []⟩)) :
    1 ≤ ((w.inputs calls ⟨[⟨w.root, none⟩], []⟩).map fun t =>
      if opening w.policy w.root t = some R then 1 else 0).sum :=
  calc 1 = unopened R ⟨[⟨w.root, none⟩], []⟩ := (w.unopened_start _).symm
    _ ≤ _ := w.le_sum_inputs w.CompletionInv _ (unopened R) (fun s hs => by
          obtain ⟨e, below, hP⟩ := List.exists_cons_of_ne_nil hs.pending_ne
          exact ⟨_, _, hs.step_eq hpol hfit hmax hP, hs.unopened_after hpol hP R,
            fun hd => hs.unopened_of_done hpol hP hd hR, hs.next hpol hfit hP⟩)
        calls _ w.completionInv_start hfin

/-- **Runs under `onCompletion`.** From the fresh token, with room for every reachable role,
a run of any number of calls makes as many as it may up to some `N`, all successful; given
`N` calls it finishes, having handed out exactly the grants of the members of the reachable
roles, possibly repeated, opened the root's listing once, and every other reachable role's
at least once and at most as often as rows of other reachable roles name it. -/
theorem run_onCompletion (hpol : w.policy = .onCompletion) (hfit : w.store.MembersFit)
    (hmax : (reach w.store w.root).card ≤ w.maxRoles) :
    ∃ N, ∀ calls, (w.run calls .fresh).length = min calls N ∧
      (∀ r ∈ w.run calls .fresh, ∃ g t, r = .ok (g, t)) ∧
      (N ≤ calls → Finishes (w.run calls .fresh) ∧
        (∀ x, x ∈ grantsOf (w.run calls .fresh) ↔
          ∃ k ∈ reach w.store w.root, x ∈ memberGrants w.store w.root k) ∧
        (w.inputs calls .fresh).countP (fun t => opening w.policy w.root t = some w.root) = 1 ∧
        ∀ k ∈ reach w.store w.root, k ≠ w.root →
          1 ≤ (w.inputs calls .fresh).countP (fun t => opening w.policy w.root t = some k) ∧
          (w.inputs calls .fresh).countP (fun t => opening w.policy w.root t = some k) ≤
            roleMentions w.store w.root k) := by
  -- the first call starts from the root's listing
  have hrun : ∀ calls, w.run calls .fresh = w.run calls ⟨[⟨w.root, none⟩], []⟩ := fun calls => by
    rw [← run_startFrom, w.startFrom_fresh_completion hpol]
  have hopens : ∀ calls R, (w.inputs calls .fresh).countP
      (fun t => opening w.policy w.root t = some R) =
        ((w.inputs calls ⟨[⟨w.root, none⟩], []⟩).map fun t =>
          if opening w.policy w.root t = some R then 1 else 0).sum := by
    intro calls R
    rw [sum_map_ite_one, ← w.startFrom_fresh_completion hpol]
    have h := congrArg (List.countP fun o => decide (o = some R)) (w.inputs_startFrom calls .fresh)
    simp only [List.countP_map] at h
    exact h.symm
  -- each call spends one unit of the bound, so the run ends
  obtain ⟨N, hN⟩ := w.run_terminates w.CompletionInv w.callsBound (fun s hs => by
    obtain ⟨e, below, hP⟩ := List.exists_cons_of_ne_nil hs.pending_ne
    refine ⟨_, _, hs.step_eq hpol hfit hmax hP, fun hd => ⟨hs.next hpol hfit hP hd, ?_⟩⟩
    have := hs.callsBound_after hpol hfit hP
    omega) _ (w.completionInv_start)
  refine ⟨N, fun calls => ?_⟩
  obtain ⟨hlen, hok, hfin⟩ := hN calls
  rw [hrun]
  refine ⟨hlen, hok, fun hle => ⟨hfin hle, fun x => ⟨fun hx => ?_, fun hx => ?_⟩, ?_, ?_⟩⟩
  · -- every grant handed out is a member's grant of a reachable role
    obtain ⟨r, hr, hxr⟩ := List.mem_flatMap.mp hx
    obtain ⟨g, t, rfl⟩ := hok r hr
    refine w.run_forall w.CompletionInv (fun g _ => ∀ x ∈ g, ∃ k ∈ reach w.store w.root,
        x ∈ memberGrants w.store w.root k) (fun s hs => ?_) calls _ w.completionInv_start g t hr x hxr
    obtain ⟨e, below, hP⟩ := List.exists_cons_of_ne_nil hs.pending_ne
    exact ⟨_, _, hs.step_eq hpol hfit hmax hP, fun x hx => hs.grants_sound hP hx,
      hs.next hpol hfit hP⟩
  · -- every grant owed at the start is handed out by the finished run
    have howed := w.le_sum_inputs w.CompletionInv (fun t => (↑(w.callGrants t) : Multiset Grant))
      w.grantsOwed (fun s hs => by
        obtain ⟨e, below, hP⟩ := List.exists_cons_of_ne_nil hs.pending_ne
        have hcall : w.callGrants s =
            (w.pageAt e.role (offsetOf e)).filterMap (memberGrant w.store w.root e.role) := by
          rw [callGrants, hs.step_eq hpol hfit hmax hP]
        exact ⟨_, _, hs.step_eq hpol hfit hmax hP, hcall ▸ hs.grantsOwed_after hpol hfit hP,
          hs.grantsOwed_of_done hpol hP, hs.next hpol hfit hP⟩) calls _ w.completionInv_start
        (hfin hle)
    rw [w.grantsOwed_start, sum_map_coe, ← grantsOf_run] at howed
    obtain ⟨k, hk, hxk⟩ := hx
    exact Multiset.mem_of_le howed (Multiset.mem_sum.mpr ⟨k, hk, hxk⟩)
  · -- the root's listing is opened once
    rw [hopens]
    refine le_antisymm ?_ (w.one_le_opened hpol hfit hmax (root_mem_reach _ _) (hfin hle))
    calc _ ≤ _ := w.opened_le_opensLeft hpol hfit hmax w.root calls
      _ = 1 := by rw [opensLeft_start, if_pos rfl]
  · -- every other reachable role's listing is opened at least once, and at most as often as
    -- rows of other reachable roles name it
    intro k hk hkr
    rw [hopens]
    refine ⟨w.one_le_opened hpol hfit hmax hk (hfin hle), ?_⟩
    calc _ ≤ _ := w.opened_le_opensLeft hpol hfit hmax k calls
      _ = roleMentions w.store w.root k := by rw [opensLeft_start, if_neg hkr]

end Traversal

/-! ## Draining a session -/

/-- The tokens the calls of a drain were made with read back as the tokens the calls of its
run were made with, so they open the same listings. -/
theorem listingOpened_callTokens {st : Store} (hfit : st.MembersFit) {key : RoleKey}
    (hvalid : key.Valid) (c : Connector) (size : Nat) :
    ∀ (calls : Nat) (token : String) (t : TraversalToken), TraversalToken.decode token = .ok t →
      t.WellFormed →
      (callTokens token (((c.traversal st key size).run calls t).map
          (Except.map fun r => ⟨r.1, r.2.encode⟩))).map (c.listingOpened key) =
        ((c.traversal st key size).inputs calls t).map (opening c.policy key) := by
  intro calls
  induction calls with
  | zero => intro token t _ _; rfl
  | succ calls ih =>
    intro token t hdec ht
    have hhead : c.listingOpened key token = opening c.policy key t := by
      unfold Connector.listingOpened
      rw [hdec]
    cases hstep : (c.traversal st key size).step t with
    | error err => simp [Traversal.run, Traversal.inputs, hstep, callTokens, Except.map, hhead]
    | ok r =>
      obtain ⟨g, t'⟩ := r
      rw [Traversal.run_succ_of_step hstep, Traversal.inputs_succ_of_step hstep]
      cases hd : t'.isDone
      · -- the next call is made with the token this one handed back, which reads back
        have ht' : t'.WellFormed := advance_wellFormed hfit hvalid ht hstep
        have hp : t'.pending ≠ [] := by simpa [TraversalToken.isDone] using hd
        simp only [Bool.false_eq_true, if_false, List.map_cons, Except.map, callTokens, hhead]
        rw [ih _ t' (TraversalToken.decode_encode_of_pending ht' hp) ht']
      · simp [callTokens, Except.map, hhead]

/-- **Termination and completeness under `onCompletion`.** Over a session whose cache agrees
with its store, whose connector visits a role once its listing ends and may track every role
reachable from a valid `root`, a drain from the empty token of any number of calls makes as
many calls as it may up to some `N`, and every call succeeds. Given `N` calls the drain ends
with a last page; the grants it hands out, possibly repeated, are exactly the grants of the
members of the reachable roles; it opens the root's listing once, and every other reachable
role's listing at least once and at most as often as rows of other reachable roles name it. -/
theorem onCompletion_drain_complete (s : Session) (root : RoleKey) (size : Nat)
    (hpol : s.connector.policy = .onCompletion) (hroot : root.Valid)
    (hfit : s.inventory.store.MembersFit)
    (hcache : s.inventory.cache.Agrees s.inventory.store.mappings)
    (hmax : (reach s.inventory.store root).card ≤ s.connector.maxRoles) :
    ∃ N, ∀ calls,
      (s.drainFrom root.resourceId size calls "").1.length = min calls N ∧
      (∀ p ∈ (s.drainFrom root.resourceId size calls "").1, ∃ q, p = .ok q) ∧
      (N ≤ calls →
        (∃ q, (s.drainFrom root.resourceId size calls "").1.getLast? = some (.ok q) ∧
          q.isLast = true) ∧
        (∀ g, g ∈ drainGrants (s.drainFrom root.resourceId size calls "").1 ↔
          ∃ k ∈ reach s.inventory.store root, g ∈ memberGrants s.inventory.store root k) ∧
        listingsOpened s.connector root root "" (s.drainFrom root.resourceId size calls "").1 = 1 ∧
        ∀ k ∈ reach s.inventory.store root, k ≠ root →
          1 ≤ listingsOpened s.connector root k "" (s.drainFrom root.resourceId size calls "").1 ∧
          listingsOpened s.connector root k "" (s.drainFrom root.resourceId size calls "").1 ≤
            roleMentions s.inventory.store root k) := by
  obtain ⟨N, hN⟩ := (s.connector.traversal s.inventory.store root size).run_onCompletion
    hpol hfit hmax
  refine ⟨N, fun calls => ?_⟩
  obtain ⟨hpages, -⟩ := drainFrom_run hfit (RoleKey.ofResource_resourceId hroot) hroot size
    calls s _ "" .fresh (Inventory.matches_self hcache) TraversalToken.decode_empty
    TraversalToken.wellFormed_fresh
  -- the calls of the drain open the listings the calls of the run open
  have hopened : ∀ k, listingsOpened s.connector root k "" (s.drainFrom root.resourceId size calls "").1 =
      ((s.connector.traversal s.inventory.store root size).inputs calls .fresh).countP
        fun t => opening s.connector.policy root t = some k := by
    intro k
    have h := congrArg (List.countP fun o => decide (o = some k))
      (listingOpened_callTokens hfit hroot s.connector size calls "" .fresh
        TraversalToken.decode_empty TraversalToken.wellFormed_fresh)
    simp only [List.countP_map, Function.comp_def] at h
    unfold listingsOpened
    rw [hpages]
    exact h
  obtain ⟨hlen, hok, hend⟩ := hN calls
  simp only [hopened]
  rw [hpages]
  refine ⟨by rw [List.length_map, hlen], ?_, fun hle => ?_⟩
  · intro p hp
    obtain ⟨r, hr, rfl⟩ := List.mem_map.mp hp
    obtain ⟨g, t, rfl⟩ := hok r hr
    exact ⟨_, rfl⟩
  · obtain ⟨hfin, hgrants, hroot1, hother⟩ := hend hle
    refine ⟨(finishes_map hfin).2, fun g => ?_, hroot1, hother⟩
    rw [drainGrants_map]
    exact hgrants g

/-- A role listed twice and a diamond: the root names roles 2 and 3, and role 2 names role 3
again. The hypotheses of the drain under `onCompletion` are met, and so is its conclusion. -/
theorem onCompletion_drain_diamond :
    let s : Session := ⟨Connector.build .builtin .onCompletion 10 50 1000,
      ⟨{ Store.empty with
          members := ⟨[(.server ⟨1⟩, [⟨⟨2⟩, "a", "R"⟩, ⟨⟨3⟩, "b", "R"⟩]),
            (.server ⟨2⟩, [⟨⟨3⟩, "b", "R"⟩, ⟨⟨4⟩, "u", "U"⟩]),
            (.server ⟨3⟩, [⟨⟨5⟩, "v", "U"⟩])]⟩ }, .empty 0⟩, "", ""⟩
    let root : RoleKey := .server ⟨1⟩
    (s.connector.policy = .onCompletion ∧ root.Valid ∧ s.inventory.store.MembersFit ∧
      s.inventory.cache.Agrees s.inventory.store.mappings ∧
      (reach s.inventory.store root).card ≤ s.connector.maxRoles) ∧
    ∃ N, ∀ calls,
      (s.drainFrom root.resourceId 1 calls "").1.length = min calls N ∧
      (∀ p ∈ (s.drainFrom root.resourceId 1 calls "").1, ∃ q, p = .ok q) ∧
      (N ≤ calls →
        (∃ q, (s.drainFrom root.resourceId 1 calls "").1.getLast? = some (.ok q) ∧
          q.isLast = true) ∧
        (∀ g, g ∈ drainGrants (s.drainFrom root.resourceId 1 calls "").1 ↔
          ∃ k ∈ reach s.inventory.store root, g ∈ memberGrants s.inventory.store root k) ∧
        listingsOpened s.connector root root "" (s.drainFrom root.resourceId 1 calls "").1 = 1 ∧
        ∀ k ∈ reach s.inventory.store root, k ≠ root →
          1 ≤ listingsOpened s.connector root k "" (s.drainFrom root.resourceId 1 calls "").1 ∧
          listingsOpened s.connector root k "" (s.drainFrom root.resourceId 1 calls "").1 ≤
            roleMentions s.inventory.store root k) := by
  intro s root
  have hpol : s.connector.policy = .onCompletion := rfl
  have hroot : root.Valid := by constructor <;> decide
  have hfit : s.inventory.store.MembersFit := Store.MembersFit.of_rows (by decide)
  have hcache : s.inventory.cache.Agrees s.inventory.store.mappings :=
    MappingCache.agrees_empty 0 _
  have hmax : (reach s.inventory.store root).card ≤ s.connector.maxRoles :=
    le_trans (card_reach_le _ _) (by decide)
  exact ⟨⟨hpol, hroot, hfit, hcache, hmax⟩,
    onCompletion_drain_complete s root 1 hpol hroot hfit hcache hmax⟩

end AccessReview
