import AccessReview.Proofs.Drain

/-! # Traversals that visit roles as they find them

    Under `onDiscovery` a role is marked visited when it is queued, so it is queued at most
    once, and every reachable role has its listing read once, page after page, from its
    first row to its last. This file proves that a drain from the empty token makes exactly
    one call per page of the listings of the reachable roles, fetching one member page per
    call, and hands out, counted with their repeats, exactly the grants of the members of
    the reachable roles (`onDiscovery_drain_exact`).

    The proof is an invariant and two potentials. The invariant (`DiscoveryInv`) says that
    every pending role is visited and pending once, that visited roles are reachable, and
    that the roles named by the rows already read of a visited role are visited. The
    potentials count what is left: the pages of the pending listings and of the roles not
    visited yet (`callsLeft`), and their grants (`grantsLeft`). Each call reads one page,
    so it spends exactly one page of the potential and hands out the page's grants; the
    roles it finds move from the unvisited roles to the stack with all their pages
    (`DiscoveryInv.step`). When the stack is empty the visited roles are closed under
    membership, so they are all the reachable roles and nothing is left.
-/

namespace AccessReview

/-- A listing of `n` rows read from offset `o`: one page now, and the pages after it when rows
are left. -/
theorem pagesFor_read {L : Nat} (hL : 0 < L) (n o : Nat) :
    pagesFor L (n - o) = 1 + if o + L < n then pagesFor L (n - (o + L)) else 0 := by
  unfold pagesFor
  by_cases h : o + L < n
  · rw [if_pos h]
    have hdiv : (n - o + L - 1) / L = (n - (o + L) + L - 1) / L + 1 := by
      rw [show n - o + L - 1 = (n - (o + L) + L - 1) + L by omega, Nat.add_div_right _ hL]
    have hpos : 1 ≤ (n - (o + L) + L - 1) / L := (Nat.le_div_iff_mul_le hL).mpr (by omega)
    rw [hdiv]
    omega
  · rw [if_neg h]
    have hlt : (n - o + L - 1) / L < 2 := (Nat.div_lt_iff_lt_mul hL).mpr (by omega)
    omega

namespace Traversal

variable (w : Traversal)

/-- The invariant of a traversal under `onDiscovery`, on the token a call starts from. -/
structure DiscoveryInv (s : TraversalToken) : Prop where
  /-- A role is pending. -/
  pending_ne : s.pending ≠ []
  /-- Every cursor names an offset inside its listing. -/
  cursors : ∀ e ∈ s.pending, w.CursorFits e
  /-- Pending roles are visited: they were marked when queued. -/
  pending_visited : ∀ e ∈ s.pending, e.role ∈ s.visited
  /-- No role is pending twice. -/
  pending_nodup : s.pendingRoles.Nodup
  /-- Visited roles are reachable. -/
  visited_reach : ∀ k ∈ s.visited, k ∈ reach w.store w.root
  /-- The visited roles are in strictly increasing order. -/
  visited_ascending : RoleKey.Ascending s.visited
  /-- The root is visited. -/
  root_visited : w.root ∈ s.visited
  /-- A visited role no longer pending has had its roles visited. -/
  closed : ∀ k ∈ s.visited, k ∉ s.pendingRoles → ∀ c ∈ childRoles w.store k, c ∈ s.visited
  /-- The roles named by the rows a pending listing has read are visited. -/
  read_closed : ∀ e ∈ s.pending, ∀ m ∈ (w.rows e.role).take (offsetOf e), ∀ c,
    childRole e.role m = some c → c ∈ s.visited

/-- The calls a traversal has left: the pages of the pending listings from their offsets, and
of the listings of the reachable roles not visited yet. -/
noncomputable def callsLeft (s : TraversalToken) : Nat :=
  (s.pending.map fun e => pagesFor w.limit ((w.rows e.role).length - offsetOf e)).sum +
    ∑ k ∈ reach w.store w.root \ s.visited.toFinset, pagesFor w.limit (w.rows k).length

/-- The grants a traversal has left to hand out: those of the rows the pending listings have
not read, and of the members of the reachable roles not visited yet. -/
noncomputable def grantsLeft (s : TraversalToken) : Multiset Grant :=
  (s.pending.map fun e =>
      (((w.rows e.role).drop (offsetOf e)).filterMap (memberGrant w.store w.root e.role) :
        Multiset Grant)).sum +
    ∑ k ∈ reach w.store w.root \ s.visited.toFinset, (memberGrants w.store w.root k : Multiset Grant)

/-! ## What a page changes -/

theorem limit_pos : 0 < w.limit := pageLimit_pos w.pageSize

theorem mem_rows_of_mem_pageAt {k : RoleKey} {o : Nat} {m : MemberRow} (h : m ∈ w.pageAt k o) :
    m ∈ w.rows k :=
  List.mem_of_mem_drop (List.mem_of_mem_take h)

/-- A sum over the stack after a page: the resumed listing, the roles found, the stack below. -/
theorem sum_after_pending {M : Type} [AddCommMonoid M] (f : FrontierEntry → M) (V : List RoleKey)
    (e : FrontierEntry) (below : List FrontierEntry) (o : Nat) :
    ((w.after V e below o).pending.map f).sum =
      ((w.nextAt e.role o).map fun n => f { e with cursor := some (toString n) }).getD 0 +
        ((w.found V e below o).map fun k => f ⟨k, none⟩).sum + (below.map f).sum := by
  rw [after_pending, List.map_append, List.map_append, List.sum_append, List.sum_append,
    List.map_map]
  congr 2
  cases w.nextAt e.role o <;> simp

/-- The roles pending after a page. -/
theorem mem_after_pendingRoles {V : List RoleKey} {e : FrontierEntry} {below : List FrontierEntry}
    {o : Nat} {x : RoleKey} :
    x ∈ (w.after V e below o).pendingRoles ↔
      ((w.nextAt e.role o).isSome ∧ x = e.role) ∨ x ∈ w.found V e below o ∨
        x ∈ below.map (·.role) := by
  unfold TraversalToken.pendingRoles
  rw [after_pending]
  cases w.nextAt e.role o <;> simp [eq_comm]

/-- The rows read once the page at `o` is read. -/
theorem take_add_limit (k : RoleKey) (o : Nat) :
    (w.rows k).take (o + w.limit) = (w.rows k).take o ++ w.pageAt k o := by
  rw [List.take_add, pageAt]

/-- The page at an offset and the rows after it make up the rows from that offset. -/
theorem drop_eq_pageAt_append (k : RoleKey) (o : Nat) :
    (w.rows k).drop o = w.pageAt k o ++ (w.rows k).drop (o + w.limit) := by
  rw [pageAt, ← List.drop_drop, List.take_append_drop]

/-- A listing goes on after its page at `o` at the offset after it, inside the listing. -/
theorem nextAt_eq_some {k : RoleKey} {o n : Nat} (hn : w.nextAt k o = some n) :
    n = o + w.limit ∧ n < (w.rows k).length := by
  unfold nextAt at hn
  split at hn
  · cases hn
    exact ⟨rfl, by assumption⟩
  · cases hn

/-- A listing that does not go on after its page at `o` has no rows after that page. -/
theorem length_le_of_nextAt {k : RoleKey} {o : Nat} (hn : w.nextAt k o = none) :
    (w.rows k).length ≤ o + w.limit := by
  unfold nextAt at hn
  split at hn
  · cases hn
  · omega

/-- The resumed listing of a page's role fits its listing. -/
theorem cursorFits_resume {o n : Nat} {e : FrontierEntry} (hn : w.nextAt e.role o = some n) :
    w.CursorFits { e with cursor := some (toString n) } :=
  ⟨some n, rfl, fun _ h => by cases h; exact (w.nextAt_eq_some hn).2⟩

/-- The entries a page leaves on the stack have cursors that fit, when those below it did. -/
theorem cursors_after {V : List RoleKey} {e : FrontierEntry} {below : List FrontierEntry}
    {o : Nat} (hbelow : ∀ x ∈ below, w.CursorFits x) :
    ∀ x ∈ (w.after V e below o).pending, w.CursorFits x := by
  intro x hx
  rw [after_pending, List.mem_append, List.mem_append] at hx
  rcases hx with (hx | hx) | hx
  · obtain ⟨n, hn, rfl⟩ : ∃ n, w.nextAt e.role o = some n ∧
        x = { e with cursor := some (toString n) } := by
      cases hn : w.nextAt e.role o <;> simp_all
    exact w.cursorFits_resume hn
  · obtain ⟨k, -, rfl⟩ := List.mem_map.mp hx
    exact ⟨none, rfl, by simp⟩
  · exact hbelow x hx

/-- The pages left of an entry's listing: the one read now, and those of its resumed
listing. -/
theorem pagesFor_after (hfit : w.store.MembersFit) (e : FrontierEntry) :
    pagesFor w.limit ((w.rows e.role).length - offsetOf e) =
      1 + ((w.nextAt e.role (offsetOf e)).map fun n => pagesFor w.limit
        ((w.rows e.role).length - offsetOf { e with cursor := some (toString n) })).getD 0 := by
  rw [pagesFor_read w.limit_pos]
  cases hn : w.nextAt e.role (offsetOf e) with
  | none =>
    rw [if_neg (Nat.not_lt.mpr (w.length_le_of_nextAt hn))]
    rfl
  | some n =>
    obtain ⟨rfl, hlen⟩ := w.nextAt_eq_some hn
    rw [if_pos hlen, Option.map_some, Option.getD_some,
      offsetOf_resume e (Nat.lt_trans hlen (hfit.lengths e.role))]

section Step

variable {w} {s : TraversalToken} {e : FrontierEntry} {below : List FrontierEntry}

/-- While every pending role is visited, a page queues exactly the roles its rows name that
are not visited. -/
theorem DiscoveryInv.mem_found (hs : w.DiscoveryInv s)
    (hP : s.pending = e :: below) {k : RoleKey} :
    k ∈ w.found s.visited e below (offsetOf e) ↔
      k ∉ s.visited ∧ ∃ m ∈ w.pageAt e.role (offsetOf e), childRole e.role m = some k := by
  rw [Traversal.mem_found, admits_eq_true]
  constructor
  · rintro ⟨⟨-, hnv, -⟩, hm⟩
    exact ⟨hnv, hm⟩
  · rintro ⟨hnv, hm⟩
    -- the role expanded and the roles pending below it are all visited
    have he : e.role ∈ s.visited := hs.pending_visited e (by rw [hP]; exact List.mem_cons_self)
    refine ⟨⟨fun h => hnv (h ▸ he), hnv, fun _ hk => hnv ?_⟩, hm⟩
    obtain ⟨x, hx, rfl⟩ := List.mem_map.mp hk
    exact hs.pending_visited x (by rw [hP]; exact List.mem_cons_of_mem e hx)

/-- The roles a page names are reachable. -/
theorem DiscoveryInv.found_reach (hs : w.DiscoveryInv s) (hP : s.pending = e :: below)
    {k : RoleKey} (hk : k ∈ w.found s.visited e below (offsetOf e)) : k ∈ reach w.store w.root := by
  obtain ⟨-, m, hm, hc⟩ := (w.mem_found).mp hk
  have he : e.role ∈ s.visited := hs.pending_visited e (by rw [hP]; exact List.mem_cons_self)
  exact child_mem_reach (hs.visited_reach _ he)
    (List.mem_filterMap.mpr ⟨m, w.mem_rows_of_mem_pageAt hm, hc⟩)

/-- A role named by a row of the page is visited after it. -/
theorem DiscoveryInv.page_child_visited (hpol : w.policy = .onDiscovery) (hs : w.DiscoveryInv s)
    (hP : s.pending = e :: below) {m : MemberRow} (hm : m ∈ w.pageAt e.role (offsetOf e))
    {c : RoleKey} (hc : childRole e.role m = some c) :
    c ∈ (w.after s.visited e below (offsetOf e)).visited := by
  rw [w.mem_after_visited, hpol]
  by_cases hv : c ∈ s.visited
  · exact .inl hv
  · exact .inr (.inl ⟨rfl, (hs.mem_found hP).mpr ⟨hv, m, hm, hc⟩⟩)

/-- Under `onDiscovery` the roles visited after a page are those visited before and those
found. -/
theorem DiscoveryInv.mem_after_visited (hpol : w.policy = .onDiscovery) {V : List RoleKey}
    {o : Nat} {x : RoleKey} :
    x ∈ (w.after V e below o).visited ↔ x ∈ V ∨ x ∈ w.found V e below o := by
  rw [Traversal.mem_after_visited, hpol]
  simp

/-- The roles a page leaves pending are visited. -/
theorem DiscoveryInv.after_pending_visited (hpol : w.policy = .onDiscovery)
    (hs : w.DiscoveryInv s) (hP : s.pending = e :: below) {x : RoleKey}
    (hx : x ∈ (w.after s.visited e below (offsetOf e)).pendingRoles) :
    x ∈ (w.after s.visited e below (offsetOf e)).visited := by
  rw [DiscoveryInv.mem_after_visited hpol]
  rcases w.mem_after_pendingRoles.mp hx with ⟨-, rfl⟩ | hk | hk
  · exact .inl (hs.pending_visited e (by rw [hP]; exact List.mem_cons_self))
  · exact .inr hk
  · obtain ⟨x', hx', rfl⟩ := List.mem_map.mp hk
    exact .inl (hs.pending_visited x' (by rw [hP]; exact List.mem_cons_of_mem e hx'))

/-- The roles visited after a page are reachable. -/
theorem DiscoveryInv.after_visited_reach (hpol : w.policy = .onDiscovery) (hs : w.DiscoveryInv s)
    (hP : s.pending = e :: below) {x : RoleKey}
    (hx : x ∈ (w.after s.visited e below (offsetOf e)).visited) : x ∈ reach w.store w.root := by
  rcases (DiscoveryInv.mem_after_visited hpol).mp hx with hv | hk
  · exact hs.visited_reach x hv
  · exact hs.found_reach hP hk

/-- The roles named by the rows read once the page is read are visited after it. -/
theorem DiscoveryInv.read_child_visited (hpol : w.policy = .onDiscovery) (hs : w.DiscoveryInv s)
    (hP : s.pending = e :: below) {m : MemberRow}
    (hm : m ∈ (w.rows e.role).take (offsetOf e + w.limit)) {c : RoleKey}
    (hc : childRole e.role m = some c) : c ∈ (w.after s.visited e below (offsetOf e)).visited := by
  rw [take_add_limit, List.mem_append] at hm
  rcases hm with hm | hm
  · rw [DiscoveryInv.mem_after_visited hpol]
    exact .inl (hs.read_closed e (by rw [hP]; exact List.mem_cons_self) m hm c hc)
  · exact hs.page_child_visited hpol hP hm hc

/-- A visited role no longer pending after a page has had its roles visited. -/
theorem DiscoveryInv.after_closed (hpol : w.policy = .onDiscovery) (hs : w.DiscoveryInv s)
    (hP : s.pending = e :: below) :
    ∀ k ∈ (w.after s.visited e below (offsetOf e)).visited,
      k ∉ (w.after s.visited e below (offsetOf e)).pendingRoles →
        ∀ c ∈ childRoles w.store k, c ∈ (w.after s.visited e below (offsetOf e)).visited := by
  intro k hk hnp c hc
  have hV : ∀ x ∈ s.visited, x ∈ (w.after s.visited e below (offsetOf e)).visited :=
    fun x hx => (DiscoveryInv.mem_after_visited hpol).mpr (.inl hx)
  rcases (DiscoveryInv.mem_after_visited hpol).mp hk with hk | hk
  · by_cases hsp : k ∈ s.pendingRoles
    · -- a role pending before and not after is the one whose listing this page finished
      have hke : k = e.role := by
        rw [TraversalToken.pendingRoles, hP, List.map_cons, List.mem_cons] at hsp
        rcases hsp with h | h
        · exact h
        · exact absurd (w.mem_after_pendingRoles.mpr (.inr (.inr h))) hnp
      subst hke
      have hnext : w.nextAt e.role (offsetOf e) = none := by
        cases hn : w.nextAt e.role (offsetOf e)
        · rfl
        · exact absurd (w.mem_after_pendingRoles.mpr (.inl ⟨by simp [hn], rfl⟩)) hnp
      have hall : (w.rows e.role).take (offsetOf e + w.limit) = w.rows e.role :=
        List.take_of_length_le (w.length_le_of_nextAt hnext)
      obtain ⟨m, hm, hcm⟩ := List.mem_filterMap.mp hc
      exact hs.read_child_visited hpol hP (by rw [hall]; exact hm) hcm
    · exact hV c (hs.closed k hk hsp c hc)
  · exact absurd (w.mem_after_pendingRoles.mpr (.inr (.inl hk))) hnp

/-- The roles pending after a page: the role read when its listing goes on, the roles found,
the roles below. -/
theorem after_pendingRoles (V : List RoleKey) (o : Nat) :
    (w.after V e below o).pendingRoles =
      ((w.nextAt e.role o).map fun _ => e.role).toList ++ w.found V e below o ++
        below.map (·.role) := by
  unfold TraversalToken.pendingRoles
  rw [after_pending]
  cases w.nextAt e.role o <;> simp [Function.comp_def]

/-- Under `onDiscovery` the invariant holds after a page that leaves a role pending. -/
theorem DiscoveryInv.after (hpol : w.policy = .onDiscovery) (hfit : w.store.MembersFit)
    (hs : w.DiscoveryInv s) (hP : s.pending = e :: below)
    (hne : (w.after s.visited e below (offsetOf e)).pending ≠ []) :
    w.DiscoveryInv (w.after s.visited e below (offsetOf e)) where
  pending_ne := hne
  cursors := w.cursors_after fun x hx => hs.cursors x (by rw [hP]; exact List.mem_cons_of_mem e hx)
  pending_visited := fun x hx =>
    hs.after_pending_visited hpol hP (List.mem_map.mpr ⟨x, hx, rfl⟩)
  pending_nodup := by
    have hnd : (e.role :: below.map (·.role)).Nodup := by
      have h := hs.pending_nodup
      rwa [TraversalToken.pendingRoles, hP, List.map_cons] at h
    have he : e.role ∈ s.visited := hs.pending_visited e (by rw [hP]; exact List.mem_cons_self)
    have hbelow : ∀ x ∈ below.map (·.role), x ∈ s.visited := by
      intro x hx
      obtain ⟨x', hx', rfl⟩ := List.mem_map.mp hx
      exact hs.pending_visited x' (by rw [hP]; exact List.mem_cons_of_mem e hx')
    have hfound : ∀ k ∈ w.found s.visited e below (offsetOf e), k ∉ s.visited :=
      fun k hk => ((hs.mem_found hP).mp hk).1
    rw [after_pendingRoles, List.append_assoc]
    refine List.nodup_append.mpr ⟨?_, ?_, ?_⟩
    · cases w.nextAt e.role (offsetOf e) <;> simp
    · -- the roles found are new, those below were visited before
      refine List.nodup_append.mpr ⟨w.found_nodup _ _ _ _, (List.nodup_cons.mp hnd).2, ?_⟩
      intro a ha b hb hab
      subst hab
      exact hfound a ha (hbelow a hb)
    · intro a ha b hb hab
      have hae : a = e.role := by
        cases hn : w.nextAt e.role (offsetOf e) <;> simp_all
      subst hab hae
      rcases List.mem_append.mp hb with hb | hb
      · exact hfound _ hb he
      · exact (List.nodup_cons.mp hnd).1 hb
  visited_reach := fun x hx => hs.after_visited_reach hpol hP hx
  visited_ascending := w.after_ascending hs.visited_ascending e below _
  root_visited := (DiscoveryInv.mem_after_visited hpol).mpr (.inl hs.root_visited)
  closed := hs.after_closed hpol hP
  read_closed := by
    intro x hx m hm c hc
    rw [after_pending, List.mem_append, List.mem_append] at hx
    rcases hx with (hx | hx) | hx
    · -- the resumed listing has read the rows before its page and the page
      obtain ⟨n, hn, rfl⟩ : ∃ n, w.nextAt e.role (offsetOf e) = some n ∧
          x = { e with cursor := some (toString n) } := by
        cases hn : w.nextAt e.role (offsetOf e) <;> simp_all
      obtain ⟨hn', hlen⟩ := w.nextAt_eq_some hn
      rw [offsetOf_resume e (Nat.lt_trans hlen (hfit.lengths e.role)), hn'] at hm
      exact hs.read_child_visited hpol hP hm hc
    · obtain ⟨k, -, rfl⟩ := List.mem_map.mp hx
      simp at hm
    · exact (DiscoveryInv.mem_after_visited hpol).mpr
        (.inl (hs.read_closed x (by rw [hP]; exact List.mem_cons_of_mem e hx) m hm c hc))

/-- A page leaves no more roles tracked than there are reachable roles. -/
theorem DiscoveryInv.after_tracked (hpol : w.policy = .onDiscovery) (hs : w.DiscoveryInv s)
    (hP : s.pending = e :: below) :
    (w.after s.visited e below (offsetOf e)).trackedRoles ≤ (reach w.store w.root).card := by
  rw [TraversalToken.trackedRoles_eq_card (w.after_ascending hs.visited_ascending e below _).nodup]
  apply Finset.card_le_card
  intro x hx
  rw [Finset.mem_union, List.mem_toFinset, List.mem_toFinset] at hx
  rcases hx with hx | hx
  · exact hs.after_visited_reach hpol hP hx
  · exact hs.after_visited_reach hpol hP (hs.after_pending_visited hpol hP hx)

/-- The reachable roles a page leaves unvisited: those unvisited before, less the roles it
found. -/
theorem DiscoveryInv.unvisited_after (hpol : w.policy = .onDiscovery) :
    reach w.store w.root \ (w.after s.visited e below (offsetOf e)).visited.toFinset =
      (reach w.store w.root \ s.visited.toFinset) \
        (w.found s.visited e below (offsetOf e)).toFinset := by
  ext x
  simp only [Finset.mem_sdiff, List.mem_toFinset, DiscoveryInv.mem_after_visited hpol, not_or]
  tauto

/-- A sum over the unvisited reachable roles, split at a page: what is still unvisited after
it, and the roles it found. -/
theorem DiscoveryInv.sum_unvisited {M : Type} [AddCommMonoid M] (hpol : w.policy = .onDiscovery)
    (hs : w.DiscoveryInv s) (hP : s.pending = e :: below) (f : RoleKey → M) :
    ∑ k ∈ reach w.store w.root \ s.visited.toFinset, f k =
      ∑ k ∈ reach w.store w.root \ (w.after s.visited e below (offsetOf e)).visited.toFinset, f k +
        ((w.found s.visited e below (offsetOf e)).map f).sum := by
  have hsub : (w.found s.visited e below (offsetOf e)).toFinset ⊆
      reach w.store w.root \ s.visited.toFinset := by
    intro k hk
    rw [List.mem_toFinset] at hk
    rw [Finset.mem_sdiff, List.mem_toFinset]
    exact ⟨hs.found_reach hP hk, ((hs.mem_found hP).mp hk).1⟩
  rw [DiscoveryInv.unvisited_after hpol, ← List.sum_toFinset f (w.found_nodup _ _ _ _),
    Finset.sum_sdiff hsub]

/-- **A call spends one page.** -/
theorem DiscoveryInv.callsLeft_after (hpol : w.policy = .onDiscovery) (hfit : w.store.MembersFit)
    (hs : w.DiscoveryInv s) (hP : s.pending = e :: below) :
    w.callsLeft s = w.callsLeft (w.after s.visited e below (offsetOf e)) + 1 := by
  -- the entry's pages are this one and those of its resumed listing
  unfold callsLeft
  rw [hP, List.map_cons, List.sum_cons, sum_after_pending, hs.sum_unvisited hpol hP,
    w.pagesFor_after hfit e]
  simp only [offsetOf_none, Nat.sub_zero]
  omega

/-- **A call hands out its page's grants.** -/
theorem DiscoveryInv.grantsLeft_after (hpol : w.policy = .onDiscovery) (hfit : w.store.MembersFit)
    (hs : w.DiscoveryInv s) (hP : s.pending = e :: below) :
    w.grantsLeft s = ↑((w.pageAt e.role (offsetOf e)).filterMap (memberGrant w.store w.root e.role)) +
      w.grantsLeft (w.after s.visited e below (offsetOf e)) := by
  -- the entry's unread rows are its page and the unread rows of its resumed listing
  have hrows : ((((w.rows e.role).drop (offsetOf e)).filterMap (memberGrant w.store w.root e.role) :
        List Grant) : Multiset Grant) =
      ↑((w.pageAt e.role (offsetOf e)).filterMap (memberGrant w.store w.root e.role)) +
        ((w.nextAt e.role (offsetOf e)).map fun n =>
          ((((w.rows e.role).drop (offsetOf { e with cursor := some (toString n) })).filterMap
            (memberGrant w.store w.root e.role) : List Grant) : Multiset Grant)).getD 0 := by
    rw [drop_eq_pageAt_append, List.filterMap_append, ← Multiset.coe_add]
    congr 1
    cases hn : w.nextAt e.role (offsetOf e) with
    | none =>
      rw [List.drop_of_length_le (w.length_le_of_nextAt hn)]
      rfl
    | some n =>
      obtain ⟨rfl, hlen⟩ := w.nextAt_eq_some hn
      rw [Option.map_some, Option.getD_some,
        offsetOf_resume e (Nat.lt_trans hlen (hfit.lengths e.role))]
  unfold grantsLeft
  rw [hP, List.map_cons, List.sum_cons, sum_after_pending, hs.sum_unvisited hpol hP, hrows]
  simp only [offsetOf_none, List.drop_zero]
  unfold memberGrants rows
  ac_rfl

/-- When a page empties the stack, every reachable role is visited. -/
theorem DiscoveryInv.reach_subset_of_done (hpol : w.policy = .onDiscovery) (hs : w.DiscoveryInv s)
    (hP : s.pending = e :: below)
    (hd : (w.after s.visited e below (offsetOf e)).isDone = true) :
    reach w.store w.root ⊆ (w.after s.visited e below (offsetOf e)).visited.toFinset := by
  have hnil : (w.after s.visited e below (offsetOf e)).pending = [] := by
    simpa [TraversalToken.isDone] using hd
  -- with nothing pending the visited roles are closed under membership
  refine reach_subset_of_closed (List.mem_toFinset.mpr
    ((DiscoveryInv.mem_after_visited hpol).mpr (.inl hs.root_visited))) ?_
  intro k hk c hc
  rw [List.mem_toFinset] at hk ⊢
  exact hs.after_closed hpol hP k hk (by simp [TraversalToken.pendingRoles, hnil]) c hc

/-- When a page empties the stack, nothing is left. -/
theorem DiscoveryInv.left_of_done (hpol : w.policy = .onDiscovery) (hs : w.DiscoveryInv s)
    (hP : s.pending = e :: below)
    (hd : (w.after s.visited e below (offsetOf e)).isDone = true) :
    w.callsLeft (w.after s.visited e below (offsetOf e)) = 0 ∧
      w.grantsLeft (w.after s.visited e below (offsetOf e)) = 0 := by
  have hnil : (w.after s.visited e below (offsetOf e)).pending = [] := by
    simpa [TraversalToken.isDone] using hd
  have hempty := Finset.sdiff_eq_empty_iff_subset.mpr (hs.reach_subset_of_done hpol hP hd)
  unfold callsLeft grantsLeft
  rw [hnil, hempty]
  simp

/-- **The step of the invariant.** Under `onDiscovery`, with room for every reachable role, a
call from a token of the invariant succeeds, spends one page and hands out its grants, and
either finishes the traversal with nothing left or hands back a token of the invariant. -/
theorem DiscoveryInv.step (hpol : w.policy = .onDiscovery) (hfit : w.store.MembersFit)
    (hmax : (reach w.store w.root).card ≤ w.maxRoles) (hs : w.DiscoveryInv s) :
    ∃ g t', w.step s = .ok (g, t') ∧ w.callsLeft s = w.callsLeft t' + 1 ∧
      w.grantsLeft s = ↑g + w.grantsLeft t' ∧
      (t'.isDone = true → w.callsLeft t' = 0 ∧ w.grantsLeft t' = 0) ∧
      (t'.isDone = false → w.DiscoveryInv t') := by
  obtain ⟨e, below, hP⟩ := List.exists_cons_of_ne_nil hs.pending_ne
  have hrun := w.step_of_pending hfit hP (hs.cursors e (by rw [hP]; exact List.mem_cons_self))
  rw [checked_of_le (le_trans (hs.after_tracked hpol hP) hmax)] at hrun
  refine ⟨_, _, hrun, hs.callsLeft_after hpol hfit hP, hs.grantsLeft_after hpol hfit hP,
    hs.left_of_done hpol hP, fun hd => hs.after hpol hfit hP ?_⟩
  simpa [TraversalToken.isDone] using hd

end Step

/-! ## From the empty token -/

/-- The token the first call starts from: the root, visited, with its listing at its start. -/
theorem startFrom_fresh_discovery (hpol : w.policy = .onDiscovery) :
    startFrom w.policy w.root .fresh = ⟨[⟨w.root, none⟩], [w.root]⟩ := by
  unfold startFrom
  rw [hpol]
  rfl

/-- The first call's token is one of the invariant. -/
theorem discoveryInv_start :
    w.DiscoveryInv ⟨[⟨w.root, none⟩], [w.root]⟩ where
  pending_ne := List.cons_ne_nil _ _
  cursors := by
    intro e he
    rw [List.mem_singleton] at he
    subst he
    exact ⟨none, rfl, by simp⟩
  pending_visited := by
    intro e he
    rw [List.mem_singleton] at he
    subst he
    exact List.mem_singleton_self _
  pending_nodup := List.nodup_singleton _
  visited_reach := by
    intro k hk
    rw [List.mem_singleton] at hk
    subst hk
    exact root_mem_reach _ _
  visited_ascending := List.pairwise_singleton _ _
  root_visited := List.mem_singleton_self _
  closed := by
    intro k hk hnp
    rw [List.mem_singleton] at hk
    subst hk
    exact absurd (List.mem_singleton_self _) hnp
  read_closed := by
    intro e he m hm
    rw [List.mem_singleton] at he
    subst he
    simp at hm

/-- The first call has every page of every reachable listing left. -/
theorem callsLeft_start :
    w.callsLeft ⟨[⟨w.root, none⟩], [w.root]⟩ =
      ∑ k ∈ reach w.store w.root, pagesFor w.limit (w.rows k).length := by
  unfold callsLeft
  simp only [List.map_cons, List.map_nil, List.sum_cons, List.sum_nil, offsetOf_none, Nat.sub_zero,
    Nat.add_zero, List.toFinset_cons, List.toFinset_nil, insert_empty_eq,
    Finset.sdiff_singleton_eq_erase]
  exact Finset.add_sum_erase _ (fun k => pagesFor w.limit (w.rows k).length) (root_mem_reach _ _)

/-- The first call has every grant of every reachable role left. -/
theorem grantsLeft_start :
    w.grantsLeft ⟨[⟨w.root, none⟩], [w.root]⟩ =
      ∑ k ∈ reach w.store w.root, (memberGrants w.store w.root k : Multiset Grant) := by
  unfold grantsLeft
  simp only [List.map_cons, List.map_nil, List.sum_cons, List.sum_nil, offsetOf_none,
    List.drop_zero, add_zero, List.toFinset_cons, List.toFinset_nil, insert_empty_eq,
    Finset.sdiff_singleton_eq_erase]
  exact Finset.add_sum_erase _ (fun k => (memberGrants w.store w.root k : Multiset Grant))
    (root_mem_reach _ _)

/-- **Runs under `onDiscovery`.** From the fresh token, with room for every reachable role,
a run of any number of calls makes as many as it may, up to one per page of the reachable
listings, all successful; given that many it finishes, having handed out the grants of the
members of every reachable role. -/
theorem run_onDiscovery (hpol : w.policy = .onDiscovery) (hfit : w.store.MembersFit)
    (hmax : (reach w.store w.root).card ≤ w.maxRoles) (calls : Nat) :
    (w.run calls .fresh).length =
        min calls (∑ k ∈ reach w.store w.root, pagesFor w.limit (w.rows k).length) ∧
      (∀ r ∈ w.run calls .fresh, ∃ g t, r = .ok (g, t)) ∧
      (∑ k ∈ reach w.store w.root, pagesFor w.limit (w.rows k).length ≤ calls →
        Finishes (w.run calls .fresh) ∧
          (↑(grantsOf (w.run calls .fresh)) : Multiset Grant) =
            ∑ k ∈ reach w.store w.root, (memberGrants w.store w.root k : Multiset Grant)) := by
  rw [← run_startFrom, startFrom_fresh_discovery w hpol, ← callsLeft_start, ← grantsLeft_start]
  exact w.run_exact w.DiscoveryInv w.callsLeft w.grantsLeft (fun s hs => hs.step hpol hfit hmax)
    calls _ w.discoveryInv_start

end Traversal

/-! ## Draining a session -/

/-- **Exact flattening under `onDiscovery`.** Over a session whose cache agrees with its
store, whose connector visits roles as it finds them and may track every role reachable from
a valid `root`, a drain from the empty token of any number of calls makes as many calls as it
may, up to `N`, the number of pages of the listings of the reachable roles; every call
succeeds and has the store serve exactly one member page. Given `N` calls the drain ends with
a last page, and the grants it hands out are, repeats counted, the grants of the members of
the reachable roles. -/
theorem onDiscovery_drain_exact (s : Session) (root : RoleKey) (size calls : Nat)
    (hpol : s.connector.policy = .onDiscovery) (hroot : root.Valid)
    (hfit : s.inventory.store.MembersFit)
    (hcache : s.inventory.cache.Agrees s.inventory.store.mappings)
    (hmax : (reach s.inventory.store root).card ≤ s.connector.maxRoles) :
    let N := ∑ k ∈ reach s.inventory.store root,
      pagesFor (pageLimit (s.connector.pageSize size)) (s.inventory.store.members.listAt k).length
    (s.drainFrom root.resourceId size calls "").1.length = min calls N ∧
      (∀ p ∈ (s.drainFrom root.resourceId size calls "").1, ∃ q, p = .ok q) ∧
      (s.drainFrom root.resourceId size calls "").2.inventory.store.memberFetches =
        s.inventory.store.memberFetches + min calls N ∧
      (N ≤ calls →
        (∃ q, (s.drainFrom root.resourceId size calls "").1.getLast? = some (.ok q) ∧
          q.isLast = true) ∧
        (↑(drainGrants (s.drainFrom root.resourceId size calls "").1) : Multiset Grant) =
          ∑ k ∈ reach s.inventory.store root,
            (memberGrants s.inventory.store root k : Multiset Grant)) := by
  intro N
  obtain ⟨hpages, hmatch⟩ := drainFrom_run hfit (RoleKey.ofResource_resourceId hroot) hroot size
    calls s _ "" .fresh (Inventory.matches_self hcache) TraversalToken.decode_empty
    TraversalToken.wellFormed_fresh
  obtain ⟨hlen, hok, hend⟩ := (s.connector.traversal s.inventory.store root size).run_onDiscovery
    hpol hfit hmax calls
  rw [hpages]
  refine ⟨by rw [List.length_map, hlen]; rfl, ?_, ?_, fun hN => ?_⟩
  · intro p hp
    obtain ⟨r, hr, rfl⟩ := List.mem_map.mp hp
    obtain ⟨g, t, rfl⟩ := hok r hr
    exact ⟨_, rfl⟩
  · rw [hmatch.fetches, hlen]
    rfl
  · obtain ⟨hfin, hgrants⟩ := hend hN
    exact ⟨(finishes_map hfin).2, by rw [drainGrants_map, hgrants]; rfl⟩

/-- Two server roles that hold each other, and a user: the hypotheses of the exact drain are
met, and so is its conclusion, for a drain of five calls. -/
theorem onDiscovery_drain_mutual_roles :
    let s : Session := ⟨Connector.build .builtin .onDiscovery 10 50 1000,
      ⟨{ Store.empty with
          members := ⟨[(.server ⟨1⟩, [⟨⟨2⟩, "u", "U"⟩, ⟨⟨3⟩, "r", "R"⟩]),
            (.server ⟨3⟩, [⟨⟨1⟩, "back", "R"⟩])]⟩ }, .empty 0⟩, "", ""⟩
    let root : RoleKey := .server ⟨1⟩
    let N := ∑ k ∈ reach s.inventory.store root,
      pagesFor (pageLimit (s.connector.pageSize 0)) (s.inventory.store.members.listAt k).length
    (s.connector.policy = .onDiscovery ∧ root.Valid ∧ s.inventory.store.MembersFit ∧
      s.inventory.cache.Agrees s.inventory.store.mappings ∧
      (reach s.inventory.store root).card ≤ s.connector.maxRoles) ∧
    (s.drainFrom root.resourceId 0 5 "").1.length = min 5 N ∧
      (∀ p ∈ (s.drainFrom root.resourceId 0 5 "").1, ∃ q, p = .ok q) ∧
      (s.drainFrom root.resourceId 0 5 "").2.inventory.store.memberFetches =
        s.inventory.store.memberFetches + min 5 N ∧
      (N ≤ 5 →
        (∃ q, (s.drainFrom root.resourceId 0 5 "").1.getLast? = some (.ok q) ∧
          q.isLast = true) ∧
        (↑(drainGrants (s.drainFrom root.resourceId 0 5 "").1) : Multiset Grant) =
          ∑ k ∈ reach s.inventory.store root,
            (memberGrants s.inventory.store root k : Multiset Grant)) := by
  intro s root N
  have hpol : s.connector.policy = .onDiscovery := rfl
  have hroot : root.Valid := by constructor <;> decide
  have hfit : s.inventory.store.MembersFit := Store.MembersFit.of_rows (by decide)
  have hcache : s.inventory.cache.Agrees s.inventory.store.mappings :=
    MappingCache.agrees_empty 0 _
  have hmax : (reach s.inventory.store root).card ≤ s.connector.maxRoles :=
    le_trans (card_reach_le _ _) (by decide)
  exact ⟨⟨hpol, hroot, hfit, hcache, hmax⟩,
    onDiscovery_drain_exact s root 0 5 hpol hroot hfit hcache hmax⟩

end AccessReview
