import AccessReview.Proofs.Completion

/-! # The role limit

    A connector bounds the roles a traversal token may track, the visited ones and the pending
    ones: a call that would hand back a token tracking more than `maxRoles` roles fails with
    `roleLimit` instead (`Traversal.checked`). This file shows that the bound is exact under
    either visit policy. Every token a traversal builds tracks only reachable roles, and the
    token that finishes it has visited all of them; so a drain from the empty token fails,
    given enough calls, exactly when more roles are reachable than the limit allows, it fails
    in no other way, and every token a call hands back tracks at most the smaller of the two
    numbers.

    The policies share one argument (`Traversal.run_checked`), over a family of tokens from
    which a call builds a token tracking no more roles than are reachable, all of them when it
    finishes the traversal, and otherwise a token of the family lower in a measure.
    `DiscoveryInv` with `callsLeft` and `CompletionInv` with `callsBound` are such families.
-/

namespace AccessReview

/-- A token that has visited every reachable role, and tracks no more roles than are
reachable, tracks exactly them. -/
theorem trackedRoles_eq_of_covers {st : Store} {root : RoleKey} {t : TraversalToken}
    (hnd : t.visited.Nodup) (hsub : reach st root ⊆ t.visited.toFinset)
    (hle : t.trackedRoles ≤ (reach st root).card) : t.trackedRoles = (reach st root).card := by
  have hge : (reach st root).card ≤ t.trackedRoles := by
    rw [TraversalToken.trackedRoles_eq_card hnd]
    exact Finset.card_le_card (hsub.trans Finset.subset_union_left)
  omega

namespace Traversal

variable (w : Traversal)

/-- What the role limit lets a call give: a failure is the limit's, and only when more roles
are reachable than it allows; a page hands back a well-formed token that tracks no more roles
than the limit allows or than are reachable, and all the reachable ones if it finishes the
traversal. -/
def Allowed : Except Error (List Grant × TraversalToken) → Prop
  | .error e => e = .roleLimit w.root.display w.maxRoles ∧ w.maxRoles < (reach w.store w.root).card
  | .ok (_, t) => t.trackedRoles ≤ w.maxRoles ∧ t.trackedRoles ≤ (reach w.store w.root).card ∧
      (t.isDone = true → t.trackedRoles = (reach w.store w.root).card) ∧ t.WellFormed

/-! ## One call -/

section Step

variable {w} {s : TraversalToken}

/-- **A call under `onDiscovery`, limit aside.** From a token of the invariant a call builds a
token tracking no more roles than are reachable, all of them if it finishes, and otherwise a
token of the invariant with a call fewer left; the limit is then checked on it. -/
theorem DiscoveryInv.step_checked (hpol : w.policy = .onDiscovery) (hfit : w.store.MembersFit)
    (hs : w.DiscoveryInv s) :
    ∃ g t', w.step s = w.checked g t' ∧ t'.trackedRoles ≤ (reach w.store w.root).card ∧
      (t'.isDone = true → t'.trackedRoles = (reach w.store w.root).card) ∧
      (t'.isDone = false → w.DiscoveryInv t' ∧ w.callsLeft t' < w.callsLeft s) := by
  obtain ⟨e, below, hP⟩ := List.exists_cons_of_ne_nil hs.pending_ne
  have htracked := hs.after_tracked hpol hP
  refine ⟨_, _, w.step_of_pending hfit hP (hs.cursors e (by rw [hP]; exact List.mem_cons_self)),
    htracked, fun hd => ?_, fun hd => ⟨hs.after hpol hfit hP ?_, ?_⟩⟩
  · exact trackedRoles_eq_of_covers (w.after_ascending hs.visited_ascending e below _).nodup
      (hs.reach_subset_of_done hpol hP hd) htracked
  · simpa [TraversalToken.isDone] using hd
  · have hleft := hs.callsLeft_after hpol hfit hP
    omega

/-- **A call under `onCompletion`, limit aside.** The same, with the bound on the calls left
as the measure. -/
theorem CompletionInv.step_checked (hpol : w.policy = .onCompletion) (hfit : w.store.MembersFit)
    (hs : w.CompletionInv s) :
    ∃ g t', w.step s = w.checked g t' ∧ t'.trackedRoles ≤ (reach w.store w.root).card ∧
      (t'.isDone = true → t'.trackedRoles = (reach w.store w.root).card) ∧
      (t'.isDone = false → w.CompletionInv t' ∧ w.callsBound t' < w.callsBound s) := by
  obtain ⟨e, below, hP⟩ := List.exists_cons_of_ne_nil hs.pending_ne
  have htracked := hs.after_tracked hpol hP
  refine ⟨_, _, w.step_of_pending hfit hP (hs.cursors e (by rw [hP]; exact List.mem_cons_self)),
    htracked, fun hd => ?_, fun hd => ⟨hs.next hpol hfit hP hd, ?_⟩⟩
  · exact trackedRoles_eq_of_covers (w.after_ascending hs.visited_ascending e below _).nodup
      (hs.reach_subset_of_done hpol hP hd) htracked
  · have hbound := hs.callsBound_after hpol hfit hP
    omega

end Step

/-! ## Runs under the limit -/

section Runs

variable {w} (Inv : TraversalToken → Prop) (Φ : TraversalToken → Nat)

/-- A call from a well-formed token whose built token tracks no more roles than are
reachable, and all of them if it finishes, gives what the limit allows. -/
theorem allowed_checked (hfit : w.store.MembersFit) (hvalid : w.root.Valid) {s : TraversalToken}
    (hwf : s.WellFormed) {g : List Grant} {t' : TraversalToken} (hstep : w.step s = w.checked g t')
    (hle : t'.trackedRoles ≤ (reach w.store w.root).card)
    (hdone : t'.isDone = true → t'.trackedRoles = (reach w.store w.root).card) :
    w.Allowed (w.step s) := by
  -- the limit fails a call only over a built token, which tracks no more than the reachable
  cases hr : w.step s with
  | error e =>
    obtain ⟨rfl, hlt⟩ := eq_of_checked_error (hstep ▸ hr)
    exact ⟨rfl, by omega⟩
  | ok p =>
    obtain ⟨g', t''⟩ := p
    obtain ⟨-, rfl, hmax⟩ := eq_of_checked_ok (hstep ▸ hr)
    exact ⟨hmax, hle, hdone, advance_wellFormed hfit hvalid hwf hr⟩

variable {Inv Φ}
variable (hfit : w.store.MembersFit) (hvalid : w.root.Valid)
  (hstep : ∀ s, Inv s → ∃ g t', w.step s = w.checked g t' ∧
    t'.trackedRoles ≤ (reach w.store w.root).card ∧
    (t'.isDone = true → t'.trackedRoles = (reach w.store w.root).card) ∧
    (t'.isDone = false → Inv t' ∧ Φ t' < Φ s))
include hfit hvalid hstep

/-- A page that goes on hands back a well-formed token of the family, lower in the measure. -/
theorem checked_next {s : TraversalToken} (hs : Inv s) (hwf : s.WellFormed) {g : List Grant}
    {t' : TraversalToken} (hr : w.step s = .ok (g, t')) (hd : t'.isDone = false) :
    (Inv t' ∧ t'.WellFormed) ∧ Φ t' < Φ s := by
  obtain ⟨g₀, t₀, hchk, -, -, hnext⟩ := hstep s hs
  obtain ⟨-, rfl, -⟩ := eq_of_checked_ok (hchk ▸ hr)
  obtain ⟨hinv, hΦ⟩ := hnext hd
  exact ⟨⟨hinv, advance_wellFormed hfit hvalid hwf hr⟩, hΦ⟩

/-- **Every outcome is allowed.** Every outcome of a run from a well-formed token of the
family is what the limit allows. -/
theorem run_allowed :
    ∀ calls s, Inv s → s.WellFormed → ∀ r ∈ w.run calls s, w.Allowed r := by
  intro calls s hs hwf
  refine w.run_all (fun s => Inv s ∧ s.WellFormed) w.Allowed (fun s ⟨hs, hwf⟩ => ?_) calls s
    ⟨hs, hwf⟩
  obtain ⟨g, t', hchk, hle, hdone, -⟩ := hstep s hs
  exact ⟨allowed_checked hfit hvalid hwf hchk hle hdone,
    fun g t' hr hd => (checked_next hfit hvalid hstep hs hwf hr hd).1⟩

/-- **Past the limit a run fails.** When more roles are reachable than the limit allows, a run
from a well-formed token of the family given more calls than its measure fails on the
limit: the token that would finish the traversal tracks every reachable role. -/
theorem run_fails (hlt : w.maxRoles < (reach w.store w.root).card) {s : TraversalToken}
    (hs : Inv s) (hwf : s.WellFormed) {calls : Nat} (hcalls : Φ s < calls) :
    .error (.roleLimit w.root.display w.maxRoles) ∈ w.run calls s := by
  obtain ⟨r, hlast, hend⟩ := w.run_ends (fun s => Inv s ∧ s.WellFormed) Φ
    (fun s ⟨hs, hwf⟩ g t' hr hd => checked_next hfit hvalid hstep hs hwf hr hd) calls s ⟨hs, hwf⟩
    hcalls
  have hmem : r ∈ w.run calls s := List.mem_of_getLast? hlast
  have hallowed := run_allowed hfit hvalid hstep calls s hs hwf r hmem
  -- the last outcome cannot be a page: it would finish, tracking more than the limit
  cases r with
  | error e =>
    obtain ⟨rfl, -⟩ := hallowed
    exact hmem
  | ok p =>
    obtain ⟨g, t⟩ := p
    obtain ⟨hmax, -, hall, -⟩ := hallowed
    have := hall (hend g t rfl)
    omega

/-- **The limit is exact over a run.** When the first call's token belongs to the family, a
run from the fresh token fails on the limit after some number of calls exactly when more
roles are reachable than it allows, and every outcome of every run is allowed. -/
theorem run_checked (hstart : Inv (startFrom w.policy w.root .fresh)) :
    ((∃ calls, .error (.roleLimit w.root.display w.maxRoles) ∈ w.run calls .fresh) ↔
      w.maxRoles < (reach w.store w.root).card) ∧
    ∀ calls, ∀ r ∈ w.run calls .fresh, w.Allowed r := by
  have hwf := startFrom_wellFormed w.policy hvalid TraversalToken.wellFormed_fresh
  have hrun : ∀ calls, w.run calls .fresh = w.run calls (startFrom w.policy w.root .fresh) :=
    fun calls => (w.run_startFrom calls .fresh).symm
  simp only [hrun]
  refine ⟨⟨fun ⟨calls, hmem⟩ => ?_, fun hlt => ⟨Φ (startFrom w.policy w.root .fresh) + 1, ?_⟩⟩,
    fun calls => run_allowed hfit hvalid hstep calls _ hstart hwf⟩
  · exact (run_allowed hfit hvalid hstep calls _ hstart hwf _ hmem).2
  · exact run_fails hfit hvalid hstep hlt hstart hwf (Nat.lt_succ_self _)

end Runs

/-- **The limit is exact, under either policy.** From the fresh token, a run fails on the
role limit after some number of calls exactly when more roles are reachable than the limit
allows, and every outcome of every run is allowed. -/
theorem run_roleLimit (hfit : w.store.MembersFit) (hvalid : w.root.Valid) :
    ((∃ calls, .error (.roleLimit w.root.display w.maxRoles) ∈ w.run calls .fresh) ↔
      w.maxRoles < (reach w.store w.root).card) ∧
    ∀ calls, ∀ r ∈ w.run calls .fresh, w.Allowed r := by
  -- each policy's invariant, with its measure of the calls left, is a family the limit checks
  cases hpol : w.policy with
  | onDiscovery =>
    refine run_checked hfit hvalid (fun s (hs : w.DiscoveryInv s) => hs.step_checked hpol hfit) ?_
    rw [startFrom_fresh_discovery w hpol]
    exact w.discoveryInv_start
  | onCompletion =>
    refine run_checked hfit hvalid (fun s (hs : w.CompletionInv s) => hs.step_checked hpol hfit) ?_
    rw [startFrom_fresh_completion w hpol]
    exact w.completionInv_start

end Traversal

/-! ## Draining a session -/

/-- The pages of a run fail where the run fails. -/
theorem error_mem_map {outs : List (Except Error (List Grant × TraversalToken))} {e : Error} :
    .error e ∈ outs.map (Except.map fun r => (⟨r.1, r.2.encode⟩ : GrantPage)) ↔ .error e ∈ outs := by
  constructor
  · intro h
    obtain ⟨r, hr, hmap⟩ := List.mem_map.mp h
    cases r with
    | error e' =>
      cases hmap
      exact hr
    | ok p => cases hmap
  · intro h
    exact List.mem_map.mpr ⟨_, h, rfl⟩

/-- **The role limit is exact.** Over a session whose cache agrees with its store, under
either visit policy, a drain from the empty token from a valid `root` fails on the role
limit after some number of calls exactly when more roles are reachable from `root` than the
connector's `maxRoles`; no drain fails in another way; and every page of a drain hands back
the written form of a token tracking at most the smaller of `maxRoles` and the number of
reachable roles, which the next call reads back when the page is not the last. -/
theorem roleLimit_drain_exact (s : Session) (root : RoleKey) (size : Nat) (hroot : root.Valid)
    (hfit : s.inventory.store.MembersFit)
    (hcache : s.inventory.cache.Agrees s.inventory.store.mappings) :
    ((∃ calls, .error (.roleLimit root.display s.connector.maxRoles) ∈
        (s.drainFrom root.resourceId size calls "").1) ↔
      s.connector.maxRoles < (reach s.inventory.store root).card) ∧
    (∀ calls e, .error e ∈ (s.drainFrom root.resourceId size calls "").1 →
      e = .roleLimit root.display s.connector.maxRoles) ∧
    ∀ calls p, .ok p ∈ (s.drainFrom root.resourceId size calls "").1 →
      ∃ t, p.nextToken = t.encode ∧
        t.trackedRoles ≤ min s.connector.maxRoles (reach s.inventory.store root).card ∧
        (p.isLast = false → TraversalToken.decode p.nextToken = .ok t) := by
  obtain ⟨hiff, hall⟩ := (s.connector.traversal s.inventory.store root size).run_roleLimit hfit hroot
  -- every drain is the run of the traversal from the fresh token, page by page
  have hpages : ∀ calls, (s.drainFrom root.resourceId size calls "").1 =
      ((s.connector.traversal s.inventory.store root size).run calls .fresh).map
        (Except.map fun r => ⟨r.1, r.2.encode⟩) := fun calls =>
    (drainFrom_run hfit (RoleKey.ofResource_resourceId hroot) hroot size calls s _ "" .fresh
      (Inventory.matches_self hcache) TraversalToken.decode_empty
      TraversalToken.wellFormed_fresh).1
  refine ⟨?_, fun calls e he => ?_, fun calls p hp => ?_⟩
  · simp only [hpages, error_mem_map]
    exact hiff
  · rw [hpages, error_mem_map] at he
    exact (hall calls _ he).1
  · rw [hpages] at hp
    obtain ⟨r, hr, hmap⟩ := List.mem_map.mp hp
    cases r with
    | error e => cases hmap
    | ok q =>
      obtain ⟨g, t⟩ := q
      cases hmap
      obtain ⟨hmax, hreach, -, hwf⟩ := hall calls _ hr
      refine ⟨t, rfl, Nat.le_min.mpr ⟨hmax, hreach⟩, fun hlast => ?_⟩
      -- a page that is not the last hands back a token with a role pending
      have hp : t.pending ≠ [] := by
        have hd : t.isDone = false := by
          rw [← TraversalToken.encode_isEmpty]
          exact hlast
        simpa [TraversalToken.isDone] using hd
      exact TraversalToken.decode_encode_of_pending hwf hp

/-- Three roles reachable in a chain and a limit of two: the hypotheses of the limit's
exactness are met, and so is its conclusion, under which a drain fails on the limit. -/
theorem roleLimit_drain_chain :
    let s : Session := ⟨Connector.build .builtin .onCompletion 2 50 1000,
      ⟨{ Store.empty with
          members := ⟨[(.server ⟨1⟩, [⟨⟨2⟩, "a", "R"⟩]),
            (.server ⟨2⟩, [⟨⟨3⟩, "b", "R"⟩, ⟨⟨4⟩, "u", "U"⟩])]⟩ }, .empty 0⟩, "", ""⟩
    let root : RoleKey := .server ⟨1⟩
    (root.Valid ∧ s.inventory.store.MembersFit ∧
      s.inventory.cache.Agrees s.inventory.store.mappings) ∧
    ((∃ calls, .error (.roleLimit root.display s.connector.maxRoles) ∈
        (s.drainFrom root.resourceId 1 calls "").1) ↔
      s.connector.maxRoles < (reach s.inventory.store root).card) ∧
    (∀ calls e, .error e ∈ (s.drainFrom root.resourceId 1 calls "").1 →
      e = .roleLimit root.display s.connector.maxRoles) ∧
    ∀ calls p, .ok p ∈ (s.drainFrom root.resourceId 1 calls "").1 →
      ∃ t, p.nextToken = t.encode ∧
        t.trackedRoles ≤ min s.connector.maxRoles (reach s.inventory.store root).card ∧
        (p.isLast = false → TraversalToken.decode p.nextToken = .ok t) := by
  intro s root
  have hroot : root.Valid := by constructor <;> decide
  have hfit : s.inventory.store.MembersFit := Store.MembersFit.of_rows (by decide)
  have hcache : s.inventory.cache.Agrees s.inventory.store.mappings :=
    MappingCache.agrees_empty 0 _
  exact ⟨⟨hroot, hfit, hcache⟩, roleLimit_drain_exact s root 1 hroot hfit hcache⟩

end AccessReview
