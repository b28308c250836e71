import AccessReview.Proofs.Reach
import AccessReview.Proofs.TokenCodec
import AccessReview.Session

/-! # Draining a traversal

    A client drains a traversal by calling for a page with the empty token, then with each
    page's next token, until a page comes back with the empty token. This file turns such a
    drain over a session (`Session.drainFrom`) into a run of the pure step `advance` over
    tokens (`Traversal.run`): every token a call hands back is well formed, so the next call
    reads back exactly that token (`advance_wellFormed`, and the round trip of the token
    codec), the inventory keeps serving the same catalog, and each call has the store serve
    exactly one member page (`drainFrom_run`).

    The first part describes one step on a token whose top entry is read at a known offset
    (`Traversal.step_at`): the page is the rows from that offset, its grants are those of its
    members, and the next token is the one `afterPage` builds.
-/

namespace AccessReview

/-- What the catalog's types promise of its member lists: ids are signed 64-bit integers,
and a list has fewer than `2 ^ 64` rows. -/
structure Store.MembersFit (st : Store) : Prop where
  /-- Every member id is in the signed 64-bit range. -/
  ids : ∀ k, ∀ m ∈ st.members.listAt k, m.id.InRange
  /-- Every member list is shorter than `2 ^ 64`. -/
  lengths : ∀ k, (st.members.listAt k).length < 2 ^ 64

/-- A valid role key is read back from its resource. -/
theorem RoleKey.ofResource_resourceId {k : RoleKey} (h : k.Valid) :
    RoleKey.ofResource k.resourceId = .ok k := by
  cases k with
  | server r =>
    show RoleKey.server <$> PrincipalId.parse r.display = _
    rw [PrincipalId.parse_display h]
    rfl
  | database d r =>
    -- the resource's text is the key's display, which parses back to the key
    have hres : (RoleKey.database d r).resourceId.resource = (RoleKey.database d r).display := rfl
    unfold RoleKey.ofResource
    rw [hres, RoleKey.parse_display h]
    rfl

/-! ## Traversals -/

/-- A traversal of the catalog of `store` from `root`: the visit policy, the bound on tracked
roles, and the page size asked of the store. -/
structure Traversal where
  /-- The catalog. -/
  store : Store
  /-- When roles are marked visited. -/
  policy : VisitPolicy
  /-- The most roles a token may track. -/
  maxRoles : Nat
  /-- The role whose membership is flattened. -/
  root : RoleKey
  /-- The page size asked of the store. -/
  pageSize : Nat

/-- The traversal a connector runs over a catalog for a root and a page-size hint. -/
def Connector.traversal (c : Connector) (st : Store) (root : RoleKey) (hint : Nat) : Traversal :=
  ⟨st, c.policy, c.maxRoles, root, c.pageSize hint⟩

namespace Traversal

variable (w : Traversal)

/-- One call of the traversal from a token. -/
def step (t : TraversalToken) : Except Error (List Grant × TraversalToken) :=
  advance w.store w.policy w.maxRoles w.root t w.pageSize

/-- The outcomes of at most `calls` calls from a token, each from the token the one before
handed back, stopping after a call that fails or finishes the traversal. -/
def run : Nat → TraversalToken → List (Except Error (List Grant × TraversalToken))
  | 0, _ => []
  | calls + 1, t =>
    match w.step t with
    | .error e => [.error e]
    | .ok (g, t') => .ok (g, t') :: if t'.isDone then [] else run calls t'

/-- The rows of a page. -/
def limit : Nat := pageLimit w.pageSize

/-- The member rows of a role. -/
def rows (k : RoleKey) : List MemberRow := w.store.members.listAt k

/-- The page of `k`'s listing at offset `o`. -/
def pageAt (k : RoleKey) (o : Nat) : List MemberRow := ((w.rows k).drop o).take w.limit

/-- The offset of the page after the one at `o`, when rows are left after it. -/
def nextAt (k : RoleKey) (o : Nat) : Option Nat :=
  if o + w.limit < (w.rows k).length then some (o + w.limit) else none

/-- The cursor of the page after the one at `o`. -/
theorem nextAt_map (k : RoleKey) (o : Nat) :
    (w.nextAt k o).map toString =
      if o + w.limit < (w.rows k).length then some (toString (o + w.limit)) else none := by
  unfold nextAt
  split <;> rfl

/-- The cursor of an entry is none or the text of an offset inside its role's listing. -/
def CursorFits (e : FrontierEntry) : Prop :=
  ∃ o?, e.cursor = Option.map toString o? ∧ ∀ o ∈ o?, o < (w.rows e.role).length

/-- The offset an entry's listing resumes at, as the store reads its cursor. -/
def offsetOf (e : FrontierEntry) : Nat :=
  match pageOffset e.cursor with
  | .ok o => o
  | .error _ => 0

theorem offsetOf_eq {e : FrontierEntry} {o? : Option Nat} (hcur : e.cursor = o?.map toString)
    (ho : ∀ o ∈ o?, o < 2 ^ 64) : offsetOf e = o?.getD 0 := by
  unfold offsetOf
  rw [hcur, pageOffset_map_toString o? ho]

/-- An entry whose cursor fits its listing resumes inside it, or at its start. -/
theorem CursorFits.offset {e : FrontierEntry} (he : w.CursorFits e) (hfit : w.store.MembersFit) :
    offsetOf e = 0 ∨ offsetOf e < (w.rows e.role).length := by
  obtain ⟨o?, hcur, ho⟩ := he
  rw [offsetOf_eq hcur fun o h => Nat.lt_trans (ho o h) (hfit.lengths e.role)]
  cases o? with
  | none => exact .inl rfl
  | some o => exact .inr (ho o rfl)

/-- A listing not started is read from its first row. -/
@[simp] theorem offsetOf_none (k : RoleKey) : offsetOf ⟨k, none⟩ = 0 := rfl

/-- A listing resumed at an offset below `2 ^ 64` is read from there. -/
theorem offsetOf_resume (e : FrontierEntry) {n : Nat} (hn : n < 2 ^ 64) :
    offsetOf { e with cursor := some (toString n) } = n :=
  offsetOf_eq (show _ = (some n).map toString from rfl) fun _ h => by cases h; exact hn

/-- The roles the page of `e` at offset `o` queues, over the stack `below` and the visited
roles `V`. -/
def found (V : List RoleKey) (e : FrontierEntry) (below : List FrontierEntry) (o : Nat) :
    List RoleKey :=
  (gather w.store w.policy ⟨below, V⟩ e.role (.member w.root.resourceId) (w.pageAt e.role o)
    ⟨[], []⟩).found

/-- The token after the page of `e` at offset `o`, over the stack `below` and the visited
roles `V`. -/
def after (V : List RoleKey) (e : FrontierEntry) (below : List FrontierEntry) (o : Nat) :
    TraversalToken :=
  afterPage w.policy e ⟨below, V⟩ (w.found V e below o) ((w.nextAt e.role o).map toString)

/-- The stack after a page: the resumed listing when rows are left, the roles found, then
the stack below. -/
theorem after_pending (V : List RoleKey) (e : FrontierEntry) (below : List FrontierEntry)
    (o : Nat) :
    (w.after V e below o).pending =
      ((w.nextAt e.role o).map fun n => ({ e with cursor := some (toString n) } : FrontierEntry)).toList ++
        (w.found V e below o).map (⟨·, none⟩) ++ below := by
  rw [after, afterPage_pending, Option.map_map]
  rfl

/-- The roles visited after a page. -/
theorem mem_after_visited {V : List RoleKey} {e : FrontierEntry} {below : List FrontierEntry}
    {o : Nat} {x : RoleKey} :
    x ∈ (w.after V e below o).visited ↔
      x ∈ V ∨ (w.policy = .onDiscovery ∧ x ∈ w.found V e below o) ∨
        (w.policy = .onCompletion ∧ w.nextAt e.role o = none ∧ x = e.role) := by
  rw [after, mem_afterPage_visited, Option.map_eq_none_iff]

theorem after_ascending {V : List RoleKey} (hV : RoleKey.Ascending V) (e : FrontierEntry)
    (below : List FrontierEntry) (o : Nat) : RoleKey.Ascending (w.after V e below o).visited :=
  afterPage_ascending _ _ _ _ _ hV

/-- **One call.** From a token whose top entry, once started, is `e` over `below`, read at
offset `o?`, a call hands out the grants of the page's members and the token `after` builds,
unless that token tracks more roles than allowed. -/
theorem step_at {t : TraversalToken} {e : FrontierEntry} {below : List FrontierEntry}
    (hs : (startFrom w.policy w.root t).pending = e :: below) {o? : Option Nat}
    (hcur : e.cursor = o?.map toString) (ho : ∀ o ∈ o?, o < 2 ^ 64) :
    w.step t =
      if w.maxRoles < (w.after (startFrom w.policy w.root t).visited e below (o?.getD 0)).trackedRoles
      then .error (.roleLimit w.root.display w.maxRoles)
      else .ok ((w.pageAt e.role (o?.getD 0)).filterMap (memberGrant w.store w.root e.role),
        w.after (startFrom w.policy w.root t).visited e below (o?.getD 0)) := by
  rw [after, nextAt_map]
  unfold step advance
  simp only [hs, hcur]
  rw [listing_at _ o? ho]
  simp only [gather_grants, List.nil_append]
  rfl

/-- **One call, from a cursor that fits.** -/
theorem step_of_fits (hfit : w.store.MembersFit) {t : TraversalToken} {e : FrontierEntry}
    {below : List FrontierEntry} (hs : (startFrom w.policy w.root t).pending = e :: below)
    (he : w.CursorFits e) :
    w.step t =
      if w.maxRoles < (w.after (startFrom w.policy w.root t).visited e below (offsetOf e)).trackedRoles
      then .error (.roleLimit w.root.display w.maxRoles)
      else .ok ((w.pageAt e.role (offsetOf e)).filterMap (memberGrant w.store w.root e.role),
        w.after (startFrom w.policy w.root t).visited e below (offsetOf e)) := by
  obtain ⟨o?, hcur, ho⟩ := he
  have ho' : ∀ o ∈ o?, o < 2 ^ 64 := fun o h => Nat.lt_trans (ho o h) (hfit.lengths e.role)
  rw [offsetOf_eq hcur ho']
  exact w.step_at hs hcur ho'

/-- What a call gives once it has built the token `t'` to hand back: the failure of the role
limit when `t'` tracks more roles than allowed, and the page otherwise. -/
def checked (g : List Grant) (t' : TraversalToken) : Except Error (List Grant × TraversalToken) :=
  if w.maxRoles < t'.trackedRoles then .error (.roleLimit w.root.display w.maxRoles)
  else .ok (g, t')

section Checked

variable {w} {g g' : List Grant} {t' t'' : TraversalToken}

theorem checked_of_le (h : t'.trackedRoles ≤ w.maxRoles) : w.checked g t' = .ok (g, t') :=
  if_neg (Nat.not_lt.mpr h)

/-- A call that succeeds hands back the token it built, which fits the limit. -/
theorem eq_of_checked_ok (h : w.checked g t' = .ok (g', t'')) :
    g' = g ∧ t'' = t' ∧ t'.trackedRoles ≤ w.maxRoles := by
  unfold checked at h
  split at h
  · cases h
  · cases h
    exact ⟨rfl, rfl, by omega⟩

/-- A call that fails fails on the role limit, over a token past it. -/
theorem eq_of_checked_error {e : Error} (h : w.checked g t' = .error e) :
    e = .roleLimit w.root.display w.maxRoles ∧ w.maxRoles < t'.trackedRoles := by
  unfold checked at h
  split at h
  · cases h
    exact ⟨rfl, by assumption⟩
  · cases h

end Checked

/-- **One call from a pending token.** A call from a token whose top entry `e` has a cursor
that fits reads the page of `e` and builds the token `after` gives, which the limit then
checks. -/
theorem step_of_pending (hfit : w.store.MembersFit) {s : TraversalToken} {e : FrontierEntry}
    {below : List FrontierEntry} (hP : s.pending = e :: below) (he : w.CursorFits e) :
    w.step s = w.checked ((w.pageAt e.role (offsetOf e)).filterMap (memberGrant w.store w.root e.role))
      (w.after s.visited e below (offsetOf e)) := by
  have hstart : startFrom w.policy w.root s = s :=
    startFrom_of_not_isDone _ _ _ (by simp [TraversalToken.isDone, hP])
  have hrun := w.step_of_fits hfit (by rw [hstart]; exact hP) he
  rw [hstart] at hrun
  exact hrun

/-- The roles a page queues: those its rows name that the token admits, each once. -/
theorem mem_found {V : List RoleKey} {e : FrontierEntry} {below : List FrontierEntry} {o : Nat}
    {k : RoleKey} :
    k ∈ w.found V e below o ↔ admits w.policy ⟨below, V⟩ e.role k = true ∧
      ∃ m ∈ w.pageAt e.role o, childRole e.role m = some k := by
  unfold found
  rw [mem_gather_found]
  simp [memberIdentity_eq_role]

theorem found_nodup (V : List RoleKey) (e : FrontierEntry) (below : List FrontierEntry) (o : Nat) :
    (w.found V e below o).Nodup :=
  gather_found_nodup _ _ _ _ _ _ _ List.nodup_nil

/-- A call reads its token only once started. -/
theorem step_startFrom (t : TraversalToken) : w.step (startFrom w.policy w.root t) = w.step t := by
  have h : startFrom w.policy w.root (startFrom w.policy w.root t) = startFrom w.policy w.root t := by
    refine startFrom_of_not_isDone _ _ _ ?_
    simpa [TraversalToken.isDone] using startFrom_pending_ne_nil w.policy w.root t
  unfold step advance
  rw [h]

theorem run_startFrom (calls : Nat) (t : TraversalToken) :
    w.run calls (startFrom w.policy w.root t) = w.run calls t := by
  cases calls with
  | zero => rfl
  | succ calls => simp only [run, step_startFrom]

/-- The grants of the outcomes of a run, in call order. -/
def grantsOf (outs : List (Except Error (List Grant × TraversalToken))) : List Grant :=
  outs.flatMap fun r => match r with
    | .ok (g, _) => g
    | .error _ => []

/-- A run that ends well: every call succeeds, and the last finishes the traversal. -/
def Finishes (outs : List (Except Error (List Grant × TraversalToken))) : Prop :=
  (∀ r ∈ outs, ∃ g t, r = .ok (g, t)) ∧ ∃ g t, outs.getLast? = some (.ok (g, t)) ∧ t.isDone

/-- **Runs counted by a potential.** If every call from a token of an invariant succeeds, uses
up exactly one unit of a potential `Φ` and hands out the grants by which a multiset potential
`Ψ` falls, and the traversal finishes exactly when both are spent, then a run of any number of
calls makes as many calls as it may, up to `Φ`, all of them successful; given `Φ` calls it
finishes, having handed out `Ψ`. -/
theorem run_exact (Inv : TraversalToken → Prop) (Φ : TraversalToken → Nat)
    (Ψ : TraversalToken → Multiset Grant)
    (hstep : ∀ s, Inv s → ∃ g t', w.step s = .ok (g, t') ∧ Φ s = Φ t' + 1 ∧
      Ψ s = ↑g + Ψ t' ∧ (t'.isDone = true → Φ t' = 0 ∧ Ψ t' = 0) ∧
      (t'.isDone = false → Inv t')) :
    ∀ calls s, Inv s → (w.run calls s).length = min calls (Φ s) ∧
      (∀ r ∈ w.run calls s, ∃ g t, r = .ok (g, t)) ∧
      (Φ s ≤ calls → Finishes (w.run calls s) ∧ (↑(grantsOf (w.run calls s)) : Multiset Grant) = Ψ s) := by
  intro calls
  induction calls with
  | zero =>
    intro s hs
    obtain ⟨g, t', -, hΦ, -⟩ := hstep s hs
    refine ⟨by simp [run], by simp [run], fun h => ?_⟩
    omega
  | succ calls ih =>
    intro s hs
    obtain ⟨g, t', hrun, hΦ, hΨ, hdone, hinv⟩ := hstep s hs
    cases hd : t'.isDone
    · -- the traversal goes on from the token handed back
      obtain ⟨hlen, hok, hend⟩ := ih t' (hinv hd)
      have hrun' : w.run (calls + 1) s = .ok (g, t') :: w.run calls t' := by
        simp [run, hrun, hd]
      rw [hrun']
      refine ⟨?_, ?_, fun hle => ?_⟩
      · rw [List.length_cons, hlen, hΦ]
        omega
      · intro r hr
        rcases List.mem_cons.mp hr with rfl | hr
        · exact ⟨g, t', rfl⟩
        · exact hok r hr
      · obtain ⟨⟨-, g', t'', hlast, hfin⟩, hgrants⟩ := hend (by omega)
        refine ⟨⟨?_, g', t'', ?_, hfin⟩, ?_⟩
        · intro r hr
          rcases List.mem_cons.mp hr with rfl | hr
          · exact ⟨g, t', rfl⟩
          · exact hok r hr
        · rw [List.getLast?_cons, hlast]
          rfl
        · simp only [grantsOf, List.flatMap_cons] at hgrants ⊢
          rw [← Multiset.coe_add, hgrants, hΨ]
    · -- the call finishes the traversal
      obtain ⟨hΦ0, hΨ0⟩ := hdone hd
      have hrun' : w.run (calls + 1) s = [.ok (g, t')] := by
        simp [run, hrun, hd]
      rw [hrun']
      refine ⟨?_, ?_, fun _ => ⟨⟨?_, g, t', rfl, hd⟩, ?_⟩⟩
      · simp only [List.length_singleton, hΦ, hΦ0]
        omega
      · intro r hr
        rw [List.mem_singleton] at hr
        exact ⟨g, t', hr⟩
      · intro r hr
        rw [List.mem_singleton] at hr
        exact ⟨g, t', hr⟩
      · simp [grantsOf, hΨ, hΨ0]

/-! ## Runs of an invariant -/

/-- The tokens the calls of a run are made with, in call order. -/
def inputs : Nat → TraversalToken → List TraversalToken
  | 0, _ => []
  | calls + 1, t =>
    t :: match w.step t with
      | .error _ => []
      | .ok (_, t') => if t'.isDone then [] else inputs calls t'

/-- The grants a call from `t` hands out. -/
def callGrants (t : TraversalToken) : List Grant :=
  match w.step t with
  | .ok (g, _) => g
  | .error _ => []

section Runs

variable {w} {calls : Nat} {t t' : TraversalToken} {g : List Grant}

theorem run_succ_of_step (h : w.step t = .ok (g, t')) :
    w.run (calls + 1) t = .ok (g, t') :: if t'.isDone then [] else w.run calls t' := by
  rw [run, h]

theorem inputs_succ_of_step (h : w.step t = .ok (g, t')) :
    w.inputs (calls + 1) t = t :: if t'.isDone then [] else w.inputs calls t' := by
  rw [inputs, h]

/-- A run that finishes after a call that does not goes on finishing. -/
theorem Finishes.of_cons {rest : List (Except Error (List Grant × TraversalToken))}
    (h : Finishes (.ok (g, t') :: rest)) (hd : t'.isDone = false) : Finishes rest := by
  obtain ⟨hok, g', t'', hlast, hfin⟩ := h
  refine ⟨fun r hr => hok r (List.mem_cons_of_mem _ hr), g', t'', ?_, hfin⟩
  cases rest with
  | nil =>
    -- the only call would be the last, and it does not finish
    simp only [List.getLast?_singleton, Option.some.injEq, Except.ok.injEq, Prod.mk.injEq] at hlast
    obtain ⟨-, rfl⟩ := hlast
    rw [hd] at hfin
    cases hfin
  | cons r rest => rwa [List.getLast?_cons_cons] at hlast

end Runs

theorem grantsOf_cons (g : List Grant) (t : TraversalToken)
    (rest : List (Except Error (List Grant × TraversalToken))) :
    grantsOf (.ok (g, t) :: rest) = g ++ grantsOf rest := rfl

/-- A run hands out the grants of the calls it makes. -/
theorem grantsOf_run : ∀ (calls : Nat) (t : TraversalToken),
    grantsOf (w.run calls t) = (w.inputs calls t).flatMap w.callGrants
  | 0, _ => rfl
  | calls + 1, t => by
    cases h : w.step t with
    | error e => simp [run, inputs, grantsOf, callGrants, h]
    | ok r =>
      obtain ⟨g, t'⟩ := r
      have hcall : w.callGrants t = g := by simp [callGrants, h]
      rw [run_succ_of_step h, inputs_succ_of_step h, grantsOf_cons, List.flatMap_cons, hcall]
      cases hd : t'.isDone
      · rw [if_neg Bool.false_ne_true, if_neg Bool.false_ne_true, grantsOf_run calls t']
      · rfl

/-- **Runs end.** If every call from a token of an invariant succeeds and, unless it finishes
the traversal, hands back a token of the invariant lower in a measure, then a run of any
number of calls makes as many as it may up to some `N`, all successful, and finishes once it
may make `N`. -/
theorem run_terminates (Inv : TraversalToken → Prop) (Φ : TraversalToken → Nat)
    (hstep : ∀ s, Inv s → ∃ g t', w.step s = .ok (g, t') ∧
      (t'.isDone = false → Inv t' ∧ Φ t' < Φ s)) :
    ∀ s, Inv s → ∃ N, ∀ calls, (w.run calls s).length = min calls N ∧
      (∀ r ∈ w.run calls s, ∃ g t, r = .ok (g, t)) ∧ (N ≤ calls → Finishes (w.run calls s)) := by
  intro s hs
  induction hΦ : Φ s using Nat.strong_induction_on generalizing s with
  | _ n ih =>
    obtain ⟨g, t', hrun, hnext⟩ := hstep s hs
    cases hd : t'.isDone
    · -- the run goes on from `t'`, which ends within its own count
      obtain ⟨hinv, hlt⟩ := hnext hd
      obtain ⟨N, hN⟩ := ih (Φ t') (hΦ ▸ hlt) t' hinv rfl
      refine ⟨N + 1, fun calls => ?_⟩
      cases calls with
      | zero => simp [run]
      | succ calls =>
        obtain ⟨hlen, hok, hfin⟩ := hN calls
        rw [run_succ_of_step hrun, hd, if_neg Bool.false_ne_true]
        refine ⟨by rw [List.length_cons, hlen]; omega, ?_, fun hle => ?_⟩
        · intro r hr
          rcases List.mem_cons.mp hr with rfl | hr
          · exact ⟨g, t', rfl⟩
          · exact hok r hr
        · obtain ⟨hok', g', t'', hlast, hdone⟩ := hfin (by omega)
          refine ⟨?_, g', t'', ?_, hdone⟩
          · intro r hr
            rcases List.mem_cons.mp hr with rfl | hr
            · exact ⟨g, t', rfl⟩
            · exact hok' r hr
          · cases hrest : w.run calls t' with
            | nil => rw [hrest] at hlast; cases hlast
            | cons r rest => rw [hrest] at hlast; rwa [List.getLast?_cons_cons]
    · -- the first call finishes the traversal
      refine ⟨1, fun calls => ?_⟩
      cases calls with
      | zero => simp [run]
      | succ calls =>
        rw [run_succ_of_step hrun, hd, if_pos rfl]
        refine ⟨by simp, fun r hr => ⟨g, t', List.mem_singleton.mp hr⟩, fun _ => ?_⟩
        exact ⟨fun r hr => ⟨g, t', List.mem_singleton.mp hr⟩, g, t', rfl, hd⟩

/-- **Every outcome of a run.** If what a call from a token of an invariant gives, an error
or a page, has a property, and a page that does not finish the traversal hands back a token
of the invariant, then every outcome of a run from such a token has the property. -/
theorem run_all (Inv : TraversalToken → Prop)
    (Good : Except Error (List Grant × TraversalToken) → Prop)
    (hstep : ∀ s, Inv s → Good (w.step s) ∧
      ∀ g t', w.step s = .ok (g, t') → t'.isDone = false → Inv t') :
    ∀ calls s, Inv s → ∀ r ∈ w.run calls s, Good r := by
  intro calls
  induction calls with
  | zero => intro s _ r h; cases h
  | succ calls ih =>
    intro s hs r hr
    obtain ⟨hgood, hinv⟩ := hstep s hs
    cases hrun : w.step s with
    | error e =>
      rw [run, hrun, List.mem_singleton] at hr
      rw [hr, ← hrun]
      exact hgood
    | ok p =>
      obtain ⟨g, t'⟩ := p
      rw [run_succ_of_step hrun] at hr
      rcases List.mem_cons.mp hr with rfl | hr
      · rw [← hrun]
        exact hgood
      · -- a later outcome comes from the token handed back, unless the traversal finished
        cases hd : t'.isDone
        · rw [hd, if_neg Bool.false_ne_true] at hr
          exact ih t' (hinv g t' hrun hd) r hr
        · rw [hd, if_pos rfl] at hr
          cases hr

/-- **Every call of a run.** What every call from a token of an invariant hands back holds of
every call of a run from such a token. -/
theorem run_forall (Inv : TraversalToken → Prop) (Good : List Grant → TraversalToken → Prop)
    (hstep : ∀ s, Inv s → ∃ g t', w.step s = .ok (g, t') ∧ Good g t' ∧
      (t'.isDone = false → Inv t')) :
    ∀ calls s, Inv s → ∀ g t, .ok (g, t) ∈ w.run calls s → Good g t := by
  intro calls s hs g t h
  refine w.run_all Inv (fun r => ∀ g t, r = .ok (g, t) → Good g t) (fun s hs => ?_) calls s hs
    _ h g t rfl
  obtain ⟨g', t', hrun, hgood, hinv⟩ := hstep s hs
  rw [hrun]
  refine ⟨fun g t h => ?_, fun g t h hd => ?_⟩
  · cases h
    exact hgood
  · cases h
    exact hinv hd

/-- **Runs stop.** If a page that does not finish the traversal hands back a token of an
invariant lower in a measure, a run from such a token given more calls than the measure stops
by itself: its last outcome is an error or a page that finishes the traversal. -/
theorem run_ends (Inv : TraversalToken → Prop) (Φ : TraversalToken → Nat)
    (hstep : ∀ s, Inv s → ∀ g t', w.step s = .ok (g, t') → t'.isDone = false →
      Inv t' ∧ Φ t' < Φ s) :
    ∀ calls s, Inv s → Φ s < calls →
      ∃ r, (w.run calls s).getLast? = some r ∧ ∀ g t, r = .ok (g, t) → t.isDone = true := by
  intro calls
  induction calls with
  | zero => intro s _ h; omega
  | succ calls ih =>
    intro s hs hlt
    cases hrun : w.step s with
    | error e =>
      refine ⟨.error e, by rw [run, hrun]; rfl, fun g t h => ?_⟩
      cases h
    | ok p =>
      obtain ⟨g, t'⟩ := p
      rw [run_succ_of_step hrun]
      cases hd : t'.isDone
      · -- the rest of the run comes from a token lower in the measure
        obtain ⟨hinv, hΦ⟩ := hstep s hs g t' hrun hd
        obtain ⟨r, hlast, hr⟩ := ih t' hinv (by omega)
        refine ⟨r, ?_, hr⟩
        rw [if_neg Bool.false_ne_true, List.getLast?_cons, hlast]
        rfl
      · refine ⟨.ok (g, t'), rfl, fun g' t'' h => ?_⟩
        cases h
        exact hd

section Ledger

variable {M : Type} [AddCommMonoid M] [PartialOrder M] [IsOrderedAddMonoid M]

/-- **What a run spends.** If every call from a token of an invariant succeeds and spends `f`
of a potential `P`, the calls of a run from such a token spend no more than `P` held. -/
theorem sum_inputs_le [CanonicallyOrderedAdd M] (Inv : TraversalToken → Prop)
    (f P : TraversalToken → M)
    (hstep : ∀ s, Inv s → ∃ g t', w.step s = .ok (g, t') ∧ f s + P t' ≤ P s ∧
      (t'.isDone = false → Inv t')) :
    ∀ calls s, Inv s → ((w.inputs calls s).map f).sum ≤ P s := by
  intro calls
  induction calls with
  | zero => intro s _; simp [inputs]
  | succ calls ih =>
    intro s hs
    obtain ⟨g, t', hrun, hle, hinv⟩ := hstep s hs
    rw [inputs_succ_of_step hrun, List.map_cons, List.sum_cons]
    cases hd : t'.isDone
    · rw [if_neg Bool.false_ne_true]
      exact le_trans (add_le_add_right (ih t' (hinv hd)) (f s)) hle
    · rw [if_pos rfl, List.map_nil, List.sum_nil, add_zero]
      exact le_trans le_self_add hle

/-- **What a finished run must have spent.** If every call from a token of an invariant
succeeds, and a potential `P` falls by at most `f` at each call and is spent when the
traversal finishes, then a run from such a token that finishes spends at least `P`. -/
theorem le_sum_inputs (Inv : TraversalToken → Prop) (f P : TraversalToken → M)
    (hstep : ∀ s, Inv s → ∃ g t', w.step s = .ok (g, t') ∧ P s ≤ f s + P t' ∧
      (t'.isDone = true → P t' = 0) ∧ (t'.isDone = false → Inv t')) :
    ∀ calls s, Inv s → Finishes (w.run calls s) → P s ≤ ((w.inputs calls s).map f).sum := by
  intro calls
  induction calls with
  | zero =>
    intro s _ h
    obtain ⟨-, g, t, hlast, -⟩ := h
    cases hlast
  | succ calls ih =>
    intro s hs hfin
    obtain ⟨g, t', hrun, hle, hzero, hinv⟩ := hstep s hs
    rw [run_succ_of_step hrun] at hfin
    rw [inputs_succ_of_step hrun, List.map_cons, List.sum_cons]
    cases hd : t'.isDone
    · rw [hd, if_neg Bool.false_ne_true] at hfin
      rw [if_neg Bool.false_ne_true]
      exact le_trans hle (add_le_add_right (ih t' (hinv hd) (hfin.of_cons hd)) (f s))
    · rw [if_pos rfl, List.map_nil, List.sum_nil, add_zero]
      simpa [hzero hd] using hle

end Ledger

end Traversal

/-! ## Steps keep tokens well formed -/

/-- The items of a page of a listing are rows of it. -/
theorem mem_of_listing {α : Type} {rows : List α} {cursor : Option String} {size : Nat}
    {page : Page α} (h : Store.listing rows cursor size = .ok page) {x : α}
    (hx : x ∈ page.items) : x ∈ rows := by
  unfold Store.listing pageOf pageBounds at h
  cases hoff : pageOffset cursor with
  | error f =>
    rw [hoff] at h
    cases h
  | ok o =>
    rw [hoff] at h
    simp only [Bind.bind, Except.bind, Pure.pure, Except.pure, finishPage_drop] at h
    cases h
    exact List.mem_of_mem_drop (List.mem_of_mem_take hx)

/-- Starting keeps a token well formed when the root is valid. -/
theorem startFrom_wellFormed (policy : VisitPolicy) {root : RoleKey} (hroot : root.Valid)
    {t : TraversalToken} (ht : t.WellFormed) : (startFrom policy root t).WellFormed := by
  cases hd : t.isDone
  · rw [startFrom_of_not_isDone policy root t hd]
    exact ht
  · obtain ⟨hp, hv⟩ := startFrom_of_isDone policy root t hd
    refine ⟨?_, ?_, startFrom_ascending policy root t ht.visited_sorted⟩
    · intro e he
      rw [hp, List.mem_singleton] at he
      subst he
      exact hroot
    · intro k hk
      rcases (hv k).mp hk with ⟨_, rfl⟩ | hk
      · exact hroot
      · exact ht.visited_valid k hk

/-- A step over a catalog whose member lists fit their types, from a valid root, hands back a
well-formed token. -/
theorem advance_wellFormed {st : Store} (hfit : st.MembersFit) {policy : VisitPolicy}
    {maxRoles : Nat} {root : RoleKey} (hroot : root.Valid) {t : TraversalToken}
    (ht : t.WellFormed) {size : Nat} {g : List Grant} {t' : TraversalToken}
    (h : advance st policy maxRoles root t size = .ok (g, t')) : t'.WellFormed := by
  have hs := startFrom_wellFormed policy hroot ht
  unfold advance at h
  rcases hp : (startFrom policy root t).pending with _ | ⟨e, below⟩
  · exact absurd hp (startFrom_pending_ne_nil policy root t)
  simp only [hp] at h
  have he : e.role.Valid := hs.pending_valid e (by rw [hp]; exact List.mem_cons_self)
  cases hl : Store.listing (st.members.listAt e.role) e.cursor size with
  | error err =>
    rw [hl] at h
    cases h
  | ok page =>
    rw [hl] at h
    simp only at h
    split at h
    · cases h
    · simp only [Except.ok.injEq, Prod.mk.injEq] at h
      obtain ⟨-, rfl⟩ := h
      refine ⟨?_, ?_, afterPage_ascending _ _ _ _ _ hs.visited_sorted⟩
      · intro x hx
        rw [afterPage_pending] at hx
        simp only [List.mem_append, Option.mem_toList, Option.map_eq_some_iff,
          List.mem_map] at hx
        rcases hx with (⟨c, -, rfl⟩ | ⟨k, hk, rfl⟩) | hx
        · exact he
        · -- a role found on the page is named by one of its rows
          obtain ⟨-, m, hm, hid⟩ :=
            ((mem_gather_found _ _ _ _ _ _ _ k).mp hk).resolve_left (by simp)
          exact childRole_valid (memberIdentity_eq_role.mp hid) he
            (hfit.ids e.role m (mem_of_listing hl hm))
        · exact hs.pending_valid x (by rw [hp]; exact List.mem_cons_of_mem e hx)
      · intro x hx
        rcases (mem_afterPage_visited _ _ _ _ _).mp hx with hx | ⟨-, hk⟩ | ⟨-, -, rfl⟩
        · exact hs.visited_valid x hx
        · obtain ⟨-, m, hm, hid⟩ :=
            ((mem_gather_found _ _ _ _ _ _ _ x).mp hk).resolve_left (by simp)
          exact childRole_valid (memberIdentity_eq_role.mp hid) he
            (hfit.ids e.role m (mem_of_listing hl hm))
        · exact he

/-- The fresh token is well formed. -/
theorem TraversalToken.wellFormed_fresh : TraversalToken.fresh.WellFormed :=
  ⟨fun _ h => (by cases h), fun _ h => (by cases h), List.Pairwise.nil⟩

/-- A catalog whose every member list fits its types. -/
theorem Store.MembersFit.of_rows {st : Store}
    (h : ∀ kv ∈ st.members.rows, (∀ m ∈ kv.2, m.id.InRange) ∧ kv.2.length < 2 ^ 64) :
    st.MembersFit := by
  have hlist : ∀ k, st.members.listAt k = [] ∨ ∃ kv ∈ st.members.rows, st.members.listAt k = kv.2 := by
    intro k
    unfold Table.listAt Table.find?
    cases hv : Table.valueIn k st.members.rows with
    | none => exact .inl rfl
    | some rows => exact .inr ⟨(k, rows), Table.mem_rows_of_valueIn hv, rfl⟩
  refine ⟨fun k m hm => ?_, fun k => ?_⟩
  · rcases hlist k with he | ⟨kv, hkv, he⟩
    · rw [he] at hm
      cases hm
    · rw [he] at hm
      exact (h kv hkv).1 m hm
  · rcases hlist k with he | ⟨kv, hkv, he⟩
    · rw [he]
      decide
    · rw [he]
      exact (h kv hkv).2

/-- The inventory of a session serves its own store, when its cache agrees with it. -/
theorem Inventory.matches_self {i : Inventory} (h : i.cache.Agrees i.store.mappings) :
    i.Matches i.store i.store.memberFetches :=
  ⟨rfl, rfl, rfl, h⟩

/-- An empty cache agrees with every mapping table. -/
theorem MappingCache.agrees_empty (capacity : Nat) (tbl : Table DatabasePrincipal ServerPrincipal) :
    (MappingCache.empty capacity).Agrees tbl :=
  fun _ h => by cases h

/-- The grants of the pages of a drain, in call order. -/
def drainGrants (pages : List (Except Error GrantPage)) : List Grant :=
  pages.flatMap fun p => match p with
    | .ok q => q.grants
    | .error _ => []

/-- The pages of a run hand out the grants of its calls. -/
theorem drainGrants_map (outs : List (Except Error (List Grant × TraversalToken))) :
    drainGrants (outs.map (Except.map fun r => ⟨r.1, r.2.encode⟩)) = Traversal.grantsOf outs := by
  induction outs with
  | nil => rfl
  | cons r outs ih =>
    rcases r with e | ⟨g, t⟩
    · simpa [drainGrants, Traversal.grantsOf, Except.map] using ih
    · simpa [drainGrants, Traversal.grantsOf, Except.map] using ih

/-- The pages of a run that finishes are all pages, and the last is the last of the listing. -/
theorem finishes_map {outs : List (Except Error (List Grant × TraversalToken))}
    (h : Traversal.Finishes outs) :
    (∀ p ∈ outs.map (Except.map fun r => (⟨r.1, r.2.encode⟩ : GrantPage)), ∃ q, p = .ok q) ∧
      ∃ q, (outs.map (Except.map fun r => (⟨r.1, r.2.encode⟩ : GrantPage))).getLast? = some (.ok q) ∧
        q.isLast = true := by
  obtain ⟨hok, g, t, hlast, hdone⟩ := h
  refine ⟨fun p hp => ?_, ⟨g, t.encode⟩, ?_, ?_⟩
  · obtain ⟨r, hr, rfl⟩ := List.mem_map.mp hp
    obtain ⟨g', t', rfl⟩ := hok r hr
    exact ⟨_, rfl⟩
  · rw [List.getLast?_map, hlast]
    rfl
  · simp [GrantPage.isLast, TraversalToken.encode_isEmpty, hdone]

/-! ## A drain is a run over tokens -/

/-- A drain over a session serving the catalog `st`, from a token that reads as a
well-formed one, gives the pages of the run of the session's traversal from that token, and
the store serves one member page for each of them. -/
theorem drainFrom_run {st : Store} (hfit : st.MembersFit) {root : ResourceId} {key : RoleKey}
    (hkey : RoleKey.ofResource root = .ok key) (hvalid : key.Valid) (size : Nat) :
    ∀ (calls : Nat) (s : Session) (n : Nat) (token : String) (t : TraversalToken),
      s.inventory.Matches st n → TraversalToken.decode token = .ok t → t.WellFormed →
      (s.drainFrom root size calls token).1 =
          ((s.connector.traversal st key size).run calls t).map
            (Except.map fun r => ⟨r.1, r.2.encode⟩) ∧
        (s.drainFrom root size calls token).2.inventory.Matches st
          (n + ((s.connector.traversal st key size).run calls t).length) := by
  intro calls
  induction calls with
  | zero => intro s n token t h _ _; exact ⟨rfl, h⟩
  | succ calls ih =>
    intro s n token t h hdec ht
    obtain ⟨i', hrun, h'⟩ := roleGrants_run h s.connector hkey hdec size
    have hstep : (s.connector.traversal st key size).step t =
        advance st s.connector.policy s.connector.maxRoles key t (s.connector.pageSize size) := rfl
    unfold Session.drainFrom Session.act
    rw [hrun]
    simp only [Traversal.run, hstep]
    cases hadv : advance st s.connector.policy s.connector.maxRoles key t (s.connector.pageSize size) with
    | error e => exact ⟨rfl, h'⟩
    | ok r =>
      obtain ⟨g, t'⟩ := r
      have ht' : t'.WellFormed := advance_wellFormed hfit hvalid ht hadv
      simp only [Except.map, GrantPage.isLast, TraversalToken.encode_isEmpty]
      cases hd : t'.isDone
      · -- the next call reads back the token this one handed back
        have hp : t'.pending ≠ [] := by simpa [TraversalToken.isDone] using hd
        obtain ⟨hpages, hmatch⟩ := ih { s with inventory := i', roleToken := t'.encode } (n + 1)
          t'.encode t' h' (TraversalToken.decode_encode_of_pending ht' hp) ht'
        refine ⟨?_, ?_⟩
        · simp only [Bool.false_eq_true, if_false, List.map_cons]
          exact congrArg _ hpages
        · simp only [Bool.false_eq_true, if_false, List.length_cons]
          rw [← Nat.add_assoc, Nat.add_right_comm]
          exact hmatch
      · exact ⟨rfl, h'⟩

end AccessReview
