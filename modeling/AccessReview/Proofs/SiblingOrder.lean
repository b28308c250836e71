import Mathlib
import AccessReview.Proofs.TraversalShape

/-! # The order sibling roles are expanded in

A page of a role's listing finds roles in the order of its rows, and a call pushes them so
that the first found is on top; when the listing goes on, its resumed entry goes above them,
so that the rest of the listing is read first. The stack does the rest: a call takes the
entry on top and leaves every entry below it where it was (`Traversal.step_pending_frame`), so
an entry comes to the top only once everything pushed above it has been taken off.

This file proves what that gives a drain from the empty token
(`Traversal.siblings_expanded_in_row_order`). When one call pushes two distinct roles `C₁` and
`C₂`, a row naming `C₁` coming before every row naming `C₂` in the page it reads, the entry of
`C₁` comes to the top of the stack, over that of `C₂`, before the entry of `C₂` does, under
either policy. Under `onDiscovery` those are the only entries of the two roles a traversal
ever holds, so the first member page of `C₁` is fetched before the first of `C₂`.

Neither holds of roles found on different pages of one listing, nor, under `onCompletion`, of
the roles' first fetches: a role found on a later page is expanded first, and a role may be
queued again by a role expanded in between (`siblings_fetched_out_of_row_order`).
-/

namespace AccessReview

/-! ## The order a page finds roles in -/

section Gather

variable (st : Store) (policy : VisitPolicy) (token : TraversalToken) (expanding : RoleKey)
  (entitlement : Entitlement)

/-- A member adds to the roles found only at their end. -/
theorem Harvest.found_prefix_add (acc : Harvest) (id : Identity) :
    acc.found <+: (acc.add policy token expanding entitlement id).found := by
  cases id with
  | role k =>
    simp only [Harvest.add]
    split
    · exact List.prefix_append _ _
    · exact List.prefix_refl _
  | _ => exact List.prefix_refl _

/-- Rows add to the roles found only at their end. -/
theorem gather_found_prefix (rows : List MemberRow) (acc : Harvest) :
    acc.found <+: (gather st policy token expanding entitlement rows acc).found := by
  induction rows generalizing acc with
  | nil => exact List.prefix_refl _
  | cons m rest ih => exact (Harvest.found_prefix_add _ _ _ _ _ _).trans (ih _)

theorem gather_append (r₁ r₂ : List MemberRow) (acc : Harvest) :
    gather st policy token expanding entitlement (r₁ ++ r₂) acc =
      gather st policy token expanding entitlement r₂
        (gather st policy token expanding entitlement r₁ acc) :=
  List.foldl_append

end Gather

/-- Starting a token takes none of its visited roles away. -/
theorem mem_startFrom_visited {policy : VisitPolicy} {root : RoleKey} {t : TraversalToken}
    {x : RoleKey} (hx : x ∈ t.visited) : x ∈ (startFrom policy root t).visited := by
  cases hd : t.isDone
  · rwa [startFrom_of_not_isDone _ _ _ hd]
  · exact ((startFrom_of_isDone policy root t hd).2 x).mpr (.inr hx)

namespace Traversal

variable (w : Traversal)

/-- **A page finds roles in row order.** When a row naming `C₁` comes before every row naming
`C₂`, and the page queues both, `C₁` is found, and so pushed, before `C₂`. -/
theorem found_split {V : List RoleKey} {e : FrontierEntry} {below : List FrontierEntry} {o : Nat}
    {r₁ r₂ : List MemberRow} {m : MemberRow} {C₁ C₂ : RoleKey}
    (hpage : w.pageAt e.role o = r₁ ++ m :: r₂) (hm : childRole e.role m = some C₁)
    (hr₁ : ∀ m' ∈ r₁, childRole e.role m' ≠ some C₂) (hne : C₁ ≠ C₂)
    (h₁ : C₁ ∈ w.found V e below o) (h₂ : C₂ ∈ w.found V e below o) :
    ∃ F₁ F₂ F₃, w.found V e below o = F₁ ++ C₁ :: F₂ ++ C₂ :: F₃ := by
  -- the harvest before the row of `C₁`, and just after it
  let H₀ := gather w.store w.policy ⟨below, V⟩ e.role (.member w.root.resourceId) r₁ ⟨[], []⟩
  let H₁ := H₀.add w.policy ⟨below, V⟩ e.role (.member w.root.resourceId)
    (memberIdentity w.store e.role m)
  have hfound : w.found V e below o =
      (gather w.store w.policy ⟨below, V⟩ e.role (.member w.root.resourceId) r₂ H₁).found := by
    unfold found
    rw [hpage, gather_append]
    rfl
  have hid : memberIdentity w.store e.role m = .role C₁ := memberIdentity_eq_role.mpr hm
  have hadmit : admits w.policy ⟨below, V⟩ e.role C₁ = true := (w.mem_found.mp h₁).1
  have hC₂₀ : C₂ ∉ H₀.found := by
    rw [mem_gather_found]
    rintro (h | ⟨-, m', hm', hid'⟩)
    · cases h
    · exact hr₁ m' hm' (memberIdentity_eq_role.mp hid')
  have hC₁ : C₁ ∈ H₁.found := (Harvest.mem_add_found _ _ _ _ _ _ _).mpr (.inr ⟨hid, hadmit⟩)
  have hC₂₁ : C₂ ∉ H₁.found := by
    rw [Harvest.mem_add_found, hid]
    rintro (h | ⟨h, -⟩)
    · exact hC₂₀ h
    · exact hne (Identity.role.inj h)
  -- the rows after it only add at the end, where `C₂` must be
  obtain ⟨X, hX⟩ := gather_found_prefix w.store w.policy ⟨below, V⟩ e.role
    (.member w.root.resourceId) r₂ H₁
  rw [hfound, ← hX] at h₂ ⊢
  have hC₂X : C₂ ∈ X := (List.mem_append.mp h₂).resolve_left hC₂₁
  obtain ⟨F₁, F₂, hF⟩ := List.append_of_mem hC₁
  obtain ⟨G₁, G₂, hG⟩ := List.append_of_mem hC₂X
  exact ⟨F₁, F₂ ++ G₁, G₂, by rw [hF, hG]; simp⟩

/-! ## The stack under a call -/

/-- A call that succeeds takes the entry on top of its started token and hands back the token
`afterPage` builds over the rest of the stack. -/
theorem eq_afterPage_of_step {t t' : TraversalToken} {g : List Grant}
    (h : w.step t = .ok (g, t')) :
    ∃ e below found next, (startFrom w.policy w.root t).pending = e :: below ∧
      t' = afterPage w.policy e ⟨below, (startFrom w.policy w.root t).visited⟩ found next := by
  obtain ⟨e, below, hP⟩ := List.exists_cons_of_ne_nil (startFrom_pending_ne_nil w.policy w.root t)
  unfold step advance at h
  simp only [hP] at h
  split at h
  · cases h
  · split at h
    · cases h
    · cases h
      exact ⟨e, below, _, _, hP, rfl⟩

/-- **What a call leaves below the top.** A call that succeeds from a token with pending
entries takes the entry on top and pushes entries over the rest of the stack, which it leaves
as it was. -/
theorem step_pending_frame {t : TraversalToken} {x : FrontierEntry} {rest : List FrontierEntry}
    (hP : t.pending = x :: rest) {g : List Grant} {t' : TraversalToken}
    (h : w.step t = .ok (g, t')) : ∃ top, t'.pending = top ++ rest := by
  obtain ⟨e, below, found, next, hP', rfl⟩ := w.eq_afterPage_of_step h
  rw [startFrom_of_not_isDone _ _ _ (by simp [TraversalToken.isDone, hP]), hP,
    List.cons.injEq] at hP'
  obtain ⟨-, rfl⟩ := hP'
  exact ⟨_, afterPage_pending _ _ _ _ _⟩

/-- A call takes nothing off the roles visited by the token it starts from. -/
theorem step_visited {t t' : TraversalToken} {g : List Grant} (h : w.step t = .ok (g, t'))
    {x : RoleKey} (hx : x ∈ (startFrom w.policy w.root t).visited) : x ∈ t'.visited := by
  obtain ⟨e, below, found, next, -, rfl⟩ := w.eq_afterPage_of_step h
  exact (mem_afterPage_visited _ _ _ _ _).mpr (.inl hx)

/-- A call from a stack where `x` lies under other entries leaves `x`, and what lies below
it, as they were. -/
theorem step_keeps_entry {t : TraversalToken} {y x : FrontierEntry} {X Y : List FrontierEntry}
    (hP : t.pending = y :: X ++ x :: Y) {g : List Grant} {t' : TraversalToken}
    (h : w.step t = .ok (g, t')) : ∃ X', t'.pending = X' ++ x :: Y := by
  obtain ⟨top, htop⟩ := w.step_pending_frame hP h
  exact ⟨top ++ X, by rw [htop]; simp⟩

/-! ## Tokens of a run -/

section Inputs

variable {w}

/-- The first call of a run is made with the token the run starts from. -/
theorem eq_of_inputs_zero {calls : Nat} {t u : TraversalToken}
    (h : (w.inputs calls t)[0]? = some u) : u = t := by
  cases calls with
  | zero => cases h
  | succ calls =>
    rw [inputs, List.getElem?_cons_zero] at h
    exact (Option.some.inj h).symm

theorem getElem?_inputs_succ_of_step {calls i : Nat} {t t' : TraversalToken} {g : List Grant}
    (h : w.step t = .ok (g, t')) (hd : t'.isDone = false) :
    (w.inputs (calls + 1) t)[i + 1]? = (w.inputs calls t')[i]? := by
  rw [inputs_succ_of_step h, hd, if_neg Bool.false_ne_true, List.getElem?_cons_succ]

/-- A later call of a run is one of the run from the token the first call hands back. -/
theorem inputs_succ_getElem? {calls j : Nat} {t u : TraversalToken}
    (h : (w.inputs calls t)[j + 1]? = some u) :
    ∃ c g t', calls = c + 1 ∧ w.step t = .ok (g, t') ∧ t'.isDone = false ∧
      (w.inputs c t')[j]? = some u := by
  cases calls with
  | zero => cases h
  | succ c =>
    cases hs : w.step t with
    | error e => simp [inputs, hs] at h
    | ok r =>
      obtain ⟨g, t'⟩ := r
      cases hd : t'.isDone
      · rw [getElem?_inputs_succ_of_step hs hd] at h
        exact ⟨c, g, t', rfl, rfl, hd, h⟩
      · simp [inputs, hs, hd] at h

/-- From the call at `p` on, a run is the run from that call's token. -/
theorem inputs_drop : ∀ {calls p : Nat} {t s : TraversalToken}, (w.inputs calls t)[p]? = some s →
    ∃ c, (w.inputs calls t).drop p = w.inputs c s
  | calls, 0, t, s, h => ⟨calls, by rw [eq_of_inputs_zero h, List.drop_zero]⟩
  | _, _ + 1, _, _, h => by
    obtain ⟨c, g, t', rfl, hs, hd, h'⟩ := inputs_succ_getElem? h
    obtain ⟨c', hc'⟩ := inputs_drop h'
    refine ⟨c', ?_⟩
    rw [inputs_succ_of_step hs, hd, if_neg Bool.false_ne_true, List.drop_succ_cons, hc']

/-- **The run after a call.** When a run makes a call after the one at `p`, that call hands
back a token that goes on, and the later calls are those of a run from it. -/
theorem inputs_after {calls p j : Nat} {t s u : TraversalToken}
    (hs : (w.inputs calls t)[p]? = some s) (hu : (w.inputs calls t)[p + j + 1]? = some u) :
    ∃ c g t', w.step s = .ok (g, t') ∧ t'.isDone = false ∧
      ∀ i, (w.inputs calls t)[p + i + 1]? = (w.inputs c t')[i]? := by
  obtain ⟨c, hc⟩ := inputs_drop hs
  have hshift : ∀ i, (w.inputs calls t)[p + i + 1]? = (w.inputs c s)[i + 1]? := by
    intro i
    rw [← hc, List.getElem?_drop, Nat.add_assoc]
  rw [hshift] at hu
  obtain ⟨c', g, t', rfl, hstep, hd, -⟩ := inputs_succ_getElem? hu
  refine ⟨c', g, t', hstep, hd, fun i => ?_⟩
  rw [hshift, getElem?_inputs_succ_of_step hstep hd]

/-- **What a run keeps.** A property of tokens that every successful call keeps holds of
every token of a run from a token that has it. -/
theorem inputs_keep (S : TraversalToken → Prop)
    (hS : ∀ t g t', S t → w.step t = .ok (g, t') → S t') :
    ∀ calls t, S t → ∀ u ∈ w.inputs calls t, S u := by
  intro calls
  induction calls with
  | zero => intro t _ u hu; cases hu
  | succ calls ih =>
    intro t ht u hu
    cases hs : w.step t with
    | error e =>
      simp only [inputs, hs, List.mem_singleton] at hu
      rw [hu]
      exact ht
    | ok r =>
      obtain ⟨g, t'⟩ := r
      rw [inputs_succ_of_step hs] at hu
      rcases List.mem_cons.mp hu with rfl | hu
      · exact ht
      · split at hu
        · cases hu
        · exact ih t' (hS t g t' ht hs) u hu

/-- **The first of two kinds of call.** If no call of kind `B` is made from a token of `Q`, and
a successful call from a token of `Q` that is not of kind `A` hands back a token of `Q`, then in
a run from a token of `Q` every call of kind `B` comes after one of kind `A`. -/
theorem inputs_first (Q A B : TraversalToken → Prop) (hB : ∀ t, Q t → ¬ B t)
    (hQ : ∀ t g t', Q t → ¬ A t → w.step t = .ok (g, t') → Q t') :
    ∀ (calls : Nat) (t : TraversalToken), Q t → ∀ (j : Nat) (u : TraversalToken),
      (w.inputs calls t)[j]? = some u → B u →
      ∃ i < j, ∃ v, (w.inputs calls t)[i]? = some v ∧ A v := by
  intro calls
  induction calls with
  | zero => intro t _ j u hu; simp [inputs] at hu
  | succ calls ih =>
    intro t ht j u hu hBu
    cases j with
    | zero => exact absurd (eq_of_inputs_zero hu ▸ hBu) (hB t ht)
    | succ j =>
      by_cases hA : A t
      · exact ⟨0, Nat.succ_pos j, t, by rw [inputs, List.getElem?_cons_zero], hA⟩
      · -- the run goes on from the token the first call hands back, still one of `Q`
        obtain ⟨c, g, t', hc, hs, hd, hu'⟩ := inputs_succ_getElem? hu
        obtain rfl : calls = c := Nat.succ.inj hc
        obtain ⟨i, hij, v, hv, hAv⟩ := ih t' (hQ t g t' ht hA hs) j u hu' hBu
        exact ⟨i + 1, Nat.succ_lt_succ hij, v, by rwa [getElem?_inputs_succ_of_step hs hd], hAv⟩

end Inputs

/-- **An entry comes to the top before the stack shrinks below it.** In a run from a token
whose stack holds an entry `x` over `Y`, every call from a stack no longer than `Y` comes
after a call from the stack `x :: Y`. -/
theorem top_before_below {x : FrontierEntry} {Y : List FrontierEntry} :
    ∀ (calls : Nat) (t : TraversalToken), (∃ X, t.pending = X ++ x :: Y) →
      ∀ (j : Nat) (u : TraversalToken), (w.inputs calls t)[j]? = some u →
      u.pending.length ≤ Y.length →
      ∃ i < j, ∃ v, (w.inputs calls t)[i]? = some v ∧ v.pending = x :: Y := by
  refine w.inputs_first _ _ _ (fun t ⟨X, hX⟩ hlen => ?_) (fun t g t' ⟨X, hX⟩ hA hs => ?_)
  · rw [hX, List.length_append, List.length_cons] at hlen
    omega
  · -- the entry on top is above `x`
    cases X with
    | nil => exact absurd hX hA
    | cons y X => exact w.step_keeps_entry hX hs

/-! ## The roles a drain fetches -/

/-- The role whose member page a call from `t` fetches: the role on top of the token, once
started. -/
def fetchedRole (t : TraversalToken) : RoleKey :=
  match (startFrom w.policy w.root t).pending with
  | e :: _ => e.role
  | [] => w.root

/-- The roles whose member pages the calls of a drain of `calls` calls from the empty token
fetch, in call order. -/
def fetchOrder (calls : Nat) : List RoleKey := (w.inputs calls .fresh).map w.fetchedRole

section Fetches

variable {w}

theorem fetchedRole_of_started {t : TraversalToken} {e : FrontierEntry}
    {below : List FrontierEntry} (hP : (startFrom w.policy w.root t).pending = e :: below) :
    w.fetchedRole t = e.role := by
  unfold fetchedRole
  rw [hP]

theorem fetchedRole_of_pending {t : TraversalToken} {e : FrontierEntry}
    {below : List FrontierEntry} (hP : t.pending = e :: below) : w.fetchedRole t = e.role :=
  fetchedRole_of_started
    (by rw [startFrom_of_not_isDone _ _ _ (by simp [TraversalToken.isDone, hP]), hP])

theorem getElem?_fetchOrder {calls j : Nat} {k : RoleKey} :
    (w.fetchOrder calls)[j]? = some k ↔
      ∃ u, (w.inputs calls .fresh)[j]? = some u ∧ w.fetchedRole u = k := by
  rw [fetchOrder, List.getElem?_map, Option.map_eq_some_iff]

/-- Every token of a run from the empty token is the empty token or one handed back. -/
theorem handed_of_mem_inputs (hfit : w.store.MembersFit) {calls : Nat} {u : TraversalToken}
    (hu : u ∈ w.inputs calls .fresh) : u = .fresh ∨ w.HandedInv u :=
  w.inputs_keep (fun t => t = .fresh ∨ w.HandedInv t)
    (fun _ _ _ ht hs => .inr (HandedInv.step hfit ht hs)) calls .fresh (.inl rfl) u hu

/-- Every call of a run from the empty token starts from a token of the invariant. -/
theorem callInv_of_mem_inputs (hfit : w.store.MembersFit) {calls : Nat} {u : TraversalToken}
    (hu : u ∈ w.inputs calls .fresh) : w.CallInv (startFrom w.policy w.root u) := by
  rcases handed_of_mem_inputs hfit hu with rfl | h
  · exact w.callInv_start
  · exact h.callInv_startFrom

/-- A role visited by the call at `i` of a run is visited by every later call. -/
theorem visited_of_inputs {calls i j : Nat} {t u v : TraversalToken} (hij : i ≤ j)
    (hu : (w.inputs calls t)[i]? = some u) (hv : (w.inputs calls t)[j]? = some v) {x : RoleKey}
    (hx : x ∈ (startFrom w.policy w.root u).visited) :
    x ∈ (startFrom w.policy w.root v).visited := by
  obtain ⟨c, hc⟩ := inputs_drop hu
  have hv' : (w.inputs c u)[j - i]? = some v := by
    rw [← hc, List.getElem?_drop, Nat.add_sub_cancel' hij]
    exact hv
  exact w.inputs_keep (fun t => x ∈ (startFrom w.policy w.root t).visited)
    (fun _ _ _ ht hs => mem_startFrom_visited (w.step_visited hs ht)) c u hx v
    (List.mem_of_getElem? hv')

/-- Under `onDiscovery` the role a call of a run from the empty token fetches is visited from
that call on: it was marked when it was queued. -/
theorem fetchedRole_visited (hpol : w.policy = .onDiscovery) (hfit : w.store.MembersFit)
    {calls i j : Nat} {u v : TraversalToken} (hij : i ≤ j)
    (hu : (w.inputs calls .fresh)[i]? = some u) (hv : (w.inputs calls .fresh)[j]? = some v) :
    w.fetchedRole u ∈ (startFrom w.policy w.root v).visited := by
  have hinv := (callInv_of_mem_inputs hfit (List.mem_of_getElem? hu)).discovery hpol
  obtain ⟨e, below, hP⟩ := List.exists_cons_of_ne_nil hinv.pending_ne
  rw [fetchedRole_of_started hP]
  exact visited_of_inputs hij hu hv (hinv.pending_visited e (by rw [hP]; exact List.mem_cons_self))

/-- **The stack a call leaves.** A call from a token whose start is one of the invariant, that
reads the page of `e` and finds `C` with `F` after it, hands back a token of the invariant in
which the entry of `C` lies over those of `F` and the stack below `e`. -/
theorem CallInv.step_found (hfit : w.store.MembersFit) {s : TraversalToken} {e : FrontierEntry}
    {below : List FrontierEntry} {F₀ F : List RoleKey} {C : RoleKey}
    (hcall : w.CallInv (startFrom w.policy w.root s))
    (hP : (startFrom w.policy w.root s).pending = e :: below)
    (hF : w.found (startFrom w.policy w.root s).visited e below (offsetOf e) = F₀ ++ C :: F)
    {g : List Grant} {t' : TraversalToken} (hstep : w.step s = .ok (g, t')) :
    w.HandedInv t' ∧ ∃ X, t'.pending = X ++ ⟨C, none⟩ :: (F.map (⟨·, none⟩) ++ below) := by
  rw [← w.step_startFrom] at hstep
  refine ⟨hcall.handed hfit hstep, ?_⟩
  rw [w.step_of_pending hfit hP (hcall.cursors e (by rw [hP]; exact List.mem_cons_self))] at hstep
  obtain ⟨-, rfl, -⟩ := eq_of_checked_ok hstep
  rw [after_pending, hF]
  simp only [List.map_append, List.map_cons, List.append_assoc, List.cons_append]
  exact ⟨_, (List.append_assoc _ _ _).symm⟩

/-- **Under `onDiscovery`, a role pending below an entry is fetched only after it.** No role is
pending twice, so while an entry of `x` lies over `Y`, the role on top is not one of `Y`'s;
in a run from such a token, every call fetching a role of `Y` comes after a call fetching
`x`'s. -/
theorem fetched_after_entry (hpol : w.policy = .onDiscovery) (hfit : w.store.MembersFit)
    {x : FrontierEntry} {Y : List FrontierEntry} {k : RoleKey} (hk : k ∈ Y.map (·.role)) :
    ∀ (calls : Nat) (t : TraversalToken), (w.CallInv t ∧ ∃ X, t.pending = X ++ x :: Y) →
      ∀ (j : Nat) (u : TraversalToken), (w.inputs calls t)[j]? = some u → w.fetchedRole u = k →
      ∃ i < j, ∃ v, (w.inputs calls t)[i]? = some v ∧ w.fetchedRole v = x.role := by
  refine w.inputs_first _ _ _ (fun t ⟨ht, X, hX⟩ hfk => ?_) (fun t g t' ⟨ht, X, hX⟩ hA hs => ?_)
  · -- the role on top is not pending again below it, where `k` is
    obtain ⟨y, rest, hP, hkrest⟩ : ∃ y rest, t.pending = y :: rest ∧ k ∈ rest.map (·.role) := by
      cases X with
      | nil => exact ⟨x, Y, hX, hk⟩
      | cons y X => exact ⟨y, X ++ x :: Y, hX, by simp [hk]⟩
    have hnodup := (ht.discovery hpol).pending_nodup
    rw [TraversalToken.pendingRoles, hP, List.map_cons, List.nodup_cons] at hnodup
    rw [fetchedRole_of_pending hP] at hfk
    exact hnodup.1 (hfk ▸ hkrest)
  · -- the entry on top is above `x`
    cases X with
    | nil => exact absurd (fetchedRole_of_pending hX) hA
    | cons y X =>
      obtain ⟨X', hX'⟩ := w.step_keeps_entry hX hs
      have hd : t'.isDone = false := by simp [TraversalToken.isDone, hX']
      exact ⟨(ht.handed hfit hs).going hd, X', hX'⟩

end Fetches

/-- **Siblings are expanded in row order.** Take a call of a drain from the empty token, over
a catalog whose member lists fit their types, that reads a page of the listing of `e.role` in
which a row naming `C₁` comes before every row naming `C₂`, and that queues both roles. It
pushes them so that `C₁` lies above `C₂`, with the roles found between them in between and the
roles found after `C₂` below. Under either policy, a later call comes to the entry of `C₂`,
over what lay below it, only after a call has come to the entry of `C₁`, over what lay below
that. Under `onDiscovery` every call that fetches a member page of `C₂` comes after one that
fetches a member page of `C₁`. -/
theorem siblings_expanded_in_row_order (w : Traversal) (hfit : w.store.MembersFit)
    {calls p : Nat} {s : TraversalToken} {e : FrontierEntry} {below : List FrontierEntry}
    {r₁ r₂ : List MemberRow} {m : MemberRow} {C₁ C₂ : RoleKey}
    (hs : (w.inputs calls .fresh)[p]? = some s)
    (hP : (startFrom w.policy w.root s).pending = e :: below)
    (hpage : w.pageAt e.role (offsetOf e) = r₁ ++ m :: r₂) (hm : childRole e.role m = some C₁)
    (hr₁ : ∀ m' ∈ r₁, childRole e.role m' ≠ some C₂) (hne : C₁ ≠ C₂)
    (h₁ : C₁ ∈ w.found (startFrom w.policy w.root s).visited e below (offsetOf e))
    (h₂ : C₂ ∈ w.found (startFrom w.policy w.root s).visited e below (offsetOf e)) :
    ∃ F₁ F₂ F₃, w.found (startFrom w.policy w.root s).visited e below (offsetOf e) =
        F₁ ++ C₁ :: F₂ ++ C₂ :: F₃ ∧
      (∀ (j : Nat) (u : TraversalToken), p < j → (w.inputs calls .fresh)[j]? = some u →
        u.pending = ⟨C₂, none⟩ :: (F₃.map (⟨·, none⟩) ++ below) →
        ∃ i v, p < i ∧ i < j ∧ (w.inputs calls .fresh)[i]? = some v ∧
          v.pending = ⟨C₁, none⟩ :: ((F₂ ++ C₂ :: F₃).map (⟨·, none⟩) ++ below)) ∧
      (w.policy = .onDiscovery → ∀ j : Nat, (w.fetchOrder calls)[j]? = some C₂ →
        ∃ i < j, (w.fetchOrder calls)[i]? = some C₁) := by
  obtain ⟨F₁, F₂, F₃, hF⟩ := w.found_split hpage hm hr₁ hne h₁ h₂
  -- what lies below the entry of `C₁` once the call at `p` has pushed the roles it found
  let Y : List FrontierEntry := (F₂ ++ C₂ :: F₃).map (⟨·, none⟩) ++ below
  have hafter : ∀ g t', w.step s = .ok (g, t') →
      w.HandedInv t' ∧ ∃ X, t'.pending = X ++ ⟨C₁, none⟩ :: Y := fun g t' hstep =>
    (callInv_of_mem_inputs hfit (List.mem_of_getElem? hs)).step_found hfit hP
      (show _ = F₁ ++ C₁ :: (F₂ ++ C₂ :: F₃) by rw [hF]; simp) hstep
  refine ⟨F₁, F₂, F₃, hF, fun j u hpj hu hstack => ?_, fun hpol j hj => ?_⟩
  · -- the stack can come down to the entry of `C₂` only through the entry of `C₁`
    obtain ⟨j, rfl⟩ := Nat.exists_eq_add_of_lt hpj
    obtain ⟨c, g, t', hstep, -, hshift⟩ := inputs_after hs hu
    rw [hshift] at hu
    have hlen : u.pending.length ≤ Y.length := by
      rw [hstack]
      simp [Y]
    obtain ⟨i, hij, v, hv, hvP⟩ := w.top_before_below c t' (hafter g t' hstep).2 j u hu hlen
    exact ⟨p + i + 1, v, by omega, by omega, by rw [hshift]; exact hv, hvP⟩
  · obtain ⟨u, hu, hfu⟩ := getElem?_fetchOrder.mp hj
    rcases Nat.lt_or_ge p j with hpj | hjp
    · -- after the call at `p`, `C₂` is pending below the entry of `C₁`, and only there
      obtain ⟨j, rfl⟩ := Nat.exists_eq_add_of_lt hpj
      obtain ⟨c, g, t', hstep, hd, hshift⟩ := inputs_after hs hu
      obtain ⟨hhand, hX⟩ := hafter g t' hstep
      rw [hshift] at hu
      have hC₂ : C₂ ∈ Y.map (·.role) := by simp [Y]
      obtain ⟨i, hij, v, hv, hfv⟩ :=
        fetched_after_entry hpol hfit hC₂ c t' ⟨hhand.going hd, hX⟩ j u hu hfu
      exact ⟨p + i + 1, by omega, getElem?_fetchOrder.mpr ⟨v, by rw [hshift]; exact hv, hfv⟩⟩
    · -- up to the call at `p`, `C₂` is not visited, and every role fetched is
      have hvis := fetchedRole_visited hpol hfit hjp hu hs
      rw [hfu] at hvis
      exact absurd hvis (admits_eq_true.mp (w.mem_found.mp h₂).1).2.1

end Traversal

/-- A diamond on one page: the root names roles 2, 3 and 4, two rows to a page, and role 4
names role 3 again. Under `onDiscovery` the first call queues roles 2 and 3, and role 2's
listing is fetched before role 3's. -/
theorem siblings_expanded_in_row_order_diamond :
    let w : Traversal := ⟨{ Store.empty with
        members := ⟨[(.server ⟨1⟩, [⟨⟨2⟩, "B", "R"⟩, ⟨⟨3⟩, "C", "R"⟩, ⟨⟨4⟩, "D", "R"⟩]),
          (.server ⟨2⟩, [⟨⟨200⟩, "b-user", "S"⟩]), (.server ⟨3⟩, [⟨⟨300⟩, "c-user", "S"⟩]),
          (.server ⟨4⟩, [⟨⟨3⟩, "C", "R"⟩])]⟩ }, .onDiscovery, 10, .server ⟨1⟩, 2⟩
    w.store.MembersFit ∧
      w.found [.server ⟨1⟩] ⟨.server ⟨1⟩, none⟩ [] 0 = [.server ⟨2⟩, .server ⟨3⟩] ∧
      ∀ j : Nat, (w.fetchOrder 6)[j]? = some (.server ⟨3⟩) →
        ∃ i < j, (w.fetchOrder 6)[i]? = some (.server ⟨2⟩) := by
  intro w
  have hfit : w.store.MembersFit := Store.MembersFit.of_rows (by decide)
  obtain ⟨_, _, _, -, -, hfetch⟩ :=
    @Traversal.siblings_expanded_in_row_order w hfit 6 0 .fresh ⟨.server ⟨1⟩, none⟩ [] []
      [⟨⟨3⟩, "C", "R"⟩] ⟨⟨2⟩, "B", "R"⟩ (.server ⟨2⟩) (.server ⟨3⟩) (by decide +kernel)
      (by decide +kernel) (by decide +kernel) (by decide +kernel)
      (fun _ h => absurd h List.not_mem_nil) (by decide) (by decide +kernel) (by decide +kernel)
  exact ⟨hfit, by decide +kernel, hfetch rfl⟩

/-- Two runs where a role found first is fetched last. Under `onDiscovery`, one row to a page:
the root's rows name role 2, then role 3, but role 3, found by the root's second page, is
pushed above role 2 and fetched first. Under `onCompletion`, two rows to a page: the root's
first page queues roles 2 and 3 with role 2 on top, but role 4, on the root's second page,
names role 3 again, and role 3 is fetched before role 2. -/
theorem siblings_fetched_out_of_row_order :
    let w₁ : Traversal := ⟨{ Store.empty with
        members := ⟨[(.server ⟨1⟩, [⟨⟨2⟩, "B", "R"⟩, ⟨⟨3⟩, "C", "R"⟩]),
          (.server ⟨2⟩, [⟨⟨200⟩, "b-user", "S"⟩]),
          (.server ⟨3⟩, [⟨⟨300⟩, "c-user", "S"⟩])]⟩ }, .onDiscovery, 10, .server ⟨1⟩, 1⟩
    let w₂ : Traversal := ⟨{ Store.empty with
        members := ⟨[(.server ⟨1⟩, [⟨⟨2⟩, "B", "R"⟩, ⟨⟨3⟩, "C", "R"⟩, ⟨⟨4⟩, "D", "R"⟩]),
          (.server ⟨2⟩, [⟨⟨200⟩, "b-user", "S"⟩]), (.server ⟨3⟩, [⟨⟨300⟩, "c-user", "S"⟩]),
          (.server ⟨4⟩, [⟨⟨3⟩, "C", "R"⟩])]⟩ }, .onCompletion, 10, .server ⟨1⟩, 2⟩
    w₁.inputs 4 .fresh = [.fresh,
      ⟨[⟨.server ⟨1⟩, some "1"⟩, ⟨.server ⟨2⟩, none⟩], [.server ⟨1⟩, .server ⟨2⟩]⟩,
      ⟨[⟨.server ⟨3⟩, none⟩, ⟨.server ⟨2⟩, none⟩], [.server ⟨1⟩, .server ⟨2⟩, .server ⟨3⟩]⟩,
      ⟨[⟨.server ⟨2⟩, none⟩], [.server ⟨1⟩, .server ⟨2⟩, .server ⟨3⟩]⟩] ∧
    w₁.fetchOrder 4 = [.server ⟨1⟩, .server ⟨1⟩, .server ⟨3⟩, .server ⟨2⟩] ∧
    (w₂.inputs 6 .fresh)[1]? =
      some ⟨[⟨.server ⟨1⟩, some "2"⟩, ⟨.server ⟨2⟩, none⟩, ⟨.server ⟨3⟩, none⟩], []⟩ ∧
    w₂.fetchOrder 6 =
      [.server ⟨1⟩, .server ⟨1⟩, .server ⟨4⟩, .server ⟨3⟩, .server ⟨2⟩, .server ⟨3⟩] := by
  intro w₁ w₂
  exact ⟨by decide +kernel, by decide +kernel, by decide +kernel, by decide +kernel⟩

end AccessReview
