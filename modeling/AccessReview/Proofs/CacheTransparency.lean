import Mathlib
import AccessReview.Proofs.CacheBlind
import AccessReview.Session

/-! # The mapping cache is transparent

A session whose steps are all calls of the connector (traversal pages and drains, decodings,
permission pages, grants and revokes) makes the same requests of its mapping cache whatever
the cache holds, as long as the cache keeps only what the store answers: the outcome of every
step, the member pages it is served and the statements it executes do not depend on the cache,
and the cache changes only how many of the reads miss and ask the store.

`Session.Blind` says this of one function of sessions; it holds of every connector call
(`Session.blind_perform`, a drain by induction on its calls), and so the report of a step
(`Session.step_blind`) and of a whole run (`Session.run_blind`) is fixed but for its lookups,
which are the misses of the cache serving each step's requests in turn. The main statement,
`Session.cache_transparent`, compares an empty cache of any capacity with none: the same
outcomes, member pages and statements, never more lookups in a step, and, when no CREATE USER
makes the cache forget and the cache has room for every principal read, one lookup for each.
-/

namespace AccessReview

/-! ## Reports and requests -/

/-- Whether a step is a call of the connector. -/
def Step.callsConnector : Step → Bool
  | .roleGrants .. | .drain .. | .decodePermissions .. | .permissionGrants .. | .grant ..
  | .revoke .. => true
  | .user .. | .cache _ | .addRows _ => false

/-- Requests that forget nothing are reads of what they read. -/
theorem CacheRequest.eq_map_read {rs : List CacheRequest}
    (h : rs.countP CacheRequest.isForget = 0) :
    rs = (rs.filterMap CacheRequest.read?).map .read := by
  induction rs with
  | nil => rfl
  | cons r rs ih =>
    cases r with
    | read p =>
      simp only [List.countP_cons, CacheRequest.isForget] at h
      simp [CacheRequest.read?, ← ih (by simpa using h)]
    | forget db => simp [CacheRequest.isForget] at h

/-- Reports with the lookup counts given, one for each. -/
theorem Report.map_setLookups {α : Type} (f : Report → α)
    (hf : ∀ r m, f { r with lookups := m } = f r) :
    ∀ {rs : List Report} {ms : List Nat}, rs.length = ms.length →
      (List.zipWith (fun r m => { r with lookups := m }) rs ms).map f = rs.map f
  | [], [], _ => rfl
  | [], _ :: _, h | _ :: _, [], h => absurd h (by simp)
  | r :: rs, m :: ms, h => by
    rw [List.zipWith_cons_cons, List.map_cons, hf, Report.map_setLookups f hf (Nat.succ.inj h)]
    rfl

theorem Report.map_lookups_setLookups :
    ∀ {rs : List Report} {ms : List Nat}, rs.length = ms.length →
      (List.zipWith (fun r m => { r with lookups := m }) rs ms).map Report.lookups = ms
  | [], [], _ => rfl
  | [], _ :: _, h | _ :: _, [], h => absurd h (by simp)
  | r :: rs, m :: ms, h => by
    rw [List.zipWith_cons_cons, List.map_cons, Report.map_lookups_setLookups (Nat.succ.inj h)]

namespace MappingCache

variable {tbl : Table DatabasePrincipal ServerPrincipal}

/-- Serves groups of requests in turn: how many reads of each group missed. -/
def missesEach (c : MappingCache) (tbl : Table DatabasePrincipal ServerPrincipal) :
    List (List CacheRequest) → List Nat
  | [] => []
  | rs :: rss => (c.serveAll tbl rs).2 :: (c.serveAll tbl rs).1.missesEach tbl rss

theorem length_missesEach (c : MappingCache) (rss : List (List CacheRequest)) :
    (c.missesEach tbl rss).length = rss.length := by
  induction rss generalizing c with
  | nil => rfl
  | cons rs rss ih => simp [missesEach, ih]

/-- The groups' misses add up to those of all the requests served at once. -/
theorem sum_missesEach (c : MappingCache) (rss : List (List CacheRequest)) :
    (c.missesEach tbl rss).sum = (c.serveAll tbl rss.flatten).2 := by
  induction rss generalizing c with
  | nil => rfl
  | cons rs rss ih => simp only [missesEach, List.sum_cons, ih, List.flatten_cons, serveAll_append]

/-- No group misses more reads than it has. -/
theorem missesEach_le (c : MappingCache) (rss : List (List CacheRequest)) :
    List.Forall₂ (· ≤ ·) (c.missesEach tbl rss)
      (rss.map fun rs => (rs.filterMap CacheRequest.read?).length) := by
  induction rss generalizing c with
  | nil => exact .nil
  | cons rs rss ih => exact .cons (serveAll_misses_le c rs) (ih _)

/-- Without a cache every read of every group misses. -/
theorem missesEach_disabled (rss : List (List CacheRequest)) :
    (MappingCache.empty 0).missesEach tbl rss =
      rss.map fun rs => (rs.filterMap CacheRequest.read?).length := by
  induction rss with
  | nil => rfl
  | cons rs rss ih => simp only [missesEach, serveAll_disabled, ih, List.map_cons]

end MappingCache

namespace Session

/-- The session with its store's lookup count set to `n` and a cache. -/
def withCache (s : Session) (n : Nat) (c : MappingCache) : Session :=
  { s with inventory := s.inventory.store.withCache n c }

/-- The session after its cache served requests. -/
def serveAll (s : Session) (rs : List CacheRequest) : Session :=
  { s with inventory := s.inventory.serveAll rs }

/-- The session with its cache replaced. -/
def useCache (s : Session) (c : MappingCache) : Session :=
  { s with inventory := { s.inventory with cache := c } }

theorem serveAll_nil (t : Session) : t.serveAll [] = t := by
  simp [serveAll, Inventory.serveAll, MappingCache.serveAll]

theorem withCache_serveAll (t : Session) (n : Nat) (c : MappingCache) (rs : List CacheRequest) :
    (t.withCache n c).serveAll rs =
      t.withCache (n + (c.serveAll t.inventory.store.mappings rs).2)
        (c.serveAll t.inventory.store.mappings rs).1 := by
  simp only [serveAll, withCache, Store.withCache_serveAll]

variable {β γ : Type}

/-! ## Functions of sessions blind to the cache -/

/-- A function of sessions blind to the cache, as `Action.Blind` is for actions: from each
session it makes one list of requests of the cache and gives one result and one session after,
whatever cache that agrees with the store and whatever lookup count it starts from. -/
def Blind (F : Session → β × Session) : Prop :=
  ∀ s : Session, ∃ (b : β) (t : Session) (rs : List CacheRequest),
    t.inventory.store.mappings = s.inventory.store.mappings ∧
    s.inventory.store.journal.countP Statement.createsUser + rs.countP CacheRequest.isForget =
      t.inventory.store.journal.countP Statement.createsUser ∧
    ∀ (c : MappingCache) (n : Nat), c.Agrees s.inventory.store.mappings →
      F (s.withCache n c) = (b, (t.withCache n c).serveAll rs)

/-- An action run on the session's inventory. -/
theorem Blind.act {α : Type} (a : Session → Action α) (ha : ∀ s, (a s).Blind)
    (hinv : ∀ s n c, a (s.withCache n c) = a s) : Blind fun s => s.act (a s) := by
  intro s
  obtain ⟨r, st', rs, hmap, hjournal, hrun⟩ := ha s s.inventory.store
  refine ⟨r, { s with inventory := ⟨st', s.inventory.cache⟩ }, rs, hmap, hjournal,
    fun c n hc => ?_⟩
  unfold Session.act
  dsimp only
  rw [hinv, show (s.withCache n c).inventory = s.inventory.store.withCache n c from rfl,
    hrun c n hc]
  rfl

/-- Session steps in sequence. -/
theorem Blind.seq {F : Session → β × Session} {G : β → Session → γ × Session} (hF : Blind F)
    (hG : ∀ b, Blind (G b)) : Blind fun s => G (F s).1 (F s).2 := by
  intro s
  obtain ⟨b₁, t₁, rs₁, hmap₁, hjournal₁, hrun₁⟩ := hF s
  obtain ⟨b₂, t₂, rs₂, hmap₂, hjournal₂, hrun₂⟩ := hG b₁ t₁
  refine ⟨b₂, t₂, rs₁ ++ rs₂, hmap₂.trans hmap₁, ?_, fun c n hc => ?_⟩
  · rw [List.countP_append]
    omega
  -- the second runs on the session the first left, its lookups and the cache it left
  dsimp only
  rw [hrun₁ c n hc, withCache_serveAll, hmap₁]
  dsimp only
  rw [hrun₂ _ _ (hmap₁ ▸ MappingCache.serveAll_agrees hc rs₁), withCache_serveAll,
    withCache_serveAll, hmap₂, hmap₁, MappingCache.serveAll_append, Nat.add_assoc]

/-- A step that changes only the session's tokens. -/
theorem Blind.tokens (b : β) (u : Session → Session)
    (hu : ∀ s n c, u (s.withCache n c) = (u s).withCache n c)
    (hinv : ∀ s, (u s).inventory = s.inventory) : Blind fun s => (b, u s) := by
  intro s
  refine ⟨b, u s, [], by rw [hinv], by rw [hinv]; simp, fun c n _ => ?_⟩
  dsimp only
  rw [hu, serveAll_nil]

/-- A function equal at every session to a blind one is blind. -/
theorem Blind.congr {F G : Session → β × Session} (h : ∀ s, F s = G s) (hG : Blind G) :
    Blind F := by
  rw [funext h]
  exact hG

/-- A step whose argument is read from the session's tokens. -/
theorem Blind.dep {τ : Type} (tok : Session → τ) (htok : ∀ s n c, tok (s.withCache n c) = tok s)
    {H : τ → Session → β × Session} (hH : ∀ t, Blind (H t)) : Blind fun s => H (tok s) s := by
  intro s
  obtain ⟨b, t, rs, hmap, hjournal, hrun⟩ := hH (tok s) s
  refine ⟨b, t, rs, hmap, hjournal, fun c n hc => ?_⟩
  dsimp only
  rw [htok]
  exact hrun c n hc

/-- A step that changes nothing of the session. -/
theorem Blind.const (b : β) : Blind fun s => (b, s) :=
  .tokens b id (fun _ _ _ => rfl) (fun _ => rfl)

/-- A step that only sets the token traversal resumes from. -/
theorem Blind.setRoleToken (b : β) (token : String) :
    Blind fun s => (b, { s with roleToken := token }) :=
  .tokens b _ (fun _ _ _ => rfl) (fun _ => rfl)

/-! ## Connector calls -/

/-- A call of the session's connector. -/
theorem Blind.call {α : Type} (a : Connector → Action α) (ha : ∀ c, (a c).Blind) :
    Blind fun s => s.act (a s.connector) :=
  .act (fun s => a s.connector) (fun s => ha s.connector) (fun _ _ _ => rfl)

/-- Traversal calls until the last page, a failure or the calls run out. -/
theorem blind_drainFrom (root : ResourceId) (size : Nat) :
    ∀ (calls : Nat) (token : String), Blind fun s => s.drainFrom root size calls token
  | 0, _ => .const []
  | calls + 1, token => by
    -- after the call: stop at a failure or the last page, or go on from the page's token
    have hnext : ∀ r : Except Error GrantPage, Blind fun s =>
        @Except.casesOn Error GrantPage (fun _ => List (Except Error GrantPage) × Session) r
          (fun e => ([.error e], s))
          fun p => if p.isLast then ([.ok p], { s with roleToken := p.nextToken })
            else
              (.ok p :: (({ s with roleToken := p.nextToken }).drainFrom root size calls
                  p.nextToken).1,
                (({ s with roleToken := p.nextToken }).drainFrom root size calls
                  p.nextToken).2) := by
      intro r
      cases r with
      | error e => exact .const _
      | ok p =>
        by_cases hlast : p.isLast = true
        · simp only [hlast, ↓reduceIte]
          exact .setRoleToken _ _
        · simp only [hlast, Bool.false_eq_true, ↓reduceIte]
          exact Blind.congr (fun _ => rfl) (((Blind.setRoleToken () p.nextToken).seq
            fun _ => blind_drainFrom root size calls p.nextToken).seq
              fun rest => .const (.ok p :: rest))
    refine Blind.congr (fun s => ?_) ((Blind.call (fun c => c.roleGrants root token size)
      fun c => c.blind_roleGrants _ _ _).seq hnext)
    rw [Session.drainFrom]
    rcases s.act (s.connector.roleGrants root token size) with ⟨_ | _, _⟩ <;> rfl

/-- A call's page becomes the one to resume from, a failure leaves the tokens as they were. -/
theorem Blind.resumeFrom (set : Session → String → Session)
    (hset : ∀ s n c t, set (s.withCache n c) t = (set s t).withCache n c)
    (hinv : ∀ s t, (set s t).inventory = s.inventory) (r : Except Error GrantPage) :
    Blind fun s => match r with
      | .ok p => ((.ok (.page p) : Except Error Outcome), set s p.nextToken)
      | .error e => (.error e, s) := by
  cases r with
  | ok p => exact .tokens _ (set · p.nextToken) (fun s n c => hset s n c _) (fun s => hinv s _)
  | error e => exact .const _

/-- Every call of the connector is blind to the cache, its parsing and tokens included. -/
theorem blind_perform : ∀ step : Step, step.callsConnector = true → Blind fun s => s.perform step
  | .roleGrants root size src, _ => by
    cases hroot : root.parse with
    | error e => exact .congr (fun s => by rw [perform, hroot]) (.const (.error e))
    | ok key =>
      refine .congr (fun s => ?_) ((Blind.dep (fun s => s.roleTokenOf src) (fun _ _ _ => rfl)
        fun t => Blind.call (fun c => c.roleGrants key t size)
          fun c => c.blind_roleGrants _ _ _).seq
        (Blind.resumeFrom (fun s t => { s with roleToken := t }) (fun _ _ _ _ => rfl)
          fun _ _ => rfl))
      rw [perform, hroot]
      dsimp only
      rcases s.act (s.connector.roleGrants key (s.roleTokenOf src) size) with ⟨_ | _, _⟩ <;> rfl
  | .drain root size calls src, _ => by
    cases hroot : root.parse with
    | error e => exact .congr (fun s => by rw [perform, hroot]) (.const (.error e))
    | ok key =>
      exact .congr (fun s => by rw [perform, hroot])
        ((Blind.dep (fun s => s.roleTokenOf src) (fun _ _ _ => rfl)
          fun t => blind_drainFrom key size calls t).seq fun pages => .const (.ok (.pages pages)))
  | .decodePermissions scope resource rows, _ => by
    cases hscope : scope.parse with
    | error e => exact .congr (fun s => by rw [perform, hscope]) (.const (.error e))
    | ok sc =>
      cases hres : resource.parse with
      | error e => exact .congr (fun s => by rw [perform, hscope, hres]) (.const (.error e))
      | ok rc =>
        exact .congr (fun s => by rw [perform, hscope, hres])
          ((Blind.call (fun c => c.decodePermissions sc rc rows)
            fun c => c.blind_decodePermissions _ _ _).seq fun r => .const (r.map .grants))
  | .permissionGrants scope resource src size, _ => by
    cases hscope : scope.parse with
    | error e => exact .congr (fun s => by rw [perform, hscope]) (.const (.error e))
    | ok sc =>
      cases hres : resource.parse with
      | error e => exact .congr (fun s => by rw [perform, hscope, hres]) (.const (.error e))
      | ok rc =>
        refine .congr (fun s => ?_) ((Blind.dep (fun s => s.cursorOf src) (fun _ _ _ => rfl)
          fun t => Blind.call (fun c => c.permissionGrants sc rc t size)
            fun c => c.blind_permissionGrants _ _ _ _).seq
          (Blind.resumeFrom (fun s t => { s with permissionCursor := t }) (fun _ _ _ _ => rfl)
            fun _ _ => rfl))
        rw [perform, hscope, hres]
        dsimp only
        rcases s.act (s.connector.permissionGrants sc rc (s.cursorOf src) size) with
          ⟨_ | _, _⟩ <;> rfl
  | .grant e principal, _ => by
    cases he : Entitlement.parse e with
    | error err => exact .congr (fun s => by rw [perform, he]) (.const (.error err))
    | ok ent =>
      cases hp : principal.parse with
      | error err => exact .congr (fun s => by rw [perform, he, hp]) (.const (.error err))
      | ok pr =>
        exact .congr (fun s => by rw [perform, he, hp])
          ((Blind.call (fun c => c.grant ent pr) fun c => c.blind_grant _ _).seq
            fun r => .const (r.map .granted))
  | .revoke e principal, _ => by
    cases he : Entitlement.parse e with
    | error err => exact .congr (fun s => by rw [perform, he]) (.const (.error err))
    | ok ent =>
      cases hp : principal.parse with
      | error err => exact .congr (fun s => by rw [perform, he, hp]) (.const (.error err))
      | ok pr =>
        exact .congr (fun s => by rw [perform, he, hp])
          ((Blind.call (fun c => c.revoke ⟨ent, pr⟩) fun c => c.blind_revoke _).seq
            fun r => .const (r.map fun _ => .done))

/-! ## Steps and runs -/

/-- What a step reports, given the cache: the step's outcome, fetches and statements are fixed
by the session, and its lookups are the reads the cache missed. -/
theorem step_blind {step : Step} (hstep : step.callsConnector = true) (s : Session) :
    ∃ (b : Except Error Outcome) (t : Session) (rs : List CacheRequest),
      t.inventory.store.mappings = s.inventory.store.mappings ∧
      s.inventory.store.journal.countP Statement.createsUser + rs.countP CacheRequest.isForget =
        t.inventory.store.journal.countP Statement.createsUser ∧
      ∀ (c : MappingCache) (n : Nat), c.Agrees s.inventory.store.mappings →
        (s.withCache n c).step step =
          (⟨b, t.inventory.store.memberFetches - s.inventory.store.memberFetches,
            (c.serveAll s.inventory.store.mappings rs).2,
            (t.inventory.store.journal.drop s.inventory.store.journal.length).filterMap
              fun stmt => stmt.render.toOption⟩,
            (t.withCache n c).serveAll rs) := by
  obtain ⟨b, t, rs, hmap, hjournal, hrun⟩ := blind_perform step hstep s
  refine ⟨b, t, rs, hmap, hjournal, fun c n hc => ?_⟩
  have hperform : (s.withCache n c).perform step = (b, (t.withCache n c).serveAll rs) :=
    hrun c n hc
  unfold Session.step
  dsimp only
  rw [hperform, withCache_serveAll, hmap]
  simp only [withCache, Store.withCache, Nat.add_sub_cancel_left]

/-- What a run of connector calls reports, given the cache: everything but the lookups is fixed
by the session, and the lookups of each step are the reads of its group that the cache missed,
the cache going from group to group. -/
theorem run_blind {steps : List Step} (hsteps : ∀ step ∈ steps, step.callsConnector = true)
    (s : Session) :
    ∃ (outs : List Report) (rss : List (List CacheRequest)) (t : Session),
      outs.length = rss.length ∧
      t.inventory.store.mappings = s.inventory.store.mappings ∧
      s.inventory.store.journal.countP Statement.createsUser +
          rss.flatten.countP CacheRequest.isForget =
        t.inventory.store.journal.countP Statement.createsUser ∧
      ∀ (c : MappingCache) (n : Nat), c.Agrees s.inventory.store.mappings →
        (s.withCache n c).run steps =
          (List.zipWith (fun r m => { r with lookups := m }) outs
              (c.missesEach s.inventory.store.mappings rss),
            (t.withCache n c).serveAll rss.flatten) := by
  induction steps generalizing s with
  | nil =>
    refine ⟨[], [], s, rfl, rfl, by simp, fun c n _ => ?_⟩
    rw [List.flatten_nil, serveAll_nil]
    rfl
  | cons step steps ih =>
    obtain ⟨b, t₁, rs₁, hmap₁, hjournal₁, hrun₁⟩ := step_blind (hsteps step (by simp)) s
    obtain ⟨outs, rss, t, hlen, hmap, hjournal, hrun⟩ :=
      ih (fun step h => hsteps step (List.mem_cons_of_mem _ h)) t₁
    rw [hmap₁] at hrun
    refine ⟨⟨b, t₁.inventory.store.memberFetches - s.inventory.store.memberFetches, 0,
        (t₁.inventory.store.journal.drop s.inventory.store.journal.length).filterMap
          fun stmt => stmt.render.toOption⟩ :: outs, rs₁ :: rss, t, by simp [hlen],
      hmap.trans hmap₁, ?_, fun c n hc => ?_⟩
    · rw [List.flatten_cons, List.countP_append]
      omega
    -- the rest of the run starts from the cache and lookup count the first step left
    simp only [Session.run]
    rw [hrun₁ c n hc, withCache_serveAll, hmap₁,
      hrun _ _ (MappingCache.serveAll_agrees hc rs₁), withCache_serveAll, withCache_serveAll,
      hmap, hmap₁, List.flatten_cons, MappingCache.serveAll_append, Nat.add_assoc]
    rfl

/-! ## Transparency -/

/-- The mapping cache is transparent to connector calls. Run from the same session, with an
empty cache of any capacity or with none (capacity 0), the calls give the same outcomes, are
served the same member pages and execute the same statements, step by step; the cache never
makes a step look up more. Both make the same requests of the cache: without one each read is
a lookup, with one the lookups are the reads it misses, and each CREATE USER forgets the
mappings of its database. Without a CREATE USER and with room for every principal read, each
principal is looked up once. -/
theorem cache_transparent (s : Session) {steps : List Step}
    (hsteps : ∀ step ∈ steps, step.callsConnector = true) :
    ∃ requests : List CacheRequest, ∀ k : Nat,
      let cached := (s.useCache (.empty k)).run steps
      let plain := (s.useCache (.empty 0)).run steps
      let reads := requests.filterMap CacheRequest.read?
      cached.1.map Report.result = plain.1.map Report.result ∧
      cached.1.map Report.fetches = plain.1.map Report.fetches ∧
      cached.1.map Report.executed = plain.1.map Report.executed ∧
      List.Forall₂ (fun a b => a.lookups ≤ b.lookups) cached.1 plain.1 ∧
      (plain.1.map Report.lookups).sum = reads.length ∧
      (cached.1.map Report.lookups).sum =
        ((MappingCache.empty k).serveAll s.inventory.store.mappings requests).2 ∧
      s.inventory.store.journal.countP Statement.createsUser +
          requests.countP CacheRequest.isForget =
        cached.2.inventory.store.journal.countP Statement.createsUser ∧
      (cached.2.inventory.store.journal.countP Statement.createsUser =
          s.inventory.store.journal.countP Statement.createsUser →
        reads.dedup.length ≤ k → (cached.1.map Report.lookups).sum = reads.dedup.length) := by
  obtain ⟨outs, rss, t, hlen, -, hjournal, hrun⟩ := run_blind hsteps s
  refine ⟨rss.flatten, fun k => ?_⟩
  intro cached plain reads
  -- both runs are the one run, with the misses of their own cache as lookups
  have hcached : cached = (List.zipWith (fun r m => { r with lookups := m }) outs
      ((MappingCache.empty k).missesEach s.inventory.store.mappings rss),
      (t.withCache s.inventory.store.mappingLookups (.empty k)).serveAll rss.flatten) :=
    hrun _ _ (MappingCache.agrees_empty k _)
  have hplain : plain = (List.zipWith (fun r m => { r with lookups := m }) outs
      ((MappingCache.empty 0).missesEach s.inventory.store.mappings rss),
      (t.withCache s.inventory.store.mappingLookups (.empty 0)).serveAll rss.flatten) :=
    hrun _ _ (MappingCache.agrees_empty 0 _)
  have hlenK :
      outs.length = ((MappingCache.empty k).missesEach s.inventory.store.mappings rss).length := by
    rw [MappingCache.length_missesEach, hlen]
  have hlen0 :
      outs.length = ((MappingCache.empty 0).missesEach s.inventory.store.mappings rss).length := by
    rw [MappingCache.length_missesEach, hlen]
  have hjt : cached.2.inventory.store.journal = t.inventory.store.journal := by rw [hcached]; rfl
  have hlookupsK : cached.1.map Report.lookups =
      (MappingCache.empty k).missesEach s.inventory.store.mappings rss := by
    rw [hcached, Report.map_lookups_setLookups hlenK]
  have hlookups0 : plain.1.map Report.lookups =
      (MappingCache.empty 0).missesEach s.inventory.store.mappings rss := by
    rw [hplain, Report.map_lookups_setLookups hlen0]
  have hsumK : (cached.1.map Report.lookups).sum =
      ((MappingCache.empty k).serveAll s.inventory.store.mappings rss.flatten).2 := by
    rw [hlookupsK, MappingCache.sum_missesEach]
  -- every field but the lookups is the one run's
  have hsame : ∀ {α : Type} (f : Report → α), (∀ r m, f { r with lookups := m } = f r) →
      cached.1.map f = plain.1.map f := fun f hf => by
    rw [hcached, hplain, Report.map_setLookups f hf hlenK, Report.map_setLookups f hf hlen0]
  refine ⟨hsame _ fun _ _ => rfl, hsame _ fun _ _ => rfl, hsame _ fun _ _ => rfl, ?_, ?_, hsumK,
    ?_, fun hnone hfits => ?_⟩
  · -- step by step, what the cache misses against every read missing
    have hle : List.Forall₂ (· ≤ ·) (cached.1.map Report.lookups) (plain.1.map Report.lookups) := by
      rw [hlookupsK, hlookups0, MappingCache.missesEach_disabled]
      exact MappingCache.missesEach_le _ rss
    exact List.forall₂_map_right_iff.mp (List.forall₂_map_left_iff.mp hle)
  · rw [hlookups0, MappingCache.sum_missesEach, MappingCache.serveAll_disabled]
  · rw [hjt]
    exact hjournal
  · -- no CREATE USER: nothing is forgotten, and the requests are the reads
    have hforget : (rss.flatten).countP CacheRequest.isForget = 0 := by
      rw [hjt] at hnone
      omega
    rw [hsumK, CacheRequest.eq_map_read hforget]
    exact MappingCache.serveAll_empty_reads reads hfits

/-- Two permission pages of a database, the second resumed from the first, and a grant of a
database role. -/
theorem cache_transparent_pages_and_grant :
    let s : Session :=
      ⟨.build .builtin .onCompletion 10000 50 1000,
        ⟨((((Store.empty.mapDatabasePrincipal ⟨⟨"sales"⟩, ⟨5⟩⟩ ⟨⟨259⟩, .user⟩).addPermissionRow
          (.database ⟨"sales"⟩) ⟨⟨5⟩, "alice", "S", "G", "SL"⟩).addPermissionRow
          (.database ⟨"sales"⟩) ⟨⟨5⟩, "alice", "U", "W", "SL, IN"⟩).addDatabaseRole
          ⟨⟨"sales"⟩, ⟨7⟩⟩ ⟨"readers"⟩).addLogin ⟨259⟩ ⟨"alice"⟩, .empty 0⟩, "", ""⟩
    let steps : List Step :=
      [.permissionGrants (.database "sales") ⟨"database", "1"⟩ (.given "") 1,
        .permissionGrants (.database "sales") ⟨"database", "1"⟩ .resume 1,
        .grant "database-role:sales:7:member" ⟨"user", "259"⟩]
    (∀ step ∈ steps, step.callsConnector = true) ∧
    ∃ requests : List CacheRequest, ∀ k : Nat,
      let cached := (s.useCache (.empty k)).run steps
      let plain := (s.useCache (.empty 0)).run steps
      let reads := requests.filterMap CacheRequest.read?
      cached.1.map Report.result = plain.1.map Report.result ∧
      cached.1.map Report.fetches = plain.1.map Report.fetches ∧
      cached.1.map Report.executed = plain.1.map Report.executed ∧
      List.Forall₂ (fun a b => a.lookups ≤ b.lookups) cached.1 plain.1 ∧
      (plain.1.map Report.lookups).sum = reads.length ∧
      (cached.1.map Report.lookups).sum =
        ((MappingCache.empty k).serveAll s.inventory.store.mappings requests).2 ∧
      s.inventory.store.journal.countP Statement.createsUser +
          requests.countP CacheRequest.isForget =
        cached.2.inventory.store.journal.countP Statement.createsUser ∧
      (cached.2.inventory.store.journal.countP Statement.createsUser =
          s.inventory.store.journal.countP Statement.createsUser →
        reads.dedup.length ≤ k → (cached.1.map Report.lookups).sum = reads.dedup.length) :=
  ⟨by decide, cache_transparent _ (by decide)⟩

end Session

end AccessReview
