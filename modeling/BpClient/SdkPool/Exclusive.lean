import BpClient.SdkPool.Orphan

/-!
Exclusive use of a connection over the close and the re-open of a pool: under
one app_handle at most one request is in flight, and `PoolClose` closes only
what no `PoolTxRx` can still use. The old pool and the new one have the same
app_handles, so this needs a `PoolClose` that has seen the last caller of its
pool, also one that has not counted itself yet.
-/

namespace BpClient.SdkPool

open BpClient.Lib
open BpClient.CPool (maxSize poolAppHandle poolAppHandle_inj)

/-- The pool that a `PoolClose` has taken and in which it still waits for the
worker and the callers. -/
def CloserPc.drains : CloserPc → Option PoolId
  | .clear p | .stop p | .join p | .drain p => some p
  | .enter | .closing _ _ | .done => none

/-- The pool that a `PoolClose` has marked as not initialized. -/
def CloserPc.cleared : CloserPc → Option PoolId
  | .stop p | .join p | .drain p | .closing p _ => some p
  | .enter | .clear _ | .done => none

inductive Requester
  | call (id : CallId)
  | worker (p : PoolId)
  deriving DecidableEq, Repr

namespace State

variable (s : State)

def drains (id : CallId) : Option PoolId := (s.closerAt id).bind CloserPc.drains

def cleared (id : CallId) : Option PoolId := (s.closerAt id).bind CloserPc.cleared

/-- A request of the pool `p` on its entry `i` is in flight under a handle. -/
def InFlight (p : PoolId) (i : Nat) (h : Handle) : Requester → Prop
  | .call id => s.callerAt id = some (.running p i h)
  | .worker q => q = p ∧ (s.pools p).worker = some (.pinging i h)

/-- A `PoolTxRx` can use the connections of `p`, or could begin to. -/
def InUse (p : PoolId) : Prop :=
  (s.pools p).initialized = true ∨ ∃ id pc, s.callerAt id = some pc ∧ pc.uses = some p

end State

/-- At most one request is in flight under a handle, and a `PoolClose` that
closes the entries of a pool has no `PoolTxRx` in it. -/
structure Exclusive (s : State) : Prop where
  inFlight : ∀ p q i j h r r', s.InFlight p i h r → s.InFlight q j h r' → r = r'
  closing : ∀ id p i, s.closerAt id = some (.closing p i) → i < (s.pools p).size →
    ∀ id' pc, s.callerAt id' = some pc → pc.uses ≠ some p

/-- When `PoolClose` has seen `inflight` at zero, no caller of the pool is
between its check of `initialized` and the increment. -/
def DrainsCallers (s : State) : Label → Prop
  | .run id _ => ∀ p, s.closerAt id = some (.drain p) → (s.pools p).inflight = 0 →
      ∀ id', s.callerAt id' ≠ some (.count p)
  | _ => True

/-- When `PoolOpen` stores the connection of an entry, no `PoolClose` still has
that entry to close. -/
def StoresClosed (slot : Nat) (s : State) : Label → Prop
  | .run id env => ∀ p i, s.openerAt id = some (.store p i) →
      s.table (poolAppHandle slot i) = false → env.full = false →
      ∀ id' pc q, s.closerAt id' = some pc → ¬pc.keeps (s.pools q).size q i
  | _ => True

/-- What the steps of a run must meet. -/
structure Orderly (slot : Nat) (s : State) (l : Label) : Prop where
  closesOpened : ClosesOpened s l
  drainsCallers : DrainsCallers s l
  storesClosed : StoresClosed slot s l

/-- Who is counted in a pool, and which pools are in use. -/
structure Usage (s : State) : Prop where
  counted : ∀ p, Counts (fun id => ∃ pc, s.callerAt id = some pc ∧ pc.counted = some p)
    (s.pools p).inflight
  cleared : ∀ id p, s.cleared id = some p → (s.pools p).initialized = false
  inUse : ∀ p, s.InUse p → s.registry = some p ∨ ∃ id, s.drains id = some p

section Usage

variable {sdk : Sdk} {slot : Nat} {s s' : State} {id : CallId} {env : Env}

theorem closerView_update {α : Type} {pc : CloserPc} (f : CloserPc → Option α)
    (h : s'.closerAt = Function.update s.closerAt id (some pc)) (id' : CallId) :
    (s'.closerAt id').bind f = if id' = id then f pc else (s.closerAt id').bind f := by
  rw [h]
  by_cases hid : id' = id
  · subst id'
    simp
  · simp [hid]

theorem counted_of_eq {p : PoolId} (h : Usage s) (hcaller : s'.callerAt = s.callerAt)
    (hinflight : (s'.pools p).inflight = (s.pools p).inflight) :
    Counts (fun id => ∃ pc, s'.callerAt id = some pc ∧ pc.counted = some p)
      (s'.pools p).inflight := by
  rw [hcaller, hinflight]
  exact h.counted p

/-- A step that leaves the registry and the calls of `PoolClose` alone. -/
theorem Usage.of_same (h : Usage s)
    (hcounted : ∀ p, Counts (fun id => ∃ pc, s'.callerAt id = some pc ∧ pc.counted = some p)
      (s'.pools p).inflight)
    (hinit : ∀ p, (s'.pools p).initialized = true → (s.pools p).initialized = true)
    (huses : ∀ id pc p, s'.callerAt id = some pc → pc.uses = some p → s.InUse p)
    (hreg : s'.registry = s.registry) (hcleared : s'.cleared = s.cleared)
    (hdrains : s'.drains = s.drains) : Usage s' := by
  refine ⟨hcounted, fun id p hp => ?_, fun p hp => ?_⟩
  · rw [hcleared] at hp
    have hfalse := h.cleared id p hp
    by_contra htrue
    rw [Bool.not_eq_false] at htrue
    rw [hinit p htrue] at hfalse
    cases hfalse
  · rw [hreg, hdrains]
    apply h.inUse p
    rcases hp with htrue | ⟨id, pc, hpc, hused⟩
    · exact .inl (hinit p htrue)
    · exact huses id pc p hpc hused

theorem Usage.start {pc : Pc} (h : Usage s) (hnone : s.calls id = none) (hstart : pc.Start) :
    Usage (s.setCall id pc) := by
  obtain ⟨-, -, hcaller, -⟩ := start_views hnone hstart
  have hclosers := fun f hf => funext (start_closer (α := PoolId) hnone hstart f hf)
  refine h.of_same (fun p => ?_) (fun _ hp => hp) (fun id' pc' p hpc' hused => ?_) rfl
    (hclosers _ rfl) (hclosers _ rfl)
  · have hsame := start_caller hnone hstart (fun pc => pc.counted) rfl
    have hview : ∀ (t : State) id', (∃ pc, t.callerAt id' = some pc ∧ pc.counted = some p) ↔
        (t.callerAt id').bind (fun pc => pc.counted) = some p := by
      intro t id'
      rw [Option.bind_eq_some_iff]
    have hcount := h.counted p
    simp only [hview, hsame] at hcount ⊢
    exact hcount
  · rcases hcaller id' pc' hpc' with hold | rfl
    · exact .inr ⟨id', pc', hold, hused⟩
    · cases hused

theorem Usage.caller {pc : CallerPc} (h : Usage s) (hc : s.callerAt id = some pc)
    (hf : CallerFrame sdk s s' id pc) : Usage s' := by
  obtain ⟨pc', hcaller, hmove⟩ := hf.caller
  refine h.of_same (fun p => ?_) (fun p hp => ?_) (fun id' pc'' p hpc'' hused => ?_) hf.registry ?_ ?_
  · refine (h.counted p).move (a := id) (fun id' hid => ?_) ?_
    · rw [hcaller, Function.update_of_ne hid]
    · have hcount := hmove.counted p
      simpa [hcaller, hc] using hcount
  · obtain ⟨free, inflight, hcore⟩ := hf.core p
    rw [hcore] at hp
    exact hp
  · rw [hcaller] at hpc''
    by_cases hid : id' = id
    · subst id'
      rw [Function.update_self, Option.some_inj] at hpc''
      subst hpc''
      rcases hmove.uses p hused with hold | hinit
      · exact .inr ⟨_, pc, hc, hold⟩
      · exact .inl hinit
    · rw [Function.update_of_ne hid] at hpc''
      exact .inr ⟨id', pc'', hpc'', hused⟩
  · funext id'
    simp only [State.cleared, hf.closer]
  · funext id'
    simp only [State.drains, hf.closer]

theorem Usage.worker {p : PoolId} {w : WorkerPc} (h : Usage s) (hf : WorkerFrame sdk s s' p w) :
    Usage s' := by
  have hcore : ∀ p', (s'.pools p').initialized = (s.pools p').initialized ∧
      (s'.pools p').inflight = (s.pools p').inflight := by
    intro p'
    by_cases hp : p' = p
    · obtain ⟨free, entries, worker, hcore⟩ := hf.core
      subst p'
      rw [hcore]
      exact ⟨rfl, rfl⟩
    · rw [hf.pools p' hp]
      exact ⟨rfl, rfl⟩
  refine h.of_same (fun p' => counted_of_eq h hf.callerAt (hcore p').2)
    (fun p' hp => (hcore p').1 ▸ hp) (fun id' pc p' hpc hused => ?_) hf.registry ?_ ?_
  · rw [hf.callerAt] at hpc
    exact .inr ⟨id', pc, hpc, hused⟩
  · funext id'
    simp only [State.cleared, hf.closerAt]
  · funext id'
    simp only [State.drains, hf.closerAt]

/-- A step of `PoolClose`: what it takes from the registry it drains, and what
it stops draining is not in use. -/
theorem Usage.closer_of {pc : CloserPc} (h : Usage s) (hc : s.closerAt id = some pc)
    (hf : CloserFrame sdk s s' id pc) (pc' : CloserPc)
    (hcalls : s'.calls = Function.update s.calls id (some (.closer pc')))
    (hcleared : ∀ p, pc'.cleared = some p → (s'.pools p).initialized = false)
    (hdrains : ∀ p, pc.drains = some p → pc'.drains = some p ∨ ¬s'.InUse p)
    (hreg : ∀ p, s.registry = some p → s'.registry = some p ∨ pc'.drains = some p) :
    Usage s' := by
  obtain ⟨-, -, hcloser⟩ := closerAt_setCall s' hc pc' hcalls
  have hpools : ∀ p, ((s'.pools p).initialized = true → (s.pools p).initialized = true) ∧
      (s'.pools p).inflight = (s.pools p).inflight := by
    intro p
    obtain ⟨initialized, stop, hpool, hinit, -⟩ := hf.pools p
    rw [hpool]
    exact ⟨hinit, rfl⟩
  refine ⟨fun p => counted_of_eq h hf.caller (hpools p).2, fun id' p hp => ?_, fun p hp => ?_⟩
  · rw [State.cleared, closerView_update _ hcloser] at hp
    split at hp
    · exact hcleared p hp
    · have hfalse := h.cleared id' p hp
      by_contra htrue
      rw [Bool.not_eq_false] at htrue
      rw [(hpools p).1 htrue] at hfalse
      cases hfalse
  · have hold : s.InUse p := by
      rcases hp with htrue | ⟨id', pc'', hpc'', hused⟩
      · exact .inl ((hpools p).1 htrue)
      · exact .inr ⟨id', pc'', hf.caller ▸ hpc'', hused⟩
    have hself : s'.drains id = pc'.drains := by
      rw [State.drains, closerView_update _ hcloser, if_pos rfl]
    rcases h.inUse p hold with hreg' | ⟨id', hdrain⟩
    · exact (hreg p hreg').imp_right fun hnew => ⟨id, hself.trans hnew⟩
    · refine .inr ⟨id', ?_⟩
      by_cases hid : id' = id
      · subst id'
        rw [State.drains, hc, Option.bind_some] at hdrain
        exact hself.trans ((hdrains p hdrain).resolve_right (not_not_intro hp))
      · rw [State.drains, closerView_update _ hcloser, if_neg hid]
        exact hdrain

/-- Nobody is in a pool that a `PoolClose` leaves for its entries. -/
theorem Usage.not_inUse {p : PoolId} (h : Usage s) (hc : s.closerAt id = some (.drain p))
    (hzero : (s.pools p).inflight = 0) (hcount : ∀ id', s.callerAt id' ≠ some (.count p)) :
    ¬s.InUse p := by
  rintro (htrue | ⟨id', pc, hpc, hused⟩)
  · have hfalse := h.cleared id p (by simp [State.cleared, hc, CloserPc.cleared])
    rw [htrue] at hfalse
    cases hfalse
  · have hcounts := h.counted p
    rw [hzero] at hcounts
    have hnot : pc.counted ≠ some p := fun heq => hcounts.none_of_zero id' ⟨pc, hpc, heq⟩
    have hat : pc = .count p := by
      cases pc <;> simp_all [CallerPc.uses, CallerPc.counted]
    exact hcount id' (hat ▸ hpc)

/-- A step of `PoolClose` ends the use of a pool only when nobody is counted in it. -/
theorem Usage.closer {pc : CloserPc} (h : Usage s) (hc : s.closerAt id = some pc)
    (hok : DrainsCallers s (.run id env)) (hs : closerStep sdk s id pc = some s') : Usage s' := by
  have hf := closerStep_frame hc hs
  cases pc with
  | enter =>
      simp only [closerStep, Option.some.injEq] at hs
      cases hreg : s.registry with
      | none =>
          rw [hreg] at hs
          exact h.closer_of hc hf .done (by rw [← hs]; rfl) (fun p hp => by cases hp)
            (fun p hp => by cases hp) (fun p hp => by rw [hreg] at hp; cases hp)
      | some q =>
          rw [hreg] at hs
          refine h.closer_of hc hf (.clear q) (by rw [← hs]; rfl) (fun p hp => by cases hp)
            (fun p hp => by cases hp) (fun p hp => .inr ?_)
          rw [hreg] at hp
          exact hp
  | clear q =>
      simp only [closerStep, Option.some.injEq] at hs
      refine h.closer_of hc hf (.stop q) (by rw [← hs]; rfl) (fun p hp => ?_) (fun p hp => .inl hp)
        (fun p hp => .inl (by rw [← hs]; exact hp))
      cases hp
      rw [← hs]
      simp [State.setCall, State.setPool]
  | stop q =>
      simp only [closerStep, Option.some.injEq] at hs
      refine h.closer_of hc hf (.join q) (by rw [← hs]; rfl) (fun p hp => ?_) (fun p hp => .inl hp)
        (fun p hp => .inl (by rw [← hs]; exact hp))
      cases hp
      rw [← hs]
      have hfalse := h.cleared id q (by simp [State.cleared, hc, CloserPc.cleared])
      simpa [State.setCall, State.setPool] using hfalse
  | join q =>
      simp only [closerStep] at hs
      split at hs <;> cases hs
      refine h.closer_of hc hf (.drain q) rfl (fun p hp => ?_) (fun p hp => .inl hp)
        (fun p hp => .inl hp)
      cases hp
      exact h.cleared id q (by simp [State.cleared, hc, CloserPc.cleared])
  | drain q =>
      simp only [closerStep] at hs
      split at hs <;> cases hs
      next hzero =>
      refine h.closer_of hc hf (.closing q 0) rfl (fun p hp => ?_) (fun p hp => .inr ?_)
        (fun p hp => .inl hp)
      · cases hp
        exact h.cleared id q (by simp [State.cleared, hc, CloserPc.cleared])
      · cases hp
        have hnot := h.not_inUse hc hzero (hok q hc hzero)
        rintro (htrue | ⟨id', pc, hpc, hused⟩)
        · exact hnot (.inl htrue)
        · exact hnot (.inr ⟨id', pc, hf.caller ▸ hpc, hused⟩)
  | closing q k =>
      have hnext : ∀ pc', (pc' = .closing q (k + 1) ∨ pc' = .done) →
          s'.calls = Function.update s.calls id (some (.closer pc')) →
          s'.registry = s.registry → (∀ p, s'.pools p = s.pools p) → Usage s' := by
        intro pc' hpc' hcalls hreg hpools
        refine h.closer_of hc hf pc' hcalls (fun p hp => ?_) (fun p hp => by cases hp)
          (fun p hp => .inl (hreg ▸ hp))
        rcases hpc' with rfl | rfl
        · cases hp
          rw [hpools]
          exact h.cleared id q (by simp [State.cleared, hc, CloserPc.cleared])
        · cases hp
      have leave : s.setCall id (.closer .done) = s' → Usage s' := fun heq =>
        hnext _ (.inr rfl) (by rw [← heq]; rfl) (by rw [← heq]; rfl) fun _ => by rw [← heq]; rfl
      simp only [closerStep, Option.some.injEq] at hs
      split at hs
      · split at hs
        · exact hnext _ (.inl rfl) (by rw [← hs]; rfl) (by rw [← hs]; rfl) fun _ => by rw [← hs]; rfl
        · cases sdk with
          | go =>
              exact hnext _ (.inl rfl) (by rw [← hs]; rfl) (by rw [← hs]; rfl) fun _ => by
                rw [← hs]; rfl
          | python => exact leave hs
      · exact leave hs
  | done => cases hs

theorem CallerPc.pool_of_uses {pc : CallerPc} {p : PoolId} (h : pc.uses = some p) :
    pc.pool = some p := by
  cases pc <;> simp_all [CallerPc.uses, CallerPc.pool]

theorem CallerPc.uses_of_counted {pc : CallerPc} {p : PoolId} (h : pc.counted = some p) :
    pc.uses = some p := by
  cases pc <;> simp_all [CallerPc.uses, CallerPc.counted]

theorem CloserPc.pool_of_cleared {pc : CloserPc} {p : PoolId} (h : pc.cleared = some p) :
    pc.pool = some p := by
  cases pc <;> simp_all [CloserPc.cleared, CloserPc.pool]

theorem CloserPc.pool_of_drains {pc : CloserPc} {p : PoolId} (h : pc.drains = some p) :
    pc.pool = some p := by
  cases pc <;> simp_all [CloserPc.drains, CloserPc.pool]

theorem State.closes_of_cleared {p : PoolId} (h : s.cleared id = some p) :
    s.closes id = some p := by
  obtain ⟨pc, hpc, hclear⟩ := Option.bind_eq_some_iff.mp h
  exact (closes_of_closerAt hpc).trans (CloserPc.pool_of_cleared hclear)

theorem State.closes_of_drains {p : PoolId} (h : s.drains id = some p) : s.closes id = some p := by
  obtain ⟨pc, hpc, hdrain⟩ := Option.bind_eq_some_iff.mp h
  exact (closes_of_closerAt hpc).trans (CloserPc.pool_of_drains hdrain)

/-- Before the queue of a pool is seeded nobody can use it. -/
theorem Queued.not_inUse {p : PoolId} (h : Queued sdk s) (hp : s.Unready p) : ¬s.InUse p := by
  obtain ⟨-, hclosed, -, hcallers⟩ := h.unready p hp
  rintro (htrue | ⟨id, pc, hpc, hused⟩)
  · rw [hclosed] at htrue
    cases htrue
  · exact hcallers id pc hpc hused

theorem Usage.publish {size : Nat} {keepalive : Bool} (h : Usage s) (hborn : Born s)
    (hc : s.openerAt id = some (.enter size keepalive)) (hreg : s.registry = none)
    (hs : s' = { (s.setPool s.next (.fresh size keepalive)).setCall id (.opener (.lfo s.next 0)) with
      registry := some s.next
      next := s.next + 1 }) : Usage s' := by
  obtain ⟨hcaller, -, hcloser⟩ := openerAt_setCall s' hc (.lfo s.next 0) (by rw [hs]; rfl)
  have hnew : s'.pools s.next = .fresh size keepalive := by
    rw [hs]
    simp [State.setCall, State.setPool]
  have hpools : ∀ p, p ≠ s.next → s'.pools p = s.pools p := by
    intro p hp
    rw [hs]
    simp [State.setCall, State.setPool, hp]
  have hunused : ∀ id' pc, s.callerAt id' = some pc → pc.uses ≠ some s.next := by
    intro id' pc hpc hused
    exact Nat.lt_irrefl _ (hborn.caller_lt id' pc s.next hpc (CallerPc.pool_of_uses hused))
  refine ⟨fun p => ?_, fun id' p hp => ?_, fun p hp => ?_⟩
  · by_cases hp : p = s.next
    · subst p
      rw [hcaller, hnew]
      apply Counts.of_none
      rintro id' ⟨pc, hpc, hcounted⟩
      exact hunused id' pc hpc (CallerPc.uses_of_counted hcounted)
    · exact counted_of_eq h hcaller (by rw [hpools p hp])
  · have hold : s.cleared id' = some p := by
      rw [State.cleared, hcloser] at hp
      exact hp
    have hlt := hborn.closer_lt id' p (State.closes_of_cleared hold)
    rw [hpools p hlt.ne]
    exact h.cleared id' p hold
  · have hne : p ≠ s.next := by
      rintro rfl
      rcases hp with htrue | ⟨id', pc, hpc, hused⟩
      · rw [hnew] at htrue
        cases htrue
      · exact hunused id' pc (hcaller ▸ hpc) hused
    have hold : s.InUse p := by
      rcases hp with htrue | ⟨id', pc, hpc, hused⟩
      · exact .inl (hpools p hne ▸ htrue)
      · exact .inr ⟨id', pc, hcaller ▸ hpc, hused⟩
    rcases h.inUse p hold with hreg' | ⟨id', hdrain⟩
    · rw [hreg] at hreg'
      cases hreg'
    · refine .inr ⟨id', ?_⟩
      rw [State.drains, hcloser]
      exact hdrain

/-- A step of `PoolOpen` that leaves the registry and `initialized` alone. -/
theorem Usage.opener_of_same {pc : OpenerPc} (h : Usage s) (hc : s.openerAt id = some pc)
    (pc' : OpenerPc) (hcalls : s'.calls = Function.update s.calls id (some (.opener pc')))
    (hreg : s'.registry = s.registry)
    (hpools : ∀ p, (s'.pools p).initialized = (s.pools p).initialized ∧
      (s'.pools p).inflight = (s.pools p).inflight) : Usage s' := by
  obtain ⟨hcaller, -, hcloser⟩ := openerAt_setCall s' hc pc' hcalls
  refine h.of_same (fun p => counted_of_eq h hcaller (hpools p).2) (fun p hp => (hpools p).1 ▸ hp)
    (fun id' pc p hpc hused => .inr ⟨id', pc, hcaller ▸ hpc, hused⟩) hreg ?_ ?_
  · funext id'
    simp only [State.cleared, hcloser]
  · funext id'
    simp only [State.drains, hcloser]

/-- A step of `PoolOpen` keeps who uses which pool. -/
theorem Usage.opener {pc : OpenerPc} (h : Usage s) (hctl : Control s) (hq : Queued sdk s)
    (hc : s.openerAt id = some pc) (heffect : OpenerEffect s s' id pc) : Usage s' := by
  cases heffect with
  | publish size keepalive hpc hreg hs =>
      subst hpc
      exact h.publish hq.born hc hreg hs
  | refuse size keepalive hpc hreg hs =>
      exact h.opener_of_same hc (.done .alreadyOpen) (by rw [hs]; rfl) (by rw [hs]; rfl)
        fun p => by rw [hs]; exact ⟨rfl, rfl⟩
  | connect p pc' hpc hpc' hreg hnext hcalls hpools hentries =>
      refine h.opener_of_same hc pc' hcalls hreg fun p' => ?_
      obtain ⟨entries, hpool⟩ := hpools p'
      rw [hpool]
      exact ⟨rfl, rfl⟩
  | unregister q hpc hs =>
      subst hpc
      obtain ⟨hcaller, -, hcloser⟩ := openerAt_setCall s' hc (.done .failed) (by rw [hs]; rfl)
      have hopens : s.opens id = some (q, .connecting) := opens_of_openerAt hc
      have hpools : s'.pools = s.pools := by rw [hs]; rfl
      refine ⟨fun p => counted_of_eq h hcaller (by rw [hpools]), fun id' p hp => ?_, fun p hp => ?_⟩
      · rw [State.cleared, hcloser] at hp
        rw [hpools]
        exact h.cleared id' p hp
      · have hold : s.InUse p := by
          rw [State.InUse, hpools, hcaller] at hp
          exact hp
        rcases h.inUse p hold with hreg | ⟨id', hdrain⟩
        · have hown := hctl.registered id q _ hopens (by simp)
          obtain rfl : p = q := Option.some.inj (hreg.symm.trans hown)
          exact absurd hold (hq.not_inUse (.inr ⟨id, hopens⟩))
        · refine .inr ⟨id', ?_⟩
          rw [State.drains, hcloser]
          exact hdrain
  | seed q pc' hpc hpc' hs =>
      subst hpc
      obtain ⟨hcaller, -, hcloser⟩ := openerAt_setCall s' hc pc' (by rw [hs]; rfl)
      have hopens : s.opens id = some (q, .connecting) := opens_of_openerAt hc
      have hown := hctl.registered id q _ hopens (by simp)
      have hpools : ∀ p, p ≠ q → s'.pools p = s.pools p := by
        intro p hp
        rw [hs]
        simp [State.setCall, State.setPool, hp]
      refine ⟨fun p => ?_, fun id' p hp => ?_, fun p hp => ?_⟩
      · by_cases hpq : p = q
        · subst p
          exact counted_of_eq h hcaller (by rw [hs]; simp [State.setCall, State.setPool])
        · exact counted_of_eq h hcaller (by rw [hpools p hpq])
      · have hold : s.cleared id' = some p := by
          rw [State.cleared, hcloser] at hp
          exact hp
        have hne : p ≠ q := by
          rintro rfl
          exact hctl.taken id' p (State.closes_of_cleared hold) hown
        rw [hpools p hne]
        exact h.cleared id' p hold
      · by_cases hpq : p = q
        · subst p
          exact .inl (by rw [hs]; exact hown)
        · have hold : s.InUse p := by
            rw [State.InUse, hpools p hpq, hcaller] at hp
            exact hp
          rcases h.inUse p hold with hreg | ⟨id', hdrain⟩
          · exact .inl (by rw [hs]; exact hreg)
          · refine .inr ⟨id', ?_⟩
            rw [State.drains, hcloser]
            exact hdrain
  | startWorker q hpc hs =>
      refine h.opener_of_same hc (.opened q) (by rw [hs]; rfl) (by rw [hs]; rfl) fun p => ?_
      rw [hs]
      exact ⟨s.of_setPool (·.initialized) (by rfl) p, s.of_setPool (·.inflight) (by rfl) p⟩

theorem Usage.step {l : Label} (h : Usage s) (hctl : Control s) (hq : Queued sdk s)
    (hok : DrainsCallers s l) (hs : SdkPool.step sdk slot s l = some s') : Usage s' := by
  cases step_of hs with
  | start id pc _ hnone hstart heq => exact heq ▸ h.start hnone hstart
  | caller id env pc hc hstep => exact h.caller hc (callerStep_frame hc hstep)
  | opener id env pc hc hstep => exact h.opener hctl hq hc (openerStep_effect hstep)
  | closer id env pc hc hstep => exact h.closer hc hok hstep
  | worker p env w hw hstep => exact h.worker (workerStep_frame hw hstep)

theorem Initial.usage (h : Initial slot s) : Usage s := by
  obtain ⟨-, -, -, hcalls, hpools⟩ := h
  have hcaller : ∀ id, s.callerAt id = none := fun id => by simp [State.callerAt, hcalls]
  have hcloser : ∀ id, s.closerAt id = none := fun id => by simp [State.closerAt, hcalls]
  refine ⟨fun p => ?_, fun id p hp => ?_, fun p hp => ?_⟩
  · rw [hpools]
    apply Counts.of_none
    rintro id ⟨pc, hpc, -⟩
    rw [hcaller] at hpc
    cases hpc
  · simp [State.cleared, hcloser] at hp
  · rcases hp with htrue | ⟨id, pc, hpc, -⟩
    · rw [hpools] at htrue
      cases htrue
    · rw [hcaller] at hpc
      cases hpc

end Usage

/-- An entry is kept for one pool at most. -/
def KeptUnique (s : State) : Prop := ∀ p q i, s.Kept p i → s.Kept q i → p = q

section Kept

variable {sdk : Sdk} {slot : Nat} {s s' : State} {l : Label} {p q : PoolId} {i : Nat}

/-- The step that stores a connection is one of its `PoolOpen`. -/
theorem stores_run {id : CallId} (hs : step sdk slot s l = some s')
    (hat : s.openerAt id = some (.store p i)) (hat' : s'.openerAt id = some (.record p i)) :
    ∃ env, l = .run id env ∧ env.full = false := by
  have moved : s'.openerAt id ≠ s.openerAt id := by simp [hat, hat']
  cases step_of hs with
  | start id' pc _ hnone hstart heq =>
      refine absurd ?_ moved
      have hid : id ≠ id' := by
        rintro rfl
        simp [State.openerAt, hnone] at hat
      rw [heq, openerAt_update s (s.setCall id' pc) rfl, Function.update_of_ne hid]
  | caller id' env pc hc hstep => exact absurd (by rw [(callerStep_frame hc hstep).opener]) moved
  | closer id' env pc hc hstep => exact absurd (by rw [(closerStep_frame hc hstep).opener]) moved
  | worker p env w hw hstep => exact absurd (by rw [(workerStep_frame hw hstep).openerAt]) moved
  | opener id' env pc hc hstep =>
      by_cases hid : id' = id
      · subst id'
        obtain rfl := Option.some.inj (hc.symm.trans hat)
        refine ⟨env, rfl, ?_⟩
        by_contra hfull
        rw [Bool.not_eq_false] at hfull
        simp only [openerStep, hfull, Bool.or_true, if_true, Option.some_inj] at hstep
        rw [← hstep] at hat'
        simp [State.openerAt, State.setCall, Pc.opener?] at hat'
      · obtain ⟨pc', hcalls⟩ := (openerStep_effect hstep).calls
        obtain ⟨-, hopener, -⟩ := openerAt_setCall s' hc pc' hcalls
        exact absurd (by rw [hopener, Function.update_of_ne (Ne.symm hid)]) moved

/-- A `PoolOpen` stores only what no other pool keeps. -/
theorem eq_of_stores (hctl : Control s) (hok : StoresClosed slot s l)
    (hs : step sdk slot s l = some s') (hstore : s.Stores slot s' q i) (hkept : s.Kept p i) :
    p = q := by
  obtain ⟨hbefore, -, id, hat, hat'⟩ := hstore
  have hown := hctl.registered id q _ (opens_of_openerAt hat) (by simp)
  rcases hkept with ⟨⟨hreg, -⟩, -⟩ | ⟨id', ⟨pc, hpc, hkeeps⟩ | ⟨pc, hpc, hkeeps⟩⟩
  · exact Option.some.inj (hreg.symm.trans hown)
  · obtain ⟨ph, hph, hne⟩ := OpenerPc.opens_of_keeps hkeeps
    have hreg := hctl.registered id' p ph ((opens_of_openerAt hpc).trans hph) hne
    exact Option.some.inj (hreg.symm.trans hown)
  · obtain ⟨env, rfl, hfull⟩ := stores_run hs hat hat'
    exact absurd hkeeps (hok q i hat hbefore hfull id' pc p hpc)

theorem KeptUnique.step (h : KeptUnique s) (hctl : Control s) (hcustody : Custody slot s s')
    (hok : StoresClosed slot s l) (hs : SdkPool.step sdk slot s l = some s') : KeptUnique s' := by
  intro p q i hp hq
  rcases hcustody.kept p i hp with hold | hstore
  · rcases hcustody.kept q i hq with hold' | hstore'
    · exact h p q i hold hold'
    · exact eq_of_stores hctl hok hs hstore' hold
  · rcases hcustody.kept q i hq with hold' | ⟨-, -, id', hat', -⟩
    · exact (eq_of_stores hctl hok hs hstore hold').symm
    · obtain ⟨-, -, id, hat, -⟩ := hstore
      have hreg := hctl.registered id p _ (opens_of_openerAt hat) (by simp)
      have hreg' := hctl.registered id' q _ (opens_of_openerAt hat') (by simp)
      exact Option.some.inj (hreg.symm.trans hreg')

/-- The entries of a pool that is in use are kept for it. -/
theorem Usage.kept (h : Usage s) (hq : Queued sdk s) (hp : s.InUse p)
    (hi : i < (s.pools p).size) : s.Kept p i := by
  rcases h.inUse p hp with hreg | ⟨id, hdrain⟩
  · by_cases hseeded : ∃ id, s.opens id = some (p, .seeded)
    · obtain ⟨id, hopens⟩ := hseeded
      obtain ⟨pc, hpc, hph⟩ := Option.bind_eq_some_iff.mp hopens
      refine .inr ⟨id, .inl ⟨pc, hpc, ?_⟩⟩
      cases pc <;> simp_all [OpenerPc.opens, OpenerPc.keeps]
    · refine .inl ⟨⟨hreg, fun id ph hopens => ?_⟩, hi⟩
      cases ph with
      | connecting => exact absurd hp (hq.not_inUse (.inr ⟨id, hopens⟩))
      | seeded => exact absurd ⟨id, hopens⟩ hseeded
      | opened => rfl
  · obtain ⟨pc, hpc, hpool⟩ := Option.bind_eq_some_iff.mp hdrain
    refine .inr ⟨id, .inr ⟨pc, hpc, ?_⟩⟩
    cases pc <;> simp_all [CloserPc.drains, CloserPc.keeps]

/-- Who holds the entry of a request in flight. -/
def Requester.holder : Requester → Option CallId
  | .call id => some id
  | .worker _ => none

theorem State.InFlight.holds {h : Handle} {r : Requester} (hr : s.InFlight p i h r) :
    (s.lease p).holds r.holder = some i := by
  cases r with
  | call id =>
      have hat : s.callerAt id = some (.running p i h) := hr
      rw [Requester.holder, lease_call, hat]
      simp [CallerPc.heldIn, CallerPc.pool, CallerPc.held]
  | worker q =>
      obtain ⟨-, hw⟩ := hr
      rw [Requester.holder, lease_worker, hw]
      rfl

/-- A pool keeps the entry under whose handle a request is in flight. -/
theorem State.InFlight.kept {h : Handle} {r : Requester} (hr : s.InFlight p i h r)
    (husage : Usage s) (hcharge : InCharge sdk slot s) :
    s.Kept p i ∧ i < maxSize ∧ h = poolAppHandle slot i := by
  obtain ⟨hq, hentries, hctl, -⟩ := hcharge
  have hi := (hq.lists p).held_lt _ i hr.holds
  have hmax := hi.trans_le (hentries.size_le p)
  cases r with
  | call id =>
      have hat : s.callerAt id = some (.running p i h) := hr
      exact ⟨husage.kept hq (.inr ⟨id, _, hat, rfl⟩) hi, hmax, hentries.caller id p i h hat⟩
  | worker q =>
      obtain ⟨-, hw⟩ := hr
      refine ⟨?_, hmax, hentries.worker p _ i h hw rfl⟩
      rcases hctl.worker p (by simp [hw]) with hsettled | ⟨id, hjoins⟩
      · exact .inl ⟨hsettled, hi⟩
      · obtain ⟨pc, hpc, hpool⟩ := Option.bind_eq_some_iff.mp hjoins
        refine .inr ⟨id, .inr ⟨pc, hpc, ?_⟩⟩
        cases pc <;> simp_all [CloserPc.joins, CloserPc.keeps]

end Kept

/-- Custody, usage and unique keeping make requests exclusive. -/
theorem exclusive_of {sdk : Sdk} {slot : Nat} {s : State} (hcharge : InCharge sdk slot s)
    (husage : Usage s) (hunique : KeptUnique s) : Exclusive s := by
  refine ⟨fun p q i j h r r' hr hr' => ?_, fun id p i hc hi id' pc hpc hused => ?_⟩
  · obtain ⟨hkept, hi, rfl⟩ := hr.kept husage hcharge
    obtain ⟨hkept', hj, hhandle⟩ := hr'.kept husage hcharge
    obtain rfl := poolAppHandle_inj hi hj hhandle
    obtain rfl := hunique p q i hkept hkept'
    have hholder := (hcharge.queued.lists p).unique _ _ i hr.holds hr'.holds
    cases r with
    | call id =>
        cases r' with
        | call id' => rw [Option.some.inj hholder]
        | worker q' => cases hholder
    | worker q =>
        cases r' with
        | call id' => cases hholder
        | worker q' => rw [hr.1, hr'.1]
  · have hcloses : s.closes id = some p := closes_of_closerAt hc
    rcases husage.inUse p (.inr ⟨id', pc, hpc, hused⟩) with hreg | ⟨id'', hdrain⟩
    · exact hcharge.control.taken id p hcloses hreg
    · have hsame := hcharge.control.closer_unique id id'' p hcloses (State.closes_of_drains hdrain)
      subst hsame
      rw [State.drains, hc] at hdrain
      cases hdrain

/-- In every run whose steps are orderly, the old pool and the new one never use
a connection at the same time. -/
theorem exclusive_of_orderly {sdk : Sdk} {slot : Nat} {s : State}
    (h : (pools sdk slot).Reaches (Orderly slot) s) : Exclusive s := by
  have hcharge : ∀ s, (pools sdk slot).Reaches (Orderly slot) s → InCharge sdk slot s :=
    fun _ hr => inCharge_of_reaches (fun _ _ hok => hok.closesOpened) hr
  have husage : ∀ s, (pools sdk slot).Reaches (Orderly slot) s → Usage s := fun _ hr =>
    hr.invariant_of hcharge Usage (fun _ hinit => hinit.usage) fun _ _ _ hcharge husage hok hs =>
      husage.step hcharge.control hcharge.queued hok.drainsCallers hs
  have hunique : KeptUnique s := by
    refine h.invariant_of hcharge KeptUnique ?_ ?_
    · exact fun s hinit p q i hp _ => absurd hp (hinit.not_kept p i)
    · intro s l s' hcharge hunique hok hs
      have hcustody := custody_step hcharge.control hcharge.queued hcharge.entries
        hcharge.recorded hok.closesOpened hs
      exact hunique.step hcharge.control hcustody hok.storesClosed hs
  exact exclusive_of (hcharge s h) (husage s h) hunique

/-- What a step of the call `id` must meet as far as the calls below `k` go. -/
def quietBelow (k : Nat) (s : State) : Label → Bool
  | .run id _ =>
      match s.calls id with
      | some (.closer (.drain p)) =>
          (List.range k).all fun id' => decide (s.callerAt id' ≠ some (.count p))
      | some (.opener (.store _ _)) =>
          (List.range k).all fun id' => (s.closerAt id').all fun pc => decide (pc.pool = none)
      | _ => true
  | _ => true

theorem orderly_of_below {slot k : Nat} {s : State} {l : Label}
    (hnone : ∀ id, k ≤ id → s.calls id = none) (hopened : ClosesOpened s l)
    (hquiet : quietBelow k s l = true) : Orderly slot s l := by
  have habove : ∀ id, ¬id < k → s.callerAt id = none ∧ s.closerAt id = none := by
    intro id hid
    have h := calls_eq_none_iff.mp (hnone id (Nat.le_of_not_lt hid))
    exact ⟨h.1, h.2.2⟩
  cases l with
  | run id env =>
      refine ⟨hopened, fun p hc _ id' hcount => ?_, fun p i hc _ _ id' pc q hpc hkeeps => ?_⟩
      · by_cases hid : id' < k
        · simp only [quietBelow, closerAt_eq.mp hc] at hquiet
          have hall := List.all_eq_true.mp hquiet id' (List.mem_range.mpr hid)
          exact of_decide_eq_true hall hcount
        · rw [(habove id' hid).1] at hcount
          cases hcount
      · by_cases hid : id' < k
        · simp only [quietBelow, openerAt_eq.mp hc] at hquiet
          have hall := List.all_eq_true.mp hquiet id' (List.mem_range.mpr hid)
          rw [hpc, Option.all_some, decide_eq_true_eq, CloserPc.pool_of_keeps hkeeps] at hall
          cases hall
        · rw [(habove id' hid).2] at hpc
          cases hpc
  | poolTxRx id | poolOpen id size keepalive | poolClose id | work p env =>
      exact ⟨hopened, trivial, trivial⟩

/-- `PoolOpen` of one entry without a keepalive worker, up to its end. -/
def opensOne (id : CallId) : List Label := .poolOpen id 1 false :: runs id 5

def closesOne (id : CallId) : List Label := .poolClose id :: runs id 7

/-- A pool is opened, closed and opened again, and then used. -/
theorem exclusive_of_orderly_reopened : ∃ s : State,
    s.callerAt 3 = some (.running 1 0 (poolAppHandle 0 0)) ∧ Exclusive s := by
  obtain ⟨s, hs, hend⟩ := (pools .go 0).exists_reaches_of_run
    (fun s l => ClosesOpened s l ∧ l.below 4 = true ∧ quietBelow 4 s l = true) (fresh_initial 0)
    (opensOne 0 ++ closesOne 1 ++ opensOne 2 ++ .poolTxRx 3 :: runs 3 6)
    (fun s => decide (s.callerAt 3 = some (.running 1 0 (poolAppHandle 0 0)))) (by decide)
  have horderly : (pools .go 0).Reaches (Orderly 0) s := by
    apply hs.mono_of
    intro s l hr hok
    have hnone := calls_none_of_reaches (fun _ _ h => h.2.1) hr
    exact orderly_of_below hnone hok.1 hok.2.2
  exact ⟨s, of_decide_eq_true hend, exclusive_of_orderly horderly⟩

/-- Call 1 has seen the first pool initialized when call 2 closes it; call 3
opens the next pool, call 4 uses its entry, and then call 1 takes the index from
the queue of the first pool. -/
def usesBoth : List Label :=
  opensOne 0 ++ .poolTxRx 1 :: runs 1 2 ++ closesOne 2 ++ opensOne 3 ++
    .poolTxRx 4 :: runs 4 6 ++ runs 1 4

/-- Two requests are in flight under one app_handle. -/
def SharesHandle (sdk : Sdk) : Prop :=
  ∃ s, (pools sdk 0).Reachable s ∧ s.callerAt 1 = some (.running 0 0 (poolAppHandle 0 0)) ∧
    s.callerAt 4 = some (.running 1 0 (poolAppHandle 0 0)) ∧ ¬Exclusive s

theorem sharesHandle (sdk : Sdk) : SharesHandle sdk := by
  obtain ⟨s, hs, hend⟩ := (pools sdk 0).exists_reaches_of_run (fun _ _ => True) (fresh_initial 0)
    usesBoth (fun s => decide (s.callerAt 1 = some (.running 0 0 (poolAppHandle 0 0)) ∧
      s.callerAt 4 = some (.running 1 0 (poolAppHandle 0 0)))) (by cases sdk <;> decide)
  obtain ⟨hold, hnew⟩ := of_decide_eq_true hend
  refine ⟨s, hs, hold, hnew, fun h => ?_⟩
  cases h.inFlight 0 1 0 0 _ (.call 1) (.call 4) hold hnew

theorem not_exclusive_after_reopen : SharesHandle .go ∧ SharesHandle .python :=
  ⟨sharesHandle .go, sharesHandle .python⟩

end BpClient.SdkPool
