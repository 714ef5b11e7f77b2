import BpClient.SdkPool.Registry

/-!
The free queue of a pool: from the end of `PoolOpen` until the pool is stopped
no index is lost, and at no time is one doubled.
-/

namespace BpClient.SdkPool

open BpClient.Lib
open BpClient.CPool (maxSize poolAppHandle)

/-- `PoolOpen` has not seeded the queue of `p` yet. -/
def State.Unready (s : State) (p : PoolId) : Prop :=
  s.next ≤ p ∨ ∃ id, s.opens id = some (p, .connecting)

structure Unseeded (s : State) (p : PoolId) : Prop where
  free : (s.pools p).free = []
  closed : (s.pools p).initialized = false
  worker : (s.pools p).worker = none
  callers : ∀ id pc, s.callerAt id = some pc → pc.uses ≠ some p

structure Queued (sdk : Sdk) (s : State) : Prop where
  born : Born s
  unready : ∀ p, s.Unready p → Unseeded s p
  idle : ∀ id p, s.opens id = some (p, .seeded) → (s.pools p).worker = none
  lists : ∀ p, (s.lease p).Inv (s.pools p).size
  full : ∀ id p ph, s.opens id = some (p, ph) → ph ≠ .connecting →
    (s.pools p).stopped sdk = false → (s.lease p).Full (s.pools p).size

theorem uses_of_heldIn {pc : CallerPc} {p : PoolId} {i : Nat} (h : pc.heldIn p = some i) :
    pc.uses = some p := by
  cases pc <;> simp_all [CallerPc.heldIn, CallerPc.pool, CallerPc.held, CallerPc.uses]

theorem Unseeded.holds {s : State} {p : PoolId} (h : Unseeded s p) (x : Option CallId) :
    (s.lease p).holds x = none := by
  cases x with
  | none => rw [lease_worker, h.worker, Option.bind_none]
  | some id =>
      rw [lease_call]
      cases hpc : s.callerAt id with
      | none => rfl
      | some pc =>
          rw [Option.bind_some]
          cases hheld : pc.heldIn p with
          | none => rfl
          | some i => exact absurd (uses_of_heldIn hheld) (h.callers id pc hpc)

theorem CallerFrame.holds {sdk : Sdk} {s s' : State} {id : CallId} {pc : CallerPc}
    (hf : CallerFrame sdk s s' id pc) (p : PoolId) (x : Option CallId) (hx : x ≠ some id) :
    (s'.lease p).holds x = (s.lease p).holds x := by
  cases x with
  | none =>
      obtain ⟨free, inflight, hcore⟩ := hf.core p
      rw [lease_worker, lease_worker, hcore]
  | some id' =>
      obtain ⟨pc', hcaller, -⟩ := hf.caller
      have hid : id' ≠ id := fun h => hx (congrArg some h)
      rw [lease_call, lease_call, hcaller, Function.update_of_ne hid]

theorem WorkerFrame.callerAt {sdk : Sdk} {s s' : State} {p : PoolId} {w : WorkerPc}
    (hf : WorkerFrame sdk s s' p w) : s'.callerAt = s.callerAt := by
  funext id
  simp only [State.callerAt, hf.calls]

theorem WorkerFrame.opens {sdk : Sdk} {s s' : State} {p : PoolId} {w : WorkerPc}
    (hf : WorkerFrame sdk s s' p w) : s'.opens = s.opens := by
  refine opens_congr (funext fun id => ?_)
  simp only [State.openerAt, hf.calls]

/-- The lease of a pool whose queue and worker are as before. -/
theorem lease_congr {s s' : State} {p : PoolId} (hcaller : s'.callerAt = s.callerAt)
    (hfree : (s'.pools p).free = (s.pools p).free)
    (hworker : (s'.pools p).worker.bind WorkerPc.held = (s.pools p).worker.bind WorkerPc.held) :
    s'.lease p = s.lease p := by
  refine FreeList.ext hfree (funext fun x => ?_)
  cases x with
  | none => exact hworker
  | some id => rw [lease_call, lease_call, hcaller]

namespace Queued

variable {sdk : Sdk} {slot : Nat} {s s' : State} {id : CallId}

theorem start {pc : Pc} (h : Queued sdk s) (hnone : s.calls id = none) (hstart : pc.Start) :
    Queued sdk (s.setCall id pc) := by
  obtain ⟨hopens, -, hcaller, hlease⟩ := start_views hnone hstart
  refine ⟨h.born.start hnone hstart, fun p hp => ?_, ?_, fun p => ?_, fun id' p ph hp => ?_⟩
  · rw [State.Unready, hopens] at hp
    obtain ⟨hfree, hclosed, hworker, hcallers⟩ := h.unready p hp
    refine ⟨hfree, hclosed, hworker, fun id' pc' hpc' => ?_⟩
    rcases hcaller id' pc' hpc' with hold | rfl
    · exact hcallers id' pc' hold
    · simp [CallerPc.uses]
  · rw [hopens]
    exact h.idle
  · rw [hlease]
    exact h.lists p
  · rw [hlease]
    rw [hopens] at hp
    exact h.full id' p ph hp

/-- A caller keeps the queue and the holders apart. -/
theorem caller {pc : CallerPc} (h : Queued sdk s) (hc : s.callerAt id = some pc)
    (hf : CallerFrame sdk s s' id pc) : Queued sdk s' := by
  have hopens := opens_congr hf.opener
  obtain ⟨pc', hcaller, hgo⟩ := hf.caller
  refine ⟨h.born.caller hc hf, fun p hp => ?_, fun id' p hp => ?_, fun p => ?_,
    fun id' p ph hp hph hstop => ?_⟩
  · rw [State.Unready, hopens, hf.next] at hp
    have hold := h.unready p hp
    obtain ⟨free, inflight, hcore⟩ := hf.core p
    have hmove := hf.move p
    rw [lease_free, lease_free, hold.free, hold.holds] at hmove
    refine ⟨hmove.of_nil, ?_, ?_, fun id' pc'' hpc'' => ?_⟩
    · rw [hcore]
      exact hold.closed
    · rw [hcore]
      exact hold.worker
    · rw [hcaller] at hpc''
      by_cases hid : id' = id
      · subst id'
        rw [Function.update_self, Option.some.injEq] at hpc''
        subst hpc''
        intro hp'
        rcases hgo.uses p hp' with hused | hinit
        · exact hold.callers _ pc hc hused
        · rw [hold.closed] at hinit
          cases hinit
      · rw [Function.update_of_ne hid] at hpc''
        exact hold.callers id' pc'' hpc''
  · obtain ⟨free, inflight, hcore⟩ := hf.core p
    rw [hcore]
    rw [hopens] at hp
    exact h.idle id' p hp
  · obtain ⟨free, inflight, hcore⟩ := hf.core p
    have hsize : (s'.pools p).size = (s.pools p).size := by rw [hcore]
    rw [hsize]
    exact (h.lists p).move (hf.holds p) (hf.move p)
  · obtain ⟨free, inflight, hcore⟩ := hf.core p
    have hsize : (s'.pools p).size = (s.pools p).size := by rw [hcore]
    have hstop' : (s.pools p).stopped sdk = false := by
      rw [hcore] at hstop
      exact hstop
    rw [hopens] at hp
    rw [hsize]
    refine (h.full id' p ph hp hph hstop').move ?_ (hf.holds p) (hf.move p)
    simp [hstop']

/-- So does the keepalive worker. -/
theorem worker {p : PoolId} {w : WorkerPc} (h : Queued sdk s) (hw : (s.pools p).worker = some w)
    (hf : WorkerFrame sdk s s' p w) : Queued sdk s' := by
  have hopens := hf.opens
  obtain ⟨free, entries, worker, hcore⟩ := hf.core
  have hholds : ∀ x, x ≠ none → (s'.lease p).holds x = (s.lease p).holds x := by
    intro x hx
    cases x with
    | none => exact absurd rfl hx
    | some id => rw [lease_call, lease_call, hf.callerAt]
  have hlease : ∀ p', p' ≠ p → s'.lease p' = s.lease p' := fun p' hp' =>
    lease_congr hf.callerAt (by rw [hf.pools p' hp']) (by rw [hf.pools p' hp'])
  have hne : ∀ p', (s.pools p').worker = none → p' ≠ p := by
    rintro p' hnone rfl
    rw [hw] at hnone
    cases hnone
  refine ⟨h.born.worker hf, fun p' hp' => ?_, fun id p' hp' => ?_, fun p' => ?_,
    fun id p' ph hp' hph hstop => ?_⟩
  · rw [State.Unready, hopens, hf.next] at hp'
    obtain ⟨hfree, hclosed, hworker, hcallers⟩ := h.unready p' hp'
    have hsame := hf.pools p' (hne p' hworker)
    exact ⟨hsame ▸ hfree, hsame ▸ hclosed, hsame ▸ hworker, hf.callerAt ▸ hcallers⟩
  · rw [hopens] at hp'
    have hnone := h.idle id p' hp'
    rw [hf.pools p' (hne p' hnone)]
    exact hnone
  · by_cases hp : p' = p
    · subst p'
      have hsize : (s'.pools p).size = (s.pools p).size := by rw [hcore]
      rw [hsize]
      exact (h.lists p).move hholds hf.move
    · rw [hlease p' hp, hf.pools p' hp]
      exact h.lists p'
  · rw [hopens] at hp'
    by_cases hp : p' = p
    · subst p'
      have hsize : (s'.pools p).size = (s.pools p).size := by rw [hcore]
      have hstop' : (s.pools p).stopped sdk = false := by
        rw [hcore] at hstop
        exact hstop
      rw [hsize]
      refine (h.full id p ph hp' hph hstop').move ?_ hholds hf.move
      simp [hstop']
    · rw [hf.pools p' hp] at hstop ⊢
      rw [hlease p' hp]
      exact h.full id p' ph hp' hph hstop

theorem closer {pc : CloserPc} (h : Queued sdk s) (hc : s.closerAt id = some pc)
    (hf : CloserFrame sdk s s' id pc) : Queued sdk s' := by
  have hopens := opens_congr hf.opener
  have hlease : ∀ p, s'.lease p = s.lease p := by
    intro p
    obtain ⟨initialized, stop, hpool, -⟩ := hf.pools p
    exact lease_congr hf.caller (by rw [hpool]) (by rw [hpool])
  refine ⟨h.born.closer hc hf, fun p hp => ?_, fun id' p hp => ?_, fun p => ?_,
    fun id' p ph hp hph hstop => ?_⟩
  · rw [State.Unready, hopens, hf.next] at hp
    obtain ⟨hfree, hclosed, hworker, hcallers⟩ := h.unready p hp
    obtain ⟨initialized, stop, hpool, hinit, -⟩ := hf.pools p
    rw [← hf.caller] at hcallers
    refine ⟨by rw [hpool]; exact hfree, ?_, by rw [hpool]; exact hworker, hcallers⟩
    rw [hpool]
    cases initialized with
    | false => rfl
    | true => exact (hinit rfl).symm.trans hclosed
  · obtain ⟨initialized, stop, hpool, -⟩ := hf.pools p
    rw [hopens] at hp
    rw [hpool]
    exact h.idle id' p hp
  · obtain ⟨initialized, stop, hpool, -⟩ := hf.pools p
    rw [hlease, hpool]
    exact h.lists p
  · obtain ⟨initialized, stop, hpool, -, hstopped⟩ := hf.pools p
    rw [hopens] at hp
    have hfull := h.full id' p ph hp hph (hstopped hstop)
    rw [hlease, hpool]
    exact hfull

/-- A step of `PoolOpen` that touches neither queues nor workers. -/
theorem opener_of_same (h : Queued sdk s) (hborn : Born s') (hnext : s'.next = s.next)
    (hcaller : s'.callerAt = s.callerAt)
    (hopens : ∀ id x, s'.opens id = some x → s.opens id = some x)
    (hpools : ∀ p, ∃ entries, s'.pools p = { s.pools p with entries := entries }) :
    Queued sdk s' := by
  have hlease : ∀ p, s'.lease p = s.lease p := by
    intro p
    obtain ⟨entries, hpool⟩ := hpools p
    exact lease_congr hcaller (by rw [hpool]) (by rw [hpool])
  refine ⟨hborn, fun p hp => ?_, fun id' p hp => ?_, fun p => ?_, fun id' p ph hp hph hstop => ?_⟩
  · have hold : s.Unready p := by
      rcases hp with hp | ⟨id', hid'⟩
      · exact .inl (hnext ▸ hp)
      · exact .inr ⟨id', hopens id' _ hid'⟩
    obtain ⟨hfree, hclosed, hworker, hcallers⟩ := h.unready p hold
    obtain ⟨entries, hpool⟩ := hpools p
    rw [← hcaller] at hcallers
    exact ⟨by rw [hpool]; exact hfree, by rw [hpool]; exact hclosed, by rw [hpool]; exact hworker,
      hcallers⟩
  · obtain ⟨entries, hpool⟩ := hpools p
    rw [hpool]
    exact h.idle id' p (hopens id' _ hp)
  · obtain ⟨entries, hpool⟩ := hpools p
    rw [hlease, hpool]
    exact h.lists p
  · obtain ⟨entries, hpool⟩ := hpools p
    rw [hpool] at hstop
    have hfull := h.full id' p ph (hopens id' _ hp) hph hstop
    rw [hlease, hpool]
    exact hfull

theorem publish {size : Nat} {keepalive : Bool} (h : Queued sdk s)
    (hc : s.openerAt id = some (.enter size keepalive)) (hborn : Born s')
    (hs : s' = { (s.setPool s.next (.fresh size keepalive)).setCall id (.opener (.lfo s.next 0)) with
      registry := some s.next
      next := s.next + 1 }) : Queued sdk s' := by
  obtain ⟨hcaller, hopener, -⟩ := openerAt_setCall s' hc (.lfo s.next 0) (by rw [hs]; rfl)
  have hnext : s'.next = s.next + 1 := by rw [hs]
  have hnew : s'.pools s.next = .fresh size keepalive := by
    rw [hs]
    simp [State.setCall, State.setPool]
  have hpools : ∀ p, p ≠ s.next → s'.pools p = s.pools p := by
    intro p hp
    rw [hs]
    simp [State.setCall, State.setPool, hp]
  have hlease : ∀ p, p ≠ s.next → s'.lease p = s.lease p := fun p hp =>
    lease_congr hcaller (by rw [hpools p hp]) (by rw [hpools p hp])
  have hopens : ∀ id' p ph, s'.opens id' = some (p, ph) →
      (p = s.next ∧ ph = .connecting) ∨ (p ≠ s.next ∧ s.opens id' = some (p, ph)) := by
    intro id' p ph hp
    rw [opens_update hopener] at hp
    by_cases hid : id' = id
    · subst id'
      rw [Function.update_self] at hp
      cases hp
      exact .inl ⟨rfl, rfl⟩
    · rw [Function.update_of_ne hid] at hp
      exact .inr ⟨(h.born.opener_lt id' p ph hp).ne, hp⟩
  have hseeded : Unseeded s' s.next := by
    refine ⟨by rw [hnew]; rfl, by rw [hnew]; rfl, by rw [hnew]; rfl, fun id' pc hpc huses => ?_⟩
    rw [hcaller] at hpc
    have hpool : pc.pool = some s.next := by
      cases pc <;> simp_all [CallerPc.uses, CallerPc.pool]
    exact Nat.lt_irrefl _ (h.born.caller_lt id' pc s.next hpc hpool)
  refine ⟨hborn, fun p hp => ?_, fun id' p hp => ?_, fun p => ?_, fun id' p ph hp hph hstop => ?_⟩
  · by_cases hp' : p = s.next
    · exact hp' ▸ hseeded
    · have hold : s.Unready p := by
        rcases hp with hp | ⟨id', hid'⟩
        · rw [hnext] at hp
          exact .inl (Nat.le_of_succ_le hp)
        · rcases hopens id' p _ hid' with ⟨hp, -⟩ | ⟨-, hold⟩
          · exact absurd hp hp'
          · exact .inr ⟨id', hold⟩
      obtain ⟨hfree, hclosed, hworker, hcallers⟩ := h.unready p hold
      rw [← hpools p hp'] at hfree hclosed hworker
      exact ⟨hfree, hclosed, hworker, hcaller ▸ hcallers⟩
  · rcases hopens id' p _ hp with ⟨-, hph⟩ | ⟨hp', hold⟩
    · cases hph
    · rw [hpools p hp']
      exact h.idle id' p hold
  · by_cases hp : p = s.next
    · subst p
      exact .empty hseeded.free hseeded.holds
    · rw [hlease p hp, hpools p hp]
      exact h.lists p
  · rcases hopens id' p ph hp with ⟨-, hconn⟩ | ⟨hp', hold⟩
    · exact absurd hconn hph
    · rw [hpools p hp'] at hstop
      rw [hlease p hp', hpools p hp']
      exact h.full id' p ph hold hph hstop

/-- A step of `PoolOpen` that moves `p` on to a later phase. -/
theorem advance {pc pc' : OpenerPc} {p : PoolId} {q : Pool} {ph ph' : OpenPhase}
    (h : Queued sdk s) (hc : s.openerAt id = some pc) (hborn : Born s')
    (hs : s' = (s.setPool p q).setCall id (.opener pc')) (hpc : pc.opens = some (p, ph))
    (hpc' : pc'.opens = some (p, ph')) (hph : ph' ≠ .connecting)
    (hidle : ph' = .seeded → q.worker = none)
    (hinv : (s'.lease p).Inv q.size)
    (hfull : q.stopped sdk = false → (s'.lease p).Full q.size) : Queued sdk s' := by
  obtain ⟨hcaller, hopener, -⟩ := openerAt_setCall s' hc pc' (by rw [hs]; rfl)
  have hold := (opens_of_openerAt hc).trans hpc
  have hnew : s'.opens id = some (p, ph') := by
    rw [opens_update hopener, Function.update_self, hpc']
  have hopens : ∀ id', id' ≠ id → s'.opens id' = s.opens id' := by
    intro id' hid
    rw [opens_update hopener, Function.update_of_ne hid]
  -- the opener that moves is the only one of `p`
  have hother : ∀ id' p' x, s'.opens id' = some (p', x) →
      (p' = p ∧ x = ph') ∨ (p' ≠ p ∧ s.opens id' = some (p', x)) := by
    intro id' p' x hx
    by_cases hid : id' = id
    · subst id'
      cases hnew.symm.trans hx
      exact .inl ⟨rfl, rfl⟩
    · rw [hopens id' hid] at hx
      refine .inr ⟨?_, hx⟩
      rintro rfl
      exact hid (h.born.opener_unique id' id p' x ph hx hold)
  have hpool : s'.pools p = q := by
    rw [hs]
    simp [State.setCall, State.setPool]
  have hpools : ∀ p', p' ≠ p → s'.pools p' = s.pools p' := by
    intro p' hp'
    rw [hs]
    simp [State.setCall, State.setPool, hp']
  have hlease : ∀ p', p' ≠ p → s'.lease p' = s.lease p' := fun p' hp' =>
    lease_congr hcaller (by rw [hpools p' hp']) (by rw [hpools p' hp'])
  refine ⟨hborn, fun p' hp' => ?_, fun id' p' hp' => ?_, fun p' => ?_,
    fun id' p' x hp' hx hstop => ?_⟩
  · have hready : p' ≠ p ∧ s.Unready p' := by
      have hnext : s'.next = s.next := by rw [hs]; rfl
      rcases hp' with hp' | ⟨id', hid'⟩
      · refine ⟨?_, .inl (hnext ▸ hp')⟩
        rintro rfl
        exact absurd (h.born.opener_lt id p' ph hold) (Nat.not_lt.mpr (hnext ▸ hp'))
      · rcases hother id' p' _ hid' with ⟨-, hconn⟩ | ⟨hne, hid'⟩
        · exact absurd hconn.symm hph
        · exact ⟨hne, .inr ⟨id', hid'⟩⟩
    obtain ⟨hfree, hclosed, hworker, hcallers⟩ := h.unready p' hready.2
    rw [← hpools p' hready.1] at hfree hclosed hworker
    exact ⟨hfree, hclosed, hworker, hcaller ▸ hcallers⟩
  · rcases hother id' p' _ hp' with ⟨rfl, hx⟩ | ⟨hne, hold'⟩
    · rw [hpool]
      exact hidle hx.symm
    · rw [hpools p' hne]
      exact h.idle id' p' hold'
  · by_cases hne : p' = p
    · subst p'
      rw [hpool]
      exact hinv
    · rw [hlease p' hne, hpools p' hne]
      exact h.lists p'
  · rcases hother id' p' x hp' with ⟨rfl, -⟩ | ⟨hne, hold'⟩
    · rw [hpool] at hstop ⊢
      exact hfull hstop
    · rw [hpools p' hne] at hstop
      rw [hlease p' hne, hpools p' hne]
      exact h.full id' p' x hold' hx hstop

/-- So does `PoolOpen`, which seeds the queue. -/
theorem opener {pc : OpenerPc} (h : Queued sdk s) (hc : s.openerAt id = some pc)
    (heffect : OpenerEffect s s' id pc) : Queued sdk s' := by
  have hborn := h.born.opener hc heffect
  cases heffect with
  | publish size keepalive hpc hreg hs =>
      subst hpc
      exact h.publish hc hborn hs
  | refuse size keepalive hpc hreg hs =>
      obtain ⟨hcaller, hopener, -⟩ := openerAt_setCall s' hc (.done .alreadyOpen) (by rw [hs]; rfl)
      refine h.opener_of_same hborn (by rw [hs]; rfl) hcaller (fun id' x hx => ?_)
        (fun p => ⟨(s.pools p).entries, by rw [hs]; rfl⟩)
      rw [opens_update hopener] at hx
      by_cases hid : id' = id
      · subst id'
        rw [Function.update_self] at hx
        cases hx
      · rwa [Function.update_of_ne hid] at hx
  | connect p pc' hpc hpc' hreg hnext hcalls hpools _ =>
      obtain ⟨hcaller, hopener, -⟩ := openerAt_setCall s' hc pc' hcalls
      refine h.opener_of_same hborn hnext hcaller (fun id' x hx => ?_) hpools
      rw [opens_update hopener, hpc', ← hpc, ← opens_of_openerAt hc, Function.update_eq_self] at hx
      exact hx
  | unregister p hpc hs =>
      obtain ⟨hcaller, hopener, -⟩ := openerAt_setCall s' hc (.done .failed) (by rw [hs]; rfl)
      refine h.opener_of_same hborn (by rw [hs]; rfl) hcaller (fun id' x hx => ?_)
        (fun p => ⟨(s.pools p).entries, by rw [hs]; rfl⟩)
      rw [opens_update hopener] at hx
      by_cases hid : id' = id
      · subst id'
        rw [Function.update_self] at hx
        cases hx
      · rwa [Function.update_of_ne hid] at hx
  | seed p pc' hpc hpc' hs =>
      subst hpc
      obtain ⟨hcaller, -, -⟩ := openerAt_setCall s' hc pc' (by rw [hs]; rfl)
      have hold := h.unready p (.inr ⟨id, opens_of_openerAt hc⟩)
      have hfree : (s'.lease p).free = List.range (s.pools p).size := by
        rw [hs]
        simp [lease_free, State.setCall, State.setPool]
      have hnone : ∀ x, (s'.lease p).holds x = none := by
        intro x
        have hsame : (s'.lease p).holds x = (s.lease p).holds x := by
          cases x with
          | none =>
              rw [hs]
              simp [lease_worker, State.setCall, State.setPool]
          | some id' => rw [lease_call, lease_call, hcaller]
        exact hsame.trans (hold.holds x)
      cases hka : (s.pools p).keepalive with
      | true =>
          simp only [hka, if_true] at hpc'
          subst hpc'
          exact h.advance hc hborn hs rfl rfl (by simp) (fun _ => hold.worker)
            (.seeded hfree hnone) (fun _ => .seeded hfree)
      | false =>
          simp only [hka, Bool.false_eq_true, if_false] at hpc'
          subst hpc'
          exact h.advance hc hborn hs rfl rfl (by simp) (fun _ => hold.worker)
            (.seeded hfree hnone) (fun _ => .seeded hfree)
  | startWorker p hpc hs =>
      subst hpc
      obtain ⟨hcaller, -, -⟩ := openerAt_setCall s' hc (.opened p) (by rw [hs]; rfl)
      have hopens : s.opens id = some (p, .seeded) := opens_of_openerAt hc
      have hlease : s'.lease p = s.lease p := by
        refine lease_congr hcaller ?_ ?_
        · rw [hs]
          simp [State.setCall, State.setPool]
        · rw [h.idle id p hopens, hs]
          simp [State.setCall, State.setPool, WorkerPc.held]
      refine h.advance hc hborn hs rfl rfl (by simp) (by simp) ?_ ?_
      · rw [hlease]
        exact h.lists p
      · rw [hlease]
        exact h.full id p .seeded hopens (by simp)

theorem step {l : Label} (h : Queued sdk s) (hs : SdkPool.step sdk slot s l = some s') :
    Queued sdk s' := by
  cases step_of hs with
  | start id pc _ hnone hstart heq => exact heq ▸ h.start hnone hstart
  | caller id env pc hc hstep => exact h.caller hc (callerStep_frame hc hstep)
  | opener id env pc hc hstep => exact h.opener hc (openerStep_effect hstep)
  | closer id env pc hc hstep => exact h.closer hc (closerStep_frame hc hstep)
  | worker p env w hw hstep => exact h.worker hw (workerStep_frame hw hstep)

end Queued

theorem Initial.queued {sdk : Sdk} {slot : Nat} {s : State} (h : Initial slot s) :
    Queued sdk s := by
  obtain ⟨hnext, hreg, -, hcalls, hpools⟩ := h
  have hcaller : ∀ id, s.callerAt id = none := fun id => by simp [State.callerAt, hcalls]
  have hopens : ∀ id, s.opens id = none := fun id => by simp [State.opens, State.openerAt, hcalls]
  have hcloses : ∀ id, s.closes id = none := fun id => by
    simp [State.closes, State.closerAt, hcalls]
  have hseeded : ∀ p, Unseeded s p := fun p =>
    ⟨by rw [hpools]; rfl, by rw [hpools]; rfl, by rw [hpools]; rfl, by simp [hcaller]⟩
  exact ⟨⟨by simp [hcaller], by simp [hopens], by simp [hcloses], by simp [hreg], by simp [hopens]⟩,
    fun p _ => hseeded p, by simp [hopens], fun p => .empty (hseeded p).free (hseeded p).holds,
    by simp [hopens]⟩

theorem queued_of_reachable {sdk : Sdk} {slot : Nat} {s : State}
    (h : (pools sdk slot).Reachable s) : Queued sdk s :=
  h.invariant (Queued sdk) (fun _ => Initial.queued) (fun _ _ _ ih _ hs => ih.step hs)

/-- From the end of `PoolOpen` until the pool is stopped each index is in
exactly one place, the queue, a caller or the keepalive worker. An index that
somebody holds always has room in the queue, and no index is ever in two
places. -/
theorem freeQueue_conserved {sdk : Sdk} {slot : Nat} {s : State}
    (h : (pools sdk slot).Reachable s) {id : CallId} {p : PoolId}
    (hopen : s.calls id = some (.opener (.opened p))) :
    ((s.pools p).stopped sdk = false → (s.lease p).Conserved (s.pools p).size) ∧
      (∀ x i, (s.lease p).holds x = some i → (s.pools p).free.length < (s.pools p).size) ∧
      (s.lease p).Distinct := by
  have hq := queued_of_reachable h
  have hopens : s.opens id = some (p, .opened) := opens_of_openerAt (openerAt_eq.mpr hopen)
  refine ⟨fun hstop => ?_, fun x i hx => (hq.lists p).length_lt hx, (hq.lists p).distinct⟩
  exact (hq.lists p).conserved (hq.full id p .opened hopens (by simp) hstop)

/-- The keepalive worker has claimed entry 0, and a call uses entry 1. -/
theorem freeQueue_conserved_ping_and_caller :
    ∃ s : State, (s.lease 0).holds none = some 0 ∧ (s.lease 0).holds (some 1) = some 1 ∧
      (s.lease 0).Conserved (s.pools 0).size := by
  obtain ⟨s, hs, hp⟩ :=
    (pools .go 3).exists_reaches_of_run (fun _ _ => True) (fresh_initial 3)
      (opensTwo 0 true ++ [.work 0 {}, .work 0 {}, .poolTxRx 1] ++ runs 1 4)
      (fun s => decide (s.calls 0 = some (.opener (.opened 0)) ∧ (s.pools 0).stopped .go = false ∧
        (s.lease 0).holds none = some 0 ∧ (s.lease 0).holds (some 1) = some 1))
      (by decide +kernel)
  obtain ⟨hopen, hstop, hworker, hcaller⟩ := of_decide_eq_true hp
  exact ⟨s, hworker, hcaller, (freeQueue_conserved hs hopen).1 hstop⟩

end BpClient.SdkPool
