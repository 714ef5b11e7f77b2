import BpClient.SdkPool.Queue

/-!
Who is in charge of a pool: its `PoolOpen`, the registry, or its `PoolClose`.
This holds as long as `PoolClose` takes no pool whose `PoolOpen` is still in
progress.
-/

namespace BpClient.SdkPool

open BpClient.Lib
open BpClient.CPool (maxSize poolAppHandle)

/-- Its `PoolOpen` has finished: the queue is seeded, and the keepalive worker
runs if there is to be one. -/
def Pool.opened (q : Pool) : Bool := q.initialized && (!q.keepalive || q.worker.isSome)

/-- `PoolClose` takes no pool from the registry whose `PoolOpen` is still in
progress. -/
def ClosesOpened (s : State) : Label → Prop
  | .run id _ => s.calls id = some (.closer .enter) →
      s.registry.all (fun p => (s.pools p).opened) = true
  | _ => True

instance (s : State) (l : Label) : Decidable (ClosesOpened s l) :=
  match l with
  | .run _ _ => inferInstanceAs (Decidable (_ → _))
  | .poolTxRx _ | .poolOpen _ _ _ | .poolClose _ | .work _ _ => .isTrue trivial

/-- `p` is in the registry, and its `PoolOpen` has returned. -/
def State.Settled (s : State) (p : PoolId) : Prop :=
  s.registry = some p ∧ ∀ id ph, s.opens id = some (p, ph) → ph = .opened

structure Control (s : State) : Prop where
  closer_unique : ∀ id id' p, s.closes id = some p → s.closes id' = some p → id = id'
  registered : ∀ id p ph, s.opens id = some (p, ph) → ph ≠ .opened → s.registry = some p
  taken : ∀ id p, s.closes id = some p → s.registry ≠ some p
  keepalive : ∀ id p, s.opens id = some (p, .seeded) → (s.pools p).keepalive = true
  worker : ∀ p, (s.pools p).worker ≠ none → s.Settled p ∨ ∃ id, s.joins id = some p

theorem joins_congr {s s' : State} (h : s'.closerAt = s.closerAt) : s'.joins = s.joins := by
  funext id
  simp [State.joins, h]

theorem joins_update {s s' : State} {id : CallId} {pc : CloserPc}
    (h : s'.closerAt = Function.update s.closerAt id (some pc)) :
    s'.joins = Function.update s.joins id pc.joins := by
  funext id'
  by_cases hid : id' = id
  · subst id'
    simp [State.joins, h]
  · simp [State.joins, h, hid]

/-- Control depends on the registry, the calls of `PoolOpen` and `PoolClose`,
and on which workers run. -/
theorem Control.congr {s s' : State} (h : Control s) (hreg : s'.registry = s.registry)
    (hopens : s'.opens = s.opens) (hcloses : s'.closes = s.closes) (hjoins : s'.joins = s.joins)
    (hka : ∀ p, (s'.pools p).keepalive = (s.pools p).keepalive)
    (hworker : ∀ p, (s'.pools p).worker ≠ none → (s.pools p).worker ≠ none) : Control s' := by
  refine ⟨?_, ?_, ?_, ?_, fun p hp => ?_⟩
  · rw [hcloses]
    exact h.closer_unique
  · rw [hopens, hreg]
    exact h.registered
  · rw [hcloses, hreg]
    exact h.taken
  · intro id p hp
    rw [hka]
    rw [hopens] at hp
    exact h.keepalive id p hp
  · rw [State.Settled, hreg, hopens, hjoins]
    exact h.worker p (hworker p hp)

section Control

variable {sdk : Sdk} {slot : Nat} {s s' : State} {id : CallId}

theorem Control.start {pc : Pc} (h : Control s) (hnone : s.calls id = none)
    (hstart : pc.Start) : Control (s.setCall id pc) := by
  obtain ⟨hopens, hcloses, -, -⟩ := start_views hnone hstart
  exact h.congr rfl hopens hcloses (funext (start_closer hnone hstart _ rfl)) (fun _ => rfl)
    (fun _ hp => hp)

theorem Control.caller {pc : CallerPc} (h : Control s) (hf : CallerFrame sdk s s' id pc) :
    Control s' := by
  refine h.congr hf.registry (opens_congr hf.opener) (closes_congr hf.closer)
    (joins_congr hf.closer) (fun p => ?_) (fun p hp => ?_)
  · obtain ⟨free, inflight, hcore⟩ := hf.core p
    rw [hcore]
  · obtain ⟨free, inflight, hcore⟩ := hf.core p
    rw [hcore] at hp
    exact hp

theorem WorkerFrame.closerAt {p : PoolId} {w : WorkerPc} (hf : WorkerFrame sdk s s' p w) :
    s'.closerAt = s.closerAt := by
  funext id
  simp only [State.closerAt, hf.calls]

theorem WorkerFrame.openerAt {p : PoolId} {w : WorkerPc} (hf : WorkerFrame sdk s s' p w) :
    s'.openerAt = s.openerAt := by
  funext id
  simp only [State.openerAt, hf.calls]

theorem Control.worker_step {p : PoolId} {w : WorkerPc} (h : Control s)
    (hw : (s.pools p).worker = some w) (hf : WorkerFrame sdk s s' p w) : Control s' := by
  refine h.congr hf.registry hf.opens (closes_congr hf.closerAt) (joins_congr hf.closerAt)
    (fun p' => ?_) (fun p' hp' => ?_)
  · by_cases hp : p' = p
    · obtain ⟨free, entries, worker, hcore⟩ := hf.core
      rw [hp, hcore]
    · rw [hf.pools p' hp]
  · by_cases hp : p' = p
    · rw [hp, hw]
      simp
    · rwa [hf.pools p' hp] at hp'

/-- While a `PoolOpen` is in progress, its pool is not fully opened. -/
theorem Control.not_opened (h : Control s) (hq : Queued sdk s) {p : PoolId} {ph : OpenPhase}
    (hopens : s.opens id = some (p, ph)) (hph : ph ≠ .opened) : (s.pools p).opened = false := by
  cases ph with
  | connecting =>
      have hclosed := (hq.unready p (.inr ⟨id, hopens⟩)).closed
      simp [Pool.opened, hclosed]
  | seeded =>
      have hka := h.keepalive id p hopens
      have hnone := hq.idle id p hopens
      simp [Pool.opened, hka, hnone]
  | opened => exact absurd rfl hph

/-- `PoolClose` takes the pool `p` from the registry. -/
theorem Control.take {p : PoolId} (h : Control s) (hq : Queued sdk s)
    (hc : s.closerAt id = some .enter) (hreg : s.registry = some p)
    (hopened : (s.pools p).opened = true)
    (hs : s' = { s with registry := none }.setCall id (.closer (.clear p))) : Control s' := by
  obtain ⟨-, hopener, hcloser⟩ := closerAt_setCall s' hc (.clear p) (by rw [hs]; rfl)
  have hcloses : ∀ id' p', s'.closes id' = some p' → (id' = id ∧ p' = p) ∨ s.closes id' = some p' := by
    intro id' p' hp'
    rw [closes_update hcloser] at hp'
    by_cases hid : id' = id
    · subst id'
      rw [Function.update_self] at hp'
      exact .inl ⟨rfl, (Option.some.inj hp').symm⟩
    · rw [Function.update_of_ne hid] at hp'
      exact .inr hp'
  have hfinished : ∀ id' p' ph, s.opens id' = some (p', ph) → ph = .opened := by
    intro id' p' ph hopens
    by_contra hph
    -- a `PoolOpen` in progress is the one of `p`
    obtain rfl : p = p' := Option.some.inj (hreg.symm.trans (h.registered id' p' ph hopens hph))
    rw [h.not_opened hq hopens hph] at hopened
    cases hopened
  refine ⟨fun id' id'' p' hp' hp'' => ?_, fun id' p' ph hp' hph => ?_, fun id' p' _ => ?_, ?_,
    fun p' hp' => ?_⟩
  · rcases hcloses id' p' hp' with ⟨rfl, rfl⟩ | hold <;>
      rcases hcloses id'' _ hp'' with ⟨rfl, heq⟩ | hold'
    · rfl
    · exact absurd hreg (h.taken id'' _ hold')
    · subst heq
      exact absurd hreg (h.taken id' _ hold)
    · exact h.closer_unique id' id'' p' hold hold'
  · rw [opens_congr hopener] at hp'
    exact absurd (hfinished id' p' ph hp') hph
  · rw [hs]
    simp [State.setCall]
  · rw [opens_congr hopener, hs]
    exact h.keepalive
  · have hworker : (s.pools p').worker ≠ none := by
      rw [hs] at hp'
      exact hp'
    rcases h.worker p' hworker with ⟨hsettled, -⟩ | ⟨id', hjoins⟩
    · obtain rfl : p = p' := Option.some.inj (hreg.symm.trans hsettled)
      refine .inr ⟨id, ?_⟩
      rw [joins_update hcloser, Function.update_self]
      rfl
    · refine .inr ⟨id', ?_⟩
      have hid : id' ≠ id := by
        rintro rfl
        rw [State.joins, hc] at hjoins
        cases hjoins
      rw [joins_update hcloser, Function.update_of_ne hid]
      exact hjoins

/-- A step of `PoolClose` past the registry. -/
theorem Control.closer_of_same {pc : CloserPc} (h : Control s) (hc : s.closerAt id = some pc)
    (pc' : CloserPc)
    (hcalls : s'.calls = Function.update s.calls id (some (.closer pc')))
    (hreg : s'.registry = s.registry)
    (hpool : ∀ p, pc'.pool = some p → pc.pool = some p)
    (hjoins : ∀ p, pc.joins = some p → pc'.joins = some p ∨ (s.pools p).worker = none)
    (hka : ∀ p, (s'.pools p).keepalive = (s.pools p).keepalive)
    (hworker : ∀ p, (s'.pools p).worker = (s.pools p).worker) : Control s' := by
  obtain ⟨-, hopener, hcloser⟩ := closerAt_setCall s' hc pc' hcalls
  have hcloses : ∀ id' p, s'.closes id' = some p → s.closes id' = some p := by
    intro id' p hp
    rw [closes_update hcloser] at hp
    by_cases hid : id' = id
    · subst id'
      rw [Function.update_self] at hp
      exact (closes_of_closerAt hc).trans (hpool p hp)
    · rwa [Function.update_of_ne hid] at hp
  refine ⟨fun id' id'' p hp hp' => ?_, ?_, fun id' p hp => ?_, fun id' p hp => ?_, fun p hp => ?_⟩
  · exact h.closer_unique id' id'' p (hcloses id' p hp) (hcloses id'' p hp')
  · rw [opens_congr hopener, hreg]
    exact h.registered
  · rw [hreg]
    exact h.taken id' p (hcloses id' p hp)
  · rw [hka]
    rw [opens_congr hopener] at hp
    exact h.keepalive id' p hp
  · rw [hworker] at hp
    rcases h.worker p hp with hsettled | ⟨id', hold⟩
    · refine .inl ?_
      rw [State.Settled, hreg, opens_congr hopener]
      exact hsettled
    · refine .inr ⟨id', ?_⟩
      rw [joins_update hcloser]
      by_cases hid : id' = id
      · subst id'
        have hpc : pc.joins = some p := by simpa [State.joins, hc] using hold
        rw [Function.update_self]
        exact (hjoins p hpc).resolve_right hp
      · rwa [Function.update_of_ne hid]

theorem Control.closer {pc : CloserPc} (h : Control s) (hq : Queued sdk s)
    (hc : s.closerAt id = some pc)
    (hok : pc = .enter → s.registry.all (fun p => (s.pools p).opened) = true)
    (hs : closerStep sdk s id pc = some s') : Control s' := by
  cases pc with
  | enter =>
      simp only [closerStep, Option.some.injEq] at hs
      have hopened := hok rfl
      cases hreg : s.registry with
      | none =>
          rw [hreg] at hs
          subst hs
          refine h.closer_of_same hc .done rfl rfl ?_ ?_ (fun _ => rfl) (fun _ => rfl)
          · simp [CloserPc.pool]
          · simp [CloserPc.joins]
      | some p =>
          rw [hreg] at hs hopened
          exact h.take hq hc hreg hopened hs.symm
  | clear p =>
      simp only [closerStep, Option.some.injEq] at hs
      subst hs
      exact h.closer_of_same hc (.stop p) rfl rfl (fun _ hp => hp) (fun _ hp => .inl hp)
        (s.of_setPool (·.keepalive) rfl) (s.of_setPool (·.worker) rfl)
  | stop p =>
      simp only [closerStep, Option.some.injEq] at hs
      subst hs
      exact h.closer_of_same hc (.join p) rfl rfl (fun _ hp => hp) (fun _ hp => .inl hp)
        (s.of_setPool (·.keepalive) rfl) (s.of_setPool (·.worker) rfl)
  | join p =>
      simp only [closerStep] at hs
      split at hs <;> cases hs
      next hnone =>
      refine h.closer_of_same hc (.drain p) rfl rfl (fun _ hp => hp) (fun p' hp => ?_)
        (fun _ => rfl) (fun _ => rfl)
      cases hp
      exact .inr hnone
  | drain p =>
      simp only [closerStep] at hs
      split at hs <;> cases hs
      refine h.closer_of_same hc (.closing p 0) rfl rfl (fun _ hp => hp) ?_ (fun _ => rfl)
        (fun _ => rfl)
      simp [CloserPc.joins]
  | closing p i =>
      simp only [closerStep, Option.some.injEq] at hs
      have hjoins : ∀ pc' p', (CloserPc.closing p i).joins = some p' →
          CloserPc.joins pc' = some p' ∨ (s.pools p').worker = none := by
        simp [CloserPc.joins]
      have hdone : ∀ p', CloserPc.done.pool = some p' → (CloserPc.closing p i).pool = some p' := by
        simp [CloserPc.pool]
      have next : ∀ table, Control ({ s with table := table }.setCall id
          (.closer (.closing p (i + 1)))) := fun table =>
        h.closer_of_same hc (.closing p (i + 1)) rfl rfl (fun _ hp => hp) (hjoins _)
          (fun _ => rfl) (fun _ => rfl)
      have leave : Control (s.setCall id (.closer .done)) :=
        h.closer_of_same hc .done rfl rfl hdone (hjoins _) (fun _ => rfl) (fun _ => rfl)
      subst hs
      split
      · split
        · exact next _
        · cases sdk with
          | go => exact next s.table
          | python => exact leave
      · exact leave
  | done => cases hs

/-- The `PoolOpen` in progress is the only one, and no pool is settled. -/
theorem Control.in_progress (h : Control s) {p : PoolId} {ph : OpenPhase}
    (hopens : s.opens id = some (p, ph)) (hph : ph ≠ .opened) (hborn : Born s) :
    s.registry = some p ∧ (∀ p', ¬ s.Settled p') ∧
      ∀ id' p' ph', s.opens id' = some (p', ph') → ph' ≠ .opened → id' = id := by
  have hreg := h.registered id p ph hopens hph
  refine ⟨hreg, fun p' hsettled => ?_, fun id' p' ph' hopens' hph' => ?_⟩
  · obtain rfl : p = p' := Option.some.inj (hreg.symm.trans hsettled.1)
    exact hph (hsettled.2 id ph hopens)
  · obtain rfl : p = p' := Option.some.inj (hreg.symm.trans (h.registered id' p' ph' hopens' hph'))
    exact hborn.opener_unique id' id p ph' ph hopens' hopens

/-- A step of `PoolOpen` that moves its pool `p` to another phase, or lets go of
it. -/
theorem Control.advance {pc : OpenerPc} {p : PoolId} {ph : OpenPhase} (h : Control s)
    (hborn : Born s) (hc : s.openerAt id = some pc) (hpc : pc.opens = some (p, ph))
    (hph : ph ≠ .opened) (pc' : OpenerPc)
    (hcalls : s'.calls = Function.update s.calls id (some (.opener pc')))
    (hpc' : ∀ p' ph', pc'.opens = some (p', ph') → p' = p ∧ (ph' ≠ .opened → s'.registry = some p) ∧
      (ph' = .seeded → (s.pools p).keepalive = true))
    (hreg : s'.registry = s.registry ∨ s'.registry = none)
    (hka : ∀ p', (s'.pools p').keepalive = (s.pools p').keepalive)
    (hworker : ∀ p', (s'.pools p').worker ≠ none → (s.pools p').worker ≠ none ∨ s'.Settled p') :
    Control s' := by
  obtain ⟨-, hopener, hcloser⟩ := openerAt_setCall s' hc pc' hcalls
  have hold := (opens_of_openerAt hc).trans hpc
  obtain ⟨-, hunsettled, honly⟩ := h.in_progress hold hph hborn
  have hopens : ∀ id' p' ph', s'.opens id' = some (p', ph') →
      (id' = id ∧ pc'.opens = some (p', ph')) ∨ (id' ≠ id ∧ s.opens id' = some (p', ph')) := by
    intro id' p' ph' hp'
    rw [opens_update hopener] at hp'
    by_cases hid : id' = id
    · subst id'
      rw [Function.update_self] at hp'
      exact .inl ⟨rfl, hp'⟩
    · rw [Function.update_of_ne hid] at hp'
      exact .inr ⟨hid, hp'⟩
  refine ⟨?_, fun id' p' ph' hp' hph' => ?_, fun id' p' hp' hreg' => ?_, fun id' p' hp' => ?_,
    fun p' hp' => ?_⟩
  · rw [closes_congr hcloser]
    exact h.closer_unique
  · rcases hopens id' p' ph' hp' with ⟨-, hpc''⟩ | ⟨hid, hold'⟩
    · obtain ⟨rfl, hr, -⟩ := hpc' p' ph' hpc''
      exact hr hph'
    · exact absurd (honly id' p' ph' hold' hph') hid
  · rw [closes_congr hcloser] at hp'
    rcases hreg with hsame | hnone
    · exact h.taken id' p' hp' (hsame ▸ hreg')
    · rw [hnone] at hreg'
      cases hreg'
  · rw [hka]
    rcases hopens id' p' _ hp' with ⟨-, hpc''⟩ | ⟨-, hold'⟩
    · obtain ⟨rfl, -, hkeep⟩ := hpc' p' _ hpc''
      exact hkeep rfl
    · exact h.keepalive id' p' hold'
  · rcases hworker p' hp' with hrun | hsettled
    · rcases h.worker p' hrun with hsettled | hjoins
      · exact absurd hsettled (hunsettled p')
      · rw [joins_congr hcloser]
        exact .inr hjoins
    · exact .inl hsettled

theorem Control.publish {size : Nat} {keepalive : Bool} (h : Control s) (hborn : Born s)
    (hc : s.openerAt id = some (.enter size keepalive)) (hreg : s.registry = none)
    (hs : s' = { (s.setPool s.next (.fresh size keepalive)).setCall id (.opener (.lfo s.next 0)) with
      registry := some s.next
      next := s.next + 1 }) : Control s' := by
  obtain ⟨-, hopener, hcloser⟩ := openerAt_setCall s' hc (.lfo s.next 0) (by rw [hs]; rfl)
  have hreg' : s'.registry = some s.next := by rw [hs]
  have hpools : ∀ p, p ≠ s.next → s'.pools p = s.pools p := by
    intro p hp
    rw [hs]
    simp [State.setCall, State.setPool, hp]
  have hopens : ∀ id' p ph, s'.opens id' = some (p, ph) →
      (p = s.next ∧ ph = .connecting) ∨ s.opens id' = some (p, ph) := by
    intro id' p ph hp
    rw [opens_update hopener] at hp
    by_cases hid : id' = id
    · subst id'
      rw [Function.update_self] at hp
      cases hp
      exact .inl ⟨rfl, rfl⟩
    · rw [Function.update_of_ne hid] at hp
      exact .inr hp
  -- with an empty registry no other `PoolOpen` is in progress
  have hfinished : ∀ id' p ph, s.opens id' = some (p, ph) → ph = .opened := by
    intro id' p ph hp
    by_contra hph
    have := h.registered id' p ph hp hph
    rw [hreg] at this
    cases this
  refine ⟨?_, fun id' p ph hp hph => ?_, fun id' p hp => ?_, fun id' p hp => ?_, fun p hp => ?_⟩
  · rw [closes_congr hcloser]
    exact h.closer_unique
  · rcases hopens id' p ph hp with ⟨rfl, -⟩ | hold
    · exact hreg'
    · exact absurd (hfinished id' p ph hold) hph
  · rw [closes_congr hcloser] at hp
    rw [hreg', ne_eq, Option.some.injEq]
    exact (hborn.closer_lt id' p hp).ne'
  · rcases hopens id' p _ hp with ⟨-, hph⟩ | hold
    · cases hph
    · exact absurd (hfinished id' p _ hold) (by simp)
  · have hne : p ≠ s.next := by
      rintro rfl
      rw [hs] at hp
      simp [State.setCall, State.setPool, Pool.fresh] at hp
    rw [hpools p hne] at hp
    rcases h.worker p hp with ⟨hsettled, -⟩ | hjoins
    · rw [hreg] at hsettled
      cases hsettled
    · rw [joins_congr hcloser]
      exact .inr hjoins

theorem Control.opener {pc : OpenerPc} (h : Control s) (hq : Queued sdk s)
    (hc : s.openerAt id = some pc) (heffect : OpenerEffect s s' id pc) : Control s' := by
  cases heffect with
  | publish size keepalive hpc hreg hs =>
      subst hpc
      exact h.publish hq.born hc hreg hs
  | refuse size keepalive hpc hreg hs =>
      obtain ⟨-, hopener, hcloser⟩ := openerAt_setCall s' hc (.done .alreadyOpen) (by rw [hs]; rfl)
      have hopens : s'.opens = s.opens := by
        rw [opens_update hopener]
        refine Function.update_eq_self_iff.mpr ?_
        rw [opens_of_openerAt hc, hpc]
        rfl
      exact h.congr (by rw [hs]; rfl) hopens (closes_congr hcloser) (joins_congr hcloser)
        (fun p => by rw [hs]; rfl) (fun p hp => by rw [hs] at hp; exact hp)
  | connect p pc' hpc hpc' hreg hnext hcalls hpools _ =>
      obtain ⟨-, hopener, hcloser⟩ := openerAt_setCall s' hc pc' hcalls
      have hopens : s'.opens = s.opens := by
        rw [opens_update hopener]
        refine Function.update_eq_self_iff.mpr ?_
        rw [opens_of_openerAt hc, hpc, hpc']
      refine h.congr hreg hopens (closes_congr hcloser) (joins_congr hcloser) (fun p => ?_)
        (fun p hp => ?_)
      · obtain ⟨entries, hpool⟩ := hpools p
        rw [hpool]
      · obtain ⟨entries, hpool⟩ := hpools p
        rw [hpool] at hp
        exact hp
  | unregister p hpc hs =>
      subst hpc
      refine h.advance hq.born hc rfl (by simp) (.done .failed) (by rw [hs]; rfl) ?_
        (.inr (by rw [hs]; rfl)) (fun p => by rw [hs]; rfl) (fun p hp => ?_)
      · simp [OpenerPc.opens]
      · rw [hs] at hp
        exact .inl hp
  | seed p pc' hpc hpc' hs =>
      subst hpc
      have hreg := h.registered id p _ (opens_of_openerAt hc) (by simp)
      refine h.advance hq.born hc rfl (by simp) pc' (by rw [hs]; rfl) (fun p' ph hp' => ?_)
        (.inl (by rw [hs]; rfl)) (fun p' => ?_) (fun p' hp' => .inl ?_)
      · have hreg' : s'.registry = some p := by
          rw [hs]
          exact hreg
        rw [hpc'] at hp'
        split at hp'
        · next hka =>
            cases hp'
            exact ⟨rfl, fun _ => hreg', fun _ => hka⟩
        · cases hp'
          exact ⟨rfl, fun hph => absurd rfl hph, fun hph => by cases hph⟩
      · rw [hs]
        exact s.of_setPool (·.keepalive) (by rfl) p'
      · have hworker : (s'.pools p').worker = (s.pools p').worker := by
          rw [hs]
          exact s.of_setPool (·.worker) (by rfl) p'
        exact fun hnone => hp' (hworker.trans hnone)
  | startWorker p hpc hs =>
      subst hpc
      have hold : s.opens id = some (p, .seeded) := opens_of_openerAt hc
      have hreg := h.registered id p _ hold (by simp)
      obtain ⟨-, hopener, -⟩ := openerAt_setCall s' hc (.opened p) (by rw [hs]; rfl)
      have hsettled : s'.Settled p := by
        refine ⟨by rw [hs]; exact hreg, fun id' ph hp => ?_⟩
        rw [opens_update hopener] at hp
        by_cases hid : id' = id
        · subst id'
          rw [Function.update_self] at hp
          cases hp
          rfl
        · rw [Function.update_of_ne hid] at hp
          exact absurd (hq.born.opener_unique id' id p _ _ hp hold) hid
      refine h.advance hq.born hc rfl (by simp) (.opened p) (by rw [hs]; rfl) ?_
        (.inl (by rw [hs]; rfl)) (fun p' => ?_) (fun p' hp' => ?_)
      · intro p' ph hp'
        cases hp'
        exact ⟨rfl, fun hph => absurd rfl hph, fun hph => by cases hph⟩
      · rw [hs]
        exact s.of_setPool (·.keepalive) (by rfl) p'
      · by_cases hp : p' = p
        · exact .inr (hp ▸ hsettled)
        · rw [hs] at hp'
          exact .inl (by simpa [State.setCall, State.setPool, hp] using hp')

theorem Control.step {l : Label} (h : Control s) (hq : Queued sdk s) (hok : ClosesOpened s l)
    (hs : SdkPool.step sdk slot s l = some s') : Control s' := by
  cases step_of hs with
  | start id pc _ hnone hstart heq => exact heq ▸ h.start hnone hstart
  | caller id env pc hc hstep => exact h.caller (callerStep_frame hc hstep)
  | opener id env pc hc hstep => exact h.opener hq hc (openerStep_effect hstep)
  | closer id env pc hc hstep =>
      refine h.closer hq hc (fun hpc => hok ?_) hstep
      rw [closerAt_eq.mp hc, hpc]
  | worker p env w hw hstep => exact h.worker_step hw (workerStep_frame hw hstep)

theorem Initial.control (h : Initial slot s) : Control s := by
  obtain ⟨-, -, -, hcalls, hpools⟩ := h
  have hopens : ∀ id, s.opens id = none := fun id => by simp [State.opens, State.openerAt, hcalls]
  have hcloses : ∀ id, s.closes id = none := fun id => by
    simp [State.closes, State.closerAt, hcalls]
  exact ⟨by simp [hcloses], by simp [hopens], by simp [hcloses], by simp [hopens],
    fun p hp => absurd (by rw [hpools]; rfl) hp⟩

end Control

end BpClient.SdkPool
