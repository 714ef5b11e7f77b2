import BpClient.SdkPool.Steps

/-!
Which pools exist, and which calls of `PoolOpen` and `PoolClose` have to do with
them.
-/

namespace BpClient.SdkPool

open BpClient.Lib
open BpClient.CPool (maxSize poolAppHandle)

/-- Only pools that exist are mentioned, and each has one `PoolOpen`. -/
structure Born (s : State) : Prop where
  caller_lt : ∀ id pc p, s.callerAt id = some pc → pc.pool = some p → p < s.next
  opener_lt : ∀ id p ph, s.opens id = some (p, ph) → p < s.next
  closer_lt : ∀ id p, s.closes id = some p → p < s.next
  registry_lt : ∀ p, s.registry = some p → p < s.next
  opener_unique : ∀ id id' p ph ph', s.opens id = some (p, ph) → s.opens id' = some (p, ph') →
    id = id'

theorem opens_congr {s s' : State} (h : s'.openerAt = s.openerAt) : s'.opens = s.opens := by
  funext id
  simp [State.opens, h]

theorem closes_congr {s s' : State} (h : s'.closerAt = s.closerAt) : s'.closes = s.closes := by
  funext id
  simp [State.closes, h]

theorem opens_update {s s' : State} {id : CallId} {pc : OpenerPc}
    (h : s'.openerAt = Function.update s.openerAt id (some pc)) :
    s'.opens = Function.update s.opens id pc.opens := by
  funext id'
  by_cases hid : id' = id
  · subst id'
    simp [State.opens, h]
  · simp [State.opens, h, hid]

theorem closes_update {s s' : State} {id : CallId} {pc : CloserPc}
    (h : s'.closerAt = Function.update s.closerAt id (some pc)) :
    s'.closes = Function.update s.closes id pc.pool := by
  funext id'
  by_cases hid : id' = id
  · subst id'
    simp [State.closes, h]
  · simp [State.closes, h, hid]

theorem opens_of_openerAt {s : State} {id : CallId} {pc : OpenerPc} (h : s.openerAt id = some pc) :
    s.opens id = pc.opens := by
  simp [State.opens, h]

theorem closes_of_closerAt {s : State} {id : CallId} {pc : CloserPc}
    (h : s.closerAt id = some pc) : s.closes id = pc.pool := by
  simp [State.closes, h]

/-- A view of the openers that does not see the ones that have just begun. -/
theorem start_opener {s : State} {id : CallId} {pc : Pc} {α : Type} (hnone : s.calls id = none)
    (hstart : pc.Start) (f : OpenerPc → Option α) (hf : ∀ size ka, f (.enter size ka) = none)
    (id' : CallId) : ((s.setCall id pc).openerAt id').bind f = (s.openerAt id').bind f := by
  rw [openerAt_update s (s.setCall id pc) rfl]
  by_cases hid : id' = id
  · subst id'
    rw [Function.update_self, State.openerAt, hnone]
    cases hstart with
    | poolOpen size ka => exact hf size ka
    | poolTxRx | poolClose => rfl
  · rw [Function.update_of_ne hid]

theorem start_closer {s : State} {id : CallId} {pc : Pc} {α : Type} (hnone : s.calls id = none)
    (hstart : pc.Start) (f : CloserPc → Option α) (hf : f .enter = none) (id' : CallId) :
    ((s.setCall id pc).closerAt id').bind f = (s.closerAt id').bind f := by
  rw [closerAt_update s (s.setCall id pc) rfl]
  by_cases hid : id' = id
  · subst id'
    rw [Function.update_self, State.closerAt, hnone]
    cases hstart with
    | poolClose => exact hf
    | poolTxRx | poolOpen => rfl
  · rw [Function.update_of_ne hid]

theorem start_caller {s : State} {id : CallId} {pc : Pc} {α : Type} (hnone : s.calls id = none)
    (hstart : pc.Start) (f : CallerPc → Option α) (hf : f .enter = none) (id' : CallId) :
    ((s.setCall id pc).callerAt id').bind f = (s.callerAt id').bind f := by
  rw [callerAt_update s (s.setCall id pc) rfl]
  by_cases hid : id' = id
  · subst id'
    rw [Function.update_self, State.callerAt, hnone]
    cases hstart with
    | poolTxRx => exact hf
    | poolClose | poolOpen => rfl
  · rw [Function.update_of_ne hid]

/-- The views after a call has begun. -/
theorem start_views {s : State} {id : CallId} {pc : Pc} (hnone : s.calls id = none)
    (hstart : pc.Start) :
    (s.setCall id pc).opens = s.opens ∧ (s.setCall id pc).closes = s.closes ∧
      (∀ id' pc', (s.setCall id pc).callerAt id' = some pc' →
        s.callerAt id' = some pc' ∨ pc' = .enter) ∧
      ∀ p, (s.setCall id pc).lease p = s.lease p := by
  refine ⟨funext (start_opener hnone hstart _ fun _ _ => rfl),
    funext (start_closer hnone hstart _ rfl), fun id' pc' hpc' => ?_, fun p => ?_⟩
  · rw [callerAt_update s (s.setCall id pc) rfl] at hpc'
    by_cases hid : id' = id
    · subst id'
      rw [Function.update_self] at hpc'
      cases hstart with
      | poolTxRx => exact .inr (Option.some.inj hpc').symm
      | poolOpen | poolClose => cases hpc'
    · rw [Function.update_of_ne hid] at hpc'
      exact .inl hpc'
  · refine FreeList.ext rfl (funext fun x => ?_)
    cases x with
    | none => rfl
    | some id' => exact start_caller hnone hstart (CallerPc.heldIn p) rfl id'

namespace Born

variable {sdk : Sdk} {slot : Nat} {s s' : State} {id : CallId}

theorem start {pc : Pc} (h : Born s) (hnone : s.calls id = none) (hstart : pc.Start) :
    Born (s.setCall id pc) := by
  obtain ⟨hopens, hcloses, hcaller, -⟩ := start_views hnone hstart
  refine ⟨fun id' pc' p hpc' hp => ?_, ?_, ?_, h.registry_lt, ?_⟩
  · rcases hcaller id' pc' hpc' with hold | rfl
    · exact h.caller_lt id' pc' p hold hp
    · cases hp
  · rw [hopens]
    exact h.opener_lt
  · rw [hcloses]
    exact h.closer_lt
  · rw [hopens]
    exact h.opener_unique

theorem caller {pc : CallerPc} (h : Born s) (hc : s.callerAt id = some pc)
    (hf : CallerFrame sdk s s' id pc) : Born s' := by
  obtain ⟨pc', hcaller, hmove⟩ := hf.caller
  refine ⟨fun id' pc'' p hpc'' hp => ?_, ?_, ?_, ?_, ?_⟩
  · rw [hf.next]
    rw [hcaller] at hpc''
    by_cases hid : id' = id
    · subst id'
      rw [Function.update_self, Option.some.injEq] at hpc''
      subst hpc''
      rcases hmove.pool p hp with hold | hreg
      · exact h.caller_lt _ _ p hc hold
      · exact h.registry_lt p hreg
    · rw [Function.update_of_ne hid] at hpc''
      exact h.caller_lt id' pc'' p hpc'' hp
  · rw [opens_congr hf.opener, hf.next]
    exact h.opener_lt
  · rw [closes_congr hf.closer, hf.next]
    exact h.closer_lt
  · rw [hf.registry, hf.next]
    exact h.registry_lt
  · rw [opens_congr hf.opener]
    exact h.opener_unique

theorem worker {p : PoolId} {w : WorkerPc} (h : Born s) (hf : WorkerFrame sdk s s' p w) : Born s' := by
  have hcaller : s'.callerAt = s.callerAt := by
    funext id
    simp only [State.callerAt, hf.calls]
  have hopener : s'.openerAt = s.openerAt := by
    funext id
    simp only [State.openerAt, hf.calls]
  have hcloser : s'.closerAt = s.closerAt := by
    funext id
    simp only [State.closerAt, hf.calls]
  refine ⟨?_, ?_, ?_, ?_, ?_⟩
  · rw [hcaller, hf.next]
    exact h.caller_lt
  · rw [opens_congr hopener, hf.next]
    exact h.opener_lt
  · rw [closes_congr hcloser, hf.next]
    exact h.closer_lt
  · rw [hf.registry, hf.next]
    exact h.registry_lt
  · rw [opens_congr hopener]
    exact h.opener_unique

theorem closer {pc : CloserPc} (h : Born s) (hc : s.closerAt id = some pc)
    (hf : CloserFrame sdk s s' id pc) : Born s' := by
  obtain ⟨pc', hcloser, hpool⟩ := hf.closer
  refine ⟨?_, ?_, fun id' p hp => ?_, fun p hp => ?_, ?_⟩
  · rw [hf.caller, hf.next]
    exact h.caller_lt
  · rw [opens_congr hf.opener, hf.next]
    exact h.opener_lt
  · rw [hf.next]
    rw [closes_update hcloser] at hp
    by_cases hid : id' = id
    · subst id'
      rw [Function.update_self] at hp
      rcases hpool p hp with hold | hreg
      · exact h.closer_lt _ p ((closes_of_closerAt hc).trans hold)
      · exact h.registry_lt p hreg
    · rw [Function.update_of_ne hid] at hp
      exact h.closer_lt id' p hp
  · rw [hf.next]
    rcases hf.registry with hsame | ⟨-, hnone⟩
    · exact h.registry_lt p (hsame ▸ hp)
    · rw [hnone] at hp
      cases hp
  · rw [opens_congr hf.opener]
    exact h.opener_unique

/-- A step of `PoolOpen` that keeps its pool, or lets go of it. -/
theorem opener_of_same {pc : OpenerPc} (h : Born s) (hc : s.openerAt id = some pc)
    (pc' : OpenerPc) (hnext : s'.next = s.next) (hreg : s'.registry = s.registry ∨ s'.registry = none)
    (hcalls : s'.calls = Function.update s.calls id (some (.opener pc')))
    (hpool : ∀ p ph, pc'.opens = some (p, ph) → ∃ ph', pc.opens = some (p, ph')) : Born s' := by
  obtain ⟨hcaller, hopener, hcloser⟩ := openerAt_setCall s' hc pc' hcalls
  have hopens : ∀ id' p ph, s'.opens id' = some (p, ph) → ∃ ph', s.opens id' = some (p, ph') := by
    intro id' p ph hp
    rw [opens_update hopener] at hp
    by_cases hid : id' = id
    · subst id'
      rw [Function.update_self] at hp
      obtain ⟨ph', hph'⟩ := hpool p ph hp
      exact ⟨ph', (opens_of_openerAt hc).trans hph'⟩
    · rw [Function.update_of_ne hid] at hp
      exact ⟨ph, hp⟩
  refine ⟨?_, fun id' p ph hp => ?_, ?_, fun p hp => ?_, fun id' id'' p ph ph' hp hp' => ?_⟩
  · rw [hcaller, hnext]
    exact h.caller_lt
  · obtain ⟨ph', hph'⟩ := hopens id' p ph hp
    exact hnext ▸ h.opener_lt id' p ph' hph'
  · rw [closes_congr hcloser, hnext]
    exact h.closer_lt
  · rw [hnext]
    rcases hreg with hsame | hnone
    · exact h.registry_lt p (hsame ▸ hp)
    · rw [hnone] at hp
      cases hp
  · obtain ⟨ph₁, hph₁⟩ := hopens id' p ph hp
    obtain ⟨ph₂, hph₂⟩ := hopens id'' p ph' hp'
    exact h.opener_unique id' id'' p ph₁ ph₂ hph₁ hph₂

/-- Only a `PoolOpen` makes a pool, and it is the pool's own. -/
theorem opener {pc : OpenerPc} (h : Born s) (hc : s.openerAt id = some pc)
    (heffect : OpenerEffect s s' id pc) : Born s' := by
  cases heffect with
  | publish size keepalive hpc hreg hs =>
      obtain ⟨hcaller, hopener, hcloser⟩ := openerAt_setCall s' hc (.lfo s.next 0) (by rw [hs]; rfl)
      have hnext : s'.next = s.next + 1 := by rw [hs]
      have hle : ∀ p, p < s.next → p < s'.next := fun p hp => hnext ▸ Nat.lt_succ_of_lt hp
      have hopens : ∀ id' p ph, s'.opens id' = some (p, ph) →
          (id' = id ∧ p = s.next) ∨ (p < s.next ∧ s.opens id' = some (p, ph)) := by
        intro id' p ph hp
        rw [opens_update hopener] at hp
        by_cases hid : id' = id
        · subst id'
          rw [Function.update_self] at hp
          cases hp
          exact .inl ⟨rfl, rfl⟩
        · rw [Function.update_of_ne hid] at hp
          exact .inr ⟨h.opener_lt id' p ph hp, hp⟩
      refine ⟨fun id' pc' p hpc' hp => ?_, fun id' p ph hp => ?_, fun id' p hp => ?_, fun p hp => ?_,
        fun id' id'' p ph ph' hp hp' => ?_⟩
      · exact hle p (h.caller_lt id' pc' p (hcaller ▸ hpc') hp)
      · rcases hopens id' p ph hp with ⟨-, rfl⟩ | ⟨hlt, -⟩
        · exact hnext ▸ Nat.lt_succ_self s.next
        · exact hle p hlt
      · exact hle p (h.closer_lt id' p (closes_congr hcloser ▸ hp))
      · rw [hs, Option.some.injEq] at hp
        exact hp ▸ hnext ▸ Nat.lt_succ_self s.next
      · rcases hopens id' p ph hp with ⟨rfl, hpnext⟩ | ⟨hlt, hold⟩ <;>
          rcases hopens id'' p ph' hp' with ⟨rfl, hpnext'⟩ | ⟨hlt', hold'⟩
        · rfl
        · exact absurd (hpnext ▸ hlt') (Nat.lt_irrefl s.next)
        · exact absurd (hpnext' ▸ hlt) (Nat.lt_irrefl s.next)
        · exact h.opener_unique id' id'' p ph ph' hold hold'
  | refuse size keepalive hpc hreg hs =>
      exact h.opener_of_same hc (.done .alreadyOpen) (by rw [hs]; rfl) (.inl (by rw [hs]; rfl))
        (by rw [hs]; rfl) (fun p ph hp => by cases hp)
  | connect p pc' hpc hpc' hreg hnext hcalls _ _ =>
      refine h.opener_of_same hc pc' hnext (.inl hreg) hcalls fun p' ph hp' => ⟨.connecting, ?_⟩
      cases hpc'.symm.trans hp'
      exact hpc
  | unregister p hpc hs =>
      exact h.opener_of_same hc (.done .failed) (by rw [hs]; rfl) (.inr (by rw [hs]; rfl))
        (by rw [hs]; rfl) (fun p ph hp => by cases hp)
  | seed p pc' hpc hpc' hs =>
      refine h.opener_of_same hc pc' (by rw [hs]; rfl) (.inl (by rw [hs]; rfl))
        (by rw [hs]; rfl) fun p' ph hp' => ⟨.connecting, ?_⟩
      rw [hpc'] at hp'
      rw [hpc]
      split at hp' <;> cases hp' <;> rfl
  | startWorker p hpc hs =>
      refine h.opener_of_same hc (.opened p) (by rw [hs]; rfl) (.inl (by rw [hs]; rfl))
        (by rw [hs]; rfl) fun p' ph hp' => ⟨.seeded, ?_⟩
      cases hp'
      rw [hpc]
      rfl

theorem step {l : Label} (h : Born s) (hs : SdkPool.step sdk slot s l = some s') : Born s' := by
  cases step_of hs with
  | start id pc _ hnone hstart heq => exact heq ▸ h.start hnone hstart
  | caller id env pc hc hstep => exact h.caller hc (callerStep_frame hc hstep)
  | opener id env pc hc hstep => exact h.opener hc (openerStep_effect hstep)
  | closer id env pc hc hstep => exact h.closer hc (closerStep_frame hc hstep)
  | worker p env w hw hstep => exact h.worker (workerStep_frame hw hstep)

end Born

def fresh : State where
  pools := fun _ => .fresh 0 false
  next := 0
  registry := none
  table := fun _ => false
  calls := fun _ => none

theorem fresh_initial (slot : Nat) : Initial slot fresh :=
  ⟨rfl, rfl, fun _ _ => rfl, fun _ => rfl, fun _ => rfl⟩

/-- Steps of one call without any trouble. -/
def runs (id : CallId) (n : Nat) : List Label := List.replicate n (.run id {})

def opensTwo (id : CallId) (keepalive : Bool) : List Label :=
  .poolOpen id 2 keepalive :: runs id (if keepalive then 9 else 8)

end BpClient.SdkPool
