import BpClient.SdkPool.Queue

/-!
The app_handles that a pool works with are the ones of its slot, entry by
entry.
-/

namespace BpClient.SdkPool

open BpClient.Lib
open BpClient.CPool (maxSize poolAppHandle)

/-- The entry that a `PoolOpen` is connecting. -/
def OpenerPc.connects : OpenerPc → Option (PoolId × Nat)
  | .lfo p i | .store p i | .record p i => some (p, i)
  | _ => none

structure Entries (slot : Nat) (s : State) : Prop where
  size_le : ∀ p, (s.pools p).size ≤ maxSize
  enter_size : ∀ id size keepalive, s.openerAt id = some (.enter size keepalive) →
    1 ≤ size ∧ size ≤ maxSize
  connects : ∀ id pc p i, s.openerAt id = some pc → pc.connects = some (p, i) →
    i < (s.pools p).size
  entry : ∀ p i e, (s.pools p).entries i = some e → e.appHandle = poolAppHandle slot i
  worker : ∀ p w i h, (s.pools p).worker = some w → w.handle = some (i, h) →
    h = poolAppHandle slot i
  caller : ∀ id p i h, s.callerAt id = some (.running p i h) → h = poolAppHandle slot i

theorem opens_of_connects {pc : OpenerPc} {p : PoolId} {i : Nat}
    (h : pc.connects = some (p, i)) : pc.opens = some (p, .connecting) := by
  cases pc <;> simp_all [OpenerPc.connects, OpenerPc.opens]

namespace Entries

variable {sdk : Sdk} {slot : Nat} {s s' : State} {id : CallId} {env : Env}

theorem start {pc : Pc} (h : Entries slot s) (hnone : s.calls id = none) (hstart : pc.Start) :
    Entries slot (s.setCall id pc) := by
  have hopener : ∀ id' pc', (s.setCall id pc).openerAt id' = some pc' →
      s.openerAt id' = some pc' ∨ (id' = id ∧ some pc' = pc.opener?) := by
    intro id' pc' hpc'
    rw [openerAt_update s (s.setCall id pc) rfl] at hpc'
    by_cases hid : id' = id
    · subst id'
      rw [Function.update_self] at hpc'
      exact .inr ⟨rfl, hpc'.symm⟩
    · rw [Function.update_of_ne hid] at hpc'
      exact .inl hpc'
  obtain ⟨-, -, hcaller, -⟩ := start_views hnone hstart
  refine ⟨h.size_le, fun id' size keepalive hpc' => ?_, fun id' pc' p i hpc' hi => ?_, h.entry,
    h.worker, fun id' p i h' hpc' => ?_⟩
  · rcases hopener id' _ hpc' with hold | ⟨-, hnew⟩
    · exact h.enter_size id' size keepalive hold
    · cases hstart with
      | poolOpen size' keepalive' hpos hle =>
          cases hnew
          exact ⟨hpos, hle⟩
      | poolTxRx | poolClose => cases hnew
  · rcases hopener id' _ hpc' with hold | ⟨-, hnew⟩
    · exact h.connects id' pc' p i hold hi
    · cases hstart with
      | poolOpen size' keepalive' hpos hle =>
          cases hnew
          cases hi
      | poolTxRx | poolClose => cases hnew
  · rcases hcaller id' _ hpc' with hold | hnew
    · exact h.caller id' p i h' hold
    · cases hnew

theorem caller_step {pc : CallerPc} (h : Entries slot s) (hf : CallerFrame sdk s s' id pc) :
    Entries slot s' := by
  have hcore : ∀ p, (s'.pools p).size = (s.pools p).size ∧
      (s'.pools p).entries = (s.pools p).entries ∧ (s'.pools p).worker = (s.pools p).worker := by
    intro p
    obtain ⟨free, inflight, hcore⟩ := hf.core p
    simp [hcore]
  refine ⟨fun p => ?_, ?_, fun id' pc' p i hpc' hi => ?_, fun p i e he => ?_,
    fun p w i h' hw hh => ?_, fun id' p i h' hpc' => ?_⟩
  · rw [(hcore p).1]
    exact h.size_le p
  · rw [hf.opener]
    exact h.enter_size
  · rw [hf.opener] at hpc'
    rw [(hcore p).1]
    exact h.connects id' pc' p i hpc' hi
  · rw [(hcore p).2.1] at he
    exact h.entry p i e he
  · rw [(hcore p).2.2] at hw
    exact h.worker p w i h' hw hh
  · obtain ⟨pc'', hcaller, hgo⟩ := hf.caller
    rw [hcaller] at hpc'
    by_cases hid : id' = id
    · subst id'
      rw [Function.update_self, Option.some.injEq] at hpc'
      obtain ⟨e, he, rfl⟩ := hgo.running p i h' hpc'
      exact h.entry p i e he
    · rw [Function.update_of_ne hid] at hpc'
      exact h.caller id' p i h' hpc'

theorem worker_step {p : PoolId} {w : WorkerPc} (h : Entries slot s)
    (hw : (s.pools p).worker = some w) (hf : WorkerFrame sdk s s' p w) : Entries slot s' := by
  have hopener : s'.openerAt = s.openerAt := by
    funext id
    simp only [State.openerAt, hf.calls]
  obtain ⟨free, entries, worker, hcore⟩ := hf.core
  have hsize : ∀ p', (s'.pools p').size = (s.pools p').size := by
    intro p'
    by_cases hp : p' = p
    · rw [hp, hcore]
    · rw [hf.pools p' hp]
  refine ⟨fun p' => ?_, ?_, fun id' pc' p' i hpc' hi => ?_, fun p' i e he => ?_,
    fun p' w' i h' hw' hh => ?_, ?_⟩
  · rw [hsize]
    exact h.size_le p'
  · rw [hopener]
    exact h.enter_size
  · rw [hopener] at hpc'
    rw [hsize]
    exact h.connects id' pc' p' i hpc' hi
  · by_cases hp : p' = p
    · subst p'
      have hhandle := hf.handles i
      rw [he, Option.map_some] at hhandle
      obtain ⟨e', he', heq⟩ := Option.map_eq_some_iff.mp hhandle.symm
      exact heq ▸ h.entry p i e' he'
    · rw [hf.pools p' hp] at he
      exact h.entry p' i e he
  · by_cases hp : p' = p
    · subst p'
      rcases hf.handle w' (i, h') hw' hh with hold | ⟨e, he, rfl⟩
      · exact h.worker p w i h' hw hold
      · exact h.entry p i e he
    · rw [hf.pools p' hp] at hw'
      exact h.worker p' w' i h' hw' hh
  · rw [hf.callerAt]
    exact h.caller

theorem closer_step {pc : CloserPc} (h : Entries slot s) (hf : CloserFrame sdk s s' id pc) :
    Entries slot s' := by
  have hcore : ∀ p, (s'.pools p).size = (s.pools p).size ∧
      (s'.pools p).entries = (s.pools p).entries ∧ (s'.pools p).worker = (s.pools p).worker := by
    intro p
    obtain ⟨initialized, stop, hcore, -⟩ := hf.pools p
    simp [hcore]
  refine ⟨fun p => ?_, ?_, fun id' pc' p i hpc' hi => ?_, fun p i e he => ?_,
    fun p w i h' hw hh => ?_, ?_⟩
  · rw [(hcore p).1]
    exact h.size_le p
  · rw [hf.opener]
    exact h.enter_size
  · rw [hf.opener] at hpc'
    rw [(hcore p).1]
    exact h.connects id' pc' p i hpc' hi
  · rw [(hcore p).2.1] at he
    exact h.entry p i e he
  · rw [(hcore p).2.2] at hw
    exact h.worker p w i h' hw hh
  · rw [hf.caller]
    exact h.caller

theorem opener_of {pc : OpenerPc} (h : Entries slot s) (hborn : Born s)
    (hc : s.openerAt id = some pc) (pc' : OpenerPc)
    (hcalls : s'.calls = Function.update s.calls id (some (.opener pc')))
    (henter : ∀ size keepalive, pc' ≠ .enter size keepalive)
    (hconn : ∀ p i, pc'.connects = some (p, i) → i < (s'.pools p).size)
    (hsize : ∀ p, p < s.next → (s'.pools p).size = (s.pools p).size)
    (hsize_le : ∀ p, (s'.pools p).size ≤ maxSize)
    (hentry : ∀ p i e, (s'.pools p).entries i = some e →
      (s.pools p).entries i = some e ∨ e.appHandle = poolAppHandle slot i)
    (hworker : ∀ p w, (s'.pools p).worker = some w → (s.pools p).worker = some w ∨ w = .wait) :
    Entries slot s' := by
  obtain ⟨hcaller, hopener, -⟩ := openerAt_setCall s' hc pc' hcalls
  refine ⟨hsize_le, fun id' size keepalive hpc' => ?_, fun id' pc'' p i hpc'' hi => ?_,
    fun p i e he => ?_, fun p w i h' hw hh => ?_, ?_⟩
  · rw [hopener] at hpc'
    by_cases hid : id' = id
    · subst id'
      rw [Function.update_self, Option.some.injEq] at hpc'
      exact absurd hpc' (henter size keepalive)
    · rw [Function.update_of_ne hid] at hpc'
      exact h.enter_size id' size keepalive hpc'
  · rw [hopener] at hpc''
    by_cases hid : id' = id
    · subst id'
      rw [Function.update_self, Option.some.injEq] at hpc''
      subst hpc''
      exact hconn p i hi
    · rw [Function.update_of_ne hid] at hpc''
      have hlt := hborn.opener_lt id' p _ ((opens_of_openerAt hpc'').trans (opens_of_connects hi))
      rw [hsize p hlt]
      exact h.connects id' pc'' p i hpc'' hi
  · rcases hentry p i e he with hold | hnew
    · exact h.entry p i e hold
    · exact hnew
  · rcases hworker p w hw with hold | rfl
    · exact h.worker p w i h' hold hh
    · cases hh
  · rw [hcaller]
    exact h.caller

/-- A step of `PoolOpen` that leaves the pools alone. -/
theorem opener_goto {pc : OpenerPc} {table : Handle → Bool} {registry : Option PoolId}
    (h : Entries slot s) (hborn : Born s) (hc : s.openerAt id = some pc) (pc' : OpenerPc)
    (henter : ∀ size keepalive, pc' ≠ .enter size keepalive)
    (hconn : ∀ p i, pc'.connects = some (p, i) → i < (s.pools p).size) :
    Entries slot ({ s with table := table, registry := registry }.setCall id (.opener pc')) :=
  h.opener_of hborn hc pc' rfl henter hconn (fun _ _ => rfl) h.size_le (fun _ _ _ he => .inl he)
    (fun _ _ hw => .inl hw)

/-- A step of `PoolOpen` connects entries of its own pool only. -/
theorem opener_step {pc : OpenerPc} (h : Entries slot s) (hborn : Born s)
    (hc : s.openerAt id = some pc) (hs : openerStep slot s id env pc = some s') :
    Entries slot s' := by
  cases pc with
  | enter size keepalive =>
      obtain ⟨hpos, hle⟩ := h.enter_size id size keepalive hc
      simp only [openerStep, Option.some.injEq] at hs
      subst hs
      cases hreg : s.registry with
      | some p => exact h.opener_goto hborn hc (.done .alreadyOpen) (by simp) (by simp [OpenerPc.connects])
      | none =>
          refine h.opener_of hborn hc (.lfo s.next 0) rfl (by simp) ?_ (fun p hp => ?_) (fun p => ?_)
            (fun p i e he => ?_) (fun p w hw => ?_)
          · rintro p i hi
            cases hi
            simpa [State.setCall, State.setPool, Pool.fresh] using Nat.lt_of_succ_le hpos
          · simp [State.setCall, State.setPool, hp.ne]
          · by_cases hp : p = s.next
            · subst p
              simpa [State.setCall, State.setPool, Pool.fresh] using hle
            · simpa [State.setCall, State.setPool, hp] using h.size_le p
          · by_cases hp : p = s.next
            · subst p
              simp [State.setCall, State.setPool, Pool.fresh] at he
            · exact .inl (by simpa [State.setCall, State.setPool, hp] using he)
          · by_cases hp : p = s.next
            · subst p
              simp [State.setCall, State.setPool, Pool.fresh] at hw
            · exact .inl (by simpa [State.setCall, State.setPool, hp] using hw)
  | lfo p i =>
      have hi := h.connects id _ p i hc rfl
      simp only [openerStep, Option.some.injEq] at hs
      subst hs
      refine h.opener_goto hborn hc _ ?_ ?_
      · split <;> simp
      · split
        · rintro p' i' heq
          cases heq
          exact hi
        · simp [OpenerPc.connects]
  | store p i =>
      have hi := h.connects id _ p i hc rfl
      simp only [openerStep, Option.some.injEq] at hs
      subst hs
      split
      · exact h.opener_goto hborn hc (.rollback p (List.range i)) (by simp)
          (by simp [OpenerPc.connects])
      · refine h.opener_goto hborn hc (.record p i) (by simp) ?_
        rintro p' i' heq
        cases heq
        exact hi
  | record p i =>
      simp only [openerStep, Option.some.injEq] at hs
      subst hs
      have hsize : ∀ p' entries,
          ((s.setPool p { s.pools p with entries := entries }).pools p').size = (s.pools p').size :=
        fun p' entries => s.of_setPool (·.size) (by rfl) p'
      refine h.opener_of hborn hc _ rfl ?_ ?_ (fun p' _ => hsize p' _)
        (fun p' => (hsize p' _).trans_le (h.size_le p')) (fun p' i' e he => ?_) (fun p' w hw => ?_)
      · split <;> simp
      · split
        · next hlt =>
            rintro p' i' heq
            cases heq
            exact (hsize p _).symm ▸ hlt
        · simp [OpenerPc.connects]
      · by_cases hp : p' = p
        · subst p'
          by_cases hi : i' = i
          · subst i'
            simp only [State.setCall, State.setPool, Function.update_self, Option.some.injEq] at he
            exact .inr (by rw [← he])
          · exact .inl (by simpa [State.setCall, State.setPool, hi] using he)
        · exact .inl (by simpa [State.setCall, State.setPool, hp] using he)
      · exact .inl ((s.of_setPool (·.worker) (by rfl) p').symm.trans hw)
  | rollback p rest =>
      cases rest with
      | nil =>
          simp only [openerStep, Option.some.injEq] at hs
          subst hs
          exact h.opener_goto hborn hc (.unregister p) (by simp) (by simp [OpenerPc.connects])
      | cons i rest =>
          simp only [openerStep, Option.map_eq_some_iff] at hs
          obtain ⟨e, -, rfl⟩ := hs
          exact h.opener_goto hborn hc (.rollback p rest) (by simp) (by simp [OpenerPc.connects])
  | unregister p =>
      simp only [openerStep, Option.some.injEq] at hs
      subst hs
      exact h.opener_goto hborn hc (.done .failed) (by simp) (by simp [OpenerPc.connects])
  | seed p =>
      simp only [openerStep, Option.some.injEq] at hs
      subst hs
      refine h.opener_of hborn hc _ rfl ?_ ?_ (fun p' _ => ?_) (fun p' => ?_) (fun p' i e he => ?_)
        (fun p' w hw => ?_)
      · split <;> simp
      · split <;> simp [OpenerPc.connects]
      · exact s.of_setPool (·.size) (by rfl) p'
      · exact (s.of_setPool (·.size) (by rfl) p').trans_le (h.size_le p')
      · exact .inl ((congrFun (s.of_setPool (·.entries) (by rfl) p') i).symm.trans he)
      · exact .inl ((s.of_setPool (·.worker) (by rfl) p').symm.trans hw)
  | startWorker p =>
      simp only [openerStep, Option.some.injEq] at hs
      subst hs
      refine h.opener_of hborn hc (.opened p) rfl (by simp) (by simp [OpenerPc.connects])
        (fun p' _ => ?_) (fun p' => ?_) (fun p' i e he => ?_) (fun p' w hw => ?_)
      · exact s.of_setPool (·.size) (by rfl) p'
      · exact (s.of_setPool (·.size) (by rfl) p').trans_le (h.size_le p')
      · exact .inl ((congrFun (s.of_setPool (·.entries) (by rfl) p') i).symm.trans he)
      · by_cases hp : p' = p
        · subst p'
          simp only [State.setCall, State.setPool, Function.update_self, Option.some.injEq] at hw
          exact .inr hw.symm
        · exact .inl (by simpa [State.setCall, State.setPool, hp] using hw)
  | opened p => cases hs
  | done r => cases hs

theorem step {l : Label} (h : Entries slot s) (hborn : Born s)
    (hs : SdkPool.step sdk slot s l = some s') : Entries slot s' := by
  cases step_of hs with
  | start id pc _ hnone hstart heq => exact heq ▸ h.start hnone hstart
  | caller id env pc hc hstep => exact h.caller_step (callerStep_frame hc hstep)
  | opener id env pc hc hstep => exact h.opener_step hborn hc hstep
  | closer id env pc hc hstep => exact h.closer_step (closerStep_frame hc hstep)
  | worker p env w hw hstep => exact h.worker_step hw (workerStep_frame hw hstep)

end Entries

theorem Initial.entries {slot : Nat} {s : State} (h : Initial slot s) : Entries slot s := by
  obtain ⟨-, -, -, hcalls, hpools⟩ := h
  have hcaller : ∀ id, s.callerAt id = none := fun id => by simp [State.callerAt, hcalls]
  have hopener : ∀ id, s.openerAt id = none := fun id => by simp [State.openerAt, hcalls]
  exact ⟨fun p => by simp [hpools, Pool.fresh], by simp [hopener], by simp [hopener],
    by simp [hpools, Pool.fresh], by simp [hpools, Pool.fresh], by simp [hcaller]⟩

end BpClient.SdkPool
