import BpClient.SdkPool.Custody

/-!
What is left of the pools of a slot when no `PoolOpen` and no `PoolClose` is in
progress and no pool is registered: nothing, as long as `PoolClose` takes no
pool whose `PoolOpen` is still in progress.
-/

namespace BpClient.SdkPool

open BpClient.Lib
open BpClient.CPool (maxSize poolAppHandle)

/-- A `PoolOpen` or `PoolClose` that has not returned. -/
def Pc.busy : Pc → Bool
  | .caller _ | .opener (.opened _) | .opener (.done _) | .closer .done => false
  | .opener _ | .closer _ => true

def State.Idle (s : State) : Prop := ∀ id pc, s.calls id = some pc → pc.busy = false

/-- An idle slot without a pool has no connection and no worker left, and a
failing `PoolOpen` unregisters no other pool than its own. -/
structure NoOrphan (slot : Nat) (s : State) : Prop where
  table : s.Idle → s.registry = none → ∀ i < maxSize, s.table (poolAppHandle slot i) = false
  worker : s.Idle → s.registry = none → ∀ p, (s.pools p).worker = none
  unregister : ∀ id p p', s.calls id = some (.opener (.unregister p)) → s.registry = some p' → p' = p

/-- Every connection in the table is somebody's to close. -/
def Covered (slot : Nat) (s : State) : Prop :=
  ∀ i < maxSize, s.table (poolAppHandle slot i) = true → ∃ p, s.Kept p i

section Covered

variable {sdk : Sdk} {slot : Nat} {s s' : State}

theorem Covered.custody (h : Covered slot s) (hc : Custody slot s s') : Covered slot s' := by
  intro i hi ht
  rcases hc.table i hi ht with hold | hkept
  · obtain ⟨p, hk⟩ := h i hi hold
    rcases hc.dropped p i hk with hkept | hfalse
    · exact ⟨p, hkept⟩
    · rw [hfalse] at ht
      cases ht
  · exact hkept

theorem covered_of_reaches {ok : State → Label → Prop} (hok : ∀ s l, ok s l → ClosesOpened s l)
    (h : (pools sdk slot).Reaches ok s) : Covered slot s := by
  refine h.invariant_of (fun _ hr => inCharge_of_reaches hok hr) (Covered slot) ?_ ?_
  · intro s hinit i hi ht
    rw [hinit.2.2.1 i hi] at ht
    cases ht
  · intro s l s' hinv hcov hsl hs
    exact hcov.custody
      (custody_step hinv.control hinv.queued hinv.entries hinv.recorded (hok s l hsl) hs)

/-- An idle call neither opens nor closes a pool. -/
theorem State.Idle.opens (h : s.Idle) {id : CallId} {p : PoolId} {ph : OpenPhase}
    (hopens : s.opens id = some (p, ph)) : ph = .opened := by
  obtain ⟨pc, hpc, hph⟩ := Option.bind_eq_some_iff.mp hopens
  have hidle := h id _ (openerAt_eq.mp hpc)
  cases pc <;> simp_all [Pc.busy, OpenerPc.opens]

theorem State.Idle.closes (h : s.Idle) (id : CallId) : s.closes id = none := by
  cases hpc : s.closerAt id with
  | none => simp [State.closes, hpc]
  | some pc =>
      have hidle := h id _ (closerAt_eq.mp hpc)
      rw [closes_of_closerAt hpc]
      cases pc <;> simp_all [Pc.busy, CloserPc.pool]

theorem State.Idle.not_kept (h : s.Idle) (hreg : s.registry = none) (p : PoolId) (i : Nat) :
    ¬ s.Kept p i := by
  rintro (⟨⟨hreg', -⟩, -⟩ | ⟨id, hby⟩)
  · rw [hreg] at hreg'
    cases hreg'
  · rcases hby.mentions with ⟨ph, hopens, hph⟩ | hcloses
    · exact hph (h.opens hopens)
    · rw [h.closes id] at hcloses
      cases hcloses

end Covered

/-- The call that a step belongs to. -/
def Label.call : Label → Option CallId
  | .poolTxRx id | .poolOpen id _ _ | .poolClose id | .run id _ => some id
  | .work _ _ => none

/-- The calls of a run are below `k`. -/
def Label.below (k : Nat) (l : Label) : Bool := l.call.all (decide <| · < k)

theorem calls_eq_none_iff {s : State} {id : CallId} :
    s.calls id = none ↔ s.callerAt id = none ∧ s.openerAt id = none ∧ s.closerAt id = none := by
  cases h : s.calls id with
  | none => simp [State.callerAt, State.openerAt, State.closerAt, h]
  | some pc => cases pc <;>
      simp [State.callerAt, State.openerAt, State.closerAt, h, Pc.caller?, Pc.opener?, Pc.closer?]

/-- A call that has not begun is begun by a step of its own. -/
theorem calls_none_of_step {sdk : Sdk} {slot : Nat} {s s' : State} {l : Label} {id : CallId}
    (hs : step sdk slot s l = some s') (hid : l.call ≠ some id) (hnone : s.calls id = none) :
    s'.calls id = none := by
  have start : ∀ id' pc, l.call = some id' → startCall s id' pc = some s' → s'.calls id = none := by
    intro id' pc hl hstart
    have hne : id ≠ id' := fun heq => hid (heq ▸ hl)
    rw [(startCall_eq hstart).2]
    exact (Function.update_of_ne hne _ s.calls).trans hnone
  cases l with
  | poolTxRx id' => exact start id' _ rfl hs
  | poolOpen id' size keepalive =>
      simp only [step] at hs
      split at hs <;> try cases hs
      exact start id' _ rfl hs
  | poolClose id' => exact start id' _ rfl hs
  | run id' env =>
      have hne : id ≠ id' := fun heq => hid (heq ▸ rfl)
      obtain ⟨hcaller, hopener, hcloser⟩ := calls_eq_none_iff.mp hnone
      obtain ⟨pc, hpc, hstep⟩ := Option.bind_eq_some_iff.mp hs
      apply calls_eq_none_iff.mpr
      cases pc with
      | caller pc =>
          have hf := callerStep_frame (callerAt_eq.mpr hpc) hstep
          obtain ⟨pc', hcaller', -⟩ := hf.caller
          rw [hcaller', Function.update_of_ne hne, hf.opener, hf.closer]
          exact ⟨hcaller, hopener, hcloser⟩
      | opener pc =>
          obtain ⟨pc', hcalls⟩ := (openerStep_effect hstep).calls
          obtain ⟨hcaller', hopener', hcloser'⟩ :=
            openerAt_setCall s' (openerAt_eq.mpr hpc) pc' hcalls
          rw [hcaller', hopener', hcloser', Function.update_of_ne hne]
          exact ⟨hcaller, hopener, hcloser⟩
      | closer pc =>
          have hf := closerStep_frame (closerAt_eq.mpr hpc) hstep
          obtain ⟨pc', hcloser', -⟩ := hf.closer
          rw [hcloser', Function.update_of_ne hne, hf.opener, hf.caller]
          exact ⟨hcaller, hopener, hcloser⟩
  | work p env =>
      obtain ⟨w, hw, hstep⟩ := Option.bind_eq_some_iff.mp hs
      exact (workerStep_frame hw hstep).calls ▸ hnone

theorem calls_none_of_reaches {sdk : Sdk} {slot k : Nat} {s : State}
    {ok : State → Label → Prop} (hok : ∀ s l, ok s l → l.below k = true)
    (h : (pools sdk slot).Reaches ok s) (id : CallId) (hid : k ≤ id) : s.calls id = none := by
  refine h.invariant (fun s => ∀ id, k ≤ id → s.calls id = none) (fun s hinit id _ => ?_) ?_ id hid
  · exact hinit.2.2.2.1 id
  · intro s l s' ih hsl hs id hid
    refine calls_none_of_step hs (fun hcall => ?_) (ih id hid)
    have hbelow := hok s l hsl
    rw [Label.below, hcall, Option.all_some, decide_eq_true_eq] at hbelow
    exact absurd hbelow (Nat.not_lt_of_le hid)

/-- Only the calls below `k` have to be looked at. -/
theorem idle_of_below {sdk : Sdk} {slot k : Nat} {s : State} {ok : State → Label → Prop}
    (hok : ∀ s l, ok s l → l.below k = true) (h : (pools sdk slot).Reaches ok s)
    (hidle : (List.range k).all (fun id => (s.calls id).all fun pc => !pc.busy) = true) :
    s.Idle := by
  intro id pc hpc
  by_cases hid : id < k
  · have hall := List.all_eq_true.mp hidle id (List.mem_range.mpr hid)
    simpa [hpc] using hall
  · rw [calls_none_of_reaches hok h id (Nat.le_of_not_lt hid)] at hpc
    cases hpc

/-- In every run in which `PoolClose` takes no pool from the registry whose
`PoolOpen` is still in progress, nothing of a pool is left behind. -/
theorem noOrphan_of_closesOpened {sdk : Sdk} {slot : Nat} {s : State}
    (h : (pools sdk slot).Reaches ClosesOpened s) : NoOrphan slot s := by
  have hctl := (inCharge_of_reaches (fun _ _ hok => hok) h).control
  have hcov := covered_of_reaches (fun _ _ hok => hok) h
  refine ⟨fun hidle hreg i hi => ?_, fun hidle hreg p => ?_, fun id p p' hc hreg => ?_⟩
  · by_contra ht
    obtain ⟨p, hk⟩ := hcov i hi (Bool.eq_true_of_not_eq_false ht)
    exact hidle.not_kept hreg p i hk
  · by_contra hw
    rcases hctl.worker p hw with ⟨hreg', -⟩ | ⟨id, hjoins⟩
    · rw [hreg] at hreg'
      cases hreg'
    · obtain ⟨pc, hpc, hpool⟩ := Option.bind_eq_some_iff.mp hjoins
      have hcloses := (closes_of_closerAt hpc).symm.trans (hidle.closes id)
      cases pc <;> simp_all [CloserPc.joins, CloserPc.pool]
  · have hown := hctl.registered id p _ (opens_of_openerAt (openerAt_eq.mpr hc)) (by simp)
    exact Option.some.inj (hreg.symm.trans hown)

/-- A pool with a keepalive worker is opened and closed. -/
theorem noOrphan_of_closesOpened_closed : ∃ s : State, s.Idle ∧ s.registry = none ∧ s.next = 1 ∧
    NoOrphan 0 s := by
  let ok : State → Label → Prop := fun s l => ClosesOpened s l ∧ l.below 2 = true
  obtain ⟨s, hs, hend⟩ := (pools .go 0).exists_reaches_of_run ok (fresh_initial 0)
    (opensTwo 0 true ++ .poolClose 1 :: runs 1 3 ++ .work 0 { leave := true } :: runs 1 5)
    (fun s => decide (s.next = 1 ∧ s.registry = none) &&
      (List.range 2).all fun id => (s.calls id).all fun pc => !pc.busy) (by decide)
  simp only [Bool.and_eq_true, decide_eq_true_eq] at hend
  obtain ⟨⟨hnext, hreg⟩, hidle⟩ := hend
  exact ⟨s, idle_of_below (fun _ _ h => h.2) hs hidle, hreg, hnext,
    noOrphan_of_closesOpened (hs.mono fun _ _ h => h.1)⟩

/-- Call 1 closes the pool while call 0 is between its two Large Forward Opens;
`n` are the steps of the close. -/
def closesHalfOpen (n : Nat) : List Label :=
  .poolOpen 0 2 true :: runs 0 4 ++ .poolClose 1 :: runs 1 n

def Sdk.closeSteps : Sdk → Nat
  | .go => 8
  | .python => 7

/-- The opener goes on: its second connection and its worker stay. -/
theorem orphan_of_closesHalfOpen (sdk : Sdk) : ∃ s, (pools sdk 0).Reachable s ∧ s.Idle ∧
    s.registry = none ∧ s.table (poolAppHandle 0 1) = true ∧ (s.pools 0).worker ≠ none := by
  obtain ⟨s, hs, hend⟩ := (pools sdk 0).exists_reaches_of_run
    (fun _ l => l.below 2 = true) (fresh_initial 0)
    (closesHalfOpen sdk.closeSteps ++ runs 0 5)
    (fun s => decide (s.registry = none ∧ s.table (poolAppHandle 0 1) = true ∧
        (s.pools 0).worker ≠ none) &&
      (List.range 2).all fun id => (s.calls id).all fun pc => !pc.busy)
    (by cases sdk <;> decide)
  simp only [Bool.and_eq_true, decide_eq_true_eq] at hend
  obtain ⟨⟨hreg, htable, hworker⟩, hidle⟩ := hend
  exact ⟨s, hs.reachable, idle_of_below (fun _ _ h => h) hs hidle, hreg, htable, hworker⟩

/-- Call 2 opens the next pool before the opener's second Large Forward Open
fails: the rollback unregisters that pool. -/
theorem unregisters_other (sdk : Sdk) : ∃ s, (pools sdk 0).Reachable s ∧
    s.calls 0 = some (.opener (.unregister 0)) ∧ s.registry = some 1 := by
  obtain ⟨s, hs, hend⟩ := (pools sdk 0).exists_reaches_of_run
    (fun _ _ => True) (fresh_initial 0)
    (closesHalfOpen sdk.closeSteps ++ .poolOpen 2 1 false :: runs 2 5 ++
      .run 0 { ok := false } :: runs 0 2)
    (fun s => decide (s.calls 0 = some (.opener (.unregister 0)) ∧ s.registry = some 1))
    (by cases sdk <;> decide)
  exact ⟨s, hs, of_decide_eq_true hend⟩

/-- Both parts fail, in both SDKs. -/
theorem orphan_after_close_of_half_open :
    (∃ s, (pools .go 0).Reachable s ∧ s.Idle ∧ s.registry = none ∧
      s.table (poolAppHandle 0 1) = true ∧ (s.pools 0).worker ≠ none) ∧
    (∃ s, (pools .go 0).Reachable s ∧ s.calls 0 = some (.opener (.unregister 0)) ∧
      s.registry = some 1) ∧
    (∃ s, (pools .python 0).Reachable s ∧ s.Idle ∧ s.registry = none ∧
      s.table (poolAppHandle 0 1) = true ∧ (s.pools 0).worker ≠ none) ∧
    ∃ s, (pools .python 0).Reachable s ∧ s.calls 0 = some (.opener (.unregister 0)) ∧
      s.registry = some 1 :=
  ⟨orphan_of_closesHalfOpen .go, unregisters_other .go, orphan_of_closesHalfOpen .python,
    unregisters_other .python⟩

end BpClient.SdkPool
