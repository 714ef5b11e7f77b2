import BpClient.CPool.Close

/-!
Wakeups of `bp_client_pool_txrx`. The callers, the keepalive thread and
`pool_close` wait on one condition variable, and an entry that is given back is
announced by a signal, which wakes one of them.
-/

namespace BpClient.CPool

open BpClient.Lib

def Tid.isCaller : Tid → Bool
  | .caller _ => true
  | _ => false

def freeEntries (p : Pool) : Finset Nat := (Finset.range p.size).filter fun i => (p.entries i).free

/-- No caller is blocked in the wait, with no wake-up pending for it, while some
entry is free and alive. -/
def NoLostWakeup (s : State) : Prop :=
  ∀ t ∈ s.mon.waiters, t.isCaller = true →
    ∀ i < s.pool.size, (s.pool.entries i).inUse = true ∨ (s.pool.entries i).dead = true

/-- A caller that has been woken and has not got the mutex back. -/
def State.woken (s : State) (id : CallId) : Prop :=
  s.callers id = some .waiting ∧ Tid.caller id ∉ s.mon.waiters

def Pool.alive (p : Pool) (i : Nat) : Bool := decide (i < p.size) && !(p.entries i).dead

/-- The step gives a live entry back and signals it. -/
def signalsForLive (s : State) : Label → Bool
  | .run (.caller id) _ =>
      match s.callers id with
      | some (.release i _) => s.pool.alive i
      | _ => false
  | .run .keepalive _ =>
      match s.keepalive with
      | .pinged i _ ok => ok && s.pool.alive i
      | _ => false
  | _ => false

def Label.pick : Label → Option Tid
  | .run _ env => env.pick
  | _ => none

/-- The signal for a live entry finds at most one blocked caller, and wakes it. -/
def ServesCallers (s : State) (l : Label) : Prop :=
  signalsForLive s l = true → ∀ t ∈ s.mon.waiters, t.isCaller = true → l.pick = some t

/-- The signal for a live entry wakes a caller whenever one is blocked. -/
def ReachesCaller (s : State) (l : Label) : Prop :=
  signalsForLive s l = true → (∃ t ∈ s.mon.waiters, t.isCaller = true) →
    ∃ t, l.pick = some t ∧ t.isCaller = true

instance (s : State) (l : Label) : Decidable (ServesCallers s l) :=
  inferInstanceAs (Decidable (_ → _))

/-- While a caller is blocked, every free live entry has a woken caller of its
own on the way to it. -/
def WakeupsPending (s : State) : Prop :=
  (∃ t ∈ s.mon.waiters, t.isCaller = true) →
    ∃ woken : Finset CallId, (∀ id ∈ woken, s.woken id) ∧
      (freeEntries s.pool).card ≤ woken.card

theorem mem_freeEntries {p : Pool} {i : Nat} :
    i ∈ freeEntries p ↔ i < p.size ∧ (p.entries i).inUse = false ∧ (p.entries i).dead = false := by
  simp [freeEntries, Entry.free]

theorem noLostWakeup_iff_free {s : State} : NoLostWakeup s ↔
    ∀ t ∈ s.mon.waiters, t.isCaller = true → freeEntries s.pool = ∅ := by
  refine forall₃_congr fun t _ _ => ?_
  rw [Finset.eq_empty_iff_forall_notMem]
  refine forall_congr' fun i => ?_
  rw [mem_freeEntries]
  cases (s.pool.entries i).inUse <;> cases (s.pool.entries i).dead <;> simp

/-- What a step does to the blocked callers, the woken callers and the free
entries. -/
inductive Wake (s s' : State) (l : Label) : Prop
  /-- No caller is put to sleep, none is lost on its way, no entry gets free. -/
  | calm : signalsForLive s l = false →
      (∀ id, Tid.caller id ∈ s'.mon.waiters → Tid.caller id ∈ s.mon.waiters) →
      (∀ id, s.woken id → s'.woken id) → freeEntries s'.pool ⊆ freeEntries s.pool → Wake s s' l
  | nobody : signalsForLive s l = false → (∀ id, Tid.caller id ∉ s'.mon.waiters) → Wake s s' l
  | noneFree : signalsForLive s l = false → freeEntries s'.pool = ∅ → Wake s s' l
  /-- A woken caller takes an entry. -/
  | acquire (id : CallId) (i : Nat) : signalsForLive s l = false →
      (∀ id, Tid.caller id ∈ s'.mon.waiters → Tid.caller id ∈ s.mon.waiters) →
      (∀ id', id' ≠ id → s.woken id' → s'.woken id') → i ∈ freeEntries s.pool →
      freeEntries s'.pool = (freeEntries s.pool).erase i → Wake s s' l
  /-- A live entry is given back and signalled. -/
  | give (i : Nat) : signalsForLive s l = true → i ∈ freeEntries s'.pool →
      freeEntries s'.pool = insert i (freeEntries s.pool) →
      (∀ id, Tid.caller id ∈ s'.mon.waiters ↔
        Tid.caller id ∈ s.mon.waiters ∧ l.pick ≠ some (.caller id)) →
      (∀ id, s.woken id → s'.woken id) →
      (∀ id, l.pick = some (.caller id) → Tid.caller id ∈ s.mon.waiters ∧ s'.woken id) →
      Wake s s' l

section Counting

variable {s s' : State} {l : Label}

theorem exists_caller {m : Monitor Tid} (h : ∃ t ∈ m.waiters, t.isCaller = true) :
    ∃ id, Tid.caller id ∈ m.waiters := by
  obtain ⟨t, ht, hcaller⟩ := h
  cases t with
  | caller id => exact ⟨id, ht⟩
  | _ => cases hcaller

/-- The literal property survives exactly the steps that serve every blocked
caller. -/
theorem Wake.kept_iff (hw : Wake s s' l) (h : NoLostWakeup s) :
    NoLostWakeup s' ↔ ServesCallers s l := by
  rw [noLostWakeup_iff_free] at h
  have quiet : signalsForLive s l = false → ServesCallers s l := fun hsig hlive => by
    rw [hsig] at hlive
    cases hlive
  rw [noLostWakeup_iff_free]
  cases hw with
  | calm hsig hblocked _ hfree =>
      refine iff_of_true (fun t ht hcaller => ?_) (quiet hsig)
      obtain ⟨id, hid⟩ := exists_caller ⟨t, ht, hcaller⟩
      exact Finset.subset_empty.mp (h _ (hblocked id hid) rfl ▸ hfree)
  | nobody hsig hnone =>
      refine iff_of_true (fun t ht hcaller => ?_) (quiet hsig)
      obtain ⟨id, hid⟩ := exists_caller ⟨t, ht, hcaller⟩
      exact absurd hid (hnone id)
  | noneFree hsig hempty => exact iff_of_true (fun _ _ _ => hempty) (quiet hsig)
  | acquire id i hsig hblocked _ hi hfree =>
      refine iff_of_true (fun t ht hcaller => ?_) (quiet hsig)
      obtain ⟨id', hid⟩ := exists_caller ⟨t, ht, hcaller⟩
      rw [hfree, h _ (hblocked id' hid) rfl]
      rfl
  | give i hsig hi hfree hblocked _ _ =>
      constructor
      · intro hnone _ t ht hcaller
        by_contra hpick
        cases t with
        | caller id =>
            have hempty := hnone _ ((hblocked id).mpr ⟨ht, hpick⟩) rfl
            rw [hempty] at hi
            exact absurd hi (Finset.notMem_empty i)
        | _ => cases hcaller
      · intro hserves t ht hcaller
        cases t with
        | caller id =>
            obtain ⟨hold, hpick⟩ := (hblocked id).mp ht
            exact absurd (hserves hsig _ hold rfl) hpick
        | _ => cases hcaller

/-- One wake-up for one entry: the count of pending wake-ups keeps up with the
free entries. -/
theorem Wake.wakeupsPending (hw : Wake s s' l) (h : WakeupsPending s)
    (hreach : ReachesCaller s l) : WakeupsPending s' := by
  intro hblocked'
  obtain ⟨id₀, hid₀⟩ := exists_caller hblocked'
  cases hw with
  | calm _ hblocked hwoken hfree =>
      obtain ⟨W, hW, hcard⟩ := h ⟨_, hblocked id₀ hid₀, rfl⟩
      exact ⟨W, fun id hid => hwoken id (hW id hid), (Finset.card_le_card hfree).trans hcard⟩
  | nobody _ hnone => exact absurd hid₀ (hnone id₀)
  | noneFree _ hempty => exact ⟨∅, by simp, by simp [hempty]⟩
  | acquire id i _ hblocked hwoken hi hfree =>
      obtain ⟨W, hW, hcard⟩ := h ⟨_, hblocked id₀ hid₀, rfl⟩
      refine ⟨W.erase id, fun id' hid' => ?_, ?_⟩
      · obtain ⟨hne, hmem⟩ := Finset.mem_erase.mp hid'
        exact hwoken id' hne (hW id' hmem)
      · rw [hfree, Finset.card_erase_of_mem hi]
        exact (Nat.sub_le_sub_right hcard 1).trans Finset.pred_card_le_card_erase
  | give i hsig _ hfree hblocked hwoken hpick =>
      have hex : ∃ t ∈ s.mon.waiters, t.isCaller = true := ⟨_, ((hblocked id₀).mp hid₀).1, rfl⟩
      obtain ⟨W, hW, hcard⟩ := h hex
      obtain ⟨t, ht, hcaller⟩ := hreach hsig hex
      cases t with
      | caller id =>
          obtain ⟨hold, hnew⟩ := hpick id ht
          have hnot : id ∉ W := fun hmem => (hW id hmem).2 hold
          refine ⟨insert id W, fun id' hid' => ?_, ?_⟩
          · rcases Finset.mem_insert.mp hid' with rfl | hmem
            · exact hnew
            · exact hwoken id' (hW id' hmem)
          · rw [Finset.card_insert_of_notMem hnot, hfree]
            exact (Finset.card_insert_le _ _).trans (Nat.add_le_add_right hcard 1)
      | _ => cases hcaller

end Counting

section Classify

variable {s s' : State} {env : Env} {t : Tid}

theorem freeEntries_update {p q : Pool} {i : Nat} {e : Entry}
    (hentries : q.entries = Function.update p.entries i e) (hsize : q.size = p.size)
    (hfree : e.free = true → i < p.size → (p.entries i).free = true) :
    freeEntries q ⊆ freeEntries p := by
  intro j
  simp only [freeEntries, Finset.mem_filter, Finset.mem_range, hsize, hentries]
  rintro ⟨hj, hjfree⟩
  by_cases hji : j = i
  · subst j
    rw [Function.update_self] at hjfree
    exact ⟨hj, hfree hjfree hj⟩
  · rw [Function.update_of_ne hji] at hjfree
    exact ⟨hj, hjfree⟩

/-- A step of `t` that gives no live entry back and neither puts a caller to
sleep nor takes a woken one along. -/
theorem Wake.of_frame {l : Label} (hframe : Frame s s' t) (hsig : signalsForLive s l = false)
    (hself : ∀ id, t = .caller id →
      s.callers id ≠ some .waiting ∧ Tid.caller id ∉ s'.mon.waiters)
    (hfree : freeEntries s'.pool ⊆ freeEntries s.pool) : Wake s s' l := by
  have hwaiters : ∀ v, v ≠ t → v ∈ s'.mon.waiters → v ∈ s.mon.waiters := by
    rcases hframe.mon with ⟨-, hmon⟩ | ⟨-, hsub⟩
    · exact fun v _ hv => hmon ▸ hv
    · exact hsub
  refine .calm hsig (fun id hid => ?_) (fun id hwoken => ?_) hfree
  · by_cases hid' : t = .caller id
    · exact absurd hid (hself id hid').2
    · exact hwaiters _ (fun h => hid' h.symm) hid
  · by_cases hid' : t = .caller id
    · exact absurd hwoken.1 (hself id hid').1
    · exact ⟨(hframe.callers id hid').trans hwoken.1,
        fun hmem => hwoken.2 (hwaiters _ (fun h => hid' h.symm) hmem)⟩

theorem signal_waiters {pick : Option Tid} (h : s.signal pick = some s') (u : Tid) :
    (u ∈ s'.mon.waiters ↔ u ∈ s.mon.waiters ∧ pick ≠ some u) ∧
      (pick = some u → u ∈ s.mon.waiters) := by
  obtain ⟨mon, hmon, rfl⟩ := Option.map_eq_some_iff.mp h
  obtain ⟨-, -, ⟨rfl, hempty, hempty'⟩ | ⟨v, rfl, hv, herase⟩⟩ := Monitor.signal_eq_some hmon
  · simp [hempty, hempty']
  · refine ⟨?_, fun heq => Option.some.inj heq ▸ hv⟩
    simp only [herase, Finset.mem_erase, ne_eq, Option.some.injEq]
    rw [and_comm, eq_comm]

/-- Giving an entry back under a signal: it is announced when it is alive, and
nothing gets free when it is dead. -/
theorem Wake.of_signal {mid : State} {l : Label} {i : Nat} {e : Entry} (hm : Monitored s)
    (hframe : Frame s s' t) (hsignal : (s.setEntry i e).signal l.pick = some mid)
    (hmon : s'.mon.waiters = mid.mon.waiters) (hpool : s'.pool = mid.pool)
    (hlive : signalsForLive s l = (decide (i < s.pool.size) && !e.dead))
    (hself : ∀ id, t = .caller id → s.callers id ≠ some .waiting ∧ Tid.caller id ∉ s.mon.waiters)
    (hclear : e.inUse = false) : Wake s s' l := by
  have hentries : s'.pool.entries = Function.update s.pool.entries i e := by
    rw [hpool, (signal_frame hsignal).1]
    rfl
  have hsize : s'.pool.size = s.pool.size := by
    rw [hpool, (signal_frame hsignal).1]
    rfl
  have hwaiters : ∀ u, u ∈ s'.mon.waiters ↔ u ∈ s.mon.waiters ∧ l.pick ≠ some u := by
    intro u
    rw [hmon]
    exact (signal_waiters hsignal u).1
  cases hsig : signalsForLive s l with
  | false =>
      refine .of_frame hframe hsig (fun id hid => ⟨(hself id hid).1, ?_⟩)
        (freeEntries_update hentries hsize fun hfree hi => ?_)
      · exact fun hmem => (hself id hid).2 ((hwaiters _).mp hmem).1
      · rw [hsig] at hlive
        simp [Entry.free, hclear] at hfree
        simp [hi, hfree] at hlive
  | true =>
      rw [hsig] at hlive
      simp only [Bool.true_eq, Bool.and_eq_true, decide_eq_true_eq, Bool.not_eq_true'] at hlive
      obtain ⟨hi, hdead⟩ := hlive
      have hstay : ∀ id, s.callers id = some .waiting → s'.callers id = some .waiting := by
        intro id hid
        rw [hframe.callers id fun h => (hself id h).1 hid]
        exact hid
      refine .give i hsig ?_ ?_ (fun id => hwaiters _) (fun id hwoken => ?_) (fun id hpick => ?_)
      · rw [mem_freeEntries, hentries, hsize, Function.update_self]
        exact ⟨hi, hclear, hdead⟩
      · ext j
        rw [Finset.mem_insert, mem_freeEntries, mem_freeEntries, hentries, hsize]
        by_cases hji : j = i
        · subst j
          simp [hi, hclear, hdead]
        · simp [hji]
      · exact ⟨hstay id hwoken.1, fun hmem => hwoken.2 ((hwaiters _).mp hmem).1⟩
      · have hold : Tid.caller id ∈ s.mon.waiters := (signal_waiters hsignal _).2 hpick
        exact ⟨hold, hstay id (hm.asleep _ hold), fun hmem => ((hwaiters _).mp hmem).2 hpick⟩

theorem acquireOrWait_wake {id : CallId} {pc : CallerPc} {seed : Nat} {l : Label}
    (hpc : s.callers id = some pc) (hframe : Frame s (acquireOrWait s id seed) (.caller id))
    (hawake : Tid.caller id ∉ s.mon.waiters) (hsig : signalsForLive s l = false) :
    Wake s (acquireOrWait s id seed) l := by
  unfold acquireOrWait at hframe ⊢
  split at hframe
  · next i hacq =>
      obtain ⟨hi, hfree, hdead⟩ := poolAcquire_some hacq
      by_cases hwaiting : pc = .waiting
      · refine .acquire id i hsig (fun _ h => h) (fun id' hid hwoken => ⟨?_, hwoken.2⟩)
          (mem_freeEntries.mpr ⟨hi, hfree, hdead⟩) ?_
        · simpa [State.unlock, State.setCaller, State.setEntry, hid] using hwoken.1
        · ext j
          rw [Finset.mem_erase, mem_freeEntries, mem_freeEntries]
          by_cases hji : j = i
          · subst j
            simp [State.unlock, State.setCaller, State.setEntry]
          · simp [State.unlock, State.setCaller, State.setEntry, hji]
      · refine .of_frame hframe hsig (fun id' hid => ?_) (freeEntries_update rfl rfl (by simp [Entry.free]))
        obtain rfl : id = id' := Tid.caller.inj hid
        exact ⟨by rw [hpc]; exact fun h => hwaiting (Option.some.inj h), hawake⟩
  · next hacq =>
      refine .noneFree hsig (Finset.eq_empty_iff_forall_notMem.mpr fun i hi => ?_)
      obtain ⟨hlt, hfree, hdead⟩ := mem_freeEntries.mp hi
      have := poolAcquire_none hacq (i := i) hlt
      simp only [Entry.free, Bool.and_eq_false_iff, Bool.not_eq_false'] at this
      rcases this with h | h
      · exact absurd (h.symm.trans hfree) (by simp)
      · exact absurd (h.symm.trans hdead) (by simp)

/-- A caller frees an entry only with a signal for it. -/
theorem callerStep_wake {id : CallId} {pc : CallerPc} (hm : Monitored s)
    (hpc : s.callers id = some pc) (hawake : Tid.caller id ∉ s.mon.waiters)
    (hs : callerStep s id env pc = some s') : Wake s s' (.run (.caller id) env) := by
  have hframe := callerStep_frame hpc hs
  cases pc with
  | enter =>
      have hsig : signalsForLive s (.run (.caller id) env) = false := by
        simp [signalsForLive, hpc]
      simp only [callerStep, Option.some.injEq] at hs
      subst hs
      split at hframe
      · next hopen =>
          rw [if_pos hopen]
          exact acquireOrWait_wake hpc hframe hawake hsig
      · next hclosed =>
          rw [if_neg hclosed]
          refine .of_frame hframe hsig (fun id' hid => ?_) subset_rfl
          obtain rfl : id = id' := Tid.caller.inj hid
          exact ⟨by simp [hpc], hawake⟩
  | waiting =>
      have hsig : signalsForLive s (.run (.caller id) env) = false := by
        simp [signalsForLive, hpc]
      simp only [callerStep, Option.some.injEq] at hs
      subst hs
      split at hframe
      · next hopen =>
          rw [if_pos hopen]
          exact acquireOrWait_wake hpc hframe hawake hsig
      · next hclosed =>
          rw [if_neg hclosed]
          exact .nobody hsig (hm.closed (by simpa using hclosed))
  | running i a =>
      have hsig : signalsForLive s (.run (.caller id) env) = false := by
        simp [signalsForLive, hpc]
      cases hs
      refine .of_frame hframe hsig (fun id' hid => ?_) subset_rfl
      obtain rfl : id = id' := Tid.caller.inj hid
      exact ⟨by simp [hpc], hawake⟩
  | release i rc =>
      simp only [callerStep, Option.map_eq_some_iff] at hs
      obtain ⟨mid, hsignal, rfl⟩ := hs
      refine .of_signal hm hframe hsignal rfl rfl (by simp [signalsForLive, hpc, Pool.alive])
        (fun id' hid => ?_) rfl
      obtain rfl : id = id' := Tid.caller.inj hid
      exact ⟨by simp [hpc], hawake⟩
  | done rc entry => cases hs

def KeepalivePc.revives : KeepalivePc → Option Nat
  | .reopening i _ | .reopened i _ => some i
  | _ => none

/-- The keepalive thread frees an entry only with a signal for it. -/
theorem keepaliveStep_wake (hm : Monitored s)
    (hrevives : ∀ i, s.keepalive.revives = some i → (s.pool.entries i).dead = true)
    (hs : keepaliveStep s env s.keepalive = some s') : Wake s s' (.run .keepalive env) := by
  have hframe := keepaliveStep_frame hs
  have calm : signalsForLive s (.run .keepalive env) = false →
      freeEntries s'.pool ⊆ freeEntries s.pool → Wake s s' (.run .keepalive env) :=
    fun hsig hfree => .of_frame hframe hsig (by simp) hfree
  cases hpc : s.keepalive with
  | pinged i now ok =>
      simp only [keepaliveStep, hpc, Option.map_eq_some_iff] at hs
      obtain ⟨mid, hsignal, rfl⟩ := hs
      refine .of_signal hm hframe hsignal rfl rfl ?_ (by simp) ?_
      · cases ok <;> simp [signalsForLive, hpc, Pool.alive, Entry.afterPing]
      · cases ok <;> rfl
  | reopened i ok =>
      have hsig : signalsForLive s (.run .keepalive env) = false := by
        simp [signalsForLive, hpc]
      simp only [keepaliveStep, hpc, Option.some.injEq] at hs
      subst hs
      cases ok
      · refine calm hsig (freeEntries_update (i := i) rfl rfl fun hfree => ?_)
        have hdead := hrevives i (by rw [hpc]; rfl)
        simp [Entry.free, Entry.afterReopen, hdead] at hfree
      · exact .nobody hsig fun id => Finset.notMem_empty _
  | ping i now | reopen i =>
      have hsig : signalsForLive s (.run .keepalive env) = false := by
        simp [signalsForLive, hpc]
      simp only [keepaliveStep, hpc] at hs
      split at hs <;> cases hs
      · refine calm hsig ?_
        split
        · exact subset_rfl
        · split
          · exact subset_rfl
          · exact freeEntries_update rfl rfl (by simp [Entry.free])
      · exact calm hsig subset_rfl
  | top | waiting | timedOut =>
      have hsig : signalsForLive s (.run .keepalive env) = false := by
        simp [signalsForLive, hpc]
      simp only [keepaliveStep, hpc, Option.some.injEq] at hs
      subst hs
      refine calm hsig ?_
      first
        | exact subset_rfl
        | split <;> exact subset_rfl
  | pinging i a now | reopening i a =>
      have hsig : signalsForLive s (.run .keepalive env) = false := by
        simp [signalsForLive, hpc]
      simp only [keepaliveStep, hpc, Option.some.injEq] at hs
      subst hs
      exact calm hsig subset_rfl
  | exited => simp [keepaliveStep, hpc] at hs

theorem closerStep_wake (hs : closerStep s s.closer = some s') :
    Wake s s' (.run .closer env) := by
  have hframe := closerStep_frame hs
  refine .of_frame hframe rfl (by simp) ?_
  cases hpc : s.closer <;> simp only [closerStep, hpc, reduceCtorEq] at hs
  case destroy =>
    cases hs
    exact fun i hi => absurd (mem_freeEntries.mp hi).1 (Nat.not_lt_zero i)
  case join =>
    split at hs <;> cases hs
    exact subset_rfl
  case drain | waiting =>
    split at hs <;> cases hs <;> exact subset_rfl
  all_goals
    cases hs
    exact subset_rfl

end Classify

def RevivesDead (s : State) : Prop :=
  ∀ i, s.keepalive.revives = some i → (s.pool.entries i).dead = true

section Revives

variable {s s' : State} {env : Env}

theorem RevivesDead.of_none (h : s.keepalive.revives = none) : RevivesDead s := by
  intro i hi
  rw [h] at hi
  cases hi

theorem RevivesDead.of_effect {t : Tid} (h : RevivesDead s) (he : Effect s s' t)
    (ht : t ≠ .keepalive) (hka : s'.keepalive = s.keepalive) : RevivesDead s' := by
  intro i hi
  rcases he.dead i with same | ⟨hself, -⟩
  · rw [same]
    exact h i (hka ▸ hi)
  · exact absurd hself ht

theorem keepaliveStep_revives (h : RevivesDead s)
    (hs : keepaliveStep s env s.keepalive = some s') : RevivesDead s' := by
  cases hpc : s.keepalive with
  | reopen i =>
      simp only [keepaliveStep, hpc] at hs
      split at hs <;> cases hs
      · split
        · exact .of_none rfl
        · split
          · exact .of_none rfl
          · next hdead =>
              simp only [Bool.or_eq_true, not_or, Bool.not_eq_true, Bool.not_eq_false'] at hdead
              rintro j hj
              obtain rfl : i = j := Option.some.inj hj
              simpa [State.unlock, State.setKeepalive, State.setEntry] using hdead.1.1
      · exact .of_none rfl
  | reopening i a =>
      simp only [keepaliveStep, hpc, Option.some.injEq] at hs
      subst hs
      exact fun j hj => h j (by rw [hpc]; exact hj)
  | ping i now =>
      simp only [keepaliveStep, hpc] at hs
      split at hs <;> cases hs
      · split
        · exact .of_none rfl
        · split <;> exact .of_none rfl
      · exact .of_none rfl
  | pinged i now ok =>
      simp only [keepaliveStep, hpc, Option.map_eq_some_iff] at hs
      obtain ⟨mid, -, rfl⟩ := hs
      exact .of_none rfl
  | timedOut | top | waiting =>
      simp only [keepaliveStep, hpc, Option.some.injEq] at hs
      subst hs
      split <;> exact .of_none rfl
  | pinging i a now | reopened i ok =>
      simp only [keepaliveStep, hpc, Option.some.injEq] at hs
      subst hs
      exact .of_none rfl
  | exited => simp [keepaliveStep, hpc] at hs

theorem RevivesDead.step {l : Label} (hlife : Lifecycle s) (hinv : s.closer ≠ .closed → Inv s)
    (h : RevivesDead s) (hs : step s l = some s') : RevivesDead s' := by
  cases l with
  | run t env =>
      have hthread := (threadStep_of_run hs).1
      by_cases hclosed : s'.closer = .closed
      · -- the keepalive thread was joined before the pool was zeroed
        have hexit : s'.keepalive = .exited :=
          (hlife.phases.thread hthread).joined (by rw [hclosed]; rfl)
        intro i hi
        rw [hexit] at hi
        cases hi
      · have hopen : s.closer ≠ .closed := fun hc => hclosed (step_closed hs hc)
        have heffect := threadStep_effect (hinv hopen) hthread hclosed
        cases t with
        | keepalive => exact keepaliveStep_revives h hthread
        | caller id =>
            exact h.of_effect heffect (by simp) ((threadStep_frame hthread).keepalive (by simp))
        | closer =>
            exact h.of_effect heffect (by simp) ((threadStep_frame hthread).keepalive (by simp))
  | timeout =>
      simp only [CPool.step] at hs
      split at hs <;> cases hs
      exact .of_none rfl
  | lock t =>
      simp only [CPool.step] at hs
      split at hs <;> try cases hs
      obtain ⟨mon, -, rfl⟩ := Option.map_eq_some_iff.mp hs
      exact h
  | start _ | close | wake _ =>
      simp only [CPool.step] at hs
      split at hs <;> cases hs
      exact h

theorem revivesDead_of_reachable (h : pool.Reachable s) : RevivesDead s := by
  have known : ∀ s, pool.Reachable s → Lifecycle s ∧ (s.closer ≠ .closed → Inv s) :=
    fun s hs => ⟨lifecycle_of_reachable hs, inv_of_reachable hs⟩
  refine h.invariant_of known RevivesDead ?_ ?_
  · rintro s ⟨slot, size, keepaliveMs, now, kaActive, -, -, -, rfl⟩
    cases kaActive <;> exact .of_none rfl
  · rintro s l s' ⟨hlife, hinv⟩ ih - hs
    exact ih.step hlife hinv hs

end Revives

section Steps

variable {s s' : State} {l : Label}

/-- A step that touches neither the entries nor the callers, and blocks
nobody. -/
theorem Wake.of_monitor (hsig : signalsForLive s l = false) (hpool : s'.pool = s.pool)
    (hcallers : ∀ id, s.callers id = some .waiting → s'.callers id = some .waiting)
    (hsub : s'.mon.waiters ⊆ s.mon.waiters) : Wake s s' l :=
  .calm hsig (fun _ hid => hsub hid)
    (fun id hwoken => ⟨hcallers id hwoken.1, fun hmem => hwoken.2 (hsub hmem)⟩) (by rw [hpool])

/-- No step frees a live entry without a signal. -/
theorem step_wake (h : pool.Reachable s) (hs : step s l = some s') : Wake s s' l := by
  have hm := (lifecycle_of_reachable h).monitored
  cases l with
  | run t env =>
      obtain ⟨hthread, hawake, -⟩ := threadStep_of_run hs
      cases t with
      | caller id =>
          obtain ⟨pc, hpc, hcaller⟩ := Option.bind_eq_some_iff.mp hthread
          exact callerStep_wake hm hpc hawake hcaller
      | keepalive => exact keepaliveStep_wake hm (revivesDead_of_reachable h) hthread
      | closer => exact closerStep_wake hthread
  | start id =>
      simp only [CPool.step] at hs
      split at hs <;> cases hs
      next hnone =>
      refine .of_monitor rfl rfl (fun id' hid => ?_) subset_rfl
      have hne : id' ≠ id := by
        rintro rfl
        rw [hnone] at hid
        cases hid
      simpa [State.setCaller, hne] using hid
  | close =>
      simp only [CPool.step] at hs
      split at hs <;> cases hs
      exact .of_monitor rfl rfl (fun _ hid => hid) subset_rfl
  | lock t =>
      simp only [CPool.step] at hs
      split at hs <;> try cases hs
      obtain ⟨mon, hmon, rfl⟩ := Option.map_eq_some_iff.mp hs
      obtain ⟨-, rfl⟩ := Monitor.lock_eq_some.mp hmon
      exact .of_monitor rfl rfl (fun _ hid => hid) subset_rfl
  | wake t | timeout =>
      simp only [CPool.step] at hs
      split at hs <;> cases hs
      exact .of_monitor rfl rfl (fun _ hid => hid) (Finset.erase_subset _ _)

theorem Initial.noBlocked (h : Initial s) : ∀ t, t ∉ s.mon.waiters := by
  obtain ⟨slot, size, keepaliveMs, now, kaActive, -, -, -, rfl⟩ := h
  exact Finset.notMem_empty

end Steps

theorem noLostWakeup_of_serves {s : State} (h : pool.Reaches ServesCallers s) :
    NoLostWakeup s := by
  refine h.invariant_of (fun _ hr => hr.reachable) NoLostWakeup ?_ ?_
  · exact fun s hinit t ht => absurd ht (hinit.noBlocked t)
  · exact fun s l s' hr ih hok hs => ((step_wake hr hs).kept_iff ih).mpr hok

theorem wakeupsPending_of_reaches {s : State} (h : pool.Reaches ReachesCaller s) :
    WakeupsPending s := by
  refine h.invariant_of (fun _ hr => hr.reachable) WakeupsPending ?_ ?_
  · rintro s hinit ⟨t, ht, -⟩
    exact absurd ht (hinit.noBlocked t)
  · exact fun s l s' hr ih hok hs => (step_wake hr hs).wakeupsPending ih hok

/-- In every run no wake-up is lost exactly while every signal for a live entry
serves the blocked callers: there is at most one, and the signal wakes it. And
as long as such a signal only reaches some caller when one is blocked, every
entry that stays free has a woken caller on the way to it. -/
theorem noLostWakeup_iff {tr : List (State × Label)} {s : State} (h : pool.Trace tr s) :
    (((∀ p ∈ tr, NoLostWakeup p.1) ∧ NoLostWakeup s) ↔ ∀ p ∈ tr, ServesCallers p.1 p.2) ∧
      ((∀ p ∈ tr, ReachesCaller p.1 p.2) → WakeupsPending s) := by
  constructor
  · refine System.Trace.always_iff ServesCallers ?_ ?_ h
    · exact fun s hinit t ht => absurd ht (hinit.noBlocked t)
    · intro s l s' hr hs
      exact (step_wake hr.reachable hs).kept_iff (noLostWakeup_of_serves hr)
  · intro hall
    exact wakeupsPending_of_reaches (System.reaches_iff_trace.mpr ⟨tr, h, hall⟩)

/-- A pool of one entry: the keepalive thread goes to sleep, call 1 uses the
entry and call 2 waits for it. -/
def saturated : List Label :=
  critical .keepalive {} ++ [.start 1] ++ critical (.caller 1) {} ++
    [.start 2] ++ critical (.caller 2) {} ++ [.run (.caller 1) {}]

theorem ServesCallers.reaches {s : State} {l : Label} (h : ServesCallers s l) :
    ReachesCaller s l :=
  fun hsig ⟨t, ht, hcaller⟩ => ⟨t, h hsig t ht hcaller, hcaller⟩

/-- The release of call 1 wakes call 2. -/
theorem noLostWakeup_iff_signalled :
    ∃ (tr : List (State × Label)) (s : State), Tid.keepalive ∈ s.mon.waiters ∧
      s.callers 1 = some (.done 0 (some 0)) ∧ s.woken 2 ∧
      (∀ p ∈ tr, NoLostWakeup p.1) ∧ NoLostWakeup s ∧ WakeupsPending s := by
  obtain ⟨tr, s, htr, hserves, hp⟩ :=
    pool.exists_trace_of_run ServesCallers
      (opened_initial 3 1 (by decide) (by decide) (by decide) 10000 0 true)
      (saturated ++ critical (.caller 1) { pick := some (.caller 2) })
      (fun s => decide (Tid.keepalive ∈ s.mon.waiters ∧ s.callers 1 = some (.done 0 (some 0)) ∧
        s.callers 2 = some .waiting ∧ Tid.caller 2 ∉ s.mon.waiters)) (by decide +kernel)
  obtain ⟨hka, h1, h2, hwoken⟩ := of_decide_eq_true hp
  obtain ⟨hiff, hpending⟩ := noLostWakeup_iff htr
  obtain ⟨hall, hlast⟩ := hiff.mpr hserves
  exact ⟨tr, s, hka, h1, ⟨h2, hwoken⟩, hall, hlast, hpending fun p hp => (hserves p hp).reaches⟩

/-- The release of call 1 wakes the keepalive thread, which goes back to sleep:
call 2 stays blocked beside a free entry, and nobody is on the way to it. -/
theorem lostWakeup_to_keepalive :
    ∃ s, pool.Reachable s ∧ Tid.caller 2 ∈ s.mon.waiters ∧ Tid.keepalive ∈ s.mon.waiters ∧
      s.mon.holder = none ∧ s.callers 1 = some (.done 0 (some 0)) ∧ 0 ∈ freeEntries s.pool ∧
      ¬ NoLostWakeup s := by
  obtain ⟨s, hs, hp⟩ :=
    pool.exists_reaches_of_run (fun _ _ => True)
      (opened_initial 3 1 (by decide) (by decide) (by decide) 10000 0 true)
      (saturated ++ critical (.caller 1) { pick := some .keepalive } ++ critical .keepalive {})
      (fun s => decide (Tid.caller 2 ∈ s.mon.waiters ∧ Tid.keepalive ∈ s.mon.waiters ∧
        s.mon.holder = none ∧ s.callers 1 = some (.done 0 (some 0)) ∧ 0 ∈ freeEntries s.pool))
      (by decide +kernel)
  obtain ⟨hblocked, hka, hholder, h1, hfree⟩ := of_decide_eq_true hp
  refine ⟨s, hs, hblocked, hka, hholder, h1, hfree, fun hnone => ?_⟩
  rw [noLostWakeup_iff_free.mp hnone _ hblocked rfl] at hfree
  exact absurd hfree (Finset.notMem_empty 0)

end BpClient.CPool
