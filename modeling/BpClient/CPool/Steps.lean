import BpClient.CPool.Model

/-!
What one step of a thread leaves to the other threads: their program counters,
the flags of the pool, and the mutex with its condition variable.
-/

namespace BpClient.CPool

open BpClient.Lib

theorem poolAcquire_some {p : Pool} {seed i : Nat} (h : poolAcquire p seed = some i) :
    i < p.size ∧ (p.entries i).inUse = false ∧ (p.entries i).dead = false := by
  have hmem := List.mem_of_find?_eq_some h
  have hfree := List.find?_some h
  obtain ⟨step, hstep, rfl⟩ := List.mem_map.mp hmem
  rw [List.mem_range] at hstep
  refine ⟨Nat.mod_lt _ (by omega), ?_⟩
  simpa [Entry.free] using hfree

/-- The search visits every entry. -/
theorem poolAcquire_none {p : Pool} {seed : Nat} (h : poolAcquire p seed = none) {i : Nat}
    (hi : i < p.size) : (p.entries i).free = false := by
  have hstart : seed % p.size < p.size := Nat.mod_lt _ (by omega)
  have hmem : i ∈ (List.range p.size).map fun step => (seed % p.size + step) % p.size := by
    rw [List.mem_map]
    by_cases hle : seed % p.size ≤ i
    · refine ⟨i - seed % p.size, by simp; omega, ?_⟩
      rw [Nat.add_sub_cancel' hle, Nat.mod_eq_of_lt hi]
    · refine ⟨i + p.size - seed % p.size, by simp; omega, ?_⟩
      rw [Nat.add_sub_cancel' (by omega), Nat.add_mod_right, Nat.mod_eq_of_lt hi]
  simpa using List.find?_eq_none.mp h i hmem

theorem signal_frame {s s' : State} {pick : Option Tid} (h : s.signal pick = some s') :
    s'.pool = s.pool ∧ s'.callers = s.callers ∧ s'.keepalive = s.keepalive ∧
      s'.closer = s.closer := by
  obtain ⟨mon, -, rfl⟩ := Option.map_eq_some_iff.mp h
  exact ⟨rfl, rfl, rfl, rfl⟩

theorem threadStep_of_run {s s' : State} {t : Tid} {env : Env}
    (hs : step s (.run t env) = some s') :
    threadStep s env t = some s' ∧ t ∉ s.mon.waiters ∧
      (s.needsMu t = true → s.mon.holder = some t) := by
  simp only [step, State.blocked, decide_eq_true_eq] at hs
  repeat' split at hs
  all_goals first | cases hs | refine ⟨hs, ‹_›, ?_⟩
  · exact fun _ => ‹_›
  · exact fun h => absurd h ‹_›

/-- The thread has called `pthread_cond_wait` or `pthread_cond_timedwait` and
not come back from it. -/
def State.asleep (s : State) : Tid → Prop
  | .caller id => s.callers id = some .waiting
  | .keepalive => s.keepalive = .waiting
  | .closer => s.closer = .waiting

/-- What a step of `t` leaves to the other threads. -/
structure Frame (s s' : State) (t : Tid) : Prop where
  callers : ∀ id, t ≠ .caller id → s'.callers id = s.callers id
  keepalive : t ≠ .keepalive → s'.keepalive = s.keepalive
  closer : t ≠ .closer → s'.closer = s.closer
  initialized : t ≠ .closer → s'.pool.initialized = s.pool.initialized
  kaStop : t ≠ .closer → s'.pool.kaStop = s.pool.kaStop
  kaActive : t ≠ .closer → s'.pool.kaActive = s.pool.kaActive
  size : s'.closer ≠ .closed → s'.pool.size = s.pool.size
  /-- A step made under the mutex gives it back, and puts nobody else to
  sleep; any other step leaves mutex and condition variable alone. -/
  mon : (s.needsMu t = false ∧ s'.mon = s.mon) ∨
    (s'.mon.holder = none ∧ ∀ u, u ≠ t → u ∈ s'.mon.waiters → u ∈ s.mon.waiters)
  /-- A thread puts itself to sleep in the wait, a caller only in an open pool. -/
  sleeps : t ∈ s'.mon.waiters → t ∈ s.mon.waiters ∨
    (s'.asleep t ∧ ∀ id, t = .caller id → s'.pool.initialized = true)

section Frame

variable {s s' : State} {env : Env}

theorem signal_mon {pick : Option Tid} (h : s.signal pick = some s') :
    s'.mon.waiters ⊆ s.mon.waiters := by
  obtain ⟨mon, hmon, rfl⟩ := Option.map_eq_some_iff.mp h
  exact (Monitor.signal_eq_some hmon).2.1

theorem waiters_wait {m : Monitor Tid} {t u : Tid} (hu : u ≠ t) (h : u ∈ (m.wait t).waiters) :
    u ∈ m.waiters :=
  (Finset.mem_insert.mp h).resolve_left hu

theorem callerFrame {id : CallId} (hcallers : ∀ id', id' ≠ id → s'.callers id' = s.callers id')
    (hka : s'.keepalive = s.keepalive) (hcl : s'.closer = s.closer)
    (hinit : s'.pool.initialized = s.pool.initialized) (hstop : s'.pool.kaStop = s.pool.kaStop)
    (hactive : s'.pool.kaActive = s.pool.kaActive) (hsize : s'.pool.size = s.pool.size)
    (hmon : (s.needsMu (.caller id) = false ∧ s'.mon = s.mon) ∨ (s'.mon.holder = none ∧
      ∀ u, u ≠ .caller id → u ∈ s'.mon.waiters → u ∈ s.mon.waiters))
    (hsleeps : Tid.caller id ∈ s'.mon.waiters → Tid.caller id ∈ s.mon.waiters ∨
      (s'.callers id = some .waiting ∧ s'.pool.initialized = true)) :
    Frame s s' (.caller id) where
  callers := fun id' hid => hcallers id' fun h => hid (by rw [h])
  keepalive := fun _ => hka
  closer := fun _ => hcl
  initialized := fun _ => hinit
  kaStop := fun _ => hstop
  kaActive := fun _ => hactive
  size := fun _ => hsize
  mon := hmon
  sleeps := fun h => (hsleeps h).imp_right fun ⟨hpc, hopen⟩ => ⟨hpc, fun _ _ => hopen⟩

/-- A step of a caller leaves the other threads where they are. -/
theorem callerStep_frame {id : CallId} {pc : CallerPc} (hpc : s.callers id = some pc)
    (hs : callerStep s id env pc = some s') : Frame s s' (.caller id) := by
  have other : ∀ (t : State) (pc' : CallerPc) (id' : CallId), id' ≠ id →
      (t.setCaller id pc').callers id' = t.callers id' := by
    intro t pc' id' hid
    simp [State.setCaller, hid]
  cases pc with
  | enter | waiting =>
      simp only [callerStep, Option.some.injEq] at hs
      subst hs
      split
      · next hopen =>
          unfold acquireOrWait
          split
          · exact callerFrame (other _ _) rfl rfl rfl rfl rfl rfl (.inr ⟨rfl, fun _ _ h => h⟩) .inl
          · refine callerFrame (other _ _) rfl rfl rfl rfl rfl rfl
              (.inr ⟨rfl, fun _ hu h => waiters_wait hu h⟩) (fun _ => .inr ⟨?_, hopen⟩)
            simp [State.wait, State.setCaller]
      · exact callerFrame (other _ _) rfl rfl rfl rfl rfl rfl (.inr ⟨rfl, fun _ _ h => h⟩) .inl
  | running i a =>
      cases hs
      exact callerFrame (other _ _) rfl rfl rfl rfl rfl rfl
        (.inl ⟨by simp [State.needsMu, hpc], rfl⟩) .inl
  | release i rc =>
      simp only [callerStep, Option.map_eq_some_iff] at hs
      obtain ⟨mid, hsignal, rfl⟩ := hs
      obtain ⟨hpool, hcallers, hka, hcl⟩ := signal_frame hsignal
      have hwaiters := signal_mon hsignal
      refine callerFrame (fun id' hid => (other _ _ id' hid).trans (by rw [hcallers]; rfl)) hka hcl
        ?_ ?_ ?_ ?_ (.inr ⟨rfl, fun _ _ h => hwaiters h⟩) (fun h => .inl (hwaiters h))
      · exact (congrArg Pool.initialized hpool).trans rfl
      · exact (congrArg Pool.kaStop hpool).trans rfl
      · exact (congrArg Pool.kaActive hpool).trans rfl
      · exact (congrArg Pool.size hpool).trans rfl
  | done rc entry => cases hs

theorem keepaliveFrame (hcallers : s'.callers = s.callers) (hcl : s'.closer = s.closer)
    (hinit : s'.pool.initialized = s.pool.initialized) (hstop : s'.pool.kaStop = s.pool.kaStop)
    (hactive : s'.pool.kaActive = s.pool.kaActive) (hsize : s'.pool.size = s.pool.size)
    (hmon : (s.needsMu .keepalive = false ∧ s'.mon = s.mon) ∨ (s'.mon.holder = none ∧
      ∀ u, u ≠ .keepalive → u ∈ s'.mon.waiters → u ∈ s.mon.waiters))
    (hsleeps : Tid.keepalive ∈ s'.mon.waiters → Tid.keepalive ∈ s.mon.waiters ∨
      s'.keepalive = .waiting) :
    Frame s s' .keepalive where
  callers := fun id _ => by rw [hcallers]
  keepalive := fun h => absurd rfl h
  closer := fun _ => hcl
  initialized := fun _ => hinit
  kaStop := fun _ => hstop
  kaActive := fun _ => hactive
  size := fun _ => hsize
  mon := hmon
  sleeps := fun h => (hsleeps h).imp_right fun hpc => ⟨hpc, by simp⟩

/-- A step of the keepalive thread leaves the other threads where they are. -/
theorem keepaliveStep_frame (hs : keepaliveStep s env s.keepalive = some s') :
    Frame s s' .keepalive := by
  have locked : (∀ u, u ≠ Tid.keepalive → u ∈ s.mon.waiters → u ∈ s.mon.waiters) :=
    fun _ _ h => h
  cases hpc : s.keepalive with
  | top | waiting =>
      simp only [keepaliveStep, hpc, Option.some.injEq] at hs
      subst hs
      split
      · exact keepaliveFrame rfl rfl rfl rfl rfl rfl (.inr ⟨rfl, locked⟩) .inl
      · exact keepaliveFrame rfl rfl rfl rfl rfl rfl (.inr ⟨rfl, fun _ hu h => waiters_wait hu h⟩)
          (fun _ => .inr rfl)
  | timedOut =>
      simp only [keepaliveStep, hpc, Option.some.injEq] at hs
      subst hs
      exact keepaliveFrame rfl rfl rfl rfl rfl rfl (.inr ⟨rfl, locked⟩) .inl
  | ping i now =>
      simp only [keepaliveStep, hpc] at hs
      split at hs <;> cases hs
      · split
        · exact keepaliveFrame rfl rfl rfl rfl rfl rfl (.inr ⟨rfl, locked⟩) .inl
        · split <;> exact keepaliveFrame rfl rfl rfl rfl rfl rfl (.inr ⟨rfl, locked⟩) .inl
      · next hi =>
          exact keepaliveFrame rfl rfl rfl rfl rfl rfl
            (.inl ⟨by simp [State.needsMu, hpc, hi], rfl⟩) .inl
  | pinging i a now | reopening i a =>
      simp only [keepaliveStep, hpc, Option.some.injEq] at hs
      subst hs
      exact keepaliveFrame rfl rfl rfl rfl rfl rfl (.inl ⟨by simp [State.needsMu, hpc], rfl⟩) .inl
  | pinged i now ok =>
      simp only [keepaliveStep, hpc, Option.map_eq_some_iff] at hs
      obtain ⟨mid, hsignal, rfl⟩ := hs
      obtain ⟨hpool, hcallers, hka, hcl⟩ := signal_frame hsignal
      have hwaiters := signal_mon hsignal
      refine keepaliveFrame hcallers hcl ?_ ?_ ?_ ?_ (.inr ⟨rfl, fun _ _ h => hwaiters h⟩)
        (fun h => .inl (hwaiters h))
      · exact (congrArg Pool.initialized hpool).trans rfl
      · exact (congrArg Pool.kaStop hpool).trans rfl
      · exact (congrArg Pool.kaActive hpool).trans rfl
      · exact (congrArg Pool.size hpool).trans rfl
  | reopen i =>
      simp only [keepaliveStep, hpc] at hs
      split at hs <;> cases hs
      · split
        · exact keepaliveFrame rfl rfl rfl rfl rfl rfl (.inr ⟨rfl, locked⟩) .inl
        · split <;> exact keepaliveFrame rfl rfl rfl rfl rfl rfl (.inr ⟨rfl, locked⟩) .inl
      · next hi =>
          exact keepaliveFrame rfl rfl rfl rfl rfl rfl
            (.inl ⟨by simp [State.needsMu, hpc, hi], rfl⟩) .inl
  | reopened i ok =>
      simp only [keepaliveStep, hpc, Option.some.injEq] at hs
      subst hs
      cases ok
      · exact keepaliveFrame rfl rfl rfl rfl rfl rfl (.inr ⟨rfl, locked⟩) .inl
      · exact keepaliveFrame rfl rfl rfl rfl rfl rfl
          (.inr ⟨rfl, fun u _ h => absurd h (Finset.notMem_empty u)⟩)
          (fun h => absurd h (Finset.notMem_empty _))
  | exited => simp [keepaliveStep, hpc] at hs

/-- A step of the closing thread leaves the other threads where they are. -/
theorem closerStep_frame (hs : closerStep s s.closer = some s') : Frame s s' .closer := by
  have frame : s'.callers = s.callers → s'.keepalive = s.keepalive →
      (s'.closer ≠ .closed → s'.pool.size = s.pool.size) →
      ((s.needsMu .closer = false ∧ s'.mon = s.mon) ∨ (s'.mon.holder = none ∧
        ∀ u, u ≠ .closer → u ∈ s'.mon.waiters → u ∈ s.mon.waiters)) →
      (Tid.closer ∈ s'.mon.waiters → Tid.closer ∈ s.mon.waiters ∨ s'.closer = .waiting) →
      Frame s s' .closer := by
    intro hcallers hka hsize hmon hsleeps
    exact ⟨fun id _ => by rw [hcallers], fun _ => hka, fun h => absurd rfl h,
      fun h => absurd rfl h, fun h => absurd rfl h, fun h => absurd rfl h, hsize, hmon,
      fun h => (hsleeps h).imp_right fun hpc => ⟨hpc, by simp⟩⟩
  cases hpc : s.closer <;> simp only [closerStep, hpc, reduceCtorEq] at hs
  case mark =>
    cases hs
    exact frame rfl rfl (fun _ => rfl)
      (.inr ⟨rfl, fun u _ h => absurd h (Finset.notMem_empty u)⟩)
      (fun h => absurd h (Finset.notMem_empty _))
  case join =>
    split at hs <;> cases hs
    exact frame rfl rfl (fun _ => rfl) (.inl ⟨by simp [State.needsMu, hpc], rfl⟩) .inl
  case drain | waiting =>
    split at hs <;> cases hs
    · exact frame rfl rfl (fun _ => rfl) (.inr ⟨rfl, fun _ hu h => waiters_wait hu h⟩)
        (fun _ => .inr rfl)
    · exact frame rfl rfl (fun _ => rfl) (.inr ⟨rfl, fun _ _ h => h⟩) .inl
  case closing i =>
    cases hs
    exact frame rfl rfl (fun _ => rfl) (.inl ⟨by simp [State.needsMu, hpc], rfl⟩) .inl
  case destroy =>
    cases hs
    exact frame rfl rfl (fun h => absurd rfl h) (.inl ⟨by simp [State.needsMu, hpc], rfl⟩) .inl

theorem threadStep_frame {t : Tid} (hs : threadStep s env t = some s') : Frame s s' t := by
  cases t with
  | caller id =>
      obtain ⟨pc, hpc, hs⟩ := Option.bind_eq_some_iff.mp hs
      exact callerStep_frame hpc hs
  | keepalive => exact keepaliveStep_frame hs
  | closer => exact closerStep_frame hs

end Frame

end BpClient.CPool
