import BpClient.CPool.Exclusive

/-!
What `bp_client_pool_close` finds when it destroys the mutex: the keepalive
thread has been joined, no entry is in use and nobody is blocked on the
condition variable; but the drain does not see the callers that are queued for
the mutex.
-/

namespace BpClient.CPool

open BpClient.Lib

def CloserPc.marked : CloserPc → Bool
  | .idle | .mark => false
  | _ => true

def CloserPc.joined : CloserPc → Bool
  | .idle | .mark | .join => false
  | _ => true

def CloserPc.drained : CloserPc → Bool
  | .closing _ | .destroy => true
  | _ => false

structure Phases (s : State) : Prop where
  marked : s.closer.marked = true → s.pool.initialized = false
  inactive : s.pool.kaActive = false → s.keepalive = .exited
  joined : s.closer.joined = true → s.keepalive = .exited
  drained : s.closer.drained = true → ∀ i < s.pool.size, (s.pool.entries i).inUse = false

/-- Who holds the mutex and who sleeps on the condition variable. -/
structure Monitored (s : State) : Prop where
  holder : ∀ t, s.mon.holder = some t → s.needsMu t = true
  asleep : ∀ t ∈ s.mon.waiters, s.asleep t
  closed : s.pool.initialized = false → ∀ id, Tid.caller id ∉ s.mon.waiters

section Phases

variable {s s' : State} {env : Env}

theorem keepaliveStep_not_exited (hs : keepaliveStep s env s.keepalive = some s') :
    s.keepalive ≠ .exited := by
  intro h
  rw [h] at hs
  cases hs

theorem Phases.not_drained (hph : Phases s) (hopen : s.pool.initialized = true) :
    s.closer.drained ≠ true := by
  intro hdrained
  have hmarked : s.closer.marked = true := by
    cases hc : s.closer <;> simp_all [CloserPc.drained, CloserPc.marked]
  rw [hph.marked hmarked] at hopen
  cases hopen

/-- A caller takes no entry from a pool that has been drained. -/
theorem callerStep_drained {id : CallId} {pc : CallerPc} (hph : Phases s)
    (hs : callerStep s id env pc = some s') (hdrained : s.closer.drained = true) :
    ∀ i < s.pool.size, (s'.pool.entries i).inUse = false := by
  have hfree := hph.drained hdrained
  cases pc with
  | enter | waiting =>
      simp only [callerStep, Option.some.injEq] at hs
      subst hs
      split
      · next hopen => exact absurd hdrained (hph.not_drained hopen)
      · exact hfree
  | running i a =>
      cases hs
      exact hfree
  | release i rc =>
      simp only [callerStep, Option.map_eq_some_iff] at hs
      obtain ⟨mid, hsignal, rfl⟩ := hs
      have hpool : mid.pool = _ := (signal_frame hsignal).1
      intro j hj
      by_cases hji : j = i
      · subst j
        simp [State.unlock, State.setCaller, hpool, State.setEntry]
      · simpa [State.unlock, State.setCaller, hpool, State.setEntry, hji] using hfree j hj
  | done rc entry => cases hs

theorem Phases.congr (h : Phases s) (hpool : s'.pool = s.pool) (hka : s'.keepalive = s.keepalive)
    (hcl : s'.closer = s.closer) : Phases s' := by
  obtain ⟨h₁, h₂, h₃, h₄⟩ := h
  refine ⟨?_, ?_, ?_, ?_⟩ <;> simpa only [hpool, hka, hcl]

/-- A step of any thread stays within the phases. -/
theorem Phases.thread {t : Tid} (hph : Phases s) (hs : threadStep s env t = some s') :
    Phases s' := by
  have hframe := threadStep_frame hs
  cases t with
  | caller id =>
      have hcl := hframe.closer (by simp)
      have hka := hframe.keepalive (by simp)
      obtain ⟨pc, -, hs⟩ := Option.bind_eq_some_iff.mp hs
      refine ⟨?_, ?_, ?_, ?_⟩
      · rw [hcl, hframe.initialized (by simp)]
        exact hph.marked
      · rw [hka, hframe.kaActive (by simp)]
        exact hph.inactive
      · rw [hcl, hka]
        exact hph.joined
      · rw [hcl]
        intro hdrained i hi
        refine callerStep_drained hph hs hdrained i ?_
        rwa [hframe.size (by rw [hcl]; rintro h; simp [h, CloserPc.drained] at hdrained)] at hi
  | keepalive =>
      have hcl := hframe.closer (by simp)
      have hrun := keepaliveStep_not_exited hs
      have hnotJoined : s.closer.joined ≠ true := fun h => hrun (hph.joined h)
      refine ⟨?_, ?_, ?_, ?_⟩
      · rw [hcl, hframe.initialized (by simp)]
        exact hph.marked
      · rw [hframe.kaActive (by simp)]
        exact fun h => absurd (hph.inactive h) hrun
      · rw [hcl]
        exact fun h => absurd h hnotJoined
      · rw [hcl]
        intro hdrained
        refine absurd ?_ hnotJoined
        cases hc : s.closer <;> simp_all [CloserPc.drained, CloserPc.joined]
  | closer =>
      have hka : s'.keepalive = s.keepalive := hframe.keepalive (by simp)
      cases hpc : s.closer <;> simp only [threadStep, closerStep, hpc, reduceCtorEq] at hs
      case mark =>
        cases hs
        cases hactive : s.pool.kaActive with
        | false =>
            have hexit := hph.inactive hactive
            exact ⟨fun _ => rfl, fun _ => hexit, fun _ => hexit,
            fun h => absurd h Bool.false_ne_true⟩
        | true => exact ⟨fun _ => rfl, fun h => absurd h.symm Bool.false_ne_true,
            fun h => absurd h Bool.false_ne_true, fun h => absurd h Bool.false_ne_true⟩
      case join =>
        split at hs <;> cases hs
        next hexit =>
        exact ⟨fun _ => hph.marked (by rw [hpc]; rfl), fun _ => hexit, fun _ => hexit,
            fun h => absurd h Bool.false_ne_true⟩
      case drain | waiting =>
        have hinit := hph.marked (by rw [hpc]; rfl)
        have hexit := hph.joined (by rw [hpc]; rfl)
        split at hs <;> cases hs
        · exact ⟨fun _ => hinit, fun _ => hexit, fun _ => hexit,
            fun h => absurd h Bool.false_ne_true⟩
        · next hbusy =>
            refine ⟨fun _ => hinit, fun _ => hexit, fun _ => hexit, fun _ i hi => ?_⟩
            by_contra huse
            exact hbusy (List.any_eq_true.mpr ⟨i, List.mem_range.mpr hi, Bool.eq_true_of_not_eq_false huse⟩)
      case closing i =>
        have hinit := hph.marked (by rw [hpc]; rfl)
        have hexit := hph.joined (by rw [hpc]; rfl)
        have hfree := hph.drained (by rw [hpc]; rfl)
        cases hs
        exact ⟨fun _ => hinit, fun _ => hexit, fun _ => hexit, fun _ => hfree⟩
      case destroy =>
        have hexit := hph.joined (by rw [hpc]; rfl)
        cases hs
        exact ⟨fun _ => rfl, fun _ => hexit, fun _ => hexit,
            fun h => absurd h Bool.false_ne_true⟩

end Phases

section Monitored

variable {s s' : State} {env : Env}

/-- Who needs the mutex does not change with the steps of other threads. -/
theorem needsMu_frame {t u : Tid} (hframe : Frame s s' t) (hut : u ≠ t)
    (hwaiters : ∀ v, v ≠ t → v ∈ s'.mon.waiters → v ∈ s.mon.waiters)
    (hsize : u = .keepalive → s'.pool.size = s.pool.size) (hu : s.needsMu u = true) :
    s'.needsMu u = true := by
  cases u with
  | caller id =>
      simp only [State.needsMu, hframe.callers id hut.symm] at hu ⊢
      split at hu
      · rfl
      · rfl
      · simp only [decide_eq_true_eq] at hu ⊢
        exact fun h => hu (hwaiters _ hut h)
      · cases hu
  | keepalive =>
      simp only [State.needsMu, hframe.keepalive hut.symm, hsize rfl] at hu ⊢
      cases hpc : s.keepalive <;> simp only [hpc, decide_eq_true_eq] at hu ⊢
      case waiting => exact fun h => hu (hwaiters _ hut h)
      all_goals exact hu
  | closer =>
      simp only [State.needsMu, hframe.closer hut.symm] at hu ⊢
      cases hpc : s.closer <;> simp only [hpc, decide_eq_true_eq] at hu ⊢
      case waiting => exact fun h => hu (hwaiters _ hut h)
      all_goals exact hu

theorem asleep_frame {t u : Tid} (hframe : Frame s s' t) (hut : u ≠ t) (hu : s.asleep u) :
    s'.asleep u := by
  cases u with
  | caller id => exact (hframe.callers id hut.symm).trans hu
  | keepalive => exact (hframe.keepalive hut.symm).trans hu
  | closer => exact (hframe.closer hut.symm).trans hu

/-- A step of any thread takes and gives back the mutex as the monitor has it. -/
theorem Monitored.thread {t : Tid} (hm : Monitored s) (hph : Phases s)
    (hawake : t ∉ s.mon.waiters) (hs : threadStep s env t = some s') : Monitored s' := by
  have hframe := threadStep_frame hs
  have hwaiters : ∀ v, v ≠ t → v ∈ s'.mon.waiters → v ∈ s.mon.waiters := by
    rcases hframe.mon with ⟨-, hmon⟩ | ⟨-, hsub⟩
    · exact fun v _ hv => hmon ▸ hv
    · exact hsub
  refine ⟨?_, ?_, ?_⟩
  · intro u hu
    rcases hframe.mon with ⟨hneeds, hmon⟩ | ⟨hnone, -⟩
    · rw [hmon] at hu
      have hneed := hm.holder u hu
      have hut : u ≠ t := by
        rintro rfl
        rw [hneeds] at hneed
        cases hneed
      refine needsMu_frame hframe hut hwaiters (fun hka => hframe.size fun hclosed => ?_) hneed
      -- the pool is zeroed after the keepalive thread has been joined
      subst hka
      by_cases ht : t = .closer
      · subst t
        have hexit : s'.keepalive = .exited := (hph.thread hs).joined (by rw [hclosed]; rfl)
        rw [hframe.keepalive (by simp)] at hexit
        simp [State.needsMu, hexit] at hneed
      · have hexit := hph.joined (by rw [← hframe.closer ht, hclosed]; rfl)
        simp [State.needsMu, hexit] at hneed
    · rw [hnone] at hu
      cases hu
  · intro u hu
    by_cases hut : u = t
    · subst u
      rcases hframe.sleeps hu with hold | ⟨hasleep, -⟩
      · exact absurd hold hawake
      · exact hasleep
    · exact asleep_frame hframe hut (hm.asleep u (hwaiters u hut hu))
  · intro hinit id hid
    by_cases ht : t = .closer
    · subst t
      by_cases hmark : s.closer = .mark
      · -- the broadcast has woken everybody
        simp only [threadStep, hmark, closerStep, Option.some.injEq] at hs
        subst hs
        exact absurd hid (Finset.notMem_empty _)
      · have hmarked : s.closer.marked = true := by
          cases hpc : s.closer <;> simp_all [threadStep, closerStep, CloserPc.marked]
        exact hm.closed (hph.marked hmarked) id (hwaiters _ (by simp) hid)
    · rw [hframe.initialized ht] at hinit
      by_cases hself : t = .caller id
      · subst t
        rcases hframe.sleeps hid with hold | ⟨-, hopen⟩
        · exact hawake hold
        · rw [hframe.initialized ht, hinit] at hopen
          cases hopen id rfl
      · exact hm.closed hinit id (hwaiters _ (fun h => hself h.symm) hid)

/-- A step of `t` made without the mutex. -/
theorem Monitored.unlocked {t : Tid} (hm : Monitored s) (hframe : Frame s s' t)
    (hneeds : s.needsMu t = false) (hawake : ¬ s.asleep t) (hmon : s'.mon = s.mon)
    (hpool : s'.pool = s.pool) : Monitored s' := by
  refine ⟨?_, ?_, ?_⟩
  · intro u hu
    rw [hmon] at hu
    have hneed := hm.holder u hu
    have hut : u ≠ t := by
      rintro rfl
      rw [hneeds] at hneed
      cases hneed
    exact needsMu_frame hframe hut (fun _ _ hv => hmon ▸ hv) (fun _ => by rw [hpool]) hneed
  · intro u hu
    rw [hmon] at hu
    have hut : u ≠ t := by
      rintro rfl
      exact hawake (hm.asleep u hu)
    exact asleep_frame hframe hut (hm.asleep u hu)
  · rw [hpool, hmon]
    exact hm.closed

theorem needsMu_mono {mon : Monitor Tid} {u : Tid} (hsub : mon.waiters ⊆ s.mon.waiters)
    (hu : s.needsMu u = true) : State.needsMu { s with mon := mon } u = true := by
  cases u with
  | caller id =>
      simp only [State.needsMu] at hu ⊢
      split at hu
      · rfl
      · rfl
      · simp only [decide_eq_true_eq] at hu ⊢
        exact fun hmem => hu (hsub hmem)
      · cases hu
  | keepalive =>
      simp only [State.needsMu] at hu ⊢
      cases hpc : s.keepalive <;> simp only [hpc, decide_eq_true_eq] at hu ⊢
      case waiting => exact fun hmem => hu (hsub hmem)
      all_goals exact hu
  | closer =>
      simp only [State.needsMu] at hu ⊢
      cases hpc : s.closer <;> simp only [hpc, decide_eq_true_eq] at hu ⊢
      case waiting => exact fun hmem => hu (hsub hmem)
      all_goals exact hu

theorem Monitored.wake {t : Tid} (hm : Monitored s) :
    Monitored { s with mon := s.mon.wake t } where
  holder := fun u hu => needsMu_mono (Finset.erase_subset _ _) (hm.holder u hu)
  asleep := by
    intro u hu
    have := hm.asleep u (Finset.mem_of_mem_erase hu)
    cases u <;> exact this
  closed := fun hinit id hid => hm.closed hinit id (Finset.mem_of_mem_erase hid)

end Monitored

/-- A call that returns without having had an entry returns
`BP_ERR_NOT_OPEN`. -/
def NotOpenOnly (s : State) : Prop :=
  ∀ id rc, s.callers id = some (.done rc none) → rc = errNotOpen

/-- A caller that leaves without an entry has found the pool closed. -/
theorem NotOpenOnly.thread {s s' : State} {env : Env} {t : Tid} (hn : NotOpenOnly s)
    (hs : threadStep s env t = some s') : NotOpenOnly s' := by
  intro id rc hdone
  by_cases ht : t = .caller id
  · subst t
    obtain ⟨pc, -, hs⟩ := Option.bind_eq_some_iff.mp hs
    cases pc with
    | enter | waiting =>
        simp only [callerStep, Option.some.injEq] at hs
        subst hs
        split at hdone
        · unfold acquireOrWait at hdone
          split at hdone <;> simp [State.unlock, State.wait, State.setCaller] at hdone
        · simp only [State.unlock, State.setCaller, Function.update_self, Option.some.injEq,
            CallerPc.done.injEq] at hdone
          exact hdone.1.symm
    | running i a =>
        cases hs
        simp [State.setCaller] at hdone
    | release i rc' =>
        simp only [callerStep, Option.map_eq_some_iff] at hs
        obtain ⟨mid, -, rfl⟩ := hs
        simp [State.unlock, State.setCaller] at hdone
    | done rc' entry => cases hs
  · exact hn id rc ((threadStep_frame hs).callers id ht ▸ hdone)

/-- What holds of the pool, of its mutex and of its callers in every state. -/
structure Lifecycle (s : State) : Prop where
  phases : Phases s
  monitored : Monitored s
  notOpen : NotOpenOnly s

theorem Initial.lifecycle {s : State} (h : Initial s) : Lifecycle s := by
  obtain ⟨slot, size, keepaliveMs, now, kaActive, -, -, -, rfl⟩ := h
  refine ⟨⟨fun h => absurd h Bool.false_ne_true, ?_, fun h => absurd h Bool.false_ne_true,
    fun h => absurd h Bool.false_ne_true⟩, ⟨by simp [opened], ?_,
    by simp [opened, openedPool]⟩, by simp [NotOpenOnly, opened]⟩
  · intro hinactive
    have : kaActive = false := hinactive
    subst this
    rfl
  · intro t ht
    exact absurd ht (Finset.notMem_empty t)

/-- Every step keeps the lifecycle, a spurious wake-up among them. -/
theorem Lifecycle.step {s s' : State} {l : Label} (h : Lifecycle s)
    (hs : step s l = some s') : Lifecycle s' := by
  obtain ⟨hph, hm, hn⟩ := h
  cases l with
  | start id =>
      simp only [CPool.step] at hs
      split at hs <;> cases hs
      next hnone =>
      have hneeds : s.needsMu (.caller id) = false := by simp [State.needsMu, hnone]
      have hframe : Frame s (s.setCaller id .enter) (.caller id) :=
        callerFrame (fun id' hid => by simp [State.setCaller, hid]) rfl rfl rfl rfl rfl rfl
          (.inl ⟨hneeds, rfl⟩) .inl
      refine ⟨hph.congr rfl rfl rfl, hm.unlocked hframe hneeds ?_ rfl rfl, ?_⟩
      · simp [State.asleep, hnone]
      · intro id' rc hdone
        by_cases hid : id' = id
        · subst id'
          simp [State.setCaller] at hdone
        · exact hn id' rc (by simpa [State.setCaller, hid] using hdone)
  | close =>
      simp only [CPool.step] at hs
      split at hs <;> cases hs
      next hidle =>
      have hneeds : s.needsMu .closer = false := by simp [State.needsMu, hidle.1]
      have hframe : Frame s (s.setCloser .mark) .closer :=
        ⟨fun _ _ => rfl, fun _ => rfl, fun h => absurd rfl h, fun _ => rfl, fun _ => rfl,
          fun _ => rfl, fun _ => rfl, .inl ⟨hneeds, rfl⟩, .inl⟩
      refine ⟨⟨fun h => absurd h Bool.false_ne_true, hph.inactive,
        fun h => absurd h Bool.false_ne_true, fun h => absurd h Bool.false_ne_true⟩,
        hm.unlocked hframe hneeds ?_ rfl rfl, hn⟩
      simp [State.asleep, hidle.1]
  | lock t =>
      simp only [CPool.step] at hs
      split at hs <;> try cases hs
      next hneeds =>
      obtain ⟨mon, hmon, rfl⟩ := Option.map_eq_some_iff.mp hs
      obtain ⟨-, rfl⟩ := Monitor.lock_eq_some.mp hmon
      refine ⟨hph.congr rfl rfl rfl, ⟨fun u hu => ?_, fun u hu => ?_, hm.closed⟩, hn⟩
      · obtain rfl : t = u := Option.some.inj hu
        exact needsMu_mono subset_rfl hneeds.1
      · have := hm.asleep u hu
        cases u <;> exact this
  | run t env =>
      obtain ⟨hs, hawake, -⟩ := threadStep_of_run hs
      exact ⟨hph.thread hs, hm.thread hph hawake hs, hn.thread hs⟩
  | wake t =>
      simp only [CPool.step] at hs
      split at hs <;> cases hs
      exact ⟨hph.congr rfl rfl rfl, hm.wake, hn⟩
  | timeout =>
      simp only [CPool.step] at hs
      split at hs <;> cases hs
      next hwait =>
      have hrun : s.keepalive ≠ .exited := by simp [hwait.1]
      have hmid := hm.wake (t := .keepalive)
      refine ⟨⟨hph.marked, fun h => absurd (hph.inactive h) hrun,
        fun h => absurd (hph.joined h) hrun, hph.drained⟩, ⟨fun u hu => ?_, fun u hu => ?_, ?_⟩, hn⟩
      · have := hmid.holder u hu
        cases u with
        | keepalive => rfl
        | _ => exact this
      · have := hmid.asleep u hu
        cases u with
        | keepalive => exact absurd hu (Finset.notMem_erase _ _)
        | _ => exact this
      · exact hmid.closed

theorem lifecycle_of_reachable {s : State} (h : pool.Reachable s) : Lifecycle s :=
  h.invariant Lifecycle (fun _ => Initial.lifecycle) (fun _ _ _ ih _ hs => ih.step hs)

/-- Nobody is at the mutex or the condition variable, and every call has
returned: with `BP_ERR_NOT_OPEN` if it had no entry. -/
structure Quiescent (s : State) : Prop where
  holder : s.mon.holder = none
  waiters : s.mon.waiters = ∅
  callers : ∀ id pc, s.callers id = some pc →
    ∃ rc entry, pc = .done rc entry ∧ (entry = none → rc = errNotOpen)
  keepalive : s.keepalive = .exited

/-- The caller is in `bp_client_pool_txrx` without an entry: before its first look at
`initialized`, or in the wait. -/
def CallerPc.queued : CallerPc → Bool
  | .enter | .waiting => true
  | _ => false

/-- The drain, when it finds no entry in use, has let every caller without an entry
go; and nobody calls `bp_client_pool_txrx` from then on until the mutex is
destroyed. -/
def DrainCounts (s : State) : Label → Prop
  | .run .closer _ =>
      (s.closer = .drain ∨ s.closer = .waiting) → anyBusy s.pool = false →
        ∀ id pc, s.callers id = some pc → pc.queued = false
  | .start _ => s.closer.drained = false
  | _ => True

/-- After the drain nobody is left who has no entry yet. -/
def Counted (s : State) : Prop :=
  s.closer.drained = true → ∀ id pc, s.callers id = some pc → pc.queued = false

section Drain

variable {s s' : State} {env : Env}

/-- A caller that is not queued does not queue again. -/
theorem callerStep_queued {id : CallId} {pc : CallerPc} (hqueued : pc.queued = false)
    (hs : callerStep s id env pc = some s') :
    ∀ pc', s'.callers id = some pc' → pc'.queued = false := by
  intro pc' hpc'
  cases pc with
  | enter | waiting => cases hqueued
  | running i a =>
      cases hs
      obtain rfl : CallerPc.release i env.rc = pc' := by simpa [State.setCaller] using hpc'
      rfl
  | release i rc =>
      simp only [callerStep, Option.map_eq_some_iff] at hs
      obtain ⟨mid, -, rfl⟩ := hs
      obtain rfl : CallerPc.done rc (some i) = pc' := by
        simpa [State.unlock, State.setCaller] using hpc'
      rfl
  | done rc entry => cases hs

/-- A step of any thread keeps it, if the drain has let every caller without an entry go. -/
theorem Counted.thread {t : Tid} (hc : Counted s)
    (hdrain : t = .closer → s.closer = .drain ∨ s.closer = .waiting → anyBusy s.pool = false →
      ∀ id pc, s.callers id = some pc → pc.queued = false)
    (hs : threadStep s env t = some s') : Counted s' := by
  have hframe := threadStep_frame hs
  cases t with
  | caller id =>
      intro hdrained id' pc' hpc'
      rw [hframe.closer (by simp)] at hdrained
      obtain ⟨pc, hpc, hs⟩ := Option.bind_eq_some_iff.mp hs
      by_cases hid : id' = id
      · subst id'
        exact callerStep_queued (hc hdrained id pc hpc) hs pc' hpc'
      · rw [hframe.callers id' (by simpa using Ne.symm hid)] at hpc'
        exact hc hdrained id' pc' hpc'
  | keepalive =>
      intro hdrained id pc hpc
      rw [hframe.closer (by simp)] at hdrained
      rw [hframe.callers id (by simp)] at hpc
      exact hc hdrained id pc hpc
  | closer =>
      intro hdrained id pc hpc
      rw [hframe.callers id (by simp)] at hpc
      cases hcl : s.closer <;> simp only [threadStep, closerStep, hcl, reduceCtorEq] at hs
      case mark =>
        cases hs
        simp only [State.unlock, State.setCloser] at hdrained
        split at hdrained <;> cases hdrained
      case join =>
        split at hs <;> cases hs
        cases hdrained
      case drain | waiting =>
        split at hs <;> cases hs
        · cases hdrained
        · next hbusy =>
            exact hdrain rfl (by simp [hcl]) (Bool.eq_false_of_not_eq_true hbusy) id pc hpc
      case closing i => exact hc (by rw [hcl]; rfl) id pc hpc
      case destroy =>
        cases hs
        cases hdrained

theorem Counted.step {l : Label} (hc : Counted s) (hok : DrainCounts s l)
    (hs : step s l = some s') : Counted s' := by
  cases l with
  | start id =>
      simp only [CPool.step] at hs
      split at hs <;> cases hs
      intro hdrained
      cases hok.symm.trans hdrained
  | close =>
      simp only [CPool.step] at hs
      split at hs <;> cases hs
      exact fun hdrained => absurd hdrained Bool.false_ne_true
  | lock t =>
      simp only [CPool.step] at hs
      split at hs <;> try cases hs
      obtain ⟨mon, -, rfl⟩ := Option.map_eq_some_iff.mp hs
      exact hc
  | run t env =>
      refine hc.thread ?_ (threadStep_of_run hs).1
      rintro rfl
      exact hok
  | wake t | timeout =>
      simp only [CPool.step] at hs
      split at hs <;> cases hs
      exact hc

theorem counted_of_reaches (h : pool.Reaches DrainCounts s) : Counted s := by
  apply h.invariant Counted
  · rintro s ⟨slot, size, keepaliveMs, now, kaActive, -, -, -, rfl⟩ hdrained
    cases hdrained
  · exact fun _ _ _ hc hok hs => hc.step hok hs

/-- When the mutex is destroyed, a caller that is not queued has returned. -/
theorem done_of_not_queued {id : CallId} {pc : CallerPc} (h : Lifecycle s) (hinv : Inv s)
    (hdestroy : s.closer = .destroy) (hpc : s.callers id = some pc) (hqueued : pc.queued = false) :
    ∃ rc entry, pc = .done rc entry ∧ (entry = none → rc = errNotOpen) := by
  have hidle : pc.holds = none := by
    cases hholds : pc.holds with
    | none => rfl
    | some i =>
        have hheld : s.holds (.caller id) = some i := (holds_caller hpc).trans hholds
        have huse := (hinv.leases.held i).mpr ⟨.caller id, hheld⟩
        have hnot := h.phases.drained (by rw [hdestroy]; rfl) i (hinv.bound _ i hheld)
        exact absurd (huse.symm.trans hnot) (by simp)
  cases pc with
  | enter | waiting => cases hqueued
  | running i a | release i rc => cases hidle
  | done rc entry =>
      refine ⟨rc, entry, rfl, ?_⟩
      rintro rfl
      exact h.notOpen id rc hpc

/-- With nobody on the way to an entry, nobody is left when the mutex is destroyed. -/
theorem quiescent_of_counted (h : Lifecycle s) (hinv : Inv s) (hdestroy : s.closer = .destroy)
    (hcounted : ∀ id pc, s.callers id = some pc → pc.queued = false) : Quiescent s := by
  have hexit : s.keepalive = .exited := h.phases.joined (by rw [hdestroy]; rfl)
  have hinit : s.pool.initialized = false := h.phases.marked (by rw [hdestroy]; rfl)
  have hdone : ∀ id pc, s.callers id = some pc →
      ∃ rc entry, pc = .done rc entry ∧ (entry = none → rc = errNotOpen) :=
    fun id pc hpc => done_of_not_queued h hinv hdestroy hpc (hcounted id pc hpc)
  refine ⟨?_, ?_, hdone, hexit⟩
  · cases hholder : s.mon.holder with
    | none => rfl
    | some t =>
        have hneeds := h.monitored.holder t hholder
        cases t with
        | caller id =>
            cases hpc : s.callers id with
            | none => simp [State.needsMu, hpc] at hneeds
            | some pc =>
                obtain ⟨rc, entry, rfl, -⟩ := hdone id pc hpc
                simp [State.needsMu, hpc] at hneeds
        | keepalive => simp [State.needsMu, hexit] at hneeds
        | closer => simp [State.needsMu, hdestroy] at hneeds
  · refine Finset.eq_empty_of_forall_notMem fun t ht => ?_
    have hasleep := h.monitored.asleep t ht
    cases t with
    | caller id => exact h.monitored.closed hinit id ht
    | keepalive => cases hexit.symm.trans hasleep
    | closer => cases hdestroy.symm.trans hasleep

/-- The closing thread alone: nothing keeps `pool_close` from the destroy once it has
left the drain. -/
theorem closer_gets_to_destroy (hm : ∀ t ∈ s.mon.waiters, s.asleep t)
    (hdrained : s.closer.drained = true) :
    ∃ n t, pool.run s (List.replicate n (.run .closer {})) = some t ∧ t.closer = .destroy ∧
      t.callers = s.callers := by
  have awake : ∀ t : State, t.closer.drained = true → (∀ u ∈ t.mon.waiters, t.asleep u) →
      CPool.step t (.run .closer {}) = closerStep t t.closer := by
    intro t hdrained hm
    have hblocked : t.blocked .closer = false := by
      rw [State.blocked, decide_eq_false_iff_not]
      intro hmem
      have hwait : t.closer = .waiting := hm _ hmem
      rw [hwait] at hdrained
      cases hdrained
    have hneeds : t.needsMu .closer = false := by
      cases hcl : t.closer <;> simp_all [CloserPc.drained, State.needsMu]
    simp [CPool.step, hblocked, hneeds, threadStep]
  have closing : ∀ n i (t : State), t.closer = .closing i → (∀ u ∈ t.mon.waiters, t.asleep u) →
      t.pool.size - i = n → ∃ t', pool.run t (List.replicate (n + 1) (.run .closer {})) = some t' ∧
        t'.closer = .destroy ∧ t'.callers = t.callers := by
    intro n
    induction n with
    | zero =>
        intro i t hcl hm hn
        have hlast : ¬i < t.pool.size := by omega
        refine ⟨t.setCloser .destroy, ?_, rfl, rfl⟩
        simp [pool, awake t (by rw [hcl]; rfl) hm, hcl, closerStep, hlast]
    | succ n ih =>
        intro i t hcl hm hn
        have hmore : i < t.pool.size := by omega
        have hnext : CPool.step t (.run .closer {}) = some (t.setCloser (.closing (i + 1))) := by
          simp [awake t (by rw [hcl]; rfl) hm, hcl, closerStep, hmore]
        have hm' : ∀ u ∈ t.mon.waiters, (t.setCloser (.closing (i + 1))).asleep u := by
          intro u hu
          have hasleep := hm u hu
          cases u with
          | closer => cases hcl.symm.trans hasleep
          | _ => exact hasleep
        have hn' : (t.setCloser (.closing (i + 1))).pool.size - (i + 1) = n := by
          change t.pool.size - (i + 1) = n
          omega
        obtain ⟨t', hrun, hend, hcallers⟩ := ih (i + 1) (t.setCloser (.closing (i + 1))) rfl hm' hn'
        refine ⟨t', ?_, hend, hcallers⟩
        have hstep : pool.step t (.run .closer {}) = some (t.setCloser (.closing (i + 1))) := hnext
        rw [List.replicate_succ, System.run_cons, hstep, Option.bind_some, hrun]
  cases hcl : s.closer with
  | closing i =>
      obtain ⟨t, hrun, hend, hcallers⟩ := closing _ i s hcl hm rfl
      exact ⟨_, t, hrun, hend, hcallers⟩
  | destroy => exact ⟨0, s, rfl, hcl, rfl⟩
  | _ => simp [hcl, CloserPc.drained] at hdrained

/-- After a step outside `DrainCounts` the drain is over and somebody is queued. -/
theorem queued_of_not_drainCounts {l : Label} (hs : step s l = some s') (hbad : ¬DrainCounts s l) :
    s'.closer.drained = true ∧ ∃ id pc, s'.callers id = some pc ∧ pc.queued = true := by
  cases l with
  | start id =>
      simp only [DrainCounts, Bool.not_eq_false] at hbad
      simp only [CPool.step] at hs
      split at hs <;> cases hs
      exact ⟨hbad, id, .enter, by simp [State.setCaller], rfl⟩
  | run t env =>
      cases t with
      | closer =>
          simp only [DrainCounts, not_forall, Bool.not_eq_false] at hbad
          obtain ⟨hcl, hfree, id, pc, hpc, hqueued⟩ := hbad
          obtain ⟨hs, -, -⟩ := threadStep_of_run hs
          rcases hcl with hcl | hcl <;>
          · simp only [threadStep, hcl, closerStep, hfree, Option.some.injEq, Bool.false_eq_true,
              if_false] at hs
            subst hs
            exact ⟨rfl, id, pc, hpc, hqueued⟩
      | caller id => exact absurd trivial hbad
      | keepalive => exact absurd trivial hbad
  | close => exact absurd trivial hbad
  | lock t => exact absurd trivial hbad
  | wake t => exact absurd trivial hbad
  | timeout => exact absurd trivial hbad

end Drain

/-- `bp_client_pool_close` leaves nobody at the mutex or the condition variable that
it destroys, in runs in which the drain ends only when every caller without an
entry has gone, and no call arrives after that. A step against this can always be
followed by a destroy with somebody left. And a call that had no entry never
returns anything but `BP_ERR_NOT_OPEN`. -/
theorem quiescent_of_drainCounts {s : State} (h : pool.Reachable s) :
    (pool.Reaches DrainCounts s → s.closer = .destroy → Quiescent s) ∧
      (∀ l s', step s l = some s' → ¬DrainCounts s l →
        ∃ n t, pool.run s' (List.replicate n (.run .closer {})) = some t ∧ t.closer = .destroy ∧
          ¬Quiescent t) ∧
      ∀ id rc, s.callers id = some (.done rc none) → rc = errNotOpen := by
  have hlife := lifecycle_of_reachable h
  refine ⟨?_, ?_, hlife.notOpen⟩
  · intro hreaches hdestroy
    have hinv := inv_of_reachable h (by simp [hdestroy])
    exact quiescent_of_counted hlife hinv hdestroy
      (counted_of_reaches hreaches (by rw [hdestroy]; rfl))
  · intro l s' hs hbad
    obtain ⟨hdrained, id, pc, hpc, hqueued⟩ := queued_of_not_drainCounts hs hbad
    obtain ⟨n, t, hrun, hdestroy, hcallers⟩ :=
      closer_gets_to_destroy (hlife.step hs).monitored.asleep hdrained
    refine ⟨n, t, hrun, hdestroy, fun hquiet => ?_⟩
    obtain ⟨rc, entry, rfl, -⟩ := hquiet.callers id pc (by rw [hcallers, hpc])
    cases hqueued

/-- A pool of one entry: call 1 uses the entry, call 2 waits for it, and then
`pool_close` clears `initialized` and wakes call 2. -/
def closeBegins : List Label :=
  [.start 1] ++ critical (.caller 1) {} ++ [.start 2] ++ critical (.caller 2) {} ++
    [.close] ++ critical .closer {}

/-- `DrainCounts` for calls 1 and 2 alone. -/
def countsTwo (s : State) : Label → Bool
  | .run .closer _ =>
      !(decide (s.closer = .drain) || decide (s.closer = .waiting)) || anyBusy s.pool ||
        [1, 2].all fun id => (s.callers id).all (!·.queued)
  | .start id => [1, 2].contains id && !s.closer.drained
  | _ => true

/-- Only its start brings a call into the pool. -/
theorem step_callers_none {s s' : State} {l : Label} {id : CallId} (hs : step s l = some s')
    (hnone : s.callers id = none) (hl : l ≠ .start id) : s'.callers id = none := by
  cases l with
  | start id' =>
      have hne : id ≠ id' := fun h => hl (by rw [h])
      simp only [step] at hs
      split at hs <;> cases hs
      simpa [State.setCaller, hne] using hnone
  | run t env =>
      obtain ⟨hs, -, -⟩ := threadStep_of_run hs
      by_cases ht : t = .caller id
      · subst t
        simp [threadStep, hnone] at hs
      · rw [(threadStep_frame hs).callers id ht]
        exact hnone
  | close | wake t | timeout =>
      simp only [step] at hs
      split at hs <;> cases hs
      exact hnone
  | lock t =>
      simp only [step] at hs
      split at hs <;> try cases hs
      obtain ⟨mon, -, rfl⟩ := Option.map_eq_some_iff.mp hs
      exact hnone

theorem drainCounts_of_countsTwo {s : State} (h : pool.Reaches (fun s l => countsTwo s l = true) s) :
    pool.Reaches DrainCounts s := by
  have others : ∀ s, pool.Reaches (fun s l => countsTwo s l = true) s →
      ∀ id ∉ [1, 2], s.callers id = none := by
    intro s h
    apply h.invariant (fun s => ∀ id ∉ [1, 2], s.callers id = none)
    · rintro s ⟨slot, size, keepaliveMs, now, kaActive, -, -, -, rfl⟩ id _
      rfl
    · intro s l s' ih hok hs id hid
      apply step_callers_none hs (ih id hid)
      rintro rfl
      simp only [countsTwo, Bool.and_eq_true, List.contains_iff_mem] at hok
      exact hid hok.1
  apply h.mono_of
  intro s l hr hok
  cases l with
  | start id =>
      simp only [countsTwo, Bool.and_eq_true, Bool.not_eq_true'] at hok
      exact hok.2
  | run t env =>
      cases t with
      | closer =>
          intro hcl hfree id pc hpc
          by_cases hid : id ∈ [1, 2]
          · have hdrains : (decide (s.closer = .drain) || decide (s.closer = .waiting)) = true := by
              simpa using hcl
            rw [countsTwo, hfree, hdrains] at hok
            simpa [hpc] using List.all_eq_true.mp hok id hid
          · cases (others s hr id hid).symm.trans hpc
      | caller id => trivial
      | keepalive => trivial
  | close => trivial
  | lock t => trivial
  | wake t => trivial
  | timeout => trivial

/-- Call 2 gets the mutex back first and returns `BP_ERR_NOT_OPEN`. -/
theorem quiescent_of_drainCounts_after_close :
    ∃ s, s.closer = .destroy ∧ s.callers 1 = some (.done 0 (some 0)) ∧
      s.callers 2 = some (.done errNotOpen none) ∧ Quiescent s := by
  obtain ⟨s, hs, hp⟩ :=
    pool.exists_reaches_of_run (fun s l => countsTwo s l = true)
      (opened_initial 3 1 (by decide) (by decide) (by decide) 0 0 false)
      (closeBegins ++ critical (.caller 2) {} ++ [.run (.caller 1) {}] ++ critical (.caller 1) {} ++
        critical .closer {} ++ [.run .closer {}, .run .closer {}])
      (fun s => decide (s.closer = .destroy ∧ s.callers 1 = some (.done 0 (some 0)) ∧
        s.callers 2 = some (.done errNotOpen none))) (by decide +kernel)
  obtain ⟨hdestroy, h1, h2⟩ := of_decide_eq_true hp
  exact ⟨s, hdestroy, h1, h2,
    (quiescent_of_drainCounts hs.reachable).1 (drainCounts_of_countsTwo hs) hdestroy⟩

/-- Call 1 returns its entry before call 2 has got the mutex back; the drain
finds nothing in use, and the mutex is destroyed while call 2 still has to lock
it. -/
theorem not_quiescent_with_woken_caller :
    ∃ s, pool.Reachable s ∧ s.closer = .destroy ∧ s.callers 2 = some .waiting ∧
      s.needsMu (.caller 2) = true ∧ ¬ Quiescent s := by
  obtain ⟨s, hs, hp⟩ :=
    pool.exists_reaches_of_run (fun _ _ => True)
      (opened_initial 3 1 (by decide) (by decide) (by decide) 0 0 false)
      (closeBegins ++ [.run (.caller 1) {}] ++ critical (.caller 1) {} ++ critical .closer {} ++
        [.run .closer {}, .run .closer {}])
      (fun s => decide (s.closer = .destroy ∧ s.callers 2 = some .waiting ∧
        s.needsMu (.caller 2) = true)) (by decide +kernel)
  obtain ⟨hdestroy, h2, hneeds⟩ := of_decide_eq_true hp
  refine ⟨s, hs, hdestroy, h2, hneeds, fun hquiet => ?_⟩
  obtain ⟨rc, entry, hpc, -⟩ := hquiet.callers 2 _ h2
  cases hpc

end BpClient.CPool
