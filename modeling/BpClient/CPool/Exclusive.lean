import BpClient.CPool.Steps
import BpClient.Lib.Leases

/-!
Who holds which pool entry. `pool_acquire_locked`, the ping and the reopen each
mark an entry in one critical section and give it back in a later one; every
step is a move of `Leases`.
-/

namespace BpClient.CPool

open BpClient.Lib

def CallerPc.holds : CallerPc → Option Nat
  | .running i _ | .release i _ => some i
  | _ => none

def KeepalivePc.holds : KeepalivePc → Option Nat
  | .pinging i _ _ | .pinged i _ _ | .reopening i _ | .reopened i _ => some i
  | _ => none

/-- The entry a request of the thread is outstanding on, and the app_handle it
goes to. -/
def CallerPc.request : CallerPc → Option (Nat × Nat)
  | .running i h => some (i, h)
  | _ => none

def KeepalivePc.request : KeepalivePc → Option (Nat × Nat)
  | .pinging i h _ | .reopening i h => some (i, h)
  | _ => none

namespace State

variable (s : State)

/-- The entry a thread has marked in use and not yet given back. -/
def holds : Tid → Option Nat
  | .caller id => (s.callers id).bind CallerPc.holds
  | .keepalive => s.keepalive.holds
  | .closer => none

def request : Tid → Option (Nat × Nat)
  | .caller id => (s.callers id).bind CallerPc.request
  | .keepalive => s.keepalive.request
  | .closer => none

def leases : Leases Tid Nat where
  inUse := fun i => (s.pool.entries i).inUse = true
  holds := s.holds

end State

/-- The ownership of entries, until `pool_close` zeroes the pool. -/
structure Inv (s : State) : Prop where
  leases : s.leases.Inv
  bound : ∀ t i, s.holds t = some i → i < s.pool.size
  size_le : s.pool.size ≤ maxSize
  handles : ∀ i < s.pool.size, (s.pool.entries i).appHandle = poolAppHandle s.pool.slot i
  request : ∀ t i h, s.request t = some (i, h) →
    s.holds t = some i ∧ h = (s.pool.entries i).appHandle
  alive : ∀ id i, s.holds (.caller id) = some i → (s.pool.entries i).dead = false

structure Effect (s s' : State) (t : Tid) : Prop where
  size : s'.pool.size = s.pool.size
  slot : s'.pool.slot = s.pool.slot
  appHandle : ∀ i, (s'.pool.entries i).appHandle = (s.pool.entries i).appHandle
  frame : ∀ u, u ≠ t → s'.holds u = s.holds u ∧ s'.request u = s.request u
  move : s.leases.Move s'.leases t
  bound : ∀ i, s'.holds t = some i → i < s.pool.size
  request : ∀ i h, s'.request t = some (i, h) →
    s'.holds t = some i ∧ h = (s'.pool.entries i).appHandle
  /-- Only the keepalive thread changes `dead`, and only of the entry it holds. -/
  dead : ∀ i, (s'.pool.entries i).dead = (s.pool.entries i).dead ∨
    (t = .keepalive ∧ s.holds t = some i)
  alive : ∀ id i, t = .caller id → s'.holds t = some i → (s'.pool.entries i).dead = false

/-- A step that hands entries over as it should keeps their ownership. -/
theorem Inv.effect {s s' : State} {t : Tid} (h : Inv s) (he : Effect s s' t) : Inv s' where
  leases := h.leases.move (fun u hu => (he.frame u hu).1) he.move
  bound := by
    intro u i hu
    rw [he.size]
    by_cases hut : u = t
    · subst u
      exact he.bound i hu
    · exact h.bound u i ((he.frame u hut).1 ▸ hu)
  size_le := he.size ▸ h.size_le
  handles := by
    intro i hi
    rw [he.appHandle, he.slot]
    exact h.handles i (he.size ▸ hi)
  request := by
    intro u i a hu
    by_cases hut : u = t
    · subst u
      exact he.request i a hu
    · rw [(he.frame u hut).1, he.appHandle]
      exact h.request u i a ((he.frame u hut).2 ▸ hu)
  alive := by
    intro id i hi
    by_cases hut : Tid.caller id = t
    · subst t
      exact he.alive id i rfl hi
    · rw [(he.frame _ hut).1] at hi
      rcases he.dead i with same | ⟨-, held⟩
      · rw [same]
        exact h.alive id i hi
      · exact absurd (h.leases.unique (.caller id) t i hi held) hut

section Build

variable {s s' : State} {t : Tid}

/-- A step that changes no entry. -/
theorem Effect.quiet (h : Inv s) (hentries : s'.pool.entries = s.pool.entries)
    (hsize : s'.pool.size = s.pool.size) (hslot : s'.pool.slot = s.pool.slot)
    (hframe : ∀ u, u ≠ t → s'.holds u = s.holds u ∧ s'.request u = s.request u)
    (hholds : s'.holds t = s.holds t)
    (hrequest : s'.request t = none ∨ s'.request t = s.request t) : Effect s s' t where
  size := hsize
  slot := hslot
  appHandle := fun i => by rw [hentries]
  frame := hframe
  move := .quiet hholds (fun j => by simp only [State.leases, hentries])
  bound := fun i hi => h.bound t i (hholds ▸ hi)
  request := by
    intro i a ha
    rcases hrequest with hnone | hsame
    · rw [hnone] at ha
      cases ha
    · rw [hholds, hentries]
      exact h.request t i a (hsame ▸ ha)
  dead := fun i => .inl (by rw [hentries])
  alive := by
    rintro id i rfl hi
    rw [hentries]
    exact h.alive id i (hholds ▸ hi)

/-- A step that marks a free entry in use. -/
theorem Effect.take {i : Nat} {e : Entry} (hi : i < s.pool.size)
    (hfree : (s.pool.entries i).inUse = false)
    (hentries : s'.pool.entries = Function.update s.pool.entries i e)
    (hsize : s'.pool.size = s.pool.size) (hslot : s'.pool.slot = s.pool.slot)
    (hframe : ∀ u, u ≠ t → s'.holds u = s.holds u ∧ s'.request u = s.request u)
    (hset : e.inUse = true) (hhandle : e.appHandle = (s.pool.entries i).appHandle)
    (hdead : e.dead = (s.pool.entries i).dead) (hnone : s.holds t = none)
    (hholds : s'.holds t = some i)
    (hrequest : s'.request t = some (i, (s.pool.entries i).appHandle))
    (halive : t ≠ .keepalive → (s.pool.entries i).dead = false) : Effect s s' t where
  size := hsize
  slot := hslot
  appHandle := by
    intro j
    by_cases hj : j = i
    · subst j; simp [hentries, hhandle]
    · simp [hentries, hj]
  frame := hframe
  move := .take i hnone (by simp [State.leases, hfree]) hholds (by simp [State.leases, hentries, hset])
    (fun j hj => by simp [State.leases, hentries, hj])
  bound := fun j hj => by
    cases hholds.symm.trans hj
    exact hi
  request := by
    intro j a ha
    cases hrequest.symm.trans ha
    exact ⟨hholds, by simp [hentries, hhandle]⟩
  dead := by
    intro j
    by_cases hj : j = i
    · subst j; simp [hentries, hdead]
    · simp [hentries, hj]
  alive := by
    rintro id j rfl hj
    cases hholds.symm.trans hj
    simpa [hentries, hdead] using halive (by simp)

/-- A step that gives back the entry of its thread. -/
theorem Effect.give {i : Nat} {e : Entry}
    (hheld : s.holds t = some i)
    (hentries : s'.pool.entries = Function.update s.pool.entries i e)
    (hsize : s'.pool.size = s.pool.size) (hslot : s'.pool.slot = s.pool.slot)
    (hframe : ∀ u, u ≠ t → s'.holds u = s.holds u ∧ s'.request u = s.request u)
    (hclear : e.inUse = false) (hhandle : e.appHandle = (s.pool.entries i).appHandle)
    (hdead : e.dead = (s.pool.entries i).dead ∨ t = .keepalive)
    (hholds : s'.holds t = none) (hrequest : s'.request t = none) : Effect s s' t where
  size := hsize
  slot := hslot
  appHandle := by
    intro j
    by_cases hj : j = i
    · subst j; simp [hentries, hhandle]
    · simp [hentries, hj]
  frame := hframe
  move := .give i hheld hholds (by simp [State.leases, hentries, hclear])
    (fun j hj => by simp [State.leases, hentries, hj])
  bound := fun j hj => by simp [hholds] at hj
  request := fun j a ha => by simp [hrequest] at ha
  dead := by
    intro j
    by_cases hj : j = i
    · subst j
      rcases hdead with same | hka
      · exact .inl (by simp [hentries, same])
      · exact .inr ⟨hka, hheld⟩
    · exact .inl (by simp [hentries, hj])
  alive := fun id j _ hj => by simp [hholds] at hj

end Build

section Frames

variable (s : State) (id : CallId) (pc : CallerPc) (kpc : KeepalivePc) (cpc : CloserPc)
  (i : Nat) (e : Entry) (t u : Tid)

@[simp] theorem holds_setEntry : (s.setEntry i e).holds u = s.holds u := rfl
@[simp] theorem request_setEntry : (s.setEntry i e).request u = s.request u := rfl
@[simp] theorem holds_unlock : s.unlock.holds u = s.holds u := rfl
@[simp] theorem request_unlock : s.unlock.request u = s.request u := rfl
@[simp] theorem holds_wait : (s.wait t).holds u = s.holds u := rfl
@[simp] theorem request_wait : (s.wait t).request u = s.request u := rfl
@[simp] theorem holds_broadcast : s.broadcast.holds u = s.holds u := rfl
@[simp] theorem request_broadcast : s.broadcast.request u = s.request u := rfl
@[simp] theorem holds_setCloser : (s.setCloser cpc).holds u = s.holds u := rfl
@[simp] theorem request_setCloser : (s.setCloser cpc).request u = s.request u := rfl

@[simp] theorem holds_setCaller_self : (s.setCaller id pc).holds (.caller id) = pc.holds := by
  simp [State.setCaller, State.holds]

@[simp] theorem request_setCaller_self :
    (s.setCaller id pc).request (.caller id) = pc.request := by
  simp [State.setCaller, State.request]

@[simp] theorem holds_setKeepalive_self : (s.setKeepalive kpc).holds .keepalive = kpc.holds := rfl

@[simp] theorem request_setKeepalive_self :
    (s.setKeepalive kpc).request .keepalive = kpc.request := rfl

theorem setCaller_frame (hu : u ≠ .caller id) :
    (s.setCaller id pc).holds u = s.holds u ∧ (s.setCaller id pc).request u = s.request u := by
  cases u with
  | caller id' =>
      have hid : id' ≠ id := fun h => hu (by rw [h])
      simp [State.setCaller, State.holds, State.request, hid]
  | _ => exact ⟨rfl, rfl⟩

theorem setKeepalive_frame (hu : u ≠ .keepalive) :
    (s.setKeepalive kpc).holds u = s.holds u ∧
      (s.setKeepalive kpc).request u = s.request u := by
  cases u with
  | keepalive => exact absurd rfl hu
  | _ => exact ⟨rfl, rfl⟩

variable {s id pc}

theorem holds_caller (h : s.callers id = some pc) : s.holds (.caller id) = pc.holds := by
  simp [State.holds, h]

end Frames

section Effects

variable {s s' : State} {env : Env}

theorem acquireOrWait_effect {id : CallId} {pc : CallerPc} {seed : Nat} (h : Inv s)
    (hpc : s.callers id = some pc) (hholds : pc.holds = none) :
    Effect s (acquireOrWait s id seed) (.caller id) := by
  have hnone : s.holds (.caller id) = none := (holds_caller hpc).trans hholds
  unfold acquireOrWait
  split
  · next i hacq =>
      obtain ⟨hi, hfree, hdead⟩ := poolAcquire_some hacq
      refine .take hi hfree rfl rfl rfl ?_ rfl rfl rfl hnone ?_ ?_ (fun _ => hdead)
      · exact fun u hu => setCaller_frame (s.setEntry i _) id _ u hu
      · exact holds_setCaller_self _ _ _
      · exact request_setCaller_self _ _ _
  · refine .quiet h rfl rfl rfl ?_ ?_ (.inl ?_)
    · exact fun u hu => setCaller_frame s id _ u hu
    · exact (holds_setCaller_self _ _ _).trans hnone.symm
    · exact request_setCaller_self _ _ _

/-- A caller takes a free entry only, and gives back its own. -/
theorem callerStep_effect {id : CallId} {pc : CallerPc} (h : Inv s)
    (hpc : s.callers id = some pc) (hs : callerStep s id env pc = some s') :
    Effect s s' (.caller id) := by
  have hheld := holds_caller hpc
  -- returning without an entry
  have leave : pc.holds = none →
      Effect s (s.setCaller id (.done errNotOpen none)).unlock (.caller id) := by
    intro hnone
    refine .quiet h rfl rfl rfl (fun u hu => setCaller_frame s id _ u hu) ?_ (.inl ?_)
    · exact (holds_setCaller_self _ _ _).trans (hheld.trans hnone).symm
    · exact request_setCaller_self _ _ _
  cases pc with
  | enter | waiting =>
      simp only [callerStep, Option.some.injEq] at hs
      subst hs
      split
      · exact acquireOrWait_effect h hpc rfl
      · exact leave rfl
  | running i a =>
      simp only [callerStep, Option.some.injEq] at hs
      subst hs
      refine .quiet h rfl rfl rfl (fun u hu => setCaller_frame s id _ u hu) ?_ (.inl ?_)
      · exact (holds_setCaller_self _ _ _).trans hheld.symm
      · exact request_setCaller_self _ _ _
  | release i rc =>
      simp only [callerStep, Option.map_eq_some_iff] at hs
      obtain ⟨mid, hsignal, rfl⟩ := hs
      obtain ⟨hpool, hcallers, hka, -⟩ := signal_frame hsignal
      have hmid : ∀ u, mid.holds u = s.holds u ∧ mid.request u = s.request u := by
        intro u
        cases u <;> simp [State.holds, State.request, hcallers, hka, State.setEntry]
      refine .give (e := { s.pool.entries i with inUse := false, lastUsed := env.now }) hheld
        ?_ ?_ ?_ ?_ rfl rfl (.inl rfl) ?_ ?_
      · exact congrArg Pool.entries hpool
      · exact (congrArg Pool.size hpool).trans rfl
      · exact (congrArg Pool.slot hpool).trans rfl
      · intro u hu
        obtain ⟨hholds, hrequest⟩ := setCaller_frame mid id (.done rc (some i)) u hu
        exact ⟨hholds.trans (hmid u).1, hrequest.trans (hmid u).2⟩
      · exact holds_setCaller_self _ _ _
      · exact request_setCaller_self _ _ _
  | done rc entry => cases hs

theorem keepaliveQuiet (h : Inv s) (hpool : s'.pool = s.pool) (hcallers : s'.callers = s.callers)
    (hholds : s'.keepalive.holds = s.keepalive.holds) (hrequest : s'.keepalive.request = none) :
    Effect s s' .keepalive := by
  refine .quiet h (by rw [hpool]) (by rw [hpool]) (by rw [hpool]) (fun u hu => ?_) hholds
    (.inl hrequest)
  cases u with
  | caller id => simp only [State.holds, State.request, hcallers, and_self]
  | keepalive => exact absurd rfl hu
  | closer => exact ⟨rfl, rfl⟩

theorem keepaliveTake {i : Nat} {e : Entry} {pc : KeepalivePc} (hi : i < s.pool.size)
    (hfree : (s.pool.entries i).inUse = false) (hset : e.inUse = true)
    (hhandle : e.appHandle = (s.pool.entries i).appHandle)
    (hdead : e.dead = (s.pool.entries i).dead) (hnone : s.keepalive.holds = none)
    (hholds : pc.holds = some i) (hrequest : pc.request = some (i, (s.pool.entries i).appHandle)) :
    Effect s ((s.setEntry i e).setKeepalive pc).unlock .keepalive :=
  .take hi hfree rfl rfl rfl (fun u hu => setKeepalive_frame (s.setEntry i e) pc u hu) hset hhandle
    hdead hnone hholds hrequest (fun hne => absurd rfl hne)

theorem keepaliveGive {mid : State} {i : Nat} {e : Entry} {pc : KeepalivePc}
    (hpool : mid.pool = (s.setEntry i e).pool) (hcallers : mid.callers = s.callers)
    (hka : mid.keepalive = s.keepalive) (hheld : s.keepalive.holds = some i)
    (hclear : e.inUse = false) (hhandle : e.appHandle = (s.pool.entries i).appHandle)
    (hholds : pc.holds = none) (hrequest : pc.request = none) :
    Effect s (mid.setKeepalive pc).unlock .keepalive := by
  have hsize : mid.pool.size = s.pool.size := by rw [hpool]; rfl
  have hslot : mid.pool.slot = s.pool.slot := by rw [hpool]; rfl
  refine .give hheld (congrArg Pool.entries hpool) hsize hslot (fun u hu => ?_) hclear hhandle
    (.inr rfl) hholds hrequest
  obtain ⟨h₁, h₂⟩ := setKeepalive_frame mid pc u hu
  refine ⟨h₁.trans ?_, h₂.trans ?_⟩ <;>
    cases u <;> simp [State.holds, State.request, hcallers, hka]

/-- So does the keepalive thread. -/
theorem keepaliveStep_effect (h : Inv s) (hs : keepaliveStep s env s.keepalive = some s') :
    Effect s s' .keepalive := by
  cases hpc : s.keepalive with
  | top | waiting =>
      simp only [keepaliveStep, hpc, Option.some.injEq] at hs
      subst hs
      split <;> exact keepaliveQuiet h rfl rfl (by rw [hpc]; rfl) rfl
  | timedOut =>
      simp only [keepaliveStep, hpc, Option.some.injEq] at hs
      subst hs
      split <;> exact keepaliveQuiet h rfl rfl (by rw [hpc]; rfl) rfl
  | ping i now =>
      simp only [keepaliveStep, hpc] at hs
      split at hs <;> cases hs
      · next hi =>
          split
          · exact keepaliveQuiet h rfl rfl (by rw [hpc]; rfl) rfl
          · split
            · exact keepaliveQuiet h rfl rfl (by rw [hpc]; rfl) rfl
            · next hfree =>
                simp only [Bool.or_eq_true, not_or, Bool.not_eq_true] at hfree
                exact keepaliveTake hi hfree.1.1 rfl rfl rfl (by rw [hpc]; rfl)
                  rfl rfl
      · exact keepaliveQuiet h rfl rfl (by rw [hpc]; rfl) rfl
  | pinging i a now =>
      simp only [keepaliveStep, hpc, Option.some.injEq] at hs
      subst hs
      exact keepaliveQuiet h rfl rfl (by rw [hpc]; rfl) rfl
  | pinged i now ok =>
      simp only [keepaliveStep, hpc, Option.map_eq_some_iff] at hs
      obtain ⟨mid, hsignal, rfl⟩ := hs
      obtain ⟨hpool, hcallers, hka, -⟩ := signal_frame hsignal
      refine keepaliveGive hpool hcallers hka (by rw [hpc]; rfl) ?_ ?_ rfl rfl
      · cases ok <;> rfl
      · cases ok <;> rfl
  | reopen i =>
      simp only [keepaliveStep, hpc] at hs
      split at hs <;> cases hs
      · next hi =>
          split
          · exact keepaliveQuiet h rfl rfl (by rw [hpc]; rfl) rfl
          · split
            · exact keepaliveQuiet h rfl rfl (by rw [hpc]; rfl) rfl
            · next hfree =>
                simp only [Bool.or_eq_true, not_or, Bool.not_eq_true] at hfree
                exact keepaliveTake hi hfree.1.2 rfl rfl rfl (by rw [hpc]; rfl)
                  rfl rfl
      · exact keepaliveQuiet h rfl rfl (by rw [hpc]; rfl) rfl
  | reopening i a =>
      simp only [keepaliveStep, hpc, Option.some.injEq] at hs
      subst hs
      exact keepaliveQuiet h rfl rfl (by rw [hpc]; rfl) rfl
  | reopened i ok =>
      simp only [keepaliveStep, hpc, Option.some.injEq] at hs
      subst hs
      cases ok
      · exact keepaliveGive rfl rfl rfl (by rw [hpc]; rfl) rfl rfl rfl rfl
      · exact keepaliveGive rfl rfl rfl (by rw [hpc]; rfl) rfl rfl rfl rfl
  | exited => simp [keepaliveStep, hpc] at hs

/-- The closing thread holds no entry, and leaves the entries alone until it
zeroes the pool. -/
theorem closerStep_effect (h : Inv s) (hs : closerStep s s.closer = some s')
    (hopen : s'.closer ≠ .closed) : Effect s s' .closer := by
  have quiet : ∀ {t : State}, t.pool.entries = s.pool.entries → t.pool.size = s.pool.size →
      t.pool.slot = s.pool.slot → t.callers = s.callers → t.keepalive = s.keepalive →
      Effect s t .closer := by
    intro t hentries hsize hslot hcallers hka
    refine .quiet h hentries hsize hslot (fun u _ => ?_) rfl (.inl rfl)
    cases u <;> simp [State.holds, State.request, hcallers, hka]
  cases hpc : s.closer <;> simp only [closerStep, hpc, reduceCtorEq] at hs
  case destroy =>
    simp only [Option.some.injEq] at hs
    subst hs
    exact absurd rfl hopen
  case join =>
    split at hs <;> cases hs
    exact quiet rfl rfl rfl rfl rfl
  all_goals
    simp only [Option.some.injEq] at hs
    subst hs
  case drain | waiting =>
    split <;> exact quiet rfl rfl rfl rfl rfl
  all_goals exact quiet rfl rfl rfl rfl rfl

theorem threadStep_effect {t : Tid} (h : Inv s) (hs : threadStep s env t = some s')
    (hopen : s'.closer ≠ .closed) : Effect s s' t := by
  cases t with
  | caller id =>
      obtain ⟨pc, hpc, hs⟩ := Option.bind_eq_some_iff.mp hs
      exact callerStep_effect h hpc hs
  | keepalive => exact keepaliveStep_effect h hs
  | closer => exact closerStep_effect h hs hopen

end Effects

/-- Once the pool is closed it stays closed. -/
theorem step_closed {s s' : State} {l : Label} (hs : step s l = some s')
    (hclosed : s.closer = .closed) : s'.closer = .closed := by
  cases l with
  | start id =>
      simp only [step] at hs
      split at hs <;> cases hs
      exact hclosed
  | close => simp [step, hclosed] at hs
  | lock t => simp [step, hclosed] at hs
  | run t env =>
      have hthread := (threadStep_of_run hs).1
      by_cases ht : t = .closer
      · subst t
        simp [threadStep, closerStep, hclosed] at hthread
      · rw [(threadStep_frame hthread).closer ht, hclosed]
  | wake t =>
      simp only [step] at hs
      split at hs <;> cases hs
      exact hclosed
  | timeout =>
      simp only [step] at hs
      split at hs <;> cases hs
      exact hclosed

theorem Inv.step {s s' : State} {l : Label} (h : Inv s) (hs : step s l = some s')
    (hopen : s'.closer ≠ .closed) : Inv s' := by
  have quiet : ∀ {t : State}, t.pool = s.pool → t.callers = s.callers →
      t.keepalive.holds = s.keepalive.holds → t.keepalive.request = s.keepalive.request →
      Inv t := by
    intro t hpool hcallers hheld hrequest
    have hsame : ∀ u, t.holds u = s.holds u ∧ t.request u = s.request u := by
      intro u
      cases u <;> simp [State.holds, State.request, hcallers, hheld, hrequest]
    exact h.effect (t := .closer) (.quiet h (by rw [hpool]) (by rw [hpool]) (by rw [hpool])
      (fun u _ => hsame u) (hsame _).1 (.inr (hsame _).2))
  cases l with
  | start id =>
      simp only [CPool.step] at hs
      split at hs <;> cases hs
      next hnone =>
      refine h.effect (t := .caller id) (.quiet h rfl rfl rfl
        (fun u hu => setCaller_frame s id _ u hu) ?_ (.inl (request_setCaller_self _ _ _)))
      rw [holds_setCaller_self]
      simp [State.holds, hnone, CallerPc.holds]
  | close =>
      simp only [CPool.step] at hs
      split at hs <;> cases hs
      exact quiet rfl rfl rfl rfl
  | lock t =>
      simp only [CPool.step] at hs
      split at hs <;> try cases hs
      obtain ⟨mon, -, rfl⟩ := Option.map_eq_some_iff.mp hs
      exact quiet rfl rfl rfl rfl
  | run t env => exact h.effect (threadStep_effect h (threadStep_of_run hs).1 hopen)
  | wake t =>
      simp only [CPool.step] at hs
      split at hs <;> cases hs
      exact quiet rfl rfl rfl rfl
  | timeout =>
      simp only [CPool.step] at hs
      split at hs <;> cases hs
      next hwait => exact quiet rfl rfl (by rw [hwait.1]; rfl) (by rw [hwait.1]; rfl)

theorem Initial.inv {s : State} (h : Initial s) : Inv s := by
  obtain ⟨slot, size, keepaliveMs, now, kaActive, -, -, hsize, rfl⟩ := h
  have hka : (opened slot size keepaliveMs now kaActive).keepalive.holds = none ∧
      (opened slot size keepaliveMs now kaActive).keepalive.request = none := by
    cases kaActive <;> exact ⟨rfl, rfl⟩
  have hnone : ∀ t, (opened slot size keepaliveMs now kaActive).holds t = none := by
    intro t
    cases t with
    | keepalive => exact hka.1
    | _ => rfl
  refine ⟨.initial (fun i => ?_) hnone, ?_, hsize, ?_, ?_, ?_⟩
  · simp only [State.leases, opened, openedPool]
    split <;> simp [Entry.zero]
  · simp [hnone]
  · intro i hi
    have hi' : i < size := hi
    simp [opened, openedPool, hi']
  · intro t i a ha
    cases t with
    | keepalive =>
        have := hka.2.symm.trans ha
        cases this
    | _ => cases ha
  · simp [hnone]

theorem inv_of_reachable {s : State} (h : pool.Reachable s) : s.closer ≠ .closed → Inv s := by
  refine h.invariant (fun s => s.closer ≠ .closed → Inv s) ?_ ?_
  · exact fun s hinit _ => Initial.inv hinit
  · intro s l s' ih _ hs hopen
    exact (ih fun hclosed => hopen (step_closed hs hclosed)).step hs hopen

/-- Exclusive use of the entries and of their connections. -/
structure EntriesExclusive (s : State) : Prop where
  holder : ∀ t u i, s.holds t = some i → s.holds u = some i → t = u
  inUse : ∀ i < s.pool.size, (s.pool.entries i).inUse = true ↔ ∃ t, s.holds t = some i
  handles : ∀ i < s.pool.size, ∀ j < s.pool.size,
    (s.pool.entries i).appHandle = (s.pool.entries j).appHandle → i = j
  alive : ∀ id i, s.holds (.caller id) = some i → (s.pool.entries i).dead = false
  outstanding : ∀ t u i j a, s.request t = some (i, a) → s.request u = some (j, a) → t = u

/-- From the moment `bp_client_pool_open` returns until `bp_client_pool_close`
zeroes the pool, entries and connections are used exclusively. -/
theorem entriesExclusive {s : State} (h : pool.Reachable s) (hopen : s.closer ≠ .closed) :
    EntriesExclusive s := by
  have hinv := inv_of_reachable h hopen
  have hhandles : ∀ i < s.pool.size, ∀ j < s.pool.size,
      (s.pool.entries i).appHandle = (s.pool.entries j).appHandle → i = j := by
    intro i hi j hj heq
    rw [hinv.handles i hi, hinv.handles j hj] at heq
    exact poolAppHandle_inj (hi.trans_le hinv.size_le) (hj.trans_le hinv.size_le) heq
  refine ⟨hinv.leases.unique, fun i _ => hinv.leases.held i, hhandles, hinv.alive, ?_⟩
  intro t u i j a ht hu
  obtain ⟨hti, rfl⟩ := hinv.request t i a ht
  obtain ⟨huj, heq⟩ := hinv.request u j _ hu
  obtain rfl := hhandles i (hinv.bound t i hti) j (hinv.bound u j huj) heq
  exact hinv.leases.unique t u i hti huj

def critical (t : Tid) (env : Env) : List Label := [.lock t, .run t env]

theorem opened_initial (slot size : Nat) (hslot : slot < maxSlots) (hpos : 1 ≤ size)
    (hsize : size ≤ maxSize) (keepaliveMs now : Int) (kaActive : Bool) :
    Initial (opened slot size keepaliveMs now kaActive) :=
  ⟨slot, size, keepaliveMs, now, kaActive, hslot, hpos, hsize, rfl⟩

/-- The keepalive thread pings entry 0 of two while a caller uses entry 1. -/
theorem entriesExclusive_ping_and_caller :
    ∃ s, s.holds .keepalive = some 0 ∧ s.holds (.caller 1) = some 1 ∧ EntriesExclusive s := by
  obtain ⟨s, hs, hp⟩ :=
    pool.exists_reaches_of_run (fun _ _ => True)
      (opened_initial 3 2 (by decide) (by decide) (by decide) 10000 0 true)
      (critical .keepalive {} ++ [.timeout] ++ critical .keepalive { now := 100 } ++
        critical .keepalive {} ++ [.start 1] ++ critical (.caller 1) {})
      (fun s => decide (s.holds .keepalive = some 0 ∧ s.holds (.caller 1) = some 1 ∧
        s.closer ≠ .closed)) (by decide +kernel)
  obtain ⟨hka, hcaller, hopen⟩ := of_decide_eq_true hp
  exact ⟨s, hka, hcaller, entriesExclusive hs hopen⟩

end BpClient.CPool
