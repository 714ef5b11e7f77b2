import BpClient.Lib.Counter
import BpClient.Lib.FreeList
import BpClient.SdkPool.Model

/-!
What one step of a caller or of a keepalive worker can change.
-/

namespace BpClient.SdkPool

open BpClient.Lib
open BpClient.CPool (maxSize poolAppHandle)

section Views

/-- The pool that a `PoolTxRx` has looked up. -/
def CallerPc.pool : CallerPc → Option PoolId
  | .check p | .count p | .acquire p _ | .got p _ _ | .putBack p _ _ | .send p _ | .running p _ _
  | .release p _ _ | .leave p _ => some p
  | .enter | .done _ => none

/-- It has seen the pool initialized, and has not left it. -/
def CallerPc.uses : CallerPc → Option PoolId
  | .count p | .acquire p _ | .got p _ _ | .putBack p _ _ | .send p _ | .running p _ _
  | .release p _ _ | .leave p _ => some p
  | .enter | .check _ | .done _ => none

def CallerPc.counted : CallerPc → Option PoolId
  | .acquire p _ | .got p _ _ | .putBack p _ _ | .send p _ | .running p _ _ | .release p _ _
  | .leave p _ => some p
  | .enter | .check _ | .count _ | .done _ => none

def CallerPc.held : CallerPc → Option Nat
  | .got _ i _ | .putBack _ i _ | .send _ i | .running _ i _ | .release _ i _ => some i
  | _ => none

/-- How far a `PoolOpen` has come with its pool. -/
inductive OpenPhase
  | connecting
  | seeded
  | opened
  deriving DecidableEq, Repr

def OpenerPc.opens : OpenerPc → Option (PoolId × OpenPhase)
  | .lfo p _ | .store p _ | .record p _ | .rollback p _ | .unregister p | .seed p =>
      some (p, .connecting)
  | .startWorker p => some (p, .seeded)
  | .opened p => some (p, .opened)
  | .enter _ _ | .done _ => none

def CloserPc.pool : CloserPc → Option PoolId
  | .clear p | .stop p | .join p | .drain p | .closing p _ => some p
  | .enter | .done => none

/-- The entry that a keepalive worker uses or connects, and its app_handle. -/
def WorkerPc.handle : WorkerPc → Option (Nat × Handle)
  | .pinging i h | .lfo i h | .store i h => some (i, h)
  | _ => none

/-- The pool whose keepalive worker a `PoolClose` has not joined yet. -/
def CloserPc.joins : CloserPc → Option PoolId
  | .clear p | .stop p | .join p => some p
  | .enter | .drain _ | .closing _ _ | .done => none

def WorkerPc.held : WorkerPc → Option Nat
  | .give _ _ i | .lookup i | .pinging i _ | .pinged i _ | .forceClose i | .lfo i _ | .store i _
  | .revive i => some i
  | .wait | .scan _ _ => none

def Pc.caller? : Pc → Option CallerPc
  | .caller pc => some pc
  | _ => none

def Pc.opener? : Pc → Option OpenerPc
  | .opener pc => some pc
  | _ => none

def Pc.closer? : Pc → Option CloserPc
  | .closer pc => some pc
  | _ => none

namespace State

variable (s : State)

def callerAt (id : CallId) : Option CallerPc := (s.calls id).bind Pc.caller?

def openerAt (id : CallId) : Option OpenerPc := (s.calls id).bind Pc.opener?

def closerAt (id : CallId) : Option CloserPc := (s.calls id).bind Pc.closer?

def opens (id : CallId) : Option (PoolId × OpenPhase) := (s.openerAt id).bind OpenerPc.opens

def closes (id : CallId) : Option PoolId := (s.closerAt id).bind CloserPc.pool

def joins (id : CallId) : Option PoolId := (s.closerAt id).bind CloserPc.joins

end State

/-- The flag that makes a caller or the worker drop its index. -/
def Pool.stopped (sdk : Sdk) (q : Pool) : Bool :=
  match sdk with
  | .go => q.stop
  | .python => !q.initialized

def CallerPc.heldIn (p : PoolId) (pc : CallerPc) : Option Nat :=
  if pc.pool = some p then pc.held else none

/-- The free queue of a pool, its callers and its keepalive worker. -/
def State.lease (s : State) (p : PoolId) : FreeList (Option CallId) where
  free := (s.pools p).free
  holds := fun
    | some id => (s.callerAt id).bind (CallerPc.heldIn p)
    | none => (s.pools p).worker.bind WorkerPc.held

theorem callerAt_eq {s : State} {id : CallId} {pc : CallerPc} :
    s.callerAt id = some pc ↔ s.calls id = some (.caller pc) := by
  cases h : s.calls id with
  | none => simp [State.callerAt, h]
  | some c => cases c <;> simp [State.callerAt, h, Pc.caller?]

theorem openerAt_eq {s : State} {id : CallId} {pc : OpenerPc} :
    s.openerAt id = some pc ↔ s.calls id = some (.opener pc) := by
  cases h : s.calls id with
  | none => simp [State.openerAt, h]
  | some c => cases c <;> simp [State.openerAt, h, Pc.opener?]

theorem closerAt_eq {s : State} {id : CallId} {pc : CloserPc} :
    s.closerAt id = some pc ↔ s.calls id = some (.closer pc) := by
  cases h : s.calls id with
  | none => simp [State.closerAt, h]
  | some c => cases c <;> simp [State.closerAt, h, Pc.closer?]

/-- The three views of the calls after one of them has moved. -/
theorem callerAt_update (s s' : State) {id : CallId} {pc : Pc}
    (h : s'.calls = Function.update s.calls id (some pc)) :
    s'.callerAt = Function.update s.callerAt id pc.caller? := by
  funext id'
  by_cases hid : id' = id
  · subst id'
    simp [State.callerAt, h]
  · simp [State.callerAt, h, hid]

theorem openerAt_update (s s' : State) {id : CallId} {pc : Pc}
    (h : s'.calls = Function.update s.calls id (some pc)) :
    s'.openerAt = Function.update s.openerAt id pc.opener? := by
  funext id'
  by_cases hid : id' = id
  · subst id'
    simp [State.openerAt, h]
  · simp [State.openerAt, h, hid]

theorem closerAt_update (s s' : State) {id : CallId} {pc : Pc}
    (h : s'.calls = Function.update s.calls id (some pc)) :
    s'.closerAt = Function.update s.closerAt id pc.closer? := by
  funext id'
  by_cases hid : id' = id
  · subst id'
    simp [State.closerAt, h]
  · simp [State.closerAt, h, hid]

end Views

/-- What a pool step of a caller leaves alone. -/
def Pool.SameCore (q q' : Pool) : Prop :=
  ∃ free inflight, q' = { q with free := free, inflight := inflight }

/-- Where a caller goes from `pc`. -/
structure CallerMove (s s' : State) (pc pc' : CallerPc) : Prop where
  pool : ∀ p, pc'.pool = some p → pc.pool = some p ∨ s.registry = some p
  uses : ∀ p, pc'.uses = some p → pc.uses = some p ∨ (s.pools p).initialized = true
  /-- A request is sent under the handle of the entry. -/
  running : ∀ p i h, pc' = .running p i h → ∃ e, (s.pools p).entries i = some e ∧ h = e.appHandle
  counted : ∀ p, Counts.Move (pc.counted = some p) (pc'.counted = some p) (s.pools p).inflight
    (s'.pools p).inflight

/-- What a step of the caller `id` leaves alone. -/
structure CallerFrame (sdk : Sdk) (s s' : State) (id : CallId) (pc : CallerPc) : Prop where
  registry : s'.registry = s.registry
  next : s'.next = s.next
  table : s'.table = s.table
  opener : s'.openerAt = s.openerAt
  closer : s'.closerAt = s.closerAt
  caller : ∃ pc', s'.callerAt = Function.update s.callerAt id (some pc') ∧ CallerMove s s' pc pc'
  core : ∀ p, (s.pools p).SameCore (s'.pools p)
  move : ∀ p, FreeList.Move ((s.pools p).stopped sdk = true) (s.lease p).free
    ((s.lease p).holds (some id)) (s'.lease p).free ((s'.lease p).holds (some id))

section Caller

variable {sdk : Sdk} {s s' : State} {id : CallId} {env : Env} {pc pc' : CallerPc} {p : PoolId}

theorem lease_free (s : State) (p : PoolId) : (s.lease p).free = (s.pools p).free := rfl

theorem lease_call (s : State) (p : PoolId) (id : CallId) :
    (s.lease p).holds (some id) = (s.callerAt id).bind (CallerPc.heldIn p) := rfl

theorem lease_worker (s : State) (p : PoolId) :
    (s.lease p).holds none = (s.pools p).worker.bind WorkerPc.held := rfl

/-- The views of the calls when the call `id` was a caller and still is one. -/
theorem callerAt_setCall (s' : State) (hc : s.callerAt id = some pc) (pc' : CallerPc)
    (hcalls : s'.calls = Function.update s.calls id (some (.caller pc'))) :
    s'.callerAt = Function.update s.callerAt id (some pc') ∧ s'.openerAt = s.openerAt ∧
      s'.closerAt = s.closerAt := by
  have hold := callerAt_eq.mp hc
  refine ⟨callerAt_update s s' hcalls, ?_, ?_⟩
  · rw [openerAt_update s s' hcalls]
    exact Function.update_eq_self_iff.mpr (by simp [State.openerAt, hold, Pc.opener?])
  · rw [closerAt_update s s' hcalls]
    exact Function.update_eq_self_iff.mpr (by simp [State.closerAt, hold, Pc.closer?])

/-- A step of a caller on one pool. -/
theorem CallerFrame.of_pool {q : Pool} (hc : s.callerAt id = some pc) (hpc : pc.pool = some p)
    (hpc' : ∀ p', pc'.pool = some p' → p' = p) (huses : ∀ p', pc'.uses = some p' → pc.uses = some p')
    (hrun : ∀ p i h, pc' ≠ .running p i h)
    (hcounted : ∀ p', p' ≠ p → (pc'.counted = some p' ↔ pc.counted = some p'))
    (hcount : Counts.Move (pc.counted = some p) (pc'.counted = some p) (s.pools p).inflight
      q.inflight)
    (hcore : (s.pools p).SameCore q)
    (hmove : FreeList.Move ((s.pools p).stopped sdk = true) (s.pools p).free pc.held q.free
      (pc'.heldIn p)) :
    CallerFrame sdk s ((s.setPool p q).setCall id (.caller pc')) id pc := by
  obtain ⟨hcaller, hopener, hcloser⟩ :=
    callerAt_setCall ((s.setPool p q).setCall id (.caller pc')) hc pc' rfl
  refine ⟨rfl, rfl, rfl, hopener, hcloser, ⟨pc', hcaller, ?_⟩, ?_, ?_⟩
  · refine ⟨fun p' hp' => .inl (hpc' p' hp' ▸ hpc), fun p' hp' => .inl (huses p' hp'),
      fun p i h hpc'' => absurd hpc'' (hrun p i h), fun p' => ?_⟩
    by_cases hp : p' = p
    · subst p'
      simpa [State.setCall, State.setPool] using hcount
    · exact .same (hcounted p' hp) (by simp [State.setCall, State.setPool, hp])
  · intro p'
    by_cases hp : p' = p
    · subst p'
      simpa [State.setCall, State.setPool] using hcore
    · exact ⟨(s.pools p').free, (s.pools p').inflight, by simp [State.setCall, State.setPool, hp]⟩
  · intro p'
    rw [lease_call, lease_call, lease_free, lease_free, hcaller, hc, Function.update_self]
    by_cases hp : p' = p
    · subst p'
      simpa [State.setCall, State.setPool, CallerPc.heldIn, hpc] using hmove
    · have hold : pc.pool ≠ some p' := fun h => hp (Option.some.inj (h.symm.trans hpc))
      have hnew : pc'.pool ≠ some p' := fun h => hp (hpc' p' h)
      refine .quiet (by simp [State.setCall, State.setPool, hp]) ?_
      simp [CallerPc.heldIn, hold, hnew]

/-- A step of a caller that changes its program counter alone. -/
theorem CallerFrame.goto (hc : s.callerAt id = some pc)
    (hpool : ∀ p, pc'.pool = some p → pc.pool = some p ∨ s.registry = some p)
    (huses : ∀ p, pc'.uses = some p → pc.uses = some p ∨ (s.pools p).initialized = true)
    (hrun : ∀ p i h, pc' = .running p i h →
      ∃ e, (s.pools p).entries i = some e ∧ h = e.appHandle)
    (hcounted : pc'.counted = pc.counted)
    (hheld : ∀ p, pc'.heldIn p = pc.heldIn p) :
    CallerFrame sdk s (s.setCall id (.caller pc')) id pc := by
  obtain ⟨hcaller, hopener, hcloser⟩ :=
    callerAt_setCall (s.setCall id (.caller pc')) hc pc' rfl
  refine ⟨rfl, rfl, rfl, hopener, hcloser,
    ⟨pc', hcaller, hpool, huses, hrun, fun p => .same (by rw [hcounted]) rfl⟩,
    fun p => ⟨(s.pools p).free, (s.pools p).inflight, rfl⟩, fun p => .quiet rfl ?_⟩
  rw [lease_call, lease_call, hcaller, hc, Function.update_self]
  exact hheld p

/-- Putting an index back, or dropping it. -/
theorem give_move {q q' : Pool} {i : Nat} {leave stopped : Bool}
    (h : q.give sdk i leave = some (q', stopped)) :
    (∃ free, q' = { q with free := free }) ∧
      FreeList.Move (q.stopped sdk = true) q.free (some i) q'.free none := by
  cases sdk with
  | go =>
      simp only [Pool.give] at h
      split at h
      · split at h <;> cases h
        next hstop => exact ⟨⟨q.free, rfl⟩, .drop i hstop rfl rfl rfl⟩
      · cases h
        exact ⟨⟨_, rfl⟩, .give i rfl rfl rfl⟩
  | python =>
      simp only [Pool.give, Option.some.injEq, Prod.mk.injEq] at h
      obtain ⟨rfl, -⟩ := h
      split
      · exact ⟨⟨_, rfl⟩, .give i rfl rfl rfl⟩
      · next hclosed =>
          exact ⟨⟨q.free, rfl⟩, .drop i (by simpa [Pool.stopped] using hclosed) rfl rfl rfl⟩

/-- What a step of `PoolTxRx` may change, told by where it goes. -/
theorem callerStep_frame (hc : s.callerAt id = some pc)
    (hs : callerStep sdk s id env pc = some s') : CallerFrame sdk s s' id pc := by
  cases pc with
  | enter =>
      simp only [callerStep, Option.some.injEq] at hs
      subst hs
      cases hreg : s.registry <;> refine .goto hc ?_ ?_ ?_ rfl fun p => ?_
      all_goals simp [CallerPc.heldIn, CallerPc.held, CallerPc.pool, CallerPc.uses, hreg]
  | check p =>
      simp only [callerStep, Option.some.injEq] at hs
      subst hs
      cases hinit : (s.pools p).initialized <;> refine .goto hc ?_ ?_ ?_ rfl fun p => ?_
      all_goals simp [CallerPc.heldIn, CallerPc.held, CallerPc.pool, CallerPc.uses, hinit]
  | count p =>
      simp only [callerStep, Option.some.injEq] at hs
      subst hs
      refine .of_pool hc rfl ?_ ?_ ?_ ?_ (.enter ?_ rfl rfl) ⟨(s.pools p).free, _, rfl⟩
        (.quiet rfl ?_)
      all_goals simp [CallerPc.heldIn, CallerPc.held, CallerPc.pool, CallerPc.uses,
        CallerPc.counted, eq_comm]
  | acquire p n =>
      simp only [callerStep] at hs
      split at hs
      · split at hs <;> cases hs
        refine .goto hc ?_ ?_ ?_ rfl fun p => ?_
        all_goals simp [CallerPc.heldIn, CallerPc.held, CallerPc.pool, CallerPc.uses]
      · split at hs
        · next i rest hfree =>
            cases hs
            refine .of_pool hc rfl ?_ ?_ ?_ ?_ (.same Iff.rfl rfl) ⟨rest, _, rfl⟩
              (.take i rfl hfree ?_)
            all_goals simp [CallerPc.heldIn, CallerPc.held, CallerPc.pool, CallerPc.uses,
              CallerPc.counted]
        · split at hs <;> cases hs
          refine .goto hc ?_ ?_ ?_ rfl fun p => ?_
          all_goals simp [CallerPc.heldIn, CallerPc.held, CallerPc.pool, CallerPc.uses]
  | got p i n =>
      simp only [callerStep, Option.map_eq_some_iff] at hs
      obtain ⟨e, -, rfl⟩ := hs
      cases hdead : e.dead <;> refine .goto hc ?_ ?_ ?_ rfl fun p => ?_
      all_goals simp [CallerPc.heldIn, CallerPc.held, CallerPc.pool, CallerPc.uses]
  | putBack p i n =>
      simp only [callerStep, Option.map_eq_some_iff] at hs
      obtain ⟨⟨q, stopped⟩, hgive, rfl⟩ := hs
      obtain ⟨⟨free, rfl⟩, hmove⟩ := give_move hgive
      have hnext : ∀ pc' : CallerPc, pc'.pool = some p → pc'.uses = some p →
          pc'.counted = some p → pc'.held = none →
          CallerFrame sdk s ((s.setPool p { s.pools p with free := free }).setCall id
            (.caller pc')) id (.putBack p i n) := by
        intro pc' hpool huses hcounted hheld
        refine .of_pool hc rfl (fun p' hp' => Option.some.inj (hp'.symm.trans hpool)) ?_ ?_ ?_
          (.same ?_ rfl) ⟨free, _, rfl⟩ ?_
        · exact fun p' hp' => huses.symm.trans hp'
        · rintro p' i' h' rfl
          cases hheld
        · intro p' _
          rw [hcounted]
          rfl
        · rw [hcounted]
          rfl
        · have hnone : pc'.heldIn p = none := by simp [CallerPc.heldIn, hheld]
          rw [hnone]
          exact hmove
      split
      · exact hnext _ rfl rfl rfl rfl
      · split
        · exact hnext _ rfl rfl rfl rfl
        · exact hnext _ rfl rfl rfl rfl
  | send p i =>
      simp only [callerStep, Option.map_eq_some_iff] at hs
      obtain ⟨e, he, rfl⟩ := hs
      cases hopen : s.table e.appHandle <;> refine .goto hc ?_ ?_ ?_ rfl fun p => ?_
      all_goals simp [CallerPc.heldIn, CallerPc.held, CallerPc.pool, CallerPc.uses]
      exact ⟨e, he, rfl⟩
  | running p i h =>
      simp only [callerStep, Option.some.injEq] at hs
      subst hs
      refine .goto hc ?_ ?_ ?_ rfl fun p => ?_
      all_goals simp [CallerPc.heldIn, CallerPc.held, CallerPc.pool, CallerPc.uses]
  | release p i r =>
      simp only [callerStep, Option.map_eq_some_iff] at hs
      obtain ⟨⟨q, stopped⟩, hgive, rfl⟩ := hs
      obtain ⟨⟨free, rfl⟩, hmove⟩ := give_move hgive
      refine .of_pool hc rfl ?_ ?_ ?_ ?_ (.same Iff.rfl rfl) ⟨free, _, rfl⟩ ?_
      · simp [CallerPc.pool]
      · simp [CallerPc.uses]
      · simp
      · simp [CallerPc.counted]
      · simpa [CallerPc.heldIn, CallerPc.held] using hmove
  | leave p r =>
      simp only [callerStep, Option.some.injEq] at hs
      subst hs
      refine .of_pool hc rfl ?_ ?_ ?_ ?_ (.leave rfl ?_ rfl) ⟨(s.pools p).free, _, rfl⟩
        (.quiet rfl ?_)
      all_goals simp [CallerPc.heldIn, CallerPc.held, CallerPc.pool, CallerPc.uses,
        CallerPc.counted, eq_comm]
  | done r => cases hs

end Caller

structure WorkerFrame (sdk : Sdk) (s s' : State) (p : PoolId) (w : WorkerPc) : Prop where
  registry : s'.registry = s.registry
  next : s'.next = s.next
  calls : s'.calls = s.calls
  pools : ∀ p', p' ≠ p → s'.pools p' = s.pools p'
  core : ∃ free entries worker, s'.pools p =
    { s.pools p with free := free, entries := entries, worker := worker }
  handles : ∀ i, ((s'.pools p).entries i).map Entry.appHandle =
    ((s.pools p).entries i).map Entry.appHandle
  move : FreeList.Move ((s.pools p).stopped sdk = true) (s.lease p).free
    ((s.lease p).holds none) (s'.lease p).free ((s'.lease p).holds none)
  /-- The worker works with the handle of an entry. -/
  handle : ∀ w' x, (s'.pools p).worker = some w' → w'.handle = some x →
    w.handle = some x ∨ ∃ e, (s.pools p).entries x.1 = some e ∧ x.2 = e.appHandle

section Worker

variable {sdk : Sdk} {s s' : State} {p : PoolId} {env : Env} {w : WorkerPc}

theorem setDead_handles (q : Pool) (i : Nat) (dead : Bool) (j : Nat) :
    ((q.setDead i dead).entries j).map Entry.appHandle = (q.entries j).map Entry.appHandle := by
  by_cases hj : j = i
  · subst j
    simp [Pool.setDead, Function.comp_def]
  · simp [Pool.setDead, hj]

/-- A step of the worker on its pool and on the table. -/
theorem WorkerFrame.of_pool {q : Pool} {table : Handle → Bool} (hw : (s.pools p).worker = some w)
    (hcore : ∃ free entries worker, q =
      { s.pools p with free := free, entries := entries, worker := worker })
    (hhandles : ∀ i, (q.entries i).map Entry.appHandle =
      ((s.pools p).entries i).map Entry.appHandle)
    (hmove : FreeList.Move ((s.pools p).stopped sdk = true) (s.pools p).free w.held q.free
      (q.worker.bind WorkerPc.held))
    (hhandle : ∀ w', q.worker = some w' → w'.handle = none) :
    WorkerFrame sdk s { s.setPool p q with table := table } p w := by
  refine ⟨rfl, rfl, rfl, fun p' hp => by simp [State.setPool, hp], ?_, ?_, ?_, fun w' x hw' hx => ?_⟩
  · simpa [State.setPool] using hcore
  · simpa [State.setPool] using hhandles
  · simpa [lease_worker, lease_free, hw, State.setPool] using hmove
  · have hq : q.worker = some w' := by simpa [State.setPool] using hw'
    rw [hhandle w' hq] at hx
    cases hx

/-- A step of the worker that changes its program counter alone. -/
theorem WorkerFrame.goto {w' : WorkerPc} {table : Handle → Bool}
    (hw : (s.pools p).worker = some w) (hheld : w'.held = w.held)
    (hhandle : ∀ x, w'.handle = some x → w.handle = some x ∨
      ∃ e, (s.pools p).entries x.1 = some e ∧ x.2 = e.appHandle) :
    WorkerFrame sdk s { s.setPool p { s.pools p with worker := some w' } with table := table } p
      w := by
  refine ⟨rfl, rfl, rfl, fun p' hp => by simp [State.setPool, hp], ?_, ?_, .quiet ?_ ?_, ?_⟩
  · exact ⟨(s.pools p).free, (s.pools p).entries, some w', by simp [State.setPool]⟩
  · simp [State.setPool]
  · simp [lease_free, State.setPool]
  · simp [lease_worker, hw, State.setPool, hheld]
  · intro w'' x hw'' hx
    obtain rfl : w' = w'' := by simpa [State.setPool] using hw''
    exact hhandle x hx

/-- What a step of the keepalive worker may change. -/
theorem workerStep_frame (hw : (s.pools p).worker = some w)
    (hs : workerStep sdk s p env w = some s') : WorkerFrame sdk s s' p w := by
  cases w with
  | wait =>
      cases sdk with
      | go =>
          simp only [workerStep] at hs
          split at hs
          · split at hs <;> cases hs
            exact .of_pool hw ⟨_, _, _, rfl⟩ (fun _ => rfl) (.quiet rfl rfl) (by simp)
          · cases hs
            exact .goto hw rfl (by simp [WorkerPc.handle])
      | python =>
          simp only [workerStep, Option.some.injEq] at hs
          subst hs
          split
          · exact .of_pool hw ⟨_, _, _, rfl⟩ (fun _ => rfl) (.quiet rfl rfl) (by simp)
          · exact .goto hw rfl (by simp [WorkerPc.handle])
  | scan pass i =>
      have hnext : (pass.next).held = none := by cases pass <;> rfl
      have hnext' : (pass.next).handle = none := by cases pass <;> rfl
      have hclaimed : (pass.claimed i).held = some i := by cases pass <;> rfl
      have hclaimed' : (pass.claimed i).handle = none := by cases pass <;> rfl
      simp only [workerStep, Option.some.injEq] at hs
      subst hs
      split
      · split
        · next e he =>
            split
            · split
              · next got rest hfree =>
                  refine .of_pool hw ⟨_, _, _, rfl⟩ (fun _ => rfl) (.take got rfl hfree ?_) ?_
                  · by_cases hgot : got = i
                    · simp [hgot, hclaimed]
                    · simp [hgot, WorkerPc.held]
                  · by_cases hgot : got = i
                    · simp [hgot, hclaimed']
                    · simp [hgot, WorkerPc.handle]
              · exact .goto hw rfl (by simp [WorkerPc.handle])
            · exact .goto hw rfl (by simp [WorkerPc.handle])
        · exact .goto hw rfl (by simp [WorkerPc.handle])
      · exact .goto hw hnext (by simp [hnext'])
  | give pass i got =>
      simp only [workerStep, Option.map_eq_some_iff] at hs
      obtain ⟨⟨q, stopped⟩, hgive, rfl⟩ := hs
      obtain ⟨⟨free, rfl⟩, hmove⟩ := give_move hgive
      refine .of_pool hw ⟨free, _, _, rfl⟩ (fun _ => rfl) ?_ ?_
      · have hnone : (if stopped then none else some (WorkerPc.scan pass (i + 1))).bind
            WorkerPc.held = none := by
          cases stopped <;> rfl
        rw [hnone]
        exact hmove
      · cases stopped <;> simp [WorkerPc.handle]
  | lookup i =>
      simp only [workerStep, Option.map_eq_some_iff] at hs
      obtain ⟨e, he, rfl⟩ := hs
      cases hopen : s.table e.appHandle with
      | true => exact .goto hw rfl (by simpa [WorkerPc.handle] using ⟨e, he, rfl⟩)
      | false => exact .goto hw rfl (by simp [WorkerPc.handle])
  | pinging i h =>
      cases hs
      exact .goto hw rfl (by simp [WorkerPc.handle])
  | pinged i ok =>
      simp only [workerStep, Option.some.injEq] at hs
      subst hs
      cases ok with
      | true =>
          exact .of_pool hw ⟨_, _, _, rfl⟩ (fun _ => rfl) (.quiet rfl rfl) (by simp [WorkerPc.handle])
      | false =>
          exact .of_pool hw ⟨_, _, _, rfl⟩ (setDead_handles _ i true) (.quiet rfl rfl)
            (by simp [WorkerPc.handle])
  | forceClose i =>
      simp only [workerStep, Option.map_eq_some_iff] at hs
      obtain ⟨e, he, rfl⟩ := hs
      exact .goto hw rfl (by simpa [WorkerPc.handle] using ⟨e, he, rfl⟩)
  | lfo i h =>
      simp only [workerStep, Option.some.injEq] at hs
      subst hs
      split
      · exact .goto hw rfl (fun x hx => .inl hx)
      · exact .goto hw rfl (by simp [WorkerPc.handle])
  | store i h =>
      simp only [workerStep, Option.some.injEq] at hs
      subst hs
      split
      · exact .goto hw rfl (by simp [WorkerPc.handle])
      · exact .goto hw rfl (by simp [WorkerPc.handle])
  | revive i =>
      cases hs
      exact .of_pool hw ⟨_, _, _, rfl⟩ (setDead_handles _ i false) (.quiet rfl rfl)
        (by simp [WorkerPc.handle])

end Worker

section Opener

variable {slot : Nat} {s s' : State} {id : CallId} {env : Env} {pc : OpenerPc}

theorem openerAt_setCall (s' : State) (hc : s.openerAt id = some pc) (pc' : OpenerPc)
    (hcalls : s'.calls = Function.update s.calls id (some (.opener pc'))) :
    s'.callerAt = s.callerAt ∧ s'.openerAt = Function.update s.openerAt id (some pc') ∧
      s'.closerAt = s.closerAt := by
  have hold := openerAt_eq.mp hc
  refine ⟨?_, openerAt_update s s' hcalls, ?_⟩
  · rw [callerAt_update s s' hcalls]
    exact Function.update_eq_self_iff.mpr (by simp [State.callerAt, hold, Pc.caller?])
  · rw [closerAt_update s s' hcalls]
    exact Function.update_eq_self_iff.mpr (by simp [State.closerAt, hold, Pc.closer?])

/-- What a step of `PoolOpen` does to the registry, to the queues and to the
workers. -/
inductive OpenerEffect (s s' : State) (id : CallId) (pc : OpenerPc) : Prop
  | publish (size : Nat) (keepalive : Bool) : pc = .enter size keepalive → s.registry = none →
      s' = { (s.setPool s.next (.fresh size keepalive)).setCall id (.opener (.lfo s.next 0)) with
        registry := some s.next
        next := s.next + 1 } → OpenerEffect s s' id pc
  | refuse (size : Nat) (keepalive : Bool) : pc = .enter size keepalive → s.registry ≠ none →
      s' = s.setCall id (.opener (.done .alreadyOpen)) → OpenerEffect s s' id pc
  | connect (p : PoolId) (pc' : OpenerPc) : pc.opens = some (p, .connecting) →
      pc'.opens = some (p, .connecting) → s'.registry = s.registry → s'.next = s.next →
      s'.calls = Function.update s.calls id (some (.opener pc')) →
      (∀ p', ∃ entries, s'.pools p' = { s.pools p' with entries := entries }) →
      (∀ p' i, (s'.pools p').entries i = none → (s.pools p').entries i = none) →
      OpenerEffect s s' id pc
  | unregister (p : PoolId) : pc = .unregister p →
      s' = { s with registry := none }.setCall id (.opener (.done .failed)) →
      OpenerEffect s s' id pc
  | seed (p : PoolId) (pc' : OpenerPc) : pc = .seed p →
      pc' = (if (s.pools p).keepalive then .startWorker p else .opened p) →
      s' = (s.setPool p { s.pools p with
        free := List.range (s.pools p).size, initialized := true }).setCall id (.opener pc') →
      OpenerEffect s s' id pc
  | startWorker (p : PoolId) : pc = .startWorker p →
      s' = (s.setPool p { s.pools p with worker := some .wait }).setCall id
        (.opener (.opened p)) → OpenerEffect s s' id pc

/-- What a step of `PoolOpen` does, told by its phase. -/
theorem openerStep_effect (hs : openerStep slot s id env pc = some s') :
    OpenerEffect s s' id pc := by
  cases pc with
  | enter size keepalive =>
      simp only [openerStep, Option.some.injEq] at hs
      subst hs
      cases hreg : s.registry with
      | none => exact .publish size keepalive rfl hreg rfl
      | some p => exact .refuse size keepalive rfl (by simp [hreg]) rfl
  | lfo p i =>
      simp only [openerStep, Option.some.injEq] at hs
      subst hs
      refine .connect p _ rfl ?_ rfl rfl rfl (fun p' => ⟨_, rfl⟩)
            (fun _ _ h => h)
      split <;> rfl
  | store p i =>
      simp only [openerStep, Option.some.injEq] at hs
      subst hs
      split
      · exact .connect p (.rollback p (List.range i)) rfl rfl rfl rfl rfl (fun p' => ⟨_, rfl⟩)
            (fun _ _ h => h)
      · exact .connect p (.record p i) rfl rfl rfl rfl rfl (fun p' => ⟨_, rfl⟩)
            (fun _ _ h => h)
  | record p i =>
      simp only [openerStep, Option.some.injEq] at hs
      subst hs
      refine .connect p _ rfl ?_ rfl rfl rfl (fun p' => ?_) (fun p' j hnone => ?_)
      · split <;> rfl
      · by_cases hp : p' = p
        · subst p'
          exact ⟨Function.update (s.pools p).entries i (some ⟨poolAppHandle slot i, false⟩),
            by simp [State.setCall, State.setPool]⟩
        · exact ⟨(s.pools p').entries, by simp [State.setCall, State.setPool, hp]⟩
      · by_cases hp : p' = p
        · subst p'
          by_cases hj : j = i
          · simp [State.setCall, State.setPool, hj] at hnone
          · simpa [State.setCall, State.setPool, hj] using hnone
        · simpa [State.setCall, State.setPool, hp] using hnone
  | rollback p rest =>
      cases rest with
      | nil =>
          simp only [openerStep, Option.some.injEq] at hs
          subst hs
          exact .connect p (.unregister p) rfl rfl rfl rfl rfl (fun p' => ⟨_, rfl⟩)
            (fun _ _ h => h)
      | cons i rest =>
          simp only [openerStep, Option.map_eq_some_iff] at hs
          obtain ⟨e, -, rfl⟩ := hs
          exact .connect p (.rollback p rest) rfl rfl rfl rfl rfl (fun p' => ⟨_, rfl⟩)
            (fun _ _ h => h)
  | unregister p =>
      simp only [openerStep, Option.some.injEq] at hs
      exact .unregister p rfl hs.symm
  | seed p =>
      simp only [openerStep, Option.some.injEq] at hs
      exact .seed p _ rfl rfl hs.symm
  | startWorker p =>
      simp only [openerStep, Option.some.injEq] at hs
      exact .startWorker p rfl hs.symm
  | opened p => cases hs
  | done r => cases hs

theorem OpenerEffect.calls (h : OpenerEffect s s' id pc) :
    ∃ pc', s'.calls = Function.update s.calls id (some (.opener pc')) := by
  cases h with
  | publish size keepalive hpc hreg hs => exact ⟨.lfo s.next 0, by rw [hs]; rfl⟩
  | refuse size keepalive hpc hreg hs => exact ⟨.done .alreadyOpen, by rw [hs]; rfl⟩
  | connect p pc' hpc hpc' hreg hnext hcalls hpools hentries => exact ⟨pc', hcalls⟩
  | unregister p hpc hs => exact ⟨.done .failed, by rw [hs]; rfl⟩
  | seed p pc' hpc hpc' hs => exact ⟨pc', by rw [hs]; rfl⟩
  | startWorker p hpc hs => exact ⟨.opened p, by rw [hs]; rfl⟩

end Opener

section Closer

variable {sdk : Sdk} {s s' : State} {id : CallId} {pc : CloserPc}

theorem closerAt_setCall (s' : State) (hc : s.closerAt id = some pc) (pc' : CloserPc)
    (hcalls : s'.calls = Function.update s.calls id (some (.closer pc'))) :
    s'.callerAt = s.callerAt ∧ s'.openerAt = s.openerAt ∧
      s'.closerAt = Function.update s.closerAt id (some pc') := by
  have hold := closerAt_eq.mp hc
  refine ⟨?_, ?_, closerAt_update s s' hcalls⟩
  · rw [callerAt_update s s' hcalls]
    exact Function.update_eq_self_iff.mpr (by simp [State.callerAt, hold, Pc.caller?])
  · rw [openerAt_update s s' hcalls]
    exact Function.update_eq_self_iff.mpr (by simp [State.openerAt, hold, Pc.opener?])

structure CloserFrame (sdk : Sdk) (s s' : State) (id : CallId) (pc : CloserPc) : Prop where
  next : s'.next = s.next
  caller : s'.callerAt = s.callerAt
  opener : s'.openerAt = s.openerAt
  closer : ∃ pc', s'.closerAt = Function.update s.closerAt id (some pc') ∧
    ∀ p, pc'.pool = some p → pc.pool = some p ∨ s.registry = some p
  registry : s'.registry = s.registry ∨ (pc = .enter ∧ s'.registry = none)
  pools : ∀ p, ∃ initialized stop,
    s'.pools p = { s.pools p with initialized := initialized, stop := stop } ∧
      (initialized = true → (s.pools p).initialized = true) ∧
      ((s'.pools p).stopped sdk = false → (s.pools p).stopped sdk = false)

theorem CloserFrame.goto {pc' : CloserPc} {table : Handle → Bool} (hc : s.closerAt id = some pc)
    (hpool : ∀ p, pc'.pool = some p → pc.pool = some p) :
    CloserFrame sdk s ({ s with table := table }.setCall id (.closer pc')) id pc := by
  obtain ⟨hcaller, hopener, hcloser⟩ :=
    closerAt_setCall ({ s with table := table }.setCall id (.closer pc')) hc pc' rfl
  exact ⟨rfl, hcaller, hopener, ⟨pc', hcloser, fun p hp => .inl (hpool p hp)⟩, .inl rfl,
    fun p => ⟨_, _, rfl, fun h => h, fun h => h⟩⟩

theorem CloserFrame.of_pool {pc' : CloserPc} {p : PoolId} {initialized stop : Bool}
    (hc : s.closerAt id = some pc) (hpool : pc.pool = some p) (hpool' : pc'.pool = some p)
    (hinit : initialized = true → (s.pools p).initialized = true)
    (hstop : (Pool.stopped sdk { s.pools p with initialized := initialized, stop := stop }) = false →
      (s.pools p).stopped sdk = false) :
    CloserFrame sdk s ((s.setPool p { s.pools p with
      initialized := initialized, stop := stop }).setCall id (.closer pc')) id pc := by
  obtain ⟨hcaller, hopener, hcloser⟩ := closerAt_setCall ((s.setPool p { s.pools p with
    initialized := initialized, stop := stop }).setCall id (.closer pc')) hc pc' rfl
  refine ⟨rfl, hcaller, hopener, ⟨pc', hcloser, fun p' hp' => .inl ?_⟩, .inl rfl, fun p' => ?_⟩
  · exact hpool.trans (hpool'.symm.trans hp')
  · by_cases hp : p' = p
    · subst p'
      exact ⟨initialized, stop, by simp [State.setCall, State.setPool], hinit,
        by simpa [State.setCall, State.setPool] using hstop⟩
    · exact ⟨(s.pools p').initialized, (s.pools p').stop, by simp [State.setCall, State.setPool, hp],
        fun h => h, by simp [State.setCall, State.setPool, hp]⟩

/-- What a step of `PoolClose` may change. -/
theorem closerStep_frame (hc : s.closerAt id = some pc) (hs : closerStep sdk s id pc = some s') :
    CloserFrame sdk s s' id pc := by
  cases pc with
  | enter =>
      simp only [closerStep, Option.some.injEq] at hs
      subst hs
      cases hreg : s.registry with
      | none => exact .goto hc (by simp [CloserPc.pool])
      | some p =>
          obtain ⟨hcaller, hopener, hcloser⟩ :=
            closerAt_setCall ({ s with registry := none }.setCall id (.closer (.clear p))) hc
              (.clear p) rfl
          refine ⟨rfl, hcaller, hopener, ⟨_, hcloser, fun p' hp' => .inr ?_⟩, .inr ⟨rfl, rfl⟩,
            fun p => ⟨_, _, rfl, fun h => h, fun h => h⟩⟩
          exact hreg.trans hp'
  | clear p =>
      simp only [closerStep, Option.some.injEq] at hs
      subst hs
      refine .of_pool hc rfl rfl (fun h => absurd h Bool.false_ne_true) ?_
      cases sdk <;> simp [Pool.stopped]
  | stop p =>
      simp only [closerStep, Option.some.injEq] at hs
      subst hs
      refine .of_pool hc rfl rfl (fun h => h) ?_
      cases sdk <;> simp [Pool.stopped]
  | join p =>
      simp only [closerStep] at hs
      split at hs <;> cases hs
      exact .goto hc (fun _ h => h)
  | drain p =>
      simp only [closerStep] at hs
      split at hs <;> cases hs
      exact .goto hc (fun _ h => h)
  | closing p i =>
      simp only [closerStep, Option.some.injEq] at hs
      subst hs
      split
      · split
        · exact .goto hc (fun _ h => h)
        · cases sdk with
          | go => exact .goto hc (fun _ h => h)
          | python => exact .goto hc (by simp [CloserPc.pool])
      · exact .goto hc (by simp [CloserPc.pool])
  | done => cases hs

end Closer

inductive Pc.Start : Pc → Prop
  | poolTxRx : Start (.caller .enter)
  | poolOpen (size : Nat) (keepalive : Bool) : 1 ≤ size → size ≤ maxSize →
      Start (.opener (.enter size keepalive))
  | poolClose : Start (.closer .enter)

/-- What a step is a step of. -/
inductive StepOf (sdk : Sdk) (slot : Nat) (s s' : State) : Label → Prop
  | start (id : CallId) (pc : Pc) (l : Label) : s.calls id = none → pc.Start →
      s' = s.setCall id pc → StepOf sdk slot s s' l
  | caller (id : CallId) (env : Env) (pc : CallerPc) : s.callerAt id = some pc →
      callerStep sdk s id env pc = some s' → StepOf sdk slot s s' (.run id env)
  | opener (id : CallId) (env : Env) (pc : OpenerPc) : s.openerAt id = some pc →
      openerStep slot s id env pc = some s' → StepOf sdk slot s s' (.run id env)
  | closer (id : CallId) (env : Env) (pc : CloserPc) : s.closerAt id = some pc →
      closerStep sdk s id pc = some s' → StepOf sdk slot s s' (.run id env)
  | worker (p : PoolId) (env : Env) (w : WorkerPc) : (s.pools p).worker = some w →
      workerStep sdk s p env w = some s' → StepOf sdk slot s s' (.work p env)

theorem startCall_eq {s s' : State} {id : CallId} {pc : Pc} (h : startCall s id pc = some s') :
    s.calls id = none ∧ s' = s.setCall id pc := by
  simp only [startCall] at h
  split at h <;> cases h
  next hnone => exact ⟨hnone, rfl⟩

/-- Every step is the start of a call, or a step of one of the four programs. -/
theorem step_of {sdk : Sdk} {slot : Nat} {s s' : State} {l : Label}
    (hs : step sdk slot s l = some s') : StepOf sdk slot s s' l := by
  cases l with
  | poolTxRx id =>
      obtain ⟨hnone, rfl⟩ := startCall_eq hs
      exact .start id _ _ hnone .poolTxRx rfl
  | poolOpen id size keepalive =>
      simp only [step] at hs
      split at hs <;> try cases hs
      next hsize =>
      obtain ⟨hnone, rfl⟩ := startCall_eq hs
      exact .start id _ _ hnone (.poolOpen size keepalive hsize.1 hsize.2) rfl
  | poolClose id =>
      obtain ⟨hnone, rfl⟩ := startCall_eq hs
      exact .start id _ _ hnone .poolClose rfl
  | run id env =>
      obtain ⟨pc, hpc, hs⟩ := Option.bind_eq_some_iff.mp hs
      cases pc with
      | caller pc => exact .caller id env pc (callerAt_eq.mpr hpc) hs
      | opener pc => exact .opener id env pc (openerAt_eq.mpr hpc) hs
      | closer pc => exact .closer id env pc (closerAt_eq.mpr hpc) hs
  | work p env =>
      obtain ⟨w, hw, hs⟩ := Option.bind_eq_some_iff.mp hs
      exact .worker p env w hw hs

end BpClient.SdkPool
