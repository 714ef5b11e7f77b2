import BpClient.SdkPool.Queue

/-!
When `PoolTxRx` gives up with the error that all entries are dead. Its retry cap
counts the dead entries that it has taken from the queue; the same one may come
round several times while a live entry is in use.
-/

namespace BpClient.SdkPool

open BpClient.Lib

def Pool.isDead (q : Pool) (i : Nat) : Bool := (q.entries i).any (·.dead)

def Pool.isLive (q : Pool) (i : Nat) : Bool := (q.entries i).any (!·.dead)

def Pool.AllDead (q : Pool) : Prop := ∀ i < q.size, q.isDead i = true

/-- `p` is open: its `PoolOpen` has filled the queue, and it has not been
stopped. -/
def State.Open (sdk : Sdk) (s : State) (p : PoolId) : Prop :=
  (∃ id ph, s.opens id = some (p, ph) ∧ ph ≠ .connecting) ∧ (s.pools p).stopped sdk = false

def State.During (s : State) (id : CallId) (p : PoolId) : Prop :=
  ∃ pc, s.callerAt id = some pc ∧ pc.uses = some p

/-- A step in which the call fails on an open pool because all entries are dead. -/
structure GivesUp (sdk : Sdk) (s s' : State) (id : CallId) (p : PoolId) : Prop where
  isOpen : s.Open sdk p
  before : ∃ i n, s.callerAt id = some (.putBack p i n)
  after : s'.callerAt id = some (.leave p .allDead)

/-- A call fails so only if at some moment during it all entries were dead. -/
def OnlyAfterAllDead (sdk : Sdk) (slot : Nat) (tr : List (State × Label)) : Prop :=
  ∀ pre t l post t' id p, tr = pre ++ (t, l) :: post → step sdk slot t l = some t' →
    GivesUp sdk t t' id p → ∃ q ∈ pre ++ [(t, l)], q.1.During id p ∧ (q.1.pools p).AllDead

/-- No call fails so while some entry is not dead. -/
def NeverWhileAlive (sdk : Sdk) (slot : Nat) (tr : List (State × Label)) : Prop :=
  ∀ q ∈ tr, ∀ t' id p, step sdk slot q.1 q.2 = some t' → ¬(q.1.pools p).AllDead →
    ¬GivesUp sdk q.1 t' id p

/-- The step puts back the dead entry of a call's last attempt. -/
structure ReachesCap (sdk : Sdk) (s : State) (l : Label) (id : CallId) (p : PoolId) : Prop where
  isOpen : s.Open sdk p
  last : ∃ env i n, l = .run id env ∧ s.callerAt id = some (.putBack p i n) ∧
    (s.pools p).size ≤ n + 1

/-- How a call on an open pool gets at a live entry: it waits while the queue is
empty, passes over dead entries as long as it has attempts left, and sends its
request on the live entry that it has taken, which stays alive until then. -/
structure Serves (sdk : Sdk) (slot : Nat) (s : State) : Prop where
  waits : ∀ id p n, s.Open sdk p → s.callerAt id = some (.acquire p n) → (s.pools p).free = [] →
    ∀ env, step sdk slot s (.run id env) = none
  takes : ∀ id p n dead i rest, s.Open sdk p → s.callerAt id = some (.acquire p n) →
    (s.pools p).free = dead ++ i :: rest → (∀ j ∈ dead, (s.pools p).isDead j = true) →
    (s.pools p).isLive i = true → n + dead.length < (s.pools p).size →
    ∃ s', (pools sdk slot).run s (runs id (3 * dead.length + 2)) = some s' ∧
      s'.callerAt id = some (.send p i)
  sends : ∀ id p i n, s.callerAt id = some (.got p i n) → (s.pools p).isLive i = true →
    ∀ l s', step sdk slot s l = some s' → s'.callerAt id = some (.send p i) ∨
      s'.callerAt id = some (.got p i n) ∧ (s'.pools p).isLive i = true

section Frame

variable {sdk : Sdk} {slot : Nat} {s s' : State} {id : CallId} {env : Env} {p : PoolId} {i : Nat}

theorem pools_setPool_self (s : State) (p : PoolId) (q : Pool) : (s.setPool p q).pools p = q :=
  Function.update_self ..

/-- The worker marks the entry of a failed ping as dead, and an entry that it has connected
again as alive. -/
inductive WorkerMarks (s s' : State) (p : PoolId) (w : WorkerPc) : Prop
  | none : (s'.pools p).entries = (s.pools p).entries → WorkerMarks s s' p w
  | lost (i : Nat) : w = .pinged i false →
      (s'.pools p).entries = ((s.pools p).setDead i true).entries → WorkerMarks s s' p w
  | revived (i : Nat) : w = .revive i → (s'.pools p).worker = some (.give .reopen i i) →
      (s'.pools p).entries = ((s.pools p).setDead i false).entries → WorkerMarks s s' p w

theorem workerStep_marks {w : WorkerPc} (hs : workerStep sdk s p env w = some s') :
    WorkerMarks s s' p w := by
  have same : ∀ q : Pool, q.entries = (s.pools p).entries →
      ((s.setPool p q).pools p).entries = (s.pools p).entries :=
    fun q hq => s.of_setPool Pool.entries hq p
  cases w with
  | wait =>
      cases sdk with
      | go =>
          simp only [workerStep] at hs
          split at hs
          · split at hs <;> cases hs
            exact .none (same _ rfl)
          · cases hs
            exact .none (same _ rfl)
      | python =>
          simp only [workerStep, Option.some.injEq] at hs
          subst hs
          split <;> exact .none (same _ rfl)
  | scan pass j =>
      simp only [workerStep, Option.some.injEq] at hs
      subst hs
      apply WorkerMarks.none
      split
      · split
        · split
          · split <;> exact same _ rfl
          · exact same _ rfl
        · exact same _ rfl
      · exact same _ rfl
  | give pass j got =>
      simp only [workerStep, Option.map_eq_some_iff] at hs
      obtain ⟨⟨q, stopped⟩, hgive, rfl⟩ := hs
      obtain ⟨⟨free, rfl⟩, -⟩ := give_move hgive
      exact .none (same _ rfl)
  | lookup j =>
      simp only [workerStep, Option.map_eq_some_iff] at hs
      obtain ⟨e, -, rfl⟩ := hs
      exact .none (same _ rfl)
  | pinging j h =>
      cases hs
      exact .none (same _ rfl)
  | pinged j ok =>
      simp only [workerStep, Option.some.injEq] at hs
      subst hs
      cases ok with
      | true => exact .none (same _ rfl)
      | false => exact .lost j rfl ((congrArg Pool.entries (pools_setPool_self s p _)).trans rfl)
  | forceClose j =>
      simp only [workerStep, Option.map_eq_some_iff] at hs
      obtain ⟨e, -, rfl⟩ := hs
      exact .none (same _ rfl)
  | lfo j h =>
      simp only [workerStep, Option.some.injEq] at hs
      subst hs
      split <;> exact .none (same _ rfl)
  | store j h =>
      simp only [workerStep, Option.some.injEq] at hs
      subst hs
      split <;> exact .none (same _ rfl)
  | revive j =>
      cases hs
      exact .revived j rfl (congrArg Pool.worker (pools_setPool_self s p _))
        ((congrArg Pool.entries (pools_setPool_self s p _)).trans rfl)

theorem setDead_other (q : Pool) {j : Nat} (hij : i ≠ j) (dead : Bool) :
    (q.setDead j dead).entries i = q.entries i :=
  Function.update_of_ne hij _ _

/-- The worker changes only the entry that it has claimed. -/
theorem workerStep_entries {w : WorkerPc} (hheld : w.held ≠ some i)
    (hs : workerStep sdk s p env w = some s') : (s'.pools p).entries i = (s.pools p).entries i := by
  have other : ∀ j dead, w.held = some j →
      ((s.pools p).setDead j dead).entries i = (s.pools p).entries i := by
    intro j dead hj
    have hij : i ≠ j := fun h => hheld (h ▸ hj)
    exact setDead_other _ hij dead
  cases workerStep_marks hs with
  | none hsame => rw [hsame]
  | lost j hw hlost => rw [hlost, other j true (by rw [hw, WorkerPc.held])]
  | revived j hw _ hrevived => rw [hrevived, other j false (by rw [hw, WorkerPc.held])]

/-- `PoolOpen` changes the entries of a pool that it is connecting only. -/
theorem openerStep_entries {pc : OpenerPc} (hnext : p ≠ s.next)
    (hopens : pc.opens ≠ some (p, .connecting)) (hs : openerStep slot s id env pc = some s') :
    (s'.pools p).entries = (s.pools p).entries := by
  have same : ∀ p' q, q.entries = (s.pools p').entries →
      ((s.setPool p' q).pools p).entries = (s.pools p).entries :=
    fun _ _ hq => s.of_setPool Pool.entries hq p
  cases pc with
  | enter size keepalive =>
      simp only [openerStep, Option.some.injEq] at hs
      subst hs
      split
      · rfl
      · simp [State.setPool, State.setCall, hnext]
  | lfo p' j =>
      cases hs
      rfl
  | store p' j =>
      simp only [openerStep, Option.some.injEq] at hs
      subst hs
      split <;> rfl
  | record p' j =>
      simp only [openerStep, Option.some.injEq] at hs
      subst hs
      have hp : p ≠ p' := fun h => hopens (h ▸ rfl)
      simp [State.setPool, State.setCall, hp]
  | rollback p' rest =>
      cases rest with
      | nil =>
          cases hs
          rfl
      | cons j rest =>
          obtain ⟨e, -, rfl⟩ := Option.map_eq_some_iff.mp hs
          rfl
  | unregister p' =>
      cases hs
      rfl
  | seed p' =>
      cases hs
      exact same p' _ rfl
  | startWorker p' =>
      cases hs
      exact same p' _ rfl
  | opened p' => cases hs
  | done r => cases hs

/-- A call moves in its own steps only. -/
theorem step_caller {l : Label} {pc : CallerPc} (hs : step sdk slot s l = some s')
    (hc : s.callerAt id = some pc) :
    (∃ env, l = .run id env ∧ callerStep sdk s id env pc = some s') ∨
      s'.callerAt id = some pc := by
  cases step_of hs with
  | start id' pc' _ hnone hstart heq =>
      have hid : id ≠ id' := by
        rintro rfl
        rw [callerAt_eq.mp hc] at hnone
        cases hnone
      right
      rw [heq, callerAt_update s (s.setCall id' pc') rfl, Function.update_of_ne hid]
      exact hc
  | caller id' env pc' hc' hstep =>
      by_cases hid : id = id'
      · subst id'
        obtain rfl : pc = pc' := Option.some.inj (hc.symm.trans hc')
        exact .inl ⟨env, rfl, hstep⟩
      · obtain ⟨pc'', hcaller, -⟩ := (callerStep_frame hc' hstep).caller
        right
        rw [hcaller, Function.update_of_ne hid]
        exact hc
  | opener id' env pc' hc' hstep =>
      obtain ⟨pc'', hcalls⟩ := (openerStep_effect hstep).calls
      right
      rw [(openerAt_setCall s' hc' pc'' hcalls).1]
      exact hc
  | closer id' env pc' hc' hstep =>
      right
      rw [(closerStep_frame hc' hstep).caller]
      exact hc
  | worker p' env w hw hstep =>
      right
      rw [(workerStep_frame hw hstep).callerAt]
      exact hc

/-- Nobody changes an entry that a call holds. -/
theorem step_heldEntry {l : Label} {pc : CallerPc} (hq : Queued sdk s)
    (hs : step sdk slot s l = some s') (hc : s.callerAt id = some pc)
    (hheld : pc.heldIn p = some i) : (s'.pools p).entries i = (s.pools p).entries i := by
  have huses := uses_of_heldIn hheld
  have hunready : ¬s.Unready p := fun h => (hq.unready p h).callers id pc hc huses
  cases step_of hs with
  | start id' pc' _ hnone hstart heq => exact heq ▸ rfl
  | caller id' env pc' hc' hstep =>
      obtain ⟨free, inflight, hcore⟩ := (callerStep_frame hc' hstep).core p
      rw [hcore]
  | opener id' env pc' hc' hstep =>
      apply congrFun (openerStep_entries _ _ hstep) i
      · exact fun h => hunready (.inl h.ge)
      · exact fun h => hunready (.inr ⟨id', (opens_of_openerAt hc').trans h⟩)
  | closer id' env pc' hc' hstep =>
      obtain ⟨initialized, stop, hcore, -⟩ := (closerStep_frame hc' hstep).pools p
      rw [hcore]
  | worker p' env w hw hstep =>
      by_cases hp : p = p'
      · subst p'
        apply workerStep_entries _ hstep
        intro hclaimed
        have hworker : (s.lease p).holds none = some i := by
          rw [lease_worker, hw]
          exact hclaimed
        have hcall : (s.lease p).holds (some id) = some i := by
          rw [lease_call, hc]
          exact hheld
        cases (hq.lists p).unique none (some id) i hworker hcall
      · rw [(workerStep_frame hw hstep).pools p hp]

end Frame

section Caller

variable {sdk : Sdk} {slot : Nat} {s s' : State} {id : CallId} {env : Env} {p : PoolId} {i n : Nat}

/-- A step of a call is the one of its program counter. -/
theorem step_run {pc : CallerPc} (hc : s.callerAt id = some pc) :
    step sdk slot s (.run id env) = callerStep sdk s id env pc := by
  simp only [step, callerAt_eq.mp hc, Option.bind_some, callStep]

theorem callerAt_setCall_self (s : State) (id : CallId) (pc : CallerPc) :
    (s.setCall id (.caller pc)).callerAt id = some pc :=
  callerAt_eq.mpr (Function.update_self ..)

/-- In a pool that is not stopped, an index is put back at the end of the queue. -/
theorem give_of_not_stopped {q : Pool} (hstop : q.stopped sdk = false) (i : Nat) :
    q.give sdk i false = some ({ q with free := q.free ++ [i] }, false) := by
  cases sdk with
  | go => rfl
  | python =>
      have hinit : q.initialized = true := by simpa [Pool.stopped] using hstop
      simp [Pool.give, hinit]

theorem acquire_waits (hstop : (s.pools p).stopped sdk = false)
    (hc : s.callerAt id = some (.acquire p n)) (hfree : (s.pools p).free = []) :
    step sdk slot s (.run id env) = none := by
  rw [step_run hc]
  cases sdk with
  | go =>
      have hstop' : (s.pools p).stop = false := hstop
      simp [callerStep, hstop', hfree]
  | python =>
      have hinit : (s.pools p).initialized = true := by simpa [Pool.stopped] using hstop
      simp [callerStep, hinit, hfree]

theorem acquire_takes {rest : List Nat} (hc : s.callerAt id = some (.acquire p n))
    (hfree : (s.pools p).free = i :: rest) :
    step sdk slot s (.run id {}) =
      some ((s.setPool p { s.pools p with free := rest }).setCall id (.caller (.got p i n))) := by
  rw [step_run hc]
  simp [callerStep, hfree]

theorem got_live (hc : s.callerAt id = some (.got p i n)) (hlive : (s.pools p).isLive i = true) :
    step sdk slot s (.run id env) = some (s.setCall id (.caller (.send p i))) := by
  rw [step_run hc]
  obtain ⟨e, he, hdead⟩ := (Option.any_eq_true _ _).mp hlive
  have hdead' : e.dead = false := by simpa using hdead
  simp [callerStep, he, hdead']

theorem got_dead (hc : s.callerAt id = some (.got p i n)) (hdead : (s.pools p).isDead i = true) :
    step sdk slot s (.run id env) = some (s.setCall id (.caller (.putBack p i n))) := by
  rw [step_run hc]
  obtain ⟨e, he, hdead'⟩ := (Option.any_eq_true _ _).mp hdead
  simp [callerStep, he, hdead']

theorem putBack_goes_on (hstop : (s.pools p).stopped sdk = false)
    (hc : s.callerAt id = some (.putBack p i n)) (hn : n + 1 < (s.pools p).size) :
    step sdk slot s (.run id {}) =
      some ((s.setPool p { s.pools p with free := (s.pools p).free ++ [i] }).setCall id
        (.caller (.acquire p (n + 1)))) := by
  rw [step_run hc]
  have hn' : ¬n + 1 ≥ (s.pools p).size := Nat.not_le_of_lt hn
  simp only [callerStep, give_of_not_stopped hstop, Option.map_some, if_neg hn']
  rfl

/-- A call that finds a dead entry at the head of the queue puts it at the end. -/
theorem passes_over (slot : Nat) {rest : List Nat} (hstop : (s.pools p).stopped sdk = false)
    (hc : s.callerAt id = some (.acquire p n)) (hfree : (s.pools p).free = i :: rest)
    (hdead : (s.pools p).isDead i = true) (hn : n + 1 < (s.pools p).size) :
    ∃ s', (pools sdk slot).run s (runs id 3) = some s' ∧
      s'.callerAt id = some (.acquire p (n + 1)) ∧
      s'.pools p = { s.pools p with free := rest ++ [i] } := by
  let taken := (s.setPool p { s.pools p with free := rest }).setCall id (.caller (.got p i n))
  have htaken : step sdk slot s (.run id {}) = some taken := acquire_takes hc hfree
  have hpool : taken.pools p = { s.pools p with free := rest } := pools_setPool_self ..
  let seen := taken.setCall id (.caller (.putBack p i n))
  have hseen : step sdk slot taken (.run id {}) = some seen := by
    apply got_dead (callerAt_setCall_self _ _ _)
    rw [hpool]
    exact hdead
  have hpool' : seen.pools p = { s.pools p with free := rest } := hpool
  let back := (seen.setPool p { seen.pools p with free := (seen.pools p).free ++ [i] }).setCall id
    (.caller (.acquire p (n + 1)))
  have hback : step sdk slot seen (.run id {}) = some back := by
    apply putBack_goes_on _ (callerAt_setCall_self _ _ _)
    · rw [hpool']
      exact hn
    · rw [hpool']
      exact hstop
  refine ⟨back, ?_, callerAt_setCall_self _ _ _, ?_⟩
  · change (pools sdk slot).run s [.run id {}, .run id {}, .run id {}] = _
    simp only [System.run_cons, System.run_nil, pools, htaken, hseen, hback, Option.bind_some]
  · change (seen.setPool p _).pools p = _
    rw [pools_setPool_self, hpool']

/-- A call that finds a live entry at the head of the queue uses it. -/
theorem takes_head {rest : List Nat} (hc : s.callerAt id = some (.acquire p n))
    (hfree : (s.pools p).free = i :: rest) (hlive : (s.pools p).isLive i = true) :
    ∃ s', (pools sdk slot).run s (runs id 2) = some s' ∧ s'.callerAt id = some (.send p i) := by
  let taken := (s.setPool p { s.pools p with free := rest }).setCall id (.caller (.got p i n))
  have htaken : step sdk slot s (.run id {}) = some taken := acquire_takes hc hfree
  have hpool : taken.pools p = { s.pools p with free := rest } := pools_setPool_self ..
  have hsent : step sdk slot taken (.run id {}) = some (taken.setCall id (.caller (.send p i))) := by
    apply got_live (callerAt_setCall_self _ _ _)
    rw [hpool]
    exact hlive
  refine ⟨_, ?_, callerAt_setCall_self taken id _⟩
  change (pools sdk slot).run s [.run id {}, .run id {}] = _
  simp only [System.run_cons, System.run_nil, pools, htaken, hsent, Option.bind_some]

theorem takes_live (dead : List Nat) {rest : List Nat} (hstop : (s.pools p).stopped sdk = false)
    (hc : s.callerAt id = some (.acquire p n)) (hfree : (s.pools p).free = dead ++ i :: rest)
    (hdead : ∀ j ∈ dead, (s.pools p).isDead j = true) (hlive : (s.pools p).isLive i = true)
    (hn : n + dead.length < (s.pools p).size) :
    ∃ s', (pools sdk slot).run s (runs id (3 * dead.length + 2)) = some s' ∧
      s'.callerAt id = some (.send p i) := by
  induction dead generalizing s n rest with
  | nil => exact takes_head hc hfree hlive
  | cons j dead ih =>
      rw [List.length_cons] at hn ⊢
      obtain ⟨mid, hrun, hc', hpool⟩ := passes_over slot hstop hc hfree
        (hdead j (List.mem_cons_self ..)) (by omega)
      have hfree' : (mid.pools p).free = dead ++ i :: (rest ++ [j]) := by
        rw [hpool]
        simp
      have hn' : n + 1 + dead.length < (mid.pools p).size := by
        rw [hpool]
        change n + 1 + dead.length < (s.pools p).size
        omega
      obtain ⟨s', hrun', hsent⟩ := ih (by rw [hpool]; exact hstop) hc' hfree'
        (by rw [hpool]; exact fun k hk => hdead k (List.mem_cons_of_mem _ hk))
        (by rw [hpool]; exact hlive) hn'
      refine ⟨s', ?_, hsent⟩
      have hsplit : runs id (3 * (dead.length + 1) + 2) = runs id 3 ++ runs id (3 * dead.length + 2) := by
        rw [runs, runs, runs, List.replicate_append_replicate]
        congr 1
        omega
      rw [hsplit, System.run_append, hrun, Option.bind_some, hrun']

end Caller

end BpClient.SdkPool
