import BpClient.CPool.Open

/-!
What is left of a `bp_client_pool_open` that fails: every step of another thread
leaves the pool's part of the TxRx connections alone, every step of the call
itself keeps account of what it has opened, stored and closed.
-/

namespace BpClient.CPool

open BpClient.Lib
open BpClient.Slot (Sdk)
open BpClient.Conn (Ident Table tableOps maxConns)

section Others

variable {spec : PoolSpec} {s s' : OpenState} {Valid : Table .c → Prop}
  {conn : Conn.State (Table .c)}

structure Undisturbed (spec : PoolSpec) (s : OpenState) (Valid : Table .c → Prop)
    (conn : Conn.State (Table .c)) : Prop where
  valid : Valid conn.table
  find : ∀ i < spec.size, spec.find conn.table i = spec.find s.conn.table i
  calls : ∀ id ∈ s.calls, conn.calls id = s.conn.calls id
  others : ∀ id op pc, conn.calls id = some (op, pc) → id ∉ s.calls →
    (∃ rc, pc = .done rc) ∨ ∀ i < spec.size, op.handle ≠ spec.handle i

/-- What other threads do to the TxRx connections leaves the entries of the pool alone. -/
theorem OpenInv.undisturbed (lawful : (tableOps .c).Lawful maxConns Valid)
    (h : OpenInv spec s Valid) {l : Conn.Label} (hallows : s.Allows spec l)
    (hs : Conn.step (tableOps .c) .c s.conn l = some conn) : Undisturbed spec s Valid conn := by
  cases l with
  | start id op =>
      simp only [Conn.step] at hs
      split at hs <;> cases hs
      next hfree =>
      refine ⟨h.valid, fun _ _ => rfl, fun id' hid' => ?_, fun id' op' pc' hc hid' => ?_⟩
      · apply Function.update_of_ne
        rintro rfl
        have := h.own _ hid'
        rw [hfree] at this
        cases this
      · by_cases hid : id' = id
        · subst id'
          have hself : (s.conn.goto id op .enter).calls id = some (op, .enter) :=
            Function.update_self ..
          obtain ⟨rfl, rfl⟩ := Prod.mk.inj (Option.some.inj (hself.symm.trans hc))
          exact .inr hallows
        · have hother : (s.conn.goto id op .enter).calls id' = s.conn.calls id' :=
            Function.update_of_ne hid _ _
          exact h.others id' op' pc' (hother.symm.trans hc) hid'
  | run id env =>
      obtain ⟨⟨op, pc⟩, hc, hs⟩ := Option.bind_eq_some_iff.mp hs
      obtain ⟨-, hvalid⟩ := Conn.callStep_hand lawful h.valid hc hs
      obtain ⟨pc', acc, reqs, hb⟩ := Conn.callStep_balance lawful h.valid hs
      have hhandle : ∀ i < spec.size, op.handle ≠ spec.handle i := by
        rcases h.others id op pc hc hallows with ⟨rc, rfl⟩ | hhandle
        · cases hs
        · exact hhandle
      refine ⟨hvalid, fun i hi => hb.frame _ (hhandle i hi).symm, fun id' hid' => ?_,
        fun id' op' pc'' hc' hid' => ?_⟩
      · rw [hb.calls]
        apply Function.update_of_ne
        rintro rfl
        exact hallows hid'
      · rw [hb.calls] at hc'
        by_cases hid : id' = id
        · subst id'
          rw [Function.update_self] at hc'
          obtain ⟨rfl, rfl⟩ := Prod.mk.inj (Option.some.inj hc')
          exact .inr hhandle
        · rw [Function.update_of_ne hid] at hc'
          exact h.others id' op' pc'' hc' hid'

theorem OpenState.Stored.of_find {lo hi : Nat} (h : s.Stored spec lo hi) (hhi : hi ≤ spec.size)
    (hbefore : s'.before = s.before)
    (hfind : ∀ i < spec.size, spec.find s'.conn.table i = spec.find s.conn.table i) :
    s'.Stored spec lo hi where
  mine := by
    intro i hlo hlt
    rw [hbefore, hfind i (hlt.trans_le hhi)]
    exact h.mine i hlo hlt
  rest := by
    intro i hi hout
    rw [hbefore, hfind i hi]
    exact h.rest i hi hout

theorem held_congr {t t' : Table .c}
    (hfind : ∀ i < spec.size, spec.find t' i = spec.find t i) : spec.held t' = spec.held t := by
  refine Finset.sum_congr rfl fun i hi => ?_
  rw [hfind i (Finset.mem_range.mp hi)]

/-- What has been said of the calls made so far stays true. -/
theorem OpenState.FailedAt.of_calls {k : Nat} {rc : Conn.Result} (h : s.FailedAt spec k rc)
    (hcalls : ∀ id op pc, s.Calls id op pc → s'.Calls id op pc) : s'.FailedAt spec k rc := by
  obtain ⟨hk, hrc, hopened, id, hid⟩ := h
  refine ⟨hk, hrc, fun i hi => ?_, id, hcalls _ _ _ hid⟩
  obtain ⟨id, hid⟩ := hopened i hi
  exact ⟨id, hcalls _ _ _ hid⟩

theorem OpenState.Opened.of_calls {k : Nat} (h : s.Opened spec k)
    (hcalls : ∀ id op pc, s.Calls id op pc → s'.Calls id op pc) : s'.Opened spec k := by
  intro i hi
  obtain ⟨id, hid⟩ := h i hi
  exact ⟨id, hcalls _ _ _ hid⟩

theorem OpenState.At.undisturbed {pc : OpenPc} (h : s.At spec pc)
    (hu : Undisturbed spec s Valid conn) : ({ s with conn := conn } : OpenState).At spec pc := by
  have hcalls : ∀ id op pc, s.Calls id op pc →
      ({ s with conn := conn } : OpenState).Calls id op pc :=
    fun id op pc hid => ⟨hid.1, (hu.calls id hid.1).trans hid.2⟩
  have hstored : ∀ lo hi, hi ≤ spec.size → s.Stored spec lo hi →
      ({ s with conn := conn } : OpenState).Stored spec lo hi :=
    fun lo hi hhi hst => hst.of_find hhi rfl hu.find
  cases pc with
  | enter => exact ⟨h.1, hstored 0 0 (Nat.zero_le _) h.2⟩
  | next i => exact ⟨h.1, hstored 0 i h.1 h.2.1, h.2.2.of_calls hcalls⟩
  | opening i id =>
      obtain ⟨hi, hopened, pc, hc, hpc, hst⟩ := h
      refine ⟨hi, hopened.of_calls hcalls, pc, hcalls _ _ _ hc, hpc, hstored _ _ ?_ hst⟩
      split
      · exact hi
      · exact hi.le
  | rollback i k rc =>
      exact ⟨h.1, h.2.1.of_calls hcalls, hstored i k h.2.1.1.le h.2.2⟩
  | closing i k rc id =>
      obtain ⟨hi, hfailed, pc, hc, hpc, hst⟩ := h
      exact ⟨hi, hfailed.of_calls hcalls, pc, hcalls _ _ _ hc, hpc, hstored _ _ hfailed.1.le hst⟩
  | done rc =>
      cases rc with
      | entry rc =>
          obtain ⟨hpool, ⟨k, hfailed⟩, hst⟩ := h
          exact ⟨hpool, ⟨k, hfailed.of_calls hcalls⟩, hstored 0 0 (Nat.zero_le _) hst⟩
      | _ => trivial

/-- The call that the call is in is one of its own. -/
theorem OpenState.At.current_mem {pc : OpenPc} {id : Slot.CallId} (h : s.At spec pc)
    (hid : pc.current = some id) : id ∈ s.calls := by
  cases pc with
  | opening i id' =>
      obtain ⟨-, -, pc, hc, -⟩ := h
      cases hid
      exact hc.1
  | closing i k rc id' =>
      obtain ⟨-, -, pc, hc, -⟩ := h
      cases hid
      exact hc.1
  | _ => cases hid

theorem OpenInv.other (lawful : (tableOps .c).Lawful maxConns Valid) (h : OpenInv spec s Valid)
    {l : Conn.Label} (hallows : s.Allows spec l)
    (hs : Conn.step (tableOps .c) .c s.conn l = some conn) :
    OpenInv spec { s with conn := conn } Valid := by
  have hu := h.undisturbed lawful hallows hs
  have howned : s.pc.current.bind ({ s with conn := conn } : OpenState).owned =
      s.pc.current.bind s.owned := by
    cases hcurrent : s.pc.current with
    | none => rfl
    | some id =>
        simp only [Option.bind_some, OpenState.owned, hu.calls id (h.at_pc.current_mem hcurrent)]
  refine ⟨hu.valid, h.checked, hu.others, fun id hid => ?_, h.keepalive, h.handles,
    h.at_pc.undisturbed hu, ?_⟩
  · rw [hu.calls id hid]
    exact h.own id hid
  · rw [howned, held_congr hu.find]
    exact h.balance

end Others

section Own

variable {spec : PoolSpec} {s s' : OpenState} {Valid : Table .c → Prop} {id : Slot.CallId}
  {op : Conn.Op} {env : Conn.Env} {i : Nat}

theorem handle_inj {j : Nat} (haccepted : spec.Accepted) (hi : i < spec.size)
    (hj : j < spec.size) (h : spec.handle i = spec.handle j) : i = j := by
  have hsize : spec.size ≤ maxSize := Nat.not_lt.mp fun hlt => haccepted.size (.inr hlt)
  exact poolAppHandle_inj (hi.trans_le hsize) (hj.trans_le hsize) h

/-- The connections of the pool, when one entry changes. -/
theorem held_update {t t' : Table .c} (hi : i < spec.size)
    (hfind : ∀ j < spec.size, j ≠ i → spec.find t' j = spec.find t j) :
    spec.held t + Conn.atMostOne ((spec.find t' i).map Conn.TxrxConn.ident) =
      spec.held t' + Conn.atMostOne ((spec.find t i).map Conn.TxrxConn.ident) := by
  have hmem := Finset.mem_range.mpr hi
  have hrest : ∑ j ∈ (Finset.range spec.size).erase i,
      Conn.atMostOne ((spec.find t' j).map Conn.TxrxConn.ident) =
      ∑ j ∈ (Finset.range spec.size).erase i,
      Conn.atMostOne ((spec.find t j).map Conn.TxrxConn.ident) := by
    refine Finset.sum_congr rfl fun j hj => ?_
    obtain ⟨hne, hj⟩ := Finset.mem_erase.mp hj
    rw [hfind j (Finset.mem_range.mp hj) hne]
  rw [PoolSpec.held, PoolSpec.held, ← Finset.add_sum_erase _ _ hmem, ← Finset.add_sum_erase _ _ hmem,
    hrest]
  ext x
  simp only [Multiset.count_add]
  omega

theorem begin_eq {pc : OpenPc} (hs : s.begin id op pc = some s') : s.conn.calls id = none ∧
    s' = { s with conn := s.conn.goto id op .enter, calls := s.calls ++ [id], pc := pc } := by
  obtain ⟨conn, hstep, rfl⟩ := Option.map_eq_some_iff.mp hs
  simp only [Conn.step] at hstep
  split at hstep <;> cases hstep
  next hfree => exact ⟨hfree, rfl⟩

theorem begin_calls {pc : OpenPc} (hs : s.begin id op pc = some s') :
    s'.Calls id op .enter ∧ ∀ id' op' pc', s.Calls id' op' pc' → s'.Calls id' op' pc' := by
  obtain ⟨hfree, rfl⟩ := begin_eq hs
  refine ⟨⟨List.mem_append_right _ (List.mem_singleton_self id), Function.update_self ..⟩, ?_⟩
  intro id' op' pc' hid'
  refine ⟨List.mem_append_left _ hid'.1, (Function.update_of_ne ?_ _ _).trans hid'.2⟩
  rintro rfl
  cases hfree.symm.trans hid'.2

/-- The call begins one of its calls. -/
theorem OpenInv.begin {pc : OpenPc} (h : OpenInv spec s Valid) (hs : s.begin id op pc = some s')
    (hcurrent : s.pc.current = none) (hcurrent' : pc.current = some id)
    (hfilled : pc.filled = s.pc.filled) (haccepted : spec.Accepted) (hkeepalive : s.keepalive = false)
    (hat : s'.At spec pc) : OpenInv spec s' Valid := by
  obtain ⟨-, hcalls⟩ := begin_calls hs
  obtain ⟨hfree, rfl⟩ := begin_eq hs
  refine ⟨h.valid, .inr haccepted, fun id' op' pc' hc hid' => ?_, fun id' hid' => ?_,
    .inr hkeepalive, ?_, hat, ?_⟩
  · have hne : id' ≠ id := by
      rintro rfl
      exact hid' (List.mem_append_right _ (List.mem_singleton_self id'))
    have hother : (s.conn.goto id op .enter).calls id' = s.conn.calls id' :=
      Function.update_of_ne hne _ _
    exact h.others id' op' pc' (hother.symm.trans hc) fun hold =>
      hid' (List.mem_append_left _ hold)
  · rcases List.mem_append.mp hid' with hold | hnew
    · obtain ⟨⟨op', pc'⟩, hc⟩ := Option.isSome_iff_exists.mp (h.own id' hold)
      exact Option.isSome_iff_exists.mpr ⟨_, (hcalls id' op' pc' ⟨hold, hc⟩).2⟩
    · obtain rfl := List.mem_singleton.mp hnew
      have hself : (s.conn.goto id' op .enter).calls id' = some (op, .enter) :=
        Function.update_self ..
      exact Option.isSome_iff_exists.mpr ⟨_, hself⟩
  · simp only [hfilled]
    exact h.handles
  · have hself : (s.conn.goto id op .enter).calls id = some (op, .enter) := Function.update_self ..
    have hbalance := h.balance
    rw [hcurrent] at hbalance
    simp only [hcurrent', Option.bind_some, OpenState.owned, hself, Conn.Pc.owns]
    exact hbalance

structure Ran (spec : PoolSpec) (s s' : OpenState) (i : Nat) (id : Slot.CallId) (op : Conn.Op)
    (env : Conn.Env) (pc pc' : Conn.Pc) : Prop where
  calls : s'.Calls id op pc'
  step : Conn.callStep (tableOps .c) .c s.conn id env op pc = some s'.conn
  mono : ∀ id' op' pc₁, id' ≠ id → s.Calls id' op' pc₁ → s'.Calls id' op' pc₁
  find : ∀ j < spec.size, j ≠ i → spec.find s'.conn.table j = spec.find s.conn.table j
  before : s'.before = s.before

/-- A step of a call on entry `i` keeps the invariant, if the place of the open is right
after it. -/
theorem OpenInv.run {pc : Conn.Pc} (lawful : (tableOps .c).Lawful maxConns Valid)
    (h : OpenInv spec s Valid) (hs : s.run id env = some s') (hc : s.Calls id op pc)
    (hcurrent : s.pc.current = some id) (hi : i < spec.size) (hhandle : op.handle = spec.handle i)
    (haccepted : spec.Accepted)
    (hat : ∀ pc', Ran spec s s' i id op env pc pc' → s'.At spec s.pc) : OpenInv spec s' Valid := by
  obtain ⟨conn, hstep, rfl⟩ := Option.map_eq_some_iff.mp hs
  simp only [Conn.step, hc.2, Option.bind_some] at hstep
  obtain ⟨-, hvalid⟩ := Conn.callStep_hand lawful h.valid hc.2 hstep
  obtain ⟨pc', acc, reqs, hb⟩ := Conn.callStep_balance lawful h.valid hstep
  have hself : conn.calls id = some (op, pc') := by
    rw [hb.calls, Function.update_self]
  have hother : ∀ id', id' ≠ id → conn.calls id' = s.conn.calls id' := by
    intro id' hne
    rw [hb.calls, Function.update_of_ne hne]
  have hfind : ∀ j < spec.size, j ≠ i → spec.find conn.table j = spec.find s.conn.table j := by
    intro j hj hne
    refine hb.frame _ fun heq => hne ?_
    exact handle_inj haccepted hj hi (heq.trans hhandle)
  refine ⟨hvalid, .inr haccepted, fun id' op' pc₁ hc' hid' => ?_, fun id' hid' => ?_,
    h.keepalive, h.handles, ?_, ?_⟩
  · have hne : id' ≠ id := by
      rintro rfl
      exact hid' hc.1
    exact h.others id' op' pc₁ ((hother id' hne).symm.trans hc') hid'
  · by_cases hne : id' = id
    · subst id'
      exact Option.isSome_iff_exists.mpr ⟨_, hself⟩
    · rw [hother id' hne]
      exact h.own id' hid'
  · exact hat pc' ⟨⟨hc.1, hself⟩, hstep,
      fun id' op' pc₁ hne hid' => ⟨hid'.1, (hother id' hne).trans hid'.2⟩, hfind, rfl⟩
  · have hacc : conn.accepted.drop s.conn.accepted.length = acc := by
      rw [hb.accepted, List.drop_left]
    have hreqs : conn.requests.drop s.conn.requests.length = reqs := by
      rw [hb.requests, List.drop_left]
    have hheld := held_update hi hfind
    have hold := h.balance
    have hstepped := hb.balance
    rw [hcurrent] at hold
    simp only [Option.bind_some, OpenState.owned, hc.2] at hold
    rw [Conn.State.heldAt, Conn.State.heldAt, hhandle] at hstepped
    simp only [hacc, hreqs, Conn.opened_append, Conn.closed_append, hcurrent, Option.bind_some,
      OpenState.owned, hself]
    ext x
    have hheld := congrArg (Multiset.count x) hheld
    have hold := congrArg (Multiset.count x) hold
    have hstepped := congrArg (Multiset.count x) hstepped
    simp only [Multiset.count_add, PoolSpec.find] at hheld hold hstepped ⊢
    omega

/-- The calls that have been made so far, but for one that has not returned. -/
theorem Ran.opened {k : Nat} {pc pc' : Conn.Pc} (hr : Ran spec s s' i id op env pc pc')
    (hc : s.Calls id op pc) (h : s.Opened spec k) : s'.Opened spec k := by
  intro j hj
  obtain ⟨id', hid'⟩ := h j hj
  refine ⟨id', hr.mono _ _ _ ?_ hid'⟩
  rintro rfl
  obtain ⟨rfl, rfl⟩ := Prod.mk.inj (Option.some.inj (hid'.2.symm.trans hc.2))
  cases hr.step

theorem Ran.failedAt {k : Nat} {rc : Conn.Result} {pc pc' : Conn.Pc}
    (hr : Ran spec s s' i id op env pc pc') (hc : s.Calls id op pc) (h : s.FailedAt spec k rc) :
    s'.FailedAt spec k rc := by
  obtain ⟨hk, hrc, hopened, id', hid'⟩ := h
  refine ⟨hk, hrc, hr.opened hc hopened, id', hr.mono _ _ _ ?_ hid'⟩
  rintro rfl
  obtain ⟨rfl, rfl⟩ := Prod.mk.inj (Option.some.inj (hid'.2.symm.trans hc.2))
  cases hr.step

/-- A step of the open of entry `i`. -/
theorem OpenInv.run_open (lawful : (tableOps .c).Lawful maxConns Valid) (h : OpenInv spec s Valid)
    (hpc : s.pc = .opening i id) (hs : s.run id env = some s') : OpenInv spec s' Valid := by
  have hat := h.at_pc
  have hcurrent : s.pc.current = some id := by rw [hpc]; rfl
  have haccepted : spec.Accepted := h.checked.resolve_left (by rw [hpc]; simp [OpenPc.early])
  rw [hpc] at hat
  obtain ⟨hi, hopened, pc, hc, hof, hst⟩ := hat
  refine h.run lawful hs hc hcurrent hi rfl haccepted fun pc' hr => ?_
  obtain ⟨hof', hturn⟩ := Conn.open_turn lawful h.valid hof hr.step hr.calls.2
  have hpc_ne : pc ≠ .done .ok := by
    rintro rfl
    cases hr.step
  rw [if_neg hpc_ne] at hst
  rw [hpc]
  refine ⟨hi, hr.opened hc hopened, pc', hr.calls, hof', ?_⟩
  rcases hturn with ⟨htable, hne⟩ | ⟨hnone, hsome, rfl⟩
  · rw [if_neg hne]
    exact hst.of_find hi.le hr.before fun j _ => by rw [PoolSpec.find, PoolSpec.find, htable]
  · rw [if_pos rfl]
    constructor
    · intro j hlo hlt
      rcases Nat.lt_succ_iff_lt_or_eq.mp hlt with hlt | rfl
      · rw [hr.before, hr.find j (hlt.trans hi) hlt.ne]
        exact hst.mine j hlo hlt
      · rw [hr.before, ← hst.rest j hi (.inr le_rfl)]
        exact ⟨hnone, hsome⟩
    · intro j hj hout
      rw [hr.before, hr.find j hj (by omega)]
      exact hst.rest j hj (by omega)

/-- A step of the close of entry `i`. -/
theorem OpenInv.run_close {k : Nat} {rc : Conn.Result}
    (lawful : (tableOps .c).Lawful maxConns Valid) (h : OpenInv spec s Valid)
    (hpc : s.pc = .closing i k rc id) (hs : s.run id env = some s') : OpenInv spec s' Valid := by
  have hat := h.at_pc
  have hcurrent : s.pc.current = some id := by rw [hpc]; rfl
  have haccepted : spec.Accepted := h.checked.resolve_left (by rw [hpc]; simp [OpenPc.early])
  rw [hpc] at hat
  obtain ⟨hi, hfailed, pc, hc, hof, hst⟩ := hat
  have hik : i < spec.size := hi.trans hfailed.1
  refine h.run lawful hs hc hcurrent hik rfl haccepted fun pc' hr => ?_
  obtain ⟨hof', hne, hturn⟩ := Conn.close_turn lawful h.valid hof hr.step hr.calls.2
  rw [hpc]
  refine ⟨hi, hr.failedAt hc hfailed, pc', hr.calls, hof', ?_⟩
  rw [if_neg hne]
  by_cases henter : pc = .enter
  · rw [if_pos henter] at hst hturn
    constructor
    · intro j hlo hlt
      rw [hr.before, hr.find j (hlt.trans hfailed.1) (by omega)]
      exact hst.mine j (by omega) hlt
    · intro j hj hout
      by_cases hji : j = i
      · subst j
        rw [hr.before, (hst.mine i le_rfl hi).1]
        exact hturn
      · rw [hr.before, hr.find j hj hji]
        exact hst.rest j hj (by omega)
  · rw [if_neg henter] at hst hturn
    exact hst.of_find hfailed.1.le hr.before fun j _ => by
      rw [PoolSpec.find, PoolSpec.find, hturn]

/-- A call that the call is in has returned. -/
theorem returned_eq {rc : Conn.Result} {pc : Conn.Pc} (hc : s.Calls id op pc)
    (h : s.returned id = some rc) : pc = .done rc := by
  rw [OpenState.returned, hc.2] at h
  cases pc <;> cases h
  rfl

/-- A step that only moves on. -/
theorem OpenInv.goto {pc : OpenPc} {pool : Pool} {now : Int} {keepalive : Bool}
    (h : OpenInv spec s Valid) (howned : s.pc.current.bind s.owned = none) (hcurrent : pc.current = none)
    (hchecked : pc.early = true ∨ spec.Accepted)
    (hkeepalive : pc = .done .ok ∨ keepalive = false)
    (hhandles : ∀ i < pc.filled, (pool.entries i).appHandle = spec.handle i)
    (hat : ({ s with pool := pool, now := now, keepalive := keepalive, pc := pc } : OpenState).At
      spec pc) :
    OpenInv spec { s with pool := pool, now := now, keepalive := keepalive, pc := pc } Valid := by
  refine ⟨h.valid, hchecked, h.others, h.own, hkeepalive, hhandles, hat, ?_⟩
  have hbalance := h.balance
  rw [howned] at hbalance
  rw [hcurrent]
  exact hbalance

theorem OpenState.Stored.congr {lo hi : Nat} (h : s.Stored spec lo hi)
    (htable : s'.conn.table = s.conn.table) (hbefore : s'.before = s.before) :
    s'.Stored spec lo hi := by
  constructor
  · intro i hlo hhi
    rw [htable, hbefore]
    exact h.mine i hlo hhi
  · intro i hi hout
    rw [htable, hbefore]
    exact h.rest i hi hout

theorem OpenInv.no_keepalive (h : OpenInv spec s Valid) (hdone : s.pc ≠ .done .ok) :
    s.keepalive = false := h.keepalive.resolve_left hdone

/-- The checks, and the fields that are set before the first entry is opened. -/
theorem OpenInv.own_enter {now : Int} {created : Bool} (h : OpenInv spec s Valid)
    (hpc : s.pc = .enter) (hs : s.own spec id env now created = some s') :
    OpenInv spec s' Valid := by
  have hat := h.at_pc
  rw [hpc] at hat
  have howned : s.pc.current.bind s.owned = none := by rw [hpc]; rfl
  have hkeepalive : s.keepalive = false := h.no_keepalive (by rw [hpc]; simp)
  have hnone : ∀ p : Pool, ∀ i < 0, (p.entries i).appHandle = spec.handle i :=
    fun p i hi => absurd hi (Nat.not_lt_zero i)
  simp only [OpenState.own, hpc, Option.some.injEq] at hs
  subst hs
  split
  · exact h.goto howned rfl (.inl rfl) (.inr hkeepalive) (hnone s.pool) trivial
  · next hslot =>
    split
    · exact h.goto howned rfl (.inl rfl) (.inr hkeepalive) (hnone s.pool) trivial
    · next hsize =>
        split
        · exact h.goto howned rfl (.inl rfl) (.inr hkeepalive) (hnone s.pool) trivial
        · refine h.goto howned rfl (.inr ⟨hslot, hsize⟩) (.inr hkeepalive)
            (hnone (s.pool.reserve spec)) ?_
          exact ⟨Nat.zero_le _, hat.2.congr rfl rfl, fun i hi => absurd hi (Nat.not_lt_zero i)⟩

/-- The loop over the entries. -/
theorem OpenInv.own_next {now : Int} {created : Bool} (h : OpenInv spec s Valid)
    (hpc : s.pc = .next i) (hs : s.own spec id env now created = some s') :
    OpenInv spec s' Valid := by
  have hat := h.at_pc
  have haccepted : spec.Accepted := h.checked.resolve_left (by rw [hpc]; simp [OpenPc.early])
  have hkeepalive : s.keepalive = false := h.no_keepalive (by rw [hpc]; simp)
  rw [hpc] at hat
  obtain ⟨hi, hst, hopened⟩ := hat
  simp only [OpenState.own, hpc] at hs
  split at hs
  · next hlt =>
      obtain ⟨hcall, hcalls⟩ := begin_calls hs
      refine h.begin hs (by rw [hpc]; rfl) rfl (by rw [hpc]; rfl) haccepted hkeepalive ?_
      obtain ⟨-, rfl⟩ := begin_eq hs
      refine ⟨hlt, hopened.of_calls hcalls, .enter, hcall, rfl, ?_⟩
      rw [if_neg (by simp)]
      exact hst.congr rfl rfl
  · cases hs
    exact h.goto (by rw [hpc]; rfl) rfl (.inr haccepted) (.inl rfl)
      (fun i hi => absurd hi (Nat.not_lt_zero i)) trivial

/-- The open of an entry, and what follows its result. -/
theorem OpenInv.own_opening {now : Int} {created : Bool} {id' : Slot.CallId}
    (lawful : (tableOps .c).Lawful maxConns Valid) (h : OpenInv spec s Valid)
    (hpc : s.pc = .opening i id') (hs : s.own spec id env now created = some s') :
    OpenInv spec s' Valid := by
  have hat := h.at_pc
  have haccepted : spec.Accepted := h.checked.resolve_left (by rw [hpc]; simp [OpenPc.early])
  have hkeepalive : s.keepalive = false := h.no_keepalive (by rw [hpc]; simp)
  have hhandles := h.handles
  rw [hpc] at hat hhandles
  obtain ⟨hi, hopened, pc, hc, -, hst⟩ := hat
  have howned : ∀ rc, pc = .done rc → s.pc.current.bind s.owned = none := by
    rintro rc rfl
    rw [hpc]
    simp only [OpenPc.current, Option.bind_some, OpenState.owned, hc.2, Conn.Pc.owns]
  simp only [OpenState.own, hpc] at hs
  split at hs
  · exact h.run_open lawful hpc hs
  · next hret =>
      cases hs
      obtain rfl := returned_eq hc hret
      rw [if_pos rfl] at hst
      refine h.goto (howned .ok rfl) rfl (.inr haccepted) (.inr hkeepalive) (fun j hj => ?_)
        ⟨hi, hst.congr rfl rfl, fun j hj => ?_⟩
      · rw [Pool.opened_appHandle]
        split
        · next heq => rw [heq]
        · next hne => exact hhandles j (Nat.lt_of_le_of_ne (Nat.lt_succ_iff.mp hj) hne)
      · rcases Nat.lt_succ_iff_lt_or_eq.mp hj with hlt | rfl
        · exact hopened j hlt
        · exact ⟨id', hc⟩
  · next rc hfail hret =>
      cases hs
      have hrc : rc ≠ .ok := fun heq => hfail heq
      obtain rfl := returned_eq hc hret
      rw [if_neg (by simpa using hrc)] at hst
      exact h.goto (howned rc rfl) rfl (.inr haccepted) (.inr hkeepalive) hhandles
        ⟨Nat.zero_le i, ⟨hi, hrc, hopened, id', hc⟩, hst.congr rfl rfl⟩

/-- The loop that closes the entries again. -/
theorem OpenInv.own_rollback {now : Int} {created : Bool} {k : Nat} {rc : Conn.Result}
    (h : OpenInv spec s Valid) (hpc : s.pc = .rollback i k rc)
    (hs : s.own spec id env now created = some s') : OpenInv spec s' Valid := by
  have hat := h.at_pc
  have haccepted : spec.Accepted := h.checked.resolve_left (by rw [hpc]; simp [OpenPc.early])
  have hkeepalive : s.keepalive = false := h.no_keepalive (by rw [hpc]; simp)
  have hhandles := h.handles
  rw [hpc] at hat hhandles
  obtain ⟨hik, hfailed, hst⟩ := hat
  simp only [OpenState.own, hpc] at hs
  split at hs
  · next hlt =>
      rw [hhandles i hlt] at hs
      obtain ⟨hcall, hcalls⟩ := begin_calls hs
      refine h.begin hs (by rw [hpc]; rfl) rfl (by rw [hpc]; rfl) haccepted hkeepalive ?_
      obtain ⟨-, rfl⟩ := begin_eq hs
      refine ⟨hlt, hfailed.of_calls hcalls, .enter, hcall, rfl, ?_⟩
      rw [if_pos rfl]
      exact hst.congr rfl rfl
  · next hge =>
      cases hs
      obtain rfl : i = k := by omega
      refine h.goto (by rw [hpc]; rfl) rfl (.inr haccepted) (.inr hkeepalive)
        (fun i hi => absurd hi (Nat.not_lt_zero i)) ⟨rfl, ⟨i, hfailed⟩, ?_⟩
      exact ⟨fun j _ hj => absurd hj (Nat.not_lt_zero j),
        fun j hj _ => (hst.congr rfl rfl).rest j hj (Nat.lt_or_ge j i)⟩

/-- The close of an entry. -/
theorem OpenInv.own_closing {now : Int} {created : Bool} {k : Nat} {rc : Conn.Result}
    {id' : Slot.CallId} (lawful : (tableOps .c).Lawful maxConns Valid) (h : OpenInv spec s Valid)
    (hpc : s.pc = .closing i k rc id') (hs : s.own spec id env now created = some s') :
    OpenInv spec s' Valid := by
  have hat := h.at_pc
  have haccepted : spec.Accepted := h.checked.resolve_left (by rw [hpc]; simp [OpenPc.early])
  have hkeepalive : s.keepalive = false := h.no_keepalive (by rw [hpc]; simp)
  have hhandles := h.handles
  rw [hpc] at hat hhandles
  obtain ⟨hik, hfailed, pc, hc, -, hst⟩ := hat
  simp only [OpenState.own, hpc] at hs
  split at hs
  · exact h.run_close lawful hpc hs
  · next hret =>
      cases hs
      obtain rfl := returned_eq hc hret
      have howned : s.pc.current.bind s.owned = none := by
        rw [hpc]
        simp only [OpenPc.current, Option.bind_some, OpenState.owned, hc.2, Conn.Pc.owns]
      rw [if_neg (by simp)] at hst
      exact h.goto howned rfl (.inr haccepted) (.inr hkeepalive) hhandles
        ⟨hik, hfailed, hst.congr rfl rfl⟩

/-- Every step of the call keeps the invariant. -/
theorem OpenInv.own_step {now : Int} {created : Bool} (lawful : (tableOps .c).Lawful maxConns Valid)
    (h : OpenInv spec s Valid) (hs : s.own spec id env now created = some s') :
    OpenInv spec s' Valid := by
  cases hpc : s.pc with
  | enter => exact h.own_enter hpc hs
  | next i => exact h.own_next hpc hs
  | opening i id' => exact h.own_opening lawful hpc hs
  | rollback i k rc => exact h.own_rollback hpc hs
  | closing i k rc id' => exact h.own_closing lawful hpc hs
  | done rc =>
      rw [OpenState.own, hpc] at hs
      cases hs

end Own

section Runs

variable {spec : PoolSpec} {s s' : OpenState} {Valid : Table .c → Prop} {id : Slot.CallId}
  {env : Conn.Env}

theorem OpenState.Initial.inv (lawful : (tableOps .c).Lawful maxConns Valid) (h : s.Initial spec) :
    OpenInv spec s Valid := by
  have hpc := h.pc
  refine ⟨(Conn.inv_of_reachable lawful h.client).valid, .inl (by rw [hpc]; rfl),
    fun id op pc hc _ => h.idle id op pc hc, fun id hid => ?_, .inr h.keepalive, fun i hi => ?_, ?_, ?_⟩
  · rw [h.calls] at hid
    cases hid
  · rw [hpc] at hi
    exact absurd hi (Nat.not_lt_zero i)
  · rw [hpc]
    exact ⟨h.calls, fun i _ hi => absurd hi (Nat.not_lt_zero i), fun i _ _ => by rw [h.before]⟩
  · rw [hpc, h.accepted, h.requests, h.before]
    simp [OpenPc.current]

theorem openInv_of_reachable (lawful : (tableOps .c).Lawful maxConns Valid)
    (h : (poolOpen spec).Reachable s) : OpenInv spec s Valid := by
  refine h.invariant (OpenInv spec · Valid) (fun s hs => hs.inv lawful) fun s l s' ih _ hs => ?_
  cases l with
  | other l =>
      change s.step spec (.other l) = some s' at hs
      rw [OpenState.step] at hs
      split at hs
      · next hallows =>
          obtain ⟨conn, hstep, rfl⟩ := Option.map_eq_some_iff.mp hs
          exact ih.other lawful hallows hstep
      · cases hs
  | own id env now created => exact ih.own_step lawful hs

/-- The entries of the table that are not the pool's. -/
def PoolSpec.Frame (spec : PoolSpec) (t t' : Table .c) : Prop :=
  ∀ h, (∀ i < spec.size, h ≠ spec.handle i) → (tableOps .c).find t' h = (tableOps .c).find t h

theorem begin_table {op : Conn.Op} {pc : OpenPc} (hs : s.begin id op pc = some s') :
    s'.conn.table = s.conn.table := by
  obtain ⟨-, rfl⟩ := begin_eq hs
  rfl

theorem run_frame (lawful : (tableOps .c).Lawful maxConns Valid) (h : OpenInv spec s Valid)
    {op : Conn.Op} {pc : Conn.Pc} {i : Nat} (hc : s.Calls id op pc) (hi : i < spec.size)
    (hhandle : op.handle = spec.handle i) (hs : s.run id env = some s') :
    spec.Frame s.conn.table s'.conn.table := by
  obtain ⟨conn, hstep, rfl⟩ := Option.map_eq_some_iff.mp hs
  simp only [Conn.step, hc.2, Option.bind_some] at hstep
  obtain ⟨pc', acc, reqs, hb⟩ := Conn.callStep_balance lawful h.valid hstep
  exact fun handle hne => hb.frame handle (hhandle ▸ hne i hi)

/-- The call changes no entry of another handle. -/
theorem OpenInv.own_frame {now : Int} {created : Bool} (lawful : (tableOps .c).Lawful maxConns Valid)
    (h : OpenInv spec s Valid) (hs : s.own spec id env now created = some s') :
    spec.Frame s.conn.table s'.conn.table := by
  have hat := h.at_pc
  have same : s'.conn.table = s.conn.table → spec.Frame s.conn.table s'.conn.table := by
    intro htable
    rw [htable]
    exact fun _ _ => rfl
  cases hpc : s.pc with
  | enter =>
      simp only [OpenState.own, hpc, Option.some.injEq] at hs
      subst hs
      apply same
      split
      · rfl
      · split
        · rfl
        · split <;> rfl
  | next i =>
      simp only [OpenState.own, hpc] at hs
      split at hs
      · exact same (begin_table hs)
      · cases hs
        exact same rfl
  | opening i id' =>
      rw [hpc] at hat
      obtain ⟨hi, -, pc, hc, -⟩ := hat
      simp only [OpenState.own, hpc] at hs
      split at hs
      · exact run_frame lawful h hc hi rfl hs
      · cases hs
        exact same rfl
      · cases hs
        exact same rfl
  | rollback i k rc =>
      simp only [OpenState.own, hpc] at hs
      split at hs
      · exact same (begin_table hs)
      · cases hs
        exact same rfl
  | closing i k rc id' =>
      rw [hpc] at hat
      obtain ⟨hik, hfailed, pc, hc, -⟩ := hat
      simp only [OpenState.own, hpc] at hs
      split at hs
      · exact run_frame lawful h hc (hik.trans hfailed.1) rfl hs
      · cases hs
        exact same rfl
  | done rc =>
      rw [OpenState.own, hpc] at hs
      cases hs

/-- The connections of the Large Forward Opens of the call that have been
accepted. -/
def OpenState.connections (s : OpenState) : List Ident := s.accepted.filterMap Conn.Request.ident

/-- The connections that it has handed to `message_send` to be closed. -/
def OpenState.closes (s : OpenState) : List Ident := s.requests.filterMap Conn.Request.closes

/-- Those of them for which `message_send` has posted the Forward_Close. -/
def OpenState.closesSent (s : OpenState) : List Ident :=
  (s.requests.filter (·.posted)).filterMap Conn.Request.closes

theorem closesSent_eq (h : ∀ r ∈ s.requests, r.kind = .fc → r.posted = true) :
    s.closesSent = s.closes := by
  rw [OpenState.closesSent, List.filterMap_filter]
  refine List.filterMap_congr fun r hr => ?_
  by_cases hkind : r.kind = .fc
  · rw [if_pos (h r hr hkind)]
  · rw [Conn.closes_of_kind hkind, ite_self]

/-- A failing call has closed what it has opened. -/
theorem OpenInv.closes_perm {rc : Conn.Result} (h : OpenInv spec s Valid)
    (hdone : s.pc = .done (.entry rc)) : s.connections.Perm s.closes := by
  have hat := h.at_pc
  have hbalance := h.balance
  rw [hdone] at hat hbalance
  have hheld : spec.held s.conn.table = spec.held s.before :=
    held_congr fun i hi => hat.2.2.rest i hi (.inr (Nat.zero_le i))
  have hnone : OpenPc.current (.done (.entry rc)) = none := rfl
  rw [hheld, hnone, Option.bind_none, Conn.atMostOne_none, add_zero] at hbalance
  exact Multiset.coe_eq_coe.mp (add_right_cancel hbalance)

/-- After its checks have passed a call can start over. -/
theorem OpenInv.reopenable {rc : Conn.Result} {now : Int} {created : Bool}
    (h : OpenInv spec s Valid) (hdone : s.pc = .done (.entry rc)) :
    ∃ s', ({ s with pc := .enter } : OpenState).own spec id env now created = some s' ∧
      s'.pc = .next 0 := by
  have haccepted : spec.Accepted := h.checked.resolve_left (by rw [hdone]; simp [OpenPc.early])
  have hat := h.at_pc
  rw [hdone] at hat
  have hpool : s.pool = .zero := hat.1
  have hfree : ¬s.pool.initialized = true := by
    rw [hpool]
    simp [Pool.zero]
  refine ⟨_, rfl, ?_⟩
  rw [if_neg haccepted.slot, if_neg haccepted.size, if_neg hfree]

end Runs

section Rollback

variable {spec : PoolSpec} {s : OpenState} {tr : List (OpenState × OpenLabel)}

/-- When the open of an entry fails, at whichever entry and whatever other threads
do meanwhile, `bp_client_pool_open` returns its error and leaves the TxRx
connections and the pool without a trace of the entries before it: each
connection that it has opened has been handed to `message_send` once to be
closed. The Forward_Close goes out unless `message_send` refuses it. -/
theorem failed_open_rolls_back {rc : Conn.Result} (htr : (poolOpen spec).Trace tr s)
    (hdone : s.pc = .done (.entry rc)) :
    (∃ k, s.FailedAt spec k rc) ∧
    (∀ i < spec.size, spec.find s.conn.table i = spec.find s.before i) ∧
    (s.pool = .zero ∧ s.keepalive = false ∧ ∀ id env now created,
      ∃ s', ({ s with pc := .enter } : OpenState).own spec id env now created = some s' ∧
        s'.pc = .next 0) ∧
    (∀ p ∈ tr, ∀ s', (poolOpen spec).step p.1 p.2 = some s' →
      ∀ id env now created, p.2 = .own id env now created →
        spec.Frame p.1.conn.table s'.conn.table) ∧
    s.connections.Perm s.closes ∧
    ((∀ r ∈ s.requests, r.kind = .fc → r.posted = true) → s.connections.Perm s.closesSent) := by
  obtain ⟨Valid, lawful⟩ := Conn.tableOps_lawful .c
  have hinv := openInv_of_reachable lawful htr.reachable
  have hat := hinv.at_pc
  rw [hdone] at hat
  obtain ⟨hpool, hfailed, hst⟩ := hat
  refine ⟨hfailed, fun i hi => hst.rest i hi (.inr (Nat.zero_le i)),
    ⟨hpool, hinv.no_keepalive (by rw [hdone]; simp), fun _ _ _ _ => hinv.reopenable hdone⟩, ?_,
    hinv.closes_perm hdone, fun hposted => ?_⟩
  · refine (System.Trace.steps_iff (fun _ _ => True)
      (q := fun s l s' => ∀ id env now created, l = .own id env now created →
        spec.Frame s.conn.table s'.conn.table) (fun s l s' hr hs => ?_) htr).mpr fun _ _ => trivial
    refine iff_true_intro ?_
    rintro id env now created rfl
    exact (openInv_of_reachable lawful hr).own_frame lawful hs
  · rw [closesSent_eq hposted]
    exact hinv.closes_perm hdone

def freshOpen : OpenState where
  conn := Conn.fresh .c
  pool := .zero
  now := 0
  keepalive := false
  pc := .enter
  calls := []
  accepted := []
  requests := []
  before := (Conn.fresh .c).table

theorem freshOpen_initial (spec : PoolSpec) : freshOpen.Initial spec :=
  ⟨.init rfl, fun _ _ _ hc => (nomatch hc), rfl, rfl, rfl, rfl, rfl, rfl⟩

/-- Two entries, of which the first is opened and the second refused by the PLC;
`posted` says whether the Forward_Close of the first goes out. -/
def refusedLabels (posted : Bool) : List OpenLabel :=
  let run (id : Slot.CallId) (env : Conn.Env) : OpenLabel := .own id env 0 true
  [run 0 {}, run 0 {}, run 0 { connSerial := 7 }, run 0 {},
    run 0 { reply := some Conn.acceptReply }, run 0 {}, run 0 {}, run 1 {},
    run 1 { connSerial := 8 }, run 1 {}, run 1 { reply := some [0xDB, 0, 1] }, run 1 {},
    run 2 {}, run 2 {}, run 2 { posted := posted }] ++
    (if posted then [run 2 {}] else []) ++ [run 2 {}, run 2 {}]

/-- The second open is refused, and the first connection is closed again. -/
theorem failed_open_rolls_back_second : ∃ s, (poolOpen ⟨3, 2, 10000, 0⟩).Reachable s ∧
    s.pc = .done (.entry .cipStatus) ∧ s.pool = .zero ∧ s.connections.length = 1 ∧
    s.connections.Perm s.closesSent := by
  obtain ⟨tr, s, htr, -, hp⟩ := (poolOpen ⟨3, 2, 10000, 0⟩).exists_trace_of_run (fun _ _ => True)
    (freshOpen_initial _) (refusedLabels true)
    (fun s => decide (s.pc = .done (.entry .cipStatus) ∧ s.connections.length = 1 ∧
      ∀ r ∈ s.requests, r.kind = .fc → r.posted = true)) (by decide +kernel)
  obtain ⟨hdone, hlength, hposted⟩ := of_decide_eq_true hp
  obtain ⟨-, -, ⟨hpool, -⟩, -, -, hperm⟩ := failed_open_rolls_back htr hdone
  exact ⟨s, htr.reachable, hdone, hpool, hlength, hperm hposted⟩

/-- When `message_send` refuses the Forward_Close, the first connection stays
open at the PLC. -/
theorem failed_open_close_refused : ∃ s, (poolOpen ⟨3, 2, 10000, 0⟩).Reachable s ∧
    s.pc = .done (.entry .cipStatus) ∧ s.connections.length = 1 ∧ s.closesSent = [] ∧
    ¬s.connections.Perm s.closesSent := by
  obtain ⟨s, hs, hp⟩ := (poolOpen ⟨3, 2, 10000, 0⟩).exists_reaches_of_run (fun _ _ => True)
    (freshOpen_initial _) (refusedLabels false)
    (fun s => decide (s.pc = .done (.entry .cipStatus) ∧ s.connections.length = 1 ∧
      s.closesSent = [])) (by decide +kernel)
  obtain ⟨hdone, hlength, hsent⟩ := of_decide_eq_true hp
  refine ⟨s, hs, hdone, hlength, hsent, fun hperm => ?_⟩
  rw [hsent] at hperm
  rw [hperm.length_eq] at hlength
  cases hlength

end Rollback

end BpClient.CPool
