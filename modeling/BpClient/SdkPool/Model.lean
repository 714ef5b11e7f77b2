import BpClient.CPool.Handles
import BpClient.Lib.Transition

/-!
The connection pools of `go/ocxbp/pool.go` and of
`python/src/bpclient/client.py`, for one backplane slot: any number of threads
in `PoolOpen`, `PoolTxRx` and `PoolClose`, and the keepalive worker of each
pool.

A pool object outlives its place in the registry: a call that has looked it up
goes on with it. Of the TxRx table only the presence of a handle matters; when
it is full for other reasons, the outcome of a request on the wire, the clock,
and which ready case a Go `select` takes are part of the label.
-/

namespace BpClient.SdkPool

open BpClient.Lib
open BpClient.CPool (maxSize poolAppHandle)

inductive Sdk
  | go | python
  deriving DecidableEq, Repr

abbrev PoolId := Nat

abbrev CallId := Nat

abbrev Handle := Nat

/-- `poolEntry`, `_PoolEntry`; what the times decide is part of the label. -/
structure Entry where
  appHandle : Handle
  dead : Bool
  deriving DecidableEq, Repr

inductive Pass
  | ping | reopen
  deriving DecidableEq, Repr

/-- Where a keepalive worker is in `keepaliveLoop`. -/
inductive WorkerPc
  | wait
  | scan (pass : Pass) (i : Nat)
  /-- About to give an index back, and then on to the entry after `i`. -/
  | give (pass : Pass) (i got : Nat)
  /-- In `TxRxMsg`, before it has looked the handle up. -/
  | lookup (i : Nat)
  | pinging (i : Nat) (h : Handle)
  | pinged (i : Nat) (ok : Bool)
  | forceClose (i : Nat)
  /-- In `TxRxOpen`, before and after the Large Forward Open is accepted. -/
  | lfo (i : Nat) (h : Handle)
  | store (i : Nat) (h : Handle)
  | revive (i : Nat)
  deriving DecidableEq, Repr

structure Pool where
  size : Nat
  /-- `keepaliveMs > 0` -/
  keepalive : Bool
  entries : Nat → Option Entry
  free : List Nat
  initialized : Bool
  /-- `stop` is closed, `ka_stop` is set. -/
  stop : Bool
  inflight : Nat
  /-- The keepalive worker, while it runs. -/
  worker : Option WorkerPc

/-- A pool as `PoolOpen` puts it into the registry. -/
def Pool.fresh (size : Nat) (keepalive : Bool) : Pool :=
  ⟨size, keepalive, fun _ => none, [], false, false, 0, none⟩

inductive Result
  | ok
  /-- `ErrNotOpen` -/
  | notOpen
  /-- The slot has a pool already. -/
  | alreadyOpen
  | allDead
  /-- The error of a request or of an open. -/
  | failed
  deriving DecidableEq, Repr

/-- Where a call is in `PoolTxRx`. -/
inductive CallerPc
  | enter
  /-- The pool has been looked up, `initialized` has not been read. -/
  | check (p : PoolId)
  /-- `initialized` was true, `inflight` has not been incremented. -/
  | count (p : PoolId)
  | acquire (p : PoolId) (attempt : Nat)
  | got (p : PoolId) (i attempt : Nat)
  | putBack (p : PoolId) (i attempt : Nat)
  /-- In `TxRxMsg`, before it has looked the handle up. -/
  | send (p : PoolId) (i : Nat)
  | running (p : PoolId) (i : Nat) (h : Handle)
  | release (p : PoolId) (i : Nat) (r : Result)
  | leave (p : PoolId) (r : Result)
  | done (r : Result)
  deriving DecidableEq, Repr

/-- Where a call is in `PoolOpen`. -/
inductive OpenerPc
  | enter (size : Nat) (keepalive : Bool)
  /-- In `TxRxOpen` for entry `i`, before and after the Large Forward Open is
  accepted. -/
  | lfo (p : PoolId) (i : Nat)
  | store (p : PoolId) (i : Nat)
  | record (p : PoolId) (i : Nat)
  | rollback (p : PoolId) (rest : List Nat)
  | unregister (p : PoolId)
  | seed (p : PoolId)
  | startWorker (p : PoolId)
  /-- It has returned, and `p` is open. -/
  | opened (p : PoolId)
  | done (r : Result)
  deriving DecidableEq, Repr

/-- Where a call is in `PoolClose`. -/
inductive CloserPc
  | enter
  | clear (p : PoolId)
  | stop (p : PoolId)
  | join (p : PoolId)
  | drain (p : PoolId)
  | closing (p : PoolId) (i : Nat)
  | done
  deriving DecidableEq, Repr

inductive Pc
  | caller (pc : CallerPc)
  | opener (pc : OpenerPc)
  | closer (pc : CloserPc)
  deriving DecidableEq, Repr

structure State where
  pools : PoolId → Pool
  next : PoolId
  /-- `c.pools[slot]`, `_pools` -/
  registry : Option PoolId
  /-- Which handles the TxRx table holds. -/
  table : Handle → Bool
  calls : CallId → Option Pc

structure Env where
  ok : Bool := true
  /-- The TxRx table has no room. -/
  full : Bool := false
  /-- The entry has been idle, or its backoff has elapsed. -/
  due : Bool := true
  /-- A Go `select` takes the `stop` case. -/
  leave : Bool := false
  deriving DecidableEq, Repr

inductive Label
  | poolTxRx (id : CallId)
  | poolOpen (id : CallId) (size : Nat) (keepalive : Bool)
  | poolClose (id : CallId)
  | run (id : CallId) (env : Env)
  | work (p : PoolId) (env : Env)
  deriving DecidableEq, Repr

/-- Put an index back into `free`; the result says whether the `stop` case of
Go's `select` was taken instead. Python puts it back while `initialized`. -/
def Pool.give (sdk : Sdk) (q : Pool) (i : Nat) (leave : Bool) : Option (Pool × Bool) :=
  match sdk with
  | .go =>
      if leave then if q.stop then some (q, true) else none
      else some ({ q with free := q.free ++ [i] }, false)
  | .python => some (if q.initialized then { q with free := q.free ++ [i] } else q, false)

def Pool.setDead (q : Pool) (i : Nat) (dead : Bool) : Pool :=
  { q with entries := Function.update q.entries i ((q.entries i).map ({ · with dead := dead })) }

namespace State

variable (s : State)

def setPool (p : PoolId) (q : Pool) : State := { s with pools := Function.update s.pools p q }

def setTable (h : Handle) (b : Bool) : State := { s with table := Function.update s.table h b }

def setCall (id : CallId) (pc : Pc) : State :=
  { s with calls := Function.update s.calls id (some pc) }

/-- What a pool keeps when it is set, every pool keeps. -/
theorem of_setPool {β : Type} (f : Pool → β) {p : PoolId} {q : Pool} (h : f q = f (s.pools p))
    (p' : PoolId) : f ((s.setPool p q).pools p') = f (s.pools p') := by
  change f (Function.update s.pools p q p') = f (s.pools p')
  by_cases hp : p' = p
  · rw [hp, Function.update_self, h]
  · rw [Function.update_of_ne hp]

end State

/-- `PoolTxRx` -/
def callerStep (sdk : Sdk) (s : State) (id : CallId) (env : Env) : CallerPc → Option State
  | .enter => some (s.setCall id (.caller (match s.registry with
      | some p => .check p
      | none => .done .notOpen)))
  | .check p =>
      some (s.setCall id (.caller (if (s.pools p).initialized then .count p else .done .notOpen)))
  | .count p =>
      some ((s.setPool p { s.pools p with inflight := (s.pools p).inflight + 1 }).setCall id
        (.caller (.acquire p 0)))
  | .acquire p n =>
      if sdk = .go ∧ env.leave then
        if (s.pools p).stop then some (s.setCall id (.caller (.leave p .notOpen))) else none
      else match (s.pools p).free with
        | i :: rest =>
            some ((s.setPool p { s.pools p with free := rest }).setCall id (.caller (.got p i n)))
        | [] =>
            if sdk = .python ∧ (s.pools p).initialized = false then
              some (s.setCall id (.caller (.leave p .notOpen)))
            else none
  | .got p i n =>
      ((s.pools p).entries i).map fun e =>
        s.setCall id (.caller (if e.dead then .putBack p i n else .send p i))
  | .putBack p i n =>
      ((s.pools p).give sdk i env.leave).map fun (q, stopped) =>
        (s.setPool p q).setCall id (.caller (
          if stopped then .leave p .notOpen
          else if n + 1 ≥ q.size then .leave p .allDead
          else .acquire p (n + 1)))
  | .send p i =>
      ((s.pools p).entries i).map fun e =>
        s.setCall id (.caller (if s.table e.appHandle then .running p i e.appHandle
          else .release p i .notOpen))
  | .running p i _ =>
      some (s.setCall id (.caller (.release p i (if env.ok then .ok else .failed))))
  | .release p i r =>
      ((s.pools p).give sdk i env.leave).map fun (q, _) =>
        (s.setPool p q).setCall id (.caller (.leave p r))
  | .leave p r =>
      some ((s.setPool p { s.pools p with inflight := (s.pools p).inflight - 1 }).setCall id
        (.caller (.done r)))
  | .done _ => none

/-- `PoolOpen` -/
def openerStep (slot : Nat) (s : State) (id : CallId) (env : Env) : OpenerPc → Option State
  | .enter size keepalive =>
      some (match s.registry with
        | some _ => s.setCall id (.opener (.done .alreadyOpen))
        | none =>
            { (s.setPool s.next (.fresh size keepalive)).setCall id (.opener (.lfo s.next 0)) with
              registry := some s.next
              next := s.next + 1 })
  | .lfo p i =>
      some (s.setCall id (.opener (if env.ok then .store p i else .rollback p (List.range i))))
  | .store p i =>
      some (if s.table (poolAppHandle slot i) || env.full then
          s.setCall id (.opener (.rollback p (List.range i)))
        else (s.setTable (poolAppHandle slot i) true).setCall id (.opener (.record p i)))
  | .record p i =>
      let q := s.pools p
      some ((s.setPool p { q with
          entries := Function.update q.entries i (some ⟨poolAppHandle slot i, false⟩) }).setCall id
        (.opener (if i + 1 < q.size then .lfo p (i + 1) else .seed p)))
  | .rollback p rest =>
      match rest with
      | i :: rest =>
          ((s.pools p).entries i).map fun e =>
            (s.setTable e.appHandle false).setCall id (.opener (.rollback p rest))
      | [] => some (s.setCall id (.opener (.unregister p)))
  | .unregister _ =>
      some ({ s with registry := none }.setCall id (.opener (.done .failed)))
  | .seed p =>
      let q := s.pools p
      some ((s.setPool p { q with free := List.range q.size, initialized := true }).setCall id
        (.opener (if q.keepalive then .startWorker p else .opened p)))
  | .startWorker p =>
      some ((s.setPool p { s.pools p with worker := some .wait }).setCall id (.opener (.opened p)))
  | .opened _ | .done _ => none

/-- `PoolClose` -/
def closerStep (sdk : Sdk) (s : State) (id : CallId) : CloserPc → Option State
  | .enter =>
      some (match s.registry with
        | some p => { s with registry := none }.setCall id (.closer (.clear p))
        | none => s.setCall id (.closer .done))
  | .clear p =>
      some ((s.setPool p { s.pools p with initialized := false }).setCall id (.closer (.stop p)))
  | .stop p =>
      some ((s.setPool p { s.pools p with stop := true }).setCall id (.closer (.join p)))
  | .join p =>
      if (s.pools p).worker = none then some (s.setCall id (.closer (.drain p))) else none
  | .drain p =>
      if (s.pools p).inflight = 0 then some (s.setCall id (.closer (.closing p 0))) else none
  | .closing p i =>
      some (if i < (s.pools p).size then
          match (s.pools p).entries i with
          | some e => (s.setTable e.appHandle false).setCall id (.closer (.closing p (i + 1)))
          | none => s.setCall id (.closer (match sdk with
              | .go => .closing p (i + 1)
              | .python => .done))
        else s.setCall id (.closer .done))
  | .done => none

/-- The entry that a pass of the keepalive worker is about to claim. -/
def Pass.wants : Pass → Entry → Bool
  | .ping, e => !e.dead
  | .reopen, e => e.dead

def Pass.next : Pass → WorkerPc
  | .ping => .scan .reopen 0
  | .reopen => .wait

def Pass.claimed : Pass → Nat → WorkerPc
  | .ping, i => .lookup i
  | .reopen, i => .forceClose i

/-- `keepaliveLoop` -/
def workerStep (sdk : Sdk) (s : State) (p : PoolId) (env : Env) : WorkerPc → Option State :=
  let q := s.pools p
  let goto pc := s.setPool p { q with worker := some pc }
  fun
  | .wait =>
      match sdk with
      | .go =>
          if env.leave then
            if q.stop then some (s.setPool p { q with worker := none }) else none
          else some (goto (.scan .ping 0))
      | .python =>
          some (if q.stop || !q.initialized then s.setPool p { q with worker := none }
            else goto (.scan .ping 0))
  | .scan pass i =>
      some (if i < q.size then
          match q.entries i with
          | some e =>
              if pass.wants e && env.due then
                match q.free with
                | got :: rest => s.setPool p { q with
                    free := rest
                    worker := some (if got = i then pass.claimed i else .give pass i got) }
                | [] => goto (.scan pass (i + 1))
              else goto (.scan pass (i + 1))
          | none => goto (.scan pass (i + 1))
        else goto pass.next)
  | .give pass i got =>
      (q.give sdk got env.leave).map fun (q, stopped) =>
        s.setPool p { q with worker := if stopped then none else some (.scan pass (i + 1)) }
  | .lookup i =>
      (q.entries i).map fun e =>
        goto (if s.table e.appHandle then .pinging i e.appHandle else .pinged i false)
  | .pinging i _ => some (goto (.pinged i env.ok))
  | .pinged i ok =>
      let q := if ok then q else q.setDead i true
      some (s.setPool p { q with worker := some (.give .ping i i) })
  | .forceClose i =>
      (q.entries i).map fun e => (goto (.lfo i e.appHandle)).setTable e.appHandle false
  | .lfo i h => some (goto (if env.ok then .store i h else .give .reopen i i))
  | .store i h =>
      some (if s.table h || env.full then goto (.give .reopen i i)
        else (goto (.revive i)).setTable h true)
  | .revive i =>
      some (s.setPool p { q.setDead i false with worker := some (.give .reopen i i) })

def callStep (sdk : Sdk) (slot : Nat) (s : State) (id : CallId) (env : Env) : Pc → Option State
  | .caller pc => callerStep sdk s id env pc
  | .opener pc => openerStep slot s id env pc
  | .closer pc => closerStep sdk s id pc

def startCall (s : State) (id : CallId) (pc : Pc) : Option State :=
  if s.calls id = none then some (s.setCall id pc) else none

def step (sdk : Sdk) (slot : Nat) (s : State) : Label → Option State
  | .poolTxRx id => startCall s id (.caller .enter)
  | .poolOpen id size keepalive =>
      if 1 ≤ size ∧ size ≤ maxSize then startCall s id (.opener (.enter size keepalive)) else none
  | .poolClose id => startCall s id (.closer .enter)
  | .run id env => (s.calls id).bind (callStep sdk slot s id env)
  | .work p env => (s.pools p).worker.bind (workerStep sdk s p env)

/-- No pool has been opened yet, and the table holds no handle of the slot. -/
def Initial (slot : Nat) (s : State) : Prop :=
  s.next = 0 ∧ s.registry = none ∧ (∀ i < maxSize, s.table (poolAppHandle slot i) = false) ∧
    (∀ id, s.calls id = none) ∧ ∀ p, s.pools p = .fresh 0 false

def pools (sdk : Sdk) (slot : Nat) : System State Label := ⟨Initial slot, step sdk slot⟩

end BpClient.SdkPool
