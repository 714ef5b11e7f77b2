import BpClient.CPool.Handles
import BpClient.Lib.Monitor
import BpClient.Lib.Transition

/-!
The connection pool of `c/src/pool.c` from the moment `bp_client_pool_open`
returns: any number of threads in `bp_client_pool_txrx`, the keepalive thread
`pool_keepalive_loop`, and one `bp_client_pool_close` (`pools_mu` lets in one
at a time).

Taking `pool->mu` is a step of its own; what a thread then does up to the next
unlock or wait is one step, and so is a request on the wire. The times read
from the clock, the results of the wire and the waiter a signal wakes are part
of the label. `rr_seed` is shared with the other pools, so its value is part of
the label too.
-/

namespace BpClient.CPool

open BpClient.Lib

def errNotOpen : Int := -303

structure Entry where
  inUse : Bool
  appHandle : Nat
  lastUsed : Int
  dead : Bool
  lastReopenAttempt : Int
  reopenBackoffMs : Int
  deriving DecidableEq, Repr

/-- `struct bp_pool` without its mutex, condition variable and client. -/
structure Pool where
  initialized : Bool
  slot : Nat
  size : Nat
  keepaliveMs : Int
  entries : Nat → Entry
  kaActive : Bool
  kaStop : Bool

def Entry.zero : Entry := ⟨false, 0, 0, false, 0, 0⟩

/-- `memset(pool, 0, sizeof(*pool))` -/
def Pool.zero : Pool := ⟨false, 0, 0, 0, fun _ => .zero, false, false⟩

/-- The pool as a successful `bp_client_pool_open` leaves it; `kaActive` says
whether the keepalive thread was wanted and could be created. -/
def openedPool (slot size : Nat) (keepaliveMs now : Int) (kaActive : Bool) : Pool where
  initialized := true
  slot := slot
  size := size
  keepaliveMs := keepaliveMs
  entries := fun i =>
    if i < size then ⟨false, poolAppHandle slot i, now, false, 0, 0⟩ else .zero
  kaActive := kaActive
  kaStop := false

abbrev CallId := Nat

inductive Tid
  | caller (id : CallId)
  | keepalive
  | closer
  deriving DecidableEq, Repr

/-- Where a thread is in `bp_client_pool_txrx`. -/
inductive CallerPc
  | enter
  /-- In `pthread_cond_wait`: blocked, or woken and not yet back. -/
  | waiting
  /-- In `bp_client_txrx_msg` on the entry's app_handle. -/
  | running (i appHandle : Nat)
  | release (i : Nat) (rc : Int)
  /-- Returned; `entry` is the entry the call had acquired. -/
  | done (rc : Int) (entry : Option Nat)
  deriving DecidableEq, Repr

/-- Where the keepalive thread is in `pool_keepalive_loop`. -/
inductive KeepalivePc
  | top
  | waiting
  | timedOut
  | ping (i : Nat) (now : Int)
  | pinging (i appHandle : Nat) (now : Int)
  | pinged (i : Nat) (now : Int) (ok : Bool)
  | reopen (i : Nat)
  /-- In `bp_txrx_force_close_local` and `bp_client_txrx_open`. -/
  | reopening (i appHandle : Nat)
  | reopened (i : Nat) (ok : Bool)
  | exited
  deriving DecidableEq, Repr

/-- Where the closing thread is in `bp_client_pool_close`. -/
inductive CloserPc
  | idle
  | mark
  | join
  | drain
  | waiting
  | closing (i : Nat)
  | destroy
  | closed
  deriving DecidableEq, Repr

structure State where
  pool : Pool
  /-- `pool->mu` and `pool->cv` -/
  mon : Monitor Tid
  callers : CallId → Option CallerPc
  keepalive : KeepalivePc
  closer : CloserPc

structure Env where
  seed : Nat := 0
  now : Int := 0
  rc : Int := 0
  pick : Option Tid := none
  deriving DecidableEq, Repr

inductive Label
  /-- A thread calls `bp_client_pool_txrx` with arguments it accepts. -/
  | start (id : CallId)
  /-- A thread calls `bp_client_pool_close` and finds the pool open. -/
  | close
  | lock (t : Tid)
  | run (t : Tid) (env : Env)
  /-- A spurious wakeup. -/
  | wake (t : Tid)
  /-- `pthread_cond_timedwait` of the keepalive thread times out. -/
  | timeout
  deriving DecidableEq, Repr

namespace State

variable (s : State)

def setEntry (i : Nat) (e : Entry) : State :=
  { s with pool := { s.pool with entries := Function.update s.pool.entries i e } }

def setCaller (id : CallId) (pc : CallerPc) : State :=
  { s with callers := Function.update s.callers id (some pc) }

def setKeepalive (pc : KeepalivePc) : State := { s with keepalive := pc }

def setCloser (pc : CloserPc) : State := { s with closer := pc }

def unlock : State := { s with mon := s.mon.unlock }

def wait (t : Tid) : State := { s with mon := s.mon.wait t }

def broadcast : State := { s with mon := s.mon.broadcast }

def signal (pick : Option Tid) : Option State :=
  (s.mon.signal pick).map fun mon => { s with mon := mon }

/-- The next step of the thread is made with `pool->mu` held, and the thread
does not hold it from an earlier step. -/
def needsMu : Tid → Bool
  | .caller id =>
      match s.callers id with
      | some .enter | some (.release _ _) => true
      | some .waiting => decide (Tid.caller id ∉ s.mon.waiters)
      | _ => false
  | .keepalive =>
      match s.keepalive with
      | .top | .timedOut | .pinged _ _ _ | .reopened _ _ => true
      | .waiting => decide (Tid.keepalive ∉ s.mon.waiters)
      | .ping i _ | .reopen i => decide (i < s.pool.size)
      | _ => false
  | .closer =>
      match s.closer with
      | .mark | .drain => true
      | .waiting => decide (Tid.closer ∉ s.mon.waiters)
      | _ => false

end State

def Entry.free (e : Entry) : Bool := !e.inUse && !e.dead

/-- `pool_acquire_locked` up to the entry it marks: the first free one, looking
from `rr_seed % size` on. -/
def poolAcquire (p : Pool) (seed : Nat) : Option Nat :=
  ((List.range p.size).map fun step => (seed % p.size + step) % p.size).find?
    fun i => (p.entries i).free

/-- A caller that holds `pool->mu` and has found the pool initialized. -/
def acquireOrWait (s : State) (id : CallId) (seed : Nat) : State :=
  match poolAcquire s.pool seed with
  | some i =>
      ((s.setEntry i { s.pool.entries i with inUse := true }).setCaller id
        (.running i (s.pool.entries i).appHandle)).unlock
  | none => (s.setCaller id .waiting).wait (.caller id)

/-- `bp_client_pool_txrx` -/
def callerStep (s : State) (id : CallId) (env : Env) : CallerPc → Option State
  | .enter | .waiting =>
      some (if s.pool.initialized then acquireOrWait s id env.seed
        else (s.setCaller id (.done errNotOpen none)).unlock)
  | .running i _ => some (s.setCaller id (.release i env.rc))
  | .release i rc =>
      ((s.setEntry i { s.pool.entries i with inUse := false, lastUsed := env.now }).signal
        env.pick).map fun s => (s.setCaller id (.done rc (some i))).unlock
  | .done _ _ => none

def Entry.afterPing (e : Entry) (ok : Bool) (now : Int) : Entry :=
  if ok then { e with inUse := false, lastUsed := now }
  else { e with
    inUse := false, lastUsed := now, dead := true, lastReopenAttempt := now
    reopenBackoffMs := if e.reopenBackoffMs = 0 then 1000 else e.reopenBackoffMs }

def Entry.afterReopen (e : Entry) (ok : Bool) (now : Int) : Entry :=
  if ok then { e with inUse := false, dead := false, lastUsed := now, reopenBackoffMs := 1000 }
  else { e with
    inUse := false
    reopenBackoffMs := if e.reopenBackoffMs * 2 > 30000 then 30000 else e.reopenBackoffMs * 2 }

/-- `pool_keepalive_loop` -/
def keepaliveStep (s : State) (env : Env) : KeepalivePc → Option State
  | .top | .waiting =>
      some (if s.pool.kaStop then (s.setKeepalive .exited).unlock
        else (s.setKeepalive .waiting).wait .keepalive)
  | .timedOut =>
      some (s.setKeepalive (if s.pool.kaStop then .exited else .ping 0 env.now)).unlock
  | .ping i now =>
      if i < s.pool.size then
        some (if s.pool.kaStop then (s.setKeepalive .exited).unlock
          else
            let e := s.pool.entries i
            if e.inUse || e.dead || decide ((now - e.lastUsed) * 1000 < s.pool.keepaliveMs) then
              (s.setKeepalive (.ping (i + 1) now)).unlock
            else ((s.setEntry i { e with inUse := true }).setKeepalive
              (.pinging i e.appHandle now)).unlock)
      else some (s.setKeepalive (.reopen 0))
  | .pinging i _ now => some (s.setKeepalive (.pinged i now (env.rc == 0)))
  | .pinged i now ok =>
      ((s.setEntry i ((s.pool.entries i).afterPing ok env.now)).signal env.pick).map fun s =>
        (s.setKeepalive (.ping (i + 1) now)).unlock
  | .reopen i =>
      if i < s.pool.size then
        some (if s.pool.kaStop then (s.setKeepalive .exited).unlock
          else
            let e := s.pool.entries i
            if !e.dead || e.inUse ||
                decide ((env.now - e.lastReopenAttempt) * 1000 < e.reopenBackoffMs) then
              (s.setKeepalive (.reopen (i + 1))).unlock
            else ((s.setEntry i { e with inUse := true, lastReopenAttempt := env.now }).setKeepalive
              (.reopening i e.appHandle)).unlock)
      else some (s.setKeepalive .top)
  | .reopening i _ => some (s.setKeepalive (.reopened i (env.rc == 0)))
  | .reopened i ok =>
      let s' := s.setEntry i ((s.pool.entries i).afterReopen ok env.now)
      some ((if ok then s'.broadcast else s').setKeepalive (.reopen (i + 1))).unlock
  | .exited => none

def anyBusy (p : Pool) : Bool := (List.range p.size).any fun i => (p.entries i).inUse

/-- `bp_client_pool_close` -/
def closerStep (s : State) : CloserPc → Option State
  | .idle | .closed => none
  | .mark =>
      some (({ s with pool := { s.pool with initialized := false, kaStop := true } }).broadcast.setCloser
        (if s.pool.kaActive then .join else .drain)).unlock
  | .join =>
      if s.keepalive = .exited then
        some ({ s with pool := { s.pool with kaActive := false } }.setCloser .drain)
      else none
  | .drain | .waiting =>
      some (if anyBusy s.pool then (s.setCloser .waiting).wait .closer
        else (s.setCloser (.closing 0)).unlock)
  | .closing i =>
      some (s.setCloser (if i < s.pool.size then .closing (i + 1) else .destroy))
  | .destroy => some ({ s with pool := .zero }.setCloser .closed)

def threadStep (s : State) (env : Env) : Tid → Option State
  | .caller id => (s.callers id).bind (callerStep s id env)
  | .keepalive => keepaliveStep s env s.keepalive
  | .closer => closerStep s s.closer

def State.blocked (s : State) (t : Tid) : Bool := decide (t ∈ s.mon.waiters)

/-- After `pthread_mutex_destroy` a lock is undefined behaviour and has no
step. -/
def step (s : State) : Label → Option State
  | .start id => if s.callers id = none then some (s.setCaller id .enter) else none
  | .close =>
      if s.closer = .idle ∧ s.pool.initialized = true then some (s.setCloser .mark) else none
  | .lock t =>
      if s.needsMu t = true ∧ s.closer ≠ .closed then
        (s.mon.lock t).map fun mon => { s with mon := mon }
      else none
  | .run t env =>
      if s.blocked t = true then none
      else if s.needsMu t = true then
        if s.mon.holder = some t then threadStep s env t else none
      else threadStep s env t
  | .wake t => if s.blocked t = true then some { s with mon := s.mon.wake t } else none
  | .timeout =>
      if s.keepalive = .waiting ∧ s.blocked .keepalive = true then
        some ({ s with mon := s.mon.wake .keepalive }.setKeepalive .timedOut)
      else none

def opened (slot size : Nat) (keepaliveMs now : Int) (kaActive : Bool) : State where
  pool := openedPool slot size keepaliveMs now kaActive
  mon := ⟨none, ∅⟩
  callers := fun _ => none
  keepalive := if kaActive then .top else .exited
  closer := .idle

def Initial (s : State) : Prop :=
  ∃ slot size keepaliveMs now kaActive, slot < maxSlots ∧ 1 ≤ size ∧ size ≤ maxSize ∧
    s = opened slot size keepaliveMs now kaActive

def pool : System State Label := ⟨Initial, step⟩

end BpClient.CPool
