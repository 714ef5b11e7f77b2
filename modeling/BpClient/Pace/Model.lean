import BpClient.CPool.Handles
import BpClient.Lib.Transition
import BpClient.SdkPool.Model
import BpClient.Slot.Dispatcher

/-!
The keepalive loop of an open pool, with its clock: `pool_keepalive_loop` of
`c/src/pool.c`, `keepaliveLoop` of `go/ocxbp/pool.go` and
`_pool_keepalive_loop` of `python/src/bpclient/client.py`, and the callers that
take entries from the pool and give them back.

C reads its clock in seconds, Go in nanoseconds; Python's seconds are taken as
exact numbers of nanoseconds. The readings, which need not grow, and the outcomes
of the requests are part of the label. Who has an entry is one of the flags
`in_use` in C, and a queue of the free entries in Go and Python.
-/

namespace BpClient.Pace

open BpClient.Lib
open BpClient.Slot (Sdk)
open BpClient.CPool (maxSize)
open BpClient.SdkPool (Pass)

structure Spec where
  size : Nat
  keepaliveMs : Nat
  one_le : 1 ≤ size
  le_max : size ≤ maxSize
  keepalive_pos : 0 < keepaliveMs

structure Entry where
  lastUsed : Int
  dead : Bool
  /-- `last_reopen_attempt` -/
  lastReopen : Int
  /-- `reopen_backoff_ms` -/
  backoffMs : Nat
  deriving DecidableEq, Repr

section Clock

variable (sdk : Sdk)

/-- At least `ms` milliseconds lie between two readings of the clock. -/
def Elapsed (ms : Nat) (since now : Int) : Prop :=
  match sdk with
  | .c => ms ≤ (now - since) * 1000
  | .go | .python => ms * 1000000 ≤ now - since

instance (ms : Nat) (since now : Int) : Decidable (Elapsed sdk ms since now) := by
  unfold Elapsed
  split <;> infer_instance

def idle (keepaliveMs : Nat) (e : Entry) (now : Int) : Bool :=
  match sdk with
  | .c => !decide ((now - e.lastUsed) * 1000 < keepaliveMs)
  | .go => !decide (now - e.lastUsed < keepaliveMs * 1000000)
  | .python => !decide (now - e.lastUsed < keepaliveMs * 1000000)

def elapsed (e : Entry) (now : Int) : Bool :=
  match sdk with
  | .c => !decide ((now - e.lastReopen) * 1000 < e.backoffMs)
  | .go => !decide ((now - e.lastReopen).tdiv 1000000 < e.backoffMs)
  | .python => !decide (now - e.lastReopen < e.backoffMs * 1000000)

def nextBackoff (backoffMs : Nat) : Nat :=
  match sdk with
  | .c | .go => if backoffMs * 2 > 30000 then 30000 else backoffMs * 2
  | .python => min (backoffMs * 2) 30000

end Clock

namespace Entry

variable (e : Entry)

def die (now : Int) : Entry :=
  { e with dead := true, lastReopen := now, backoffMs := if e.backoffMs = 0 then 1000 else e.backoffMs }

/-- The ping has been answered, or has failed: `used` and `now` are the readings of
the clock for `last_used` and for `last_reopen_attempt`. -/
def pinged (ok : Bool) (used now : Int) : Entry :=
  let e := { e with lastUsed := used }
  if ok then e else e.die now

def reopened (sdk : Sdk) (ok : Bool) (used : Int) : Entry :=
  if ok then { e with dead := false, lastUsed := used, backoffMs := 1000 }
  else { e with backoffMs := nextBackoff sdk e.backoffMs }

end Entry

/-- The pass over the entries that the loop is in; `now` is read before the first
one. -/
structure Scan where
  pass : Pass
  now : Int
  deriving DecidableEq, Repr

inductive WorkerPc
  | wait
  | scan (sc : Scan) (i : Nat)
  /-- A request for entry `i`, which the loop has claimed, is in flight. -/
  | busy (sc : Scan) (i : Nat)
  /-- About to put an index into the queue, and then on to the entry after `i`. -/
  | give (sc : Scan) (i got : Nat)
  deriving DecidableEq, Repr

abbrev CallerId := Nat

structure State where
  entries : Nat → Entry
  inUse : Nat → Bool
  free : List Nat
  callers : CallerId → Option Nat
  worker : WorkerPc

inductive Label
  /-- A call takes an entry, in C the entry `i`, which depends on a counter that
  all pools share. -/
  | take (c : CallerId) (i : Nat)
  /-- A call gives its entry back. -/
  | release (c : CallerId) (now : Int)
  | tick (now : Int)
  /-- A step of the loop; `now` is what its clock shows. -/
  | work (now : Int)
  /-- The request of the loop ends. -/
  | reply (ok : Bool) (used now : Int)
  deriving DecidableEq, Repr

namespace State

variable (sdk : Sdk) (spec : Spec) (s : State)

def setEntry (i : Nat) (e : Entry) : State := { s with entries := Function.update s.entries i e }

def goto (pc : WorkerPc) : State := { s with worker := pc }

/-- `pool_acquire_locked`, and the head of the queue. -/
def take (c : CallerId) (i : Nat) : Option State :=
  match sdk with
  | .c =>
      if i < spec.size ∧ s.inUse i = false ∧ (s.entries i).dead = false then
        some { s with
          inUse := Function.update s.inUse i true
          callers := Function.update s.callers c (some i) }
      else none
  | .go | .python =>
      match s.free with
      | got :: rest => some { s with free := rest, callers := Function.update s.callers c (some got) }
      | [] => none

/-- Give an entry back. Go and Python use no entry that is dead. -/
def release (c i : Nat) (now : Int) : State :=
  let e := s.entries i
  let s := { s with callers := Function.update s.callers c none }
  match sdk with
  | .c => { s.setEntry i { e with lastUsed := now } with inUse := Function.update s.inUse i false }
  | .go | .python =>
      { (if e.dead then s else s.setEntry i { e with lastUsed := now }) with free := s.free ++ [i] }

def finish (sc : Scan) (i : Nat) : State :=
  match sdk with
  | .c => { s with inUse := Function.update s.inUse i false, worker := .scan sc (i + 1) }
  | .go | .python => s.goto (.give sc i i)

/-- The test that entry `i` meets in a pass; the reopen pass reads the clock. -/
def due (sc : Scan) (i : Nat) (now : Int) : Bool :=
  match sc.pass with
  | .ping => !(s.entries i).dead && idle sdk spec.keepaliveMs (s.entries i) sc.now
  | .reopen => (s.entries i).dead && elapsed sdk (s.entries i) now

def claimed (sc : Scan) (i : Nat) (now : Int) : State :=
  match sc.pass with
  | .ping => s.goto (.busy sc i)
  | .reopen => (s.setEntry i { s.entries i with lastReopen := now }).goto (.busy sc i)

/-- Claim entry `i`: in Go and Python by taking the head of the queue, which may be
another. -/
def claim (sc : Scan) (i : Nat) (now : Int) : State :=
  match sdk with
  | .c =>
      if s.inUse i then s.goto (.scan sc (i + 1))
      else { s with inUse := Function.update s.inUse i true }.claimed sc i now
  | .go | .python =>
      match s.free with
      | got :: rest =>
          if got = i then { s with free := rest }.claimed sc i now
          else { s with free := rest }.goto (.give sc i got)
      | [] => s.goto (.scan sc (i + 1))

/-- After the last entry comes the other pass, or the next tick. -/
def nextPass (sc : Scan) : State :=
  match sc.pass with
  | .ping => s.goto (.scan { sc with pass := .reopen } 0)
  | .reopen => s.goto .wait

def work (now : Int) : Option State :=
  match s.worker with
  | .scan sc i =>
      some (if i < spec.size then
          if s.due sdk spec sc i now then s.claim sdk sc i now else s.goto (.scan sc (i + 1))
        else s.nextPass sc)
  | .give sc i got => some ({ s with free := s.free ++ [got] }.goto (.scan sc (i + 1)))
  | .wait | .busy _ _ => none

def reply (ok : Bool) (used now : Int) : Option State :=
  match s.worker with
  | .busy sc i =>
      let e := s.entries i
      let e := match sc.pass with
        | .ping => e.pinged ok used now
        | .reopen => e.reopened sdk ok used
      some ((s.setEntry i e).finish sdk sc i)
  | .wait | .scan _ _ | .give _ _ _ => none

end State

section System

variable (sdk : Sdk) (spec : Spec)

def step (s : State) : Label → Option State
  | .take c i => if s.callers c = none then s.take sdk spec c i else none
  | .release c now => (s.callers c).map fun i => s.release sdk c i now
  | .tick now =>
      match s.worker with
      | .wait => some (s.goto (.scan ⟨.ping, now⟩ 0))
      | _ => none
  | .work now => s.work sdk spec now
  | .reply ok used now => s.reply sdk ok used now

structure Initial (s : State) : Prop where
  entries : ∃ now, ∀ i, s.entries i = ⟨now, false, 0, 0⟩
  inUse : ∀ i, s.inUse i = false
  free : s.free = List.range spec.size
  callers : ∀ c, s.callers c = none
  worker : s.worker = .wait

def pool : System State Label := ⟨Initial spec, step sdk spec⟩

end System

end BpClient.Pace
