import BpClient.CPool.Handles
import BpClient.Conn.Wire
import BpClient.Lib.Transition
import BpClient.Slot.Dispatcher

/-!
Batches of requests through a pool: `bp_client_pool_batch` of `c/src/pool.c`,
`Client.PoolBatch` of `go/ocxbp/pool.go` and `Client.pool_batch` of
`python/src/bpclient/client.py`.

The workers, of which there are at most as many as the pool has entries, share
a counter of the items. How a call of `pool_txrx` ends is part of the label, so
that the pool may be closed, and its entries may die, at any moment.
-/

namespace BpClient.Batch

open BpClient.Lib
open BpClient.Slot (Sdk)
open BpClient.CPool (maxSize)
open BpClient.Conn (msgMaxSlot)

/-- `bp_batch_item_t`, `BatchItem`; in Python a request with its pair of
results. -/
structure Item (ε : Type*) where
  req : List UInt8
  resp : Option (List UInt8)
  /-- `none` is `BP_OK`, a nil `Err`, no exception. -/
  err : Option ε
  deriving DecidableEq, Repr

/-- What a call of `pool_txrx` hands back: the bytes of the response buffer, as
far as `resp_len` goes, and how it ended. -/
structure Answer (ε : Type*) where
  resp : List UInt8
  err : Option ε
  deriving DecidableEq, Repr

namespace Item

variable {ε : Type*} (it : Item ε)

def clear (sdk : Sdk) : Item ε :=
  match sdk with
  | .c => { it with resp := some [] }
  | .go | .python => it

def store (sdk : Sdk) (a : Answer ε) : Item ε :=
  match sdk with
  | .c => { it with resp := some a.resp, err := a.err }
  | .go | .python =>
      match a.err with
      | none => { it with resp := some a.resp, err := none }
      | some e => { it with resp := none, err := some e }

def skip (generic : ε) : Item ε := { it with resp := some [], err := some generic }

@[simp] theorem clear_req (sdk : Sdk) : (it.clear sdk).req = it.req := by cases sdk <;> rfl

@[simp] theorem store_req (sdk : Sdk) (a : Answer ε) : (it.store sdk a).req = it.req := by
  obtain ⟨resp, err⟩ := a
  cases sdk <;> cases err <;> rfl

/-- Every field but the request comes from the call. -/
theorem store_congr {it it' : Item ε} (h : it.req = it'.req) (sdk : Sdk) (a : Answer ε) :
    it.store sdk a = it'.store sdk a := by
  obtain ⟨resp, err⟩ := a
  cases sdk <;> cases err <;> simp [store, h]

end Item

/-- What the batch is called with; a Python client is never missing. -/
structure Args (ε : Type*) where
  client : Bool
  slot : Int
  items : Option (List (Item ε))

structure PoolSize where
  size : Nat
  one_le : 1 ≤ size
  le_max : size ≤ maxSize
  deriving DecidableEq

inductive Refusal
  | nullArg
  | slotTooLarge
  | notOpen
  /-- C has no memory for the threads. -/
  | alloc
  deriving DecidableEq, Repr

inductive Report (ε : Type*)
  | ok
  /-- `BP_ERR_GENERIC` -/
  | generic
  /-- The error of an item of Go. -/
  | failed (i : Nat) (e : ε)
  /-- The list that Python returns. -/
  | results (pairs : List (Option (List UInt8) × Option ε))
  deriving DecidableEq, Repr

inductive WorkerPc
  | unstarted
  | pull
  /-- It has taken item `i`. -/
  | taken (i : Nat)
  /-- In `pool_txrx` for item `i`. -/
  | calling (i : Nat)
  | exited
  deriving DecidableEq, Repr

inductive Pc (ε : Type*)
  | enter
  /-- Starting worker `w` of `n`. -/
  | spawn (w n : Nat)
  /-- Waiting for those of the `n` workers that have been started. -/
  | join (n : Nat)
  | finish
  | refused (r : Refusal)
  /-- Python could not start a thread. -/
  | raised
  | returned (r : Report ε)
  deriving DecidableEq, Repr

structure State (ε : Type*) where
  pc : Pc ε
  /-- `next_idx` -/
  next : Nat
  worker : Nat → WorkerPc
  items : List (Item ε)

inductive Label (ε : Type*)
  /-- Look up the pool; `alloc` says whether C gets its memory. -/
  | enter (pool : Option PoolSize) (alloc : Bool)
  /-- Start a worker, which may fail. -/
  | spawn (created : Bool)
  | join
  | finish
  | pull (w : Nat)
  | call (w : Nat)
  | reply (w : Nat) (a : Answer ε)
  deriving DecidableEq

section Functions

variable {ε : Type*} (sdk : Sdk) (generic : ε)

namespace Args

variable (args : Args ε)

/-- The items, none of which an absent list has. -/
def given : List (Item ε) := args.items.getD []

def check : Option Refusal :=
  if args.items.isNone ∨ sdk ≠ .python ∧ args.client = false then some .nullArg
  else if (msgMaxSlot.toNat : Int) < args.slot then some .slotTooLarge
  else none

/-- The items as the workers find them; Python makes the results itself. -/
def start : List (Item ε) :=
  match sdk with
  | .c | .go => args.given
  | .python => args.given.map fun it => { it with resp := none, err := none }

end Args

def firstFailure (items : List (Item ε)) : Option (Nat × ε) :=
  items.zipIdx.findSome? fun p => p.1.err.map fun e => (p.2, e)

def report (items : List (Item ε)) : Report ε :=
  match sdk with
  | .c => if (firstFailure items).isSome then .generic else .ok
  | .go =>
      match firstFailure items with
      | some (i, e) => .failed i e
      | none => .ok
  | .python => .results (items.map fun it => (it.resp, it.err))

def markRest (next : Nat) (items : List (Item ε)) : List (Item ε) :=
  match sdk with
  | .c => items.take next ++ (items.drop next).map (·.skip generic)
  | .go | .python => items

namespace State

variable (args : Args ε) (s : State ε)

def goto (w : Nat) (pc : WorkerPc) : State ε := { s with worker := Function.update s.worker w pc }

def enter (pool : Option PoolSize) (alloc : Bool) : State ε :=
  match args.check sdk with
  | some r => { s with pc := .refused r }
  | none =>
      if args.given = [] then { s with pc := .returned (report sdk []), items := [] }
      else match pool with
        | none => { s with pc := .refused .notOpen }
        | some p =>
            if sdk = .c ∧ alloc = false then { s with pc := .refused .alloc }
            else { s with pc := .spawn 0 (min p.size args.given.length), items := args.start sdk }

/-- Start the next worker. C goes on with those that it has, a goroutine always
starts. -/
def spawn (created : Bool) (w n : Nat) : Option (State ε) :=
  if w < n then
    if created then some { s.goto w .pull with pc := .spawn (w + 1) n }
    else match sdk with
      | .c => some { s with pc := .join n }
      | .go => none
      | .python => some { s with pc := .raised }
  else some { s with pc := .join n }

def Joined (n : Nat) : Prop := ∀ w < n, s.worker w = .unstarted ∨ s.worker w = .exited

instance (n : Nat) : Decidable (s.Joined n) := by
  unfold Joined
  infer_instance

def finish : State ε :=
  let items := markRest sdk generic s.next s.items
  { s with items := items, pc := .returned (report sdk items) }

def pull (w : Nat) : State ε :=
  { s.goto w (if s.items.length ≤ s.next then .exited else .taken s.next) with next := s.next + 1 }

end State

def step (args : Args ε) (s : State ε) : Label ε → Option (State ε)
  | .enter pool alloc =>
      match s.pc with
      | .enter => some (s.enter sdk args pool alloc)
      | _ => none
  | .spawn created =>
      match s.pc with
      | .spawn w n => s.spawn sdk created w n
      | _ => none
  | .join =>
      match s.pc with
      | .join n => if s.Joined n then some { s with pc := .finish } else none
      | _ => none
  | .finish =>
      match s.pc with
      | .finish => some (s.finish sdk generic)
      | _ => none
  | .pull w =>
      match s.worker w with
      | .pull => some (s.pull w)
      | _ => none
  | .call w =>
      match s.worker w with
      | .taken i =>
          some { s.goto w (.calling i) with items := s.items.modify i (·.clear sdk) }
      | _ => none
  | .reply w a =>
      match s.worker w with
      | .calling i =>
          some { s.goto w .pull with items := s.items.modify i (·.store sdk a) }
      | _ => none

structure Initial (args : Args ε) (s : State ε) : Prop where
  pc : s.pc = .enter
  next : s.next = 0
  worker : ∀ w, s.worker w = .unstarted
  items : s.items = args.given

def poolBatch (args : Args ε) : System (State ε) (Label ε) :=
  ⟨Initial args, step sdk generic args⟩

end Functions

section History

variable {ε : Type*}

/-- The request that a step passes to `pool_txrx` for item `i`. -/
def sent (i : Nat) (p : State ε × Label ε) : Option (List UInt8) :=
  match p.2 with
  | .call w =>
      if p.1.worker w = .taken i then (p.1.items[i]?).map Item.req else none
  | _ => none

def answer (i : Nat) (p : State ε × Label ε) : Option (Answer ε) :=
  match p.2 with
  | .reply w a => if p.1.worker w = .calling i then some a else none
  | _ => none

/-- The requests that a run passes to `pool_txrx` for item `i`. -/
def requests (tr : List (State ε × Label ε)) (i : Nat) : List (List UInt8) :=
  tr.filterMap (sent i)

def answers (tr : List (State ε × Label ε)) (i : Nat) : List (Answer ε) :=
  tr.filterMap (answer i)

end History

end BpClient.Batch
