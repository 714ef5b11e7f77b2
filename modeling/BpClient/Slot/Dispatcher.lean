import BpClient.Lib.Transition

/-!
The slot dispatcher: `reserve_slot`, `release_slot` and `bp_client_call` of
`c/src/client.c`, `Client.Call` of `go/ocxbp/shm` and `Client.call` of
`python/src/bpclient/_ipc.py`, run by any number of callers against the shared
slots, the named semaphores and the engine.

One step of a call is one access to the shared state, so every interleaving of
the callers and the engine is a list of labels. A call is identified by a
number that is never reused. The payload of a slot is represented by the call
whose request or reply it holds, `none` being the zeroed area; the header
fields that no step reads back are left out.
-/

namespace BpClient.Slot

open BpClient.Lib

def slotCount : Nat := 16

/-- `BP_PENDING_ERROR_BITS`, the bit pattern of `int32(-301)`. -/
def pendingErrorBits : BitVec 32 := 0xFFFFFED3#32

theorem pendingErrorBits_toInt : pendingErrorBits.toInt = -301 := by decide

inductive Sdk
  | c | go | python
  deriving DecidableEq, Repr

abbrev CallId := Nat

/-- How one semaphore operation, or one callback, ends. For a callback `error`
is an exception (Python) or a panic (Go). -/
inductive SemResult
  | ok | eintr | error | timeout
  deriving DecidableEq, Repr

inductive Rc
  /-- `BP_OK`, with the call whose reply `read_reply` has parsed. -/
  | ok (reply : Option CallId)
  /-- The engine's non-zero errorcode. -/
  | engine (errorcode : BitVec 32)
  | generic | noFreeSlot | sendRequest | recvAnswer
  /-- An exception or panic that is not one of the SDK's return codes. -/
  | raised
  deriving DecidableEq, Repr

/-- The integer a C caller sees; the Go error and the Python exception carry
the same one. -/
def Rc.code : Rc → Option Int
  | .ok _ => some 0
  | .engine errorcode => some errorcode.toInt
  | .generic => some (-1)
  | .noFreeSlot => some (-103001)
  | .sendRequest => some (-200)
  | .recvAnswer => some (-201)
  | .raised => none

/-- The engine's work on one accepted request. -/
inductive JobPhase
  | accepted | replied | coded
  deriving DecidableEq, Repr

structure Job where
  request : Option CallId
  phase : JobPhase
  deriving DecidableEq, Repr

structure SlotState where
  /-- `BP_HDR_SLOT_OWNER`: `(tid << 32) | pid`, 0 when the slot is free. -/
  owner : Nat
  errorcode : BitVec 32
  request : Option CallId
  reply : Option CallId
  semReq : Nat
  semResp : Nat
  /-- Requests the engine has accepted on this slot and not yet posted. -/
  jobs : List Job

inductive Pc
  -- reserve_slot
  | reserveWait
  | scanLock
  | scan (i : Nat)
  | claim (i : Nat)
  | drainReq (i : Nat)
  | drainResp (i : Nat)
  | reservePost (found : Option Nat)
  -- bp_client_call
  | header (i : Nat)
  | fill (i : Nat)
  | postReq (i : Nat)
  | waitResp (i : Nat)
  | poll (i : Nat)
  | readCode (i : Nat)
  | parse (i : Nat)
  -- release_slot
  | releaseWait (i : Nat) (rc : Rc)
  | clearOwner (i : Nat) (rc : Rc)
  | releaseDrainReq (i : Nat) (rc : Rc)
  | releaseDrainResp (i : Nat) (rc : Rc)
  | releasePost (i : Nat) (rc : Rc)
  /-- The call has returned; `unreleased` is a slot it did not give back. -/
  | done (rc : Rc) (unreleased : Option Nat)
  deriving DecidableEq, Repr

structure Call where
  sdk : Sdk
  /-- The client handle, hence the process, the call goes through. -/
  client : Nat
  owner : Nat
  pc : Pc

structure State where
  /-- The count of `/bpShm`. -/
  lock : Nat
  /-- Each client's `scan_mu`. -/
  scanMu : Nat → Option CallId
  slots : Nat → SlotState
  calls : CallId → Option Call
  /-- The calls whose reply and errorcode the engine has written. -/
  answered : CallId → Bool

def State.setCall (s : State) (id : CallId) (c : Call) : State :=
  { s with calls := Function.update s.calls id (some c) }

def State.goto (s : State) (id : CallId) (c : Call) (pc : Pc) : State :=
  s.setCall id { c with pc := pc }

def State.setSlot (s : State) (i : Nat) (v : SlotState) : State :=
  { s with slots := Function.update s.slots i v }

def State.setLock (s : State) (n : Nat) : State := { s with lock := n }

def State.setScanMu (s : State) (client : Nat) (holder : Option CallId) : State :=
  { s with scanMu := Function.update s.scanMu client holder }

section Projections

variable (s : State) (id : CallId) (c : Call) (pc : Pc) (i n : Nat) (v : SlotState)
  (holder : Option CallId)

@[simp] theorem setCall_lock : (s.setCall id c).lock = s.lock := rfl
@[simp] theorem setCall_slots : (s.setCall id c).slots = s.slots := rfl
@[simp] theorem setCall_answered : (s.setCall id c).answered = s.answered := rfl
@[simp] theorem setCall_calls :
    (s.setCall id c).calls = Function.update s.calls id (some c) := rfl
@[simp] theorem goto_lock : (s.goto id c pc).lock = s.lock := rfl
@[simp] theorem goto_slots : (s.goto id c pc).slots = s.slots := rfl
@[simp] theorem goto_answered : (s.goto id c pc).answered = s.answered := rfl
@[simp] theorem goto_calls :
    (s.goto id c pc).calls = Function.update s.calls id (some { c with pc := pc }) := rfl
@[simp] theorem setSlot_lock : (s.setSlot i v).lock = s.lock := rfl
@[simp] theorem setSlot_slots : (s.setSlot i v).slots = Function.update s.slots i v := rfl
@[simp] theorem setSlot_calls : (s.setSlot i v).calls = s.calls := rfl
@[simp] theorem setSlot_answered : (s.setSlot i v).answered = s.answered := rfl
@[simp] theorem setLock_lock : (s.setLock n).lock = n := rfl
@[simp] theorem setLock_slots : (s.setLock n).slots = s.slots := rfl
@[simp] theorem setLock_calls : (s.setLock n).calls = s.calls := rfl
@[simp] theorem setLock_answered : (s.setLock n).answered = s.answered := rfl
@[simp] theorem setScanMu_lock : (s.setScanMu i holder).lock = s.lock := rfl
@[simp] theorem setScanMu_slots : (s.setScanMu i holder).slots = s.slots := rfl
@[simp] theorem setScanMu_calls : (s.setScanMu i holder).calls = s.calls := rfl
@[simp] theorem setScanMu_answered : (s.setScanMu i holder).answered = s.answered := rfl

end Projections

/-- How a wait on `/bpShm` ends for the caller. -/
inductive WaitEnd
  | acquired | again | failed
  deriving DecidableEq, Repr

/-- `sem_wait(sem_shmlock)`. C and Python give up when a signal interrupts the
wait; Go's `go_sem_wait` waits again. -/
def lockWait (sdk : Sdk) (lock : Nat) : SemResult → Option WaitEnd
  | .ok => if 0 < lock then some .acquired else none
  | .eintr => some (if sdk = .go then .again else .failed)
  | .error => some .failed
  | .timeout => none

/-- One round of `sem_drain`: the new count, and whether the loop ends. A
`sem_trywait` takes a post when there is one; it may also fail outright. -/
def semDrain (count : Nat) : SemResult → Option (Nat × Bool)
  | .ok => if 0 < count then some (count - 1, false) else some (0, true)
  | .error => some (count, true)
  | _ => none

/-- What a call returns when the wait of `reserve_slot` fails. -/
def reserveFailed : Sdk → Rc
  | .python => .raised
  | _ => .generic

section CallStep

variable (s : State) (id : CallId) (c : Call) (r : SemResult)

/-- `reserve_slot`, one step at a time. -/
def reserveStep : Pc → Option State
  | .reserveWait =>
      (lockWait c.sdk s.lock r).map fun
        | .acquired => (s.setLock (s.lock - 1)).goto id c .scanLock
        | .again => s
        | .failed => s.goto id c (.done (reserveFailed c.sdk) none)
  | .scanLock =>
      if s.scanMu c.client = none then
        some ((s.setScanMu c.client (some id)).goto id c (.scan 0))
      else none
  | .scan i =>
      if i < slotCount then
        if (s.slots i).owner = 0 then some (s.goto id c (.claim i))
        else some (s.goto id c (.scan (i + 1)))
      else some (s.goto id c (.reservePost none))
  | .claim i =>
      some ((s.setSlot i { s.slots i with owner := c.owner }).goto id c (.drainReq i))
  | .drainReq i =>
      (semDrain (s.slots i).semReq r).map fun (n, fin) =>
        (s.setSlot i { s.slots i with semReq := n }).goto id c
          (if fin then .drainResp i else .drainReq i)
  | .drainResp i =>
      (semDrain (s.slots i).semResp r).map fun (n, fin) =>
        (s.setSlot i { s.slots i with semResp := n }).goto id c
          (if fin then .reservePost (some i) else .drainResp i)
  | .reservePost found =>
      some (((s.setScanMu c.client none).setLock (s.lock + 1)).goto id c
        (match found with
          | some i => .header i
          | none => .done .noFreeSlot none))
  | _ => none

/-- `sem_timedwait(sem_resp[slot])`: a post, or the ways it fails. C polls the
errorcode after any failure; Go waits again after a signal; Python polls only
after `BusyError`, every other exception leaves the call. -/
def waitRespStep (i : Nat) : Option State :=
  match r, c.sdk with
  | .ok, _ =>
      if 0 < (s.slots i).semResp then
        some ((s.setSlot i { s.slots i with semResp := (s.slots i).semResp - 1 }).goto id c
          (.readCode i))
      else none
  | .timeout, _ => some (s.goto id c (.poll i))
  | .eintr, .go => some s
  | .eintr, .python | .error, .python => some (s.goto id c (.releaseWait i .raised))
  | .eintr, .c | .error, .c | .error, .go => some (s.goto id c (.poll i))

/-- One round of the 200 ms errorcode poll; `timeout` is the deadline. C reads
the errorcode before it looks at the clock, Go and Python after. -/
def pollStep (i : Nat) : Option State :=
  if r = .timeout ∧ (c.sdk ≠ .c ∨ (s.slots i).errorcode = pendingErrorBits) then
    some (s.goto id c (.releaseWait i .recvAnswer))
  else if (s.slots i).errorcode ≠ pendingErrorBits then some (s.goto id c (.readCode i))
  else some s

/-- The body of `bp_client_call` between `reserve_slot` and `release_slot`. -/
def bodyStep : Pc → Option State
  | .header i =>
      some ((s.setSlot i { s.slots i with
        errorcode := pendingErrorBits, request := none, reply := none }).goto id c (.fill i))
  | .fill i =>
      match r, c.sdk with
      | .ok, _ => some ((s.setSlot i { s.slots i with request := some id }).goto id c (.postReq i))
      | .error, .go | .error, .python => some (s.goto id c (.releaseWait i .raised))
      | _, _ => none
  | .postReq i =>
      match r with
      | .ok => some ((s.setSlot i { s.slots i with semReq := (s.slots i).semReq + 1 }).goto id c
          (.waitResp i))
      | .error => some (s.goto id c (.releaseWait i .sendRequest))
      | _ => none
  | .waitResp i => waitRespStep s id c r i
  | .poll i => pollStep s id c r i
  | .readCode i =>
      if (s.slots i).errorcode ≠ 0 then
        some (s.goto id c (.releaseWait i (.engine (s.slots i).errorcode)))
      else some (s.goto id c (.parse i))
  | .parse i =>
      match r, c.sdk with
      | .ok, _ => some (s.goto id c (.releaseWait i (.ok (s.slots i).reply)))
      | .error, .go | .error, .python => some (s.goto id c (.releaseWait i .raised))
      | _, _ => none
  | _ => none

/-- `release_slot`. When its wait fails, C and Go return at once; Python's
`finally` posts `/bpShm` all the same and the exception leaves the call. -/
def releaseStep : Pc → Option State
  | .releaseWait i rc =>
      (lockWait c.sdk s.lock r).map fun
        | .acquired => (s.setLock (s.lock - 1)).goto id c (.clearOwner i rc)
        | .again => s
        | .failed =>
            if c.sdk = .python then
              (s.setLock (s.lock + 1)).goto id c (.done .raised (some i))
            else s.goto id c (.done rc (some i))
  | .clearOwner i rc =>
      some ((s.setSlot i { s.slots i with owner := 0 }).goto id c (.releaseDrainReq i rc))
  | .releaseDrainReq i rc =>
      (semDrain (s.slots i).semReq r).map fun (n, fin) =>
        (s.setSlot i { s.slots i with semReq := n }).goto id c
          (if fin then .releaseDrainResp i rc else .releaseDrainReq i rc)
  | .releaseDrainResp i rc =>
      (semDrain (s.slots i).semResp r).map fun (n, fin) =>
        (s.setSlot i { s.slots i with semResp := n }).goto id c
          (if fin then .releasePost i rc else .releaseDrainResp i rc)
  | .releasePost _ rc =>
      match r with
      | .ok => some ((s.setLock (s.lock + 1)).goto id c (.done rc none))
      | .error => some (s.goto id c (.done (if c.sdk = .python then .raised else rc) none))
      | _ => none
  | _ => none

def callStep : Option State :=
  (reserveStep s id c r c.pc).orElse fun _ =>
    (bodyStep s id c r c.pc).orElse fun _ => releaseStep s id c r c.pc

end CallStep

/-- The engine on one slot. It accepts a request whose semaphore was posted,
later writes the reply, then the errorcode, then posts the response semaphore;
several accepted requests may be in progress at once. -/
inductive EngineAct
  | accept
  | reply (k : Nat)
  | code (k : Nat) (errorcode : BitVec 32)
  | post (k : Nat)
  deriving DecidableEq, Repr

def markAnswered (s : State) (request : Option CallId) : State :=
  match request with
  | some id => { s with answered := Function.update s.answered id true }
  | none => s

@[simp] theorem markAnswered_lock (s : State) (q : Option CallId) :
    (markAnswered s q).lock = s.lock := by cases q <;> rfl
@[simp] theorem markAnswered_slots (s : State) (q : Option CallId) :
    (markAnswered s q).slots = s.slots := by cases q <;> rfl
@[simp] theorem markAnswered_calls (s : State) (q : Option CallId) :
    (markAnswered s q).calls = s.calls := by cases q <;> rfl

def engineStep (s : State) (i : Nat) : EngineAct → Option State
  | .accept =>
      if 0 < (s.slots i).semReq then
        some (s.setSlot i { s.slots i with
          semReq := (s.slots i).semReq - 1,
          jobs := (s.slots i).jobs ++ [⟨(s.slots i).request, .accepted⟩] })
      else none
  | .reply k =>
      match (s.slots i).jobs[k]? with
      | some ⟨request, .accepted⟩ =>
          some (s.setSlot i { s.slots i with
            reply := request, jobs := (s.slots i).jobs.set k ⟨request, .replied⟩ })
      | _ => none
  | .code k errorcode =>
      match (s.slots i).jobs[k]? with
      | some ⟨request, .replied⟩ =>
          some (markAnswered (s.setSlot i { s.slots i with
            errorcode := errorcode, jobs := (s.slots i).jobs.set k ⟨request, .coded⟩ }) request)
      | _ => none
  | .post k =>
      match (s.slots i).jobs[k]? with
      | some ⟨_, .coded⟩ =>
          some (s.setSlot i { s.slots i with
            semResp := (s.slots i).semResp + 1, jobs := (s.slots i).jobs.eraseIdx k })
      | _ => none

inductive Label
  /-- A thread of `client` calls the dispatcher of its SDK. -/
  | start (id : CallId) (sdk : Sdk) (client : Nat) (owner : Nat)
  | call (id : CallId) (r : SemResult)
  | engine (i : Nat) (act : EngineAct)
  deriving DecidableEq, Repr

/-- The owner word carries a pid, so it is not 0. -/
def step (s : State) : Label → Option State
  | .start id sdk client owner =>
      match s.calls id with
      | none =>
          if owner ≠ 0 then some (s.setCall id ⟨sdk, client, owner, .reserveWait⟩) else none
      | some _ => none
  | .call id r =>
      match s.calls id with
      | some c => callStep s id c r
      | none => none
  | .engine i act => engineStep s i act

/-- `/bpShm` starts with count 1, every slot is free and the engine is idle;
what earlier runs left in the payload areas is arbitrary. -/
structure Initial (s : State) : Prop where
  lock : s.lock = 1
  calls : ∀ id, s.calls id = none
  answered : ∀ id, s.answered id = false
  owner : ∀ i, (s.slots i).owner = 0
  semReq : ∀ i, (s.slots i).semReq = 0
  semResp : ∀ i, (s.slots i).semResp = 0
  jobs : ∀ i, (s.slots i).jobs = []

def dispatcher : System State Label := ⟨Initial, step⟩

def fresh : State where
  lock := 1
  scanMu := fun _ => none
  slots := fun _ => ⟨0, 0, none, none, 0, 0, []⟩
  calls := fun _ => none
  answered := fun _ => false

theorem fresh_initial : Initial fresh := by
  constructor <;> intros <;> rfl

end BpClient.Slot
