import BpClient.Lib.Transition
import BpClient.Slot.Dispatcher

/-!
What a client holds of the IPC: the file descriptor and the mapping of the
shared memory, and the 33 named semaphores. Open, close and reconnect of
`c/src/client.c`, `go/ocxbp/shm/shm.go` and `python/src/bpclient/_ipc.py`, and
what a call does with a client that has them in part.

A run is a sequence of API calls on one client. Which `sem_open` fails, whose
slots are free and how the engine answers are part of the label.
-/

namespace BpClient.Shm

open BpClient.Lib
open BpClient.Slot (Sdk pendingErrorBits)

abbrev slotCount : Nat := 16

/-- The named semaphores `/bpShm`, `/bpReqNN` and `/bpRespNN`. -/
inductive SemId
  | lock
  | req (i : Fin slotCount)
  | resp (i : Fin slotCount)
  deriving DecidableEq, Repr

/-- Both semaphores of every slot, in the order in which they are opened. -/
def slotSems : List SemId := (List.finRange slotCount).flatMap fun i => [.req i, .resp i]

/-- `shm_fd`, `shm` and the semaphores of a client; what is missing is `-1`,
`NULL`, `nil` or `None`. -/
structure Ipc where
  fd : Option Nat
  shm : Bool
  sems : SemId → Bool

def Ipc.none : Ipc := ⟨.none, false, fun _ => false⟩

def Ipc.add (ipc : Ipc) (id : SemId) : Ipc := { ipc with sems := Function.update ipc.sems id true }

inductive Error
  | nullArg
  | clientOpen
  | noFreeSlot
  | generic
  /-- `BP_ERR_SEND_REQUEST`, `BP_ERR_RECV_ANSWER` or the engine's errorcode. -/
  | call (rc : Int)
  deriving DecidableEq, Repr

inductive Fault
  /-- A semaphore operation on a semaphore that is missing. -/
  | semaphore
  /-- An access to shared memory that is not mapped. -/
  | unmapped
  deriving DecidableEq, Repr

inductive Outcome
  | ok
  | error (e : Error)
  /-- A Python exception that is no SDK error, such as a failed assertion. -/
  | raised
  | fault (f : Fault)
  deriving DecidableEq, Repr

/-- What an API call meets at its IPC call. -/
structure CallEnv where
  /-- `sem_wait` on `/bpShm` succeeds. -/
  wait : Bool := true
  /-- The first slot without an owner. -/
  firstFree : Option (Fin slotCount) := some 0
  /-- `sem_post` of the request succeeds. -/
  post : Bool := true
  /-- The wait for the reply succeeds; if it does not, the errorcode is polled. -/
  reply : Bool := true
  /-- The errorcode in the slot after the wait, or at the end of the poll. -/
  errorcode : BitVec 32 := 0
  deriving DecidableEq, Repr

structure OpenEnv where
  /-- The file descriptor, if `shm_open` succeeds. -/
  fd : Option Nat := some 3
  mmap : Bool := true
  /-- The `sem_open` that fails, if one does. -/
  missing : Option SemId := none
  deriving DecidableEq, Repr

/-- `bp_client_call` once it has a slot. What Python raises when the wait for the
reply fails otherwise than by `BusyError` is left out. -/
def roundTrip (env : CallEnv) : Outcome :=
  if !env.post then .error (.call (-200))
  else if !env.reply && env.errorcode == pendingErrorBits then .error (.call (-201))
  else if env.errorcode = 0 then .ok
  else .error (.call env.errorcode.toInt)

/-- `reserve_slot`, the round trip and `release_slot`. Python asserts that the
mapping and the lock are there. -/
def call (sdk : Sdk) (ipc : Ipc) (env : CallEnv) : Outcome :=
  if sdk = .python ∧ !(ipc.shm && ipc.sems .lock) then .raised
  else if !ipc.sems .lock then .fault .semaphore
  else if !env.wait then (if sdk = .python then .raised else .error .generic)
  else if !ipc.shm then .fault .unmapped
  else match env.firstFree with
    | none => .error .noFreeSlot
    | some i =>
        if ipc.sems (.req i) && ipc.sems (.resp i) then roundTrip env else .fault .semaphore

/-- The fault of the first of several calls that has one; their results are
ignored. -/
def callAll (sdk : Sdk) (ipc : Ipc) : List CallEnv → Option Fault
  | [] => none
  | env :: envs =>
      match call sdk ipc env with
      | .fault f => some f
      | _ => callAll sdk ipc envs

/-- Open the semaphores one after the other, up to the one that fails. -/
def openSems (missing : Option SemId) : List SemId → Ipc → Ipc × Bool
  | [], ipc => (ipc, true)
  | id :: ids, ipc => if missing = some id then (ipc, false) else openSems missing ids (ipc.add id)

/-- Release everything; Go does not close the file descriptor 0. -/
def Ipc.release (sdk : Sdk) (ipc : Ipc) : Ipc :=
  { Ipc.none with fd := if sdk = .go ∧ ipc.fd = some 0 then some 0 else .none }

/-- How far an open has come. -/
inductive Opened
  /-- Nothing is held. -/
  | nothing
  /-- `/bpShm` could not be opened. -/
  | noLock (ipc : Ipc)
  /-- A semaphore of a slot could not be opened. -/
  | noSlot (ipc : Ipc)
  | all (ipc : Ipc)

def openIpc (env : OpenEnv) : Opened :=
  match env.fd with
  | none => .nothing
  | some fd =>
      if !env.mmap then .nothing
      else
        let mapped : Ipc := { Ipc.none with fd := some fd, shm := true }
        if env.missing = some .lock then .noLock mapped
        else
          let opened := openSems env.missing slotSems (mapped.add .lock)
          if opened.2 then .all opened.1 else .noSlot opened.1

inductive Phase
  /-- The caller has no client, or in Python one that is closed. -/
  | absent
  | up
  /-- The last reconnect has failed, on what it met. -/
  | down (met : OpenEnv)
  /-- The process has died of a fault. -/
  | dead
  deriving DecidableEq, Repr

/-- What the last reconnect met, if it has failed. -/
@[simp] def Phase.failed : Phase → Option OpenEnv
  | .down met => some met
  | _ => none

structure State where
  ipc : Ipc
  phase : Phase
  /-- The outcome of the last API call. -/
  last : Outcome

inductive Label
  /-- In C a failed open ends the session of the half-open client. Python can
  open a client again. -/
  | open (env : OpenEnv) (session : CallEnv)
  | call (env : CallEnv)
  /-- `pools` are the calls that close the pools. -/
  | close (pools : List CallEnv) (session : CallEnv)
  | reconnect (pools : List CallEnv) (env : OpenEnv)
  deriving DecidableEq, Repr

section Step

variable (sdk : Sdk) (s : State)

def State.die (f : Fault) : State := { s with phase := .dead, last := .fault f }

def openClient (env : OpenEnv) (session : CallEnv) : State :=
  match openIpc env with
  | .nothing => ⟨.none, s.phase, .error .clientOpen⟩
  | .noLock ipc => ⟨ipc.release sdk, s.phase, .error .clientOpen⟩
  | .noSlot ipc =>
      -- C unwinds through bp_client_close
      match if sdk = .c then callAll sdk ipc [session] else none with
      | some f => s.die f
      | none => ⟨ipc.release sdk, s.phase, .error .clientOpen⟩
  | .all ipc => ⟨ipc, .up, .ok⟩

def closeClient (pools : List CallEnv) (session : CallEnv) : State :=
  match callAll sdk s.ipc (pools ++ [session]) with
  | some f => s.die f
  | none => ⟨s.ipc.release sdk, .absent, .ok⟩

/-- `bp_client_reconnect`, `Client.Reconnect`, `Client.reconnect`; Python
releases what a failed reopen has got. -/
def reconnectClient (pools : List CallEnv) (env : OpenEnv) : State :=
  match callAll sdk s.ipc pools with
  | some f => s.die f
  | none =>
      match openIpc env with
      | .nothing => ⟨s.ipc.release sdk, .down env, .error .clientOpen⟩
      | .noLock ipc | .noSlot ipc =>
          ⟨if sdk = .python then ipc.release sdk else ipc, .down env, .error .clientOpen⟩
      | .all ipc => ⟨ipc, .up, .ok⟩

/-- An API call without a client: C and Go check for it. -/
def callAbsent : State :=
  { s with last := if sdk = .python then .raised else .error .nullArg }

def step (s : State) : Label → Option State
  | .open env session =>
      match s.phase with
      | .absent => some (openClient sdk s env session)
      | .up => if sdk = .python then some { s with last := .ok } else none
      | .down _ => if sdk = .python then some (openClient sdk s env session) else none
      | .dead => none
  | .call env =>
      match s.phase with
      | .absent => some (callAbsent sdk s)
      | .up | .down _ =>
          some (match call sdk s.ipc env with
            | .fault f => s.die f
            | r => { s with last := r })
      | .dead => none
  | .close pools session =>
      match s.phase with
      | .absent => some { s with last := .ok }
      | .up | .down _ => some (closeClient sdk s pools session)
      | .dead => none
  | .reconnect pools env =>
      match s.phase with
      | .absent => if sdk = .python then some (reconnectClient sdk s pools env)
          else some (callAbsent sdk s)
      | .up | .down _ => some (reconnectClient sdk s pools env)
      | .dead => none

end Step

def client (sdk : Sdk) : System State Label :=
  ⟨fun s => s = ⟨.none, .absent, .ok⟩, step sdk⟩

end BpClient.Shm
