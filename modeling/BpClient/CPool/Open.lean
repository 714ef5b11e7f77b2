import BpClient.CPool.Model
import BpClient.Conn.Accounting
import BpClient.Conn.Balance

/-!
`bp_client_pool_open` of `c/src/pool.c`: the entries are opened one after the
other over the TxRx connections of the client, while other threads use theirs,
and closed again when one of them cannot be opened. `pools_mu` is held
throughout, so nobody else opens or closes a pool meanwhile.
-/

namespace BpClient.CPool

open BpClient.Lib
open BpClient.Slot (Sdk)
open BpClient.Conn (Ident Table tableOps maxConns)

structure PoolSpec where
  slot : UInt8
  size : Nat
  keepaliveMs : Int
  connParams : UInt16

/-- The app_handle of an entry. -/
def PoolSpec.handle (spec : PoolSpec) (i : Nat) : Nat := poolAppHandle spec.slot.toNat i

def PoolSpec.conn (spec : PoolSpec) (appHandle : Nat) : Conn.Spec :=
  ⟨appHandle, [0x01, spec.slot], 2, spec.connParams⟩

inductive OpenResult
  | ok
  | slotTooLarge
  | paramRange
  /-- `BP_ERR_GENERIC`: the slot has a pool. -/
  | generic
  /-- An entry could not be opened. -/
  | entry (rc : Conn.Result)
  deriving DecidableEq, Repr

inductive OpenPc
  | enter
  | next (i : Nat)
  /-- In `bp_client_txrx_open` for entry `i`. -/
  | opening (i : Nat) (id : Slot.CallId)
  | rollback (i opened : Nat) (lastRc : Conn.Result)
  /-- In `bp_client_txrx_close` for entry `i`. -/
  | closing (i opened : Nat) (lastRc : Conn.Result) (id : Slot.CallId)
  | done (rc : OpenResult)
  deriving DecidableEq, Repr

structure OpenState where
  /-- The TxRx connections of the client. -/
  conn : Conn.State (Table .c)
  /-- `cl->pools[slot]` -/
  pool : Pool
  now : Int
  /-- The call has created the keepalive thread. -/
  keepalive : Bool
  pc : OpenPc
  /-- The calls of `bp_client_txrx_open` and `bp_client_txrx_close` made so far. -/
  calls : List Slot.CallId
  /-- The Large Forward Opens of these calls that have been accepted. -/
  accepted : List Conn.Request
  /-- Their requests. -/
  requests : List Conn.Request
  /-- The TxRx connections as the call has found them. -/
  before : Table .c

inductive OpenLabel
  /-- A step of another thread. -/
  | other (l : Conn.Label)
  /-- A step of `bp_client_pool_open`; `id` names a call that it makes, `created`
  says whether `pthread_create` succeeds. -/
  | own (id : Slot.CallId) (env : Conn.Env) (now : Int) (created : Bool)
  deriving DecidableEq, Repr

/-- The fields that are set before the first entry is opened. -/
def Pool.reserve (p : Pool) (spec : PoolSpec) : Pool :=
  { p with
    slot := spec.slot.toNat, size := spec.size, keepaliveMs := spec.keepaliveMs
    entries := fun _ => .zero, kaActive := false, kaStop := false }

def Pool.opened (p : Pool) (i appHandle : Nat) (now : Int) : Pool :=
  let e : Entry := { p.entries i with appHandle := appHandle, lastUsed := now }
  { p with entries := Function.update p.entries i e }

theorem Pool.opened_appHandle (p : Pool) (i appHandle : Nat) (now : Int) (j : Nat) :
    ((p.opened i appHandle now).entries j).appHandle =
      if j = i then appHandle else (p.entries j).appHandle := by
  by_cases hj : j = i
  · subst j
    simp [Pool.opened]
  · simp [Pool.opened, hj]

namespace OpenState

variable (spec : PoolSpec) (s : OpenState)

/-- The call begins a call on the TxRx connections. -/
def begin (id : Slot.CallId) (op : Conn.Op) (pc : OpenPc) : Option OpenState :=
  (Conn.step (tableOps .c) .c s.conn (.start id op)).map fun conn =>
    { s with conn := conn, calls := s.calls ++ [id], pc := pc }

def run (id : Slot.CallId) (env : Conn.Env) : Option OpenState :=
  (Conn.step (tableOps .c) .c s.conn (.run id env)).map fun conn =>
    { s with
      conn := conn
      accepted := s.accepted ++ conn.accepted.drop s.conn.accepted.length
      requests := s.requests ++ conn.requests.drop s.conn.requests.length }

def returned (id : Slot.CallId) : Option Conn.Result :=
  match s.conn.calls id with
  | some (_, .done rc) => some rc
  | _ => none

/-- `bp_client_pool_open` -/
def own (id : Slot.CallId) (env : Conn.Env) (now : Int) (created : Bool) : Option OpenState :=
  match s.pc with
  | .enter =>
      some (if Conn.msgMaxSlot < spec.slot then { s with pc := .done .slotTooLarge }
        else if spec.size < 1 ∨ maxSize < spec.size then { s with pc := .done .paramRange }
        else if s.pool.initialized then { s with pc := .done .generic }
        else { s with pool := s.pool.reserve spec, now := now, pc := .next 0 })
  | .next i =>
      if i < spec.size then s.begin id (.open (spec.conn (spec.handle i))) (.opening i id)
      else
        let active := decide (0 < spec.keepaliveMs) && created
        some { s with
          pool := { s.pool with
            initialized := true
            keepaliveMs := if active then spec.keepaliveMs else 0
            kaActive := active }
          keepalive := active
          pc := .done .ok }
  | .opening i id =>
      match s.returned id with
      | none => s.run id env
      | some .ok => some { s with pool := s.pool.opened i (spec.handle i) s.now, pc := .next (i + 1) }
      | some rc => some { s with pc := .rollback 0 i rc }
  | .rollback i opened rc =>
      if i < opened then
        s.begin id (.close (spec.conn (s.pool.entries i).appHandle)) (.closing i opened rc id)
      else some { s with pool := .zero, pc := .done (.entry rc) }
  | .closing i opened rc id =>
      match s.returned id with
      | none => s.run id env
      | some _ => some { s with pc := .rollback (i + 1) opened rc }
  | .done _ => none

/-- Other threads use other handles, and make the steps of their own calls. -/
def Allows : Conn.Label → Prop
  | .start _ op => ∀ i < spec.size, op.handle ≠ spec.handle i
  | .run id _ => id ∉ s.calls

instance (l : Conn.Label) : Decidable (s.Allows spec l) := by
  unfold Allows
  split <;> infer_instance

def step : OpenLabel → Option OpenState
  | .other l =>
      if s.Allows spec l then
        (Conn.step (tableOps .c) .c s.conn l).map fun conn => { s with conn := conn }
      else none
  | .own id env now created => s.own spec id env now created

/-- Some client, with a slot for the pool, and nobody in a call on a handle of
the pool. -/
structure Initial : Prop where
  client : (Conn.client .c).Reachable s.conn
  idle : ∀ id op pc, s.conn.calls id = some (op, pc) → (∃ rc, pc = .done rc) ∨
    ∀ i < spec.size, op.handle ≠ spec.handle i
  pc : s.pc = .enter
  keepalive : s.keepalive = false
  calls : s.calls = []
  accepted : s.accepted = []
  requests : s.requests = []
  before : s.before = s.conn.table

end OpenState

/-- `bp_client_pool_open` with a specification, among other threads. -/
def poolOpen (spec : PoolSpec) : System OpenState OpenLabel :=
  ⟨OpenState.Initial spec, OpenState.step spec⟩

section Invariant

variable (spec : PoolSpec) (s : OpenState)

def PoolSpec.find (t : Table .c) (i : Nat) : Option Conn.TxrxConn :=
  (tableOps .c).find t (spec.handle i)

/-- The connections that a table has for the pool. -/
def PoolSpec.held (t : Table .c) : Multiset Ident :=
  ∑ i ∈ Finset.range spec.size, Conn.atMostOne ((spec.find t i).map Conn.TxrxConn.ident)

/-- Of the entries of the pool the call has stored those from `lo` up to `hi`; the
others are as it found them. -/
structure OpenState.Stored (lo hi : Nat) : Prop where
  mine : ∀ i, lo ≤ i → i < hi → spec.find s.before i = none ∧ (spec.find s.conn.table i).isSome
  rest : ∀ i < spec.size, i < lo ∨ hi ≤ i → spec.find s.conn.table i = spec.find s.before i

def OpenState.Calls (id : Slot.CallId) (op : Conn.Op) (pc : Conn.Pc) : Prop :=
  id ∈ s.calls ∧ s.conn.calls id = some (op, pc)

def OpenState.Opened (k : Nat) : Prop :=
  ∀ i < k, ∃ id, s.Calls id (.open (spec.conn (spec.handle i))) (.done .ok)

def OpenState.FailedAt (k : Nat) (rc : Conn.Result) : Prop :=
  k < spec.size ∧ rc ≠ .ok ∧ s.Opened spec k ∧
    ∃ id, s.Calls id (.open (spec.conn (spec.handle k))) (.done rc)

/-- What a call on the TxRx connections has neither stored nor closed yet. -/
def OpenState.owned (id : Slot.CallId) : Option Ident := (s.conn.calls id).bind fun c => c.2.owns

/-- What holds where the call is. -/
def OpenState.At : OpenPc → Prop
  | .enter => s.calls = [] ∧ s.Stored spec 0 0
  | .next i => i ≤ spec.size ∧ s.Stored spec 0 i ∧ s.Opened spec i
  | .opening i id => i < spec.size ∧ s.Opened spec i ∧
      ∃ pc, s.Calls id (.open (spec.conn (spec.handle i))) pc ∧ pc.ofOpen = true ∧
        s.Stored spec 0 (if pc = .done .ok then i + 1 else i)
  | .rollback i k rc => i ≤ k ∧ s.FailedAt spec k rc ∧ s.Stored spec i k
  | .closing i k rc id => i < k ∧ s.FailedAt spec k rc ∧
      ∃ pc, s.Calls id (.close (spec.conn (spec.handle i))) pc ∧ pc.ofClose = true ∧
        s.Stored spec (if pc = .enter then i else i + 1) k
  | .done (.entry rc) => s.pool = .zero ∧ (∃ k, s.FailedAt spec k rc) ∧ s.Stored spec 0 0
  | .done _ => True

def OpenPc.current : OpenPc → Option Slot.CallId
  | .opening _ id | .closing _ _ _ id => some id
  | _ => none

/-- The entries whose app_handles have been stored in the pool. -/
def OpenPc.filled : OpenPc → Nat
  | .next i | .opening i _ => i
  | .rollback _ k _ | .closing _ k _ _ => k
  | _ => 0

def OpenPc.early : OpenPc → Bool
  | .enter | .done .slotTooLarge | .done .paramRange | .done .generic => true
  | _ => false

/-- The arguments pass the checks. -/
structure PoolSpec.Accepted : Prop where
  slot : ¬Conn.msgMaxSlot < spec.slot
  size : ¬(spec.size < 1 ∨ maxSize < spec.size)

structure OpenInv (Valid : Table .c → Prop) : Prop where
  valid : Valid s.conn.table
  checked : s.pc.early = true ∨ spec.Accepted
  others : ∀ id op pc, s.conn.calls id = some (op, pc) → id ∉ s.calls →
    (∃ rc, pc = .done rc) ∨ ∀ i < spec.size, op.handle ≠ spec.handle i
  own : ∀ id ∈ s.calls, (s.conn.calls id).isSome
  keepalive : s.pc = .done .ok ∨ s.keepalive = false
  handles : ∀ i < s.pc.filled, (s.pool.entries i).appHandle = spec.handle i
  at_pc : s.At spec s.pc
  balance : Conn.opened s.accepted + spec.held s.before =
    Conn.closed s.requests + Conn.atMostOne (s.pc.current.bind s.owned) + spec.held s.conn.table

end Invariant

end BpClient.CPool
