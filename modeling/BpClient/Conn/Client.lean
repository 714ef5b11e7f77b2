import BpClient.Conn.Wire
import BpClient.Lib.Table
import BpClient.Lib.Transition
import BpClient.Slot.Dispatcher

/-!
Class-3 connections: any number of threads in `txrx_open`, `txrx_msg` and
`txrx_close` of one client (`c/src/conn.c`, `go/ocxbp/conn.go`,
`python/src/bpclient/client.py`).

What is done under `txrx_mu` is one step. A request to the PLC takes two, one
that hands it to `message_send` and one that gets the result, and other threads
run in between; Python keeps `_txrx_mu` over the Forward_Close of a refused
open. The random serials and the outcome of `message_send` are part of the
label.
-/

namespace BpClient.Conn

open BpClient.Lib
open BpClient.Slot (Sdk CallId)

abbrev Handle := Nat

def maxConns : Nat := 16

/-- `struct bp_txrx_conn` without `in_use` and `app_handle`, `txrxState`,
`_TxRxState`. -/
structure TxrxConn where
  slot : UInt8
  connSerial : UInt16
  vendorId : UInt16
  origSerial : UInt32
  otConnId : UInt32
  toConnId : UInt32
  sequence : Nat
  deriving DecidableEq, Repr

def TxrxConn.serials (c : TxrxConn) : Serials := ⟨c.connSerial, c.vendorId, c.origSerial⟩

/-- `e->sequence++`; Python's integers do not wrap. -/
def TxrxConn.bump (sdk : Sdk) (c : TxrxConn) : TxrxConn :=
  { c with sequence := match sdk with
      | .c | .go => (c.sequence + 1) % 2 ^ 16
      | .python => c.sequence + 1 }

/-- `txrx_conns`, `txrxMap`, `_txrx_conns` -/
abbrev Table : Sdk → Type
  | .c => Fin maxConns → Cell Handle TxrxConn
  | .go | .python => AList fun _ : Handle => TxrxConn

/-- An array of zeroes with `find_conn` and `alloc_conn`, or a map whose length
is checked. -/
def tableOps : (sdk : Sdk) → TableOps (Table sdk) Handle TxrxConn
  | .c => Cells.ops ⟨false, 0, ⟨0, 0, 0, 0, 0, 0, 0⟩⟩
  | .go | .python => mapOps maxConns

/-- `bp_conn_spec_t`, `ConnSpec`; nothing reads the options. -/
structure Spec where
  appHandle : Handle
  encodedPath : List UInt8
  pathSize : Nat
  connParams : UInt16
  deriving DecidableEq, Repr

inductive Op
  | open (spec : Spec)
  | msg (spec : Spec) (req : List UInt8)
  | close (spec : Spec)
  deriving DecidableEq, Repr

inductive Result
  | ok
  /-- `BP_ERR_PARAM_RANGE` -/
  | paramRange
  /-- `BP_ERR_SLOT_TOO_LARGE` -/
  | slotTooLarge
  /-- `BP_ERR_NOT_OPEN` -/
  | notOpen
  /-- `BP_ERR_GENERIC`: the handle is already open. -/
  | generic
  /-- `BP_ERR_NO_FREE_SLOT` -/
  | noFreeSlot
  /-- `BP_ERR_CIP_STATUS` -/
  | cipStatus
  /-- The error of `message_send`. -/
  | message (rc : Int)
  deriving DecidableEq, Repr

def extractSlot (path : List UInt8) (pathSize : Nat) : Except Result UInt8 :=
  match path with
  | port :: slot :: _ =>
      if pathSize ≠ 2 ∨ port ≠ 0x01 then .error .paramRange
      else if slot > msgMaxSlot then .error .slotTooLarge
      else .ok slot
  | _ => .error .paramRange

def otSize (connParams : UInt16) : UInt16 :=
  let size := if connParams = 0 then lfoDefaultOtSize else connParams
  if size > lfoMaxOtSize then lfoMaxOtSize else size

def randConnSerial (v : UInt16) : UInt16 := if v = 0 then 0xBEEF else v

/-- An open on its way: what its Large Forward Open asks for. -/
structure Opening where
  slot : UInt8
  connSerial : UInt16
  origSerial : UInt32
  otSize : UInt16
  deriving DecidableEq, Repr

namespace Opening

def lfo (n : Opening) : List UInt8 := buildLfo n.connSerial n.origSerial n.otSize

def serials (n : Opening) : Serials := ⟨n.connSerial, lfoVendorId, n.origSerial⟩

def conn (n : Opening) (otConnId toConnId : UInt32) : TxrxConn where
  slot := n.slot
  connSerial := n.connSerial
  vendorId := lfoVendorId
  origSerial := n.origSerial
  otConnId := otConnId
  toConnId := toConnId
  sequence := 0

end Opening

/-- Why a Forward_Close is sent: for `txrx_close`, or best-effort for an open
that returns the result. -/
inductive Why
  | closed
  | abandoned (r : Result)
  deriving DecidableEq, Repr

inductive Pc
  | enter
  | lfoSend (n : Opening)
  | lfoWait (n : Opening)
  /-- The Large Forward Open has been accepted. -/
  | store (n : Opening) (otConnId toConnId : UInt32)
  | fcSend (slot : UInt8) (n : Serials) (why : Why)
  | fcWait (why : Why)
  | msgSend (slot : UInt8)
  | msgWait
  | done (r : Result)
  deriving DecidableEq, Repr

/-- What a request is to the client that hands it to `message_send`. -/
inductive Kind
  | lfo | fc | msg
  deriving DecidableEq, Repr

/-- A request handed to `message_send`; it goes out unless `message_send` fails
before it has posted it. -/
structure Request where
  kind : Kind
  slot : UInt8
  body : List UInt8
  posted : Bool
  deriving DecidableEq, Repr

def Opening.request (n : Opening) (posted : Bool) : Request := ⟨.lfo, n.slot, n.lfo, posted⟩

structure State (T : Type) where
  table : T
  /-- The call that holds `txrx_mu` from one step to the next. -/
  mu : Option CallId
  calls : CallId → Option (Op × Pc)
  /-- Every request, in the order of the calls of `message_send`. -/
  requests : List Request
  /-- The Large Forward Opens whose reply has been accepted. -/
  accepted : List Request

structure Env where
  connSerial : UInt16 := 0
  origSerial : UInt32 := 0
  posted : Bool := true
  /-- The reply, or none when `message_send` fails with `rc`. -/
  reply : Option (List UInt8) := none
  rc : Int := -1
  deriving DecidableEq, Repr

inductive Label
  | start (id : CallId) (op : Op)
  | run (id : CallId) (env : Env)
  deriving DecidableEq, Repr

section Step

variable {T : Type} (ops : TableOps T Handle TxrxConn) (sdk : Sdk) (s : State T)

def State.goto (id : CallId) (op : Op) (pc : Pc) : State T :=
  { s with calls := Function.update s.calls id (some (op, pc)) }

def State.request (r : Request) : State T := { s with requests := s.requests ++ [r] }

/-- An open that is refused after its Large Forward Open was accepted; Python's
sends the Forward_Close with `_txrx_mu` held. -/
def State.abandon (id : CallId) (op : Op) (n : Opening) (r : Result) : State T :=
  ({ s with mu := if sdk = .python then some id else s.mu } : State T).goto id op
    (.fcSend n.slot n.serials (.abandoned r))

/-- The part of `txrx_open` under `txrx_mu`. -/
def storeStep (id : CallId) (op : Op) (h : Handle) (n : Opening) (otConnId toConnId : UInt32) :
    State T :=
  match ops.find s.table h with
  | some _ => s.abandon sdk id op n .generic
  | none =>
      match ops.insert s.table h (n.conn otConnId toConnId) with
      | some t => ({ s with table := t } : State T).goto id op (.done .ok)
      | none => s.abandon sdk id op n .noFreeSlot

/-- The part of `txrx_msg` under `txrx_mu`. -/
def msgStep (id : CallId) (op : Op) (h : Handle) : State T :=
  match ops.find s.table h with
  | some c =>
      ({ s with table := ops.modify s.table h (TxrxConn.bump sdk) } : State T).goto id op
        (.msgSend c.slot)
  | none => s.goto id op (.done .notOpen)

/-- The part of `txrx_close` under `txrx_mu`. -/
def closeStep (id : CallId) (op : Op) (h : Handle) : State T :=
  match ops.find s.table h with
  | some c =>
      ({ s with table := ops.erase s.table h } : State T).goto id op
        (.fcSend c.slot c.serials .closed)
  | none => s.goto id op (.done .notOpen)

/-- After the Forward_Close: `txrx_close` returns `r`, a refused open its own
error, and Python's releases `_txrx_mu`. -/
def State.afterClose (id : CallId) (op : Op) (why : Why) (r : Result) : State T :=
  match why with
  | .closed => s.goto id op (.done r)
  | .abandoned r =>
      ({ s with mu := if sdk = .python then none else s.mu } : State T).goto id op (.done r)

/-- One step of a call. A step under `txrx_mu` waits until nobody else holds
it. -/
def callStep (id : CallId) (env : Env) (op : Op) : Pc → Option (State T)
  | .enter =>
      match op with
      | .open spec =>
          some (s.goto id op (match extractSlot spec.encodedPath spec.pathSize with
            | .ok slot => .lfoSend
                ⟨slot, randConnSerial env.connSerial, env.origSerial, otSize spec.connParams⟩
            | .error r => .done r))
      | .msg spec _ => if s.mu = none then some (msgStep ops sdk s id op spec.appHandle) else none
      | .close spec => if s.mu = none then some (closeStep ops s id op spec.appHandle) else none
  | .lfoSend n =>
      some ((s.request (n.request env.posted)).goto id op
        (if env.posted then .lfoWait n else .done (.message env.rc)))
  | .lfoWait n =>
      some (match env.reply with
        | none => s.goto id op (.done (.message env.rc))
        | some resp =>
            match parseForwardOpen resp with
            | none => s.goto id op (.done .cipStatus)
            | some (otConnId, toConnId) =>
                ({ s with accepted := s.accepted ++ [n.request true] } :
                  State T).goto id op (.store n otConnId toConnId))
  | .store n otConnId toConnId =>
      match op with
      | .open spec =>
          if s.mu = none then some (storeStep ops sdk s id op spec.appHandle n otConnId toConnId)
          else none
      | _ => none
  | .fcSend slot n why =>
      let s := s.request ⟨.fc, slot, buildFc n, env.posted⟩
      some (if env.posted then s.goto id op (.fcWait why)
        else s.afterClose sdk id op why (.message env.rc))
  | .fcWait why =>
      some (s.afterClose sdk id op why (match env.reply with
        | none => .message env.rc
        | some resp => if parseForwardClose resp then .ok else .cipStatus))
  | .msgSend slot =>
      match op with
      | .msg _ req =>
          some ((s.request ⟨.msg, slot, req, env.posted⟩).goto id op
            (if env.posted then .msgWait else .done (.message env.rc)))
      | _ => none
  | .msgWait =>
      some (s.goto id op (.done (if env.reply.isSome then .ok else .message env.rc)))
  | .done _ => none

def step (s : State T) : Label → Option (State T)
  | .start id op => if s.calls id = none then some (s.goto id op .enter) else none
  | .run id env => (s.calls id).bind fun c => callStep ops sdk s id env c.1 c.2

end Step

def fresh (sdk : Sdk) : State (Table sdk) := ⟨(tableOps sdk).empty, none, fun _ => none, [], []⟩

def client (sdk : Sdk) : System (State (Table sdk)) Label :=
  ⟨fun s => s = fresh sdk, step (tableOps sdk) sdk⟩

end BpClient.Conn
