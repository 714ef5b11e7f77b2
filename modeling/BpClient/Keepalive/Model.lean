import BpClient.Ipc.Reconnect
import BpClient.SdkPool.Model

/-!
One connection pool and the PLC that its connections lead to, over the whole
life of the pool: `pool_open`, the keepalive loop with its pings and reopens,
and `pool_close` (`c/src/pool.c`, `go/ocxbp/pool.go`,
`python/src/bpclient/client.py`).

The PLC keeps a connection that it has accepted until a Forward_Close arrives
or it drops the connection itself. `txrx_open`, `txrx_msg` and `txrx_close` are
one step each: no other thread has to do with the handles of the pool, but it
may open and close others. Which entries the callers hold, what the clock
decides, and what becomes of a request are part of the label.
-/

namespace BpClient.Keepalive

open BpClient.Slot (Sdk)
open BpClient.Lib
open BpClient.CPool (maxSize poolAppHandle)
open BpClient.Conn (Handle Serials TxrxConn Opening otSize randConnSerial tableOps)
open BpClient.Ipc (ConnTable TableValid table_lawful)
open BpClient.SdkPool (Pass)

structure PlcConn where
  serials : Serials
  /-- The client has sent a Forward_Close that has not arrived. -/
  closeSent : Bool
  deriving DecidableEq, Repr

abbrev Plc := List PlcConn

/-- What becomes of a Forward_Close: `message_send` fails before it posts, the
request or its reply is lost, or the PLC closes the connection. -/
inductive Delivery
  | unsent | lost | delivered
  deriving DecidableEq, Repr

namespace Plc

variable (plc : Plc) (serials : Serials)

/-- The PLC has the connection, and has been sent no Forward_Close for it. -/
def live : Bool := plc.any fun c => decide (c.serials = serials) && !c.closeSent

def holds : Bool := plc.any fun c => decide (c.serials = serials)

def drop : Plc := plc.filter fun c => !decide (c.serials = serials)

def forwardClose : Delivery → Plc
  | .unsent => plc
  | .lost => plc.map fun c => if c.serials = serials then { c with closeSent := true } else c
  | .delivered => plc.drop serials

end Plc

/-- How a Large Forward Open ends. A PLC refuses serials that it has already. -/
inductive LfoReply
  /-- It does not reach the PLC, or the PLC refuses it. -/
  | refused
  /-- The PLC accepts it and the client gets no reply. -/
  | lost
  | accepted (otConnId toConnId : UInt32)
  deriving DecidableEq, Repr

structure Env where
  connSerial : UInt16 := 1
  origSerial : UInt32 := 0
  lfo : LfoReply := .refused
  delivery : Delivery := .delivered
  /-- The ping gets a reply. -/
  ok : Bool := true
  /-- The entry has been idle, or its backoff has elapsed. -/
  due : Bool := true
  /-- No caller has the entry; in Go and Python it is the next free one. -/
  claim : Bool := true
  /-- A Go `select` takes the `stop` case. -/
  leave : Bool := false
  deriving DecidableEq, Repr

structure Spec where
  slot : UInt8
  size : Nat
  /-- `keepalive_ms > 0`, and the keepalive thread could be created. -/
  keepalive : Bool
  connParams : UInt16
  size_pos : 1 ≤ size
  size_le : size ≤ maxSize

def Spec.handle (spec : Spec) (i : Nat) : Handle := poolAppHandle spec.slot.toNat i

inductive Pc
  /-- In `pool_open`, before the `txrx_open` of entry `i`. -/
  | connect (i : Nat)
  | rollback (rest : List Nat)
  | failed
  /-- The pool is open, and the keepalive loop waits if there is one. -/
  | wait
  | scan (pass : Pass) (i : Nat)
  | pinging (i : Nat)
  | pinged (i : Nat) (ok : Bool)
  | forceClose (i : Nat)
  | reopening (i : Nat)
  | reopened (i : Nat) (ok : Bool)
  /-- In `pool_close`, after the keepalive loop and the callers have left. -/
  | closing (i : Nat)
  | closed
  deriving DecidableEq, Repr

structure State (sdk : Sdk) where
  table : ConnTable sdk
  plc : Plc
  dead : Nat → Bool
  /-- `ka_stop` is set, `stop` is closed. -/
  stop : Bool
  pc : Pc

inductive Label
  | run (env : Env)
  /-- A thread calls `pool_close`. -/
  | close
  /-- The PLC drops a connection. -/
  | drop (serials : Serials)
  /-- Another thread opens or closes a handle that is not of the pool. -/
  | otherOpen (h : Handle) (c : TxrxConn)
  | otherClose (h : Handle)
  deriving DecidableEq, Repr

theorem insert_valid {sdk : Sdk} (t : ConnTable sdk) {h : Handle} {c : TxrxConn}
    {u : Conn.Table sdk} (hfind : (tableOps sdk).find t.table h = none)
    (hins : (tableOps sdk).insert t.table h c = some u) : TableValid sdk u :=
  ((table_lawful sdk).insert t.valid hfind hins).1

/-- Record a connection, unless the handle is there or the table is full. -/
def tryStore {sdk : Sdk} (t : ConnTable sdk) (h : Handle) (c : TxrxConn) : Option (ConnTable sdk) :=
  match hfind : (tableOps sdk).find t.table h, hins : (tableOps sdk).insert t.table h c with
  | none, some u => some ⟨u, insert_valid t hfind hins⟩
  | _, _ => none

section Step

variable {sdk : Sdk} (spec : Spec) (s : State sdk)

def goto (pc : Pc) : State sdk := { s with pc := pc }

def Spec.opening (env : Env) : Opening :=
  ⟨spec.slot, randConnSerial env.connSerial, env.origSerial, otSize spec.connParams⟩

/-- `txrx_open`; an accepted connection that cannot be recorded is closed. -/
def txrxOpen (i : Nat) (env : Env) : State sdk × Bool :=
  let n := spec.opening env
  if s.plc.holds n.serials then (s, false)
  else
    let plc : Plc := ⟨n.serials, false⟩ :: s.plc
    match env.lfo with
    | .refused => (s, false)
    | .lost => ({ s with plc := plc }, false)
    | .accepted otConnId toConnId =>
        match tryStore s.table (spec.handle i) (n.conn otConnId toConnId) with
        | some table => ({ s with table := table, plc := plc }, true)
        | none => ({ s with plc := plc.forwardClose n.serials env.delivery }, false)

def txrxClose (i : Nat) (env : Env) : State sdk :=
  match s.table.find (spec.handle i) with
  | none => s
  | some c => { s with
      table := s.table.erase (spec.handle i)
      plc := s.plc.forwardClose c.serials env.delivery }

def forceCloseLocal (i : Nat) : State sdk := { s with table := s.table.erase (spec.handle i) }

def setDead (i : Nat) (dead : Bool) : State sdk :=
  { s with dead := Function.update s.dead i dead }

/-- Go gives an index back, or leaves the loop when the pool is closed. -/
def giveBack (env : Env) (pc : Pc) : Option (State sdk) :=
  if sdk = .go ∧ env.leave = true then
    if s.stop then some (goto s (.closing 0)) else none
  else some (goto s pc)

/-- Whether a pass is after an entry that is dead or not. -/
def wants : Pass → Bool → Bool
  | .ping, dead => !dead
  | .reopen, dead => dead

def claimed : Pass → Nat → Pc
  | .ping, i => .pinging i
  | .reopen, i => .forceClose i

def nextPass : Pass → Pc
  | .ping => .scan .reopen 0
  | .reopen => .wait

def runStep (env : Env) : Option (State sdk) :=
  match s.pc with
  | .connect i =>
      let (t, ok) := txrxOpen spec s i env
      some (if !ok then goto t (.rollback (List.range i))
        else goto (setDead t i false) (if i + 1 < spec.size then .connect (i + 1) else .wait))
  | .rollback (i :: rest) => some (goto (txrxClose spec s i env) (.rollback rest))
  | .rollback [] => some (goto s .failed)
  | .wait =>
      if spec.keepalive = false ∨ (sdk = .go ∧ env.leave = true) then
        if s.stop then some (goto s (.closing 0)) else none
      else if s.stop ∧ sdk ≠ .go then some (goto s (.closing 0))
      else some (goto s (.scan .ping 0))
  | .scan pass i =>
      if i < spec.size then
        -- only C looks at ka_stop before each entry
        if sdk = .c ∧ s.stop = true then some (goto s (.closing 0))
        else if !wants pass (s.dead i) || !env.due then some (goto s (.scan pass (i + 1)))
        else if env.claim then some (goto s (claimed pass i))
        else giveBack s env (.scan pass (i + 1))
      else some (goto s (nextPass pass))
  | .pinging i =>
      -- txrx_msg on a handle that is not open fails at once
      match s.table.find (spec.handle i) with
      | none => some (goto s (.pinged i false))
      | some _ => some (goto { s with table := s.table.bump (spec.handle i) } (.pinged i env.ok))
  | .pinged i ok => giveBack (if ok then s else setDead s i true) env (.scan .ping (i + 1))
  | .forceClose i => some (goto (forceCloseLocal spec s i) (.reopening i))
  | .reopening i =>
      let (t, ok) := txrxOpen spec s i env
      some (goto t (.reopened i ok))
  | .reopened i ok => giveBack (if ok then setDead s i false else s) env (.scan .reopen (i + 1))
  | .closing i =>
      some (if i < spec.size then goto (txrxClose spec s i env) (.closing (i + 1))
        else goto s .closed)
  | .failed | .closed => none

def isOpen : Bool :=
  match s.pc with
  | .connect _ | .rollback _ | .failed | .closing _ | .closed => false
  | _ => !s.stop

def step : Label → Option (State sdk)
  | .run env => runStep spec s env
  | .close => if isOpen s then some { s with stop := true } else none
  | .drop serials => some { s with plc := s.plc.drop serials }
  | .otherOpen h c =>
      if ∃ i < spec.size, h = spec.handle i then none
      else some { s with table := s.table.store h c }
  | .otherClose h =>
      if ∃ i < spec.size, h = spec.handle i then none else some { s with table := s.table.erase h }

end Step

/-- The TxRx table has no handle of the pool, and the PLC none of its
connections. -/
def Initial {sdk : Sdk} (spec : Spec) (s : State sdk) : Prop :=
  (∀ i < spec.size, s.table.find (spec.handle i) = none) ∧ s.plc = [] ∧ s.stop = false ∧
    s.pc = .connect 0

def life (sdk : Sdk) (spec : Spec) : System (State sdk) Label := ⟨Initial spec, step spec⟩

end BpClient.Keepalive
