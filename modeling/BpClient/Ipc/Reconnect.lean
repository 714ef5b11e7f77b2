import BpClient.CPool.Handles
import BpClient.Conn.Accounting
import BpClient.Symbols.Model

/-!
`bp_client_reconnect` (`c/src/client.c`), `Client.Reconnect`
(`go/ocxbp/client.go`) and `Client.reconnect` (`python/src/bpclient/client.py`):
what they leave of the pools, the symbol caches and the TxRx table.

No other call runs, but the keepalive workers do until their pool is closed: a
worker may force-close, ping and reopen the connections of its pool between any
two steps.
-/

namespace BpClient.Ipc

open BpClient.Lib
open BpClient.Slot (Sdk CallId)
open BpClient.CPool (maxSlots poolAppHandle)
open BpClient.Conn (Handle TxrxConn tableOps maxConns)
open BpClient.Symbols (TagCache)

def TableValid : (sdk : Sdk) → Conn.Table sdk → Prop
  | .c => Cells.Distinct
  | .go | .python => fun m => m.entries.length ≤ maxConns

theorem table_lawful (sdk : Sdk) : (tableOps sdk).Lawful maxConns (TableValid sdk) := by
  cases sdk with
  | c => exact Cells.lawful rfl
  | go | python => exact mapOps_lawful maxConns

/-- A TxRx table with at most 16 handles, each of them once. -/
structure ConnTable (sdk : Sdk) where
  table : Conn.Table sdk
  valid : TableValid sdk table

namespace ConnTable

variable {sdk : Sdk}

def empty : ConnTable sdk := ⟨(tableOps sdk).empty, (table_lawful sdk).empty.1⟩

def find (t : ConnTable sdk) (h : Handle) : Option TxrxConn := (tableOps sdk).find t.table h

def erase (t : ConnTable sdk) (h : Handle) : ConnTable sdk :=
  ⟨(tableOps sdk).erase t.table h, ((table_lawful sdk).erase t.valid).1⟩

def bump (t : ConnTable sdk) (h : Handle) : ConnTable sdk :=
  ⟨(tableOps sdk).modify t.table h (TxrxConn.bump sdk), ((table_lawful sdk).modify t.valid).1⟩

/-- Record a connection; a handle that is there, or a full table, refuses it. -/
def store (t : ConnTable sdk) (h : Handle) (c : TxrxConn) : ConnTable sdk :=
  match hfind : (tableOps sdk).find t.table h, hins : (tableOps sdk).insert t.table h c with
  | none, some u => ⟨u, ((table_lawful sdk).insert t.valid hfind hins).1⟩
  | _, _ => t

def IsEmpty (t : ConnTable sdk) : Prop := ∀ h, t.find h = none

theorem empty_isEmpty : (empty : ConnTable sdk).IsEmpty := (table_lawful sdk).empty.2

theorem find_erase (t : ConnTable sdk) (h h' : Handle) :
    (t.erase h).find h' = if h' = h then none else t.find h' := by
  have := congrFun ((table_lawful sdk).erase (k := h) t.valid).2 h'
  rw [Function.update_apply] at this
  exact this

theorem find_bump {t : ConnTable sdk} {h h' : Handle} (hfind : t.find h' = none) :
    (t.bump h).find h' = none := by
  have := congrFun ((table_lawful sdk).modify (k := h) (f := TxrxConn.bump sdk) t.valid).2 h'
  rw [Function.update_apply] at this
  refine Eq.trans this ?_
  split
  · next heq =>
      subst heq
      exact Option.map_eq_none_iff.mpr hfind
  · exact hfind

theorem find_store {t : ConnTable sdk} {h h' : Handle} {c : TxrxConn} (hne : h' ≠ h)
    (hfind : t.find h' = none) : (t.store h c).find h' = none := by
  unfold store
  split
  · next u hnone hins =>
      have := congrFun ((table_lawful sdk).insert t.valid hnone hins).2 h'
      rw [Function.update_of_ne hne] at this
      exact this.trans hfind
  · exact hfind

/-- An empty table takes every handle. -/
theorem IsEmpty.insert {t : ConnTable sdk} (ht : t.IsEmpty) (h : Handle) (c : TxrxConn) :
    ∃ u, (tableOps sdk).insert t.table h c = some u := by
  cases hins : (tableOps sdk).insert t.table h c with
  | some u => exact ⟨u, rfl⟩
  | none =>
      have hfull := (table_lawful sdk).full t.valid hins
      have hpos : 0 < ((tableOps sdk).entries t.table).length := by
        rw [hfull]
        decide
      obtain ⟨⟨k, v⟩, hkv⟩ := List.exists_mem_of_length_pos hpos
      have hfind := ((table_lawful sdk).find_iff t.valid).mpr hkv
      exact absurd hfind (by rw [show (tableOps sdk).find t.table k = none from ht k]; simp)

theorem IsEmpty.store {t : ConnTable sdk} (ht : t.IsEmpty) (h : Handle) (c : TxrxConn) :
    (t.store h c).find h = some c := by
  obtain ⟨u, hins⟩ := ht.insert h c
  have hnone : (tableOps sdk).find t.table h = none := ht h
  unfold ConnTable.store
  split
  · next u' hfind hins' =>
      have := congrFun ((table_lawful sdk).insert t.valid hfind hins').2 h
      rw [Function.update_self] at this
      exact this
  · next hno => exact (hno u hnone hins).elim

end ConnTable

structure Pool where
  size : Nat
  keepalive : Bool
  deriving DecidableEq, Repr

def Pool.handles (slot : Fin maxSlots) (p : Pool) : List Handle :=
  (List.range p.size).map (poolAppHandle slot)

structure Client (sdk : Sdk) where
  /-- The pools that are registered, in C those that are initialized. -/
  pools : Fin maxSlots → Option Pool
  /-- The handles of the pools that are registered no more and whose keepalive
  worker still runs; only Go and Python can have them. -/
  stray : List Handle
  table : ConnTable sdk
  caches : List UInt8 → Option TagCache

inductive Pc
  | pools (todo : List (Fin maxSlots))
  /-- In `pool_close`, whose worker has been joined; `hs` are to be closed. -/
  | close (hs : List Handle) (todo : List (Fin maxSlots))
  | caches
  | txrx
  | ipc
  | done (ok : Bool)
  deriving DecidableEq, Repr

/-- What a keepalive worker does to the table. -/
inductive Act
  | store (c : TxrxConn)
  | drop
  | bump
  deriving DecidableEq, Repr

inductive Label
  /-- The next step of the reconnect; `ok` is the outcome of the IPC reopen. -/
  | run (ok : Bool)
  | worker (h : Handle) (act : Act)
  deriving DecidableEq, Repr

namespace Client

variable {sdk : Sdk} (c : Client sdk)

/-- A registered pool has an entry with the handle. -/
def Owns (h : Handle) : Prop := ∃ slot p, c.pools slot = some p ∧ h ∈ p.handles slot

def Works (h : Handle) : Prop :=
  h ∈ c.stray ∨ ∃ slot, ∃ p ∈ c.pools slot, p.keepalive = true ∧ h ∈ p.handles slot

instance (h : Handle) : Decidable (c.Works h) :=
  inferInstanceAs (Decidable (_ ∨ ∃ slot, ∃ p ∈ c.pools slot, _))

/-- The slots in the order in which they are visited: all of them, or in Python
the keys of `_pools`. -/
def Order (todo : List (Fin maxSlots)) : Prop :=
  match sdk with
  | .c | .go => todo = List.finRange maxSlots
  | .python => todo.Nodup ∧ ∀ slot, slot ∈ todo ↔ (c.pools slot).isSome

def act (h : Handle) : Act → Client sdk
  | .store conn => { c with table := c.table.store h conn }
  | .drop => { c with table := c.table.erase h }
  | .bump => { c with table := c.table.bump h }

def takePool (slot : Fin maxSlots) : Client sdk :=
  { c with pools := Function.update c.pools slot none }

/-- The symbol cache of a path, as a lookup finds it. -/
def symbols (path : List UInt8) : Symbols.State :=
  { Symbols.fresh with
    inUse := (c.caches path).isSome
    cache := (c.caches path).getD .empty }

/-- The connections, as `txrx_open`, `txrx_msg` and `txrx_close` find them. -/
def conns : Conn.State (Conn.Table sdk) := ⟨c.table.table, none, fun _ => none, [], []⟩

/-- Nothing is left of what the caller held: no pool is open, a lookup is
refused, and every handle is not open and can be opened. -/
structure Invalidated : Prop where
  pools : ∀ slot, c.pools slot = none
  lookup : ∀ path id env h name, env.room = true → ∃ last,
    (Symbols.lookupSymbol sdk (c.symbols path) id env h name).calls id =
      some (.lookup h name, .done .refused last)
  table : c.table.IsEmpty
  msg : ∀ id op h, Conn.msgStep (tableOps sdk) sdk c.conns id op h =
    c.conns.goto id op (.done .notOpen)
  close : ∀ id op h, Conn.closeStep (tableOps sdk) c.conns id op h =
    c.conns.goto id op (.done .notOpen)
  reopen : ∀ id op h n otConnId toConnId,
    (Conn.storeStep (tableOps sdk) sdk c.conns id op h n otConnId toConnId).calls id =
      some (op, .done .ok)

end Client

structure State (sdk : Sdk) where
  client : Client sdk
  pc : Pc

section Step

variable {sdk : Sdk} (s : State sdk)

/-- The next step of the reconnect. C goes from the caches to the IPC, without
the TxRx table. -/
def runStep (ok : Bool) : Option (State sdk) :=
  match s.pc with
  | .pools [] => some ⟨s.client, .caches⟩
  | .pools (slot :: todo) => some (match s.client.pools slot with
      | none => ⟨s.client, .pools todo⟩
      | some p => ⟨s.client.takePool slot, .close (p.handles slot) todo⟩)
  | .close [] todo => some ⟨s.client, .pools todo⟩
  | .close (h :: hs) todo =>
      some ⟨{ s.client with table := s.client.table.erase h }, .close hs todo⟩
  | .caches =>
      some ⟨{ s.client with caches := fun _ => none }, if sdk = .c then .ipc else .txrx⟩
  | .txrx => some ⟨{ s.client with table := .empty }, .ipc⟩
  | .ipc => some ⟨s.client, .done ok⟩
  | .done _ => none

def step (s : State sdk) : Label → Option (State sdk)
  | .run ok => runStep s ok
  | .worker h act =>
      match s.pc with
      | .done _ => none
      | _ => if s.client.Works h then some ⟨s.client.act h act, s.pc⟩ else none

end Step

/-- A reconnect of the client, up to its return. -/
def reconnect {sdk : Sdk} (c : Client sdk) : System (State sdk) Label :=
  ⟨fun s => ∃ todo, c.Order todo ∧ s = ⟨c, .pools todo⟩, step⟩

section Invalidated

variable {sdk : Sdk} {c : Client sdk}

/-- Empty registries make everything the caller held invalid. -/
theorem Client.invalidated (hpools : ∀ slot, c.pools slot = none)
    (hcaches : ∀ path, c.caches path = none) (htable : c.table.IsEmpty) : c.Invalidated where
  pools := hpools
  lookup := by
    intro path id env h name hroom
    have hfind : (c.symbols path).findOrAlloc sdk env =
        some { c.symbols path with inUse := true, cache := .empty } := by
      simp [Symbols.State.findOrAlloc, Client.symbols, hcaches, hroom]
    have hunbuilt : TagCache.empty.unbuilt sdk = true := by
      cases sdk <;> rfl
    refine ⟨.zero, ?_⟩
    simp only [Symbols.lookupSymbol, hfind, hunbuilt, if_true]
    exact Function.update_self _ _ _
  table := htable
  msg := by
    intro id op h
    have hnone : (tableOps sdk).find c.conns.table h = none := htable h
    rw [Conn.msgStep, hnone]
  close := by
    intro id op h
    have hnone : (tableOps sdk).find c.conns.table h = none := htable h
    rw [Conn.closeStep, hnone]
  reopen := by
    intro id op h n otConnId toConnId
    have hnone : (tableOps sdk).find c.conns.table h = none := htable h
    obtain ⟨u, hins⟩ := htable.insert h (n.conn otConnId toConnId)
    have hins' : (tableOps sdk).insert c.conns.table h (n.conn otConnId toConnId) = some u := hins
    rw [Conn.storeStep, hnone]
    dsimp only
    rw [hins']
    exact Function.update_self _ _ _

/-- What a reconnect can clear: no keepalive worker is left of a pool that is
registered no more, and, as C does not clear the TxRx table, every handle in it
belongs to an open pool. -/
def Client.Clearable (c : Client sdk) : Prop :=
  c.stray = [] ∧ (sdk = .c → ∀ h, (c.table.find h).isSome → c.Owns h)

/-- What is left to be done: the pools of the slots to come, and until the wipe
of the table its handles, all of them in pools to be closed. -/
structure Clearing (c : Client sdk) (todo : List (Fin maxSlots)) (hs : List Handle) : Prop where
  stray : c.stray = []
  todo : ∀ slot, (c.pools slot).isSome → slot ∈ todo
  table : sdk = .c → ∀ h, (c.table.find h).isSome → c.Owns h ∨ h ∈ hs

theorem Client.Owns.takePool {h : Handle} (hown : c.Owns h) {slot : Fin maxSlots} {p : Pool}
    (hp : c.pools slot = some p) : (c.takePool slot).Owns h ∨ h ∈ p.handles slot := by
  obtain ⟨slot', p', hp', hh⟩ := hown
  by_cases heq : slot' = slot
  · subst heq
    rw [hp] at hp'
    cases hp'
    exact .inr hh
  · exact .inl ⟨slot', p', (Function.update_of_ne heq _ _).trans hp', hh⟩

/-- A worker touches the handles of its own pool. -/
theorem Client.act_find {h h' : Handle} {act : Act} (hsome : ((c.act h act).table.find h').isSome) :
    h' = h ∨ (c.table.find h').isSome := by
  by_contra hno
  obtain ⟨hne, hnone⟩ := not_or.mp hno
  have hnone' : c.table.find h' = none := by simpa using hnone
  cases act with
  | store conn =>
      rw [Client.act, ConnTable.find_store hne hnone'] at hsome
      cases hsome
  | drop =>
      rw [Client.act, ConnTable.find_erase, if_neg hne, hnone'] at hsome
      cases hsome
  | bump =>
      rw [Client.act, ConnTable.find_bump hnone'] at hsome
      cases hsome

theorem Client.act_pools (c : Client sdk) (h : Handle) (act : Act) :
    (c.act h act).pools = c.pools ∧ (c.act h act).stray = c.stray ∧
      (c.act h act).caches = c.caches := by
  cases act <;> exact ⟨rfl, rfl, rfl⟩

theorem Clearing.owns {todo : List (Fin maxSlots)} {hs : List Handle} (hc : Clearing c todo hs)
    {h : Handle} (hw : c.Works h) : c.Owns h := by
  rcases hw with hstray | ⟨slot, p, hp, -, hh⟩
  · rw [hc.stray] at hstray
    cases hstray
  · exact ⟨slot, p, hp, hh⟩

theorem Clearing.act {todo : List (Fin maxSlots)} {hs : List Handle} (hc : Clearing c todo hs)
    {h : Handle} (hw : c.Works h) (act : Act) : Clearing (c.act h act) todo hs := by
  obtain ⟨hpools, hstray, -⟩ := c.act_pools h act
  refine ⟨hstray.trans hc.stray, fun slot hslot => hc.todo slot (hpools ▸ hslot), fun hsdk h' hsome => ?_⟩
  have howns : ∀ h', c.Owns h' → (c.act h act).Owns h' := by
    rintro h' ⟨slot, p, hp, hh⟩
    exact ⟨slot, p, hpools ▸ hp, hh⟩
  rcases Client.act_find hsome with rfl | hsome
  · exact .inl (howns h' (hc.owns hw))
  · exact (hc.table hsdk h' hsome).imp_left (howns h')

/-- The invariant of a reconnect of a client that can be cleared. -/
def State.Cleared (s : State sdk) : Prop :=
  match s.pc with
  | .pools todo => Clearing s.client todo []
  | .close hs todo => Clearing s.client todo hs
  | .caches => Clearing s.client [] []
  | .txrx => Clearing s.client [] [] ∧ (∀ path, s.client.caches path = none) ∧ sdk ≠ .c
  | .ipc | .done _ => Clearing s.client [] [] ∧ (∀ path, s.client.caches path = none) ∧
      s.client.table.IsEmpty

theorem Clearing.isEmpty (hc : Clearing c [] []) (hsdk : sdk = .c) : c.table.IsEmpty := by
  intro h
  cases hfind : c.table.find h with
  | none => rfl
  | some conn =>
      rcases hc.table hsdk h (by rw [hfind]; rfl) with ⟨slot, p, hp, -⟩ | hnil
      · cases hc.todo slot (by rw [hp]; rfl)
      · cases hnil

theorem Clearing.pools_none (hc : Clearing c [] []) (slot : Fin maxSlots) :
    c.pools slot = none := by
  cases hp : c.pools slot with
  | none => rfl
  | some p => cases hc.todo slot (by rw [hp]; rfl)

/-- Each step of a reconnect clears what it comes to, and keeps cleared what it has passed. -/
theorem cleared_runStep {s s' : State sdk} (hc : s.Cleared) {ok : Bool}
    (hs : runStep s ok = some s') : s'.Cleared := by
  obtain ⟨c, pc⟩ := s
  cases pc with
  | pools todo =>
      have hc : Clearing c todo [] := hc
      cases todo with
      | nil =>
          cases hs
          exact hc
      | cons slot todo =>
          cases hp : c.pools slot with
          | none =>
              simp only [runStep, hp, Option.some.injEq] at hs
              subst hs
              refine ⟨hc.stray, fun slot' hslot => ?_, hc.table⟩
              rcases List.mem_cons.mp (hc.todo slot' hslot) with rfl | hmem
              · rw [hp] at hslot
                cases hslot
              · exact hmem
          | some p =>
              simp only [runStep, hp, Option.some.injEq] at hs
              subst hs
              refine ⟨hc.stray, fun slot' hslot => ?_, fun hsdk h hsome => ?_⟩
              · simp only [Client.takePool, Function.update_apply] at hslot
                split at hslot
                · cases hslot
                · next hne => exact (List.mem_cons.mp (hc.todo slot' hslot)).resolve_left hne
              · rcases hc.table hsdk h hsome with hown | hnil
                · exact hown.takePool hp
                · cases hnil
  | close hs' todo =>
      have hc : Clearing c todo hs' := hc
      cases hs' with
      | nil =>
          cases hs
          exact hc
      | cons h hs' =>
          cases hs
          refine ⟨hc.stray, hc.todo, fun hsdk h' hsome => ?_⟩
          rw [ConnTable.find_erase] at hsome
          split at hsome
          · cases hsome
          · next hne =>
              refine (hc.table hsdk h' hsome).imp_right fun hmem => ?_
              exact (List.mem_cons.mp hmem).resolve_left hne
  | caches =>
      have hc : Clearing c [] [] := hc
      have hclear : Clearing { c with caches := fun _ => none } [] [] :=
        ⟨hc.stray, hc.todo, hc.table⟩
      cases hs
      by_cases hsdk : sdk = .c
      · simp only [hsdk, if_true]
        exact ⟨hclear, fun _ => rfl, hc.isEmpty hsdk⟩
      · simp only [hsdk, if_false]
        exact ⟨hclear, fun _ => rfl, hsdk⟩
  | txrx =>
      obtain ⟨hc, hcaches, hsdk⟩ := hc
      cases hs
      exact ⟨⟨hc.stray, hc.todo, fun h => absurd h hsdk⟩, hcaches, ConnTable.empty_isEmpty⟩
  | ipc =>
      cases hs
      exact hc
  | done ok' => cases hs

/-- No worker is left when the pools are closed. -/
theorem Clearing.not_works (hc : Clearing c [] []) (h : Handle) : ¬ c.Works h := by
  intro hw
  obtain ⟨slot, p, hp, -⟩ := hc.owns hw
  rw [hc.pools_none slot] at hp
  cases hp

theorem cleared_worker {s s' : State sdk} (hc : s.Cleared) {h : Handle} {act : Act}
    (hs : step s (.worker h act) = some s') : s'.Cleared := by
  obtain ⟨c, pc⟩ := s
  cases pc with
  | done ok => cases hs
  | pools todo | close hs' todo =>
      simp only [step, Option.ite_none_right_eq_some, Option.some.injEq] at hs
      obtain ⟨hw, rfl⟩ := hs
      exact Clearing.act hc hw act
  | caches =>
      simp only [step, Option.ite_none_right_eq_some] at hs
      exact absurd hs.1 (Clearing.not_works hc h)
  | txrx | ipc =>
      simp only [step, Option.ite_none_right_eq_some] at hs
      exact absurd hs.1 (hc.1.not_works h)

theorem cleared_of_reachable (hclear : c.Clearable) {s : State sdk}
    (hr : (reconnect c).Reachable s) : s.Cleared := by
  refine hr.invariant State.Cleared ?_ ?_
  · rintro s ⟨todo, horder, rfl⟩
    refine ⟨hclear.1, fun slot hslot => ?_, fun hsdk h hsome => .inl (hclear.2 hsdk h hsome)⟩
    cases sdk with
    | c | go =>
        have htodo : todo = List.finRange maxSlots := horder
        rw [htodo]
        exact List.mem_finRange slot
    | python => exact (horder.2 slot).mpr hslot
  · intro s l s' hc _ hs
    cases l with
    | run ok => exact cleared_runStep hc hs
    | worker h act => exact cleared_worker hc hs

theorem invalidated_of_clearable (hclear : c.Clearable) {s : State sdk} {ok : Bool}
    (hr : (reconnect c).Reachable s) (hdone : s.pc = .done ok) : s.client.Invalidated := by
  have hc := cleared_of_reachable hclear hr
  rw [State.Cleared, hdone] at hc
  obtain ⟨hclearing, hcaches, htable⟩ := hc
  exact Client.invalidated hclearing.pools_none hcaches htable

end Invalidated

section Left

variable {sdk : Sdk} {c c' : Client sdk}

theorem reachable_run {s s' : State sdk} (hr : (reconnect c).Reachable s) (ok : Bool)
    (hs : runStep s ok = some s') : (reconnect c).Reachable s' :=
  System.Reaches.step (l := .run ok) hr trivial hs

/-- Closing the entries of a pool leaves the other handles alone. -/
theorem reaches_closed (hs : List Handle) {todo : List (Fin maxSlots)}
    (hr : (reconnect c).Reachable ⟨c', .close hs todo⟩) :
    ∃ c'', (reconnect c).Reachable ⟨c'', .pools todo⟩ ∧ c''.stray = c'.stray ∧
      c''.pools = c'.pools ∧ ∀ h ∉ hs, c''.table.find h = c'.table.find h := by
  induction hs generalizing c' with
  | nil => exact ⟨c', reachable_run hr true rfl, rfl, rfl, fun _ _ => rfl⟩
  | cons k hs ih =>
      obtain ⟨c'', hr', hstray, hpools, hfind⟩ := ih (reachable_run hr true rfl)
      refine ⟨c'', hr', hstray, hpools, fun h hh => ?_⟩
      obtain ⟨hne, hnot⟩ := not_or.mp (mt List.mem_cons.mpr hh)
      rw [hfind h hnot, ConnTable.find_erase, if_neg hne]

/-- Closing the pools leaves the handles that no pool has alone. -/
theorem reaches_caches (todo : List (Fin maxSlots))
    (hr : (reconnect c).Reachable ⟨c', .pools todo⟩) :
    ∃ c'', (reconnect c).Reachable ⟨c'', .caches⟩ ∧ c''.stray = c'.stray ∧
      ∀ h, ¬ c'.Owns h → c''.table.find h = c'.table.find h := by
  induction todo generalizing c' with
  | nil => exact ⟨c', reachable_run hr true rfl, rfl, fun _ _ => rfl⟩
  | cons slot todo ih =>
      cases hp : c'.pools slot with
      | none =>
          have hstep : runStep ⟨c', .pools (slot :: todo)⟩ true = some ⟨c', .pools todo⟩ := by
            simp only [runStep, hp]
          exact ih (reachable_run hr true hstep)
      | some p =>
          have hstep : runStep ⟨c', .pools (slot :: todo)⟩ true =
              some ⟨c'.takePool slot, .close (p.handles slot) todo⟩ := by
            simp only [runStep, hp]
          obtain ⟨d, hrd, hstray, hpools, hfind⟩ :=
            reaches_closed _ (reachable_run hr true hstep)
          obtain ⟨d', hrd', hstray', hfind'⟩ := ih hrd
          refine ⟨d', hrd', hstray'.trans hstray, fun h hown => ?_⟩
          have hnot : ¬ d.Owns h := by
            rintro ⟨slot', p', hp', hh⟩
            rw [hpools] at hp'
            simp only [Client.takePool, Function.update_apply] at hp'
            split at hp'
            · cases hp'
            · exact hown ⟨slot', p', hp', hh⟩
          rw [hfind' h hnot, hfind h fun hmem => hown ⟨slot, p, hp, hmem⟩]
          rfl

/-- Every order begins. -/
theorem exists_order (c : Client sdk) : ∃ todo, c.Order todo := by
  cases sdk with
  | c | go => exact ⟨_, rfl⟩
  | python =>
      refine ⟨(List.finRange maxSlots).filter fun slot => (c.pools slot).isSome, ?_, fun slot => ?_⟩
      · exact (List.nodup_finRange _).filter _
      · simp

/-- A reconnect gets as far as the IPC: in C with the handles that no pool has,
and always with the workers of the pools that are not registered. -/
theorem reaches_ipc (c : Client sdk) : ∃ c', (reconnect c).Reachable ⟨c', .ipc⟩ ∧
    c'.stray = c.stray ∧
    (sdk = .c → ∀ h, ¬ c.Owns h → c'.table.find h = c.table.find h) := by
  obtain ⟨todo, horder⟩ := exists_order c
  obtain ⟨d, hrd, hstray, hfind⟩ :=
    reaches_caches todo (System.Reaches.init ⟨todo, horder, rfl⟩ : (reconnect c).Reachable _)
  by_cases hsdk : sdk = .c
  · have hstep : runStep ⟨d, .caches⟩ true =
        some ⟨{ d with caches := fun _ => none }, .ipc⟩ := by
      simp only [runStep, if_pos hsdk]
    exact ⟨_, reachable_run hrd true hstep, hstray, fun _ h hown => hfind h hown⟩
  · have hstep : runStep ⟨d, .caches⟩ true =
        some ⟨{ d with caches := fun _ => none }, .txrx⟩ := by
      simp only [runStep, if_neg hsdk]
    exact ⟨_, reachable_run (reachable_run hrd true hstep) true rfl, hstray,
      fun h => absurd h hsdk⟩

theorem clearable_of_invalidated
    (h : ∀ s ok, (reconnect c).Reachable s → s.pc = .done ok → s.client.Invalidated) :
    c.Clearable := by
  obtain ⟨d, hrd, hstray, hfind⟩ := reaches_ipc c
  have hempty : d.table.IsEmpty := (h _ true (reachable_run hrd true rfl) rfl).table
  constructor
  · by_contra hne
    obtain ⟨k, hk⟩ := List.exists_mem_of_ne_nil _ hne
    -- a worker that is left records a connection after the wipe
    have hworks : d.Works k := .inl (hstray ▸ hk)
    have hstore : (reconnect c).Reachable ⟨d.act k (.store ⟨0, 0, 0, 0, 0, 0, 0⟩), .ipc⟩ :=
      System.Reaches.step (l := .worker k (.store ⟨0, 0, 0, 0, 0, 0, 0⟩)) hrd trivial (if_pos hworks)
    have hnone := (h _ true (reachable_run hstore true rfl) rfl).table k
    rw [Client.act, hempty.store k] at hnone
    cases hnone
  · intro hsdk k hsome
    by_contra hown
    rw [← hfind hsdk k hown, hempty k] at hsome
    cases hsome

end Left

/-- A reconnect leaves nothing of what the caller held, whatever the keepalive
workers do meanwhile and whether or not the IPC comes back, exactly when the
client can be cleared. -/
theorem reconnect_invalidates_iff {sdk : Sdk} (c : Client sdk) :
    (∀ s ok, (reconnect c).Reachable s → s.pc = .done ok → s.client.Invalidated) ↔ c.Clearable :=
  ⟨clearable_of_invalidated, fun hclear _ _ hr hdone => invalidated_of_clearable hclear hr hdone⟩

/-- A C client whose caller has opened handle 1 keeps it over a reconnect. -/
theorem handle_kept_over_reconnect :
    ∃ (cs : Conn.State (Conn.Table .c)) (c : Client .c), (Conn.client .c).Reachable cs ∧
      c.table.table = cs.table ∧ ∃ s, (reconnect c).Reachable s ∧ s.pc = .done true ∧
        (s.client.table.find 1).isSome ∧ ¬ s.client.Invalidated := by
  obtain ⟨cs, hcs, hp⟩ := (Conn.client .c).exists_reaches_of_run (fun _ _ => True) rfl
    (Conn.openLabels 0 7) (fun cs => decide ((tableOps .c).find cs.table 1).isSome)
    (by decide +kernel)
  have hvalid : TableValid .c cs.table := (Conn.inv_of_reachable (table_lawful .c) hcs).valid
  let c : Client .c := ⟨fun _ => none, [], ⟨cs.table, hvalid⟩, fun _ => none⟩
  obtain ⟨d, hrd, -, hfind⟩ := reaches_ipc c
  have hown : ¬ c.Owns 1 := by
    rintro ⟨slot, p, hp', -⟩
    cases hp'
  have hsome : (d.table.find 1).isSome := by
    rw [hfind rfl 1 hown]
    exact of_decide_eq_true hp
  refine ⟨cs, c, hcs, rfl, _, reachable_run hrd true rfl, rfl, hsome, fun hinv => ?_⟩
  rw [hinv.table 1] at hsome
  cases hsome

end BpClient.Ipc
