import BpClient.Conn.Client
import BpClient.Lib.Leases

/-!
Where a connection is once its Large Forward Open has been accepted: in the
table, with a call that is about to store or to close it, or closed by a
Forward_Close. Every step hands it from one place to the next.
-/

namespace BpClient.Conn

open BpClient.Lib
open BpClient.Slot (Sdk CallId)

/-- A connection of the PLC: the backplane slot and the serials. -/
abbrev Ident := UInt8 × Serials

def Request.ident (r : Request) : Option Ident := (serials r.body).map fun n => (r.slot, n)

def Request.closes (r : Request) : Option Ident := if r.kind = .fc then r.ident else none

def TxrxConn.ident (c : TxrxConn) : Ident := (c.slot, c.serials)

/-- The connection that a call has neither stored nor closed yet. -/
def Pc.owns : Pc → Option Ident
  | .store n _ _ => some (n.slot, n.serials)
  | .fcSend slot n _ => some (slot, n)
  | _ => none

inductive Place
  | table (h : Handle)
  | call (id : CallId)
  /-- The Forward_Close at this position of `requests`. -/
  | wire (n : Nat)
  deriving DecidableEq, Repr

section Custody

variable {T : Type} (ops : TableOps T Handle TxrxConn) (s : State T)

def State.custody : Place → Option Ident
  | .table h => (ops.find s.table h).map TxrxConn.ident
  | .call id => (s.calls id).bind fun c => c.2.owns
  | .wire n => s.requests[n]?.bind Request.closes

/-- Accepted connections as cells that are lent to places. -/
def State.leases : Leases Place Ident where
  inUse := fun i => ∃ a ∈ s.accepted, a.ident = some i
  holds := s.custody ops

variable {ops s}

theorem custody_call {id : CallId} {op : Op} {pc : Pc} (h : s.calls id = some (op, pc)) :
    s.custody ops (.call id) = pc.owns := by
  simp [State.custody, h]

theorem custody_end : s.custody ops (.wire s.requests.length) = none := by
  simp [State.custody]

theorem custody_goto (id : CallId) (op : Op) (pc : Pc) :
    (s.goto id op pc).custody ops = Function.update (s.custody ops) (.call id) pc.owns := by
  funext p
  cases p with
  | call id' =>
      by_cases hid : id' = id
      · subst id'
        simp [State.custody, State.goto]
      · simp [State.custody, State.goto, hid]
  | _ => simp [State.custody, State.goto]

theorem custody_request (r : Request) :
    (s.request r).custody ops =
      Function.update (s.custody ops) (.wire s.requests.length) r.closes := by
  funext p
  cases p with
  | wire n =>
      rcases Nat.lt_trichotomy n s.requests.length with hlt | rfl | hgt
      · have hne : Place.wire n ≠ .wire s.requests.length := by simp [hlt.ne]
        simp only [State.custody, State.request, Function.update_of_ne hne,
          List.getElem?_append_left hlt]
      · simp [State.custody, State.request]
      · have hnew : (s.requests ++ [r])[n]? = none := by simp; omega
        have hold : s.requests[n]? = none := by simp; omega
        simp [State.custody, State.request, hnew, hold, hgt.ne']
  | _ => simp [State.custody, State.request]

theorem custody_table {t : T} {h : Handle} {c : Option TxrxConn}
    (ht : ops.find t = Function.update (ops.find s.table) h c) :
    ({ s with table := t } : State T).custody ops =
      Function.update (s.custody ops) (.table h) (c.map TxrxConn.ident) := by
  funext p
  cases p with
  | table h' =>
      by_cases hh : h' = h
      · subst h'
        simp [State.custody, ht]
      · simp [State.custody, ht, hh]
  | _ => simp [State.custody]

theorem custody_mu (m : Option CallId) :
    ({ s with mu := m } : State T).custody ops = s.custody ops := by
  funext p
  cases p <;> rfl

theorem custody_accepted (l : List Request) :
    ({ s with accepted := l } : State T).custody ops = s.custody ops := by
  funext p
  cases p <;> rfl

/-- A step of a call that owns the same before and after. -/
theorem custody_goto_same {id : CallId} {op op' : Op} {pc pc' : Pc}
    (h : s.calls id = some (op, pc)) (howns : pc'.owns = pc.owns) :
    (s.goto id op' pc').custody ops = s.custody ops := by
  have hcall : s.custody ops (.call id) = pc.owns := custody_call h
  rw [custody_goto, howns, ← hcall, Function.update_eq_self]

end Custody

theorem Opening.ident_request (n : Opening) (posted : Bool) :
    (n.request posted).ident = some (n.slot, n.serials) := by
  simp only [Request.ident, Opening.request, Opening.lfo, serials_buildLfo, Option.map_some]
  rfl

theorem closes_fc (slot : UInt8) (n : Serials) (posted : Bool) :
    (⟨.fc, slot, buildFc n, posted⟩ : Request).closes = some (slot, n) := by
  simp [Request.closes, Request.ident, serials_buildFc]

theorem closes_of_kind {r : Request} (h : r.kind ≠ .fc) : r.closes = none := by
  simp [Request.closes, h]

section Hand

variable {T : Type} (ops : TableOps T Handle TxrxConn)

/-- What a step does with the connections. -/
inductive Hand (s s' : State T) : Prop
  | keep : s'.accepted = s.accepted → s'.custody ops = s.custody ops → Hand s s'
  /-- A Large Forward Open is accepted. -/
  | accept (id : CallId) (n : Opening) : s.custody ops (.call id) = none →
      s'.accepted = s.accepted ++ [n.request true] →
      s'.custody ops = Function.update (s.custody ops) (.call id) (some (n.slot, n.serials)) →
      Hand s s'
  | pass (p q : Place) (i : Ident) : s.custody ops p = some i → s.custody ops q = none →
      s'.accepted = s.accepted → s'.custody ops =
        Function.update (Function.update (s.custody ops) p none) q (some i) → Hand s s'

variable {ops} {s s' : State T}

def State.acceptedSerials (s : State T) : List (Option Serials) :=
  s.accepted.map fun a => Conn.serials a.body

theorem Hand.nodup (h : Hand ops s s') (hnodup : s'.acceptedSerials.Nodup) :
    s.acceptedSerials.Nodup := by
  cases h with
  | keep hacc _ | pass _ _ _ _ _ hacc _ =>
      rw [State.acceptedSerials, hacc] at hnodup
      exact hnodup
  | accept id n _ hacc _ =>
      rw [State.acceptedSerials, hacc, List.map_append] at hnodup
      exact hnodup.of_append_left

/-- A step that hands a connection on keeps each of them in one place. -/
theorem Hand.leases (h : Hand ops s s') (hinv : (s.leases ops).Inv)
    (hnodup : s'.acceptedSerials.Nodup) : (s'.leases ops).Inv := by
  cases h with
  | keep hacc hcust =>
      have hsame : s'.leases ops = s.leases ops := by simp only [State.leases, hacc, hcust]
      rw [hsame]
      exact hinv
  | accept id n hnone hacc hcust =>
      have hident := n.ident_request true
      have hfresh : ¬ (s.leases ops).inUse (n.slot, n.serials) := by
        rintro ⟨a, ha, haid⟩
        -- the same serials would stand in the log twice
        rw [State.acceptedSerials, hacc, List.map_append, List.nodup_append] at hnodup
        refine hnodup.2.2 _ (List.mem_map_of_mem ha) _ (List.mem_singleton_self _) ?_
        obtain ⟨m, hm, hmn⟩ := Option.map_eq_some_iff.mp haid
        obtain ⟨-, rfl⟩ := Prod.mk.inj hmn
        exact hm.trans (serials_buildLfo ..).symm
      refine hinv.move (p := .call id) (fun q hq => ?_) (.take (n.slot, n.serials) hnone hfresh ?_ ?_ ?_)
      · simp only [State.leases, hcust, Function.update_of_ne hq]
      · simp only [State.leases, hcust, Function.update_self]
      · exact ⟨_, hacc ▸ List.mem_append_right _ (List.mem_singleton_self _), hident⟩
      · intro j hj
        simp only [State.leases, hacc, List.mem_append, List.mem_singleton, or_and_right, exists_or,
          exists_eq_left, hident, Option.some.injEq]
        exact or_iff_left fun h => hj h.symm
  | pass p q i hp hq hacc hcust =>
      have hne : p ≠ q := by
        rintro rfl
        rw [hp] at hq
        cases hq
      refine hinv.transfer hp hq ?_ ?_ (fun r hrp hrq => ?_) (fun j => by simp only [State.leases, hacc])
      · simp only [State.leases, hcust, Function.update_of_ne hne, Function.update_self]
      · simp only [State.leases, hcust, Function.update_self]
      · simp only [State.leases, hcust, Function.update_of_ne hrp, Function.update_of_ne hrq]

end Hand

section Steps

variable {T : Type} {ops : TableOps T Handle TxrxConn} {Valid : T → Prop} {sdk : Sdk}
  {s s' : State T} {id : CallId} {op : Op} {pc : Pc} {env : Env}

/-- A step of a call on its program counter alone. -/
theorem Hand.goto {pc' : Pc} (hc : s.calls id = some (op, pc)) (howns : pc'.owns = pc.owns) :
    Hand ops s (s.goto id op pc') :=
  .keep rfl (custody_goto_same hc howns)

theorem storeStep_hand (lawful : ops.Lawful maxConns Valid) (hvalid : Valid s.table) {h : Handle}
    {n : Opening} {a b : UInt32} (hc : s.calls id = some (op, .store n a b)) :
    Hand ops s (storeStep ops sdk s id op h n a b) ∧
      Valid (storeStep ops sdk s id op h n a b).table := by
  have hown : s.custody ops (.call id) = some (n.slot, n.serials) := custody_call hc
  have abandon : ∀ r, Hand ops s (s.abandon sdk id op n r) := by
    intro r
    refine .keep rfl ?_
    rw [State.abandon, custody_goto, custody_mu, Pc.owns, ← hown, Function.update_eq_self]
  unfold storeStep
  split
  · exact ⟨abandon _, hvalid⟩
  · next hnone =>
      split
      · next t ht =>
          obtain ⟨hvalid', hfind⟩ := lawful.insert hvalid hnone ht
          have hfree : s.custody ops (.table h) = none := by simp [State.custody, hnone]
          refine ⟨.pass (.call id) (.table h) (n.slot, n.serials) hown hfree rfl ?_, hvalid'⟩
          rw [custody_goto, custody_table hfind, Function.update_comm (by simp)]
          rfl
      · exact ⟨abandon _, hvalid⟩

theorem msgStep_hand (lawful : ops.Lawful maxConns Valid) (hvalid : Valid s.table) {h : Handle}
    (hc : s.calls id = some (op, .enter)) :
    Hand ops s (msgStep ops sdk s id op h) ∧ Valid (msgStep ops sdk s id op h).table := by
  unfold msgStep
  split
  · next c hfound =>
      obtain ⟨hvalid', hfind⟩ := lawful.modify (k := h) (f := TxrxConn.bump sdk) hvalid
      refine ⟨.keep rfl ?_, hvalid'⟩
      -- the sequence number is no part of the identity
      have hsame : ((ops.find s.table h).map (TxrxConn.bump sdk)).map TxrxConn.ident =
          s.custody ops (.table h) := by
        simp [State.custody, hfound, TxrxConn.ident, TxrxConn.bump, TxrxConn.serials]
      have hown : (Pc.msgSend c.slot).owns = s.custody ops (.call id) := (custody_call hc).symm
      rw [custody_goto, custody_table hfind, hsame, Function.update_eq_self, hown,
        Function.update_eq_self]
  · exact ⟨.goto hc rfl, hvalid⟩

theorem closeStep_hand (lawful : ops.Lawful maxConns Valid) (hvalid : Valid s.table) {h : Handle}
    (hc : s.calls id = some (op, .enter)) :
    Hand ops s (closeStep ops s id op h) ∧ Valid (closeStep ops s id op h).table := by
  unfold closeStep
  split
  · next c hfound =>
      obtain ⟨hvalid', hfind⟩ := lawful.erase (k := h) hvalid
      have hheld : s.custody ops (.table h) = some c.ident := by simp [State.custody, hfound]
      refine ⟨.pass (.table h) (.call id) c.ident hheld (custody_call hc) rfl ?_, hvalid'⟩
      rw [custody_goto, custody_table hfind]
      rfl
  · exact ⟨.goto hc rfl, hvalid⟩

/-- Handing a Forward_Close to `message_send` closes the connection as far as
the client is concerned, whether it is posted or not. -/
theorem fcSend_hand {slot : UInt8} {n : Serials} {why : Why} {posted : Bool}
    (hc : s.calls id = some (op, .fcSend slot n why))
    (hacc : s'.accepted = s.accepted)
    (hcust : s'.custody ops = Function.update
      ((s.request ⟨.fc, slot, buildFc n, posted⟩).custody ops) (.call id) none) : Hand ops s s' := by
  refine .pass (.call id) (.wire s.requests.length) (slot, n) (custody_call hc) custody_end hacc ?_
  rw [hcust, custody_request, closes_fc, Function.update_comm (by simp)]

theorem custody_afterClose {why : Why} {r : Result} : (s.afterClose sdk id op why r).custody ops =
    Function.update (s.custody ops) (.call id) none := by
  cases why with
  | closed => exact custody_goto ..
  | abandoned r' =>
      simp only [State.afterClose]
      rw [custody_goto, custody_mu]
      rfl

theorem afterClose_accepted {why : Why} {r : Result} :
    (s.afterClose sdk id op why r).accepted = s.accepted := by
  cases why <;> rfl

theorem afterClose_table {why : Why} {r : Result} :
    (s.afterClose sdk id op why r).table = s.table := by
  cases why <;> rfl

/-- A request that is no Forward_Close. -/
theorem request_hand {r : Request} {pc' : Pc} (hkind : r.kind ≠ .fc)
    (hc : s.calls id = some (op, pc)) (howns : pc'.owns = pc.owns) :
    Hand ops s ((s.request r).goto id op pc') := by
  refine .keep rfl ?_
  have hreq : (s.request r).custody ops = s.custody ops := by
    have hend : s.custody ops (.wire s.requests.length) = none := custody_end
    rw [custody_request, closes_of_kind hkind, ← hend, Function.update_eq_self]
  have hc' : (s.request r).calls id = some (op, pc) := hc
  rw [custody_goto_same hc' howns, hreq]

/-- A step of a call opens, stores, closes or passes on one connection at most. -/
theorem callStep_hand (lawful : ops.Lawful maxConns Valid) (hvalid : Valid s.table)
    (hc : s.calls id = some (op, pc)) (hs : callStep ops sdk s id env op pc = some s') :
    Hand ops s s' ∧ Valid s'.table := by
  cases pc with
  | enter =>
      cases op with
      | «open» spec =>
          simp only [callStep, Option.some.injEq] at hs
          subst hs
          split <;> exact ⟨.goto hc rfl, hvalid⟩
      | msg spec req =>
          simp only [callStep] at hs
          split at hs <;> cases hs
          exact msgStep_hand lawful hvalid hc
      | close spec =>
          simp only [callStep] at hs
          split at hs <;> cases hs
          exact closeStep_hand lawful hvalid hc
  | lfoSend n =>
      simp only [callStep, Option.some.injEq] at hs
      subst hs
      refine ⟨request_hand (by simp [Opening.request]) hc ?_, hvalid⟩
      split <;> rfl
  | lfoWait n =>
      simp only [callStep, Option.some.injEq] at hs
      subst hs
      split
      · exact ⟨.goto hc rfl, hvalid⟩
      · split
        · exact ⟨.goto hc rfl, hvalid⟩
        · refine ⟨.accept id n (custody_call hc) rfl ?_, hvalid⟩
          rw [custody_goto, custody_accepted]
          rfl
  | store n a b =>
      cases op <;> simp only [callStep, reduceCtorEq] at hs
      split at hs <;> cases hs
      exact storeStep_hand lawful hvalid hc
  | fcSend slot n why =>
      simp only [callStep, Option.some.injEq] at hs
      subst hs
      split
      · exact ⟨fcSend_hand hc rfl (custody_goto ..), hvalid⟩
      · refine ⟨fcSend_hand hc afterClose_accepted custody_afterClose, ?_⟩
        rw [afterClose_table]
        exact hvalid
  | fcWait why =>
      simp only [callStep, Option.some.injEq] at hs
      subst hs
      refine ⟨.keep afterClose_accepted ?_, ?_⟩
      · have hown : s.custody ops (.call id) = none := custody_call hc
        rw [custody_afterClose, ← hown, Function.update_eq_self]
      · rw [afterClose_table]
        exact hvalid
  | msgSend slot =>
      cases op <;> simp only [callStep, reduceCtorEq] at hs
      cases hs
      refine ⟨request_hand (by simp) hc ?_, hvalid⟩
      split <;> rfl
  | msgWait =>
      cases hs
      exact ⟨.goto hc rfl, hvalid⟩
  | done r => cases hs

end Steps

def Pc.ofMsg : Pc → Bool
  | .enter | .msgSend _ | .msgWait | .done _ => true
  | _ => false

/-- What holds in every state of a client whose connections have had distinct
serials so far. -/
structure Inv {T : Type} (ops : TableOps T Handle TxrxConn) (Valid : T → Prop) (s : State T) :
    Prop where
  valid : Valid s.table
  leases : s.acceptedSerials.Nodup → (s.leases ops).Inv
  lfos : ∀ a ∈ s.accepted, ∃ n : Opening, a = n.request true
  msgs : ∀ id spec req pc, s.calls id = some (.msg spec req, pc) → pc.ofMsg = true

section Invariant

variable {T : Type} {ops : TableOps T Handle TxrxConn} {Valid : T → Prop} {sdk : Sdk}
  {s s' : State T} {id : CallId} {op : Op} {pc : Pc} {env : Env}

theorem Hand.lfos (h : Hand ops s s') (hlfos : ∀ a ∈ s.accepted, ∃ n : Opening, a = n.request true) :
    ∀ a ∈ s'.accepted, ∃ n : Opening, a = n.request true := by
  cases h with
  | keep hacc _ | pass _ _ _ _ _ hacc _ =>
      rw [hacc]
      exact hlfos
  | accept id n _ hacc _ =>
      intro a ha
      rw [hacc, List.mem_append, List.mem_singleton] at ha
      rcases ha with ha | rfl
      · exact hlfos a ha
      · exact ⟨n, rfl⟩

/-- What a step of a call does to the calls and to the table. -/
structure Turn (s s' : State T) (id : CallId) (op : Op) (pc pc' : Pc) : Prop where
  calls : s'.calls = Function.update s.calls id (some (op, pc'))
  msg : ∀ spec req, op = .msg spec req → pc.ofMsg = true → pc'.ofMsg = true
  /-- An open changes the table only as it returns successfully. -/
  table : ∀ spec, op = .open spec → s'.table = s.table ∨ pc' = .done .ok

theorem turn_quiet (pc' : Pc) (hcalls : s'.calls = Function.update s.calls id (some (op, pc')))
    (htable : s'.table = s.table) (hmsg : pc.ofMsg = false ∨ pc'.ofMsg = true) :
    ∃ pc', Turn s s' id op pc pc' := by
  refine ⟨pc', hcalls, fun _ _ _ h => ?_, fun _ _ => .inl htable⟩
  rcases hmsg with hno | hyes
  · rw [hno] at h
    cases h
  · exact hyes

theorem afterClose_turn {mid : State T} {why : Why} {r : Result} (hcalls : mid.calls = s.calls)
    (htable : mid.table = s.table) :
    ∃ pc', Turn s (mid.afterClose sdk id op why r) id op pc pc' := by
  cases why with
  | closed => exact turn_quiet (.done r) (by rw [← hcalls]; rfl) htable (.inr rfl)
  | abandoned r' => exact turn_quiet (.done r') (by rw [← hcalls]; rfl) htable (.inr rfl)

/-- Where a step of a call leaves the calls and the table. -/
theorem callStep_turn (hs : callStep ops sdk s id env op pc = some s') :
    ∃ pc', Turn s s' id op pc pc' := by
  cases pc with
  | enter =>
      cases op with
      | «open» spec =>
          simp only [callStep, Option.some.injEq] at hs
          subst hs
          exact ⟨_, rfl, by simp, fun _ _ => .inl rfl⟩
      | msg spec req =>
          simp only [callStep] at hs
          split at hs <;> cases hs
          unfold msgStep
          split <;> exact ⟨_, rfl, fun _ _ _ _ => rfl, by simp⟩
      | close spec =>
          simp only [callStep] at hs
          split at hs <;> cases hs
          unfold closeStep
          split <;> exact ⟨_, rfl, by simp, by simp⟩
  | lfoSend n =>
      simp only [callStep, Option.some.injEq] at hs
      subst hs
      exact turn_quiet _ rfl rfl (.inl rfl)
  | lfoWait n =>
      simp only [callStep, Option.some.injEq] at hs
      subst hs
      split
      · exact turn_quiet _ rfl rfl (.inl rfl)
      · split <;> exact turn_quiet _ rfl rfl (.inl rfl)
  | store n a b =>
      cases op <;> simp only [callStep, reduceCtorEq] at hs
      split at hs <;> cases hs
      unfold storeStep
      split
      · exact turn_quiet _ rfl rfl (.inl rfl)
      · split
        · exact ⟨.done .ok, rfl, by simp, fun _ _ => .inr rfl⟩
        · exact turn_quiet _ rfl rfl (.inl rfl)
  | fcSend slot n why =>
      simp only [callStep, Option.some.injEq] at hs
      subst hs
      split
      · exact turn_quiet _ rfl rfl (.inl rfl)
      · exact afterClose_turn rfl rfl
  | fcWait why =>
      simp only [callStep, Option.some.injEq] at hs
      subst hs
      exact afterClose_turn rfl rfl
  | msgSend slot =>
      cases op <;> simp only [callStep, reduceCtorEq] at hs
      cases hs
      refine turn_quiet _ rfl rfl (.inr ?_)
      split <;> rfl
  | msgWait =>
      cases hs
      exact turn_quiet _ rfl rfl (.inr rfl)
  | done r => cases hs

/-- Where the calls of `txrx_msg` are stays within `ofMsg`. -/
theorem msgs_update {pc' : Pc} (h : ∀ id spec req pc, s.calls id = some (.msg spec req, pc) →
      pc.ofMsg = true)
    (hcalls : s'.calls = Function.update s.calls id (some (op, pc')))
    (hself : ∀ spec req, op = .msg spec req → pc'.ofMsg = true) :
    ∀ id spec req pc, s'.calls id = some (.msg spec req, pc) → pc.ofMsg = true := by
  intro id' spec req pc hc
  rw [hcalls] at hc
  by_cases hid : id' = id
  · subst id'
    rw [Function.update_self] at hc
    obtain ⟨rfl, rfl⟩ := Prod.mk.inj (Option.some.inj hc)
    exact hself spec req rfl
  · rw [Function.update_of_ne hid] at hc
    exact h id' spec req pc hc

/-- Every step keeps the invariant, as long as no serial comes twice. -/
theorem Inv.step {l : Label} (lawful : ops.Lawful maxConns Valid) (h : Inv ops Valid s)
    (hs : step ops sdk s l = some s') : Inv ops Valid s' := by
  cases l with
  | start id op =>
      simp only [Conn.step] at hs
      split at hs <;> cases hs
      next hnone =>
      have hown : s.custody ops (.call id) = none := by simp [State.custody, hnone]
      have hand : Hand ops s (s.goto id op .enter) := by
        refine .keep rfl ?_
        have howns : Pc.enter.owns = s.custody ops (.call id) := hown.symm
        rw [custody_goto, howns, Function.update_eq_self]
      refine ⟨h.valid, fun hnodup => hand.leases (h.leases hnodup) hnodup, h.lfos, ?_⟩
      exact msgs_update h.msgs rfl fun _ _ _ => rfl
  | run id env =>
      obtain ⟨⟨op, pc⟩, hc, hs⟩ := Option.bind_eq_some_iff.mp hs
      obtain ⟨hand, hvalid⟩ := callStep_hand lawful h.valid hc hs
      obtain ⟨pc', hturn⟩ := callStep_turn hs
      refine ⟨hvalid, fun hnodup => hand.leases (h.leases (hand.nodup hnodup)) hnodup,
        hand.lfos h.lfos, msgs_update h.msgs hturn.calls ?_⟩
      rintro spec req rfl
      exact hturn.msg spec req rfl (h.msgs id spec req pc hc)

end Invariant

end BpClient.Conn
