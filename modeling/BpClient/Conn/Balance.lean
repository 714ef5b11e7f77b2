import BpClient.Conn.Ledger
import Mathlib.Algebra.BigOperators.Group.Finset.Basic

/-!
What one step of a call adds to the accepted connections and to those that a
Forward_Close closes balances what the call and the table have of them. No
serials need to differ for this.
-/

namespace BpClient.Conn

open BpClient.Lib
open BpClient.Slot (Sdk CallId)

def Op.handle : Op → Handle
  | .open spec | .msg spec _ | .close spec => spec.appHandle

def atMostOne (i : Option Ident) : Multiset Ident := i.toList

/-- The connections that Large Forward Opens open. -/
def opened (accepted : List Request) : Multiset Ident := accepted.filterMap Request.ident

/-- The connections that the Forward_Closes among requests close. -/
def closed (requests : List Request) : Multiset Ident := requests.filterMap Request.closes

@[simp] theorem atMostOne_none : atMostOne none = 0 := rfl

@[simp] theorem opened_nil : opened [] = 0 := rfl

@[simp] theorem closed_nil : closed [] = 0 := rfl

theorem opened_append (l l' : List Request) : opened (l ++ l') = opened l + opened l' := by
  rw [opened, List.filterMap_append]
  rfl

theorem closed_append (l l' : List Request) : closed (l ++ l') = closed l + closed l' := by
  rw [closed, List.filterMap_append]
  rfl

theorem opened_request (n : Opening) (posted : Bool) :
    opened [n.request posted] = atMostOne (some (n.slot, n.serials)) := by
  rw [opened, List.filterMap_cons, n.ident_request]
  rfl

theorem closed_singleton (r : Request) : closed [r] = atMostOne r.closes := by
  rw [closed, List.filterMap_cons]
  cases r.closes <;> rfl

section Balance

variable {T : Type} (ops : TableOps T Handle TxrxConn)

def State.heldAt (s : State T) (h : Handle) : Multiset Ident :=
  atMostOne ((ops.find s.table h).map TxrxConn.ident)

/-- A step of a call, and what it logs. -/
structure Balance (s s' : State T) (id : CallId) (op : Op) (pc pc' : Pc)
    (acc reqs : List Request) : Prop where
  calls : s'.calls = Function.update s.calls id (some (op, pc'))
  accepted : s'.accepted = s.accepted ++ acc
  requests : s'.requests = s.requests ++ reqs
  balance : opened acc + atMostOne pc.owns + s.heldAt ops op.handle =
    closed reqs + atMostOne pc'.owns + s'.heldAt ops op.handle
  frame : ∀ h, h ≠ op.handle → ops.find s'.table h = ops.find s.table h

variable {ops} {Valid : T → Prop} {sdk : Sdk} {s s' : State T} {id : CallId} {op : Op} {pc : Pc}
  {env : Env}

/-- A step that logs nothing and leaves the table. -/
theorem Balance.goto {pc' : Pc} (howns : pc'.owns = pc.owns) :
    Balance ops s (s.goto id op pc') id op pc pc' [] [] where
  calls := rfl
  accepted := (List.append_nil _).symm
  requests := (List.append_nil _).symm
  balance := by
    rw [howns]
    rfl
  frame := fun _ _ => rfl

theorem Balance.abandon {n : Opening} {r : Result} {a b : UInt32} :
    Balance ops s (s.abandon sdk id op n r) id op (.store n a b)
      (.fcSend n.slot n.serials (.abandoned r)) [] [] where
  calls := rfl
  accepted := (List.append_nil _).symm
  requests := (List.append_nil _).symm
  balance := rfl
  frame := fun _ _ => rfl

/-- The part of `txrx_open` under `txrx_mu` gives the connection to the table or
keeps it. -/
theorem storeStep_balance (lawful : ops.Lawful maxConns Valid) (hvalid : Valid s.table)
    (sdk : Sdk) (id : CallId) (op : Op) (n : Opening) (a b : UInt32) :
    ∃ pc', Balance ops s (storeStep ops sdk s id op op.handle n a b) id op (.store n a b) pc' [] [] := by
  unfold storeStep
  split
  · exact ⟨_, .abandon⟩
  · next hnone =>
      split
      · next t ht =>
          obtain ⟨-, hfind⟩ := lawful.insert hvalid hnone ht
          refine ⟨.done .ok, rfl, (List.append_nil _).symm, (List.append_nil _).symm, ?_, ?_⟩
          · have hfound : ops.find t op.handle = some (n.conn a b) := by
              rw [hfind, Function.update_self]
            simp only [State.heldAt, State.goto, hnone, hfound, Pc.owns, Option.map_none,
              Option.map_some, atMostOne_none, opened_nil, closed_nil, zero_add, add_zero]
            rfl
          · intro h hh
            exact (congrFun hfind h).trans (Function.update_of_ne hh _ _)
      · exact ⟨_, .abandon⟩

theorem msgStep_balance (lawful : ops.Lawful maxConns Valid) (hvalid : Valid s.table) (op : Op) :
    ∃ pc', Balance ops s (msgStep ops sdk s id op op.handle) id op .enter pc' [] [] := by
  unfold msgStep
  split
  · next c hfound =>
      obtain ⟨-, hfind⟩ := lawful.modify (k := op.handle) (f := TxrxConn.bump sdk) hvalid
      refine ⟨.msgSend c.slot, rfl, (List.append_nil _).symm, (List.append_nil _).symm, ?_, ?_⟩
      · -- the sequence number is no part of the identity
        have hbumped : ops.find (ops.modify s.table op.handle (TxrxConn.bump sdk)) op.handle =
            some (c.bump sdk) := by
          rw [hfind, Function.update_self, hfound]
          rfl
        simp only [State.heldAt, State.goto, hfound, hbumped, Option.map_some]
        rfl
      · intro h hh
        exact (congrFun hfind h).trans (Function.update_of_ne hh _ _)
  · exact ⟨_, .goto rfl⟩

/-- The part of `txrx_close` under `txrx_mu` takes the connection from the
table. -/
theorem closeStep_balance (lawful : ops.Lawful maxConns Valid) (hvalid : Valid s.table) (op : Op) :
    ∃ pc', Balance ops s (closeStep ops s id op op.handle) id op .enter pc' [] [] := by
  unfold closeStep
  split
  · next c hfound =>
      obtain ⟨-, hfind⟩ := lawful.erase (k := op.handle) hvalid
      refine ⟨.fcSend c.slot c.serials .closed, rfl, (List.append_nil _).symm,
        (List.append_nil _).symm, ?_, ?_⟩
      · have hgone : ops.find (ops.erase s.table op.handle) op.handle = none := by
          rw [hfind, Function.update_self]
        simp only [State.heldAt, State.goto, hfound, hgone, Pc.owns, Option.map_none,
          Option.map_some, atMostOne_none, opened_nil, closed_nil, zero_add, add_zero]
        rfl
      · intro h hh
        exact (congrFun hfind h).trans (Function.update_of_ne hh _ _)
  · exact ⟨_, .goto rfl⟩

/-- A request that is no Forward_Close. -/
theorem request_balance {r : Request} {pc' : Pc} (hkind : r.kind ≠ .fc) (howns : pc'.owns = pc.owns) :
    Balance ops s ((s.request r).goto id op pc') id op pc pc' [] [r] where
  calls := rfl
  accepted := (List.append_nil _).symm
  requests := rfl
  balance := by
    rw [howns, closed_singleton, closes_of_kind hkind]
    rfl
  frame := fun _ _ => rfl

/-- After a Forward_Close the call has no connection. -/
theorem afterClose_balance (s mid : State T) (pc : Pc) (why : Why) (r : Result)
    (requests : List Request) (hcalls : mid.calls = s.calls) (haccepted : mid.accepted = s.accepted)
    (hrequests : mid.requests = s.requests ++ requests) (htable : mid.table = s.table)
    (hclosed : atMostOne pc.owns = closed requests) :
    ∃ pc', Balance ops s (mid.afterClose sdk id op why r) id op pc pc' [] requests := by
  have hheld : ∀ m : State T, m.table = s.table → m.heldAt ops op.handle = s.heldAt ops op.handle :=
    fun m hm => by rw [State.heldAt, State.heldAt, hm]
  cases why with
  | closed =>
      refine ⟨.done r, by rw [← hcalls]; rfl, ?_, hrequests, ?_, fun h _ => ?_⟩
      · rw [List.append_nil]
        exact haccepted
      · rw [hheld (mid.afterClose sdk id op .closed r) htable, hclosed, opened_nil, zero_add]
        exact congrArg (· + _) (add_zero _).symm
      · exact congrArg (ops.find · h) htable
  | abandoned r' =>
      refine ⟨.done r', by rw [← hcalls]; rfl, ?_, hrequests, ?_, fun h _ => ?_⟩
      · rw [List.append_nil]
        exact haccepted
      · rw [hheld (mid.afterClose sdk id op (.abandoned r') r) htable, hclosed, opened_nil, zero_add]
        exact congrArg (· + _) (add_zero _).symm
      · exact congrArg (ops.find · h) htable

/-- Each step of a call logs the connections that it opens and closes. -/
theorem callStep_balance (lawful : ops.Lawful maxConns Valid) (hvalid : Valid s.table)
    (hs : callStep ops sdk s id env op pc = some s') :
    ∃ pc' acc reqs, Balance ops s s' id op pc pc' acc reqs := by
  cases pc with
  | enter =>
      cases op with
      | «open» spec =>
          simp only [callStep, Option.some.injEq] at hs
          subst hs
          split <;> exact ⟨_, _, _, .goto rfl⟩
      | msg spec req =>
          simp only [callStep] at hs
          split at hs <;> cases hs
          obtain ⟨pc', h⟩ := msgStep_balance lawful hvalid (.msg spec req)
          exact ⟨pc', _, _, h⟩
      | close spec =>
          simp only [callStep] at hs
          split at hs <;> cases hs
          obtain ⟨pc', h⟩ := closeStep_balance lawful hvalid (.close spec)
          exact ⟨pc', _, _, h⟩
  | lfoSend n =>
      simp only [callStep, Option.some.injEq] at hs
      subst hs
      refine ⟨_, _, _, request_balance (by simp [Opening.request]) ?_⟩
      split <;> rfl
  | lfoWait n =>
      simp only [callStep, Option.some.injEq] at hs
      subst hs
      split
      · exact ⟨_, _, _, .goto rfl⟩
      · split
        · exact ⟨_, _, _, .goto rfl⟩
        · next a b _ =>
            refine ⟨.store n a b, [n.request true], [], rfl, rfl, (List.append_nil _).symm, ?_,
              fun _ _ => rfl⟩
            rw [opened_request, closed_nil, zero_add]
            exact congrArg (· + _) (add_zero _)
  | store n a b =>
      cases op with
      | «open» spec =>
          simp only [callStep] at hs
          split at hs <;> cases hs
          obtain ⟨pc', h⟩ := storeStep_balance lawful hvalid sdk id (.open spec) n a b
          exact ⟨pc', _, _, h⟩
      | _ => cases hs
  | fcSend slot n why =>
      have hclosed : ∀ posted, atMostOne (Pc.fcSend slot n why).owns =
          closed [⟨.fc, slot, buildFc n, posted⟩] := by
        intro posted
        rw [closed_singleton, closes_fc]
        rfl
      simp only [callStep, Option.some.injEq] at hs
      subst hs
      split
      · refine ⟨.fcWait why, [], _, rfl, (List.append_nil _).symm, rfl, ?_, fun _ _ => rfl⟩
        rw [← hclosed, opened_nil, zero_add]
        exact congrArg (· + _) (add_zero _).symm
      · obtain ⟨pc', h⟩ := afterClose_balance s (s.request ⟨.fc, slot, buildFc n, env.posted⟩)
          (.fcSend slot n why) why (.message env.rc) _ rfl rfl rfl rfl (hclosed env.posted)
        exact ⟨pc', _, _, h⟩
  | fcWait why =>
      simp only [callStep, Option.some.injEq] at hs
      subst hs
      obtain ⟨pc', h⟩ := afterClose_balance s s (.fcWait why) why _ [] rfl rfl
        (List.append_nil _).symm rfl rfl
      exact ⟨pc', _, _, h⟩
  | msgSend slot =>
      cases op <;> simp only [callStep, reduceCtorEq] at hs
      cases hs
      refine ⟨_, _, _, request_balance (by simp) ?_⟩
      split <;> rfl
  | msgWait =>
      cases hs
      exact ⟨_, _, _, .goto rfl⟩
  | done r => cases hs

end Balance

def Pc.ofOpen : Pc → Bool
  | .enter | .lfoSend _ | .lfoWait _ | .store _ _ _ | .done _ => true
  | .fcSend _ _ (.abandoned r) | .fcWait (.abandoned r) => r ≠ .ok
  | _ => false

def Pc.ofClose : Pc → Bool
  | .enter | .fcSend _ _ .closed | .fcWait .closed | .done _ => true
  | _ => false

section Turns

variable {T : Type} {ops : TableOps T Handle TxrxConn} {Valid : T → Prop} {sdk : Sdk}
  {s s' : State T} {id : CallId} {spec : Spec} {pc pc' : Pc} {env : Env}

theorem calls_goto {mid : State T} {op op' : Op} {pc₁ : Pc}
    (h : (mid.goto id op pc₁).calls id = some (op', pc')) : pc₁ = pc' := by
  have hself : (mid.goto id op pc₁).calls id = some (op, pc₁) := Function.update_self ..
  exact (Prod.mk.inj (Option.some.inj (hself.symm.trans h))).2

/-- An open stores its connection under a handle that is free as it returns
successfully, and leaves the table in every other step. -/
theorem open_turn (lawful : ops.Lawful maxConns Valid) (hvalid : Valid s.table)
    (hpc : pc.ofOpen = true) (hs : callStep ops sdk s id env (.open spec) pc = some s')
    (hc : s'.calls id = some (.open spec, pc')) :
    pc'.ofOpen = true ∧ (s'.table = s.table ∧ pc' ≠ .done .ok ∨
      ops.find s.table spec.appHandle = none ∧ (ops.find s'.table spec.appHandle).isSome ∧
        pc' = .done .ok) := by
  cases pc with
  | enter =>
      simp only [callStep, Option.some.injEq] at hs
      subst hs
      obtain rfl := calls_goto hc
      split
      · exact ⟨rfl, .inl ⟨rfl, by simp⟩⟩
      · next r hslot =>
          refine ⟨rfl, .inl ⟨rfl, ?_⟩⟩
          rintro hok
          cases hok
          unfold extractSlot at hslot
          grind
  | lfoSend n =>
      simp only [callStep, Option.some.injEq] at hs
      subst hs
      obtain rfl := calls_goto hc
      split <;> exact ⟨rfl, .inl ⟨rfl, by simp⟩⟩
  | lfoWait n =>
      simp only [callStep, Option.some.injEq] at hs
      subst hs
      split at hc
      · obtain rfl := calls_goto hc
        exact ⟨rfl, .inl ⟨rfl, by simp⟩⟩
      · split at hc
        · obtain rfl := calls_goto hc
          exact ⟨rfl, .inl ⟨rfl, by simp⟩⟩
        · obtain rfl := calls_goto hc
          exact ⟨rfl, .inl ⟨rfl, by simp⟩⟩
  | store n a b =>
      simp only [callStep] at hs
      split at hs <;> cases hs
      unfold storeStep at hc ⊢
      split at hc
      · obtain rfl := calls_goto hc
        exact ⟨rfl, .inl ⟨rfl, by simp⟩⟩
      · next hnone =>
          split at hc
          · next t ht =>
              obtain rfl := calls_goto hc
              obtain ⟨-, hfind⟩ := lawful.insert hvalid hnone ht
              refine ⟨rfl, .inr ⟨hnone, ?_, rfl⟩⟩
              have hfound : ops.find t spec.appHandle = some (n.conn a b) := by
                rw [hfind, Function.update_self]
              exact Option.isSome_iff_exists.mpr ⟨_, hfound⟩
          · obtain rfl := calls_goto hc
            exact ⟨rfl, .inl ⟨rfl, by simp⟩⟩
  | fcSend slot n why =>
      cases why with
      | closed => cases hpc
      | abandoned r =>
          have hfail : r ≠ .ok := of_decide_eq_true hpc
          simp only [callStep, Option.some.injEq] at hs
          split at hs <;> subst hs
          · obtain rfl := calls_goto hc
            exact ⟨hpc, .inl ⟨rfl, by simp⟩⟩
          · obtain rfl := calls_goto hc
            exact ⟨rfl, .inl ⟨rfl, by simpa using hfail⟩⟩
  | fcWait why =>
      cases why with
      | closed => cases hpc
      | abandoned r =>
          have hfail : r ≠ .ok := of_decide_eq_true hpc
          simp only [callStep, Option.some.injEq] at hs
          subst hs
          obtain rfl := calls_goto hc
          exact ⟨rfl, .inl ⟨rfl, by simpa using hfail⟩⟩
  | msgSend slot => cases hs
  | msgWait => cases hpc
  | done r => cases hs

/-- A close takes the entry of its handle out of the table in its first step. -/
theorem close_turn (lawful : ops.Lawful maxConns Valid) (hvalid : Valid s.table)
    (hpc : pc.ofClose = true) (hs : callStep ops sdk s id env (.close spec) pc = some s')
    (hc : s'.calls id = some (.close spec, pc')) :
    pc'.ofClose = true ∧ pc' ≠ .enter ∧
      if pc = .enter then ops.find s'.table spec.appHandle = none else s'.table = s.table := by
  cases pc with
  | enter =>
      simp only [callStep] at hs
      split at hs <;> cases hs
      rw [if_pos rfl]
      unfold closeStep at hc ⊢
      split at hc
      · obtain rfl := calls_goto hc
        obtain ⟨-, hfind⟩ := lawful.erase (k := spec.appHandle) hvalid
        exact ⟨rfl, by simp, (congrFun hfind _).trans (Function.update_self ..)⟩
      · next hnone =>
          obtain rfl := calls_goto hc
          exact ⟨rfl, by simp, hnone⟩
  | fcSend slot n why =>
      cases why with
      | abandoned r => cases hpc
      | closed =>
          simp only [callStep, Option.some.injEq] at hs
          rw [if_neg (by simp)]
          split at hs <;> subst hs <;> obtain rfl := calls_goto hc <;> exact ⟨rfl, by simp, rfl⟩
  | fcWait why =>
      cases why with
      | abandoned r => cases hpc
      | closed =>
          simp only [callStep, Option.some.injEq] at hs
          subst hs
          obtain rfl := calls_goto hc
          exact ⟨rfl, by simp, rfl⟩
  | done r => cases hs
  | _ => cases hpc

end Turns

end BpClient.Conn
