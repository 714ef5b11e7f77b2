import BpClient.Conn.Ledger

/-!
What `txrx_open` and `txrx_close` leave behind: a table of at most 16 different
handles, and for every accepted Large Forward Open either an entry of the table
or one Forward_Close.
-/

namespace BpClient.Conn

open BpClient.Lib
open BpClient.Slot (Sdk CallId)

/-- The tables of the three versions are lawful. -/
theorem tableOps_lawful (sdk : Sdk) : ∃ Valid, (tableOps sdk).Lawful maxConns Valid := by
  cases sdk with
  | c => exact ⟨_, Cells.lawful rfl⟩
  | go => exact ⟨_, mapOps_lawful maxConns⟩
  | python => exact ⟨_, mapOps_lawful maxConns⟩

theorem fresh_inv {sdk : Sdk} {Valid : Table sdk → Prop}
    (lawful : (tableOps sdk).Lawful maxConns Valid) : Inv (tableOps sdk) Valid (fresh sdk) where
  valid := lawful.empty.1
  leases := by
    refine fun _ => .initial (fun i hi => ?_) fun p => ?_
    · obtain ⟨a, ha, -⟩ := hi
      exact absurd ha List.not_mem_nil
    · cases p with
      | table h => simp [State.leases, State.custody, fresh, lawful.empty.2]
      | call id => rfl
      | wire n => rfl
  lfos := fun a ha => absurd ha List.not_mem_nil
  msgs := fun id spec req pc hc => by cases hc

theorem inv_of_reachable {sdk : Sdk} {Valid : Table sdk → Prop}
    (lawful : (tableOps sdk).Lawful maxConns Valid) {s : State (Table sdk)}
    (h : (client sdk).Reachable s) : Inv (tableOps sdk) Valid s := by
  refine h.invariant (Inv (tableOps sdk) Valid) ?_ ?_
  · rintro s rfl
    exact fresh_inv lawful
  · exact fun s l s' ih _ hs => ih.step lawful hs

section Account

variable {T : Type} (ops : TableOps T Handle TxrxConn) (s : State T) (a : Request)

/-- The connection that `a` opened stands in the table under the handle. -/
def State.StoredAt (h : Handle) : Prop :=
  ∃ c, (h, c) ∈ ops.entries s.table ∧ c.slot = a.slot ∧ serials a.body = some c.serials

/-- The Forward_Closes of the client to the slot and with the serials of `a`. -/
def State.forwardCloses : List Request :=
  s.requests.filter fun r =>
    decide (r.kind = .fc ∧ r.slot = a.slot ∧ serials r.body = serials a.body)

/-- Those of them that `message_send` has posted. -/
def State.forwardClosesSent : List Request := (s.forwardCloses a).filter fun r => r.posted

/-- The connection is in the table under one handle and has not been closed, or
it has been closed once. -/
def State.Accounted (closes : List Request) : Prop :=
  ((∃! h, s.StoredAt ops a h) ∧ closes = []) ∨
    ((∀ h, ¬ s.StoredAt ops a h) ∧ closes.length = 1)

def State.Settled : Prop :=
  ∀ id op pc, s.calls id = some (op, pc) → (∃ spec req, op = .msg spec req) ∨ ∃ r, pc = .done r

end Account

/-- A list with exactly one element that the filter keeps. -/
theorem length_filter_of_unique {α : Type} {l : List α} {p : α → Bool} {n : Nat} {a : α}
    (hn : l[n]? = some a) (ha : p a = true)
    (hunique : ∀ m b, l[m]? = some b → p b = true → m = n) : (l.filter p).length = 1 := by
  induction l generalizing n with
  | nil => simp at hn
  | cons x l ih =>
      cases n with
      | zero =>
          obtain rfl : x = a := by simpa using hn
          have hrest : l.filter p = [] := by
            refine List.filter_eq_nil_iff.mpr fun b hb hpb => ?_
            obtain ⟨m, hm⟩ := List.mem_iff_getElem?.mp hb
            have := hunique (m + 1) b (by simpa using hm) hpb
            omega
          simp [ha, hrest]
      | succ n =>
          have hx : p x ≠ true := fun hx => by
            have := hunique 0 x rfl hx
            omega
          rw [List.filter_cons_of_neg hx]
          refine ih (by simpa using hn) fun m b hm hb => ?_
          have := hunique (m + 1) b (by simpa using hm) hb
          omega

section Account

variable {T : Type} {ops : TableOps T Handle TxrxConn} {Valid : T → Prop} {s : State T}
  {n : Opening}

theorem serials_request (posted : Bool) : serials (n.request posted).body = some n.serials :=
  serials_buildLfo ..

theorem storedAt_iff (lawful : ops.Lawful maxConns Valid) (hvalid : Valid s.table) {h : Handle} :
    s.StoredAt ops (n.request true) h ↔ s.custody ops (.table h) = some (n.slot, n.serials) := by
  simp only [State.StoredAt, State.custody, Option.map_eq_some_iff, serials_request,
    lawful.find_iff hvalid, TxrxConn.ident, Prod.mk.injEq, Option.some.injEq]
  refine exists_congr fun c => and_congr_right fun _ => and_congr_right fun _ => ?_
  exact eq_comm

theorem closes_iff {r : Request} : r.closes = some (n.slot, n.serials) ↔
    r.kind = .fc ∧ r.slot = (n.request true).slot ∧
      serials r.body = serials (n.request true).body := by
  rw [serials_request]
  simp only [Request.closes, Request.ident]
  split
  · next hkind =>
      simp only [hkind, true_and, Option.map_eq_some_iff, Prod.mk.injEq]
      constructor
      · rintro ⟨m, hm, hslot, rfl⟩
        exact ⟨hslot, hm⟩
      · rintro ⟨hslot, hm⟩
        exact ⟨_, hm, hslot, rfl⟩
  · next hkind => simp [hkind]

theorem wire_iff {m : Nat} : s.custody ops (.wire m) = some (n.slot, n.serials) ↔
    ∃ r, s.requests[m]? = some r ∧ r.closes = some (n.slot, n.serials) :=
  Option.bind_eq_some_iff

theorem Pc.owns_of_ofMsg {pc : Pc} (h : pc.ofMsg = true) : pc.owns = none := by
  cases pc <;> first | rfl | cases h

/-- When no open or close is in progress, nobody but the table and the
Forward_Closes can have a connection. -/
theorem Inv.accounted (lawful : ops.Lawful maxConns Valid) (hinv : Inv ops Valid s)
    (hnodup : s.acceptedSerials.Nodup) (hsettled : s.Settled) {a : Request}
    (ha : a ∈ s.accepted) : s.Accounted ops a (s.forwardCloses a) := by
  obtain ⟨n, rfl⟩ := hinv.lfos a ha
  have hleases := hinv.leases hnodup
  have only : ∀ p q, s.custody ops p = some (n.slot, n.serials) →
      s.custody ops q = some (n.slot, n.serials) → p = q := fun p q => hleases.unique p q _
  have hstored := fun h => storedAt_iff (n := n) lawful hinv.valid (h := h)
  have hwire : ∀ m r, s.requests[m]? = some r → decide (r.kind = .fc ∧
      r.slot = (n.request true).slot ∧ serials r.body = serials (n.request true).body) = true →
      s.custody ops (.wire m) = some (n.slot, n.serials) :=
    fun m r hm hmatch => wire_iff.mpr ⟨r, hm, closes_iff.mpr (of_decide_eq_true hmatch)⟩
  obtain ⟨p, hp⟩ : ∃ p, s.custody ops p = some (n.slot, n.serials) :=
    (hleases.held _).mp ⟨_, ha, n.ident_request true⟩
  cases p with
  | table h =>
      refine .inl ⟨⟨h, (hstored h).mpr hp, fun h' hh' => ?_⟩, ?_⟩
      · exact Place.table.inj (only _ _ ((hstored h').mp hh') hp)
      · refine List.filter_eq_nil_iff.mpr fun r hr hmatch => ?_
        obtain ⟨m, hm⟩ := List.mem_iff_getElem?.mp hr
        cases only _ _ hp (hwire m r hm hmatch)
  | call id =>
      obtain ⟨⟨op, pc⟩, hc, hown⟩ := Option.bind_eq_some_iff.mp hp
      have hnone : pc.owns = none := by
        rcases hsettled id op pc hc with ⟨spec, req, rfl⟩ | ⟨r, rfl⟩
        · exact Pc.owns_of_ofMsg (hinv.msgs id spec req pc hc)
        · rfl
      rw [hnone] at hown
      cases hown
  | wire m =>
      obtain ⟨r, hr, hcloses⟩ := wire_iff.mp hp
      refine .inr ⟨fun h hh => ?_, ?_⟩
      · cases only _ _ ((hstored h).mp hh) hp
      · refine length_filter_of_unique hr (decide_eq_true (closes_iff.mp hcloses)) ?_
        exact fun k r' hk hmatch => Place.wire.inj (only _ _ (hwire k r' hk hmatch) hp)

end Account

/-- The steps of an open that has not returned successfully have left the table
as it was. -/
theorem open_leaves_table {sdk : Sdk} {tr : List (State (Table sdk) × Label)}
    {s : State (Table sdk)} (htr : (client sdk).Trace tr s) :
    ∀ p ∈ tr, ∀ id env s', p.2 = .run id env → (client sdk).step p.1 p.2 = some s' →
      ∃ op pc, s.calls id = some (op, pc) ∧
        ∀ spec, op = .open spec → s'.table = p.1.table ∨ pc = .done .ok := by
  refine System.Trace.history (r := fun p s => ∀ id env s', p.2 = .run id env →
    (client sdk).step p.1 p.2 = some s' → ∃ op pc, s.calls id = some (op, pc) ∧
      ∀ spec, op = .open spec → s'.table = p.1.table ∨ pc = .done .ok) htr ?_ ?_
  · rintro s l s' hs id env t rfl ht
    obtain rfl : s' = t := Option.some.inj (hs.symm.trans ht)
    obtain ⟨⟨op, pc⟩, hc, hs⟩ := Option.bind_eq_some_iff.mp hs
    obtain ⟨pc', hturn⟩ := callStep_turn hs
    exact ⟨op, pc', by rw [hturn.calls, Function.update_self], hturn.table⟩
  · intro p s l s' h hs id env t hp ht
    obtain ⟨op, pc, hc, htable⟩ := h id env t hp ht
    cases l with
    | start id' op' =>
        simp only [client, Conn.step] at hs
        split at hs <;> cases hs
        next hnone =>
        have hid : id ≠ id' := by
          rintro rfl
          rw [hnone] at hc
          cases hc
        exact ⟨op, pc, by simpa [State.goto, hid] using hc, htable⟩
    | run id' env' =>
        obtain ⟨⟨op', pc'⟩, hc', hs⟩ := Option.bind_eq_some_iff.mp hs
        obtain ⟨pc'', hturn⟩ := callStep_turn hs
        by_cases hid : id = id'
        · subst id'
          obtain ⟨rfl, rfl⟩ := Prod.mk.inj (Option.some.inj (hc.symm.trans hc'))
          refine ⟨op, pc'', by rw [hturn.calls, Function.update_self], fun spec hop => ?_⟩
          rcases htable spec hop with hsame | rfl
          · exact .inl hsame
          · cases hs
        · exact ⟨op, pc, by rw [hturn.calls, Function.update_of_ne hid]; exact hc, htable⟩

/-- After every run whose accepted connections have distinct serials: the table
has at most 16 entries, with different handles; the opens that have failed have
left it as it was; and when no open or close is in progress each accepted
connection is in the table under one handle, or it has been handed to
`message_send` once to be closed. The Forward_Close goes out unless
`message_send` refuses it. -/
theorem connections_accounted {sdk : Sdk} {tr : List (State (Table sdk) × Label)}
    {s : State (Table sdk)} (htr : (client sdk).Trace tr s)
    (hserials : s.acceptedSerials.Nodup) :
    ((tableOps sdk).entries s.table).length ≤ maxConns ∧
      (((tableOps sdk).entries s.table).map Prod.fst).Nodup ∧
      (∀ id spec r, s.calls id = some (.open spec, .done r) → r ≠ .ok →
        ∀ p ∈ tr, ∀ env s', p.2 = .run id env → (client sdk).step p.1 p.2 = some s' →
          s'.table = p.1.table) ∧
      (s.Settled → ∀ a ∈ s.accepted,
        s.Accounted (tableOps sdk) a (s.forwardCloses a) ∧
        ((∀ r ∈ s.forwardCloses a, r.posted = true) →
          s.Accounted (tableOps sdk) a (s.forwardClosesSent a))) := by
  obtain ⟨Valid, lawful⟩ := tableOps_lawful sdk
  have hinv := inv_of_reachable lawful htr.reachable
  refine ⟨lawful.length_le hinv.valid, lawful.nodup hinv.valid, ?_, fun hsettled a ha => ?_⟩
  · intro id spec r hc hfail p hp env s' hrun hs
    obtain ⟨op, pc, hc', htable⟩ := open_leaves_table htr p hp id env s' hrun hs
    obtain ⟨rfl, rfl⟩ := Prod.mk.inj (Option.some.inj (hc.symm.trans hc'))
    rcases htable spec rfl with hsame | hok
    · exact hsame
    · exact absurd (Pc.done.inj hok) hfail
  · have haccounted := hinv.accounted lawful hserials hsettled ha
    refine ⟨haccounted, fun hposted => ?_⟩
    have hsent : s.forwardClosesSent a = s.forwardCloses a := List.filter_eq_self.mpr hposted
    rw [hsent]
    exact haccounted

def Label.id : Label → CallId
  | .start id _ | .run id _ => id

def settledCall : Option (Op × Pc) → Bool
  | none | some (.msg _ _, _) | some (_, .done _) => true
  | _ => false

/-- To see that nothing is in progress it is enough to look at the calls that a run has. -/
theorem settled_of_calls {sdk : Sdk} {k : Nat} {s : State (Table sdk)}
    (h : (client sdk).Reaches (fun _ l => l.id < k) s)
    (hcalls : ∀ id ∈ List.range k, settledCall (s.calls id) = true) : s.Settled := by
  have hnone : ∀ id, k ≤ id → s.calls id = none := by
    refine h.invariant (fun s => ∀ id, k ≤ id → s.calls id = none) ?_ ?_
    · rintro s rfl id -
      rfl
    · intro s l s' ih hl hs id hid
      have hne : id ≠ l.id := (lt_of_lt_of_le hl hid).ne'
      cases l with
      | start id' op =>
          simp only [client, Conn.step] at hs
          split at hs <;> cases hs
          exact (Function.update_of_ne hne _ _).trans (ih id hid)
      | run id' env =>
          obtain ⟨⟨op, pc⟩, -, hs⟩ := Option.bind_eq_some_iff.mp hs
          obtain ⟨pc', hturn⟩ := callStep_turn hs
          rw [hturn.calls]
          exact (Function.update_of_ne hne _ _).trans (ih id hid)
  intro id op pc hc
  by_cases hid : id < k
  · have hcall := hcalls id (List.mem_range.mpr hid)
    rw [hc] at hcall
    cases op with
    | msg spec req => exact .inl ⟨spec, req, rfl⟩
    | «open» spec | close spec =>
        cases pc with
        | done r => exact .inr ⟨r, rfl⟩
        | _ => cases hcall
  · rw [hnone id (Nat.le_of_not_lt hid)] at hc
    cases hc

def acceptReply : List UInt8 := [0xDB, 0, 0, 0, 1, 0, 0, 0, 2, 0, 0, 0]

def backplane (h : Handle) : Spec := ⟨h, [0x01, 3], 2, 0⟩

def openLabels (id : CallId) (serial : UInt16) : List Label :=
  [.start id (.open (backplane 1)), .run id { connSerial := serial }, .run id {},
    .run id { reply := some acceptReply }, .run id {}]

/-- The handle is opened twice, and the second connection is closed again. -/
theorem connections_accounted_duplicate :
    ∃ (tr : List (State (Table .c) × Label)) (s : State (Table .c)), (client .c).Trace tr s ∧
      s.calls 1 = some (.open (backplane 1), .done .generic) ∧ s.accepted.length = 2 ∧
      ∀ a ∈ s.accepted, s.Accounted (tableOps .c) a (s.forwardCloses a) := by
  obtain ⟨tr, s, htr, hids, hp⟩ :=
    (client .c).exists_trace_of_run (fun _ l => l.id < 2) rfl
      (openLabels 0 7 ++ openLabels 1 8 ++ [.run 1 {}, .run 1 {}])
      (fun s => decide (s.calls 1 = some (.open (backplane 1), .done .generic) ∧
        s.accepted.length = 2 ∧ s.acceptedSerials.Nodup ∧
        ∀ id ∈ List.range 2, settledCall (s.calls id) = true)) (by decide +kernel)
  obtain ⟨hcall, hlength, hserials, hcalls⟩ := of_decide_eq_true hp
  have hsettled := settled_of_calls (System.reaches_iff_trace.mpr ⟨tr, htr, hids⟩) hcalls
  obtain ⟨-, -, -, haccounted⟩ := connections_accounted htr hserials
  exact ⟨tr, s, htr, hcall, hlength, fun a ha => (haccounted hsettled a ha).1⟩

/-- `message_send` fails before it has posted the Forward_Close of a
`txrx_close`: the connection is in the table no more, and nothing has gone out
to close it. -/
theorem not_accounted_when_close_refused :
    ∃ s, (client .c).Reachable s ∧ s.acceptedSerials.Nodup ∧ s.Settled ∧
      ∃ a ∈ s.accepted, s.forwardClosesSent a = [] ∧
        ¬ s.Accounted (tableOps .c) a (s.forwardClosesSent a) := by
  obtain ⟨s, hs, hp⟩ :=
    (client .c).exists_reaches_of_run (fun _ l => l.id < 2) rfl
      (openLabels 0 7 ++ [.start 1 (.close (backplane 1)), .run 1 {}, .run 1 { posted := false }])
      (fun s => decide (s.acceptedSerials.Nodup ∧ (tableOps .c).entries s.table = [] ∧
        (∃ a ∈ s.accepted, s.forwardClosesSent a = []) ∧
        ∀ id ∈ List.range 2, settledCall (s.calls id) = true)) (by decide +kernel)
  obtain ⟨hserials, hempty, ⟨a, ha, hsent⟩, hcalls⟩ := of_decide_eq_true hp
  refine ⟨s, hs.reachable, hserials, settled_of_calls hs hcalls, a, ha, hsent, ?_⟩
  rintro (⟨⟨h, ⟨c, hc, -⟩, -⟩, -⟩ | ⟨-, hone⟩)
  · rw [hempty] at hc
    cases hc
  · rw [hsent] at hone
    cases hone

end BpClient.Conn
