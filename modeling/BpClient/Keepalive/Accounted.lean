import BpClient.Keepalive.Model

/-!
The connections of a pool that the PLC still has: on record in the TxRx table,
or sent a Forward_Close. The keepalive loop forgets the serials of a connection
whose ping has failed, for whatever reason, so this needs a PLC that has dropped
it by then.
-/

namespace BpClient.Keepalive

open BpClient.Lib
open BpClient.Slot (Sdk)
open BpClient.CPool (maxSize poolAppHandle_inj)
open BpClient.Conn (Handle Serials TxrxConn tableOps)
open BpClient.Ipc (ConnTable table_lawful)
open BpClient.SdkPool (Pass)

section Accounted

variable {sdk : Sdk} (spec : Spec) (s : State sdk)

/-- The connection is in the TxRx table under a handle of the pool. -/
def Recorded (serials : Serials) : Prop :=
  ∃ i < spec.size, ∃ c, s.table.find (spec.handle i) = some c ∧ c.serials = serials

/-- Every connection opened for the pool that the PLC has not dropped is
recorded, or has been sent a Forward_Close. -/
def Accounted : Prop := ∀ c ∈ s.plc, c.closeSent = true ∨ Recorded spec s c.serials

/-- A PLC that accepts gets its reply through, and if the connection cannot be
recorded its Forward_Close is posted. -/
def Heard (i : Nat) (env : Env) : LfoReply → Prop
  | .refused => True
  | .lost => False
  | .accepted otConnId toConnId =>
      (tryStore s.table (spec.handle i) ((spec.opening env).conn otConnId toConnId)).isNone = true →
        env.delivery ≠ .unsent

instance (i : Nat) (env : Env) : (reply : LfoReply) → Decidable (Heard spec s i env reply)
  | .refused => inferInstanceAs (Decidable True)
  | .lost => inferInstanceAs (Decidable False)
  | .accepted _ _ => inferInstanceAs (Decidable (_ → _ ≠ _))

/-- What a `txrx_open` must meet, if its serials are new to the PLC. -/
def Answered (i : Nat) (env : Env) : Prop :=
  s.plc.holds (spec.opening env).serials = false → Heard spec s i env env.lfo

instance (i : Nat) (env : Env) : Decidable (Answered spec s i env) :=
  inferInstanceAs (Decidable (_ → Heard spec s i env env.lfo))

/-- The Forward_Close of a connection that the PLC has is posted. -/
def Posted (i : Nat) (env : Env) : Prop :=
  ∀ c ∈ s.table.find (spec.handle i), s.plc.live c.serials = true → env.delivery ≠ .unsent

instance (i : Nat) (env : Env) : Decidable (Posted spec s i env) :=
  inferInstanceAs (Decidable (∀ c ∈ s.table.find (spec.handle i), _ → _ ≠ _))

/-- The PLC does not have the connection any more. -/
def Dropped (i : Nat) : Prop :=
  ∀ c ∈ s.table.find (spec.handle i), s.plc.live c.serials = false

instance (i : Nat) : Decidable (Dropped spec s i) :=
  inferInstanceAs (Decidable (∀ c ∈ s.table.find (spec.handle i), _ = _))

def SafeAt (env : Env) : Pc → Prop
  | .connect i | .reopening i => Answered spec s i env
  | .rollback (i :: _) => Posted spec s i env
  | .closing i => i < spec.size → Posted spec s i env
  | .forceClose i => Dropped spec s i
  | _ => True

instance (env : Env) : (pc : Pc) → Decidable (SafeAt spec s env pc)
  | .connect i | .reopening i => inferInstanceAs (Decidable (Answered spec s i env))
  | .rollback (i :: _) => inferInstanceAs (Decidable (Posted spec s i env))
  | .closing i => inferInstanceAs (Decidable (_ → Posted spec s i env))
  | .forceClose i => inferInstanceAs (Decidable (Dropped spec s i))
  | .rollback [] | .failed | .wait | .scan _ _ | .pinging _ | .pinged _ _ | .reopened _ _ | .closed =>
      inferInstanceAs (Decidable True)

/-- What the steps of a run must meet: an entry is force-closed only when the
PLC has dropped its connection. -/
def Safe : Label → Prop
  | .run env => SafeAt spec s env s.pc
  | _ => True

instance : (l : Label) → Decidable (Safe spec s l)
  | .run env => inferInstanceAs (Decidable (SafeAt spec s env s.pc))
  | .close | .drop _ | .otherOpen _ _ | .otherClose _ => inferInstanceAs (Decidable True)

end Accounted

section Plc

variable {plc : Plc} {serials : Serials} {d : Delivery} {c : PlcConn}

theorem mem_drop : c ∈ plc.drop serials ↔ c ∈ plc ∧ c.serials ≠ serials := by
  simp [Plc.drop]

theorem live_of_mem (hc : c ∈ plc) (hsent : c.closeSent = false) : plc.live c.serials = true := by
  simp only [Plc.live, List.any_eq_true]
  exact ⟨c, hc, by simp [hsent]⟩

/-- What the PLC has of other connections, or has been sent a Forward_Close for,
when the Forward_Close for a live one is posted. -/
theorem mem_forwardClose (hposted : plc.live serials = true → d ≠ .unsent)
    (hc : c ∈ plc.forwardClose serials d) :
    c.closeSent = true ∨ c ∈ plc ∧ c.serials ≠ serials := by
  cases d with
  | unsent =>
      by_cases hsent : c.closeSent = true
      · exact .inl hsent
      · rw [Bool.not_eq_true] at hsent
        refine .inr ⟨hc, fun heq => ?_⟩
        exact hposted (heq ▸ live_of_mem hc hsent) rfl
  | lost =>
      obtain ⟨c', hc', heq⟩ := List.mem_map.mp hc
      by_cases hs : c'.serials = serials
      · rw [if_pos hs] at heq
        exact .inl (by rw [← heq])
      · rw [if_neg hs] at heq
        exact .inr ⟨heq ▸ hc', heq ▸ hs⟩
  | delivered => exact .inr (mem_drop.mp hc)

end Plc

section Table

variable {sdk : Sdk} {t t' : ConnTable sdk} {h : Handle} {c : TxrxConn}

/-- A handle that is recorded was not there before. -/
theorem tryStore_some (hstore : tryStore t h c = some t') :
    t.find h = none ∧ ∀ h', t'.find h' = if h' = h then some c else t.find h' := by
  unfold tryStore at hstore
  split at hstore
  · next u hfind hins =>
      refine ⟨hfind, fun h' => ?_⟩
      have hsome := congrFun ((table_lawful sdk).insert t.valid hfind hins).2 h'
      rw [Function.update_apply] at hsome
      cases hstore
      exact hsome
  · cases hstore

theorem find_store_ne {h' : Handle} (hne : h' ≠ h) : (t.store h c).find h' = t.find h' := by
  unfold ConnTable.store
  split
  · next u hfind hins =>
      have hsome := congrFun ((table_lawful sdk).insert t.valid hfind hins).2 h'
      rw [Function.update_of_ne hne] at hsome
      exact hsome
  · rfl

theorem find_bump_map (h' : Handle) : (t.bump h).find h' =
    if h' = h then (t.find h').map (TxrxConn.bump sdk) else t.find h' := by
  have hsome := congrFun ((table_lawful sdk).modify (k := h) (f := TxrxConn.bump sdk) t.valid).2 h'
  rw [Function.update_apply] at hsome
  refine Eq.trans hsome ?_
  split
  · next heq =>
      subst heq
      rfl
  · rfl

end Table

section Steps

variable {sdk : Sdk} {spec : Spec} {s s' : State sdk} {i : Nat} {env : Env}

theorem Spec.handle_inj {j : Nat} (hi : i < spec.size) (hj : j < spec.size)
    (h : spec.handle i = spec.handle j) : i = j :=
  poolAppHandle_inj (hi.trans_le spec.size_le) (hj.trans_le spec.size_le) h

/-- Other connections stay on record when one is erased. -/
theorem Recorded.erase {serials : Serials} (hrec : Recorded spec s serials) {c : TxrxConn}
    (hfind : s.table.find (spec.handle i) = some c) (hne : serials ≠ c.serials) {pc : Pc}
    {plc : Plc} : Recorded spec { s with table := s.table.erase (spec.handle i), plc, pc } serials := by
  obtain ⟨j, hj, c', hc', hserials⟩ := hrec
  refine ⟨j, hj, c', ?_, hserials⟩
  have hother : spec.handle j ≠ spec.handle i := by
    intro heq
    rw [heq, hfind, Option.some_inj] at hc'
    exact hne (by rw [← hserials, hc'])
  simp only [ConnTable.find_erase, if_neg hother, hc']

/-- A step that leaves the connections of the pool on record. -/
theorem Accounted.of_table (hacc : Accounted spec s) (hplc : ∀ c ∈ s'.plc, c ∈ s.plc)
    (htable : ∀ i < spec.size, ∀ c, s.table.find (spec.handle i) = some c →
      ∃ c', s'.table.find (spec.handle i) = some c' ∧ c'.serials = c.serials) :
    Accounted spec s' := by
  intro c hc
  rcases hacc c (hplc c hc) with hsent | ⟨i, hi, conn, hconn, hserials⟩
  · exact .inl hsent
  · obtain ⟨conn', hconn', hsame⟩ := htable i hi conn hconn
    exact .inr ⟨i, hi, conn', hconn', hsame.trans hserials⟩

theorem Accounted.of_eq (hacc : Accounted spec s) (htable : s'.table = s.table)
    (hplc : s'.plc = s.plc) : Accounted spec s' := by
  apply hacc.of_table
  · simp [hplc]
  · intro i _ c hc
    exact ⟨c, by rw [htable, hc], rfl⟩

theorem Accounted.txrxClose (hacc : Accounted spec s) (hposted : Posted spec s i env) :
    Accounted spec (txrxClose spec s i env) := by
  unfold BpClient.Keepalive.txrxClose
  split
  · exact hacc
  · next c hfind =>
      intro conn hconn
      rcases mem_forwardClose (hposted c hfind) hconn with hsent | ⟨hmem, hne⟩
      · exact .inl hsent
      · exact (hacc conn hmem).imp_right fun hrec => hrec.erase hfind hne

theorem Accounted.forceCloseLocal (hacc : Accounted spec s) (hdropped : Dropped spec s i) :
    Accounted spec (forceCloseLocal spec s i) := by
  intro conn hconn
  have hmem : conn ∈ s.plc := hconn
  cases hfind : s.table.find (spec.handle i) with
  | none =>
      refine (hacc conn hmem).imp_right ?_
      rintro ⟨j, hj, c, hc, hserials⟩
      refine ⟨j, hj, c, ?_, hserials⟩
      have hother : spec.handle j ≠ spec.handle i := by
        intro heq
        rw [heq, hfind] at hc
        cases hc
      simp only [BpClient.Keepalive.forceCloseLocal, ConnTable.find_erase, if_neg hother, hc]
  | some c =>
      by_cases hsent : conn.closeSent = true
      · exact .inl hsent
      · rw [Bool.not_eq_true] at hsent
        have hne : conn.serials ≠ c.serials := by
          intro heq
          have hlive := live_of_mem hmem hsent
          rw [heq, hdropped c hfind] at hlive
          cases hlive
        exact (hacc conn hmem).imp_right fun hrec => hrec.erase hfind hne

/-- What is recorded stays so when another handle of the pool is. -/
theorem Recorded.tryStore {serials : Serials} (hrec : Recorded spec s serials) {h : Handle}
    {c : TxrxConn} {t : ConnTable sdk} (hstore : tryStore s.table h c = some t) {plc : Plc} :
    Recorded spec { s with table := t, plc } serials := by
  obtain ⟨j, hj, c', hc', hserials⟩ := hrec
  obtain ⟨hnone, hfind⟩ := tryStore_some hstore
  refine ⟨j, hj, c', ?_, hserials⟩
  have hother : spec.handle j ≠ h := by
    rintro rfl
    rw [hnone] at hc'
    cases hc'
  rw [hfind, if_neg hother, hc']

/-- A `txrx_open` that is answered records its connection, or sends the Forward_Close for
it. -/
theorem Accounted.txrxOpen (hacc : Accounted spec s) (hi : i < spec.size)
    (hanswered : Answered spec s i env) : Accounted spec (txrxOpen spec s i env).1 := by
  unfold BpClient.Keepalive.txrxOpen
  cases hholds : s.plc.holds (spec.opening env).serials with
  | true => simpa [hholds] using hacc
  | false =>
      have hreply := hanswered hholds
      cases hlfo : env.lfo with
      | refused => simpa [hholds, hlfo] using hacc
      | lost => simp [hlfo, Heard] at hreply
      | accepted otConnId toConnId =>
          simp only [hlfo, Heard] at hreply
          cases hstore : BpClient.Keepalive.tryStore s.table (spec.handle i)
              ((spec.opening env).conn otConnId toConnId) with
          | some t =>
              simp only [hholds, hstore]
              intro conn hconn
              rcases List.mem_cons.mp hconn with rfl | hmem
              · refine .inr ⟨i, hi, (spec.opening env).conn otConnId toConnId, ?_, rfl⟩
                exact ((tryStore_some hstore).2 _).trans (if_pos rfl)
              · exact (hacc conn hmem).imp_right fun hrec => hrec.tryStore hstore
          | none =>
              simp only [hholds, hstore]
              intro conn hconn
              rcases mem_forwardClose (fun _ => hreply (by rw [hstore]; rfl)) hconn with hsent | ⟨hmem, hne⟩
              · exact .inl hsent
              · rcases List.mem_cons.mp hmem with rfl | hmem
                · exact absurd rfl hne
                · exact hacc conn hmem

theorem txrxOpen_held {h : Handle}
    (hheld : ((txrxOpen spec s i env).1.table.find h).isSome = true) :
    (s.table.find h).isSome = true ∨ h = spec.handle i ∧ (txrxOpen spec s i env).2 = true := by
  unfold BpClient.Keepalive.txrxOpen at hheld ⊢
  cases hholds : s.plc.holds (spec.opening env).serials with
  | true => exact .inl (by simpa [hholds] using hheld)
  | false =>
      cases hlfo : env.lfo with
      | refused => exact .inl (by simpa [hholds, hlfo] using hheld)
      | lost => exact .inl (by simpa [hholds, hlfo] using hheld)
      | accepted otConnId toConnId =>
          cases hstore : tryStore s.table (spec.handle i)
              ((spec.opening env).conn otConnId toConnId) with
          | none => exact .inl (by simpa [hholds, hlfo, hstore] using hheld)
          | some t =>
              by_cases heq : h = spec.handle i
              · exact .inr ⟨heq, by simp [hholds, hstore]⟩
              · have hfind := ((tryStore_some hstore).2 h).trans (if_neg heq)
                exact .inl (by simpa [hholds, hlfo, hstore, hfind] using hheld)

theorem txrxClose_held {h : Handle} (hheld : ((txrxClose spec s i env).table.find h).isSome = true) :
    (s.table.find h).isSome = true ∧ h ≠ spec.handle i := by
  unfold BpClient.Keepalive.txrxClose at hheld
  split at hheld
  · next hnone =>
      refine ⟨hheld, fun heq => ?_⟩
      simp [heq, hnone] at hheld
  · rw [ConnTable.find_erase] at hheld
    split at hheld
    · cases hheld
    · next hne => exact ⟨hheld, hne⟩

end Steps

/-- The entries that a pool may have on record. -/
def Pc.MayHold : Pc → Nat → Prop
  | .connect i, j => j < i
  | .rollback rest, j => j ∈ rest
  | .closing i, j => i ≤ j
  | .failed, _ | .closed, _ => False
  | _, _ => True

def Pc.InRange (size : Nat) : Pc → Prop
  | .connect i | .forceClose i | .reopening i => i < size
  | _ => True

structure Inv {sdk : Sdk} (spec : Spec) (s : State sdk) : Prop where
  accounted : Accounted spec s
  inRange : s.pc.InRange spec.size
  held : ∀ i < spec.size, (s.table.find (spec.handle i)).isSome = true → s.pc.MayHold i

section Inv

variable {sdk : Sdk} {spec : Spec} {s s' : State sdk} {i : Nat} {env : Env}

/-- A step of the keepalive loop, which knows all entries. -/
theorem Inv.of_loop (hacc : Accounted spec s) (hrange : s.pc.InRange spec.size)
    (hloop : ∀ i, s.pc.MayHold i) : Inv spec s :=
  ⟨hacc, hrange, fun i _ _ => hloop i⟩

theorem Inv.giveBack (hacc : Accounted spec s) {pc : Pc} (hrange : pc.InRange spec.size)
    (hloop : ∀ i, pc.MayHold i) (hgive : giveBack s env pc = some s') : Inv spec s' := by
  unfold BpClient.Keepalive.giveBack at hgive
  split at hgive
  · split at hgive
    · cases hgive
      exact .of_loop (hacc.of_eq rfl rfl) trivial fun i => Nat.zero_le i
    · cases hgive
  · cases hgive
    exact .of_loop (hacc.of_eq rfl rfl) hrange hloop

/-- The open of an entry keeps the pool accounted for. -/
theorem Inv.connect (hinv : Inv spec s) (hpc : s.pc = .connect i)
    (hanswered : Answered spec s i env) (hrun : runStep spec s env = some s') : Inv spec s' := by
  obtain ⟨hacc, hrange, hheld⟩ := hinv
  simp only [hpc] at hrange hheld
  simp only [runStep, hpc, Option.some_inj] at hrun
  have hopen := hacc.txrxOpen hrange hanswered
  have hbefore : ∀ j < spec.size, ((txrxOpen spec s i env).1.table.find (spec.handle j)).isSome = true →
      j < i ∨ j = i ∧ (txrxOpen spec s i env).2 = true := by
    intro j hj hfind
    refine (txrxOpen_held hfind).imp (hheld j hj) ?_
    rintro ⟨heq, hok⟩
    exact ⟨Spec.handle_inj hj hrange heq, hok⟩
  cases hok : (txrxOpen spec s i env).2 with
  | false =>
      rw [hok] at hrun
      subst hrun
      refine ⟨hopen.of_eq rfl rfl, trivial, fun j hj hfind => ?_⟩
      apply List.mem_range.mpr
      exact (hbefore j hj hfind).resolve_right (by simp [hok])
  | true =>
      rw [hok] at hrun
      subst hrun
      refine ⟨hopen.of_eq rfl rfl, ?_, fun j hj hfind => ?_⟩
      · by_cases hlast : i + 1 < spec.size
        · simp [goto, hlast, Pc.InRange]
        · simp [goto, hlast, Pc.InRange]
      · by_cases hlast : i + 1 < spec.size
        · have hlt : j < i + 1 := by
            rcases hbefore j hj hfind with hlt | ⟨rfl, -⟩
            · exact hlt.trans (Nat.lt_succ_self i)
            · exact Nat.lt_succ_self j
          simpa [goto, hlast, Pc.MayHold] using hlt
        · simp [goto, hlast, Pc.MayHold]

/-- So does the rollback of the entries opened before. -/
theorem Inv.rollback (hinv : Inv spec s) {rest : List Nat} (hpc : s.pc = .rollback rest)
    (hposted : ∀ i ∈ rest.head?, Posted spec s i env) (hrun : runStep spec s env = some s') :
    Inv spec s' := by
  obtain ⟨hacc, -, hheld⟩ := hinv
  simp only [hpc] at hheld
  cases rest with
  | nil =>
      simp only [runStep, hpc, Option.some_inj] at hrun
      subst hrun
      exact ⟨hacc.of_eq rfl rfl, trivial, fun j hj hfind => List.not_mem_nil (hheld j hj hfind)⟩
  | cons i rest =>
      simp only [runStep, hpc, Option.some_inj] at hrun
      subst hrun
      have hclose := hacc.txrxClose (hposted i rfl)
      refine ⟨hclose.of_eq rfl rfl, trivial, fun j hj hfind => ?_⟩
      obtain ⟨hbefore, hne⟩ := txrxClose_held hfind
      rcases List.mem_cons.mp (hheld j hj hbefore) with rfl | hrest
      · exact absurd rfl hne
      · exact hrest

/-- So does the close of an entry. -/
theorem Inv.closing (hinv : Inv spec s) (hpc : s.pc = .closing i)
    (hposted : i < spec.size → Posted spec s i env) (hrun : runStep spec s env = some s') :
    Inv spec s' := by
  obtain ⟨hacc, -, hheld⟩ := hinv
  simp only [hpc] at hheld
  simp only [runStep, hpc, Option.some_inj] at hrun
  subst hrun
  by_cases hi : i < spec.size
  · rw [if_pos hi]
    have hclose := hacc.txrxClose (hposted hi)
    refine ⟨hclose.of_eq rfl rfl, trivial, fun j hj hfind => ?_⟩
    obtain ⟨hbefore, hne⟩ := txrxClose_held hfind
    have hle : i ≤ j := hheld j hj hbefore
    have hother : j ≠ i := fun heq => hne (by rw [heq])
    change i + 1 ≤ j
    omega
  · rw [if_neg hi]
    refine ⟨hacc.of_eq rfl rfl, trivial, fun j hj hfind => ?_⟩
    have hle : i ≤ j := hheld j hj hfind
    exact hi (hle.trans_lt hj)

/-- A ping counts the request in the connection, and that is all. -/
theorem Inv.pinging (hacc : Accounted spec s) (hpc : s.pc = .pinging i)
    (hrun : runStep spec s env = some s') : Inv spec s' := by
  simp only [runStep, hpc] at hrun
  split at hrun
  · cases hrun
    exact .of_loop (hacc.of_eq rfl rfl) trivial fun _ => trivial
  · cases hrun
    refine .of_loop (hacc.of_table (fun _ hc => hc) fun j _ c hc => ?_) trivial fun _ => trivial
    simp only [goto, find_bump_map]
    split
    · exact ⟨c.bump sdk, by rw [hc]; rfl, rfl⟩
    · exact ⟨c, hc, rfl⟩

theorem Inv.scan (hacc : Accounted spec s) {pass : Pass} (hpc : s.pc = .scan pass i)
    (hrun : runStep spec s env = some s') : Inv spec s' := by
  simp only [runStep, hpc] at hrun
  split at hrun
  · next hi =>
      split at hrun
      · cases hrun
        exact .of_loop (hacc.of_eq rfl rfl) trivial fun j => Nat.zero_le j
      · split at hrun
        · cases hrun
          exact .of_loop (hacc.of_eq rfl rfl) trivial fun _ => trivial
        · split at hrun
          · cases hrun
            cases pass with
            | ping => exact .of_loop (hacc.of_eq rfl rfl) trivial fun _ => trivial
            | reopen => exact .of_loop (hacc.of_eq rfl rfl) hi fun _ => trivial
          · apply Inv.giveBack hacc _ _ hrun
            · trivial
            · exact fun _ => trivial
  · cases hrun
    cases pass with
    | ping => exact .of_loop (hacc.of_eq rfl rfl) trivial fun _ => trivial
    | reopen => exact .of_loop (hacc.of_eq rfl rfl) trivial fun _ => trivial

/-- A step of the pool keeps the invariant, if what it meets is safe. -/
theorem Inv.run (hinv : Inv spec s) (hsafe : Safe spec s (.run env))
    (hrun : runStep spec s env = some s') : Inv spec s' := by
  have hacc := hinv.accounted
  have hrange := hinv.inRange
  cases hpc : s.pc with
  | connect i =>
      rw [Safe, hpc] at hsafe
      exact hinv.connect hpc hsafe hrun
  | rollback rest =>
      apply hinv.rollback hpc _ hrun
      intro i hi
      obtain ⟨rest', rfl⟩ := List.head?_eq_some_iff.mp hi
      rw [Safe, hpc] at hsafe
      exact hsafe
  | closing i =>
      rw [Safe, hpc] at hsafe
      exact hinv.closing hpc hsafe hrun
  | wait =>
      simp only [runStep, hpc] at hrun
      have hclose : ∀ {t}, some (goto s (.closing 0)) = some t → Inv spec t := by
        rintro t ⟨⟩
        exact .of_loop (hacc.of_eq rfl rfl) trivial fun i => Nat.zero_le i
      split at hrun
      · split at hrun
        · exact hclose hrun
        · cases hrun
      · split at hrun
        · exact hclose hrun
        · cases hrun
          exact .of_loop (hacc.of_eq rfl rfl) trivial fun _ => trivial
  | scan pass i => exact .scan hacc hpc hrun
  | pinging i => exact .pinging hacc hpc hrun
  | pinged i ok =>
      simp only [runStep, hpc] at hrun
      apply Inv.giveBack _ _ _ hrun
      · cases ok
        · exact hacc.of_eq rfl rfl
        · exact hacc
      · trivial
      · exact fun _ => trivial
  | forceClose i =>
      rw [Safe, hpc] at hsafe
      rw [hpc] at hrange
      simp only [runStep, hpc, Option.some_inj] at hrun
      subst hrun
      have hclose := hacc.forceCloseLocal hsafe
      exact .of_loop (hclose.of_eq rfl rfl) hrange fun _ => trivial
  | reopening i =>
      rw [Safe, hpc] at hsafe
      rw [hpc] at hrange
      simp only [runStep, hpc, Option.some_inj] at hrun
      subst hrun
      have hopen := hacc.txrxOpen hrange hsafe
      exact .of_loop (hopen.of_eq rfl rfl) trivial fun _ => trivial
  | reopened i ok =>
      simp only [runStep, hpc] at hrun
      apply Inv.giveBack _ _ _ hrun
      · cases ok
        · exact hacc
        · exact hacc.of_eq rfl rfl
      · trivial
      · exact fun _ => trivial
  | failed | closed => simp [runStep, hpc] at hrun

theorem Inv.step {l : Label} (hinv : Inv spec s) (hsafe : Safe spec s l)
    (hstep : step spec s l = some s') : Inv spec s' := by
  have hacc := hinv.accounted
  have hother : ∀ {h : Handle}, (¬∃ i < spec.size, h = spec.handle i) → ∀ i < spec.size,
      spec.handle i ≠ h := fun hnone i hi heq => hnone ⟨i, hi, heq.symm⟩
  cases l with
  | run env => exact hinv.run hsafe hstep
  | close =>
      simp only [BpClient.Keepalive.step] at hstep
      split at hstep
      · cases hstep
        exact ⟨hacc.of_eq rfl rfl, hinv.inRange, hinv.held⟩
      · cases hstep
  | drop serials =>
      cases hstep
      refine ⟨?_, hinv.inRange, hinv.held⟩
      exact hacc.of_table (fun c hc => (mem_drop.mp hc).1) fun i _ c hc => ⟨c, hc, rfl⟩
  | otherOpen h c =>
      simp only [BpClient.Keepalive.step] at hstep
      split at hstep
      · cases hstep
      · next hnone =>
          cases hstep
          have hfind := fun i hi => find_store_ne (t := s.table) (c := c) (hother hnone i hi)
          refine ⟨?_, hinv.inRange, fun i hi hsome => hinv.held i hi (hfind i hi ▸ hsome)⟩
          exact hacc.of_table (fun _ hc => hc) fun i hi c hc => ⟨c, (hfind i hi).trans hc, rfl⟩
  | otherClose h =>
      simp only [BpClient.Keepalive.step] at hstep
      split at hstep
      · cases hstep
      · next hnone =>
          cases hstep
          have hfind : ∀ i < spec.size, (s.table.erase h).find (spec.handle i) =
              s.table.find (spec.handle i) := by
            intro i hi
            rw [ConnTable.find_erase, if_neg (hother hnone i hi)]
          refine ⟨?_, hinv.inRange, fun i hi hsome => hinv.held i hi (hfind i hi ▸ hsome)⟩
          exact hacc.of_table (fun _ hc => hc) fun i hi c hc => ⟨c, (hfind i hi).trans hc, rfl⟩

theorem Initial.inv (hinit : Initial spec s) : Inv spec s := by
  obtain ⟨htable, hplc, -, hpc⟩ := hinit
  refine ⟨?_, ?_, fun i hi hsome => ?_⟩
  · intro c hc
    rw [hplc] at hc
    cases hc
  · rw [hpc]
    exact spec.size_pos
  · rw [htable i hi] at hsome
    cases hsome

end Inv

/-- In a run in which the keepalive loop forgets only connections that the PLC
has dropped, every connection is accounted for at all times; so when `pool_close`
has returned and all its Forward_Closes have arrived, the PLC has none left. -/
theorem accounted_of_safe (sdk : Sdk) (spec : Spec) {s : State sdk}
    (h : (life sdk spec).Reaches (Safe spec) s) :
    Accounted spec s ∧
      (s.pc = .closed → (∀ c ∈ s.plc, c.closeSent = false) → s.plc = []) := by
  have hinv : Inv spec s := by
    apply h.invariant (Inv spec)
    · exact fun s hinit => Initial.inv hinit
    · exact fun s l s' hinv hsafe hstep => hinv.step hsafe hstep
  refine ⟨hinv.accounted, fun hclosed harrived => ?_⟩
  apply List.eq_nil_iff_forall_not_mem.mpr
  intro c hc
  rcases hinv.accounted c hc with hsent | ⟨i, hi, conn, hfind, -⟩
  · rw [harrived c hc] at hsent
    cases hsent
  · have hheld := hinv.held i hi (by simp [hfind])
    rw [hclosed] at hheld
    exact hheld

theorem one_le_maxSize : 1 ≤ maxSize := by decide

def single : Spec := ⟨0, 1, true, 0, le_rfl, one_le_maxSize⟩

def fresh (sdk : Sdk) : State sdk := ⟨.empty, [], fun _ => false, false, .connect 0⟩

theorem fresh_initial (sdk : Sdk) : Initial single (fresh sdk) :=
  ⟨fun _ _ => ConnTable.empty_isEmpty _, rfl, rfl, rfl⟩

def connect (connSerial : UInt16) : Label := .run { connSerial, lfo := .accepted 0 0 }

/-- The pool opens, a ping fails, and the entry is due for a reopen. -/
def failedPing : List Label :=
  [connect 1, .run {}, .run {}, .run { ok := false }, .run {}, .run {}, .run {}]

/-- The entry is reopened, and the pool is closed. -/
def reopenAndClose : List Label :=
  [.run {}, connect 2, .run {}, .run {}, .close, .run { leave := true }, .run {}, .run {}]

def serials (connSerial : UInt16) : Serials := ⟨connSerial, Conn.lfoVendorId, 0⟩

theorem accounted_of_safe_dropped : ∃ s, (life .c single).Reaches (Safe single) s ∧
    s.pc = .closed ∧ (∀ c ∈ s.plc, c.closeSent = false) ∧ s.plc = [] := by
  obtain ⟨s, hs, hp⟩ := (life .c single).exists_reaches_of_run (Safe single) (fresh_initial .c)
    (failedPing ++ .drop (serials 1) :: reopenAndClose)
    (fun s => decide (s.pc = .closed ∧ ∀ c ∈ s.plc, c.closeSent = false)) (by decide +kernel)
  obtain ⟨hclosed, harrived⟩ := of_decide_eq_true hp
  exact ⟨s, hs, hclosed, harrived, (accounted_of_safe .c single hs).2 hclosed harrived⟩

/-- A connection whose ping has failed on the way to the PLC: after the close of
the pool the PLC still has it. -/
def Abandons (sdk : Sdk) : Prop :=
  ∃ s, (life sdk single).Reachable s ∧ s.pc = .closed ∧ (∀ c ∈ s.plc, c.closeSent = false) ∧
    s.plc ≠ [] ∧ ¬Accounted single s

theorem abandons_of_run {sdk : Sdk}
    (hrun : (((life sdk single).runOk (fun _ _ => True) (fresh sdk)
      (failedPing ++ reopenAndClose)).map fun s => decide (s.pc = .closed ∧
        s.plc = [⟨serials 1, false⟩] ∧ s.table.find (single.handle 0) = none)) = some true) :
    Abandons sdk := by
  obtain ⟨s, hs, hp⟩ := (life sdk single).exists_reaches_of_run (fun _ _ => True)
    (fresh_initial sdk) (failedPing ++ reopenAndClose) _ hrun
  obtain ⟨hclosed, hplc, hnone⟩ := of_decide_eq_true hp
  refine ⟨s, hs, hclosed, by simp [hplc], by simp [hplc], fun hacc => ?_⟩
  rcases hacc ⟨serials 1, false⟩ (by simp [hplc]) with hsent | ⟨i, hi, c, hfind, -⟩
  · cases hsent
  · obtain rfl : i = 0 := Nat.lt_one_iff.mp hi
    rw [hnone] at hfind
    cases hfind

theorem not_accounted_after_failed_ping : Abandons .c ∧ Abandons .go ∧ Abandons .python :=
  ⟨abandons_of_run (by decide +kernel), abandons_of_run (by decide +kernel),
    abandons_of_run (by decide +kernel)⟩

end BpClient.Keepalive
