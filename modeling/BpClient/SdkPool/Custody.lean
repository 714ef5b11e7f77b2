import BpClient.SdkPool.Control
import BpClient.SdkPool.Entries

/-!
Who still has to close the connection of an entry: the `PoolOpen` that has
opened it, the pool in the registry, or the `PoolClose` that has taken it.
-/

namespace BpClient.SdkPool

open BpClient.Lib
open BpClient.CPool (maxSize poolAppHandle poolAppHandle_inj)

/-- The entries of a pool of `n` that a `PoolOpen` has opened. -/
def OpenerPc.keeps (n : Nat) (p : PoolId) (i : Nat) : OpenerPc → Prop
  | .lfo q k | .store q k => q = p ∧ i < k
  | .record q k => q = p ∧ i ≤ k
  | .rollback q rest => q = p ∧ i ∈ rest
  | .seed q | .startWorker q => q = p ∧ i < n
  | .enter _ _ | .unregister _ | .opened _ | .done _ => False

/-- The entries that a `PoolClose` has not closed yet. -/
def CloserPc.keeps (n : Nat) (p : PoolId) (i : Nat) : CloserPc → Prop
  | .clear q | .stop q | .join q | .drain q => q = p ∧ i < n
  | .closing q k => q = p ∧ k ≤ i ∧ i < n
  | .enter | .done => False

namespace State

variable (s : State)

/-- Kept by a call. -/
def KeptBy (id : CallId) (p : PoolId) (i : Nat) : Prop :=
  (∃ pc, s.openerAt id = some pc ∧ pc.keeps (s.pools p).size p i) ∨
    ∃ pc, s.closerAt id = some pc ∧ pc.keeps (s.pools p).size p i

def Kept (p : PoolId) (i : Nat) : Prop :=
  (s.Settled p ∧ i < (s.pools p).size) ∨ ∃ id, s.KeptBy id p i

/-- A `PoolOpen` stores the connection of entry `i`. -/
def Stores (slot : Nat) (s' : State) (p : PoolId) (i : Nat) : Prop :=
  s.table (poolAppHandle slot i) = false ∧ s'.table (poolAppHandle slot i) = true ∧
    ∃ id, s.openerAt id = some (.store p i) ∧ s'.openerAt id = some (.record p i)

end State

/-- What a step does to the entries that are kept and to the table. -/
structure Custody (slot : Nat) (s s' : State) : Prop where
  kept : ∀ p i, s'.Kept p i → s.Kept p i ∨ s.Stores slot s' p i
  dropped : ∀ p i, s.Kept p i → s'.Kept p i ∨ s'.table (poolAppHandle slot i) = false
  table : ∀ i < maxSize, s'.table (poolAppHandle slot i) = true →
    s.table (poolAppHandle slot i) = true ∨ ∃ p, s'.Kept p i

/-- A connection that is kept has its entry, or is about to get it. -/
def Recorded (s : State) : Prop :=
  ∀ p i, s.Kept p i → (s.pools p).entries i ≠ none ∨ ∃ id, s.openerAt id = some (.record p i)

section Views

variable {s s' : State} {id : CallId} {p : PoolId} {i : Nat}

theorem OpenerPc.opens_of_keeps {pc : OpenerPc} {n : Nat} (h : pc.keeps n p i) :
    ∃ ph, pc.opens = some (p, ph) ∧ ph ≠ .opened := by
  cases pc <;> simp_all [OpenerPc.keeps, OpenerPc.opens]

theorem CloserPc.pool_of_keeps {pc : CloserPc} {n : Nat} (h : pc.keeps n p i) :
    pc.pool = some p := by
  cases pc <;> simp_all [CloserPc.keeps, CloserPc.pool]

theorem keptBy_congr (hopener : s'.openerAt id = s.openerAt id)
    (hcloser : s'.closerAt id = s.closerAt id) (hsize : (s'.pools p).size = (s.pools p).size) :
    s'.KeptBy id p i ↔ s.KeptBy id p i := by
  rw [State.KeptBy, State.KeptBy, hopener, hcloser, hsize]

theorem keptBy_opener {pc : OpenerPc} (hc : s.openerAt id = some pc) :
    s.KeptBy id p i ↔ pc.keeps (s.pools p).size p i := by
  have hcloser : s.closerAt id = none := by
    simp [State.closerAt, openerAt_eq.mp hc, Pc.closer?]
  simp [State.KeptBy, hc, hcloser]

theorem keptBy_closer {pc : CloserPc} (hc : s.closerAt id = some pc) :
    s.KeptBy id p i ↔ pc.keeps (s.pools p).size p i := by
  have hopener : s.openerAt id = none := by
    simp [State.openerAt, closerAt_eq.mp hc, Pc.opener?]
  simp [State.KeptBy, hc, hopener]

/-- A pool that a call keeps entries of is one that it opens or closes. -/
theorem State.KeptBy.mentions (h : s.KeptBy id p i) :
    (∃ ph, s.opens id = some (p, ph) ∧ ph ≠ .opened) ∨ s.closes id = some p := by
  rcases h with ⟨pc, hc, hkeeps⟩ | ⟨pc, hc, hkeeps⟩
  · obtain ⟨ph, hph, hne⟩ := OpenerPc.opens_of_keeps hkeeps
    exact .inl ⟨ph, (opens_of_openerAt hc).trans hph, hne⟩
  · exact .inr ((closes_of_closerAt hc).trans (CloserPc.pool_of_keeps hkeeps))

theorem State.Kept.lt_next (h : s.Kept p i) (hborn : Born s) : p < s.next := by
  rcases h with ⟨hsettled, -⟩ | ⟨id, hby⟩
  · exact hborn.registry_lt p hsettled.1
  · rcases hby.mentions with ⟨ph, hopens, -⟩ | hcloses
    · exact hborn.opener_lt id p ph hopens
    · exact hborn.closer_lt id p hcloses

/-- What the registry and the call `id` keep. -/
def State.Own (s : State) (id : CallId) (p : PoolId) (i : Nat) : Prop :=
  (s.Settled p ∧ i < (s.pools p).size) ∨ s.KeptBy id p i

theorem State.Own.kept (h : s.Own id p i) : s.Kept p i := by
  rcases h with hsettled | hby
  · exact .inl hsettled
  · exact .inr ⟨id, hby⟩

/-- What is kept by the registry, by the call `id` or by another call. -/
theorem State.Kept.own (h : s.Kept p i) (id : CallId) :
    s.Own id p i ∨ ∃ id', id' ≠ id ∧ s.KeptBy id' p i := by
  rcases h with hsettled | ⟨id', hby⟩
  · exact .inl (.inl hsettled)
  · by_cases hid : id' = id
    · exact .inl (.inr (hid ▸ hby))
    · exact .inr ⟨id', hid, hby⟩

end Views

section Steps

variable {sdk : Sdk} {slot : Nat} {s s' : State} {id : CallId} {env : Env}

/-- A step of the call `id` changes only what it and the registry keep. -/
theorem Custody.of_own (id : CallId)
    (hframe : ∀ p i id', id' ≠ id → (s'.KeptBy id' p i ↔ s.KeptBy id' p i))
    (hkept : ∀ p i, s'.Own id p i → s.Own id p i ∨ s.Stores slot s' p i)
    (hdropped : ∀ p i, s.Own id p i → s'.Own id p i ∨ s'.table (poolAppHandle slot i) = false)
    (htable : ∀ i < maxSize, s'.table (poolAppHandle slot i) = true →
      s.table (poolAppHandle slot i) = true ∨ ∃ p, s'.Own id p i) : Custody slot s s' := by
  refine ⟨fun p i hk => ?_, fun p i hk => ?_, fun i hi ht => ?_⟩
  · rcases hk.own id with hown | ⟨id', hid, hby⟩
    · exact (hkept p i hown).imp_left State.Own.kept
    · exact .inl (.inr ⟨id', (hframe p i id' hid).mp hby⟩)
  · rcases hk.own id with hown | ⟨id', hid, hby⟩
    · exact (hdropped p i hown).imp_left State.Own.kept
    · exact .inl (.inr ⟨id', (hframe p i id' hid).mpr hby⟩)
  · rcases htable i hi ht with hold | ⟨p, hown⟩
    · exact .inl hold
    · exact .inr ⟨p, hown.kept⟩

/-- A step that touches neither `PoolOpen`, `PoolClose` nor the registry. -/
theorem Custody.of_same (hreg : s'.registry = s.registry) (hopener : s'.openerAt = s.openerAt)
    (hcloser : s'.closerAt = s.closerAt) (hsize : ∀ p, (s'.pools p).size = (s.pools p).size)
    (htable : ∀ i < maxSize, s'.table (poolAppHandle slot i) = true →
      s.table (poolAppHandle slot i) = true ∨ ∃ p, s.Kept p i) : Custody slot s s' := by
  have hkept : ∀ p i, s'.Kept p i ↔ s.Kept p i := by
    intro p i
    simp only [State.Kept, State.Settled, State.KeptBy, opens_congr hopener, hreg, hopener, hcloser,
      hsize]
  refine ⟨fun p i hk => .inl ((hkept p i).mp hk), fun p i hk => .inl ((hkept p i).mpr hk),
    fun i hi ht => ?_⟩
  rcases htable i hi ht with hold | ⟨p, hk⟩
  · exact .inl hold
  · exact .inr ⟨p, (hkept p i).mpr hk⟩

theorem Custody.start {pc : Pc} (hnone : s.calls id = none) (hstart : pc.Start) :
    Custody slot s (s.setCall id pc) := by
  obtain ⟨hopens, -, -, -⟩ := start_views hnone hstart
  have hby : ∀ id' p i, (s.setCall id pc).KeptBy id' p i ↔ s.KeptBy id' p i := by
    intro id' p i
    by_cases hid : id' = id
    · subst id'
      have hopener : s.openerAt id = none := by simp [State.openerAt, hnone]
      have hcloser : s.closerAt id = none := by simp [State.closerAt, hnone]
      simp only [State.KeptBy, hopener, hcloser, openerAt_update s (s.setCall id pc) rfl,
        closerAt_update s (s.setCall id pc) rfl, Function.update_self]
      cases hstart <;> simp [Pc.opener?, Pc.closer?, OpenerPc.keeps, CloserPc.keeps]
    · refine keptBy_congr ?_ ?_ rfl
      · rw [openerAt_update s (s.setCall id pc) rfl, Function.update_of_ne hid]
      · rw [closerAt_update s (s.setCall id pc) rfl, Function.update_of_ne hid]
  have hkept : ∀ p i, (s.setCall id pc).Kept p i ↔ s.Kept p i := by
    intro p i
    simp only [State.Kept, State.Settled, hopens, hby]
    exact Iff.rfl
  exact ⟨fun p i hk => .inl ((hkept p i).mp hk), fun p i hk => .inl ((hkept p i).mpr hk),
    fun i _ ht => .inl ht⟩

theorem Custody.caller {pc : CallerPc} (hf : CallerFrame sdk s s' id pc) : Custody slot s s' := by
  refine .of_same hf.registry hf.opener hf.closer (fun p => ?_) (fun i _ ht => .inl (hf.table ▸ ht))
  obtain ⟨free, inflight, hcore⟩ := hf.core p
  rw [hcore]

/-- Only a reopened entry is stored by the worker, and its pool keeps it. -/
theorem Custody.worker {p : PoolId} {w : WorkerPc} (hctl : Control s) (hq : Queued sdk s)
    (hentries : Entries slot s) (hw : (s.pools p).worker = some w)
    (hs : workerStep sdk s p env w = some s') : Custody slot s s' := by
  have hf := workerStep_frame hw hs
  refine .of_same hf.registry hf.openerAt hf.closerAt (fun p' => ?_) (fun i hi ht => ?_)
  · by_cases hp : p' = p
    · obtain ⟨free, entries, worker, hcore⟩ := hf.core
      rw [hp, hcore]
    · rw [hf.pools p' hp]
  · by_cases hold : s.table (poolAppHandle slot i) = true
    · exact .inl hold
    · refine .inr ⟨p, ?_⟩
      have hstore : ∃ j, w = .store j (poolAppHandle slot i) := by
        cases w with
        | store j h =>
            simp only [workerStep, Option.some.injEq] at hs
            subst hs
            split at ht
            · exact absurd ht hold
            · by_cases hh : poolAppHandle slot i = h
              · exact ⟨j, by rw [hh]⟩
              · exact absurd (by simpa [State.setTable, State.setPool, hh] using ht) hold
        | forceClose j =>
            simp only [workerStep, Option.map_eq_some_iff] at hs
            obtain ⟨e, -, rfl⟩ := hs
            by_cases hh : poolAppHandle slot i = e.appHandle
            · simp [State.setTable, hh] at ht
            · exact absurd (by simpa [State.setTable, State.setPool, hh] using ht) hold
        | wait =>
            cases sdk <;> simp only [workerStep] at hs <;> repeat' split at hs
            all_goals cases hs <;> exact absurd ht hold
        | scan pass j =>
            simp only [workerStep, Option.some.injEq] at hs
            subst hs
            repeat' split at ht
            all_goals exact absurd ht hold
        | give pass j got =>
            simp only [workerStep, Option.map_eq_some_iff] at hs
            obtain ⟨⟨q, stopped⟩, -, rfl⟩ := hs
            exact absurd ht hold
        | lookup j =>
            simp only [workerStep, Option.map_eq_some_iff] at hs
            obtain ⟨e, -, rfl⟩ := hs
            exact absurd ht hold
        | pinging j h | pinged j ok | lfo j h | revive j =>
            simp only [workerStep, Option.some.injEq] at hs
            subst hs
            exact absurd ht hold
      obtain ⟨j, rfl⟩ := hstore
      have hheld : (s.lease p).holds none = some j := by
        rw [lease_worker, hw]
        rfl
      have hj := (hq.lists p).held_lt none j hheld
      have hij : i = j :=
        poolAppHandle_inj hi (hj.trans_le (hentries.size_le p)) (hentries.worker p _ j _ hw rfl)
      subst hij
      rcases hctl.worker p (by simp [hw]) with hsettled | ⟨id, hjoins⟩
      · exact .inl ⟨hsettled, hj⟩
      · refine .inr ⟨id, .inr ?_⟩
        obtain ⟨pc, hpc, hpool⟩ := Option.bind_eq_some_iff.mp hjoins
        refine ⟨pc, hpc, ?_⟩
        cases pc <;> simp_all [CloserPc.joins, CloserPc.keeps]

/-- A step of a call leaves alone what the other calls keep. -/
theorem keptBy_frame {p : PoolId} {i : Nat} {id' : CallId} (hid : id' ≠ id) {pc : Pc}
    (hcalls : s'.calls = Function.update s.calls id (some pc))
    (hsize : (s'.pools p).size = (s.pools p).size) : s'.KeptBy id' p i ↔ s.KeptBy id' p i := by
  refine keptBy_congr ?_ ?_ hsize
  · rw [openerAt_update s s' hcalls, Function.update_of_ne hid]
  · rw [closerAt_update s s' hcalls, Function.update_of_ne hid]

/-- A step of a `PoolOpen` in progress. -/
theorem Custody.opener_of {pc : OpenerPc} {p : PoolId} {ph : OpenPhase} (hctl : Control s)
    (hborn : Born s) (hc : s.openerAt id = some pc) (hpc : pc.opens = some (p, ph))
    (hph : ph ≠ .opened) (pc' : OpenerPc)
    (hcalls : s'.calls = Function.update s.calls id (some (.opener pc')))
    (hsize : ∀ q, (s'.pools q).size = (s.pools q).size)
    (hown : ∀ q i, s'.Own id q i → q = p ∧ (pc.keeps (s.pools p).size p i ∨ s.Stores slot s' p i))
    (hdropped : ∀ i, pc.keeps (s.pools p).size p i →
      s'.Own id p i ∨ s'.table (poolAppHandle slot i) = false)
    (htable : ∀ i < maxSize, s'.table (poolAppHandle slot i) = true →
      s.table (poolAppHandle slot i) = true ∨ ∃ p, s'.Own id p i) : Custody slot s s' := by
  obtain ⟨-, hunsettled, -⟩ := hctl.in_progress ((opens_of_openerAt hc).trans hpc) hph hborn
  have hold : ∀ q i, s.Own id q i ↔ pc.keeps (s.pools q).size q i := by
    intro q i
    rw [State.Own, keptBy_opener hc]
    exact or_iff_right fun h => hunsettled q h.1
  refine .of_own id (fun q i id' hid => keptBy_frame hid hcalls (hsize q)) (fun q i hq => ?_)
    (fun q i hq => ?_) htable
  · obtain ⟨rfl, hkeeps⟩ := hown q i hq
    exact hkeeps.imp_left (hold q i).mpr
  · have hkeeps := (hold q i).mp hq
    obtain ⟨ph', hph', -⟩ := OpenerPc.opens_of_keeps hkeeps
    obtain rfl : p = q := by
      rw [hpc] at hph'
      cases hph'
      rfl
    exact hdropped i hkeeps

/-- A step of a `PoolOpen` that is in progress before and after. -/
theorem Custody.connect {pc : OpenerPc} {p : PoolId} {ph : OpenPhase} (hctl : Control s)
    (hctl' : Control s') (hborn : Born s) (hborn' : Born s') (hc : s.openerAt id = some pc)
    (hpc : pc.opens = some (p, ph)) (hph : ph ≠ .opened) (pc' : OpenerPc) {ph' : OpenPhase}
    (hpc' : pc'.opens = some (p, ph')) (hph' : ph' ≠ .opened)
    (hcalls : s'.calls = Function.update s.calls id (some (.opener pc')))
    (hsize : ∀ q, (s'.pools q).size = (s.pools q).size)
    (hkept : ∀ i, pc'.keeps (s.pools p).size p i →
      pc.keeps (s.pools p).size p i ∨ s.Stores slot s' p i)
    (hdropped : ∀ i, pc.keeps (s.pools p).size p i →
      pc'.keeps (s.pools p).size p i ∨ s'.table (poolAppHandle slot i) = false)
    (htable : ∀ i < maxSize, s'.table (poolAppHandle slot i) = true →
      s.table (poolAppHandle slot i) = true ∨ pc'.keeps (s.pools p).size p i) :
    Custody slot s s' := by
  obtain ⟨-, hopener, -⟩ := openerAt_setCall s' hc pc' hcalls
  have hc' : s'.openerAt id = some pc' := by rw [hopener, Function.update_self]
  obtain ⟨-, hunsettled, -⟩ := hctl'.in_progress ((opens_of_openerAt hc').trans hpc') hph' hborn'
  have hnew : ∀ q i, s'.Own id q i ↔ pc'.keeps (s.pools q).size q i := by
    intro q i
    rw [State.Own, keptBy_opener hc', hsize]
    exact or_iff_right fun h => hunsettled q h.1
  refine .opener_of hctl hborn hc hpc hph pc' hcalls hsize (fun q i hq => ?_) (fun i hi => ?_)
    (fun i hi ht => ?_)
  · have hkeeps := (hnew q i).mp hq
    obtain ⟨ph'', hph'', -⟩ := OpenerPc.opens_of_keeps hkeeps
    obtain rfl : q = p := by
      rw [hpc'] at hph''
      cases hph''
      rfl
    exact ⟨rfl, hkept i hkeeps⟩
  · exact (hdropped i hi).imp_left (hnew p i).mpr
  · exact (htable i hi ht).imp_right fun hkeeps => ⟨p, (hnew p i).mpr hkeeps⟩

/-- The last step of a `PoolOpen`. -/
theorem Custody.finish {pc : OpenerPc} {p : PoolId} {ph : OpenPhase} (hctl : Control s)
    (hborn : Born s) (hborn' : Born s') (hc : s.openerAt id = some pc)
    (hpc : pc.opens = some (p, ph)) (hph : ph ≠ .opened)
    (hkeeps : ∀ i, pc.keeps (s.pools p).size p i ↔ i < (s.pools p).size)
    (hcalls : s'.calls = Function.update s.calls id (some (.opener (.opened p))))
    (hreg : s'.registry = s.registry) (hsize : ∀ q, (s'.pools q).size = (s.pools q).size)
    (htable : s'.table = s.table) : Custody slot s s' := by
  obtain ⟨-, hopener, -⟩ := openerAt_setCall s' hc (.opened p) hcalls
  have hc' : s'.openerAt id = some (.opened p) := by rw [hopener, Function.update_self]
  have hold := hctl.registered id p ph ((opens_of_openerAt hc).trans hpc) hph
  have hsettled : s'.Settled p := by
    refine ⟨hreg.trans hold, fun id' ph' hopens => ?_⟩
    have hid := hborn'.opener_unique id' id p ph' _ hopens (opens_of_openerAt hc')
    rw [hid, opens_of_openerAt hc'] at hopens
    cases hopens
    rfl
  refine .opener_of hctl hborn hc hpc hph (.opened p) hcalls hsize (fun q i hq => ?_)
    (fun i hi => ?_) (fun i _ ht => .inl (htable ▸ ht))
  · rw [State.Own, keptBy_opener hc', hsize] at hq
    rcases hq with ⟨hsettled', hi⟩ | hby
    · obtain rfl : p = q := Option.some.inj (hold.symm.trans (hreg ▸ hsettled'.1))
      exact ⟨rfl, .inl ((hkeeps i).mpr hi)⟩
    · cases hby
  · refine .inl (.inl ⟨hsettled, ?_⟩)
    rw [hsize]
    exact (hkeeps i).mp hi

theorem Custody.publish {size : Nat} {keepalive : Bool} (hctl' : Control s') (hborn : Born s)
    (hborn' : Born s') (hc : s.openerAt id = some (.enter size keepalive))
    (hreg : s.registry = none)
    (hs : s' = { (s.setPool s.next (.fresh size keepalive)).setCall id (.opener (.lfo s.next 0)) with
      registry := some s.next
      next := s.next + 1 }) : Custody slot s s' := by
  obtain ⟨-, hopener, hcloser⟩ := openerAt_setCall s' hc (.lfo s.next 0) (by rw [hs]; rfl)
  have hc' : s'.openerAt id = some (.lfo s.next 0) := by rw [hopener, Function.update_self]
  obtain ⟨-, hunsettled, -⟩ := hctl'.in_progress (opens_of_openerAt hc') (by simp) hborn'
  refine .of_own id (fun p i id' hid => ?_) (fun p i hown => ?_) (fun p i hown => ?_)
    (fun i _ ht => .inl (by rw [hs] at ht; exact ht))
  · by_cases hp : p = s.next
    · subst p
      have hopens : s'.opens id' = s.opens id' := by
        rw [opens_update hopener, Function.update_of_ne hid]
      have hno : ¬ ((∃ ph, s.opens id' = some (s.next, ph) ∧ ph ≠ .opened) ∨
          s.closes id' = some s.next) := by
        rintro (⟨ph, hph, -⟩ | hcloses)
        · exact Nat.lt_irrefl _ (hborn.opener_lt id' s.next ph hph)
        · exact Nat.lt_irrefl _ (hborn.closer_lt id' s.next hcloses)
      constructor
      · intro hby
        have := hby.mentions
        rw [hopens, closes_congr hcloser] at this
        exact absurd this hno
      · exact fun hby => absurd hby.mentions hno
    · refine keptBy_frame hid (by rw [hs]; rfl : s'.calls = Function.update s.calls id _) ?_
      rw [hs]
      simp [State.setCall, State.setPool, hp]
  · rcases hown with hsettled | hby
    · exact absurd hsettled.1 (hunsettled p)
    · rw [keptBy_opener hc'] at hby
      exact absurd hby.2 (Nat.not_lt_zero i)
  · rcases hown with ⟨⟨hreg', -⟩, -⟩ | hby
    · rw [hreg] at hreg'
      cases hreg'
    · rw [keptBy_opener hc] at hby
      cases hby

/-- A `PoolOpen` that finds a pool. -/
theorem Custody.alreadyOpen {size : Nat} {keepalive : Bool}
    (hc : s.openerAt id = some (.enter size keepalive))
    (hs : s' = s.setCall id (.opener (.done .alreadyOpen))) : Custody slot s s' := by
  subst hs
  obtain ⟨-, hopener, hcloser⟩ :=
    openerAt_setCall (s.setCall id (.opener (.done .alreadyOpen))) hc (.done .alreadyOpen) rfl
  have hc' : (s.setCall id (.opener (.done .alreadyOpen))).openerAt id =
      some (.done .alreadyOpen) := by
    rw [hopener, Function.update_self]
  have hopens : (s.setCall id (.opener (.done .alreadyOpen))).opens = s.opens := by
    rw [opens_update hopener]
    exact Function.update_eq_self_iff.mpr (opens_of_openerAt hc).symm
  have hown : ∀ q i, (s.setCall id (.opener (.done .alreadyOpen))).Own id q i ↔ s.Own id q i := by
    intro q i
    rw [State.Own, State.Own, keptBy_opener hc', keptBy_opener hc, State.Settled, State.Settled,
      hopens]
    exact Iff.rfl
  exact .of_own id (fun q i id' hid => keptBy_frame hid rfl rfl)
    (fun q i hq => .inl ((hown q i).mp hq)) (fun q i hq => .inl ((hown q i).mpr hq))
    (fun i _ ht => .inl ht)

/-- The connections so far are left to the rollback. -/
theorem Custody.rollback {pc : OpenerPc} {p : PoolId} {k : Nat} (hctl : Control s)
    (hctl' : Control s') (hborn : Born s) (hborn' : Born s') (hc : s.openerAt id = some pc)
    (hpc : pc.opens = some (p, .connecting))
    (hkeeps : ∀ i, pc.keeps (s.pools p).size p i ↔ i < k)
    (hs : s' = s.setCall id (.opener (.rollback p (List.range k)))) : Custody slot s s' := by
  subst hs
  refine .connect hctl hctl' hborn hborn' hc hpc (by simp) (.rollback p (List.range k)) rfl
    (by simp) rfl (fun q => rfl) (fun i hi => .inl ?_) (fun i hi => .inl ?_) (fun i _ ht => .inl ht)
  · exact (hkeeps i).mpr (List.mem_range.mp hi.2)
  · exact ⟨rfl, List.mem_range.mpr ((hkeeps i).mp hi)⟩

/-- An entry is stored in a free place. -/
theorem Custody.stored {p : PoolId} {k : Nat} (hctl : Control s) (hctl' : Control s')
    (hborn : Born s) (hborn' : Born s') (hc : s.openerAt id = some (.store p k)) (hk : k < maxSize)
    (hfree : s.table (poolAppHandle slot k) = false)
    (hs : s' = (s.setTable (poolAppHandle slot k) true).setCall id (.opener (.record p k))) :
    Custody slot s s' := by
  subst hs
  refine .connect hctl hctl' hborn hborn' hc rfl (by simp) (.record p k) rfl (by simp) rfl
    (fun q => rfl) (fun i hi => ?_) (fun i hi => .inl ⟨rfl, hi.2.le⟩) (fun i hi ht => ?_)
  · rcases Nat.lt_or_eq_of_le hi.2 with hlt | rfl
    · exact .inl ⟨rfl, hlt⟩
    · refine .inr ⟨hfree, Function.update_self .., id, hc, ?_⟩
      simp [State.openerAt, State.setCall, Pc.opener?]
  · by_cases hik : i = k
    · exact .inr ⟨rfl, hik.le⟩
    · have hne : poolAppHandle slot i ≠ poolAppHandle slot k :=
        fun h => hik (poolAppHandle_inj hi hk h)
      change Function.update s.table (poolAppHandle slot k) true (poolAppHandle slot i) = true at ht
      rw [Function.update_of_ne hne] at ht
      exact .inl ht

/-- An entry is taken out again by the rollback. -/
theorem Custody.rolledBack {p : PoolId} {k : Nat} {rest : List Nat} {h : Handle} (hctl : Control s)
    (hctl' : Control s') (hborn : Born s) (hborn' : Born s')
    (hc : s.openerAt id = some (.rollback p (k :: rest))) (hh : h = poolAppHandle slot k)
    (hs : s' = (s.setTable h false).setCall id (.opener (.rollback p rest))) :
    Custody slot s s' := by
  subst hs hh
  refine .connect hctl hctl' hborn hborn' hc rfl (by simp) (.rollback p rest) rfl (by simp) rfl
    (fun q => rfl) (fun i hi => .inl ⟨rfl, List.mem_cons_of_mem k hi.2⟩) (fun i hi => ?_)
    (fun i _ ht => .inl ?_)
  · rcases List.mem_cons.mp hi.2 with rfl | hrest
    · exact .inr (Function.update_self ..)
    · exact .inl ⟨rfl, hrest⟩
  · by_cases heq : poolAppHandle slot i = poolAppHandle slot k
    · simp [State.setTable, State.setCall, heq] at ht
    · change Function.update s.table (poolAppHandle slot k) false (poolAppHandle slot i) = true at ht
      rwa [Function.update_of_ne heq] at ht

theorem Custody.opener {pc : OpenerPc} (hctl : Control s) (hctl' : Control s') (hborn : Born s)
    (hborn' : Born s') (hentries : Entries slot s) (hc : s.openerAt id = some pc)
    (hs : openerStep slot s id env pc = some s') : Custody slot s s' := by
  cases pc with
  | enter size keepalive =>
      simp only [openerStep, Option.some.injEq] at hs
      cases hreg : s.registry with
      | none =>
          rw [hreg] at hs
          exact .publish hctl' hborn hborn' hc hreg hs.symm
      | some p =>
          rw [hreg] at hs
          exact .alreadyOpen hc hs.symm
  | lfo p k =>
      simp only [openerStep, Option.some.injEq] at hs
      split at hs
      · refine .connect hctl hctl' hborn hborn' hc rfl (by simp) (.store p k) rfl (by simp)
          (by rw [← hs]; rfl) (fun q => by rw [← hs]; rfl) (fun i hi => .inl hi) (fun i hi => .inl hi)
          (fun i _ ht => .inl (by rw [← hs] at ht; exact ht))
      · exact .rollback hctl hctl' hborn hborn' hc rfl (fun i => and_iff_right rfl) hs.symm
  | store p k =>
      have hk := (hentries.connects id _ p k hc rfl).trans_le (hentries.size_le p)
      simp only [openerStep, Option.some.injEq] at hs
      split at hs
      · exact .rollback hctl hctl' hborn hborn' hc rfl (fun i => and_iff_right rfl) hs.symm
      · next hroom =>
          simp only [Bool.or_eq_true, not_or, Bool.not_eq_true] at hroom
          exact .stored hctl hctl' hborn hborn' hc hk hroom.1 hs.symm
  | record p k =>
      have hk := hentries.connects id _ p k hc rfl
      simp only [openerStep, Option.some.injEq] at hs
      have hsize : ∀ q, (s'.pools q).size = (s.pools q).size := by
        rw [← hs]
        exact s.of_setPool (·.size) rfl
      split at hs
      · next hlt =>
          refine .connect hctl hctl' hborn hborn' hc rfl (by simp) (.lfo p (k + 1)) rfl (by simp)
            (by rw [← hs]; rfl) hsize (fun i hi => .inl ?_) (fun i hi => .inl ?_)
            (fun i _ ht => .inl (by rw [← hs] at ht; exact ht))
          · exact ⟨rfl, Nat.le_of_lt_succ hi.2⟩
          · exact ⟨rfl, Nat.lt_succ_of_le hi.2⟩
      · next hlast =>
          refine .connect hctl hctl' hborn hborn' hc rfl (by simp) (.seed p) rfl (by simp)
            (by rw [← hs]; rfl) hsize (fun i hi => .inl ?_) (fun i hi => .inl ?_)
            (fun i _ ht => .inl (by rw [← hs] at ht; exact ht))
          · exact ⟨rfl, Nat.le_of_lt_succ (hi.2.trans_le (Nat.not_lt.mp hlast))⟩
          · exact ⟨rfl, lt_of_le_of_lt hi.2 hk⟩
  | rollback p rest =>
      cases rest with
      | nil =>
          simp only [openerStep, Option.some.injEq] at hs
          refine .connect hctl hctl' hborn hborn' hc rfl (by simp) (.unregister p) rfl (by simp)
            (by rw [← hs]; rfl) (fun q => by rw [← hs]; rfl) (fun i hi => by cases hi)
            (fun i hi => ?_) (fun i _ ht => .inl (by rw [← hs] at ht; exact ht))
          exact absurd hi.2 (List.not_mem_nil)
      | cons k rest =>
          simp only [openerStep, Option.map_eq_some_iff] at hs
          obtain ⟨e, he, hs⟩ := hs
          exact .rolledBack hctl hctl' hborn hborn' hc (hentries.entry p k e he) hs.symm
  | unregister p =>
      simp only [openerStep, Option.some.injEq] at hs
      refine .opener_of hctl hborn hc rfl (by simp) (.done .failed) (by rw [← hs]; rfl)
        (fun q => by rw [← hs]; rfl) (fun q i hq => ?_) (fun i hi => by cases hi)
        (fun i _ ht => .inl (by rw [← hs] at ht; exact ht))
      have hc' : s'.openerAt id = some (.done .failed) := by
        rw [← hs]
        simp [State.openerAt, State.setCall, Pc.opener?]
      rcases hq with ⟨⟨hreg, -⟩, -⟩ | hby
      · rw [← hs] at hreg
        cases hreg
      · rw [keptBy_opener hc'] at hby
        cases hby
  | seed p =>
      simp only [openerStep, Option.some.injEq] at hs
      have hsize : ∀ q, (s'.pools q).size = (s.pools q).size := by
        rw [← hs]
        exact s.of_setPool (·.size) rfl
      split at hs
      · exact .connect hctl hctl' hborn hborn' hc rfl (by simp) (.startWorker p) rfl (by simp)
          (by rw [← hs]; rfl) hsize (fun i hi => .inl hi) (fun i hi => .inl hi)
          (fun i _ ht => .inl (by rw [← hs] at ht; exact ht))
      · exact .finish hctl hborn hborn' hc rfl (by simp) (fun i => and_iff_right rfl)
          (by rw [← hs]; rfl) (by rw [← hs]; rfl) hsize (by rw [← hs]; rfl)
  | startWorker p =>
      simp only [openerStep, Option.some.injEq] at hs
      have hsize : ∀ q, (s'.pools q).size = (s.pools q).size := by
        rw [← hs]
        exact s.of_setPool (·.size) rfl
      exact .finish hctl hborn hborn' hc rfl (by simp) (fun i => and_iff_right rfl)
        (by rw [← hs]; rfl) (by rw [← hs]; rfl) hsize (by rw [← hs]; rfl)
  | opened p => cases hs
  | done r => cases hs

/-- A step of `PoolClose` past the registry. -/
theorem Custody.closer_of {pc : CloserPc} (hc : s.closerAt id = some pc) (pc' : CloserPc)
    (hcalls : s'.calls = Function.update s.calls id (some (.closer pc')))
    (hreg : s'.registry = s.registry) (hsize : ∀ q, (s'.pools q).size = (s.pools q).size)
    (hkept : ∀ p i, pc'.keeps (s.pools p).size p i → pc.keeps (s.pools p).size p i)
    (hdropped : ∀ p i, pc.keeps (s.pools p).size p i →
      pc'.keeps (s.pools p).size p i ∨ s'.table (poolAppHandle slot i) = false)
    (htable : ∀ h, s'.table h = true → s.table h = true) : Custody slot s s' := by
  obtain ⟨-, hopener, hcloser⟩ := closerAt_setCall s' hc pc' hcalls
  have hc' : s'.closerAt id = some pc' := by rw [hcloser, Function.update_self]
  have hsettled : ∀ q, s'.Settled q ↔ s.Settled q := by
    intro q
    rw [State.Settled, State.Settled, opens_congr hopener, hreg]
  refine .of_own id (fun q i id' hid => keptBy_frame hid hcalls (hsize q)) (fun q i hq => .inl ?_)
    (fun q i hq => ?_) (fun i _ ht => .inl (htable _ ht))
  · rw [State.Own, keptBy_closer hc', hsettled, hsize] at hq
    rw [State.Own, keptBy_closer hc]
    exact hq.imp_right (hkept q i)
  · rw [State.Own, keptBy_closer hc] at hq
    rw [State.Own, keptBy_closer hc', hsettled, hsize]
    rcases hq with hold | hkeeps
    · exact .inl (.inl hold)
    · exact (hdropped q i hkeeps).imp_left .inr

theorem Control.settled_of_opened (hctl : Control s) (hq : Queued sdk s) {p : PoolId}
    (hreg : s.registry = some p) (hopened : (s.pools p).opened = true) : s.Settled p := by
  refine ⟨hreg, fun id ph hopens => ?_⟩
  by_contra hph
  rw [hctl.not_opened hq hopens hph] at hopened
  cases hopened

theorem Custody.take {p : PoolId} (hctl : Control s) (hq : Queued sdk s)
    (hc : s.closerAt id = some .enter) (hreg : s.registry = some p)
    (hopened : (s.pools p).opened = true)
    (hs : s' = { s with registry := none }.setCall id (.closer (.clear p))) : Custody slot s s' := by
  have hsettled := hctl.settled_of_opened hq hreg hopened
  have hc' : s'.closerAt id = some (.clear p) := by
    rw [hs]
    simp [State.closerAt, State.setCall, Pc.closer?]
  refine .of_own id (fun q i id' hid => keptBy_frame hid (by rw [hs]; rfl) (by rw [hs]; rfl))
    (fun q i hown => .inl ?_) (fun q i hown => .inl ?_) (fun i _ ht => .inl (by rw [hs] at ht; exact ht))
  · rcases hown with ⟨⟨hnone, -⟩, -⟩ | hby
    · rw [hs] at hnone
      cases hnone
    · rw [keptBy_closer hc', hs] at hby
      obtain ⟨rfl, hi⟩ := hby
      exact .inl ⟨hsettled, hi⟩
  · rcases hown with ⟨hsettled', hi⟩ | hby
    · obtain rfl : p = q := Option.some.inj (hreg.symm.trans hsettled'.1)
      refine .inr ?_
      rw [keptBy_closer hc', hs]
      exact ⟨rfl, hi⟩
    · rw [keptBy_closer hc] at hby
      cases hby

theorem Custody.closer {pc : CloserPc} (hctl : Control s) (hq : Queued sdk s)
    (hentries : Entries slot s) (hrec : Recorded s) (hc : s.closerAt id = some pc)
    (hok : pc = .enter → s.registry.all (fun p => (s.pools p).opened) = true)
    (hs : closerStep sdk s id pc = some s') : Custody slot s s' := by
  cases pc with
  | enter =>
      simp only [closerStep, Option.some.injEq] at hs
      have hopened := hok rfl
      cases hreg : s.registry with
      | none =>
          rw [hreg] at hs
          exact .closer_of hc .done (by rw [← hs]; rfl) (by rw [← hs]; rfl) (fun q => by rw [← hs]; rfl)
            (fun q i hi => by cases hi) (fun q i hi => by cases hi)
            (fun h ht => by rw [← hs] at ht; exact ht)
      | some p =>
          rw [hreg] at hs hopened
          exact .take hctl hq hc hreg hopened hs.symm
  | clear p =>
      simp only [closerStep, Option.some.injEq] at hs
      refine .closer_of hc (.stop p) (by rw [← hs]; rfl) (by rw [← hs]; rfl) (fun q => ?_)
        (fun q i hi => hi) (fun q i hi => .inl hi) (fun h ht => by rw [← hs] at ht; exact ht)
      rw [← hs]
      exact s.of_setPool (·.size) (by rfl) q
  | stop p =>
      simp only [closerStep, Option.some.injEq] at hs
      refine .closer_of hc (.join p) (by rw [← hs]; rfl) (by rw [← hs]; rfl) (fun q => ?_)
        (fun q i hi => hi) (fun q i hi => .inl hi) (fun h ht => by rw [← hs] at ht; exact ht)
      rw [← hs]
      exact s.of_setPool (·.size) (by rfl) q
  | join p =>
      simp only [closerStep] at hs
      split at hs <;> cases hs
      exact .closer_of hc (.drain p) rfl rfl (fun q => rfl) (fun q i hi => hi) (fun q i hi => .inl hi)
        (fun h ht => ht)
  | drain p =>
      simp only [closerStep] at hs
      split at hs <;> cases hs
      exact .closer_of hc (.closing p 0) rfl rfl (fun q => rfl) (fun q i hi => ⟨hi.1, hi.2.2⟩)
        (fun q i hi => .inl ⟨hi.1, Nat.zero_le i, hi.2⟩) (fun h ht => ht)
  | closing p k =>
      simp only [closerStep, Option.some.injEq] at hs
      split at hs
      · next hlt =>
          have hkept : s.Kept p k := by
            refine .inr ⟨id, ?_⟩
            rw [keptBy_closer hc]
            exact ⟨rfl, le_rfl, hlt⟩
          split at hs
          · next e he =>
              have hhandle := hentries.entry p k e he
              have hset : s'.table = Function.update s.table (poolAppHandle slot k) false := by
                rw [← hs, ← hhandle]
                rfl
              refine .closer_of hc (.closing p (k + 1)) (by rw [← hs]; rfl) (by rw [← hs]; rfl)
                (fun q => by rw [← hs]; rfl) (fun q i hi => ?_) (fun q i hi => ?_) (fun h ht => ?_)
              · exact ⟨hi.1, Nat.le_of_succ_le hi.2.1, hi.2.2⟩
              · rcases Nat.lt_or_eq_of_le hi.2.1 with hki | rfl
                · exact .inl ⟨hi.1, hki, hi.2.2⟩
                · exact .inr (by rw [hset, Function.update_self])
              · by_cases hh : h = poolAppHandle slot k
                · simp [hset, hh] at ht
                · rwa [hset, Function.update_of_ne hh] at ht
          · next hnone =>
              -- the pool that is being closed has all its entries
              rcases hrec p k hkept with hsome | ⟨id', hrecord⟩
              · exact absurd hnone hsome
              · have hreg := hctl.registered id' p _ (opens_of_openerAt hrecord) (by simp)
                exact absurd hreg (hctl.taken id p (closes_of_closerAt hc))
      · next hge =>
          exact .closer_of hc .done (by rw [← hs]; rfl) (by rw [← hs]; rfl) (fun q => by rw [← hs]; rfl)
            (fun q i hi => by cases hi)
            (fun q i hi => absurd (hi.1 ▸ lt_of_le_of_lt hi.2.1 hi.2.2) hge)
            (fun h ht => by rw [← hs] at ht; exact ht)
  | done => cases hs

theorem custody_step {l : Label} (hctl : Control s) (hq : Queued sdk s) (hentries : Entries slot s)
    (hrec : Recorded s) (hok : ClosesOpened s l) (hs : step sdk slot s l = some s') :
    Custody slot s s' := by
  have hctl' := hctl.step hq hok hs
  have hborn' := hq.born.step hs
  cases step_of hs with
  | start id pc _ hnone hstart heq => exact heq ▸ .start hnone hstart
  | caller id env pc hc hstep => exact .caller (callerStep_frame hc hstep)
  | opener id env pc hc hstep => exact .opener hctl hctl' hq.born hborn' hentries hc hstep
  | closer id env pc hc hstep =>
      refine .closer hctl hq hentries hrec hc (fun hpc => hok ?_) hstep
      rw [closerAt_eq.mp hc, hpc]
  | worker p env w hw hstep => exact .worker hctl hq hentries hw hstep

/-- Entries stay. -/
theorem step_entries {l : Label} (hs : step sdk slot s l = some s') {p : PoolId} {i : Nat}
    (hp : p < s.next) (hnone : (s'.pools p).entries i = none) : (s.pools p).entries i = none := by
  cases step_of hs with
  | start id pc _ _ _ heq =>
      rw [heq] at hnone
      exact hnone
  | caller id env pc hc hstep =>
      obtain ⟨free, inflight, hcore⟩ := (callerStep_frame hc hstep).core p
      rw [hcore] at hnone
      exact hnone
  | opener id env pc hc hstep =>
      cases openerStep_effect hstep with
      | publish size keepalive _ _ heq =>
          rw [heq] at hnone
          simpa [State.setCall, State.setPool, hp.ne] using hnone
      | refuse size keepalive _ _ heq =>
          rw [heq] at hnone
          exact hnone
      | connect q pc' _ _ _ _ _ _ hentries => exact hentries p i hnone
      | unregister q _ heq =>
          rw [heq] at hnone
          exact hnone
      | seed q pc' _ _ heq | startWorker q _ heq =>
          rw [heq] at hnone
          by_cases hq : p = q
          · subst p
            simpa [State.setCall, State.setPool] using hnone
          · simpa [State.setCall, State.setPool, hq] using hnone
  | closer id env pc hc hstep =>
      obtain ⟨initialized, stop, hcore, -⟩ := (closerStep_frame hc hstep).pools p
      rw [hcore] at hnone
      exact hnone
  | worker q env w hw hstep =>
      have hf := workerStep_frame hw hstep
      by_cases hq : p = q
      · subst p
        have hhandle := hf.handles i
        rw [hnone, Option.map_none] at hhandle
        exact Option.map_eq_none_iff.mp hhandle.symm
      · rw [hf.pools p hq] at hnone
        exact hnone

/-- A connection that is stored gets its entry in the next step of its
`PoolOpen`. -/
theorem step_record {l : Label} (hs : step sdk slot s l = some s') {p : PoolId} {i : Nat}
    (hrecord : s.openerAt id = some (.record p i)) :
    (s'.pools p).entries i ≠ none ∨ s'.openerAt id = some (.record p i) := by
  cases step_of hs with
  | start id' pc _ hnone hstart heq =>
      refine .inr ?_
      have hid : id ≠ id' := by
        rintro rfl
        simp [State.openerAt, hnone] at hrecord
      rw [heq, openerAt_update s (s.setCall id' pc) rfl, Function.update_of_ne hid]
      exact hrecord
  | caller id' env pc hc hstep => exact .inr ((callerStep_frame hc hstep).opener ▸ hrecord)
  | closer id' env pc hc hstep => exact .inr ((closerStep_frame hc hstep).opener ▸ hrecord)
  | worker q env w hw hstep => exact .inr ((workerStep_frame hw hstep).openerAt ▸ hrecord)
  | opener id' env pc hc hstep =>
      by_cases hid : id = id'
      · subst id'
        refine .inl ?_
        obtain rfl := Option.some.inj (hc.symm.trans hrecord)
        simp only [openerStep, Option.some.injEq] at hstep
        subst hstep
        simp [State.setCall, State.setPool]
      · refine .inr ?_
        have hcalls : ∃ pc', s'.calls = Function.update s.calls id' (some (.opener pc')) := by
          cases openerStep_effect hstep with
          | connect q pc' _ _ _ _ hcalls _ _ => exact ⟨pc', hcalls⟩
          | publish _ _ _ _ heq | refuse _ _ _ _ heq | unregister _ _ heq | seed _ _ _ _ heq
          | startWorker _ _ heq => exact ⟨_, by rw [heq]; rfl⟩
        obtain ⟨pc', hcalls⟩ := hcalls
        rw [openerAt_update s s' hcalls, Function.update_of_ne hid]
        exact hrecord

theorem Recorded.step {l : Label} (h : Recorded s) (hborn : Born s) (hcustody : Custody slot s s')
    (hs : SdkPool.step sdk slot s l = some s') : Recorded s' := by
  intro p i hk
  rcases hcustody.kept p i hk with hold | ⟨-, -, id, -, hrecord⟩
  · rcases h p i hold with hsome | ⟨id, hrecord⟩
    · exact .inl fun hnone => hsome (step_entries hs (hold.lt_next hborn) hnone)
    · exact (step_record hs hrecord).imp_right fun hrecord' => ⟨id, hrecord'⟩
  · exact .inr ⟨id, hrecord⟩

end Steps

/-- What holds of the pools of a slot as long as `PoolClose` takes no pool whose
`PoolOpen` is still in progress. -/
structure InCharge (sdk : Sdk) (slot : Nat) (s : State) : Prop where
  queued : Queued sdk s
  entries : Entries slot s
  control : Control s
  recorded : Recorded s

theorem Initial.not_kept {slot : Nat} {s : State} (h : Initial slot s) (p : PoolId) (i : Nat) :
    ¬ s.Kept p i := by
  obtain ⟨-, hreg, -, hcalls, -⟩ := h
  simp [State.Kept, State.KeptBy, State.Settled, State.openerAt, State.closerAt, hreg, hcalls]

theorem inCharge_of_reaches {sdk : Sdk} {slot : Nat} {s : State} {ok : State → Label → Prop}
    (hok : ∀ s l, ok s l → ClosesOpened s l) (h : (pools sdk slot).Reaches ok s) :
    InCharge sdk slot s := by
  refine h.invariant (InCharge sdk slot) (fun s hinit => ?_) (fun s l s' hinv hsl hs => ?_)
  · exact ⟨hinit.queued, hinit.entries, hinit.control, fun p i hk => absurd hk (hinit.not_kept p i)⟩
  · have hcustody := custody_step hinv.control hinv.queued hinv.entries hinv.recorded (hok s l hsl) hs
    exact ⟨hinv.queued.step hs, hinv.entries.step hinv.queued.born hs,
      hinv.control.step hinv.queued (hok s l hsl) hs, hinv.recorded.step hinv.queued.born hcustody hs⟩

end BpClient.SdkPool
