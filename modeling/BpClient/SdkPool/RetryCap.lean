import BpClient.SdkPool.AllDead

/-!
The retry cap of `PoolTxRx` against the entries of its pool. As many attempts as
there are entries have been at all of them when none is taken twice, or when the
live ones stay in the queue and come up one after the other.
-/

namespace BpClient.SdkPool

open BpClient.Lib

/-- How many entries of `p` the call has taken from the queue, while it looks for
a live one. -/
def CallerPc.pulls (p : PoolId) : CallerPc → Option Nat
  | .acquire p' n => if p' = p then some n else none
  | .got p' _ n | .putBack p' _ n => if p' = p then some (n + 1) else none
  | _ => none

/-- The call has taken an entry, and is not done looking. -/
def State.Tries (s : State) (id : CallId) (p : PoolId) : Prop :=
  ∃ pc m, s.callerAt id = some pc ∧ pc.pulls p = some (m + 1)

/-- From the first entry on that the call has taken, nobody else holds a live one. -/
def Undisturbed (tr : List (State × Label)) (id : CallId) (p : PoolId) : Prop :=
  ∀ q ∈ tr, q.1.Tries id p → ∀ x j, x ≠ some id → (q.1.lease p).holds x = some j →
    (q.1.pools p).isDead j = true

/-- The call puts no entry back twice, and the keepalive worker has connected
none again while it was in progress. -/
structure TakesEachOnce (tr : List (State × Label)) (id : CallId) (p : PoolId) : Prop where
  once : ∀ q ∈ tr, ∀ q' ∈ tr, ∀ i n n', q.1.callerAt id = some (.putBack p i n) →
    q'.1.callerAt id = some (.putBack p i n') → n = n'
  unrevived : ∀ q ∈ tr, q.1.During id p → ∀ j, (q.1.pools p).worker ≠ some (.revive j)

/-- A call that reaches the retry cap has taken no entry twice, or has been alone
with the dead ones. -/
def CapCounts (sdk : Sdk) (tr : List (State × Label)) : Prop :=
  ∀ pre t l post id p, tr = pre ++ (t, l) :: post → ReachesCap sdk t l id p →
    TakesEachOnce (pre ++ [(t, l)]) id p ∨ Undisturbed (pre ++ [(t, l)]) id p

section Steps

variable {sdk : Sdk} {slot : Nat} {s s' : State} {l : Label} {id : CallId} {p : PoolId}
  {pc : CallerPc}

theorem not_unready_of_during (hq : Queued sdk s) (h : s.During id p) : ¬s.Unready p := by
  obtain ⟨pc, hc, huses⟩ := h
  exact fun hunready => (hq.unready p hunready).callers id pc hc huses

theorem uses_of_pulls {m : Nat} (h : pc.pulls p = some m) : pc.uses = some p := by
  cases pc <;> simp_all [CallerPc.pulls, CallerPc.uses]

/-- Only the worker brings an entry of a pool that is in use back to life, and it
holds the entry then. -/
theorem step_keepsDead {i : Nat} (hready : ¬s.Unready p)
    (hs : step sdk slot s l = some s') (hdead : (s.pools p).isDead i = true) :
    (s'.pools p).isDead i = true ∨ (s.pools p).worker = some (.revive i) ∧
      (s'.pools p).worker = some (.give .reopen i i) := by
  have same : (s'.pools p).entries i = (s.pools p).entries i → (s'.pools p).isDead i = true :=
    fun h => by rwa [Pool.isDead, h]
  cases step_of hs with
  | start id' pc' _ hnone hstart heq => exact .inl (same (heq ▸ rfl))
  | caller id' env pc' hc' hstep =>
      obtain ⟨free, inflight, hcore⟩ := (callerStep_frame hc' hstep).core p
      exact .inl (same (by rw [hcore]))
  | opener id' env pc' hc' hstep =>
      left
      apply same
      apply congrFun (openerStep_entries _ _ hstep) i
      · exact fun h => hready (.inl h.ge)
      · exact fun h => hready (.inr ⟨id', (opens_of_openerAt hc').trans h⟩)
  | closer id' env pc' hc' hstep =>
      obtain ⟨initialized, stop, hcore, -⟩ := (closerStep_frame hc' hstep).pools p
      exact .inl (same (by rw [hcore]))
  | worker p' env w hw hstep =>
      by_cases hp : p = p'
      · subst p'
        cases workerStep_marks hstep with
        | none hsame => exact .inl (same (by rw [hsame]))
        | lost j _ hlost =>
            left
            by_cases hij : i = j
            · subst j
              obtain ⟨e, he, -⟩ := (Option.any_eq_true _ _).mp hdead
              simp [Pool.isDead, hlost, Pool.setDead, he]
            · exact same (by rw [hlost, setDead_other _ hij])
        | revived j hrevive hgive hrevived =>
            by_cases hij : i = j
            · subst j
              exact .inr ⟨hrevive ▸ hw, hgive⟩
            · exact .inl (same (by rw [hrevived, setDead_other _ hij]))
      · exact .inl (same (by rw [(workerStep_frame hw hstep).pools p hp]))

/-- A step that is not the call's own: the call stays where it is, and somebody
else may take an index from the queue or put one back. -/
structure Elsewhere (sdk : Sdk) (s s' : State) (id : CallId) (p : PoolId) (pc : CallerPc) :
    Prop where
  stays : s'.callerAt id = some pc
  size : (s'.pools p).size = (s.pools p).size
  move : ∃ x, x ≠ some id ∧ FreeList.Move ((s.pools p).stopped sdk = true) (s.lease p).free
    ((s.lease p).holds x) (s'.lease p).free ((s'.lease p).holds x)

/-- A step is a step of the call, or leaves the call where it is. -/
theorem step_elsewhere (hq : Queued sdk s) (hs : step sdk slot s l = some s')
    (hc : s.callerAt id = some pc) (huses : pc.uses = some p) :
    (∃ env, l = .run id env ∧ callerStep sdk s id env pc = some s') ∨
      Elsewhere sdk s s' id p pc := by
  have hready : ¬s.Unready p := not_unready_of_during hq ⟨pc, hc, huses⟩
  rcases step_caller hs hc with hown | hstays
  · exact .inl hown
  · have quiet : (s'.pools p).size = (s.pools p).size → (s'.pools p).free = (s.pools p).free →
        (s'.lease p).holds none = (s.lease p).holds none → Elsewhere sdk s s' id p pc :=
      fun hsize hfree hheld => ⟨hstays, hsize, none, by simp, .quiet hfree hheld⟩
    have untouched : s'.pools p = s.pools p → Elsewhere sdk s s' id p pc := fun hpool =>
      quiet (by rw [hpool]) (by rw [hpool]) (by rw [lease_worker, lease_worker, hpool])
    cases step_of hs with
    | start id' pc' _ hnone hstart heq => exact .inr (untouched (heq ▸ rfl))
    | caller id' env pc' hc' hstep =>
        by_cases hid : id' = id
        · subst id'
          cases Option.some.inj (hc.symm.trans hc')
          exact .inl ⟨env, rfl, hstep⟩
        · have hframe := callerStep_frame hc' hstep
          obtain ⟨free, inflight, hcore⟩ := hframe.core p
          exact .inr ⟨hstays, by rw [hcore], some id', by simpa using hid, hframe.move p⟩
    | opener id' env pc' hc' hstep =>
        have hother : ∀ p', pc'.opens = some (p', .connecting) → p ≠ p' := by
          rintro p' hopens rfl
          exact hready (.inr ⟨id', (opens_of_openerAt hc').trans hopens⟩)
        refine .inr ?_
        cases openerStep_effect hstep with
        | publish size keepalive _ _ heq =>
            have hp : p ≠ s.next := fun h => hready (.inl h.ge)
            apply untouched
            rw [heq]
            simp [State.setCall, State.setPool, hp]
        | refuse size keepalive _ _ heq => exact untouched (heq ▸ rfl)
        | connect p' pc'' _ _ _ _ _ hpools _ =>
            obtain ⟨entries, hpool⟩ := hpools p
            exact quiet (by rw [hpool]) (by rw [hpool]) (by rw [lease_worker, lease_worker, hpool])
        | unregister p' _ heq => exact untouched (heq ▸ rfl)
        | seed p' pc'' hpc _ heq =>
            have hp : p ≠ p' := hother p' (by rw [hpc]; rfl)
            apply untouched
            rw [heq]
            simp [State.setCall, State.setPool, hp]
        | startWorker p' hpc heq =>
            by_cases hp : p = p'
            · subst p'
              have hidle := hq.idle id' p ((opens_of_openerAt hc').trans (by rw [hpc]; rfl))
              apply quiet
              · rw [heq]
                simp [State.setCall, State.setPool]
              · rw [heq]
                simp [State.setCall, State.setPool]
              · rw [lease_worker, lease_worker, hidle, heq]
                simp [State.setCall, State.setPool, WorkerPc.held]
            · apply untouched
              rw [heq]
              simp [State.setCall, State.setPool, hp]
    | closer id' env pc' hc' hstep =>
        obtain ⟨initialized, stop, hpool, -⟩ := (closerStep_frame hc' hstep).pools p
        exact .inr (quiet (by rw [hpool]) (by rw [hpool])
          (by rw [lease_worker, lease_worker, hpool]))
    | worker p' env w hw hstep =>
        by_cases hp : p = p'
        · subst p'
          have hframe := workerStep_frame hw hstep
          obtain ⟨free, entries, worker, hcore⟩ := hframe.core
          exact .inr ⟨hstays, by rw [hcore], none, by simp, hframe.move⟩
        · exact .inr (untouched ((workerStep_frame hw hstep).pools p hp))

theorem size_of_during (hq : Queued sdk s) (hs : step sdk slot s l = some s')
    (h : s.During id p) : (s'.pools p).size = (s.pools p).size := by
  obtain ⟨pc, hc, huses⟩ := h
  rcases step_elsewhere hq hs hc huses with ⟨env, -, hstep⟩ | helse
  · obtain ⟨free, inflight, hcore⟩ := (callerStep_frame hc hstep).core p
    rw [hcore]
  · exact helse.size

/-- The steps of a call that looks for a live entry. -/
inductive Pulled (sdk : Sdk) (s s' : State) (p : PoolId) : CallerPc → CallerPc → Prop
  | take (i n : Nat) : (s.pools p).free = i :: (s'.pools p).free →
      Pulled sdk s s' p (.acquire p n) (.got p i n)
  | look (i n : Nat) : (s.pools p).isDead i = true → (s'.pools p).free = (s.pools p).free →
      Pulled sdk s s' p (.got p i n) (.putBack p i n)
  | back (i n : Nat) : FreeList.Move ((s.pools p).stopped sdk = true) (s.pools p).free (some i)
      (s'.pools p).free none → Pulled sdk s s' p (.putBack p i n) (.acquire p (n + 1))

/-- A call that still looks after a step has taken the head of the queue, found it dead, or
put it back. -/
theorem callerStep_pulled {env : Env} {pc' : CallerPc} {m : Nat}
    (hs : callerStep sdk s id env pc = some s') (hc' : s'.callerAt id = some pc')
    (hpulls : pc'.pulls p = some (m + 1)) : Pulled sdk s s' p pc pc' := by
  have goes : ∀ (t : State) (pc'' : CallerPc), s' = t.setCall id (.caller pc'') → pc' = pc'' := by
    rintro t pc'' rfl
    exact Option.some.inj (hc'.symm.trans (callerAt_setCall_self t id pc''))
  cases pc with
  | enter =>
      simp only [callerStep, Option.some.injEq] at hs
      obtain rfl := goes _ _ hs.symm
      split at hpulls <;> cases hpulls
  | check p' =>
      simp only [callerStep, Option.some.injEq] at hs
      obtain rfl := goes _ _ hs.symm
      split at hpulls <;> cases hpulls
  | count p' =>
      simp only [callerStep, Option.some.injEq] at hs
      obtain rfl := goes _ _ hs.symm
      simp only [CallerPc.pulls] at hpulls
      split at hpulls <;> cases hpulls
  | acquire p' n =>
      simp only [callerStep] at hs
      split at hs
      · split at hs <;> cases hs
        obtain rfl := goes _ _ rfl
        cases hpulls
      · split at hs
        · next i rest hfree =>
            cases hs
            obtain rfl := goes _ _ rfl
            cases uses_of_pulls hpulls
            have hself := pools_setPool_self s p { s.pools p with free := rest }
            exact .take i _ (hfree.trans (congrArg (i :: ·) (congrArg Pool.free hself).symm))
        · split at hs <;> cases hs
          obtain rfl := goes _ _ rfl
          cases hpulls
  | got p' i n =>
      simp only [callerStep, Option.map_eq_some_iff] at hs
      obtain ⟨e, he, rfl⟩ := hs
      obtain rfl := goes _ _ rfl
      split at hpulls
      · next hdead =>
          rw [if_pos hdead]
          cases uses_of_pulls hpulls
          exact .look i _ (by rw [Pool.isDead, he, Option.any_some, hdead]) rfl
      · cases hpulls
  | putBack p' i n =>
      simp only [callerStep, Option.map_eq_some_iff] at hs
      obtain ⟨⟨q, stopped⟩, hgive, rfl⟩ := hs
      obtain rfl := goes _ _ rfl
      split at hpulls
      · cases hpulls
      · next hstopped =>
          split at hpulls
          · cases hpulls
          · next hcap =>
              rw [if_neg hstopped, if_neg hcap]
              cases uses_of_pulls hpulls
              obtain ⟨-, hmove⟩ := give_move hgive
              apply Pulled.back
              rw [show ((s.setPool p q).setCall id _).pools p = q from pools_setPool_self s p q]
              exact hmove
  | send p' i =>
      simp only [callerStep, Option.map_eq_some_iff] at hs
      obtain ⟨e, -, rfl⟩ := hs
      obtain rfl := goes _ _ rfl
      split at hpulls <;> cases hpulls
  | running p' i h =>
      cases hs
      obtain rfl := goes _ _ rfl
      cases hpulls
  | release p' i r =>
      simp only [callerStep, Option.map_eq_some_iff] at hs
      obtain ⟨⟨q, stopped⟩, -, rfl⟩ := hs
      obtain rfl := goes _ _ rfl
      cases hpulls
  | leave p' r =>
      cases hs
      obtain rfl := goes _ _ rfl
      cases hpulls
  | done r => cases hs

/-- A call in a pool stays in it until it is done. -/
theorem during_step (hs : step sdk slot s l = some s') (h : s.During id p) :
    s'.During id p ∨ ∃ r, s'.callerAt id = some (.done r) := by
  obtain ⟨pc, hc, huses⟩ := h
  rcases step_caller hs hc with ⟨env, -, hstep⟩ | hstays
  · cases pc with
    | enter | check p' | done r => cases huses
    | count p' =>
        cases huses
        cases hstep
        exact .inl ⟨_, callerAt_setCall_self _ _ _, rfl⟩
    | acquire p' n =>
        cases huses
        simp only [callerStep] at hstep
        split at hstep
        · split at hstep <;> cases hstep
          exact .inl ⟨_, callerAt_setCall_self _ _ _, rfl⟩
        · split at hstep
          · cases hstep
            exact .inl ⟨_, callerAt_setCall_self _ _ _, rfl⟩
          · split at hstep <;> cases hstep
            exact .inl ⟨_, callerAt_setCall_self _ _ _, rfl⟩
    | got p' i n | send p' i =>
        cases huses
        simp only [callerStep, Option.map_eq_some_iff] at hstep
        obtain ⟨e, -, rfl⟩ := hstep
        refine .inl ⟨_, callerAt_setCall_self _ _ _, ?_⟩
        split <;> rfl
    | putBack p' i n =>
        cases huses
        simp only [callerStep, Option.map_eq_some_iff] at hstep
        obtain ⟨⟨q, stopped⟩, -, rfl⟩ := hstep
        refine .inl ⟨_, callerAt_setCall_self _ _ _, ?_⟩
        split
        · rfl
        · split <;> rfl
    | running p' i h =>
        cases huses
        cases hstep
        exact .inl ⟨_, callerAt_setCall_self _ _ _, rfl⟩
    | release p' i r =>
        cases huses
        simp only [callerStep, Option.map_eq_some_iff] at hstep
        obtain ⟨⟨q, stopped⟩, -, rfl⟩ := hstep
        exact .inl ⟨_, callerAt_setCall_self _ _ _, rfl⟩
    | leave p' r =>
        cases hstep
        exact .inr ⟨r, callerAt_setCall_self _ _ _⟩
  · exact .inl ⟨pc, hstays, huses⟩

/-- Where a call was before a step. -/
theorem step_callerAt (hs : step sdk slot s l = some s') (hc' : s'.callerAt id = some pc) :
    pc = .enter ∨ s.callerAt id = some pc ∨ ∃ env pc', s.callerAt id = some pc' ∧
      l = .run id env ∧ callerStep sdk s id env pc' = some s' := by
  cases hc : s.callerAt id with
  | some pc' =>
      right
      rcases step_caller hs hc with ⟨env, hl, hstep⟩ | hstays
      · exact .inr ⟨env, pc', rfl, hl, hstep⟩
      · exact .inl (hstays.symm.trans hc')
  | none =>
      left
      have unmoved : s'.callerAt = s.callerAt → pc = .enter := fun h => by
        rw [h, hc] at hc'
        cases hc'
      cases step_of hs with
      | start id' pc' _ hnone hstart heq =>
          have hcalls : s'.calls = Function.update s.calls id' (some pc') := by
            rw [heq]
            rfl
          have hcaller := callerAt_update s s' hcalls
          rw [hcaller] at hc'
          by_cases hid : id = id'
          · rw [hid, Function.update_self] at hc'
            cases hstart with
            | poolTxRx => exact (Option.some.inj hc').symm
            | poolOpen | poolClose => cases hc'
          · rw [Function.update_of_ne hid, hc] at hc'
            cases hc'
      | caller id' env pc' hother hstep =>
          obtain ⟨pc'', hcaller, -⟩ := (callerStep_frame hother hstep).caller
          have hid : id ≠ id' := by
            rintro rfl
            rw [hc] at hother
            cases hother
          rw [hcaller, Function.update_of_ne hid, hc] at hc'
          cases hc'
      | opener id' env pc' hother hstep =>
          obtain ⟨pc'', hcalls⟩ := (openerStep_effect hstep).calls
          exact unmoved (openerAt_setCall s' hother pc'' hcalls).1
      | closer id' env pc' hother hstep => exact unmoved (closerStep_frame hother hstep).caller
      | worker p' env w hw hstep => exact unmoved (workerStep_frame hw hstep).callerAt

end Steps

/-- Which attempt of the call it is at. -/
def CallerPc.attempt (p : PoolId) : CallerPc → Option Nat
  | .acquire p' n | .got p' _ n | .putBack p' _ n => if p' = p then some n else none
  | _ => none

section Runs

variable {sdk : Sdk} {slot : Nat} {s : State} {tr : List (State × Label)} {id : CallId}
  {p : PoolId} {pc : CallerPc}

/-- What a call is about to put back is dead. -/
theorem putBack_dead (h : (pools sdk slot).Reachable s) {i n : Nat}
    (hc : s.callerAt id = some (.putBack p i n)) : (s.pools p).isDead i = true := by
  have hknown : ∀ s, (pools sdk slot).Reachable s → Queued sdk s := fun _ => queued_of_reachable
  apply h.invariant_of hknown
    (fun s => ∀ i n, s.callerAt id = some (.putBack p i n) → (s.pools p).isDead i = true) _ _ i n hc
  · rintro s ⟨-, -, -, hcalls, -⟩ i n hc
    simp [State.callerAt, hcalls] at hc
  · intro s l s' hq ih _ hs i n hc'
    have hheld : (CallerPc.putBack p i n).heldIn p = some i := if_pos rfl
    rcases step_callerAt hs hc' with henter | hstays | ⟨env, pc', hc, -, hstep⟩
    · cases henter
    · rw [Pool.isDead, step_heldEntry hq hs hstays hheld]
      exact ih i n hstays
    · have hpulls : (CallerPc.putBack p i n).pulls p = some (n + 1) := if_pos rfl
      have hdead : (s.pools p).isDead i = true := by
        cases callerStep_pulled hstep hc' hpulls with
        | look _ _ hdead _ => exact hdead
      obtain ⟨free, inflight, hcore⟩ := (callerStep_frame hc hstep).core p
      rw [hcore]
      exact hdead

/-- As long as nobody else holds a live entry, those in the queue come up before
the call has made all its attempts. -/
theorem comesUp_of_undisturbed {m : Nat} (htr : (pools sdk slot).Trace tr s)
    (hund : Undisturbed tr id p) (hc : s.callerAt id = some pc) (hpulls : pc.pulls p = some m) :
    FreeList.ComesUp (fun i => (s.pools p).isDead i = false) (s.pools p).free m
      (s.pools p).size := by
  induction htr generalizing pc m with
  | init h =>
      obtain ⟨-, -, -, hcalls, -⟩ := h
      simp [State.callerAt, hcalls] at hc
  | @step tr s s' l htr hs ih =>
      have hq := queued_of_reachable htr.reachable
      have hq' := hq.step hs
      have hold : Undisturbed tr id p := fun q hq => hund q (List.mem_append_left _ hq)
      cases m with
      | zero => exact FreeList.comesUp_of_length_le (hq'.lists p).length_le
      | succ m =>
          have own : ∀ env pc', s.callerAt id = some pc' → callerStep sdk s id env pc' = some s' →
              FreeList.ComesUp (fun i => (s'.pools p).isDead i = false) (s'.pools p).free (m + 1)
                (s'.pools p).size := by
            intro env pc' hc₀ hstep
            obtain ⟨free, inflight, hcore⟩ := (callerStep_frame hc₀ hstep).core p
            have hsame : (fun i => (s'.pools p).isDead i = false) =
                fun i => (s.pools p).isDead i = false := by rw [hcore]; rfl
            have hsize : (s'.pools p).size = (s.pools p).size := by rw [hcore]
            rw [hsame, hsize]
            cases callerStep_pulled hstep hc hpulls with
            | take i n hfree =>
                obtain rfl : n = m := by simpa [CallerPc.pulls] using hpulls
                have hbefore := ih hold hc₀ (if_pos rfl)
                rw [hfree] at hbefore
                exact hbefore.take
            | look i n _ hfree =>
                rw [hfree]
                exact ih hold hc₀ hpulls
            | back i n hmove =>
                obtain rfl : n = m := by simpa [CallerPc.pulls] using hpulls
                apply hmove.comesUp _ (ih hold hc₀ (if_pos rfl))
                rintro j ⟨⟩
                rw [putBack_dead htr.reachable hc₀]
                simp
          rcases step_callerAt hs hc with rfl | hstays | ⟨env, pc', hc₀, -, hstep⟩
          · cases hpulls
          · rcases step_elsewhere hq hs hstays (uses_of_pulls hpulls) with
              ⟨env, -, hstep⟩ | ⟨-, hsize, x, hx, hmove⟩
            · exact own env pc hstays hstep
            · rw [hsize]
              have hheld : ∀ i, (s.lease p).holds x = some i → ¬(s.pools p).isDead i = false := by
                intro i hi
                rw [hund (s, l) (by simp) ⟨pc, m, hstays, hpulls⟩ x i hx hi]
                simp
              apply (hmove.comesUp hheld (ih hold hstays hpulls)).mono
              intro i hi hlive
              cases hdead : (s.pools p).isDead i with
              | false => rfl
              | true =>
                  have hready := not_unready_of_during hq ⟨pc, hstays, uses_of_pulls hpulls⟩
                  rcases step_keepsDead hready hs hdead with hkept | ⟨-, hgive⟩
                  · rw [hkept] at hlive
                    cases hlive
                  · have hworker : (s'.lease p).holds none = some i := by
                      rw [lease_worker, hgive, Option.bind_some, WorkerPc.held]
                    exact absurd hi ((hq'.lists p).apart none i hworker)
          · exact own env pc' hc₀ hstep

/-- A call that has been in a pool is in it, or done. -/
theorem during_after (htr : (pools sdk slot).Trace tr s) :
    ∀ q ∈ tr, q.1.During id p → s.During id p ∨ ∃ r, s.callerAt id = some (.done r) := by
  apply htr.history (r := fun q s => q.1.During id p →
    s.During id p ∨ ∃ r, s.callerAt id = some (.done r))
  · exact fun s l s' hs hd => during_step hs hd
  · intro q s l s' hr hs hd
    rcases hr hd with hd | ⟨r, hdone⟩
    · exact during_step hs hd
    · rcases step_caller hs hdone with ⟨env, -, hstep⟩ | hdone'
      · cases hstep
      · exact .inr ⟨r, hdone'⟩

/-- What the call puts back is an entry of the pool, and dead. -/
theorem putBack_entry (h : (pools sdk slot).Reachable s) {i n : Nat}
    (hc : s.callerAt id = some (.putBack p i n)) :
    i < (s.pools p).size ∧ (s.pools p).isDead i = true := by
  have hheld : (s.lease p).holds (some id) = some i := by
    rw [lease_call, hc]
    exact if_pos rfl
  exact ⟨((queued_of_reachable h).lists p).held_lt _ i hheld, putBack_dead h hc⟩

/-- What the call has put back stays dead, if the worker does not bring it back to
life. -/
theorem putBack_unrevived (htr : (pools sdk slot).Trace tr s) (hduring : s.During id p)
    (hworker : ∀ q ∈ tr, q.1.During id p → ∀ j, (q.1.pools p).worker ≠ some (.revive j)) :
    ∀ q ∈ tr, ∀ i n, q.1.callerAt id = some (.putBack p i n) →
      i < (s.pools p).size ∧ (s.pools p).isDead i = true := by
  induction htr with
  | init _ => simp
  | @step tr s s' l htr hs ih =>
      intro q hmem i n hc
      have hq := queued_of_reachable htr.reachable
      have hbefore : s.During id p ∧ i < (s.pools p).size ∧ (s.pools p).isDead i = true := by
        rcases List.mem_append.mp hmem with hold | hlast
        · rcases during_after htr q hold ⟨_, hc, rfl⟩ with hd | ⟨r, hdone⟩
          · exact ⟨hd, ih hd (fun q hq => hworker q (List.mem_append_left _ hq)) q hold i n hc⟩
          · obtain ⟨pc, hpc, huses⟩ := hduring
            rcases step_caller hs hdone with ⟨env, -, hstep⟩ | hdone'
            · cases hstep
            · cases Option.some.inj (hpc.symm.trans hdone')
              cases huses
        · rw [List.mem_singleton] at hlast
          subst hlast
          exact ⟨⟨_, hc, rfl⟩, putBack_entry htr.reachable hc⟩
      obtain ⟨hd, hlt, hdead⟩ := hbefore
      refine ⟨(size_of_during hq hs hd).symm ▸ hlt, ?_⟩
      rcases step_keepsDead (not_unready_of_during hq hd) hs hdead with hkept | ⟨hrevive, -⟩
      · exact hkept
      · exact absurd hrevive (hworker (s, l) (by simp) hd i)

theorem pulls_of_attempt {n : Nat} (h : pc.attempt p = some (n + 1)) :
    ∃ m, pc.pulls p = some (m + 1) := by
  cases pc <;> simp_all [CallerPc.attempt, CallerPc.pulls]

/-- A call has put an entry back in each of its attempts so far. -/
theorem putBack_of_attempt {n : Nat} (htr : (pools sdk slot).Trace tr s)
    (hc : s.callerAt id = some pc) (hn : pc.attempt p = some n) :
    ∀ k < n, ∃ q ∈ tr, ∃ i, q.1.callerAt id = some (.putBack p i k) := by
  induction htr generalizing pc n with
  | init h =>
      obtain ⟨-, -, -, hcalls, -⟩ := h
      simp [State.callerAt, hcalls] at hc
  | @step tr s s' l htr hs ih =>
      intro k hk
      have earlier : (∃ q ∈ tr, ∃ i, q.1.callerAt id = some (.putBack p i k)) →
          ∃ q ∈ tr ++ [(s, l)], ∃ i, q.1.callerAt id = some (.putBack p i k) := by
        rintro ⟨q, hq, hput⟩
        exact ⟨q, List.mem_append_left _ hq, hput⟩
      cases n with
      | zero => omega
      | succ n =>
          obtain ⟨m, hpulls⟩ := pulls_of_attempt hn
          rcases step_callerAt hs hc with rfl | hstays | ⟨env, pc', hc₀, -, hstep⟩
          · cases hn
          · exact earlier (ih hstays hn k hk)
          · cases callerStep_pulled hstep hc hpulls with
            | take i m' _ => exact earlier (ih hc₀ hn k hk)
            | look i m' _ _ => exact earlier (ih hc₀ hn k hk)
            | back i m' _ =>
                obtain rfl : m' = n := by simpa [CallerPc.attempt] using hn
                rcases Nat.lt_succ_iff_lt_or_eq.mp hk with hlt | rfl
                · exact earlier (ih hc₀ (if_pos rfl) k hlt)
                · exact ⟨(s, l), by simp, i, hc₀⟩

end Runs

section Main

variable {sdk : Sdk} {slot : Nat} {s s' : State} {l : Label} {id : CallId} {p : PoolId}
  {tr : List (State × Label)}

/-- While a pool is open each index is in its queue or held by somebody. -/
theorem Queued.allDead_iff (hq : Queued sdk s) (hopen : s.Open sdk p) :
    (s.pools p).AllDead ↔ (∀ j ∈ (s.pools p).free, (s.pools p).isDead j = true) ∧
      ∀ x j, (s.lease p).holds x = some j → (s.pools p).isDead j = true := by
  obtain ⟨⟨id, ph, hopens, hph⟩, hstop⟩ := hopen
  constructor
  · intro hall
    exact ⟨fun j hj => hall j ((hq.lists p).free_lt j hj),
      fun x j hx => hall j ((hq.lists p).held_lt x j hx)⟩
  · rintro ⟨hfree, hheld⟩ i hi
    rcases hq.full id p ph hopens hph hstop i hi with hmem | ⟨x, hx⟩
    · exact hfree i hmem
    · exact hheld x i hx

/-- A call gives up when it puts back the dead entry of its last attempt. -/
theorem givesUp_iff (hs : step sdk slot s l = some s') :
    GivesUp sdk s s' id p ↔ ReachesCap sdk s l id p := by
  have leaves : ∀ env i n, (s.pools p).stopped sdk = false →
      callerStep sdk s id env (.putBack p i n) = some s' →
      s'.callerAt id = some (if n + 1 ≥ (s.pools p).size then .leave p .allDead
        else .acquire p (n + 1)) := by
    intro env i n hstop hstep
    simp only [callerStep, Option.map_eq_some_iff] at hstep
    obtain ⟨⟨q, stopped⟩, hgive, rfl⟩ := hstep
    have hback : q.size = (s.pools p).size ∧ stopped = false := by
      obtain ⟨⟨free, rfl⟩, -⟩ := give_move hgive
      refine ⟨rfl, ?_⟩
      cases sdk with
      | go =>
          simp only [Pool.give] at hgive
          split at hgive
          · split at hgive
            · next hset =>
                rw [Pool.stopped, hset] at hstop
                cases hstop
            · cases hgive
          · exact (congrArg Prod.snd (Option.some.inj hgive)).symm
      | python => exact (congrArg Prod.snd (Option.some.inj hgive)).symm
    rw [callerAt_setCall_self]
    simp only [hback.2, Bool.false_eq_true, if_false, hback.1]
  constructor
  · rintro ⟨hopen, ⟨i, n, hc⟩, hafter⟩
    rcases step_caller hs hc with ⟨env, rfl, hstep⟩ | hsame
    · refine ⟨hopen, env, i, n, rfl, hc, ?_⟩
      by_contra hcap
      rw [leaves env i n hopen.2 hstep, if_neg hcap] at hafter
      cases hafter
    · rw [hsame] at hafter
      cases hafter
  · rintro ⟨hopen, env, i, n, rfl, hc, hcap⟩
    refine ⟨hopen, ⟨i, n, hc⟩, ?_⟩
    rw [step_run hc] at hs
    rw [leaves env i n hopen.2 hs, if_pos hcap]

/-- As many attempts as there are entries, at different entries, have been at all of them. -/
theorem allDead_of_takesEachOnce (htr : (pools sdk slot).Trace tr s)
    (hcap : ReachesCap sdk s l id p) (honce : TakesEachOnce (tr ++ [(s, l)]) id p) :
    (s.pools p).AllDead := by
  obtain ⟨-, env, i, n, rfl, hc, hsize⟩ := hcap
  have attempts : ∀ k < n + 1, ∃ q ∈ tr ++ [(s, Label.run id env)], ∃ i,
      q.1.callerAt id = some (.putBack p i k) := by
    intro k hk
    rcases Nat.lt_succ_iff_lt_or_eq.mp hk with hlt | rfl
    · obtain ⟨q, hq, hput⟩ := putBack_of_attempt htr hc (if_pos rfl) k hlt
      exact ⟨q, List.mem_append_left _ hq, hput⟩
    · exact ⟨(s, Label.run id env), by simp, i, hc⟩
  have entries : ∀ q ∈ tr ++ [(s, Label.run id env)], ∀ i k,
      q.1.callerAt id = some (.putBack p i k) → i < (s.pools p).size ∧
        (s.pools p).isDead i = true := by
    intro q hq i k hput
    rcases List.mem_append.mp hq with hold | hlast
    · exact putBack_unrevived htr ⟨_, hc, rfl⟩
        (fun q hq => honce.unrevived q (List.mem_append_left _ hq)) q hold i k hput
    · rw [List.mem_singleton] at hlast
      subst hlast
      exact putBack_entry htr.reachable hput
  choose q hq entry hput using fun k : Fin (s.pools p).size =>
    attempts k (k.isLt.trans_le hsize)
  let pulled : Fin (s.pools p).size → Fin (s.pools p).size := fun k =>
    ⟨entry k, (entries (q k) (hq k) (entry k) k (hput k)).1⟩
  have hinj : Function.Injective pulled := by
    intro k k' heq
    have hentry : entry k = entry k' := congrArg Fin.val heq
    exact Fin.ext (honce.once (q k) (hq k) (q k') (hq k') (entry k) k k' (hput k)
      (hentry ▸ hput k'))
  intro j hj
  obtain ⟨k, hk⟩ := Finite.surjective_of_injective hinj ⟨j, hj⟩
  have hentry : entry k = j := congrArg Fin.val hk
  exact hentry ▸ (entries (q k) (hq k) (entry k) k (hput k)).2

/-- A live entry would have come up. -/
theorem allDead_of_undisturbed (htr : (pools sdk slot).Trace tr s)
    (hcap : ReachesCap sdk s l id p) (hund : Undisturbed (tr ++ [(s, l)]) id p) :
    (s.pools p).AllDead := by
  obtain ⟨hopen, env, i, n, rfl, hc, hsize⟩ := hcap
  have hpulls : (CallerPc.putBack p i n).pulls p = some (n + 1) := if_pos rfl
  have hcomes := comesUp_of_undisturbed htr
    (fun q hq => hund q (List.mem_append_left _ hq)) hc hpulls
  apply ((queued_of_reachable htr.reachable).allDead_iff hopen).mpr
  constructor
  · intro j hj
    obtain ⟨k, hk⟩ := List.mem_iff_getElem?.mp hj
    by_contra hlive
    have hlt := hcomes k j hk (Bool.eq_false_of_not_eq_true hlive)
    omega
  · intro x j hx
    by_cases hown : x = some id
    · subst x
      rw [lease_call, hc] at hx
      obtain rfl : i = j := by simpa [CallerPc.heldIn, CallerPc.pool, CallerPc.held] using hx
      exact putBack_dead htr.reachable hc
    · exact hund (s, Label.run id env) (by simp) ⟨_, n, hc, hpulls⟩ x j hown hx

theorem OnlyAfterAllDead.of_never (h : NeverWhileAlive sdk slot tr) :
    OnlyAfterAllDead sdk slot tr := by
  rintro pre t l post t' id p rfl hs hgives
  have hmem : (t, l) ∈ pre ++ (t, l) :: post := by simp
  have hdead : (t.pools p).AllDead := by
    by_contra hlive
    exact h _ hmem t' id p hs hlive hgives
  obtain ⟨i, n, hc⟩ := hgives.before
  exact ⟨(t, l), by simp, ⟨_, hc, rfl⟩, hdead⟩

theorem serves_of_queued (hq : Queued sdk s) : Serves sdk slot s where
  waits := fun _ _ _ hopen hc hfree _ => acquire_waits hopen.2 hc hfree
  takes := fun _ _ _ dead _ _ hopen hc hfree hdead hlive hn =>
    takes_live dead hopen.2 hc hfree hdead hlive hn
  sends := by
    intro id p i n hc hlive l s' hs
    rcases step_caller hs hc with ⟨env, rfl, -⟩ | hsame
    · rw [got_live hc hlive] at hs
      cases hs
      exact .inl (callerAt_setCall_self ..)
    · have hheld : (CallerPc.got p i n).heldIn p = some i := if_pos rfl
      refine .inr ⟨hsame, ?_⟩
      rw [Pool.isLive, step_heldEntry hq hs hc hheld]
      exact hlive

/-- In a run in which every call that reaches the retry cap has taken no entry
twice, or has been alone with the dead ones, a call of an open pool fails because
all entries are dead only if that is so. Otherwise it waits for a live entry and
uses it. -/
theorem poolTxRx_allDead (htr : (pools sdk slot).Trace tr s) (hcap : CapCounts sdk tr) :
    OnlyAfterAllDead sdk slot tr ∧ NeverWhileAlive sdk slot tr ∧ Serves sdk slot s := by
  have hnever : NeverWhileAlive sdk slot tr := by
    rintro ⟨t, l⟩ hq t' id p hs halive hgives
    obtain ⟨pre, post, rfl⟩ := List.append_of_mem hq
    have hpre := htr.upTo.1
    have hreaches := (givesUp_iff hs).mp hgives
    rcases hcap pre t l post id p rfl hreaches with honce | hund
    · exact halive (allDead_of_takesEachOnce hpre hreaches honce)
    · exact halive (allDead_of_undisturbed hpre hreaches hund)
  exact ⟨.of_never hnever, hnever, serves_of_queued (queued_of_reachable htr.reachable)⟩

end Main

/-- The keepalive worker finds the entry at the head of the queue dead, and puts
it back. -/
def losesHead : List Label :=
  .work 0 {} :: .work 0 {} :: .work 0 {} :: .work 0 { ok := false } :: List.replicate 2 (.work 0 {})

/-- The keepalive worker finds both entries dead, and call 1 takes one after the other. -/
def takesBoth : List Label :=
  opensTwo 0 true ++ losesHead ++ .work 0 {} :: .work 0 {} :: .work 0 { ok := false } ::
    List.replicate 2 (.work 0 {}) ++ .poolTxRx 1 :: runs 1 10

/-- Call 1 is the only one that puts entries back, in the order of their indices,
and the worker connects none again. -/
def takesInOrder (s : State) (l : Label) : Bool :=
  (match s.callerAt 1 with
    | some (.putBack _ i n) => i == n
    | _ => true) &&
  (match (s.pools 0).worker with
    | some (.revive _) => false
    | _ => true) &&
  match l with
  | .run id _ =>
      match s.callerAt id with
      | some (.putBack p _ _) => id == 1 && p == 0
      | _ => true
  | _ => true

theorem capCounts_of_takesInOrder {tr : List (State × Label)}
    (h : ∀ q ∈ tr, takesInOrder q.1 q.2 = true) : CapCounts .go tr := by
  rintro pre t l post id p rfl ⟨-, env, i, n, rfl, hc, -⟩
  have hlast := h (t, .run id env) (by simp)
  simp only [takesInOrder, hc, Bool.and_eq_true, beq_iff_eq] at hlast
  obtain ⟨-, rfl, rfl⟩ := hlast
  have hpre : ∀ q ∈ pre ++ [(t, Label.run 1 env)], takesInOrder q.1 q.2 = true := by
    intro q hq
    apply h
    rw [List.append_cons]
    exact List.mem_append_left _ hq
  have order : ∀ q ∈ pre ++ [(t, Label.run 1 env)], ∀ i n,
      q.1.callerAt 1 = some (.putBack 0 i n) → i = n := by
    intro q hq i n hput
    have hq := hpre q hq
    simp only [takesInOrder, hput, Bool.and_eq_true, beq_iff_eq] at hq
    exact hq.1.1
  left
  constructor
  · intro q hq q' hq' i n n' hput hput'
    exact (order q hq i n hput).symm.trans (order q' hq' i n' hput')
  · intro q hq _ j hrevive
    have hq := hpre q hq
    simp [takesInOrder, hrevive] at hq

theorem poolTxRx_allDead_two : ∃ tr s, (pools .go 3).Trace tr s ∧
    s.callerAt 1 = some (.done .allDead) ∧ OnlyAfterAllDead .go 3 tr ∧
      NeverWhileAlive .go 3 tr ∧ Serves .go 3 s := by
  obtain ⟨tr, s, htr, hok, hend⟩ := (pools .go 3).exists_trace_of_run
    (fun s l => takesInOrder s l = true) (fresh_initial 3) takesBoth
    (fun s => decide (s.callerAt 1 = some (.done .allDead))) (by decide +kernel)
  exact ⟨tr, s, htr, of_decide_eq_true hend,
    poolTxRx_allDead htr (capCounts_of_takesInOrder hok)⟩

/-- Entry 0 is dead and call 1 uses entry 1 when call 2 takes entry 0 from the
queue twice. -/
def meetsTwice : List Label :=
  opensTwo 0 true ++ losesHead ++ .poolTxRx 1 :: runs 1 6 ++ .poolTxRx 2 :: runs 2 8

/-- The run up to the step with which call 2 fails. -/
theorem meetsTwice_run (sdk : Sdk) : ∃ tr t t', (pools sdk 3).Trace tr t ∧
    step sdk 3 t (.run 2 {}) = some t' ∧ GivesUp sdk t t' 2 0 ∧
      ∀ q ∈ tr ++ [(t, .run 2 {})], q.1.During 2 0 → ¬(q.1.pools 0).AllDead := by
  obtain ⟨tr, t, htr, hok, hend⟩ := (pools sdk 3).exists_trace_of_run
    (fun s _ => (s.pools 0).isDead 1 = false ∧ (s.callerAt 2 = none ∨ (s.pools 0).size = 2))
    (fresh_initial 3) meetsTwice
    (fun t => decide (t.opens 0 = some (0, .opened) ∧ (t.pools 0).stopped sdk = false ∧
      t.callerAt 2 = some (.putBack 0 0 1) ∧ (t.pools 0).size = 2 ∧ (t.pools 0).isDead 1 = false) &&
      (step sdk 3 t (.run 2 {})).isSome) (by cases sdk <;> decide +kernel)
  rw [Bool.and_eq_true, decide_eq_true_eq] at hend
  obtain ⟨⟨hopens, hstop, hc, hsize, hlive⟩, hstep⟩ := hend
  obtain ⟨t', hs⟩ := Option.isSome_iff_exists.mp hstep
  have notAll : ∀ q : Pool, q.isDead 1 = false → q.size = 2 → ¬q.AllDead := by
    intro q hq htwo hall
    rw [hall 1 (htwo ▸ Nat.one_lt_two)] at hq
    cases hq
  refine ⟨tr, t, t', htr, hs, (givesUp_iff hs).mpr ?_, ?_⟩
  · exact ⟨⟨⟨0, _, hopens, nofun⟩, hstop⟩, {}, 0, 1, rfl, hc, hsize.le⟩
  · intro q hq hduring
    rcases List.mem_append.mp hq with hold | hlast
    · obtain ⟨hq1, hnone | htwo⟩ := hok q hold
      · obtain ⟨pc, hpc, -⟩ := hduring
        rw [hnone] at hpc
        cases hpc
      · exact notAll _ hq1 htwo
    · rw [List.mem_singleton] at hlast
      subst hlast
      exact notAll _ hlive hsize

/-- A call fails because all entries are dead although none of the entries but
one has been dead while it ran. -/
def FailsWhileAlive (sdk : Sdk) : Prop :=
  ∃ tr s, (pools sdk 3).Trace tr s ∧ ¬OnlyAfterAllDead sdk 3 tr ∧ ¬NeverWhileAlive sdk 3 tr

theorem failsWhileAlive (sdk : Sdk) : FailsWhileAlive sdk := by
  obtain ⟨tr, t, t', htr, hs, hgives, hlive⟩ := meetsTwice_run sdk
  have htr' : (pools sdk 3).Trace (tr ++ [(t, .run 2 {})]) t' := .step htr hs
  refine ⟨_, t', htr', fun h => ?_, fun h => ?_⟩
  · obtain ⟨q, hq, hduring, hall⟩ := h tr t _ [] t' 2 0 rfl hs hgives
    exact hlive q hq hduring hall
  · obtain ⟨i, n, hc⟩ := hgives.before
    have hmem : (t, Label.run 2 {}) ∈ tr ++ [(t, .run 2 {})] := by simp
    exact h _ hmem t' 2 0 hs (hlive _ hmem ⟨_, hc, rfl⟩) hgives

theorem not_allDead_of_fails : FailsWhileAlive .go ∧ FailsWhileAlive .python :=
  ⟨failsWhileAlive .go, failsWhileAlive .python⟩

end BpClient.SdkPool
