import BpClient.Slot.Steps

/-!
Slot ownership over whole runs: who is inside the section of `/bpShm`, and who
holds which slot.
-/

namespace BpClient.Slot

open BpClient.Lib

/-- Slot ownership in one state: the discipline of `GuardedCells`, and the
owner word of a slot in use is the one of the call that keeps it. -/
structure Owned (s : State) : Prop where
  cells : GuardedCells.Inv (abs s)
  nonzero : ∀ id c, s.calls id = some c → c.owner ≠ 0
  word : ∀ id c i, s.calls id = some c → c.pc.view.keeps = some i →
    (s.slots i).owner = c.owner

theorem Initial.owned {s : State} (h : Initial s) : Owned s where
  cells := .initial (by simp [abs, h.lock]) (by simp [abs, viewOf, h.calls])
    (by simp [abs, h.owner])
  nonzero := by simp [h.calls]
  word := by simp [h.calls]

theorem abs_view {s : State} {id : CallId} {c : Call} (hc : s.calls id = some c) :
    (abs s).view id = c.pc.view := by
  simp [abs, viewOf, hc]

/-- A step of one call keeps `Owned`. -/
theorem Owned.callMoves {s s' : State} {id : CallId} {c : Call} (h : Owned s)
    (hc : s.calls id = some c) (hmoves : CallMoves s s' id c) : Owned s' := by
  obtain ⟨pc', hcalls, hmove, hword, hframe⟩ := hmoves
  have hc' : s'.calls id = some { c with pc := pc' } := by simp [hcalls]
  have hother : ∀ q, q ≠ id → s'.calls q = s.calls q := fun q hq => by simp [hcalls, hq]
  have hcells : GuardedCells.Inv (abs s') := by
    refine h.cells.step (p := id) ⟨fun q hq => by simp [abs, hother q hq], ?_⟩
    rw [abs_view hc, abs_view hc']
    exact hmove
  refine ⟨hcells, ?_, ?_⟩
  · intro q d hd
    by_cases hq : q = id
    · subst q
      cases hc'.symm.trans hd
      exact h.nonzero id c hc
    · exact h.nonzero q d (hother q hq ▸ hd)
  · intro q d i hd hkeeps
    by_cases hq : q = id
    · subst q
      cases hc'.symm.trans hd
      exact hword i hkeeps (h.word id c i hc)
    · rcases hframe i with same | touched
      · rw [same]
        exact h.word q d i (hother q hq ▸ hd) hkeeps
      -- the call that moved cannot touch a slot that another call keeps
      · refine absurd (hcells.touch_unique (i := i) (.inl ?_) ?_) hq
        · exact (congrArg _ (abs_view hd)).trans hkeeps
        · rwa [abs_view hc']

/-- Every step keeps the ownership of the slots, except a `release_slot` of Python whose
wait fails. -/
theorem Owned.preserved {s s' : State} {l : Label} (h : Owned s)
    (hguard : pythonReleaseFails s l = false) (hs : step s l = some s') : Owned s' := by
  cases l with
  | start id sdk client owner =>
      obtain ⟨hnone, howner, rfl⟩ := step_start hs
      have habs : abs (s.setCall id ⟨sdk, client, owner, .reserveWait⟩) = abs s := by
        simp only [abs, GuardedCells.State.mk.injEq, setCall_lock, setCall_slots, true_and,
          and_true]
        funext q
        by_cases hq : q = id
        · subst q; simp [viewOf, hnone]
        · simp [hq]
      refine ⟨habs ▸ h.cells, ?_, ?_⟩
      · intro q d hd
        by_cases hq : q = id
        · subst q
          obtain rfl := by simpa using hd
          exact howner
        · exact h.nonzero q d (by simpa [hq] using hd)
      · intro q d i hd hkeeps
        by_cases hq : q = id
        · subst q
          obtain rfl := by simpa using hd
          simp at hkeeps
        · exact h.word q d i (by simpa [hq] using hd) hkeeps
  | call id r =>
      obtain ⟨c, hc, hs⟩ := step_call hs
      exact h.callMoves hc (callStep_moves hc (h.nonzero id c hc) hguard hs)
  | engine i act =>
      obtain ⟨hlock, hcalls, howner⟩ := engineStep_frame hs
      have habs : abs s' = abs s := by simp only [abs, hlock, hcalls, howner]
      refine ⟨habs ▸ h.cells, by simpa only [hcalls] using h.nonzero, ?_⟩
      simpa only [hcalls, howner] using h.word

/-- Ownership holds in every run in which no Python caller posts `/bpShm`
without holding it. -/
theorem owned_of_reaches {s : State}
    (h : dispatcher.Reaches (fun s l => pythonReleaseFails s l = false) s) : Owned s :=
  h.invariant Owned (fun _ => Initial.owned) (fun _ _ _ hinv hok hs => hinv.preserved hok hs)

theorem pythonReleaseFails_of_not {s : State} {l : Label} (h : releaseFails s l = false) :
    pythonReleaseFails s l = false := by
  unfold pythonReleaseFails
  repeat' split
  all_goals simp [h]

/-- A call that returns with its slot still reserved has just failed to wait for
the semaphore in `release_slot`. -/
theorem callStep_unreleased {s s' : State} {id : CallId} {c c' : Call} {r : SemResult} {rc : Rc}
    {i : Nat} (hc : s.calls id = some c) (h : callStep s id c r = some s')
    (hc' : s'.calls id = some c') (hdone : c'.pc = .done rc (some i)) :
    releaseFails s (.call id r) = true := by
  cases callStep_done hc h hc' hdone with
  | kept _ rc' hpc _ hwait _ => exact (releaseFails_call hc).mpr ⟨⟨i, rc', hpc⟩, hwait⟩

/-- A run in which every wait of `release_slot` acquires the semaphore. -/
abbrev Releasing : State → Prop := dispatcher.Reaches (fun s l => releaseFails s l = false)

theorem Releasing.owned {s : State} (h : Releasing s) : Owned s :=
  owned_of_reaches (h.mono fun _ _ => pythonReleaseFails_of_not)

/-- No call of such a run returns without giving its slot back. -/
theorem Releasing.released {s : State} (h : Releasing s) :
    ∀ id c rc i, s.calls id = some c → c.pc ≠ .done rc (some i) := by
  refine h.invariant (fun s => ∀ id c rc i, s.calls id = some c → c.pc ≠ .done rc (some i)) ?_ ?_
  · intro s hinit
    simp [hinit.calls]
  · intro s l s' ih hguard hs id c' rc i hc' hdone
    cases l with
    | start id' sdk client owner =>
        obtain ⟨-, -, rfl⟩ := step_start hs
        by_cases hid : id = id'
        · subst id'
          obtain rfl := by simpa using hc'
          cases hdone
        · exact ih id c' rc i (by simpa [hid] using hc') hdone
    | call id' r =>
        obtain ⟨c, hc, hs⟩ := step_call hs
        by_cases hid : id = id'
        · subst id'
          exact absurd (callStep_unreleased hc hs hc' hdone) (by simp [hguard])
        · obtain ⟨pc', hcalls, -, -⟩ := callStep_frame hc hs
          exact ih id c' rc i (by simpa [hcalls, hid] using hc') hdone
    | engine j act =>
        obtain ⟨-, hcalls, -⟩ := engineStep_frame hs
        exact ih id c' rc i (hcalls ▸ hc') hdone

/-- The step of a failing `release_slot`: the call returns and the slot keeps
its owner word. -/
theorem releaseFails_step {s s' : State} {l : Label} (hs : step s l = some s')
    (hfails : releaseFails s l = true) :
    ∃ id c i rc rc', s.calls id = some c ∧ c.pc = .releaseWait i rc ∧
      s'.calls = Function.update s.calls id (some { c with pc := .done rc' (some i) }) ∧
      s'.slots = s.slots := by
  cases l with
  | call id r =>
      obtain ⟨c, hc, hs⟩ := step_call hs
      obtain ⟨⟨i, rc, hpc⟩, hwait⟩ := (releaseFails_call hc).mp hfails
      have hrel : releaseStep s id c r c.pc = some s' := by
        rcases callStep_eq hs with h | h | h
        · simp [reserveStep, hpc] at h
        · simp [bodyStep, hpc] at h
        · exact h
      simp only [releaseStep, hpc, hwait, Option.map_some, Option.some.injEq] at hrel
      subst hrel
      by_cases hpy : c.sdk = .python
      · exact ⟨id, c, i, rc, .raised, hc, hpc, by simp [hpy], by simp [hpy]⟩
      · exact ⟨id, c, i, rc, rc, hc, hpc, by simp [hpy], by simp [hpy]⟩
  | _ => simp [releaseFails] at hfails

def Pc.returned : Pc → Bool
  | .done _ _ => true
  | _ => false

/-- The call in flight that has reserved the slot `i` and not given it back,
with its own word in the owner field. -/
def State.holds (s : State) (id : CallId) (i : Nat) : Prop :=
  ∃ c, s.calls id = some c ∧ c.pc.returned = false ∧ c.pc.view.keeps = some i ∧
    (s.slots i).owner = c.owner

/-- At most one caller is inside the section, the semaphore is binary, and
every slot in use is held by exactly one call in flight. -/
structure Exclusive (s : State) : Prop where
  alone : ∀ id id' c c', s.calls id = some c → s.calls id' = some c' →
    c.pc.view.inside = true → c'.pc.view.inside = true → id = id'
  lock_le : s.lock ≤ 1
  held : ∀ i, (s.slots i).owner ≠ 0 → ∃! id, s.holds id i

theorem abs_keeps {s : State} {id : CallId} {i : Nat} (h : ((abs s).view id).keeps = some i) :
    ∃ c, s.calls id = some c ∧ c.pc.view.keeps = some i := by
  cases hc : s.calls id with
  | none => simp [abs, viewOf, hc] at h
  | some c => exact ⟨c, rfl, by rwa [abs_view hc] at h⟩

/-- In a run without failing releases a slot in use is the slot of one call in flight. -/
theorem Releasing.exclusive {s : State} (h : Releasing s) : Exclusive s where
  alone := by
    intro id id' c c' hc hc' hin hin'
    exact h.owned.cells.alone id id' (by rwa [abs_view hc]) (by rwa [abs_view hc'])
  lock_le := h.owned.cells.count_le
  held := by
    intro i howner
    obtain ⟨id, hid⟩ := h.owned.cells.kept i howner
    obtain ⟨c, hc, hkeeps⟩ := abs_keeps hid
    refine ⟨id, ⟨c, hc, ?_, hkeeps, h.owned.word id c i hc hkeeps⟩, ?_⟩
    · cases hpc : c.pc with
      | done rc u =>
          obtain rfl : u = some i := by simpa [hpc] using hkeeps
          exact absurd hpc (h.released id c rc i hc)
      | _ => rfl
    · rintro id' ⟨c', hc', -, hkeeps', -⟩
      exact h.owned.cells.only id' id i (by rwa [abs_view hc']) hid

/-- Once a `release_slot` has failed its slot is in use, and no call in flight
holds it. -/
theorem not_exclusive_of_releaseFails {s s' : State} {l : Label} (h : Owned s)
    (hs : step s l = some s') (hfails : releaseFails s l = true) : ¬ Exclusive s' := by
  intro hexcl
  obtain ⟨id, c, i, rc, rc', hc, hpc, hcalls, hslots⟩ := releaseFails_step hs hfails
  have hkeeps : c.pc.view.keeps = some i := by simp [hpc]
  have howner : (s'.slots i).owner ≠ 0 := by
    rw [hslots, h.word id c i hc hkeeps]
    exact h.nonzero id c hc
  obtain ⟨id', ⟨c', hc', hreturned, hkeeps', -⟩, -⟩ := hexcl.held i howner
  by_cases hid : id' = id
  · subst id'
    obtain rfl := by simpa [hcalls] using hc'
    cases hreturned
  · have hc'' : s.calls id' = some c' := by simpa [hcalls, hid] using hc'
    exact hid (h.cells.only id' id i (by rwa [abs_view hc'']) (by rwa [abs_view hc]))

theorem Initial.exclusive {s : State} (h : Initial s) : Exclusive s where
  alone := by simp [h.calls]
  lock_le := h.lock.le
  held := fun i howner => absurd (h.owner i) howner

/-- Slot ownership is exclusive in every state of a run exactly when every wait
of a `release_slot` in that run acquires the semaphore. -/
theorem exclusive_iff {tr : List (State × Label)} {s : State} (h : dispatcher.Trace tr s) :
    ((∀ p ∈ tr, Exclusive p.1) ∧ Exclusive s) ↔ ∀ p ∈ tr, releaseFails p.1 p.2 = false := by
  refine h.always_iff (fun s l => releaseFails s l = false) (fun _ => Initial.exclusive) ?_
  intro s l s' hr hs
  constructor
  · intro hexcl
    by_contra hfails
    rw [Bool.not_eq_false] at hfails
    exact not_exclusive_of_releaseFails (Releasing.owned hr) hs hfails hexcl
  · intro hok
    exact Releasing.exclusive (.step hr hok hs)

def State.pcOf (s : State) (id : CallId) : Option Pc := (s.calls id).map Call.pc

/-- A call that reserves slot 0, is answered by the engine and has parsed the
reply; `release_slot` comes next. -/
def answeredCall (id : CallId) (sdk : Sdk) : List Label :=
  .start id sdk 0 (id + 1) :: List.replicate 10 (.call id .ok) ++
    [.engine 0 .accept, .engine 0 (.reply 0), .engine 0 (.code 0 0), .engine 0 (.post 0)] ++
    List.replicate 3 (.call id .ok)

theorem exclusive_answeredCall :
    ∃ tr s, dispatcher.Trace tr s ∧ s.pcOf 7 = some (.done (.ok (some 7)) none) ∧
      (∀ p ∈ tr, Exclusive p.1) ∧ Exclusive s := by
  obtain ⟨tr, s, htr, hok, hpc⟩ :=
    dispatcher.exists_trace_of_run (fun s l => releaseFails s l = false) fresh_initial
      (answeredCall 7 .c ++ List.replicate 5 (.call 7 .ok))
      (fun s => decide (s.pcOf 7 = some (.done (.ok (some 7)) none))) (by decide +kernel)
  exact ⟨tr, s, htr, of_decide_eq_true hpc, (exclusive_iff htr).mpr hok⟩

/-- A signal interrupts the wait of Python's `_release_slot`, whose `finally`
posts `/bpShm` all the same: two later callers are inside the section. -/
theorem exclusive_fails_after_interrupt :
    ∃ s, dispatcher.Reachable s ∧ s.pcOf 1 = some (.done .raised (some 0)) ∧
      s.pcOf 2 = some .scanLock ∧ s.pcOf 3 = some .scanLock ∧ ¬ Exclusive s := by
  obtain ⟨s, hs, hpcs⟩ :=
    dispatcher.exists_reaches_of_run (fun _ _ => True) fresh_initial
      (answeredCall 1 .python ++ [.call 1 .eintr,
        .start 2 .c 0 3, .call 2 .ok, .start 3 .go 1 4, .call 3 .ok])
      (fun s => decide (s.pcOf 1 = some (.done .raised (some 0)) ∧
        s.pcOf 2 = some .scanLock ∧ s.pcOf 3 = some .scanLock)) (by decide +kernel)
  obtain ⟨h1, h2, h3⟩ := of_decide_eq_true hpcs
  refine ⟨s, hs, h1, h2, h3, fun hexcl => ?_⟩
  obtain ⟨c, hc, hpc⟩ := Option.map_eq_some_iff.mp h2
  obtain ⟨c', hc', hpc'⟩ := Option.map_eq_some_iff.mp h3
  have h : 2 = 3 := hexcl.alone 2 3 c c' hc hc' (by simp [hpc]) (by simp [hpc'])
  omega

end BpClient.Slot
