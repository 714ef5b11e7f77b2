import BpClient.Slot.Exclusion

/-!
Slot leaks: whether a call that has reserved a slot has given it back when it
returns, whatever its semaphore operations and callbacks did.
-/

namespace BpClient.Slot

open BpClient.Lib

/-- The slot that `reserve_slot` has returned to the call. -/
def Pc.slot : Pc → Option Nat
  | .header i | .fill i | .postReq i | .waitResp i | .poll i | .readCode i | .parse i => some i
  | .releaseWait i _ | .clearOwner i _ | .releaseDrainReq i _ | .releaseDrainResp i _
  | .releasePost i _ => some i
  | _ => none

/-- A call that returns in the step from `s` to `s'`, and that had reserved the
slot `i`, leaves its owner field 0. -/
def GivesBack (s s' : State) : Prop :=
  ∀ id c c' i, s.calls id = some c → s'.calls id = some c' →
    c.pc.slot = some i → c'.pc.returned = true → (s'.slots i).owner = 0

def State.idle (s : State) : Prop := ∀ id c, s.calls id = some c → c.pc.returned = true

theorem Pc.not_returned_of_slot {pc : Pc} {i : Nat} (h : pc.slot = some i) :
    pc.returned = false := by
  cases pc <;> first | rfl | cases h

/-- Only its own step changes a call in flight. -/
theorem step_changes {s s' : State} {l : Label} {id : CallId} {c c' : Call}
    (hs : step s l = some s') (hc : s.calls id = some c) (hc' : s'.calls id = some c')
    (hne : c' ≠ c) : ∃ r, l = .call id r ∧ callStep s id c r = some s' := by
  cases l with
  | start id' sdk client owner =>
      obtain ⟨hnone, -, rfl⟩ := step_start hs
      by_cases hid : id = id'
      · subst id'
        cases hnone.symm.trans hc
      · have := hc.symm.trans (by simpa [hid] using hc')
        exact absurd (Option.some.inj this).symm hne
  | call id' r =>
      obtain ⟨d, hd, hs⟩ := step_call hs
      by_cases hid : id = id'
      · subst id'
        cases hc.symm.trans hd
        exact ⟨r, rfl, hs⟩
      · obtain ⟨pc', hcalls, -, -⟩ := callStep_frame hd hs
        have := hc.symm.trans (by simpa [hcalls, hid] using hc')
        exact absurd (Option.some.inj this).symm hne
  | engine i act =>
      obtain ⟨-, hcalls, -⟩ := engineStep_frame hs
      have := hc.symm.trans (hcalls ▸ hc')
      exact absurd (Option.some.inj this).symm hne

/-- A call that returns has cleared the owner word, unless its `release_slot` has failed. -/
theorem Owned.givesBack {s s' : State} {l : Label} (h : Owned s) (hs : step s l = some s')
    (hok : releaseFails s l = false) : GivesBack s s' := by
  intro id c c' i hc hc' hslot hret
  have hbefore := Pc.not_returned_of_slot hslot
  obtain ⟨r, rfl, hcall⟩ := step_changes hs hc hc' (by rintro rfl; simp [hret] at hbefore)
  cases hpc' : c'.pc with
  | done rc u =>
      cases callStep_done hc hcall hc' hpc' with
      | unreserved hpc =>
          rcases hpc with ⟨hpc, -⟩ | ⟨hpc, -⟩ <;> simp [hpc, Pc.slot] at hslot
      | released j rc' hpc _ hslots =>
          obtain rfl : j = i := by simpa [hpc, Pc.slot] using hslot
          have hfree := (h.cells.marked id j (by simp [abs_view hc, hpc])).2
          rw [hslots]
          simpa [abs] using hfree
      | kept j rc' hpc _ hwait _ =>
          exact absurd ((releaseFails_call hc).mpr ⟨⟨j, rc', hpc⟩, hwait⟩) (by simp [hok])
  | _ => simp [hpc', Pc.returned] at hret

theorem Owned.not_givesBack {s s' : State} {l : Label} (h : Owned s) (hs : step s l = some s')
    (hfails : releaseFails s l = true) : ¬ GivesBack s s' := by
  intro hback
  obtain ⟨id, c, i, rc, rc', hc, hpc, hcalls, hslots⟩ := releaseFails_step hs hfails
  have hret : (Pc.done rc' (some i)).returned = true := rfl
  have hzero := hback id c { c with pc := .done rc' (some i) } i hc (by simp [hcalls])
    (by simp [hpc, Pc.slot]) hret
  rw [hslots, h.word id c i hc (by simp [hpc])] at hzero
  exact h.nonzero id c hc hzero

theorem Releasing.idle_free {s : State} (h : Releasing s) (hidle : s.idle) (i : Nat) :
    (s.slots i).owner = 0 := by
  by_contra howner
  obtain ⟨id, ⟨c, hc, hret, -⟩, -⟩ := h.exclusive.held i howner
  simp [hidle id c hc] at hret

/-- Every call of a run gives its slot back, and the slots are all free when no
call is in flight, exactly when every wait of a `release_slot` in that run
acquires the semaphore. -/
theorem givesBack_iff {tr : List (State × Label)} {s : State} (h : dispatcher.Trace tr s) :
    ((∀ p ∈ tr, ∀ s', dispatcher.step p.1 p.2 = some s' → GivesBack p.1 s') ∧
      (s.idle → ∀ i < slotCount, (s.slots i).owner = 0)) ↔
    ∀ p ∈ tr, releaseFails p.1 p.2 = false := by
  have hsteps := h.steps_iff (fun s l => releaseFails s l = false)
    (q := fun s _ s' => GivesBack s s') ?_
  · rw [← hsteps]
    refine ⟨And.left, fun hback => ⟨hback, fun hidle i _ => ?_⟩⟩
    exact Releasing.idle_free (System.reaches_iff_trace.mpr ⟨tr, h, hsteps.mp hback⟩) hidle i
  · intro s l s' hr hs
    constructor
    · intro hback
      by_contra hfails
      rw [Bool.not_eq_false] at hfails
      exact (Releasing.owned hr).not_givesBack hs hfails hback
    · exact (Releasing.owned hr).givesBack hs

theorem givesBack_answeredCall :
    ∃ tr s, dispatcher.Trace tr s ∧ s.pcOf 7 = some (.done (.ok (some 7)) none) ∧
      (∀ p ∈ tr, ∀ s', dispatcher.step p.1 p.2 = some s' → GivesBack p.1 s') ∧
      (s.idle → ∀ i < slotCount, (s.slots i).owner = 0) := by
  obtain ⟨tr, s, htr, hok, hpc⟩ :=
    dispatcher.exists_trace_of_run (fun s l => releaseFails s l = false) fresh_initial
      (answeredCall 7 .go ++ List.replicate 5 (.call 7 .ok))
      (fun s => decide (s.pcOf 7 = some (.done (.ok (some 7)) none))) (by decide +kernel)
  exact ⟨tr, s, htr, of_decide_eq_true hpc, (givesBack_iff htr).mpr hok⟩

/-- A signal interrupts the wait of C's `release_slot`: the call returns
`BP_OK` and slot 0 keeps its owner. -/
theorem givesBack_fails_after_interrupt :
    ∃ s s', dispatcher.Reachable s ∧ step s (.call 1 .eintr) = some s' ∧
      s'.pcOf 1 = some (.done (.ok (some 1)) (some 0)) ∧ (s'.slots 0).owner = 2 ∧
      ¬ GivesBack s s' := by
  obtain ⟨s, hs, hrun⟩ :=
    dispatcher.exists_reaches_of_run (fun _ _ => True) fresh_initial (answeredCall 1 .c)
      (fun s => decide (s.pcOf 1 = some (.releaseWait 0 (.ok (some 1))) ∧
        (step s (.call 1 .eintr)).map (fun s' => (s'.pcOf 1, (s'.slots 0).owner)) =
          some (some (.done (.ok (some 1)) (some 0)), 2))) (by decide +kernel)
  obtain ⟨hpc, hstep⟩ := of_decide_eq_true hrun
  obtain ⟨s', hs', hafter⟩ := Option.map_eq_some_iff.mp hstep
  obtain ⟨hpc', howner⟩ := Prod.mk.inj hafter
  refine ⟨s, s', hs, hs', hpc', howner, fun hback => ?_⟩
  obtain ⟨c, hc, hcpc⟩ := Option.map_eq_some_iff.mp hpc
  obtain ⟨c', hc', hcpc'⟩ := Option.map_eq_some_iff.mp hpc'
  have := hback 1 c c' 0 hc hc' (by rw [hcpc]; rfl) (by rw [hcpc']; rfl)
  omega

end BpClient.Slot
