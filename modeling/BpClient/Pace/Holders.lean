import BpClient.Lib.FreeList
import BpClient.Lib.Leases
import BpClient.Pace.Model

/-!
Who has the entries of a pool: in Go and Python each index is in the queue or
with one holder, in C the flag of an entry is set exactly while somebody has it.
-/

namespace BpClient.Pace

open BpClient.Lib
open BpClient.Slot (Sdk)

def WorkerPc.held : WorkerPc → Option Nat
  | .busy _ i | .give _ _ i => some i
  | .wait | .scan _ _ => none

/-- What the calls and the loop, which is `none`, have. -/
def State.holds (s : State) : Option CallerId → Option Nat
  | some c => s.callers c
  | none => s.worker.held

def State.queue (s : State) : FreeList (Option CallerId) := ⟨s.free, s.holds⟩

def State.flags (s : State) : Leases (Option CallerId) Nat := ⟨fun i => s.inUse i = true, s.holds⟩

def WorkerPc.gives : WorkerPc → Bool
  | .give _ _ _ => true
  | .wait | .scan _ _ | .busy _ _ => false

/-- Each index is in one place; in C there is no queue. -/
def Held (sdk : Sdk) (spec : Spec) (s : State) : Prop :=
  match sdk with
  | .c => s.flags.Inv ∧ s.worker.gives = false
  | .go | .python => s.queue.Inv spec.size ∧ s.queue.Full spec.size

section Step

variable {sdk : Sdk} {spec : Spec} {s s' : State} {l : Label}

/-- What a step of a call leaves to the others. -/
theorem holds_callers (s s' : State) (hworker : s'.worker = s.worker) {c : CallerId} {x : Option Nat}
    (hcallers : s'.callers = Function.update s.callers c x) :
    s'.holds (some c) = x ∧ ∀ p, p ≠ some c → s'.holds p = s.holds p := by
  refine ⟨?_, fun p hp => ?_⟩
  · simp only [State.holds, hcallers, Function.update_self]
  · cases p with
    | none => simp only [State.holds, hworker]
    | some c' =>
        have hne : c' ≠ c := fun h => hp (congrArg some h)
        simp only [State.holds, hcallers, Function.update_of_ne hne]

theorem holds_worker (hcallers : s'.callers = s.callers) (p : Option CallerId) (hp : p ≠ none) :
    s'.holds p = s.holds p := by
  cases p with
  | none => exact absurd rfl hp
  | some c => simp only [State.holds, hcallers]

/-- A step that is one of `p` on the queue. -/
theorem Held.queue_move (hsdk : sdk ≠ .c) (h : Held sdk spec s) {p : Option CallerId}
    (hframe : ∀ q, q ≠ p → s'.holds q = s.holds q)
    (hmove : FreeList.Move False s.free (s.holds p) s'.free (s'.holds p)) : Held sdk spec s' := by
  have key : s.queue.Inv spec.size ∧ s.queue.Full spec.size →
      s'.queue.Inv spec.size ∧ s'.queue.Full spec.size :=
    fun ⟨hinv, hfull⟩ => ⟨hinv.move hframe hmove, hfull.move not_false hframe hmove⟩
  cases sdk with
  | c => exact absurd rfl hsdk
  | go | python => exact key h

/-- A step of the loop on the queue. -/
theorem Held.queue_worker (hsdk : sdk ≠ .c) (h : Held sdk spec s)
    (hcallers : s'.callers = s.callers)
    (hmove : FreeList.Move False s.free s.worker.held s'.free s'.worker.held) :
    Held sdk spec s' :=
  h.queue_move hsdk (holds_worker hcallers) hmove

/-- A step of the loop on the flags. -/
theorem Held.flags_worker (h : Held .c spec s) (hcallers : s'.callers = s.callers)
    (hgives : s'.worker.gives = false) (hmove : Leases.Move s.flags s'.flags none) :
    Held .c spec s' :=
  ⟨h.1.move (holds_worker hcallers) hmove, hgives⟩

theorem Held.take {c : CallerId} {i : Nat} (h : Held sdk spec s) (hnone : s.callers c = none)
    (hs : s.take sdk spec c i = some s') : Held sdk spec s' := by
  cases sdk with
  | c =>
      simp only [State.take] at hs
      split at hs <;> cases hs
      next hi =>
      obtain ⟨hself, hother⟩ := holds_callers s { s with
        inUse := Function.update s.inUse i true
        callers := Function.update s.callers c (some i) } rfl rfl
      refine ⟨h.1.move hother ?_, h.2⟩
      apply Leases.Move.take i hnone (by simp [State.flags, hi.2.1]) hself
      · simp [State.flags]
      · intro j hj
        simp [State.flags, hj]
  | go | python =>
      simp only [State.take] at hs
      split at hs <;> cases hs
      next got rest hfree =>
      obtain ⟨hself, hother⟩ := holds_callers s { s with
        free := rest, callers := Function.update s.callers c (some got) } rfl rfl
      exact h.queue_move (fun hc => by cases hc) hother (.take got hnone hfree hself)

theorem release_queue (hsdk : sdk ≠ .c) (c i : Nat) (now : Int) :
    (s.release sdk c i now).worker = s.worker ∧
      (s.release sdk c i now).callers = Function.update s.callers c none ∧
        (s.release sdk c i now).free = s.free ++ [i] := by
  cases sdk with
  | c => exact absurd rfl hsdk
  | go | python => cases hdead : (s.entries i).dead <;> simp [State.release, hdead, State.setEntry]

theorem Held.release {c : CallerId} {i : Nat} {now : Int} (h : Held sdk spec s)
    (hheld : s.callers c = some i) : Held sdk spec (s.release sdk c i now) := by
  by_cases hsdk : sdk = .c
  · subst hsdk
    obtain ⟨hself, hother⟩ := holds_callers s (s.release .c c i now) rfl rfl
    refine ⟨h.1.move hother ?_, h.2⟩
    apply Leases.Move.give i hheld hself
    · simp [State.flags, State.release]
    · intro j hj
      simp [State.flags, State.release, State.setEntry, hj]
  · obtain ⟨hw, hcallers, hfree⟩ := release_queue hsdk c i now
    obtain ⟨hself, hother⟩ := holds_callers _ _ hw hcallers
    exact h.queue_move hsdk hother (.give i hheld hfree hself)

/-- The loop goes on without an entry. -/
theorem Held.goto {pc : WorkerPc} (h : Held sdk spec s) (hold : s.worker.held = none)
    (hnew : pc.held = none) : Held sdk spec (s.goto pc) := by
  cases sdk with
  | c =>
      have hgives : pc.gives = false := by
        cases pc with
        | give sc i got => cases hnew
        | wait | scan sc i | busy sc i => rfl
      exact h.flags_worker rfl hgives (.quiet (hnew.trans hold.symm) fun _ => Iff.rfl)
  | go | python => exact h.queue_worker nofun rfl (.quiet rfl (hnew.trans hold.symm))

theorem claimed_eq (s : State) (sc : Scan) (i : Nat) (now : Int) :
    (s.claimed sc i now).worker = .busy sc i ∧ (s.claimed sc i now).callers = s.callers ∧
      (s.claimed sc i now).free = s.free ∧ (s.claimed sc i now).inUse = s.inUse := by
  unfold State.claimed
  cases sc.pass <;> exact ⟨rfl, rfl, rfl, rfl⟩

theorem Held.claim {sc : Scan} {i : Nat} {now : Int} (h : Held sdk spec s)
    (hw : s.worker = .scan sc i) : Held sdk spec (s.claim sdk sc i now) := by
  have hold : s.worker.held = none := by
    rw [hw]
    rfl
  cases sdk with
  | c =>
      simp only [State.claim]
      split
      · exact h.goto hold rfl
      · next hfree =>
          obtain ⟨hbusy, hcallers, -, hflags⟩ :=
            claimed_eq { s with inUse := Function.update s.inUse i true } sc i now
          apply h.flags_worker hcallers (by rw [hbusy]; rfl)
          apply Leases.Move.take i hold (by simpa [State.flags] using hfree)
          · simp [State.flags, State.holds, hbusy, WorkerPc.held]
          · simp [State.flags, hflags]
          · intro j hj
            simp [State.flags, hflags, hj]
  | go | python =>
      simp only [State.claim]
      split
      · next got rest hfree =>
          split
          · next hgot =>
              subst hgot
              obtain ⟨hbusy, hcallers, hrest, -⟩ := claimed_eq { s with free := rest } sc got now
              refine h.queue_worker ?_ hcallers (FreeList.Move.take got hold ?_ ?_)
              · intro hc
                cases hc
              · rw [hrest]
                exact hfree
              · rw [hbusy]
                rfl
          · exact h.queue_worker (fun hc => by cases hc) rfl (.take got hold hfree rfl)
      · exact h.goto hold rfl

theorem Held.work {now : Int} (h : Held sdk spec s) (hs : s.work sdk spec now = some s') :
    Held sdk spec s' := by
  simp only [State.work] at hs
  split at hs
  · next sc i hw =>
      have hold : s.worker.held = none := by
        rw [hw]
        rfl
      rw [Option.some.injEq] at hs
      subst hs
      split
      · split
        · exact h.claim hw
        · exact h.goto hold rfl
      · unfold State.nextPass
        split <;> exact h.goto hold rfl
  · next sc i got hw =>
      have hheld : s.worker.held = some got := by
        rw [hw]
        rfl
      cases hs
      cases sdk with
      | c =>
          have hgives := h.2
          rw [hw] at hgives
          cases hgives
      | go | python => exact h.queue_worker nofun rfl (.give got hheld rfl rfl)
  · cases hs
  · cases hs

theorem Held.reply {ok : Bool} {used now : Int} (h : Held sdk spec s)
    (hs : s.reply sdk ok used now = some s') : Held sdk spec s' := by
  simp only [State.reply] at hs
  split at hs <;> try cases hs
  next sc i hw =>
  have hold : s.worker.held = some i := by
    rw [hw]
    rfl
  cases sdk with
  | c =>
      refine h.flags_worker rfl ?_ (Leases.Move.give i hold rfl ?_ ?_)
      · rfl
      · simp [State.flags, State.finish]
      · intro j hj
        simp [State.flags, State.finish, State.setEntry, hj]
  | go | python => exact h.queue_worker (fun hc => by cases hc) rfl (.quiet rfl hold.symm)

theorem Held.step {l : Label} (h : Held sdk spec s) (hs : step sdk spec s l = some s') :
    Held sdk spec s' := by
  cases l with
  | take c i =>
      simp only [Pace.step] at hs
      split at hs
      · next hnone => exact h.take hnone hs
      · cases hs
  | release c now =>
      obtain ⟨i, hheld, rfl⟩ := Option.map_eq_some_iff.mp hs
      exact h.release hheld
  | tick now =>
      simp only [Pace.step] at hs
      split at hs <;> cases hs
      next hw => exact h.goto (by rw [hw]; rfl) rfl
  | work now => exact h.work hs
  | reply ok used now => exact h.reply hs

theorem Initial.held (h : Initial spec s) : Held sdk spec s := by
  have hnone : ∀ p, s.holds p = none := by
    intro p
    cases p with
    | none => simp only [State.holds, h.worker, WorkerPc.held]
    | some c => exact h.callers c
  cases sdk with
  | c => exact ⟨.initial (fun i => by simp [State.flags, h.inUse]) hnone, by rw [h.worker]; rfl⟩
  | go | python => exact ⟨.seeded h.free hnone, .seeded h.free⟩

theorem held_of_reachable (h : (pool sdk spec).Reachable s) : Held sdk spec s :=
  h.invariant (Held sdk spec) (fun _ => Initial.held) (fun _ _ _ ih _ hs => ih.step hs)

end Step

end BpClient.Pace
