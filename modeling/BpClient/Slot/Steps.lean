import BpClient.Lib.GuardedCells
import BpClient.Slot.Dispatcher

/-!
What one step of the dispatcher does. For slot ownership it is a move of
`GuardedCells`: `/bpShm` is the semaphore, the owner words are the cells, and
`reserve_slot` and `release_slot` are its moves, as long as no caller posts a
`/bpShm` it did not acquire. `LastStep` lists the steps with which a call
returns.
-/

namespace BpClient.Slot

open BpClient.Lib

/-- What a program counter means for the section and the slots. -/
@[simp] def Pc.view : Pc → GuardedCells.View Nat
  | .reserveWait => .outside
  | .scanLock | .scan _ => ⟨true, none, none⟩
  | .claim i => ⟨true, none, some i⟩
  | .drainReq i | .drainResp i | .clearOwner i _ => ⟨true, some i, none⟩
  | .reservePost found => ⟨true, found, none⟩
  | .header i | .fill i | .postReq i | .waitResp i | .poll i | .readCode i | .parse i
  | .releaseWait i _ => ⟨false, some i, none⟩
  | .releaseDrainReq i _ | .releaseDrainResp i _ | .releasePost i _ => ⟨true, none, some i⟩
  | .done _ unreleased => ⟨false, unreleased, none⟩

def viewOf : Option Call → GuardedCells.View Nat
  | some c => c.pc.view
  | none => .outside

def abs (s : State) : GuardedCells.State CallId Nat where
  count := s.lock
  view := fun id => viewOf (s.calls id)
  owned := fun i => (s.slots i).owner ≠ 0

def Pc.atReleaseWait : Pc → Bool
  | .releaseWait _ _ => true
  | _ => false

/-- The step is the wait of some `release_slot`, and it ends without the
semaphore. -/
def releaseFails (s : State) : Label → Bool
  | .call id r =>
      match s.calls id with
      | some c => c.pc.atReleaseWait && decide (lockWait c.sdk s.lock r = some .failed)
      | none => false
  | _ => false

/-- The same in a Python caller, which then posts the semaphore all the same. -/
def pythonReleaseFails (s : State) : Label → Bool
  | .call id r =>
      match s.calls id with
      | some c => decide (c.sdk = .python) && releaseFails s (.call id r)
      | none => false
  | _ => false

theorem releaseFails_call {s : State} {id : CallId} {c : Call} {r : SemResult}
    (hc : s.calls id = some c) :
    releaseFails s (.call id r) = true ↔
      (∃ i rc, c.pc = .releaseWait i rc) ∧ lockWait c.sdk s.lock r = some .failed := by
  simp only [releaseFails, hc, Bool.and_eq_true, decide_eq_true_eq]
  refine and_congr_left fun _ => ?_
  cases c.pc <;> simp [Pc.atReleaseWait]

theorem abs_owned_setSlot {s : State} {i : Nat} {v : SlotState}
    (hv : v.owner = (s.slots i).owner) : (abs (s.setSlot i v)).owned = (abs s).owned := by
  funext j
  by_cases hj : j = i
  · subst j; simp [abs, hv]
  · simp [abs, hj]

theorem abs_owned_setOwner {s : State} {i j : Nat} (n : Nat) (hj : j ≠ i) :
    (abs (s.setSlot i { s.slots i with owner := n })).owned j ↔ (abs s).owned j := by
  simp [abs, hj]

theorem step_start {s s' : State} {id : CallId} {sdk : Sdk} {client owner : Nat}
    (h : step s (.start id sdk client owner) = some s') :
    s.calls id = none ∧ owner ≠ 0 ∧ s' = s.setCall id ⟨sdk, client, owner, .reserveWait⟩ := by
  simp only [step] at h
  split at h <;> try cases h
  next hnone =>
  split at h <;> cases h
  next howner => exact ⟨hnone, howner, rfl⟩

theorem step_call {s s' : State} {id : CallId} {r : SemResult}
    (h : step s (.call id r) = some s') :
    ∃ c, s.calls id = some c ∧ callStep s id c r = some s' := by
  simp only [step] at h
  split at h <;> try cases h
  next c hc => exact ⟨c, hc, h⟩

section CallCases

variable {s s' : State} {id : CallId} {c : Call} {r : SemResult}

theorem callStep_eq (h : callStep s id c r = some s') :
    reserveStep s id c r c.pc = some s' ∨ bodyStep s id c r c.pc = some s' ∨
      releaseStep s id c r c.pc = some s' := by
  unfold callStep at h
  cases hres : reserveStep s id c r c.pc with
  | some mid => exact .inl (by rwa [hres] at h)
  | none =>
      cases hbody : bodyStep s id c r c.pc with
      | some mid => exact .inr (.inl (by rwa [hres, hbody] at h))
      | none => exact .inr (.inr (by rwa [hres, hbody] at h))

/-- A slot that the program counter keeps or has marked. -/
def Pc.touches (pc : Pc) (i : Nat) : Prop := pc.view.keeps = some i ∨ pc.view.marks = some i

/-- What a step of one call leaves unchanged: every other call, the engine's
answers, and every slot that the call does not touch. -/
def CallFrame (s s' : State) (id : CallId) (c : Call) : Prop :=
  ∃ pc', s'.calls = Function.update s.calls id (some { c with pc := pc' }) ∧
    s'.answered = s.answered ∧ ∀ j, s'.slots j = s.slots j ∨ c.pc.touches j

theorem callFrame_refl (hc : s.calls id = some c) : CallFrame s s id c :=
  ⟨c.pc, by simp [← hc], rfl, fun _ => .inl rfl⟩

theorem callFrame_of_slots {pc' : Pc}
    (hcalls : s'.calls = Function.update s.calls id (some { c with pc := pc' }))
    (hanswered : s'.answered = s.answered) (hslots : s'.slots = s.slots) : CallFrame s s' id c :=
  ⟨pc', hcalls, hanswered, fun _ => .inl (by rw [hslots])⟩

theorem callFrame_setSlot {pc' : Pc} {i : Nat} {v : SlotState} (htouch : c.pc.touches i) :
    CallFrame s ((s.setSlot i v).goto id c pc') id c := by
  refine ⟨pc', rfl, rfl, fun j => ?_⟩
  by_cases hj : j = i
  · exact .inr (hj ▸ htouch)
  · exact .inl (by simp [hj])

/-- A step of a call leaves the other calls and their slots alone. -/
theorem callStep_frame (hc : s.calls id = some c) (h : callStep s id c r = some s') :
    CallFrame s s' id c := by
  rcases callStep_eq h with h | h | h
  · cases hpc : c.pc <;> simp only [reserveStep, hpc, Option.map_eq_some_iff] at h
    case reserveWait =>
      obtain ⟨w, -, rfl⟩ := h
      cases w
      exacts [callFrame_of_slots rfl rfl rfl, callFrame_refl hc, callFrame_of_slots rfl rfl rfl]
    case drainReq | drainResp =>
      obtain ⟨v, -, rfl⟩ := h
      exact callFrame_setSlot (by simp [hpc, Pc.touches])
    all_goals
      repeat' split at h
      all_goals cases h
      all_goals first
        | exact callFrame_of_slots rfl rfl rfl
        | exact callFrame_setSlot (by simp [hpc, Pc.touches])
  · cases hpc : c.pc <;> simp only [bodyStep, waitRespStep, pollStep, hpc] at h
    all_goals
      repeat' split at h
      all_goals cases h
      all_goals first
        | exact callFrame_of_slots rfl rfl rfl
        | exact callFrame_setSlot (by simp [hpc, Pc.touches])
        | exact callFrame_refl hc
  · cases hpc : c.pc <;> simp only [releaseStep, hpc, Option.map_eq_some_iff] at h
    case releaseWait =>
      obtain ⟨w, -, rfl⟩ := h
      cases w
      · exact callFrame_of_slots rfl rfl rfl
      · exact callFrame_refl hc
      · dsimp only
        split
        all_goals exact callFrame_of_slots rfl rfl rfl
    case releaseDrainReq | releaseDrainResp =>
      obtain ⟨v, -, rfl⟩ := h
      exact callFrame_setSlot (by simp [hpc, Pc.touches])
    all_goals
      repeat' split at h
      all_goals cases h
      all_goals first
        | exact callFrame_of_slots rfl rfl rfl
        | exact callFrame_setSlot (by simp [hpc, Pc.touches])

/-- What a step of one call does to that call, to the section and to the
owner words. -/
structure MovesTo (s s' : State) (id : CallId) (c : Call) (pc' : Pc) : Prop where
  calls : s'.calls = Function.update s.calls id (some { c with pc := pc' })
  move : GuardedCells.Move (abs s) (abs s') c.pc.view pc'.view
  /-- A slot the call keeps carries the call's owner word. -/
  word : ∀ j, pc'.view.keeps = some j →
    (c.pc.view.keeps = some j → (s.slots j).owner = c.owner) → (s'.slots j).owner = c.owner
  frame : ∀ j, (s'.slots j).owner = (s.slots j).owner ∨
    pc'.view.keeps = some j ∨ pc'.view.marks = some j

def CallMoves (s s' : State) (id : CallId) (c : Call) : Prop := ∃ pc', MovesTo s s' id c pc'

theorem lockWait_pos {sdk : Sdk} {n : Nat} (h : lockWait sdk n r = some .acquired) : 0 < n := by
  cases r <;> simp [lockWait] at h
  · omega
  · split at h <;> cases h

/-- A step that writes no owner word and keeps the slot it had. -/
theorem callMoves_of_frame (pc' : Pc)
    (hcalls : s'.calls = Function.update s.calls id (some { c with pc := pc' }))
    (hmove : GuardedCells.Move (abs s) (abs s') c.pc.view pc'.view)
    (hkeeps : pc'.view.keeps = c.pc.view.keeps)
    (howner : ∀ j, (s'.slots j).owner = (s.slots j).owner) :
    CallMoves s s' id c := by
  refine ⟨pc', hcalls, hmove, ?_, fun j => .inl (howner j)⟩
  intro j hj hword
  rw [howner j]
  exact hword (hkeeps ▸ hj)

theorem callMoves_refl (hc : s.calls id = some c) : CallMoves s s id c :=
  callMoves_of_frame c.pc (by simp [← hc]) (.quiet rfl rfl rfl) rfl (fun _ => rfl)

theorem callMoves_goto {pc' : Pc} (hview : pc'.view = c.pc.view) :
    CallMoves s (s.goto id c pc') id c :=
  callMoves_of_frame _ rfl (.quiet hview rfl rfl) (by rw [hview]) (fun _ => rfl)

theorem callMoves_setSlot {i : Nat} {v : SlotState} {pc' : Pc}
    (hv : v.owner = (s.slots i).owner) (hview : pc'.view = c.pc.view) :
    CallMoves s ((s.setSlot i v).goto id c pc') id c := by
  refine callMoves_of_frame _ rfl (.quiet hview rfl (abs_owned_setSlot hv)) (by rw [hview]) ?_
  intro j
  by_cases hj : j = i
  · subst j; simp [hv]
  · simp [hj]

theorem callMoves_enter {pc' : Pc} (hpos : 0 < s.lock) (hout : c.pc.view.inside = false)
    (hview : pc'.view = { c.pc.view with inside := true }) :
    CallMoves s ((s.setLock (s.lock - 1)).goto id c pc') id c :=
  callMoves_of_frame _ rfl (.enter hout hview (Nat.sub_add_cancel hpos).symm rfl)
    (by rw [hview]) (fun _ => rfl)

theorem callMoves_leave {pc' : Pc} (hin : c.pc.view.inside = true)
    (hview : pc'.view = { c.pc.view with inside := false, marks := none })
    (hcalls : s'.calls = Function.update s.calls id (some { c with pc := pc' }))
    (hslots : s'.slots = s.slots) (hlock : s'.lock ≤ s.lock + 1) :
    CallMoves s s' id c :=
  callMoves_of_frame _ hcalls (.leave hin hview hlock (by simp only [abs, hslots]))
    (by rw [hview]) (fun _ => by rw [hslots])

/-- What a step of `reserve_slot` does to the owner words. -/
theorem reserveStep_moves (hc : s.calls id = some c) (howner : c.owner ≠ 0)
    (h : reserveStep s id c r c.pc = some s') : CallMoves s s' id c := by
  cases hpc : c.pc with
  | reserveWait =>
      simp only [reserveStep, hpc, Option.map_eq_some_iff] at h
      obtain ⟨w, hw, rfl⟩ := h
      cases w with
      | acquired => 
          exact callMoves_enter (lockWait_pos hw) (by simp [hpc]) (by simp [hpc])
      | again => exact callMoves_refl hc
      | failed => exact callMoves_goto (by simp [hpc])
  | scanLock =>
      simp only [reserveStep, hpc] at h
      split at h
      · cases h
        exact callMoves_of_frame (.scan 0) rfl (.quiet (by simp [hpc]) rfl rfl)
          (by simp [hpc]) (fun _ => rfl)
      · cases h
  | scan i =>
      simp only [reserveStep, hpc] at h
      split at h
      · split at h
        · next hfree =>
            cases h
            exact callMoves_of_frame (.claim i) rfl
              (.mark i (by simp [hpc]) (by simp [hpc]) (by simp [hpc]) (by simp [abs, hfree])
                rfl rfl) (by simp [hpc]) (fun _ => rfl)
        · cases h
          exact callMoves_goto (by simp [hpc])
      · cases h
        exact callMoves_goto (by simp [hpc])
  | claim i =>
      simp only [reserveStep, hpc, Option.some.injEq] at h
      subst h
      refine ⟨.drainReq i, rfl, .claim i (by simp [hpc]) (by simp [hpc]) (by simp [hpc])
        (by simp) rfl (by simp [abs, howner]) (fun j hj => abs_owned_setOwner _ hj), ?_, ?_⟩
      · intro j hj _
        obtain rfl : i = j := by simpa using hj
        simp
      · intro j
        by_cases hj : j = i <;> simp [hj]
  | drainReq i =>
      simp only [reserveStep, hpc, Option.map_eq_some_iff] at h
      obtain ⟨⟨n, fin⟩, -, rfl⟩ := h
      exact callMoves_setSlot rfl (by cases fin <;> simp [hpc])
  | drainResp i =>
      simp only [reserveStep, hpc, Option.map_eq_some_iff] at h
      obtain ⟨⟨n, fin⟩, -, rfl⟩ := h
      exact callMoves_setSlot rfl (by cases fin <;> simp [hpc])
  | reservePost found =>
      simp only [reserveStep, hpc, Option.some.injEq] at h
      subst h
      refine callMoves_leave (by simp [hpc]) ?_ rfl rfl le_rfl
      cases found <;> simp [hpc]
  | _ => simp [reserveStep, hpc] at h

/-- A step of the body leaves the owner words alone. -/
theorem bodyStep_moves (hc : s.calls id = some c)
    (h : bodyStep s id c r c.pc = some s') : CallMoves s s' id c := by
  cases hpc : c.pc with
  | header i =>
      simp only [bodyStep, hpc, Option.some.injEq] at h
      subst h
      exact callMoves_setSlot rfl (by simp [hpc])
  | fill i =>
      simp only [bodyStep, hpc] at h
      split at h <;> cases h
      · exact callMoves_setSlot rfl (by simp [hpc])
      · exact callMoves_goto (by simp [hpc])
      · exact callMoves_goto (by simp [hpc])
  | postReq i =>
      simp only [bodyStep, hpc] at h
      split at h <;> cases h
      · exact callMoves_setSlot rfl (by simp [hpc])
      · exact callMoves_goto (by simp [hpc])
  | waitResp i =>
      simp only [bodyStep, hpc, waitRespStep] at h
      split at h
      · split at h <;> cases h
        exact callMoves_setSlot rfl (by simp [hpc])
      all_goals cases h
      case h_3 => exact callMoves_refl hc
      all_goals exact callMoves_goto (by simp [hpc])
  | poll i =>
      simp only [bodyStep, hpc, pollStep] at h
      split at h
      · cases h
        exact callMoves_goto (by simp [hpc])
      · split at h <;> cases h
        · exact callMoves_goto (by simp [hpc])
        · exact callMoves_refl hc
  | readCode i =>
      simp only [bodyStep, hpc] at h
      split at h <;> cases h <;> exact callMoves_goto (by simp [hpc])
  | parse i =>
      simp only [bodyStep, hpc] at h
      split at h <;> cases h <;> exact callMoves_goto (by simp [hpc])
  | _ => simp [bodyStep, hpc] at h

/-- What a step of `release_slot` does to the owner words. -/
theorem releaseStep_moves (hc : s.calls id = some c)
    (hguard : pythonReleaseFails s (.call id r) = false)
    (h : releaseStep s id c r c.pc = some s') : CallMoves s s' id c := by
  cases hpc : c.pc with
  | releaseWait i rc =>
      simp only [releaseStep, hpc, Option.map_eq_some_iff] at h
      obtain ⟨w, hw, rfl⟩ := h
      cases w with
      | acquired =>
          exact callMoves_enter (lockWait_pos hw) (by simp [hpc]) (by simp [hpc])
      | again => exact callMoves_refl hc
      | failed =>
          have hsdk : c.sdk ≠ .python := by
            rintro hpy
            have hfails := (releaseFails_call (r := r) hc).mpr ⟨⟨i, rc, hpc⟩, hw⟩
            simp [pythonReleaseFails, hc, hpy, hfails] at hguard
          simp only [hsdk, if_false]
          exact callMoves_goto (by simp [hpc])
  | clearOwner i rc =>
      simp only [releaseStep, hpc, Option.some.injEq] at h
      subst h
      refine ⟨.releaseDrainReq i rc, rfl, .clear i (by simp [hpc]) (by simp [hpc]) (by simp) rfl
        (by simp [abs]) (fun j hj => abs_owned_setOwner _ hj), by simp, ?_⟩
      intro j
      by_cases hj : j = i <;> simp [hj]
  | releaseDrainReq i rc =>
      simp only [releaseStep, hpc, Option.map_eq_some_iff] at h
      obtain ⟨⟨n, fin⟩, -, rfl⟩ := h
      exact callMoves_setSlot rfl (by cases fin <;> simp [hpc])
  | releaseDrainResp i rc =>
      simp only [releaseStep, hpc, Option.map_eq_some_iff] at h
      obtain ⟨⟨n, fin⟩, -, rfl⟩ := h
      exact callMoves_setSlot rfl (by cases fin <;> simp [hpc])
  | releasePost i rc =>
      simp only [releaseStep, hpc] at h
      split at h <;> cases h
      · exact callMoves_leave (by simp [hpc]) (by simp [hpc]) rfl rfl le_rfl
      · exact callMoves_leave (by simp [hpc]) (by simp [hpc]) rfl rfl (Nat.le_succ _)
  | _ => simp [releaseStep, hpc] at h

/-- Every step of a call, in a run without unmatched posts, is a move of the
ownership discipline. -/
theorem callStep_moves (hc : s.calls id = some c) (howner : c.owner ≠ 0)
    (hguard : pythonReleaseFails s (.call id r) = false)
    (h : callStep s id c r = some s') : CallMoves s s' id c := by
  rcases callStep_eq h with hres | hbody | hrel
  · exact reserveStep_moves hc howner hres
  · exact bodyStep_moves hc hbody
  · exact releaseStep_moves hc hguard hrel

end CallCases

theorem engineStep_frame {s s' : State} {i : Nat} {act : EngineAct}
    (h : engineStep s i act = some s') :
    s'.lock = s.lock ∧ s'.calls = s.calls ∧ ∀ j, (s'.slots j).owner = (s.slots j).owner := by
  have key : ∀ v : SlotState, v.owner = (s.slots i).owner →
      ∀ j, ((s.setSlot i v).slots j).owner = (s.slots j).owner := by
    intro v hv j
    by_cases hj : j = i
    · subst j; simp [hv]
    · simp [hj]
  cases act <;> simp only [engineStep] at h <;> split at h <;> cases h
  · exact ⟨rfl, rfl, key _ rfl⟩
  · exact ⟨rfl, rfl, key _ rfl⟩
  · exact ⟨by simp, by simp, by rw [markAnswered_slots]; exact key _ rfl⟩
  · exact ⟨rfl, rfl, key _ rfl⟩

section LastStep

variable {s s' : State} {id : CallId} {c c' : Call} {r : SemResult} {rc : Rc} {u : Option Nat}

/-- The step with which a call returns `rc`. -/
inductive LastStep (s s' : State) (c : Call) (r : SemResult) (rc : Rc) : Option Nat → Prop
  | unreserved : c.pc = .reserveWait ∧ rc = reserveFailed c.sdk ∨
      c.pc = .reservePost none ∧ rc = .noFreeSlot → LastStep s s' c r rc none
  | released (i : Nat) (rc' : Rc) : c.pc = .releasePost i rc' → (rc = rc' ∨ rc = .raised) →
      s'.slots = s.slots → LastStep s s' c r rc none
  | kept (i : Nat) (rc' : Rc) : c.pc = .releaseWait i rc' → (rc = rc' ∨ rc = .raised) →
      lockWait c.sdk s.lock r = some .failed → s'.slots = s.slots →
      LastStep s s' c r rc (some i)

private theorem pc_of_goto {t : State} {pc : Pc} (hc' : (t.goto id c pc).calls id = some c') :
    c'.pc = pc := by
  simp only [goto_calls, Function.update_self, Option.some.injEq] at hc'
  rw [← hc']

theorem reserveStep_done (hc : s.calls id = some c) (h : reserveStep s id c r c.pc = some s')
    (hc' : s'.calls id = some c') (hdone : c'.pc = .done rc u) : LastStep s s' c r rc u := by
  cases hpc : c.pc with
  | reserveWait =>
      simp only [reserveStep, hpc, Option.map_eq_some_iff] at h
      obtain ⟨w, -, rfl⟩ := h
      cases w with
      | acquired => cases (pc_of_goto hc').symm.trans hdone
      | again => cases hc.symm.trans hc'; cases hpc.symm.trans hdone
      | failed =>
          cases (pc_of_goto hc').symm.trans hdone
          exact .unreserved (.inl ⟨hpc, rfl⟩)
  | reservePost found =>
      simp only [reserveStep, hpc, Option.some.injEq] at h
      subst h
      have hpc' := (pc_of_goto hc').symm.trans hdone
      cases found with
      | some i => cases hpc'
      | none =>
          cases hpc'
          exact .unreserved (.inr ⟨hpc, rfl⟩)
  | drainReq i | drainResp i =>
      simp only [reserveStep, hpc, Option.map_eq_some_iff] at h
      obtain ⟨⟨n, fin⟩, -, rfl⟩ := h
      have hpc' := (pc_of_goto hc').symm.trans hdone
      cases fin <;> cases hpc'
  | _ =>
      simp only [reserveStep, hpc] at h
      repeat' split at h
      all_goals first
        | cases h; cases (pc_of_goto hc').symm.trans hdone
        | cases h

theorem bodyStep_not_done (hc : s.calls id = some c) (h : bodyStep s id c r c.pc = some s')
    (hc' : s'.calls id = some c') : c'.pc ≠ .done rc u := by
  intro hdone
  cases hpc : c.pc <;> simp only [bodyStep, waitRespStep, pollStep, hpc] at h <;>
    (repeat' split at h) <;> cases h
  all_goals first
    | cases (pc_of_goto hc').symm.trans hdone
    | cases hc.symm.trans hc'; cases hpc.symm.trans hdone

theorem releaseStep_done (hc : s.calls id = some c) (h : releaseStep s id c r c.pc = some s')
    (hc' : s'.calls id = some c') (hdone : c'.pc = .done rc u) : LastStep s s' c r rc u := by
  cases hpc : c.pc with
  | releaseWait i rc' =>
      simp only [releaseStep, hpc, Option.map_eq_some_iff] at h
      obtain ⟨w, hw, rfl⟩ := h
      cases w with
      | acquired => cases (pc_of_goto hc').symm.trans hdone
      | again => cases hc.symm.trans hc'; cases hpc.symm.trans hdone
      | failed =>
          by_cases hpy : c.sdk = .python
          · simp only [hpy, if_true] at hc' ⊢
            cases (pc_of_goto hc').symm.trans hdone
            exact .kept i rc' hpc (.inr rfl) hw rfl
          · simp only [hpy, if_false] at hc' ⊢
            cases (pc_of_goto hc').symm.trans hdone
            exact .kept i _ hpc (.inl rfl) hw rfl
  | releaseDrainReq i rc' | releaseDrainResp i rc' =>
      simp only [releaseStep, hpc, Option.map_eq_some_iff] at h
      obtain ⟨⟨n, fin⟩, -, rfl⟩ := h
      have hpc' := (pc_of_goto hc').symm.trans hdone
      cases fin <;> cases hpc'
  | releasePost i rc' =>
      simp only [releaseStep, hpc] at h
      split at h <;> cases h
      · cases (pc_of_goto hc').symm.trans hdone
        exact .released i _ hpc (.inl rfl) rfl
      · have hpc' := (pc_of_goto hc').symm.trans hdone
        split at hpc' <;> cases hpc'
        · exact .released i rc' hpc (.inr rfl) rfl
        · exact .released i _ hpc (.inl rfl) rfl
  | clearOwner i rc' =>
      simp only [releaseStep, hpc, Option.some.injEq] at h
      subst h
      cases (pc_of_goto hc').symm.trans hdone
  | _ => simp [releaseStep, hpc] at h

theorem callStep_done (hc : s.calls id = some c) (h : callStep s id c r = some s')
    (hc' : s'.calls id = some c') (hdone : c'.pc = .done rc u) : LastStep s s' c r rc u := by
  rcases callStep_eq h with hres | hbody | hrel
  · exact reserveStep_done hc hres hc' hdone
  · exact absurd hdone (bodyStep_not_done hc hbody hc')
  · exact releaseStep_done hc hrel hc' hdone

end LastStep

end BpClient.Slot
