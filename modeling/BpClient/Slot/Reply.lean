import BpClient.Slot.Exclusion

/-!
Whose reply a call parses. Slots are used again by later calls, and a call that
times out gives its slot back while the engine may still be working on its
request; the drains of `reserve_slot` remove the posts left on a slot, not the
requests the engine has already accepted.
-/

namespace BpClient.Slot

open BpClient.Lib

/-- Nothing of an earlier request is left on the slot. -/
structure SlotState.Quiet (v : SlotState) : Prop where
  semReq : v.semReq = 0
  semResp : v.semResp = 0
  jobs : v.jobs = []

/-- The slot carries the engine's answer to the request of `id`, which is the
only request on it. -/
structure Answered (id : CallId) (v : SlotState) (answered : Bool) : Prop where
  reply : v.reply = some id
  answered : answered = true
  semReq : v.semReq = 0
  jobs : v.jobs = [] ∨ v.jobs = [⟨some id, .coded⟩]

/-- How far the engine is with the request of `id`, the only one on the slot. -/
inductive InService (id : CallId) (v : SlotState) (answered : Bool) : Prop
  | posted : v.semReq = 1 → v.semResp = 0 → v.jobs = [] → v.request = some id →
      v.errorcode = pendingErrorBits → InService id v answered
  | accepted : v.semReq = 0 → v.semResp = 0 → v.jobs = [⟨some id, .accepted⟩] →
      v.errorcode = pendingErrorBits → InService id v answered
  | replied : v.semReq = 0 → v.semResp = 0 → v.jobs = [⟨some id, .replied⟩] →
      v.reply = some id → v.errorcode = pendingErrorBits → InService id v answered
  | answered : Answered id v answered → InService id v answered

/-- What a call may return: `BP_OK` with the reply to its own request, and the
pending code only after the engine has answered. -/
structure Faithful (id : CallId) (answered : Bool) (rc : Rc) : Prop where
  own : ∀ reply, rc = .ok reply → reply = some id
  pending : rc.code = some pendingErrorBits.toInt → answered = true

/-- What holds of a call and its slot at each point of the call. -/
def Progress (s : State) (id : CallId) : Pc → Prop
  | .reservePost (some i) | .header i => (s.slots i).Quiet
  | .fill i => (s.slots i).Quiet ∧ (s.slots i).errorcode = pendingErrorBits
  | .postReq i => (s.slots i).Quiet ∧ (s.slots i).errorcode = pendingErrorBits ∧
      (s.slots i).request = some id
  | .waitResp i | .poll i => InService id (s.slots i) (s.answered id)
  | .readCode i | .parse i => Answered id (s.slots i) (s.answered id)
  | .releaseWait _ rc | .clearOwner _ rc | .releaseDrainReq _ rc | .releaseDrainResp _ rc
  | .releasePost _ rc | .done rc _ => Faithful id (s.answered id) rc
  | _ => True

/-- `reserve_slot` ends its drains on a slot that still has a post, or a
request of an earlier call that the engine has accepted and not yet posted. -/
def handsOutBusySlot (s : State) : Label → Bool
  | .call id r =>
      match s.calls id with
      | some c =>
          match c.pc with
          | .drainResp i =>
              match semDrain (s.slots i).semResp r with
              | some (n, true) =>
                  !((s.slots i).semReq == 0 && n == 0 && (s.slots i).jobs.isEmpty)
              | _ => false
          | _ => false
      | none => false
  | _ => false

section Faithful

variable {id : CallId} {answered : Bool}

theorem faithful_of_code {rc : Rc} (hok : ∀ reply, rc ≠ .ok reply)
    (hcode : rc.code ≠ some pendingErrorBits.toInt) : Faithful id answered rc :=
  ⟨fun reply h => absurd h (hok reply), fun h => absurd h hcode⟩

theorem faithful_raised : Faithful id answered .raised :=
  faithful_of_code (by simp) (by decide)

theorem faithful_reserveFailed (sdk : Sdk) : Faithful id answered (reserveFailed sdk) := by
  cases sdk <;> exact faithful_of_code (by simp [reserveFailed]) (by decide)

theorem Faithful.mono {rc : Rc} {answered' : Bool} (h : Faithful id answered rc)
    (hle : answered = true → answered' = true) : Faithful id answered' rc :=
  ⟨h.own, fun hcode => hle (h.pending hcode)⟩

theorem Answered.mono {v : SlotState} {answered' : Bool} (h : Answered id v answered)
    (hle : answered = true → answered' = true) : Answered id v answered' :=
  ⟨h.reply, hle h.answered, h.semReq, h.jobs⟩

theorem InService.mono {v : SlotState} {answered' : Bool} (h : InService id v answered)
    (hle : answered = true → answered' = true) : InService id v answered' := by
  cases h with
  | posted h₁ h₂ h₃ h₄ h₅ => exact .posted h₁ h₂ h₃ h₄ h₅
  | accepted h₁ h₂ h₃ h₄ => exact .accepted h₁ h₂ h₃ h₄
  | replied h₁ h₂ h₃ h₄ h₅ => exact .replied h₁ h₂ h₃ h₄ h₅
  | answered h => exact .answered (h.mono hle)

/-- Only an answered request has its response semaphore posted. -/
theorem InService.answered_of_semResp {v : SlotState} (h : InService id v answered)
    (hresp : 0 < v.semResp) : Answered id v answered := by
  cases h with
  | answered h => exact h
  | _ => omega

/-- Only an answered request has its errorcode overwritten. -/
theorem InService.answered_of_errorcode {v : SlotState} (h : InService id v answered)
    (hcode : v.errorcode ≠ pendingErrorBits) : Answered id v answered := by
  cases h with
  | answered h => exact h
  | _ => contradiction

end Faithful

/-- Steps that leave the call's slot alone keep its progress. -/
theorem Progress.frame {s s' : State} {id : CallId} {pc : Pc} (h : Progress s id pc)
    (hslots : ∀ i, pc.view.keeps = some i → s'.slots i = s.slots i)
    (hanswered : s.answered id = true → s'.answered id = true) : Progress s' id pc := by
  cases pc with
  | reservePost found =>
      cases found with
      | none => trivial
      | some i => simpa only [Progress, hslots i rfl] using h
  | header i | fill i | postReq i => simpa only [Progress, hslots i rfl] using h
  | waitResp i | poll i =>
      simp only [Progress, hslots i rfl] at h ⊢
      exact h.mono hanswered
  | readCode i | parse i =>
      simp only [Progress, hslots i rfl] at h ⊢
      exact h.mono hanswered
  | releaseWait _ rc | clearOwner _ rc | releaseDrainReq _ rc | releaseDrainResp _ rc
  | releasePost _ rc | done rc _ => exact Faithful.mono h hanswered
  | _ => trivial

section Own

variable {s s' : State} {id : CallId} {c : Call} {r : SemResult}

/-- The step of a call that goes to `pc'`, whatever it does to its slot. -/
def CallProgress (s' : State) (id : CallId) : Prop :=
  ∀ c', s'.calls id = some c' → Progress s' id c'.pc

theorem callProgress_goto {t : State} {p : Pc} (h : Progress (t.goto id c p) id p) :
    CallProgress (t.goto id c p) id := by
  intro c' hc'
  simp only [goto_calls, Function.update_self, Option.some.injEq] at hc'
  subst hc'
  exact h

/-- A slot is handed out without a trace of earlier requests. -/
theorem reserveStep_progress (hc : s.calls id = some c) (h : Progress s id c.pc)
    (hguard : handsOutBusySlot s (.call id r) = false)
    (hs : reserveStep s id c r c.pc = some s') : CallProgress s' id := by
  cases hpc : c.pc with
  | reserveWait =>
      simp only [reserveStep, hpc, Option.map_eq_some_iff] at hs
      obtain ⟨w, -, rfl⟩ := hs
      cases w with
      | acquired => exact callProgress_goto trivial
      | again =>
          intro c' hc'
          cases hc.symm.trans hc'
          exact h
      | failed => exact callProgress_goto (faithful_reserveFailed c.sdk)
  | drainReq i =>
      simp only [reserveStep, hpc, Option.map_eq_some_iff] at hs
      obtain ⟨⟨n, fin⟩, -, rfl⟩ := hs
      cases fin <;> exact callProgress_goto trivial
  | drainResp i =>
      simp only [reserveStep, hpc, Option.map_eq_some_iff] at hs
      obtain ⟨⟨n, fin⟩, hdrain, rfl⟩ := hs
      cases fin with
      | false => exact callProgress_goto trivial
      | true =>
          simp only [handsOutBusySlot, hc, hpc, hdrain, Bool.not_eq_false', Bool.and_eq_true,
            beq_iff_eq, List.isEmpty_iff] at hguard
          obtain ⟨⟨hreq, hresp⟩, hjobs⟩ := hguard
          refine callProgress_goto (p := .reservePost (some i)) ?_
          exact ⟨by simp [hreq], by simp [hresp], by simp [hjobs]⟩
  | reservePost found =>
      simp only [reserveStep, hpc, Option.some.injEq] at hs
      subst hs
      refine callProgress_goto ?_
      cases found with
      | none => exact faithful_of_code (by simp) (by decide)
      | some i =>
          simp only [Progress, hpc] at h
          exact h
  | _ =>
      simp only [reserveStep, hpc] at hs
      repeat' split at hs
      all_goals first
        | cases hs; exact callProgress_goto trivial
        | cases hs

/-- The body of a call posts once, and takes the answer to its own request. -/
theorem bodyStep_progress (hc : s.calls id = some c) (h : Progress s id c.pc)
    (hs : bodyStep s id c r c.pc = some s') : CallProgress s' id := by
  have stay : ∀ c', s.calls id = some c' → Progress s id c'.pc := by
    intro c' hc'
    cases hc.symm.trans hc'
    exact h
  cases hpc : c.pc with
  | header i =>
      simp only [bodyStep, hpc, Option.some.injEq] at hs
      rw [hpc] at h
      subst hs
      refine callProgress_goto ⟨⟨?_, ?_, ?_⟩, by simp⟩
      · simpa using h.semReq
      · simpa using h.semResp
      · simpa using h.jobs
  | fill i =>
      rw [hpc] at h
      obtain ⟨hquiet, hcode⟩ := h
      simp only [bodyStep, hpc] at hs
      split at hs <;> cases hs
      · refine callProgress_goto ⟨⟨?_, ?_, ?_⟩, by simpa using hcode, by simp⟩
        · simpa using hquiet.semReq
        · simpa using hquiet.semResp
        · simpa using hquiet.jobs
      · exact callProgress_goto faithful_raised
      · exact callProgress_goto faithful_raised
  | postReq i =>
      rw [hpc] at h
      obtain ⟨hquiet, hcode, hrequest⟩ := h
      simp only [bodyStep, hpc] at hs
      split at hs <;> cases hs
      · refine callProgress_goto (.posted ?_ ?_ ?_ ?_ ?_)
        · simp [hquiet.semReq]
        · simpa using hquiet.semResp
        · simpa using hquiet.jobs
        · simpa using hrequest
        · simpa using hcode
      · exact callProgress_goto (faithful_of_code (by simp) (by decide))
  | waitResp i =>
      rw [hpc] at h
      simp only [bodyStep, hpc, waitRespStep] at hs
      split at hs
      · split at hs <;> cases hs
        next hresp =>
        have hans := h.answered_of_semResp hresp
        refine callProgress_goto ⟨?_, hans.answered, ?_, ?_⟩
        · simpa using hans.reply
        · simpa using hans.semReq
        · simpa using hans.jobs
      all_goals cases hs
      · exact callProgress_goto h
      · exact stay
      · exact callProgress_goto faithful_raised
      · exact callProgress_goto faithful_raised
      · exact callProgress_goto h
      · exact callProgress_goto h
      · exact callProgress_goto h
  | poll i =>
      rw [hpc] at h
      simp only [bodyStep, hpc, pollStep] at hs
      split at hs
      · cases hs
        exact callProgress_goto (faithful_of_code (by simp) (by decide))
      · split at hs <;> cases hs
        · next hcode => exact callProgress_goto (h.answered_of_errorcode hcode)
        · exact stay
  | readCode i =>
      rw [hpc] at h
      simp only [bodyStep, hpc] at hs
      split at hs <;> cases hs
      · exact callProgress_goto ⟨by simp, fun _ => h.answered⟩
      · exact callProgress_goto h
  | parse i =>
      rw [hpc] at h
      simp only [bodyStep, hpc] at hs
      split at hs <;> cases hs
      · refine callProgress_goto ⟨?_, fun _ => h.answered⟩
        rintro reply ⟨⟩
        exact h.reply
      · exact callProgress_goto faithful_raised
      · exact callProgress_goto faithful_raised
  | _ => simp [bodyStep, hpc] at hs

/-- The release leaves a slot that has been answered without a trace. -/
theorem releaseStep_progress (hc : s.calls id = some c) (h : Progress s id c.pc)
    (hs : releaseStep s id c r c.pc = some s') : CallProgress s' id := by
  cases hpc : c.pc with
  | releaseWait i rc =>
      rw [hpc] at h
      simp only [releaseStep, hpc, Option.map_eq_some_iff] at hs
      obtain ⟨w, -, rfl⟩ := hs
      cases w with
      | acquired => exact callProgress_goto h
      | again =>
          intro c' hc'
          cases hc.symm.trans hc'
          rw [hpc]
          exact h
      | failed =>
          dsimp only
          split
          · exact callProgress_goto faithful_raised
          · exact callProgress_goto h
  | clearOwner i rc =>
      rw [hpc] at h
      simp only [releaseStep, hpc, Option.some.injEq] at hs
      subst hs
      exact callProgress_goto h
  | releaseDrainReq i rc | releaseDrainResp i rc =>
      rw [hpc] at h
      simp only [releaseStep, hpc, Option.map_eq_some_iff] at hs
      obtain ⟨⟨n, fin⟩, -, rfl⟩ := hs
      cases fin <;> exact callProgress_goto h
  | releasePost i rc =>
      rw [hpc] at h
      simp only [releaseStep, hpc] at hs
      split at hs <;> cases hs
      · exact callProgress_goto h
      · refine callProgress_goto ?_
        split
        · exact faithful_raised
        · exact h
  | _ => simp [releaseStep, hpc] at hs

end Own

section Engine

variable {s s' : State} {i : Nat} {act : EngineAct} {id : CallId}

theorem markAnswered_mono {t : State} {q : Option CallId} (h : t.answered id = true) :
    (markAnswered t q).answered id = true := by
  cases q with
  | none => exact h
  | some id' => by_cases hid : id = id' <;> simp [markAnswered, hid, h]

theorem engineStep_answered (h : engineStep s i act = some s') (hans : s.answered id = true) :
    s'.answered id = true := by
  cases act <;> simp only [engineStep] at h <;> split at h <;> cases h
  · exact hans
  · exact hans
  · exact markAnswered_mono hans
  · exact hans

theorem engineStep_other {j : Nat} (h : engineStep s i act = some s') (hj : j ≠ i) :
    s'.slots j = s.slots j := by
  cases act <;> simp only [engineStep] at h <;> split at h <;> cases h <;> simp [hj]

/-- The engine has nothing to do on a quiet slot. -/
theorem SlotState.Quiet.engineStep (hq : (s.slots i).Quiet) : engineStep s i act = none := by
  cases act <;> simp [Slot.engineStep, hq.semReq, hq.jobs]

/-- Once it has written the answer to the only request, the engine can only
post. -/
theorem Answered.engineStep (ha : Answered id (s.slots i) (s.answered id))
    (h : engineStep s i act = some s') : Answered id (s'.slots i) (s'.answered id) := by
  have hans : s'.answered id = true := engineStep_answered h ha.answered
  obtain ⟨hreply, -, hreq, hjobs | hjobs⟩ := ha
  · cases act <;> simp [Slot.engineStep, hreq, hjobs] at h
  · cases act with
    | accept => simp [Slot.engineStep, hreq] at h
    | reply k | code k _ => cases k <;> simp [Slot.engineStep, hjobs] at h
    | post k =>
        cases k with
        | zero =>
            simp only [Slot.engineStep, hjobs, List.getElem?_cons_zero, Option.some.injEq] at h
            subst h
            exact ⟨by simpa using hreply, hans, by simpa using hreq, .inl (by simp)⟩
        | succ k => simp [Slot.engineStep, hjobs] at h

/-- The engine serves the only request of the slot, and no other. -/
theorem InService.engineStep (hsv : InService id (s.slots i) (s.answered id))
    (h : engineStep s i act = some s') : InService id (s'.slots i) (s'.answered id) := by
  cases hsv with
  | answered ha => exact .answered (ha.engineStep h)
  | posted hreq hresp hjobs hrequest hcode =>
      cases act with
      | accept =>
          simp only [Slot.engineStep, hreq, Nat.one_pos, if_true, Option.some.injEq] at h
          subst h
          exact .accepted (by simp) (by simp [hresp]) (by simp [hjobs, hrequest]) (by simp [hcode])
      | _ => simp [Slot.engineStep, hjobs] at h
  | accepted hreq hresp hjobs hcode =>
      cases act with
      | accept => simp [Slot.engineStep, hreq] at h
      | reply k =>
          cases k with
          | zero =>
              simp only [Slot.engineStep, hjobs, List.getElem?_cons_zero, Option.some.injEq] at h
              subst h
              exact .replied (by simp [hreq]) (by simp [hresp]) (by simp) (by simp)
                (by simp [hcode])
          | succ k => simp [Slot.engineStep, hjobs] at h
      | code k _ | post k => cases k <;> simp [Slot.engineStep, hjobs] at h
  | replied hreq hresp hjobs hreply hcode =>
      cases act with
      | accept => simp [Slot.engineStep, hreq] at h
      | code k _ =>
          cases k with
          | zero =>
              simp only [Slot.engineStep, hjobs, List.getElem?_cons_zero, Option.some.injEq] at h
              subst h
              exact .answered ⟨by simp [hreply], by simp [markAnswered], by simp [hreq],
                .inr (by simp)⟩
          | succ k => simp [Slot.engineStep, hjobs] at h
      | reply k | post k => cases k <;> simp [Slot.engineStep, hjobs] at h

/-- What the engine does to a slot is what the call on it waits for. -/
theorem Progress.engine {pc : Pc} (h : Progress s id pc) (hs : engineStep s i act = some s') :
    Progress s' id pc := by
  by_cases hkeeps : pc.view.keeps = some i
  · have hbusy : ¬ (s.slots i).Quiet := fun hq => by simp [hq.engineStep] at hs
    cases pc with
    | reservePost found =>
        obtain rfl : found = some i := hkeeps
        exact absurd h hbusy
    | header j =>
        obtain rfl : j = i := by simpa using hkeeps
        exact absurd h hbusy
    | fill j | postReq j =>
        obtain rfl : j = i := by simpa using hkeeps
        exact absurd h.1 hbusy
    | waitResp j | poll j =>
        obtain rfl : j = i := by simpa using hkeeps
        exact InService.engineStep h hs
    | readCode j | parse j =>
        obtain rfl : j = i := by simpa using hkeeps
        exact Answered.engineStep h hs
    | releaseWait _ rc | clearOwner _ rc | releaseDrainReq _ rc | releaseDrainResp _ rc
    | releasePost _ rc | done rc _ => exact Faithful.mono h (engineStep_answered hs)
    | _ => trivial
  · refine h.frame (fun j hj => engineStep_other hs ?_) (engineStep_answered hs)
    rintro rfl
    exact hkeeps hj

end Engine

/-- The runs in which `reserve_slot` never hands out a slot that is still busy
with an earlier request, and no Python caller posts `/bpShm` without holding
it. -/
def reuseOk (s : State) (l : Label) : Prop :=
  handsOutBusySlot s l = false ∧ pythonReleaseFails s l = false

instance (s : State) (l : Label) : Decidable (reuseOk s l) := instDecidableAnd

theorem Owned.of_reuseOk {s : State} (h : dispatcher.Reaches reuseOk s) : Owned s :=
  owned_of_reaches (h.mono fun _ _ => And.right)

/-- Along such runs every call makes progress on its own request only. -/
theorem progress_of_reaches {s : State} (h : dispatcher.Reaches reuseOk s) :
    ∀ id c, s.calls id = some c → Progress s id c.pc := by
  refine h.invariant_of (fun _ => Owned.of_reuseOk)
    (fun s => ∀ id c, s.calls id = some c → Progress s id c.pc) ?_ ?_
  · intro s hinit
    simp [hinit.calls]
  · intro s l s' howned ih hok hs id c' hc'
    cases l with
    | start id' sdk client owner =>
        obtain ⟨-, -, rfl⟩ := step_start hs
        by_cases hid : id = id'
        · subst id'
          obtain rfl := by simpa using hc'
          trivial
        · exact (ih id c' (by simpa [hid] using hc')).frame (fun _ _ => rfl) (fun h => h)
    | call id' r =>
        obtain ⟨c, hc, hs⟩ := step_call hs
        obtain ⟨pc', hcalls, hanswered, hslots⟩ := callStep_frame hc hs
        by_cases hid : id = id'
        · subst id'
          have h := ih id c hc
          rcases callStep_eq hs with hs | hs | hs
          · exact reserveStep_progress hc h hok.1 hs c' hc'
          · exact bodyStep_progress hc h hs c' hc'
          · exact releaseStep_progress hc h hs c' hc'
        · have hc'' : s.calls id = some c' := by simpa [hcalls, hid] using hc'
          refine (ih id c' hc'').frame (fun i hkeeps => ?_) (by simp [hanswered])
          -- the slot a call keeps is touched by no other call
          refine (hslots i).resolve_right fun htouch => hid ?_
          exact howned.cells.touch_unique (i := i) (.inl (by rwa [abs_view hc'']))
            (by rwa [abs_view hc])
    | engine i act =>
        obtain ⟨-, hcalls, -⟩ := engineStep_frame hs
        exact (ih id c' (hcalls ▸ hc')).engine hs

/-- A call that returns `BP_OK` has parsed the reply to its own request, and a
call that returns the pending code has been answered. -/
def ReturnsFaithful (s : State) : Prop :=
  ∀ id c rc u, s.calls id = some c → c.pc = .done rc u →
    (∀ reply, rc = .ok reply → reply = some id) ∧
      (rc.code = some (-301) → s.answered id = true)

/-- In a run in which `reserve_slot` hands out no slot that is still busy, every
call returns its own reply. -/
theorem returnsFaithful_of_reuseOk {s : State} (h : dispatcher.Reaches reuseOk s) :
    ReturnsFaithful s := by
  intro id c rc u hc hpc
  have hprogress := progress_of_reaches h id c hc
  rw [hpc] at hprogress
  refine ⟨hprogress.own, fun hcode => hprogress.pending ?_⟩
  rw [pendingErrorBits_toInt]
  exact hcode

/-- Call 1 posts its request, times out in `sem_timedwait` and in the poll, and
gives slot 0 back while the engine is still working on it. -/
def timedOutCall : List Label :=
  Label.start 1 .c 0 2 :: List.replicate 10 (.call 1 .ok) ++
    [.engine 0 .accept, .call 1 .timeout, .call 1 .timeout] ++ List.replicate 5 (.call 1 .ok)

/-- Call 2 takes slot 0 after the engine is done with the request of call 1;
`reserve_slot` drains its late post. -/
theorem returnsFaithful_after_timeout :
    ∃ s, dispatcher.Reachable s ∧ s.pcOf 1 = some (.done .recvAnswer none) ∧
      s.pcOf 2 = some (.done (.ok (some 2)) none) ∧ ReturnsFaithful s := by
  obtain ⟨s, hs, hpcs⟩ :=
    dispatcher.exists_reaches_of_run reuseOk fresh_initial
      (timedOutCall ++ [.engine 0 (.reply 0), .engine 0 (.code 0 0), .engine 0 (.post 0)] ++
        Label.start 2 .go 1 3 :: List.replicate 11 (.call 2 .ok) ++
        [.engine 0 .accept, .engine 0 (.reply 0), .engine 0 (.code 0 0), .engine 0 (.post 0)] ++
        List.replicate 8 (.call 2 .ok))
      (fun s => decide (s.pcOf 1 = some (.done .recvAnswer none) ∧
        s.pcOf 2 = some (.done (.ok (some 2)) none))) (by decide +kernel)
  obtain ⟨h1, h2⟩ := of_decide_eq_true hpcs
  exact ⟨s, hs.reachable, h1, h2, returnsFaithful_of_reuseOk hs⟩

/-- Call 2 takes slot 0 while the engine is still working on the request of
call 1. The engine's post for call 1 wakes call 2, which parses the reply to
call 1. -/
theorem returnsFaithful_fails_on_reuse :
    ∃ s, dispatcher.Reachable s ∧ s.pcOf 2 = some (.done (.ok (some 1)) none) ∧
      ¬ ReturnsFaithful s := by
  obtain ⟨s, hs, hpc⟩ :=
    dispatcher.exists_reaches_of_run (fun _ _ => True) fresh_initial
      (timedOutCall ++ Label.start 2 .c 0 3 :: List.replicate 10 (.call 2 .ok) ++
        [.engine 0 (.reply 0), .engine 0 (.code 0 0), .engine 0 (.post 0)] ++
        List.replicate 9 (.call 2 .ok))
      (fun s => decide (s.pcOf 2 = some (.done (.ok (some 1)) none))) (by decide +kernel)
  have h2 := of_decide_eq_true hpc
  refine ⟨s, hs, h2, fun hall => ?_⟩
  obtain ⟨c, hc, hcpc⟩ := Option.map_eq_some_iff.mp h2
  have := (hall 2 c _ none hc hcpc).1 (some 1) rfl
  simp at this

end BpClient.Slot
