import BpClient.Lib.Progress
import BpClient.Slot.Leak

/-!
The dispatcher can always come to rest. As long as no call has failed to wait for
`/bpShm` in `release_slot` or to post it there, every call in flight can still return,
whatever the engine does not do and without any further operation failing; then `/bpShm` is
posted and every slot is free.
-/

namespace BpClient.Slot

open BpClient.Lib

/-- The post of a `release_slot` fails. -/
def losesPost (s : State) : Label → Bool
  | .call id .error =>
      match s.calls id with
      | some c =>
          match c.pc with
          | .releasePost _ _ => true
          | _ => false
      | none => false
  | _ => false

/-- The dispatcher, with every `scan_mu` unlocked at first. -/
def opened : System State Label :=
  ⟨fun s => Initial s ∧ ∀ client, s.scanMu client = none, step⟩

/-- Runs in which `release_slot` does what it is for. -/
abbrev KeepsLock : State → Prop :=
  opened.Reaches fun s l => releaseFails s l = false ∧ losesPost s l = false

theorem KeepsLock.releasing {s : State} (h : KeepsLock s) : Releasing s := by
  induction h with
  | init h => exact .init h.1
  | step _ hok hs ih => exact .step ih hok.1 hs

/-- Steps of calls in flight, none of them a failure: the operations succeed or, where a
reply is waited for, the time runs out. -/
def calm : Label → Bool
  | .call _ .ok | .call _ .timeout => true
  | _ => false

/-- How much of the section a call takes. -/
def Pc.weight (pc : Pc) : Nat := if pc.view.inside then 1 else 0

def Pc.scanning : Pc → Bool
  | .scan _ | .claim _ | .drainReq _ | .drainResp _ | .reservePost _ => true
  | _ => false

theorem Pc.inside_of_scanning {pc : Pc} (h : pc.scanning = true) : pc.view.inside = true := by
  cases pc <;> first | rfl | cases h

/-- What a step of a call does to the section and to the `scan_mu`s. -/
structure CallEffect (s s' : State) (id : CallId) (c : Call) (pc' : Pc) : Prop where
  calls : s'.calls = Function.update s.calls id (some { c with pc := pc' })
  lock : s'.lock + pc'.weight = s.lock + c.pc.weight
  scanMu : s'.scanMu = s.scanMu ∧ (c.pc.scanning = true → pc'.scanning = true) ∨
    s'.scanMu = Function.update s.scanMu c.client (some id) ∧ pc'.scanning = true ∨
    s'.scanMu = Function.update s.scanMu c.client none

section Effects

variable {s s' : State} {id : CallId} {c : Call} {r : SemResult}

theorem callEffect_goto {t : State} {pc' : Pc} (hcalls : t.calls = s.calls)
    (hlock : t.lock + pc'.weight = s.lock + c.pc.weight) (hscan : t.scanMu = s.scanMu)
    (hkeep : c.pc.scanning = true → pc'.scanning = true) :
    CallEffect s (t.goto id c pc') id c pc' where
  calls := by rw [goto_calls, hcalls]
  lock := hlock
  scanMu := .inl ⟨hscan, hkeep⟩

theorem callEffect_refl (hc : s.calls id = some c) : CallEffect s s id c c.pc where
  calls := by simp [← hc]
  lock := rfl
  scanMu := .inl ⟨rfl, fun h => h⟩

theorem reserveStep_effect (hc : s.calls id = some c)
    (h : reserveStep s id c r c.pc = some s') : ∃ pc', CallEffect s s' id c pc' := by
  cases hpc : c.pc with
  | reserveWait =>
      simp only [reserveStep, hpc, Option.map_eq_some_iff] at h
      obtain ⟨w, hw, rfl⟩ := h
      cases w with
      | acquired =>
          have hpos := lockWait_pos hw
          refine ⟨_, callEffect_goto rfl ?_ rfl (by simp [hpc, Pc.scanning])⟩
          simp [hpc, Pc.weight]
          omega
      | again => exact ⟨_, callEffect_refl hc⟩
      | failed =>
          exact ⟨_, callEffect_goto rfl (by simp [hpc, Pc.weight]) rfl
            (by simp [hpc, Pc.scanning])⟩
  | scanLock =>
      simp only [reserveStep, hpc] at h
      split at h
      · cases h
        exact ⟨.scan 0, rfl, by simp [hpc, Pc.weight], .inr (.inl ⟨rfl, rfl⟩)⟩
      · cases h
  | scan i =>
      simp only [reserveStep, hpc] at h
      repeat' split at h
      all_goals
        cases h
        exact ⟨_, callEffect_goto rfl (by simp [hpc, Pc.weight]) rfl (by simp [Pc.scanning])⟩
  | claim i =>
      simp only [reserveStep, hpc, Option.some.injEq] at h
      subst h
      exact ⟨_, callEffect_goto rfl (by simp [hpc, Pc.weight]) rfl (by simp [Pc.scanning])⟩
  | drainReq i | drainResp i =>
      simp only [reserveStep, hpc, Option.map_eq_some_iff] at h
      obtain ⟨⟨n, fin⟩, -, rfl⟩ := h
      exact ⟨_, callEffect_goto rfl (by cases fin <;> simp [hpc, Pc.weight]) rfl
        (by cases fin <;> simp [Pc.scanning])⟩
  | reservePost found =>
      simp only [reserveStep, hpc, Option.some.injEq] at h
      subst h
      refine ⟨_, rfl, ?_, .inr (.inr rfl)⟩
      cases found <;> simp [hpc, Pc.weight]
  | _ => simp [reserveStep, hpc] at h

theorem bodyStep_effect (hc : s.calls id = some c) (h : bodyStep s id c r c.pc = some s') :
    ∃ pc', CallEffect s s' id c pc' := by
  cases hpc : c.pc <;> simp only [bodyStep, waitRespStep, pollStep, hpc] at h
  all_goals
    repeat' split at h
    all_goals cases h
    all_goals first
      | exact ⟨_, callEffect_refl hc⟩
      | exact ⟨_, callEffect_goto rfl (by simp [hpc, Pc.weight]) rfl (by simp [hpc, Pc.scanning])⟩

theorem releaseStep_effect (hc : s.calls id = some c)
    (hfails : releaseFails s (.call id r) = false) (hloses : losesPost s (.call id r) = false)
    (h : releaseStep s id c r c.pc = some s') : ∃ pc', CallEffect s s' id c pc' := by
  cases hpc : c.pc with
  | releaseWait i rc =>
      simp only [releaseStep, hpc, Option.map_eq_some_iff] at h
      obtain ⟨w, hw, rfl⟩ := h
      cases w with
      | acquired =>
          have hpos := lockWait_pos hw
          refine ⟨_, callEffect_goto rfl ?_ rfl (by simp [hpc, Pc.scanning])⟩
          simp [hpc, Pc.weight]
          omega
      | again => exact ⟨_, callEffect_refl hc⟩
      | failed =>
          have := (releaseFails_call (r := r) hc).mpr ⟨⟨i, rc, hpc⟩, hw⟩
          rw [hfails] at this
          cases this
  | clearOwner i rc =>
      simp only [releaseStep, hpc, Option.some.injEq] at h
      subst h
      exact ⟨_, callEffect_goto rfl (by simp [hpc, Pc.weight]) rfl (by simp [hpc, Pc.scanning])⟩
  | releaseDrainReq i rc | releaseDrainResp i rc =>
      simp only [releaseStep, hpc, Option.map_eq_some_iff] at h
      obtain ⟨⟨n, fin⟩, -, rfl⟩ := h
      exact ⟨_, callEffect_goto rfl (by cases fin <;> simp [hpc, Pc.weight]) rfl
        (by cases fin <;> simp [hpc, Pc.scanning])⟩
  | releasePost i rc =>
      simp only [releaseStep, hpc] at h
      split at h
      · cases h
        exact ⟨_, callEffect_goto rfl (by simp [hpc, Pc.weight]) rfl
          (by simp [hpc, Pc.scanning])⟩
      · simp [losesPost, hc, hpc] at hloses
      · cases h
  | _ => simp [releaseStep, hpc] at h

theorem callStep_effect (hc : s.calls id = some c)
    (hfails : releaseFails s (.call id r) = false) (hloses : losesPost s (.call id r) = false)
    (h : callStep s id c r = some s') : ∃ pc', CallEffect s s' id c pc' := by
  rcases callStep_eq h with hres | hbody | hrel
  · exact reserveStep_effect hc hres
  · exact bodyStep_effect hc hbody
  · exact releaseStep_effect hc hfails hloses hrel

end Effects

/-- What holds between the calls in runs in which `release_slot` does what it is for: the
section is open or somebody is inside, a `scan_mu` is held by a call that is scanning, and
finitely many calls have been made. -/
structure Orderly (s : State) : Prop where
  occupied : 0 < s.lock ∨ ∃ id c, s.calls id = some c ∧ c.pc.view.inside = true
  scanMu : ∀ client id, s.scanMu client = some id →
    ∃ c, s.calls id = some c ∧ c.client = client ∧ c.pc.scanning = true
  finite : ∃ ids : List CallId, ∀ id c, s.calls id = some c → id ∈ ids

theorem Initial.orderly {s : State} (h : Initial s) (hscan : ∀ client, s.scanMu client = none) :
    Orderly s where
  occupied := by
    rw [h.lock]
    exact .inl Nat.one_pos
  scanMu client id hheld := by
    rw [hscan] at hheld
    cases hheld
  finite := by
    refine ⟨[], fun id c hc => ?_⟩
    rw [h.calls] at hc
    cases hc

section Orderly

variable {s s' : State} {id : CallId} {c : Call} {pc' : Pc}

theorem Orderly.start {sdk : Sdk} {client owner : Nat} (h : Orderly s) (hnone : s.calls id = none) :
    Orderly (s.setCall id ⟨sdk, client, owner, .reserveWait⟩) := by
  have hother : ∀ q d, s.calls q = some d →
      (s.setCall id ⟨sdk, client, owner, .reserveWait⟩).calls q = some d := by
    intro q d hd
    have hne : q ≠ id := by
      rintro rfl
      cases hnone.symm.trans hd
    simpa [hne] using hd
  refine ⟨?_, ?_, ?_⟩
  · rcases h.occupied with hpos | ⟨q, d, hd, hin⟩
    · exact .inl hpos
    · exact .inr ⟨q, d, hother q d hd, hin⟩
  · intro client' q hheld
    obtain ⟨d, hd, hclient, hscan⟩ := h.scanMu client' q hheld
    exact ⟨d, hother q d hd, hclient, hscan⟩
  · obtain ⟨ids, hids⟩ := h.finite
    refine ⟨id :: ids, fun q d hd => ?_⟩
    by_cases hq : q = id
    · exact hq ▸ List.mem_cons_self
    · exact List.mem_cons_of_mem _ (hids q d (by simpa [hq] using hd))

/-- A step of a call that neither fails nor loses a post keeps the order. -/
theorem Orderly.effect (h : Orderly s) (hc : s.calls id = some c)
    (heffect : CallEffect s s' id c pc') : Orderly s' := by
  have hself : s'.calls id = some { c with pc := pc' } := by simp [heffect.calls]
  have hother : ∀ q, q ≠ id → s'.calls q = s.calls q := fun q hq => by simp [heffect.calls, hq]
  refine ⟨?_, ?_, ?_⟩
  · -- one in the section or in the semaphore stays one
    have hone : 1 ≤ s.lock + c.pc.weight ∨
        ∃ q d, q ≠ id ∧ s.calls q = some d ∧ d.pc.view.inside = true := by
      rcases h.occupied with hpos | ⟨q, d, hd, hin⟩
      · exact .inl (Nat.le_add_right_of_le hpos)
      · by_cases hq : q = id
        · subst hq
          cases hc.symm.trans hd
          refine .inl (Nat.le_add_left_of_le ?_)
          rw [Pc.weight, if_pos hin]
        · exact .inr ⟨q, d, hq, hd, hin⟩
    rcases hone with hone | ⟨q, d, hq, hd, hin⟩
    · rw [← heffect.lock] at hone
      cases hin : pc'.view.inside with
      | true => exact .inr ⟨id, _, hself, hin⟩
      | false =>
          rw [Pc.weight, hin] at hone
          exact .inl hone
    · exact .inr ⟨q, d, (hother q hq).trans hd, hin⟩
  · intro client q hheld
    rcases heffect.scanMu with ⟨hsame, hkeep⟩ | ⟨hset, hscan⟩ | hcleared
    · rw [hsame] at hheld
      obtain ⟨d, hd, hclient, hscan⟩ := h.scanMu client q hheld
      by_cases hq : q = id
      · subst hq
        cases hc.symm.trans hd
        exact ⟨_, hself, hclient, hkeep hscan⟩
      · exact ⟨d, (hother q hq).trans hd, hclient, hscan⟩
    · rw [hset] at hheld
      by_cases hclient : client = c.client
      · subst hclient
        rw [Function.update_self, Option.some.injEq] at hheld
        subst hheld
        exact ⟨_, hself, rfl, hscan⟩
      · rw [Function.update_of_ne hclient] at hheld
        obtain ⟨d, hd, hown, hdscan⟩ := h.scanMu client q hheld
        by_cases hq : q = id
        · subst hq
          cases hc.symm.trans hd
          exact absurd hown.symm hclient
        · exact ⟨d, (hother q hq).trans hd, hown, hdscan⟩
    · rw [hcleared] at hheld
      by_cases hclient : client = c.client
      · subst hclient
        rw [Function.update_self] at hheld
        cases hheld
      · rw [Function.update_of_ne hclient] at hheld
        obtain ⟨d, hd, hown, hdscan⟩ := h.scanMu client q hheld
        by_cases hq : q = id
        · subst hq
          cases hc.symm.trans hd
          exact absurd hown.symm hclient
        · exact ⟨d, (hother q hq).trans hd, hown, hdscan⟩
  · obtain ⟨ids, hids⟩ := h.finite
    refine ⟨ids, fun q d hd => ?_⟩
    by_cases hq : q = id
    · exact hq ▸ hids id c hc
    · exact hids q d ((hother q hq).symm.trans hd)

theorem Orderly.engine {i : Nat} {act : EngineAct} (h : Orderly s)
    (hs : engineStep s i act = some s') : Orderly s' := by
  obtain ⟨hlock, hcalls, -⟩ := engineStep_frame hs
  have hscan : s'.scanMu = s.scanMu := by
    cases act <;> simp only [engineStep] at hs <;> split at hs <;> cases hs
    · rfl
    · rfl
    · next request _ => cases request <;> rfl
    · rfl
  obtain ⟨h₁, h₂, h₃⟩ := h
  rw [← hlock, ← hcalls] at h₁
  rw [← hscan, ← hcalls] at h₂
  rw [← hcalls] at h₃
  exact ⟨h₁, h₂, h₃⟩

end Orderly

theorem KeepsLock.orderly {s : State} (h : KeepsLock s) : Orderly s := by
  apply h.invariant Orderly
  · rintro t ⟨hinit, hscan⟩
    exact hinit.orderly hscan
  · intro t l t' ht hok hs
    cases l with
    | start id sdk client owner =>
        obtain ⟨hnone, -, rfl⟩ := step_start hs
        exact ht.start hnone
    | call id r =>
        obtain ⟨c, hc, hstep⟩ := step_call hs
        obtain ⟨pc', heffect⟩ := callStep_effect hc hok.1 hok.2 hstep
        exact ht.effect hc heffect
    | engine i act => exact ht.engine hs

/-- How far a call is from its return. -/
def Pc.rank : Pc → Nat
  | .reserveWait => 19 + slotCount
  | .scanLock => 18 + slotCount
  | .scan i => 17 + (slotCount - i)
  | .claim _ => 16
  | .drainReq _ => 15
  | .drainResp _ => 14
  | .reservePost _ => 13
  | .header _ => 12
  | .fill _ => 11
  | .postReq _ => 10
  | .waitResp _ => 9
  | .poll _ => 8
  | .readCode _ => 7
  | .parse _ => 6
  | .releaseWait _ _ => 5
  | .clearOwner _ _ => 4
  | .releaseDrainReq _ _ => 3
  | .releaseDrainResp _ _ => 2
  | .releasePost _ _ => 1
  | .done _ _ => 0

def Pc.posts (s : State) : Pc → Nat
  | .drainReq i | .releaseDrainReq i _ => (s.slots i).semReq
  | .drainResp i | .releaseDrainResp i _ => (s.slots i).semResp
  | _ => 0

/-- A call comes nearer to its return: in the program, or by a post that it drains. -/
def Nearer : Nat × Nat → Nat × Nat → Prop := Prod.Lex (· < ·) (· < ·)

def measure (id : CallId) (s : State) : Nat × Nat :=
  match s.calls id with
  | some c => (c.pc.rank, c.pc.posts s)
  | none => (0, 0)

/-- The next step of a call, with no failure in it. -/
structure Advances (s : State) (id : CallId) (c : Call) (r : SemResult) (s' : State) : Prop where
  step : callStep s id c r = some s'
  calm : calm (.call id r) = true
  nearer : Nearer (measure id s') (c.pc.rank, c.pc.posts s)

section Advance

variable {s s' : State} {id : CallId} {c : Call} {r : SemResult}

theorem advances_of_rank (t : State) (pc' : Pc) (hstep : callStep s id c r = some (t.goto id c pc'))
    (hcalm : calm (.call id r) = true) (hlt : pc'.rank < c.pc.rank) :
    Advances s id c r (t.goto id c pc') where
  step := hstep
  calm := hcalm
  nearer := by
    simp only [measure, goto_calls, Function.update_self]
    exact Prod.Lex.left _ _ hlt

theorem advances_of_posts (t : State) (pc' : Pc)
    (hstep : callStep s id c r = some (t.goto id c pc'))
    (hcalm : calm (.call id r) = true) (heq : pc'.rank = c.pc.rank)
    (hlt : pc'.posts (t.goto id c pc') < c.pc.posts s) :
    Advances s id c r (t.goto id c pc') where
  step := hstep
  calm := hcalm
  nearer := by
    simp only [measure, goto_calls, Function.update_self, heq]
    exact Prod.Lex.right _ hlt

/-- A drain takes a post, or ends. -/
theorem drain_cases (count : Nat) :
    (0 < count ∧ semDrain count .ok = some (count - 1, false)) ∨
      count = 0 ∧ semDrain count .ok = some (0, true) := by
  rcases Nat.eq_zero_or_pos count with hzero | hpos
  · exact .inr ⟨hzero, by rw [semDrain, hzero]; rfl⟩
  · exact .inl ⟨hpos, by rw [semDrain, if_pos hpos]⟩

/-- A call in flight that is inside the section, or finds it open, has a next step. -/
theorem exists_advance (hret : c.pc.returned = false)
    (hopen : c.pc.view.inside = true ∨ 0 < s.lock)
    (hscan : c.pc = .scanLock → s.scanMu c.client = none) :
    ∃ r s', Advances s id c r s' := by
  cases hpc : c.pc with
  | reserveWait =>
      have hlock : 0 < s.lock := by simpa [hpc] using hopen
      refine ⟨.ok, _, advances_of_rank (s.setLock (s.lock - 1)) .scanLock ?_ rfl ?_⟩
      · simp [callStep, reserveStep, hpc, lockWait, hlock]
      · simp [hpc, Pc.rank]
  | scanLock =>
      refine ⟨.ok, _, advances_of_rank (s.setScanMu c.client (some id)) (.scan 0) ?_ rfl ?_⟩
      · simp [callStep, reserveStep, hpc, hscan hpc]
      · simp [hpc, Pc.rank]
  | scan i =>
      by_cases hi : i < slotCount
      · by_cases hfree : (s.slots i).owner = 0
        · refine ⟨.ok, _, advances_of_rank s (.claim i) ?_ rfl ?_⟩
          · simp [callStep, reserveStep, hpc, hi, hfree]
          · rw [hpc, Pc.rank, Pc.rank]
            omega
        · refine ⟨.ok, _, advances_of_rank s (.scan (i + 1)) ?_ rfl ?_⟩
          · simp [callStep, reserveStep, hpc, hi, hfree]
          · rw [hpc, Pc.rank, Pc.rank]
            omega
      · refine ⟨.ok, _, advances_of_rank s (.reservePost none) ?_ rfl ?_⟩
        · simp [callStep, reserveStep, hpc, hi]
        · rw [hpc, Pc.rank, Pc.rank]
          omega
  | claim i =>
      refine ⟨.ok, _, advances_of_rank (s.setSlot i { s.slots i with owner := c.owner })
        (.drainReq i) ?_ rfl ?_⟩
      · simp [callStep, reserveStep, hpc]
      · simp [hpc, Pc.rank]
  | drainReq i =>
      rcases drain_cases (s.slots i).semReq with ⟨hpos, hdrain⟩ | ⟨-, hdrain⟩
      · refine ⟨.ok, _, advances_of_posts
          (s.setSlot i { s.slots i with semReq := (s.slots i).semReq - 1 })
          (.drainReq i) ?_ rfl ?_ ?_⟩
        · simp [callStep, reserveStep, hpc, hdrain]
        · rw [hpc]
        · simp [hpc, Pc.posts]
          omega
      · refine ⟨.ok, _, advances_of_rank (s.setSlot i { s.slots i with semReq := 0 })
          (.drainResp i) ?_ rfl ?_⟩
        · simp [callStep, reserveStep, hpc, hdrain]
        · simp [hpc, Pc.rank]
  | drainResp i =>
      rcases drain_cases (s.slots i).semResp with ⟨hpos, hdrain⟩ | ⟨-, hdrain⟩
      · refine ⟨.ok, _, advances_of_posts
          (s.setSlot i { s.slots i with semResp := (s.slots i).semResp - 1 })
          (.drainResp i) ?_ rfl ?_ ?_⟩
        · simp [callStep, reserveStep, hpc, hdrain]
        · rw [hpc]
        · simp [hpc, Pc.posts]
          omega
      · refine ⟨.ok, _, advances_of_rank (s.setSlot i { s.slots i with semResp := 0 })
          (.reservePost (some i)) ?_ rfl ?_⟩
        · simp [callStep, reserveStep, hpc, hdrain]
        · simp [hpc, Pc.rank]
  | reservePost found =>
      cases found with
      | none =>
          refine ⟨.ok, _, advances_of_rank ((s.setScanMu c.client none).setLock (s.lock + 1))
            (.done .noFreeSlot none) ?_ rfl ?_⟩
          · simp [callStep, reserveStep, hpc]
          · simp [hpc, Pc.rank]
      | some i =>
          refine ⟨.ok, _, advances_of_rank ((s.setScanMu c.client none).setLock (s.lock + 1))
            (.header i) ?_ rfl ?_⟩
          · simp [callStep, reserveStep, hpc]
          · simp [hpc, Pc.rank]
  | header i =>
      refine ⟨.ok, _, advances_of_rank (s.setSlot i { s.slots i with
        errorcode := pendingErrorBits, request := none, reply := none }) (.fill i) ?_ rfl ?_⟩
      · simp [callStep, reserveStep, bodyStep, hpc]
      · simp [hpc, Pc.rank]
  | fill i =>
      refine ⟨.ok, _, advances_of_rank (s.setSlot i { s.slots i with request := some id })
        (.postReq i) ?_ rfl ?_⟩
      · simp [callStep, reserveStep, bodyStep, hpc]
      · simp [hpc, Pc.rank]
  | postReq i =>
      refine ⟨.ok, _, advances_of_rank
        (s.setSlot i { s.slots i with semReq := (s.slots i).semReq + 1 })
        (.waitResp i) ?_ rfl ?_⟩
      · simp [callStep, reserveStep, bodyStep, hpc]
      · simp [hpc, Pc.rank]
  | waitResp i =>
      refine ⟨.timeout, _, advances_of_rank s (.poll i) ?_ rfl ?_⟩
      · simp [callStep, reserveStep, bodyStep, waitRespStep, hpc]
      · simp [hpc, Pc.rank]
  | poll i =>
      by_cases hcode : c.sdk ≠ .c ∨ (s.slots i).errorcode = pendingErrorBits
      · refine ⟨.timeout, _, advances_of_rank s (.releaseWait i .recvAnswer) ?_
          rfl ?_⟩
        · simp [callStep, reserveStep, bodyStep, pollStep, hpc, hcode]
        · simp [hpc, Pc.rank]
      · refine ⟨.timeout, _, advances_of_rank s (.readCode i) ?_ rfl ?_⟩
        · obtain ⟨hsdk, hne⟩ := not_or.mp hcode
          simp [callStep, reserveStep, bodyStep, pollStep, hpc, not_not.mp hsdk, hne]
        · simp [hpc, Pc.rank]
  | readCode i =>
      by_cases hcode : (s.slots i).errorcode = 0#32
      · refine ⟨.ok, _, advances_of_rank s (.parse i) ?_ rfl ?_⟩
        · simp [callStep, reserveStep, bodyStep, hpc, hcode]
        · simp [hpc, Pc.rank]
      · refine ⟨.ok, _, advances_of_rank s
          (.releaseWait i (.engine (s.slots i).errorcode)) ?_ rfl ?_⟩
        · simp [callStep, reserveStep, bodyStep, hpc, hcode]
        · simp [hpc, Pc.rank]
  | parse i =>
      refine ⟨.ok, _, advances_of_rank s (.releaseWait i (.ok (s.slots i).reply))
        ?_ rfl ?_⟩
      · simp [callStep, reserveStep, bodyStep, hpc]
      · simp [hpc, Pc.rank]
  | releaseWait i rc =>
      have hlock : 0 < s.lock := by simpa [hpc] using hopen
      refine ⟨.ok, _, advances_of_rank (s.setLock (s.lock - 1)) (.clearOwner i rc) ?_
        rfl ?_⟩
      · simp [callStep, reserveStep, bodyStep, releaseStep, hpc, lockWait, hlock]
      · simp [hpc, Pc.rank]
  | clearOwner i rc =>
      refine ⟨.ok, _, advances_of_rank (s.setSlot i { s.slots i with owner := 0 })
        (.releaseDrainReq i rc) ?_ rfl ?_⟩
      · simp [callStep, reserveStep, bodyStep, releaseStep, hpc]
      · simp [hpc, Pc.rank]
  | releaseDrainReq i rc =>
      rcases drain_cases (s.slots i).semReq with ⟨hpos, hdrain⟩ | ⟨-, hdrain⟩
      · refine ⟨.ok, _, advances_of_posts
          (s.setSlot i { s.slots i with semReq := (s.slots i).semReq - 1 })
          (.releaseDrainReq i rc) ?_ rfl ?_ ?_⟩
        · simp [callStep, reserveStep, bodyStep, releaseStep, hpc, hdrain]
        · rw [hpc]
        · simp [hpc, Pc.posts]
          omega
      · refine ⟨.ok, _, advances_of_rank (s.setSlot i { s.slots i with semReq := 0 })
          (.releaseDrainResp i rc) ?_ rfl ?_⟩
        · simp [callStep, reserveStep, bodyStep, releaseStep, hpc, hdrain]
        · simp [hpc, Pc.rank]
  | releaseDrainResp i rc =>
      rcases drain_cases (s.slots i).semResp with ⟨hpos, hdrain⟩ | ⟨-, hdrain⟩
      · refine ⟨.ok, _, advances_of_posts
          (s.setSlot i { s.slots i with semResp := (s.slots i).semResp - 1 })
          (.releaseDrainResp i rc) ?_ rfl ?_ ?_⟩
        · simp [callStep, reserveStep, bodyStep, releaseStep, hpc, hdrain]
        · rw [hpc]
        · simp [hpc, Pc.posts]
          omega
      · refine ⟨.ok, _, advances_of_rank (s.setSlot i { s.slots i with semResp := 0 })
          (.releasePost i rc) ?_ rfl ?_⟩
        · simp [callStep, reserveStep, bodyStep, releaseStep, hpc, hdrain]
        · simp [hpc, Pc.rank]
  | releasePost i rc =>
      refine ⟨.ok, _, advances_of_rank (s.setLock (s.lock + 1)) (.done rc none) ?_
        rfl ?_⟩
      · simp [callStep, reserveStep, bodyStep, releaseStep, hpc]
      · simp [hpc, Pc.rank]
  | done rc u =>
      rw [hpc] at hret
      cases hret

end Advance

/-- The labels of the calls in flight, without failures. -/
abbrev Calm (_ : State) (l : Label) : Prop := calm l = true

theorem calm_guard {s : State} {l : Label} (h : calm l = true) :
    releaseFails s l = false ∧ losesPost s l = false := by
  cases l with
  | start _ _ _ _ => cases h
  | engine _ _ => cases h
  | call id r =>
      cases r with
      | eintr | error => cases h
      | ok =>
          refine ⟨?_, rfl⟩
          simp only [releaseFails]
          split
          · by_cases hpos : 0 < s.lock <;> simp [lockWait, hpos]
          · rfl
      | timeout =>
          refine ⟨?_, rfl⟩
          simp only [releaseFails]
          split
          · simp [lockWait]
          · rfl

/-- The call is in the program, and inside the section or in front of an open one. -/
def InFlight (id : CallId) (s : State) : Prop :=
  ∃ c, s.calls id = some c ∧ (c.pc.view.inside = true ∨ 0 < s.lock)

def State.returned (s : State) (id : CallId) : Prop :=
  ∀ c, s.calls id = some c → c.pc.returned = true

section Rest

variable {s s' : State} {id : CallId} {c : Call}

/-- `scan_mu` is free for who has just entered the section. -/
theorem KeepsLock.scanMu_free (h : KeepsLock s) (hc : s.calls id = some c)
    (hpc : c.pc = .scanLock) : s.scanMu c.client = none := by
  by_contra hheld
  obtain ⟨id', hid'⟩ := Option.ne_none_iff_exists'.mp hheld
  obtain ⟨d, hd, -, hscan⟩ := h.orderly.scanMu _ _ hid'
  have hsame := h.releasing.exclusive.alone id' id d c hd hc (Pc.inside_of_scanning hscan)
    (by rw [hpc]; rfl)
  subst hsame
  cases hc.symm.trans hd
  rw [hpc] at hscan
  cases hscan

/-- Steps of one call leave the others where they are. -/
theorem call_keeps_others {r : SemResult} (hc : s.calls id = some c)
    (hstep : callStep s id c r = some s') {id' : CallId} (hne : id' ≠ id) :
    s'.calls id' = s.calls id' := by
  obtain ⟨pc', hcalls, -, -⟩ := callStep_frame hc hstep
  simp [hcalls, hne]

/-- A call that is inside the section, or finds it open, can return alone, and leaves the
section open. -/
theorem finish_alone (h : KeepsLock s) (hflight : InFlight id s) :
    ∃ s', opened.Leads Calm s s' ∧ KeepsLock s' ∧ s'.returned id ∧ 0 < s'.lock ∧
      ∀ id', id' ≠ id → s'.calls id' = s.calls id' := by
  have hwf : WellFounded Nearer := WellFounded.prod_lex wellFounded_lt wellFounded_lt
  have hrule : ∃ s', opened.Leads Calm s s' ∧
      (KeepsLock s' ∧ InFlight id s' ∧ ∀ id', id' ≠ id → s'.calls id' = s.calls id') ∧
      s'.returned id := by
    apply System.leads_of_decreasing hwf (measure id) ?_ ⟨h, hflight, fun _ _ => rfl⟩
    rintro t ⟨hkeeps, ⟨c, hc, hopen⟩, hothers⟩ hnot
    have hret : c.pc.returned = false := by
      rw [← Bool.not_eq_true]
      intro hdone
      apply hnot
      intro d hd
      cases hc.symm.trans hd
      exact hdone
    obtain ⟨r, t', hadvance⟩ : ∃ r t', Advances t id c r t' :=
      exists_advance hret hopen (hkeeps.scanMu_free hc)
    have hguard := calm_guard (s := t) hadvance.calm
    have hstep : opened.step t (.call id r) = some t' := by
      simp only [opened, step, hc]
      exact hadvance.step
    obtain ⟨pc', heffect⟩ := callStep_effect hc hguard.1 hguard.2 hadvance.step
    refine ⟨.call id r, t', hadvance.calm, hstep, ⟨.step hkeeps hguard hstep, ?_, ?_⟩, ?_⟩
    · refine ⟨{ c with pc := pc' }, by simp [heffect.calls], ?_⟩
      have hone : 1 ≤ t.lock + c.pc.weight := by
        rcases hopen with hin | hpos
        · rw [Pc.weight, if_pos hin]
          exact Nat.le_add_left 1 t.lock
        · exact Nat.le_add_right_of_le hpos
      rw [← heffect.lock] at hone
      cases hin : pc'.view.inside with
      | true => exact .inl rfl
      | false =>
          rw [Pc.weight, hin] at hone
          exact .inr hone
    · intro id' hne
      rw [call_keeps_others hc hadvance.step hne, hothers id' hne]
    · have hmeasure : measure id t = (c.pc.rank, c.pc.posts t) := by simp only [measure, hc]
      rw [hmeasure]
      exact hadvance.nearer
  obtain ⟨s', hleads, ⟨hkeeps, ⟨c, hc, hopen⟩, hothers⟩, hret⟩ := hrule
  have hlock : 0 < s'.lock := by
    rcases hopen with hin | hpos
    · have hdone := hret c hc
      cases hpc : c.pc with
      | done _ _ =>
          rw [hpc] at hin
          cases hin
      | _ =>
          rw [hpc] at hdone
          cases hdone
    · exact hpos
  exact ⟨s', hleads, hkeeps, hret, hlock, hothers⟩

/-- A call can return, if need be after the one that is inside the section. -/
theorem call_can_return (h : KeepsLock s) (id : CallId) :
    ∃ s', opened.Leads Calm s s' ∧ KeepsLock s' ∧ s'.returned id ∧
      ∀ id', s.returned id' → s'.returned id' := by
  have hkeep : ∀ {t t' : State} {q : CallId}, t'.returned q →
      (∀ id', id' ≠ q → t'.calls id' = t.calls id') → ∀ id', t.returned id' → t'.returned id' := by
    intro t t' q hq hothers id' hret
    by_cases hid : id' = q
    · exact hid ▸ hq
    · intro c hc
      exact hret c (hothers id' hid ▸ hc)
  rcases h.orderly.occupied with hpos | ⟨q, d, hd, hin⟩
  · cases hc : s.calls id with
    | none =>
        refine ⟨s, .refl s, h, ?_, fun _ hret => hret⟩
        intro c hc'
        cases hc.symm.trans hc'
    | some c =>
        obtain ⟨s', hleads, hkeeps, hret, -, hothers⟩ := finish_alone h ⟨c, hc, .inr hpos⟩
        exact ⟨s', hleads, hkeeps, hret, hkeep hret hothers⟩
  · obtain ⟨t, hleads, hkeeps, hret, hpos, hothers⟩ := finish_alone h ⟨d, hd, .inl hin⟩
    cases hc : t.calls id with
    | none =>
        refine ⟨t, hleads, hkeeps, ?_, hkeep hret hothers⟩
        intro c hc'
        cases hc.symm.trans hc'
    | some c =>
        obtain ⟨s', hleads', hkeeps', hret', -, hothers'⟩ :=
          finish_alone hkeeps ⟨c, hc, .inr hpos⟩
        refine ⟨s', hleads.trans hleads', hkeeps', hret', fun id' hid' => ?_⟩
        exact hkeep hret' hothers' id' (hkeep hret hothers id' hid')

/-- From every state of a run in which no `release_slot` has failed, steps of the calls in
flight alone, none of them a failure and none of them the engine's, lead to a state in which
every call has returned, every slot is free and `/bpShm` is posted. -/
theorem can_come_to_rest (h : KeepsLock s) :
    ∃ s', opened.Leads Calm s s' ∧ s'.idle ∧ (∀ i, (s'.slots i).owner = 0) ∧ s'.lock = 1 := by
  obtain ⟨ids, hids⟩ := h.orderly.finite
  have hone : ∀ t id, (KeepsLock t ∧ ∀ id c, t.calls id = some c → id ∈ ids) →
      ∃ t', opened.Leads Calm t t' ∧ (KeepsLock t' ∧ ∀ id c, t'.calls id = some c → id ∈ ids) ∧
        t'.returned id ∧ ∀ id', t.returned id' → t'.returned id' := by
    rintro t id ⟨ht, hcalls⟩
    obtain ⟨t', hleads, hkeeps, hret, hold⟩ := call_can_return ht id
    refine ⟨t', hleads, ⟨hkeeps, ?_⟩, hret, hold⟩
    apply hleads.keeps hcalls
    intro u l u' hu hcalm hs id' c hc
    cases l with
    | start _ _ _ _ => cases hcalm
    | engine _ _ => cases hcalm
    | call q r =>
        obtain ⟨d, hd, hstep⟩ := step_call hs
        by_cases hid : id' = q
        · exact hid ▸ hu q d hd
        · exact hu id' c ((call_keeps_others hd hstep hid).symm.trans hc)
  obtain ⟨s', hleads, ⟨hkeeps, hcalls⟩, hall, -⟩ : ∃ s', opened.Leads Calm s s' ∧
      (KeepsLock s' ∧ ∀ id c, s'.calls id = some c → id ∈ ids) ∧
      (∀ id ∈ ids, s'.returned id) ∧ ∀ id, s.returned id → s'.returned id :=
    System.leads_to_all ids hone ⟨h, hids⟩
  have hidle : s'.idle := fun id c hc => hall id (hcalls id c hc) c hc
  refine ⟨s', hleads, hidle, hkeeps.releasing.idle_free hidle, ?_⟩
  have hle := hkeeps.releasing.exclusive.lock_le
  rcases hkeeps.orderly.occupied with hpos | ⟨q, d, hd, hin⟩
  · omega
  · have hdone := hidle q d hd
    cases hpc : d.pc with
    | done _ _ =>
        rw [hpc] at hin
        cases hin
    | _ =>
        rw [hpc] at hdone
        cases hdone

end Rest

/-- One call has posted its request and waits for an engine that never answers, another one
scans the slots, and a third one waits in front of the section. -/
theorem can_come_to_rest_three :
    ∃ s, KeepsLock s ∧ s.pcOf 3 = some (.scan 1) ∧ s.pcOf 4 = some .reserveWait ∧
      ∃ s', opened.Leads Calm s s' ∧ s'.idle ∧ (∀ i, (s'.slots i).owner = 0) ∧ s'.lock = 1 := by
  obtain ⟨s, hs, hpcs⟩ :=
    opened.exists_reaches_of_run
      (fun s l => releaseFails s l = false ∧ losesPost s l = false)
      (s := fresh) ⟨fresh_initial, fun _ => rfl⟩
      (.start 2 .go 0 3 :: List.replicate 10 (.call 2 .ok) ++
        [.start 3 .c 1 4, .call 3 .ok, .call 3 .ok, .call 3 .ok, .start 4 .python 2 5])
      (fun s => decide (s.pcOf 3 = some (.scan 1) ∧ s.pcOf 4 = some .reserveWait))
      (by decide +kernel)
  obtain ⟨h3, h4⟩ := of_decide_eq_true hpcs
  exact ⟨s, hs, h3, h4, can_come_to_rest hs⟩

end BpClient.Slot
