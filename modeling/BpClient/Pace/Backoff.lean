import BpClient.Pace.Holders

/-!
The backoff of a dead entry. What happens to an entry in a run is a list of
events; its dead flag, its backoff and the time of its last reopen are what the
events make of them, in all SDKs alike.
-/

namespace BpClient.Pace

open BpClient.Lib
open BpClient.Slot (Sdk)

inductive Event
  /-- A ping has failed; the reading of the clock at which the entry was marked
  dead. -/
  | died (now : Int)
  /-- A reopen starts. -/
  | attempt (now : Int)
  | failed
  | revived
  deriving DecidableEq, Repr

/-- How a request of the loop ends, as far as it matters for the backoff. -/
inductive Outcome
  | died | failed | revived
  deriving DecidableEq, Repr

def Event.outcome : Event → Option Outcome
  | .died _ => some .died
  | .attempt _ => none
  | .failed => some .failed
  | .revived => some .revived

def event (sdk : Sdk) (spec : Spec) (i : Nat) (p : State × Label) : Option Event :=
  match p.2, p.1.worker with
  | .reply ok _ now, .busy sc j =>
      if j = i then
        match sc.pass with
        | .ping => if ok then none else some (.died now)
        | .reopen => some (if ok then .revived else .failed)
      else none
  | .work now, .scan sc j =>
      if j = i ∧ sc.pass = .reopen ∧
          (step sdk spec p.1 p.2).map State.worker = some (.busy sc j) then
        some (.attempt now)
      else none
  | _, _ => none

def events (sdk : Sdk) (spec : Spec) (i : Nat) (tr : List (State × Label)) : List Event :=
  tr.filterMap (event sdk spec i)

/-- The entry has died, and has not been revived since. -/
def isDead (es : List Event) : Bool :=
  es.foldl (fun dead e =>
    match e with
    | .died _ => true
    | .revived => false
    | .attempt _ | .failed => dead) false

/-- The reopens that have failed since the entry last died. -/
def failures (es : List Event) : Nat :=
  es.foldl (fun n e =>
    match e with
    | .died _ => 0
    | .failed => n + 1
    | .attempt _ | .revived => n) 0

/-- When the entry last died, and when the reopens since then have started. -/
def marks (es : List Event) : List Int :=
  es.foldl (fun times e =>
    match e with
    | .died now => [now]
    | .attempt now => times ++ [now]
    | .failed | .revived => times) []

/-- The backoff after a list of outcomes. -/
def backoffAfter (os : List Outcome) : Nat :=
  os.foldl (fun b o =>
    match o with
    | .died => if b = 0 then 1000 else b
    | .failed => min (b * 2) 30000
    | .revived => 1000) 0

section Step

variable {sdk : Sdk} {spec : Spec} {s s' : State} {l : Label} {i : Nat}

/-- The fields of an entry that only the loop sets. -/
def Entry.core (e : Entry) : Bool × Int × Nat := (e.dead, e.lastReopen, e.backoffMs)

def Event.apply (sdk : Sdk) : Event → Bool × Int × Nat → Bool × Int × Nat
  | .died now, (_, _, b) => (true, now, if b = 0 then 1000 else b)
  | .attempt now, (dead, _, b) => (dead, now, b)
  | .failed, (dead, last, b) => (dead, last, nextBackoff sdk b)
  | .revived, (_, last, _) => (false, last, 1000)

theorem nextBackoff_eq (b : Nat) : nextBackoff sdk b = min (b * 2) 30000 := by
  cases sdk with
  | python => rfl
  | c | go =>
      rw [nextBackoff]
      split <;> omega

@[simp] theorem setEntry_self (s : State) (i : Nat) (e : Entry) :
    (s.setEntry i e).entries i = e := Function.update_self ..

theorem setEntry_of_ne {i j : Nat} (h : i ≠ j) (s : State) (e : Entry) :
    (s.setEntry j e).entries i = s.entries i := Function.update_of_ne h _ _

@[simp] theorem finish_entries (sc : Scan) (i : Nat) : (s.finish sdk sc i).entries = s.entries := by
  cases sdk <;> rfl

theorem core_release (c j i : Nat) (now : Int) :
    ((s.release sdk c j now).entries i).core = (s.entries i).core := by
  have used : ∀ t : State, t.entries = s.entries →
      ((t.setEntry j { s.entries j with lastUsed := now }).entries i).core =
        (s.entries i).core := by
    intro t ht
    by_cases hij : i = j
    · subst j
      rw [setEntry_self]
      rfl
    · rw [setEntry_of_ne hij, ht]
  cases sdk with
  | c => exact used _ rfl
  | go | python =>
      simp only [State.release]
      split
      · rfl
      · exact used _ rfl

/-- A claim of the reopen pass notes the time, and nothing else. -/
theorem claim_cases (sc : Scan) (j : Nat) (now : Int) :
    (∀ sc' k, (s.claim sdk sc j now).worker ≠ .busy sc' k) ∧
        (s.claim sdk sc j now).entries = s.entries ∨
      (s.claim sdk sc j now).worker = .busy sc j ∧
        (s.claim sdk sc j now).entries = (s.claimed sc j now).entries := by
  have claimed_entries : ∀ t : State, t.entries = s.entries →
      (t.claimed sc j now).worker = .busy sc j ∧
        (t.claimed sc j now).entries = (s.claimed sc j now).entries := by
    intro t ht
    unfold State.claimed
    cases sc.pass with
    | ping => exact ⟨rfl, ht⟩
    | reopen =>
        refine ⟨rfl, ?_⟩
        simp only [State.goto, State.setEntry, ht]
  cases sdk with
  | c =>
      simp only [State.claim]
      split
      · exact .inl ⟨fun _ _ hw => (by cases hw), rfl⟩
      · exact .inr (claimed_entries _ rfl)
  | go | python =>
      simp only [State.claim]
      split
      · split
        · exact .inr (claimed_entries _ rfl)
        · exact .inl ⟨fun _ _ hw => (by cases hw), rfl⟩
      · exact .inl ⟨fun _ _ hw => (by cases hw), rfl⟩

/-- A step of the loop either claims the entry that it is at, which is due, or
leaves the entries alone. -/
theorem work_cases {now : Int} (hs : s.work sdk spec now = some s') :
    (∀ sc k, s'.worker ≠ .busy sc k) ∧ s'.entries = s.entries ∨
      ∃ sc j, s.worker = .scan sc j ∧ s.due sdk spec sc j now = true ∧ s'.worker = .busy sc j ∧
        s'.entries = (s.claimed sc j now).entries := by
  simp only [State.work] at hs
  split at hs
  · next sc j hw =>
      rw [Option.some.injEq] at hs
      split at hs
      · split at hs
        · next hdue =>
            subst hs
            rcases claim_cases sc j now with hquiet | hclaimed
            · exact .inl hquiet
            · exact .inr ⟨sc, j, hw, hdue, hclaimed⟩
        · subst hs
          exact .inl ⟨fun _ _ hw => (by cases hw), rfl⟩
      · subst hs
        left
        unfold State.nextPass
        split <;> exact ⟨fun _ _ hw => (by cases hw), rfl⟩
  · cases hs
    exact .inl ⟨fun _ _ hw => (by cases hw), rfl⟩
  · cases hs
  · cases hs

theorem event_of_claim {sc : Scan} {j : Nat} {now : Int} (hs : s.work sdk spec now = some s')
    (hw : s.worker = .scan sc j) (hw' : s'.worker = .busy sc j) (i : Nat) :
    event sdk spec i (s, .work now) =
      if j = i ∧ sc.pass = .reopen then some (.attempt now) else none := by
  simp only [event, hw, step, hs, Option.map_some, hw', and_true]

theorem event_of_quiet {now : Int} (hs : s.work sdk spec now = some s')
    (hquiet : ∀ sc k, s'.worker ≠ .busy sc k) (i : Nat) :
    event sdk spec i (s, .work now) = none := by
  cases hw : s.worker with
  | scan sc j =>
      have hne : ¬(j = i ∧ sc.pass = .reopen ∧ some s'.worker = some (.busy sc j)) :=
        fun h => hquiet sc j (Option.some.inj h.2.2)
      simp only [event, hw, step, hs, Option.map_some, if_neg hne]
  | wait | busy sc j | give sc j got => simp only [event, hw]

/-- The loop's own fields of an entry change by the events of the entry alone. -/
theorem core_step (hs : step sdk spec s l = some s') (i : Nat) :
    (s'.entries i).core = match event sdk spec i (s, l) with
      | none => (s.entries i).core
      | some e => e.apply sdk (s.entries i).core := by
  cases l with
  | take c j =>
      simp only [step] at hs
      split at hs
      · cases sdk with
        | c =>
            simp only [State.take] at hs
            split at hs <;> cases hs
            rfl
        | go | python =>
            simp only [State.take] at hs
            split at hs <;> cases hs
            rfl
      · cases hs
  | release c now =>
      obtain ⟨j, -, rfl⟩ := Option.map_eq_some_iff.mp hs
      exact core_release c j i now
  | tick now =>
      simp only [step] at hs
      split at hs <;> cases hs
      rfl
  | work now =>
      rcases work_cases hs with ⟨hquiet, hentries⟩ | ⟨sc, j, hw, -, hw', hentries⟩
      · rw [event_of_quiet hs hquiet, hentries]
      · rw [event_of_claim hs hw hw', hentries]
        cases hpass : sc.pass with
        | ping => simp [State.claimed, hpass, State.goto]
        | reopen =>
            by_cases hij : i = j
            · subst j
              simp [State.claimed, hpass, State.goto, Event.apply, Entry.core]
            · simp [State.claimed, hpass, State.goto, setEntry_of_ne hij, Ne.symm hij]
  | reply ok used now =>
      simp only [step, State.reply] at hs
      split at hs <;> try cases hs
      next sc j hw =>
      rw [finish_entries]
      by_cases hij : i = j
      · subst j
        rw [setEntry_self]
        simp only [event, hw, if_true]
        cases hpass : sc.pass <;> cases ok <;> rfl
      · rw [setEntry_of_ne hij]
        simp only [event, hw, if_neg (Ne.symm hij)]

/-- A reopen starts on a dead entry whose backoff has elapsed. -/
theorem due_of_attempt {t : Int} (hs : step sdk spec s l = some s')
    (he : event sdk spec i (s, l) = some (.attempt t)) :
    (s.entries i).dead = true ∧ elapsed sdk (s.entries i) t = true := by
  cases l with
  | work now =>
      rcases work_cases hs with ⟨hquiet, -⟩ | ⟨sc, j, hw, hdue, hw', -⟩
      · rw [event_of_quiet hs hquiet] at he
        cases he
      · rw [event_of_claim hs hw hw'] at he
        split at he
        · next h =>
            obtain ⟨rfl, hpass⟩ := h
            cases he
            simpa [State.due, hpass] using hdue
        · cases he
  | reply ok used now =>
      cases hw : s.worker with
      | busy sc j =>
          simp only [event, hw] at he
          split at he
          · cases hpass : sc.pass <;> cases ok <;> simp [hpass] at he
          · cases he
      | wait | scan sc j | give sc j got => simp [event, hw] at he
  | take c j | release c now | tick now => cases he

/-- A request of the loop is for an entry that its pass is about. -/
def BusyDead (s : State) : Prop :=
  ∀ sc i, s.worker = .busy sc i → (s.entries i).dead = decide (sc.pass = .reopen)

theorem finish_not_busy (sc sc' : Scan) (j k : Nat) :
    (s.finish sdk sc j).worker ≠ .busy sc' k := by
  cases sdk <;> nofun

theorem BusyDead.step (h : BusyDead s) (hs : step sdk spec s l = some s') : BusyDead s' := by
  -- what is not the loop leaves its request and the flag alone
  have keep : s'.worker = s.worker → (∀ i, (s'.entries i).core = (s.entries i).core) →
      BusyDead s' := by
    intro hworker hcore sc i hw
    have hdead : (s'.entries i).dead = (s.entries i).dead := congrArg Prod.fst (hcore i)
    rw [hdead]
    exact h sc i (hworker ▸ hw)
  cases l with
  | take c j =>
      apply keep _ (core_step hs)
      simp only [Pace.step] at hs
      split at hs
      · cases sdk <;> simp only [State.take] at hs <;> split at hs <;> cases hs <;> rfl
      · cases hs
  | release c now =>
      apply keep _ (core_step hs)
      obtain ⟨j, -, rfl⟩ := Option.map_eq_some_iff.mp hs
      cases sdk with
      | c => rfl
      | go | python =>
          simp only [State.release]
          split <;> rfl
  | tick now =>
      simp only [Pace.step] at hs
      split at hs <;> cases hs
      exact fun _ _ hw => by cases hw
  | work now =>
      rcases work_cases hs with ⟨hquiet, -⟩ | ⟨sc, j, -, hdue, hw', hentries⟩
      · exact fun sc i hw => absurd hw (hquiet sc i)
      · intro sc' i hw
        obtain ⟨rfl, rfl⟩ : sc = sc' ∧ j = i := by simpa [hw'] using hw
        rw [hentries]
        cases hpass : sc.pass with
        | ping =>
            have hlive : (s.entries j).dead = false := by
              rw [State.due, hpass] at hdue
              simpa using (Bool.and_eq_true_iff.mp hdue).1
            simpa [State.claimed, hpass, State.goto] using hlive
        | reopen =>
            have hdead : (s.entries j).dead = true := by
              rw [State.due, hpass] at hdue
              exact (Bool.and_eq_true_iff.mp hdue).1
            simpa [State.claimed, hpass, State.goto] using hdead
  | reply ok used now =>
      simp only [Pace.step, State.reply] at hs
      split at hs <;> try cases hs
      exact fun sc i hw => absurd hw (finish_not_busy _ _ _ _)

end Step

section Clock

variable {sdk : Sdk} {ms : Nat} {since since' now : Int}

theorem Elapsed.le (h : Elapsed sdk ms since now) : since ≤ now := by
  cases sdk <;> simp only [Elapsed] at h <;> omega

theorem Elapsed.mono (h : Elapsed sdk ms since now) (hle : since' ≤ since) :
    Elapsed sdk ms since' now := by
  cases sdk <;> simp only [Elapsed] at h ⊢ <;> omega

/-- What the loop computes is the time that has passed. -/
theorem elapsed_sound {e : Entry} (hpos : 0 < e.backoffMs) (h : elapsed sdk e now = true) :
    Elapsed sdk e.backoffMs e.lastReopen now := by
  cases sdk with
  | c =>
      have hle : ¬(now - e.lastReopen) * 1000 < e.backoffMs := by simpa [elapsed] using h
      exact Int.not_lt.mp hle
  | go =>
      have hle : ¬(now - e.lastReopen).tdiv 1000000 < e.backoffMs := by simpa [elapsed] using h
      have hone : 0 < (now - e.lastReopen).tdiv 1000000 := by omega
      have hnonneg : 0 ≤ now - e.lastReopen := by
        by_contra hneg
        have hnonpos := Int.tdiv_nonneg (a := -(now - e.lastReopen)) (b := 1000000) (by omega) (by omega)
        rw [Int.neg_tdiv] at hnonpos
        omega
      rw [Int.tdiv_eq_ediv_of_nonneg hnonneg] at hle
      change (e.backoffMs : Int) * 1000000 ≤ now - e.lastReopen
      omega
  | python =>
      have hle : ¬now - e.lastReopen < e.backoffMs * 1000000 := by simpa [elapsed] using h
      exact Int.not_lt.mp hle

end Clock

section Invariant

variable {sdk : Sdk} {spec : Spec} {s s' : State} {l : Label} {tr : List (State × Label)}
variable {es : List Event} {e e' : Entry}

def outcomes (es : List Event) : List Outcome := es.filterMap Event.outcome

theorem isDead_append (ev : Event) : isDead (es ++ [ev]) =
    match ev with
    | .died _ => true
    | .revived => false
    | .attempt _ | .failed => isDead es := by
  rw [isDead, List.foldl_append]
  rfl

theorem failures_append (ev : Event) : failures (es ++ [ev]) =
    match ev with
    | .died _ => 0
    | .failed => failures es + 1
    | .attempt _ | .revived => failures es := by
  rw [failures, List.foldl_append]
  rfl

theorem marks_append (ev : Event) : marks (es ++ [ev]) =
    match ev with
    | .died now => [now]
    | .attempt now => marks es ++ [now]
    | .failed | .revived => marks es := by
  rw [marks, List.foldl_append]
  rfl

theorem backoffAfter_append (ev : Event) : backoffAfter (outcomes (es ++ [ev])) =
    match ev with
    | .died _ => if backoffAfter (outcomes es) = 0 then 1000 else backoffAfter (outcomes es)
    | .failed => min (backoffAfter (outcomes es) * 2) 30000
    | .revived => 1000
    | .attempt _ => backoffAfter (outcomes es) := by
  rw [outcomes, List.filterMap_append, ← outcomes]
  cases ev with
  | attempt now => exact congrArg backoffAfter (List.append_nil _)
  | died now | failed | revived =>
      rw [backoffAfter, List.foldl_append]
      rfl

structure EntryInv (es : List Event) (e : Entry) : Prop where
  dead : e.dead = isDead es
  backoff : e.backoffMs = backoffAfter (outcomes es)
  live : e.dead = false → e.backoffMs = 0 ∨ e.backoffMs = 1000
  doubled : e.dead = true → e.backoffMs = min (1000 * 2 ^ failures es) 30000
  marked : e.dead = true → e.lastReopen ∈ marks es
  marks_le : ∀ t ∈ marks es, t ≤ e.lastReopen

theorem EntryInv.initial {now : Int} : EntryInv [] ⟨now, false, 0, 0⟩ :=
  ⟨rfl, rfl, fun _ => .inl rfl, nofun, nofun, nofun⟩

theorem EntryInv.pos (h : EntryInv es e) (hdead : e.dead = true) : 0 < e.backoffMs := by
  rw [h.doubled hdead]
  exact lt_min (Nat.mul_pos (by decide) (Nat.pow_pos (by decide))) (by decide)

theorem EntryInv.congr (h : EntryInv es e) (hcore : e'.core = e.core) : EntryInv es e' := by
  obtain ⟨used, dead, last, backoff⟩ := e
  obtain ⟨used', dead', last', backoff'⟩ := e'
  cases hcore
  exact ⟨h.dead, h.backoff, h.live, h.doubled, h.marked, h.marks_le⟩

/-- An event finds the entry dead, unless it is that it dies. -/
def Event.Fits (sdk : Sdk) (e : Entry) : Event → Prop
  | .died _ => e.dead = false
  | .attempt now => e.dead = true ∧ elapsed sdk e now = true
  | .failed | .revived => e.dead = true

theorem EntryInv.apply {ev : Event} (h : EntryInv es e) (hfits : ev.Fits sdk e)
    (hcore : e'.core = ev.apply sdk e.core) : EntryInv (es ++ [ev]) e' := by
  have hlive := h.live
  have hdoubled := h.doubled
  have hbackoff := h.backoff
  have hdead := h.dead
  obtain ⟨used, dead, last, backoff⟩ := e
  obtain ⟨used', dead', last', backoff'⟩ := e'
  cases ev with
  | died now =>
      obtain rfl : dead = false := hfits
      cases hcore
      refine ⟨?_, ?_, nofun, fun _ => ?_, fun _ => ?_, ?_⟩
      · rw [isDead_append]
      · rw [backoffAfter_append, ← hbackoff]
        rfl
      · rw [failures_append]
        rcases hlive rfl with hzero | hone
        · obtain rfl : backoff = 0 := hzero
          rfl
        · obtain rfl : backoff = 1000 := hone
          rfl
      · rw [marks_append]
        exact List.mem_singleton_self _
      · rw [marks_append]
        exact fun t ht => (List.mem_singleton.mp ht).le
  | attempt now =>
      obtain ⟨hdied, hdue⟩ := hfits
      have hel := elapsed_sound (h.pos hdied) hdue
      cases hcore
      refine ⟨?_, ?_, hlive, ?_, fun _ => ?_, ?_⟩
      · rw [isDead_append]
        exact hdead
      · rw [backoffAfter_append]
        exact hbackoff
      · rw [failures_append]
        exact hdoubled
      · rw [marks_append]
        exact List.mem_append_right _ (List.mem_singleton_self _)
      · rw [marks_append]
        intro t ht
        rcases List.mem_append.mp ht with hold | hnew
        · exact (h.marks_le t hold).trans hel.le
        · exact (List.mem_singleton.mp hnew).le
  | failed =>
      obtain rfl : dead = true := hfits
      cases hcore
      refine ⟨?_, ?_, nofun, fun _ => ?_, fun _ => ?_, ?_⟩
      · rw [isDead_append]
        exact hdead
      · rw [backoffAfter_append, ← hbackoff]
        exact nextBackoff_eq _
      · rw [failures_append]
        change nextBackoff sdk backoff = _
        have hold : backoff = _ := hdoubled rfl
        rw [nextBackoff_eq, hold, Nat.pow_succ]
        omega
      · rw [marks_append]
        exact h.marked rfl
      · rw [marks_append]
        exact h.marks_le
  | revived =>
      cases hcore
      refine ⟨?_, ?_, fun _ => .inr rfl, nofun, nofun, ?_⟩
      · rw [isDead_append]
      · rw [backoffAfter_append]
      · rw [marks_append]
        exact h.marks_le

/-- The events of the loop fit the entries that it works on. -/
theorem event_fits {ev : Event} {i : Nat} (hbusy : BusyDead s) (hs : step sdk spec s l = some s')
    (hev : event sdk spec i (s, l) = some ev) : ev.Fits sdk (s.entries i) := by
  cases l with
  | reply ok used now =>
      cases hw : s.worker with
      | busy sc j =>
          have hdead := hbusy sc j hw
          simp only [event, hw] at hev
          split at hev
          · next hj =>
              subst hj
              cases hpass : sc.pass <;> cases ok <;> simp [hpass] at hev hdead
              all_goals
                subst hev
                exact hdead
          · cases hev
      | wait | scan sc j | give sc j got => simp [event, hw] at hev
  | work now =>
      cases ev with
      | attempt t => exact due_of_attempt hs hev
      | died t | failed | revived =>
          cases hw : s.worker with
          | scan sc j =>
              simp only [event, hw] at hev
              split at hev <;> cases hev
          | wait | busy sc j | give sc j got => simp [event, hw] at hev
  | take c j | release c now | tick now => cases hev

structure Inv (sdk : Sdk) (spec : Spec) (tr : List (State × Label)) (s : State) : Prop where
  busy : BusyDead s
  entry : ∀ i, EntryInv (events sdk spec i tr) (s.entries i)

theorem inv_of_trace (htr : (pool sdk spec).Trace tr s) : Inv sdk spec tr s := by
  induction htr with
  | @init s h =>
      obtain ⟨now, hentries⟩ := h.entries
      refine ⟨fun sc i hw => ?_, fun i => ?_⟩
      · cases h.worker.symm.trans hw
      · rw [hentries]
        exact .initial
  | @step tr s s' l _ hs ih =>
      refine ⟨ih.busy.step hs, fun i => ?_⟩
      have hcore := core_step hs i
      rw [events, List.filterMap_append, ← events]
      cases hev : event sdk spec i (s, l) with
      | none =>
          rw [hev] at hcore
          simp only [List.filterMap_cons, hev, List.filterMap_nil, List.append_nil]
          exact (ih.entry i).congr hcore
      | some ev =>
          rw [hev] at hcore
          simp only [List.filterMap_cons, hev, List.filterMap_nil]
          exact (ih.entry i).apply (event_fits ih.busy hs hev) hcore

end Invariant

section Main

variable {sdk : Sdk} {spec : Spec} {s : State} {tr : List (State × Label)}

/-- A power of two times a second, up to half a minute. -/
theorem backoff_mem : ∀ f : Nat,
    min (1000 * 2 ^ f) 30000 ∈ [1000, 2000, 4000, 8000, 16000, 30000]
  | 0 | 1 | 2 | 3 | 4 => by decide
  | f + 5 => by
      have hpow : 1 ≤ 2 ^ f := Nat.one_le_two_pow
      rw [Nat.pow_add, Nat.min_eq_right (by omega)]
      decide

/-- The state machine of an entry: while it is dead its backoff has doubled with
each reopen that failed, a reopen that succeeds resets it, and a reopen starts
only when the backoff has passed since the entry was marked dead, since each
reopen that has been started meanwhile, and so since any earlier reading of the
clock. In all SDKs the outcomes alone determine the backoff. -/
theorem reopen_backoff (htr : (pool sdk spec).Trace tr s) (i : Nat) :
    (s.entries i).dead = isDead (events sdk spec i tr) ∧
      ((s.entries i).dead = true →
        (s.entries i).backoffMs = min (1000 * 2 ^ failures (events sdk spec i tr)) 30000 ∧
          (s.entries i).backoffMs ∈ [1000, 2000, 4000, 8000, 16000, 30000]) ∧
      (∀ pre t l post t', tr = pre ++ (t, l) :: post → event sdk spec i (t, l) = some .revived →
        step sdk spec t l = some t' →
          (t'.entries i).dead = false ∧ (t'.entries i).backoffMs = 1000) ∧
      (∀ pre t l post now, tr = pre ++ (t, l) :: post →
        event sdk spec i (t, l) = some (.attempt now) →
          marks (events sdk spec i pre) ≠ [] ∧
            ∀ m ∈ marks (events sdk spec i pre), ∀ since ≤ m,
              Elapsed sdk (t.entries i).backoffMs since now) ∧
      ∀ sdk' spec' tr' s' i', (pool sdk' spec').Trace tr' s' →
        outcomes (events sdk' spec' i' tr') = outcomes (events sdk spec i tr) →
          (s'.entries i').backoffMs = (s.entries i).backoffMs := by
  have h := (inv_of_trace htr).entry i
  refine ⟨h.dead, fun hdead => ?_, ?_, ?_, ?_⟩
  · rw [h.doubled hdead]
    exact ⟨rfl, backoff_mem _⟩
  · rintro pre t l post t' rfl hev hs
    have hcore := core_step hs i
    rw [hev] at hcore
    exact ⟨congrArg Prod.fst hcore, congrArg (fun c => c.2.2) hcore⟩
  · rintro pre t l post now rfl hev
    obtain ⟨hpre, t', hs⟩ := htr.upTo
    have hbefore := (inv_of_trace hpre).entry i
    obtain ⟨hdead, hdue⟩ := due_of_attempt hs hev
    refine ⟨List.ne_nil_of_mem (hbefore.marked hdead), fun m hm since hsince => ?_⟩
    apply (elapsed_sound (hbefore.pos hdead) hdue).mono
    exact hsince.trans (hbefore.marks_le m hm)
  · intro sdk' spec' tr' s' i' htr' hsame
    rw [((inv_of_trace htr').entry i').backoff, h.backoff, hsame]

def single : Spec := ⟨1, 1, Nat.one_pos, by decide, Nat.one_pos⟩

def fresh : State := ⟨fun _ => ⟨0, false, 0, 0⟩, fun _ => false, [0], fun _ => none, .wait⟩

theorem fresh_initial : Initial single fresh :=
  ⟨⟨0, fun _ => rfl⟩, fun _ => rfl, rfl, fun _ => rfl, rfl⟩

/-- A ping fails, and a second later a reopen. -/
def failing : List Label :=
  [.tick 5000000, .work 0, .reply false 6000000 6000000, .work 0, .work 0, .work 1006000000,
    .reply false 0 0]

/-- At the next tick another reopen starts. -/
def retrying : List Label :=
  [.work 0, .work 0, .tick 2000000000, .work 0, .work 0, .work 3006000000]

/-- One reopen has failed, and the backoff is two seconds; the reopen that starts then
succeeds, and makes it one second. -/
theorem reopen_backoff_reopened :
    (∃ s, (pool .go single).Trace ((pool .go single).runTrace fresh failing) s ∧
      failures (events .go single 0 ((pool .go single).runTrace fresh failing)) = 1 ∧
        (s.entries 0).dead = true ∧ (s.entries 0).backoffMs = 2000) ∧
    ∃ t s, (pool .go single).Trace ((pool .go single).runTrace fresh (failing ++ retrying)) t ∧
      (t.entries 0).dead = true ∧ step .go single t (.reply true 0 0) = some s ∧
        (s.entries 0).dead = false ∧ (s.entries 0).backoffMs = 1000 := by
  obtain ⟨s, hs, -, -, hend⟩ := (pool .go single).exists_end_of_run (fun _ _ => True)
    fresh_initial failing (fun s => (s.entries 0).dead) (by decide +kernel)
  obtain ⟨t, ht, -, -, hbusy⟩ := (pool .go single).exists_end_of_run (fun _ _ => True)
    fresh_initial (failing ++ retrying)
    (fun t => decide ((t.entries 0).dead = true ∧ t.worker = .busy ⟨.reopen, 2000000000⟩ 0))
    (by decide +kernel)
  obtain ⟨hdead, hworker⟩ := of_decide_eq_true hbusy
  have hfailures : failures (events .go single 0 ((pool .go single).runTrace fresh failing)) = 1 := by
    decide +kernel
  refine ⟨⟨s, hs, hfailures, hend, ?_⟩, t, ?_⟩
  · obtain ⟨-, hbackoff, -⟩ := reopen_backoff hs 0
    rw [(hbackoff hend).1, hfailures]
    rfl
  · obtain ⟨s', hs'⟩ : ∃ s', step .go single t (.reply true 0 0) = some s' := by
      simp [step, State.reply, hworker]
    have hrevived : event .go single 0 (t, .reply true 0 0) = some .revived := by
      simp [event, hworker]
    have hreply : (pool .go single).step t (.reply true 0 0) = some s' := hs'
    obtain ⟨-, -, hreopened, -⟩ := reopen_backoff (ht.step hreply) 0
    exact ⟨s', ht, hdead, hs', hreopened _ t _ [] s' rfl hrevived hs'⟩

end Main

end BpClient.Pace
