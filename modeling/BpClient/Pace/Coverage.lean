import BpClient.Pace.Backoff
import BpClient.Pace.Holders
import Mathlib.Data.List.Rotate

/-!
Which entries the keepalive loop gets at, while no call uses the pool. In Go and
Python the loop claims an entry that is due by taking the head of the queue, and
puts the index at the end when it is another one: each turn of an entry that is
due turns the queue by one, whoever is at its head.
-/

namespace BpClient.Pace

open BpClient.Lib
open BpClient.Slot (Sdk)
open BpClient.SdkPool (Pass)

def Label.ofLoop : Label → Bool
  | .tick _ | .work _ | .reply _ _ _ => true
  | .take _ _ | .release _ _ => false

def Label.isTick : Label → Bool
  | .tick _ => true
  | .take _ _ | .release _ _ | .work _ | .reply _ _ _ => false

/-- The pool from the state `s` on, without any traffic. -/
def undisturbed (sdk : Sdk) (spec : Spec) (s : State) : System State Label where
  init := (· = s)
  step := fun t l => if l.ofLoop then step sdk spec t l else none

section Turns

variable (sdk : Sdk) (spec : Spec)

/-- The ticks of a run, each of which begins the two passes over the entries. -/
def ticks (tr : List (State × Label)) : Nat := (tr.map Prod.snd).countP Label.isTick

/-- The loop comes to entry `i` in a pass. -/
def isTurn (pass : Pass) (i : Nat) (q : State × Label) : Bool :=
  match q.2, q.1.worker with
  | .work _, .scan sc j => decide (sc.pass = pass ∧ j = i)
  | _, _ => false

def isDue (q : State × Label) : Bool :=
  match q.2, q.1.worker with
  | .work now, .scan sc j => decide (j < spec.size) && q.1.due sdk spec sc j now
  | _, _ => false

/-- How often the loop has come to an entry that is due. -/
def turns (tr : List (State × Label)) : Nat := tr.countP (isDue sdk spec)

/-- The loop claims entry `i` in a pass, for a ping or a reopen. -/
def Claims (pass : Pass) (i : Nat) (q : State × Label) : Prop :=
  isTurn pass i q = true ∧
    ∃ sc, (step sdk spec q.1 q.2).map State.worker = some (.busy sc i)

/-- Entry `i` is due in each of the passes. -/
def DueAlways (tr : List (State × Label)) (pass : Pass) (i : Nat) : Prop :=
  ∀ q ∈ tr, isTurn pass i q = true → isDue sdk spec q = true

/-- Each live entry that has been idle at each ping pass is pinged in one of them,
and each dead entry whose backoff has elapsed at each reopen pass is reopened in
one of them. -/
def Covered (tr : List (State × Label)) : Prop :=
  ∀ i < spec.size, ∀ pass, DueAlways sdk spec tr pass i → ∃ q ∈ tr, Claims sdk spec pass i q

/-- Go and Python: an entry that is always due has, at one of its turns, its place
in the queue where the turns of due entries have turned the queue to. -/
def Aligned (s : State) (tr : List (State × Label)) : Prop :=
  sdk = .c ∨ ∀ i < spec.size, ∀ pass, DueAlways sdk spec tr pass i →
    ∃ pre q post, tr = pre ++ q :: post ∧ isTurn pass i q = true ∧
      s.free[turns sdk spec pre % spec.size]? = some i

end Turns

/-- The pass that the loop is in, and the entry that it comes to next. -/
def WorkerPc.place : WorkerPc → Option (Pass × Nat)
  | .wait => none
  | .scan sc i => some (sc.pass, i)
  | .busy sc i | .give sc i _ => some (sc.pass, i + 1)

def afterPass : Pass → Option (Pass × Nat)
  | .ping => some (.reopen, 0)
  | .reopen => none

/-- What a step of the loop does to its place. -/
inductive LoopStep (spec : Spec) (t t' : State) (l : Label) : Prop
  | tick : l.isTick = true → t.worker = .wait → t'.worker.place = some (.ping, 0) →
      LoopStep spec t t' l
  | turn (sc : Scan) (i : Nat) (now : Int) : l = .work now → t.worker = .scan sc i →
      i < spec.size → t'.worker.place = some (sc.pass, i + 1) → LoopStep spec t t' l
  | past (sc : Scan) (i : Nat) (now : Int) : l = .work now → t.worker = .scan sc i →
      spec.size ≤ i → t'.worker.place = afterPass sc.pass → LoopStep spec t t' l
  | silent : l.isTick = false → (∀ sc i now, l = .work now → t.worker ≠ .scan sc i) →
      t'.worker.place = t.worker.place → LoopStep spec t t' l

section Step

variable {sdk : Sdk} {spec : Spec} {s t t' : State} {l : Label}

theorem step_of_undisturbed (hs : (undisturbed sdk spec s).step t l = some t') :
    l.ofLoop = true ∧ step sdk spec t l = some t' := by
  simp only [undisturbed] at hs
  split at hs
  · next hl => exact ⟨hl, hs⟩
  · cases hs

theorem claim_place (sc : Scan) (i : Nat) (now : Int) :
    (t.claim sdk sc i now).worker.place = some (sc.pass, i + 1) := by
  have hclaimed : ∀ u : State, (u.claimed sc i now).worker.place = some (sc.pass, i + 1) := by
    intro u
    rw [(claimed_eq u sc i now).1]
    rfl
  cases sdk with
  | c =>
      simp only [State.claim]
      split
      · rfl
      · exact hclaimed _
  | go | python =>
      simp only [State.claim]
      split
      · split
        · exact hclaimed _
        · rfl
      · rfl

theorem loopStep (hs : (undisturbed sdk spec s).step t l = some t') : LoopStep spec t t' l := by
  obtain ⟨hl, hs⟩ := step_of_undisturbed hs
  cases l with
  | take c i | release c now => cases hl
  | tick now =>
      simp only [step] at hs
      split at hs <;> cases hs
      next hw => exact .tick rfl hw rfl
  | work now =>
      simp only [step, State.work] at hs
      split at hs
      · next sc i hw =>
          rw [Option.some.injEq] at hs
          split at hs
          · next hi =>
              apply LoopStep.turn sc i now rfl hw hi
              subst hs
              split
              · exact claim_place sc i now
              · rfl
          · next hi =>
              apply LoopStep.past sc i now rfl hw (Nat.le_of_not_lt hi)
              subst hs
              unfold State.nextPass
              cases sc.pass <;> rfl
      · next sc i got hw =>
          apply LoopStep.silent rfl
          · intro sc' i' now' _ hw'
            cases hw.symm.trans hw'
          · cases hs
            rw [hw]
            rfl
      · cases hs
      · cases hs
  | reply ok used now =>
      simp only [step, State.reply] at hs
      split at hs <;> try cases hs
      next sc i hw =>
      apply LoopStep.silent rfl
      · intro sc i now h
        cases h
      · rw [hw]
        cases sdk <;> rfl

/-- The loop still has to come to entry `i` in a pass that has begun. -/
def pending (pass : Pass) (i : Nat) (place : Option (Pass × Nat)) : Nat :=
  match place, pass with
  | none, _ => 0
  | some (.ping, j), .ping | some (.reopen, j), .reopen => if j ≤ i then 1 else 0
  | some (.ping, _), .reopen => 1
  | some (.reopen, _), .ping => 0

theorem pending_turn (pass p : Pass) (i j : Nat) :
    (if p = pass ∧ j = i then 1 else 0) + pending pass i (some (p, j + 1)) =
      pending pass i (some (p, j)) := by
  cases p <;> cases pass <;> simp [pending] <;> grind

theorem pending_over (pass p : Pass) {i j : Nat} (hij : i < j) :
    pending pass i (afterPass p) = pending pass i (some (p, j)) := by
  have hle : ¬j ≤ i := Nat.not_le_of_lt hij
  cases p <;> cases pass <;> simp [pending, afterPass, hle]

theorem isTurn_scan {pass : Pass} {i j : Nat} {sc : Scan} {now : Int} (hw : t.worker = .scan sc j) :
    isTurn pass i (t, .work now) = decide (sc.pass = pass ∧ j = i) := by
  simp only [isTurn, hw]

/-- Off the turns nothing is counted. -/
theorem no_turn (h : ∀ sc i now, l = .work now → t.worker ≠ .scan sc i) (pass : Pass) (i : Nat) :
    isTurn pass i (t, l) = false := by
  cases l with
  | work now =>
      cases hw : t.worker with
      | scan sc i => exact absurd hw (h sc i now rfl)
      | wait | busy sc i | give sc i got => simp [isTurn, hw]
  | take c i | release c now | tick now | reply ok used now => rfl

theorem ticks_append (tr : List (State × Label)) (q : State × Label) :
    ticks (tr ++ [q]) = ticks tr + if q.2.isTick = true then 1 else 0 := by
  rw [ticks, List.map_append, List.countP_append, ← ticks, List.map_singleton, List.countP_singleton]

/-- With each tick the loop comes to each entry once in each of the passes. -/
theorem countP_isTurn (pass : Pass) {i : Nat} (hi : i < spec.size) (hwait : s.worker = .wait)
    {tr : List (State × Label)} (htr : (undisturbed sdk spec s).Trace tr t) :
    tr.countP (isTurn pass i) + pending pass i t.worker.place = ticks tr := by
  induction htr with
  | init h =>
      subst h
      rw [hwait]
      rfl
  | @step tr t t' l _ hs ih =>
      rw [List.countP_append, List.countP_singleton, ticks_append]
      cases loopStep hs with
      | tick htick hw hplace =>
          have hnone := no_turn (t := t) (l := l)
            (fun sc j now _ hw' => nomatch hw.symm.trans hw') pass i
          rw [hw] at ih
          rw [hnone, hplace, htick, ← ih]
          cases pass <;> rfl
      | turn sc j now hl hw hj hplace =>
          subst hl
          rw [isTurn_scan hw, hplace, Nat.add_assoc]
          simp only [decide_eq_true_eq]
          rw [pending_turn]
          rw [hw] at ih
          exact ih
      | past sc j now hl hw hj hplace =>
          subst hl
          have hne : ¬(sc.pass = pass ∧ j = i) := fun h => absurd h.2 (by omega)
          rw [isTurn_scan hw, hplace, pending_over pass sc.pass (hi.trans_le hj)]
          simp only [decide_eq_true_eq, if_neg hne]
          rw [hw] at ih
          exact ih
      | silent htick hquiet hplace =>
          have hnone := no_turn hquiet pass i
          rw [hnone, hplace, htick]
          exact ih

/-- The queue, with the index at its end that the loop is about to put there. -/
def State.whole (t : State) : List Nat := t.free ++ t.worker.held.toList

/-- The step of the loop at an entry. -/
theorem work_turn {sc : Scan} {i : Nat} (hw : t.worker = .scan sc i) (hi : i < spec.size)
    (now : Int) : t.work sdk spec now =
      some (if t.due sdk spec sc i now then t.claim sdk sc i now else t.goto (.scan sc (i + 1))) := by
  simp only [State.work, hw, if_pos hi]

theorem isDue_scan {sc : Scan} {i : Nat} {now : Int} (hw : t.worker = .scan sc i)
    (hi : i < spec.size) : isDue sdk spec (t, .work now) = t.due sdk spec sc i now := by
  simp only [isDue, hw, decide_eq_true hi, Bool.true_and]

theorem claim_whole (hsdk : sdk ≠ .c) {sc : Scan} {i : Nat} {now : Int}
    (hw : t.worker = .scan sc i) : (t.claim sdk sc i now).whole = t.whole.rotate 1 := by
  have hwhole : t.whole = t.free := by simp [State.whole, hw, WorkerPc.held]
  rw [hwhole]
  cases sdk with
  | c => exact absurd rfl hsdk
  | go | python =>
      simp only [State.claim]
      split
      · next got rest hfree =>
          rw [hfree, List.rotate_cons_succ, List.rotate_zero]
          split
          · next hgot =>
              obtain ⟨hbusy, -, hrest, -⟩ := claimed_eq { t with free := rest } sc i now
              rw [State.whole, hbusy, hrest, hgot]
              rfl
          · rfl
      · next hfree =>
          rw [hfree]
          simp [State.whole, State.goto, hfree, WorkerPc.held]

/-- Each turn of an entry that is due turns the queue by one. -/
theorem whole_step (hsdk : sdk ≠ .c) (hs : (undisturbed sdk spec s).step t l = some t') :
    t'.whole = t.whole.rotate (if isDue sdk spec (t, l) = true then 1 else 0) := by
  obtain ⟨hl, hs⟩ := step_of_undisturbed hs
  cases l with
  | take c i | release c now => cases hl
  | tick now =>
      simp only [step] at hs
      split at hs <;> cases hs
      next hw =>
      rw [if_neg (by simp [isDue]), List.rotate_zero]
      simp [State.whole, State.goto, hw, WorkerPc.held]
  | work now =>
      simp only [step] at hs
      cases hw : t.worker with
      | scan sc i =>
          by_cases hi : i < spec.size
          · rw [work_turn hw hi, Option.some.injEq] at hs
            subst hs
            rw [isDue_scan hw hi]
            split
            · exact claim_whole hsdk hw
            · simp [State.whole, State.goto, hw, WorkerPc.held]
          · simp only [State.work, hw, if_neg hi, Option.some.injEq] at hs
            subst hs
            rw [if_neg (by simp [isDue, hw, hi]), List.rotate_zero]
            unfold State.nextPass
            cases sc.pass <;> simp [State.whole, State.goto, hw, WorkerPc.held]
      | give sc i got =>
          simp only [State.work, hw, Option.some.injEq] at hs
          subst hs
          rw [if_neg (by simp [isDue, hw]), List.rotate_zero]
          simp [State.whole, State.goto, hw, WorkerPc.held]
      | wait | busy sc i => simp [State.work, hw] at hs
  | reply ok used now =>
      simp only [step, State.reply] at hs
      split at hs <;> try cases hs
      next sc i hw =>
      rw [if_neg (by simp [isDue]), List.rotate_zero]
      cases sdk with
      | c => exact absurd rfl hsdk
      | go | python => simp [State.whole, State.finish, State.goto, State.setEntry, hw, WorkerPc.held]

theorem turns_append (tr : List (State × Label)) (q : State × Label) :
    turns sdk spec (tr ++ [q]) = turns sdk spec tr + if isDue sdk spec q = true then 1 else 0 := by
  rw [turns, List.countP_append, List.countP_singleton, ← turns]

theorem whole_run (hsdk : sdk ≠ .c) (hwait : s.worker = .wait) {tr : List (State × Label)}
    (htr : (undisturbed sdk spec s).Trace tr t) :
    t.whole = s.free.rotate (turns sdk spec tr) := by
  induction htr with
  | init h =>
      subst h
      simp [State.whole, hwait, WorkerPc.held, turns]
  | step _ hs ih => rw [whole_step hsdk hs, ih, List.rotate_rotate, turns_append]

theorem claim_callers (sc : Scan) (i : Nat) (now : Int) :
    (t.claim sdk sc i now).callers = t.callers := by
  cases sdk with
  | c =>
      simp only [State.claim]
      split
      · rfl
      · exact (claimed_eq _ sc i now).2.1
  | go | python =>
      simp only [State.claim]
      split
      · split
        · exact (claimed_eq _ sc i now).2.1
        · rfl
      · rfl

theorem callers_step (hs : (undisturbed sdk spec s).step t l = some t') :
    t'.callers = t.callers := by
  obtain ⟨hl, hs⟩ := step_of_undisturbed hs
  cases l with
  | take c i | release c now => cases hl
  | tick now =>
      simp only [step] at hs
      split at hs <;> cases hs
      rfl
  | work now =>
      simp only [step, State.work] at hs
      split at hs
      · next sc i hw =>
          rw [Option.some.injEq] at hs
          subst hs
          split
          · split
            · exact claim_callers sc i now
            · rfl
          · unfold State.nextPass
            cases sc.pass <;> rfl
      · cases hs
        rfl
      · cases hs
      · cases hs
  | reply ok used now =>
      simp only [step, State.reply] at hs
      split at hs <;> try cases hs
      cases sdk <;> rfl

/-- In Go and Python the loop claims the entry whose turn it is when its index is at
the head of the queue. -/
theorem claims_iff_head (hsdk : sdk ≠ .c) {sc : Scan} {i : Nat} {now : Int} :
    (∃ sc', (t.claim sdk sc i now).worker = .busy sc' i) ↔ t.free.head? = some i := by
  cases sdk with
  | c => exact absurd rfl hsdk
  | go | python =>
      simp only [State.claim]
      split
      · next got rest hfree =>
          rw [hfree, List.head?_cons, Option.some.injEq]
          split
          · next hgot => exact iff_of_true ⟨sc, (claimed_eq _ sc i now).1⟩ hgot
          · next hgot =>
              refine iff_of_false ?_ hgot
              rintro ⟨sc', h⟩
              cases h
      · next hfree =>
          rw [hfree]
          refine iff_of_false ?_ (fun h => by cases h)
          rintro ⟨sc', h⟩
          cases h

/-- In C it claims an entry that nobody uses. -/
theorem claims_of_free {sc : Scan} {i : Nat} {now : Int} (hfree : t.inUse i = false) :
    (t.claim .c sc i now).worker = .busy sc i := by
  simp only [State.claim, hfree, Bool.false_eq_true, if_false]
  exact (claimed_eq _ sc i now).1

end Step

section Run

variable {sdk : Sdk} {spec : Spec} {s t : State} {tr : List (State × Label)} {pass : Pass} {i : Nat}

/-- A state without traffic in which the loop waits for its next tick. -/
structure Quiet (sdk : Sdk) (spec : Spec) (s : State) : Prop where
  reachable : (pool sdk spec).Reachable s
  callers : ∀ c, s.callers c = none
  wait : s.worker = .wait

theorem Quiet.run (h : Quiet sdk spec s) (htr : (undisturbed sdk spec s).Trace tr t) :
    (pool sdk spec).Reachable t ∧ t.callers = s.callers := by
  induction htr with
  | init heq =>
      subst heq
      exact ⟨h.reachable, rfl⟩
  | step _ hs ih =>
      exact ⟨.step ih.1 trivial (step_of_undisturbed hs).2, (callers_step hs).trans ih.2⟩

/-- All indices are in the queue. -/
theorem Quiet.free (h : Quiet sdk spec s) (hsdk : sdk ≠ .c) : s.free.length = spec.size := by
  have key : s.queue.Inv spec.size ∧ s.queue.Full spec.size := by
    have hheld := held_of_reachable h.reachable
    cases sdk with
    | c => exact absurd rfl hsdk
    | go | python => exact hheld
  obtain ⟨hinv, hfull⟩ := key
  have hnone : ∀ p, s.holds p = none := by
    intro p
    cases p with
    | none => simp only [State.holds, h.wait, WorkerPc.held]
    | some c => exact h.callers c
  have hperm : s.free.Perm (List.range spec.size) := by
    apply (List.perm_ext_iff_of_nodup hinv.nodup List.nodup_range).mpr
    intro j
    rw [List.mem_range]
    constructor
    · exact hinv.free_lt j
    · intro hj
      rcases hfull j hj with hmem | ⟨p, hp⟩
      · exact hmem
      · rw [show s.queue.holds p = none from hnone p] at hp
        cases hp
  rw [hperm.length_eq, List.length_range]

/-- A turn of an entry that is due, after some steps: the loop claims the entry when
nobody uses it in C, and when the turns so far have brought it to the head of the
queue in Go and Python. -/
theorem Quiet.claims_iff (h : Quiet sdk spec s) (hi : i < spec.size) {l : Label}
    (htr : (undisturbed sdk spec s).Trace tr t) (hturn : isTurn pass i (t, l) = true)
    (hdue : isDue sdk spec (t, l) = true) :
    Claims sdk spec pass i (t, l) ↔
      sdk = .c ∨ s.free[turns sdk spec tr % spec.size]? = some i := by
  cases l with
  | take c j | release c now | tick now | reply ok used now => cases hturn
  | work now =>
      cases hw : t.worker with
      | wait | busy sc j | give sc j got => simp [isTurn, hw] at hturn
      | scan sc j =>
          rw [isTurn_scan hw, decide_eq_true_eq] at hturn
          obtain ⟨hpass, rfl⟩ := hturn
          rw [isDue_scan hw hi] at hdue
          have hclaims : Claims sdk spec pass j (t, .work now) ↔
              ∃ sc', (t.claim sdk sc j now).worker = .busy sc' j := by
            simp only [Claims, step, work_turn hw hi, hdue, if_true, Option.map_some,
              Option.some.injEq, isTurn_scan hw, hpass, true_and, decide_true]
          rw [hclaims]
          obtain ⟨hreach, hcallers⟩ := h.run htr
          by_cases hsdk : sdk = .c
          · subst hsdk
            refine iff_of_true ⟨sc, claims_of_free ?_⟩ (.inl rfl)
            -- neither a call nor the loop has the entry
            by_contra huse
            obtain ⟨p, hp⟩ := ((held_of_reachable hreach).1.held j).mp (eq_true_of_ne_false huse)
            cases p with
            | none =>
                simp only [State.flags, State.holds, hw, WorkerPc.held] at hp
                cases hp
            | some c =>
                simp only [State.flags, State.holds, hcallers, h.callers] at hp
                cases hp
          · have hwhole := whole_run hsdk h.wait htr
            have hfree : t.free = s.free.rotate (turns sdk spec tr) := by
              rw [← hwhole]
              simp [State.whole, hw, WorkerPc.held]
            have hlen := h.free hsdk
            rw [claims_iff_head hsdk, hfree, ← List.rotate_mod, hlen, List.head?_rotate]
            · simp [hsdk]
            · rw [hlen]
              exact Nat.mod_lt _ spec.one_le

/-- In as many passes as the pool has entries the loop comes to each of them. -/
theorem Quiet.exists_turn (h : Quiet sdk spec s) (htr : (undisturbed sdk spec s).Trace tr t)
    (hticks : ticks tr = spec.size) (hend : t.worker = .wait) (hi : i < spec.size) (pass : Pass) :
    ∃ pre q post, tr = pre ++ q :: post ∧ isTurn pass i q = true := by
  have hcount := countP_isTurn pass hi h.wait htr
  rw [hend, hticks] at hcount
  have hpos : 0 < tr.countP (isTurn pass i) := by
    change tr.countP (isTurn pass i) + 0 = spec.size at hcount
    have hone := spec.one_le
    omega
  obtain ⟨q, hq, hturn⟩ := List.countP_pos_iff.mp hpos
  obtain ⟨pre, post, hsplit⟩ := List.append_of_mem hq
  exact ⟨pre, q, post, hsplit, hturn⟩

/-- While no call uses the pool, the keepalive loop gets at all entries that are due
in each of as many consecutive passes as the pool has entries, exactly when each of
them meets its place in the queue: in one of the passes, the turns of due entries
since the first pass began, up to its own, are modulo the size the place of its
index in the queue at the beginning. In C it always does. -/
theorem keepalive_coverage (h : Quiet sdk spec s) (htr : (undisturbed sdk spec s).Trace tr t)
    (hticks : ticks tr = spec.size) (hend : t.worker = .wait) :
    Covered sdk spec tr ↔ Aligned sdk spec s tr := by
  have hclaims : ∀ i < spec.size, ∀ pass pre q post, tr = pre ++ q :: post →
      isTurn pass i q = true → isDue sdk spec q = true →
        (Claims sdk spec pass i q ↔
          sdk = .c ∨ s.free[turns sdk spec pre % spec.size]? = some i) := by
    rintro i hi pass pre ⟨u, l⟩ post rfl hturn hdue
    exact h.claims_iff hi htr.upTo.1 hturn hdue
  have hmem : ∀ pre (q : State × Label) post, tr = pre ++ q :: post → q ∈ tr := by
    rintro pre q post rfl
    simp
  constructor
  · intro hcovered
    by_cases hsdk : sdk = .c
    · exact .inl hsdk
    refine .inr fun i hi pass hall => ?_
    obtain ⟨q, hq, hclaim⟩ := hcovered i hi pass hall
    obtain ⟨pre, post, hsplit⟩ := List.append_of_mem hq
    have haligned := (hclaims i hi pass pre q post hsplit hclaim.1 (hall q hq hclaim.1)).mp hclaim
    exact ⟨pre, q, post, hsplit, hclaim.1, haligned.resolve_left hsdk⟩
  · rintro (hsdk | haligned) i hi pass hall
    · obtain ⟨pre, q, post, hsplit, hturn⟩ := h.exists_turn htr hticks hend hi pass
      have hq := hmem pre q post hsplit
      exact ⟨q, hq, (hclaims i hi pass pre q post hsplit hturn (hall q hq hturn)).mpr (.inl hsdk)⟩
    · obtain ⟨pre, q, post, hsplit, hturn, hplace⟩ := haligned i hi pass hall
      have hq := hmem pre q post hsplit
      exact ⟨q, hq, (hclaims i hi pass pre q post hsplit hturn (hall q hq hturn)).mpr (.inr hplace)⟩

def pair : Spec := ⟨2, 1, by decide, by decide, Nat.one_pos⟩

def opened : State := ⟨fun _ => ⟨0, false, 0, 0⟩, fun _ => false, [0, 1], fun _ => none, .wait⟩

theorem opened_initial : Initial pair opened :=
  ⟨⟨0, fun _ => rfl⟩, fun _ => rfl, rfl, fun _ => rfl, rfl⟩

/-- A tick at which both entries are pinged and answer. -/
def pingBoth (now used : Int) : List Label :=
  [.tick now, .work 0, .reply true used 0, .work 0, .work 0, .reply true used 0] ++
    List.replicate 5 (.work 0)

def pings : List (State × Label) :=
  (undisturbed .go pair opened).runTrace opened
    (pingBoth 5000000 6000000 ++ pingBoth 9000000 9500000)

/-- Each entry is pinged that has its place in the queue: entry 1 at the second turn of the
first tick. -/
theorem keepalive_coverage_pair : Aligned .go pair opened pings ∧
    ∀ i < 2, DueAlways .go pair pings .ping i ∧ ∃ q ∈ pings, Claims .go pair .ping i q := by
  obtain ⟨t, htr, -, hlabels, hend⟩ := (undisturbed .go pair opened).exists_end_of_run
    (fun _ _ => True) rfl (pingBoth 5000000 6000000 ++ pingBoth 9000000 9500000)
    (fun t => decide (t.worker = .wait)) (by decide +kernel)
  have hquiet : Quiet .go pair opened := ⟨.init opened_initial, fun _ => rfl, rfl⟩
  have hticks : ticks pings = pair.size := by
    rw [ticks, pings, hlabels]
    rfl
  have hdue : ∀ i < 2, DueAlways .go pair pings .ping i := by
    unfold DueAlways
    decide +kernel
  have hlive : ∀ i < 2, ¬ DueAlways .go pair pings .reopen i := by
    unfold DueAlways
    decide +kernel
  have haligned : Aligned .go pair opened pings := by
    refine .inr fun i hi pass hall => ?_
    cases pass with
    | reopen => exact absurd hall (hlive i hi)
    | ping =>
        obtain rfl | rfl : i = 0 ∨ i = 1 := Nat.le_one_iff_eq_zero_or_eq_one.mp (Nat.lt_succ_iff.mp hi)
        · exact ⟨pings.take 1, _, pings.drop 2, rfl, by decide +kernel, by decide +kernel⟩
        · exact ⟨pings.take 4, _, pings.drop 5, rfl, by decide +kernel, by decide +kernel⟩
  have hcovered := (keepalive_coverage hquiet htr hticks (of_decide_eq_true hend)).mpr haligned
  exact ⟨haligned, fun i hi => ⟨hdue i hi, hcovered i hi .ping (hdue i hi)⟩⟩

/-- Two calls have taken an entry each, and the second one was the first to give its
entry back. -/
def swapped : State :=
  { opened with
    free := [1, 0]
    entries := Function.update (Function.update opened.entries 1 ⟨0, false, 0, 0⟩) 0 ⟨0, false, 0, 0⟩
    callers := Function.update (Function.update (Function.update (Function.update opened.callers
      0 (some 0)) 1 (some 1)) 1 none) 0 none }

/-- A pool without traffic whose keepalive loop gets in as many passes as the pool
has entries at none of two entries that are due in each pass. -/
def Misses (sdk : Sdk) : Prop :=
  ∃ s tr t, Quiet sdk pair s ∧ (undisturbed sdk pair s).Trace tr t ∧ ticks tr = pair.size ∧
    t.worker = .wait ∧ DueAlways sdk pair tr .ping 0 ∧ ¬∃ q ∈ tr, Claims sdk pair .ping 0 q

theorem swapped_quiet (hsdk : sdk ≠ .c) : Quiet sdk pair swapped := by
  have hrun : (pool sdk pair).run opened [.take 0 0, .take 1 0, .release 1 0, .release 0 0] =
      some swapped := by
    cases sdk with
    | c => exact absurd rfl hsdk
    | go | python => rfl
  obtain ⟨htr, -, -⟩ := System.Trace.append_runTrace (.init opened_initial) hrun
  refine ⟨htr.reachable, fun c => ?_, rfl⟩
  simp only [swapped, Function.update_apply]
  split_ifs <;> rfl

def WorkerPc.asks : WorkerPc → Bool
  | .busy _ _ => true
  | .wait | .scan _ _ | .give _ _ _ => false

/-- In each pass both entries are due, and neither finds its index at the head. -/
theorem misses (hsdk : sdk ≠ .c) : Misses sdk := by
  obtain ⟨t, htr, hguard, hlabels, hend⟩ := (undisturbed sdk pair swapped).exists_end_of_run
    (fun s l => (isTurn .ping 0 (s, l) = true → isDue sdk pair (s, l) = true) ∧
      ((step sdk pair s l).any fun s' => s'.worker.asks) = false) rfl
    (let onePass := .tick 5000000 :: List.replicate 8 (.work 0)
     onePass ++ onePass)
    (fun t => decide (t.worker = .wait))
    (by cases sdk <;> first | exact absurd rfl hsdk | decide +kernel)
  refine ⟨swapped, _, t, swapped_quiet hsdk, htr, ?_, of_decide_eq_true hend,
    fun q hq => (hguard q hq).1, ?_⟩
  · rw [ticks, hlabels]
    rfl
  · rintro ⟨q, hq, -, sc, hbusy⟩
    obtain ⟨s', hs', hw⟩ := Option.map_eq_some_iff.mp hbusy
    have hquiet := (hguard q hq).2
    rw [hs', Option.any_some, hw] at hquiet
    cases hquiet

/-- The queue is after each pass what it was before, so the loop never gets at them. -/
theorem keepalive_misses : Misses .go ∧ Misses .python := ⟨misses nofun, misses nofun⟩

end Run

end BpClient.Pace
