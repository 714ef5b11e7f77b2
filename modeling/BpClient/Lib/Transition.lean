import Mathlib.Algebra.Order.BigOperators.Group.List
import Mathlib.Data.BitVec
import Mathlib.Data.Finset.Card

/-!
Executable transition systems. Every choice of the environment is part of the
label, so a run is a list of labels and can be evaluated. Safety properties
are stated over the states that runs reach; a guard on the steps of a run
describes the runs a conditional property speaks about.
-/

namespace BpClient.Lib

/-- `step s l = none` means that the label `l` is not enabled in `s`. -/
structure System (σ ℓ : Type*) where
  init : σ → Prop
  step : σ → ℓ → Option σ

namespace System

variable {σ ℓ : Type*} (sys : System σ ℓ)

/-- The states reached by runs whose steps all satisfy `ok`, a condition on
the state before the step and on its label. -/
inductive Reaches (ok : σ → ℓ → Prop) : σ → Prop
  | init {s : σ} : sys.init s → Reaches ok s
  | step {s s' : σ} {l : ℓ} :
      Reaches ok s → ok s l → sys.step s l = some s' → Reaches ok s'

abbrev Reachable (s : σ) : Prop := sys.Reaches (fun _ _ => True) s

/-- A run together with the state before each of its steps. -/
inductive Trace : List (σ × ℓ) → σ → Prop
  | init {s : σ} : sys.init s → Trace [] s
  | step {tr : List (σ × ℓ)} {s s' : σ} {l : ℓ} :
      Trace tr s → sys.step s l = some s' → Trace (tr ++ [(s, l)]) s'

/-- Evaluate a list of labels, refusing a step that breaks the guard. -/
def runOk (ok : σ → ℓ → Prop) [∀ s l, Decidable (ok s l)] : σ → List ℓ → Option σ
  | s, [] => some s
  | s, l :: ls => if ok s l then (sys.step s l).bind (fun s' => runOk ok s' ls) else none

def run (s : σ) (ls : List ℓ) : Option σ := sys.runOk (fun _ _ => True) s ls

/-- The steps that a list of labels makes, as long as they are enabled. -/
def runTrace : σ → List ℓ → List (σ × ℓ)
  | _, [] => []
  | s, l :: ls => (s, l) :: (sys.step s l).elim [] fun s' => runTrace s' ls

variable {sys} {ok ok' : σ → ℓ → Prop}

@[simp] theorem run_nil (s : σ) : sys.run s [] = some s := rfl

@[simp] theorem run_cons (s : σ) (l : ℓ) (ls : List ℓ) :
    sys.run s (l :: ls) = (sys.step s l).bind (sys.run · ls) := by
  simp only [run, runOk, if_true]

theorem run_append (s : σ) (ls ls' : List ℓ) :
    sys.run s (ls ++ ls') = (sys.run s ls).bind (sys.run · ls') := by
  induction ls generalizing s with
  | nil => rfl
  | cons l ls ih =>
      rw [List.cons_append, run_cons, run_cons, Option.bind_assoc]
      simp only [ih]

/-- The induction rule for conditional safety: an invariant that holds
initially and survives every guarded step holds in every state reached. -/
theorem Reaches.invariant {s : σ} (h : sys.Reaches ok s) (inv : σ → Prop)
    (hinit : ∀ s, sys.init s → inv s)
    (hstep : ∀ s l s', inv s → ok s l → sys.step s l = some s' → inv s') : inv s := by
  induction h with
  | init h => exact hinit _ h
  | step _ hok hs ih => exact hstep _ _ _ ih hok hs

theorem Reaches.mono {s : σ} (h : sys.Reaches ok s)
    (hle : ∀ s l, ok s l → ok' s l) : sys.Reaches ok' s := by
  induction h with
  | init h => exact .init h
  | step _ hok hs ih => exact .step ih (hle _ _ hok) hs

theorem Reaches.reachable {s : σ} (h : sys.Reaches ok s) : sys.Reachable s :=
  h.mono (fun _ _ _ => trivial)

/-- The guard of a run may be replaced by one that it implies in every state the
run can be in. -/
theorem Reaches.mono_of {s : σ} (h : sys.Reaches ok s)
    (hle : ∀ s l, sys.Reaches ok s → ok s l → ok' s l) : sys.Reaches ok' s := by
  induction h with
  | init h => exact .init h
  | step hr hok hs ih => exact .step ih (hle _ _ hr hok) hs

/-- An invariant already known may be used to prove the next one. -/
theorem Reaches.invariant_of {s : σ} (h : sys.Reaches ok s) {known : σ → Prop}
    (hknown : ∀ s, sys.Reaches ok s → known s) (inv : σ → Prop)
    (hinit : ∀ s, sys.init s → inv s)
    (hstep : ∀ s l s', known s → inv s → ok s l → sys.step s l = some s' → inv s') :
    inv s := by
  induction h with
  | init h => exact hinit _ h
  | step hr hok hs ih => exact hstep _ _ _ (hknown _ hr) ih hok hs

/-- Guarded reachability is exactly the existence of a run whose steps all
satisfy the guard. -/
theorem reaches_iff_trace {s : σ} :
    sys.Reaches ok s ↔ ∃ tr, sys.Trace tr s ∧ ∀ p ∈ tr, ok p.1 p.2 := by
  constructor
  · intro h
    induction h with
    | init h => exact ⟨[], .init h, by simp⟩
    | step _ hok hs ih =>
        obtain ⟨tr, htr, hall⟩ := ih
        refine ⟨_, .step htr hs, ?_⟩
        intro p hp
        rcases List.mem_append.mp hp with old | last
        · exact hall p old
        · rw [List.mem_singleton] at last
          subst last
          exact hok
  · rintro ⟨tr, htr, hall⟩
    induction htr with
    | init h => exact .init h
    | step _ hs ih =>
        refine .step (ih fun p hp => hall p (List.mem_append_left _ hp)) ?_ hs
        exact hall (_, _) (List.mem_append_right _ (List.mem_singleton_self _))

theorem Trace.reachable {tr : List (σ × ℓ)} {s : σ} (h : sys.Trace tr s) :
    sys.Reachable s :=
  reaches_iff_trace.mpr ⟨tr, h, fun _ _ => trivial⟩

/-- A run up to one of its steps, and that step. -/
theorem Trace.upTo {pre post : List (σ × ℓ)} {t s : σ} {l : ℓ}
    (htr : sys.Trace (pre ++ (t, l) :: post) s) :
    sys.Trace pre t ∧ ∃ t', sys.step t l = some t' := by
  generalize hall : pre ++ (t, l) :: post = tr at htr
  induction htr generalizing post with
  | init _ => simp at hall
  | @step tr s s' l' htr hs ih =>
      rcases List.eq_nil_or_concat post with rfl | ⟨post, last, rfl⟩
      · obtain ⟨rfl, heq⟩ := List.append_inj' hall rfl
        cases heq
        exact ⟨htr, s', hs⟩
      · rw [List.concat_eq_append, ← List.cons_append, ← List.append_assoc] at hall
        exact ih (List.append_inj' hall rfl).1

/-- The states before the steps of a run. -/
theorem Trace.before {tr : List (σ × ℓ)} {s : σ} (htr : sys.Trace tr s) {q : σ × ℓ} (hq : q ∈ tr) :
    sys.Reachable q.1 := by
  induction htr with
  | init _ => cases hq
  | step htr _ ih =>
      rcases List.mem_append.mp hq with old | last
      · exact ih old
      · rw [List.mem_singleton] at last
        subst last
        exact htr.reachable

/-- A property of steps that, after guarded steps, holds of a step exactly when
the step is within the guard, holds of all steps of a run exactly when all of
them are. -/
theorem Trace.steps_iff (ok : σ → ℓ → Prop) {q : σ → ℓ → σ → Prop}
    (hstep : ∀ s l s', sys.Reaches ok s → sys.step s l = some s' → (q s l s' ↔ ok s l))
    {tr : List (σ × ℓ)} {s : σ} (htr : sys.Trace tr s) :
    (∀ p ∈ tr, ∀ s', sys.step p.1 p.2 = some s' → q p.1 p.2 s') ↔ ∀ p ∈ tr, ok p.1 p.2 := by
  induction htr with
  | init h => simp
  | @step tr s s' l htr hs ih =>
      have last : (∀ p ∈ tr, ok p.1 p.2) →
          ((∀ t, sys.step s l = some t → q s l t) ↔ ok s l) := by
        intro hall
        have key := hstep s l s' (reaches_iff_trace.mpr ⟨tr, htr, hall⟩) hs
        constructor
        · intro h
          exact key.mp (h s' hs)
        · intro hok t ht
          cases hs.symm.trans ht
          exact key.mpr hok
      simp only [List.forall_mem_append, List.forall_mem_singleton]
      rw [ih]
      constructor
      · rintro ⟨hall, h⟩
        exact ⟨hall, (last hall).mp h⟩
      · rintro ⟨hall, h⟩
        exact ⟨hall, (last hall).mpr h⟩

/-- A property of states that holds initially and, after guarded steps, holds
after a step exactly when the step is within the guard, holds in every state
of a run exactly when all its steps are. -/
theorem Trace.always_iff (ok : σ → ℓ → Prop) {inv : σ → Prop} (hinit : ∀ s, sys.init s → inv s)
    (hstep : ∀ s l s', sys.Reaches ok s → sys.step s l = some s' → (inv s' ↔ ok s l))
    {tr : List (σ × ℓ)} {s : σ} (htr : sys.Trace tr s) :
    ((∀ p ∈ tr, inv p.1) ∧ inv s) ↔ ∀ p ∈ tr, ok p.1 p.2 := by
  induction htr with
  | init h => simp [hinit _ h]
  | @step tr s s' l htr hs ih =>
      simp only [List.forall_mem_append, List.forall_mem_singleton]
      rw [ih]
      have key := fun hall => hstep s l s' (reaches_iff_trace.mpr ⟨tr, htr, hall⟩) hs
      constructor
      · rintro ⟨hall, h⟩
        exact ⟨hall, (key hall).mp h⟩
      · rintro ⟨hall, h⟩
        exact ⟨hall, (key hall).mpr h⟩

/-- A property of the steps of a run seen from the state the run has reached: it
holds of a step that has just been made, and later steps keep it. -/
theorem Trace.history {r : σ × ℓ → σ → Prop} {tr : List (σ × ℓ)} {s : σ} (htr : sys.Trace tr s)
    (hnew : ∀ s l s', sys.step s l = some s' → r (s, l) s')
    (hkeep : ∀ p s l s', r p s → sys.step s l = some s' → r p s') : ∀ p ∈ tr, r p s := by
  induction htr with
  | init h => simp
  | step htr hs ih =>
      intro p hp
      rcases List.mem_append.mp hp with old | last
      · exact hkeep p _ _ _ (ih p old) hs
      · rw [List.mem_singleton] at last
        subst last
        exact hnew _ _ _ hs

/-- Evaluating labels from the end of a run continues that run by their steps. -/
theorem Trace.append_runTrace [∀ s l, Decidable (ok s l)] {tr : List (σ × ℓ)} {s s' : σ}
    {ls : List ℓ} (htr : sys.Trace tr s) (hrun : sys.runOk ok s ls = some s') :
    sys.Trace (tr ++ sys.runTrace s ls) s' ∧ (∀ p ∈ sys.runTrace s ls, ok p.1 p.2) ∧
      (sys.runTrace s ls).map Prod.snd = ls := by
  induction ls generalizing s tr with
  | nil =>
      simp only [runOk, Option.some.injEq] at hrun
      subst hrun
      exact ⟨by simpa [runTrace] using htr, by simp [runTrace], rfl⟩
  | cons l ls ih =>
      simp only [runOk] at hrun
      split at hrun
      · next hok =>
          obtain ⟨mid, hmid, hrest⟩ := Option.bind_eq_some_iff.mp hrun
          obtain ⟨htr', hall, hlabels⟩ := ih (.step htr hmid) hrest
          have hcons : sys.runTrace s (l :: ls) = (s, l) :: sys.runTrace mid ls := by
            rw [runTrace, hmid, Option.elim_some]
          rw [hcons]
          refine ⟨by simpa using htr', ?_, congrArg (l :: ·) hlabels⟩
          exact List.forall_mem_cons.mpr ⟨hok, hall⟩
      · cases hrun

/-- Labels that evaluate, each step within the guard, to a state with a
decidable property: their steps are a run that ends in one. -/
theorem exists_end_of_run (ok : σ → ℓ → Prop) [∀ s l, Decidable (ok s l)] {s : σ}
    (hs : sys.init s) (ls : List ℓ) (p : σ → Bool)
    (hrun : (sys.runOk ok s ls).map p = some true) :
    ∃ s', sys.Trace (sys.runTrace s ls) s' ∧ (∀ q ∈ sys.runTrace s ls, ok q.1 q.2) ∧
      (sys.runTrace s ls).map Prod.snd = ls ∧ p s' = true := by
  obtain ⟨s', hs', hp⟩ := Option.map_eq_some_iff.mp hrun
  obtain ⟨htr, hall, hlabels⟩ := Trace.append_runTrace (.init hs) hs'
  exact ⟨s', by simpa using htr, hall, hlabels, hp⟩

/-- Labels that evaluate, each step within the guard, to a state with a
decidable property exhibit a run that ends in one. -/
theorem exists_trace_of_run (ok : σ → ℓ → Prop) [∀ s l, Decidable (ok s l)] {s : σ}
    (hs : sys.init s) (ls : List ℓ) (p : σ → Bool)
    (hrun : (sys.runOk ok s ls).map p = some true) :
    ∃ tr s', sys.Trace tr s' ∧ (∀ q ∈ tr, ok q.1 q.2) ∧ p s' = true := by
  obtain ⟨s', htr, hall, -, hp⟩ := exists_end_of_run ok hs ls p hrun
  exact ⟨_, s', htr, hall, hp⟩

theorem exists_reaches_of_run (ok : σ → ℓ → Prop) [∀ s l, Decidable (ok s l)] {s : σ}
    (hs : sys.init s) (ls : List ℓ) (p : σ → Bool)
    (hrun : (sys.runOk ok s ls).map p = some true) :
    ∃ s', sys.Reaches ok s' ∧ p s' = true := by
  obtain ⟨tr, s', htr, hall, hp⟩ := exists_trace_of_run ok hs ls p hrun
  exact ⟨s', reaches_iff_trace.mpr ⟨tr, htr, hall⟩, hp⟩

end System

end BpClient.Lib
