import BpClient.Lib.Transition
import Mathlib.Logic.Relation

/-!
What a system can still do. Steps within a guard lead from a state to another; a measure
that some such step makes smaller, as long as a goal is not reached, leads to the goal.
-/

namespace BpClient.Lib.System

variable {σ ℓ : Type*} (sys : System σ ℓ)

/-- Steps within a guard lead from one state to the other. -/
def Leads (ok : σ → ℓ → Prop) : σ → σ → Prop :=
  Relation.ReflTransGen fun s s' => ∃ l, ok s l ∧ sys.step s l = some s'

variable {sys} {ok : σ → ℓ → Prop} {s s' s'' : σ}

theorem Leads.refl (s : σ) : sys.Leads ok s s := Relation.ReflTransGen.refl

theorem Leads.trans (h : sys.Leads ok s s') (h' : sys.Leads ok s' s'') : sys.Leads ok s s'' :=
  Relation.ReflTransGen.trans h h'

theorem Leads.head {l : ℓ} (hok : ok s l) (hs : sys.step s l = some s')
    (h : sys.Leads ok s' s'') : sys.Leads ok s s'' :=
  Relation.ReflTransGen.head ⟨l, hok, hs⟩ h

/-- A property that every guarded step keeps holds wherever such steps lead. -/
theorem Leads.keeps {inv : σ → Prop} (h : sys.Leads ok s s') (hs : inv s)
    (hstep : ∀ t l t', inv t → ok t l → sys.step t l = some t' → inv t') : inv s' := by
  induction h with
  | refl => exact hs
  | tail _ hlast ih =>
      obtain ⟨l, hok, hstep'⟩ := hlast
      exact hstep _ l _ ih hok hstep'

/-- The rule of the decreasing measure. -/
theorem leads_of_decreasing {α : Type*} {r : α → α → Prop} (hwf : WellFounded r) (m : σ → α)
    {inv goal : σ → Prop}
    (hstep : ∀ s, inv s → ¬ goal s →
      ∃ l s', ok s l ∧ sys.step s l = some s' ∧ inv s' ∧ r (m s') (m s))
    (hs : inv s) : ∃ s', sys.Leads ok s s' ∧ inv s' ∧ goal s' := by
  induction hm : m s using hwf.induction generalizing s with
  | _ a ih =>
      by_cases hgoal : goal s
      · exact ⟨s, .refl s, hs, hgoal⟩
      · obtain ⟨l, t, hok, ht, hinv, hlt⟩ := hstep s hs hgoal
        obtain ⟨s', hleads, hinv', hgoal'⟩ := ih (m t) (hm ▸ hlt) hinv rfl
        exact ⟨s', .head hok ht hleads, hinv', hgoal'⟩

/-- Goals that can be reached one after the other, each staying reached, can be reached
together. -/
theorem leads_to_all {ι : Type*} (ids : List ι) {inv : σ → Prop} {goal : ι → σ → Prop}
    (hone : ∀ s id, inv s → ∃ s', sys.Leads ok s s' ∧ inv s' ∧ goal id s' ∧
      ∀ id', goal id' s → goal id' s') (hs : inv s) :
    ∃ s', sys.Leads ok s s' ∧ inv s' ∧ (∀ id ∈ ids, goal id s') ∧
      ∀ id, goal id s → goal id s' := by
  induction ids generalizing s with
  | nil => exact ⟨s, .refl s, hs, by simp, fun _ h => h⟩
  | cons id ids ih =>
      obtain ⟨t, hleads, ht, hgoal, hkeep⟩ := hone s id hs
      obtain ⟨s', hleads', hs', hall, hkeep'⟩ := ih ht
      refine ⟨s', hleads.trans hleads', hs', ?_, fun id' h => hkeep' id' (hkeep id' h)⟩
      intro id' hid'
      rcases List.mem_cons.mp hid' with rfl | hid'
      · exact hkeep' id' hgoal
      · exact hall id' hid'

end BpClient.Lib.System
