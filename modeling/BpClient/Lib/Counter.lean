import Mathlib.Algebra.Order.BigOperators.Group.List
import Mathlib.Data.BitVec
import Mathlib.Data.Finset.Card

/-!
A counter that is incremented by each process that enters a region and
decremented by each that leaves it.
-/

namespace BpClient.Lib

/-- Exactly `n` processes satisfy `P`. -/
def Counts {α : Type*} (P : α → Prop) (n : Nat) : Prop :=
  ∃ S : Finset α, S.card = n ∧ ∀ a, a ∈ S ↔ P a

namespace Counts

variable {α : Type*} {P P' : α → Prop} {n n' : Nat}

theorem of_none (h : ∀ a, ¬ P a) : Counts P 0 := ⟨∅, rfl, fun a => by simp [h a]⟩

theorem none_of_zero (h : Counts P 0) (a : α) : ¬ P a := by
  obtain ⟨S, hcard, hmem⟩ := h
  rw [← hmem, Finset.card_eq_zero.mp hcard]
  exact Finset.notMem_empty a

/-- What a step of a process does to the counter: `was` and `is` say whether it
is in the region before and after. -/
inductive Move (was is : Prop) (n n' : Nat) : Prop
  | same : (is ↔ was) → n' = n → Move was is n n'
  | enter : ¬ was → is → n' = n + 1 → Move was is n n'
  | leave : was → ¬ is → n' = n - 1 → Move was is n n'

theorem move [DecidableEq α] {a : α} (h : Counts P n) (hframe : ∀ b, b ≠ a → (P' b ↔ P b))
    (hmove : Move (P a) (P' a) n n') : Counts P' n' := by
  obtain ⟨S, rfl, hmem⟩ := h
  cases hmove with
  | same hsame hn =>
      refine ⟨S, hn.symm, fun b => ?_⟩
      rw [hmem]
      by_cases hb : b = a
      · rw [hb, hsame]
      · exact (hframe b hb).symm
  | enter hwas his hn =>
      refine ⟨insert a S, ?_, fun b => ?_⟩
      · rw [Finset.card_insert_of_notMem (fun ha => hwas ((hmem a).mp ha)), hn]
      · rw [Finset.mem_insert, hmem]
        by_cases hb : b = a
        · simp [hb, his]
        · simp [hb, hframe b hb]
  | leave hwas his hn =>
      refine ⟨S.erase a, ?_, fun b => ?_⟩
      · rw [Finset.card_erase_of_mem ((hmem a).mpr hwas), hn]
      · rw [Finset.mem_erase, hmem]
        by_cases hb : b = a
        · simp [hb, his]
        · simp [hb, hframe b hb]

end Counts

end BpClient.Lib
