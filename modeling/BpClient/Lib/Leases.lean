import Mathlib.Algebra.Order.BigOperators.Group.List
import Mathlib.Data.BitVec
import Mathlib.Data.Finset.Card

/-!
Cells lent to processes, at most one cell to a process at a time. `Inv` says
that the flag of a cell is set exactly while somebody holds the cell, and that
nobody shares one.
-/

namespace BpClient.Lib

structure Leases (P I : Type*) where
  inUse : I → Prop
  holds : P → Option I

namespace Leases

variable {P I : Type*}

structure Inv (a : Leases P I) : Prop where
  held : ∀ i, a.inUse i ↔ ∃ p, a.holds p = some i
  unique : ∀ p q i, a.holds p = some i → a.holds q = some i → p = q

theorem Inv.initial {a : Leases P I} (hfree : ∀ i, ¬ a.inUse i) (hnone : ∀ p, a.holds p = none) :
    Inv a where
  held := fun i => by simp [hfree i, hnone]
  unique := fun p _ i hp _ => by simp [hnone p] at hp

/-- What one step of `p` does. -/
inductive Move (a a' : Leases P I) (p : P) : Prop
  | quiet : a'.holds p = a.holds p → (∀ j, a'.inUse j ↔ a.inUse j) → Move a a' p
  | take (i : I) : a.holds p = none → ¬ a.inUse i → a'.holds p = some i → a'.inUse i →
      (∀ j, j ≠ i → (a'.inUse j ↔ a.inUse j)) → Move a a' p
  | give (i : I) : a.holds p = some i → a'.holds p = none → ¬ a'.inUse i →
      (∀ j, j ≠ i → (a'.inUse j ↔ a.inUse j)) → Move a a' p

/-- A step of one party keeps every item in one place at most. -/
theorem Inv.move {a a' : Leases P I} {p : P} (h : Inv a)
    (hframe : ∀ q, q ≠ p → a'.holds q = a.holds q) (hmove : Move a a' p) : Inv a' := by
  obtain ⟨hheld, hunique⟩ := h
  have hcase : ∀ q, q = p ∨ a'.holds q = a.holds q := fun q => by
    by_cases hq : q = p
    · exact .inl hq
    · exact .inr (hframe q hq)
  cases hmove with
  | quiet hp hflags =>
      have hall : ∀ q, a'.holds q = a.holds q := fun q => by
        rcases hcase q with rfl | hq
        · exact hp
        · exact hq
      exact ⟨fun i => by rw [hflags, hheld]; simp only [hall], by simpa only [hall] using hunique⟩
  | take i hp hfree hp' hset hflags =>
      have hnew : ∀ q, q ≠ p → a'.holds q ≠ some i := by
        intro q hq hqi
        rw [hframe q hq] at hqi
        exact hfree ((hheld i).mpr ⟨q, hqi⟩)
      refine ⟨fun j => ?_, ?_⟩
      · by_cases hj : j = i
        · subst j
          exact ⟨fun _ => ⟨p, hp'⟩, fun _ => hset⟩
        · rw [hflags j hj, hheld]
          constructor
          · rintro ⟨q, hq⟩
            refine ⟨q, ?_⟩
            rcases hcase q with rfl | hsame
            · rw [hp] at hq
              cases hq
            · rwa [hsame]
          · rintro ⟨q, hq⟩
            rcases hcase q with rfl | hsame
            · exact absurd (Option.some.inj (hq.symm.trans hp')) hj
            · exact ⟨q, hsame ▸ hq⟩
      · intro q q' j hq hq'
        by_cases hqp : q = p <;> by_cases hqp' : q' = p
        · rw [hqp, hqp']
        · subst q
          obtain rfl : i = j := Option.some.inj (hp'.symm.trans hq)
          exact absurd hq' (hnew q' hqp')
        · subst q'
          obtain rfl : i = j := Option.some.inj (hp'.symm.trans hq')
          exact absurd hq (hnew q hqp)
        · exact hunique q q' j (hframe q hqp ▸ hq) (hframe q' hqp' ▸ hq')
  | give i hp hp' hclear hflags =>
      refine ⟨fun j => ?_, ?_⟩
      · by_cases hj : j = i
        · subst j
          refine ⟨fun h => absurd h hclear, ?_⟩
          rintro ⟨q, hq⟩
          rcases hcase q with rfl | hsame
          · rw [hp'] at hq
            cases hq
          · obtain rfl := hunique q p i (hsame ▸ hq) hp
            rw [hp'] at hq
            cases hq
        · rw [hflags j hj, hheld]
          constructor
          · rintro ⟨q, hq⟩
            refine ⟨q, ?_⟩
            rcases hcase q with rfl | hsame
            · exact absurd (Option.some.inj (hq.symm.trans hp)) hj
            · rwa [hsame]
          · rintro ⟨q, hq⟩
            rcases hcase q with rfl | hsame
            · rw [hp'] at hq
              cases hq
            · exact ⟨q, hsame ▸ hq⟩
      · intro q q' j hq hq'
        rcases hcase q with rfl | hsame
        · rw [hp'] at hq
          cases hq
        · rcases hcase q' with rfl | hsame'
          · rw [hp'] at hq'
            cases hq'
          · exact hunique q q' j (hsame ▸ hq) (hsame' ▸ hq')

/-- A cell handed over from `p` to `q`. -/
theorem Inv.transfer {a a' : Leases P I} {p q : P} {i : I} (h : Inv a) (hp : a.holds p = some i)
    (hq : a.holds q = none) (hp' : a'.holds p = none) (hq' : a'.holds q = some i)
    (hframe : ∀ r, r ≠ p → r ≠ q → a'.holds r = a.holds r)
    (hflags : ∀ j, a'.inUse j ↔ a.inUse j) : Inv a' := by
  have hne : p ≠ q := by
    rintro rfl
    rw [hp] at hq
    cases hq
  have key : ∀ r j, a'.holds r = some j ↔ (r = q ∧ j = i) ∨ (r ≠ p ∧ a.holds r = some j) := by
    intro r j
    by_cases hrp : r = p
    · subst r
      simp [hp', hne]
    · by_cases hrq : r = q
      · subst r
        simp [hq, hq', eq_comm]
      · simp [hframe r hrp hrq, hrp, hrq]
  refine ⟨fun j => ?_, fun r t j hr ht => ?_⟩
  · rw [hflags, h.held]
    constructor
    · rintro ⟨r, hr⟩
      by_cases hrp : r = p
      · subst r
        exact ⟨q, (key q j).mpr (.inl ⟨rfl, Option.some.inj (hr.symm.trans hp)⟩)⟩
      · exact ⟨r, (key r j).mpr (.inr ⟨hrp, hr⟩)⟩
    · rintro ⟨r, hr⟩
      rcases (key r j).mp hr with ⟨rfl, rfl⟩ | ⟨-, hr⟩
      · exact ⟨p, hp⟩
      · exact ⟨r, hr⟩
  · rcases (key r j).mp hr with ⟨rfl, rfl⟩ | ⟨hrp, hr⟩ <;>
      rcases (key t _).mp ht with ⟨rfl, heq⟩ | ⟨htp, ht⟩
    · rfl
    · exact absurd (h.unique t p j ht hp) htp
    · subst heq
      exact absurd (h.unique r p j hr hp) hrp
    · exact h.unique r t j hr ht

end Leases

end BpClient.Lib
