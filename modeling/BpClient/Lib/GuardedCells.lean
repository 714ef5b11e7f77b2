import Mathlib.Algebra.Order.BigOperators.Group.List
import Mathlib.Data.BitVec
import Mathlib.Data.Finset.Card

/-!
Cells claimed and given back inside one critical section. The section is
guarded by a counting semaphore that processes wait on and post; a cell is
either free or owned, and only a process inside the section may change that.

`Inv` is the ownership discipline: the semaphore lets one process in at a
time, an owned cell has exactly one keeper, and a cell that somebody inside
the section is about to claim, or has just given back, is free.
-/

namespace BpClient.Lib.GuardedCells

variable {P I : Type*}

/-- What one process does with the section and the cells. `keeps` is the cell
it owns; `marks` is a free cell it is about to claim or has just given back. -/
structure View (I : Type*) where
  inside : Bool
  keeps : Option I
  marks : Option I

@[simp] def View.outside : View I := ⟨false, none, none⟩

structure State (P I : Type*) where
  count : Nat
  view : P → View I
  owned : I → Prop

structure Inv (a : State P I) : Prop where
  count_le : a.count ≤ 1
  busy : ∀ p, (a.view p).inside = true → a.count = 0
  alone : ∀ p q, (a.view p).inside = true → (a.view q).inside = true → p = q
  keeper : ∀ p i, (a.view p).keeps = some i → a.owned i
  only : ∀ p q i, (a.view p).keeps = some i → (a.view q).keeps = some i → p = q
  marked : ∀ p i, (a.view p).marks = some i →
    (a.view p).inside = true ∧ ¬ a.owned i
  kept : ∀ i, a.owned i → ∃ p, (a.view p).keeps = some i

theorem Inv.initial {a : State P I} (hcount : a.count ≤ 1)
    (hview : ∀ p, a.view p = .outside) (howned : ∀ i, ¬ a.owned i) : Inv a := by
  constructor <;> simp_all [View.outside]

/-- How one process `p` moves, from view `v` to view `v'`. -/
inductive Move (a a' : State P I) (v v' : View I) : Prop
  /-- Nothing visible to the discipline changes. -/
  | quiet : v' = v → a'.count = a.count → a'.owned = a.owned → Move a a' v v'
  /-- The wait on the semaphore succeeds. -/
  | enter : v.inside = false → v' = { v with inside := true } →
      a.count = a'.count + 1 → a'.owned = a.owned → Move a a' v v'
  /-- The process leaves the section; its post may also get lost. -/
  | leave : v.inside = true → v' = { v with inside := false, marks := none } →
      a'.count ≤ a.count + 1 → a'.owned = a.owned → Move a a' v v'
  /-- The process has found the cell `i` free. -/
  | mark (i : I) : v.inside = true → v.keeps = none → v' = { v with marks := some i } →
      ¬ a.owned i → a'.count = a.count → a'.owned = a.owned → Move a a' v v'
  /-- The process writes itself into the cell it has found free. -/
  | claim (i : I) : v.inside = true → v.marks = some i → v.keeps = none →
      v' = ⟨true, some i, none⟩ → a'.count = a.count → a'.owned i →
      (∀ j, j ≠ i → (a'.owned j ↔ a.owned j)) → Move a a' v v'
  /-- The process clears the cell it keeps. -/
  | clear (i : I) : v.inside = true → v.keeps = some i →
      v' = ⟨true, none, some i⟩ → a'.count = a.count → ¬ a'.owned i →
      (∀ j, j ≠ i → (a'.owned j ↔ a.owned j)) → Move a a' v v'

/-- One step: `p` moves and no other process does. -/
structure Step (p : P) (a a' : State P I) : Prop where
  frame : ∀ q, q ≠ p → a'.view q = a.view q
  move : Move a a' (a.view p) (a'.view p)

/-- A cell has at most one process that keeps it or has marked it. -/
theorem Inv.touch_unique {a : State P I} (h : Inv a) {p q : P} {i : I}
    (hp : (a.view p).keeps = some i ∨ (a.view p).marks = some i)
    (hq : (a.view q).keeps = some i ∨ (a.view q).marks = some i) : p = q := by
  rcases hp with hp | hp <;> rcases hq with hq | hq
  · exact h.only p q i hp hq
  · exact absurd (h.keeper p i hp) (h.marked q i hq).2
  · exact absurd (h.keeper q i hq) (h.marked p i hp).2
  · exact h.alone p q (h.marked p i hp).1 (h.marked q i hq).1

/-- The keepers of the owned cells survive a move of `p` that gives up no cell
that stays owned, and that writes itself into every cell it makes owned. -/
private theorem kept_of_move {p : P} {a a' : State P I}
    (hkept : ∀ i, a.owned i → ∃ q, (a.view q).keeps = some i)
    (hframe : ∀ q, q ≠ p → a'.view q = a.view q)
    (hlost : ∀ i, (a.view p).keeps = some i → a'.owned i → (a'.view p).keeps = some i)
    (hnew : ∀ i, a'.owned i → a.owned i ∨ (a'.view p).keeps = some i) :
    ∀ i, a'.owned i → ∃ q, (a'.view q).keeps = some i := by
  intro i hi
  rcases hnew i hi with hold | hp
  · obtain ⟨q, hq⟩ := hkept i hold
    by_cases hqp : q = p
    · subst q
      exact ⟨p, hlost i hq hi⟩
    · exact ⟨q, by rw [hframe q hqp]; exact hq⟩
  · exact ⟨p, hp⟩

/-- Every step keeps the ownership discipline. -/
theorem Inv.step {p : P} {a a' : State P I} (h : Inv a) (hs : Step p a a') : Inv a' := by
  obtain ⟨hcount, hbusy, halone, hkeeper, honly, hmarked, hkept⟩ := h
  obtain ⟨hframe, hmove⟩ := hs
  have hcase : ∀ q, q = p ∨ a'.view q = a.view q := fun q => by
    by_cases hq : q = p
    · exact .inl hq
    · exact .inr (hframe q hq)
  have hkept' := kept_of_move hkept hframe
  cases hmove with
  | quiet hv hc ho =>
      have hview : ∀ q, a'.view q = a.view q := fun q => by
        rcases hcase q with rfl | hq
        · exact hv
        · exact hq
      exact ⟨hc ▸ hcount, by simpa only [hview, hc] using hbusy, by simpa only [hview] using halone,
        by simpa only [hview, ho] using hkeeper, by simpa only [hview] using honly,
        by simpa only [hview, ho] using hmarked, by simpa only [hview, ho] using hkept⟩
  | enter hin hv hc ho =>
      have hin' := congrArg View.inside hv
      have hkeeps := congrArg View.keeps hv
      have hmarks := congrArg View.marks hv
      refine ⟨?_, ?_, ?_, ?_, ?_, ?_, hkept' ?_ ?_⟩ <;> grind
  | leave hin hv hc ho =>
      have hin' := congrArg View.inside hv
      have hkeeps := congrArg View.keeps hv
      have hmarks := congrArg View.marks hv
      refine ⟨?_, ?_, ?_, ?_, ?_, ?_, hkept' ?_ ?_⟩ <;> grind
  | mark i hin hk hv hi hc ho =>
      have hin' := congrArg View.inside hv
      have hkeeps := congrArg View.keeps hv
      have hmarks := congrArg View.marks hv
      refine ⟨?_, ?_, ?_, ?_, ?_, ?_, hkept' ?_ ?_⟩ <;> grind
  | claim i hin hm hk hv hc hi ho =>
      have hin' := congrArg View.inside hv
      have hkeeps := congrArg View.keeps hv
      have hmarks := congrArg View.marks hv
      refine ⟨?_, ?_, ?_, ?_, ?_, ?_, hkept' ?_ ?_⟩ <;> grind
  | clear i hin hk hv hc hi ho =>
      have hin' := congrArg View.inside hv
      have hkeeps := congrArg View.keeps hv
      have hmarks := congrArg View.marks hv
      refine ⟨?_, ?_, ?_, ?_, ?_, ?_, hkept' ?_ ?_⟩ <;> grind

end BpClient.Lib.GuardedCells
