import Mathlib.Algebra.Order.BigOperators.Group.List
import Mathlib.Data.BitVec
import Mathlib.Data.Finset.Card

/-!
Indices that wait in a queue or are held by processes, at most one index to a
process. A process takes the index at the head of the queue and puts its index
back at the end, or drops it.
-/

namespace BpClient.Lib

@[ext] structure FreeList (P : Type*) where
  free : List Nat
  holds : P → Option Nat

namespace FreeList

variable {P : Type*}

/-- Where an index can be. -/
inductive Place (P : Type*)
  | queue (n : Nat)
  | held (p : P)

section Defs

variable (a : FreeList P)

def index : Place P → Option Nat
  | .queue n => a.free[n]?
  | .held p => a.holds p

/-- No index is in two places. -/
def Distinct : Prop := ∀ x y i, a.index x = some i → a.index y = some i → x = y

/-- The indices below `n` are in the places, each in exactly one, and nothing
else is. -/
structure Conserved (n : Nat) : Prop where
  distinct : a.Distinct
  exact : ∀ i, (∃ x, a.index x = some i) ↔ i < n

/-- `Distinct` and the bound, in terms of the queue and the holders. -/
structure Inv (n : Nat) : Prop where
  nodup : a.free.Nodup
  apart : ∀ p i, a.holds p = some i → i ∉ a.free
  unique : ∀ p q i, a.holds p = some i → a.holds q = some i → p = q
  free_lt : ∀ i ∈ a.free, i < n
  held_lt : ∀ p i, a.holds p = some i → i < n

/-- No index below `n` has been dropped. -/
def Full (n : Nat) : Prop := ∀ i < n, i ∈ a.free ∨ ∃ p, a.holds p = some i

end Defs

variable {a a' : FreeList P} {n : Nat}

theorem Inv.distinct (h : a.Inv n) : a.Distinct := by
  intro x y i hx hy
  cases x with
  | queue m =>
      cases y with
      | queue k =>
          obtain ⟨hm, -⟩ := List.getElem?_eq_some_iff.mp hx
          rw [(List.getElem?_inj hm h.nodup).mp (hx.trans hy.symm)]
      | held q => exact absurd (List.mem_of_getElem? hx) (h.apart q i hy)
  | held p =>
      cases y with
      | queue k => exact absurd (List.mem_of_getElem? hy) (h.apart p i hx)
      | held q => rw [h.unique p q i hx hy]

theorem Inv.conserved (h : a.Inv n) (hfull : a.Full n) : a.Conserved n := by
  refine ⟨h.distinct, fun i => ⟨?_, fun hi => ?_⟩⟩
  · rintro ⟨x, hx⟩
    cases x with
    | queue m => exact h.free_lt i (List.mem_of_getElem? hx)
    | held p => exact h.held_lt p i hx
  · rcases hfull i hi with hfree | ⟨p, hp⟩
    · obtain ⟨m, hm⟩ := List.mem_iff_getElem?.mp hfree
      exact ⟨.queue m, hm⟩
    · exact ⟨.held p, hp⟩

/-- There is room in a queue of `n` places for an index that is held. -/
theorem Inv.length_lt (h : a.Inv n) {p : P} {i : Nat} (hp : a.holds p = some i) :
    a.free.length < n := by
  have hnodup : (i :: a.free).Nodup := List.nodup_cons.mpr ⟨h.apart p i hp, h.nodup⟩
  have hsub : i :: a.free ⊆ List.range n := by
    intro j hj
    rcases List.mem_cons.mp hj with rfl | hfree
    · exact List.mem_range.mpr (h.held_lt p j hp)
    · exact List.mem_range.mpr (h.free_lt j hfree)
  have hlen := (hnodup.subperm hsub).length_le
  simp only [List.length_cons, List.length_range] at hlen
  omega

theorem Inv.length_le (h : a.Inv n) : a.free.length ≤ n := by
  have hsub : a.free ⊆ List.range n := fun j hj => List.mem_range.mpr (h.free_lt j hj)
  have hlen := (h.nodup.subperm hsub).length_le
  rwa [List.length_range] at hlen

/-- All indices in the queue, in order. -/
theorem Inv.seeded (hfree : a.free = List.range n) (hnone : ∀ p, a.holds p = none) : a.Inv n where
  nodup := hfree ▸ List.nodup_range
  apart := fun p _ hp => by simp [hnone p] at hp
  unique := fun p _ _ hp => by simp [hnone p] at hp
  free_lt := fun i hi => List.mem_range.mp (hfree ▸ hi)
  held_lt := fun p _ hp => by simp [hnone p] at hp

theorem Inv.empty (hfree : a.free = []) (hnone : ∀ p, a.holds p = none) : a.Inv n where
  nodup := hfree ▸ List.nodup_nil
  apart := fun p _ hp => by simp [hnone p] at hp
  unique := fun p _ _ hp => by simp [hnone p] at hp
  free_lt := fun i hi => by simp [hfree] at hi
  held_lt := fun p _ hp => by simp [hnone p] at hp

theorem Full.seeded (hfree : a.free = List.range n) : a.Full n :=
  fun _ hi => .inl (hfree ▸ List.mem_range.mpr hi)

/-- What a step of a process does to the queue and to what the process holds; it
drops its index only if `lossy`. -/
inductive Move (lossy : Prop) (free : List Nat) (held : Option Nat) (free' : List Nat)
    (held' : Option Nat) : Prop
  | quiet : free' = free → held' = held → Move lossy free held free' held'
  | take (i : Nat) : held = none → free = i :: free' → held' = some i →
      Move lossy free held free' held'
  | give (i : Nat) : held = some i → free' = free ++ [i] → held' = none →
      Move lossy free held free' held'
  | drop (i : Nat) : lossy → held = some i → free' = free → held' = none →
      Move lossy free held free' held'

/-- From an empty queue a process that holds nothing takes nothing. -/
theorem Move.of_nil {lossy : Prop} {free' : List Nat} {held' : Option Nat}
    (h : Move lossy [] none free' held') : free' = [] := by
  cases h with
  | quiet hfree _ => exact hfree
  | take i _ hfree _ => cases hfree
  | give i hheld _ _ => cases hheld
  | drop i _ hheld _ _ => cases hheld

/-- After `p` has got rid of its index, what is held was held by another process
before. -/
theorem holds_of_released {p : P} (hframe : ∀ q, q ≠ p → a'.holds q = a.holds q)
    (hp' : a'.holds p = none) {q : P} {i : Nat} (hq : a'.holds q = some i) :
    q ≠ p ∧ a.holds q = some i := by
  have hqp : q ≠ p := by
    rintro rfl
    rw [hp'] at hq
    cases hq
  exact ⟨hqp, hframe q hqp ▸ hq⟩

/-- The head of the queue goes to a party that has nothing. -/
theorem Inv.take {p : P} {i : Nat} (h : a.Inv n)
    (hframe : ∀ q, q ≠ p → a'.holds q = a.holds q) (hfree : a.free = i :: a'.free)
    (hp' : a'.holds p = some i) : a'.Inv n := by
  have hnodup : (i :: a'.free).Nodup := hfree ▸ h.nodup
  have hmem : ∀ j ∈ a'.free, j ∈ a.free := fun j hj => hfree ▸ List.mem_cons_of_mem i hj
  have hhead : i ∈ a.free := hfree ▸ List.mem_cons_self
  have hheld : ∀ q j, a'.holds q = some j → (q = p ∧ j = i) ∨ a.holds q = some j := by
    intro q j hq
    by_cases hqp : q = p
    · subst q
      exact .inl ⟨rfl, Option.some.inj (hq.symm.trans hp')⟩
    · exact .inr (hframe q hqp ▸ hq)
  refine ⟨hnodup.of_cons, ?_, ?_, ?_, ?_⟩
  · intro q j hq
    rcases hheld q j hq with ⟨-, rfl⟩ | hold
    · exact (List.nodup_cons.mp hnodup).1
    · exact fun hj => h.apart q j hold (hmem j hj)
  · intro q r j hq hr
    rcases hheld q j hq with ⟨rfl, rfl⟩ | hq <;> rcases hheld r _ hr with ⟨rfl, heq⟩ | hr
    · rfl
    · exact absurd hhead (h.apart r _ hr)
    · exact absurd (heq ▸ hhead) (h.apart q j hq)
    · exact h.unique q r j hq hr
  · exact fun j hj => h.free_lt j (hmem j hj)
  · intro q j hq
    rcases hheld q j hq with ⟨-, rfl⟩ | hold
    · exact h.free_lt _ hhead
    · exact h.held_lt q j hold

/-- A party puts its index at the end of the queue. -/
theorem Inv.give {p : P} {i : Nat} (h : a.Inv n) (hframe : ∀ q, q ≠ p → a'.holds q = a.holds q)
    (hp : a.holds p = some i) (hfree' : a'.free = a.free ++ [i]) (hp' : a'.holds p = none) :
    a'.Inv n := by
  have hperm : a'.free.Perm (i :: a.free) := hfree' ▸ List.perm_append_singleton i a.free
  refine ⟨?_, ?_, ?_, ?_, ?_⟩
  · exact hperm.nodup_iff.mpr (List.nodup_cons.mpr ⟨h.apart p i hp, h.nodup⟩)
  · intro q j hq hj
    obtain ⟨hqp, hq⟩ := holds_of_released hframe hp' hq
    rcases List.mem_cons.mp (hperm.mem_iff.mp hj) with rfl | hj
    · exact hqp (h.unique q p j hq hp)
    · exact h.apart q j hq hj
  · intro q r j hq hr
    exact h.unique q r j (holds_of_released hframe hp' hq).2 (holds_of_released hframe hp' hr).2
  · intro j hj
    rcases List.mem_cons.mp (hperm.mem_iff.mp hj) with rfl | hj
    · exact h.held_lt p j hp
    · exact h.free_lt j hj
  · exact fun q j hq => h.held_lt q j (holds_of_released hframe hp' hq).2

theorem Inv.drop {p : P} (h : a.Inv n) (hframe : ∀ q, q ≠ p → a'.holds q = a.holds q)
    (hfree' : a'.free = a.free) (hp' : a'.holds p = none) : a'.Inv n := by
  have hheld : ∀ q j, a'.holds q = some j → a.holds q = some j :=
    fun q j hq => (holds_of_released hframe hp' hq).2
  refine ⟨hfree' ▸ h.nodup, ?_, ?_, ?_, ?_⟩
  · exact fun q j hq => hfree' ▸ h.apart q j (hheld q j hq)
  · exact fun q r j hq hr => h.unique q r j (hheld q j hq) (hheld r j hr)
  · exact fun j hj => h.free_lt j (hfree' ▸ hj)
  · exact fun q j hq => h.held_lt q j (hheld q j hq)

theorem eq_of_quiet {p : P} (hframe : ∀ q, q ≠ p → a'.holds q = a.holds q)
    (hfree : a'.free = a.free) (hp : a'.holds p = a.holds p) : a' = a := by
  have hholds : a'.holds = a.holds := by
    funext q
    by_cases hqp : q = p
    · rw [hqp, hp]
    · exact hframe q hqp
  cases a
  cases a'
  simp_all

theorem Inv.move {lossy : Prop} {p : P} (h : a.Inv n)
    (hframe : ∀ q, q ≠ p → a'.holds q = a.holds q)
    (hmove : Move lossy a.free (a.holds p) a'.free (a'.holds p)) : a'.Inv n := by
  cases hmove with
  | quiet hfree hp =>
      rw [eq_of_quiet hframe hfree hp]
      exact h
  | take i _ hfree hp' => exact h.take hframe hfree hp'
  | give i hp hfree' hp' => exact h.give hframe hp hfree' hp'
  | drop i _ _ hfree' hp' => exact h.drop hframe hfree' hp'

/-- Steps that may not drop an index keep all of them. -/
theorem Full.move {lossy : Prop} {p : P} (h : a.Full n) (hlossy : ¬ lossy)
    (hframe : ∀ q, q ≠ p → a'.holds q = a.holds q)
    (hmove : Move lossy a.free (a.holds p) a'.free (a'.holds p)) : a'.Full n := by
  intro i hi
  have hother : ∀ q, q ≠ p → a.holds q = some i → ∃ r, a'.holds r = some i :=
    fun q hqp hq => ⟨q, (hframe q hqp).trans hq⟩
  cases hmove with
  | quiet hfree hp =>
      rw [eq_of_quiet hframe hfree hp]
      exact h i hi
  | take j hp hfree hp' =>
      rcases h i hi with hmem | ⟨q, hq⟩
      · rcases List.mem_cons.mp (hfree ▸ hmem) with rfl | hrest
        · exact .inr ⟨p, hp'⟩
        · exact .inl hrest
      · refine .inr (hother q ?_ hq)
        rintro rfl
        rw [hp] at hq
        cases hq
  | give j hp hfree' hp' =>
      rcases h i hi with hmem | ⟨q, hq⟩
      · exact .inl (hfree' ▸ List.mem_append_left _ hmem)
      · by_cases hqp : q = p
        · subst q
          obtain rfl : i = j := Option.some.inj (hq.symm.trans hp)
          exact .inl (hfree' ▸ List.mem_append_right _ (List.mem_singleton_self i))
        · exact .inr (hother q hqp hq)
  | drop j hdrop => exact absurd hdrop hlossy

/-- After `m` indices have been taken from the head, every index of a kind comes up within
`n` of them. -/
def ComesUp (kind : Nat → Prop) (free : List Nat) (m n : Nat) : Prop :=
  ∀ k i, free[k]? = some i → kind i → k + m < n

section ComesUp

variable {kind : Nat → Prop} {free free' : List Nat} {held held' : Option Nat} {m : Nat}

theorem comesUp_of_length_le (h : free.length ≤ n) : ComesUp kind free 0 n := by
  intro k i hk _
  obtain ⟨hlt, -⟩ := List.getElem?_eq_some_iff.mp hk
  omega

theorem ComesUp.mono {kind' : Nat → Prop} (h : ComesUp kind free m n)
    (hle : ∀ i ∈ free, kind' i → kind i) : ComesUp kind' free m n :=
  fun k i hk hi => h k i hk (hle i (List.mem_of_getElem? hk) hi)

/-- Taking the index at the head brings the others up. -/
theorem ComesUp.take {i : Nat} (h : ComesUp kind (i :: free) m n) :
    ComesUp kind free (m + 1) n := by
  intro k j hk hj
  have hbefore := h (k + 1) j (by rwa [List.getElem?_cons_succ]) hj
  omega

theorem ComesUp.of_take {i : Nat} (h : ComesUp kind (i :: free) m n) : ComesUp kind free m n :=
  fun k j hk hj => Nat.lt_of_succ_lt (h.take k j hk hj)

/-- An index of another kind may be put back behind them. -/
theorem ComesUp.give {i : Nat} (h : ComesUp kind free m n) (hi : ¬ kind i) :
    ComesUp kind (free ++ [i]) m n := by
  intro k j hk hj
  rcases Nat.lt_or_ge k free.length with hlt | hge
  · rw [List.getElem?_append_left hlt] at hk
    exact h k j hk hj
  · rw [List.getElem?_append_right hge] at hk
    obtain rfl := List.mem_singleton.mp (List.mem_of_getElem? hk)
    exact absurd hj hi

/-- The steps of a process that holds no index of the kind keep none of them waiting. -/
theorem Move.comesUp {lossy : Prop} (hmove : Move lossy free held free' held')
    (hheld : ∀ i, held = some i → ¬ kind i) (h : ComesUp kind free m n) :
    ComesUp kind free' m n := by
  cases hmove with
  | quiet hfree _ => exact hfree ▸ h
  | take i _ hfree _ =>
      rw [hfree] at h
      exact h.of_take
  | give i hi hfree _ => exact hfree ▸ h.give (hheld i hi)
  | drop i _ _ hfree _ => exact hfree ▸ h

end ComesUp

end FreeList

end BpClient.Lib
