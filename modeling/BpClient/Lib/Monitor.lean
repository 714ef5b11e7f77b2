import Mathlib.Algebra.Order.BigOperators.Group.List
import Mathlib.Data.BitVec
import Mathlib.Data.Finset.Card

/-!
A mutex with one condition variable. A thread in `waiters` is blocked; a
thread that is woken leaves `waiters` and has to lock the mutex again before it
goes on. A signal wakes one waiter, chosen by the environment.
-/

namespace BpClient.Lib

structure Monitor (T : Type*) where
  holder : Option T
  waiters : Finset T

namespace Monitor

variable {T : Type*} [DecidableEq T] (m : Monitor T)

def lock (t : T) : Option (Monitor T) :=
  if m.holder = none then some { m with holder := some t } else none

def unlock : Monitor T := { m with holder := none }

/-- Release the mutex and block. -/
def wait (t : T) : Monitor T := ⟨none, insert t m.waiters⟩

def wake (t : T) : Monitor T := { m with waiters := m.waiters.erase t }

def broadcast : Monitor T := { m with waiters := ∅ }

/-- Wake the waiter `pick`; nobody is woken only when nobody waits. -/
def signal : Option T → Option (Monitor T)
  | some t => if t ∈ m.waiters then some (m.wake t) else none
  | none => if m.waiters = ∅ then some m else none

variable {m}

omit [DecidableEq T] in
theorem lock_eq_some {t : T} {m' : Monitor T} :
    m.lock t = some m' ↔ m.holder = none ∧ m' = { m with holder := some t } := by
  unfold lock
  split
  · next h => simp [h, eq_comm]
  · next h => simp [h]

/-- What a signal does: it wakes the waiter it picks, if there is one. -/
theorem signal_eq_some {pick : Option T} {m' : Monitor T} (h : m.signal pick = some m') :
    m'.holder = m.holder ∧ m'.waiters ⊆ m.waiters ∧
      ((pick = none ∧ m.waiters = ∅ ∧ m'.waiters = ∅) ∨
        ∃ t, pick = some t ∧ t ∈ m.waiters ∧ m'.waiters = m.waiters.erase t) := by
  cases pick with
  | none =>
      simp only [signal] at h
      split at h <;> cases h
      next hempty => exact ⟨rfl, subset_rfl, .inl ⟨rfl, hempty, hempty⟩⟩
  | some t =>
      simp only [signal] at h
      split at h <;> cases h
      next ht => exact ⟨rfl, Finset.erase_subset _ _, .inr ⟨t, rfl, ht, rfl⟩⟩

end Monitor

end BpClient.Lib
