import Mathlib.Algebra.Order.BigOperators.Group.List
import Mathlib.Data.BitVec
import Mathlib.Data.Finset.Card

/-!
The app_handles of the pools, the same in the three versions: one range for
each backplane slot, one handle for each entry.
-/

namespace BpClient.CPool

def maxSize : Nat := 16

def maxSlots : Nat := 20

def poolAppHandle (slot index : Nat) : Nat := (0x8000 ||| (slot <<< 8) ||| index) % 2 ^ 16

/-- The low byte of an app_handle is the index of its entry. -/
theorem poolAppHandle_mod (slot : Nat) {i : Nat} (hi : i < maxSize) :
    poolAppHandle slot i % 2 ^ 8 = i := by
  have hi' : i < 2 ^ 8 := lt_of_lt_of_le hi (by decide)
  have hslot : (slot <<< 8) % 2 ^ 8 = 0 := by
    rw [Nat.shiftLeft_eq, Nat.mul_mod_left]
  have hbase : (0x8000 : Nat) % 2 ^ 8 = 0 := by decide
  rw [poolAppHandle, Nat.mod_mod_of_dvd _ (by decide), Nat.or_mod_two_pow, Nat.or_mod_two_pow,
    hbase, hslot, Nat.mod_eq_of_lt hi']
  simp

theorem poolAppHandle_inj {slot i j : Nat} (hi : i < maxSize) (hj : j < maxSize)
    (h : poolAppHandle slot i = poolAppHandle slot j) : i = j := by
  rw [← poolAppHandle_mod slot hi, ← poolAppHandle_mod slot hj, h]

end BpClient.CPool
