import Mathlib.Algebra.Order.BigOperators.Group.List
import Mathlib.Data.BitVec
import Mathlib.Data.Finset.Card

/-!
Numbers as little-endian bytes, and back.
-/

namespace BpClient.Lib

def leBytes (width v : Nat) : List UInt8 :=
  (List.range width).map fun k => UInt8.ofNat (v / 256 ^ k)

@[simp] theorem leBytes_length (width v : Nat) : (leBytes width v).length = width := by
  simp [leBytes]

theorem leBytes_succ (width v : Nat) :
    leBytes (width + 1) v = UInt8.ofNat v :: leBytes width (v / 256) := by
  simp only [leBytes, List.range_succ_eq_map, List.map_cons, pow_zero, Nat.div_one, List.map_map]
  refine congrArg _ (List.map_congr_left fun k _ => ?_)
  rw [Function.comp_apply, Nat.div_div_eq_div_mul, Nat.succ_eq_add_one, pow_succ']

theorem leBytes_add (n m v : Nat) : leBytes (n + m) v = leBytes n v ++ leBytes m (v / 256 ^ n) := by
  simp only [leBytes, List.range_add, List.map_append, List.map_map]
  refine congrArg _ (List.map_congr_left fun k _ => ?_)
  rw [Function.comp_apply, Nat.div_div_eq_div_mul, pow_add]

/-- Only the residue of a number has bytes. -/
theorem leBytes_mod (width v : Nat) : leBytes width (v % 256 ^ width) = leBytes width v := by
  induction width generalizing v with
  | zero => rfl
  | succ width ih =>
      have hhead : UInt8.ofNat (v % 256 ^ (width + 1)) = UInt8.ofNat v := by
        apply UInt8.toNat_inj.mp
        rw [UInt8.toNat_ofNat', UInt8.toNat_ofNat', pow_succ', Nat.mod_mul_right_mod]
      have htail : v % 256 ^ (width + 1) / 256 = v / 256 % 256 ^ width := by
        rw [pow_succ', Nat.mod_mul_right_div_self]
      rw [leBytes_succ, leBytes_succ, hhead, htail, ih]

def leNat : List UInt8 → Nat
  | [] => 0
  | b :: bs => b.toNat + 256 * leNat bs

theorem leNat_lt (bytes : List UInt8) : leNat bytes < 256 ^ bytes.length := by
  induction bytes with
  | nil => decide
  | cons b bytes ih =>
      have hb := b.toNat_lt
      rw [leNat, List.length_cons, pow_succ']
      omega

theorem leNat_leBytes (width v : Nat) : leNat (leBytes width v) = v % 256 ^ width := by
  induction width generalizing v with
  | zero => simp [leBytes, leNat, Nat.mod_one]
  | succ width ih =>
      have hbyte : (UInt8.ofNat v).toNat = v % 256 := by simp
      rw [leBytes_succ, leNat, ih, hbyte, pow_succ', Nat.mod_mul]

theorem leNat_leBytes_of_lt {width v : Nat} (h : v < 256 ^ width) :
    leNat (leBytes width v) = v := by
  rw [leNat_leBytes, Nat.mod_eq_of_lt h]

/-- Bytes are the ones of their number. -/
theorem leBytes_leNat (bytes : List UInt8) : leBytes bytes.length (leNat bytes) = bytes := by
  induction bytes with
  | nil => rfl
  | cons b bytes ih =>
      have hlow : UInt8.ofNat (b.toNat + 256 * leNat bytes) = b := by
        apply UInt8.toNat_inj.mp
        rw [UInt8.toNat_ofNat', Nat.add_mul_mod_self_left, Nat.mod_eq_of_lt b.toNat_lt]
      have hhigh : (b.toNat + 256 * leNat bytes) / 256 = leNat bytes := by
        have hb := b.toNat_lt
        omega
      rw [List.length_cons, leNat, leBytes_succ, hlow, hhigh, ih]

/-- The number in `width` bytes at an offset. -/
def leField (off width : Nat) (bytes : List UInt8) : Nat := leNat ((bytes.drop off).take width)

theorem leField_append {off width v : Nat} {front back : List UInt8} (hoff : front.length = off)
    (hv : v < 256 ^ width) : leField off width (front ++ (leBytes width v ++ back)) = v := by
  subst off
  rw [leField, List.drop_left, List.take_append_of_le_length (by simp), List.take_of_length_le
    (by simp), leNat_leBytes_of_lt hv]

end BpClient.Lib
