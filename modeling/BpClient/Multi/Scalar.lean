import BpClient.Lib.Bytes

/-!
The scalars that `read_tags` and `write_tags` handle (`c/src/multitag.c`,
`go/ocxbp/multitag.go`, `python/src/bpclient/tagdb.py`): their kinds, their bytes
and what is read from bytes.
-/

namespace BpClient.Multi

open BpClient.Lib

inductive Kind
  | bool | sint | int | dint | lint | usint | uint | udint | ulint | real | lreal
  deriving DecidableEq, Repr

def typeCodes : List (UInt16 × Kind) :=
  [(0xC1, .bool), (0xC2, .sint), (0xC3, .int), (0xC4, .dint), (0xC5, .lint), (0xC6, .usint),
    (0xC7, .uint), (0xC8, .udint), (0xC9, .ulint), (0xCA, .real), (0xCB, .lreal)]

def Kind.size : Kind → Nat
  | .bool | .sint | .usint => 1
  | .int | .uint => 2
  | .dint | .udint | .real => 4
  | .lint | .ulint | .lreal => 8

def kindForAtomic (dataType : UInt16) (elemByteSize : UInt32) : Option Kind :=
  (typeCodes.lookup (dataType &&& 0x1FFF)).filter fun kind => elemByteSize.toNat = kind.size

/-- A value of one of the kinds; floats as their bits. -/
inductive Scalar
  | bool (v : Bool)
  | sint (v : Int8) | int (v : Int16) | dint (v : Int32) | lint (v : Int64)
  | usint (v : UInt8) | uint (v : UInt16) | udint (v : UInt32) | ulint (v : UInt64)
  | real (bits : UInt32) | lreal (bits : UInt64)
  deriving DecidableEq, Repr

namespace Scalar

def kind : Scalar → Kind
  | bool _ => .bool
  | sint _ => .sint
  | int _ => .int
  | dint _ => .dint
  | lint _ => .lint
  | usint _ => .usint
  | uint _ => .uint
  | udint _ => .udint
  | ulint _ => .ulint
  | real _ => .real
  | lreal _ => .lreal

def bits : Scalar → Nat
  | bool v => if v then 1 else 0
  | sint v => v.toUInt8.toNat
  | int v => v.toUInt16.toNat
  | dint v => v.toUInt32.toNat
  | lint v => v.toUInt64.toNat
  | usint v => v.toNat
  | uint v => v.toNat
  | udint v => v.toNat
  | ulint v => v.toNat
  | real bits => bits.toNat
  | lreal bits => bits.toNat

def bytes (s : Scalar) : List UInt8 := leBytes s.kind.size s.bits

@[simp] theorem bytes_length (s : Scalar) : s.bytes.length = s.kind.size := leBytes_length _ _

theorem bits_lt (s : Scalar) : s.bits < 256 ^ s.kind.size := by
  cases s with
  | bool v => cases v <;> decide
  | sint v => exact v.toUInt8.toNat_lt
  | int v => exact v.toUInt16.toNat_lt
  | dint v => exact v.toUInt32.toNat_lt
  | lint v => exact v.toUInt64.toNat_lt
  | usint v => exact v.toNat_lt
  | uint v => exact v.toNat_lt
  | udint v => exact v.toNat_lt
  | ulint v => exact v.toNat_lt
  | real bits => exact bits.toNat_lt
  | lreal bits => exact bits.toNat_lt

end Scalar

section Decode

/-- The number in the first `n` bytes. -/
def load (n : Nat) (b : List UInt8) : Nat := leNat (b.take n)

/-- What C makes of eight bytes: two loads of four. -/
def ldU64 (b : List UInt8) : UInt64 :=
  let lo := UInt64.ofNat (load 4 b)
  let hi := UInt64.ofNat (load 4 (b.drop 4))
  lo ||| (hi <<< 32)

/-- The scalar of a kind in its bytes, given what the eight-byte kinds load. -/
def decodeWith (load64 : List UInt8 → UInt64) (kind : Kind) (b : List UInt8) : Scalar :=
  match kind with
  | .bool => .bool (load 1 b ≠ 0)
  | .sint => .sint (UInt8.ofNat (load 1 b)).toInt8
  | .usint => .usint (UInt8.ofNat (load 1 b))
  | .int => .int (UInt16.ofNat (load 2 b)).toInt16
  | .uint => .uint (UInt16.ofNat (load 2 b))
  | .dint => .dint (UInt32.ofNat (load 4 b)).toInt32
  | .udint => .udint (UInt32.ofNat (load 4 b))
  | .real => .real (UInt32.ofNat (load 4 b))
  | .lint => .lint (load64 b).toInt64
  | .ulint => .ulint (load64 b)
  | .lreal => .lreal (load64 b)

def cDecodeScalar : Kind → List UInt8 → Scalar := decodeWith ldU64

def goDecodeScalar : Kind → List UInt8 → Scalar := decodeWith fun b => UInt64.ofNat (load 8 b)

def Scalar.ofBits (kind : Kind) (n : Nat) : Scalar :=
  match kind with
  | .bool => .bool (n ≠ 0)
  | .sint => .sint (UInt8.ofNat n).toInt8
  | .usint => .usint (UInt8.ofNat n)
  | .int => .int (UInt16.ofNat n).toInt16
  | .uint => .uint (UInt16.ofNat n)
  | .dint => .dint (UInt32.ofNat n).toInt32
  | .udint => .udint (UInt32.ofNat n)
  | .real => .real (UInt32.ofNat n)
  | .lint => .lint (UInt64.ofNat n).toInt64
  | .ulint => .ulint (UInt64.ofNat n)
  | .lreal => .lreal (UInt64.ofNat n)

theorem Scalar.ofBits_bits (s : Scalar) : Scalar.ofBits s.kind s.bits = s := by
  cases s with
  | bool v => cases v <;> rfl
  | sint v => simp only [kind, bits, ofBits, UInt8.ofNat_toNat, Int8.toInt8_toUInt8]
  | int v => simp only [kind, bits, ofBits, UInt16.ofNat_toNat, Int16.toInt16_toUInt16]
  | dint v => simp only [kind, bits, ofBits, UInt32.ofNat_toNat, Int32.toInt32_toUInt32]
  | lint v => simp only [kind, bits, ofBits, UInt64.ofNat_toNat, Int64.toInt64_toUInt64]
  | usint v => simp only [kind, bits, ofBits, UInt8.ofNat_toNat]
  | uint v => simp only [kind, bits, ofBits, UInt16.ofNat_toNat]
  | udint v => simp only [kind, bits, ofBits, UInt32.ofNat_toNat]
  | ulint v => simp only [kind, bits, ofBits, UInt64.ofNat_toNat]
  | real bits => simp only [kind, Scalar.bits, ofBits, UInt32.ofNat_toNat]
  | lreal bits => simp only [kind, Scalar.bits, ofBits, UInt64.ofNat_toNat]

theorem goDecodeScalar_eq (kind : Kind) (b : List UInt8) :
    goDecodeScalar kind b = Scalar.ofBits kind (load kind.size b) := by
  cases kind <;> rfl

theorem load_add (n m : Nat) (b : List UInt8) :
    load (n + m) b = load n b + 256 ^ n * load m (b.drop n) := by
  induction n generalizing b with
  | zero => simp [load, leNat]
  | succ n ih =>
      cases b with
      | nil => simp [load, leNat]
      | cons c b =>
          have hrest := ih b
          simp only [load] at hrest ⊢
          rw [Nat.succ_add, List.take_succ_cons, List.take_succ_cons, List.drop_succ_cons, leNat,
            leNat, hrest, pow_succ', Nat.mul_add, Nat.mul_assoc, Nat.add_assoc]

theorem load_lt (n : Nat) (b : List UInt8) : load n b < 256 ^ n := by
  have hlen : 256 ^ (b.take n).length ≤ 256 ^ n :=
    Nat.pow_le_pow_right (by decide) (List.length_take_le n b)
  exact (leNat_lt _).trans_le hlen

/-- The two loads of C are one of eight bytes. -/
theorem ldU64_eq (b : List UInt8) : ldU64 b = UInt64.ofNat (load 8 b) := by
  have hlo : load 4 b < 2 ^ 32 := load_lt 4 b
  have hhi : load 4 (b.drop 4) < 2 ^ 32 := load_lt 4 _
  have hsum : load 8 b = 2 ^ 32 * load 4 (b.drop 4) + load 4 b := by
    rw [show 8 = 4 + 4 from rfl, load_add, Nat.add_comm]
    rfl
  rw [Nat.two_pow_add_eq_or_of_lt hlo] at hsum
  apply UInt64.toNat_inj.mp
  have hlo' : (UInt64.ofNat (load 4 b)).toNat = load 4 b :=
    UInt64.toNat_ofNat_of_lt' (by simp only [UInt64.size]; omega)
  have hhi' : (UInt64.ofNat (load 4 (b.drop 4)) <<< 32).toNat = 2 ^ 32 * load 4 (b.drop 4) := by
    rw [UInt64.toNat_shiftLeft, UInt64.toNat_ofNat_of_lt' (by simp only [UInt64.size]; omega)]
    change (load 4 (b.drop 4) <<< 32) % 2 ^ 64 = _
    rw [Nat.shiftLeft_eq, Nat.mul_comm, Nat.mod_eq_of_lt (by omega)]
  have hsize : load 8 b < UInt64.size := load_lt 8 b
  rw [ldU64, UInt64.toNat_or, hlo', hhi', UInt64.toNat_ofNat_of_lt' hsize, hsum, Nat.or_comm]

theorem cDecodeScalar_eq : cDecodeScalar = goDecodeScalar := by
  rw [cDecodeScalar, goDecodeScalar]
  exact congrArg decodeWith (funext ldU64_eq)

/-- The bytes of a value are read as the value. -/
theorem goDecodeScalar_bytes (s : Scalar) : goDecodeScalar s.kind s.bytes = s := by
  have hload : load s.kind.size s.bytes = s.bits := by
    rw [load, List.take_of_length_le s.bytes_length.le, Scalar.bytes,
      leNat_leBytes_of_lt s.bits_lt]
  rw [goDecodeScalar_eq, hload, Scalar.ofBits_bits]

end Decode

end BpClient.Multi
