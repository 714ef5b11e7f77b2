import BpClient.Multi.Scalar
import BpClient.Tag.Exchange

/-!
The values that callers pass and get: C's tagged union, Go's interface values and
Python's objects, and how they become the bytes of a kind.
-/

namespace BpClient.Multi

open BpClient.Lib
open BpClient.Tag (TagError)
open Float.Model (Format UnpackedFloat)

section Floats

/-- A float in another format, to nearest. The canonical NaN stands for the payload of
a converted NaN, which nothing specifies. -/
def convertBits (src dst : Format) (bits : BitVec src.numBits) : BitVec dst.numBits :=
  UnpackedFloat.pack dst (match UnpackedFloat.unpack src bits with
    | .finite sign mantissa exponent _ => UnpackedFloat.round dst sign mantissa exponent
    | x => x)

def narrow (x : UInt64) : UInt32 := ⟨convertBits .binary64 .binary32 x.toBitVec⟩

def widen (x : UInt32) : UInt64 := ⟨convertBits .binary32 .binary64 x.toBitVec⟩

def isInf64 (x : UInt64) : Bool := (UnpackedFloat.unpack .binary64 x.toBitVec).isInf

def isInf32 (x : UInt32) : Bool := (UnpackedFloat.unpack .binary32 x.toBitVec).isInf

/-- The double next to an integer. -/
def nearest64 (n : Int) : UInt64 := ⟨UnpackedFloat.pack .binary64 (UnpackedFloat.ofInt .binary64 n)⟩

/-- A double that is not infinite and becomes infinite as a float. -/
def overflows32 (x : UInt64) : Bool := !isInf64 x && isInf32 (narrow x)

end Floats

/-- What a value is in a destination of some kind: a scalar of the kind, a number
that is too large for it as a float, or neither. -/
inductive Fit
  | scalar (s : Scalar)
  | overflow
  | misfit
  deriving DecidableEq, Repr

def Fit.encoded : Fit → Option (List UInt8)
  | .scalar s => some s.bytes
  | .overflow | .misfit => none

section C

/-- `bp_value_t` of a write; a `boolean` only counts as zero or not. -/
inductive BpValue
  | none | string
  | scalar (s : Scalar)
  deriving DecidableEq, Repr

/-- `bp_st_u32` of the two halves. -/
def stU64 (v : UInt64) : List UInt8 :=
  leBytes 4 v.toUInt32.toNat ++ leBytes 4 (v >>> 32).toUInt32.toNat

def cEncodeScalar (v : BpValue) (expectedSize : UInt32) : Option (List UInt8) :=
  match v with
  | .none | .string => Option.none
  | .scalar s =>
      if expectedSize.toNat ≠ s.kind.size then Option.none
      else
        match s with
        | .lint v => some (stU64 v.toUInt64)
        | .ulint v => some (stU64 v)
        | .lreal bits => some (stU64 bits)
        | s => some s.bytes

/-- The test of `values[i].kind`, and the encoding. -/
def cEncode (kind : Kind) (elemByteSize : UInt32) (v : BpValue) : Option (List UInt8) :=
  match v with
  | .none | .string => Option.none
  | .scalar s => if s.kind ≠ kind then Option.none else cEncodeScalar v elemByteSize

def BpValue.fit (kind : Kind) : BpValue → Fit
  | .none | .string => .misfit
  | .scalar s => if s.kind = kind then .scalar s else .misfit

theorem BpValue.fit_kind {kind : Kind} {v : BpValue} {s : Scalar} (h : v.fit kind = .scalar s) :
    s.kind = kind := by
  cases v with
  | none => cases h
  | string => cases h
  | scalar s' =>
      simp only [BpValue.fit] at h
      split at h
      · next hkind =>
          cases h
          exact hkind
      · cases h

/-- The two halves of C are one store of eight bytes. -/
theorem stU64_eq (v : UInt64) : stU64 v = leBytes 8 v.toNat := by
  have hlo : v.toUInt32.toNat = v.toNat % 256 ^ 4 := UInt64.toNat_toUInt32 v
  have hhi : (v >>> 32).toUInt32.toNat = v.toNat / 256 ^ 4 % 256 ^ 4 := by
    rw [UInt64.toNat_toUInt32, UInt64.toNat_shiftRight, Nat.shiftRight_eq_div_pow]
    rfl
  rw [stU64, hlo, hhi, leBytes_mod, leBytes_mod, ← leBytes_add]

/-- A C value is encoded exactly when it is a scalar of the kind. -/
theorem cEncode_eq {kind : Kind} {elemByteSize : UInt32} (hsize : elemByteSize.toNat = kind.size)
    (v : BpValue) : cEncode kind elemByteSize v = (v.fit kind).encoded := by
  cases v with
  | none => rfl
  | string => rfl
  | scalar s =>
      unfold cEncode BpValue.fit
      by_cases hkind : s.kind = kind
      · subst hkind
        simp only [ne_eq, not_true_eq_false, if_false, if_true, cEncodeScalar, hsize, Fit.encoded]
        cases s <;> simp only [stU64_eq] <;> rfl
      · simp only [ne_eq, hkind, not_false_eq_true, if_true, if_false, Fit.encoded]

end C

section Go

/-- An `interface{}` whose dynamic type is one of the scalar types of Go, or
another. -/
abbrev GoValue := Option Scalar

def goEncodeForKind (kind : Kind) (v : GoValue) : Option (List UInt8) :=
  match kind, v with
  | _, none => none
  | .real, some (.lreal x) => some (leBytes 4 (narrow x).toNat)
  | .lreal, some (.real x) => some (leBytes 8 (widen x).toNat)
  | kind, some s => if s.kind = kind then some s.bytes else none

def GoValue.fit (kind : Kind) (v : GoValue) : Fit :=
  match kind, v with
  | _, none => .misfit
  | .real, some (.lreal x) => if overflows32 x then .overflow else .scalar (.real (narrow x))
  | .lreal, some (.real x) => .scalar (.lreal (widen x))
  | kind, some s => if s.kind = kind then .scalar s else .misfit

theorem GoValue.fit_kind {kind : Kind} {v : GoValue} {s : Scalar} (h : v.fit kind = .scalar s) :
    s.kind = kind := by
  unfold GoValue.fit at h
  split at h
  · cases h
  · split at h
    · cases h
    · cases h
      rfl
  · cases h
    rfl
  · split at h
    · next hkind =>
        cases h
        exact hkind
    · cases h

/-- A Go value is encoded when it is a scalar of the kind; a `float64` that is
too large for a REAL is encoded too. -/
theorem goEncodeForKind_eq (kind : Kind) (v : GoValue) :
    (v.fit kind ≠ .overflow ∧ goEncodeForKind kind v = (v.fit kind).encoded) ∨
      v.fit kind = .overflow ∧ ∃ b, goEncodeForKind kind v = some b ∧ b.length = kind.size := by
  unfold goEncodeForKind
  split
  · exact .inl ⟨Fit.noConfusion, rfl⟩
  · next x =>
      simp only [GoValue.fit]
      by_cases hover : overflows32 x = true
      · rw [if_pos hover]
        exact .inr ⟨rfl, _, rfl, leBytes_length _ _⟩
      · rw [if_neg hover]
        exact .inl ⟨Fit.noConfusion, rfl⟩
  · exact .inl ⟨Fit.noConfusion, rfl⟩
  · next s hreal hlreal =>
      left
      have hfit : GoValue.fit kind (some s) = if s.kind = kind then .scalar s else .misfit := by
        unfold GoValue.fit
        split
        · next h => cases h
        · next h => exact (hreal _ rfl (Option.some.inj h)).elim
        · next h => exact (hlreal _ rfl (Option.some.inj h)).elim
        · next h =>
            cases h
            rfl
      rw [hfit]
      by_cases hkind : s.kind = kind
      · rw [if_pos hkind, if_pos hkind]
        exact ⟨Fit.noConfusion, rfl⟩
      · rw [if_neg hkind, if_neg hkind]
        exact ⟨Fit.noConfusion, rfl⟩

end Go

section Python

/-- A Python object, as far as the code tells objects apart; `bool` is not `int`
here. -/
inductive PyValue
  | bool (v : Bool)
  | int (n : Int)
  | float (bits : UInt64)
  | other
  deriving DecidableEq, Repr

/-- What `_decode_scalar` makes of the unpacked value. -/
def Scalar.toPy : Scalar → PyValue
  | .bool v => .bool v
  | .sint v => .int v.toInt
  | .int v => .int v.toInt
  | .dint v => .int v.toInt
  | .lint v => .int v.toInt
  | .usint v => .int v.toNat
  | .uint v => .int v.toNat
  | .udint v => .int v.toNat
  | .ulint v => .int v.toNat
  | .real bits => .float (widen bits)
  | .lreal bits => .float bits

def pyDecodeScalar (kind : Kind) (b : List UInt8) : PyValue := (goDecodeScalar kind b).toPy

/-- The `ranges` of `_encode_for_kind`: size, least and greatest value. -/
def pyRange : Kind → Option (Nat × Int × Int)
  | .sint => some (1, -2 ^ 7, 2 ^ 7 - 1)
  | .usint => some (1, 0, 2 ^ 8 - 1)
  | .int => some (2, -2 ^ 15, 2 ^ 15 - 1)
  | .uint => some (2, 0, 2 ^ 16 - 1)
  | .dint => some (4, -2 ^ 31, 2 ^ 31 - 1)
  | .udint => some (4, 0, 2 ^ 32 - 1)
  | .lint => some (8, -2 ^ 63, 2 ^ 63 - 1)
  | .ulint => some (8, 0, 2 ^ 64 - 1)
  | .bool | .real | .lreal => none

/-- `struct.pack` of an integer in the range of the format. -/
def packInt (size : Nat) (n : Int) : List UInt8 := leBytes size (n % 256 ^ size).toNat

/-- `struct.pack` of a float as `<f` or `<d`. -/
def packFloat (kind : Kind) (x : UInt64) : Except TagError (List UInt8) :=
  if kind = .real then
    if overflows32 x then .error .overflow else .ok (leBytes 4 (narrow x).toNat)
  else .ok (leBytes 8 x.toNat)

def toFloat : PyValue → Except TagError UInt64
  | .int n => if isInf64 (nearest64 n) then .error .overflow else .ok (nearest64 n)
  | .float bits => .ok bits
  | .bool _ | .other => .error .paramRange

/-- `_encode_for_kind`, which returns bytes or `None`, or raises. -/
def pyEncodeForKind (kind : Kind) (v : PyValue) : Except TagError (Option (List UInt8)) :=
  match kind, v with
  | .bool, .bool v => .ok (some [if v then 1 else 0])
  | .bool, _ => .ok none
  | _, .bool _ => .ok none
  | kind, v =>
      match pyRange kind, v with
      | some (size, lo, hi), .int n =>
          .ok (if n < lo ∨ hi < n then none else some (packInt size n))
      | some _, _ => .ok none
      | none, .other => .ok none
      | none, v => do
          let x ← toFloat v
          let bytes ← packFloat kind x
          .ok (some bytes)

def Scalar.ofInt (kind : Kind) (n : Int) : Option Scalar :=
  match kind with
  | .sint => if -2 ^ 7 ≤ n ∧ n < 2 ^ 7 then some (.sint (.ofInt n)) else none
  | .usint => if 0 ≤ n ∧ n < 2 ^ 8 then some (.usint (.ofInt n)) else none
  | .int => if -2 ^ 15 ≤ n ∧ n < 2 ^ 15 then some (.int (.ofInt n)) else none
  | .uint => if 0 ≤ n ∧ n < 2 ^ 16 then some (.uint (.ofInt n)) else none
  | .dint => if -2 ^ 31 ≤ n ∧ n < 2 ^ 31 then some (.dint (.ofInt n)) else none
  | .udint => if 0 ≤ n ∧ n < 2 ^ 32 then some (.udint (.ofInt n)) else none
  | .lint => if -2 ^ 63 ≤ n ∧ n < 2 ^ 63 then some (.lint (.ofInt n)) else none
  | .ulint => if 0 ≤ n ∧ n < 2 ^ 64 then some (.ulint (.ofInt n)) else none
  | .bool | .real | .lreal => none

def PyValue.fit (kind : Kind) (v : PyValue) : Fit :=
  match kind, v with
  | .bool, .bool v => .scalar (.bool v)
  | .real, .int n =>
      if isInf64 (nearest64 n) || overflows32 (nearest64 n) then .overflow
      else .scalar (.real (narrow (nearest64 n)))
  | .real, .float x => if overflows32 x then .overflow else .scalar (.real (narrow x))
  | .lreal, .int n => if isInf64 (nearest64 n) then .overflow else .scalar (.lreal (nearest64 n))
  | .lreal, .float x => .scalar (.lreal x)
  | kind, .int n => (Scalar.ofInt kind n).elim .misfit .scalar
  | _, _ => .misfit

theorem Scalar.ofInt_kind {kind : Kind} {n : Int} {s : Scalar} (h : Scalar.ofInt kind n = some s) :
    s.kind = kind := by
  cases kind with
  | bool | real | lreal => cases h
  | _ =>
      simp only [Scalar.ofInt] at h
      split at h
      · cases h
        rfl
      · cases h

theorem PyValue.fit_kind {kind : Kind} {v : PyValue} {s : Scalar} (h : v.fit kind = .scalar s) :
    s.kind = kind := by
  unfold PyValue.fit at h
  split at h
  · cases h
    rfl
  · split at h
    · cases h
    · cases h
      rfl
  · split at h
    · cases h
    · cases h
      rfl
  · split at h
    · cases h
    · cases h
      rfl
  · cases h
    rfl
  · next n _ _ =>
      cases hn : Scalar.ofInt kind n with
      | none =>
          rw [hn] at h
          cases h
      | some s' =>
          rw [hn] at h
          cases h
          exact Scalar.ofInt_kind hn
  · cases h

theorem encoded_ofRange {p q : Prop} [Decidable p] [Decidable q] (h : p ↔ ¬ q) {s : Scalar}
    {bytes : List UInt8} (hbytes : s.bytes = bytes) :
    ((if p then some s else none).elim .misfit .scalar : Fit).encoded =
      if q then none else some bytes := by
  by_cases hq : q
  · rw [if_neg fun hp => h.mp hp hq, if_pos hq]
    rfl
  · rw [if_pos (h.mpr hq), if_neg hq, ← hbytes]
    rfl

/-- An integer in the range of a kind is packed as the scalar with its value. -/
theorem ofInt_encoded {kind : Kind} {size : Nat} {lo hi : Int}
    (h : pyRange kind = some (size, lo, hi)) (n : Int) :
    ((Scalar.ofInt kind n).elim .misfit .scalar : Fit).encoded =
      if n < lo ∨ hi < n then none else some (packInt size n) := by
  cases kind with
  | bool | real | lreal => cases h
  | sint =>
      cases h
      exact encoded_ofRange (by omega) (congrArg (leBytes 1) (BitVec.toNat_ofInt (n := 8) n))
  | int =>
      cases h
      exact encoded_ofRange (by omega) (congrArg (leBytes 2) (BitVec.toNat_ofInt (n := 16) n))
  | dint =>
      cases h
      exact encoded_ofRange (by omega) (congrArg (leBytes 4) (BitVec.toNat_ofInt (n := 32) n))
  | lint =>
      cases h
      exact encoded_ofRange (by omega) (congrArg (leBytes 8) (BitVec.toNat_ofInt (n := 64) n))
  | usint =>
      cases h
      exact encoded_ofRange (by omega) (leBytes_mod 1 _)
  | uint =>
      cases h
      exact encoded_ofRange (by omega) (leBytes_mod 2 _)
  | udint =>
      cases h
      exact encoded_ofRange (by omega) (leBytes_mod 4 _)
  | ulint =>
      cases h
      exact encoded_ofRange (by omega) (leBytes_mod 8 _)

theorem pyEncodeForKind_int {kind : Kind} {size : Nat} {lo hi : Int}
    (h : pyRange kind = some (size, lo, hi)) (n : Int) : pyEncodeForKind kind (.int n) =
      .ok ((Scalar.ofInt kind n).elim .misfit .scalar : Fit).encoded := by
  rw [ofInt_encoded h]
  cases kind with
  | bool | real | lreal => cases h
  | _ =>
      cases h
      rfl

theorem elim_ne_overflow (o : Option Scalar) : (o.elim .misfit .scalar : Fit) ≠ .overflow := by
  cases o <;> exact Fit.noConfusion

/-- A Python value is encoded when it fits, and raises when it is too large for a
float. -/
theorem pyEncodeForKind_eq (kind : Kind) (v : PyValue) : pyEncodeForKind kind v =
    if v.fit kind = .overflow then .error .overflow else .ok (v.fit kind).encoded := by
  cases v with
  | bool v => cases v <;> cases kind <;> rfl
  | other => cases kind <;> rfl
  | float x =>
      cases kind with
      | real =>
          unfold pyEncodeForKind PyValue.fit
          by_cases hover : overflows32 x = true
          · simp [pyRange, toFloat, packFloat, hover, bind, Except.bind]
          · simp [pyRange, toFloat, packFloat, hover, bind, Except.bind, Fit.encoded]
            rfl
      | _ => rfl
  | int n =>
      cases kind with
      | bool => rfl
      | real =>
          unfold pyEncodeForKind PyValue.fit
          by_cases hinf : isInf64 (nearest64 n) = true
          · simp [pyRange, toFloat, hinf, bind, Except.bind]
          · by_cases hover : overflows32 (nearest64 n) = true
            · simp [pyRange, toFloat, packFloat, hinf, hover, bind, Except.bind]
            · simp [pyRange, toFloat, packFloat, hinf, hover, bind, Except.bind, Fit.encoded]
              rfl
      | lreal =>
          unfold pyEncodeForKind PyValue.fit
          by_cases hinf : isInf64 (nearest64 n) = true
          · simp [pyRange, toFloat, hinf, bind, Except.bind]
          · simp [pyRange, toFloat, packFloat, hinf, bind, Except.bind, Fit.encoded]
            rfl
      | _ => exact (pyEncodeForKind_int rfl n).trans (if_neg (elim_ne_overflow _)).symm

end Python

end BpClient.Multi
