import BpClient.Lib.Floats
import BpClient.Multi.Value

/-!
The codec of the scalars in the three SDKs: which types of tags they take, and that
what one of them encodes is what all of them encode, and decode again. Python knows a
REAL as a float of twice the size.
-/

namespace BpClient.Multi

open BpClient.Lib
open BpClient.Tag (TagError)
open Float.Model (Format UnpackedFloat)

section Kinds

variable (dataType : UInt16) (elemByteSize : UInt32)

/-- The switch over `data_type & 0x1FFF`. -/
def kindSwitch : Option Kind :=
  let sized (size : UInt32) (kind : Kind) := if elemByteSize = size then some kind else none
  match (dataType &&& 0x1FFF).toNat with
  | 0xC1 => sized 1 .bool
  | 0xC2 => sized 1 .sint
  | 0xC3 => sized 2 .int
  | 0xC4 => sized 4 .dint
  | 0xC5 => sized 8 .lint
  | 0xC6 => sized 1 .usint
  | 0xC7 => sized 2 .uint
  | 0xC8 => sized 4 .udint
  | 0xC9 => sized 8 .ulint
  | 0xCA => sized 4 .real
  | 0xCB => sized 8 .lreal
  | _ => none

def cKindForAtomic : Option Kind := kindSwitch dataType elemByteSize

def goKindForAtomic : Option Kind := kindSwitch dataType elemByteSize

/-- The `table` of `_kind_for_atomic`. -/
def pyKinds : List ((UInt16 × UInt32) × Kind) :=
  [((0xC1, 1), .bool), ((0xC2, 1), .sint), ((0xC6, 1), .usint), ((0xC3, 2), .int),
    ((0xC7, 2), .uint), ((0xC4, 4), .dint), ((0xC8, 4), .udint), ((0xCA, 4), .real),
    ((0xC5, 8), .lint), ((0xC9, 8), .ulint), ((0xCB, 8), .lreal)]

def pyKindForAtomic : Option Kind := pyKinds.lookup (dataType &&& 0x1FFF, elemByteSize)

end Kinds

/-- A case of the switch. -/
theorem sized_eq (n : UInt32) (size : UInt32) (kind : Kind) (h : size.toNat = kind.size) :
    (if n = size then some kind else none) =
      (some kind).filter fun kind => decide (n.toNat = kind.size) := by
  simp only [Option.filter_some, ← h, UInt32.toNat_inj, decide_eq_true_eq]

/-- The entries of a dictionary that have another first part of the key do not count. -/
theorem lookup_filter {α β γ : Type} [DecidableEq α] [DecidableEq β] (l : List ((α × β) × γ)) (a : α)
    (b : β) : l.lookup (a, b) = (l.filter fun e => e.1.1 = a).lookup (a, b) := by
  induction l with
  | nil => rfl
  | cons e l ih =>
      obtain ⟨⟨a', b'⟩, c⟩ := e
      by_cases ha : a' = a
      · rw [List.filter_cons_of_pos (by simpa using ha), List.lookup_cons, List.lookup_cons, ih]
      · have hne : ((a, b) == (a', b')) = false := by
          simp [Ne.symm ha]
        rw [List.filter_cons_of_neg (by simpa using ha), List.lookup_cons, hne]
        exact ih

theorem lookup_one {α β γ : Type} [DecidableEq α] [DecidableEq β] (a : α) (b b' : β) (c : γ) :
    [((a, b'), c)].lookup (a, b) = if b = b' then some c else none := by
  by_cases h : b = b'
  · subst h
    rw [List.lookup_cons_self, if_pos rfl]
  · have hne : ((a, b) == (a, b')) = false := by
      simp [h]
    rw [List.lookup_cons, hne, if_neg h]
    rfl

/-- Types that no case is about. -/
theorem codes_le : (∀ e ∈ typeCodes, 0xC1 ≤ e.1.toNat ∧ e.1.toNat ≤ 0xCB) ∧
    ∀ e ∈ pyKinds, 0xC1 ≤ e.1.1.toNat ∧ e.1.1.toNat ≤ 0xCB := by
  decide

theorem ofNat_of_toNat {t : UInt16} {n : Nat} (h : t.toNat = n) : t = UInt16.ofNat n := by
  rw [← h, UInt16.ofNat_toNat]

theorem kindSwitch_eq (dataType : UInt16) (elemByteSize : UInt32) :
    kindSwitch dataType elemByteSize = kindForAtomic dataType elemByteSize := by
  unfold kindSwitch kindForAtomic
  generalize dataType &&& 0x1FFF = t
  split
  case h_12 =>
    have hnone : typeCodes.lookup t = none := by
      rw [List.lookup_eq_none_iff]
      intro e he
      obtain ⟨hlow, hhigh⟩ := codes_le.1 e he
      rw [bne_iff_ne]
      rintro rfl
      simp only [imp_false] at *
      omega
    rw [hnone]
    rfl
  all_goals
    next h =>
    rw [ofNat_of_toNat h]
    exact sized_eq elemByteSize _ _ rfl

/-- Python's table gives the kinds of the switch. -/
theorem pyKindForAtomic_eq (dataType : UInt16) (elemByteSize : UInt32) :
    pyKindForAtomic dataType elemByteSize = kindSwitch dataType elemByteSize := by
  unfold pyKindForAtomic kindSwitch
  generalize dataType &&& 0x1FFF = t
  rw [lookup_filter]
  split
  case h_12 =>
    have hnil : (pyKinds.filter fun e => e.1.1 = t) = [] := by
      rw [List.filter_eq_nil_iff]
      intro e he
      obtain ⟨hlow, hhigh⟩ := codes_le.2 e he
      rw [decide_eq_true_eq]
      rintro rfl
      simp only [imp_false] at *
      omega
    rw [hnil]
    rfl
  all_goals
    next h =>
    rw [ofNat_of_toNat h]
    exact lookup_one _ elemByteSize _ _

section Floats

variable {src dst : Format}

/-- A float that is converted to a wider format and back is the float itself, and it is
infinite there when it is. -/
theorem convertBits_back (h : Wider src dst) {b : BitVec src.numBits}
    (hnan : UnpackedFloat.unpack src b ≠ .notANumber) :
    convertBits dst src (convertBits src dst b) = b ∧
      (UnpackedFloat.unpack dst (convertBits src dst b)).isInf =
        (UnpackedFloat.unpack src b).isInf := by
  have hback := pack_unpack h.one_lt hnan
  have hdst : 1 < dst.exponentBits := h.one_lt.trans_le h.exponent
  unfold convertBits
  cases hb : UnpackedFloat.unpack src b with
  | notANumber => exact absurd hb hnan
  | infinity s =>
      rw [hb] at hback
      simp only [UnpackedFloat.pack] at hback ⊢
      rw [unpack_packedInfinity]
      exact ⟨hback, rfl⟩
  | zero s =>
      rw [hb] at hback
      simp only [UnpackedFloat.pack] at hback ⊢
      rw [unpack_packedZero]
      exact ⟨hback, rfl⟩
  | finite s m e hm =>
      rw [hb] at hback
      obtain ⟨hcanon, hrange, -⟩ := unpack_finite h.one_lt hb
      obtain ⟨k, hpos, hround, hcanon', hrange'⟩ := h.round_eq s hm hcanon hrange
      simp only [hround, unpack_pack_finite hdst s hpos hcanon' hrange']
      rw [round_exact s hm hcanon k]
      exact ⟨hback, rfl⟩

theorem wider_binary64 : Wider .binary32 .binary64 := ⟨by decide, by decide, by decide⟩

theorem narrow_widen {x : UInt32} (hnan : UnpackedFloat.unpack .binary32 x.toBitVec ≠ .notANumber) :
    narrow (widen x) = x ∧ overflows32 (widen x) = false := by
  obtain ⟨hback, hinf⟩ := convertBits_back wider_binary64 hnan
  have hnarrow : narrow (widen x) = x := UInt32.toBitVec_inj.mp hback
  refine ⟨hnarrow, ?_⟩
  rw [overflows32, hnarrow, isInf64, isInf32]
  change (!(UnpackedFloat.unpack .binary64 (convertBits .binary32 .binary64 x.toBitVec)).isInf && _) = _
  rw [hinf, Bool.not_and_self]

end Floats

def Scalar.isNaN : Scalar → Bool
  | .real bits => (UnpackedFloat.unpack .binary32 bits.toBitVec).isNaN
  | .lreal bits => (UnpackedFloat.unpack .binary64 bits.toBitVec).isNaN
  | .bool _ | .sint _ | .int _ | .dint _ | .lint _ | .usint _ | .uint _ | .udint _ | .ulint _ => false

theorem fit_of_range {p : Prop} [Decidable p] (h : p) {s s' : Scalar} (heq : s' = s) :
    ((if p then some s' else none).elim .misfit .scalar : Fit) = .scalar s := by
  rw [if_pos h, heq]
  rfl

/-- Python's value is encoded as the scalar. -/
theorem toPy_fit {s : Scalar} (hnan : s.isNaN = false) : s.toPy.fit s.kind = .scalar s := by
  cases s with
  | bool v => rfl
  | real bits =>
      have hne : UnpackedFloat.unpack .binary32 bits.toBitVec ≠ .notANumber := by
        intro h
        rw [Scalar.isNaN, h] at hnan
        cases hnan
      obtain ⟨hnarrow, hover⟩ := narrow_widen hne
      simp [Scalar.toPy, Scalar.kind, PyValue.fit, hover, hnarrow]
  | lreal bits => rfl
  | sint v => exact fit_of_range ⟨v.le_toInt, v.toInt_lt⟩ (congrArg Scalar.sint v.ofInt_toInt)
  | int v => exact fit_of_range ⟨v.le_toInt, v.toInt_lt⟩ (congrArg Scalar.int v.ofInt_toInt)
  | dint v => exact fit_of_range ⟨v.le_toInt, v.toInt_lt⟩ (congrArg Scalar.dint v.ofInt_toInt)
  | lint v => exact fit_of_range ⟨v.le_toInt, v.toInt_lt⟩ (congrArg Scalar.lint v.ofInt_toInt)
  | usint v =>
      have hrange : (0 : Int) ≤ v.toNat ∧ (v.toNat : Int) < 2 ^ 8 :=
        ⟨Int.natCast_nonneg _, mod_cast v.toNat_lt⟩
      have hvalue : UInt8.ofInt v.toNat = v := by
        rw [UInt8.ofInt, Int.emod_eq_of_lt hrange.1 hrange.2, Int.toNat_natCast, UInt8.ofNat_toNat]
      simp only [Scalar.toPy, Scalar.kind, PyValue.fit, Scalar.ofInt, if_pos hrange, hvalue]
      rfl
  | uint v =>
      have hrange : (0 : Int) ≤ v.toNat ∧ (v.toNat : Int) < 2 ^ 16 :=
        ⟨Int.natCast_nonneg _, mod_cast v.toNat_lt⟩
      have hvalue : UInt16.ofInt v.toNat = v := by
        rw [UInt16.ofInt, Int.emod_eq_of_lt hrange.1 hrange.2, Int.toNat_natCast, UInt16.ofNat_toNat]
      simp only [Scalar.toPy, Scalar.kind, PyValue.fit, Scalar.ofInt, if_pos hrange, hvalue]
      rfl
  | udint v =>
      have hrange : (0 : Int) ≤ v.toNat ∧ (v.toNat : Int) < 2 ^ 32 :=
        ⟨Int.natCast_nonneg _, mod_cast v.toNat_lt⟩
      have hvalue : UInt32.ofInt v.toNat = v := by
        rw [UInt32.ofInt, Int.emod_eq_of_lt hrange.1 hrange.2, Int.toNat_natCast, UInt32.ofNat_toNat]
      simp only [Scalar.toPy, Scalar.kind, PyValue.fit, Scalar.ofInt, if_pos hrange, hvalue]
      rfl
  | ulint v =>
      have hrange : (0 : Int) ≤ v.toNat ∧ (v.toNat : Int) < 2 ^ 64 :=
        ⟨Int.natCast_nonneg _, mod_cast v.toNat_lt⟩
      have hvalue : UInt64.ofInt v.toNat = v := by
        rw [UInt64.ofInt, Int.emod_eq_of_lt hrange.1 hrange.2, Int.toNat_natCast, UInt64.ofNat_toNat]
      simp only [Scalar.toPy, Scalar.kind, PyValue.fit, Scalar.ofInt, if_pos hrange, hvalue]
      rfl

structure EncodesAs (kind : Kind) (elemByteSize : UInt32) (s : Scalar) (bytes : List UInt8) : Prop where
  c : cEncodeScalar (.scalar s) elemByteSize = some bytes
  go : goEncodeForKind kind (some s) = some bytes
  python : pyEncodeForKind kind s.toPy = .ok (some bytes)

structure DecodesAs (kind : Kind) (bytes : List UInt8) (s : Scalar) : Prop where
  c : cDecodeScalar kind bytes = s
  go : goDecodeScalar kind bytes = s
  python : pyDecodeScalar kind bytes = s.toPy

/-- The bytes that the value of some bytes is encoded as. -/
def normalized (kind : Kind) (bytes : List UInt8) : List UInt8 :=
  if kind = .bool ∧ bytes ≠ [0] then [1] else bytes

section Codec

variable {kind : Kind} {elemByteSize : UInt32} {s : Scalar} {bytes : List UInt8}

theorem decodes (h : goDecodeScalar kind bytes = s) : DecodesAs kind bytes s where
  c := cDecodeScalar_eq ▸ h
  go := h
  python := congrArg Scalar.toPy h

theorem encodes (hkind : s.kind = kind) (hsize : elemByteSize.toNat = kind.size)
    (hnan : s.isNaN = false) : EncodesAs kind elemByteSize s s.bytes := by
  subst hkind
  refine ⟨?_, ?_, ?_⟩
  · have hc := cEncode_eq hsize (.scalar s)
    simpa [cEncode, BpValue.fit, Fit.encoded] using hc
  · cases s <;> rfl
  · rw [pyEncodeForKind_eq, toPy_fit hnan]
    rfl

theorem Scalar.ofBits_kind (kind : Kind) (n : Nat) : (Scalar.ofBits kind n).kind = kind := by
  cases kind <;> rfl

theorem Scalar.bits_ofBits (hkind : kind ≠ .bool) {n : Nat} (hn : n < 256 ^ kind.size) :
    (Scalar.ofBits kind n).bits = n := by
  cases kind with
  | bool => exact absurd rfl hkind
  | sint | usint => exact UInt8.toNat_ofNat_of_lt' hn
  | int | uint => exact UInt16.toNat_ofNat_of_lt' hn
  | dint | udint | real => exact UInt32.toNat_ofNat_of_lt' hn
  | lint | ulint | lreal => exact UInt64.toNat_ofNat_of_lt' hn

/-- What bytes are decoded as has the bytes again. -/
theorem ofBits_bytes (hlength : bytes.length = kind.size) :
    (goDecodeScalar kind bytes).kind = kind ∧
      (goDecodeScalar kind bytes).bytes = normalized kind bytes := by
  have hload : load kind.size bytes = leNat bytes := by
    rw [load, List.take_of_length_le hlength.le]
  have hlt : leNat bytes < 256 ^ kind.size := hlength ▸ leNat_lt bytes
  rw [goDecodeScalar_eq, hload]
  refine ⟨Scalar.ofBits_kind kind _, ?_⟩
  by_cases hkind : kind = .bool
  · subst hkind
    obtain ⟨b, rfl⟩ := List.length_eq_one_iff.mp hlength
    have hone : leNat [b] = b.toNat := by simp [leNat]
    by_cases hzero : b = 0
    · subst hzero
      rfl
    · have hne : b.toNat ≠ 0 := fun h => hzero (UInt8.toNat_inj.mp h)
      rw [hone, normalized, if_pos ⟨rfl, by simpa using hzero⟩]
      simp [Scalar.bytes, Scalar.ofBits, Scalar.kind, Scalar.bits, hne, Kind.size, leBytes]
  · rw [Scalar.bytes, Scalar.ofBits_kind, Scalar.bits_ofBits hkind hlt, normalized,
      if_neg fun h => hkind h.1, ← hlength, leBytes_leNat]

/-- The codec of the scalars. The SDKs take the same types and sizes for the same kinds;
each value of a kind but NaN has an encoding of the size, the same in all of them, which
they decode as the value; and what they decode bytes as they encode as these bytes,
where for a BOOL all bytes but 0 are 1. -/
theorem scalar_codec (dataType : UInt16) (elemByteSize : UInt32) :
    cKindForAtomic dataType elemByteSize = goKindForAtomic dataType elemByteSize ∧
      goKindForAtomic dataType elemByteSize = pyKindForAtomic dataType elemByteSize ∧
      ∀ kind, cKindForAtomic dataType elemByteSize = some kind →
        (∀ s : Scalar, s.kind = kind → s.isNaN = false →
          ∃ bytes, bytes.length = elemByteSize.toNat ∧ EncodesAs kind elemByteSize s bytes ∧
            DecodesAs kind bytes s) ∧
        ∀ bytes, bytes.length = elemByteSize.toNat →
          ∃ s : Scalar, s.kind = kind ∧ DecodesAs kind bytes s ∧
            (s.isNaN = false → EncodesAs kind elemByteSize s (normalized kind bytes)) := by
  refine ⟨rfl, (pyKindForAtomic_eq dataType elemByteSize).symm, fun kind hkind => ?_⟩
  have hsize : elemByteSize.toNat = kind.size := by
    rw [cKindForAtomic, kindSwitch_eq, kindForAtomic, Option.filter_eq_some_iff] at hkind
    exact of_decide_eq_true hkind.2
  constructor
  · rintro s rfl hnan
    exact ⟨s.bytes, s.bytes_length.trans hsize.symm, encodes rfl hsize hnan,
      decodes (goDecodeScalar_bytes s)⟩
  · intro bytes hlength
    obtain ⟨hs, hbytes⟩ := ofBits_bytes (hlength.trans hsize)
    refine ⟨goDecodeScalar kind bytes, hs, decodes rfl, fun hnan => ?_⟩
    rw [← hbytes]
    exact encodes hs hsize hnan

/-- A REAL: one and a half. -/
theorem scalar_codec_real :
    EncodesAs .real 4 (.real 0x3FC00000) [0x00, 0x00, 0xC0, 0x3F] ∧
      DecodesAs .real [0x00, 0x00, 0xC0, 0x3F] (.real 0x3FC00000) := by
  obtain ⟨-, -, hcodec⟩ := scalar_codec 0xCA 4
  obtain ⟨bytes, -, hencodes, hdecodes⟩ :=
    (hcodec .real (by decide)).1 (.real 0x3FC00000) rfl (by decide)
  have hbytes : bytes = [0x00, 0x00, 0xC0, 0x3F] :=
    Option.some.inj (hencodes.c.symm.trans (by decide))
  exact hbytes ▸ ⟨hencodes, hdecodes⟩

end Codec

end BpClient.Multi
