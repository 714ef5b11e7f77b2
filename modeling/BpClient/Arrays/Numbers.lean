import BpClient.Arrays.Store
import BpClient.Multi.Codec

/-!
The typed helpers for numbers and arrays of numbers (`c/src/access.c`,
`go/ocxbp/access.go`, `go/ocxbp/access_arrays.go`,
`python/src/bpclient/tagdb.py`). An array that one SDK has written is read back by
all of them, or it is refused before anything is sent.
-/

namespace BpClient.Arrays

open BpClient.Lib
open BpClient.Multi
open BpClient.Slot (Sdk)
open BpClient.Tag

/-- What the helpers for a kind pass as type code and element size. -/
structure Elem where
  dataType : UInt16
  byteSize : UInt16

/-- The arguments of `DEFINE_RW` and `DEFINE_ARR`, of `scalarRW` and `arrayRW`, of
`_scalar_rw` and `_array_rw`. -/
def elem : Kind → Elem
  | .bool => ⟨0xC1, 1⟩
  | .sint => ⟨0xC2, 1⟩
  | .int => ⟨0xC3, 2⟩
  | .dint => ⟨0xC4, 4⟩
  | .lint => ⟨0xC5, 8⟩
  | .usint => ⟨0xC6, 1⟩
  | .uint => ⟨0xC7, 2⟩
  | .udint => ⟨0xC8, 4⟩
  | .ulint => ⟨0xC9, 8⟩
  | .real => ⟨0xCA, 4⟩
  | .lreal => ⟨0xCB, 8⟩

theorem elem_byteSize (kind : Kind) : (elem kind).byteSize.toNat = kind.size := by
  cases kind <;> rfl

def numberRequest (kind : Kind) (name : List UInt8) (action n : UInt16) (data : List UInt8) :
    TagRequest :=
  ⟨name, (elem kind).dataType, (elem kind).byteSize, action, n, some data⟩

structure Numbers (kind : Kind) where
  vals : List Scalar
  typed : ∀ s ∈ vals, s.kind = kind

def Numbers.bytes {kind : Kind} (a : Numbers kind) : List UInt8 := a.vals.flatMap Scalar.bytes

section C

/-- An array and its `uint16_t count`. -/
structure CNumbers (kind : Kind) extends Numbers kind where
  length_lt : vals.length < 2 ^ 16

def CNumbers.count {kind : Kind} (a : CNumbers kind) : UInt16 := UInt16.ofNat a.vals.length

def cElements (kind : Kind) (count : Nat) (data : List UInt8) : List Scalar :=
  (List.range count).map fun i => Scalar.ofBits kind (leField (i * kind.size) kind.size data)

end C

section Go

/-- The loop that stores the numbers from element `i` on; `PutUint16` and its siblings
panic behind the end of the buffer. -/
def goPutNumbers (size i : Nat) (buf : List UInt8) : List Scalar → Option (List UInt8)
  | [] => some buf
  | s :: ss =>
      if i * size + size ≤ buf.length then
        goPutNumbers size (i + 1) (buf.take (i * size) ++ s.bytes ++ buf.drop (i * size + size)) ss
      else none

def goElements (kind : Kind) (count : Nat) (data : List UInt8) : List Scalar :=
  (List.range count).map fun i => goDecodeScalar kind (data.drop (i * kind.size))

end Go

section Python

inductive PyFault
  | call (f : Fault)
  /-- `struct.pack`, or `bytes`, has raised. -/
  | pack
  deriving DecidableEq, Repr

/-- What `struct.pack` takes for a number: `True` is 1. -/
def number : PyValue → PyValue
  | .bool v => .int (if v then 1 else 0)
  | v => v

/-- `struct.pack` of one value, and `bytes` of one for a USINT. -/
def structPack (kind : Kind) (v : PyValue) : Option (List UInt8) :=
  match pyRange kind, number v with
  | some (size, lo, hi), .int n => if n < lo ∨ hi < n then none else some (packInt size n)
  | some _, _ => none
  | none, v => ((toFloat v).bind (packFloat kind)).toOption

def packArray (kind : Kind) (vals : List PyValue) : Option (List UInt8) :=
  (vals.mapM (structPack kind)).map List.flatten

def unpackArray (kind : Kind) (count : Nat) (data : List UInt8) : List PyValue :=
  (List.range count).map fun i => pyDecodeScalar kind ((data.drop (i * kind.size)).take kind.size)

end Python

section Calls

variable {σ : Type} (e : Engine σ) (slots : Slots) (kind : Kind)

/-- `bp_tagdb_write_sint_array` and its siblings -/
def cWriteArray (path name : List UInt8) (a : CNumbers kind) (w : World σ) :
    Except Fault Unit × World σ :=
  Prod.map (Except.map fun _ => ()) id
    (arrayRw e slots (.c path) (numberRequest kind name actionWrite a.count a.bytes) w)

/-- `bp_tagdb_read_sint_array` and its siblings, with what is in the memory at `out`
before the call -/
def cReadArray (path name : List UInt8) (out : Nat → UInt8) (count : UInt16) (w : World σ) :
    Except Fault (List Scalar) × World σ :=
  Prod.map (Except.map (cElements kind count.toNat)) id
    (arrayRw e slots (.c path)
      (numberRequest kind name actionRead count (firstBytes (count.toNat * kind.size) out)) w)

/-- `WriteSINTArray` and its siblings -/
def goWriteArray (path name : List UInt8) (a : Numbers kind) (w : World σ) :
    Except Fault Unit × World σ :=
  if a.vals.length = 0 ∨ 0xFFFF < a.vals.length then (.error (.error .paramRange), w)
  else
    match goPutNumbers kind.size 0 (zeros (a.vals.length * kind.size)) a.vals with
    | none => (.error .panics, w)
    | some buf =>
        Prod.map (Except.map fun _ => ()) id
          (arrayRw e slots (.go path)
            (numberRequest kind name actionWrite (UInt16.ofNat a.vals.length) buf) w)

def goReadArray (path name : List UInt8) (count : UInt16) (w : World σ) :
    Except Fault (List Scalar) × World σ :=
  Prod.map (Except.map (goElements kind count.toNat)) id
    (arrayRw e slots (.go path)
      (numberRequest kind name actionRead count (zeros (count.toNat * kind.size))) w)

def pyArrayRw (path : TagPath) (name : List UInt8) (action : UInt16) (count : Int)
    (data : List UInt8) (w : World σ) : Except PyFault (List UInt8) × World σ :=
  if count ≤ 0 ∨ 0xFFFF < count then (.error (.call (.error .paramRange)), w)
  else
    Prod.map (Except.mapError .call) id
      (arrayRw e slots (.python path)
        (numberRequest kind name action (UInt16.ofNat count.toNat) data) w)

/-- `write_sint_array` and its siblings -/
def pyWriteArray (path : TagPath) (name : List UInt8) (vals : List PyValue) (w : World σ) :
    Except PyFault Unit × World σ :=
  match packArray kind vals with
  | none => (.error .pack, w)
  | some data =>
      Prod.map (Except.map fun _ => ()) id
        (pyArrayRw e slots kind path name actionWrite vals.length data w)

def pyReadArray (path : TagPath) (name : List UInt8) (count : Int) (w : World σ) :
    Except PyFault (List PyValue) × World σ :=
  Prod.map (Except.map (unpackArray kind count.toNat)) id
    (pyArrayRw e slots kind path name actionRead count (zeros (count.toNat * kind.size)) w)

end Calls

section Bytes

variable {kind : Kind}

theorem flatMap_bytes_length {vals : List Scalar} (h : ∀ s ∈ vals, s.kind = kind) :
    (vals.flatMap Scalar.bytes).length = vals.length * kind.size := by
  induction vals with
  | nil => simp
  | cons s ss ih =>
      rw [List.forall_mem_cons] at h
      rw [List.flatMap_cons, List.length_append, ih h.2, s.bytes_length, h.1, List.length_cons,
        Nat.succ_mul, Nat.add_comm]

@[simp] theorem Numbers.bytes_length (a : Numbers kind) :
    a.bytes.length = a.vals.length * kind.size :=
  flatMap_bytes_length a.typed

/-- A number is found where it has been put. -/
theorem leField_flatMap {vals : List Scalar} (h : ∀ s ∈ vals, s.kind = kind) {i : Nat}
    (hi : i < vals.length) :
    leField (i * kind.size) kind.size (vals.flatMap Scalar.bytes) = vals[i].bits := by
  induction vals generalizing i with
  | nil => cases hi
  | cons s ss ih =>
      rw [List.forall_mem_cons] at h
      obtain ⟨hs, hrest⟩ := h
      rw [List.flatMap_cons]
      cases i with
      | zero =>
          have hempty : ([] : List UInt8).length = 0 * kind.size := by simp
          have hlt : s.bits < 256 ^ kind.size := hs ▸ s.bits_lt
          have hbytes : s.bytes = leBytes kind.size s.bits := by rw [Scalar.bytes, hs]
          rw [hbytes]
          exact leField_append hempty hlt
      | succ i =>
          have hdrop : (s.bytes ++ ss.flatMap Scalar.bytes).drop ((i + 1) * kind.size) =
              (ss.flatMap Scalar.bytes).drop (i * kind.size) := by
            rw [Nat.succ_mul, Nat.add_comm, ← List.drop_drop,
              List.drop_left' (by rw [s.bytes_length, hs])]
          rw [leField, hdrop, ← leField, ih hrest (by simpa using hi)]
          rfl

theorem ofBits_of_kind {s : Scalar} (h : s.kind = kind) : Scalar.ofBits kind s.bits = s := by
  subst h
  exact s.ofBits_bits

/-- The elements of the bytes of numbers are the numbers. -/
theorem cElements_bytes (a : Numbers kind) : cElements kind a.vals.length a.bytes = a.vals := by
  refine List.ext_getElem (by simp [cElements]) fun i hi hi' => ?_
  simp only [cElements, List.getElem_map, List.getElem_range]
  rw [Numbers.bytes, leField_flatMap a.typed hi', ofBits_of_kind (a.typed _ (List.getElem_mem hi'))]

theorem goElements_eq (kind : Kind) (count : Nat) (data : List UInt8) :
    goElements kind count data = cElements kind count data :=
  List.map_congr_left fun i _ => goDecodeScalar_eq kind (data.drop (i * kind.size))

theorem unpackArray_eq (kind : Kind) (count : Nat) (data : List UInt8) :
    unpackArray kind count data = (cElements kind count data).map Scalar.toPy := by
  rw [unpackArray, cElements, List.map_map]
  refine List.map_congr_left fun i _ => ?_
  rw [pyDecodeScalar, goDecodeScalar_eq, load, List.take_take, Nat.min_self]
  rfl

/-- Go's loop when it has come to the elements in `todo`. -/
theorem goPutNumbers_eq (done : List Scalar) {todo : List Scalar}
    (hdone : ∀ s ∈ done, s.kind = kind) (htodo : ∀ s ∈ todo, s.kind = kind) :
    goPutNumbers kind.size done.length
        (done.flatMap Scalar.bytes ++ zeros (todo.length * kind.size)) todo =
      some ((done ++ todo).flatMap Scalar.bytes) := by
  induction todo generalizing done with
  | nil => simp [goPutNumbers, zeros]
  | cons s ss ih =>
      rw [List.forall_mem_cons] at htodo
      obtain ⟨hs, hss⟩ := htodo
      have hlen := flatMap_bytes_length hdone
      have hsplit : zeros ((s :: ss).length * kind.size) =
          zeros kind.size ++ zeros (ss.length * kind.size) := by
        rw [List.length_cons, Nat.succ_mul, Nat.add_comm, zeros, List.replicate_add]
        rfl
      have hroom : done.length * kind.size + kind.size ≤
          (done.flatMap Scalar.bytes ++ zeros ((s :: ss).length * kind.size)).length := by
        rw [List.length_append, hlen, zeros_length, List.length_cons, Nat.succ_mul]
        omega
      have htake : (done.flatMap Scalar.bytes ++ zeros ((s :: ss).length * kind.size)).take
          (done.length * kind.size) = done.flatMap Scalar.bytes := List.take_left' hlen
      have hdrop : (done.flatMap Scalar.bytes ++ zeros ((s :: ss).length * kind.size)).drop
          (done.length * kind.size + kind.size) = zeros (ss.length * kind.size) := by
        rw [← List.drop_drop, List.drop_left' hlen, hsplit, List.drop_left' (zeros_length _)]
      have hnext : ∀ s' ∈ done ++ [s], s'.kind = kind := by
        intro s' hs'
        rcases List.mem_append.mp hs' with hs' | hs'
        · exact hdone s' hs'
        · rw [List.mem_singleton.mp hs', hs]
      have hbytes : done.flatMap Scalar.bytes ++ s.bytes = (done ++ [s]).flatMap Scalar.bytes := by
        rw [List.flatMap_append, List.flatMap_singleton]
      have hcount : done.length + 1 = (done ++ [s]).length := by
        rw [List.length_append, List.length_singleton]
      rw [goPutNumbers, if_pos hroom, htake, hdrop, hbytes, hcount, ih _ hnext hss,
        List.append_assoc, List.singleton_append]

theorem goPutNumbers_bytes (a : Numbers kind) :
    goPutNumbers kind.size 0 (zeros (a.vals.length * kind.size)) a.vals = some a.bytes :=
  goPutNumbers_eq [] (fun _ h => absurd h List.not_mem_nil) a.typed

end Bytes

section Packing

variable {kind : Kind}

/-- A value that fits is packed as the scalar, and no other is packed. -/
theorem structPack_eq (hkind : kind ≠ .bool) (v : PyValue) :
    structPack kind v = (PyValue.fit kind (number v)).encoded := by
  unfold structPack
  generalize hv : number v = u
  cases u with
  | bool b => cases v <;> cases hv
  | other => cases kind <;> rfl
  | float x =>
      cases kind with
      | bool => exact absurd rfl hkind
      | real =>
          simp only [pyRange, toFloat, Except.bind, packFloat, if_true, PyValue.fit]
          by_cases hover : overflows32 x = true
          · simp only [hover, if_true]
            rfl
          · simp only [hover]
            rfl
      | _ => rfl
  | int n =>
      cases kind with
      | bool => exact absurd rfl hkind
      | real =>
          simp only [pyRange, toFloat, PyValue.fit]
          by_cases hinf : isInf64 (nearest64 n) = true
          · simp [hinf]
            rfl
          · by_cases hover : overflows32 (nearest64 n) = true
            · simp [hinf, hover, Except.bind, packFloat]
              rfl
            · simp [hinf, hover, Except.bind, packFloat]
              rfl
      | lreal =>
          simp only [pyRange, toFloat, PyValue.fit]
          by_cases hinf : isInf64 (nearest64 n) = true
          · simp [hinf]
            rfl
          · simp [hinf, Except.bind, packFloat]
            rfl
      | _ => exact (ofInt_encoded rfl n).symm

def Fits (vals : List PyValue) (a : Numbers kind) : Prop :=
  List.Forall₂ (fun v s => PyValue.fit kind (number v) = .scalar s) vals a.vals

theorem packArray_eq (hkind : kind ≠ .bool) {vals : List PyValue} {a : Numbers kind}
    (h : Fits vals a) : packArray kind vals = some a.bytes := by
  obtain ⟨ss, htyped⟩ := a
  unfold Fits at h
  simp only [packArray, Numbers.bytes, Option.map_eq_some_iff] at h ⊢
  clear htyped
  induction h with
  | nil => exact ⟨[], rfl, rfl⟩
  | @cons v s vals ss hfit _ ih =>
      obtain ⟨packed, hpacked, hflat⟩ := ih
      refine ⟨s.bytes :: packed, ?_, ?_⟩
      · rw [List.mapM_cons, structPack_eq hkind, hfit, hpacked]
        rfl
      · rw [List.flatten_cons, hflat, List.flatMap_cons]

theorem structPack_of_misfit (hkind : kind ≠ .bool) {v : PyValue}
    (hmisfit : ∀ s, PyValue.fit kind (number v) ≠ .scalar s) : structPack kind v = none := by
  rw [structPack_eq hkind]
  cases hfit : PyValue.fit kind (number v) with
  | scalar s => exact absurd hfit (hmisfit s)
  | overflow => rfl
  | misfit => rfl

/-- One value that does not fit, and nothing is packed. -/
theorem packArray_of_misfit (hkind : kind ≠ .bool) {vals : List PyValue} {v : PyValue} (hv : v ∈ vals)
    (hmisfit : ∀ s, PyValue.fit kind (number v) ≠ .scalar s) : packArray kind vals = none := by
  have hpack : structPack kind v = none := structPack_of_misfit hkind hmisfit
  rw [packArray, Option.map_eq_none_iff]
  induction vals with
  | nil => cases hv
  | cons v' vals ih =>
      rw [List.mapM_cons]
      rcases List.mem_cons.mp hv with rfl | hv
      · rw [hpack]
        rfl
      · rw [ih hv]
        cases structPack kind v' <;> rfl

end Packing

section Written

variable {σ : Type} {e : Engine σ} {slots : Slots} {db : TagDb} {kind : Kind} {w : World σ}

def Countable (a : Numbers kind) : Prop := 1 ≤ a.vals.length ∧ a.vals.length ≤ 0xFFFF

def Numbers.sentCount (a : Numbers kind) : UInt16 := UInt16.ofNat a.vals.length

theorem Countable.toNat {a : Numbers kind} (h : Countable a) : a.sentCount.toNat = a.vals.length :=
  UInt16.toNat_ofNat_of_lt' (Nat.lt_succ_of_le h.2)

theorem Countable.arrayRw_eq {a : Numbers kind} (h : Countable a) (name : List UInt8) (action : UInt16)
    (data : List UInt8) : arrayRw e slots db (numberRequest kind name action a.sentCount data) w =
      single e slots db (numberRequest kind name action a.sentCount data) w := by
  refine if_neg fun hzero => ?_
  have hcount : a.sentCount = 0 := hzero
  have hlen := h.toNat
  rw [hcount, UInt16.toNat_zero] at hlen
  have := h.1
  omega

theorem Countable.not_refused {a : Numbers kind} (h : Countable a) :
    ¬(a.vals.length = 0 ∨ 0xFFFF < a.vals.length) := by
  obtain ⟨hpos, hle⟩ := h
  omega

theorem Countable.not_refused_int {a : Numbers kind} (h : Countable a) :
    ¬((a.vals.length : Int) ≤ 0 ∨ 0xFFFF < (a.vals.length : Int)) := by
  obtain ⟨hpos, hle⟩ := h
  omega

def Numbers.write (a : Numbers kind) (name : List UInt8) : TagRequest :=
  numberRequest kind name actionWrite a.sentCount a.bytes

theorem goWriteArray_eq {a : Numbers kind} (h : Countable a) (path name : List UInt8) :
    goWriteArray e slots kind path name a w =
      Prod.map (Except.map fun _ => ()) id (single e slots (.go path) (a.write name) w) := by
  rw [goWriteArray, if_neg h.not_refused, goPutNumbers_bytes]
  exact congrArg (Prod.map (Except.map fun _ => ()) id) (h.arrayRw_eq name actionWrite a.bytes)

theorem cWriteArray_eq {a : CNumbers kind} (h : Countable a.toNumbers) (path name : List UInt8) :
    cWriteArray e slots kind path name a w =
      Prod.map (Except.map fun _ => ()) id (single e slots (.c path) (a.write name) w) :=
  congrArg _ (h.arrayRw_eq name actionWrite a.bytes)

theorem pyArrayRw_eq {a : Numbers kind} (h : Countable a) (path : TagPath) (name : List UInt8)
    (action : UInt16) (data : List UInt8) :
    pyArrayRw e slots kind path name action a.vals.length data w =
      Prod.map (Except.mapError .call) id
        (single e slots (.python path) (numberRequest kind name action a.sentCount data) w) := by
  rw [pyArrayRw, if_neg h.not_refused_int]
  exact congrArg _ (h.arrayRw_eq name action data)

theorem pyWriteArray_eq (hkind : kind ≠ .bool) {a : Numbers kind} (h : Countable a) (path : TagPath)
    (name : List UInt8) {vals : List PyValue} (hfits : Fits vals a) :
    pyWriteArray e slots kind path name vals w =
      Prod.map (Except.map fun _ => ()) id (Prod.map (Except.mapError .call) id
        (single e slots (.python path) (a.write name) w)) := by
  have hlen : (vals.length : Int) = a.vals.length := congrArg Int.ofNat hfits.length_eq
  rw [pyWriteArray, packArray_eq hkind hfits]
  simp only [hlen, pyArrayRw_eq h]
  rfl

/-- Every SDK writes the numbers, and all of them leave the same world behind. -/
structure Written (e : Engine σ) (slots : Slots) (name : TagName) (a : Numbers kind) (w w' : World σ) :
    Prop where
  c : ∀ path (h : a.vals.length < 2 ^ 16), cWriteArray e slots kind path name.bytes ⟨a, h⟩ w = (.ok (), w')
  go : ∀ path, goWriteArray e slots kind path name.bytes a w = (.ok (), w')
  python : ∀ path vals, Fits vals a → pyWriteArray e slots kind path name.bytes vals w = (.ok (), w')

structure Readable (e : Engine σ) (slots : Slots) (name : TagName) (a : Numbers kind) (w : World σ) :
    Prop where
  c : ∀ path out, (cReadArray e slots kind path name.bytes out a.sentCount w).1 = .ok a.vals
  go : ∀ path, (goReadArray e slots kind path name.bytes a.sentCount w).1 = .ok a.vals
  python : ∀ path, (pyReadArray e slots kind path name.bytes a.vals.length w).1 =
    .ok (a.vals.map Scalar.toPy)

structure Refused (e : Engine σ) (slots : Slots) (name : TagName) (a : Numbers kind) (w : World σ) :
    Prop where
  c : ∀ path (h : a.vals.length < 2 ^ 16),
    ∃ err, cWriteArray e slots kind path name.bytes ⟨a, h⟩ w = (.error err, w)
  go : ∃ err, ∀ path, goWriteArray e slots kind path name.bytes a w = (.error err, w)
  python : ∃ err, ∀ path vals, Fits vals a →
    pyWriteArray e slots kind path name.bytes vals w = (.error err, w)

/-- A request that has no room in a slot is not sent. -/
theorem single_of_no_room {r : TagRequest} (h : ¬Room (r.elemByteSize.toNat * r.elemCount.toNat)) :
    single e slots db r w = (.error (.error .slotTooLarge), w) := by
  have hsize := Nat.mul_le_mul (Nat.le_of_lt_succ r.elemByteSize.toNat_lt)
    (Nat.le_of_lt_succ r.elemCount.toNat_lt)
  have hover : slotStride - 0x80 <
      0x2A0 + (1 - 1) * 0x120 + (r.elemByteSize.toNat * r.elemCount.toNat + 0) := by
    simp only [Room] at h
    omega
  have hlt : 0x2A0 + (1 - 1) * 0x120 + (r.elemByteSize.toNat * r.elemCount.toNat + 0) < 2 ^ 32 := by
    omega
  have hone : [r].length ≤ 16 := by simp
  have hcall : db.call [r] = .error .slotTooLarge := by
    cases db with
    | c path =>
        rw [TagDb.call, bpTagdbAccess, Format.call_of_gt (f := cAccess path) le_rfl hone hover hlt]
        rfl
    | go path =>
        rw [TagDb.call, tagDBAccess, Format.call_of_gt (f := goAccess path) le_rfl hone hover hlt]
        rfl
    | python path =>
        rw [TagDb.call, tagDbAccessPy, Format.pyCall_of_gt (f := pyAccess path) le_rfl hone hover]
        rfl
  rw [single, Engine.access, hcall]
  rfl

theorem Countable.size {a : Numbers kind} (h : Countable a) (name : List UInt8) (action : UInt16)
    (data : List UInt8) : (numberRequest kind name action a.sentCount data).elemByteSize.toNat *
      (numberRequest kind name action a.sentCount data).elemCount.toNat = a.bytes.length := by
  rw [a.bytes_length, Nat.mul_comm, ← h.toNat, ← elem_byteSize]
  rfl

/-- Numbers that are stored are read. -/
theorem readable_of_stored (m : TagStore e) (name : TagName) {a : Numbers kind} (h : Countable a)
    (hroom : Room a.bytes.length) (hcap : a.bytes.length ≤ m.cap name.sent)
    (hstored : firstBytes a.bytes.length (m.bytes w.engine name.sent) = a.bytes) (slots : Slots) :
    Readable e slots name a w := by
  have hread : ∀ db (data : List UInt8), data.length = a.bytes.length →
      (single e slots db (numberRequest kind name.bytes actionRead a.sentCount data) w).1 =
        .ok a.bytes := by
    intro db data hlen
    have hsize := h.size name.bytes actionRead data
    obtain ⟨hsingle, -⟩ := m.read_stored slots db w
      (numberRequest kind name.bytes actionRead a.sentCount data) name rfl rfl rfl
      (hlen.trans hsize.symm) (hlen ▸ hroom) (hlen ▸ hcap)
    rw [hsingle, hlen, hstored]
  have hzeros : (zeros (a.vals.length * kind.size)).length = a.bytes.length := by
    rw [zeros_length, a.bytes_length]
  constructor
  · intro path out
    have hmemory : (firstBytes (a.vals.length * kind.size) out).length = a.bytes.length := by
      rw [firstBytes_length, a.bytes_length]
    rw [cReadArray, h.toNat, h.arrayRw_eq, Prod.map_fst, hread _ _ hmemory]
    exact congrArg Except.ok (cElements_bytes a)
  · intro path
    rw [goReadArray, h.toNat, h.arrayRw_eq, Prod.map_fst, hread _ _ hzeros]
    exact congrArg Except.ok ((goElements_eq ..).trans (cElements_bytes a))
  · intro path
    rw [pyReadArray, Int.toNat_natCast, pyArrayRw_eq h, Prod.map_fst, Prod.map_fst, hread _ _ hzeros]
    refine congrArg Except.ok ((unpackArray_eq ..).trans ?_)
    rw [cElements_bytes]

def Numbers.stored (a : Numbers kind) (e : Engine σ) (name : TagName) (w : World σ) : World σ :=
  after e [{ a.write name.bytes with tagName := name.sent }.wire] w

theorem write_stored (m : TagStore e) (name : TagName) {a : Numbers kind} (h : Countable a)
    (hroom : Room a.bytes.length) (hcap : a.bytes.length ≤ m.cap name.sent) (w : World σ)
    (slots : Slots) (db : TagDb) :
    single e slots db (a.write name.bytes) w = (.ok a.bytes, a.stored e name w) ∧
      m.bytes (a.stored e name w).engine = Function.update (m.bytes w.engine) name.sent
        (overwrite a.bytes (m.bytes w.engine name.sent)) :=
  m.write_stored slots db w (a.write name.bytes) name rfl rfl rfl
    (h.size name.bytes actionWrite a.bytes).symm hroom hcap

theorem stored_bytes (m : TagStore e) (name : TagName) {a : Numbers kind} (h : Countable a)
    (hroom : Room a.bytes.length) (hcap : a.bytes.length ≤ m.cap name.sent) (w : World σ) :
    m.bytes (a.stored e name w).engine = Function.update (m.bytes w.engine) name.sent
      (overwrite a.bytes (m.bytes w.engine name.sent)) :=
  (write_stored m name h hroom hcap w clearSlots (.c [])).2

theorem written_of_room (m : TagStore e) (hkind : kind ≠ .bool) (name : TagName) {a : Numbers kind}
    (h : Countable a) (hroom : Room a.bytes.length) (hcap : a.bytes.length ≤ m.cap name.sent)
    (w : World σ) (slots : Slots) : Written e slots name a w (a.stored e name w) := by
  have hwrite := fun db => (write_stored m name h hroom hcap w slots db).1
  constructor
  · intro path hlt
    rw [cWriteArray_eq h, hwrite]
    rfl
  · intro path
    rw [goWriteArray_eq h, hwrite]
    rfl
  · intro path vals hfits
    rw [pyWriteArray_eq hkind h path name.bytes hfits, hwrite]
    rfl

/-- Go refuses what cannot be counted in 16 bits, and so does Python. -/
theorem refused_of_count {a : Numbers kind} (hkind : kind ≠ .bool) (h : ¬Countable a) (slots : Slots)
    (name : TagName) (w : World σ) : Refused e slots name a w := by
  have hcount : a.vals.length = 0 ∨ 0xFFFF < a.vals.length := by
    simp only [Countable] at h
    omega
  have hint : (a.vals.length : Int) ≤ 0 ∨ 0xFFFF < (a.vals.length : Int) := by omega
  constructor
  · intro path hlt
    have hzero : a.vals.length = 0 := by omega
    have hsent : (CNumbers.mk a hlt).count = 0 := by
      rw [CNumbers.count, hzero]
      rfl
    refine ⟨.error .nullArg, ?_⟩
    rw [cWriteArray, arrayRw, if_pos (show (numberRequest kind name.bytes actionWrite
      (CNumbers.mk a hlt).count _).elemCount = 0 from hsent)]
    rfl
  · refine ⟨.error .paramRange, fun path => ?_⟩
    rw [goWriteArray, if_pos hcount]
  · refine ⟨.call (.error .paramRange), fun path vals hfits => ?_⟩
    have hlen : (vals.length : Int) = a.vals.length := congrArg Int.ofNat hfits.length_eq
    have hrefused : pyArrayRw e slots kind path name.bytes actionWrite vals.length a.bytes w =
        (.error (.call (.error .paramRange)), w) := by rw [pyArrayRw, hlen, if_pos hint]
    rw [pyWriteArray, packArray_eq hkind hfits]
    simp only [hrefused]
    rfl

/-- Numbers that no slot has room for are refused before anything is sent. -/
theorem refused_of_no_room {a : Numbers kind} (hkind : kind ≠ .bool) (h : Countable a)
    (hroom : ¬Room a.bytes.length) (slots : Slots) (name : TagName) (w : World σ) :
    Refused e slots name a w := by
  have hwrite : ∀ db, single e slots db (a.write name.bytes) w = (.error (.error .slotTooLarge), w) := by
    intro db
    apply single_of_no_room
    rw [Numbers.write, h.size]
    exact hroom
  constructor
  · intro path hlt
    refine ⟨.error .slotTooLarge, ?_⟩
    rw [cWriteArray_eq h, hwrite]
    rfl
  · refine ⟨.error .slotTooLarge, fun path => ?_⟩
    rw [goWriteArray_eq h, hwrite]
    rfl
  · refine ⟨.call (.error .slotTooLarge), fun path vals hfits => ?_⟩
    rw [pyWriteArray_eq hkind h path name.bytes hfits, hwrite]
    rfl

/-- An array of numbers. When there are from 1 to 65535 of them and a slot has room for
them, every SDK that writes them to a tag of their size or more sends one request and
leaves the same world behind, in which the tag begins with them, no other tag has changed
and every SDK reads them. With another count, or without room in a slot, no SDK sends
anything, and Python does not when it is given a value that does not fit. -/
theorem numbers_read_back (m : TagStore e) (hkind : kind ≠ .bool) (name : TagName) (a : Numbers kind)
    (w : World σ) :
    (Countable a ∧ Room a.bytes.length → a.bytes.length ≤ m.cap name.sent →
      ∃ w' : World σ, (∀ slots, Written e slots name a w w') ∧
      (∃ request answers, w'.log = w.log ++ [([request], answers)] ∧
        request.tagName = name.sent ∧ request.data = some a.bytes) ∧
      (∀ other, other ≠ name.sent → m.bytes w'.engine other = m.bytes w.engine other) ∧
      firstBytes a.bytes.length (m.bytes w'.engine name.sent) = a.bytes ∧
      ∀ slots, Readable e slots name a w') ∧
    (¬(Countable a ∧ Room a.bytes.length) → ∀ slots, Refused e slots name a w) ∧
    ∀ slots path vals, (∃ v ∈ vals, ∀ s, PyValue.fit kind (number v) ≠ .scalar s) →
      pyWriteArray e slots kind path name.bytes vals w = (.error .pack, w) := by
  refine ⟨?_, ?_, ?_⟩
  · rintro ⟨hcount, hroom⟩ hcap
    have hbytes := stored_bytes m name hcount hroom hcap w
    have hstored : firstBytes a.bytes.length (m.bytes (a.stored e name w).engine name.sent) =
        a.bytes := by
      rw [hbytes, Function.update_self, firstBytes_overwrite]
    refine ⟨a.stored e name w, written_of_room m hkind name hcount hroom hcap w,
      ⟨_, _, rfl, rfl, rfl⟩, fun other hother => ?_, hstored, ?_⟩
    · rw [hbytes, Function.update_of_ne hother]
    · exact readable_of_stored m name hcount hroom hcap hstored
  · intro hrefused slots
    by_cases hcount : Countable a
    · exact refused_of_no_room hkind hcount (fun hroom => hrefused ⟨hcount, hroom⟩) slots name w
    · exact refused_of_count hkind hcount slots name w
  · rintro slots path vals ⟨v, hv, hmisfit⟩
    rw [pyWriteArray, packArray_of_misfit hkind hv hmisfit]

def twoInts : Numbers .int := ⟨[.int (-2), .int 3], by simp [Scalar.kind]⟩

/-- They are written to a tag of four bytes. -/
theorem numbers_read_back_two :
    ∃ w' : World (List UInt8 → Nat → UInt8),
      (∀ slots, Written (memoryEngine fun _ => 4) slots tagB twoInts ⟨fun _ _ => 0, []⟩ w') ∧
      (∃ request answers, w'.log = [([request], answers)] ∧
        request.data = some [0xFE, 0xFF, 3, 0]) ∧
      ∀ slots, Readable (memoryEngine fun _ => 4) slots tagB twoInts w' := by
  have hkind : Kind.int ≠ .bool := by decide
  have hbytes : twoInts.bytes = [0xFE, 0xFF, 3, 0] := by decide
  obtain ⟨hwritten, -, -⟩ := numbers_read_back (memoryStore fun _ => 4) hkind tagB twoInts
    ⟨fun _ _ => 0, []⟩
  obtain ⟨w', hwritten, ⟨request, answers, hlog, -, hdata⟩, -, -, hread⟩ :=
    hwritten ⟨⟨by decide, by decide⟩, by decide⟩ (by decide)
  exact ⟨w', hwritten, ⟨request, answers, hlog, hbytes ▸ hdata⟩, hread⟩

end Written

end BpClient.Arrays
