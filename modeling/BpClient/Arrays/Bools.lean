import BpClient.Arrays.Store
import Mathlib.Data.Nat.Bitwise

/-!
`write_bool_array` and `read_bool_array` (`c/src/access.c`,
`go/ocxbp/access_arrays.go`, `python/src/bpclient/tagdb.py`): an array of
booleans travels as DWORDs of 32 bits.
-/

namespace BpClient.Arrays

open BpClient.Lib
open BpClient.Multi (clearSlots)
open BpClient.Slot (Sdk)
open BpClient.Tag

def typeBitArray : UInt16 := 0xD3

def dwordRequest (name : List UInt8) (action n : UInt16) (data : List UInt8) : TagRequest :=
  ⟨name, typeBitArray, 4, action, n, some data⟩

section C

/-- `dwords_for_bits`; the sum is made in 32 bits. -/
def dwordsForBits (count : UInt16) : UInt16 := ((count.toUInt32 + 31) / 32).toUInt16

def setBits (i : Nat) (dwords : List UInt32) : List Bool → List UInt32
  | [] => dwords
  | v :: vs =>
      setBits (i + 1)
        (if v then dwords.modify (i >>> 5) (· ||| (1 <<< UInt32.ofNat (i &&& 31))) else dwords) vs

def dwordBytes (dwords : List UInt32) : List UInt8 := dwords.flatMap fun d => leBytes 4 d.toNat

def dwordsAt (n : Nat) (data : List UInt8) : List UInt32 :=
  (List.range n).map fun j => UInt32.ofNat (leField (4 * j) 4 data)

def cUnpack (n count : Nat) (data : List UInt8) : List Bool :=
  (List.range count).map fun i =>
    ((dwordsAt n data).getD (i >>> 5) 0 >>> UInt32.ofNat (i &&& 31)) &&& 1 ≠ 0

end C

section Go

/-- `dwordsForBits`, in 16 bits throughout. -/
def goDwordsForBits (count : UInt16) : UInt16 := (count + 31) / 32

/-- `binary.LittleEndian.Uint32(buf[off:])` and `PutUint32`, which panic behind
the end of the buffer. -/
def goSetBit (buf : List UInt8) (i : Nat) : Option (List UInt8) :=
  let off := i / 32 * 4
  if off + 4 ≤ buf.length then
    let word := UInt32.ofNat (leField off 4 buf) ||| (1 <<< UInt32.ofNat (i &&& 31))
    some (buf.take off ++ leBytes 4 word.toNat ++ buf.drop (off + 4))
  else none

def goSetBits (i : Nat) (buf : List UInt8) : List Bool → Option (List UInt8)
  | [] => some buf
  | v :: vs => (if v then goSetBit buf i else some buf).bind fun buf => goSetBits (i + 1) buf vs

def goUnpack (count : Nat) (data : List UInt8) : List Bool :=
  (List.range count).map fun i =>
    UInt32.ofNat (leField (i / 32 * 4) 4 data) &&& (1 <<< UInt32.ofNat (i &&& 31)) ≠ 0

end Go

section Python

def pyDwordsForBits (count : Nat) : Nat := (count + 31) / 32

def pySetBits (i : Nat) (dwords : List Nat) : List Bool → List Nat
  | [] => dwords
  | v :: vs =>
      pySetBits (i + 1) (if v then dwords.modify (i / 32) (· ||| 1 <<< (i &&& 31)) else dwords) vs

/-- `struct.pack(f"<{n_dwords}I", *dwords)`, which raises when a number is too
large. -/
def packDwords (dwords : List Nat) : Option (List UInt8) :=
  if ∀ d ∈ dwords, d < 2 ^ 32 then some (dwords.flatMap (leBytes 4)) else none

def pyUnpack (n count : Nat) (data : List UInt8) : List Bool :=
  (List.range count).map fun i =>
    (((List.range n).map fun j => leField (4 * j) 4 data).getD (i / 32) 0 >>> (i &&& 31)) &&& 1 ≠ 0

end Python

section Packing

theorem getD_modify {α : Type} (l : List α) (f : α → α) (d : α) {i j : Nat} (hj : j < l.length) :
    (l.modify i f).getD j d = if i = j then f (l.getD j d) else l.getD j d := by
  rw [List.getD_eq_getElem?_getD, List.getD_eq_getElem?_getD, List.getElem?_modify,
    List.getElem?_eq_getElem hj]
  split <;> rfl

theorem toNat_bit {k : Nat} (hk : k < 32) : ((1 : UInt32) <<< UInt32.ofNat k).toNat = 2 ^ k := by
  rw [UInt32.toNat_shiftLeft, UInt32.toNat_ofNat_of_lt' (by simp only [UInt32.size]; omega),
    Nat.mod_eq_of_lt hk]
  change (1 <<< k) % 2 ^ 32 = 2 ^ k
  rw [Nat.one_shiftLeft, Nat.mod_eq_of_lt (Nat.pow_lt_pow_right (by decide) hk)]

theorem testBit_setBit (d : UInt32) {k b : Nat} (hk : k < 32) :
    (d ||| (1 <<< UInt32.ofNat k)).toNat.testBit b = (d.toNat.testBit b || decide (k = b)) := by
  rw [UInt32.toNat_or, toNat_bit hk, Nat.testBit_or, Nat.testBit_two_pow]

@[simp] theorem setBits_length (i : Nat) (dwords : List UInt32) (vals : List Bool) :
    (setBits i dwords vals).length = dwords.length := by
  induction vals generalizing i dwords with
  | nil => rfl
  | cons v vs ih =>
      rw [setBits, ih]
      split
      · exact List.length_modify ..
      · rfl

/-- The loop sets the bits of the elements that it comes to, and leaves the
others. -/
theorem setBits_testBit (i : Nat) (dwords : List UInt32) (vals : List Bool) {j b : Nat}
    (hj : j < dwords.length) (hb : b < 32) :
    ((setBits i dwords vals).getD j 0).toNat.testBit b =
      ((dwords.getD j 0).toNat.testBit b ||
        (decide (i ≤ 32 * j + b) && vals.getD (32 * j + b - i) false)) := by
  induction vals generalizing i dwords with
  | nil => simp [setBits]
  | cons v vs ih =>
      have hshift : i >>> 5 = i / 32 := Nat.shiftRight_eq_div_pow i 5
      have hmask : i &&& 31 = i % 32 := Nat.and_two_pow_sub_one_eq_mod i 5
      have hbit : ((if v then dwords.modify (i >>> 5) (· ||| (1 <<< UInt32.ofNat (i &&& 31)))
          else dwords).getD j 0).toNat.testBit b =
          ((dwords.getD j 0).toNat.testBit b || (v && decide (i = 32 * j + b))) := by
        cases v with
        | false => simp
        | true =>
            rw [if_pos rfl, getD_modify _ _ _ hj, hshift, hmask]
            by_cases hi : i / 32 = j
            · have heq : i % 32 = b ↔ i = 32 * j + b := by omega
              rw [if_pos hi, testBit_setBit _ (Nat.mod_lt _ (by decide))]
              simp only [heq, Bool.true_and]
            · have hne : i ≠ 32 * j + b := by omega
              simp [hi, hne]
      rw [setBits, ih _ _ (by split <;> simpa using hj), hbit, Bool.or_assoc]
      congr 1
      rcases Nat.lt_trichotomy i (32 * j + b) with hlt | rfl | hgt
      · have hsub : 32 * j + b - i = 32 * j + b - (i + 1) + 1 := by omega
        have hne : i ≠ 32 * j + b := by omega
        simp [hne, hsub, Nat.succ_le_of_lt hlt, hlt.le]
      · simp
      · have hne : i ≠ 32 * j + b := by omega
        have hle : ¬ i ≤ 32 * j + b := by omega
        have hle' : ¬ i + 1 ≤ 32 * j + b := by omega
        simp [hne, hle, hle']

@[simp] theorem dwordBytes_length (dwords : List UInt32) :
    (dwordBytes dwords).length = 4 * dwords.length := by
  simp [dwordBytes, List.length_flatMap, Nat.mul_comm]

theorem dwordBytes_cons (d : UInt32) (ds : List UInt32) :
    dwordBytes (d :: ds) = leBytes 4 d.toNat ++ dwordBytes ds := rfl

/-- A DWORD is found where it has been put. -/
theorem leField_dwordBytes {dwords : List UInt32} {j : Nat} (hj : j < dwords.length) :
    leField (4 * j) 4 (dwordBytes dwords) = (dwords.getD j 0).toNat := by
  induction dwords generalizing j with
  | nil => cases hj
  | cons d ds ih =>
      rw [dwordBytes_cons]
      cases j with
      | zero =>
          have hempty : ([] : List UInt8).length = 0 := rfl
          exact leField_append hempty d.toNat_lt
      | succ j =>
          have hdrop : (leBytes 4 d.toNat ++ dwordBytes ds).drop (4 * (j + 1)) =
              (dwordBytes ds).drop (4 * j) := by
            rw [Nat.mul_succ, Nat.add_comm, ← List.drop_drop, List.drop_left' (leBytes_length _ _)]
          rw [leField, hdrop, ← leField, ih (by simpa using hj)]
          rfl

theorem dwordBytes_replicate (n : Nat) : dwordBytes (List.replicate n 0) = zeros (4 * n) := by
  induction n with
  | zero => rfl
  | succ n ih =>
      have hhead : leBytes 4 (0 : UInt32).toNat = zeros 4 := rfl
      rw [List.replicate_succ, dwordBytes_cons, ih, hhead, zeros, zeros, zeros,
        List.replicate_append_replicate, Nat.mul_succ, Nat.add_comm 4]

theorem dwordBytes_append (ds ds' : List UInt32) :
    dwordBytes (ds ++ ds') = dwordBytes ds ++ dwordBytes ds' := List.flatMap_append

/-- A DWORD that is changed is changed in the bytes. -/
theorem dwordBytes_modify {dwords : List UInt32} (f : UInt32 → UInt32) {j : Nat}
    (hj : j < dwords.length) : dwordBytes (dwords.modify j f) =
      (dwordBytes dwords).take (j * 4) ++ leBytes 4 (f (dwords.getD j 0)).toNat ++
        (dwordBytes dwords).drop (j * 4 + 4) := by
  have hget : dwords.getD j 0 = dwords[j] := by
    rw [List.getD_eq_getElem?_getD, List.getElem?_eq_getElem hj, Option.getD_some]
  have hfront : (dwordBytes (dwords.take j)).length = j * 4 := by
    rw [dwordBytes_length, List.length_take, Nat.min_eq_left hj.le, Nat.mul_comm]
  have hsplit : dwordBytes dwords = dwordBytes (dwords.take j) ++
      (leBytes 4 dwords[j].toNat ++ dwordBytes (dwords.drop (j + 1))) := by
    rw [← dwordBytes_cons, ← dwordBytes_append, List.getElem_cons_drop, List.take_append_drop]
  have htail : (dwordBytes dwords).drop (j * 4 + 4) = dwordBytes (dwords.drop (j + 1)) := by
    rw [hsplit, ← List.append_assoc]
    exact List.drop_left' (by rw [List.length_append, hfront, leBytes_length])
  have hhead : (dwordBytes dwords).take (j * 4) = dwordBytes (dwords.take j) := by
    rw [hsplit]
    exact List.take_left' hfront
  rw [List.modify_eq_take_cons_drop hj, dwordBytes_append, dwordBytes_cons, hget, hhead, htail,
    List.append_assoc]

/-- Go's loop on the bytes does what C's does on the DWORDs, while it stays in
the buffer. -/
theorem goSetBit_eq {dwords : List UInt32} {i : Nat} (hi : i / 32 < dwords.length) :
    goSetBit (dwordBytes dwords) i = some (dwordBytes
      (dwords.modify (i >>> 5) (· ||| (1 <<< UInt32.ofNat (i &&& 31))))) := by
  have hshift : i >>> 5 = i / 32 := Nat.shiftRight_eq_div_pow i 5
  have hroom : i / 32 * 4 + 4 ≤ (dwordBytes dwords).length := by
    rw [dwordBytes_length]
    omega
  have hfield := leField_dwordBytes hi
  rw [Nat.mul_comm] at hfield
  rw [hshift, dwordBytes_modify _ hi]
  simp only [goSetBit, hroom, if_true, hfield, UInt32.ofNat_toNat]

theorem goSetBits_eq {dwords : List UInt32} {i : Nat} {vals : List Bool}
    (h : (i + vals.length + 31) / 32 ≤ dwords.length) :
    goSetBits i (dwordBytes dwords) vals = some (dwordBytes (setBits i dwords vals)) := by
  induction vals generalizing i dwords with
  | nil => rfl
  | cons v vs ih =>
      rw [List.length_cons] at h
      have hi : i / 32 < dwords.length := by omega
      rw [goSetBits, setBits]
      cases v with
      | false => exact ih (by omega)
      | true =>
          rw [if_pos rfl, if_pos rfl, goSetBit_eq hi, Option.bind_some]
          apply ih
          rw [List.length_modify]
          omega

/-- Python's numbers are C's. -/
theorem pySetBits_eq (i : Nat) (dwords : List UInt32) (vals : List Bool) :
    pySetBits i (dwords.map UInt32.toNat) vals = (setBits i dwords vals).map UInt32.toNat := by
  induction vals generalizing i dwords with
  | nil => rfl
  | cons v vs ih =>
      have hshift : i >>> 5 = i / 32 := Nat.shiftRight_eq_div_pow i 5
      have hmask : i &&& 31 < 32 := by
        rw [Nat.and_two_pow_sub_one_eq_mod i 5]
        exact Nat.mod_lt _ (by decide)
      rw [pySetBits, setBits, ← ih]
      cases v with
      | false => rfl
      | true =>
          rw [if_pos rfl, if_pos rfl, hshift]
          congr 1
          refine List.ext_getElem (by simp) fun j hj hj' => ?_
          simp only [List.getElem_modify, List.getElem_map]
          split
          · rw [UInt32.toNat_or, toNat_bit hmask]
            exact congrArg (_ ||| ·) (Nat.one_shiftLeft _)
          · rfl

theorem packDwords_eq (dwords : List UInt32) :
    packDwords (dwords.map UInt32.toNat) = some (dwordBytes dwords) := by
  have hall : ∀ d ∈ dwords.map UInt32.toNat, d < 2 ^ 32 := by
    intro d hd
    obtain ⟨d, -, rfl⟩ := List.mem_map.mp hd
    exact d.toNat_lt
  rw [packDwords, if_pos hall, List.flatMap_map]
  rfl

end Packing

section Unpacking

def element (data : List UInt8) (i : Nat) : Bool := (leField (i / 32 * 4) 4 data).testBit (i % 32)

theorem shiftRight_and_one (n k : Nat) : decide ((n >>> k) &&& 1 ≠ 0) = n.testBit k := by
  rw [Nat.and_one_is_mod, Nat.testBit_eq_decide_div_mod_eq, Nat.shiftRight_eq_div_pow]
  exact decide_eq_decide.mpr (by omega)

theorem leField_lt (off width : Nat) (data : List UInt8) : leField off width data < 256 ^ width := by
  apply (leNat_lt _).trans_le
  exact Nat.pow_le_pow_right (by decide) (List.length_take_le _ _)

theorem toNat_leField (off : Nat) (data : List UInt8) :
    (UInt32.ofNat (leField off 4 data)).toNat = leField off 4 data :=
  UInt32.toNat_ofNat_of_lt' (leField_lt off 4 data)

/-- C's loop reads the elements, as long as the DWORDs have them. -/
theorem cUnpack_eq {n count : Nat} (h : count ≤ 32 * n) (data : List UInt8) :
    cUnpack n count data = (List.range count).map (element data) := by
  refine List.map_congr_left fun i hi => ?_
  have hi := List.mem_range.mp hi
  have hshift : i >>> 5 = i / 32 := Nat.shiftRight_eq_div_pow i 5
  have hmask : i &&& 31 = i % 32 := Nat.and_two_pow_sub_one_eq_mod i 5
  have hmod : i % 32 < 32 := Nat.mod_lt _ (by decide)
  have hlt : i / 32 < (dwordsAt n data).length := by
    simp only [dwordsAt, List.length_map, List.length_range]
    omega
  have hdword : (dwordsAt n data).getD (i / 32) 0 = UInt32.ofNat (leField (i / 32 * 4) 4 data) := by
    rw [List.getD_eq_getElem?_getD, List.getElem?_eq_getElem hlt, Option.getD_some]
    simp only [dwordsAt, List.getElem_map, List.getElem_range, Nat.mul_comm]
  rw [hshift, hmask, hdword, element, ← shiftRight_and_one]
  apply decide_eq_decide.mpr
  rw [ne_eq, ne_eq, ← UInt32.toNat_inj, UInt32.toNat_and, UInt32.toNat_shiftRight, toNat_leField,
    UInt32.toNat_ofNat_of_lt' (by simp only [UInt32.size]; omega), Nat.mod_eq_of_lt hmod]
  rfl

theorem goUnpack_eq (count : Nat) (data : List UInt8) :
    goUnpack count data = (List.range count).map (element data) := by
  refine List.map_congr_left fun i _ => ?_
  have hmask : i &&& 31 = i % 32 := Nat.and_two_pow_sub_one_eq_mod i 5
  have hmod : i % 32 < 32 := Nat.mod_lt _ (by decide)
  have hbit : ∀ n k : Nat, decide (n &&& 2 ^ k ≠ 0) = n.testBit k := by
    intro n k
    rw [Nat.and_two_pow]
    cases n.testBit k <;> simp
  rw [hmask, element, ← hbit]
  apply decide_eq_decide.mpr
  rw [ne_eq, ← UInt32.toNat_inj, UInt32.toNat_and, toNat_leField, toNat_bit hmod]
  rfl

theorem pyUnpack_eq {n count : Nat} (h : count ≤ 32 * n) (data : List UInt8) :
    pyUnpack n count data = (List.range count).map (element data) := by
  refine List.map_congr_left fun i hi => ?_
  have hi := List.mem_range.mp hi
  have hmask : i &&& 31 = i % 32 := Nat.and_two_pow_sub_one_eq_mod i 5
  have hlt : i / 32 < ((List.range n).map fun j => leField (4 * j) 4 data).length := by
    rw [List.length_map, List.length_range]
    omega
  have hdword : ((List.range n).map fun j => leField (4 * j) 4 data).getD (i / 32) 0 =
      leField (i / 32 * 4) 4 data := by
    rw [List.getD_eq_getElem?_getD, List.getElem?_eq_getElem hlt, Option.getD_some]
    simp only [List.getElem_map, List.getElem_range, Nat.mul_comm]
  rw [hmask, hdword, element, ← shiftRight_and_one]

end Unpacking

section Calls

variable {σ : Type} (e : Engine σ) (slots : Slots)

/-- An array and its `uint16_t count`; an element is true when its byte is not
zero. -/
structure CBools where
  vals : List Bool
  length_lt : vals.length < 2 ^ 16

def CBools.count (a : CBools) : UInt16 := UInt16.ofNat a.vals.length

def bpTagdbWriteBoolArray (path name : List UInt8) (array : CBools) (w : World σ) :
    Except Fault Unit × World σ :=
  if array.count = 0 then (.error (.error .nullArg), w)
  else
    let n := dwordsForBits array.count
    let dwords := setBits 0 (List.replicate n.toNat 0) array.vals
    Prod.map (Except.map fun _ => ()) id
      (single e slots (.c path) (dwordRequest name actionWrite n (dwordBytes dwords)) w)

def bpTagdbReadBoolArray (path name : List UInt8) (count : UInt16) (w : World σ) :
    Except Fault (List Bool) × World σ :=
  if count = 0 then (.error (.error .nullArg), w)
  else
    let n := dwordsForBits count
    Prod.map (Except.map (cUnpack n.toNat count.toNat)) id
      (single e slots (.c path) (dwordRequest name actionRead n (zeros (4 * n.toNat))) w)

def goWriteBOOLArray (path name : List UInt8) (vals : List Bool) (w : World σ) :
    Except Fault Unit × World σ :=
  if vals.length = 0 ∨ 0xFFFF < vals.length then (.error (.error .paramRange), w)
  else
    let n := goDwordsForBits (UInt16.ofNat vals.length)
    match goSetBits 0 (zeros (n.toNat * 4)) vals with
    | none => (.error .panics, w)
    | some buf =>
        Prod.map (Except.map fun _ => ()) id
          (arrayRw e slots (.go path) (dwordRequest name actionWrite n buf) w)

def goReadBOOLArray (path name : List UInt8) (count : UInt16) (w : World σ) :
    Except Fault (List Bool) × World σ :=
  if count = 0 then (.error (.error .paramRange), w)
  else
    let n := goDwordsForBits count
    Prod.map (Except.map (goUnpack count.toNat)) id
      (arrayRw e slots (.go path) (dwordRequest name actionRead n (zeros (n.toNat * 4))) w)

def pyWriteBoolArray (path : TagPath) (name : List UInt8) (vals : List Bool) (w : World σ) :
    Except Fault Unit × World σ :=
  if vals.length = 0 ∨ 0xFFFF < vals.length then (.error (.error .paramRange), w)
  else
    let n := pyDwordsForBits vals.length
    match packDwords (pySetBits 0 (List.replicate n 0) vals) with
    | none => (.error (.error .overflow), w)
    | some packed =>
        Prod.map (Except.map fun _ => ()) id
          (arrayRw e slots (.python path) (dwordRequest name actionWrite (UInt16.ofNat n) packed) w)

def pyReadBoolArray (path : TagPath) (name : List UInt8) (count : Nat) (w : World σ) :
    Except Fault (List Bool) × World σ :=
  if count = 0 ∨ 0xFFFF < count then (.error (.error .paramRange), w)
  else
    let n := pyDwordsForBits count
    Prod.map (Except.map (pyUnpack n count)) id
      (arrayRw e slots (.python path)
        (dwordRequest name actionRead (UInt16.ofNat n) (zeros (n * 4))) w)

def writeBoolArray (db : TagDb) (name : List UInt8) (array : CBools) (w : World σ) :
    Except Fault Unit × World σ :=
  match db with
  | .c path => bpTagdbWriteBoolArray e slots path name array w
  | .go path => goWriteBOOLArray e slots path name array.vals w
  | .python path => pyWriteBoolArray e slots path name array.vals w

def readBoolArray (db : TagDb) (name : List UInt8) (count : UInt16) (w : World σ) :
    Except Fault (List Bool) × World σ :=
  match db with
  | .c path => bpTagdbReadBoolArray e slots path name count w
  | .go path => goReadBOOLArray e slots path name count w
  | .python path => pyReadBoolArray e slots path name count.toNat w

end Calls

section Packed

/-- Elements as the bits of DWORDs, with zeros behind the last one. -/
structure Packed (vals : List Bool) (data : List UInt8) : Prop where
  length : data.length = 4 * ((vals.length + 31) / 32)
  bit : ∀ j b, j < (vals.length + 31) / 32 → b < 32 →
    (leField (4 * j) 4 data).testBit b = vals.getD (32 * j + b) false

/-- What C's loop makes of elements. -/
def pack (vals : List Bool) : List UInt8 :=
  dwordBytes (setBits 0 (List.replicate ((vals.length + 31) / 32) 0) vals)

variable {vals : List Bool} {data : List UInt8}

@[simp] theorem pack_length : (pack vals).length = 4 * ((vals.length + 31) / 32) := by
  simp [pack]

theorem pack_packed (vals : List Bool) : Packed vals (pack vals) where
  length := pack_length
  bit := by
    intro j b hj hb
    have hlt : j < (List.replicate ((vals.length + 31) / 32) (0 : UInt32)).length := by
      rwa [List.length_replicate]
    have hzero : (List.replicate ((vals.length + 31) / 32) (0 : UInt32)).getD j 0 = 0 := by
      rw [List.getD_eq_getElem?_getD, List.getElem?_replicate, if_pos hj, Option.getD_some]
    rw [pack, leField_dwordBytes (by rwa [setBits_length]), setBits_testBit _ _ _ hlt hb, hzero]
    simp

/-- The elements can be taken out again. -/
theorem Packed.elements (h : Packed vals data) :
    (List.range vals.length).map (element data) = vals := by
  refine List.ext_getElem (by simp) fun i hi hi' => ?_
  rw [List.getElem_map, List.getElem_range, element, Nat.mul_comm,
    h.bit _ _ (by omega) (Nat.mod_lt _ (by decide)), Nat.div_add_mod,
    List.getD_eq_getElem?_getD, List.getElem?_eq_getElem hi', Option.getD_some]

end Packed

section RoundTrip

variable {σ : Type} {e : Engine σ} {slots : Slots} {db : TagDb} {name : TagName} {array : CBools}
  {w : World σ}

def CBools.dwords (array : CBools) : UInt16 := UInt16.ofNat ((array.vals.length + 31) / 32)

theorem CBools.count_toNat (array : CBools) : array.count.toNat = array.vals.length :=
  UInt16.toNat_ofNat_of_lt' array.length_lt

theorem CBools.dwords_toNat (array : CBools) :
    array.dwords.toNat = (array.vals.length + 31) / 32 := by
  have := array.length_lt
  exact UInt16.toNat_ofNat_of_lt' (by simp only [UInt16.size]; omega)

theorem dwordsForBits_eq (array : CBools) : dwordsForBits array.count = array.dwords := by
  have := array.length_lt
  apply UInt16.toNat_inj.mp
  simp only [dwordsForBits, UInt32.toNat_toUInt16, UInt32.toNat_div, UInt32.toNat_add,
    UInt16.toNat_toUInt32, array.count_toNat, array.dwords_toNat, UInt32.reduceToNat]
  omega

/-- In 16 bits the sum is right up to 65504, and above that it wraps. -/
theorem goDwordsForBits_toNat (array : CBools) : (goDwordsForBits array.count).toNat =
    if array.vals.length ≤ 65504 then (array.vals.length + 31) / 32 else 0 := by
  have := array.length_lt
  simp only [goDwordsForBits, UInt16.toNat_div, UInt16.toNat_add, array.count_toNat,
    UInt16.reduceToNat]
  split <;> omega

theorem goDwordsForBits_eq (h : array.vals.length ≤ 65504) :
    goDwordsForBits array.count = array.dwords := by
  apply UInt16.toNat_inj.mp
  rw [goDwordsForBits_toNat, if_pos h, array.dwords_toNat]

theorem count_ne_zero (h : array.vals ≠ []) : array.count ≠ 0 := by
  intro hcount
  have hlen := array.count_toNat
  rw [hcount] at hlen
  exact h (List.length_eq_zero_iff.mp hlen.symm)

theorem not_refused (h : array.vals ≠ []) :
    ¬(array.vals.length = 0 ∨ 0xFFFF < array.vals.length) := by
  have := array.length_lt
  have := List.length_pos_iff.mpr h
  omega

theorem dwords_ne_zero (h : array.vals ≠ []) : array.dwords ≠ 0 := by
  intro hdwords
  have hlen := array.dwords_toNat
  have := List.length_pos_iff.mpr h
  rw [hdwords, UInt16.toNat_zero] at hlen
  omega

theorem arrayRw_dwords (h : array.vals ≠ []) {bytes : List UInt8} {action : UInt16}
    {data : List UInt8} : arrayRw e slots db (dwordRequest bytes action array.dwords data) w =
      single e slots db (dwordRequest bytes action array.dwords data) w :=
  if_neg (dwords_ne_zero h)

/-- Where the number of DWORDs is right the write is one of the packed elements. -/
theorem writeBoolArray_eq (h : array.vals ≠ []) (hgo : db.sdk = .go → array.vals.length ≤ 65504) :
    writeBoolArray e slots db name.bytes array w = Prod.map (Except.map fun _ => ()) id
      (single e slots db (dwordRequest name.bytes actionWrite array.dwords (pack array.vals)) w) := by
  cases db with
  | c path =>
      rw [writeBoolArray, bpTagdbWriteBoolArray, if_neg (count_ne_zero h), dwordsForBits_eq]
      simp only [array.dwords_toNat]
      rfl
  | go path =>
      have hn : goDwordsForBits (UInt16.ofNat array.vals.length) = array.dwords :=
        goDwordsForBits_eq (hgo rfl)
      have hzeros : zeros (array.dwords.toNat * 4) =
          dwordBytes (List.replicate ((array.vals.length + 31) / 32) 0) := by
        rw [dwordBytes_replicate, array.dwords_toNat, Nat.mul_comm]
      have hbits : goSetBits 0 (zeros (array.dwords.toNat * 4)) array.vals =
          some (pack array.vals) := by
        rw [hzeros]
        exact goSetBits_eq (by rw [List.length_replicate, Nat.zero_add])
      rw [writeBoolArray, goWriteBOOLArray, if_neg (not_refused h)]
      simp only [hn, hbits]
      rw [arrayRw_dwords h]
  | python path =>
      have hzeros : List.replicate (pyDwordsForBits array.vals.length) 0 =
          (List.replicate ((array.vals.length + 31) / 32) 0).map UInt32.toNat := by
        rw [List.map_replicate]
        rfl
      have hpack : packDwords (pySetBits 0
          (List.replicate (pyDwordsForBits array.vals.length) 0) array.vals) =
          some (pack array.vals) := by
        rw [hzeros, pySetBits_eq, packDwords_eq]
        rfl
      have hn : UInt16.ofNat (pyDwordsForBits array.vals.length) = array.dwords := rfl
      rw [writeBoolArray, pyWriteBoolArray, if_neg (not_refused h)]
      simp only [hpack, hn]
      rw [arrayRw_dwords h]

/-- The read is one of as many DWORDs. -/
theorem readBoolArray_eq (h : array.vals ≠ []) (hgo : db.sdk = .go → array.vals.length ≤ 65504) :
    readBoolArray e slots db name.bytes array.count w = Prod.map
      (Except.map fun data => (List.range array.vals.length).map (element data)) id
      (single e slots db (dwordRequest name.bytes actionRead array.dwords
        (zeros (4 * ((array.vals.length + 31) / 32)))) w) := by
  have hroom : array.vals.length ≤ 32 * ((array.vals.length + 31) / 32) := by omega
  cases db with
  | c path =>
      have hunpack : cUnpack ((array.vals.length + 31) / 32) array.vals.length =
          fun data => (List.range array.vals.length).map (element data) :=
        funext (cUnpack_eq hroom)
      rw [readBoolArray, bpTagdbReadBoolArray, if_neg (count_ne_zero h), dwordsForBits_eq]
      simp only [array.dwords_toNat, array.count_toNat, hunpack]
  | go path =>
      have hn : goDwordsForBits array.count = array.dwords := goDwordsForBits_eq (hgo rfl)
      have hunpack : goUnpack array.vals.length =
          fun data => (List.range array.vals.length).map (element data) :=
        funext (goUnpack_eq array.vals.length)
      rw [readBoolArray, goReadBOOLArray, if_neg (count_ne_zero h)]
      simp only [hn, array.dwords_toNat, array.count_toNat, hunpack]
      rw [arrayRw_dwords h, Nat.mul_comm 4]
  | python path =>
      have hunpack : pyUnpack ((array.vals.length + 31) / 32) array.vals.length =
          fun data => (List.range array.vals.length).map (element data) :=
        funext (pyUnpack_eq hroom)
      have hn : UInt16.ofNat ((array.vals.length + 31) / 32) = array.dwords := rfl
      rw [readBoolArray, pyReadBoolArray, array.count_toNat, if_neg (not_refused h)]
      simp only [pyDwordsForBits, hunpack, hn]
      rw [arrayRw_dwords h, Nat.mul_comm 4]

/-- From 65505 elements on Go has no room for a bit. -/
theorem goSetBits_nil (i : Nat) (vals : List Bool) :
    goSetBits i [] vals = if true ∈ vals then none else some [] := by
  induction vals generalizing i with
  | nil => rfl
  | cons v vs ih =>
      cases v with
      | false =>
          rw [goSetBits, if_neg Bool.false_ne_true, Option.bind_some, ih]
          simp
      | true =>
          rw [goSetBits, if_pos rfl]
          simp [goSetBit]

theorem goWriteBOOLArray_wraps {path : List UInt8} (h : 65504 < array.vals.length) :
    goWriteBOOLArray e slots path name.bytes array.vals w =
      (.error (if true ∈ array.vals then .panics else .error .paramRange), w) := by
  have hne : array.vals ≠ [] := List.ne_nil_of_length_pos (by omega)
  have hn : goDwordsForBits (UInt16.ofNat array.vals.length) = 0 := by
    apply UInt16.toNat_inj.mp
    have hwrap := goDwordsForBits_toNat array
    rwa [if_neg (by omega)] at hwrap
  rw [goWriteBOOLArray, if_neg (not_refused hne)]
  simp only [hn, UInt16.toNat_zero, Nat.zero_mul, zeros, List.replicate_zero, goSetBits_nil]
  by_cases htrue : true ∈ array.vals
  · simp only [if_pos htrue]
  · simp only [if_neg htrue]
    rfl

theorem goReadBOOLArray_wraps {path : List UInt8} (h : 65504 < array.vals.length) :
    goReadBOOLArray e slots path name.bytes array.count w = (.error (.error .paramRange), w) := by
  have hne : array.vals ≠ [] := List.ne_nil_of_length_pos (by omega)
  have hn : goDwordsForBits array.count = 0 := by
    apply UInt16.toNat_inj.mp
    have hwrap := goDwordsForBits_toNat array
    rwa [if_neg (by omega)] at hwrap
  rw [goReadBOOLArray, if_neg (count_ne_zero hne)]
  simp only [hn]
  rfl

/-- The call sends the DWORDs in `data`, and then the elements can be read. -/
def BoolArrayRoundTrips (e : Engine σ) (slots : Slots) (db : TagDb) (name : TagName)
    (array : CBools) (data : List UInt8) (w : World σ) : Prop :=
  ∃ s' answers,
    let sent : WireRequest :=
      ⟨name.sent, 0xD3, 4, 2, (array.vals.length + 31) / 32, some data⟩
    let w' : World σ := ⟨s', w.log ++ [([sent], answers)]⟩
    writeBoolArray e slots db name.bytes array w = (.ok (), w') ∧
      (readBoolArray e slots db name.bytes array.count w').1 = .ok array.vals

/-- An array that the writer takes is sent as its DWORDs, and they are read back. -/
theorem boolArray_roundTrips (m : TagStore e) (h : array.vals ≠ [])
    (hgo : db.sdk = .go → array.vals.length ≤ 65504)
    (hcap : (pack array.vals).length ≤ m.cap name.sent) :
    BoolArrayRoundTrips e slots db name array (pack array.vals) w := by
  have hlt := array.length_lt
  have hfits : (pack array.vals).length ≤ 0x40000 := by
    rw [pack_length]
    omega
  have hlen : (pack array.vals).length = (4 : UInt16).toNat * array.dwords.toNat := by
    rw [pack_length, array.dwords_toNat]
    rfl
  obtain ⟨s', answers, hwrite, hbytes⟩ := m.single_write slots db w
    (dwordRequest name.bytes actionWrite array.dwords (pack array.vals)) name rfl rfl rfl hlen hfits hcap
  refine ⟨s', answers, ?_, ?_⟩
  · rw [writeBoolArray_eq h hgo, hwrite]
    simp only [TagRequest.wire, dwordRequest, array.dwords_toNat]
    rfl
  · have hzeros : (zeros (4 * ((array.vals.length + 31) / 32))).length =
        (pack array.vals).length := by
      rw [zeros_length, pack_length]
    rw [readBoolArray_eq h hgo]
    obtain ⟨s'', answers', hread, -⟩ := m.single_read slots db
      ⟨s', w.log ++ [([⟨name.sent, 0xD3, 4, 2, (array.vals.length + 31) / 32,
        some (pack array.vals)⟩], answers)]⟩
      (dwordRequest name.bytes actionRead array.dwords
        (zeros (4 * ((array.vals.length + 31) / 32)))) name rfl rfl rfl (hzeros.trans hlen) (hzeros ▸ hfits) (hzeros ▸ hcap)
    rw [hread, hbytes, Function.update_self, hzeros, firstBytes_overwrite]
    exact congrArg Except.ok (pack_packed array.vals).elements

/-- An array makes the round trip as packed bits, in Go while it has at most
65504 elements. -/
theorem boolArray_roundTrips_iff (array : CBools) (h : array.vals ≠ []) :
    ∃ data, Packed array.vals data ∧ ∀ {σ : Type} (e : Engine σ) (m : TagStore e) (slots : Slots)
      (db : TagDb) (name : TagName) (w : World σ), data.length ≤ m.cap name.sent →
      (BoolArrayRoundTrips e slots db name array data w ↔
        (db.sdk = .go → array.vals.length ≤ 65504)) := by
  refine ⟨pack array.vals, pack_packed array.vals, ?_⟩
  intro σ e m slots db name w hcap
  constructor
  · rintro ⟨s', answers, -, hread⟩ hgo
    by_contra hlarge
    cases db with
    | c path => cases hgo
    | python path => cases hgo
    | go path =>
        rw [readBoolArray, goReadBOOLArray_wraps (by omega)] at hread
        cases hread
  · intro hgo
    exact boolArray_roundTrips m h hgo hcap

/-- Three elements written by Go to a tag of one DWORD. -/
theorem boolArray_roundTrips_three : ∃ data, Packed [true, false, true] data ∧
    BoolArrayRoundTrips (memoryEngine fun _ => 4) clearSlots (.go [0x70]) tagB
      ⟨[true, false, true], by decide⟩ data ⟨fun _ _ => 0, []⟩ := by
  obtain ⟨data, hpacked, h⟩ :=
    boolArray_roundTrips_iff ⟨[true, false, true], by decide⟩ (List.cons_ne_nil _ _)
  have hcap : data.length ≤ (memoryStore fun _ => 4).cap tagB.sent := hpacked.length.le
  exact ⟨data, hpacked, (h _ _ _ _ _ _ hcap).mpr fun _ => by decide⟩

def tooMany : CBools where
  vals := List.replicate 65505 true
  length_lt := by
    rw [List.length_replicate]
    omega

/-- Go panics over 65505 elements, though the tag has room for their 2048
DWORDs. -/
theorem boolArray_not_roundTrips :
    (writeBoolArray (memoryEngine fun _ => 8192) clearSlots (.go [0x70]) tagB.bytes tooMany
      ⟨fun _ _ => 0, []⟩).1 = .error .panics ∧
    ¬∃ data, BoolArrayRoundTrips (memoryEngine fun _ => 8192) clearSlots (.go [0x70]) tagB tooMany
      data ⟨fun _ _ => 0, []⟩ := by
  have hlarge : 65504 < tooMany.vals.length := by
    rw [tooMany, List.length_replicate]
    omega
  have htrue : true ∈ tooMany.vals := List.mem_replicate.mpr ⟨by omega, rfl⟩
  have hwrite : goWriteBOOLArray (memoryEngine fun _ => 8192) clearSlots [0x70] tagB.bytes
      tooMany.vals ⟨fun _ _ => 0, []⟩ = _ := goWriteBOOLArray_wraps hlarge
  rw [if_pos htrue] at hwrite
  refine ⟨congrArg Prod.fst hwrite, ?_⟩
  rintro ⟨data, s', answers, hwrite', -⟩
  rw [writeBoolArray, hwrite] at hwrite'
  cases hwrite'

end RoundTrip

end BpClient.Arrays
