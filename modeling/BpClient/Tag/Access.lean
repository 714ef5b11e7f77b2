import BpClient.Lib.Region

/-!
Batched tag access: `bp_tagdb_access` of `c/src/access.c`,
`bp_tagdb_access_db` of `c/src/accessdb.c`, and `TagDB.Access` and
`TagDB.AccessDb` of `go/ocxbp`. The two opcodes and the two languages share the
argument checks, the size arithmetic and the loop over the requests; what
differs is a `Format`.
-/

namespace BpClient.Tag

open BpClient.Lib

def slotStride : Nat := 0x4B000

def payloadStart : Nat := 0x78

def actionRead : UInt16 := 1
def actionWrite : UInt16 := 2

structure TagRequest where
  tagName : List UInt8
  dataType : UInt16
  elemByteSize : UInt16
  action : UInt16
  elemCount : UInt16
  /-- `none` is C's null pointer and Go's nil slice. -/
  data : Option (List UInt8)
  deriving DecidableEq, Repr

def TagRequest.nbytes (r : TagRequest) : UInt32 := r.elemByteSize.toUInt32 * r.elemCount.toUInt32

/-- The product of two 16-bit values fits in 32 bits. -/
theorem TagRequest.nbytes_toNat (r : TagRequest) :
    r.nbytes.toNat = r.elemByteSize.toNat * r.elemCount.toNat := by
  have hsize := r.elemByteSize.toNat_lt
  have hcount := r.elemCount.toNat_lt
  have hprod : r.elemByteSize.toNat * r.elemCount.toNat ≤ 65535 * 65535 :=
    Nat.mul_le_mul (by omega) (by omega)
  simp only [nbytes, UInt32.toNat_mul, UInt16.toNat_toUInt32]
  omega

/-- What one opcode in one language writes and reads. Offsets in a descriptor
are relative to its start; the descriptors end where the data area begins. -/
structure Format where
  req0Start : Nat
  stride : Nat
  dataArea0 : Nat
  resultOff : Nat
  /-- The writes before the descriptors, given the number of requests. -/
  header : Nat → List Write
  descriptor : TagRequest → List Write
  /-- The bytes copied into the request's data region, if any. -/
  source : TagRequest → Option (List UInt8)
  /-- The number of bytes copied back from it, if any. -/
  sink : TagRequest → Option Nat
  header_within : ∀ n, ∀ w ∈ header n, w.region.stop ≤ req0Start
  descriptor_within : ∀ r, ∀ w ∈ descriptor r, w.region.stop ≤ stride
  result_within : resultOff + 4 ≤ stride
  source_length : ∀ r bytes, source r = some bytes → bytes.length ≤ r.nbytes.toNat
  sink_le : ∀ r n, sink r = some n → n ≤ r.nbytes.toNat
  dataArea0_eq : dataArea0 = req0Start + stride
  area_small : req0Start + 16 * stride ≤ 0x2000

namespace Format

variable (f : Format)

def reqStart (i : Nat) : Nat := f.req0Start + i * f.stride

def dataAreaStart (count : Nat) : UInt32 := UInt32.ofNat (f.dataArea0 + (count - 1) * f.stride)

/-- The loop of the fill callback from request `i` on. -/
def fillRequests (i : Nat) (dataOff : UInt32) : List TagRequest → List Write
  | [] => []
  | r :: rs =>
      (f.descriptor r).map (Write.shift (f.reqStart i)) ++
        (f.source r).toList.map (fun bytes => ⟨dataOff.toNat, bytes⟩) ++
        fillRequests (i + 1) (dataOff + r.nbytes) rs

def fill (reqs : List TagRequest) : List Write :=
  f.header reqs.length ++ f.fillRequests 0 (f.dataAreaStart reqs.length) reqs

/-- The loop of the read callback: for each request the region of its result
and the region copied back. -/
def readRequests (i : Nat) (dataOff : UInt32) : List TagRequest → List (Region × Option Region)
  | [] => []
  | r :: rs =>
      (⟨f.reqStart i + f.resultOff, 4⟩, (f.sink r).map (fun n => ⟨dataOff.toNat, n⟩)) ::
        readRequests (i + 1) (dataOff + r.nbytes) rs

def read (reqs : List TagRequest) : List (Region × Option Region) :=
  f.readRequests 0 (f.dataAreaStart reqs.length) reqs

end Format

/-- `total_data_bytes`, accumulated in 32 bits. -/
def totalDataBytes (reqs : List TagRequest) : UInt32 :=
  reqs.foldl (fun total r => total + r.nbytes) 0

/-- The region of each request as the callbacks find it, with `data_off`
running in 32 bits. -/
def dataRegions (dataOff : UInt32) : List TagRequest → List Region
  | [] => []
  | r :: rs => ⟨dataOff.toNat, r.nbytes.toNat⟩ :: dataRegions (dataOff + r.nbytes) rs

inductive AccessError
  | nullArg | paramRange | slotTooLarge
  deriving DecidableEq, Repr

/-- What the dispatcher gets: the size for the header and what its callbacks
write and read. -/
structure CallSpec where
  payloadSize : UInt32
  fill : List Write
  read : List (Region × Option Region)
  deriving DecidableEq, Repr

/-- The checks and the size arithmetic of an access call. -/
def Format.call (f : Format) (reqs : List TagRequest) : Except AccessError CallSpec :=
  if reqs.length = 0 then .error .nullArg
  else if 16 < reqs.length then .error .paramRange
  else
    let payloadSize := f.dataAreaStart reqs.length + totalDataBytes reqs
    if UInt32.ofNat (slotStride - 0x80) < payloadSize then .error .slotTooLarge
    else .ok ⟨payloadSize, f.fill reqs, f.read reqs⟩

section Members

def zeros (n : Nat) : List UInt8 := List.replicate n 0

@[simp] theorem zeros_length (n : Nat) : (zeros n).length = n := List.length_replicate

/-- A string of at most 254 bytes, copied without its terminator. -/
def name254 (s : List UInt8) : List UInt8 := s.take 254

theorem name254_length (s : List UInt8) : (name254 s).length ≤ 254 := by
  simp [name254]

/-- C copies `nbytes` bytes of the caller's buffer, however long that is; what
lies behind its end is shown as zeros. -/
def memcpyData (r : TagRequest) (data : List UInt8) : List UInt8 :=
  (data ++ zeros r.nbytes.toNat).take r.nbytes.toNat

theorem nbytes_pos {r : TagRequest} {data : List UInt8} (hlen : data.length = r.nbytes.toNat) :
    0 < r.nbytes ↔ 0 < data.length := by
  rw [UInt32.lt_iff_toNat_lt, hlen]
  rfl

theorem memcpyData_eq {r : TagRequest} {data : List UInt8} (hlen : data.length = r.nbytes.toNat) :
    memcpyData r data = data := by
  rw [memcpyData, ← hlen, List.take_append_of_le_length le_rfl, List.take_length]

def cSource (r : TagRequest) : Option (List UInt8) :=
  if r.action = actionWrite ∧ 0 < r.nbytes then r.data.map (memcpyData r) else none

def cSink (r : TagRequest) : Option Nat :=
  if r.action = actionRead ∧ 0 < r.nbytes then r.data.map (fun _ => r.nbytes.toNat) else none

/-- Go copies `nbytes` bytes, or `uint32(len(r.Data))` when that is less. -/
def goCount (r : TagRequest) (data : List UInt8) : UInt32 :=
  if UInt32.ofNat data.length < r.nbytes then UInt32.ofNat data.length else r.nbytes

def goSource (r : TagRequest) : Option (List UInt8) :=
  if r.action = actionWrite ∧ 0 < (r.data.getD []).length ∧ 0 < r.nbytes then
    some ((r.data.getD []).take (goCount r (r.data.getD [])).toNat)
  else none

def goSink (r : TagRequest) : Option Nat :=
  if r.action = actionRead ∧ 0 < (r.data.getD []).length ∧ 0 < r.nbytes then
    some (goCount r (r.data.getD [])).toNat
  else none

theorem goCount_le (r : TagRequest) (data : List UInt8) :
    (goCount r data).toNat ≤ r.nbytes.toNat := by
  unfold goCount
  split
  · next h => exact (UInt32.lt_iff_toNat_lt.mp h).le
  · exact le_rfl

theorem cSource_length (r : TagRequest) (bytes : List UInt8) (h : cSource r = some bytes) :
    bytes.length ≤ r.nbytes.toNat := by
  unfold cSource at h
  split at h
  · obtain ⟨data, -, rfl⟩ := Option.map_eq_some_iff.mp h
    simp [memcpyData]
  · cases h

theorem cSink_le (r : TagRequest) (n : Nat) (h : cSink r = some n) : n ≤ r.nbytes.toNat := by
  unfold cSink at h
  split at h
  · obtain ⟨data, -, rfl⟩ := Option.map_eq_some_iff.mp h
    exact le_rfl
  · cases h

theorem goSource_length (r : TagRequest) (bytes : List UInt8) (h : goSource r = some bytes) :
    bytes.length ≤ r.nbytes.toNat := by
  unfold goSource at h
  split at h <;> cases h
  rw [List.length_take]
  exact (Nat.min_le_left _ _).trans (goCount_le r _)

theorem goSink_le (r : TagRequest) (n : Nat) (h : goSink r = some n) : n ≤ r.nbytes.toNat := by
  unfold goSink at h
  split at h <;> cases h
  exact goCount_le r _

/-- The descriptor fields of `AccessTagData`, the same in C and Go. -/
def tagDataFields (r : TagRequest) : List Write :=
  [⟨0x000, name254 r.tagName⟩,
    ⟨0x100, leBytes 2 r.dataType.toNat⟩,
    ⟨0x102, leBytes 2 r.elemByteSize.toNat⟩,
    ⟨0x104, leBytes 2 r.action.toNat⟩,
    ⟨0x106, leBytes 2 r.elemCount.toNat⟩,
    ⟨0x108, [0]⟩,
    ⟨0x110, leBytes 8 0⟩]

/-- The descriptor fields of `AccessTagDataDb`, the same in C and Go. -/
def tagDataDbFields (r : TagRequest) : List Write :=
  [⟨0x000, name254 r.tagName⟩,
    ⟨0x100, leBytes 2 r.action.toNat⟩,
    ⟨0x104, leBytes 4 r.dataType.toNat⟩,
    ⟨0x108, leBytes 4 r.elemByteSize.toNat⟩,
    ⟨0x10C, leBytes 4 r.elemCount.toNat⟩]

/-- `access.c` for the tag database of `path` -/
def cAccess (path : List UInt8) : Format where
  req0Start := 0x180
  stride := 0x120
  dataArea0 := 0x2A0
  resultOff := 0x118
  header := fun count =>
    [⟨payloadStart, zeros 256⟩, ⟨payloadStart, name254 path⟩,
      ⟨0x178, leBytes 2 0⟩, ⟨0x17A, leBytes 2 count⟩]
  descriptor := fun r => ⟨0, zeros 0x120⟩ :: tagDataFields r
  source := cSource
  sink := cSink
  header_within := by
    have := name254_length path
    simp [payloadStart]
    omega
  descriptor_within := by
    intro r
    have := name254_length r.tagName
    simp [tagDataFields]
    omega
  result_within := by decide
  source_length := cSource_length
  sink_le := cSink_le
  dataArea0_eq := rfl
  area_small := by decide

/-- `accessdb.c` for the tag database of `handle` -/
def cAccessDb (handle : UInt32) : Format where
  req0Start := 0x88
  stride := 0x128
  dataArea0 := 0x1B0
  resultOff := 0x120
  header := fun count =>
    [⟨payloadStart, zeros (0x88 - payloadStart)⟩, ⟨0x78, leBytes 4 handle.toNat⟩,
      ⟨0x80, leBytes 2 count⟩]
  descriptor := fun r => ⟨0, zeros 0x128⟩ :: tagDataDbFields r
  source := cSource
  sink := cSink
  header_within := by simp [payloadStart]
  descriptor_within := by
    intro r
    have := name254_length r.tagName
    simp [tagDataDbFields]
    omega
  result_within := by decide
  source_length := cSource_length
  sink_le := cSink_le
  dataArea0_eq := rfl
  area_small := by decide

/-- `EncodeAccessTagData` and `DecodeAccessTagData`; the dispatcher has zeroed
the payload area. -/
def goAccess (path : List UInt8) : Format where
  req0Start := 0x180
  stride := 0x120
  dataArea0 := 0x2A0
  resultOff := 0x118
  header := fun count =>
    [⟨payloadStart, name254 path⟩, ⟨0x178, leBytes 2 0⟩, ⟨0x17A, leBytes 2 count⟩]
  descriptor := tagDataFields
  source := goSource
  sink := goSink
  header_within := by
    have := name254_length path
    simp [payloadStart]
    omega
  descriptor_within := by
    intro r
    have := name254_length r.tagName
    simp [tagDataFields]
    omega
  result_within := by decide
  source_length := goSource_length
  sink_le := goSink_le
  dataArea0_eq := rfl
  area_small := by decide

/-- `EncodeAccessTagDataDb` and `DecodeAccessTagDataDb` -/
def goAccessDb (handle : UInt32) : Format where
  req0Start := 0x88
  stride := 0x128
  dataArea0 := 0x1B0
  resultOff := 0x120
  header := fun count => [⟨0x78, leBytes 4 handle.toNat⟩, ⟨0x80, leBytes 2 count⟩]
  descriptor := tagDataDbFields
  source := goSource
  sink := goSink
  header_within := by simp
  descriptor_within := by
    intro r
    have := name254_length r.tagName
    simp [tagDataDbFields]
    omega
  result_within := by decide
  source_length := goSource_length
  sink_le := goSink_le
  dataArea0_eq := rfl
  area_small := by decide

def bpTagdbAccess (path : List UInt8) (reqs : List TagRequest) : Except AccessError CallSpec :=
  (cAccess path).call reqs

def bpTagdbAccessDb (handle : UInt32) (reqs : List TagRequest) : Except AccessError CallSpec :=
  (cAccessDb handle).call reqs

def tagDBAccess (path : List UInt8) (reqs : List TagRequest) : Except AccessError CallSpec :=
  (goAccess path).call reqs

def tagDBAccessDb (handle : UInt32) (reqs : List TagRequest) : Except AccessError CallSpec :=
  (goAccessDb handle).call reqs

end Members

end BpClient.Tag
