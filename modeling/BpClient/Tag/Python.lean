import BpClient.Tag.Bounds

/-!
`TagDB.access` and `TagDB.access_db` of `python/src/bpclient/tagdb.py`: the
formats of C and Go with integers that do not wrap and with fields that are
packed together.
-/

namespace BpClient.Tag

open BpClient.Lib

/-- The ASCII encoding that `open_tagdb` lets pass as the path of a tag
database. -/
structure TagPath where
  bytes : List UInt8
  length_le : bytes.length ≤ 254
  ascii : ∀ b ∈ bytes, b < 0x80

def pySource (r : TagRequest) : Option (List UInt8) :=
  let nbytes := r.elemByteSize.toNat * r.elemCount.toNat
  let data := r.data.getD []
  if r.action = actionWrite ∧ 0 < nbytes ∧ 0 < data.length then
    some (data.take (min nbytes data.length))
  else none

def pySink (r : TagRequest) : Option Nat :=
  let nbytes := r.elemByteSize.toNat * r.elemCount.toNat
  if r.action = actionRead ∧ 0 < nbytes then some nbytes else none

theorem pySource_length (r : TagRequest) (bytes : List UInt8) (h : pySource r = some bytes) :
    bytes.length ≤ r.nbytes.toNat := by
  rw [r.nbytes_toNat]
  unfold pySource at h
  dsimp only at h
  split at h <;> cases h
  rw [List.length_take]
  omega

theorem pySink_le (r : TagRequest) (n : Nat) (h : pySink r = some n) : n ≤ r.nbytes.toNat := by
  rw [r.nbytes_toNat]
  unfold pySink at h
  dsimp only at h
  split at h <;> cases h
  exact le_rfl

def pyTagDataFields (r : TagRequest) : List Write :=
  [⟨0x000, name254 r.tagName⟩,
    ⟨0x100, leBytes 2 r.dataType.toNat ++ (leBytes 2 r.elemByteSize.toNat ++
      (leBytes 2 r.action.toNat ++ leBytes 2 r.elemCount.toNat))⟩,
    ⟨0x108, [0]⟩,
    ⟨0x110, leBytes 8 0⟩]

def pyTagDataDbFields (r : TagRequest) : List Write :=
  [⟨0x000, name254 r.tagName⟩,
    ⟨0x100, leBytes 2 r.action.toNat⟩,
    ⟨0x104, leBytes 4 r.dataType.toNat ++ (leBytes 4 r.elemByteSize.toNat ++
      leBytes 4 r.elemCount.toNat)⟩]

def pyTagDataHeader (path : TagPath) (count : Nat) : List Write :=
  [⟨payloadStart, path.bytes⟩, ⟨0x178, leBytes 2 0⟩, ⟨0x17A, leBytes 2 count⟩]

def pyTagDataDbHeader (handle : UInt32) (count : Nat) : List Write :=
  [⟨0x78, leBytes 4 handle.toNat⟩, ⟨0x80, leBytes 2 count⟩]

section Within

theorem pyTagDataHeader_within (path : TagPath) (count : Nat) :
    ∀ w ∈ pyTagDataHeader path count, w.region.stop ≤ 0x180 := by
  have := path.length_le
  simp [pyTagDataHeader, payloadStart]
  omega

theorem pyTagDataDbHeader_within (handle : UInt32) (count : Nat) :
    ∀ w ∈ pyTagDataDbHeader handle count, w.region.stop ≤ 0x88 := by
  simp [pyTagDataDbHeader]

theorem pyTagDataFields_within (r : TagRequest) :
    ∀ w ∈ pyTagDataFields r, w.region.stop ≤ 0x120 := by
  have := name254_length r.tagName
  simp [pyTagDataFields]
  omega

theorem pyTagDataDbFields_within (r : TagRequest) :
    ∀ w ∈ pyTagDataDbFields r, w.region.stop ≤ 0x128 := by
  have := name254_length r.tagName
  simp [pyTagDataDbFields]
  omega

theorem pyTagDataResult_within : 0x118 + 4 ≤ 0x120 := by decide

theorem pyTagDataDbResult_within : 0x120 + 4 ≤ 0x128 := by decide

theorem pyTagDataArea0_eq : 0x2A0 = 0x180 + 0x120 := rfl

theorem pyTagDataDbArea0_eq : 0x1B0 = 0x88 + 0x128 := rfl

theorem pyTagDataArea_small : 0x180 + 16 * 0x120 ≤ 0x2000 := by decide

theorem pyTagDataDbArea_small : 0x88 + 16 * 0x128 ≤ 0x2000 := by decide

end Within

def pyAccess (path : TagPath) : Format where
  req0Start := 0x180
  stride := 0x120
  dataArea0 := 0x2A0
  resultOff := 0x118
  header := pyTagDataHeader path
  descriptor := pyTagDataFields
  source := pySource
  sink := pySink
  header_within := pyTagDataHeader_within path
  descriptor_within := pyTagDataFields_within
  result_within := pyTagDataResult_within
  source_length := pySource_length
  sink_le := pySink_le
  dataArea0_eq := pyTagDataArea0_eq
  area_small := pyTagDataArea_small

def pyAccessDb (handle : UInt32) : Format where
  req0Start := 0x88
  stride := 0x128
  dataArea0 := 0x1B0
  resultOff := 0x120
  header := pyTagDataDbHeader handle
  descriptor := pyTagDataDbFields
  source := pySource
  sink := pySink
  header_within := pyTagDataDbHeader_within handle
  descriptor_within := pyTagDataDbFields_within
  result_within := pyTagDataDbResult_within
  source_length := pySource_length
  sink_le := pySink_le
  dataArea0_eq := pyTagDataDbArea0_eq
  area_small := pyTagDataDbArea_small

def TagRequest.asciiName (r : TagRequest) : Bool := r.tagName.all (· < 0x80)

structure PyCallSpec where
  payloadSize : Nat
  /-- `none` when the callback raises. -/
  fill : Option (List Write)
  read : List (Region × Option Region)
  deriving DecidableEq, Repr

namespace Format

variable (f : Format)

/-- The loop of the fill callback with Python's integers. -/
def pyFillRequests (i dataOff : Nat) : List TagRequest → List Write
  | [] => []
  | r :: rs =>
      (f.descriptor r).map (Write.shift (f.reqStart i)) ++
        (f.source r).toList.map (fun bytes => ⟨dataOff, bytes⟩) ++
        pyFillRequests (i + 1) (dataOff + r.elemByteSize.toNat * r.elemCount.toNat) rs

def pyReadRequests (i dataOff : Nat) : List TagRequest → List (Region × Option Region)
  | [] => []
  | r :: rs =>
      (⟨f.reqStart i + f.resultOff, 4⟩, (f.sink r).map (fun n => ⟨dataOff, n⟩)) ::
        pyReadRequests (i + 1) (dataOff + r.elemByteSize.toNat * r.elemCount.toNat) rs

/-- The checks and the size arithmetic of `access` and `access_db`. -/
def pyCall (reqs : List TagRequest) : Except AccessError PyCallSpec :=
  if reqs = [] then .error .nullArg
  else if 16 < reqs.length then .error .paramRange
  else
    let dataAreaStart := f.dataArea0 + (reqs.length - 1) * f.stride
    let totalDataBytes := (reqs.map fun r => r.elemByteSize.toNat * r.elemCount.toNat).sum
    let payloadSize := dataAreaStart + totalDataBytes
    if slotStride - 0x80 < payloadSize then .error .slotTooLarge
    else .ok {
      payloadSize := payloadSize
      fill := if reqs.all (·.asciiName) then
          some (f.header reqs.length ++ f.pyFillRequests 0 dataAreaStart reqs)
        else none
      read := f.pyReadRequests 0 dataAreaStart reqs }

/-- While the 32-bit offset does not wrap, it is Python's. -/
theorem pyFillRequests_eq {dataOff : UInt32} {reqs : List TagRequest} {i : Nat}
    (h : dataOff.toNat + (reqs.map fun r => r.nbytes.toNat).sum < 2 ^ 32) :
    f.pyFillRequests i dataOff.toNat reqs = f.fillRequests i dataOff reqs := by
  induction reqs generalizing i dataOff with
  | nil => rfl
  | cons r rs ih =>
      simp only [List.map_cons, List.sum_cons] at h
      have hadd := dataOff_add (show dataOff.toNat + r.nbytes.toNat < 2 ^ 32 by omega)
      have hrest : (dataOff + r.nbytes).toNat + (rs.map fun r => r.nbytes.toNat).sum < 2 ^ 32 := by
        rw [hadd, ← r.nbytes_toNat]
        omega
      rw [pyFillRequests, fillRequests, ← hadd, ih hrest]

theorem pyReadRequests_eq {dataOff : UInt32} {reqs : List TagRequest} {i : Nat}
    (h : dataOff.toNat + (reqs.map fun r => r.nbytes.toNat).sum < 2 ^ 32) :
    f.pyReadRequests i dataOff.toNat reqs = f.readRequests i dataOff reqs := by
  induction reqs generalizing i dataOff with
  | nil => rfl
  | cons r rs ih =>
      simp only [List.map_cons, List.sum_cons] at h
      have hadd := dataOff_add (show dataOff.toNat + r.nbytes.toNat < 2 ^ 32 by omega)
      have hrest : (dataOff + r.nbytes).toNat + (rs.map fun r => r.nbytes.toNat).sum < 2 ^ 32 := by
        rw [hadd, ← r.nbytes_toNat]
        omega
      rw [pyReadRequests, readRequests, ← hadd, ih hrest]

end Format

def tagDbAccessPy (path : TagPath) (reqs : List TagRequest) : Except AccessError PyCallSpec :=
  (pyAccess path).pyCall reqs

def tagDbAccessDbPy (handle : UInt32) (reqs : List TagRequest) : Except AccessError PyCallSpec :=
  (pyAccessDb handle).pyCall reqs

end BpClient.Tag
