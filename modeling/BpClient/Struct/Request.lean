import BpClient.Ucmm.Send

/-!
The requests of `read_struct` and `write_struct` (`c/src/struct.c`,
`go/ocxbp/struct.go`, `python/src/bpclient/struct.py`): a CIP Read Tag or Write
Tag with a symbol segment as its path. C assembles them in two buffers on the
stack, and looks at the length when the bytes have been copied.
-/

namespace BpClient.Struct

open BpClient.Lib
open BpClient.Slot (SlotBytes)
open BpClient.Ucmm
open BpClient.Conn (msgMaxSlot)

def ioiSize : Nat := 2 + 250 + 1

def readReqSize : Nat := 2 + 2 + 250 + 1 + 2

def writeReqSize : Nat := 2 + 2 + 250 + 1 + 6 + msgMaxReq

inductive Result
  | refused (e : Refusal)
  | sent (ws : List Write)
  /-- C has stored behind the end of one of its buffers. -/
  | overflow
  deriving DecidableEq, Repr

def Result.ofSend : Except Refusal (List Write) → Result
  | .error e => .refused e
  | .ok ws => .sent ws

/-- `symbolicIOIPath` and `_sym_path`: the path and its size in words. -/
def symbolicIoiPath (tag : List UInt8) : List UInt8 × UInt8 :=
  let b := [0x91, UInt8.ofNat tag.length] ++ tag
  let b := if b.length % 2 ≠ 0 then b ++ [0x00] else b
  (b, UInt8.ofNat (b.length / 2))

namespace C

/-- What `symbolic_ioi_path` stores, one after the other. -/
def ioiPieces (tag : List UInt8) : List (List UInt8) :=
  [[0x91], [UInt8.ofNat tag.length], tag] ++
    if (2 + tag.length) % 2 ≠ 0 then [[0x00]] else []

def ioiLen (tag : List UInt8) : Nat := (ioiPieces tag).flatten.length

def ioiStores (tag : List UInt8) : List Write := appended 0 (ioiPieces tag)

def ioi (stack : Buffer ioiSize) (tag : List UInt8) : List UInt8 :=
  (Buffer.write (ioiStores tag) stack).read 0 (ioiLen tag)

def words (tag : List UInt8) : UInt8 := UInt8.ofNat (ioiLen tag / 2)

def readPieces (stack : Buffer ioiSize) (tag : List UInt8) : List (List UInt8) :=
  [[0x4C], [words tag], ioi stack tag, leBytes 2 1]

def writePieces (stack : Buffer ioiSize) (tag : List UInt8) (handle : UInt16)
    (data : List UInt8) : List (List UInt8) :=
  [[0x4D], [words tag], ioi stack tag, [0xA0], [0x02], leBytes 2 handle.toNat, leBytes 2 1, data]

/-- A request is assembled in `req` and sent from there, if it is not too long.
The buffers hold anything before. -/
def send {size : Nat} (req : Buffer size) (slot : UInt8) (tag : List UInt8)
    (pieces : List (List UInt8)) (respCapacity : UInt16) : Result :=
  let off := pieces.flatten.length
  if ¬ ((∀ w ∈ ioiStores tag, w.region.stop ≤ ioiSize) ∧
      ∀ w ∈ appended 0 pieces, w.region.stop ≤ size) then .overflow
  else if msgMaxReq < off then .refused .paramRange
  else .ofSend (C.messageSend
    ⟨slot, (Buffer.write (appended 0 pieces) req).read 0 off, UInt16.ofNat off, 5000, respCapacity⟩)

/-- `bp_client_read_struct`; it has no check of the length, which cannot be too
long. -/
def readStruct (stack : Buffer ioiSize) (req : Buffer readReqSize) (slot : UInt8)
    (tag : List UInt8) (outCap : UInt16) : Result :=
  if tag.length = 0 ∨ 250 < tag.length then .refused .paramRange
  else if outCap < 16 then .refused .paramRange
  else send req slot tag (readPieces stack tag) (if 512 < outCap then 512 else outCap)

def writeStruct (stack : Buffer ioiSize) (req : Buffer writeReqSize) (slot : UInt8)
    (tag : List UInt8) (handle : UInt16) (data : CRequest) : Result :=
  if tag.length = 0 ∨ 250 < tag.length then .refused .paramRange
  else if data.size = 0 then .refused .paramRange
  else send req slot tag (writePieces stack tag handle data.bytes) 64

end C

def readRequest (tag : List UInt8) : List UInt8 :=
  let (ioi, words) := symbolicIoiPath tag
  [0x4C, words] ++ ioi ++ leBytes 2 1

def writeRequest (tag : List UInt8) (handle : UInt16) (data : List UInt8) : List UInt8 :=
  let (ioi, words) := symbolicIoiPath tag
  [0x4D, words] ++ ioi ++ [0xA0, 0x02] ++ leBytes 2 handle.toNat ++ leBytes 2 1 ++ data

namespace Go

def readStruct (slot : UInt8) (tag : List UInt8) (respCap : Int) : Result :=
  if tag = [] ∨ 250 < tag.length then .refused .paramRange
  else if respCap < 16 ∨ 0xFFFF < respCap then .refused .paramRange
  else
    let req := readRequest tag
    .ofSend (Go.messageSend ⟨slot, req, UInt16.ofNat req.length, 0, UInt16.ofNat respCap.toNat⟩)

def writeStruct (slot : UInt8) (tag : List UInt8) (handle : UInt16) (data : List UInt8) : Result :=
  if tag = [] ∨ 250 < tag.length then .refused .paramRange
  else if data.length = 0 then .refused .paramRange
  else
    let req := writeRequest tag handle data
    if msgMaxReq < req.length then .refused .paramRange
    else .ofSend (Go.messageSend ⟨slot, req, UInt16.ofNat req.length, 0, 64⟩)

end Go

namespace Python

/-- `tag.encode("ascii", "strict")` does not raise. -/
def ascii (tag : List UInt8) : Bool := tag.all (· < 0x80)

def readStruct (slot : UInt8) (tag : List UInt8) (respCap : Int) : Result :=
  if tag = [] ∨ 250 < tag.length then .refused .paramRange
  else if respCap < 16 ∨ 0xFFFF < respCap then .refused .paramRange
  else if ascii tag = false then .refused .raised
  else .ofSend (Python.messageSend ⟨slot, readRequest tag, 0, 0, respCap.toNat⟩)

def writeStruct (slot : UInt8) (tag : List UInt8) (handle : Nat) (data : List UInt8) : Result :=
  if tag = [] ∨ 250 < tag.length then .refused .paramRange
  else if data = [] then .refused .paramRange
  else if ascii tag = false then .refused .raised
  else
    let req := writeRequest tag (UInt16.ofNat (handle % 2 ^ 16)) data
    if msgMaxReq < req.length then .refused .paramRange
    else .ofSend (Python.messageSend ⟨slot, req, 0, 0, 64⟩)

end Python

/-- A tag name that the calls accept, as a C string. -/
structure StructTag where
  bytes : List UInt8
  pos : 0 < bytes.length
  length_le : bytes.length ≤ 250
  nul_free : 0 ∉ bytes

section Lengths

variable (tag : List UInt8)

/-- The length of a symbol segment: the name padded to an even length. -/
def pathLength : Nat := 2 + tag.length + tag.length % 2

/-- The length of the request of a write. -/
def writeLength (data : List UInt8) : Nat := 8 + pathLength tag + data.length

theorem ioiPieces_flatten : (C.ioiPieces tag).flatten = (symbolicIoiPath tag).1 := by
  have hparity : (tag.length + 1 + 1) % 2 = tag.length % 2 := by omega
  by_cases hodd : tag.length % 2 = 1
  · simp [C.ioiPieces, symbolicIoiPath, hparity, hodd]
  · simp [C.ioiPieces, symbolicIoiPath, hparity, hodd]

theorem symbolicIoiPath_length : (symbolicIoiPath tag).1.length = pathLength tag := by
  unfold symbolicIoiPath pathLength
  simp only [List.length_append, List.length_cons, List.length_nil]
  split
  · simp only [List.length_append, List.length_cons, List.length_nil]
    omega
  · simp only [List.length_append, List.length_cons, List.length_nil]
    omega

theorem ioiLen_eq : C.ioiLen tag = pathLength tag := by
  rw [C.ioiLen, ioiPieces_flatten, symbolicIoiPath_length]

theorem words_eq : C.words tag = (symbolicIoiPath tag).2 := by
  have hwords : (symbolicIoiPath tag).2 = UInt8.ofNat ((symbolicIoiPath tag).1.length / 2) := rfl
  rw [C.words, hwords, ioiLen_eq, symbolicIoiPath_length]

theorem pathLength_le (htag : tag.length ≤ 250) : pathLength tag ≤ 252 := by
  unfold pathLength
  omega

/-- The path fits into its buffer. -/
theorem ioiStores_within (htag : tag.length ≤ 250) :
    ∀ w ∈ C.ioiStores tag, w.region.Within ioiSize := by
  apply (appended_within_iff (Nat.zero_le _)).mpr
  have hlen : (C.ioiPieces tag).flatten.length = pathLength tag := ioiLen_eq tag
  have hle := pathLength_le tag htag
  simp only [hlen, ioiSize]
  omega

/-- Whatever the buffer held before, the path is read from it. -/
theorem ioi_eq (stack : Buffer ioiSize) (htag : tag.length ≤ 250) :
    C.ioi stack tag = (symbolicIoiPath tag).1 := by
  have hle := pathLength_le tag htag
  have hlen : (C.ioiPieces tag).flatten.length = pathLength tag := ioiLen_eq tag
  rw [← ioiPieces_flatten]
  apply Buffer.read_appended stack
  simp only [hlen, ioiSize]
  omega

theorem readPieces_flatten (stack : Buffer ioiSize) (htag : tag.length ≤ 250) :
    (C.readPieces stack tag).flatten = readRequest tag := by
  simp [C.readPieces, readRequest, ioi_eq tag stack htag, words_eq]

theorem writePieces_flatten (stack : Buffer ioiSize) (handle : UInt16) (data : List UInt8)
    (htag : tag.length ≤ 250) :
    (C.writePieces stack tag handle data).flatten = writeRequest tag handle data := by
  simp [C.writePieces, writeRequest, ioi_eq tag stack htag, words_eq]

theorem readRequest_length : (readRequest tag).length = 4 + pathLength tag := by
  simp [readRequest, symbolicIoiPath_length]
  omega

theorem writeRequest_length (handle : UInt16) (data : List UInt8) :
    (writeRequest tag handle data).length = writeLength tag data := by
  simp [writeRequest, symbolicIoiPath_length, writeLength]
  omega

end Lengths

/-- All that `bp_client_write_struct` stores lies in its buffers, and a request
that is too long is refused before any IPC. -/
structure Bounded (tag : List UInt8) (handle : UInt16) (data : CRequest) : Prop where
  ioi : ∀ w ∈ C.ioiStores tag, w.region.Within ioiSize
  req : ∀ stack, ∀ w ∈ appended 0 (C.writePieces stack tag handle data.bytes),
    w.region.Within writeReqSize
  refused : ∀ stack req slot,
    msgMaxReq < (C.writePieces stack tag handle data.bytes).flatten.length →
      C.writeStruct stack req slot tag handle data = .refused .paramRange

section CSend

variable {tag : StructTag} {handle : UInt16} {slot : UInt8} {stack : Buffer ioiSize}

theorem CRequest.size_ne_zero {data : CRequest} (hdata : data.bytes ≠ []) : data.size ≠ 0 := by
  intro hzero
  have hsize := data.size_toNat
  rw [hzero] at hsize
  exact hdata (List.eq_nil_of_length_eq_zero hsize.symm)

theorem StructTag.accepted (tag : StructTag) :
    ¬ (tag.bytes.length = 0 ∨ 250 < tag.bytes.length) := by
  have hpos := tag.pos
  have hle := tag.length_le
  omega

/-- What is left of a call of C when its buffers hold the request. -/
theorem send_of_within {size : Nat} (req : Buffer size) {pieces : List (List UInt8)}
    {respCapacity : UInt16} (h : pieces.flatten.length ≤ size) :
    C.send req slot tag.bytes pieces respCapacity =
      if msgMaxReq < pieces.flatten.length then .refused .paramRange
      else .ofSend (C.messageSend ⟨slot, pieces.flatten, UInt16.ofNat pieces.flatten.length, 5000,
        respCapacity⟩) := by
  have hioi := ioiStores_within tag.bytes tag.length_le
  have hpieces : ∀ w ∈ appended 0 pieces, w.region.Within size := by
    apply (appended_within_iff (Nat.zero_le _)).mpr
    omega
  have hread := Buffer.read_appended req (show 0 + pieces.flatten.length ≤ size by omega)
  unfold C.send
  rw [if_neg (not_not.mpr ⟨hioi, hpieces⟩), hread]

theorem send_overflow {size : Nat} (req : Buffer size) {pieces : List (List UInt8)}
    {respCapacity : UInt16} (h : size < pieces.flatten.length) :
    C.send req slot tag.bytes pieces respCapacity = .overflow := by
  have hpieces : ¬ ∀ w ∈ appended 0 pieces, w.region.Within size := by
    rw [appended_within_iff (Nat.zero_le _)]
    omega
  unfold C.send
  exact if_pos fun hall => hpieces hall.2

theorem writeStruct_eq (req : Buffer writeReqSize) {data : CRequest} (hdata : data.bytes ≠ []) :
    C.writeStruct stack req slot tag.bytes handle data =
      C.send req slot tag.bytes (C.writePieces stack tag.bytes handle data.bytes) 64 := by
  unfold C.writeStruct
  rw [if_neg tag.accepted, if_neg (CRequest.size_ne_zero hdata)]

/-- `bp_client_write_struct` stays in its buffers exactly when the request that
it assembles fits into `req`. -/
theorem write_struct_bounded_iff (tag : StructTag) (handle : UInt16) (data : CRequest)
    (hdata : data.bytes ≠ []) :
    Bounded tag.bytes handle data ↔ writeLength tag.bytes data.bytes ≤ writeReqSize := by
  have hlen : ∀ stack, (C.writePieces stack tag.bytes handle data.bytes).flatten.length =
      writeLength tag.bytes data.bytes := fun stack => by
    rw [writePieces_flatten _ _ _ _ tag.length_le, writeRequest_length]
  constructor
  · intro h
    have hreq := (appended_within_iff (Nat.zero_le _)).mp (h.req fun _ => 0)
    rwa [Nat.zero_add, hlen] at hreq
  · intro h
    refine ⟨ioiStores_within _ tag.length_le, fun stack => ?_, fun stack req slot hlong => ?_⟩
    · rw [appended_within_iff (Nat.zero_le _), Nat.zero_add, hlen]
      exact h
    · rw [writeStruct_eq req hdata, send_of_within req (by rw [hlen]; exact h), if_pos hlong]

end CSend

def xTag : StructTag := ⟨[0x78], by decide, by decide, by decide⟩

theorem write_struct_bounded_four : Bounded xTag.bytes 0x0A2C ⟨[1, 2, 3, 4], by decide⟩ :=
  (write_struct_bounded_iff xTag 0x0A2C ⟨[1, 2, 3, 4], by decide⟩ (by decide)).mpr (by decide)

def longData : CRequest := ⟨List.replicate 750 0, by rw [List.length_replicate]; decide⟩

theorem longData_ne_nil : longData.bytes ≠ [] := List.cons_ne_nil _ _

/-- With the tag `x` they make a request one byte longer than the buffer. -/
theorem writeLength_longData : writeLength xTag.bytes longData.bytes = writeReqSize + 1 := by
  rw [writeLength, longData, List.length_replicate]
  rfl

theorem write_struct_not_bounded : ¬ Bounded xTag.bytes 0x0A2C longData ∧
    C.writeStruct (fun _ => 0) (fun _ => 0) 0 xTag.bytes 0x0A2C longData = .overflow := by
  have hlen : (C.writePieces (fun _ => 0) xTag.bytes 0x0A2C longData.bytes).flatten.length =
      writeReqSize + 1 := by
    rw [writePieces_flatten _ _ _ _ xTag.length_le, writeRequest_length, writeLength_longData]
  constructor
  · intro h
    have hreq := (appended_within_iff (Nat.zero_le _)).mp (h.req fun _ => 0)
    omega
  · rw [writeStruct_eq _ longData_ne_nil]
    apply send_overflow
    omega

end BpClient.Struct
