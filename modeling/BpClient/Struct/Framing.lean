import BpClient.Struct.Request

/-!
What a CIP target reads in the requests of `read_struct` and `write_struct`: a
parser written from the wire shapes in the comments of `struct.c`, and that it
finds the tag, the handle and the data again.
-/

namespace BpClient.Struct

open BpClient.Lib
open BpClient.Slot (SlotBytes)
open BpClient.Ucmm
open BpClient.Conn (msgMaxSlot)

/-- The name in an ANSI Extended Symbol Segment that fills the whole path. -/
def parseSymbol : List UInt8 → Option (List UInt8)
  | 0x91 :: n :: rest =>
      if rest.length = n.toNat + n.toNat % 2 ∧ (rest.drop n.toNat).all (· = 0) then
        some (rest.take n.toNat)
      else none
  | _ => none

/-- A CIP request: its service, the name in its path and what follows the
path. -/
structure CipRequest where
  service : UInt8
  tag : List UInt8
  body : List UInt8
  deriving DecidableEq, Repr

/-- The path is as many words long as the second byte says. -/
def parseRequest : List UInt8 → Option CipRequest
  | service :: words :: rest =>
      if 2 * words.toNat ≤ rest.length then
        (parseSymbol (rest.take (2 * words.toNat))).map fun tag =>
          ⟨service, tag, rest.drop (2 * words.toNat)⟩
      else none
  | _ => none

/-- The tag that a Read Tag request for one element names. -/
def parseRead (bytes : List UInt8) : Option (List UInt8) :=
  (parseRequest bytes).bind fun r =>
    if r.service = 0x4C ∧ r.body = leBytes 2 1 then some r.tag else none

/-- The tag, the handle and the data of a Write Tag request for one
abbreviated structure. -/
def parseWrite (bytes : List UInt8) : Option (List UInt8 × UInt16 × List UInt8) :=
  (parseRequest bytes).bind fun r =>
    if r.service = 0x4D ∧ leField 0 2 r.body = 0x02A0 ∧ leField 4 2 r.body = 1 ∧
        6 ≤ r.body.length then
      some (r.tag, UInt16.ofNat (leField 2 2 r.body), r.body.drop 6)
    else none

section Parse

variable {tag : List UInt8}

theorem parseSymbol_path (htag : tag.length ≤ 250) :
    parseSymbol (symbolicIoiPath tag).1 = some tag := by
  have hbyte : (UInt8.ofNat tag.length).toNat = tag.length := by
    rw [UInt8.toNat_ofNat']
    omega
  have hparity : (tag.length + 1 + 1) % 2 = tag.length % 2 := by omega
  by_cases hodd : tag.length % 2 = 1
  · simp [symbolicIoiPath, parseSymbol, hparity, hodd, hbyte]
  · have heven : tag.length % 2 = 0 := by omega
    simp [symbolicIoiPath, parseSymbol, hparity, heven, hbyte]

/-- Twice the number of words is the length of the path. -/
theorem words_toNat (htag : tag.length ≤ 250) :
    2 * (symbolicIoiPath tag).2.toNat = (symbolicIoiPath tag).1.length := by
  have hlen := symbolicIoiPath_length tag
  have hwords : (symbolicIoiPath tag).2 = UInt8.ofNat ((symbolicIoiPath tag).1.length / 2) := rfl
  rw [hwords, hlen, UInt8.toNat_ofNat']
  unfold pathLength
  omega

theorem parseRequest_path (service : UInt8) (htag : tag.length ≤ 250) (body : List UInt8) :
    parseRequest (service :: (symbolicIoiPath tag).2 :: ((symbolicIoiPath tag).1 ++ body)) =
      some ⟨service, tag, body⟩ := by
  rw [parseRequest, words_toNat htag, List.length_append, if_pos (Nat.le_add_right _ _),
    List.take_left, List.drop_left, parseSymbol_path htag, Option.map_some]

theorem parseRead_request (htag : tag.length ≤ 250) : parseRead (readRequest tag) = some tag := by
  have hshape : readRequest tag =
      0x4C :: (symbolicIoiPath tag).2 :: ((symbolicIoiPath tag).1 ++ leBytes 2 1) := rfl
  rw [hshape, parseRead, parseRequest_path _ htag]
  rfl

/-- The tag, the handle and the data of a write are found in its request. -/
theorem parseWrite_request (htag : tag.length ≤ 250) (handle : UInt16) (data : List UInt8) :
    parseWrite (writeRequest tag handle data) = some (tag, handle, data) := by
  have hshape : writeRequest tag handle data = 0x4D :: (symbolicIoiPath tag).2 ::
      ((symbolicIoiPath tag).1 ++
        ([0xA0, 0x02] ++ (leBytes 2 handle.toNat ++ (leBytes 2 1 ++ data)))) := by
    simp [writeRequest]
  have htype : leField 0 2 ([] ++ (leBytes 2 0x02A0 ++
      (leBytes 2 handle.toNat ++ (leBytes 2 1 ++ data)))) = 0x02A0 :=
    leField_append rfl (by decide)
  have hcode : leBytes 2 0x02A0 = [0xA0, 0x02] := by decide
  rw [List.nil_append, hcode] at htype
  have hhandle : leField 2 2 ([0xA0, 0x02] ++ (leBytes 2 handle.toNat ++ (leBytes 2 1 ++ data))) =
      handle.toNat := leField_append rfl handle.toNat_lt
  have hcount : leField 4 2 ([0xA0, 0x02] ++ leBytes 2 handle.toNat ++ (leBytes 2 1 ++ data)) =
      1 := leField_append (by simp) (by decide)
  rw [List.append_assoc] at hcount
  have hdrop : ([0xA0, 0x02] ++ (leBytes 2 handle.toNat ++ (leBytes 2 1 ++ data))).drop 6 =
      data := by
    rw [← List.append_assoc, ← List.append_assoc]
    exact List.drop_left' (by simp)
  rw [hshape, parseWrite, parseRequest_path _ htag, Option.bind_some, htype, hhandle, hcount,
    hdrop, UInt16.ofNat_toNat]
  simp
  omega

end Parse

/-- What holds of a write that fits into a message: one request in the three
SDKs, sent as it is, whose path has the length it says and which the parser
takes apart again. -/
structure Framed (tag : List UInt8) (handle : UInt16) (data : List UInt8) : Prop where
  words : 2 * (symbolicIoiPath tag).2.toNat = (symbolicIoiPath tag).1.length
  parse : parseWrite (writeRequest tag handle data) = some (tag, handle, data)
  c : ∀ d : CRequest, d.bytes = data → ∀ stack req, ∀ slot ≤ msgMaxSlot, ∃ ws,
    C.writeStruct stack req slot tag handle d = .sent ws ∧
      SentWhole (writeRequest tag handle data) ws
  go : ∀ slot ≤ msgMaxSlot, ∃ ws, Go.writeStruct slot tag handle data = .sent ws ∧
    SentWhole (writeRequest tag handle data) ws
  python : ∀ slot ≤ msgMaxSlot, ∃ ws,
    Python.writeStruct slot tag handle.toNat data = .sent ws ∧
      SentWhole (writeRequest tag handle data) ws

/-- What holds of a write that does not fit: the three SDKs refuse it. -/
structure TooLong (tag : List UInt8) (handle : UInt16) (data : List UInt8) : Prop where
  c : ∀ d : CRequest, d.bytes = data → ∀ stack req slot,
    C.writeStruct stack req slot tag handle d = .refused .paramRange
  go : ∀ slot, Go.writeStruct slot tag handle data = .refused .paramRange
  python : ∀ slot, Python.writeStruct slot tag handle.toNat data = .refused .paramRange

/-- What holds of a read: one request in the three SDKs, which always fits. -/
structure ReadFramed (tag : List UInt8) : Prop where
  parse : parseRead (readRequest tag) = some tag
  c : ∀ stack req outCap, 16 ≤ outCap → ∀ slot ≤ msgMaxSlot, ∃ ws,
    C.readStruct stack req slot tag outCap = .sent ws ∧ SentWhole (readRequest tag) ws
  go : ∀ respCap, 16 ≤ respCap → respCap ≤ 0xFFFF → ∀ slot ≤ msgMaxSlot, ∃ ws,
    Go.readStruct slot tag respCap = .sent ws ∧ SentWhole (readRequest tag) ws
  python : ∀ respCap, 16 ≤ respCap → respCap ≤ 0xFFFF → ∀ slot ≤ msgMaxSlot, ∃ ws,
    Python.readStruct slot tag respCap = .sent ws ∧ SentWhole (readRequest tag) ws

structure AsciiTag extends StructTag where
  ascii : ∀ b ∈ bytes, b < 0x80

/-- The framing of the struct requests is invertible, and what does not fit is
refused. -/
structure Invertible (tag : AsciiTag) (handle : UInt16) (data : List UInt8) : Prop where
  read : ReadFramed tag.bytes
  readDistinct : ∀ tag' : AsciiTag, readRequest tag.bytes = readRequest tag'.bytes →
    tag.bytes = tag'.bytes
  framed : writeLength tag.bytes data ≤ msgMaxReq → Framed tag.bytes handle data
  distinct : ∀ (tag' : AsciiTag) handle' data',
    writeRequest tag.bytes handle data = writeRequest tag'.bytes handle' data' →
      tag.bytes = tag'.bytes ∧ handle = handle' ∧ data = data'
  tooLong : msgMaxReq < writeLength tag.bytes data → TooLong tag.bytes handle data

section Framing

variable {tag : AsciiTag} {handle : UInt16} {data : List UInt8}

theorem AsciiTag.ne_nil (tag : AsciiTag) : ¬ (tag.bytes = [] ∨ 250 < tag.bytes.length) := by
  have hpos := tag.pos
  have hle := tag.length_le
  rintro (hnil | hlong)
  · rw [hnil] at hpos
    exact absurd hpos (by decide)
  · omega

theorem AsciiTag.encodes (tag : AsciiTag) : ¬ Python.ascii tag.bytes = false := by
  have hall : Python.ascii tag.bytes = true := by
    rw [Python.ascii, List.all_eq_true]
    exact fun b hb => decide_eq_true (tag.ascii b hb)
  rw [hall]
  decide

theorem readRequest_fits (tag : AsciiTag) :
    readRequest tag.bytes ≠ [] ∧ (readRequest tag.bytes).length ≤ readReqSize := by
  have hlen := readRequest_length tag.bytes
  have hle := pathLength_le tag.bytes tag.length_le
  refine ⟨fun hnil => ?_, ?_⟩
  · rw [hnil] at hlen
    simp only [List.length_nil] at hlen
    omega
  · simp only [readReqSize]
    omega

section ReadSends

variable (tag : AsciiTag) {slot : UInt8}

/-- C passes on at most the size of its reply buffer as the capacity. -/
def C.readCapacity (outCap : UInt16) : UInt16 := if 512 < outCap then 512 else outCap

theorem C.readStruct_sends (stack : Buffer ioiSize) (req : Buffer readReqSize) {outCap : UInt16}
    (hcap : 16 ≤ outCap) (hslot : slot ≤ msgMaxSlot) :
    C.readStruct stack req slot tag.bytes outCap =
      .sent (msgFill slot (readRequest tag.bytes) (readRequest tag.bytes).length 5000
        (C.readCapacity outCap).toNat) := by
  obtain ⟨hne, hfits⟩ := readRequest_fits tag
  have hle : (readRequest tag.bytes).length ≤ msgMaxReq := hfits.trans (by decide)
  have hflat := readPieces_flatten tag.bytes stack tag.length_le
  have hresp : C.readCapacity outCap ≠ 0 := by
    unfold C.readCapacity
    split
    · decide
    · rintro rfl
      exact absurd hcap (by decide)
  unfold C.readStruct
  rw [if_neg tag.accepted, if_neg (UInt16.not_lt.mpr hcap),
    send_of_within req (by rw [hflat]; exact hfits), hflat, if_neg (Nat.not_lt.mpr hle)]
  exact congrArg Result.ofSend (C.messageSend_of_fits hne hle hslot 5000 hresp)

variable {respCap : Int}

theorem Go.readStruct_sends (hlow : 16 ≤ respCap) (hhigh : respCap ≤ 0xFFFF)
    (hslot : slot ≤ msgMaxSlot) :
    Go.readStruct slot tag.bytes respCap =
      .sent (msgFill slot (readRequest tag.bytes) (readRequest tag.bytes).length 0
        respCap.toNat) := by
  obtain ⟨hne, hfits⟩ := readRequest_fits tag
  have hle : (readRequest tag.bytes).length ≤ msgMaxReq := hfits.trans (by decide)
  have hrange : ¬ (respCap < 16 ∨ 0xFFFF < respCap) := by omega
  have hnat : (UInt16.ofNat respCap.toNat).toNat = respCap.toNat :=
    UInt16.toNat_ofNat_of_lt' (by simp only [UInt16.size]; omega)
  have hcap : UInt16.ofNat respCap.toNat ≠ 0 := by
    intro hzero
    rw [hzero] at hnat
    have : (0 : UInt16).toNat = 0 := rfl
    omega
  have hsend := Go.messageSend_of_fits hne hle hslot 0 hcap
  rw [hnat] at hsend
  unfold Go.readStruct
  rw [if_neg tag.ne_nil, if_neg hrange]
  exact congrArg Result.ofSend hsend

theorem Python.readStruct_sends (hlow : 16 ≤ respCap) (hhigh : respCap ≤ 0xFFFF)
    (hslot : slot ≤ msgMaxSlot) :
    Python.readStruct slot tag.bytes respCap =
      .sent (msgFill slot (readRequest tag.bytes) (readRequest tag.bytes).length 0
        respCap.toNat) := by
  obtain ⟨hne, hfits⟩ := readRequest_fits tag
  have hle : (readRequest tag.bytes).length ≤ msgMaxReq := hfits.trans (by decide)
  have hrange : ¬ (respCap < 16 ∨ 0xFFFF < respCap) := by omega
  have hcap : respCap.toNat ≠ 0 := by omega
  unfold Python.readStruct
  rw [if_neg tag.ne_nil, if_neg hrange, if_neg tag.encodes]
  exact congrArg Result.ofSend
    (Python.messageSend_of_fits hne hle hslot (show 0 < 2 ^ 16 by decide) hcap (by omega))

end ReadSends

theorem readFramed (tag : AsciiTag) : ReadFramed tag.bytes := by
  have hle : (readRequest tag.bytes).length ≤ msgMaxReq :=
    (readRequest_fits tag).2.trans (by decide)
  refine ⟨parseRead_request tag.length_le, ?_, ?_, ?_⟩
  · intro stack req outCap hcap slot hslot
    exact ⟨_, C.readStruct_sends tag stack req hcap hslot, sentWhole_msgFill hle⟩
  · intro respCap hlow hhigh slot hslot
    exact ⟨_, Go.readStruct_sends tag hlow hhigh hslot, sentWhole_msgFill hle⟩
  · intro respCap hlow hhigh slot hslot
    exact ⟨_, Python.readStruct_sends tag hlow hhigh hslot, sentWhole_msgFill hle⟩

theorem writeRequest_ne_nil (tag : List UInt8) (handle : UInt16) (data : List UInt8) :
    writeRequest tag handle data ≠ [] := by
  simp [writeRequest]

theorem uint16_toNat_mod (handle : UInt16) : UInt16.ofNat (handle.toNat % 2 ^ 16) = handle := by
  rw [Nat.mod_eq_of_lt handle.toNat_lt, UInt16.ofNat_toNat]

section WriteSends

variable {slot : UInt8}

theorem C.writeStruct_sends (stack : Buffer ioiSize) (req : Buffer writeReqSize) {d : CRequest}
    (hdata : d.bytes ≠ []) (hfits : writeLength tag.bytes d.bytes ≤ msgMaxReq)
    (hslot : slot ≤ msgMaxSlot) :
    C.writeStruct stack req slot tag.bytes handle d =
      .sent (msgFill slot (writeRequest tag.bytes handle d.bytes)
        (writeRequest tag.bytes handle d.bytes).length 5000 64) := by
  have hle := (writeRequest_length tag.bytes handle d.bytes).trans_le hfits
  have hflat := writePieces_flatten tag.bytes stack handle d.bytes tag.length_le
  have hin : (C.writePieces stack tag.bytes handle d.bytes).flatten.length ≤ writeReqSize := by
    rw [hflat]
    exact hle.trans (by decide)
  rw [writeStruct_eq req hdata, send_of_within req hin, hflat, if_neg (Nat.not_lt.mpr hle)]
  exact congrArg Result.ofSend (C.messageSend_of_fits (writeRequest_ne_nil tag.bytes handle d.bytes)
    hle hslot 5000 (show (64 : UInt16) ≠ 0 by decide))

theorem Go.writeStruct_sends (hdata : data ≠ []) (hfits : writeLength tag.bytes data ≤ msgMaxReq)
    (hslot : slot ≤ msgMaxSlot) :
    Go.writeStruct slot tag.bytes handle data =
      .sent (msgFill slot (writeRequest tag.bytes handle data)
        (writeRequest tag.bytes handle data).length 0 64) := by
  have hle := (writeRequest_length tag.bytes handle data).trans_le hfits
  have hdata' : ¬ data.length = 0 := fun h => hdata (List.eq_nil_of_length_eq_zero h)
  unfold Go.writeStruct
  rw [if_neg tag.ne_nil, if_neg hdata']
  simp only [if_neg (Nat.not_lt.mpr hle)]
  exact congrArg Result.ofSend (Go.messageSend_of_fits (writeRequest_ne_nil tag.bytes handle data)
    hle hslot 0 (show (64 : UInt16) ≠ 0 by decide))

theorem Python.writeStruct_sends (hdata : data ≠ [])
    (hfits : writeLength tag.bytes data ≤ msgMaxReq) (hslot : slot ≤ msgMaxSlot) :
    Python.writeStruct slot tag.bytes handle.toNat data =
      .sent (msgFill slot (writeRequest tag.bytes handle data)
        (writeRequest tag.bytes handle data).length 0 64) := by
  have hle := (writeRequest_length tag.bytes handle data).trans_le hfits
  unfold Python.writeStruct
  rw [if_neg tag.ne_nil, if_neg hdata, if_neg tag.encodes]
  simp only [uint16_toNat_mod, if_neg (Nat.not_lt.mpr hle)]
  exact congrArg Result.ofSend
    (Python.messageSend_of_fits (writeRequest_ne_nil tag.bytes handle data) hle hslot
      (show 0 < 2 ^ 16 by decide) (show 64 ≠ 0 by decide) (by decide))

end WriteSends

theorem framed (hdata : data ≠ []) (hfits : writeLength tag.bytes data ≤ msgMaxReq) :
    Framed tag.bytes handle data := by
  have hle := (writeRequest_length tag.bytes handle data).trans_le hfits
  refine ⟨words_toNat tag.length_le, parseWrite_request tag.length_le handle data, ?_, ?_, ?_⟩
  · rintro d rfl stack req slot hslot
    exact ⟨_, C.writeStruct_sends stack req hdata hfits hslot, sentWhole_msgFill hle⟩
  · intro slot hslot
    exact ⟨_, Go.writeStruct_sends hdata hfits hslot, sentWhole_msgFill hle⟩
  · intro slot hslot
    exact ⟨_, Python.writeStruct_sends hdata hfits hslot, sentWhole_msgFill hle⟩

/-- Go and Python look at the length before anything is sent. -/
theorem go_python_tooLong (hdata : data ≠ []) (hlong : msgMaxReq < writeLength tag.bytes data) :
    (∀ slot, Go.writeStruct slot tag.bytes handle data = .refused .paramRange) ∧
      ∀ slot, Python.writeStruct slot tag.bytes handle.toNat data = .refused .paramRange := by
  rw [← writeRequest_length tag.bytes handle data] at hlong
  refine ⟨fun slot => ?_, fun slot => ?_⟩
  · have hdata' : ¬ data.length = 0 := fun h => hdata (List.eq_nil_of_length_eq_zero h)
    unfold Go.writeStruct
    rw [if_neg tag.ne_nil, if_neg hdata']
    exact if_pos hlong
  · unfold Python.writeStruct
    rw [if_neg tag.ne_nil, if_neg hdata, if_neg tag.encodes]
    simp only [uint16_toNat_mod, if_pos hlong]

end Framing

/-- The struct requests can be read back and are refused when they are too long,
exactly as long as C can hold what it assembles before it looks at the length,
or cannot be given such data at all. -/
theorem struct_invertible_iff (tag : AsciiTag) (handle : UInt16) (data : List UInt8)
    (hdata : data ≠ []) : Invertible tag handle data ↔
      writeLength tag.bytes data ≤ writeReqSize ∨ 2 ^ 16 ≤ data.length := by
  have hflat : ∀ stack, (C.writePieces stack tag.bytes handle data).flatten.length =
      writeLength tag.bytes data := fun stack => by
    rw [writePieces_flatten _ _ _ _ tag.length_le, writeRequest_length]
  constructor
  · intro h
    by_contra hcond
    obtain ⟨hlong, hshort⟩ := not_or.mp hcond
    have hreq : msgMaxReq < writeLength tag.bytes data := by
      simp only [writeReqSize, msgMaxReq] at hlong ⊢
      omega
    have hrefused := (h.tooLong hreq).c ⟨data, Nat.lt_of_not_le hshort⟩ rfl (fun _ => 0)
      (fun _ => 0) 0
    rw [writeStruct_eq _ hdata, send_overflow _ (by rw [hflat]; omega)] at hrefused
    cases hrefused
  · intro hcond
    refine ⟨readFramed tag, ?_, framed hdata, ?_, fun hlong => ?_⟩
    · intro tag' hsame
      have hparse := parseRead_request tag.length_le
      rw [hsame, parseRead_request tag'.length_le] at hparse
      exact (Option.some.inj hparse).symm
    · intro tag' handle' data' hsame
      have hparse := parseWrite_request tag.length_le handle data
      rw [hsame, parseWrite_request tag'.length_le] at hparse
      obtain ⟨htag, hhandle, hdata⟩ : tag'.bytes = tag.bytes ∧ handle' = handle ∧ data' = data := by
        simpa using hparse
      exact ⟨htag.symm, hhandle.symm, hdata.symm⟩
    · obtain ⟨hgo, hpython⟩ := go_python_tooLong hdata hlong
      refine ⟨?_, hgo, hpython⟩
      rintro d rfl stack req slot
      have hin : writeLength tag.bytes d.bytes ≤ writeReqSize :=
        hcond.resolve_right (Nat.not_le.mpr d.length_lt)
      rw [writeStruct_eq req hdata, send_of_within req (by rw [hflat]; exact hin), hflat,
        if_pos hlong]

theorem xTag_ascii : ∀ b ∈ xTag.bytes, b < 0x80 := by
  intro b hb
  rw [List.mem_singleton.mp hb]
  decide

def xAscii : AsciiTag := ⟨xTag, xTag_ascii⟩

theorem struct_invertible_four : Invertible xAscii 0x0A2C [1, 2, 3, 4] :=
  (struct_invertible_iff xAscii 0x0A2C [1, 2, 3, 4] (by decide)).mpr (.inl (by decide))

/-- The request for 750 bytes is not refused. -/
theorem not_invertible_long : ¬ Invertible xAscii 0x0A2C longData.bytes := by
  intro h
  have hlong : msgMaxReq < writeLength xAscii.bytes longData.bytes := by
    rw [show xAscii.bytes = xTag.bytes from rfl, writeLength_longData]
    decide
  have hrefused := (h.tooLong hlong).c longData rfl (fun _ => 0) (fun _ => 0) 0
  rw [writeStruct_eq _ longData_ne_nil, send_overflow] at hrefused
  · cases hrefused
  · rw [writePieces_flatten _ _ _ _ xAscii.length_le, writeRequest_length,
      show xAscii.bytes = xTag.bytes from rfl, writeLength_longData]
    exact Nat.lt_succ_self _

end BpClient.Struct
