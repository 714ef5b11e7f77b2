import BpClient.Struct.Reply

/-!
A whole call of `read_struct`: the request, what the engine puts into the slot,
and what the caller gets of it. The engine returns as much of a reply as the
request has room for.
-/

namespace BpClient.Struct

open BpClient.Lib
open BpClient.Slot (Sdk SlotBytes)
open BpClient.Ucmm
open BpClient.Conn (byteAt msgMaxSlot)

/-- What the engine stores of a reply: as many bytes as the request has room
for, and their number. -/
def engineStores (reply : List UInt8) (b : SlotBytes) : List Write :=
  let n := min (leNat (b.read msgsendResplenOff 2)) reply.length
  [⟨msgsendRespdataOff, reply.take n⟩, ⟨msgsendResplenOff, leBytes 2 n⟩]

/-- The reply that a caller with room for `respCapacity` bytes receives. -/
def exchange (ws : List Write) (reply : List UInt8) (respCapacity : Nat) (b : SlotBytes) :
    List UInt8 :=
  let filled := Buffer.write ws b
  receive (Buffer.write (engineStores reply filled) filled) respCapacity

inductive ReadEnd
  | refused (e : Refusal)
  /-- C has stored behind the end of a buffer of its request. -/
  | overflow
  /-- Bytes behind the end of the reply have been accessed. -/
  | overrun
  | replied (outcome : ReadReply)
  deriving DecidableEq, Repr

def ReadEnd.ofReply : Option ReadReply → ReadEnd
  | none => .overrun
  | some outcome => .replied outcome

/-- The request that is sent and the reply that is received, one after the
other. -/
def ReadEnd.run (call : Result) (reply : List UInt8) (respCapacity : Nat) (b : SlotBytes)
    (handle : List UInt8 → Option ReadReply) : ReadEnd :=
  match call with
  | .refused e => .refused e
  | .overflow => .overflow
  | .sent ws => .ofReply (handle (exchange ws reply respCapacity b))

def C.readStructCall (stack : Buffer ioiSize) (req : Buffer readReqSize) (slot : UInt8)
    (tag : List UInt8) (outCap : UInt16) (reply : List UInt8) (b : SlotBytes) : ReadEnd :=
  .run (C.readStruct stack req slot tag outCap) reply (C.readCapacity outCap).toNat b
    (C.readReply outCap)

def Go.readStructCall (slot : UInt8) (tag : List UInt8) (respCap : Int) (reply : List UInt8)
    (b : SlotBytes) : ReadEnd :=
  .run (Go.readStruct slot tag respCap) reply (UInt16.ofNat respCap.toNat).toNat b Go.readReply

def Python.readStructCall (slot : UInt8) (tag : List UInt8) (respCap : Int) (reply : List UInt8)
    (b : SlotBytes) : ReadEnd :=
  .run (Python.readStruct slot tag respCap) reply respCap.toNat b Python.readReply

/-- The ends that a call may have for a capacity, whatever was in the slot and
on the stack before. -/
inductive ReadCall (tag : AsciiTag) (cap : Nat) (reply : List UInt8) : Sdk → ReadEnd → Prop
  | c (stack req b) (slot : UInt8) (hslot : slot ≤ msgMaxSlot) (outCap : UInt16)
      (hcap : outCap.toNat = cap) :
      ReadCall tag cap reply .c (C.readStructCall stack req slot tag.bytes outCap reply b)
  | go (b) (slot : UInt8) (hslot : slot ≤ msgMaxSlot) :
      ReadCall tag cap reply .go (Go.readStructCall slot tag.bytes cap reply b)
  | python (b) (slot : UInt8) (hslot : slot ≤ msgMaxSlot) :
      ReadCall tag cap reply .python (Python.readStructCall slot tag.bytes cap reply b)

/-- A successful reply to a Read Tag of a structure. -/
structure SuccessReply where
  service : UInt8
  reserved : UInt8
  ext : List UInt16
  ext_length : ext.length < 256
  typeCode : UInt16
  handle : UInt16
  payload : List UInt8

namespace SuccessReply

variable (r : SuccessReply)

/-- What stands before the body. -/
def header : List UInt8 :=
  [r.service, r.reserved, 0, UInt8.ofNat r.ext.length] ++
    r.ext.flatMap fun word => leBytes 2 word.toNat

def bytes : List UInt8 :=
  r.header ++ (leBytes 2 r.typeCode.toNat ++ (leBytes 2 r.handle.toNat ++ r.payload))

end SuccessReply

/-- Of a reply that the capacity has room for the caller gets all of the payload
and the handle, and in no case a part of the payload. -/
structure Complete (sdk : Sdk) (tag : AsciiTag) (cap : Nat) (r : SuccessReply) : Prop where
  whole : r.bytes.length ≤ cap → ∀ e, ReadCall tag cap r.bytes sdk e →
    e = .replied (.ok (r.payload, r.handle))
  noPart : ∀ e, ReadCall tag cap r.bytes sdk e → ∀ payload handle,
    e = .replied (.ok (payload, handle)) → payload = r.payload ∧ handle = r.handle

/-- The capacity that an SDK passes on. -/
def passedOn (sdk : Sdk) (cap : Nat) : Nat :=
  match sdk with
  | .c => min cap 512
  | .go | .python => cap

section Exchange

variable {slot : UInt8} {req reply : List UInt8} {reqSize timeoutMs cap : Nat}

/-- The capacity is where the engine looks for it. -/
theorem read_respCapacity (h : cap < 2 ^ 16) (b : SlotBytes) :
    leNat ((Buffer.write (msgFill slot req reqSize timeoutMs cap) b).read msgsendResplenOff 2) =
      cap := by
  apply Buffer.leNat_read_of_le (k := 2) b rfl h
  · simp [msgFill, msgsendResplenOff, msgsendSlotOff, msgsendTimeoutOff]
  · decide

/-- The caller receives the beginning of the reply, up to the capacity. -/
theorem exchange_eq (h : cap < 2 ^ 16) (b : SlotBytes) :
    exchange (msgFill slot req reqSize timeoutMs cap) reply cap b = reply.take cap := by
  have hn : min cap reply.length < 2 ^ 16 := by omega
  unfold exchange receive engineStores
  simp only [read_respCapacity h]
  rw [Buffer.leNat_read_of_le (k := 1) _ rfl hn (by simp) (by decide)]
  have hmin : min (min cap reply.length) cap = (reply.take (min cap reply.length)).length := by
    rw [List.length_take]
    omega
  have hback : ∀ v ∈ ([⟨msgsendResplenOff, leBytes 2 (min cap reply.length)⟩] : List Write),
      v.region.Disjoint ⟨msgsendRespdataOff, (reply.take (min cap reply.length)).length⟩ := by
    intro v hv
    rw [List.mem_singleton] at hv
    subst hv
    apply Region.disjoint_of_le_off
    simp only [Region.stop, Write.region, msgsendRespdataOff, msgsendResplenOff, List.length_take]
    omega
  have hin : msgsendRespdataOff + (reply.take (min cap reply.length)).length ≤ Tag.slotStride := by
    simp only [List.length_take, msgsendRespdataOff, Tag.slotStride]
    omega
  have hread := Buffer.read_write [] _ (reply.take (min cap reply.length))
    (Buffer.write (msgFill slot req reqSize timeoutMs cap) b) hback hin
  rw [List.nil_append] at hread
  rw [hmin, hread, ← List.take_take, List.take_length]

end Exchange

namespace SuccessReply

variable {r : SuccessReply}

theorem header_length (r : SuccessReply) : r.header.length = 4 + r.ext.length * 2 := by
  have hwords : ∀ words : List UInt16,
      (words.flatMap fun word => leBytes 2 word.toNat).length = words.length * 2 := by
    intro words
    induction words with
    | nil => rfl
    | cons word rest ih =>
        rw [List.flatMap_cons, List.length_append, ih, leBytes_length, List.length_cons]
        omega
  rw [header, List.length_append, hwords]
  rfl

theorem bytes_length (r : SuccessReply) :
    r.bytes.length = r.header.length + 4 + r.payload.length := by
  simp only [bytes, List.length_append, leBytes_length]
  omega

theorem byteAt_take {resp : List UInt8} {n i : Nat} (h : i < n) :
    byteAt (resp.take n) i = byteAt resp i := by
  simp only [byteAt, List.getD_eq_getElem?_getD, List.getElem?_take_of_lt h]

theorem bodyOff_take {n : Nat} (h : 16 ≤ n) : bodyOff (r.bytes.take n) = r.header.length := by
  have hext : byteAt r.bytes 3 = UInt8.ofNat r.ext.length := rfl
  have hbyte : (UInt8.ofNat r.ext.length).toNat = r.ext.length :=
    UInt8.toNat_ofNat_of_lt' r.ext_length
  rw [bodyOff, byteAt_take (by omega), hext, hbyte, header_length]

/-- The handle stands where the body says. -/
theorem wordAt_handle (r : SuccessReply) : wordAt r.bytes (r.header.length + 2) = r.handle := by
  have hfront : (r.header ++ leBytes 2 r.typeCode.toNat).length = r.header.length + 2 := by simp
  have hword := wordAt_append (r.header ++ leBytes 2 r.typeCode.toNat) r.payload r.handle
  rw [hfront, List.append_assoc] at hword
  exact hword

/-- What the reply says as far as it has been received. -/
theorem readOutcome_take {n : Nat} (h : 16 ≤ n) (hbody : r.header.length + 4 ≤ n) :
    readOutcome (r.bytes.take n) =
      .ok (r.payload.take (n - (r.header.length + 4)), r.handle) := by
  have hlen := r.bytes_length
  have htake : (r.bytes.take n).length = min n r.bytes.length := List.length_take
  have hstatus : byteAt (r.bytes.take n) 2 = 0 := byteAt_take (by omega)
  unfold readOutcome
  rw [bodyOff_take h, if_neg (by omega), if_neg (not_not.mpr hstatus), if_neg (by omega)]
  have hpayload : r.bytes.drop (r.header.length + 4) = r.payload := by
    rw [bytes, ← List.append_assoc, ← List.append_assoc]
    apply List.drop_left'
    simp only [List.length_append, leBytes_length]
  have hword : wordAt (r.bytes.take n) (r.header.length + 2) = r.handle := by
    rw [← wordAt_handle, wordAt, wordAt, byteAt_take (by omega), byteAt_take (by omega)]
  rw [List.drop_take, hpayload, hword]

/-- Without its body a reply is no success. -/
theorem readOutcome_take_short {n : Nat} (h : 16 ≤ n) (hbody : n < r.header.length + 4) :
    readOutcome (r.bytes.take n) = .error .generic := by
  have hlen := r.bytes_length
  have htake : (r.bytes.take n).length = min n r.bytes.length := List.length_take
  have hstatus : byteAt (r.bytes.take n) 2 = 0 := byteAt_take (by omega)
  unfold readOutcome
  rw [bodyOff_take h, if_neg (by omega), if_neg (not_not.mpr hstatus), if_pos (by omega)]

end SuccessReply

section Ends

variable {sdk : Sdk} {tag : AsciiTag} {cap : Nat} {r : SuccessReply} {e : ReadEnd}

theorem C.readCapacity_toNat (outCap : UInt16) :
    (C.readCapacity outCap).toNat = min outCap.toNat 512 := by
  unfold C.readCapacity
  split_ifs with h
  · have hnat : 512 < outCap.toNat := UInt16.lt_iff_toNat_lt.mp h
    rw [min_eq_right hnat.le]
    rfl
  · have hnat : ¬ 512 < outCap.toNat := fun hlt => h (UInt16.lt_iff_toNat_lt.mpr hlt)
    omega

/-- A call ends as its handling of the received part of the reply does. -/
theorem ReadCall.end_eq (hlow : 16 ≤ cap) (hhigh : cap ≤ 0xFFFF) {reply : List UInt8}
    (h : ReadCall tag cap reply sdk e) :
    e = .replied (readOutcome (reply.take (passedOn sdk cap))) ∨
      e = .overrun ∧ Overruns (reply.take (passedOn sdk cap)) .read := by
  cases h with
  | c stack req b slot hslot outCap hcap =>
      subst hcap
      have hpassed := C.readCapacity_toNat outCap
      have hin : (reply.take (min outCap.toNat 512)).length ≤ outCap.toNat := by
        rw [List.length_take]
        omega
      left
      unfold C.readStructCall
      rw [C.readStruct_sends tag stack req (UInt16.le_iff_toNat_le.mpr hlow) hslot]
      simp only [ReadEnd.run]
      rw [exchange_eq (UInt16.toNat_lt _), hpassed, C.readReply_eq hin]
      rfl
  | go b slot hslot =>
      have hnat : (UInt16.ofNat (cap : Int).toNat).toNat = cap :=
        UInt16.toNat_ofNat_of_lt' (by simp only [UInt16.size]; omega)
      have hsent := Go.readStruct_sends tag (show (16 : Int) ≤ cap by omega) (by omega) hslot
      unfold Go.readStructCall
      rw [hsent, hnat]
      simp only [ReadEnd.run, Int.toNat_natCast]
      rw [exchange_eq (by omega)]
      by_cases hover : Overruns (reply.take cap) .read
      · right
        rw [Go.readReply_overruns hover]
        exact ⟨rfl, hover⟩
      · left
        rw [Go.readReply_eq hover]
        rfl
  | python b slot hslot =>
      have hsent := Python.readStruct_sends tag (show (16 : Int) ≤ cap by omega) (by omega) hslot
      left
      unfold Python.readStructCall
      rw [hsent]
      simp only [ReadEnd.run, Int.toNat_natCast]
      rw [exchange_eq (by omega), Python.readReply_eq]
      rfl

/-- Every SDK can be called. -/
theorem exists_readCall (hhigh : cap ≤ 0xFFFF) (reply : List UInt8) :
    ∃ e, ReadCall tag cap reply sdk e := by
  have hslot : (0 : UInt8) ≤ msgMaxSlot := by decide
  cases sdk with
  | c =>
      have hcap : (UInt16.ofNat cap).toNat = cap :=
        UInt16.toNat_ofNat_of_lt' (by simp only [UInt16.size]; omega)
      exact ⟨_, .c (fun _ => 0) (fun _ => 0) (fun _ => 0) 0 hslot _ hcap⟩
  | go => exact ⟨_, .go (fun _ => 0) 0 hslot⟩
  | python => exact ⟨_, .python (fun _ => 0) 0 hslot⟩

theorem passedOn_le (sdk : Sdk) (cap : Nat) : passedOn sdk cap ≤ cap := by
  cases sdk <;> simp [passedOn]

theorem le_passedOn (h : 16 ≤ cap) : 16 ≤ passedOn sdk cap := by
  cases sdk with
  | c => exact le_min h (by decide)
  | go => exact h
  | python => exact h

/-- With room for the body a call succeeds, with what it has received of the
payload. -/
theorem ReadCall.end_of_body (hlow : 16 ≤ cap) (hhigh : cap ≤ 0xFFFF)
    (hbody : r.header.length + 4 ≤ passedOn sdk cap) (h : ReadCall tag cap r.bytes sdk e) :
    e = .replied (.ok
      (r.payload.take (passedOn sdk cap - (r.header.length + 4)), r.handle)) := by
  have hpassed : 16 ≤ passedOn sdk cap := le_passedOn hlow
  rcases h.end_eq hlow hhigh with rfl | ⟨-, -, -, hover⟩
  · rw [SuccessReply.readOutcome_take hpassed hbody]
  · have hlen := r.bytes_length
    rw [SuccessReply.bodyOff_take hpassed, List.length_take] at hover
    omega

theorem ReadCall.not_ok_of_short (hlow : 16 ≤ cap) (hhigh : cap ≤ 0xFFFF)
    (hbody : passedOn sdk cap < r.header.length + 4) (h : ReadCall tag cap r.bytes sdk e)
    (payload : List UInt8) (handle : UInt16) : e ≠ .replied (.ok (payload, handle)) := by
  have hpassed : 16 ≤ passedOn sdk cap := le_passedOn hlow
  rcases h.end_eq hlow hhigh with rfl | ⟨rfl, -⟩
  · rw [SuccessReply.readOutcome_take_short hpassed hbody]
    rintro ⟨⟩
  · rintro ⟨⟩

end Ends

/-- A structure is read whole exactly when the capacity that is passed on has
room for the reply; or the caller's has not, and what is received has no body. -/
theorem read_complete_iff (sdk : Sdk) (tag : AsciiTag) (cap : Nat) (hlow : 16 ≤ cap)
    (hhigh : cap ≤ 0xFFFF) (r : SuccessReply) :
    Complete sdk tag cap r ↔ r.bytes.length ≤ passedOn sdk cap ∨
      cap < r.bytes.length ∧ passedOn sdk cap < r.header.length + 4 := by
  have hlen := r.bytes_length
  have hle := passedOn_le sdk cap
  constructor
  · intro h
    obtain ⟨e, hcall⟩ : ∃ e, ReadCall tag cap r.bytes sdk e := exists_readCall hhigh r.bytes
    by_contra hcond
    obtain ⟨hcut, hpart⟩ := not_or.mp hcond
    by_cases hbody : r.header.length + 4 ≤ passedOn sdk cap
    · have hend := hcall.end_of_body hlow hhigh hbody
      obtain ⟨hpayload, -⟩ := h.noPart e hcall _ _ hend
      have hshort := congrArg List.length hpayload
      rw [List.length_take] at hshort
      omega
    · have hwhole := h.whole (by omega) e hcall
      exact hcall.not_ok_of_short hlow hhigh (Nat.lt_of_not_le hbody) _ _ hwhole
  · intro hcond
    by_cases hbody : r.header.length + 4 ≤ passedOn sdk cap
    · have hfits : r.bytes.length ≤ passedOn sdk cap := by omega
      have hall : r.payload.take (passedOn sdk cap - (r.header.length + 4)) = r.payload :=
        List.take_of_length_le (by omega)
      have hend : ∀ e, ReadCall tag cap r.bytes sdk e →
          e = .replied (.ok (r.payload, r.handle)) := by
        intro e hcall
        rw [hcall.end_of_body hlow hhigh hbody, hall]
      refine ⟨fun _ => hend, fun e hcall payload handle he => ?_⟩
      have hsame := (hend e hcall).symm.trans he
      cases hsame
      exact ⟨rfl, rfl⟩
    · have hshort := Nat.lt_of_not_le hbody
      refine ⟨fun hroom => ?_, fun e hcall payload handle he => ?_⟩
      · omega
      · exact absurd he (hcall.not_ok_of_short hlow hhigh hshort payload handle)

def zeroReply (n : Nat) : SuccessReply :=
  ⟨0xCC, 0, [], by decide, 0x02A0, 0x0A2C, List.replicate n 0⟩

theorem zeroReply_header (n : Nat) : (zeroReply n).header.length = 4 := rfl

theorem zeroReply_payload (n : Nat) : (zeroReply n).payload.length = n := List.length_replicate

theorem zeroReply_length (n : Nat) : (zeroReply n).bytes.length = n + 8 := by
  rw [SuccessReply.bytes_length, zeroReply_header, zeroReply_payload]
  omega

theorem read_complete_four : Complete .go xAscii 600 (zeroReply 4) :=
  (read_complete_iff .go xAscii 600 (by decide) (by decide) (zeroReply 4)).mpr
    (.inl (by rw [zeroReply_length]; decide))

/-- Of a reply of 520 bytes C gets the first 512, whatever room the caller has;
Go gets 600 bytes of one that is longer. -/
theorem read_not_complete : ¬ Complete .c xAscii 600 (zeroReply 512) ∧
    ¬ Complete .go xAscii 600 (zeroReply 1000) := by
  constructor
  · intro h
    obtain ⟨e, hcall⟩ : ∃ e, ReadCall xAscii 600 (zeroReply 512).bytes .c e :=
      exists_readCall (by decide) _
    have hend := hcall.end_of_body (by decide) (by decide) (by decide)
    have hlen := congrArg List.length (h.noPart e hcall _ _ hend).1
    rw [List.length_take, zeroReply_header, zeroReply_payload, show passedOn .c 600 = 512 from rfl]
      at hlen
    omega
  · intro h
    obtain ⟨e, hcall⟩ : ∃ e, ReadCall xAscii 600 (zeroReply 1000).bytes .go e :=
      exists_readCall (by decide) _
    have hend := hcall.end_of_body (by decide) (by decide) (by decide)
    have hlen := congrArg List.length (h.noPart e hcall _ _ hend).1
    rw [List.length_take, zeroReply_header, zeroReply_payload, show passedOn .go 600 = 600 from rfl]
      at hlen
    omega

end BpClient.Struct
