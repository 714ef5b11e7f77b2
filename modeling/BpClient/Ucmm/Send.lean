import BpClient.Conn.Wire
import BpClient.Slot.Request

/-!
Unconnected messages: `bp_client_message_send` of `c/src/message.c`,
`Client.MessageSend` of `go/ocxbp/message.go` and `Client.message_send` of
`python/src/bpclient/client.py`, and the connected calls that hand their
request to it. The size of a request is 16 bits wide in C and in Go.
-/

namespace BpClient.Ucmm

open BpClient.Lib
open BpClient.Slot (Sdk SlotBytes)
open BpClient.Tag (slotStride)
open BpClient.Conn (msgMaxSlot)

def msgMaxReq : Nat := 500

def msgsendReqOff : Nat := 0x00078
def msgsendReqSizeOff : Nat := 0x19078
def msgsendRespdataOff : Nat := 0x1907A
def msgsendResplenOff : Nat := 0x3207A
def msgsendSlotOff : Nat := 0x32080
def msgsendTimeoutOff : Nat := 0x32082

inductive Refusal
  | nullArg | paramRange | slotTooLarge | notOpen
  /-- A Python exception that is not one of the SDK's. -/
  | raised
  deriving DecidableEq, Repr

/-- `bp_message_t` and `cip.Message`, without the reply. -/
structure Message where
  slot : UInt8
  cipRequest : List UInt8
  reqSize : UInt16
  timeoutMs : UInt16
  respCapacity : UInt16
  deriving DecidableEq, Repr

/-- Python's `Message`; 0 as the size stands for the length of the request. -/
structure PyMessage where
  slot : UInt8
  cipRequest : List UInt8
  reqSize : Nat
  timeoutMs : Nat
  respCapacity : Nat
  deriving DecidableEq, Repr

/-- `msg_fill`, `EncodeMessageSend` and Python's `fill`. -/
def msgFill (slot : UInt8) (cipRequest : List UInt8) (reqSize timeoutMs respCapacity : Nat) :
    List Write :=
  [⟨msgsendReqOff, cipRequest.take reqSize⟩,
    ⟨msgsendReqSizeOff, leBytes 2 reqSize⟩,
    ⟨msgsendResplenOff, leBytes 2 respCapacity⟩,
    ⟨msgsendSlotOff, [slot]⟩,
    ⟨msgsendTimeoutOff, leBytes 2 timeoutMs⟩]

def Message.fill (m : Message) : List Write :=
  msgFill m.slot m.cipRequest m.reqSize.toNat m.timeoutMs.toNat m.respCapacity.toNat

/-- What `msg_read`, `DecodeMessageSend` and Python's `read` take from a reply
for a caller whose buffer has `respCapacity` bytes. -/
def receive (b : SlotBytes) (respCapacity : Nat) : List UInt8 :=
  b.read msgsendRespdataOff (min (leNat (b.read msgsendResplenOff 2)) respCapacity)

/-- `bp_client_message_send` up to the call: what it fills the slot with. -/
def C.messageSend (m : Message) : Except Refusal (List Write) :=
  if m.reqSize = 0 ∨ msgMaxReq < m.reqSize.toNat then .error .paramRange
  else if m.respCapacity = 0 then .error .nullArg
  else if msgMaxSlot < m.slot then .error .slotTooLarge
  else .ok m.fill

def Go.messageSend (m : Message) : Except Refusal (List Write) :=
  if m.reqSize = 0 ∨ msgMaxReq < m.reqSize.toNat then .error .paramRange
  else if m.respCapacity = 0 then .error .nullArg
  else if msgMaxSlot < m.slot then .error .slotTooLarge
  else if m.cipRequest.length < m.reqSize.toNat then .error .paramRange
  else .ok m.fill

/-- Python's `message_send` up to the post; `pack_into` raises when a number
does not fit in its field. -/
def Python.messageSend (m : PyMessage) : Except Refusal (List Write) :=
  let reqSize := if 0 < m.reqSize then m.reqSize else m.cipRequest.length
  if m.cipRequest = [] then .error .paramRange
  else if msgMaxReq < reqSize then .error .paramRange
  else if m.respCapacity = 0 then .error .nullArg
  else if msgMaxSlot < m.slot then .error .slotTooLarge
  else if m.cipRequest.length < reqSize then .error .paramRange
  else if 2 ^ 16 ≤ m.respCapacity ∨ 2 ^ 16 ≤ m.timeoutMs then .error .raised
  else .ok (msgFill m.slot m.cipRequest reqSize m.timeoutMs m.respCapacity)

/-- A request as a C caller passes it: a pointer and a 16-bit size. -/
structure CRequest where
  bytes : List UInt8
  length_lt : bytes.length < 2 ^ 16

def CRequest.size (r : CRequest) : UInt16 := UInt16.ofNat r.bytes.length

theorem CRequest.size_toNat (r : CRequest) : r.size.toNat = r.bytes.length :=
  UInt16.toNat_ofNat_of_lt' r.length_lt

section TxRx

variable (conn : Option UInt8)

/-- `bp_client_txrx_msg`, given the slot of the connection under the caller's
app_handle. -/
def C.txrxMsg (req : CRequest) (respCapacity : UInt16) : Except Refusal (List Write) :=
  if req.size = 0 ∨ respCapacity = 0 then .error .nullArg
  else match conn with
    | none => .error .notOpen
    | some slot => C.messageSend ⟨slot, req.bytes, req.size, 5000, respCapacity⟩

def Go.txRxMsg (req : List UInt8) (respCap : UInt16) : Except Refusal (List Write) :=
  if req.length = 0 ∨ respCap = 0 then .error .nullArg
  else match conn with
    | none => .error .notOpen
    | some slot => Go.messageSend ⟨slot, req, UInt16.ofNat req.length, 5000, respCap⟩

def Python.txrxMsg (req : List UInt8) (respCapacity : Nat) : Except Refusal (List Write) :=
  if req = [] ∨ respCapacity = 0 then .error .nullArg
  else match conn with
    | none => .error .notOpen
    | some slot => Python.messageSend ⟨slot, req, 0, 5000, respCapacity⟩

end TxRx

/-- What a pool call finds: its own refusal (no pool, the pool is closing, every
entry is dead), or the connection of the entry it has got. -/
abbrev Acquired := Except Refusal (Option UInt8)

def C.poolTxrx (slot : UInt8) (acquired : Acquired) (req : CRequest) (respCapacity : UInt16) :
    Except Refusal (List Write) :=
  if req.size = 0 ∨ respCapacity = 0 then .error .nullArg
  else if msgMaxSlot < slot then .error .slotTooLarge
  else acquired.bind fun conn => C.txrxMsg conn req respCapacity

def Go.poolTxRx (slot : UInt8) (acquired : Acquired) (req : List UInt8) (respCap : UInt16) :
    Except Refusal (List Write) :=
  if req.length = 0 ∨ respCap = 0 then .error .nullArg
  else if msgMaxSlot < slot then .error .slotTooLarge
  else acquired.bind fun conn => Go.txRxMsg conn req respCap

def Python.poolTxrx (slot : UInt8) (acquired : Acquired) (req : List UInt8) (respCapacity : Nat) :
    Except Refusal (List Write) :=
  if req = [] ∨ respCapacity = 0 then .error .nullArg
  else if msgMaxSlot < slot then .error .slotTooLarge
  else acquired.bind fun conn => Python.txrxMsg conn req respCapacity

/-- The slot has these bytes as its request, and their number as its size. -/
structure SentWhole (req : List UInt8) (ws : List Write) : Prop where
  bytes : ∀ b : SlotBytes, (Buffer.write ws b).read msgsendReqOff req.length = req
  size : ∀ b : SlotBytes, leNat ((Buffer.write ws b).read msgsendReqSizeOff 2) = req.length

/-- A call sends the request whole or nothing, and nothing of one that is too
long. -/
structure WholeOrRefused (req : List UInt8) (outcome : Except Refusal (List Write)) : Prop where
  sent : ∀ ws, outcome = .ok ws → SentWhole req ws
  refused : msgMaxReq < req.length → ∃ e, outcome = .error e

/-- The outcomes of the calls that an SDK has for a request, whatever state the
client, its connections and its pools are in. -/
inductive Outcome (req : List UInt8) : Sdk → Except Refusal (List Write) → Prop
  | cTxrx (r : CRequest) (hr : r.bytes = req) (conn respCapacity) :
      Outcome req .c (C.txrxMsg conn r respCapacity)
  | cPool (r : CRequest) (hr : r.bytes = req) (slot acquired respCapacity) :
      Outcome req .c (C.poolTxrx slot acquired r respCapacity)
  | goTxRx (conn respCap) : Outcome req .go (Go.txRxMsg conn req respCap)
  | goPool (slot acquired respCap) : Outcome req .go (Go.poolTxRx slot acquired req respCap)
  | pyTxrx (conn respCapacity) : Outcome req .python (Python.txrxMsg conn req respCapacity)
  | pyPool (slot acquired respCapacity) :
      Outcome req .python (Python.poolTxrx slot acquired req respCapacity)

section Fill

variable {req : List UInt8} {slot : UInt8} {timeoutMs respCapacity reqSize : Nat}

/-- The size field says what the message says. -/
theorem read_reqSize (h : reqSize < 2 ^ 16) (b : SlotBytes) :
    leNat ((Buffer.write (msgFill slot req reqSize timeoutMs respCapacity) b).read
      msgsendReqSizeOff 2) = reqSize := by
  apply Buffer.leNat_read_of_le (k := 1) b rfl h
  · simp [msgFill, msgsendReqSizeOff, msgsendResplenOff, msgsendSlotOff, msgsendTimeoutOff]
  · decide

/-- The fields of a message lie one behind the other in the slot. -/
theorem sentWhole_msgFill (h : req.length ≤ msgMaxReq) :
    SentWhole req (msgFill slot req req.length timeoutMs respCapacity) := by
  have hlen : msgsendReqOff + req.length ≤ msgsendReqSizeOff := by
    simp only [msgMaxReq, msgsendReqOff, msgsendReqSizeOff] at h ⊢
    omega
  constructor
  · intro b
    rw [msgFill, List.take_length]
    apply Buffer.read_write [] _ req b
    · intro v hv
      apply Region.disjoint_of_le_off
      have hoff : msgsendReqSizeOff ≤ v.off := by
        simp only [List.mem_cons, List.not_mem_nil, or_false] at hv
        rcases hv with rfl | rfl | rfl | rfl <;>
          simp [msgsendReqSizeOff, msgsendResplenOff, msgsendSlotOff, msgsendTimeoutOff]
      exact hlen.trans hoff
    · exact hlen.trans (by decide)
  · intro b
    apply read_reqSize
    simp only [msgMaxReq] at h
    omega

/-- A message that says its size rightly is sent whole or refused. -/
theorem wholeOrRefused_of_fill {outcome : Except Refusal (List Write)}
    (h : ∀ ws, outcome = .ok ws → req.length ≤ msgMaxReq ∧
      ∃ slot timeoutMs respCapacity, ws = msgFill slot req req.length timeoutMs respCapacity) :
    WholeOrRefused req outcome := by
  constructor
  · intro ws hws
    obtain ⟨hlen, slot, timeoutMs, respCapacity, rfl⟩ := h ws hws
    exact sentWhole_msgFill hlen
  · intro hlong
    cases outcome with
    | error e => exact ⟨e, rfl⟩
    | ok ws => exact absurd (h ws rfl).1 (Nat.not_le.mpr hlong)

theorem C.messageSend_ok {m : Message} {ws : List Write} (h : C.messageSend m = .ok ws) :
    m.reqSize.toNat ≤ msgMaxReq ∧ ws = m.fill := by
  unfold C.messageSend at h
  split_ifs at h with hsize
  cases h
  exact ⟨Nat.le_of_not_lt fun hlong => hsize (.inr hlong), rfl⟩

theorem Go.messageSend_ok {m : Message} {ws : List Write} (h : Go.messageSend m = .ok ws) :
    m.reqSize ≠ 0 ∧ m.reqSize.toNat ≤ msgMaxReq ∧ ws = m.fill := by
  unfold Go.messageSend at h
  split_ifs at h with hsize
  cases h
  exact ⟨fun hzero => hsize (.inl hzero), Nat.le_of_not_lt fun hlong => hsize (.inr hlong), rfl⟩

theorem Python.messageSend_ok {slot : UInt8} {ws : List Write}
    (h : Python.messageSend ⟨slot, req, 0, timeoutMs, respCapacity⟩ = .ok ws) :
    req.length ≤ msgMaxReq ∧ ws = msgFill slot req req.length timeoutMs respCapacity := by
  unfold Python.messageSend at h
  simp only [lt_irrefl, if_false] at h
  split_ifs at h with _ hlong
  cases h
  exact ⟨Nat.le_of_not_lt hlong, rfl⟩

/-- A message whose size is that of its request, when that fits. -/
theorem Message.fill_eq (hlen : req.length ≤ msgMaxReq) (timeoutMs respCapacity : UInt16) :
    Message.fill ⟨slot, req, UInt16.ofNat req.length, timeoutMs, respCapacity⟩ =
      msgFill slot req req.length timeoutMs.toNat respCapacity.toNat := by
  have hsize : (UInt16.ofNat req.length).toNat = req.length := by
    apply UInt16.toNat_ofNat_of_lt'
    simp only [msgMaxReq] at hlen
    simp only [UInt16.size]
    omega
  unfold Message.fill
  rw [hsize]

/-- The size of a request that fits passes the check. -/
theorem size_accepted (hpos : req ≠ []) (hlen : req.length ≤ msgMaxReq) :
    ¬ (UInt16.ofNat req.length = 0 ∨ msgMaxReq < (UInt16.ofNat req.length).toNat) := by
  have hsize : (UInt16.ofNat req.length).toNat = req.length % 2 ^ 16 := UInt16.toNat_ofNat'
  have hne := List.length_pos_iff.mpr hpos
  have hlen' := hlen
  simp only [msgMaxReq] at hlen'
  rintro (hzero | hlong)
  · rw [hzero] at hsize
    have : (0 : UInt16).toNat = 0 := rfl
    omega
  · omega

theorem C.messageSend_of_fits (hpos : req ≠ []) (hlen : req.length ≤ msgMaxReq)
    (hslot : slot ≤ msgMaxSlot) (timeoutMs : UInt16) {cap : UInt16} (hcap : cap ≠ 0) :
    C.messageSend ⟨slot, req, UInt16.ofNat req.length, timeoutMs, cap⟩ =
      .ok (msgFill slot req req.length timeoutMs.toNat cap.toNat) := by
  unfold C.messageSend
  rw [if_neg (size_accepted hpos hlen), if_neg hcap, if_neg (UInt8.not_lt.mpr hslot),
    Message.fill_eq hlen]

theorem Go.messageSend_of_fits (hpos : req ≠ []) (hlen : req.length ≤ msgMaxReq)
    (hslot : slot ≤ msgMaxSlot) (timeoutMs : UInt16) {cap : UInt16} (hcap : cap ≠ 0) :
    Go.messageSend ⟨slot, req, UInt16.ofNat req.length, timeoutMs, cap⟩ =
      .ok (msgFill slot req req.length timeoutMs.toNat cap.toNat) := by
  have hfits : ¬ req.length < (UInt16.ofNat req.length).toNat := by
    rw [UInt16.toNat_ofNat']
    exact Nat.not_lt.mpr (Nat.mod_le _ _)
  unfold Go.messageSend
  rw [if_neg (size_accepted hpos hlen), if_neg hcap, if_neg (UInt8.not_lt.mpr hslot), if_neg hfits,
    Message.fill_eq hlen]

theorem Python.messageSend_of_fits (hpos : req ≠ []) (hlen : req.length ≤ msgMaxReq)
    (hslot : slot ≤ msgMaxSlot) (htimeout : timeoutMs < 2 ^ 16) (hcap : respCapacity ≠ 0)
    (hcap' : respCapacity < 2 ^ 16) :
    Python.messageSend ⟨slot, req, 0, timeoutMs, respCapacity⟩ =
      .ok (msgFill slot req req.length timeoutMs respCapacity) := by
  have hnums : ¬ (2 ^ 16 ≤ respCapacity ∨ 2 ^ 16 ≤ timeoutMs) := by omega
  unfold Python.messageSend
  simp only [lt_irrefl, if_false, if_neg hpos, if_neg (Nat.not_lt.mpr hlen), if_neg hcap,
    if_neg (UInt8.not_lt.mpr hslot), if_neg hnums]

end Fill

section Calls

variable {req : List UInt8} {outcome : Except Refusal (List Write)} {conn : Option UInt8}
  {ws : List Write}

theorem C.txrxMsg_ok {r : CRequest} {respCapacity : UInt16}
    (h : C.txrxMsg conn r respCapacity = .ok ws) : r.bytes.length ≤ msgMaxReq ∧
      ∃ slot timeoutMs cap, ws = msgFill slot r.bytes r.bytes.length timeoutMs cap := by
  unfold C.txrxMsg at h
  split_ifs at h
  cases conn with
  | none => cases h
  | some slot =>
      obtain ⟨hlen, rfl⟩ := C.messageSend_ok h
      rw [r.size_toNat] at hlen
      refine ⟨hlen, slot, 5000, respCapacity.toNat, ?_⟩
      rw [Message.fill, r.size_toNat]
      rfl

theorem Python.txrxMsg_ok {respCapacity : Nat} (h : Python.txrxMsg conn req respCapacity = .ok ws) :
    req.length ≤ msgMaxReq ∧
      ∃ slot timeoutMs cap, ws = msgFill slot req req.length timeoutMs cap := by
  unfold Python.txrxMsg at h
  split_ifs at h
  cases conn with
  | none => cases h
  | some slot =>
      obtain ⟨hlen, rfl⟩ := Python.messageSend_ok h
      exact ⟨hlen, slot, _, _, rfl⟩

/-- Go checks the size that is left of the length. -/
theorem Go.txRxMsg_ok {respCap : UInt16} (h : Go.txRxMsg conn req respCap = .ok ws) :
    1 ≤ req.length % 2 ^ 16 ∧ req.length % 2 ^ 16 ≤ msgMaxReq ∧
      ∃ slot timeoutMs cap, ws = msgFill slot req (req.length % 2 ^ 16) timeoutMs cap := by
  unfold Go.txRxMsg at h
  split_ifs at h
  cases conn with
  | none => cases h
  | some slot =>
      obtain ⟨hzero, hlen, rfl⟩ := Go.messageSend_ok h
      have hsize : (UInt16.ofNat req.length).toNat = req.length % 2 ^ 16 := UInt16.toNat_ofNat'
      have hpos : req.length % 2 ^ 16 ≠ 0 := by
        rw [← hsize]
        exact fun h => hzero (UInt16.toNat_inj.mp h)
      rw [hsize] at hlen
      refine ⟨Nat.one_le_iff_ne_zero.mpr hpos, hlen, slot, 5000, respCap.toNat, ?_⟩
      rw [Message.fill, hsize]
      rfl

/-- A pool call does what the connected call does that it makes. -/
theorem bind_ok {acquired : Acquired} {send : Option UInt8 → Except Refusal (List Write)}
    (h : acquired.bind send = .ok ws) : ∃ conn, send conn = .ok ws := by
  cases acquired with
  | error e => cases h
  | ok conn => exact ⟨conn, h⟩

theorem C.poolTxrx_ok {slot : UInt8} {acquired : Acquired} {r : CRequest} {respCapacity : UInt16}
    (h : C.poolTxrx slot acquired r respCapacity = .ok ws) :
    ∃ conn, C.txrxMsg conn r respCapacity = .ok ws := by
  unfold C.poolTxrx at h
  split_ifs at h
  exact bind_ok h

theorem Go.poolTxRx_ok {slot : UInt8} {acquired : Acquired} {respCap : UInt16}
    (h : Go.poolTxRx slot acquired req respCap = .ok ws) :
    ∃ conn, Go.txRxMsg conn req respCap = .ok ws := by
  unfold Go.poolTxRx at h
  split_ifs at h
  exact bind_ok h

theorem Python.poolTxrx_ok {slot : UInt8} {acquired : Acquired} {respCapacity : Nat}
    (h : Python.poolTxrx slot acquired req respCapacity = .ok ws) :
    ∃ conn, Python.txrxMsg conn req respCapacity = .ok ws := by
  unfold Python.poolTxrx at h
  split_ifs at h
  exact bind_ok h

/-- The lengths of which Go sends only the beginning. -/
def Wraps (n : Nat) : Prop := msgMaxReq < n ∧ 1 ≤ n % 2 ^ 16 ∧ n % 2 ^ 16 ≤ msgMaxReq

theorem Go.wholeOrRefused (hwraps : ¬ Wraps req.length)
    (h : ∀ ws, outcome = .ok ws → ∃ conn respCap, Go.txRxMsg conn req respCap = .ok ws) :
    WholeOrRefused req outcome := by
  apply wholeOrRefused_of_fill
  intro ws hws
  obtain ⟨conn, respCap, hmsg⟩ := h ws hws
  obtain ⟨hpos, hle, slot, timeoutMs, cap, rfl⟩ := Go.txRxMsg_ok hmsg
  have hlen : req.length ≤ msgMaxReq := Nat.le_of_not_lt fun hlong => hwraps ⟨hlong, hpos, hle⟩
  have hmod : req.length % 2 ^ 16 = req.length := by
    apply Nat.mod_eq_of_lt
    simp only [msgMaxReq] at hlen
    omega
  refine ⟨hlen, slot, timeoutMs, cap, ?_⟩
  rw [hmod]

/-- Of a request whose length wraps, Go sends what is left of the length. -/
theorem Go.txRxMsg_of_wraps (h : Wraps req.length) : ∃ ws, Go.txRxMsg (some 0) req 1 = .ok ws := by
  obtain ⟨hlong, hpos, hle⟩ := h
  have hsize : (UInt16.ofNat req.length).toNat = req.length % 2 ^ 16 := UInt16.toNat_ofNat'
  have hne : UInt16.ofNat req.length ≠ 0 := by
    intro hzero
    rw [hzero] at hsize
    have : (0 : UInt16).toNat = 0 := rfl
    omega
  have hnil : ¬ (req.length = 0 ∨ (1 : UInt16) = 0) := by
    rintro (hzero | hone)
    · omega
    · exact absurd hone (by decide)
  have hsmall : ¬ (UInt16.ofNat req.length = 0 ∨ msgMaxReq < (UInt16.ofNat req.length).toNat) := by
    rintro (hzero | hbig)
    · exact hne hzero
    · omega
  have hfits : ¬ req.length < (UInt16.ofNat req.length).toNat := by omega
  unfold Go.txRxMsg Go.messageSend
  simp only [if_neg hnil, if_neg hsmall, if_neg hfits]
  exact ⟨_, rfl⟩

end Calls

/-- Every request is sent whole or refused, except in Go one whose length wraps
around to an accepted size. -/
theorem request_whole_iff (sdk : Sdk) (req : List UInt8) :
    (∀ outcome, Outcome req sdk outcome → WholeOrRefused req outcome) ↔
      ¬ (sdk = .go ∧ Wraps req.length) := by
  constructor
  · rintro h ⟨rfl, hwraps⟩
    obtain ⟨ws, hws⟩ := Go.txRxMsg_of_wraps hwraps
    obtain ⟨e, he⟩ := (h _ (.goTxRx (some 0) 1)).refused hwraps.1
    cases hws.symm.trans he
  · intro h outcome hout
    cases hout with
    | cTxrx r hr conn respCapacity =>
        subst hr
        exact wholeOrRefused_of_fill fun ws hws => C.txrxMsg_ok hws
    | cPool r hr slot acquired respCapacity =>
        subst hr
        apply wholeOrRefused_of_fill
        intro ws hws
        obtain ⟨conn, hmsg⟩ := C.poolTxrx_ok hws
        exact C.txrxMsg_ok hmsg
    | goTxRx conn respCap =>
        exact Go.wholeOrRefused (fun hwraps => h ⟨rfl, hwraps⟩) fun ws hws => ⟨conn, respCap, hws⟩
    | goPool slot acquired respCap =>
        apply Go.wholeOrRefused fun hwraps => h ⟨rfl, hwraps⟩
        intro ws hws
        obtain ⟨conn, hmsg⟩ := Go.poolTxRx_ok hws
        exact ⟨conn, respCap, hmsg⟩
    | pyTxrx conn respCapacity =>
        exact wholeOrRefused_of_fill fun ws hws => Python.txrxMsg_ok hws
    | pyPool slot acquired respCapacity =>
        apply wholeOrRefused_of_fill
        intro ws hws
        obtain ⟨conn, hmsg⟩ := Python.poolTxrx_ok hws
        exact Python.txrxMsg_ok hmsg

/-- 65540 zero bytes: the slot gets four of them. -/
theorem request_cut_off : ∃ ws, Go.txRxMsg (some 0) (List.replicate 65540 0) 1 = .ok ws ∧
    (∀ b : SlotBytes, leNat ((Buffer.write ws b).read msgsendReqSizeOff 2) = 4) ∧
    ¬ WholeOrRefused (List.replicate 65540 0) (.ok ws) := by
  have hwraps : Wraps (List.replicate 65540 (0 : UInt8)).length := by
    rw [List.length_replicate]
    exact ⟨by decide, by decide, by decide⟩
  obtain ⟨ws, hws⟩ := Go.txRxMsg_of_wraps hwraps
  obtain ⟨-, -, slot, timeoutMs, cap, rfl⟩ := Go.txRxMsg_ok hws
  refine ⟨_, hws, fun b => ?_, fun h => ?_⟩
  · rw [List.length_replicate]
    exact read_reqSize (by decide) b
  · obtain ⟨e, he⟩ := h.refused hwraps.1
    cases he

end BpClient.Ucmm
