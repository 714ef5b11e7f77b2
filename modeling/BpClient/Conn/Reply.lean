import BpClient.Conn.Wire
import BpClient.Slot.Dispatcher

/-!
How the three SDKs classify the reply to a Large Forward Open and to a
Forward_Close. C parses it in `bp_client_txrx_open` and `bp_client_txrx_close`;
Go and Python split the parse between a helper (`go/ocxbp/cip/conn.go`,
`python/src/bpclient/_conn_wire.py`) and its caller.
-/

namespace BpClient.Conn

open BpClient.Lib
open BpClient.Slot (Sdk)

/-- `CIPError`, `BpCipError`, what `bp_record_cip_error` records; without the
slot, which does not come from the reply. -/
structure CipError where
  service : UInt8
  status : UInt8
  extStatus : UInt16
  deriving DecidableEq, Repr

/-- `resp[i]`, which the code reads only behind a check of the length. -/
def byteAt (resp : List UInt8) (i : Nat) : UInt8 := resp.getD i 0

/-- The service of a rejected reply, as every SDK reports it. -/
def replyService (resp : List UInt8) : UInt8 := if 1 ≤ resp.length then byteAt resp 0 else 0

/-- The extended status of a rejected reply, as every SDK reports it. -/
def replyExtStatus (resp : List UInt8) : UInt16 :=
  if 6 ≤ resp.length ∧ byteAt resp 3 ≠ 0 then
    (byteAt resp 4).toUInt16 ||| ((byteAt resp 5).toUInt16 <<< 8)
  else 0

/-- The general status where it is read off the reply itself. -/
def replyStatus (resp : List UInt8) : UInt8 := if 3 ≤ resp.length then byteAt resp 2 else 0xFF

def cipError (resp : List UInt8) (status : UInt8) : CipError :=
  ⟨replyService resp, status, replyExtStatus resp⟩

namespace C

def openReply (resp : List UInt8) : Except CipError (UInt32 × UInt32) :=
  if resp.length < 12 ∨ (byteAt resp 0 ≠ 0xDB ∧ byteAt resp 0 ≠ 0xD4) ∨ byteAt resp 2 ≠ 0x00 then
    .error (cipError resp (replyStatus resp))
  else .ok (UInt32.ofNat (leField 4 4 resp), UInt32.ofNat (leField 8 4 resp))

def closeReply (resp : List UInt8) : Except CipError Unit :=
  if resp.length < 4 ∨ byteAt resp 0 ≠ 0xCE ∨ byteAt resp 2 ≠ 0x00 then
    .error (cipError resp (replyStatus resp))
  else .ok ()

end C

/-- What `ParseForwardOpen` and `parse_forward_open` return. -/
structure ForwardOpenReply where
  otConnId : UInt32
  toConnId : UInt32
  status : UInt8
  ok : Bool
  deriving DecidableEq, Repr

namespace Go

def parseForwardOpen (resp : List UInt8) : ForwardOpenReply :=
  if resp.length < 12 then ⟨0, 0, 0xFF, false⟩
  else if byteAt resp 0 ≠ 0xDB ∧ byteAt resp 0 ≠ 0xD4 then ⟨0, 0, byteAt resp 2, false⟩
  else
    let status := byteAt resp 2
    if status ≠ 0x00 then ⟨0, 0, status, false⟩
    else ⟨UInt32.ofNat (leField 4 4 resp), UInt32.ofNat (leField 8 4 resp), status, true⟩

def parseForwardClose (resp : List UInt8) : UInt8 × Bool :=
  if resp.length < 4 then (0xFF, false)
  else if byteAt resp 0 ≠ 0xCE then (byteAt resp 2, false)
  else (byteAt resp 2, byteAt resp 2 == 0x00)

def openReply (resp : List UInt8) : Except CipError (UInt32 × UInt32) :=
  let reply := parseForwardOpen resp
  if reply.ok then .ok (reply.otConnId, reply.toConnId)
  else .error (cipError resp reply.status)

/-- `TxRxClose` from the reply on: the status of the helper is dropped. -/
def closeReply (resp : List UInt8) : Except CipError Unit :=
  if (parseForwardClose resp).2 then .ok () else .error (cipError resp (replyStatus resp))

end Go

namespace Python

def parseForwardOpen (resp : List UInt8) : ForwardOpenReply :=
  if resp.length < 12 then ⟨0, 0, 0xFF, false⟩
  else if byteAt resp 0 ≠ 0xDB ∧ byteAt resp 0 ≠ 0xD4 then
    ⟨0, 0, if 3 ≤ resp.length then byteAt resp 2 else 0xFF, false⟩
  else
    let status := byteAt resp 2
    if status ≠ 0x00 then ⟨0, 0, status, false⟩
    else ⟨UInt32.ofNat (leField 4 4 resp), UInt32.ofNat (leField 8 4 resp), status, true⟩

def parseForwardClose (resp : List UInt8) : UInt8 × Bool :=
  if resp.length < 4 then (0xFF, false)
  else if byteAt resp 0 ≠ 0xCE then (byteAt resp 2, false)
  else (byteAt resp 2, byteAt resp 2 == 0x00)

def openReply (resp : List UInt8) : Except CipError (UInt32 × UInt32) :=
  let reply := parseForwardOpen resp
  if reply.ok then .ok (reply.otConnId, reply.toConnId)
  else .error (cipError resp reply.status)

def closeReply (resp : List UInt8) : Except CipError Unit :=
  let (status, ok) := parseForwardClose resp
  if ok then .ok () else .error (cipError resp status)

end Python

def openReply : Sdk → List UInt8 → Except CipError (UInt32 × UInt32)
  | .c => C.openReply
  | .go => Go.openReply
  | .python => Python.openReply

def closeReply : Sdk → List UInt8 → Except CipError Unit
  | .c => C.closeReply
  | .go => Go.closeReply
  | .python => Python.closeReply

def openStatus (sdk : Sdk) (resp : List UInt8) : UInt8 :=
  match sdk with
  | .c => replyStatus resp
  | .go | .python => if resp.length < 12 then 0xFF else replyStatus resp

def closeStatus (sdk : Sdk) (resp : List UInt8) : UInt8 :=
  match sdk with
  | .c | .go => replyStatus resp
  | .python => if resp.length < 4 then 0xFF else replyStatus resp

/-- The SDKs give one answer to a reply, and a rejection reports the general
status that is in it. -/
def Agreed {α : Type} (answer : Sdk → List UInt8 → Except CipError α) (resp : List UInt8) : Prop :=
  (∀ sdk sdk', answer sdk resp = answer sdk' resp) ∧
    ∀ sdk e, answer sdk resp = .error e → e.status = replyStatus resp

def answerOf {α : Type} (resp : List UInt8) (accepted : Option α) (status : UInt8) :
    Except CipError α := accepted.elim (.error (cipError resp status)) .ok

theorem replyStatus_of_le {resp : List UInt8} (h : 3 ≤ resp.length) : replyStatus resp = byteAt resp 2 :=
  if_pos h

theorem parseForwardOpen_eq (resp : List UInt8) : parseForwardOpen resp =
    if resp.length < 12 ∨ (byteAt resp 0 ≠ 0xDB ∧ byteAt resp 0 ≠ 0xD4) ∨ byteAt resp 2 ≠ 0x00 then none
    else some (UInt32.ofNat (leField 4 4 resp), UInt32.ofNat (leField 8 4 resp)) := by
  match resp with
  | [] | [_] | [_, _] => rfl
  | _ :: _ :: _ :: _ => rfl

theorem parseForwardClose_eq (resp : List UInt8) : parseForwardClose resp =
    !decide (resp.length < 4 ∨ byteAt resp 0 ≠ 0xCE ∨ byteAt resp 2 ≠ 0x00) := by
  match resp with
  | [] | [_] | [_, _] => rfl
  | svc :: _ :: status :: rest =>
      have hlen : decide (1 ≤ rest.length) = !decide (rest.length + 1 + 1 + 1 < 4) := by
        rw [← decide_not]
        exact decide_eq_decide.mpr (by omega)
      simp [parseForwardClose, byteAt, hlen]

/-- Every SDK accepts the same replies with the same connection ids; only the
general status of a rejection depends on the SDK. -/
theorem openReply_eq (resp : List UInt8) (sdk : Sdk) :
    openReply sdk resp = answerOf resp (parseForwardOpen resp) (openStatus sdk resp) := by
  rw [answerOf, parseForwardOpen_eq]
  by_cases hlen : resp.length < 12
  · cases sdk <;> simp [openReply, C.openReply, Go.openReply, Go.parseForwardOpen,
      Python.openReply, Python.parseForwardOpen, openStatus, hlen]
  · have hlong : 3 ≤ resp.length := by omega
    have hread := replyStatus_of_le hlong
    by_cases hsvc : byteAt resp 0 ≠ 0xDB ∧ byteAt resp 0 ≠ 0xD4 <;>
      by_cases hstatus : byteAt resp 2 = 0x00 <;> cases sdk <;>
      simp [openReply, C.openReply, Go.openReply, Go.parseForwardOpen, Python.openReply,
        Python.parseForwardOpen, openStatus, hlen, hlong, hsvc, hstatus, hread]

/-- As for the open, but here Go does not use the status of its helper. -/
theorem closeReply_eq (resp : List UInt8) (sdk : Sdk) : closeReply sdk resp =
    answerOf resp (if parseForwardClose resp then some () else none) (closeStatus sdk resp) := by
  rw [answerOf, parseForwardClose_eq]
  by_cases hlen : resp.length < 4
  · cases sdk <;> simp [closeReply, C.closeReply, Go.closeReply, Go.parseForwardClose,
      Python.closeReply, Python.parseForwardClose, closeStatus, hlen]
  · have hread := replyStatus_of_le (show 3 ≤ resp.length by omega)
    by_cases hsvc : byteAt resp 0 = 0xCE <;> by_cases hstatus : byteAt resp 2 = 0x00 <;>
      cases sdk <;> simp [closeReply, C.closeReply, Go.closeReply, Go.parseForwardClose,
        Python.closeReply, Python.parseForwardClose, closeStatus, hlen, hsvc, hstatus, hread]

/-- SDKs that accept alike agree when each of them reports, if the reply is
rejected, the general status that is in it. -/
theorem agreed_iff {α : Type} {answer : Sdk → List UInt8 → Except CipError α} {resp : List UInt8}
    {accepted : Option α} {status : Sdk → UInt8}
    (h : ∀ sdk, answer sdk resp = answerOf resp accepted (status sdk)) :
    Agreed answer resp ↔ (accepted = none → ∀ sdk, status sdk = replyStatus resp) := by
  cases accepted with
  | some a =>
      constructor
      · intro _ hnone
        cases hnone
      · intro _
        refine ⟨fun sdk sdk' => (h sdk).trans (h sdk').symm, fun sdk e he => ?_⟩
        cases (h sdk).symm.trans he
  | none =>
      constructor
      · rintro ⟨-, hstatus⟩ - sdk
        exact hstatus sdk _ (h sdk)
      · intro hstatus
        refine ⟨fun sdk sdk' => ?_, fun sdk e he => ?_⟩
        · rw [h sdk, h sdk', hstatus rfl sdk, hstatus rfl sdk']
        · cases (h sdk).symm.trans he
          exact hstatus rfl sdk

/-- The status of a reply that is too short for a parse gets lost in it, unless
it is the one that stands for a missing status. -/
theorem short_status {resp : List UInt8} {n : Nat} :
    (if resp.length < n then 0xFF else replyStatus resp) = replyStatus resp ↔
      ¬ (3 ≤ resp.length ∧ resp.length < n ∧ byteAt resp 2 ≠ 0xFF) := by
  by_cases hn : resp.length < n
  · by_cases hlen : 3 ≤ resp.length
    · rw [if_pos hn, replyStatus_of_le hlen]
      exact ⟨fun h hlost => hlost.2.2 h.symm, fun h => by_contra fun hne =>
        h ⟨hlen, hn, fun heq => hne heq.symm⟩⟩
    · rw [if_pos hn, replyStatus, if_neg hlen]
      exact ⟨fun _ hlost => hlen hlost.1, fun _ => rfl⟩
  · rw [if_neg hn]
    exact ⟨fun _ hlost => hn hlost.2.1, fun _ => rfl⟩

theorem parseForwardOpen_short {resp : List UInt8} (h : resp.length < 12) :
    parseForwardOpen resp = none := by
  rw [parseForwardOpen_eq, if_pos (.inl h)]

theorem parseForwardClose_short {resp : List UInt8} (h : resp.length < 4) :
    parseForwardClose resp = false := by
  simp [parseForwardClose_eq, h]

/-- The SDKs classify a reply alike exactly when it is no short one with a
status of its own. -/
theorem replies_agreed_iff (resp : List UInt8) :
    (Agreed openReply resp ↔
      ¬ (3 ≤ resp.length ∧ resp.length < 12 ∧ byteAt resp 2 ≠ 0xFF)) ∧
    (Agreed closeReply resp ↔ ¬ (resp.length = 3 ∧ byteAt resp 2 ≠ 0xFF)) := by
  refine ⟨?_, ?_⟩
  · rw [agreed_iff (openReply_eq resp), ← short_status]
    constructor
    · intro h
      by_cases hlen : resp.length < 12
      · exact h (parseForwardOpen_short hlen) .go
      · rw [if_neg hlen]
    · intro h _ sdk
      cases sdk with
      | c => rfl
      | go | python => exact h
  · have hthree : (resp.length = 3 ∧ byteAt resp 2 ≠ 0xFF) ↔
        (3 ≤ resp.length ∧ resp.length < 4 ∧ byteAt resp 2 ≠ 0xFF) := by
      rw [← and_assoc]
      exact and_congr_left fun _ => by omega
    rw [agreed_iff (closeReply_eq resp), hthree, ← short_status]
    constructor
    · intro h
      by_cases hlen : resp.length < 4
      · exact h (by simp [parseForwardClose_short hlen]) .python
      · rw [if_neg hlen]
    · intro h _ sdk
      cases sdk with
      | c | go => rfl
      | python => exact h

/-- A PLC without a free connection answers an open with six bytes, and a
connection that is not there with three bytes to its close. -/
theorem short_replies_not_agreed :
    ¬ Agreed openReply [0xDB, 0x00, 0x01, 0x01, 0x13, 0x01] ∧
      ¬ Agreed closeReply [0xCE, 0x00, 0x08] := by
  refine ⟨fun h => ?_, fun h => ?_⟩
  · exact absurd (h.1 .c .go) (by decide)
  · exact absurd (h.1 .c .python) (by decide)

end BpClient.Conn
