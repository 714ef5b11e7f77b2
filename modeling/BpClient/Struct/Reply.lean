import BpClient.Conn.Reply
import BpClient.Struct.Framing

/-!
How the three SDKs take the replies to `read_struct` and `write_struct` apart.
Every access to the reply is checked: the handling of a reply is `none` when the
code accesses a byte that the reply does not have.
-/

namespace BpClient.Struct

open BpClient.Lib
open BpClient.Conn (CipError byteAt)

inductive ReplyError
  | generic | paramRange
  | cip (e : CipError)
  deriving DecidableEq, Repr

abbrev ReadReply := Except ReplyError (List UInt8 × UInt16)

abbrev WriteReply := Except ReplyError Unit

def u16At (resp : List UInt8) (i : Nat) : Option UInt16 := do
  let lo ← resp[i]?
  let hi ← resp[i + 1]?
  some (lo.toUInt16 ||| (hi.toUInt16 <<< 8))

def bytesAt (resp : List UInt8) (off len : Nat) : Option (List UInt8) :=
  if off + len ≤ resp.length then some ((resp.drop off).take len) else none

/-- Go's `r[off:]`, which panics behind the end. -/
def sliceFrom (resp : List UInt8) (off : Nat) : Option (List UInt8) :=
  if off ≤ resp.length then some (resp.drop off) else none

/-- The number of extended words in a reply to a write, in C and in Python. -/
def writeExtWords (resp : List UInt8) : Option UInt8 :=
  if 4 ≤ resp.length then resp[3]? else some 0

namespace C

/-- What a reply with a non-zero general status is reported as. -/
def cipFailure {α : Type} (resp : List UInt8) (svc status : UInt8) (extWords : Nat) :
    Option (Except ReplyError α) :=
  if 1 ≤ extWords ∧ (4 + extWords * 2) % 2 ^ 16 ≤ resp.length then
    (u16At resp 4).map fun ext => .error (.cip ⟨svc, status, ext⟩)
  else some (.error (.cip ⟨svc, status, 0⟩))

/-- The reply parse of `bp_client_read_struct`. -/
def readReply (outCap : UInt16) (resp : List UInt8) : Option ReadReply :=
  if resp.length < 4 then some (.error .generic)
  else do
    let svc ← resp[0]?
    let status ← resp[2]?
    let extWords ← resp[3]?
    if status ≠ 0 then cipFailure resp svc status extWords.toNat
    else
      let bodyOff := (4 + extWords.toNat * 2) % 2 ^ 16
      if resp.length < bodyOff + 4 then some (.error .generic)
      else do
        let handle ← u16At resp (bodyOff + 2)
        let payloadLen := resp.length - bodyOff - 4
        if outCap.toNat < payloadLen then some (.error .paramRange)
        else (bytesAt resp (bodyOff + 4) payloadLen).map fun payload => .ok (payload, handle)

/-- The reply parse of `bp_client_write_struct`. -/
def writeReply (resp : List UInt8) : Option WriteReply :=
  if resp.length < 3 then some (.error .generic)
  else do
    let svc ← resp[0]?
    let status ← resp[2]?
    let extWords ← writeExtWords resp
    if status ≠ 0 then cipFailure resp svc status extWords.toNat else some (.ok ())

end C

def cipFailure {α : Type} (resp : List UInt8) (svc status : UInt8) (extWords : Nat) :
    Option (Except ReplyError α) :=
  if 1 ≤ extWords ∧ 4 + extWords * 2 ≤ resp.length then
    (u16At resp 4).map fun ext => .error (.cip ⟨svc, status, ext⟩)
  else some (.error (.cip ⟨svc, status, 0⟩))

namespace Go

def readReply (resp : List UInt8) : Option ReadReply :=
  if resp.length < 4 then some (.error .generic)
  else do
    let svc ← resp[0]?
    let status ← resp[2]?
    let extWords ← resp[3]?
    if status ≠ 0 then cipFailure resp svc status extWords.toNat
    else do
      let body ← sliceFrom resp (4 + extWords.toNat * 2)
      if body.length < 4 then some (.error .generic)
      else (u16At body 2).map fun handle => .ok (body.drop 4, handle)

def writeReply (resp : List UInt8) : Option WriteReply :=
  if resp.length < 3 then some (.error .generic)
  else do
    let svc ← resp[0]?
    let status ← resp[2]?
    let extWords ← resp[3]?
    if status ≠ 0 then cipFailure resp svc status extWords.toNat else some (.ok ())

end Go

namespace Python

/-- The reply parse of `read_struct`; Python's slices end where the reply
does. -/
def readReply (resp : List UInt8) : Option ReadReply :=
  if resp.length < 4 then some (.error .generic)
  else do
    let svc ← resp[0]?
    let status ← resp[2]?
    let extWords ← resp[3]?
    if status ≠ 0 then cipFailure resp svc status extWords.toNat
    else
      let body := resp.drop (4 + extWords.toNat * 2)
      if body.length < 4 then some (.error .generic)
      else (u16At body 2).map fun handle => .ok (body.drop 4, handle)

def writeReply (resp : List UInt8) : Option WriteReply :=
  if resp.length < 3 then some (.error .generic)
  else do
    let svc ← resp[0]?
    let status ← resp[2]?
    let extWords ← writeExtWords resp
    if status ≠ 0 then cipFailure resp svc status extWords.toNat else some (.ok ())

end Python

inductive StructCall
  | read | write
  deriving DecidableEq, Repr

/-- The handling of a reply reads nothing that is not there and comes to the
same end in the three SDKs. C's reply buffer for a read has 512 bytes, of which
the engine is told at most the caller's capacity. -/
def Agrees (resp : List UInt8) : StructCall → Prop
  | .read => ∃ outcome,
      (∀ outCap : UInt16, resp.length ≤ min 512 outCap.toNat →
        C.readReply outCap resp = some outcome) ∧
      Go.readReply resp = some outcome ∧ Python.readReply resp = some outcome
  | .write => ∃ outcome, C.writeReply resp = some outcome ∧ Go.writeReply resp = some outcome ∧
      Python.writeReply resp = some outcome

def bodyOff (resp : List UInt8) : Nat := 4 + (byteAt resp 3).toNat * 2

/-- The replies that Go reads behind the end of. -/
def Overruns (resp : List UInt8) : StructCall → Prop
  | .read => 4 ≤ resp.length ∧ byteAt resp 2 = 0 ∧ resp.length < bodyOff resp
  | .write => resp.length = 3

section Access

variable {resp : List UInt8} {i : Nat}

theorem getElem?_byteAt (h : i < resp.length) : resp[i]? = some (byteAt resp i) := by
  rw [byteAt, List.getD_eq_getElem?_getD, List.getElem?_eq_getElem h]
  rfl

def wordAt (resp : List UInt8) (i : Nat) : UInt16 :=
  (byteAt resp i).toUInt16 ||| ((byteAt resp (i + 1)).toUInt16 <<< 8)

theorem wordAt_toNat (resp : List UInt8) (i : Nat) :
    (wordAt resp i).toNat = (byteAt resp i).toNat + 256 * (byteAt resp (i + 1)).toNat := by
  have hlo := (byteAt resp i).toNat_lt
  have hhi := (byteAt resp (i + 1)).toNat_lt
  have hshift : ((byteAt resp (i + 1)).toUInt16 <<< 8).toNat =
      (byteAt resp (i + 1)).toNat <<< 8 := by
    rw [UInt16.toNat_shiftLeft, UInt8.toNat_toUInt16]
    apply Nat.mod_eq_of_lt
    rw [show UInt16.toNat 8 % 16 = 8 from rfl, Nat.shiftLeft_eq]
    omega
  rw [wordAt, UInt16.toNat_or, hshift, UInt8.toNat_toUInt16, Nat.or_comm,
    ← Nat.shiftLeft_add_eq_or_of_lt hlo, Nat.shiftLeft_eq]
  omega

/-- A number is found again where its bytes have been put. -/
theorem wordAt_append (front back : List UInt8) (v : UInt16) :
    wordAt (front ++ (leBytes 2 v.toNat ++ back)) front.length = v := by
  have hlt := v.toNat_lt
  have hbytes : leBytes 2 v.toNat = [UInt8.ofNat v.toNat, UInt8.ofNat (v.toNat / 256)] := by
    rw [leBytes_succ, leBytes_succ]
    rfl
  have hlo : byteAt (front ++ (leBytes 2 v.toNat ++ back)) front.length = UInt8.ofNat v.toNat := by
    rw [hbytes]
    simp [byteAt]
  have hhi : byteAt (front ++ (leBytes 2 v.toNat ++ back)) (front.length + 1) =
      UInt8.ofNat (v.toNat / 256) := by
    rw [hbytes]
    simp [byteAt]
  apply UInt16.toNat_inj.mp
  rw [wordAt_toNat, hlo, hhi, UInt8.toNat_ofNat', UInt8.toNat_ofNat']
  omega

theorem u16At_eq (h : i + 1 < resp.length) : u16At resp i = some (wordAt resp i) := by
  unfold u16At
  rw [getElem?_byteAt (Nat.lt_of_succ_lt h), getElem?_byteAt h]
  rfl

theorem byteAt_drop (n : Nat) : byteAt (resp.drop n) i = byteAt resp (n + i) := by
  simp only [byteAt, List.getD_eq_getElem?_getD, List.getElem?_drop]

theorem wordAt_drop (n : Nat) : wordAt (resp.drop n) i = wordAt resp (n + i) := by
  rw [wordAt, wordAt, byteAt_drop, byteAt_drop, Nat.add_assoc]

end Access

section Outcome

variable (resp : List UInt8)

/-- The error that a reply with a non-zero general status carries. -/
def statusError (extWords : UInt8) : ReplyError :=
  .cip ⟨byteAt resp 0, byteAt resp 2,
    if 1 ≤ extWords.toNat ∧ 4 + extWords.toNat * 2 ≤ resp.length then wordAt resp 4 else 0⟩

def readOutcome : ReadReply :=
  if resp.length < 4 then .error .generic
  else if byteAt resp 2 ≠ 0 then .error (statusError resp (byteAt resp 3))
  else if resp.length < bodyOff resp + 4 then .error .generic
  else .ok (resp.drop (bodyOff resp + 4), wordAt resp (bodyOff resp + 2))

def writeOutcome : WriteReply :=
  if resp.length < 3 then .error .generic
  else if byteAt resp 2 ≠ 0 then
    .error (statusError resp (if 4 ≤ resp.length then byteAt resp 3 else 0))
  else .ok ()

variable {resp}

/-- The number of extended words is a byte, so C's offset does not wrap. -/
theorem offset_mod (extWords : UInt8) :
    (4 + extWords.toNat * 2) % 2 ^ 16 = 4 + extWords.toNat * 2 := by
  have hbyte := extWords.toNat_lt
  apply Nat.mod_eq_of_lt
  omega

theorem bodyOff_eq (resp : List UInt8) : 4 + (byteAt resp 3).toNat * 2 = bodyOff resp := by
  rw [bodyOff]

theorem cipFailure_eq {α : Type} (extWords : UInt8) :
    (cipFailure resp (byteAt resp 0) (byteAt resp 2) extWords.toNat :
        Option (Except ReplyError α)) =
      some (.error (statusError resp extWords)) := by
  unfold cipFailure statusError
  split_ifs with hext
  · rw [u16At_eq (by omega)]
    rfl
  · rfl

theorem C.cipFailure_shared {α : Type} (svc status extWords : UInt8) :
    (C.cipFailure resp svc status extWords.toNat : Option (Except ReplyError α)) =
      Struct.cipFailure resp svc status extWords.toNat := by
  rw [C.cipFailure, Struct.cipFailure, offset_mod]

theorem C.readReply_eq {outCap : UInt16} (h : resp.length ≤ outCap.toNat) :
    C.readReply outCap resp = some (readOutcome resp) := by
  unfold C.readReply readOutcome
  by_cases hlen : resp.length < 4
  · rw [if_pos hlen, if_pos hlen]
  · rw [if_neg hlen, if_neg hlen, getElem?_byteAt (by omega), getElem?_byteAt (by omega),
      getElem?_byteAt (by omega)]
    simp only [Option.bind_eq_bind, Option.bind_some, offset_mod, bodyOff_eq]
    by_cases hstatus : byteAt resp 2 ≠ 0
    · rw [if_pos hstatus, if_pos hstatus, C.cipFailure_shared, cipFailure_eq]
    · rw [if_neg hstatus, if_neg hstatus]
      by_cases hbody : resp.length < bodyOff resp + 4
      · rw [if_pos hbody, if_pos hbody]
      · rw [if_neg hbody, if_neg hbody, u16At_eq (by omega), Option.bind_some, if_neg (by omega),
          bytesAt, if_pos (by omega), Option.map_some,
          List.take_of_length_le (by rw [List.length_drop]; omega)]

/-- A body that has been cut off the reply, in Go and in Python. -/
theorem body_eq (hbody : bodyOff resp + 4 ≤ resp.length) :
    ((u16At (resp.drop (bodyOff resp)) 2).map fun handle =>
      (.ok ((resp.drop (bodyOff resp)).drop 4, handle) : ReadReply)) =
      some (.ok (resp.drop (bodyOff resp + 4), wordAt resp (bodyOff resp + 2))) := by
  rw [u16At_eq (by rw [List.length_drop]; omega), Option.map_some, wordAt_drop, List.drop_drop]

theorem Python.readReply_eq (resp : List UInt8) :
    Python.readReply resp = some (readOutcome resp) := by
  unfold Python.readReply readOutcome
  by_cases hlen : resp.length < 4
  · rw [if_pos hlen, if_pos hlen]
  · rw [if_neg hlen, if_neg hlen, getElem?_byteAt (by omega), getElem?_byteAt (by omega),
      getElem?_byteAt (by omega)]
    simp only [Option.bind_eq_bind, Option.bind_some, bodyOff_eq, List.length_drop]
    by_cases hstatus : byteAt resp 2 ≠ 0
    · rw [if_pos hstatus, if_pos hstatus, cipFailure_eq]
    · rw [if_neg hstatus, if_neg hstatus]
      by_cases hbody : resp.length < bodyOff resp + 4
      · rw [if_pos (by omega), if_pos hbody]
      · rw [if_neg (by omega), if_neg hbody, body_eq (by omega)]

theorem Go.readReply_eq (h : ¬ Overruns resp .read) :
    Go.readReply resp = some (readOutcome resp) := by
  unfold Go.readReply readOutcome
  by_cases hlen : resp.length < 4
  · rw [if_pos hlen, if_pos hlen]
  · rw [if_neg hlen, if_neg hlen, getElem?_byteAt (by omega), getElem?_byteAt (by omega),
      getElem?_byteAt (by omega)]
    simp only [Option.bind_eq_bind, Option.bind_some, bodyOff_eq]
    by_cases hstatus : byteAt resp 2 ≠ 0
    · rw [if_pos hstatus, if_pos hstatus, cipFailure_eq]
    · have hin : bodyOff resp ≤ resp.length :=
        Nat.le_of_not_lt fun hlt => h ⟨by omega, not_not.mp hstatus, hlt⟩
      rw [if_neg hstatus, if_neg hstatus, sliceFrom, if_pos hin, Option.bind_some, List.length_drop]
      by_cases hbody : resp.length < bodyOff resp + 4
      · rw [if_pos (by omega), if_pos hbody]
      · rw [if_neg (by omega), if_neg hbody, body_eq (by omega)]

/-- Go's slice begins behind the end of the reply. -/
theorem Go.readReply_overruns (h : Overruns resp .read) : Go.readReply resp = none := by
  obtain ⟨hlen, hstatus, hbody⟩ := h
  unfold Go.readReply
  rw [if_neg (by omega), getElem?_byteAt (by omega), getElem?_byteAt (by omega),
    getElem?_byteAt (by omega)]
  simp only [Option.bind_eq_bind, Option.bind_some, bodyOff_eq]
  rw [if_neg (not_not.mpr hstatus), sliceFrom, if_neg (by omega)]
  rfl

/-- C and Python look at the length before they look for extended words. -/
theorem writeReply_eq (resp : List UInt8) : C.writeReply resp = some (writeOutcome resp) ∧
    Python.writeReply resp = some (writeOutcome resp) := by
  unfold C.writeReply Python.writeReply writeOutcome
  by_cases hlen : resp.length < 3
  · rw [if_pos hlen, if_pos hlen, if_pos hlen]
    exact ⟨rfl, rfl⟩
  · have hext : writeExtWords resp = some (if 4 ≤ resp.length then byteAt resp 3 else 0) := by
      unfold writeExtWords
      split_ifs with hfour
      · exact getElem?_byteAt hfour
      · rfl
    rw [if_neg hlen, if_neg hlen, if_neg hlen, getElem?_byteAt (by omega),
      getElem?_byteAt (by omega), hext]
    simp only [Option.bind_eq_bind, Option.bind_some, C.cipFailure_shared]
    by_cases hstatus : byteAt resp 2 ≠ 0
    · rw [if_pos hstatus, if_pos hstatus, cipFailure_eq]
      exact ⟨rfl, rfl⟩
    · rw [if_neg hstatus, if_neg hstatus]
      exact ⟨rfl, rfl⟩

theorem Go.writeReply_eq (h : ¬ Overruns resp .write) :
    Go.writeReply resp = some (writeOutcome resp) := by
  have hthree : resp.length ≠ 3 := h
  unfold Go.writeReply writeOutcome
  by_cases hlen : resp.length < 3
  · rw [if_pos hlen, if_pos hlen]
  · rw [if_neg hlen, if_neg hlen, getElem?_byteAt (by omega), getElem?_byteAt (by omega),
      getElem?_byteAt (by omega), if_pos (show 4 ≤ resp.length by omega)]
    simp only [Option.bind_eq_bind, Option.bind_some]
    by_cases hstatus : byteAt resp 2 ≠ 0
    · rw [if_pos hstatus, if_pos hstatus, cipFailure_eq]
    · rw [if_neg hstatus, if_neg hstatus]

/-- Go reads a fourth byte from a reply of three. -/
theorem Go.writeReply_overruns (h : Overruns resp .write) : Go.writeReply resp = none := by
  have hthree : resp.length = 3 := h
  unfold Go.writeReply
  rw [if_neg (by omega), getElem?_byteAt (by omega), getElem?_byteAt (by omega),
    List.getElem?_eq_none (by omega)]
  rfl

end Outcome

/-- The three SDKs take a reply apart in the same way, except where Go reads
behind its end. -/
theorem struct_reply_agrees_iff (resp : List UInt8) (call : StructCall) :
    Agrees resp call ↔ ¬ Overruns resp call := by
  cases call with
  | read =>
      constructor
      · rintro ⟨outcome, -, hgo, -⟩ hover
        rw [Go.readReply_overruns hover] at hgo
        cases hgo
      · intro hover
        exact ⟨readOutcome resp, fun outCap hcap => C.readReply_eq (hcap.trans (min_le_right _ _)),
          Go.readReply_eq hover, Python.readReply_eq resp⟩
  | write =>
      constructor
      · rintro ⟨outcome, -, hgo, -⟩ hover
        rw [Go.writeReply_overruns hover] at hgo
        cases hgo
      · intro hover
        obtain ⟨hc, hpython⟩ := writeReply_eq resp
        exact ⟨writeOutcome resp, hc, Go.writeReply_eq hover, hpython⟩

/-- A successful reply of four bytes that claims one extended word, and a reply
of three bytes to a write. -/
theorem struct_reply_disagrees : ¬ Agrees [0xCC, 0, 0, 1] .read ∧ ¬ Agrees [0xCD, 0, 0] .write := by
  constructor
  · rintro ⟨outcome, -, hgo, -⟩
    rw [Go.readReply_overruns ⟨by decide, rfl, by decide⟩] at hgo
    cases hgo
  · rintro ⟨outcome, -, hgo, -⟩
    rw [Go.writeReply_overruns (show _ = 3 from rfl)] at hgo
    cases hgo

end BpClient.Struct
