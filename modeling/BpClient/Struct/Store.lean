import BpClient.Struct.Read
import Mathlib.Logic.Function.Basic

/-!
Structures that are written and read again. The engine takes a request out of the slot
and hands it to the module in the chassis that the message names; what that replies goes
back through the slot. Of a module that keeps its structures, every SDK reads what any of
them has written.
-/

namespace BpClient.Struct

open BpClient.Lib
open BpClient.Slot (Sdk SlotBytes)
open BpClient.Ucmm
open BpClient.Conn (CipError byteAt msgMaxSlot)

/-- What the modules of a chassis reply to a request, by the slot of the chassis. -/
abbrev Serve (σ : Type) := σ → UInt8 → List UInt8 → List UInt8 × σ

inductive CallEnd (α : Type)
  | refused (e : Refusal)
  /-- C has stored behind the end of a buffer of its request. -/
  | overflow
  /-- Bytes behind the end of the reply have been accessed. -/
  | overrun
  | replied (outcome : Except ReplyError α)

def CallEnd.ofReply {α : Type} : Option (Except ReplyError α) → CallEnd α
  | none => .overrun
  | some outcome => .replied outcome

section Turn

variable {σ : Type} (serve : Serve σ) (s : σ)

def turn (ws : List Write) (respCapacity : Nat) (b : SlotBytes) : List UInt8 × σ :=
  let filled := Buffer.write ws b
  let req := filled.read msgsendReqOff (leNat (filled.read msgsendReqSizeOff 2))
  let served := serve s (UInt8.ofNat (leNat (filled.read msgsendSlotOff 1))) req
  (exchange ws served.1 respCapacity b, served.2)

/-- A call with its request, the engine's turn and the handling of the reply. -/
def CallEnd.run {α : Type} (call : Result) (respCapacity : Nat) (b : SlotBytes)
    (handle : List UInt8 → Option (Except ReplyError α)) : CallEnd α × σ :=
  match call with
  | .refused e => (.refused e, s)
  | .overflow => (.overflow, s)
  | .sent ws => ((turn serve s ws respCapacity b).map (CallEnd.ofReply ∘ handle) id)

/-- The ends of `write_struct`, whatever was in the slot and on the stack before. -/
inductive WriteRun (slot : UInt8) (tag : AsciiTag) (handle : UInt16) (data : List UInt8) :
    Sdk → CallEnd Unit × σ → Prop
  | c (stack req b) (d : CRequest) (hd : d.bytes = data) :
      WriteRun slot tag handle data .c
        (CallEnd.run serve s (C.writeStruct stack req slot tag.bytes handle d) 64 b C.writeReply)
  | go (b) :
      WriteRun slot tag handle data .go
        (CallEnd.run serve s (Go.writeStruct slot tag.bytes handle data) 64 b Go.writeReply)
  | python (b) :
      WriteRun slot tag handle data .python
        (CallEnd.run serve s (Python.writeStruct slot tag.bytes handle.toNat data) 64 b Python.writeReply)

/-- The ends of `read_struct` for a capacity. -/
inductive ReadRun (slot : UInt8) (tag : AsciiTag) (cap : Nat) :
    Sdk → CallEnd (List UInt8 × UInt16) × σ → Prop
  | c (stack req b) (outCap : UInt16) (hcap : outCap.toNat = cap) :
      ReadRun slot tag cap .c
        (CallEnd.run serve s (C.readStruct stack req slot tag.bytes outCap) (C.readCapacity outCap).toNat b
          (C.readReply outCap))
  | go (b) :
      ReadRun slot tag cap .go
        (CallEnd.run serve s (Go.readStruct slot tag.bytes cap) (UInt16.ofNat cap).toNat b Go.readReply)
  | python (b) :
      ReadRun slot tag cap .python
        (CallEnd.run serve s (Python.readStruct slot tag.bytes cap) cap b Python.readReply)

end Turn

/-- Structures by the slot of their module and their name: handle and contents. -/
abbrev Structs := UInt8 × List UInt8 → Option (UInt16 × List UInt8)

/-- A write that a module takes: it knows the tag by the handle, and the size is right. -/
def Structs.Takes (structs : Structs) (key : UInt8 × List UInt8) (handle : UInt16)
    (data : List UInt8) : Prop :=
  ∃ old, structs key = some (handle, old) ∧ data.length = old.length

/-- Modules that keep their structures. -/
structure StructStore {σ : Type} (serve : Serve σ) where
  structs : σ → Structs
  read : ∀ s slot req tag handle data, parseRead req = some tag →
    structs s (slot, tag) = some (handle, data) →
    (∃ r : SuccessReply, (serve s slot req).1 = r.bytes ∧ r.ext = [] ∧ r.handle = handle ∧
      r.payload = data) ∧ structs (serve s slot req).2 = structs s
  write : ∀ s slot req tag handle data, parseWrite req = some (tag, handle, data) →
    (structs s).Takes (slot, tag) handle data →
    4 ≤ (serve s slot req).1.length ∧ byteAt (serve s slot req).1 2 = 0 ∧
      structs (serve s slot req).2 =
        Function.update (structs s) (slot, tag) (some (handle, data))
  refuse : ∀ s slot req tag handle data, parseWrite req = some (tag, handle, data) →
    ¬ (structs s).Takes (slot, tag) handle data →
    4 ≤ (serve s slot req).1.length ∧ byteAt (serve s slot req).1 2 ≠ 0 ∧
      structs (serve s slot req).2 = structs s

section Turns

variable {σ : Type} {serve : Serve σ} {s : σ} {slot : UInt8} {req : List UInt8}

/-- The module that is addressed gets the request, and the caller what it replies. -/
theorem turn_msgFill (hreq : req.length ≤ msgMaxReq) (timeoutMs : Nat) {cap : Nat}
    (hcap : cap < 2 ^ 16) (b : SlotBytes) :
    turn serve s (msgFill slot req req.length timeoutMs cap) cap b =
      ((serve s slot req).1.take cap, (serve s slot req).2) := by
  have hsent : SentWhole req (msgFill slot req req.length timeoutMs cap) := sentWhole_msgFill hreq
  have hbyte : leBytes 1 slot.toNat = [slot] := by
    rw [leBytes_succ, UInt8.ofNat_toNat]
    rfl
  have hslot : leNat ((Buffer.write (msgFill slot req req.length timeoutMs cap) b).read
      msgsendSlotOff 1) = slot.toNat := by
    apply Buffer.leNat_read_of_le (k := 3) b
    · rw [hbyte]
      rfl
    · exact slot.toNat_lt
    · simp [msgFill, msgsendSlotOff, msgsendTimeoutOff]
    · decide
  unfold turn
  simp only [hsent.size, hsent.bytes, hslot, UInt8.ofNat_toNat, exchange_eq hcap]

theorem run_sent {α : Type} {call : Result} {timeoutMs cap : Nat} (hreq : req.length ≤ msgMaxReq)
    (hcall : call = .sent (msgFill slot req req.length timeoutMs cap)) (hcap : cap < 2 ^ 16)
    (b : SlotBytes) {handle : List UInt8 → Option (Except ReplyError α)}
    {outcome : Except ReplyError α} (hhandle : handle ((serve s slot req).1.take cap) = some outcome) :
    CallEnd.run serve s call cap b handle = (.replied outcome, (serve s slot req).2) := by
  rw [hcall, CallEnd.run, turn_msgFill hreq timeoutMs hcap, Prod.map_apply, Function.comp_apply,
    hhandle]
  rfl

end Turns

section Outcomes

variable {reply : List UInt8}

/-- A status of 0 in what is received of a reply to a write. -/
theorem writeOutcome_take (hlen : 4 ≤ reply.length) (hstatus : byteAt reply 2 = 0) :
    writeOutcome (reply.take 64) = .ok () := by
  have htake : (reply.take 64).length = min 64 reply.length := List.length_take
  have hzero : byteAt (reply.take 64) 2 = 0 := (SuccessReply.byteAt_take (by decide)).trans hstatus
  rw [writeOutcome, if_neg (by omega), if_neg (not_not.mpr hzero)]

theorem writeOutcome_take_error (hlen : 4 ≤ reply.length) (hstatus : byteAt reply 2 ≠ 0) :
    ∃ e : CipError, e.status ≠ 0 ∧ writeOutcome (reply.take 64) = .error (.cip e) := by
  have htake : (reply.take 64).length = min 64 reply.length := List.length_take
  have hsame : byteAt (reply.take 64) 2 = byteAt reply 2 := SuccessReply.byteAt_take (by decide)
  have herror : byteAt (reply.take 64) 2 ≠ 0 := hsame ▸ hstatus
  rw [writeOutcome, if_neg (by omega), if_pos herror]
  exact ⟨_, herror, rfl⟩

end Outcomes

section Runs

variable {σ : Type} {serve : Serve σ} {s : σ} {slot : UInt8} {tag : AsciiTag} {handle : UInt16}
  {data : List UInt8} {sdk : Sdk}

/-- A write that fits is served, and ends as the reply says. -/
theorem WriteRun.end_eq (hslot : slot ≤ msgMaxSlot) (hdata : data ≠ [])
    (hfits : writeLength tag.bytes data ≤ msgMaxReq)
    (hreply : 4 ≤ (serve s slot (writeRequest tag.bytes handle data)).1.length)
    {r : CallEnd Unit × σ} (h : WriteRun serve s slot tag handle data sdk r) :
    r = (.replied (writeOutcome
        ((serve s slot (writeRequest tag.bytes handle data)).1.take 64)),
      (serve s slot (writeRequest tag.bytes handle data)).2) := by
  have hreq := (writeRequest_length tag.bytes handle data).trans_le hfits
  have hcap : (64 : Nat) < 2 ^ 16 := by decide
  cases h with
  | c stack req b d hd =>
      subst hd
      exact run_sent hreq (C.writeStruct_sends stack req hdata hfits hslot) hcap b
        (writeReply_eq _).1
  | go b =>
      have hover : ¬ Overruns
          ((serve s slot (writeRequest tag.bytes handle data)).1.take 64) .write := by
        intro hthree
        have hlen : ((serve s slot (writeRequest tag.bytes handle data)).1.take 64).length = 3 := hthree
        rw [List.length_take] at hlen
        omega
      exact run_sent hreq (Go.writeStruct_sends hdata hfits hslot) hcap b (Go.writeReply_eq hover)
  | python b =>
      exact run_sent hreq (Python.writeStruct_sends hdata hfits hslot) hcap b (writeReply_eq _).2

/-- A read that has room for a successful reply without extended status delivers it. -/
theorem ReadRun.end_eq (hslot : slot ≤ msgMaxSlot) {cap : Nat} (hlow : 16 ≤ cap)
    (hhigh : cap ≤ 0xFFFF) {r : SuccessReply} (hserved : (serve s slot (readRequest tag.bytes)).1 = r.bytes)
    (hroom : r.bytes.length ≤ min cap 512) {run : CallEnd (List UInt8 × UInt16) × σ}
    (h : ReadRun serve s slot tag cap sdk run) :
    run = (.replied (.ok (r.payload, r.handle)), (serve s slot (readRequest tag.bytes)).2) := by
  have hreq : (readRequest tag.bytes).length ≤ msgMaxReq := (readRequest_fits tag).2.trans (by decide)
  have hbytes := r.bytes_length
  -- what an SDK receives is all of the reply
  have houtcome : ∀ n, 16 ≤ n → r.bytes.length ≤ n →
      readOutcome ((serve s slot (readRequest tag.bytes)).1.take n) = .ok (r.payload, r.handle) := by
    intro n hn hle
    rw [hserved, SuccessReply.readOutcome_take hn (by omega), List.take_of_length_le (by omega)]
  cases h with
  | c stack req b outCap hcap =>
      subst hcap
      have hpassed := C.readCapacity_toNat outCap
      have hin : ((serve s slot (readRequest tag.bytes)).1.take (C.readCapacity outCap).toNat).length ≤
          outCap.toNat := by
        rw [List.length_take]
        omega
      apply run_sent hreq (C.readStruct_sends tag stack req (UInt16.le_iff_toNat_le.mpr hlow) hslot)
        (UInt16.toNat_lt _) b
      rw [C.readReply_eq hin, houtcome _ (by omega) (by omega)]
  | go b =>
      have hnat : (UInt16.ofNat cap).toNat = cap :=
        UInt16.toNat_ofNat_of_lt' (by simp only [UInt16.size]; omega)
      have hover : ¬ Overruns ((serve s slot (readRequest tag.bytes)).1.take cap) .read := by
        rintro ⟨-, -, hshort⟩
        rw [hserved, SuccessReply.bodyOff_take hlow, List.length_take] at hshort
        omega
      rw [hnat]
      apply run_sent hreq
        (Go.readStruct_sends tag (show (16 : Int) ≤ cap by omega) (by omega) hslot) (by omega) b
      rw [Int.toNat_natCast, Go.readReply_eq hover, houtcome _ hlow (by omega)]
  | python b =>
      apply run_sent hreq
        (Python.readStruct_sends tag (show (16 : Int) ≤ cap by omega) (by omega) hslot) (by omega) b
      rw [Int.toNat_natCast, Python.readReply_eq, houtcome _ hlow (by omega)]

end Runs

/-- A structure that any SDK writes to a module that takes it is read by all of them, in
any buffer that has room for 8 bytes more; no other structure changes. A write that the
module does not take is the same CIP error in all of them, and changes nothing. -/
theorem struct_read_back {σ : Type} {serve : Serve σ} (m : StructStore serve) (s : σ) {slot : UInt8}
    (hslot : slot ≤ msgMaxSlot) (tag : AsciiTag) (handle : UInt16) {data : List UInt8}
    (hdata : data ≠ []) (hfits : writeLength tag.bytes data ≤ msgMaxReq) :
    ((m.structs s).Takes (slot, tag.bytes) handle data →
      ∀ sdk run, WriteRun serve s slot tag handle data sdk run → run.1 = .replied (.ok ()) ∧
        m.structs run.2 =
          Function.update (m.structs s) (slot, tag.bytes) (some (handle, data)) ∧
        ∀ cap, 16 ≤ cap → data.length + 8 ≤ cap → cap ≤ 0xFFFF → ∀ sdk' run',
          ReadRun serve run.2 slot tag cap sdk' run' →
            run'.1 = .replied (.ok (data, handle)) ∧ m.structs run'.2 = m.structs run.2) ∧
    (¬ (m.structs s).Takes (slot, tag.bytes) handle data →
      ∃ e : CipError, e.status ≠ 0 ∧ ∀ sdk run, WriteRun serve s slot tag handle data sdk run →
        run.1 = .replied (.error (.cip e)) ∧ m.structs run.2 = m.structs s) := by
  have hparse := parseWrite_request tag.length_le handle data
  constructor
  · intro htakes sdk run hrun
    obtain ⟨hlen, hstatus, hstructs⟩ := m.write s slot _ tag.bytes handle data hparse htakes
    rw [hrun.end_eq hslot hdata hfits hlen]
    refine ⟨congrArg CallEnd.replied (writeOutcome_take hlen hstatus), hstructs, ?_⟩
    intro cap hlow hroom hhigh sdk' run' hread
    have hheld : m.structs (serve s slot (writeRequest tag.bytes handle data)).2 (slot, tag.bytes) =
        some (handle, data) := by
      rw [hstructs, Function.update_self]
    obtain ⟨⟨r, hserved, hext, rfl, rfl⟩, hkept⟩ :=
      m.read _ slot _ tag.bytes handle data (parseRead_request tag.length_le) hheld
    have hsize := r.bytes_length
    have hheader := r.header_length
    have hpath : 2 ≤ pathLength tag.bytes := by
      unfold pathLength
      omega
    rw [hext, List.length_nil] at hheader
    simp only [writeLength, msgMaxReq] at hfits
    rw [hread.end_eq hslot hlow hhigh hserved (by omega)]
    exact ⟨rfl, hkept⟩
  · intro hrefused
    obtain ⟨hlen, hstatus, hstructs⟩ := m.refuse s slot _ tag.bytes handle data hparse hrefused
    obtain ⟨e, he, houtcome⟩ := writeOutcome_take_error hlen hstatus
    refine ⟨e, he, fun sdk run hrun => ?_⟩
    rw [hrun.end_eq hslot hdata hfits hlen]
    exact ⟨congrArg CallEnd.replied houtcome, hstructs⟩

theorem Structs.takes_iff (structs : Structs) (key : UInt8 × List UInt8) (handle : UInt16)
    (data : List UInt8) :
    (structs key).any (fun p => decide (p.1 = handle) && decide (data.length = p.2.length)) = true ↔
      structs.Takes key handle data := by
  unfold Structs.Takes
  rw [Option.any_eq_true]
  simp only [Bool.and_eq_true, decide_eq_true_eq]
  constructor
  · rintro ⟨⟨known, old⟩, hheld, rfl, hlen⟩
    exact ⟨old, hheld, hlen⟩
  · rintro ⟨old, hheld, hlen⟩
    exact ⟨(handle, old), hheld, rfl, hlen⟩

instance (structs : Structs) (key : UInt8 × List UInt8) (handle : UInt16) (data : List UInt8) :
    Decidable (structs.Takes key handle data) :=
  decidable_of_iff _ (structs.takes_iff key handle data)

/-- A chassis whose modules keep their structures. -/
def chassis : Serve Structs := fun structs slot req =>
  match parseRead req, parseWrite req with
  | some tag, _ =>
      ((structs (slot, tag)).elim [0xCC, 0, 0x05, 0] fun p =>
        SuccessReply.bytes { zeroReply 0 with handle := p.1, payload := p.2 }, structs)
  | none, some (tag, handle, data) =>
      if structs.Takes (slot, tag) handle data then
        ([0xCD, 0, 0, 0], Function.update structs (slot, tag) (some (handle, data)))
      else ([0xCD, 0, 0xFF, 1, 0x07, 0x21], structs)
  | none, none => ([0, 0, 0x08, 0], structs)

/-- A request is not both. -/
theorem parseRead_of_parseWrite {req : List UInt8} (h : (parseWrite req).isSome) :
    parseRead req = none := by
  unfold parseWrite at h
  unfold parseRead
  cases hreq : parseRequest req with
  | none => rfl
  | some r =>
      rw [hreq, Option.bind_some] at h
      rw [Option.bind_some]
      by_cases hservice : r.service = 0x4C
      · rw [if_neg (fun hwrite => by rw [hservice] at hwrite; exact absurd hwrite.1 (by decide))] at h
        cases h
      · exact if_neg fun hread => hservice hread.1

def chassisStore : StructStore chassis where
  structs := fun structs => structs
  read := by
    intro structs slot req tag handle data hparse hheld
    simp only [chassis, hparse, hheld]
    exact ⟨⟨{ zeroReply 0 with handle, payload := data }, rfl, rfl, rfl, rfl⟩, trivial⟩
  write := by
    intro structs slot req tag handle data hparse htakes
    have hread := parseRead_of_parseWrite (hparse ▸ rfl : (parseWrite req).isSome)
    simp only [chassis, hread, hparse, if_pos htakes]
    exact ⟨le_rfl, rfl, trivial⟩
  refuse := by
    intro structs slot req tag handle data hparse hrefused
    have hread := parseRead_of_parseWrite (hparse ▸ rfl : (parseWrite req).isSome)
    simp only [chassis, hread, hparse, if_neg hrefused]
    exact ⟨by decide, by decide, trivial⟩

/-- A module in slot 2 with the structure `x` of four bytes. -/
def xStruct : Structs :=
  fun key => if key = (2, xAscii.bytes) then some (0x0A2C, [0, 0, 0, 0]) else none

/-- Python reads what C has written; Go is refused under another handle. -/
theorem struct_read_back_four :
    (∃ run, WriteRun chassis xStruct 2 xAscii 0x0A2C [1, 2, 3, 4] .c run ∧
      run.1 = .replied (.ok ()) ∧ ∃ run', ReadRun chassis run.2 2 xAscii 64 .python run' ∧
        run'.1 = .replied (.ok ([1, 2, 3, 4], 0x0A2C))) ∧
    ∃ run e, WriteRun chassis xStruct 2 xAscii 0x0A2D [1, 2, 3, 4] .go run ∧
      run.1 = .replied (.error (.cip e)) := by
  have hslot : (2 : UInt8) ≤ msgMaxSlot := by decide
  have hfits : writeLength xAscii.bytes [1, 2, 3, 4] ≤ msgMaxReq := by decide
  have hne : ([1, 2, 3, 4] : List UInt8) ≠ [] := by decide
  have b : SlotBytes := fun _ => 0
  obtain ⟨htaken, -⟩ := struct_read_back chassisStore xStruct hslot xAscii 0x0A2C hne hfits
  obtain ⟨-, hrefused⟩ := struct_read_back chassisStore xStruct hslot xAscii 0x0A2D hne hfits
  constructor
  · obtain ⟨run, hrun⟩ : ∃ run, WriteRun chassis xStruct 2 xAscii 0x0A2C [1, 2, 3, 4] .c run :=
      ⟨_, .c (fun _ => 0) (fun _ => 0) b ⟨[1, 2, 3, 4], by decide⟩ rfl⟩
    obtain ⟨hok, -, hread⟩ := htaken ⟨[0, 0, 0, 0], rfl, rfl⟩ .c run hrun
    obtain ⟨run', hrun'⟩ : ∃ run', ReadRun chassis run.2 2 xAscii 64 .python run' := ⟨_, .python b⟩
    obtain ⟨hdata, -⟩ := hread 64 (by decide) (by decide) (by decide) .python run' hrun'
    exact ⟨run, hrun, hok, run', hrun', hdata⟩
  · obtain ⟨run, hrun⟩ : ∃ run, WriteRun chassis xStruct 2 xAscii 0x0A2D [1, 2, 3, 4] .go run :=
      ⟨_, .go b⟩
    have hother : ¬ Structs.Takes xStruct (2, xAscii.bytes) 0x0A2D [1, 2, 3, 4] := by decide
    obtain ⟨e, -, herror⟩ := hrefused hother
    exact ⟨run, e, hrun, (herror .go run hrun).1⟩

end BpClient.Struct
