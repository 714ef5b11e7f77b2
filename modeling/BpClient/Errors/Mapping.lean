import BpClient.Conn.Reply

/-!
How the errorcode that the engine leaves in the header of a slot comes to the
caller: as the return code of C, as an error of `go/ocxbp/errors.go` by way of
the error of `go/ocxbp/shm`, and as an exception of
`python/src/bpclient/errors.py`. Texts of errors are left out.
-/

namespace BpClient.Errors

open BpClient.Conn (CipError)

inductive BpErr
  | generic | sendRequest | recvAnswer | nullArg | pending | notOpen | paramRange | slotTooLarge
  | cipStatus | clientOpen | noFreeSlot
  deriving DecidableEq, Repr

def BpErr.code : BpErr → Int
  | .generic => -1
  | .sendRequest => -200
  | .recvAnswer => -201
  | .nullArg => -300
  | .pending => -301
  | .notOpen => -303
  | .paramRange => -305
  | .slotTooLarge => -311
  | .cipStatus => -400
  | .clientOpen => -101802
  | .noFreeSlot => -103001

/-- `bp_client_call` from the errorcode on; `BP_OK` is 0. -/
def C.callRc (bits : BitVec 32) : Int :=
  let errcode := bits.toInt
  if errcode ≠ 0 then errcode else 0

inductive Sentinel
  | errGeneric | errSendRequest | errRecvAnswer | errNullArg | errPending | errNotOpen
  | errParamRange | errSlotTooLarge | errClientOpen | errNoFreeSlot
  deriving DecidableEq, Repr

inductive ShmSentinel
  | errNullArg | errClientOpen | errSendRequest | errRecvAnswer | errNoFreeSlot
  deriving DecidableEq, Repr

inductive GoError
  | sentinel (s : Sentinel)
  | shmSentinel (s : ShmSentinel)
  /-- `shm.EngineError` -/
  | shmEngine (code : Int)
  /-- `EngineError` -/
  | engine (code : Int)
  /-- `*CIPError` -/
  | cip (e : CipError)
  /-- `fmt.Errorf` with `%w` -/
  | wrapped (e : GoError)
  deriving DecidableEq, Repr

namespace GoError

def is : GoError → GoError → Bool
  | .wrapped e, target => decide (.wrapped e = target) || e.is target
  | e, target => decide (e = target)

def asShmEngine : GoError → Option Int
  | .shmEngine code => some code
  | .wrapped e => e.asShmEngine
  | _ => none

def asEngine : GoError → Option Int
  | .engine code => some code
  | .wrapped e => e.asEngine
  | _ => none

def asCip : GoError → Option CipError
  | .cip e => some e
  | .wrapped e => e.asCip
  | _ => none

end GoError

namespace Go

/-- `shm.Client.Call` from the errorcode on. -/
def shmCall (bits : BitVec 32) : Option GoError :=
  let errcode := bits.toInt
  if errcode ≠ 0 then some (.shmEngine errcode) else none

def translateCallErr (err : GoError) : GoError :=
  match err.asShmEngine with
  | some code => .engine code
  | none =>
      if err.is (.shmSentinel .errNullArg) then .sentinel .errNullArg
      else if err.is (.shmSentinel .errClientOpen) then .wrapped (.sentinel .errClientOpen)
      else if err.is (.shmSentinel .errSendRequest) then .wrapped (.sentinel .errSendRequest)
      else if err.is (.shmSentinel .errRecvAnswer) then .wrapped (.sentinel .errRecvAnswer)
      else if err.is (.shmSentinel .errNoFreeSlot) then .sentinel .errNoFreeSlot
      else err

def call (bits : BitVec 32) : Option GoError := (shmCall bits).map translateCallErr

/-- The sentinels that `ErrCode` looks for, in its order. -/
def errCodeTable : List (Sentinel × BpErr) :=
  [(.errSendRequest, .sendRequest), (.errRecvAnswer, .recvAnswer), (.errNullArg, .nullArg),
    (.errPending, .pending), (.errNotOpen, .notOpen), (.errParamRange, .paramRange),
    (.errSlotTooLarge, .slotTooLarge), (.errClientOpen, .clientOpen),
    (.errNoFreeSlot, .noFreeSlot)]

def errCode : Option GoError → Int
  | none => 0
  | some err =>
      match err.asEngine with
      | some code => code
      | none =>
          if err.asCip.isSome then BpErr.cipStatus.code
          else match errCodeTable.find? fun entry => err.is (.sentinel entry.1) with
            | some entry => entry.2.code
            | none => BpErr.generic.code

/-- The sentinel of a code; a CIP error is a type of its own. -/
def sentinelOf : BpErr → Option Sentinel
  | .generic => some .errGeneric
  | .sendRequest => some .errSendRequest
  | .recvAnswer => some .errRecvAnswer
  | .nullArg => some .errNullArg
  | .pending => some .errPending
  | .notOpen => some .errNotOpen
  | .paramRange => some .errParamRange
  | .slotTooLarge => some .errSlotTooLarge
  | .cipStatus => none
  | .clientOpen => some .errClientOpen
  | .noFreeSlot => some .errNoFreeSlot

/-- An error is the one for a code, as a caller asks for it. -/
def Matches (e : BpErr) (err : GoError) : Prop :=
  match sentinelOf e with
  | some s => err.is (.sentinel s) = true
  | none => err.asCip.isSome = true

end Go

namespace Python

inductive Class
  | bpGeneric | bpSendRequest | bpRecvAnswer | bpNullArg | bpPending | bpNotOpen | bpParamRange
  | bpSlotTooLarge | bpClientOpen | bpNoFreeSlot | bpEngine | bpCipError
  deriving DecidableEq, Repr

structure BpError where
  cls : Class
  code : Int
  deriving DecidableEq, Repr

/-- `isinstance`, of a class without subclasses. -/
def BpError.isInstance (exc : BpError) (cls : Class) : Bool := exc.cls = cls

def errcodeI32 (bits : BitVec 32) : Int :=
  let errcodeU32 := bits.toNat
  if errcodeU32 < 0x80000000 then errcodeU32 else errcodeU32 - 0x100000000

def call (bits : BitVec 32) : Option BpError :=
  if errcodeI32 bits ≠ 0 then some ⟨.bpEngine, errcodeI32 bits⟩ else none

def errCode : Option BpError → Int
  | none => 0
  | some exc => exc.code

/-- The subclass whose `code` it is. -/
def classOf : BpErr → Class
  | .generic => .bpGeneric
  | .sendRequest => .bpSendRequest
  | .recvAnswer => .bpRecvAnswer
  | .nullArg => .bpNullArg
  | .pending => .bpPending
  | .notOpen => .bpNotOpen
  | .paramRange => .bpParamRange
  | .slotTooLarge => .bpSlotTooLarge
  | .cipStatus => .bpCipError
  | .clientOpen => .bpClientOpen
  | .noFreeSlot => .bpNoFreeSlot

end Python

/-- An errorcode comes to the caller as its signed value in the three SDKs, and
as the error of its name when it has one. -/
structure Surfaces (bits : BitVec 32) : Prop where
  c : C.callRc bits = bits.toInt
  go : Go.errCode (Go.call bits) = bits.toInt
  python : Python.errCode (Python.call bits) = bits.toInt
  named : ∀ e : BpErr, e.code = bits.toInt →
    (∃ err, Go.call bits = some err ∧ Go.Matches e err) ∧
    ∃ exc, Python.call bits = some exc ∧ exc.isInstance (Python.classOf e) = true
  engine : bits.toInt ≠ 0 → (∀ e : BpErr, e.code ≠ bits.toInt) →
    Go.call bits = some (.engine bits.toInt) ∧
    ∃ exc, Python.call bits = some exc ∧ exc.isInstance .bpEngine = true ∧ exc.code = bits.toInt

section Codes

variable {bits : BitVec 32}

theorem BpErr.code_ne_zero (e : BpErr) : e.code ≠ 0 := by
  cases e <;> decide

theorem Python.classOf_ne (e : BpErr) : Python.classOf e ≠ .bpEngine := by
  cases e <;> decide

theorem Python.errcodeI32_eq (bits : BitVec 32) : Python.errcodeI32 bits = bits.toInt := by
  rw [Python.errcodeI32, BitVec.toInt_eq_toNat_cond]
  split_ifs <;> omega

/-- Every non-zero errorcode becomes an `EngineError` and a `BpEngine`. -/
theorem call_of_ne_zero (h : bits.toInt ≠ 0) : Go.call bits = some (.engine bits.toInt) ∧
    Python.call bits = some ⟨.bpEngine, bits.toInt⟩ := by
  constructor
  · unfold Go.call Go.shmCall
    simp only [if_pos h]
    rfl
  · unfold Python.call
    rw [Python.errcodeI32_eq, if_pos h]

theorem call_of_eq_zero (h : bits.toInt = 0) : Go.call bits = none ∧ Python.call bits = none := by
  constructor
  · unfold Go.call Go.shmCall
    simp only [if_neg (not_not.mpr h)]
    rfl
  · unfold Python.call
    rw [Python.errcodeI32_eq, if_neg (not_not.mpr h)]

/-- The integer is the same everywhere. -/
theorem errCode_eq (bits : BitVec 32) : C.callRc bits = bits.toInt ∧
    Go.errCode (Go.call bits) = bits.toInt ∧ Python.errCode (Python.call bits) = bits.toInt := by
  by_cases h : bits.toInt = 0
  · obtain ⟨hgo, hpython⟩ := call_of_eq_zero h
    rw [C.callRc, hgo, hpython, h]
    exact ⟨rfl, rfl, rfl⟩
  · obtain ⟨hgo, hpython⟩ := call_of_ne_zero h
    rw [C.callRc, hgo, hpython]
    exact ⟨if_pos h, rfl, rfl⟩

end Codes

/-- The errorcodes that the three SDKs surface as documented are those without a
name. -/
theorem errorcode_surfaces_iff (bits : BitVec 32) :
    Surfaces bits ↔ ∀ e : BpErr, e.code ≠ bits.toInt := by
  constructor
  · intro h e he
    have hne : bits.toInt ≠ 0 := he ▸ e.code_ne_zero
    obtain ⟨-, exc, hexc, hinstance⟩ := h.named e he
    rw [(call_of_ne_zero hne).2] at hexc
    cases hexc
    exact Python.classOf_ne e (of_decide_eq_true hinstance).symm
  · intro h
    obtain ⟨hc, hgo, hpython⟩ := errCode_eq bits
    refine ⟨hc, hgo, hpython, fun e he => absurd he (h e), fun hne _ => ?_⟩
    obtain ⟨hgoCall, hpythonCall⟩ := call_of_ne_zero hne
    exact ⟨hgoCall, _, hpythonCall, rfl, rfl⟩

/-- `BP_ERR_PARAM_RANGE` from the engine is neither `ErrParamRange` nor
`BpParamRange`. -/
theorem paramRange_not_surfaced : ¬ Surfaces (BitVec.ofInt 32 (-305)) ∧
    Go.call (BitVec.ofInt 32 (-305)) = some (.engine (-305)) ∧
    Python.call (BitVec.ofInt 32 (-305)) = some ⟨.bpEngine, -305⟩ := by
  have hint : (BitVec.ofInt 32 (-305)).toInt = -305 := by decide
  obtain ⟨hgo, hpython⟩ := call_of_ne_zero (show (BitVec.ofInt 32 (-305)).toInt ≠ 0 by decide)
  rw [hint] at hgo hpython
  refine ⟨fun h => ?_, hgo, hpython⟩
  obtain ⟨⟨err, herr, hmatches⟩, -⟩ := h.named .paramRange hint.symm
  cases hgo.symm.trans herr
  have his : (GoError.engine (-305)).is (.sentinel .errParamRange) = true := hmatches
  exact absurd his (by decide)

end BpClient.Errors
