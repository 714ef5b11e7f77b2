import BpClient.Calls.Reply
import Mathlib.Logic.Function.Basic

/-!
Calls are transparent. What a caller gets back through the slot, over any number of calls
from any of the SDKs and whatever earlier calls have left in the slots, is what the engine
answers to the operation, with its errorcode as a number; the checks of the arguments stand
in front of it, and two calls make something of an errorcode.
-/

namespace BpClient.Calls

open BpClient.Lib
open BpClient.Slot (Sdk SlotBytes Claimant)
open BpClient.Ucmm (Refusal)

/-- Why an SDK refuses a path, if it does. C takes an empty one, and only Python asks for
ASCII. -/
def pathRefusal (sdk : Sdk) (path : CText) : Option Refusal :=
  if sdk ≠ .c ∧ path.bytes = [] then some .nullArg
  else if 254 < path.bytes.length then some .paramRange
  else if sdk = .python ∧ path.bytes.all (· < 0x80) = false then some .raised
  else none

def refusal (sdk : Sdk) (op : Op) : Option Refusal := op.path.bind (pathRefusal sdk)

/-- The errorcodes that a call does not pass on: `test_version` makes `True` of 0x14 and
0x15, and closing a handle ignores all. -/
def Op.absorbs : (op : Op) → Int → Option op.Reply
  | .testTagDbVer _, rc => if rc = 0x14 ∨ rc = 0x15 then some true else none
  | .deleteTagDbHandle _, _ => some ()
  | _, _ => none

section Returned

variable (op : Op) (b : SlotBytes)

def errorcodeOf : BitVec 32 := BitVec.ofNat 32 (leNat (b.read Slot.hdrErrorcode 4))

/-- From the errorcode on, in C. -/
def C.returned : Except Int op.Reply :=
  let rc := Errors.C.callRc (errorcodeOf b)
  if rc = 0 then .ok (C.readReply op b)
  else
    match op.absorbs rc with
    | some r => .ok r
    | none => .error rc

/-- From the errorcode on, in Go; the error as `ErrCode` tells it. -/
def Go.returned : Except Int op.Reply :=
  match Errors.Go.shmCall (errorcodeOf b) with
  | none => .ok (Go.readReply op b)
  | some err =>
      match err.asShmEngine.bind op.absorbs with
      | some r => .ok r
      | none => .error (Errors.Go.errCode (some (Errors.Go.translateCallErr err)))

/-- From the errorcode on, in Python; the exception as `err_code` tells it. -/
def Python.returned : Except Int op.Reply :=
  match Errors.Python.call (errorcodeOf b) with
  | none => .ok (Python.readReply op b)
  | some exc =>
      match op.absorbs exc.code with
      | some r => .ok r
      | none => .error (Errors.Python.errCode (some exc))

def returned : Sdk → Except Int op.Reply
  | .c => C.returned op b
  | .go => Go.returned op b
  | .python => Python.returned op b

end Returned

/-- An engine: what it does for each call, and what it answers. -/
structure Server (σ : Type) where
  handle : (op : Op) → σ → Except (BitVec 32) op.Reply × σ
  wellFormed : ∀ op st r, (handle op st).1 = .ok r → WellFormed op r
  errorcode : ∀ op st e, (handle op st).1 = .error e → e ≠ 0 ∧ e ≠ Slot.pendingErrorBits

def badRequest : BitVec 32 := 0xFFFFFFFF#32

def errorcodeWrite (code : BitVec 32) : Write := ⟨Slot.hdrErrorcode, leBytes 4 code.toNat⟩

inductive Outcome (op : Op)
  | refused (e : Refusal)
  | skipped
  /-- No slot, or the dispatcher has raised. -/
  | lost
  | returned (r : Except Int op.Reply)

section Calls

variable {σ : Type} (server : Server σ)

/-- The engine's turn on the bytes of a slot. -/
def Server.answer (b : SlotBytes) (st : σ) : List Write × σ :=
  match parse b with
  | none => ([errorcodeWrite badRequest], st)
  | some op =>
      match server.handle op st with
      | (.ok r, st') => (errorcodeWrite 0 :: replyFields op r, st')
      | (.error e, st') => ([errorcodeWrite e], st')

/-- A call through a slot. -/
def through (sdk : Sdk) (op : Op) (c : Claimant) (b : SlotBytes) (st : σ) : Outcome op × σ :=
  match start sdk op with
  | .refused e => (.refused e, st)
  | .skipped => (.skipped, st)
  | .call call =>
      match Slot.prepare sdk call.request c b with
      | none => (.lost, st)
      | some slot =>
          let answered := server.answer slot st
          (.returned (returned op (Buffer.write answered.1 slot) sdk), answered.2)

def Op.seen (op : Op) : Except (BitVec 32) op.Reply → Except Int op.Reply
  | .ok r => .ok r
  | .error e =>
      match op.absorbs e.toInt with
      | some r => .ok r
      | none => .error e.toInt

/-- A call as if the engine were called directly. -/
def ask (sdk : Sdk) (op : Op) (st : σ) : Outcome op × σ :=
  match refusal sdk op with
  | some e => (.refused e, st)
  | none =>
      if op = .deleteTagDbHandle 0 then (.skipped, st)
      else (server.handle op st).map (.returned ∘ op.seen) id

/-- A call that is made in a run: by whom, through which slot, and what the slot holds. -/
structure Turn where
  sdk : Sdk
  op : Op
  claimant : Claimant
  slot : SlotBytes
  free : Slot.owner slot = 0

def runCalls : List Turn → σ → List (Σ op, Outcome op) × σ
  | [], st => ([], st)
  | turn :: turns, st =>
      let first := through server turn.sdk turn.op turn.claimant turn.slot st
      let rest := runCalls turns first.2
      (⟨turn.op, first.1⟩ :: rest.1, rest.2)

def askAll : List (Sdk × Op) → σ → List (Σ op, Outcome op) × σ
  | [], st => ([], st)
  | (sdk, op) :: asked, st =>
      let first := ask server sdk op st
      let rest := askAll asked first.2
      (⟨op, first.1⟩ :: rest.1, rest.2)

end Calls

section Start

variable {sdk : Sdk} {op : Op} {path : CText} {call : Call}

theorem C.withPath_eq : C.withPath path call = match pathRefusal .c path with
    | some e => .refused e
    | none => .call call := by
  unfold C.withPath pathRefusal
  by_cases hlen : 254 < path.bytes.length <;> simp [hlen]

theorem Go.withPath_eq : Go.withPath path call = match pathRefusal .go path with
    | some e => .refused e
    | none => .call call := by
  unfold Go.withPath pathRefusal
  by_cases hempty : path.bytes = []
  · simp [hempty]
  · by_cases hlen : 254 < path.bytes.length <;> simp [hempty, hlen]

theorem Python.withPath_eq : Python.withPath path call = match pathRefusal .python path with
    | some e => .refused e
    | none => .call call := by
  unfold Python.withPath pathRefusal
  by_cases hempty : path.bytes = []
  · simp [hempty]
  · by_cases hlen : 254 < path.bytes.length
    · simp [hempty, hlen]
    · cases hascii : path.bytes.all (· < 0x80) <;> simp [hempty, hlen]

inductive Begins (sdk : Sdk) (op : Op) : Start → Prop
  | refused {e : Refusal} : refusal sdk op = some e → Begins sdk op (.refused e)
  | skipped : refusal sdk op = none → op = .deleteTagDbHandle 0 → Begins sdk op .skipped
  | call {call : Call} : refusal sdk op = none → op ≠ .deleteTagDbHandle 0 →
      Begins sdk op (.call call)

theorem begins_of_path (hpath : op.path = some path) {s : Start}
    (hs : s = match pathRefusal sdk path with
      | some e => .refused e
      | none => .call call) : Begins sdk op s := by
  have hrefusal : refusal sdk op = pathRefusal sdk path := by
    rw [refusal, hpath, Option.bind_some]
  subst hs
  cases he : pathRefusal sdk path with
  | some e => exact .refused (hrefusal.trans he)
  | none =>
      apply Begins.call (hrefusal.trans he)
      rintro rfl
      cases hpath

theorem begins_of_call (hpath : op.path = none) (hop : op ≠ .deleteTagDbHandle 0) :
    Begins sdk op (.call call) := by
  apply Begins.call _ hop
  rw [refusal, hpath, Option.bind_none]

theorem C.begins (op : Op) : Begins .c op (C.start op) := by
  cases op with
  | createTagDbHandle _ | getDeviceIdObject _ _ | getDeviceIdStatus _ _ | getExDevObject _ _
  | getDeviceIcpObject _ _ | parsePath _ => exact begins_of_path rfl C.withPath_eq
  | getWcTime clock _ _ | setWcTime clock _ _ _ =>
      cases clock <;> exact begins_of_path rfl C.withPath_eq
  | deleteTagDbHandle handle =>
      by_cases hzero : handle = 0
      · rw [C.start, if_neg (not_not_intro hzero), hzero]
        exact .skipped rfl rfl
      · rw [C.start, if_pos hzero]
        exact begins_of_call rfl (by simpa using hzero)
  | _ => exact begins_of_call rfl (by simp)

theorem Go.begins (op : Op) : Begins .go op (Go.start op) := by
  cases op with
  | createTagDbHandle _ | getDeviceIdObject _ _ | getDeviceIdStatus _ _ | getExDevObject _ _
  | getDeviceIcpObject _ _ | parsePath _ => exact begins_of_path rfl Go.withPath_eq
  | getWcTime clock _ _ | setWcTime clock _ _ _ =>
      cases clock <;> exact begins_of_path rfl Go.withPath_eq
  | deleteTagDbHandle handle =>
      by_cases hzero : handle = 0
      · rw [Go.start, if_pos hzero, hzero]
        exact .skipped rfl rfl
      · rw [Go.start, if_neg hzero]
        exact begins_of_call rfl (by simpa using hzero)
  | _ => exact begins_of_call rfl (by simp)

theorem Python.begins (op : Op) : Begins .python op (Python.start op) := by
  cases op with
  | createTagDbHandle _ | getDeviceIdObject _ _ | getDeviceIdStatus _ _ | getExDevObject _ _
  | getDeviceIcpObject _ _ | parsePath _ => exact begins_of_path rfl Python.withPath_eq
  | getWcTime clock _ _ | setWcTime clock _ _ _ =>
      cases clock <;> exact begins_of_path rfl Python.withPath_eq
  | deleteTagDbHandle handle =>
      by_cases hzero : handle = 0
      · rw [Python.start, if_pos hzero, hzero]
        exact .skipped rfl rfl
      · rw [Python.start, if_neg hzero]
        exact begins_of_call rfl (by simpa using hzero)
  | _ => exact begins_of_call rfl (by simp)

theorem begins (sdk : Sdk) (op : Op) : Begins sdk op (start sdk op) := by
  cases sdk with
  | c => exact C.begins op
  | go => exact Go.begins op
  | python => exact Python.begins op

end Start

section Answer

variable {op : Op} {b : SlotBytes} {code : BitVec 32} {ws : List Write}

theorem errorcodeOf_write (hws : InOrder (errorcodeWrite code :: ws)) :
    errorcodeOf (Buffer.write (errorcodeWrite code :: ws) b) = code := by
  have hmem : (⟨Slot.hdrErrorcode, leBytes 4 code.toNat⟩ : Write) ∈ errorcodeWrite code :: ws :=
    List.mem_cons_self
  have hcode := Buffer.leNat_of_mem b hws hmem code.isLt (by decide)
  rw [errorcodeOf, hcode, BitVec.ofNat_toNat, BitVec.setWidth_eq]

/-- An errorcode of 0 is success in every SDK. -/
theorem returned_ok {r : op.Reply} (sdk : Sdk) (hcode : errorcodeOf b = 0)
    (hbytes : readReply bytesText b op = r) (hascii : readReply asciiReplace b op = r) :
    returned op b sdk = .ok r := by
  have hzero : (0 : BitVec 32).toInt = 0 := by decide
  cases sdk with
  | c =>
      simp only [returned, C.returned, hcode, Errors.C.callRc, hzero, ne_eq, not_true_eq_false,
        if_false, if_true]
      exact congrArg Except.ok hbytes
  | go =>
      simp only [returned, Go.returned, hcode, Errors.Go.shmCall, hzero, ne_eq,
        not_true_eq_false, if_false]
      exact congrArg Except.ok hbytes
  | python =>
      simp only [returned, Python.returned, hcode, Errors.Python.call,
        Errors.Python.errcodeI32_eq, hzero, ne_eq, not_true_eq_false, if_false]
      exact congrArg Except.ok hascii

/-- Any other errorcode comes to the caller as its number, if the call does not absorb it. -/
theorem returned_error (op : Op) (sdk : Sdk) (hne : errorcodeOf b ≠ 0) :
    returned op b sdk = op.seen (.error (errorcodeOf b)) := by
  have hint : (errorcodeOf b).toInt ≠ 0 := by
    intro hzero
    apply hne
    rw [← BitVec.toInt_inj, hzero]
    rfl
  have hcodes := Errors.errCode_eq (errorcodeOf b)
  obtain ⟨hgo, hpython⟩ := Errors.call_of_ne_zero hint
  cases sdk with
  | c =>
      simp only [returned, C.returned, hcodes.1, if_neg hint]
      rfl
  | go =>
      have hshm : Errors.Go.shmCall (errorcodeOf b) =
          some (.shmEngine (errorcodeOf b).toInt) := by
        rw [Errors.Go.shmCall, if_pos hint]
      have hcode : Errors.Go.errCode (some (Errors.Go.translateCallErr
          (.shmEngine (errorcodeOf b).toInt))) = (errorcodeOf b).toInt := rfl
      simp only [returned, Go.returned, hshm, Errors.GoError.asShmEngine, Option.bind_some, hcode]
      rfl
  | python =>
      simp only [returned, Python.returned, hpython]
      rfl

end Answer

section Runs

variable {σ : Type} (server : Server σ)

/-- The engine's turn on the slot of an operation, and what each SDK makes of it. -/
theorem answer_image {op : Op} (hfits : op.Fits) (c : Claimant) (sdk : Sdk) (st : σ) :
    (returned op (Buffer.write (server.answer (image op c) st).1 (image op c)) sdk,
        (server.answer (image op c) st).2) =
      (server.handle op st).map op.seen id := by
  have hwf := server.wellFormed op st
  have herror := server.errorcode op st
  rw [Server.answer, parse_image hfits c]
  cases hhandle : server.handle op st with
  | mk result st' =>
      rw [hhandle] at hwf herror
      cases result with
      | ok r =>
          have hwf := hwf r rfl
          obtain ⟨hfields, hoff⟩ := replyFields_inOrder hwf
          have hws : InOrder (errorcodeWrite 0 :: replyFields op r) := by
            apply List.pairwise_cons.mpr
            refine ⟨fun w hw => ?_, hfields⟩
            have hstop : (errorcodeWrite 0).region.stop = 0x54 := rfl
            rw [hstop]
            exact Nat.le_trans (by decide) (hoff w hw)
          have hsub : ∀ w ∈ replyFields op r, w ∈ errorcodeWrite 0 :: replyFields op r :=
            fun w hw => List.mem_cons_of_mem _ hw
          have hok := returned_ok sdk (errorcodeOf_write (b := image op c) hws)
            (readReply_of_mem _ hws bytesText_ascii hsub hwf)
            (readReply_of_mem _ hws asciiReplace_ascii hsub hwf)
          simp only [hhandle, hok]
          rfl
      | error e =>
          have hws : InOrder [errorcodeWrite e] := List.pairwise_singleton _ _
          have hcode := errorcodeOf_write (b := image op c) hws
          have hne := (herror e rfl).1
          rw [← hcode] at hne
          have herr := returned_error op sdk hne
          rw [hcode] at herr
          simp only [hhandle, herr]
          rfl

/-- A call through a free slot is a call of the engine. -/
theorem through_eq (sdk : Sdk) (op : Op) (c : Claimant) {b : SlotBytes} (hfree : Slot.owner b = 0)
    (st : σ) : through server sdk op c b st = ask server sdk op st := by
  have hbegins := begins sdk op
  rw [through, ask]
  cases hstart : start sdk op with
  | refused e =>
      rw [hstart] at hbegins
      cases hbegins with
      | refused hrefusal => rw [hrefusal]
  | skipped =>
      rw [hstart] at hbegins
      cases hbegins with
      | skipped hrefusal hop => rw [hrefusal, if_pos hop]
  | call call =>
      rw [hstart] at hbegins
      cases hbegins with
      | call hrefusal hop =>
          have hasks := asks_of_start hstart
          have hanswer := answer_image server hasks.fits c sdk st
          simp only [hrefusal, if_neg hop, hasks.prepare c hfree]
          exact congrArg (Prod.map Outcome.returned id) hanswer

/-- In every run of calls, by any of the SDKs and through any free slots, whatever is left
in them, each caller gets what a direct call of the engine would return. -/
theorem run_transparent (turns : List Turn) (st : σ) :
    runCalls server turns st = askAll server (turns.map fun turn => (turn.sdk, turn.op)) st := by
  induction turns generalizing st with
  | nil => rfl
  | cons turn turns ih =>
      have hfirst := through_eq server turn.sdk turn.op turn.claimant turn.free st
      simp only [runCalls, List.map_cons, askAll, hfirst, ih]

end Runs

def panel : Server (UInt32 → UInt32) where
  handle op leds :=
    match op with
    | .getLed ledId => (.ok (leds ledId), leds)
    | .setLed ledId state => (.ok (), Function.update leds ledId state)
    | _ => (.error 1#32, leds)
  wellFormed op leds r h := by
    cases op with
    | getLed ledId | setLed ledId state => trivial
    | _ => cases h
  errorcode op leds e h := by
    cases op with
    | getLed ledId | setLed ledId state => cases h
    | _ =>
        cases h
        decide

/-- What Python sets through a slot with a stale byte, C reads; Go is refused an empty path
and told what the engine does not know. -/
theorem run_transparent_panel :
    runCalls panel
        [⟨.python, .setLed 3 7, ⟨1, 1, 0⟩, Slot.staleSlot, by decide⟩,
          ⟨.c, .getLed 3, ⟨2, 2, 0⟩, fun _ => 0, by decide⟩,
          ⟨.go, .parsePath ⟨[], by decide⟩, ⟨3, 3, 0⟩, fun _ => 0, by decide⟩,
          ⟨.go, .dummy, ⟨3, 3, 0⟩, fun _ => 0, by decide⟩] (fun _ => 0) =
      ([⟨.setLed 3 7, .returned (.ok ())⟩, ⟨.getLed 3, .returned (.ok (7 : UInt32))⟩,
          ⟨.parsePath ⟨[], by decide⟩, .refused .nullArg⟩, ⟨.dummy, .returned (.error 1)⟩],
        Function.update (fun _ => 0) 3 7) :=
  (run_transparent panel _ _).trans rfl

end BpClient.Calls
