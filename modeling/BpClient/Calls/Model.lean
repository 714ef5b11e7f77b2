import BpClient.Lib.Layout
import BpClient.Slot.Request
import BpClient.Ucmm.Send

/-!
The calls of the API that are one `OCXcip_*` request each: the session, the tag
database and its symbols, the identities, the wall clock, the paths and the front panel
of the module. `c/src`, `go/ocxbp` with `go/ocxbp/cip`, and
`python/src/bpclient/client.py` with `tagdb.py` each fill the slot on their own; what is
common to them is the layout of the engine's requests. `docs/protocol.md` has it, but for
the struct infos, the identity objects, the node table, the switch, the LEDs and the
display, whose layout only comments of the sources give.
-/

namespace BpClient.Calls

open BpClient.Lib
open BpClient.Slot (Sdk SlotBytes Request Claimant)
open BpClient.Tag (payloadStart zeros)
open BpClient.Ucmm (Refusal)

/-- What a C string can hold. -/
structure CText where
  bytes : List UInt8
  nul_free : 0 ∉ bytes
  deriving DecidableEq, Repr

abbrev Block (n : Nat) := { bytes : List UInt8 // bytes.length = n }

structure WcTime where
  sec : UInt64
  nsec : UInt64
  aux0 : UInt64
  aux1 : UInt64
  aux2 : UInt64
  aux3 : UInt64
  deriving DecidableEq, Repr

inductive Clock
  | plain | utc
  deriving DecidableEq, Repr

/-- A call with what it asks for. -/
inductive Op
  | openSession
  | closeSession
  | dummy
  | errorString (code : Int32)
  | createTagDbHandle (path : CText)
  | deleteTagDbHandle (handle : UInt32)
  | buildTagDb (handle : UInt32)
  | testTagDbVer (handle : UInt32)
  | getSymbolInfo (handle : UInt32) (index : UInt16)
  | getStructInfo (handle : UInt32) (structId : UInt16)
  | getStructMbrInfo (handle : UInt32) (structId memberIndex : UInt16)
  | getIdObject
  | getDeviceIdObject (path : CText) (inst : UInt16)
  | getDeviceIdStatus (path : CText) (inst : UInt16)
  | getExDevObject (path : CText) (inst : UInt16)
  | getDeviceIcpObject (path : CText) (inst : UInt16)
  | getActiveNodeTable
  | parsePath (text : CText)
  | getWcTime (clock : Clock) (path : CText) (inst : UInt16)
  | setWcTime (clock : Clock) (path : CText) (inst : UInt16) (wc : WcTime)
  | getSwitchPosition
  | getLed (ledId : UInt32)
  | setLed (ledId state : UInt32)
  | getDisplay
  | setDisplay (four : Block 4)
  deriving DecidableEq, Repr

/-- `bp_call_spec_t`, `CallSpec` and the arguments of Python's `call`, without the read
callback; no stores are a fill callback that is `NULL`. -/
structure Call where
  fnName : String
  payloadSize : Nat
  fill : List Write
  timeoutMs : Nat

def ascii (s : String) : List UInt8 := s.toUTF8.data.toList

def Call.request (call : Call) : Request :=
  ⟨ascii call.fnName, call.payloadSize, some fun s => some (Buffer.write call.fill s)⟩

inductive Start
  | refused (e : Refusal)
  /-- There is nothing to ask the engine for: the handle is 0. -/
  | skipped
  | call (call : Call)

namespace C

/-- The path as the fill callbacks store it: `n` bytes and a NUL. -/
def pathWrites (path : CText) : List Write :=
  let n := min path.bytes.length 254
  [⟨payloadStart, path.bytes.take n⟩, ⟨payloadStart + n, [0]⟩]

def ctdhFill (path : CText) : List Write :=
  [⟨payloadStart, zeros 256⟩] ++ pathWrites path ++ [⟨0x178, leBytes 2 0⟩]

def simpleHandleFill (h : UInt32) : List Write := [⟨payloadStart, leBytes 4 h.toNat⟩]

def buildFill (handle : UInt32) : List Write := [⟨payloadStart, leBytes 4 handle.toNat⟩]

def symFill (handle : UInt32) (index : UInt16) : List Write :=
  [⟨payloadStart, leBytes 4 handle.toNat⟩, ⟨payloadStart + 4, leBytes 2 index.toNat⟩]

def siFill (handle : UInt32) (structId : UInt16) : List Write :=
  [⟨0x78, leBytes 4 handle.toNat⟩, ⟨0x7C, leBytes 2 structId.toNat⟩]

def smiFill (handle : UInt32) (structId memberIndex : UInt16) : List Write :=
  [⟨0x78, leBytes 4 handle.toNat⟩, ⟨0x7C, leBytes 2 structId.toNat⟩,
    ⟨0x7E, leBytes 2 memberIndex.toNat⟩]

def esFill (code : Int32) : List Write := [⟨payloadStart, leBytes 4 code.toUInt32.toNat⟩]

def gidDevFill (path : CText) (inst : UInt16) : List Write :=
  pathWrites path ++ [⟨0x178, leBytes 2 inst.toNat⟩]

def gidsFill (path : CText) (inst : UInt16) : List Write :=
  pathWrites path ++ [⟨0x178, leBytes 2 0⟩, ⟨0x17A, leBytes 2 inst.toNat⟩]

def exdFill (path : CText) (inst : UInt16) : List Write :=
  pathWrites path ++ [⟨0x25A, leBytes 2 inst.toNat⟩]

def icpFill (path : CText) (inst : UInt16) : List Write :=
  pathWrites path ++ [⟨0x18C, leBytes 2 inst.toNat⟩]

def ppFill (text : CText) (cap : UInt16) : List Write :=
  pathWrites text ++ [⟨0x280, leBytes 2 cap.toNat⟩]

/-- `wc_get_dispatch` has refused an `out` that is `NULL`. -/
def wcGetFill (path : CText) (inst : UInt16) : List Write :=
  pathWrites path ++ [⟨0x178, leBytes 2 inst.toNat⟩, ⟨0x17A, [1]⟩]

def wcStU64 (off : Nat) (v : UInt64) : List Write :=
  [⟨off, leBytes 4 v.toUInt32.toNat⟩, ⟨off + 4, leBytes 4 (v >>> 32).toUInt32.toNat⟩]

/-- `in` may be `NULL`. -/
def wcSetFill (path : CText) (inst : UInt16) (wc : Option WcTime) : List Write :=
  pathWrites path ++ [⟨0x178, leBytes 2 inst.toNat⟩, ⟨0x17A, [if wc.isSome then 1 else 0]⟩] ++
    match wc with
    | none => []
    | some wc => wcStU64 0x180 wc.sec ++ wcStU64 0x188 wc.nsec ++ wcStU64 0x190 wc.aux0 ++
        wcStU64 0x198 wc.aux1 ++ wcStU64 0x1A0 wc.aux2 ++ wcStU64 0x1A8 wc.aux3

def ledGetFill (ledId : UInt32) : List Write := [⟨0x78, leBytes 4 ledId.toNat⟩]

def ledSetFill (ledId state : UInt32) : List Write :=
  [⟨0x78, leBytes 4 ledId.toNat⟩, ⟨0x7C, leBytes 4 state.toNat⟩]

def dispSetFill (four : Block 4) : List Write := [⟨0x78, four.1⟩, ⟨0x7C, [0]⟩]

def withPath (path : CText) (call : Call) : Start :=
  if 254 < path.bytes.length then .refused .paramRange else .call call

/-- The functions of `c/src` up to `bp_client_call`. -/
def start : Op → Start
  | .openSession => .call ⟨"OCXcip_Open", 0x80, [], 5000⟩
  | .closeSession => .call ⟨"OCXcip_Close", 0x78, [], 5000⟩
  | .dummy => .call ⟨"OCXcip_Dummy", 0x78, [], 5000⟩
  | .errorString code => .call ⟨"OCXcip_ErrorString", 0xD0, esFill code, 5000⟩
  | .createTagDbHandle path =>
      withPath path ⟨"OCXcip_CreateTagDbHandle", 0x180, ctdhFill path, 5000⟩
  | .deleteTagDbHandle handle =>
      if handle ≠ 0 then .call ⟨"OCXcip_DeleteTagDbHandle", 0x80, simpleHandleFill handle, 5000⟩
      else .skipped
  | .buildTagDb handle => .call ⟨"OCXcip_BuildTagDb", 0x80, buildFill handle, 30000⟩
  | .testTagDbVer handle => .call ⟨"OCXcip_TestTagDbVer", 0x80, simpleHandleFill handle, 5000⟩
  | .getSymbolInfo handle index =>
      .call ⟨"OCXcip_GetSymbolInfo", 0x100, symFill handle index, 5000⟩
  | .getStructInfo handle structId =>
      .call ⟨"OCXcip_GetStructInfo", 0xB8, siFill handle structId, 5000⟩
  | .getStructMbrInfo handle structId memberIndex =>
      .call ⟨"OCXcip_GetStructMbrInfo", 0xD0, smiFill handle structId memberIndex, 5000⟩
  | .getIdObject => .call ⟨"OCXcip_GetIdObject", 0xA8, [], 5000⟩
  | .getDeviceIdObject path inst =>
      withPath path ⟨"OCXcip_GetDeviceIdObject", 0x1B0, gidDevFill path inst, 5000⟩
  | .getDeviceIdStatus path inst =>
      withPath path ⟨"OCXcip_GetDeviceIdStatus", 0x180, gidsFill path inst, 5000⟩
  | .getExDevObject path inst =>
      withPath path ⟨"OCXcip_GetExDevObject", 0x260, exdFill path inst, 5000⟩
  | .getDeviceIcpObject path inst =>
      withPath path ⟨"OCXcip_GetDeviceICPObject", 0x190, icpFill path inst, 5000⟩
  | .getActiveNodeTable => .call ⟨"OCXcip_GetActiveNodeTable", 0x80, [], 5000⟩
  | .parsePath text => withPath text ⟨"OCXcip_ParsePath", 0x288, ppFill text 256, 5000⟩
  | .getWcTime .plain path inst =>
      withPath path ⟨"OCXcip_GetWCTime", 0x1B0, wcGetFill path inst, 5000⟩
  | .getWcTime .utc path inst =>
      withPath path ⟨"OCXcip_GetWCTimeUTC", 0x1B0, wcGetFill path inst, 5000⟩
  | .setWcTime .plain path inst wc =>
      withPath path ⟨"OCXcip_SetWCTime", 0x1B0, wcSetFill path inst (some wc), 5000⟩
  | .setWcTime .utc path inst wc =>
      withPath path ⟨"OCXcip_SetWCTimeUTC", 0x1B0, wcSetFill path inst (some wc), 5000⟩
  | .getSwitchPosition => .call ⟨"OCXcip_GetSwitchPosition", 0x80, [], 5000⟩
  | .getLed ledId => .call ⟨"OCXcip_GetLED", 0x80, ledGetFill ledId, 5000⟩
  | .setLed ledId state => .call ⟨"OCXcip_SetLED", 0x80, ledSetFill ledId state, 5000⟩
  | .getDisplay => .call ⟨"OCXcip_GetDisplay", 0x80, [], 5000⟩
  | .setDisplay four => .call ⟨"OCXcip_SetDisplay", 0x80, dispSetFill four, 5000⟩

end C

namespace Go

/-- `copy` of at most 254 bytes; the NUL is left to the clear of the dispatcher. -/
def pathWrites (path : CText) : List Write := [⟨payloadStart, path.bytes.take 254⟩]

def encodeCreateTagDbHandle (path : CText) : List Write :=
  [⟨payloadStart, zeros 256⟩] ++ pathWrites path ++ [⟨0x178, leBytes 2 0⟩]

def encodeHandle (handle : UInt32) : List Write := [⟨payloadStart, leBytes 4 handle.toNat⟩]

def encodeGetSymbolInfo (handle : UInt32) (index : UInt16) : List Write :=
  [⟨payloadStart, leBytes 4 handle.toNat⟩, ⟨payloadStart + 4, leBytes 2 index.toNat⟩]

def encodeGetStructInfo (handle : UInt32) (structId : UInt16) : List Write :=
  [⟨payloadStart, leBytes 4 handle.toNat⟩, ⟨payloadStart + 4, leBytes 2 structId.toNat⟩]

def encodeGetStructMbrInfo (handle : UInt32) (structId memberIndex : UInt16) : List Write :=
  [⟨payloadStart, leBytes 4 handle.toNat⟩, ⟨payloadStart + 4, leBytes 2 structId.toNat⟩,
    ⟨payloadStart + 6, leBytes 2 memberIndex.toNat⟩]

def encodeErrorString (code : Int32) : List Write :=
  [⟨payloadStart, leBytes 4 code.toUInt32.toNat⟩]

def encodeGetDeviceId (path : CText) (inst : UInt16) : List Write :=
  pathWrites path ++ [⟨0x178, leBytes 2 inst.toNat⟩]

def encodeGetDeviceIdStatus (path : CText) (inst : UInt16) : List Write :=
  pathWrites path ++ [⟨0x178, leBytes 2 0⟩, ⟨0x17A, leBytes 2 inst.toNat⟩]

def encodeGetExDevObject (path : CText) (inst : UInt16) : List Write :=
  pathWrites path ++ [⟨0x25A, leBytes 2 inst.toNat⟩]

def encodeGetDeviceIcpObject (path : CText) (inst : UInt16) : List Write :=
  pathWrites path ++ [⟨0x18C, leBytes 2 inst.toNat⟩]

def encodeParsePath (text : CText) (cap : UInt16) : List Write :=
  pathWrites text ++ [⟨0x280, leBytes 2 cap.toNat⟩]

def encodeWcTimeReq (path : CText) (inst : UInt16) (wc : Option WcTime) : List Write :=
  pathWrites path ++ [⟨0x178, leBytes 2 inst.toNat⟩] ++
    match wc with
    | some wc => [⟨0x17A, [1]⟩, ⟨0x180, leBytes 8 wc.sec.toNat⟩, ⟨0x188, leBytes 8 wc.nsec.toNat⟩,
        ⟨0x190, leBytes 8 wc.aux0.toNat⟩, ⟨0x198, leBytes 8 wc.aux1.toNat⟩,
        ⟨0x1A0, leBytes 8 wc.aux2.toNat⟩, ⟨0x1A8, leBytes 8 wc.aux3.toNat⟩]
    | none => [⟨0x17A, [0]⟩]

/-- `have := WCTime{}`, which `wctimeGet` passes to be given a reply. -/
def haveWcTime : WcTime := ⟨0, 0, 0, 0, 0, 0⟩

def encodeGetLed (ledId : UInt32) : List Write := [⟨payloadStart, leBytes 4 ledId.toNat⟩]

def encodeSetLed (ledId state : UInt32) : List Write :=
  [⟨payloadStart, leBytes 4 ledId.toNat⟩, ⟨payloadStart + 4, leBytes 4 state.toNat⟩]

def encodeSetDisplay (fourChars : Block 4) : List Write :=
  [⟨payloadStart, fourChars.1⟩, ⟨payloadStart + 4, [0]⟩]

/-- An empty path is refused, and one that is too long. -/
def withPath (path : CText) (call : Call) : Start :=
  if path.bytes = [] then .refused .nullArg
  else if 254 < path.bytes.length then .refused .paramRange
  else .call call

/-- The methods of `Client` and `TagDB` up to `shm.Call`. -/
def start : Op → Start
  | .openSession => .call ⟨"OCXcip_Open", 0x80, [], 5000⟩
  | .closeSession => .call ⟨"OCXcip_Close", 0x78, [], 5000⟩
  | .dummy => .call ⟨"OCXcip_Dummy", 0x78, [], 5000⟩
  | .errorString code => .call ⟨"OCXcip_ErrorString", 0xD0, encodeErrorString code, 5000⟩
  | .createTagDbHandle path =>
      withPath path ⟨"OCXcip_CreateTagDbHandle", 0x180, encodeCreateTagDbHandle path, 5000⟩
  | .deleteTagDbHandle handle =>
      if handle = 0 then .skipped
      else .call ⟨"OCXcip_DeleteTagDbHandle", 0x80, encodeHandle handle, 5000⟩
  | .buildTagDb handle => .call ⟨"OCXcip_BuildTagDb", 0x80, encodeHandle handle, 30000⟩
  | .testTagDbVer handle => .call ⟨"OCXcip_TestTagDbVer", 0x80, encodeHandle handle, 5000⟩
  | .getSymbolInfo handle index =>
      .call ⟨"OCXcip_GetSymbolInfo", 0x100, encodeGetSymbolInfo handle index, 5000⟩
  | .getStructInfo handle structId =>
      .call ⟨"OCXcip_GetStructInfo", 0xB8, encodeGetStructInfo handle structId, 5000⟩
  | .getStructMbrInfo handle structId memberIndex =>
      .call ⟨"OCXcip_GetStructMbrInfo", 0xD0,
        encodeGetStructMbrInfo handle structId memberIndex, 5000⟩
  | .getIdObject => .call ⟨"OCXcip_GetIdObject", 0xA8, [], 5000⟩
  | .getDeviceIdObject path inst =>
      withPath path ⟨"OCXcip_GetDeviceIdObject", 0x1B0, encodeGetDeviceId path inst, 5000⟩
  | .getDeviceIdStatus path inst =>
      withPath path ⟨"OCXcip_GetDeviceIdStatus", 0x180, encodeGetDeviceIdStatus path inst, 5000⟩
  | .getExDevObject path inst =>
      withPath path ⟨"OCXcip_GetExDevObject", 0x260, encodeGetExDevObject path inst, 5000⟩
  | .getDeviceIcpObject path inst =>
      withPath path ⟨"OCXcip_GetDeviceICPObject", 0x190, encodeGetDeviceIcpObject path inst, 5000⟩
  | .getActiveNodeTable => .call ⟨"OCXcip_GetActiveNodeTable", 0x80, [], 5000⟩
  | .parsePath text =>
      withPath text ⟨"OCXcip_ParsePath", 0x288, encodeParsePath text 256, 5000⟩
  | .getWcTime .plain path inst =>
      withPath path ⟨"OCXcip_GetWCTime", 0x1B0, encodeWcTimeReq path inst (some haveWcTime), 5000⟩
  | .getWcTime .utc path inst =>
      withPath path
        ⟨"OCXcip_GetWCTimeUTC", 0x1B0, encodeWcTimeReq path inst (some haveWcTime), 5000⟩
  | .setWcTime .plain path inst wc =>
      withPath path ⟨"OCXcip_SetWCTime", 0x1B0, encodeWcTimeReq path inst (some wc), 5000⟩
  | .setWcTime .utc path inst wc =>
      withPath path ⟨"OCXcip_SetWCTimeUTC", 0x1B0, encodeWcTimeReq path inst (some wc), 5000⟩
  | .getSwitchPosition => .call ⟨"OCXcip_GetSwitchPosition", 0x80, [], 5000⟩
  | .getLed ledId => .call ⟨"OCXcip_GetLED", 0x80, encodeGetLed ledId, 5000⟩
  | .setLed ledId state => .call ⟨"OCXcip_SetLED", 0x80, encodeSetLed ledId state, 5000⟩
  | .getDisplay => .call ⟨"OCXcip_GetDisplay", 0x80, [], 5000⟩
  | .setDisplay fourChars => .call ⟨"OCXcip_SetDisplay", 0x80, encodeSetDisplay fourChars, 5000⟩

end Go

namespace Python

/-- `slot[0x78:0x78 + len(path_bytes)] = path_bytes` and the NUL. -/
def pathWrites (path : CText) : List Write :=
  [⟨payloadStart, path.bytes⟩, ⟨payloadStart + path.bytes.length, [0]⟩]

def openTagdbFill (path : CText) : List Write :=
  [⟨payloadStart, zeros 256⟩, ⟨payloadStart, path.bytes⟩, ⟨0x178, leBytes 2 0⟩]

def handleFill (h : UInt32) : List Write := [⟨payloadStart, leBytes 4 h.toNat⟩]

def symbolAtFill (h : UInt32) (index : UInt16) : List Write :=
  [⟨payloadStart, leBytes 4 h.toNat ++ leBytes 2 index.toNat⟩]

def getStructInfoFill (h : UInt32) (structId : UInt16) : List Write :=
  [⟨payloadStart, leBytes 4 h.toNat ++ leBytes 2 structId.toNat⟩]

def getStructMemberFill (h : UInt32) (structId memberIndex : UInt16) : List Write :=
  [⟨payloadStart, leBytes 4 h.toNat ++ (leBytes 2 structId.toNat ++ leBytes 2 memberIndex.toNat)⟩]

def errorStringFill (code : Int32) : List Write :=
  [⟨payloadStart, leBytes 4 code.toUInt32.toNat⟩]

def getDeviceIdFill (path : CText) (inst : UInt16) : List Write :=
  pathWrites path ++ [⟨0x178, leBytes 2 inst.toNat⟩]

def getDeviceIdStatusFill (path : CText) (inst : UInt16) : List Write :=
  pathWrites path ++ [⟨0x178, leBytes 2 0⟩, ⟨0x17A, leBytes 2 inst.toNat⟩]

def getExDevObjectFill (path : CText) (inst : UInt16) : List Write :=
  pathWrites path ++ [⟨0x25A, leBytes 2 inst.toNat⟩]

def getDeviceIcpObjectFill (path : CText) (inst : UInt16) : List Write :=
  pathWrites path ++ [⟨0x18C, leBytes 2 inst.toNat⟩]

def parsePathFill (text : CText) : List Write :=
  pathWrites text ++ [⟨0x280, leBytes 2 256⟩]

def wctimeReq (path : CText) (inst : UInt16) (wc : Option WcTime) : List Write :=
  pathWrites path ++ [⟨0x178, leBytes 2 inst.toNat⟩, ⟨0x17A, [if wc.isSome then 1 else 0]⟩] ++
    match wc with
    | none => []
    | some wc => [⟨0x180, leBytes 8 wc.sec.toNat ++ (leBytes 8 wc.nsec.toNat ++
        (leBytes 8 wc.aux0.toNat ++ (leBytes 8 wc.aux1.toNat ++
          (leBytes 8 wc.aux2.toNat ++ leBytes 8 wc.aux3.toNat))))⟩]

def dummyWcTime : WcTime := ⟨0, 0, 0, 0, 0, 0⟩

def getLedFill (ledId : UInt32) : List Write := [⟨payloadStart, leBytes 4 ledId.toNat⟩]

def setLedFill (ledId state : UInt32) : List Write :=
  [⟨payloadStart, leBytes 4 ledId.toNat ++ leBytes 4 state.toNat⟩]

def setDisplayFill (fourChars : Block 4) : List Write :=
  [⟨payloadStart, fourChars.1.take 4⟩, ⟨payloadStart + 4, [0]⟩]

/-- The checks of a path, and `path.encode("ascii", "strict")`. The path is given by its
bytes, of which Python counts the code points: a path that is not ASCII may be refused here
as too long where Python raises in the encoding. -/
def withPath (path : CText) (call : Call) : Start :=
  if path.bytes = [] then .refused .nullArg
  else if 254 < path.bytes.length then .refused .paramRange
  else if path.bytes.all (· < 0x80) = false then .refused .raised
  else .call call

/-- The methods of `Client` and `TagDB` up to `raw.call`. -/
def start : Op → Start
  | .openSession => .call ⟨"OCXcip_Open", 0x80, [], 5000⟩
  | .closeSession => .call ⟨"OCXcip_Close", 0x78, [], 5000⟩
  | .dummy => .call ⟨"OCXcip_Dummy", 0x78, [], 5000⟩
  | .errorString code => .call ⟨"OCXcip_ErrorString", 0xD0, errorStringFill code, 5000⟩
  | .createTagDbHandle path =>
      withPath path ⟨"OCXcip_CreateTagDbHandle", 0x180, openTagdbFill path, 5000⟩
  | .deleteTagDbHandle handle =>
      if handle = 0 then .skipped
      else .call ⟨"OCXcip_DeleteTagDbHandle", 0x80, handleFill handle, 5000⟩
  | .buildTagDb handle => .call ⟨"OCXcip_BuildTagDb", 0x80, handleFill handle, 30000⟩
  | .testTagDbVer handle => .call ⟨"OCXcip_TestTagDbVer", 0x80, handleFill handle, 5000⟩
  | .getSymbolInfo handle index =>
      .call ⟨"OCXcip_GetSymbolInfo", 0x100, symbolAtFill handle index, 5000⟩
  | .getStructInfo handle structId =>
      .call ⟨"OCXcip_GetStructInfo", 0xB8, getStructInfoFill handle structId, 5000⟩
  | .getStructMbrInfo handle structId memberIndex =>
      .call ⟨"OCXcip_GetStructMbrInfo", 0xD0,
        getStructMemberFill handle structId memberIndex, 5000⟩
  | .getIdObject => .call ⟨"OCXcip_GetIdObject", 0xA8, [], 5000⟩
  | .getDeviceIdObject path inst =>
      withPath path ⟨"OCXcip_GetDeviceIdObject", 0x1B0, getDeviceIdFill path inst, 5000⟩
  | .getDeviceIdStatus path inst =>
      withPath path ⟨"OCXcip_GetDeviceIdStatus", 0x180, getDeviceIdStatusFill path inst, 5000⟩
  | .getExDevObject path inst =>
      withPath path ⟨"OCXcip_GetExDevObject", 0x260, getExDevObjectFill path inst, 5000⟩
  | .getDeviceIcpObject path inst =>
      withPath path ⟨"OCXcip_GetDeviceICPObject", 0x190, getDeviceIcpObjectFill path inst, 5000⟩
  | .getActiveNodeTable => .call ⟨"OCXcip_GetActiveNodeTable", 0x80, [], 5000⟩
  | .parsePath text => withPath text ⟨"OCXcip_ParsePath", 0x288, parsePathFill text, 5000⟩
  | .getWcTime .plain path inst =>
      withPath path ⟨"OCXcip_GetWCTime", 0x1B0, wctimeReq path inst (some dummyWcTime), 5000⟩
  | .getWcTime .utc path inst =>
      withPath path ⟨"OCXcip_GetWCTimeUTC", 0x1B0, wctimeReq path inst (some dummyWcTime), 5000⟩
  | .setWcTime .plain path inst wc =>
      withPath path ⟨"OCXcip_SetWCTime", 0x1B0, wctimeReq path inst (some wc), 5000⟩
  | .setWcTime .utc path inst wc =>
      withPath path ⟨"OCXcip_SetWCTimeUTC", 0x1B0, wctimeReq path inst (some wc), 5000⟩
  | .getSwitchPosition => .call ⟨"OCXcip_GetSwitchPosition", 0x80, [], 5000⟩
  | .getLed ledId => .call ⟨"OCXcip_GetLED", 0x80, getLedFill ledId, 5000⟩
  | .setLed ledId state => .call ⟨"OCXcip_SetLED", 0x80, setLedFill ledId state, 5000⟩
  | .getDisplay => .call ⟨"OCXcip_GetDisplay", 0x80, [], 5000⟩
  | .setDisplay fourChars => .call ⟨"OCXcip_SetDisplay", 0x80, setDisplayFill fourChars, 5000⟩

end Python

def start : Sdk → Op → Start
  | .c, op => C.start op
  | .go, op => Go.start op
  | .python, op => Python.start op

inductive Fn
  | openSession | closeSession | dummy | errorString | createTagDbHandle | deleteTagDbHandle
  | buildTagDb | testTagDbVer | getSymbolInfo | getStructInfo | getStructMbrInfo | getIdObject
  | getDeviceIdObject | getDeviceIdStatus | getExDevObject | getDeviceIcpObject
  | getActiveNodeTable | parsePath | getWcTime (clock : Clock) | setWcTime (clock : Clock)
  | getSwitchPosition | getLed | setLed | getDisplay | setDisplay
  deriving DecidableEq, Repr

namespace Fn

def all : List Fn :=
  [openSession, closeSession, dummy, errorString, createTagDbHandle, deleteTagDbHandle,
    buildTagDb, testTagDbVer, getSymbolInfo, getStructInfo, getStructMbrInfo, getIdObject,
    getDeviceIdObject, getDeviceIdStatus, getExDevObject, getDeviceIcpObject,
    getActiveNodeTable, parsePath, getWcTime .plain, getWcTime .utc, setWcTime .plain,
    setWcTime .utc, getSwitchPosition, getLed, setLed, getDisplay, setDisplay]

def name : Fn → String
  | openSession => "OCXcip_Open"
  | closeSession => "OCXcip_Close"
  | dummy => "OCXcip_Dummy"
  | errorString => "OCXcip_ErrorString"
  | createTagDbHandle => "OCXcip_CreateTagDbHandle"
  | deleteTagDbHandle => "OCXcip_DeleteTagDbHandle"
  | buildTagDb => "OCXcip_BuildTagDb"
  | testTagDbVer => "OCXcip_TestTagDbVer"
  | getSymbolInfo => "OCXcip_GetSymbolInfo"
  | getStructInfo => "OCXcip_GetStructInfo"
  | getStructMbrInfo => "OCXcip_GetStructMbrInfo"
  | getIdObject => "OCXcip_GetIdObject"
  | getDeviceIdObject => "OCXcip_GetDeviceIdObject"
  | getDeviceIdStatus => "OCXcip_GetDeviceIdStatus"
  | getExDevObject => "OCXcip_GetExDevObject"
  | getDeviceIcpObject => "OCXcip_GetDeviceICPObject"
  | getActiveNodeTable => "OCXcip_GetActiveNodeTable"
  | parsePath => "OCXcip_ParsePath"
  | getWcTime .plain => "OCXcip_GetWCTime"
  | getWcTime .utc => "OCXcip_GetWCTimeUTC"
  | setWcTime .plain => "OCXcip_SetWCTime"
  | setWcTime .utc => "OCXcip_SetWCTimeUTC"
  | getSwitchPosition => "OCXcip_GetSwitchPosition"
  | getLed => "OCXcip_GetLED"
  | setLed => "OCXcip_SetLED"
  | getDisplay => "OCXcip_GetDisplay"
  | setDisplay => "OCXcip_SetDisplay"

def size : Fn → Nat
  | openSession | deleteTagDbHandle | buildTagDb | testTagDbVer | getActiveNodeTable
  | getSwitchPosition | getLed | setLed | getDisplay | setDisplay => 0x80
  | closeSession | dummy => 0x78
  | errorString | getStructMbrInfo => 0xD0
  | createTagDbHandle | getDeviceIdStatus => 0x180
  | getSymbolInfo => 0x100
  | getStructInfo => 0xB8
  | getIdObject => 0xA8
  | getDeviceIdObject | getWcTime _ | setWcTime _ => 0x1B0
  | getExDevObject => 0x260
  | getDeviceIcpObject => 0x190
  | parsePath => 0x288

/-- How long a call waits, in milliseconds; the walk of the symbol table takes its time. -/
def timeoutMs : Fn → Nat
  | buildTagDb => 30000
  | _ => 5000

def ofName (bytes : List UInt8) : Option Fn := all.find? fun fn => ascii fn.name = bytes

end Fn

def Op.fn : Op → Fn
  | .openSession => .openSession
  | .closeSession => .closeSession
  | .dummy => .dummy
  | .errorString _ => .errorString
  | .createTagDbHandle _ => .createTagDbHandle
  | .deleteTagDbHandle _ => .deleteTagDbHandle
  | .buildTagDb _ => .buildTagDb
  | .testTagDbVer _ => .testTagDbVer
  | .getSymbolInfo _ _ => .getSymbolInfo
  | .getStructInfo _ _ => .getStructInfo
  | .getStructMbrInfo _ _ _ => .getStructMbrInfo
  | .getIdObject => .getIdObject
  | .getDeviceIdObject _ _ => .getDeviceIdObject
  | .getDeviceIdStatus _ _ => .getDeviceIdStatus
  | .getExDevObject _ _ => .getExDevObject
  | .getDeviceIcpObject _ _ => .getDeviceIcpObject
  | .getActiveNodeTable => .getActiveNodeTable
  | .parsePath _ => .parsePath
  | .getWcTime clock _ _ => .getWcTime clock
  | .setWcTime clock _ _ _ => .setWcTime clock
  | .getSwitchPosition => .getSwitchPosition
  | .getLed _ => .getLed
  | .setLed _ _ => .setLed
  | .getDisplay => .getDisplay
  | .setDisplay _ => .setDisplay

def Op.path : Op → Option CText
  | .createTagDbHandle path | .getDeviceIdObject path _ | .getDeviceIdStatus path _
  | .getExDevObject path _ | .getDeviceIcpObject path _ | .parsePath path
  | .getWcTime _ path _ | .setWcTime _ path _ _ => some path
  | _ => none

/-- The six numbers of a time, where requests and replies have them. -/
def WcTime.fields (wc : WcTime) : List Write :=
  [⟨0x180, leBytes 8 wc.sec.toNat⟩, ⟨0x188, leBytes 8 wc.nsec.toNat⟩,
    ⟨0x190, leBytes 8 wc.aux0.toNat⟩, ⟨0x198, leBytes 8 wc.aux1.toNat⟩,
    ⟨0x1A0, leBytes 8 wc.aux2.toNat⟩, ⟨0x1A8, leBytes 8 wc.aux3.toNat⟩]

/-- The payload of a request, in the order of the offsets. -/
def Op.fields : Op → List Write
  | .errorString code => [⟨0x78, leBytes 4 code.toUInt32.toNat⟩]
  | .createTagDbHandle path => [⟨0x78, terminated path.bytes 256⟩, ⟨0x178, leBytes 2 0⟩]
  | .deleteTagDbHandle handle | .buildTagDb handle | .testTagDbVer handle =>
      [⟨0x78, leBytes 4 handle.toNat⟩]
  | .getSymbolInfo handle index => [⟨0x78, leBytes 4 handle.toNat⟩, ⟨0x7C, leBytes 2 index.toNat⟩]
  | .getStructInfo handle structId =>
      [⟨0x78, leBytes 4 handle.toNat⟩, ⟨0x7C, leBytes 2 structId.toNat⟩]
  | .getStructMbrInfo handle structId memberIndex =>
      [⟨0x78, leBytes 4 handle.toNat⟩, ⟨0x7C, leBytes 2 structId.toNat⟩,
        ⟨0x7E, leBytes 2 memberIndex.toNat⟩]
  | .getDeviceIdObject path inst =>
      [⟨0x78, terminated path.bytes 256⟩, ⟨0x178, leBytes 2 inst.toNat⟩]
  | .getDeviceIdStatus path inst =>
      [⟨0x78, terminated path.bytes 256⟩, ⟨0x178, leBytes 2 0⟩, ⟨0x17A, leBytes 2 inst.toNat⟩]
  | .getExDevObject path inst =>
      [⟨0x78, terminated path.bytes 256⟩, ⟨0x25A, leBytes 2 inst.toNat⟩]
  | .getDeviceIcpObject path inst =>
      [⟨0x78, terminated path.bytes 256⟩, ⟨0x18C, leBytes 2 inst.toNat⟩]
  | .parsePath text => [⟨0x78, terminated text.bytes 256⟩, ⟨0x280, leBytes 2 256⟩]
  | .getWcTime _ path inst =>
      [⟨0x78, terminated path.bytes 256⟩, ⟨0x178, leBytes 2 inst.toNat⟩, ⟨0x17A, [1]⟩]
  | .setWcTime _ path inst wc =>
      [⟨0x78, terminated path.bytes 256⟩, ⟨0x178, leBytes 2 inst.toNat⟩, ⟨0x17A, [1]⟩] ++
        wc.fields
  | .getLed ledId => [⟨0x78, leBytes 4 ledId.toNat⟩]
  | .setLed ledId state => [⟨0x78, leBytes 4 ledId.toNat⟩, ⟨0x7C, leBytes 4 state.toNat⟩]
  | .setDisplay four => [⟨0x78, four.1⟩, ⟨0x7C, [0]⟩]
  | _ => []

section Parse

variable (b : SlotBytes)

def u16At (off : Nat) : UInt16 := UInt16.ofNat (leNat (b.read off 2))

def u32At (off : Nat) : UInt32 := UInt32.ofNat (leNat (b.read off 4))

def u64At (off : Nat) : UInt64 := UInt64.ofNat (leNat (b.read off 8))

def pathAt : CText := ⟨cString (b.read 0x78 256), nul_free_cString _⟩

def wcTimeAt : WcTime :=
  ⟨u64At b 0x180, u64At b 0x188, u64At b 0x190, u64At b 0x198, u64At b 0x1A0, u64At b 0x1A8⟩

def Fn.parse : Fn → Op
  | .openSession => .openSession
  | .closeSession => .closeSession
  | .dummy => .dummy
  | .errorString => .errorString (u32At b 0x78).toInt32
  | .createTagDbHandle => .createTagDbHandle (pathAt b)
  | .deleteTagDbHandle => .deleteTagDbHandle (u32At b 0x78)
  | .buildTagDb => .buildTagDb (u32At b 0x78)
  | .testTagDbVer => .testTagDbVer (u32At b 0x78)
  | .getSymbolInfo => .getSymbolInfo (u32At b 0x78) (u16At b 0x7C)
  | .getStructInfo => .getStructInfo (u32At b 0x78) (u16At b 0x7C)
  | .getStructMbrInfo => .getStructMbrInfo (u32At b 0x78) (u16At b 0x7C) (u16At b 0x7E)
  | .getIdObject => .getIdObject
  | .getDeviceIdObject => .getDeviceIdObject (pathAt b) (u16At b 0x178)
  | .getDeviceIdStatus => .getDeviceIdStatus (pathAt b) (u16At b 0x17A)
  | .getExDevObject => .getExDevObject (pathAt b) (u16At b 0x25A)
  | .getDeviceIcpObject => .getDeviceIcpObject (pathAt b) (u16At b 0x18C)
  | .getActiveNodeTable => .getActiveNodeTable
  | .parsePath => .parsePath (pathAt b)
  | .getWcTime clock => .getWcTime clock (pathAt b) (u16At b 0x178)
  | .setWcTime clock => .setWcTime clock (pathAt b) (u16At b 0x178) (wcTimeAt b)
  | .getSwitchPosition => .getSwitchPosition
  | .getLed => .getLed (u32At b 0x78)
  | .setLed => .setLed (u32At b 0x78) (u32At b 0x7C)
  | .getDisplay => .getDisplay
  | .setDisplay => .setDisplay ⟨b.read 0x78 4, Buffer.read_length b 0x78 4⟩

/-- What the engine is asked for by the bytes of a slot. -/
def parse : Option Op :=
  if leNat (b.read Slot.hdrOpcode 2) ≠ Slot.opcodeCip then none
  else
    (Fn.ofName (cString (b.read Slot.hdrFnName 64))).bind fun fn =>
      if leNat (b.read Slot.hdrPayloadSize 4) ≠ fn.size then none else some (fn.parse b)

end Parse

end BpClient.Calls
