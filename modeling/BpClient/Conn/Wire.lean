import BpClient.Lib.Bytes

/-!
The Large Forward Open and Forward_Close bodies of `c/src/conn.c`
(`build_lfo`, `build_fc`), `go/ocxbp/cip/conn.go` and
`python/src/bpclient/_conn_wire.py`, which agree byte for byte, and the checks
on their replies.
-/

namespace BpClient.Conn

open BpClient.Lib

def lfoDefaultOtSize : UInt16 := 4000

def lfoMaxOtSize : UInt16 := 4002

def lfoParamsHi : UInt32 := 0x42000000

def lfoRpiUs : UInt32 := 10000000

def lfoOtHint : UInt32 := 0x80010000

def lfoToHint : UInt32 := 0x80000001

def lfoVendorId : UInt16 := 0x0001

def msgMaxSlot : UInt8 := 0x13

structure Serials where
  connSerial : UInt16
  vendorId : UInt16
  origSerial : UInt32
  deriving DecidableEq, Repr

def u16le (v : UInt16) : List UInt8 := leBytes 2 v.toNat

def u32le (v : UInt32) : List UInt8 := leBytes 4 v.toNat

/-- The three numbers where either body has them next to each other. -/
def Serials.bytes (n : Serials) : List UInt8 :=
  u16le n.connSerial ++ (u16le n.vendorId ++ u32le n.origSerial)

def lfoHead : List UInt8 :=
  [0x5B, 0x02, 0x20, 0x06, 0x24, 0x01, 0x05, 0xF7] ++ u32le lfoOtHint ++ u32le lfoToHint

def lfoTail (otSize : UInt16) : List UInt8 :=
  u32le 0x00000003 ++ u32le lfoRpiUs ++ u32le (lfoParamsHi ||| otSize.toUInt32) ++
    u32le lfoRpiUs ++ u32le (lfoParamsHi ||| otSize.toUInt32) ++
    [0xA3, 0x02, 0x20, 0x02, 0x24, 0x01]

def buildLfo (connSerial : UInt16) (origSerial : UInt32) (otSize : UInt16) : List UInt8 :=
  lfoHead ++ ((⟨connSerial, lfoVendorId, origSerial⟩ : Serials).bytes ++ lfoTail otSize)

def fcHead : List UInt8 := [0x4E, 0x02, 0x20, 0x06, 0x24, 0x01, 0x0A, 0x0E]

def fcTail : List UInt8 := [0x02, 0x00, 0x20, 0x02, 0x24, 0x01]

def buildFc (n : Serials) : List UInt8 := fcHead ++ (n.bytes ++ fcTail)

def serialsAt (off : Nat) (body : List UInt8) : Serials where
  connSerial := UInt16.ofNat (leField off 2 body)
  vendorId := UInt16.ofNat (leField (off + 2) 2 body)
  origSerial := UInt32.ofNat (leField (off + 4) 4 body)

def serials (body : List UInt8) : Option Serials :=
  match body with
  | 0x5B :: _ => some (serialsAt 16 body)
  | 0x4E :: _ => some (serialsAt 8 body)
  | _ => none

theorem serialsAt_bytes {off : Nat} (front back : List UInt8) (n : Serials)
    (hoff : front.length = off) : serialsAt off (front ++ (n.bytes ++ back)) = n := by
  have hconn : leField off 2 (front ++ (n.bytes ++ back)) = n.connSerial.toNat := by
    rw [Serials.bytes, u16le, List.append_assoc]
    exact leField_append hoff n.connSerial.toNat_lt
  have hvendor : leField (off + 2) 2 (front ++ (n.bytes ++ back)) = n.vendorId.toNat := by
    rw [Serials.bytes, u16le, u16le, List.append_assoc, List.append_assoc, ← List.append_assoc front]
    exact leField_append (by simp [hoff]) n.vendorId.toNat_lt
  have horig : leField (off + 4) 4 (front ++ (n.bytes ++ back)) = n.origSerial.toNat := by
    rw [Serials.bytes, u16le, u16le, u32le, List.append_assoc, List.append_assoc,
      ← List.append_assoc front, ← List.append_assoc (front ++ _)]
    exact leField_append (by simp [hoff]) n.origSerial.toNat_lt
  simp only [serialsAt, hconn, hvendor, horig, UInt16.ofNat_toNat, UInt32.ofNat_toNat]

/-- The PLC reads from a Large Forward Open the serials it was built with. -/
theorem serials_buildLfo (connSerial : UInt16) (origSerial : UInt32) (otSize : UInt16) :
    serials (buildLfo connSerial origSerial otSize) =
      some ⟨connSerial, lfoVendorId, origSerial⟩ := by
  have hread := serialsAt_bytes lfoHead (lfoTail otSize)
    ⟨connSerial, lfoVendorId, origSerial⟩ (by simp [lfoHead, u32le] : lfoHead.length = 16)
  exact congrArg some hread

/-- A Forward_Close carries the serials of the connection it closes. -/
theorem serials_buildFc (n : Serials) : serials (buildFc n) = some n :=
  congrArg some (serialsAt_bytes fcHead fcTail n rfl)

/-- The reply to a Large Forward Open: the two connection ids when it is
accepted. -/
def parseForwardOpen (resp : List UInt8) : Option (UInt32 × UInt32) :=
  match resp with
  | svc :: _ :: status :: _ =>
      if resp.length < 12 ∨ (svc ≠ 0xDB ∧ svc ≠ 0xD4) ∨ status ≠ 0x00 then none
      else some (UInt32.ofNat (leField 4 4 resp), UInt32.ofNat (leField 8 4 resp))
  | _ => none

def parseForwardClose (resp : List UInt8) : Bool :=
  match resp with
  | svc :: _ :: status :: _ => decide (4 ≤ resp.length ∧ svc = 0xCE ∧ status = 0x00)
  | _ => false

end BpClient.Conn
