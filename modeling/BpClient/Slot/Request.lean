import BpClient.Lib.Buffer
import BpClient.Slot.Dispatcher
import BpClient.Tag.Access

/-!
The bytes of a slot between its reservation and the post to the engine, as
`bp_client_call`, `Client.Call` and `Client.call` write them: the owner, the
header, the clears and what the fill callback adds. Nothing of what earlier
calls have left in the slot survives.
-/

namespace BpClient.Slot

open BpClient.Lib
open BpClient.Tag (slotStride payloadStart zeros zeros_length)

def hdrOpcode : Nat := 0x00
def hdrPayloadSize : Nat := 0x04
def hdrFnName : Nat := 0x08
def hdrClientPid : Nat := 0x48
def hdrIsDocker : Nat := 0x4C
def hdrErrorcode : Nat := 0x50
def hdrSlotOwner : Nat := 0x58
def hdrSlotNumber : Nat := 0x60

def opcodeCip : Nat := 0xCA

abbrev SlotBytes := Buffer slotStride

/-- The request side of `bp_call_spec_t`, of `CallSpec` and of the arguments of
Python's `call`. A callback that does not come back (a Go panic, a Python
exception) gives `none`. -/
structure Request where
  fnName : List UInt8
  payloadSize : Nat
  fill : Option (SlotBytes → Option SlotBytes)

/-- Who calls, and through which slot. -/
structure Claimant where
  pid : UInt32
  tid : UInt32
  slot : Nat

def owner (s : SlotBytes) : Nat :=
  leNat (List.ofFn fun k : Fin 8 => s ⟨hdrSlotOwner + k, by simp only [hdrSlotOwner, slotStride]; omega⟩)

/-- `((uint64_t)tid << 32) | (uint64_t)pid` -/
def newOwner (c : Claimant) : UInt64 := c.tid.toUInt64 <<< 32 ||| c.pid.toUInt64

def ownerWrite (c : Claimant) : Write := ⟨hdrSlotOwner, leBytes 8 (newOwner c).toNat⟩

/-- What `reserve_slot`, `reserveSlot` and `_reserve_slot` do to a slot, if they
find it free. -/
def reserve (c : Claimant) (s : SlotBytes) : Option SlotBytes :=
  if owner s = 0 then
    some (Buffer.write [ownerWrite c] s)
  else none

/-- The header and the clears, in C and in Go. -/
def headerWrites (fnName : List UInt8) (payloadSize : Nat) (c : Claimant) : List Write :=
  [⟨hdrOpcode, leBytes 2 opcodeCip⟩,
    ⟨hdrOpcode + 2, leBytes 2 0⟩,
    ⟨hdrPayloadSize, leBytes 4 payloadSize⟩,
    ⟨hdrFnName, zeros 64⟩,
    ⟨hdrFnName, fnName.take 63⟩,
    ⟨hdrClientPid, leBytes 4 c.pid.toNat⟩,
    ⟨hdrIsDocker, leBytes 2 1⟩,
    ⟨hdrIsDocker + 2, leBytes 2 0⟩,
    ⟨hdrErrorcode, leBytes 4 pendingErrorBits.toNat⟩,
    ⟨hdrErrorcode + 4, leBytes 4 0⟩,
    ⟨hdrSlotNumber, leBytes 4 c.slot⟩,
    ⟨hdrSlotNumber + 4, leBytes 4 0⟩,
    ⟨0x68, zeros 0x10⟩,
    ⟨payloadStart, zeros (slotStride - payloadStart)⟩]

/-- The header and the clears of `bp_client_call`; the name ends at its first
NUL byte. -/
def C.header (r : Request) (c : Claimant) : List Write :=
  headerWrites (r.fnName.takeWhile (· ≠ 0)) r.payloadSize c

def Go.header (r : Request) (c : Claimant) : List Write :=
  headerWrites r.fnName r.payloadSize c

/-- The header and the clears of Python's `Client.call`: `encode` and `pack`
refuse what does not fit. -/
def Python.header (r : Request) (c : Claimant) : Option (List Write) :=
  if r.payloadSize < 2 ^ 32 ∧ r.fnName.all (· < 0x80) then
    some [⟨hdrOpcode, leBytes 2 opcodeCip ++ leBytes 2 0 ++ leBytes 4 r.payloadSize⟩,
      ⟨hdrFnName, zeros 64⟩,
      ⟨hdrFnName, r.fnName.take 63⟩,
      ⟨hdrClientPid, leBytes 4 c.pid.toNat⟩,
      ⟨hdrIsDocker, leBytes 2 1 ++ leBytes 2 0⟩,
      ⟨hdrErrorcode, leBytes 4 pendingErrorBits.toNat ++ leBytes 4 0⟩,
      ⟨hdrSlotNumber, leBytes 4 c.slot ++ leBytes 4 0⟩,
      ⟨0x68, zeros 16⟩,
      ⟨payloadStart, zeros (slotStride - payloadStart)⟩]
  else none

/-- Go refuses an empty name, before it reserves a slot. -/
def header : Sdk → Request → Claimant → Option (List Write)
  | .c, r, c => some (C.header r c)
  | .go, r, c => if r.fnName = [] then none else some (Go.header r c)
  | .python, r, c => Python.header r c

/-- The slot as the engine gets it. -/
def prepare (sdk : Sdk) (r : Request) (c : Claimant) (s : SlotBytes) : Option SlotBytes :=
  (reserve c s).bind fun s =>
    (header sdk r c).bind fun ws =>
      match r.fill with
      | none => some (Buffer.write ws s)
      | some fill => fill (Buffer.write ws s)

/-- What the read callback makes of a slot that an engine has answered in,
with writes that depend on the request only. -/
def answered {α : Type*} (engine : SlotBytes → List Write) (read : SlotBytes → α)
    (s : SlotBytes) : α := read (Buffer.write (engine s) s)

/-- The fields of a slot as C and Go write them, one after the other. -/
def slotFields : List Region :=
  [⟨0x00, 2⟩, ⟨0x02, 2⟩, ⟨0x04, 4⟩, ⟨0x08, 64⟩, ⟨0x48, 4⟩, ⟨0x4C, 2⟩, ⟨0x4E, 2⟩, ⟨0x50, 4⟩,
    ⟨0x54, 4⟩, ⟨0x58, 8⟩, ⟨0x60, 4⟩, ⟨0x64, 4⟩, ⟨0x68, 16⟩, ⟨0x78, 0x4AF88⟩]

def packedFields : List Region :=
  [⟨0x00, 8⟩, ⟨0x08, 64⟩, ⟨0x48, 4⟩, ⟨0x4C, 4⟩, ⟨0x50, 8⟩, ⟨0x58, 8⟩, ⟨0x60, 8⟩, ⟨0x68, 16⟩,
    ⟨0x78, 0x4AF88⟩]

theorem slotFields_fill : filled 0 slotFields = slotStride := by decide

theorem packedFields_fill : filled 0 packedFields = slotStride := by decide

theorem headerWrites_regions (fnName : List UInt8) (payloadSize : Nat) (c : Claimant) :
    (headerWrites fnName payloadSize c).map Write.region =
      [⟨0x00, 2⟩, ⟨0x02, 2⟩, ⟨0x04, 4⟩, ⟨0x08, 64⟩, ⟨0x08, (fnName.take 63).length⟩, ⟨0x48, 4⟩,
        ⟨0x4C, 2⟩, ⟨0x4E, 2⟩, ⟨0x50, 4⟩, ⟨0x54, 4⟩, ⟨0x60, 4⟩, ⟨0x64, 4⟩, ⟨0x68, 16⟩,
        ⟨0x78, 0x4AF88⟩] := by
  simp only [headerWrites, List.map_cons, List.map_nil, Write.region, leBytes_length, zeros_length]
  rfl

theorem ownerWrite_region (c : Claimant) : (ownerWrite c).region = ⟨0x58, 8⟩ := by
  simp only [ownerWrite, Write.region, leBytes_length]
  rfl

theorem headerWrites_fields (fnName : List UInt8) (payloadSize : Nat) (c : Claimant) :
    slotFields ⊆ (ownerWrite c :: headerWrites fnName payloadSize c).map Write.region := by
  rw [List.map_cons, headerWrites_regions, ownerWrite_region]
  simp only [slotFields, List.cons_subset, List.nil_subset, List.mem_cons, true_or, or_true,
    and_self]

theorem pythonHeader_fields {r : Request} {c : Claimant} {ws : List Write}
    (h : Python.header r c = some ws) :
    packedFields ⊆ (ownerWrite c :: ws).map Write.region := by
  have hregions : ws.map Write.region = [⟨0x00, 8⟩, ⟨0x08, 64⟩, ⟨0x08, (r.fnName.take 63).length⟩,
      ⟨0x48, 4⟩, ⟨0x4C, 4⟩, ⟨0x50, 8⟩, ⟨0x60, 8⟩, ⟨0x68, 16⟩, ⟨0x78, 0x4AF88⟩] := by
    simp only [Python.header] at h
    split at h <;> cases h
    simp only [List.map_cons, List.map_nil, Write.region, List.length_append, leBytes_length,
      zeros_length]
    rfl
  rw [List.map_cons, hregions, ownerWrite_region]
  simp only [packedFields, List.cons_subset, List.nil_subset, List.mem_cons, true_or, or_true,
    and_self]

/-- In every SDK the owner and the header writes reach every byte of the slot. -/
theorem header_fields {sdk : Sdk} {r : Request} {c : Claimant} {ws : List Write}
    (h : header sdk r c = some ws) :
    ∃ rs, rs ⊆ (ownerWrite c :: ws).map Write.region ∧ filled 0 rs = slotStride := by
  cases sdk with
  | c =>
      cases h
      exact ⟨_, headerWrites_fields _ _ c, slotFields_fill⟩
  | go =>
      simp only [header] at h
      split at h <;> cases h
      exact ⟨_, headerWrites_fields _ _ c, slotFields_fill⟩
  | python => exact ⟨_, pythonHeader_fields h, packedFields_fill⟩

/-- A request does not depend on what is left in the free slot it is written to. -/
theorem prepare_eq (sdk : Sdk) (r : Request) (c : Claimant) {s s' : SlotBytes}
    (hs : owner s = 0) (hs' : owner s' = 0) : prepare sdk r c s = prepare sdk r c s' := by
  simp only [prepare, reserve, if_pos hs, if_pos hs', Option.bind_some]
  cases hws : header sdk r c with
  | none => rfl
  | some ws =>
      obtain ⟨rs, hsub, hfill⟩ := header_fields hws
      have hsame : Buffer.write ws (Buffer.write [ownerWrite c] s) =
          Buffer.write ws (Buffer.write [ownerWrite c] s') := by
        rw [← Buffer.write_append, ← Buffer.write_append]
        exact Buffer.write_eq hsub hfill.ge s s'
      simp only [Option.bind_some, hsame]

/-- Nothing passes from one call to a later one through the slot: neither into
the request, in any byte, nor into what is read from the reply. -/
theorem nothing_kept {α : Type*} (sdk : Sdk) (r : Request) (c : Claimant)
    (engine : SlotBytes → List Write) (read : SlotBytes → α) {s s' : SlotBytes}
    (hs : owner s = 0) (hs' : owner s' = 0) :
    prepare sdk r c s = prepare sdk r c s' ∧
      (prepare sdk r c s).map (answered engine read) =
        (prepare sdk r c s').map (answered engine read) := by
  have hsame := prepare_eq sdk r c hs hs'
  exact ⟨hsame, congrArg (Option.map (answered engine read)) hsame⟩

/-- A free slot with a byte of an earlier reply in it. -/
def staleSlot : SlotBytes := fun i => if i.val = 0x100 then 0xAA else 0

def dummyRequest : Request :=
  ⟨[0x4F, 0x43, 0x58, 0x63, 0x69, 0x70, 0x5F, 0x44, 0x75, 0x6D, 0x6D, 0x79], 0x78, none⟩

theorem prepare_dummy (sdk : Sdk) {s : SlotBytes} (hs : owner s = 0) :
    ∃ request, prepare sdk dummyRequest ⟨1, 1, 0⟩ s = some request := by
  obtain ⟨ws, hws⟩ : ∃ ws, header sdk dummyRequest ⟨1, 1, 0⟩ = some ws := by
    cases sdk <;> exact ⟨_, rfl⟩
  refine ⟨Buffer.write ws (Buffer.write [ownerWrite ⟨1, 1, 0⟩] s), ?_⟩
  rw [prepare, reserve, if_pos hs, Option.bind_some, hws]
  rfl

/-- The byte at 0x100 of an answered slot. -/
def byteAt256 (s : SlotBytes) : UInt8 := s ⟨0x100, by decide⟩

/-- C and Python make the same request for `OCXcip_Dummy` of a clear slot and of a stale one.
Whoever reads the stale byte after the engine has answered with its errorcode alone, reads what
it reads in the clear slot. -/
theorem nothing_kept_dummy :
    byteAt256 staleSlot = 0xAA ∧
      (∃ request, prepare .c dummyRequest ⟨1, 1, 0⟩ (fun _ => 0) = some request ∧
        prepare .c dummyRequest ⟨1, 1, 0⟩ staleSlot = some request) ∧
      ∃ request, prepare .python dummyRequest ⟨1, 1, 0⟩ (fun _ => 0) = some request ∧
        (prepare .python dummyRequest ⟨1, 1, 0⟩ staleSlot).map
            (answered (fun _ => [⟨hdrErrorcode, zeros 4⟩]) byteAt256) =
          some (answered (fun _ => [⟨hdrErrorcode, zeros 4⟩]) byteAt256 request) := by
  have hfree : owner (fun _ => 0) = 0 := by decide
  have hstale : owner staleSlot = 0 := by decide
  obtain ⟨request, hc⟩ := prepare_dummy .c hfree
  obtain ⟨request', hpython⟩ := prepare_dummy .python hfree
  have hsame := (nothing_kept .c dummyRequest ⟨1, 1, 0⟩ (fun _ => [⟨hdrErrorcode, zeros 4⟩])
    byteAt256 hfree hstale).1
  have hanswered := (nothing_kept .python dummyRequest ⟨1, 1, 0⟩
    (fun _ => [⟨hdrErrorcode, zeros 4⟩]) byteAt256 hfree hstale).2
  refine ⟨rfl, ⟨request, hc, hsame.symm.trans hc⟩, request', hpython, ?_⟩
  rw [← hanswered, hpython, Option.map_some]

end BpClient.Slot
