import BpClient.Errors.Mapping
import BpClient.Route.UnconnectedSend
import BpClient.Ucmm.Send

/-!
Messages over several hops: `bp_route_append_port` of `c/src/route.c`,
`AppendPortSegment` of `go/ocxbp/cip/route.go`, `port_segment` of
`python/src/bpclient/_route.py`, and the way in which the `routedident` examples put a
route, an Unconnected_Send and an unconnected message together.
-/

namespace BpClient.Route

open BpClient.Lib
open BpClient.Errors (BpErr)
open BpClient.Slot (SlotBytes)
open BpClient.Conn (msgMaxSlot)
open BpClient.Ucmm (msgMaxReq msgFill msgsendReqOff msgsendReqSizeOff)

/-- A port segment: the port of a device and the address of the next device behind it. -/
structure Hop where
  port : UInt8
  link : UInt8
  deriving DecidableEq, Repr

def Hop.bytes (hop : Hop) : List UInt8 := [hop.port, hop.link]

namespace C

/-- `bp_route_append_port`: what it returns, and what it leaves in `route` and in `*off`;
`none` is a null pointer. -/
def bpRouteAppendPort {cap : Nat} (route : Option (Buffer cap)) (off : Option Nat)
    (port link : UInt8) : Int × Option (Buffer cap) × Option Nat :=
  match route, off with
  | some route, some off =>
      if cap < off + 2 then (BpErr.paramRange.code, some route, some off)
      else (0, some (Buffer.write [⟨off, [port]⟩, ⟨off + 1, [link]⟩] route), some (off + 2))
  | route, off => (BpErr.nullArg.code, route, off)

/-- The hops of a route, appended one after the other until one is refused. -/
def appendHops {cap : Nat} (route : Buffer cap) (off : Nat) : List Hop → Option (Buffer cap × Nat)
  | [] => some (route, off)
  | hop :: hops =>
      match bpRouteAppendPort (some route) (some off) hop.port hop.link with
      | (rc, some route, some off) => if rc = 0 then appendHops route off hops else none
      | _ => none

/-- `routedident`, for any route, message and buffers, up to the call of the engine: what
it fills the slot with. It gives up where one of its calls fails. -/
def routed {routeCap cap : Nat} (route : Buffer routeCap) (wrapped : Buffer cap) (hops : List Hop)
    (embedded : List UInt8) (sendMs : UInt16) (slot : UInt8) (timeoutMs respCapacity : UInt16) :
    Option (List Write) :=
  match appendHops route 0 hops with
  | none => none
  | some (route, routeLen) =>
      match bpBuildUnconnectedSend (some wrapped) (some embedded) (some (route.read 0 routeLen))
        sendMs with
      | (wlen, some wrapped) =>
          if wlen ≤ 0 then none
          else (Ucmm.C.messageSend ⟨slot, wrapped.read 0 wlen.toNat, UInt16.ofNat wlen.toNat,
            timeoutMs, respCapacity⟩).toOption
      | _ => none

end C

namespace Go

/-- `AppendPortSegment`: what it returns, and what it leaves in `route` and in `*off`. -/
def appendPortSegment {cap : Nat} (route : Buffer cap) (off : Nat) (port link : UInt8) :
    Bool × Buffer cap × Nat :=
  if cap < off + 2 then (false, route, off)
  else (true, Buffer.write [⟨off, [port]⟩, ⟨off + 1, [link]⟩] route, off + 2)

def appendHops {cap : Nat} (route : Buffer cap) (off : Nat) : List Hop → Option (Buffer cap × Nat)
  | [] => some (route, off)
  | hop :: hops =>
      match appendPortSegment route off hop.port hop.link with
      | (true, route, off) => appendHops route off hops
      | _ => none

def routed {routeCap cap : Nat} (route : Buffer routeCap) (wrapped : Buffer cap) (hops : List Hop)
    (embedded : List UInt8) (sendMs : UInt16) (slot : UInt8) (timeoutMs respCapacity : UInt16) :
    Option (List Write) :=
  match appendHops route 0 hops with
  | none => none
  | some (route, off) =>
      match buildUnconnectedSend (some wrapped) (some embedded) (some (route.read 0 off))
        sendMs with
      | (wlen, some wrapped) =>
          if wlen ≤ 0 then none
          else
            let wrapped := wrapped.read 0 wlen.toNat
            (Ucmm.Go.messageSend ⟨slot, wrapped, UInt16.ofNat wrapped.length, timeoutMs,
              respCapacity⟩).toOption
      | _ => none

end Go

namespace Python

/-- `port_segment`, or the text of its `ValueError`. -/
def portSegment (port link : Int) : Except String (List UInt8) :=
  if ¬(0 ≤ port ∧ port ≤ 0xFF) ∨ ¬(0 ≤ link ∧ link ≤ 0xFF) then .error "port/link must be 0..255"
  else .ok [UInt8.ofNat port.toNat, UInt8.ofNat link.toNat]

def routed (hops : List (Int × Int)) (embedded : List UInt8) (sendMs : Int) (slot : UInt8)
    (timeoutMs respCapacity : Nat) : Option (List Write) :=
  match hops.mapM fun hop => portSegment hop.1 hop.2 with
  | .error _ => none
  | .ok segments =>
      match buildUnconnectedSend (some embedded) (some segments.flatten) sendMs with
      | .error _ => none
      | .ok wrapped => (Ucmm.Python.messageSend ⟨slot, wrapped, 0, timeoutMs, respCapacity⟩).toOption

end Python

/-- The hops of a route, as the devices on it take them apart. -/
def parseHops : List UInt8 → Option (List Hop)
  | [] => some []
  | [_] => none
  | port :: link :: rest => (parseHops rest).map (⟨port, link⟩ :: ·)

/-- What the Connection Manager behind a slot finds in a message: a route, and the message
for the device at its end. -/
def delivered (b : SlotBytes) : Option (List Hop × List UInt8) :=
  let len := leNat (b.read msgsendReqSizeOff 2)
  match parse (b.read msgsendReqOff len) with
  | none => none
  | some sent => (parseHops sent.route).map fun hops => (hops, sent.embedded)

/-- A route and a message that one message of the slot has room for. -/
structure Fits (hops : List Hop) (embedded : List UInt8) : Prop where
  hops_ne_nil : hops ≠ []
  embedded_ne_nil : embedded ≠ []
  length_le : 12 + embedded.length + embedded.length % 2 + 2 * hops.length ≤ msgMaxReq

/-- A caller's buffers have room for a route and for the body around a message. -/
def RoomFor (hops : List Hop) (embedded : List UInt8) (routeCap cap : Nat) : Prop :=
  2 * hops.length ≤ routeCap ∧ 12 + embedded.length + embedded.length % 2 + 2 * hops.length ≤ cap

instance (hops : List Hop) (embedded : List UInt8) (routeCap cap : Nat) :
    Decidable (RoomFor hops embedded routeCap cap) := instDecidableAnd

def routeOf (hops : List Hop) : List UInt8 := hops.flatMap Hop.bytes

section Routes

theorem routeOf_length (hops : List Hop) : (routeOf hops).length = 2 * hops.length := by
  induction hops with
  | nil => rfl
  | cons hop hops ih =>
      rw [routeOf, List.flatMap_cons, List.length_append, ← routeOf, ih, List.length_cons]
      simp only [Hop.bytes, List.length_cons, List.length_nil]
      omega

theorem parseHops_routeOf (hops : List Hop) : parseHops (routeOf hops) = some hops := by
  induction hops with
  | nil => rfl
  | cons hop hops ih =>
      have hcons : routeOf (hop :: hops) = hop.port :: hop.link :: routeOf hops := rfl
      rw [hcons, parseHops, ih]
      rfl

def stores (off : Nat) : List Hop → List Write
  | [] => []
  | hop :: hops => ⟨off, [hop.port]⟩ :: ⟨off + 1, [hop.link]⟩ :: stores (off + 2) hops

theorem stores_eq_appended (off : Nat) (hops : List Hop) :
    stores off hops = appended off (hops.flatMap fun hop => [[hop.port], [hop.link]]) := by
  induction hops generalizing off with
  | nil => rfl
  | cons hop hops ih =>
      rw [stores, ih]
      rfl

theorem read_stores {cap off : Nat} (hops : List Hop) (route : Buffer cap)
    (h : off + 2 * hops.length ≤ cap) :
    (Buffer.write (stores off hops) route).read off (2 * hops.length) = routeOf hops := by
  have hflat : (hops.flatMap fun hop => [[hop.port], [hop.link]]).flatten = routeOf hops := by
    induction hops with
    | nil => rfl
    | cons hop hops ih =>
        rw [List.flatMap_cons, List.flatten_append, ih (by rw [List.length_cons] at h; omega)]
        rfl
  rw [stores_eq_appended, ← routeOf_length, ← hflat]
  apply Buffer.read_appended
  rwa [hflat, routeOf_length]

variable {cap : Nat}

/-- A route is appended as long as it fits. -/
theorem C.appendHops_eq (route : Buffer cap) {off : Nat} (hoff : off ≤ cap) (hops : List Hop) :
    C.appendHops route off hops =
      if off + 2 * hops.length ≤ cap then
        some (Buffer.write (stores off hops) route, off + 2 * hops.length)
      else none := by
  induction hops generalizing route off with
  | nil =>
      rw [List.length_nil, Nat.mul_zero, Nat.add_zero, if_pos hoff]
      rfl
  | cons hop hops ih =>
      rw [List.length_cons]
      by_cases hroom : cap < off + 2
      · rw [if_neg (by omega)]
        simp only [appendHops, bpRouteAppendPort, if_pos hroom]
        exact if_neg (by decide)
      · simp only [appendHops, bpRouteAppendPort, if_neg hroom, if_pos]
        rw [ih _ (Nat.le_of_not_lt hroom), ← Buffer.write_append]
        have hlen : off + 2 + 2 * hops.length = off + 2 * (hops.length + 1) := by omega
        rw [hlen]
        rfl

theorem Go.appendHops_eq (route : Buffer cap) (off : Nat) (hops : List Hop) :
    Go.appendHops route off hops = C.appendHops route off hops := by
  induction hops generalizing route off with
  | nil => rfl
  | cons hop hops ih =>
      by_cases hroom : cap < off + 2
      · simp only [appendHops, appendPortSegment, C.appendHops, C.bpRouteAppendPort, if_pos hroom]
        exact (if_neg (by decide)).symm
      · simp only [appendHops, appendPortSegment, C.appendHops, C.bpRouteAppendPort,
          if_neg hroom, if_pos]
        exact ih _ _

theorem Python.portSegment_eq (hop : Hop) :
    Python.portSegment hop.port.toNat hop.link.toNat = .ok hop.bytes := by
  have hport := hop.port.toNat_lt
  have hlink := hop.link.toNat_lt
  rw [portSegment, if_neg (by omega)]
  simp [Hop.bytes]

/-- Python's numbers are the hops, when they are bytes. -/
def ints (hops : List Hop) : List (Int × Int) :=
  hops.map fun hop => (hop.port.toNat, hop.link.toNat)

/-- Python takes no other numbers. -/
theorem Python.exists_hops {hops : List (Int × Int)} {segments : List (List UInt8)}
    (h : hops.mapM (fun hop => Python.portSegment hop.1 hop.2) = .ok segments) :
    ∃ hops', hops = ints hops' := by
  induction hops generalizing segments with
  | nil => exact ⟨[], rfl⟩
  | cons hop hops ih =>
      rw [List.mapM_cons] at h
      by_cases hrange : ¬(0 ≤ hop.1 ∧ hop.1 ≤ 0xFF) ∨ ¬(0 ≤ hop.2 ∧ hop.2 ≤ 0xFF)
      · rw [Python.portSegment, if_pos hrange] at h
        cases h
      · rw [Python.portSegment, if_neg hrange] at h
        cases hrest : hops.mapM fun hop => Python.portSegment hop.1 hop.2 with
        | error e =>
            rw [hrest] at h
            cases h
        | ok rest =>
            obtain ⟨hops', rfl⟩ := ih hrest
            have hbyte : ∀ n : Int, 0 ≤ n → n ≤ 0xFF → ((UInt8.ofNat n.toNat).toNat : Int) = n := by
              intro n hpos hle
              rw [UInt8.toNat_ofNat_of_lt' (by simp only [UInt8.size]; omega)]
              omega
            refine ⟨⟨UInt8.ofNat hop.1.toNat, UInt8.ofNat hop.2.toNat⟩ :: hops', ?_⟩
            have hport := hbyte hop.1 (by omega) (by omega)
            have hlink := hbyte hop.2 (by omega) (by omega)
            simp only [ints, List.map_cons, hport, hlink]

theorem Python.segments_eq (hops : List Hop) :
    (ints hops).mapM (fun hop => Python.portSegment hop.1 hop.2) = .ok (hops.map Hop.bytes) := by
  induction hops with
  | nil => rfl
  | cons hop hops ih =>
      rw [ints, List.map_cons, List.mapM_cons, Python.portSegment_eq, ← ints, ih]
      rfl

end Routes

section Sending

variable {routeCap cap : Nat} {hops : List Hop} {embedded : List UInt8} {slot : UInt8}
  {sendMs timeoutMs respCapacity : UInt16}

theorem Go.build_same (out : Buffer cap) (embedded route : List UInt8) (sendMs : UInt16) :
    Go.buildUnconnectedSend (some out) (some embedded) (some route) sendMs =
      C.bpBuildUnconnectedSend (some out) (some embedded) (some route) sendMs := by
  by_cases h : Sized embedded route
  · rw [Go.build_eq h, C.build_eq h]
  · rw [Go.build_refuses h, C.build_refuses h]

/-- Go's further check never fails for a request that says its length. -/
theorem Go.messageSend_same (req : List UInt8) (timeoutMs respCapacity : UInt16) :
    Ucmm.Go.messageSend ⟨slot, req, UInt16.ofNat req.length, timeoutMs, respCapacity⟩ =
      Ucmm.C.messageSend ⟨slot, req, UInt16.ofNat req.length, timeoutMs, respCapacity⟩ := by
  have hlen : ¬ req.length < (UInt16.ofNat req.length).toNat := by
    rw [UInt16.toNat_ofNat']
    exact Nat.not_lt.mpr (Nat.mod_le _ _)
  simp only [Ucmm.Go.messageSend, Ucmm.C.messageSend, if_neg hlen]

/-- Go's program does what C's does. -/
theorem Go.routed_eq (route : Buffer routeCap) (wrapped : Buffer cap) :
    Go.routed route wrapped hops embedded sendMs slot timeoutMs respCapacity =
      C.routed route wrapped hops embedded sendMs slot timeoutMs respCapacity := by
  unfold Go.routed C.routed
  rw [Go.appendHops_eq]
  cases C.appendHops route 0 hops with
  | none => rfl
  | some p =>
      obtain ⟨route', routeLen⟩ := p
      simp only [Go.build_same]
      rcases C.bpBuildUnconnectedSend (some wrapped) (some embedded)
        (some (route'.read 0 routeLen)) sendMs with ⟨wlen, _ | wrapped'⟩
      · rfl
      · simp only [Go.messageSend_same (wrapped'.read 0 wlen.toNat)]
        rw [Buffer.read_length]

theorem C.routed_of_no_room (h : routeCap < 2 * hops.length) (route : Buffer routeCap)
    (wrapped : Buffer cap) :
    C.routed route wrapped hops embedded sendMs slot timeoutMs respCapacity = none := by
  rw [C.routed, C.appendHops_eq route (Nat.zero_le _), Nat.zero_add, if_neg (Nat.not_le.mpr h)]

/-- What C's program makes of a route that its buffer has room for. -/
theorem C.routed_of_room (h : 2 * hops.length ≤ routeCap) (route : Buffer routeCap)
    (wrapped : Buffer cap) :
    C.routed route wrapped hops embedded sendMs slot timeoutMs respCapacity =
      match C.bpBuildUnconnectedSend (some wrapped) (some embedded) (some (routeOf hops))
        sendMs with
      | (wlen, some wrapped) =>
          if wlen ≤ 0 then none
          else (Ucmm.C.messageSend ⟨slot, wrapped.read 0 wlen.toNat, UInt16.ofNat wlen.toNat,
            timeoutMs, respCapacity⟩).toOption
      | _ => none := by
  rw [C.routed, C.appendHops_eq route (Nat.zero_le _), Nat.zero_add, if_pos h]
  dsimp only
  rw [read_stores hops route (by rwa [Nat.zero_add])]

theorem C.routed_of_not_sized (h : ¬ Sized embedded (routeOf hops)) (route : Buffer routeCap)
    (wrapped : Buffer cap) :
    C.routed route wrapped hops embedded sendMs slot timeoutMs respCapacity = none := by
  rcases le_or_gt (2 * hops.length) routeCap with hroom | hroom
  · rw [C.routed_of_room hroom, C.build_refuses h]
    exact if_pos (by decide)
  · exact C.routed_of_no_room hroom route wrapped

theorem C.routed_of_no_space (h : Sized embedded (routeOf hops))
    (hspace : cap < (body embedded (routeOf hops) sendMs.toNat).length) (route : Buffer routeCap)
    (wrapped : Buffer cap) :
    C.routed route wrapped hops embedded sendMs slot timeoutMs respCapacity = none := by
  rcases le_or_gt (2 * hops.length) routeCap with hroom | hroom
  · rw [C.routed_of_room hroom, C.build_eq h, if_pos hspace]
    exact if_pos (by decide)
  · exact C.routed_of_no_room hroom route wrapped

/-- C's program hands the body to `bp_client_message_send`. -/
theorem C.routed_of_sized (h : Sized embedded (routeOf hops)) (hroom : 2 * hops.length ≤ routeCap)
    (hspace : (body embedded (routeOf hops) sendMs.toNat).length ≤ cap) (route : Buffer routeCap)
    (wrapped : Buffer cap) :
    C.routed route wrapped hops embedded sendMs slot timeoutMs respCapacity =
      (Ucmm.C.messageSend ⟨slot, body embedded (routeOf hops) sendMs.toNat,
        UInt16.ofNat (body embedded (routeOf hops) sendMs.toNat).length, timeoutMs,
        respCapacity⟩).toOption := by
  have hlen := body_length embedded (routeOf hops) sendMs.toNat
  have hread : (filledWith wrapped (body embedded (routeOf hops) sendMs.toNat)).read 0
      (body embedded (routeOf hops) sendMs.toNat).length =
      body embedded (routeOf hops) sendMs.toNat := by
    apply Buffer.read_write [] [] _ wrapped (by simp)
    rwa [Nat.zero_add]
  rw [C.routed_of_room hroom, C.build_eq h, if_neg (Nat.not_lt.mpr hspace)]
  dsimp only
  rw [if_neg (by omega), Int.toNat_natCast, hread]

/-- A route and a message that fit have sizes that can be encoded. -/
theorem Fits.sized (h : Fits hops embedded) : Sized embedded (routeOf hops) := by
  obtain ⟨hhops, hembedded, hlen⟩ := h
  have hpos := List.length_pos_iff.mpr hhops
  have hpos' := List.length_pos_iff.mpr hembedded
  simp only [msgMaxReq] at hlen
  constructor <;> try rw [routeOf_length]
  all_goals omega

theorem Fits.body_length_le (h : Fits hops embedded) (timeoutMs : Nat) :
    (body embedded (routeOf hops) timeoutMs).length ≤ msgMaxReq := by
  have hlen := h.length_le
  rw [body_length, routeOf_length]
  omega

theorem fits_of_sized (h : Sized embedded (routeOf hops)) {timeoutMs : Nat}
    (hlen : (body embedded (routeOf hops) timeoutMs).length ≤ msgMaxReq) :
    Fits hops embedded := by
  rw [body_length, routeOf_length] at hlen
  refine ⟨?_, ?_, by omega⟩
  · rintro rfl
    exact absurd h.route_ge (by decide)
  · rintro rfl
    exact absurd h.embedded_pos (by decide)

theorem body_ne_nil (embedded route : List UInt8) (timeoutMs : Nat) :
    body embedded route timeoutMs ≠ [] := by
  simp [body]

/-- The device at the end of the route gets the message, through these hops. -/
theorem delivered_msgFill (h : Fits hops embedded) (slot : UInt8)
    (sendMs timeoutMs respCapacity : Nat) (b : SlotBytes) :
    delivered (Buffer.write (msgFill slot (body embedded (routeOf hops) sendMs)
      (body embedded (routeOf hops) sendMs).length timeoutMs respCapacity) b) =
      some (hops, embedded) := by
  have hsent : Ucmm.SentWhole _ (msgFill slot _ _ timeoutMs respCapacity) :=
    Ucmm.sentWhole_msgFill (h.body_length_le sendMs)
  simp only [delivered, hsent.size b, hsent.bytes b, parse_body h.sized, parseHops_routeOf]
  rfl

/-- A message and a route that are too large for the slot are not sent. -/
theorem C.messageSend_too_long {req : List UInt8} (hlong : msgMaxReq < req.length)
    (hlt : req.length < 2 ^ 16) :
    Ucmm.C.messageSend ⟨slot, req, UInt16.ofNat req.length, timeoutMs, respCapacity⟩ =
      .error .paramRange := by
  have hsize : (UInt16.ofNat req.length).toNat = req.length :=
    UInt16.toNat_ofNat_of_lt' hlt
  rw [Ucmm.C.messageSend, if_pos (.inr (hsize.symm ▸ hlong))]

theorem Python.routed_of_sized (h : Sized embedded (routeOf hops)) (sendMs timeoutMs cap : Nat) :
    Python.routed (ints hops) embedded sendMs slot timeoutMs cap =
      (Ucmm.Python.messageSend
        ⟨slot, body embedded (routeOf hops) sendMs, 0, timeoutMs, cap⟩).toOption := by
  rw [Python.routed, Python.segments_eq]
  dsimp only
  rw [← List.flatMap_def, ← routeOf, Python.build_eq h]

theorem Python.routed_of_not_sized (h : ¬ Sized embedded (routeOf hops)) (sendMs : Int)
    (timeoutMs cap : Nat) :
    Python.routed (ints hops) embedded sendMs slot timeoutMs cap = none := by
  obtain ⟨err, herr⟩ := Python.build_refuses
    (show ¬ Sized ((some embedded).getD []) ((some (routeOf hops)).getD []) from h) sendMs
  rw [Python.routed, Python.segments_eq]
  dsimp only
  rw [← List.flatMap_def, ← routeOf, herr]

theorem roomFor_iff (sendMs : Nat) : RoomFor hops embedded routeCap cap ↔
    2 * hops.length ≤ routeCap ∧ (body embedded (routeOf hops) sendMs).length ≤ cap := by
  rw [RoomFor, body_length, routeOf_length]
  omega

theorem C.routed_of_fits (h : Fits hops embedded) (hslot : slot ≤ msgMaxSlot)
    (hresp : respCapacity ≠ 0) (route : Buffer routeCap) (wrapped : Buffer cap) :
    C.routed route wrapped hops embedded sendMs slot timeoutMs respCapacity =
      if RoomFor hops embedded routeCap cap then
        some (msgFill slot (body embedded (routeOf hops) sendMs.toNat)
          (body embedded (routeOf hops) sendMs.toNat).length timeoutMs.toNat respCapacity.toNat)
      else none := by
  split
  · next hbuffers =>
      obtain ⟨hroom, hspace⟩ := (roomFor_iff sendMs.toNat).mp hbuffers
      rw [C.routed_of_sized h.sized hroom hspace, Ucmm.C.messageSend_of_fits
        (body_ne_nil _ _ _) (h.body_length_le _) hslot _ hresp]
      rfl
  · next hbuffers =>
      rw [roomFor_iff sendMs.toNat] at hbuffers
      rcases le_or_gt (2 * hops.length) routeCap with hroom | hroom
      · exact C.routed_of_no_space h.sized (Nat.lt_of_not_le fun hle => hbuffers ⟨hroom, hle⟩) _ _
      · exact C.routed_of_no_room hroom _ _

theorem C.routed_of_not_fits (h : ¬ Fits hops embedded) (hcap : cap < 2 ^ 16)
    (route : Buffer routeCap) (wrapped : Buffer cap) :
    C.routed route wrapped hops embedded sendMs slot timeoutMs respCapacity = none := by
  by_cases hsized : Sized embedded (routeOf hops)
  · have hlong : msgMaxReq < (body embedded (routeOf hops) sendMs.toNat).length :=
      Nat.lt_of_not_le fun hle => h (fits_of_sized hsized hle)
    rcases lt_or_ge cap (body embedded (routeOf hops) sendMs.toNat).length with hspace | hspace
    · exact C.routed_of_no_space hsized hspace _ _
    · rcases le_or_gt (2 * hops.length) routeCap with hroom | hroom
      · rw [C.routed_of_sized hsized hroom hspace,
          C.messageSend_too_long hlong (hspace.trans_lt hcap)]
        rfl
      · exact C.routed_of_no_room hroom _ _
  · exact C.routed_of_not_sized hsized _ _

theorem Python.routed_of_not_fits (h : ¬ Fits hops embedded) (sendMs timeoutMs cap : Nat) :
    Python.routed (ints hops) embedded sendMs slot timeoutMs cap = none := by
  by_cases hsized : Sized embedded (routeOf hops)
  · have hlong : msgMaxReq < (body embedded (routeOf hops) sendMs).length :=
      Nat.lt_of_not_le fun hle => h (fits_of_sized hsized hle)
    rw [Python.routed_of_sized hsized, Ucmm.Python.messageSend]
    simp only [lt_irrefl, if_false, if_neg (body_ne_nil _ _ _), if_pos hlong]
    rfl
  · exact Python.routed_of_not_sized hsized _ _ _

/-- A message that is sent over hops: all SDKs fill the slot with the same bytes, in which
the device at the other end of the route finds the message and the hops, and they do so for
exactly the messages that fit, in C and in Go if the caller's buffers have room. Nothing else
is sent, also not by halves. -/
theorem routed_delivers (hops : List Hop) (embedded : List UInt8)
    (sendMs timeoutMs : UInt16) (hslot : slot ≤ msgMaxSlot) (hresp : respCapacity ≠ 0) :
    (Fits hops embedded → ∃ ws,
      (∀ b : SlotBytes, delivered (Buffer.write ws b) = some (hops, embedded)) ∧
      Python.routed (ints hops) embedded sendMs.toNat slot timeoutMs.toNat respCapacity.toNat =
        some ws ∧
      ∀ {routeCap cap : Nat} (route : Buffer routeCap) (wrapped : Buffer cap),
        C.routed route wrapped hops embedded sendMs slot timeoutMs respCapacity =
            (if RoomFor hops embedded routeCap cap then some ws else none) ∧
          Go.routed route wrapped hops embedded sendMs slot timeoutMs respCapacity =
            if RoomFor hops embedded routeCap cap then some ws else none) ∧
    (¬ Fits hops embedded →
      Python.routed (ints hops) embedded sendMs.toNat slot timeoutMs.toNat respCapacity.toNat =
        none ∧
      ∀ {routeCap cap : Nat} (route : Buffer routeCap) (wrapped : Buffer cap), cap < 2 ^ 16 →
        C.routed route wrapped hops embedded sendMs slot timeoutMs respCapacity = none ∧
          Go.routed route wrapped hops embedded sendMs slot timeoutMs respCapacity = none) ∧
    ∀ numbers : List (Int × Int), (∀ hops, numbers ≠ ints hops) →
      Python.routed numbers embedded sendMs.toNat slot timeoutMs.toNat respCapacity.toNat =
        none := by
  refine ⟨fun h => ⟨_, delivered_msgFill h slot sendMs.toNat timeoutMs.toNat respCapacity.toNat, ?_,
    ?_⟩, fun h => ⟨?_, ?_⟩, ?_⟩
  · have hpos : respCapacity.toNat ≠ 0 := fun hzero => hresp (UInt16.toNat_inj.mp hzero)
    rw [Python.routed_of_sized h.sized, Ucmm.Python.messageSend_of_fits (body_ne_nil _ _ _)
      (h.body_length_le _) hslot timeoutMs.toNat_lt hpos respCapacity.toNat_lt]
    rfl
  · intro routeCap cap route wrapped
    rw [Go.routed_eq, C.routed_of_fits h hslot hresp]
    exact ⟨rfl, rfl⟩
  · exact Python.routed_of_not_fits h _ _ _
  · intro routeCap cap route wrapped hcap
    rw [Go.routed_eq]
    exact ⟨C.routed_of_not_fits h hcap route wrapped, C.routed_of_not_fits h hcap route wrapped⟩
  · intro numbers hnumbers
    unfold Python.routed
    cases hsegments : numbers.mapM fun hop => Python.portSegment hop.1 hop.2 with
    | error e => rfl
    | ok segments =>
        obtain ⟨hops', rfl⟩ := Python.exists_hops hsegments
        exact absurd rfl (hnumbers hops')

end Sending

/-- The two hops of the protocol's documentation, to a node behind a slot of a remote
chassis, and the examples' request for its identity. -/
theorem routed_delivers_identity : ∃ ws,
    (∀ b : SlotBytes, delivered (Buffer.write ws b) =
      some ([⟨1, 3⟩, ⟨2, 5⟩], [0x01, 0x02, 0x20, 0x01, 0x24, 0x01])) ∧
    Python.routed [(1, 3), (2, 5)] [0x01, 0x02, 0x20, 0x01, 0x24, 0x01] 5000 2 5000 256 = some ws ∧
    C.routed (fun _ => 0 : Buffer 8) (fun _ => 0 : Buffer 256) [⟨1, 3⟩, ⟨2, 5⟩]
      [0x01, 0x02, 0x20, 0x01, 0x24, 0x01] 5000 2 5000 256 = some ws := by
  have hresp : (256 : UInt16) ≠ 0 := by decide
  obtain ⟨hfits, -, -⟩ := routed_delivers [⟨1, 3⟩, ⟨2, 5⟩] [0x01, 0x02, 0x20, 0x01, 0x24, 0x01]
    5000 5000 (show (2 : UInt8) ≤ msgMaxSlot by decide) hresp
  obtain ⟨ws, hdelivered, hpython, hc⟩ := hfits ⟨by decide, by decide, by decide⟩
  refine ⟨ws, hdelivered, hpython, ?_⟩
  exact (hc (fun _ => 0) (fun _ => 0)).1.trans (if_pos (by decide))

end BpClient.Route
