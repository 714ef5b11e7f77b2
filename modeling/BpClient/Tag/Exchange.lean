import BpClient.Tag.Identity
import BpClient.Tag.RoundTrip

/-!
An access from end to end: the SDK fills the slot, the engine finds the requests
in it and replies, the SDK takes the results out. For requests that can be sent
as they are this is an exchange of requests for answers, the same in C, Go and
Python.
-/

namespace BpClient.Tag

open BpClient.Lib
open BpClient.Slot (Sdk SlotBytes)

inductive TagError
  | nullArg | paramRange | slotTooLarge
  /-- Python's `UnicodeEncodeError`. -/
  | unicode
  /-- Python's `OverflowError`. -/
  | overflow
  /-- The call to the engine has failed as a whole. -/
  | engine
  /-- `BP_ERR_GENERIC`, `BpGeneric`, and Go's error that wraps nothing. -/
  | generic
  deriving DecidableEq, Repr

def AccessError.toTagError : AccessError → TagError
  | .nullArg => .nullArg
  | .paramRange => .paramRange
  | .slotTooLarge => .slotTooLarge

/-- The answer to a read has as many bytes as the request asks for. -/
def WireRequest.Sized (r : WireRequest) (a : Answer) : Prop :=
  r.action = 1 → a.data.length = r.elemByteSize * r.elemCount

/-- An engine: what it makes of a batch in a state of its memory; `none` is a
call that fails as a whole. -/
structure Engine (σ : Type) where
  serve : σ → List WireRequest → Option (List Answer) × σ
  sized : ∀ s reqs answers, (serve s reqs).1 = some answers →
    List.Forall₂ WireRequest.Sized reqs answers

def Engine.Accepts {σ : Type} (e : Engine σ) : Prop := ∀ s reqs, (e.serve s reqs).1.isSome

/-- A memory and the CIP status of each request, which do not change. -/
structure Memory where
  answer : WireRequest → Answer
  sized : ∀ r : WireRequest, r.Sized (answer r)

def Memory.engine (m : Memory) : Engine Unit where
  serve := fun _ reqs => (some (reqs.map m.answer), ())
  sized := by
    intro s reqs answers h
    cases h
    rw [List.forall₂_map_right_iff, List.forall₂_same]
    exact fun r _ => m.sized r

/-- The state of the engine, and the batches that it has been given, with its
answers. -/
structure World (σ : Type) where
  engine : σ
  log : List (List WireRequest × Option (List Answer))

/-- The slots that calls are made in, as the dispatcher has cleared them. -/
structure Slots where
  slot : Nat → SlotBytes
  clear : ∀ n, (slot n).ZeroOn payloadArea

/-- A tag database of one of the SDKs, with its path. -/
inductive TagDb
  | c (path : List UInt8)
  | go (path : List UInt8)
  | python (path : TagPath)

@[reducible] def TagDb.sdk : TagDb → Sdk
  | .c _ => .c
  | .go _ => .go
  | .python _ => .python

/-- What an access call writes and reads; Python's fill may raise. -/
def TagDb.call (reqs : List TagRequest) :
    TagDb → Except AccessError (Option (List Write) × List (Region × Option Region))
  | .c path => (bpTagdbAccess path reqs).map fun spec => (some spec.fill, spec.read)
  | .go path => (tagDBAccess path reqs).map fun spec => (some spec.fill, spec.read)
  | .python path => (tagDbAccessPy path reqs).map fun spec => (spec.fill, spec.read)

def TagRequest.pyReceive (b : SlotBytes) (r : TagRequest) (p : Region × Option Region) :
    TagRequest × UInt32 :=
  ({ r with data := match p.2 with
      | none => r.data
      | some t => some (b.read t.off t.len) },
    UInt32.ofNat (leNat (b.read p.1.off p.1.len)))

def TagDb.receive : TagDb → SlotBytes → TagRequest → Region × Option Region → TagRequest × UInt32
  | .c _ | .go _ => TagRequest.receive
  | .python _ => TagRequest.pyReceive

namespace Layout

variable (l : Layout)

def answerRequests (i dataOff : Nat) : List (WireRequest × Answer) → List Write
  | [] => []
  | (r, a) :: rest =>
      ⟨l.reqStart i + l.result.off, leBytes 4 a.result.toNat⟩ ::
        (if r.action = 1 then [⟨dataOff, a.data⟩] else []) ++
        answerRequests (i + 1) (dataOff + r.elemByteSize * r.elemCount) rest

def answer (pairs : List (WireRequest × Answer)) : List Write :=
  l.answerRequests 0 (l.reqStart pairs.length) pairs

end Layout

namespace Engine

variable {σ : Type} (e : Engine σ)

/-- `bp_tagdb_access`, `Access`, `access`: the call and what the engine does
with it. -/
def access (slots : Slots) (db : TagDb) (reqs : List TagRequest) (w : World σ) :
    Except TagError (List (TagRequest × UInt32)) × World σ :=
  match db.call reqs with
  | .error err => (.error err.toTagError, w)
  | .ok (none, _) => (.error .unicode, w)
  | .ok (some fill, read) =>
      let slot := Buffer.write fill (slots.slot w.log.length)
      let seen := (accessLayout.decode slot).2
      let served := e.serve w.engine seen
      let w : World σ := ⟨served.2, w.log ++ [(seen, served.1)]⟩
      match served.1 with
      | none => (.error .engine, w)
      | some answers =>
          let slot := Buffer.write (accessLayout.answer (seen.zip answers)) slot
          (.ok (List.zipWith (db.receive slot) reqs read), w)

/-- An access as it is meant: the engine is given the requests, and each request
its answer. -/
def exchange (reqs : List TagRequest) (w : World σ) :
    Except TagError (List (TagRequest × UInt32)) × World σ :=
  let wire := reqs.map TagRequest.wire
  let served := e.serve w.engine wire
  let w : World σ := ⟨served.2, w.log ++ [(wire, served.1)]⟩
  match served.1 with
  | none => (.error .engine, w)
  | some answers => (.ok (List.zipWith TagRequest.answered reqs answers), w)

end Engine

/-- Requests that are sent as they are in one call. -/
structure TagDb.Sends (db : TagDb) (reqs : List TagRequest) : Prop where
  pos : 1 ≤ reqs.length
  length_le : reqs.length ≤ 16
  sendable : ∀ r ∈ reqs, r.Sendable
  full : ∀ r ∈ reqs, r.Full
  ascii : db.sdk = .python → ∀ r ∈ reqs, r.asciiName
  fits : (cAccess []).trueTotal reqs ≤ slotStride - 0x80

section Answers

variable {reqs : List TagRequest} {answers : List Answer}

/-- The reply to the requests that arrive is the reply to those that were sent. -/
theorem Layout.answerRequests_wire (l : Layout) (i dataOff : Nat) :
    l.answerRequests i dataOff ((reqs.map TagRequest.wire).zip answers) =
      l.replyRequests i dataOff (reqs.zip answers) := by
  induction reqs generalizing answers i dataOff with
  | nil => rfl
  | cons r rs ih =>
      cases answers with
      | nil => rfl
      | cons a answers =>
          have haction : r.wire.action = 1 ↔ r.action = actionRead := UInt16.toNat_inj (b := 1)
          rw [List.map_cons, List.zip_cons_cons, List.zip_cons_cons, Layout.answerRequests,
            Layout.replyRequests, ih]
          simp only [haction]
          rfl

theorem Layout.answer_wire (l : Layout) :
    l.answer ((reqs.map TagRequest.wire).zip answers) = l.reply (reqs.zip answers) := by
  rw [Layout.answer, Layout.reply, l.answerRequests_wire, List.length_zip, List.length_zip,
    List.length_map]

/-- An answer has the data that a read asks for. -/
theorem sized_of_forall₂ (h : List.Forall₂ WireRequest.Sized (reqs.map TagRequest.wire) answers) :
    ∀ p ∈ reqs.zip answers, p.1.action = actionRead →
      p.2.data.length = p.1.elemByteSize.toNat * p.1.elemCount.toNat := by
  rw [List.forall₂_map_left_iff] at h
  intro p hp haction
  have hsized := (List.forall₂_iff_zip.mp h).2 hp
  exact hsized (congrArg UInt16.toNat haction)

end Answers

section Reads

variable {f g : Format} {reqs : List TagRequest} {r : TagRequest}

theorem Format.readRequests_congr (hreq : f.req0Start = g.req0Start) (hstride : f.stride = g.stride)
    (hresult : f.resultOff = g.resultOff) (hsink : ∀ r ∈ reqs, f.sink r = g.sink r) (i : Nat)
    (dataOff : UInt32) : f.readRequests i dataOff reqs = g.readRequests i dataOff reqs := by
  induction reqs generalizing i dataOff with
  | nil => rfl
  | cons r rs ih =>
      have hstart : f.reqStart i = g.reqStart i := by
        rw [Format.reqStart, Format.reqStart, hreq, hstride]
      have hrest := ih (fun r hr => hsink r (List.mem_cons_of_mem _ hr)) (i + 1)
        (dataOff + r.nbytes)
      rw [Format.readRequests, Format.readRequests, hstart, hresult, hsink r List.mem_cons_self,
        hrest]

theorem goSink_eq (h : r.Full) : goSink r = cSink r := by
  obtain ⟨data, hdata, hlen⟩ := h
  rw [← r.nbytes_toNat] at hlen
  have hcount : (goCount r data).toNat = r.nbytes.toNat := by
    rw [goCount, hlen, UInt32.ofNat_toNat, ite_self]
  simp only [goSink, cSink, hdata, nbytes_pos hlen, Option.getD_some, and_self, hcount,
    Option.map_some]

theorem pySink_eq (h : r.Full) : pySink r = cSink r := by
  obtain ⟨data, hdata, hlen⟩ := h
  have hpos : 0 < r.nbytes ↔ 0 < r.elemByteSize.toNat * r.elemCount.toNat := by
    rw [UInt32.lt_iff_toNat_lt, r.nbytes_toNat]
    rfl
  simp only [pySink, cSink, hdata, hpos, Option.map_some, r.nbytes_toNat]

theorem goAccess_read (path : List UInt8) (hfull : ∀ r ∈ reqs, r.Full) :
    (goAccess path).read reqs = (cAccess path).read reqs :=
  Format.readRequests_congr (f := goAccess path) (g := cAccess path) rfl rfl rfl
    (fun r hr => goSink_eq (hfull r hr)) 0 ((cAccess path).dataAreaStart reqs.length)

theorem pyAccess_read (path : TagPath) (hfull : ∀ r ∈ reqs, r.Full) :
    (pyAccess path).read reqs = (cAccess path.bytes).read reqs :=
  Format.readRequests_congr (f := pyAccess path) (g := cAccess path.bytes) rfl rfl rfl
    (fun r hr => pySink_eq (hfull r hr)) 0 ((cAccess path.bytes).dataAreaStart reqs.length)

/-- The new bytes of Python replace the whole buffer. -/
theorem pyReceive_eq (h : r.Full) (b : SlotBytes) (res : Region) (off : Nat) :
    r.pyReceive b (res, (cSink r).map fun n => ⟨off, n⟩) =
      r.receive b (res, (cSink r).map fun n => ⟨off, n⟩) := by
  obtain ⟨data, hdata, hlen⟩ := h
  rw [← r.nbytes_toNat] at hlen
  unfold TagRequest.pyReceive TagRequest.receive
  unfold cSink
  by_cases hread : r.action = actionRead ∧ 0 < r.nbytes
  · simp only [if_pos hread, hdata, TagRequest.stored, Option.map_some, ← hlen, List.drop_length,
      List.append_nil]
  · simp only [if_neg hread, TagRequest.stored, Option.map_none]

theorem pyReceive_readRequests (hfull : ∀ r ∈ reqs, r.Full) (hsink : f.sink = cSink)
    (b : SlotBytes) (i : Nat) (dataOff : UInt32) :
    List.zipWith (TagRequest.pyReceive b) reqs (f.readRequests i dataOff reqs) =
      List.zipWith (TagRequest.receive b) reqs (f.readRequests i dataOff reqs) := by
  induction reqs generalizing i dataOff with
  | nil => rfl
  | cons r rs ih =>
      have hhead := pyReceive_eq (hfull r List.mem_cons_self) b ⟨f.reqStart i + f.resultOff, 4⟩
        dataOff.toNat
      rw [Format.readRequests, List.zipWith_cons_cons, List.zipWith_cons_cons, hsink, hhead,
        ih (fun r hr => hfull r (List.mem_cons_of_mem _ hr))]

end Reads

section Exchanges

variable {σ : Type} {db : TagDb} {reqs : List TagRequest}

/-- Whatever the SDK, the call writes and reads what C's does. -/
theorem TagDb.Sends.call (h : db.Sends reqs) : ∃ path fill read,
    db.call reqs = .ok (some fill, read) ∧ (∀ b : SlotBytes, b.ZeroOn payloadArea →
      Buffer.write fill b = Buffer.write ((cAccess path).fill reqs) b) ∧
    ∀ b, List.zipWith (db.receive b) reqs read = (cAccess path).readInto reqs b := by
  have hfits : (cAccess []).trueTotal reqs ≤ slotStride := h.fits.trans (Nat.sub_le _ _)
  cases db with
  | c path =>
      refine ⟨path, (cAccess path).fill reqs, (cAccess path).read reqs, ?_, fun _ _ => rfl,
        fun _ => rfl⟩
      rw [TagDb.call, bpTagdbAccess, Format.call_of_le (f := cAccess path) h.pos h.length_le h.fits]
      rfl
  | go path =>
      refine ⟨path, (goAccess path).fill reqs, (goAccess path).read reqs, ?_, fun b hb => ?_,
        fun b => ?_⟩
      · rw [TagDb.call, tagDBAccess,
          Format.call_of_le (f := goAccess path) h.pos h.length_le h.fits]
        rfl
      · exact ((cAccess_clears path h.full).fill h.pos h.length_le hfits hb).symm
      · rw [goAccess_read path h.full]
        rfl
  | python path =>
      refine ⟨path.bytes, (pyAccess path).fill reqs, (pyAccess path).read reqs, ?_, fun b hb => ?_,
        fun b => ?_⟩
      · rw [TagDb.call, tagDbAccessPy,
          Format.pyCall_of_le (f := pyAccess path) h.pos h.length_le (h.ascii rfl) h.fits]
        rfl
      · rw [(pyAccess_same path h.full).fill.write,
          (cAccess_clears path.bytes h.full).fill h.pos h.length_le hfits hb]
      · rw [pyAccess_read path h.full]
        exact pyReceive_readRequests h.full rfl b 0 _

/-- An access through a slot is an exchange. -/
theorem Engine.access_eq_exchange (e : Engine σ) (slots : Slots) (h : db.Sends reqs) (w : World σ) :
    e.access slots db reqs w = e.exchange reqs w := by
  obtain ⟨path, fill, read, hcall, hfill, hread⟩ := h.call
  have hm := cAccess_matches path
  have hfits : (cAccess path).trueTotal reqs ≤ slotStride := h.fits.trans (Nat.sub_le _ _)
  have hseen : (accessLayout.decode (Buffer.write fill (slots.slot w.log.length))).2 =
      reqs.map TagRequest.wire := by
    rw [hfill _ (slots.clear _), hm.decode h.pos h.length_le h.sendable hfits]
  unfold Engine.access Engine.exchange
  simp only [hcall, hseen]
  cases hserved : (e.serve w.engine (reqs.map TagRequest.wire)).1 with
  | none => rfl
  | some answers =>
      have hsized := e.sized _ _ _ hserved
      have hlen : reqs.length = answers.length := by
        have hwire : (reqs.map TagRequest.wire).length = reqs.length := List.length_map _
        rw [← hwire]
        exact hsized.length_eq
      have hreply := hm.reply h.pos h.length_le hfits (List.map_fst_zip hlen.le)
        (sized_of_forall₂ hsized) (Buffer.write fill (slots.slot w.log.length))
      simp only [hread, Layout.answer_wire, hreply]
      rw [← List.map_uncurry_zip_eq_zipWith]
      rfl

end Exchanges

section Names

variable {db : TagDb} {r r' : TagRequest}

theorem name254_name254 (name : List UInt8) : name254 (name254 name) = name254 name := by
  rw [name254, name254, List.take_take, Nat.min_self]

theorem name254_of_le {name : List UInt8} (h : name.length ≤ 254) : name254 name = name :=
  List.take_of_length_le h

/-- A call with one request depends on the fields of its descriptor and its
data. -/
theorem Format.call_congr (f : Format) (r r' : TagRequest) (hbytes : r.nbytes = r'.nbytes)
    (hdescriptor : f.descriptor r = f.descriptor r') (hsource : f.source r = f.source r')
    (hsink : f.sink r = f.sink r') : f.call [r] = f.call [r'] := by
  have hfill : f.fill [r] = f.fill [r'] := by
    simp only [Format.fill, Format.fillRequests, List.length_singleton, hdescriptor, hsource]
  have hread : f.read [r] = f.read [r'] := by
    simp only [Format.read, Format.readRequests, List.length_singleton, hsink]
  have htotal : totalDataBytes [r] = totalDataBytes [r'] := congrArg (0 + ·) hbytes
  rw [Format.call, Format.call, hfill, hread, htotal]
  rfl

/-- A name that is too long is sent as its beginning. -/
theorem TagDb.call_name254 (db : TagDb) (r : TagRequest) (hascii : r.asciiName) :
    db.call [r] = db.call [{ r with tagName := name254 r.tagName }] := by
  have hname := name254_name254 r.tagName
  have hfields : tagDataFields r = tagDataFields { r with tagName := name254 r.tagName } := by
    simp only [tagDataFields, hname]
  cases db with
  | c path =>
      have hdescriptor : (cAccess path).descriptor r =
          (cAccess path).descriptor { r with tagName := name254 r.tagName } :=
        congrArg (_ :: ·) hfields
      rw [TagDb.call, TagDb.call, bpTagdbAccess, bpTagdbAccess,
        (cAccess path).call_congr r { r with tagName := name254 r.tagName } rfl hdescriptor rfl rfl]
  | go path =>
      rw [TagDb.call, TagDb.call, tagDBAccess, tagDBAccess,
        (goAccess path).call_congr r { r with tagName := name254 r.tagName } rfl hfields rfl rfl]
  | python path =>
      have hsent : (TagRequest.asciiName { r with tagName := name254 r.tagName }) = true :=
        List.all_eq_true.mpr fun b hb => List.all_eq_true.mp hascii b (List.mem_of_mem_take hb)
      have hdescriptor : (pyAccess path).descriptor r =
          (pyAccess path).descriptor { r with tagName := name254 r.tagName } := by
        simp only [pyAccess, pyTagDataFields, hname]
      rw [TagDb.call, TagDb.call, tagDbAccessPy, tagDbAccessPy, Format.pyCall, Format.pyCall]
      simp only [Format.pyFillRequests, List.all_cons, hascii, hsent, hdescriptor]
      rfl

end Names

end BpClient.Tag
