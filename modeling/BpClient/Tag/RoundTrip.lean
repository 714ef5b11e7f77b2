import BpClient.Slot.Request
import BpClient.Tag.Bounds

/-!
A batched access and back: the documented layout of the two opcodes, a decoder
of the requests and an encoder of the replies written from it, and what they
make of the slots that the C encoders fill and the C decoders read.
-/

namespace BpClient.Tag

open BpClient.Lib
open BpClient.Slot (SlotBytes)

structure WireRequest where
  tagName : List UInt8
  dataType : Nat
  elemByteSize : Nat
  action : Nat
  elemCount : Nat
  /-- The data of a write. -/
  data : Option (List UInt8)
  deriving DecidableEq, Repr

/-- Where the documentation has the fields of a batched access. Those of a
descriptor count from its start. -/
structure Layout where
  count : Region
  req0Start : Nat
  stride : Nat
  tagName : Region
  dataType : Region
  elemByteSize : Region
  action : Region
  elemCount : Region
  result : Region
  within : ∀ r ∈ [tagName, dataType, elemByteSize, action, elemCount, result], r.stop ≤ stride

/-- `OCXcip_AccessTagData` in `docs/protocol.md` -/
def accessLayout : Layout where
  count := ⟨0x17A, 2⟩
  req0Start := 0x180
  stride := 0x120
  tagName := ⟨0x000, 256⟩
  dataType := ⟨0x100, 2⟩
  elemByteSize := ⟨0x102, 2⟩
  action := ⟨0x104, 2⟩
  elemCount := ⟨0x106, 2⟩
  result := ⟨0x118, 4⟩
  within := by decide

/-- `OCXcip_AccessTagDataDb` in `docs/protocol.md` -/
def accessDbLayout : Layout where
  count := ⟨0x80, 2⟩
  req0Start := 0x88
  stride := 0x128
  tagName := ⟨0x000, 255⟩
  action := ⟨0x100, 2⟩
  dataType := ⟨0x104, 4⟩
  elemByteSize := ⟨0x108, 4⟩
  elemCount := ⟨0x10C, 4⟩
  result := ⟨0x120, 4⟩
  within := by decide

/-- What a reply has for one request; the data of a write is not sent. -/
structure Answer where
  result : UInt32
  data : List UInt8
  deriving DecidableEq, Repr

namespace Layout

variable (l : Layout) (b : SlotBytes)

def reqStart (i : Nat) : Nat := l.req0Start + i * l.stride

def number (base : Nat) (r : Region) : Nat := leNat (b.read (base + r.off) r.len)

def decodeRequest (base dataOff : Nat) : WireRequest :=
  let elemByteSize := number b base l.elemByteSize
  let action := number b base l.action
  let elemCount := number b base l.elemCount
  { tagName := cString (b.read (base + l.tagName.off) l.tagName.len)
    dataType := number b base l.dataType
    elemByteSize := elemByteSize
    action := action
    elemCount := elemCount
    data := if action = 2 then some (b.read dataOff (elemByteSize * elemCount)) else none }

/-- The next `count` requests, from request `i` on. -/
def decodeRequests : Nat → Nat → Nat → List WireRequest
  | 0, _, _ => []
  | count + 1, i, dataOff =>
      let r := l.decodeRequest b (l.reqStart i) dataOff
      r :: decodeRequests count (i + 1) (dataOff + r.elemByteSize * r.elemCount)

/-- The number of requests and the requests in a slot; their data begins behind
the last descriptor. -/
def decode : Nat × List WireRequest :=
  let count := number b 0 l.count
  (count, l.decodeRequests b count 0 (l.reqStart count))

def replyRequests (i dataOff : Nat) : List (TagRequest × Answer) → List Write
  | [] => []
  | (r, a) :: rest =>
      ⟨l.reqStart i + l.result.off, leBytes 4 a.result.toNat⟩ ::
        (if r.action = actionRead then [⟨dataOff, a.data⟩] else []) ++
        replyRequests (i + 1) (dataOff + r.elemByteSize.toNat * r.elemCount.toNat) rest

def reply (pairs : List (TagRequest × Answer)) : List Write :=
  l.replyRequests 0 (l.reqStart pairs.length) pairs

end Layout

def decodeAccess (b : SlotBytes) : List UInt8 × Nat × List WireRequest :=
  (cString (b.read 0x78 255), accessLayout.decode b)

def decodeAccessDb (b : SlotBytes) : Nat × Nat × List WireRequest :=
  (leNat (b.read 0x78 4), accessDbLayout.decode b)

def TagRequest.wire (r : TagRequest) : WireRequest where
  tagName := r.tagName
  dataType := r.dataType.toNat
  elemByteSize := r.elemByteSize.toNat
  action := r.action.toNat
  elemCount := r.elemCount.toNat
  data := if r.action = actionWrite then some (r.data.getD []) else none

/-- A request that can be sent as it is. -/
structure TagRequest.Sendable (r : TagRequest) : Prop where
  nul_free : 0 ∉ r.tagName
  name_le : r.tagName.length ≤ 254
  action : r.action = actionRead ∨ r.action = actionWrite
  data : r.action = actionWrite →
    ∃ data, r.data = some data ∧ data.length = r.elemByteSize.toNat * r.elemCount.toNat

/-- What a read callback stores through the `data` pointer of a request, given
the region that it copies. -/
def TagRequest.stored (r : TagRequest) (b : SlotBytes) : Option Region → Option (List UInt8)
  | none => r.data
  | some t => r.data.map fun buf => b.read t.off t.len ++ buf.drop t.len

/-- A request and its result, given the regions that the callback reads. -/
def TagRequest.receive (b : SlotBytes) (r : TagRequest) (p : Region × Option Region) :
    TagRequest × UInt32 :=
  ({ r with data := r.stored b p.2 }, UInt32.ofNat (leNat (b.read p.1.off p.1.len)))

def Format.readInto (f : Format) (reqs : List TagRequest) (b : SlotBytes) :
    List (TagRequest × UInt32) :=
  List.zipWith (TagRequest.receive b) reqs (f.read reqs)

/-- What the caller is to find in a request: for a read, the data of the answer
at the beginning of its buffer. -/
def TagRequest.answered (r : TagRequest) (a : Answer) : TagRequest × UInt32 :=
  ({ r with data := if r.action = actionRead then
      r.data.map fun buf => a.data ++ buf.drop a.data.length
    else r.data }, a.result)

/-- A descriptor in which a request can be read. -/
structure Layout.Describes (l : Layout) (b : SlotBytes) (base : Nat) (r : TagRequest) : Prop where
  tagName : cString (b.read (base + l.tagName.off) l.tagName.len) = r.tagName
  dataType : Layout.number b base l.dataType = r.dataType.toNat
  elemByteSize : Layout.number b base l.elemByteSize = r.elemByteSize.toNat
  action : Layout.number b base l.action = r.action.toNat
  elemCount : Layout.number b base l.elemCount = r.elemCount.toNat

section Requests

variable {f : Format} {l : Layout} {reqs : List TagRequest} {r : TagRequest} {b : SlotBytes}
  {base i : Nat} {dataOff : UInt32}

theorem Layout.Describes.write (h : l.Describes b base r) {ws : List Write}
    (hws : ∀ w ∈ ws, w.region.Disjoint ⟨base, l.stride⟩) :
    l.Describes (Buffer.write ws b) base r := by
  have hread : ∀ t ∈ [l.tagName, l.dataType, l.elemByteSize, l.action, l.elemCount, l.result],
      (Buffer.write ws b).read (base + t.off) t.len = b.read (base + t.off) t.len := by
    intro t ht
    have hstop := l.within t ht
    refine Buffer.read_write_of_disjoint b fun w hw => (hws w hw).mono (Nat.le_add_right _ _) ?_
    simp only [Region.stop] at hstop ⊢
    omega
  simp only [List.forall_mem_cons] at hread
  obtain ⟨hname, htype, hsize, haction, hcount, -⟩ := hread
  refine ⟨?_, ?_, ?_, ?_, ?_⟩
  · rw [hname, h.tagName]
  · rw [Layout.number, htype, ← Layout.number, h.dataType]
  · rw [Layout.number, hsize, ← Layout.number, h.elemByteSize]
  · rw [Layout.number, haction, ← Layout.number, h.action]
  · rw [Layout.number, hcount, ← Layout.number, h.elemCount]

/-- A request is decoded from its descriptor and its data. -/
theorem Layout.Describes.decodeRequest (h : l.Describes b base r) {off : Nat}
    (hdata : r.action = actionWrite →
      b.read off (r.elemByteSize.toNat * r.elemCount.toNat) = r.data.getD []) :
    l.decodeRequest b base off = r.wire := by
  have haction : r.action.toNat = 2 ↔ r.action = actionWrite := UInt16.toNat_inj (b := 2)
  simp only [Layout.decodeRequest, h.tagName, h.dataType, h.elemByteSize, h.action, h.elemCount,
    TagRequest.wire, haction]
  split
  · next hwrite => rw [hdata hwrite]
  · rfl

/-- What the writes for the requests from `i` on touch: their descriptors and
what lies behind the running offset. -/
theorem mem_fillRequests_place {w : Write} (hw : w ∈ f.fillRequests i dataOff reqs)
    (hsum : dataOff.toNat + (reqs.map fun r => r.nbytes.toNat).sum < 2 ^ 32) :
    (f.reqStart i ≤ w.off ∧ w.region.stop ≤ f.reqStart i + reqs.length * f.stride) ∨
      dataOff.toNat ≤ w.off := by
  induction reqs generalizing i dataOff with
  | nil => cases hw
  | cons r rs ih =>
      have hnext := f.reqStart_succ i
      simp only [List.length_cons, List.map_cons, List.sum_cons, Nat.succ_mul] at hsum ⊢
      have hadd := dataOff_add (show dataOff.toNat + r.nbytes.toNat < 2 ^ 32 by omega)
      rw [← r.nbytes_toNat] at hadd
      rw [Format.fillRequests, List.mem_append, List.mem_append] at hw
      rcases hw with (hw | hw) | hw
      · obtain ⟨hlo, hhi⟩ := f.mem_descriptor_place hw
        exact .inl ⟨hlo, by omega⟩
      · exact .inr (f.mem_source_place hw).1.ge
      · rcases ih hw (by omega) with ⟨hlo, hhi⟩ | hoff
        · exact .inl ⟨by omega, by omega⟩
        · exact .inr (by omega)

/-- A C format that has its fields where the documentation has them. -/
structure Matches (f : Format) (l : Layout) : Prop where
  req0Start : f.req0Start = l.req0Start
  stride : f.stride = l.stride
  result : f.resultOff = l.result.off ∧ l.result.len = 4
  source : f.source = cSource
  sink : f.sink = cSink
  count : ∀ n < 2 ^ 16, ∀ b : SlotBytes, Layout.number (Buffer.write (f.header n) b) 0 l.count = n
  count_within : l.count.stop ≤ l.req0Start
  describes : ∀ r : TagRequest, r.Sendable → ∀ (b : SlotBytes) base, base + f.stride ≤ slotStride →
    l.Describes (Buffer.write ((f.descriptor r).map (Write.shift base)) b) base r

/-- The data of a write as the C encoder copies it. -/
theorem cSource_of_sendable (hr : r.Sendable) (hwrite : r.action = actionWrite) :
    ∃ data, r.data = some data ∧ data.length = r.nbytes.toNat ∧
      cSource r = if 0 < data.length then some data else none := by
  obtain ⟨data, hdata, hlen⟩ := hr.data hwrite
  rw [← r.nbytes_toNat] at hlen
  refine ⟨data, hdata, hlen, ?_⟩
  simp only [cSource, hwrite, hdata, nbytes_pos hlen, Option.map_some, memcpyData_eq hlen, true_and]

def Format.requestWrites (f : Format) (i dataOff : Nat) (r : TagRequest) : List Write :=
  (f.descriptor r).map (Write.shift (f.reqStart i)) ++
    (f.source r).toList.map fun bytes => ⟨dataOff, bytes⟩

theorem write_fillRequests_cons (f : Format) (i : Nat) (dataOff : UInt32) (r : TagRequest)
    (reqs : List TagRequest) (b : SlotBytes) :
    Buffer.write (f.fillRequests i dataOff (r :: reqs)) b =
      Buffer.write (f.fillRequests (i + 1) (dataOff + r.nbytes) reqs)
        (Buffer.write (f.requestWrites i dataOff.toNat r) b) := by
  rw [Format.fillRequests, Buffer.write_append]
  rfl

section First

variable {ws : List Write} {off : Nat}

/-- The descriptor of a request stands among the writes for those after it. -/
theorem Matches.describes_first (hm : Matches f l) (hr : r.Sendable)
    (hws : ∀ w ∈ ws, (f.reqStart (i + 1) ≤ w.off ∧
      w.region.stop ≤ f.reqStart (i + 1) + reqs.length * f.stride) ∨ off + r.nbytes.toNat ≤ w.off)
    (harea : f.reqStart i + f.stride ≤ off) (hin : f.reqStart i + f.stride ≤ slotStride) :
    l.Describes (Buffer.write ws (Buffer.write (f.requestWrites i off r) b)) (l.reqStart i) r := by
  have hstart : l.reqStart i = f.reqStart i := by
    rw [Layout.reqStart, Format.reqStart, hm.req0Start, hm.stride]
  have hnext := f.reqStart_succ i
  have hstop : (⟨f.reqStart i, l.stride⟩ : Region).stop = f.reqStart i + f.stride := by
    rw [Region.stop, hm.stride]
  have hfirst := hm.describes r hr b (f.reqStart i) hin
  rw [hstart, Format.requestWrites, Buffer.write_append]
  apply (hfirst.write _).write
  · intro w hw
    exact Region.disjoint_of_before (hws w hw) (by omega) (by omega)
  · intro w hw
    apply Region.disjoint_of_le_off
    have hoff := (f.mem_source_place hw).1
    simp only [Write.region]
    omega

/-- So does the data of a write. -/
theorem Matches.read_first (hm : Matches f l) (hr : r.Sendable) (hwrite : r.action = actionWrite)
    (hws : ∀ w ∈ ws, (f.reqStart (i + 1) ≤ w.off ∧
      w.region.stop ≤ f.reqStart (i + 1) + reqs.length * f.stride) ∨ off + r.nbytes.toNat ≤ w.off)
    (harea : f.reqStart (i + 1) + reqs.length * f.stride ≤ off)
    (hin : off + r.nbytes.toNat ≤ slotStride) :
    (Buffer.write ws (Buffer.write (f.requestWrites i off r) b)).read off
      (r.elemByteSize.toNat * r.elemCount.toNat) = r.data.getD [] := by
  obtain ⟨bytes, hbytes, hlen, hsource⟩ := cSource_of_sendable hr hwrite
  rw [← r.nbytes_toNat, ← hlen, hbytes, Option.getD_some, Buffer.read_write_of_disjoint]
  · by_cases hpos : 0 < bytes.length
    · rw [Format.requestWrites, hm.source, hsource, if_pos hpos]
      exact Buffer.read_write ((f.descriptor r).map (Write.shift (f.reqStart i))) [] bytes b
        (by simp) (by omega)
    · have hnil : bytes = [] := List.eq_nil_of_length_eq_zero (by omega)
      rw [hnil]
      rfl
  · intro w hw
    apply Region.disjoint_of_between (hws w hw)
    · exact harea
    · simp only [Region.stop]
      omega

end First

/-- The decoder finds what the encoder has written: a request is not touched by
the writes for those after it. -/
theorem Matches.decodeRequests (hm : Matches f l) (hs : ∀ r ∈ reqs, r.Sendable) (i : Nat)
    (dataOff : UInt32) (b : SlotBytes)
    (harea : f.reqStart i + reqs.length * f.stride ≤ dataOff.toNat)
    (hsum : dataOff.toNat + (reqs.map fun r => r.nbytes.toNat).sum ≤ slotStride) :
    l.decodeRequests (Buffer.write (f.fillRequests i dataOff reqs) b) reqs.length i dataOff.toNat =
      reqs.map TagRequest.wire := by
  induction reqs generalizing i dataOff b with
  | nil => rfl
  | cons r rs ih =>
      have hnext := f.reqStart_succ i
      have hstride : slotStride < 2 ^ 32 := by decide
      simp only [List.length_cons, List.map_cons, List.sum_cons, Nat.succ_mul] at harea hsum
      have hadd := dataOff_add (show dataOff.toNat + r.nbytes.toNat < 2 ^ 32 by omega)
      have hadd' := hadd
      rw [← r.nbytes_toNat] at hadd'
      have hr := hs r List.mem_cons_self
      have hplace : ∀ w ∈ f.fillRequests (i + 1) (dataOff + r.nbytes) rs,
          (f.reqStart (i + 1) ≤ w.off ∧
            w.region.stop ≤ f.reqStart (i + 1) + rs.length * f.stride) ∨
          dataOff.toNat + r.nbytes.toNat ≤ w.off := by
        intro w hw
        rw [← hadd']
        exact mem_fillRequests_place hw (by omega)
      have hrest := ih (fun r hr => hs r (List.mem_cons_of_mem _ hr)) (i + 1)
        (dataOff + r.nbytes) (Buffer.write (f.requestWrites i dataOff.toNat r) b) (by omega)
        (by omega)
      rw [hadd] at hrest
      have hdesc := hm.describes_first (b := b) hr hplace (by omega) (by omega)
      rw [List.length_cons, Layout.decodeRequests, write_fillRequests_cons,
        hdesc.decodeRequest fun hwrite => hm.read_first hr hwrite hplace (by omega) (by omega),
        List.map_cons]
      exact congrArg _ hrest

/-- What the requests are written after is left alone. -/
theorem read_fill_of_le (hpos : 1 ≤ reqs.length) (hlen : reqs.length ≤ 16)
    (hfits : f.trueTotal reqs ≤ slotStride) (b : SlotBytes) {off len : Nat}
    (hstop : off + len ≤ f.req0Start) :
    (Buffer.write (f.fill reqs) b).read off len =
      (Buffer.write (f.header reqs.length) b).read off len := by
  obtain ⟨hstart, hend⟩ := Format.dataAreaStart_toNat (f := f) hpos hlen
  have htotal : f.trueTotal reqs = _ := f.trueTotal_eq
  have hstride : slotStride < 2 ^ 32 := by decide
  have hreq : f.reqStart 0 = f.req0Start := by rw [Format.reqStart, Nat.zero_mul, Nat.add_zero]
  rw [Format.fill, Buffer.write_append]
  apply Buffer.read_write_of_disjoint
  intro w hw
  apply Region.disjoint_of_before (mem_fillRequests_place hw (by omega))
  · simp only [Region.stop]
    omega
  · simp only [Region.stop]
    omega

/-- The decoder finds the count and the requests in the slot that the encoder
has filled, whatever was in it. -/
theorem Matches.decode (hm : Matches f l) (hpos : 1 ≤ reqs.length) (hlen : reqs.length ≤ 16)
    (hs : ∀ r ∈ reqs, r.Sendable) (hfits : f.trueTotal reqs ≤ slotStride) (b : SlotBytes) :
    l.decode (Buffer.write (f.fill reqs) b) = (reqs.length, reqs.map TagRequest.wire) := by
  obtain ⟨hstart, hend⟩ := Format.dataAreaStart_toNat (f := f) hpos hlen
  have htotal : f.trueTotal reqs = _ := f.trueTotal_eq
  have hreq : f.reqStart 0 = f.req0Start := by rw [Format.reqStart, Nat.zero_mul, Nat.add_zero]
  have hcount : Layout.number (Buffer.write (f.fill reqs) b) 0 l.count = reqs.length := by
    have hwithin := hm.count_within
    rw [Layout.number, read_fill_of_le hpos hlen hfits b
      (by rw [hm.req0Start, Nat.zero_add]; exact hwithin), ← Layout.number]
    exact hm.count reqs.length (by omega) b
  have harea : l.reqStart reqs.length = (f.dataAreaStart reqs.length).toNat := by
    rw [hstart, Layout.reqStart, hm.req0Start, hm.stride]
  simp only [Layout.decode, hcount, harea]
  rw [Format.fill, Buffer.write_append, hm.decodeRequests hs 0 _ _ (by omega) (by omega)]

end Requests

section Replies

variable {f : Format} {l : Layout}

theorem Layout.reqStart_succ (l : Layout) (i : Nat) :
    l.reqStart (i + 1) = l.reqStart i + l.stride := by
  rw [Layout.reqStart, Layout.reqStart, Nat.succ_mul, Nat.add_assoc]

/-- What the reply to the requests from `i` on touches. -/
theorem mem_replyRequests_place {pairs : List (TagRequest × Answer)} {i dataOff : Nat} {w : Write}
    (hlen : l.result.len = 4) (hw : w ∈ l.replyRequests i dataOff pairs) :
    (l.reqStart i ≤ w.off ∧ w.region.stop ≤ l.reqStart i + pairs.length * l.stride) ∨
      dataOff ≤ w.off := by
  induction pairs generalizing i dataOff with
  | nil => cases hw
  | cons p pairs ih =>
      have hnext := l.reqStart_succ i
      have hresult := l.within l.result (by simp)
      rw [List.length_cons, Nat.succ_mul]
      rcases List.mem_append.mp hw with hw | hw
      · rcases List.mem_cons.mp hw with rfl | hw
        · refine .inl ⟨Nat.le_add_right _ _, ?_⟩
          simp only [Write.region, Region.stop, leBytes_length, hlen] at hresult ⊢
          omega
        · split at hw
          · rw [List.mem_singleton] at hw
            subst hw
            exact .inr le_rfl
          · cases hw
      · rcases ih hw with ⟨hlo, hhi⟩ | hoff
        · exact .inl ⟨by omega, by omega⟩
        · exact .inr (by omega)

theorem stored_of_read {r : TagRequest} {a : Answer} {b : SlotBytes} {off : Nat}
    (hread : r.action = actionRead → b.read off r.nbytes.toNat = a.data)
    (hlen : r.action = actionRead → a.data.length = r.nbytes.toNat) :
    r.stored b ((cSink r).map fun n => ⟨off, n⟩) = (r.answered a).1.data := by
  by_cases haction : r.action = actionRead
  · by_cases hpos : 0 < r.nbytes
    · cases hbuf : r.data with
      | none => simp [cSink, TagRequest.answered, TagRequest.stored, haction, hpos, hbuf]
      | some buf =>
          simp [cSink, TagRequest.answered, TagRequest.stored, haction, hpos, hbuf, hread haction,
            hlen haction]
    · have hzero : r.nbytes.toNat = 0 := by
        rw [UInt32.lt_iff_toNat_lt] at hpos
        exact Nat.eq_zero_of_not_pos hpos
      have hnil : a.data = [] := List.eq_nil_of_length_eq_zero ((hlen haction).trans hzero)
      simp [cSink, TagRequest.answered, TagRequest.stored, haction, hpos, hnil]
  · simp [cSink, TagRequest.answered, TagRequest.stored, haction]

def Layout.answerWrites (l : Layout) (i off : Nat) (r : TagRequest) (a : Answer) : List Write :=
  ⟨l.reqStart i + l.result.off, leBytes 4 a.result.toNat⟩ ::
    if r.action = actionRead then [⟨off, a.data⟩] else []

theorem write_replyRequests_cons (l : Layout) (i off : Nat) (r : TagRequest) (a : Answer)
    (pairs : List (TagRequest × Answer)) (b : SlotBytes) :
    Buffer.write (l.replyRequests i off ((r, a) :: pairs)) b =
      Buffer.write (l.replyRequests (i + 1) (off + r.elemByteSize.toNat * r.elemCount.toNat) pairs)
        (Buffer.write (l.answerWrites i off r a) b) := by
  rw [Layout.replyRequests, Buffer.write_append]
  rfl

section First

variable {r : TagRequest} {a : Answer} {ws : List Write} {i off k n : Nat} {b : SlotBytes}

/-- The result of a request stands among the writes for those after it. -/
theorem Matches.result_first (hm : Matches f l)
    (hws : ∀ w ∈ ws, (l.reqStart (i + 1) ≤ w.off ∧ w.region.stop ≤ k) ∨ n ≤ w.off)
    (hoff : l.reqStart i + l.stride ≤ off) (hn : off ≤ n) (hin : off ≤ slotStride) :
    leNat ((Buffer.write ws (Buffer.write (l.answerWrites i off r a) b)).read
      (f.reqStart i + f.resultOff) 4) = a.result.toNat := by
  have hstart : f.reqStart i = l.reqStart i := by
    rw [Layout.reqStart, Format.reqStart, hm.req0Start, hm.stride]
  have hnext := l.reqStart_succ i
  obtain ⟨hresult, hfour⟩ := hm.result
  have hwithin := l.within l.result (by simp)
  simp only [Region.stop, hfour] at hwithin
  rw [hstart, hresult, Buffer.read_write_of_disjoint]
  · apply Buffer.leNat_read [] _ b a.result.toNat_lt
    · intro w hw
      split at hw
      · rw [List.mem_singleton] at hw
        subst hw
        apply Region.disjoint_of_le_off
        simp only [Region.stop, Write.region]
        omega
      · cases hw
    · omega
  · intro w hw
    apply Region.disjoint_of_before (hws w hw)
    · simp only [Region.stop]
      omega
    · simp only [Region.stop]
      omega

/-- So does the data of a read. -/
theorem read_answer (haction : r.action = actionRead)
    (hws : ∀ w ∈ ws, (l.reqStart (i + 1) ≤ w.off ∧ w.region.stop ≤ k) ∨
      off + a.data.length ≤ w.off)
    (hk : k ≤ off) (hin : off + a.data.length ≤ slotStride) :
    (Buffer.write ws (Buffer.write (l.answerWrites i off r a) b)).read off a.data.length =
      a.data := by
  rw [Buffer.read_write_of_disjoint]
  · rw [Layout.answerWrites, if_pos haction]
    exact Buffer.read_write [⟨l.reqStart i + l.result.off, leBytes 4 a.result.toNat⟩] [] a.data b
      (by simp) hin
  · intro w hw
    exact Region.disjoint_of_between (hws w hw) hk le_rfl

end First

/-- The read callback of C gets every result and the data of every read. -/
theorem Matches.readInto (hm : Matches f l) (pairs : List (TagRequest × Answer)) (i : Nat)
    (dataOff : UInt32) (b : SlotBytes)
    (hdata : ∀ p ∈ pairs, p.1.action = actionRead →
      p.2.data.length = p.1.elemByteSize.toNat * p.1.elemCount.toNat)
    (harea : l.reqStart i + pairs.length * l.stride ≤ dataOff.toNat)
    (hsum : dataOff.toNat + (pairs.map fun p => p.1.nbytes.toNat).sum ≤ slotStride) :
    List.zipWith (TagRequest.receive (Buffer.write (l.replyRequests i dataOff.toNat pairs) b))
        (pairs.map Prod.fst) (f.readRequests i dataOff (pairs.map Prod.fst)) =
      pairs.map fun p => p.1.answered p.2 := by
  induction pairs generalizing i dataOff b with
  | nil => rfl
  | cons p pairs ih =>
      obtain ⟨r, a⟩ := p
      have hnext := l.reqStart_succ i
      have hstride : slotStride < 2 ^ 32 := by decide
      simp only [List.length_cons, List.map_cons, List.sum_cons, Nat.succ_mul] at harea hsum
      have hadd := dataOff_add (show dataOff.toNat + r.nbytes.toNat < 2 ^ 32 by omega)
      have hplace := fun w (hw : w ∈ l.replyRequests (i + 1)
          (dataOff.toNat + r.elemByteSize.toNat * r.elemCount.toNat) pairs) =>
        mem_replyRequests_place hm.result.2 hw
      have hlen : r.action = actionRead → a.data.length = r.nbytes.toNat := by
        rw [r.nbytes_toNat]
        exact hdata (r, a) List.mem_cons_self
      have hgot : leNat ((Buffer.write (l.replyRequests i dataOff.toNat ((r, a) :: pairs)) b).read
          (f.reqStart i + f.resultOff) 4) = a.result.toNat := by
        rw [write_replyRequests_cons]
        exact hm.result_first hplace (by omega) (Nat.le_add_right _ _) (by omega)
      have hread : r.action = actionRead →
          (Buffer.write (l.replyRequests i dataOff.toNat ((r, a) :: pairs)) b).read dataOff.toNat
            r.nbytes.toNat = a.data := by
        intro haction
        have hsize := hlen haction
        rw [write_replyRequests_cons, ← hsize]
        rw [← r.nbytes_toNat, ← hsize] at hplace
        rw [← r.nbytes_toNat, ← hsize]
        exact read_answer haction hplace (by omega) (by omega)
      have hhead : TagRequest.receive
          (Buffer.write (l.replyRequests i dataOff.toNat ((r, a) :: pairs)) b) r
          (⟨f.reqStart i + f.resultOff, 4⟩, (f.sink r).map fun n => ⟨dataOff.toNat, n⟩) =
          r.answered a := by
        rw [TagRequest.receive, hgot, UInt32.ofNat_toNat, hm.sink, stored_of_read hread hlen]
        rfl
      have hrest := ih (i + 1) (dataOff + r.nbytes)
        (Buffer.write (l.answerWrites i dataOff.toNat r a) b)
        (fun p hp => hdata p (List.mem_cons_of_mem _ hp)) (by rw [hadd]; omega)
        (by rw [hadd, ← r.nbytes_toNat]; omega)
      rw [hadd, ← write_replyRequests_cons] at hrest
      rw [List.map_cons, List.map_cons, Format.readRequests, List.zipWith_cons_cons, hhead, hrest]

end Replies

section Members

/-- A string of at most `n` bytes as C keeps it. -/
structure CString (n : Nat) where
  bytes : List UInt8
  length_le : bytes.length ≤ n
  nul_free : 0 ∉ bytes

section Descriptor

variable {f : Format} {r : TagRequest} {base stride : Nat}

/-- A field of a descriptor is read back when the fields after it are behind it. -/
theorem number_descriptor {k v : Nat} {t : Region} (b : SlotBytes)
    (hw : (f.descriptor r)[k]? = some ⟨t.off, leBytes t.len v⟩) (hv : v < 256 ^ t.len)
    (hback : ∀ w ∈ (f.descriptor r).drop (k + 1), t.stop ≤ w.off) (ht : t.stop ≤ stride)
    (hbase : base + stride ≤ slotStride) :
    Layout.number (Buffer.write ((f.descriptor r).map (Write.shift base)) b) base t = v := by
  refine Buffer.leNat_read_of_le (k := k) b ?_ hv (fun w hw => ?_) ?_
  · rw [List.getElem?_map, hw]
    rfl
  · rw [← List.map_drop] at hw
    obtain ⟨u, hu, rfl⟩ := List.mem_map.mp hw
    have := hback u hu
    simp only [Write.shift, Region.stop] at this ⊢
    omega
  · simp only [Region.stop] at ht
    omega

/-- The name is copied over the zeros of a descriptor. -/
theorem tagName_descriptor {k : Nat} {t : Region} {back : List Write} (b : SlotBytes)
    (hr : r.Sendable) (hw : f.descriptor r = ⟨0, zeros k⟩ :: ⟨0, name254 r.tagName⟩ :: back)
    (hoff : t.off = 0) (hlen : 254 ≤ t.len) (hk : t.len ≤ k) (hback : ∀ w ∈ back, t.len ≤ w.off)
    (ht : t.len ≤ stride) (hbase : base + stride ≤ slotStride) :
    cString ((Buffer.write ((f.descriptor r).map (Write.shift base)) b).read (base + t.off) t.len) =
      r.tagName := by
  have hname : name254 r.tagName = r.tagName := List.take_of_length_le hr.name_le
  rw [hw, hname, hoff]
  refine Buffer.cString_read [] (back.map (Write.shift base)) b hr.nul_free
    (hr.name_le.trans hlen) hk (fun v hv => ?_) (by simp only [Nat.add_zero]; omega)
  obtain ⟨u, hu, rfl⟩ := List.mem_map.mp hv
  have := hback u hu
  apply Region.disjoint_of_le_off
  simp only [Region.stop, Write.region, Write.shift]
  omega

end Descriptor

/-- The fields of `AccessTagData` are where the documentation has them. -/
theorem cAccess_matches (path : List UInt8) : Matches (cAccess path) accessLayout where
  req0Start := rfl
  stride := rfl
  result := ⟨rfl, rfl⟩
  source := rfl
  sink := rfl
  count := fun n hn b => Buffer.leNat_read_of_le (k := 3) b rfl hn (by simp [cAccess]) (by decide)
  count_within := by decide
  describes := by
    intro r hr b base hbase
    have hin : base + 0x120 ≤ slotStride := hbase
    constructor
    · exact tagName_descriptor b hr rfl rfl (by decide) (by decide)
        (by simp [accessLayout]) (by decide) hin
    · exact number_descriptor (k := 2) b rfl r.dataType.toNat_lt
        (by simp [cAccess, tagDataFields, accessLayout, Region.stop]) (by decide) hin
    · exact number_descriptor (k := 3) b rfl r.elemByteSize.toNat_lt
        (by simp [cAccess, tagDataFields, accessLayout, Region.stop]) (by decide) hin
    · exact number_descriptor (k := 4) b rfl r.action.toNat_lt
        (by simp [cAccess, tagDataFields, accessLayout, Region.stop]) (by decide) hin
    · exact number_descriptor (k := 5) b rfl r.elemCount.toNat_lt
        (by simp [cAccess, tagDataFields, accessLayout, Region.stop]) (by decide) hin

theorem toNat_lt_of_width {v : UInt16} : v.toNat < 256 ^ 4 :=
  v.toNat_lt.trans (by decide)

/-- The fields of `AccessTagDataDb` are where the documentation has them. -/
theorem cAccessDb_matches (handle : UInt32) : Matches (cAccessDb handle) accessDbLayout where
  req0Start := rfl
  stride := rfl
  result := ⟨rfl, rfl⟩
  source := rfl
  sink := rfl
  count := fun n hn b => Buffer.leNat_read_of_le (k := 2) b rfl hn (by simp [cAccessDb]) (by decide)
  count_within := by decide
  describes := by
    intro r hr b base hbase
    have hin : base + 0x128 ≤ slotStride := hbase
    constructor
    · exact tagName_descriptor b hr rfl rfl (by decide) (by decide)
        (by simp [accessDbLayout]) (by decide) hin
    · exact number_descriptor (k := 3) b rfl toNat_lt_of_width
        (by simp [cAccessDb, tagDataDbFields, accessDbLayout, Region.stop]) (by decide) hin
    · exact number_descriptor (k := 4) b rfl toNat_lt_of_width
        (by simp [cAccessDb, tagDataDbFields, accessDbLayout, Region.stop]) (by decide) hin
    · exact number_descriptor (k := 2) b rfl r.action.toNat_lt
        (by simp [cAccessDb, tagDataDbFields, accessDbLayout, Region.stop]) (by decide) hin
    · exact number_descriptor (k := 5) b rfl toNat_lt_of_width
        (by simp [cAccessDb, tagDataDbFields, accessDbLayout, Region.stop]) (by decide) hin

end Members

/-- A batch that is found in the slot as it was made, and whose answers come
back to its requests. -/
structure RoundTrips {α : Type} (f : Format) (l : Layout)
    (decode : SlotBytes → α × Nat × List WireRequest) (target : α) (reqs : List TagRequest) :
    Prop where
  request : ∀ b, decode (Buffer.write (f.fill reqs) b) =
    (target, reqs.length, reqs.map TagRequest.wire)
  reply : ∀ pairs : List (TagRequest × Answer), pairs.map Prod.fst = reqs →
    (∀ p ∈ pairs, p.1.action = actionRead →
      p.2.data.length = p.1.elemByteSize.toNat * p.1.elemCount.toNat) →
    ∀ b, f.readInto reqs (Buffer.write (l.reply pairs) b) = pairs.map fun p => p.1.answered p.2

section Batches

variable {f : Format} {l : Layout} {reqs : List TagRequest}

theorem Matches.reply (hm : Matches f l) (hpos : 1 ≤ reqs.length) (hlen : reqs.length ≤ 16)
    (hfits : f.trueTotal reqs ≤ slotStride) {pairs : List (TagRequest × Answer)}
    (hpairs : pairs.map Prod.fst = reqs)
    (hdata : ∀ p ∈ pairs, p.1.action = actionRead →
      p.2.data.length = p.1.elemByteSize.toNat * p.1.elemCount.toNat) (b : SlotBytes) :
    f.readInto reqs (Buffer.write (l.reply pairs) b) = pairs.map fun p => p.1.answered p.2 := by
  subst hpairs
  obtain ⟨hstart, hend⟩ := Format.dataAreaStart_toNat (f := f) hpos hlen
  have htotal : f.trueTotal (pairs.map Prod.fst) = _ := f.trueTotal_eq
  rw [List.length_map] at hstart hend htotal
  rw [List.map_map] at htotal
  have harea : l.reqStart pairs.length = (f.dataAreaStart pairs.length).toNat := by
    rw [hstart, Layout.reqStart, hm.req0Start, hm.stride]
  have hfirst : l.reqStart 0 + pairs.length * l.stride = l.reqStart pairs.length := by
    rw [Layout.reqStart, Layout.reqStart, Nat.zero_mul, Nat.add_zero]
  rw [Layout.reply, Format.readInto, Format.read, List.length_map, harea]
  refine hm.readInto pairs 0 _ b hdata (by omega) ?_
  simp only [Function.comp_def] at htotal
  omega

/-- A batch that fits is found in the slot, and its answers come back. -/
theorem cAccess_roundTrips (path : CString 254) (hpos : 1 ≤ reqs.length)
    (hlen : reqs.length ≤ 16) (hs : ∀ r ∈ reqs, r.Sendable)
    (hfits : (cAccess path.bytes).trueTotal reqs ≤ slotStride) :
    RoundTrips (cAccess path.bytes) accessLayout decodeAccess path.bytes reqs := by
  have hm := cAccess_matches path.bytes
  refine ⟨fun b => ?_, fun pairs hpairs hdata b => hm.reply hpos hlen hfits hpairs hdata b⟩
  have hbytes : name254 path.bytes = path.bytes := List.take_of_length_le path.length_le
  have hpath : cString ((Buffer.write ((cAccess path.bytes).fill reqs) b).read 0x78 255) =
      path.bytes := by
    rw [read_fill_of_le hpos hlen hfits b (show 0x78 + 255 ≤ 0x180 by decide)]
    simp only [cAccess, hbytes]
    refine Buffer.cString_read [] [⟨0x178, leBytes 2 0⟩, ⟨0x17A, leBytes 2 reqs.length⟩] b
      path.nul_free (path.length_le.trans (by decide)) (show 255 ≤ 256 by decide) ?_ (by decide)
    intro v hv
    apply Region.disjoint_of_le_off
    rcases List.mem_pair.mp hv with rfl | rfl
    · exact show 0x78 + 255 ≤ 0x178 by decide
    · exact show 0x78 + 255 ≤ 0x17A by decide
  rw [decodeAccess, hm.decode hpos hlen hs hfits b, hpath]

theorem cAccessDb_roundTrips (handle : UInt32) (hpos : 1 ≤ reqs.length)
    (hlen : reqs.length ≤ 16) (hs : ∀ r ∈ reqs, r.Sendable)
    (hfits : (cAccessDb handle).trueTotal reqs ≤ slotStride) :
    RoundTrips (cAccessDb handle) accessDbLayout decodeAccessDb handle.toNat reqs := by
  have hm := cAccessDb_matches handle
  refine ⟨fun b => ?_, fun pairs hpairs hdata b => hm.reply hpos hlen hfits hpairs hdata b⟩
  have hhandle : leNat ((Buffer.write ((cAccessDb handle).fill reqs) b).read 0x78 4) =
      handle.toNat := by
    rw [read_fill_of_le hpos hlen hfits b (show 0x78 + 4 ≤ 0x88 by decide)]
    exact Buffer.leNat_read_of_le (k := 1) b rfl handle.toNat_lt (by simp [cAccessDb]) (by decide)
  rw [decodeAccessDb, hm.decode hpos hlen hs hfits b, hhandle]

end Batches

/-- A batch through the path and through the handle: the decoders find the
path, the handle, the count and the same requests in the slots that the
encoders fill, and the answers of the encoder reach their requests. -/
theorem access_roundTrips (path : CString 254) (handle : UInt32) (reqs : List TagRequest)
    (hpos : 1 ≤ reqs.length) (hlen : reqs.length ≤ 16) (hs : ∀ r ∈ reqs, r.Sendable) :
    ((cAccess path.bytes).trueTotal reqs ≤ slotStride →
      RoundTrips (cAccess path.bytes) accessLayout decodeAccess path.bytes reqs) ∧
    ((cAccessDb handle).trueTotal reqs ≤ slotStride →
      RoundTrips (cAccessDb handle) accessDbLayout decodeAccessDb handle.toNat reqs) ∧
    ((cAccess path.bytes).trueTotal reqs ≤ slotStride →
      (cAccessDb handle).trueTotal reqs ≤ slotStride → ∀ b b' : SlotBytes,
        (decodeAccess (Buffer.write ((cAccess path.bytes).fill reqs) b)).2 =
          (decodeAccessDb (Buffer.write ((cAccessDb handle).fill reqs) b')).2) ∧
    ((cAccess path.bytes).trueTotal reqs ≤ slotStride - 0x80 → ∃ size,
      bpTagdbAccess path.bytes reqs =
        .ok ⟨size, (cAccess path.bytes).fill reqs, (cAccess path.bytes).read reqs⟩) ∧
    ((cAccessDb handle).trueTotal reqs ≤ slotStride - 0x80 → ∃ size,
      bpTagdbAccessDb handle reqs =
        .ok ⟨size, (cAccessDb handle).fill reqs, (cAccessDb handle).read reqs⟩) := by
  have hpath := cAccess_roundTrips path hpos hlen hs
  have hhandle := cAccessDb_roundTrips handle hpos hlen hs
  refine ⟨hpath, hhandle, fun h h' b b' => ?_, fun h => ⟨_, Format.call_of_le hpos hlen h⟩,
    fun h => ⟨_, Format.call_of_le hpos hlen h⟩⟩
  rw [(hpath h).request b, (hhandle h').request b']

theorem access_roundTrips_int :
    RoundTrips (cAccess [0x50]) accessLayout decodeAccess [0x50] [dintRead, intWrite] ∧
      RoundTrips (cAccessDb 7) accessDbLayout decodeAccessDb 7 [dintRead, intWrite] := by
  have hs : ∀ r ∈ [dintRead, intWrite], r.Sendable := by
    intro r hr
    rcases List.mem_pair.mp hr with rfl | rfl
    · exact ⟨by decide, by decide, .inl rfl, fun h => absurd h (by decide)⟩
    · exact ⟨by decide, by decide, .inr rfl, fun _ => ⟨[1, 2], rfl, rfl⟩⟩
  obtain ⟨hpath, hhandle, -⟩ := access_roundTrips ⟨[0x50], by decide, by decide⟩ 7
    [dintRead, intWrite] (by decide) (by decide) hs
  exact ⟨hpath (by decide), hhandle (by decide)⟩

end BpClient.Tag
