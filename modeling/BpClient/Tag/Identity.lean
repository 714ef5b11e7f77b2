import BpClient.Slot.Request
import BpClient.Tag.Python

/-!
The requests of the three SDKs are the same bytes: the C encoders clear what
they write to, the others rely on the dispatcher's clear; Python packs several
fields at once.
-/

namespace BpClient.Tag

open BpClient.Lib

def payloadArea : Region := ⟨payloadStart, slotStride - payloadStart⟩

def Format.payloadSize (f : Format) (reqs : List TagRequest) : UInt32 :=
  f.dataAreaStart reqs.length + totalDataBytes reqs

/-- Data of exactly `elem_byte_size * elem_count` bytes. -/
def TagRequest.Full (r : TagRequest) : Prop := ∃ data, r.data = some data ∧
  data.length = r.elemByteSize.toNat * r.elemCount.toNat

/-- Formats that write the same bytes, up to how they are grouped. -/
structure Format.SameWrites (f g : Format) (reqs : List TagRequest) : Prop where
  geometry : f.req0Start = g.req0Start ∧ f.stride = g.stride ∧ f.dataArea0 = g.dataArea0
  header : ∀ n, SameEffect (f.header n) (g.header n)
  descriptor : ∀ r k, SameEffect ((f.descriptor r).map (Write.shift k))
    ((g.descriptor r).map (Write.shift k))
  source : ∀ r ∈ reqs, f.source r = g.source r

/-- A format that clears what it writes to, and otherwise writes as `g`. -/
structure Format.Clears (f g : Format) (reqs : List TagRequest) : Prop where
  geometry : f.req0Start = g.req0Start ∧ f.stride = g.stride ∧ f.dataArea0 = g.dataArea0
  header : ∀ n, ∃ k, f.header n = ⟨payloadStart, List.replicate k 0⟩ :: g.header n ∧
    payloadStart + k ≤ f.req0Start
  descriptor : ∀ r, f.descriptor r = ⟨0, List.replicate f.stride 0⟩ :: g.descriptor r
  source : ∀ r ∈ reqs, f.source r = g.source r

section Same

variable {f g : Format} {reqs : List TagRequest}

theorem Format.SameWrites.tail {r : TagRequest} (h : f.SameWrites g (r :: reqs)) :
    f.SameWrites g reqs :=
  ⟨h.geometry, h.header, h.descriptor, fun r hr => h.source r (List.mem_cons_of_mem _ hr)⟩

theorem Format.SameWrites.fillRequests (h : f.SameWrites g reqs) (i : Nat) (dataOff : UInt32) :
    SameEffect (f.fillRequests i dataOff reqs) (g.fillRequests i dataOff reqs) := by
  induction reqs generalizing i dataOff with
  | nil => exact .refl _
  | cons r rs ih =>
      obtain ⟨hreq, hstride, -⟩ := h.geometry
      rw [Format.fillRequests, Format.fillRequests, h.source r List.mem_cons_self]
      refine .append (.append ?_ (.refl _)) (ih h.tail (i + 1) (dataOff + r.nbytes))
      rw [Format.reqStart, Format.reqStart, hreq, hstride]
      exact h.descriptor r _

theorem Format.SameWrites.fill (h : f.SameWrites g reqs) :
    SameEffect (f.fill reqs) (g.fill reqs) := by
  obtain ⟨hreq, hstride, harea⟩ := h.geometry
  have hstart : f.dataAreaStart reqs.length = g.dataAreaStart reqs.length := by
    rw [Format.dataAreaStart, Format.dataAreaStart, harea, hstride]
  rw [Format.fill, Format.fill, hstart]
  exact .append (h.header _) (h.fillRequests _ _)

end Same

section Clears

variable {f g : Format} {reqs : List TagRequest} {n : Nat}

theorem Format.Clears.tail {r : TagRequest} (h : f.Clears g (r :: reqs)) : f.Clears g reqs :=
  ⟨h.geometry, h.header, h.descriptor, fun r hr => h.source r (List.mem_cons_of_mem _ hr)⟩

/-- Clearing the descriptors of a zeroed buffer changes nothing: what is written
for a request touches none of the descriptors after it. -/
theorem Format.Clears.fillRequests (h : f.Clears g reqs) {i : Nat} {dataOff : UInt32}
    {b : Buffer n} (hzero : b.ZeroOn ⟨f.reqStart i, reqs.length * f.stride⟩)
    (harea : f.reqStart i + reqs.length * f.stride ≤ dataOff.toNat)
    (hsum : dataOff.toNat + (reqs.map fun r => r.nbytes.toNat).sum < 2 ^ 32) :
    Buffer.write (f.fillRequests i dataOff reqs) b =
      Buffer.write (g.fillRequests i dataOff reqs) b := by
  induction reqs generalizing i dataOff b with
  | nil => rfl
  | cons r rs ih =>
      obtain ⟨hreq, hstride, -⟩ := h.geometry
      have hstart : g.reqStart i = f.reqStart i := by
        rw [Format.reqStart, Format.reqStart, hreq, hstride]
      have hnext := f.reqStart_succ i
      simp only [List.length_cons, List.map_cons, List.sum_cons, Nat.succ_mul] at hzero harea hsum
      have hadd := dataOff_add (show dataOff.toNat + r.nbytes.toNat < 2 ^ 32 by omega)
      rw [← r.nbytes_toNat] at hadd
      have hclear : Buffer.write [⟨f.reqStart i, List.replicate f.stride 0⟩] b = b :=
        Buffer.write_zeros (hzero.mono le_rfl (by simp only [Region.stop]; omega))
      have hsplit : f.fillRequests i dataOff (r :: rs) =
          [⟨f.reqStart i, List.replicate f.stride 0⟩] ++
            ((g.descriptor r).map (Write.shift (f.reqStart i)) ++
              (g.source r).toList.map (fun bytes => ⟨dataOff.toNat, bytes⟩)) ++
            f.fillRequests (i + 1) (dataOff + r.nbytes) rs := by
        rw [Format.fillRequests, h.descriptor, h.source r List.mem_cons_self]
        rfl
      rw [hsplit, Format.fillRequests, hstart, Buffer.write_append, Buffer.write_append, hclear,
        Buffer.write_append _ (g.fillRequests _ _ _)]
      refine ih h.tail (.write ?_ ?_) ?_ ?_
      · exact hzero.mono (by simp only; omega) (by simp only [Region.stop]; omega)
      · intro w hw
        rcases List.mem_append.mp hw with hw | hw
        · rw [← hstart] at hw
          apply Region.disjoint_of_stop_le
          have hstop := (g.mem_descriptor_place hw).2
          simp only
          omega
        · apply Region.disjoint_of_le_off
          have hoff := (g.mem_source_place hw).1
          simp only [Write.region, Region.stop]
          omega
      · omega
      · omega

/-- On a payload area that is clear, clearing before each write makes no difference. -/
theorem Format.Clears.fill (h : f.Clears g reqs) (hpos : 1 ≤ reqs.length)
    (hlen : reqs.length ≤ 16) (hfits : f.trueTotal reqs ≤ slotStride) {b : Buffer n}
    (hzero : b.ZeroOn payloadArea) :
    Buffer.write (f.fill reqs) b = Buffer.write (g.fill reqs) b := by
  obtain ⟨hreq, hstride, harea⟩ := h.geometry
  obtain ⟨k, hheader, hk⟩ := h.header reqs.length
  obtain ⟨hstart, hend⟩ := Format.dataAreaStart_toNat (f := f) hpos hlen
  have hsmall := f.area_small
  have hmul : reqs.length * f.stride ≤ 16 * f.stride := Nat.mul_le_mul_right _ hlen
  have hzero_req : f.reqStart 0 = f.req0Start := by rw [Format.reqStart, Nat.zero_mul, Nat.add_zero]
  have htotal : f.trueTotal reqs = _ := f.trueTotal_eq
  have hsame : g.dataAreaStart reqs.length = f.dataAreaStart reqs.length := by
    rw [Format.dataAreaStart, Format.dataAreaStart, harea, hstride]
  have hclear : Buffer.write [⟨payloadStart, List.replicate k 0⟩] b = b := by
    refine Buffer.write_zeros (hzero.mono le_rfl ?_)
    simp only [Region.stop, payloadArea, payloadStart, slotStride] at hk ⊢
    omega
  have hcons : f.header reqs.length =
      [⟨payloadStart, List.replicate k 0⟩] ++ g.header reqs.length := hheader
  rw [Format.fill, Format.fill, hcons, hsame, Buffer.write_append, Buffer.write_append, hclear,
    Buffer.write_append]
  refine h.fillRequests (.write (hzero.mono ?_ ?_) fun w hw => ?_) ?_ ?_
  · simp only [payloadArea, hzero_req]
    omega
  · simp only [Region.stop, payloadArea, payloadStart, slotStride, hzero_req]
    omega
  · have hstop := g.header_within _ w hw
    exact Region.disjoint_of_stop_le (by rw [hzero_req, hreq]; exact hstop)
  · omega
  · simp only [slotStride] at hfits
    omega

end Clears

section Members

variable {reqs : List TagRequest}

/-- What a write request with all its data puts into the data area. -/
def fullSource (r : TagRequest) : Option (List UInt8) :=
  if r.action = actionWrite ∧ 0 < (r.data.getD []).length then r.data else none

theorem cSource_eq {r : TagRequest} (h : r.Full) : cSource r = fullSource r := by
  obtain ⟨data, hdata, hlen⟩ := h
  rw [← r.nbytes_toNat] at hlen
  simp only [cSource, fullSource, hdata, nbytes_pos hlen, Option.getD_some, Option.map_some,
    memcpyData_eq hlen]

theorem goSource_eq {r : TagRequest} (h : r.Full) : goSource r = fullSource r := by
  obtain ⟨data, hdata, hlen⟩ := h
  rw [← r.nbytes_toNat] at hlen
  have hcount : (goCount r data).toNat = data.length := by
    rw [goCount, hlen, UInt32.ofNat_toNat, ite_self]
  simp only [goSource, fullSource, hdata, nbytes_pos hlen, Option.getD_some, and_self, hcount,
    List.take_length]

theorem pySource_eq {r : TagRequest} (h : r.Full) : pySource r = fullSource r := by
  obtain ⟨data, hdata, hlen⟩ := h
  simp only [pySource, fullSource, hdata, ← hlen, Option.getD_some, and_self, Nat.min_self,
    List.take_length]

theorem cAccess_clears (path : List UInt8) (hfull : ∀ r ∈ reqs, r.Full) :
    (cAccess path).Clears (goAccess path) reqs where
  geometry := ⟨rfl, rfl, rfl⟩
  header := fun _ => ⟨256, rfl, le_of_eq_of_le rfl (show 0x178 ≤ 0x180 by decide)⟩
  descriptor := fun _ => rfl
  source := fun r hr => (cSource_eq (hfull r hr)).trans (goSource_eq (hfull r hr)).symm

theorem cAccessDb_clears (handle : UInt32) (hfull : ∀ r ∈ reqs, r.Full) :
    (cAccessDb handle).Clears (goAccessDb handle) reqs where
  geometry := ⟨rfl, rfl, rfl⟩
  header := fun _ => ⟨0x88 - payloadStart, rfl, le_refl 0x88⟩
  descriptor := fun _ => rfl
  source := fun r hr => (cSource_eq (hfull r hr)).trans (goSource_eq (hfull r hr)).symm

/-- Python writes what Go writes, in pieces of its own. -/
theorem pyAccess_same (path : TagPath) (hfull : ∀ r ∈ reqs, r.Full) :
    (pyAccess path).SameWrites (goAccess path.bytes) reqs where
  geometry := ⟨rfl, rfl, rfl⟩
  header := by
    intro n
    have hpath : name254 path.bytes = path.bytes := List.take_of_length_le path.length_le
    simp only [pyAccess, pyTagDataHeader, goAccess, hpath]
    exact .refl _
  descriptor := by
    intro r k
    have hcount := sameEffect_split (k + 0x104) (leBytes 2 r.action.toNat)
      (leBytes 2 r.elemCount.toNat) [⟨k + 0x108, [0]⟩, ⟨k + 0x110, leBytes 8 0⟩]
    have haction := sameEffect_split (k + 0x102) (leBytes 2 r.elemByteSize.toNat)
      (leBytes 2 r.action.toNat ++ leBytes 2 r.elemCount.toNat)
      [⟨k + 0x108, [0]⟩, ⟨k + 0x110, leBytes 8 0⟩]
    have hsize := sameEffect_split (k + 0x100) (leBytes 2 r.dataType.toNat)
      (leBytes 2 r.elemByteSize.toNat ++ (leBytes 2 r.action.toNat ++ leBytes 2 r.elemCount.toNat))
      [⟨k + 0x108, [0]⟩, ⟨k + 0x110, leBytes 8 0⟩]
    rw [leBytes_length, Nat.add_assoc] at hcount haction hsize
    exact .cons _ (hsize.trans (.cons _ (haction.trans (.cons _ hcount))))
  source := fun r hr => (pySource_eq (hfull r hr)).trans (goSource_eq (hfull r hr)).symm

theorem pyAccessDb_same (handle : UInt32) (hfull : ∀ r ∈ reqs, r.Full) :
    (pyAccessDb handle).SameWrites (goAccessDb handle) reqs where
  geometry := ⟨rfl, rfl, rfl⟩
  header := fun _ => .refl _
  descriptor := by
    intro r k
    have hcount := sameEffect_split (k + 0x108) (leBytes 4 r.elemByteSize.toNat)
      (leBytes 4 r.elemCount.toNat) []
    have hsize := sameEffect_split (k + 0x104) (leBytes 4 r.dataType.toNat)
      (leBytes 4 r.elemByteSize.toNat ++ leBytes 4 r.elemCount.toNat) []
    rw [leBytes_length, Nat.add_assoc] at hcount hsize
    exact .cons _ (.cons _ (hsize.trans (.cons _ hcount)))
  source := fun r hr => (pySource_eq (hfull r hr)).trans (goSource_eq (hfull r hr)).symm

end Members

/-- Requests that three calls make of the same bytes from the payload on,
whatever else is in the slots they are written to. -/
structure SameRequest (c go : CallSpec) (py : PyCallSpec) : Prop where
  payloadSize : c.payloadSize = go.payloadSize ∧ go.payloadSize.toNat = py.payloadSize
  payload : ∃ ws, py.fill = some ws ∧ ∀ s s' s'' : Slot.SlotBytes, s.ZeroOn payloadArea →
    s'.ZeroOn payloadArea → s''.ZeroOn payloadArea → ∀ i, payloadStart ≤ i.val →
      Buffer.write c.fill s i = Buffer.write go.fill s' i ∧
        Buffer.write go.fill s' i = Buffer.write ws s'' i

/-- Three calls that are accepted together and then write the same request. -/
structure Identical (total : Nat) (c go : Except AccessError CallSpec)
    (py : Except AccessError PyCallSpec) : Prop where
  accepted : total ≤ slotStride - 0x80 → ∃ cs gs ps, c = .ok cs ∧ go = .ok gs ∧ py = .ok ps ∧
    SameRequest cs gs ps
  refused : slotStride - 0x80 < total → c = .error .slotTooLarge ∧ go = .error .slotTooLarge ∧
    py = .error .slotTooLarge

section Calls

variable {c go py : Format} {reqs : List TagRequest}

theorem Format.trueTotal_congr {f g : Format}
    (h : f.req0Start = g.req0Start ∧ f.stride = g.stride ∧ f.dataArea0 = g.dataArea0) :
    f.trueTotal reqs = g.trueTotal reqs := by
  rw [Format.trueTotal, Format.trueTotal, h.2.1, h.2.2]

theorem Format.call_of_gt {f : Format} (hpos : 1 ≤ reqs.length) (hlen : reqs.length ≤ 16)
    (h : slotStride - 0x80 < f.trueTotal reqs) (hlt : f.trueTotal reqs < 2 ^ 32) :
    f.call reqs = .error .slotTooLarge := by
  have hguard : UInt32.ofNat (slotStride - 0x80) <
      f.dataAreaStart reqs.length + totalDataBytes reqs := by
    rw [UInt32.lt_iff_toNat_lt, Format.payloadSize_toNat hpos hlen, Nat.mod_eq_of_lt hlt]
    exact h
  unfold Format.call
  rw [if_neg (by omega), if_neg (by omega)]
  exact if_pos hguard

/-- Python's unbounded integers change nothing for a call that is accepted. -/
theorem Format.pyCall_of_le {f : Format} (hpos : 1 ≤ reqs.length) (hlen : reqs.length ≤ 16)
    (hascii : ∀ r ∈ reqs, r.asciiName) (h : f.trueTotal reqs ≤ slotStride - 0x80) :
    f.pyCall reqs = .ok ⟨f.trueTotal reqs, some (f.fill reqs), f.read reqs⟩ := by
  obtain ⟨hstart, hend⟩ := Format.dataAreaStart_toNat (f := f) hpos hlen
  have htotal : f.trueTotal reqs = _ := f.trueTotal_eq
  have hsum : (f.dataAreaStart reqs.length).toNat +
      (reqs.map fun r => r.nbytes.toNat).sum < 2 ^ 32 := by
    simp only [slotStride] at h
    omega
  have harea : f.dataArea0 + (reqs.length - 1) * f.stride = (f.dataAreaStart reqs.length).toNat :=
    hend.trans hstart.symm
  have hne : reqs ≠ [] := List.ne_nil_of_length_pos hpos
  have hall : (reqs.all fun r => r.asciiName) = true := List.all_eq_true.mpr hascii
  have hguard : ¬ slotStride - 0x80 < f.trueTotal reqs := Nat.not_lt_of_le h
  unfold Format.pyCall
  rw [if_neg hne, if_neg (by omega)]
  dsimp only
  rw [← Format.trueTotal, if_neg hguard, if_pos hall, harea, f.pyFillRequests_eq hsum,
    f.pyReadRequests_eq hsum]
  rfl

theorem Format.pyCall_of_gt {f : Format} (hpos : 1 ≤ reqs.length) (hlen : reqs.length ≤ 16)
    (h : slotStride - 0x80 < f.trueTotal reqs) : f.pyCall reqs = .error .slotTooLarge := by
  unfold Format.pyCall
  rw [if_neg (List.ne_nil_of_length_pos hpos), if_neg (by omega)]
  exact if_pos h

/-- Formats that clear and group their writes differently make the same request. -/
theorem identical_of (hclears : c.Clears go reqs) (hsame : py.SameWrites go reqs)
    (hpos : 1 ≤ reqs.length) (hlen : reqs.length ≤ 16) (hascii : ∀ r ∈ reqs, r.asciiName)
    (hfits : c.trueTotal reqs ≤ slotStride) :
    Identical (c.trueTotal reqs) (c.call reqs) (go.call reqs) (py.pyCall reqs) := by
  have hgo : c.trueTotal reqs = go.trueTotal reqs := Format.trueTotal_congr hclears.geometry
  have hpy : py.trueTotal reqs = go.trueTotal reqs := Format.trueTotal_congr hsame.geometry
  refine ⟨fun hle => ?_, fun hgt => ?_⟩
  · refine ⟨_, _, _, Format.call_of_le hpos hlen hle, Format.call_of_le hpos hlen (hgo ▸ hle),
      Format.pyCall_of_le hpos hlen hascii (hpy ▸ hgo ▸ hle), ⟨?_, ?_⟩, _, rfl, ?_⟩
    · obtain ⟨-, hstride, harea⟩ := hclears.geometry
      simp only [Format.dataAreaStart, hstride, harea]
    · have hlt : go.trueTotal reqs < 2 ^ 32 := by
        simp only [slotStride] at hfits
        omega
      rw [Format.payloadSize_toNat hpos hlen, Nat.mod_eq_of_lt hlt]
      exact hpy.symm
    · intro s s' s'' hs hs' hs'' i hi
      have hin : payloadArea.Contains i := by
        refine ⟨hi, ?_⟩
        have := i.isLt
        simp only [Region.stop, payloadArea, payloadStart, slotStride] at this ⊢
        omega
      constructor
      · rw [hclears.fill hpos hlen hfits hs]
        exact Buffer.write_congr ((hs i hin).trans (hs' i hin).symm)
      · rw [hsame.fill.write]
        exact Buffer.write_congr ((hs' i hin).trans (hs'' i hin).symm)
  · have hlt : c.trueTotal reqs < 2 ^ 32 := by
      simp only [slotStride] at hfits
      omega
    exact ⟨Format.call_of_gt hpos hlen hgt hlt, Format.call_of_gt hpos hlen (hgo ▸ hgt) (hgo ▸ hlt),
      Format.pyCall_of_gt hpos hlen (hpy ▸ hgo ▸ hgt)⟩

end Calls

/-- C, Go and Python make the same request of the same tags: through the path
and through the handle, the payload sizes and the bytes from the payload on are
equal. -/
theorem access_identical (path : TagPath) (handle : UInt32) (reqs : List TagRequest)
    (hpos : 1 ≤ reqs.length) (hlen : reqs.length ≤ 16) (hascii : ∀ r ∈ reqs, r.asciiName)
    (hfull : ∀ r ∈ reqs, r.Full) :
    ((cAccess path.bytes).trueTotal reqs ≤ slotStride →
      Identical ((cAccess path.bytes).trueTotal reqs) (bpTagdbAccess path.bytes reqs)
        (tagDBAccess path.bytes reqs) (tagDbAccessPy path reqs)) ∧
    ((cAccessDb handle).trueTotal reqs ≤ slotStride →
      Identical ((cAccessDb handle).trueTotal reqs) (bpTagdbAccessDb handle reqs)
        (tagDBAccessDb handle reqs) (tagDbAccessDbPy handle reqs)) :=
  ⟨identical_of (cAccess_clears path.bytes hfull) (pyAccess_same path hfull) hpos hlen hascii,
    identical_of (cAccessDb_clears handle hfull) (pyAccessDb_same handle hfull) hpos hlen hascii⟩

theorem access_identical_int :
    Identical ((cAccess [0x50]).trueTotal [dintRead, intWrite])
        (bpTagdbAccess [0x50] [dintRead, intWrite]) (tagDBAccess [0x50] [dintRead, intWrite])
        (tagDbAccessPy ⟨[0x50], by decide, by simp⟩ [dintRead, intWrite]) ∧
      Identical ((cAccessDb 7).trueTotal [dintRead, intWrite])
        (bpTagdbAccessDb 7 [dintRead, intWrite]) (tagDBAccessDb 7 [dintRead, intWrite])
        (tagDbAccessDbPy 7 [dintRead, intWrite]) := by
  have hfull : ∀ r ∈ [dintRead, intWrite], r.Full := by
    intro r hr
    rcases List.mem_pair.mp hr with rfl | rfl
    · exact ⟨[0, 0, 0, 0], rfl, rfl⟩
    · exact ⟨[1, 2], rfl, rfl⟩
  obtain ⟨hpath, hhandle⟩ := access_identical ⟨[0x50], by decide, by simp⟩ 7
    [dintRead, intWrite] (by decide) (by decide) (by decide) hfull
  exact ⟨hpath (by decide), hhandle (by decide)⟩

end BpClient.Tag
