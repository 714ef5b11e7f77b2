import BpClient.Tag.Access

/-!
Where an access call that is not refused writes and reads: every byte range
lies in the slot and the data regions do not overlap, as long as the 32-bit sum
of the sizes does not wrap around to a small value.
-/

namespace BpClient.Tag

open BpClient.Lib

namespace Format

variable (f : Format) (reqs : List TagRequest)

def descriptorRegion (i : Nat) : Region := ⟨f.reqStart i, f.stride⟩

def regions : List Region := dataRegions (f.dataAreaStart reqs.length) reqs

/-- The payload size without 32-bit arithmetic. -/
def trueTotal : Nat :=
  f.dataArea0 + (reqs.length - 1) * f.stride +
    (reqs.map fun r => r.elemByteSize.toNat * r.elemCount.toNat).sum

/-- Every range the callbacks touch lies in the slot, the data regions overlap
neither each other nor the descriptors, and the size in the header is the true
one. -/
structure Bounded (spec : CallSpec) : Prop where
  fill : ∀ w ∈ spec.fill, w.region.Within slotStride
  read : ∀ p ∈ spec.read, p.1.Within slotStride ∧ ∀ t ∈ p.2, t.Within slotStride
  regions : ∀ t ∈ f.regions reqs, t.Within slotStride
  pairwise : (f.regions reqs).Pairwise Region.Disjoint
  descriptors : ∀ t ∈ f.regions reqs, ∀ i < reqs.length, t.Disjoint (f.descriptorRegion i)
  payloadSize : spec.payloadSize.toNat = f.trueTotal reqs

/-- The 32-bit sum does not wrap, or what is left of it is still too large. -/
def SumFits : Prop := f.trueTotal reqs < 2 ^ 32 ∨ slotStride - 0x80 < f.trueTotal reqs % 2 ^ 32

instance : Decidable (f.SumFits reqs) := inferInstanceAs (Decidable (_ ∨ _))

theorem reqStart_succ (i : Nat) : f.reqStart (i + 1) = f.reqStart i + f.stride := by
  rw [reqStart, reqStart, Nat.succ_mul, Nat.add_assoc]

/-- A descriptor is written within its stride. -/
theorem mem_descriptor_place {i : Nat} {r : TagRequest} {w : Write}
    (hw : w ∈ (f.descriptor r).map (Write.shift (f.reqStart i))) :
    f.reqStart i ≤ w.off ∧ w.region.stop ≤ f.reqStart i + f.stride := by
  obtain ⟨v, hv, rfl⟩ := List.mem_map.mp hw
  have hstop := f.descriptor_within r v hv
  simp only [Write.region, Write.shift, Region.stop] at hstop ⊢
  omega

/-- The data of a request is written within its region. -/
theorem mem_source_place {dataOff : Nat} {r : TagRequest} {w : Write}
    (hw : w ∈ (f.source r).toList.map fun bytes => (⟨dataOff, bytes⟩ : Write)) :
    w.off = dataOff ∧ w.region.stop ≤ dataOff + r.nbytes.toNat := by
  obtain ⟨bytes, hbytes, rfl⟩ := List.mem_map.mp hw
  have hlen := f.source_length r bytes (Option.mem_toList.mp hbytes)
  exact ⟨rfl, Nat.add_le_add_left hlen dataOff⟩

theorem mem_fillRequests {i : Nat} {dataOff : UInt32} {w : Write}
    (h : w ∈ f.fillRequests i dataOff reqs) :
    (∃ j, i ≤ j ∧ j < i + reqs.length ∧ w.region.stop ≤ (f.descriptorRegion j).stop) ∨
      ∃ t ∈ dataRegions dataOff reqs, w.region.stop ≤ t.stop := by
  induction reqs generalizing i dataOff with
  | nil => cases h
  | cons r rs ih =>
      rw [fillRequests, List.mem_append, List.mem_append] at h
      rcases h with (h | h) | h
      · exact .inl ⟨i, le_rfl, by simp, (f.mem_descriptor_place h).2⟩
      · exact .inr ⟨_, List.mem_cons_self, (f.mem_source_place h).2⟩
      · rcases ih h with ⟨j, hij, hj, hstop⟩ | ⟨t, ht, hstop⟩
        · exact .inl ⟨j, by omega, by simp only [List.length_cons]; omega, hstop⟩
        · exact .inr ⟨t, List.mem_cons_of_mem _ ht, hstop⟩

/-- A read callback reads in the descriptors and in the data regions only. -/
theorem mem_readRequests {i : Nat} {dataOff : UInt32} {p : Region × Option Region}
    (h : p ∈ f.readRequests i dataOff reqs) :
    (∃ j, i ≤ j ∧ j < i + reqs.length ∧ p.1.stop ≤ (f.descriptorRegion j).stop) ∧
      ∀ u ∈ p.2, ∃ t ∈ dataRegions dataOff reqs, u.stop ≤ t.stop := by
  induction reqs generalizing i dataOff with
  | nil => cases h
  | cons r rs ih =>
      rcases List.mem_cons.mp h with rfl | h
      · constructor
        · have hres := f.result_within
          refine ⟨i, le_rfl, by simp, ?_⟩
          simp only [descriptorRegion, Region.stop]
          omega
        · intro u hu
          obtain ⟨n, hn, rfl⟩ := Option.map_eq_some_iff.mp hu
          refine ⟨_, List.mem_cons_self, ?_⟩
          simpa only [Region.stop] using Nat.add_le_add_left (f.sink_le r n hn) _
      · obtain ⟨⟨j, hij, hj, hstop⟩, hdata⟩ := ih h
        refine ⟨⟨j, by omega, by simp only [List.length_cons]; omega, hstop⟩, fun u hu => ?_⟩
        obtain ⟨t, ht, hstop⟩ := hdata u hu
        exact ⟨t, List.mem_cons_of_mem _ ht, hstop⟩

end Format

/-- The running offset while it does not wrap. -/
theorem dataOff_add {dataOff : UInt32} {r : TagRequest}
    (h : dataOff.toNat + r.nbytes.toNat < 2 ^ 32) : (dataOff + r.nbytes).toNat =
      dataOff.toNat + r.elemByteSize.toNat * r.elemCount.toNat := by
  rw [UInt32.toNat_add, Nat.mod_eq_of_lt h, r.nbytes_toNat]

/-- While the running offset does not wrap, the regions lie one after the
other. -/
theorem dataRegions_eq_layOut {dataOff : UInt32} {reqs : List TagRequest}
    (h : dataOff.toNat + (reqs.map fun r => r.nbytes.toNat).sum < 2 ^ 32) :
    dataRegions dataOff reqs = layOut dataOff.toNat (reqs.map fun r => r.nbytes.toNat) := by
  induction reqs generalizing dataOff with
  | nil => rfl
  | cons r rs ih =>
      simp only [List.map_cons, List.sum_cons] at h
      have hadd := dataOff_add (show dataOff.toNat + r.nbytes.toNat < 2 ^ 32 by omega)
      rw [← r.nbytes_toNat] at hadd
      simp only [dataRegions, List.map_cons, layOut]
      rw [ih (by omega), hadd]

theorem totalDataBytes_toNat (reqs : List TagRequest) :
    (totalDataBytes reqs).toNat = (reqs.map fun r => r.nbytes.toNat).sum % 2 ^ 32 := by
  have key : ∀ total : UInt32, (reqs.foldl (fun t r => t + r.nbytes) total).toNat =
      (total.toNat + (reqs.map fun r => r.nbytes.toNat).sum) % 2 ^ 32 := by
    induction reqs with
    | nil =>
        intro total
        exact (Nat.mod_eq_of_lt total.toNat_lt).symm
    | cons r rs ih =>
        intro total
        rw [List.foldl_cons, ih, UInt32.toNat_add, Nat.mod_add_mod, List.map_cons, List.sum_cons,
          Nat.add_assoc]
  have := key 0
  rwa [UInt32.toNat_zero, Nat.zero_add] at this

namespace Format

variable {f : Format} {reqs : List TagRequest}

theorem trueTotal_eq : f.trueTotal reqs =
    f.dataArea0 + (reqs.length - 1) * f.stride + (reqs.map fun r => r.nbytes.toNat).sum := by
  simp only [trueTotal, TagRequest.nbytes_toNat]

/-- The data area starts where the descriptors end. -/
theorem dataAreaStart_toNat (hpos : 1 ≤ reqs.length) (hlen : reqs.length ≤ 16) :
    (f.dataAreaStart reqs.length).toNat = f.req0Start + reqs.length * f.stride ∧
      f.dataArea0 + (reqs.length - 1) * f.stride = f.req0Start + reqs.length * f.stride := by
  have harea := f.dataArea0_eq
  have hsmall := f.area_small
  have hmul : reqs.length * f.stride ≤ 16 * f.stride := Nat.mul_le_mul_right _ hlen
  have hsub : (reqs.length - 1) * f.stride + f.stride = reqs.length * f.stride := by
    rw [← Nat.succ_mul, Nat.succ_eq_add_one, Nat.sub_add_cancel hpos]
  refine ⟨?_, by omega⟩
  rw [dataAreaStart, UInt32.toNat_ofNat_of_lt' (by simp only [UInt32.size]; omega)]
  omega

theorem payloadSize_toNat (hpos : 1 ≤ reqs.length) (hlen : reqs.length ≤ 16) :
    (f.dataAreaStart reqs.length + totalDataBytes reqs).toNat = f.trueTotal reqs % 2 ^ 32 := by
  obtain ⟨hstart, harea⟩ := dataAreaStart_toNat (f := f) hpos hlen
  rw [UInt32.toNat_add, totalDataBytes_toNat, Nat.add_mod_mod, trueTotal_eq, harea, hstart]

/-- What an accepted call returns. -/
theorem call_ok (hpos : 1 ≤ reqs.length) (hlen : reqs.length ≤ 16) {spec : CallSpec} :
    f.call reqs = .ok spec ↔ f.trueTotal reqs % 2 ^ 32 ≤ slotStride - 0x80 ∧
      spec = ⟨f.dataAreaStart reqs.length + totalDataBytes reqs, f.fill reqs, f.read reqs⟩ := by
  have hguard : UInt32.ofNat (slotStride - 0x80) <
      f.dataAreaStart reqs.length + totalDataBytes reqs ↔
      slotStride - 0x80 < f.trueTotal reqs % 2 ^ 32 := by
    rw [UInt32.lt_iff_toNat_lt, payloadSize_toNat hpos hlen]
    rfl
  unfold call
  rw [if_neg (by omega), if_neg (by omega)]
  dsimp only
  split
  · next h =>
      have := hguard.mp h
      simp only [reduceCtorEq, false_iff, not_and]
      omega
  · next h =>
      have := hguard.not.mp h
      simp only [Except.ok.injEq]
      constructor
      · rintro rfl
        exact ⟨by omega, rfl⟩
      · rintro ⟨-, rfl⟩
        rfl

theorem call_of_le (hpos : 1 ≤ reqs.length) (hlen : reqs.length ≤ 16)
    (h : f.trueTotal reqs ≤ slotStride - 0x80) : f.call reqs =
      .ok ⟨f.dataAreaStart reqs.length + totalDataBytes reqs, f.fill reqs, f.read reqs⟩ := by
  refine (call_ok hpos hlen).mpr ⟨?_, rfl⟩
  exact (Nat.mod_le _ _).trans h

/-- A call whose true size fits is laid out within the slot. -/
theorem bounded_of_trueTotal_le (hpos : 1 ≤ reqs.length) (hlen : reqs.length ≤ 16)
    (hfits : f.trueTotal reqs ≤ slotStride - 0x80) :
    f.Bounded reqs
      ⟨f.dataAreaStart reqs.length + totalDataBytes reqs, f.fill reqs, f.read reqs⟩ := by
  obtain ⟨hstart, harea⟩ := dataAreaStart_toNat (f := f) hpos hlen
  have hsmall := f.area_small
  have htotal : f.trueTotal reqs =
      (f.dataAreaStart reqs.length).toNat + (reqs.map fun r => r.nbytes.toNat).sum := by
    rw [trueTotal_eq, harea, hstart]
  have hlt : f.trueTotal reqs < 2 ^ 32 := by
    simp only [slotStride] at hfits
    omega
  have hlayout : f.regions reqs = layOut (f.dataAreaStart reqs.length).toNat
      (reqs.map fun r => r.nbytes.toNat) := dataRegions_eq_layOut (by omega)
  have hregion : ∀ t ∈ f.regions reqs,
      (f.dataAreaStart reqs.length).toNat ≤ t.off ∧ t.stop ≤ slotStride - 0x80 := by
    intro t ht
    have := mem_layOut (hlayout ▸ ht)
    omega
  have hdescriptor : ∀ i < reqs.length,
      (f.descriptorRegion i).stop ≤ (f.dataAreaStart reqs.length).toNat := by
    intro i hi
    have hmul : (i + 1) * f.stride ≤ reqs.length * f.stride := Nat.mul_le_mul_right _ hi
    rw [Nat.succ_mul] at hmul
    simp only [descriptorRegion, Region.stop, reqStart]
    omega
  have harea_within : (f.dataAreaStart reqs.length).toNat ≤ slotStride := by
    have hmul : reqs.length * f.stride ≤ 16 * f.stride := Nat.mul_le_mul_right _ hlen
    simp only [slotStride]
    omega
  refine ⟨?_, ?_, ?_, ?_, ?_, ?_⟩
  · intro w hw
    simp only [Region.Within]
    rcases List.mem_append.mp hw with hw | hw
    · have := f.header_within _ w hw
      omega
    · rcases f.mem_fillRequests reqs hw with ⟨j, -, hj, hstop⟩ | ⟨t, ht, hstop⟩
      · have := hdescriptor j (by omega)
        omega
      · have := hregion t ht
        omega
  · intro p hp
    obtain ⟨⟨j, -, hj, hstop⟩, hdata⟩ := f.mem_readRequests reqs hp
    refine ⟨?_, fun u hu => ?_⟩
    · have := hdescriptor j (by omega)
      simp only [Region.Within]
      omega
    · obtain ⟨t, ht, hstop⟩ := hdata u hu
      have := hregion t ht
      simp only [Region.Within]
      omega
  · intro t ht
    have := hregion t ht
    simp only [Region.Within]
    omega
  · rw [hlayout]
    exact layOut_pairwise _ _
  · intro t ht i hi
    apply Region.disjoint_of_le_off
    exact (hdescriptor i hi).trans (hregion t ht).1
  · rw [payloadSize_toNat hpos hlen]
    exact Nat.mod_eq_of_lt hlt

theorem bounded_iff (hpos : 1 ≤ reqs.length) (hlen : reqs.length ≤ 16) :
    (∀ spec, f.call reqs = .ok spec → f.Bounded reqs spec) ↔ f.SumFits reqs := by
  constructor
  · intro h
    by_contra hwraps
    simp only [SumFits, not_or, Nat.not_lt] at hwraps
    have hbounded := h _ ((call_ok hpos hlen).mpr ⟨hwraps.2, rfl⟩)
    have hsize : (f.dataAreaStart reqs.length + totalDataBytes reqs).toNat = f.trueTotal reqs :=
      hbounded.payloadSize
    have := (f.dataAreaStart reqs.length + totalDataBytes reqs).toNat_lt
    omega
  · rintro hsum spec hspec
    obtain ⟨hle, rfl⟩ := (call_ok hpos hlen).mp hspec
    refine bounded_of_trueTotal_le hpos hlen ?_
    rcases hsum with hlt | hlarge
    · rwa [Nat.mod_eq_of_lt hlt] at hle
    · omega

end Format

/-- For C and Go and both opcodes: a call that is not refused stays in its slot
exactly when the 32-bit sum of the sizes has not wrapped to a small value. -/
theorem access_bounded_iff (path : List UInt8) (handle : UInt32) (reqs : List TagRequest)
    (hpos : 1 ≤ reqs.length) (hlen : reqs.length ≤ 16) :
    ((∀ spec, bpTagdbAccess path reqs = .ok spec → (cAccess path).Bounded reqs spec) ↔
        (cAccess path).SumFits reqs) ∧
      ((∀ spec, tagDBAccess path reqs = .ok spec → (goAccess path).Bounded reqs spec) ↔
        (goAccess path).SumFits reqs) ∧
      ((∀ spec, bpTagdbAccessDb handle reqs = .ok spec →
          (cAccessDb handle).Bounded reqs spec) ↔ (cAccessDb handle).SumFits reqs) ∧
      ((∀ spec, tagDBAccessDb handle reqs = .ok spec →
          (goAccessDb handle).Bounded reqs spec) ↔ (goAccessDb handle).SumFits reqs) :=
  ⟨Format.bounded_iff hpos hlen, Format.bounded_iff hpos hlen, Format.bounded_iff hpos hlen,
    Format.bounded_iff hpos hlen⟩

def dintRead : TagRequest := ⟨[0x78], 0xC4, 4, actionRead, 1, some [0, 0, 0, 0]⟩

/-- A write of the two bytes `01 02` to `x`. -/
def intWrite : TagRequest := ⟨[0x78], 0xC3, 2, actionWrite, 1, some [1, 2]⟩

/-- None of three calls is refused: two read one tag and write another, the third one reads
sixteen. -/
theorem access_bounded_mixed :
    (∃ spec, bpTagdbAccess [0x50] [dintRead, intWrite] = .ok spec ∧
        (cAccess [0x50]).Bounded [dintRead, intWrite] spec) ∧
      (∃ spec, tagDBAccessDb 1 [intWrite, dintRead] = .ok spec ∧
        (goAccessDb 1).Bounded [intWrite, dintRead] spec) ∧
      ∃ spec, bpTagdbAccess [0x50] (List.replicate 16 dintRead) = .ok spec ∧
        (cAccess [0x50]).Bounded (List.replicate 16 dintRead) spec := by
  obtain ⟨hc, -, -, -⟩ :=
    access_bounded_iff [0x50] 1 [dintRead, intWrite] (by decide) (by decide)
  obtain ⟨-, -, -, hgo⟩ := access_bounded_iff [] 1 [intWrite, dintRead] (by decide) (by decide)
  obtain ⟨hall, -, -, -⟩ :=
    access_bounded_iff [0x50] 1 (List.replicate 16 dintRead) (by decide) (by decide)
  exact ⟨⟨_, rfl, hc.mpr (by decide) _ rfl⟩, ⟨_, rfl, hgo.mpr (by decide) _ rfl⟩,
    ⟨_, rfl, hall.mpr (by decide) _ rfl⟩⟩

/-- A read of `0x8000 * 0x8000` bytes, a quarter of `2 ^ 32`. -/
def quarterRead : TagRequest := ⟨[0x78], 0xC2, 0x8000, actionRead, 0x8000, some []⟩

/-- Four such reads have the wrapped size 0x600 and are not refused; the second
one copies from a gigabyte behind the slot. -/
theorem access_unbounded_on_wrap :
    ∃ spec, bpTagdbAccess [] (List.replicate 4 quarterRead) = .ok spec ∧
      spec.payloadSize = 0x600 ∧
      (⟨0x40000600, 0x40000000⟩ : Region) ∈ (cAccess []).regions (List.replicate 4 quarterRead) ∧
      ¬ (cAccess []).Bounded (List.replicate 4 quarterRead) spec := by
  refine ⟨_, (Format.call_ok (by decide) (by decide)).mpr ⟨by decide, rfl⟩, by decide, by decide, ?_⟩
  intro hbounded
  have hsize := hbounded.payloadSize
  revert hsize
  decide

end BpClient.Tag
