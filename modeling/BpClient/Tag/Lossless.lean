import BpClient.Tag.Identity
import BpClient.Tag.RoundTrip

/-!
What becomes of tag names and of data that do not fit: the six encoders cut a
name off at 254 bytes and copy as much data as there is into a cleared region.
A batch arrives as it was given exactly when nothing in it needs that.
-/

namespace BpClient.Tag

open BpClient.Lib
open BpClient.Slot (SlotBytes)

abbrev TagRequest.dataSize (r : TagRequest) : Nat := r.elemByteSize.toNat * r.elemCount.toNat

theorem TagRequest.nbytes_eq (r : TagRequest) : r.nbytes.toNat = r.dataSize := r.nbytes_toNat

/-- The requests from request `i` on are found in a slot: the names, and for
each write a region of the declared size with the caller's data. -/
def Layout.Holds (l : Layout) (b : SlotBytes) (data : TagRequest → List UInt8) :
    Nat → Nat → List TagRequest → Prop
  | _, _, [] => True
  | i, dataOff, r :: rs =>
      cString (b.read (l.reqStart i + l.tagName.off) l.tagName.len) = r.tagName ∧
      (r.action = actionWrite →
        (0 < r.dataSize → (⟨dataOff, r.dataSize⟩ : Region).Within slotStride) ∧
          b.read dataOff r.dataSize = data r) ∧
      Layout.Holds l b data (i + 1) (dataOff + r.dataSize) rs

/-- A slot carries a batch as it was given. -/
structure Layout.Carries (l : Layout) (b : SlotBytes) (data : TagRequest → List UInt8)
    (reqs : List TagRequest) : Prop where
  count : Layout.number b 0 l.count = reqs.length
  requests : l.Holds b data 0 (l.reqStart reqs.length) reqs

/-- The region of each write that has one lies in the slot. -/
def Placed : Nat → List TagRequest → Prop
  | _, [] => True
  | dataOff, r :: rs =>
      (r.action = actionWrite → 0 < r.dataSize →
        (⟨dataOff, r.dataSize⟩ : Region).Within slotStride) ∧
      Placed (dataOff + r.dataSize) rs

instance Placed.decidable : ∀ dataOff reqs, Decidable (Placed dataOff reqs)
  | _, [] => inferInstanceAs (Decidable True)
  | dataOff, r :: rs =>
      have := Placed.decidable (dataOff + r.dataSize) rs
      inferInstanceAs (Decidable ((r.action = actionWrite → 0 < r.dataSize →
        dataOff + r.dataSize ≤ slotStride) ∧ Placed (dataOff + r.dataSize) rs))

/-- What an encoder leaves in the region of a write that was clear. -/
def Format.sent (f : Format) (r : TagRequest) : List UInt8 :=
  (f.source r).getD [] ++ zeros (r.dataSize - ((f.source r).getD []).length)

/-- A format that has the count and the names where the documentation has them,
and that copies data for writes only. -/
structure Encodes (f : Format) (l : Layout) : Prop where
  req0Start : f.req0Start = l.req0Start
  stride : f.stride = l.stride
  payload : payloadStart ≤ f.req0Start
  source : ∀ r bytes, f.source r = some bytes → r.action = actionWrite ∧ 0 < r.dataSize
  count : ∀ n < 2 ^ 16, ∀ b : SlotBytes, Layout.number (Buffer.write (f.header n) b) 0 l.count = n
  count_within : l.count.stop ≤ l.req0Start
  tagName : ∀ (r : TagRequest) (b : SlotBytes) base, base + f.stride ≤ slotStride →
    b.ZeroOn ⟨base, f.stride⟩ →
    cString ((Buffer.write ((f.descriptor r).map (Write.shift base)) b).read
      (base + l.tagName.off) l.tagName.len) = cString (name254 r.tagName)

section Strings

variable {s : List UInt8}

theorem cString_append_replicate (s : List UInt8) (k : Nat) :
    cString (s ++ List.replicate k 0) = cString s := by
  induction s with
  | nil => cases k <;> simp [cString, List.replicate_succ]
  | cons c s ih =>
      unfold cString at ih ⊢
      rw [List.cons_append, List.takeWhile_cons, List.takeWhile_cons, ih]

/-- A name survives the cut and the terminator. -/
theorem cString_name254_iff : cString (name254 s) = s ↔ s.length ≤ 254 ∧ 0 ∉ s := by
  constructor
  · intro h
    constructor
    · have hle : (cString (name254 s)).length ≤ (name254 s).length :=
        (List.takeWhile_prefix _).length_le
      rw [h] at hle
      exact hle.trans (name254_length s)
    · intro hzero
      rw [← h] at hzero
      have hne := List.all_eq_true.mp List.all_takeWhile 0 hzero
      exact absurd rfl (of_decide_eq_true hne)
  · rintro ⟨hle, hzero⟩
    have hname : name254 s = s := List.take_of_length_le hle
    have hstring := cString_append_zeros hzero 0
    rw [List.replicate_zero, List.append_nil] at hstring
    rw [hname, hstring]

end Strings

section Regions

variable {b : SlotBytes} {off len : Nat}

theorem read_of_zeroOn (h : b.ZeroOn ⟨off, len⟩) : b.read off len = zeros len := by
  apply List.ext_getElem
  · rw [Buffer.read_length, zeros_length]
  · intro k hk hk'
    have hlt : k < len := by simpa using hk'
    have hget : b.get (off + k) = 0 := by
      unfold Buffer.get
      split
      · exact h _ ⟨Nat.le_add_right off k, Nat.add_lt_add_left hlt off⟩
      · rfl
    have hzero : (zeros len)[k] = 0 := List.getElem_replicate _
    rw [Buffer.read_getElem, hget, hzero]

/-- Bytes copied to the beginning of a clear region. -/
theorem read_write_clear {bytes : List UInt8} (h : b.ZeroOn ⟨off, len⟩) (hlen : bytes.length ≤ len)
    (hin : off + len ≤ slotStride) :
    (Buffer.write [⟨off, bytes⟩] b).read off len = bytes ++ zeros (len - bytes.length) := by
  obtain ⟨m, rfl⟩ := Nat.exists_eq_add_of_le hlen
  have hfront := Buffer.read_write [] [] bytes b (by simp)
    (show off + bytes.length ≤ slotStride by omega)
  have hback : ∀ w ∈ ([⟨off, bytes⟩] : List Write), w.region.Disjoint ⟨off + bytes.length, m⟩ := by
    intro w hw
    rw [List.mem_singleton] at hw
    subst hw
    exact Region.disjoint_of_stop_le (le_refl (off + bytes.length))
  have hrest : b.ZeroOn ⟨off + bytes.length, m⟩ :=
    h.mono (Nat.le_add_right _ _) (by simp only [Region.stop]; omega)
  rw [Buffer.read_add, Buffer.read_write_of_disjoint b hback, read_of_zeroOn hrest,
    Nat.add_sub_cancel_left]
  exact congrArg (· ++ zeros m) hfront

end Regions

section Fill

variable {f : Format} {l : Layout} {reqs : List TagRequest} {i : Nat}

/-- While the writes that have data stay in the slot, the offset of none of them
has wrapped. -/
theorem Encodes.fillRequests_eq (he : Encodes f l) {d : UInt32} {dataOff : Nat}
    (hoff : d.toNat = dataOff % 2 ^ 32) (h : Placed dataOff reqs) :
    f.fillRequests i d reqs = f.pyFillRequests i dataOff reqs := by
  induction reqs generalizing i d dataOff with
  | nil => rfl
  | cons r rs ih =>
      obtain ⟨hfirst, hrest⟩ := h
      have hdata : (f.source r).toList.map (fun bytes => (⟨d.toNat, bytes⟩ : Write)) =
          (f.source r).toList.map fun bytes => ⟨dataOff, bytes⟩ := by
        cases hsource : f.source r with
        | none => rfl
        | some bytes =>
            obtain ⟨hwrite, hpos⟩ := he.source r bytes hsource
            have hin := hfirst hwrite hpos
            simp only [Region.Within, Region.stop, slotStride] at hin
            have heq : d.toNat = dataOff := by omega
            rw [heq]
      have hnext : (d + r.nbytes).toNat = (dataOff + r.dataSize) % 2 ^ 32 := by
        rw [UInt32.toNat_add, r.nbytes_toNat, hoff, Nat.mod_add_mod]
      rw [Format.fillRequests, Format.pyFillRequests, hdata, ih hnext hrest]

theorem mem_source_dataSize {r : TagRequest} {dataOff : Nat} {w : Write}
    (hw : w ∈ (f.source r).toList.map fun bytes => (⟨dataOff, bytes⟩ : Write)) :
    w.off = dataOff ∧ w.region.stop ≤ dataOff + r.dataSize := by
  rw [← r.nbytes_eq]
  exact f.mem_source_place hw

theorem mem_pyFillRequests_place {w : Write} {dataOff : Nat}
    (hw : w ∈ f.pyFillRequests i dataOff reqs) :
    (f.reqStart i ≤ w.off ∧ w.region.stop ≤ f.reqStart i + reqs.length * f.stride) ∨
      dataOff ≤ w.off := by
  induction reqs generalizing i dataOff with
  | nil => cases hw
  | cons r rs ih =>
      have hnext := f.reqStart_succ i
      simp only [List.length_cons, Nat.succ_mul]
      rw [Format.pyFillRequests, List.mem_append, List.mem_append] at hw
      rcases hw with (hw | hw) | hw
      · left
        obtain ⟨hlo, hhi⟩ := f.mem_descriptor_place hw
        omega
      · exact .inr (mem_source_dataSize hw).1.ge
      · rcases ih hw with ⟨hlo, hhi⟩ | hlo
        · left
          omega
        · right
          omega

theorem Layout.Holds.placed {b : SlotBytes} {data : TagRequest → List UInt8} {dataOff : Nat}
    (h : l.Holds b data i dataOff reqs) : Placed dataOff reqs := by
  induction reqs generalizing i dataOff with
  | nil => trivial
  | cons r rs ih => exact ⟨fun hwrite hpos => (h.2.1 hwrite).1 hpos, ih h.2.2⟩

/-- The region of a write has what is sent of its data. -/
theorem read_sent (he : Encodes f l) {r : TagRequest} {b : SlotBytes} {dataOff : Nat}
    (hclear : b.ZeroOn ⟨dataOff, r.dataSize⟩)
    (hin : 0 < r.dataSize → dataOff + r.dataSize ≤ slotStride) :
    (Buffer.write ((f.source r).toList.map fun bytes => ⟨dataOff, bytes⟩) b).read dataOff
      r.dataSize = f.sent r := by
  unfold Format.sent
  cases hsource : f.source r with
  | none =>
      rw [Option.getD_none, List.nil_append, List.length_nil, Nat.sub_zero]
      exact read_of_zeroOn hclear
  | some bytes =>
      have hlen := f.source_length r bytes hsource
      rw [r.nbytes_toNat] at hlen
      exact read_write_clear hclear hlen (hin (he.source r bytes hsource).2)

section Step

variable {r : TagRequest} {b : SlotBytes} {dataOff : Nat}

theorem write_pyFillRequests_cons (f : Format) (i dataOff : Nat) (r : TagRequest)
    (reqs : List TagRequest) (b : SlotBytes) :
    Buffer.write (f.pyFillRequests i dataOff (r :: reqs)) b =
      Buffer.write (f.pyFillRequests (i + 1) (dataOff + r.dataSize) reqs)
        (Buffer.write (f.requestWrites i dataOff r) b) := by
  rw [Format.pyFillRequests, Buffer.write_append]
  rfl

/-- The name of the first request: the rest is written behind its descriptor. -/
theorem Encodes.read_name (he : Encodes f l) (hclear : b.ZeroOn ⟨f.reqStart i, f.stride⟩)
    (harea : f.reqStart i + f.stride ≤ dataOff) (hin : f.reqStart i + f.stride ≤ slotStride) :
    cString ((Buffer.write (f.pyFillRequests i dataOff (r :: reqs)) b).read
      (l.reqStart i + l.tagName.off) l.tagName.len) = cString (name254 r.tagName) := by
  have hstart : l.reqStart i = f.reqStart i := by
    rw [Layout.reqStart, Format.reqStart, he.req0Start, he.stride]
  have hnext := f.reqStart_succ i
  have hwithin := l.within l.tagName (by simp)
  rw [← he.stride] at hwithin
  simp only [Region.stop] at hwithin
  rw [write_pyFillRequests_cons, Format.requestWrites, Buffer.write_append, hstart,
    Buffer.read_write_of_disjoint, Buffer.read_write_of_disjoint]
  · exact he.tagName r b _ hin hclear
  · intro w hw
    apply Region.disjoint_of_le_off
    have hoff := (mem_source_dataSize hw).1
    simp only [Region.stop, Write.region]
    omega
  · intro w hw
    apply Region.disjoint_of_before (mem_pyFillRequests_place hw)
    · simp only [Region.stop]
      omega
    · simp only [Region.stop]
      omega

/-- The region of the first request, if it is a write: the rest is written
behind it, or is a descriptor. -/
theorem Encodes.read_data (he : Encodes f l) (hclear : b.ZeroOn ⟨dataOff, slotStride - dataOff⟩)
    (harea : f.reqStart i + (r :: reqs).length * f.stride ≤ dataOff)
    (hin : 0 < r.dataSize → dataOff + r.dataSize ≤ slotStride) :
    (Buffer.write (f.pyFillRequests i dataOff (r :: reqs)) b).read dataOff r.dataSize =
      f.sent r := by
  have hnext := f.reqStart_succ i
  rw [List.length_cons, Nat.succ_mul] at harea
  rw [write_pyFillRequests_cons, Format.requestWrites, Buffer.write_append,
    Buffer.read_write_of_disjoint]
  · apply read_sent he _ hin
    intro k hk
    apply hclear.write
    · intro w hw
      exact Region.disjoint_of_stop_le ((f.mem_descriptor_place hw).2.trans (by simp only; omega))
    · have hlt := k.isLt
      simp only [Region.Contains, Region.stop] at hk ⊢
      omega
  · intro w hw
    apply Region.disjoint_of_between (mem_pyFillRequests_place hw)
    · simp only
      omega
    · exact le_rfl

/-- The descriptors of the requests after the first are still clear. -/
theorem zeroOn_descriptors
    (hclear : b.ZeroOn ⟨f.reqStart i, (r :: reqs).length * f.stride⟩)
    (harea : f.reqStart i + (r :: reqs).length * f.stride ≤ dataOff) :
    (Buffer.write (f.requestWrites i dataOff r) b).ZeroOn
      ⟨f.reqStart (i + 1), reqs.length * f.stride⟩ := by
  rw [List.length_cons, Nat.succ_mul] at hclear harea
  rw [f.reqStart_succ]
  have hsub : b.ZeroOn ⟨f.reqStart i + f.stride, reqs.length * f.stride⟩ :=
    hclear.mono (Nat.le_add_right _ _) (by simp only [Region.stop]; omega)
  apply hsub.write
  intro w hw
  rcases List.mem_append.mp hw with hw | hw
  · exact Region.disjoint_of_stop_le (f.mem_descriptor_place hw).2
  · apply Region.disjoint_of_le_off
    have hoff := (mem_source_dataSize hw).1
    simp only [Region.stop, Write.region]
    omega

/-- So is what lies behind the data of the first. -/
theorem zeroOn_data (hclear : b.ZeroOn ⟨dataOff, slotStride - dataOff⟩)
    (harea : f.reqStart i + f.stride ≤ dataOff) :
    (Buffer.write (f.requestWrites i dataOff r) b).ZeroOn
      ⟨dataOff + r.dataSize, slotStride - (dataOff + r.dataSize)⟩ := by
  have hsub : b.ZeroOn ⟨dataOff + r.dataSize, slotStride - (dataOff + r.dataSize)⟩ := by
    intro k hk
    apply hclear k
    have hlt := k.isLt
    simp only [Region.Contains, Region.stop] at hk ⊢
    omega
  apply hsub.write
  intro w hw
  apply Region.disjoint_of_stop_le
  rcases List.mem_append.mp hw with hw | hw
  · have hstop := (f.mem_descriptor_place hw).2
    simp only
    omega
  · exact (mem_source_dataSize hw).2

end Step

/-- The requests are found again exactly when no name and no data has been
altered. -/
theorem Encodes.holds_iff (he : Encodes f l) (data : TagRequest → List UInt8) {dataOff : Nat}
    {b : SlotBytes} (hdesc : b.ZeroOn ⟨f.reqStart i, reqs.length * f.stride⟩)
    (hdata : b.ZeroOn ⟨dataOff, slotStride - dataOff⟩)
    (harea : f.reqStart i + reqs.length * f.stride ≤ dataOff)
    (hin : f.reqStart i + reqs.length * f.stride ≤ slotStride) (hplaced : Placed dataOff reqs) :
    l.Holds (Buffer.write (f.pyFillRequests i dataOff reqs) b) data i dataOff reqs ↔
      ∀ r ∈ reqs, cString (name254 r.tagName) = r.tagName ∧
        (r.action = actionWrite → f.sent r = data r) := by
  induction reqs generalizing i dataOff b with
  | nil => exact ⟨fun _ r hr => (List.not_mem_nil hr).elim, fun _ => trivial⟩
  | cons r rs ih =>
      obtain ⟨hfirst, hrest⟩ := hplaced
      have hnext := f.reqStart_succ i
      have hlen : (r :: rs).length * f.stride = rs.length * f.stride + f.stride := by
        rw [List.length_cons, Nat.succ_mul]
      have hread : r.action = actionWrite →
          (Buffer.write (f.pyFillRequests i dataOff (r :: rs)) b).read dataOff r.dataSize =
            f.sent r :=
        fun hwrite => he.read_data hdata harea (hfirst hwrite)
      have hname : cString ((Buffer.write (f.pyFillRequests i dataOff (r :: rs)) b).read
          (l.reqStart i + l.tagName.off) l.tagName.len) = cString (name254 r.tagName) :=
        he.read_name (hdesc.mono le_rfl (by simp only [Region.stop]; omega)) (by omega) (by omega)
      have hih := ih (zeroOn_descriptors hdesc harea) (zeroOn_data hdata (by omega)) (by omega)
        (by omega) hrest
      rw [← write_pyFillRequests_cons] at hih
      rw [Layout.Holds, hname, List.forall_mem_cons, hih]
      constructor
      · rintro ⟨hn, hw, htail⟩
        exact ⟨⟨hn, fun hwrite => (hread hwrite).symm.trans (hw hwrite).2⟩, htail⟩
      · rintro ⟨⟨hn, hw⟩, htail⟩
        exact ⟨hn, fun hwrite => ⟨hfirst hwrite, (hread hwrite).trans (hw hwrite)⟩, htail⟩

/-- The same for the whole batch, in a slot whose payload area the dispatcher
has cleared. -/
theorem Encodes.carries_iff (he : Encodes f l) (hpos : 1 ≤ reqs.length) (hlen : reqs.length ≤ 16)
    (data : TagRequest → List UInt8) {b : SlotBytes} (hclear : b.ZeroOn payloadArea) :
    l.Carries (Buffer.write (f.fill reqs) b) data reqs ↔ Placed (l.reqStart reqs.length) reqs ∧
      ∀ r ∈ reqs, cString (name254 r.tagName) = r.tagName ∧
        (r.action = actionWrite → f.sent r = data r) := by
  obtain ⟨hstart, harea⟩ := Format.dataAreaStart_toNat (f := f) hpos hlen
  have hpayload := he.payload
  have hsame := he.req0Start
  have hwithin := he.count_within
  have hsmall := f.area_small
  have hmul : reqs.length * f.stride ≤ 16 * f.stride := Nat.mul_le_mul_right _ hlen
  have hreq : l.reqStart reqs.length = f.req0Start + reqs.length * f.stride := by
    rw [Layout.reqStart, he.req0Start, he.stride]
  have hzero : f.reqStart 0 = f.req0Start := by
    rw [Format.reqStart, Nat.zero_mul, Nat.add_zero]
  have hrest : ∀ off len, f.req0Start ≤ off → off + len ≤ slotStride →
      (Buffer.write (f.header reqs.length) b).ZeroOn ⟨off, len⟩ := by
    intro off len hoff hin
    have hsub : b.ZeroOn ⟨off, len⟩ := by
      apply hclear.mono
      · simp only [payloadArea]
        omega
      · simp only [payloadArea, payloadStart, slotStride, Region.stop] at hin ⊢
        omega
    apply hsub.write
    intro w hw
    have hstop := f.header_within _ w hw
    exact Region.disjoint_of_stop_le (hstop.trans hoff)
  have hfill : Placed (l.reqStart reqs.length) reqs → Buffer.write (f.fill reqs) b =
      Buffer.write (f.pyFillRequests 0 (l.reqStart reqs.length) reqs)
        (Buffer.write (f.header reqs.length) b) := by
    intro hplaced
    have hoff : (f.dataAreaStart reqs.length).toNat = l.reqStart reqs.length % 2 ^ 32 := by
      omega
    rw [Format.fill, Buffer.write_append, he.fillRequests_eq hoff hplaced]
  have hholds := fun hplaced : Placed (l.reqStart reqs.length) reqs =>
    he.holds_iff (i := 0) data
      (hrest (f.reqStart 0) (reqs.length * f.stride) hzero.ge
        (by simp only [slotStride]; omega))
      (hrest (l.reqStart reqs.length) (slotStride - l.reqStart reqs.length) (by omega)
        (by simp only [slotStride]; omega))
      (by omega) (by simp only [slotStride]; omega) hplaced
  constructor
  · rintro ⟨-, h⟩
    have hplaced := h.placed
    rw [hfill hplaced, hholds hplaced] at h
    exact ⟨hplaced, h⟩
  · rintro ⟨hplaced, h⟩
    rw [hfill hplaced]
    refine ⟨?_, (hholds hplaced).mpr h⟩
    have hcount := he.count reqs.length (by omega) b
    rw [Layout.number, Buffer.read_write_of_disjoint]
    · exact hcount
    · intro w hw
      simp only [Region.stop] at hwithin
      apply Region.disjoint_of_before (mem_pyFillRequests_place hw)
      · simp only [Region.stop]
        omega
      · simp only [Region.stop]
        omega

end Fill

section Data

variable {f : Format} {r : TagRequest}

theorem Format.sent_length (f : Format) (r : TagRequest) : (f.sent r).length = r.dataSize := by
  unfold Format.sent
  have hle : ((f.source r).getD []).length ≤ r.dataSize := by
    cases hsource : f.source r with
    | none => exact Nat.zero_le _
    | some bytes =>
        have hlen := f.source_length r bytes hsource
        rwa [r.nbytes_eq] at hlen
  rw [List.length_append, zeros_length]
  omega

/-- Data of the declared size is sent as it is. -/
theorem Format.sent_of_source {data : List UInt8} (hlen : data.length = r.dataSize)
    (hsource : 0 < r.dataSize → f.source r = some data) : f.sent r = data := by
  by_cases hpos : 0 < r.dataSize
  · have hrest : r.dataSize - data.length = 0 := by omega
    rw [Format.sent, hsource hpos, Option.getD_some, hrest]
    exact List.append_nil data
  · have hnil : data = [] := List.eq_nil_of_length_eq_zero (by omega)
    have hsent : (f.sent r).length = 0 := by
      rw [f.sent_length]
      omega
    rw [hnil]
    exact List.eq_nil_of_length_eq_zero hsent

theorem nbytes_pos_iff : 0 < r.nbytes ↔ 0 < r.dataSize := by
  rw [UInt32.lt_iff_toNat_lt, r.nbytes_eq]
  rfl

/-- The bytes that a C caller points to. -/
def cData (r : TagRequest) : List UInt8 := (r.data.map (memcpyData r)).getD []

/-- The bytes that a Go or Python caller passes. -/
def givenData (r : TagRequest) : List UInt8 := r.data.getD []

theorem cSent_iff (hsource : f.source = cSource) (hwrite : r.action = actionWrite) :
    f.sent r = cData r ↔ r.dataSize = 0 ∨ r.data.isSome := by
  constructor
  · intro h
    cases hdata : r.data with
    | none =>
        left
        have hlen := f.sent_length r
        rw [h, cData, hdata] at hlen
        exact hlen.symm
    | some data => exact .inr rfl
  · intro h
    apply Format.sent_of_source
    · cases hdata : r.data with
      | none =>
          rw [hdata] at h
          have hzero : r.dataSize = 0 := h.resolve_right (by decide)
          rw [cData, hdata, hzero]
          rfl
      | some data =>
          rw [cData, hdata, Option.map_some, Option.getD_some, memcpyData, List.length_take,
            List.length_append, zeros_length, r.nbytes_eq]
          omega
    · intro hpos
      have hsome := h.resolve_left (by omega)
      obtain ⟨data, hdata⟩ := Option.isSome_iff_exists.mp hsome
      rw [hsource, cSource, if_pos ⟨hwrite, nbytes_pos_iff.mpr hpos⟩, cData, hdata]
      rfl

/-- When a source copies all data of the declared size, that size is all that
matters. -/
theorem sent_iff (hsource : (givenData r).length = r.dataSize → 0 < r.dataSize →
    f.source r = some (givenData r)) :
    f.sent r = givenData r ↔ (givenData r).length = r.dataSize := by
  constructor
  · intro h
    rw [← h, f.sent_length]
  · intro hlen
    exact Format.sent_of_source hlen (hsource hlen)

theorem goSource_of_length (hwrite : r.action = actionWrite)
    (hlen : (givenData r).length = r.dataSize) (hpos : 0 < r.dataSize) :
    goSource r = some (givenData r) := by
  have hcount : goCount r (givenData r) = r.nbytes := by
    have hsame : UInt32.ofNat (givenData r).length = r.nbytes := by
      rw [hlen, ← r.nbytes_eq, UInt32.ofNat_toNat]
    unfold goCount
    rw [hsame, if_neg (UInt32.lt_irrefl _)]
  have hall : (givenData r).take (goCount r (givenData r)).toNat = givenData r := by
    apply List.take_of_length_le
    rw [hcount, r.nbytes_eq, hlen]
  have hgiven : 0 < (givenData r).length := by omega
  unfold goSource
  rw [if_pos ⟨hwrite, hgiven, nbytes_pos_iff.mpr hpos⟩]
  exact congrArg some hall

theorem pySource_of_length (hwrite : r.action = actionWrite)
    (hlen : (givenData r).length = r.dataSize) (hpos : 0 < r.dataSize) :
    pySource r = some (givenData r) := by
  have hall : (givenData r).take (min r.dataSize (givenData r).length) = givenData r := by
    apply List.take_of_length_le
    omega
  have hgiven : 0 < (givenData r).length := by omega
  unfold pySource
  simp only
  rw [if_pos ⟨hwrite, hpos, hgiven⟩]
  exact congrArg some hall

end Data

section Members

section Names

variable {back : List Write} {b : SlotBytes} {base len k : Nat} (s : List UInt8)

/-- A name copied over the beginning of a clear descriptor. -/
theorem cString_of_name (hclear : b.ZeroOn ⟨base, k⟩) (hk : len ≤ k) (hlen : 254 ≤ len)
    (hback : ∀ w ∈ back, len ≤ w.off) (hin : base + k ≤ slotStride) :
    cString ((Buffer.write ((⟨0, name254 s⟩ :: back).map (Write.shift base)) b).read
      (base + 0) len) = cString (name254 s) := by
  have hsplit : (⟨0, name254 s⟩ :: back).map (Write.shift base) =
      [⟨base, name254 s⟩] ++ back.map (Write.shift base) := rfl
  have hname : (name254 s).length ≤ len := (name254_length s).trans hlen
  have hfield : b.ZeroOn ⟨base, len⟩ := hclear.mono le_rfl (Nat.add_le_add_left hk base)
  rw [hsplit, Buffer.write_append, Nat.add_zero, Buffer.read_write_of_disjoint,
    read_write_clear hfield hname (by omega)]
  · exact cString_append_replicate _ _
  · intro w hw
    obtain ⟨v, hv, rfl⟩ := List.mem_map.mp hw
    have hoff := hback v hv
    apply Region.disjoint_of_le_off
    simp only [Region.stop, Write.region, Write.shift]
    omega

/-- The same behind a clear of the descriptor. -/
theorem cString_of_cleared (hclear : b.ZeroOn ⟨base, k⟩) (hk : len ≤ k) (hlen : 254 ≤ len)
    (hback : ∀ w ∈ back, len ≤ w.off) (hin : base + k ≤ slotStride) :
    cString ((Buffer.write ((⟨0, zeros k⟩ :: ⟨0, name254 s⟩ :: back).map (Write.shift base))
      b).read (base + 0) len) = cString (name254 s) := by
  have hsplit : (⟨0, zeros k⟩ :: ⟨0, name254 s⟩ :: back).map (Write.shift base) =
      [⟨base, List.replicate k 0⟩] ++ (⟨0, name254 s⟩ :: back).map (Write.shift base) := rfl
  rw [hsplit, Buffer.write_append, Buffer.write_zeros hclear]
  exact cString_of_name s hclear hk hlen hback hin

end Names

theorem cSource_write (r : TagRequest) (bytes : List UInt8) (h : cSource r = some bytes) :
    r.action = actionWrite ∧ 0 < r.dataSize := by
  unfold cSource at h
  split at h
  · next hpos => exact ⟨hpos.1, nbytes_pos_iff.mp hpos.2⟩
  · cases h

theorem goSource_write (r : TagRequest) (bytes : List UInt8) (h : goSource r = some bytes) :
    r.action = actionWrite ∧ 0 < r.dataSize := by
  unfold goSource at h
  split at h
  · next hpos => exact ⟨hpos.1, nbytes_pos_iff.mp hpos.2.2⟩
  · cases h

theorem pySource_write (r : TagRequest) (bytes : List UInt8) (h : pySource r = some bytes) :
    r.action = actionWrite ∧ 0 < r.dataSize := by
  unfold pySource at h
  simp only at h
  split at h
  · next hpos => exact ⟨hpos.1, hpos.2.1⟩
  · cases h

theorem cAccess_encodes (path : List UInt8) : Encodes (cAccess path) accessLayout where
  req0Start := rfl
  stride := rfl
  payload := show 0x78 ≤ 0x180 by decide
  source := cSource_write
  count := fun n hn b => Buffer.leNat_read_of_le (k := 3) b rfl hn
    (by simp [cAccess]) (by decide)
  count_within := by decide
  tagName := fun r b base hbase hclear =>
    cString_of_cleared r.tagName hclear (by decide) (by decide) (by simp [accessLayout]) hbase

theorem cAccessDb_encodes (handle : UInt32) : Encodes (cAccessDb handle) accessDbLayout where
  req0Start := rfl
  stride := rfl
  payload := show 0x78 ≤ 0x88 by decide
  source := cSource_write
  count := fun n hn b => Buffer.leNat_read_of_le (k := 2) b rfl hn
    (by simp [cAccessDb]) (by decide)
  count_within := by decide
  tagName := fun r b base hbase hclear =>
    cString_of_cleared r.tagName hclear (by decide) (by decide) (by simp [accessDbLayout]) hbase

theorem goAccess_encodes (path : List UInt8) : Encodes (goAccess path) accessLayout where
  req0Start := rfl
  stride := rfl
  payload := show 0x78 ≤ 0x180 by decide
  source := goSource_write
  count := fun n hn b => Buffer.leNat_read_of_le (k := 2) b rfl hn
    (by simp [goAccess]) (by decide)
  count_within := by decide
  tagName := fun r b base hbase hclear =>
    cString_of_name r.tagName hclear (show 0x100 ≤ 0x120 by decide) (by decide)
      (by simp [accessLayout]) hbase

theorem goAccessDb_encodes (handle : UInt32) : Encodes (goAccessDb handle) accessDbLayout where
  req0Start := rfl
  stride := rfl
  payload := show 0x78 ≤ 0x88 by decide
  source := goSource_write
  count := fun n hn b => Buffer.leNat_read_of_le (k := 1) b rfl hn
    (by simp [goAccessDb]) (by decide)
  count_within := by decide
  tagName := fun r b base hbase hclear =>
    cString_of_name r.tagName hclear (show 255 ≤ 0x128 by decide) (by decide)
      (by simp [accessDbLayout]) hbase

theorem pyAccess_encodes (path : TagPath) : Encodes (pyAccess path) accessLayout where
  req0Start := rfl
  stride := rfl
  payload := show 0x78 ≤ 0x180 by decide
  source := pySource_write
  count := fun n hn b => Buffer.leNat_read_of_le (k := 2) b rfl hn
    (by simp [pyAccess, pyTagDataHeader]) (by decide)
  count_within := by decide
  tagName := fun r b base hbase hclear =>
    cString_of_name r.tagName hclear (show 0x100 ≤ 0x120 by decide) (by decide)
      (by simp [accessLayout]) hbase

theorem pyAccessDb_encodes (handle : UInt32) : Encodes (pyAccessDb handle) accessDbLayout where
  req0Start := rfl
  stride := rfl
  payload := show 0x78 ≤ 0x88 by decide
  source := pySource_write
  count := fun n hn b => Buffer.leNat_read_of_le (k := 1) b rfl hn
    (by simp [pyAccessDb, pyTagDataDbHeader]) (by decide)
  count_within := by decide
  tagName := fun r b base hbase hclear =>
    cString_of_name r.tagName hclear (show 255 ≤ 0x128 by decide) (by decide)
      (by simp [accessDbLayout]) hbase

end Members

/-- The six calls, each with the tag database it is made on. -/
inductive Encoder
  | c (path : List UInt8)
  | cDb (handle : UInt32)
  | go (path : List UInt8)
  | goDb (handle : UInt32)
  | python (path : TagPath)
  | pythonDb (handle : UInt32)

namespace Encoder

variable (e : Encoder)

def format : Encoder → Format
  | .c path => cAccess path
  | .cDb handle => cAccessDb handle
  | .go path => goAccess path
  | .goDb handle => goAccessDb handle
  | .python path => pyAccess path
  | .pythonDb handle => pyAccessDb handle

def layout : Encoder → Layout
  | .c _ | .go _ | .python _ => accessLayout
  | .cDb _ | .goDb _ | .pythonDb _ => accessDbLayout

def filled (reqs : List TagRequest) : Encoder → Option (List Write)
  | .c path => (bpTagdbAccess path reqs).toOption.map (·.fill)
  | .cDb handle => (bpTagdbAccessDb handle reqs).toOption.map (·.fill)
  | .go path => (tagDBAccess path reqs).toOption.map (·.fill)
  | .goDb handle => (tagDBAccessDb handle reqs).toOption.map (·.fill)
  | .python path => (tagDbAccessPy path reqs).toOption.bind (·.fill)
  | .pythonDb handle => (tagDbAccessDbPy handle reqs).toOption.bind (·.fill)

def data : Encoder → TagRequest → List UInt8
  | .c _ | .cDb _ => cData
  | .go _ | .goDb _ | .python _ | .pythonDb _ => givenData

/-- A batch that is not refused is found in the slot as it was given. -/
def Lossless (reqs : List TagRequest) : Prop := ∀ ws, e.filled reqs = some ws →
  ∀ b : SlotBytes, b.ZeroOn payloadArea → e.layout.Carries (Buffer.write ws b) e.data reqs

/-- The batch is too large for the slot, as the call computes its size, or has a
name that Python cannot encode. -/
def Refuses (reqs : List TagRequest) : Encoder → Prop
  | .c path => slotStride - 0x80 < (cAccess path).trueTotal reqs % 2 ^ 32
  | .cDb handle => slotStride - 0x80 < (cAccessDb handle).trueTotal reqs % 2 ^ 32
  | .go path => slotStride - 0x80 < (goAccess path).trueTotal reqs % 2 ^ 32
  | .goDb handle => slotStride - 0x80 < (goAccessDb handle).trueTotal reqs % 2 ^ 32
  | .python path => slotStride - 0x80 < (pyAccess path).trueTotal reqs ∨
      ¬ reqs.all (·.asciiName) = true
  | .pythonDb handle => slotStride - 0x80 < (pyAccessDb handle).trueTotal reqs ∨
      ¬ reqs.all (·.asciiName) = true

/-- The data of a write has the declared size; in C, where a pointer has no
length, it is there. -/
def Exact (r : TagRequest) : Encoder → Prop
  | .c _ | .cDb _ => r.dataSize = 0 ∨ r.data.isSome
  | .go _ | .goDb _ | .python _ | .pythonDb _ => (givenData r).length = r.dataSize

/-- A request that is not altered on its way into the slot. -/
structure Unaltered (r : TagRequest) : Prop where
  name_le : r.tagName.length ≤ 254
  nul_free : 0 ∉ r.tagName
  data : r.action = actionWrite → e.Exact r

section Cases

variable {e : Encoder} {reqs : List TagRequest}

theorem encodes (e : Encoder) : Encodes e.format e.layout := by
  cases e with
  | c path => exact cAccess_encodes path
  | cDb handle => exact cAccessDb_encodes handle
  | go path => exact goAccess_encodes path
  | goDb handle => exact goAccessDb_encodes handle
  | python path => exact pyAccess_encodes path
  | pythonDb handle => exact pyAccessDb_encodes handle

/-- What a 32-bit call writes. -/
theorem call_fill {f : Format} (hpos : 1 ≤ reqs.length) (hlen : reqs.length ≤ 16)
    {ws : List Write} : (f.call reqs).toOption.map (·.fill) = some ws ↔
      ¬ slotStride - 0x80 < f.trueTotal reqs % 2 ^ 32 ∧ ws = f.fill reqs := by
  rw [Nat.not_lt]
  constructor
  · intro h
    obtain ⟨spec, hspec, rfl⟩ := Option.map_eq_some_iff.mp h
    cases hcall : f.call reqs with
    | error err =>
        rw [hcall] at hspec
        cases hspec
    | ok spec' =>
        obtain ⟨hle, rfl⟩ := (Format.call_ok hpos hlen).mp hcall
        rw [hcall] at hspec
        cases hspec
        exact ⟨hle, rfl⟩
  · rintro ⟨hle, rfl⟩
    rw [(Format.call_ok hpos hlen).mpr ⟨hle, rfl⟩]
    rfl

/-- What Python's calls write: the same, when they do not raise. -/
theorem pyCall_fill {f : Format} (hpos : 1 ≤ reqs.length) (hlen : reqs.length ≤ 16)
    {ws : List Write} : (f.pyCall reqs).toOption.bind (·.fill) = some ws ↔
      ¬ (slotStride - 0x80 < f.trueTotal reqs ∨ ¬ reqs.all (·.asciiName) = true) ∧
        ws = f.fill reqs := by
  have hne : reqs ≠ [] := List.length_pos_iff.mp hpos
  have hguard : f.dataArea0 + (reqs.length - 1) * f.stride +
      (reqs.map fun r => r.elemByteSize.toNat * r.elemCount.toNat).sum = f.trueTotal reqs := rfl
  unfold Format.pyCall
  rw [if_neg hne, if_neg (by omega)]
  simp only [hguard]
  by_cases hlarge : slotStride - 0x80 < f.trueTotal reqs
  · rw [if_pos hlarge]
    constructor
    · intro h
      cases h
    · rintro ⟨hnot, -⟩
      exact absurd (.inl hlarge) hnot
  · obtain ⟨hstart, harea⟩ := Format.dataAreaStart_toNat (f := f) hpos hlen
    have hlayout : f.header reqs.length ++
        f.pyFillRequests 0 (f.dataArea0 + (reqs.length - 1) * f.stride) reqs = f.fill reqs := by
      have htotal : f.trueTotal reqs = _ := f.trueTotal_eq
      simp only [slotStride] at hlarge
      rw [harea, ← hstart, Format.pyFillRequests_eq, Format.fill]
      omega
    rw [if_neg hlarge, hlayout]
    simp only [Except.toOption, Option.bind_some]
    by_cases hascii : reqs.all (·.asciiName) = true
    · rw [if_pos hascii, Option.some_inj]
      constructor
      · rintro rfl
        exact ⟨fun h => h.elim hlarge fun hnot => hnot hascii, rfl⟩
      · rintro ⟨-, rfl⟩
        rfl
    · rw [if_neg hascii]
      constructor
      · intro h
        cases h
      · rintro ⟨hnot, -⟩
        exact absurd (.inr hascii) hnot

theorem filled_iff (hpos : 1 ≤ reqs.length) (hlen : reqs.length ≤ 16) {ws : List Write} :
    e.filled reqs = some ws ↔ ¬ e.Refuses reqs ∧ ws = e.format.fill reqs := by
  cases e with
  | c path => exact call_fill hpos hlen
  | cDb handle => exact call_fill hpos hlen
  | go path => exact call_fill hpos hlen
  | goDb handle => exact call_fill hpos hlen
  | python path => exact pyCall_fill hpos hlen
  | pythonDb handle => exact pyCall_fill hpos hlen

/-- A write is sent as it is exactly when its data has the declared size. -/
theorem sent_iff_exact {r : TagRequest} (hwrite : r.action = actionWrite) :
    e.format.sent r = e.data r ↔ e.Exact r := by
  cases e with
  | c path => exact cSent_iff rfl hwrite
  | cDb handle => exact cSent_iff rfl hwrite
  | go path => exact sent_iff (goSource_of_length hwrite)
  | goDb handle => exact sent_iff (goSource_of_length hwrite)
  | python path => exact sent_iff (pySource_of_length hwrite)
  | pythonDb handle => exact sent_iff (pySource_of_length hwrite)

theorem unaltered_iff {r : TagRequest} :
    (cString (name254 r.tagName) = r.tagName ∧
      (r.action = actionWrite → e.format.sent r = e.data r)) ↔ e.Unaltered r := by
  rw [cString_name254_iff]
  constructor
  · rintro ⟨⟨hle, hzero⟩, hdata⟩
    exact ⟨hle, hzero, fun hwrite => (sent_iff_exact hwrite).mp (hdata hwrite)⟩
  · intro h
    exact ⟨⟨h.name_le, h.nul_free⟩, fun hwrite => (sent_iff_exact hwrite).mpr (h.data hwrite)⟩

/-- What a batch that arrives as it was given is like. -/
theorem carries_iff (hpos : 1 ≤ reqs.length) (hlen : reqs.length ≤ 16) {b : SlotBytes}
    (hclear : b.ZeroOn payloadArea) :
    e.layout.Carries (Buffer.write (e.format.fill reqs) b) e.data reqs ↔
      Placed (e.layout.reqStart reqs.length) reqs ∧ ∀ r ∈ reqs, e.Unaltered r := by
  rw [e.encodes.carries_iff hpos hlen e.data hclear]
  exact and_congr_right fun _ => forall₂_congr fun r _ => unaltered_iff

end Cases

end Encoder

def clearSlot : SlotBytes := fun _ => 0

theorem clearSlot_zeroOn : clearSlot.ZeroOn payloadArea := fun _ _ => rfl

/-- A batch that a call does not refuse arrives as it was given exactly when no
name is longer than 254 bytes or has a zero byte, every write has data of the
declared size, and the sizes do not lead out of the slot. -/
theorem access_lossless_iff (e : Encoder) (reqs : List TagRequest) (hpos : 1 ≤ reqs.length)
    (hlen : reqs.length ≤ 16) : e.Lossless reqs ↔ e.Refuses reqs ∨
      Placed (e.layout.reqStart reqs.length) reqs ∧ ∀ r ∈ reqs, e.Unaltered r := by
  constructor
  · intro h
    by_cases hrefuses : e.Refuses reqs
    · exact .inl hrefuses
    · have hfilled := (Encoder.filled_iff hpos hlen).mpr ⟨hrefuses, rfl⟩
      exact .inr ((Encoder.carries_iff hpos hlen clearSlot_zeroOn).mp
        (h _ hfilled _ clearSlot_zeroOn))
  · intro h ws hfilled b hb
    obtain ⟨hnot, rfl⟩ := (Encoder.filled_iff hpos hlen).mp hfilled
    exact (Encoder.carries_iff hpos hlen hb).mpr (h.resolve_left hnot)

/-- A write of the two bytes `01 02` to `x`, declared as a DINT. -/
def shortWrite : TagRequest := ⟨[0x78], 0xC4, 4, actionWrite, 1, some [1, 2]⟩

/-- A read of the tag whose name is 255 times `x`. -/
def longNameRead : TagRequest :=
  ⟨List.replicate 255 0x78, 0xC4, 4, actionRead, 1, some [0, 0, 0, 0]⟩

theorem access_lossless_intWrite : (Encoder.go [0x50]).Lossless [dintRead, intWrite] := by
  apply (access_lossless_iff (.go [0x50]) [dintRead, intWrite] (by decide) (by decide)).mpr
  refine .inr ⟨by decide, fun r hr => ?_⟩
  rcases List.mem_pair.mp hr with rfl | rfl
  · exact ⟨by decide, by decide, fun h => absurd h (by decide)⟩
  · exact ⟨by decide, by decide, fun _ => rfl⟩

/-- The name is cut off, and the write zeroes two bytes of the tag. -/
theorem access_not_lossless : ¬ (Encoder.c [0x50]).Lossless [longNameRead] ∧
    ¬ (Encoder.go [0x50]).Lossless [shortWrite] := by
  constructor
  · intro h
    have hfits : ¬ slotStride - 0x80 < (cAccess [0x50]).trueTotal [longNameRead] % 2 ^ 32 := by
      decide
    have hfilled : (Encoder.c [0x50]).filled [longNameRead] = some _ :=
      (Encoder.filled_iff (by decide) (by decide)).mpr ⟨hfits, rfl⟩
    have hcarries := (Encoder.carries_iff (by decide) (by decide) clearSlot_zeroOn).mp
      (h _ hfilled _ clearSlot_zeroOn)
    have hname := (hcarries.2 _ List.mem_cons_self).name_le
    rw [longNameRead, List.length_replicate] at hname
    omega
  · intro h
    have hfits : ¬ slotStride - 0x80 < (goAccess [0x50]).trueTotal [shortWrite] % 2 ^ 32 := by
      decide
    have hfilled : (Encoder.go [0x50]).filled [shortWrite] = some _ :=
      (Encoder.filled_iff (by decide) (by decide)).mpr ⟨hfits, rfl⟩
    have hcarries := (Encoder.carries_iff (by decide) (by decide) clearSlot_zeroOn).mp
      (h _ hfilled _ clearSlot_zeroOn)
    have hexact : [1, 2].length = 4 := (hcarries.2 _ List.mem_cons_self).data rfl
    exact absurd hexact (by decide)

end BpClient.Tag
