import BpClient.Calls.Model

/-!
The three SDKs ask for the same. C stores a NUL behind a path and Go leaves it to the
clear, Python packs neighbouring numbers together, C asks for a time without the six
numbers that Go and Python store as zeros: the slot that the engine gets is the same in
each of its bytes, and all that was asked for is found in it again.
-/

namespace BpClient.Calls

open BpClient.Lib
open BpClient.Slot (Sdk SlotBytes Claimant)
open BpClient.Tag (payloadStart zeros slotStride)
open BpClient.Ucmm (Refusal)

def payloadArea : Region := ⟨payloadStart, slotStride - payloadStart⟩

/-- A call asks the engine for an operation. -/
structure Asks (op : Op) (call : Call) : Prop where
  fn : call.fnName = op.fn.name
  size : call.payloadSize = op.fn.size
  timeout : call.timeoutMs = op.fn.timeoutMs
  fill : ∀ b : SlotBytes, b.ZeroOn payloadArea →
    Buffer.write call.fill b = Buffer.write op.fields b
  fits : ∀ path, op.path = some path → path.bytes.length ≤ 254

section Fills

variable {path : CText} {ws : List Write} {b : SlotBytes}

theorem terminated_of_le {s : List UInt8} {size : Nat} (h : s.length + 1 ≤ size) :
    terminated s size = s ++ [0] := by
  apply List.take_of_length_le
  rw [List.length_append, List.length_singleton]
  exact h

/-- A path with a NUL behind it. -/
theorem write_path_nul (hle : path.bytes.length ≤ 254) :
    Buffer.write (⟨0x78, path.bytes⟩ :: ⟨0x78 + path.bytes.length, [0]⟩ :: ws) b =
      Buffer.write (⟨0x78, terminated path.bytes 256⟩ :: ws) b := by
  rw [terminated_of_le (by omega)]
  exact ((sameEffect_split 0x78 path.bytes [0] ws).write b).symm

/-- A path whose NUL is there already. -/
theorem write_path_cleared (hle : path.bytes.length ≤ 254) (hb : b.ZeroOn payloadArea) :
    Buffer.write (⟨0x78, path.bytes⟩ :: ws) b =
      Buffer.write (⟨0x78, terminated path.bytes 256⟩ :: ws) b := by
  have hnul : (Buffer.write [⟨0x78, path.bytes⟩] b).ZeroOn ⟨0x78 + path.bytes.length, 1⟩ := by
    apply Buffer.ZeroOn.write
    · apply hb.mono
      · exact Nat.le_add_right _ _
      · simp only [Region.stop, payloadArea, payloadStart, slotStride]
        omega
    · intro w hw
      rw [List.mem_singleton] at hw
      subst hw
      exact Region.disjoint_of_stop_le le_rfl
  have hwrite : Buffer.write [⟨0x78 + path.bytes.length, [0]⟩]
      (Buffer.write [⟨0x78, path.bytes⟩] b) = Buffer.write [⟨0x78, path.bytes⟩] b :=
    Buffer.write_zeros hnul
  calc Buffer.write (⟨0x78, path.bytes⟩ :: ws) b
      = Buffer.write ws (Buffer.write [⟨0x78, path.bytes⟩] b) :=
        Buffer.write_append [⟨0x78, path.bytes⟩] ws b
    _ = Buffer.write ws (Buffer.write [⟨0x78 + path.bytes.length, [0]⟩]
          (Buffer.write [⟨0x78, path.bytes⟩] b)) := by rw [hwrite]
    _ = Buffer.write (⟨0x78, path.bytes⟩ :: ⟨0x78 + path.bytes.length, [0]⟩ :: ws) b := by
        rw [← Buffer.write_append, ← Buffer.write_append]
        rfl
    _ = Buffer.write (⟨0x78, terminated path.bytes 256⟩ :: ws) b := write_path_nul hle

theorem C.write_path (hle : path.bytes.length ≤ 254) :
    Buffer.write (C.pathWrites path ++ ws) b =
      Buffer.write (⟨0x78, terminated path.bytes 256⟩ :: ws) b := by
  rw [C.pathWrites, Nat.min_eq_left hle, List.take_length]
  exact write_path_nul hle

theorem Go.write_path (hle : path.bytes.length ≤ 254) (hb : b.ZeroOn payloadArea) :
    Buffer.write (Go.pathWrites path ++ ws) b =
      Buffer.write (⟨0x78, terminated path.bytes 256⟩ :: ws) b := by
  rw [Go.pathWrites, List.take_of_length_le hle]
  exact write_path_cleared hle hb

theorem Python.write_path (hle : path.bytes.length ≤ 254) :
    Buffer.write (Python.pathWrites path ++ ws) b =
      Buffer.write (⟨0x78, terminated path.bytes 256⟩ :: ws) b := write_path_nul hle

/-- The clear of the path region is the second one. -/
theorem write_clear (hb : b.ZeroOn payloadArea) :
    Buffer.write (⟨payloadStart, zeros 256⟩ :: ws) b = Buffer.write ws b := by
  have hzero : b.ZeroOn ⟨payloadStart, 256⟩ := by
    apply hb.mono
    · exact le_rfl
    · simp only [Region.stop, payloadArea, payloadStart, slotStride]
      omega
  have hclear : Buffer.write [⟨payloadStart, zeros 256⟩] b = b := Buffer.write_zeros hzero
  have happend := Buffer.write_append [⟨payloadStart, zeros 256⟩] ws b
  rw [hclear] at happend
  exact happend

/-- `wc_st_u64` stores a number in two halves. -/
theorem wcStU64_sameEffect (off : Nat) (v : UInt64) :
    SameEffect (C.wcStU64 off v) [⟨off, leBytes 8 v.toNat⟩] := by
  have hlow : leBytes 4 v.toUInt32.toNat = leBytes 4 v.toNat := by
    rw [UInt64.toNat_toUInt32]
    exact leBytes_mod 4 v.toNat
  have hhigh : leBytes 4 (v >>> 32).toUInt32.toNat = leBytes 4 (v.toNat / 256 ^ 4) := by
    rw [UInt64.toNat_toUInt32, UInt64.toNat_shiftRight, Nat.shiftRight_eq_div_pow]
    exact leBytes_mod 4 (v.toNat / 256 ^ 4)
  intro i
  have hbytes : leBytes 8 v.toNat = leBytes 4 v.toNat ++ leBytes 4 (v.toNat / 256 ^ 4) :=
    leBytes_add 4 4 v.toNat
  rw [hbytes, sameEffect_split off (leBytes 4 v.toNat) _ [] i, leBytes_length, C.wcStU64, hlow,
    hhigh]

theorem sameEffect_wcTime (wc : WcTime) :
    SameEffect (C.wcStU64 0x180 wc.sec ++ C.wcStU64 0x188 wc.nsec ++ C.wcStU64 0x190 wc.aux0 ++
        C.wcStU64 0x198 wc.aux1 ++ C.wcStU64 0x1A0 wc.aux2 ++ C.wcStU64 0x1A8 wc.aux3)
      wc.fields :=
  (((((wcStU64_sameEffect 0x180 wc.sec).append (wcStU64_sameEffect 0x188 wc.nsec)).append
    (wcStU64_sameEffect 0x190 wc.aux0)).append (wcStU64_sameEffect 0x198 wc.aux1)).append
    (wcStU64_sameEffect 0x1A0 wc.aux2)).append (wcStU64_sameEffect 0x1A8 wc.aux3)

/-- `_wctime_req` packs the six numbers together. -/
theorem sameEffect_packed (wc : WcTime) :
    SameEffect [⟨0x180, leBytes 8 wc.sec.toNat ++ (leBytes 8 wc.nsec.toNat ++
        (leBytes 8 wc.aux0.toNat ++ (leBytes 8 wc.aux1.toNat ++
          (leBytes 8 wc.aux2.toNat ++ leBytes 8 wc.aux3.toNat))))⟩] wc.fields := by
  apply (sameEffect_split 0x180 _ _ []).trans
  apply SameEffect.cons
  apply (sameEffect_split _ _ _ []).trans
  apply SameEffect.cons
  apply (sameEffect_split _ _ _ []).trans
  apply SameEffect.cons
  apply (sameEffect_split _ _ _ []).trans
  apply SameEffect.cons
  exact sameEffect_split _ _ _ []

variable (path) in
theorem C.write_wcSetFill (inst : UInt16) (wc : WcTime) :
    Buffer.write (C.wcSetFill path inst (some wc)) b = Buffer.write
      (C.pathWrites path ++ ([⟨0x178, leBytes 2 inst.toNat⟩, ⟨0x17A, [1]⟩] ++ wc.fields)) b := by
  have hwc := (SameEffect.refl (C.pathWrites path ++ [⟨0x178, leBytes 2 inst.toNat⟩,
    ⟨0x17A, [1]⟩])).append (sameEffect_wcTime wc)
  rw [← List.append_assoc]
  exact hwc.write b

variable (path) in
theorem Python.write_wctimeReq (inst : UInt16) (wc : WcTime) :
    Buffer.write (Python.wctimeReq path inst (some wc)) b = Buffer.write
      (Python.pathWrites path ++ ([⟨0x178, leBytes 2 inst.toNat⟩, ⟨0x17A, [1]⟩] ++ wc.fields))
        b := by
  have hwc := (SameEffect.refl (Python.pathWrites path ++ [⟨0x178, leBytes 2 inst.toNat⟩,
    ⟨0x17A, [1]⟩])).append (sameEffect_packed wc)
  rw [← List.append_assoc]
  exact hwc.write b

/-- Where a request asks for a time, the six numbers are zero already. -/
theorem write_zero_wcTime {inst : UInt16} (hb : b.ZeroOn payloadArea) :
    Buffer.write ([⟨0x78, terminated path.bytes 256⟩, ⟨0x178, leBytes 2 inst.toNat⟩,
        ⟨0x17A, [1]⟩] ++ Go.haveWcTime.fields) b =
      Buffer.write [⟨0x78, terminated path.bytes 256⟩, ⟨0x178, leBytes 2 inst.toNat⟩,
        ⟨0x17A, [1]⟩] b := by
  have hregion : ∀ z ∈ Go.haveWcTime.fields,
      z.bytes = List.replicate 8 0 ∧ 0x180 ≤ z.off ∧ z.region.stop ≤ 0x1B0 := by
    decide
  apply Buffer.write_append_zeros
  · intro z hz
    exact ⟨8, (hregion z hz).1⟩
  · intro z hz
    apply hb.mono
    · exact Nat.le_trans (by decide) (hregion z hz).2.1
    · exact (hregion z hz).2.2.trans (by decide)
  · intro z hz v hv
    apply Region.disjoint_of_stop_le
    apply Nat.le_trans _ (hregion z hz).2.1
    have hterm : (terminated path.bytes 256).length ≤ 256 := List.length_take_le _ _
    simp only [List.mem_cons, List.not_mem_nil, or_false] at hv
    rcases hv with rfl | rfl | rfl
    · simp only [Region.stop, Write.region]
      omega
    · simp only [Region.stop, Write.region, leBytes_length]
      omega
    · simp only [Region.stop, Write.region, List.length_singleton]
      omega

end Fills

section Asks

variable {op : Op} {call call' : Call} {path : CText}

theorem C.call_of_withPath (h : C.withPath path call' = .call call) :
    call' = call ∧ path.bytes.length ≤ 254 := by
  simp only [C.withPath] at h
  split at h
  · cases h
  · next hle =>
      cases h
      exact ⟨rfl, Nat.le_of_not_lt hle⟩

theorem Go.call_of_withPath (h : Go.withPath path call' = .call call) :
    call' = call ∧ path.bytes.length ≤ 254 := by
  simp only [Go.withPath] at h
  split at h
  · cases h
  · split at h
    · cases h
    · next hle =>
        cases h
        exact ⟨rfl, Nat.le_of_not_lt hle⟩

theorem Python.call_of_withPath (h : Python.withPath path call' = .call call) :
    call' = call ∧ path.bytes.length ≤ 254 := by
  simp only [Python.withPath] at h
  split at h
  · cases h
  · split at h
    · cases h
    · next hle =>
        split at h
        · cases h
        · cases h
          exact ⟨rfl, Nat.le_of_not_lt hle⟩

/-- A call without a path that stores its fields as they are laid out. -/
theorem asks_of_eq (hpath : op.path = none) (hfn : call.fnName = op.fn.name)
    (hsize : call.payloadSize = op.fn.size) (htimeout : call.timeoutMs = op.fn.timeoutMs)
    (hfill : SameEffect call.fill op.fields) :
    Asks op call where
  fn := hfn
  size := hsize
  timeout := htimeout
  fill b _ := hfill.write b
  fits path h := by
    rw [hpath] at h
    cases h

/-- A call with a path. -/
theorem asks_of_path (hpath : op.path = some path) (hle : path.bytes.length ≤ 254)
    (hfn : call.fnName = op.fn.name) (hsize : call.payloadSize = op.fn.size)
    (htimeout : call.timeoutMs = op.fn.timeoutMs)
    (hfill : ∀ b : SlotBytes, b.ZeroOn payloadArea →
      Buffer.write call.fill b = Buffer.write op.fields b) : Asks op call where
  fn := hfn
  size := hsize
  timeout := htimeout
  fill := hfill
  fits path' h := by
    rw [hpath] at h
    cases h
    exact hle

/-- What C hands to the dispatcher is the request for the operation. -/
theorem C.asks_of_start (h : C.start op = .call call) : Asks op call := by
  cases op with
  | createTagDbHandle path =>
      obtain ⟨rfl, hle⟩ := C.call_of_withPath h
      apply asks_of_path rfl hle rfl rfl rfl
      intro b hb
      exact (write_clear hb).trans (C.write_path hle)
  | getDeviceIdObject path inst | getDeviceIdStatus path inst | getExDevObject path inst
  | getDeviceIcpObject path inst | parsePath path =>
      obtain ⟨rfl, hle⟩ := C.call_of_withPath h
      apply asks_of_path rfl hle rfl rfl rfl
      intro b _
      exact C.write_path hle
  | getWcTime clock path inst =>
      cases clock <;>
      · obtain ⟨rfl, hle⟩ := C.call_of_withPath h
        apply asks_of_path rfl hle rfl rfl rfl
        intro b _
        exact C.write_path hle
  | setWcTime clock path inst wc =>
      cases clock <;>
      · obtain ⟨rfl, hle⟩ := C.call_of_withPath h
        apply asks_of_path rfl hle rfl rfl rfl
        intro b _
        exact (C.write_wcSetFill path inst wc).trans (C.write_path hle)
  | deleteTagDbHandle handle =>
      simp only [C.start] at h
      split at h <;> cases h
      exact asks_of_eq rfl rfl rfl rfl (SameEffect.refl _)
  | _ =>
      cases h
      exact asks_of_eq rfl rfl rfl rfl (SameEffect.refl _)

/-- What Go hands to the dispatcher is the request for the operation. -/
theorem Go.asks_of_start (h : Go.start op = .call call) : Asks op call := by
  cases op with
  | createTagDbHandle path =>
      obtain ⟨rfl, hle⟩ := Go.call_of_withPath h
      apply asks_of_path rfl hle rfl rfl rfl
      intro b hb
      exact (write_clear hb).trans (Go.write_path hle hb)
  | getDeviceIdObject path inst | getDeviceIdStatus path inst | getExDevObject path inst
  | getDeviceIcpObject path inst | parsePath path =>
      obtain ⟨rfl, hle⟩ := Go.call_of_withPath h
      apply asks_of_path rfl hle rfl rfl rfl
      intro b hb
      exact Go.write_path hle hb
  | getWcTime clock path inst =>
      cases clock <;>
      · obtain ⟨rfl, hle⟩ := Go.call_of_withPath h
        apply asks_of_path rfl hle rfl rfl rfl
        intro b hb
        exact (Go.write_path hle hb).trans (write_zero_wcTime hb)
  | setWcTime clock path inst wc =>
      cases clock <;>
      · obtain ⟨rfl, hle⟩ := Go.call_of_withPath h
        apply asks_of_path rfl hle rfl rfl rfl
        intro b hb
        exact Go.write_path hle hb
  | deleteTagDbHandle handle =>
      simp only [Go.start] at h
      split at h <;> cases h
      exact asks_of_eq rfl rfl rfl rfl (SameEffect.refl _)
  | _ =>
      cases h
      exact asks_of_eq rfl rfl rfl rfl (SameEffect.refl _)

/-- What Python hands to the dispatcher is the request for the operation. -/
theorem Python.asks_of_start (h : Python.start op = .call call) : Asks op call := by
  cases op with
  | createTagDbHandle path =>
      obtain ⟨rfl, hle⟩ := Python.call_of_withPath h
      apply asks_of_path rfl hle rfl rfl rfl
      intro b hb
      exact (write_clear hb).trans (write_path_cleared hle hb)
  | getDeviceIdObject path inst | getDeviceIdStatus path inst | getExDevObject path inst
  | getDeviceIcpObject path inst | parsePath path =>
      obtain ⟨rfl, hle⟩ := Python.call_of_withPath h
      apply asks_of_path rfl hle rfl rfl rfl
      intro b _
      exact Python.write_path hle
  | getWcTime clock path inst =>
      cases clock <;>
      · obtain ⟨rfl, hle⟩ := Python.call_of_withPath h
        apply asks_of_path rfl hle rfl rfl rfl
        intro b hb
        exact (Python.write_wctimeReq path inst dummyWcTime).trans
          ((Python.write_path hle).trans (write_zero_wcTime hb))
  | setWcTime clock path inst wc =>
      cases clock <;>
      · obtain ⟨rfl, hle⟩ := Python.call_of_withPath h
        apply asks_of_path rfl hle rfl rfl rfl
        intro b _
        exact (Python.write_wctimeReq path inst wc).trans (Python.write_path hle)
  | deleteTagDbHandle handle =>
      simp only [Python.start] at h
      split at h <;> cases h
      exact asks_of_eq rfl rfl rfl rfl (SameEffect.refl _)
  | getSymbolInfo _ _ | getStructInfo _ _ | setLed _ _ =>
      cases h
      exact asks_of_eq rfl rfl rfl rfl (sameEffect_split _ _ _ _)
  | getStructMbrInfo _ _ _ =>
      cases h
      apply asks_of_eq rfl rfl rfl rfl
      exact (sameEffect_split _ _ _ _).trans (SameEffect.cons _ (sameEffect_split _ _ _ _))
  | setDisplay four =>
      cases h
      apply asks_of_eq rfl rfl rfl rfl
      have htake : four.1.take 4 = four.1 := List.take_of_length_le four.2.le
      rw [Python.setDisplayFill, htake]
      exact SameEffect.refl _
  | _ =>
      cases h
      exact asks_of_eq rfl rfl rfl rfl (SameEffect.refl _)

/-- What any SDK passes on to its dispatcher is what the caller has asked for. -/
theorem asks_of_start {sdk : Sdk} (h : start sdk op = .call call) : Asks op call := by
  cases sdk with
  | c => exact C.asks_of_start h
  | go => exact Go.asks_of_start h
  | python => exact Python.asks_of_start h

end Asks

section Header

theorem Fn.mem_all (fn : Fn) : fn ∈ Fn.all := by
  cases fn with
  | getWcTime clock | setWcTime clock => cases clock <;> decide
  | _ => decide

/-- What a name has to be for the dispatchers and for the engine. -/
structure Fn.Named (fn : Fn) : Prop where
  ne_nil : ascii fn.name ≠ []
  nul_free : 0 ∉ ascii fn.name
  length_le : (ascii fn.name).length ≤ 63
  all_ascii : (ascii fn.name).all (· < 0x80) = true
  found : Fn.ofName (ascii fn.name) = some fn
  size_lt : fn.size < 2 ^ 32

theorem Fn.named (fn : Fn) : fn.Named := by
  have hall : ∀ fn ∈ Fn.all, ascii fn.name ≠ [] ∧ 0 ∉ ascii fn.name ∧
      (ascii fn.name).length ≤ 63 ∧ (ascii fn.name).all (· < 0x80) = true ∧
      Fn.ofName (ascii fn.name) = some fn ∧ fn.size < 2 ^ 32 := by
    decide +kernel
  obtain ⟨h₁, h₂, h₃, h₄, h₅, h₆⟩ := hall fn fn.mem_all
  exact ⟨h₁, h₂, h₃, h₄, h₅, h₆⟩

variable (fn : Fn) (c : Claimant)

def Fn.header : List Write := Slot.headerWrites (ascii fn.name) fn.size c

/-- The slot when the header is in it and all else is clear. -/
def Fn.headed : SlotBytes :=
  Buffer.write (fn.header c) (Buffer.write [Slot.ownerWrite c] fun _ => 0)

/-- The dispatchers write the same header, in pieces of their own. -/
theorem header_same (sdk : Sdk) (call : Call) (hfn : call.fnName = fn.name)
    (hsize : call.payloadSize = fn.size) :
    ∃ ws, Slot.header sdk call.request c = some ws ∧ SameEffect ws (fn.header c) := by
  have hnamed := fn.named
  cases sdk with
  | c =>
      refine ⟨_, rfl, ?_⟩
      have hname : (ascii fn.name).takeWhile (· ≠ 0) = ascii fn.name :=
        cString_of_nul_free hnamed.nul_free
      simp only [Slot.C.header, Call.request, hfn, hsize, hname]
      exact SameEffect.refl _
  | go =>
      refine ⟨_, ?_, SameEffect.refl _⟩
      simp only [Slot.header, Slot.Go.header, Call.request, hfn, hsize, if_neg hnamed.ne_nil]
      rfl
  | python =>
      simp only [Slot.header, Slot.Python.header, Call.request, hfn, hsize,
        if_pos (And.intro hnamed.size_lt hnamed.all_ascii)]
      refine ⟨_, rfl, ?_⟩
      simp only [Fn.header, Slot.headerWrites, List.append_assoc]
      apply (sameEffect_split _ _ _ _).trans
      apply SameEffect.cons
      apply (sameEffect_split _ _ _ _).trans
      apply SameEffect.cons
      apply SameEffect.cons
      apply SameEffect.cons
      apply SameEffect.cons
      apply SameEffect.cons
      apply (sameEffect_split _ _ _ _).trans
      apply SameEffect.cons
      apply SameEffect.cons
      apply (sameEffect_split _ _ _ _).trans
      apply SameEffect.cons
      apply SameEffect.cons
      exact sameEffect_split _ _ _ _

/-- Behind the header the slot is clear. -/
theorem Fn.headed_zeroOn : (fn.headed c).ZeroOn payloadArea := by
  intro i hi
  have hclear : fn.header c = (fn.header c).take 13 ++
      [⟨payloadStart, zeros (slotStride - payloadStart)⟩] := rfl
  have hin : written (fn.header c) i = some 0 := by
    obtain ⟨hlo, hhi⟩ := hi
    simp only [payloadArea, Region.stop] at hlo hhi
    have hlt : i.val - payloadStart < slotStride - payloadStart := by omega
    rw [hclear, written_append, written, written, Option.none_or, Write.byte, if_pos hlo, zeros,
      List.getElem?_replicate, if_pos hlt, Option.some_or]
  rw [Fn.headed, Buffer.write, hin, Option.getD_some]

theorem Fn.headed_opcode : leNat ((fn.headed c).read Slot.hdrOpcode 2) = Slot.opcodeCip := by
  apply Buffer.leNat_read_of_le (k := 0)
  · rfl
  · decide
  · simp [Fn.header, Slot.headerWrites, Slot.hdrOpcode, Slot.hdrPayloadSize, Slot.hdrFnName,
      Slot.hdrClientPid, Slot.hdrIsDocker, Slot.hdrErrorcode, Slot.hdrSlotNumber, payloadStart]
  · decide

theorem Fn.headed_size : leNat ((fn.headed c).read Slot.hdrPayloadSize 4) = fn.size := by
  apply Buffer.leNat_read_of_le (k := 2)
  · rfl
  · exact fn.named.size_lt
  · simp [Fn.header, Slot.headerWrites, Slot.hdrPayloadSize, Slot.hdrFnName, Slot.hdrClientPid,
      Slot.hdrIsDocker, Slot.hdrErrorcode, Slot.hdrSlotNumber, payloadStart]
  · decide

theorem Fn.headed_name : cString ((fn.headed c).read Slot.hdrFnName 64) = ascii fn.name := by
  have htake : (ascii fn.name).take 63 = ascii fn.name :=
    List.take_of_length_le fn.named.length_le
  have hsplit : fn.header c = (fn.header c).take 3 ++
      ⟨Slot.hdrFnName, List.replicate 64 0⟩ :: ⟨Slot.hdrFnName, ascii fn.name⟩ ::
        (fn.header c).drop 5 := by
    conv_lhs => rw [Fn.header, Slot.headerWrites, htake]
    rfl
  rw [Fn.headed, hsplit]
  apply Buffer.cString_read
  · exact fn.named.nul_free
  · exact fn.named.length_le.trans (by decide)
  · exact le_rfl
  · intro v hv
    apply Region.disjoint_of_le_off
    simp only [Fn.header, Slot.headerWrites, List.drop_succ_cons, List.drop_zero, List.mem_cons,
      List.not_mem_nil, or_false] at hv
    rcases hv with rfl | rfl | rfl | rfl | rfl | rfl | rfl | rfl | rfl <;>
      simp [Region.stop, Write.region, Slot.hdrFnName, Slot.hdrClientPid, Slot.hdrIsDocker,
        Slot.hdrErrorcode, Slot.hdrSlotNumber, payloadStart]
  · decide

end Header

def Op.Fits (op : Op) : Prop := ∀ path, op.path = some path → path.bytes.length ≤ 254

section Fields

variable {op : Op}

/-- The fields of a request come one behind the other, none in front of the payload area. -/
theorem Op.fields_inOrder (op : Op) :
    InOrder op.fields ∧ ∀ w ∈ op.fields, 0x78 ≤ w.off ∧ w.region.stop ≤ 0x300 := by
  have hterm : ∀ s : List UInt8, (terminated s 256).length ≤ 256 :=
    fun s => List.length_take_le _ _
  cases op with
  | createTagDbHandle path | getDeviceIdObject path _ | getDeviceIdStatus path _
  | getExDevObject path _ | getDeviceIcpObject path _ | parsePath path
  | getWcTime _ path _ | setWcTime _ path _ _ =>
      have hpath := hterm path.bytes
      simp [Op.fields, WcTime.fields, InOrder, Region.stop, Write.region]
      omega
  | setDisplay four =>
      simp [Op.fields, InOrder, Region.stop, Write.region, four.2]
  | _ => simp [Op.fields, InOrder, Region.stop, Write.region]

variable {ws : List Write} (b : SlotBytes) (hws : InOrder ws) {off : Nat}

include hws

theorem u16At_of_mem {v : UInt16} (hw : ⟨off, leBytes 2 v.toNat⟩ ∈ ws)
    (hin : off + 2 ≤ slotStride) : u16At (Buffer.write ws b) off = v := by
  rw [u16At, Buffer.leNat_of_mem b hws hw v.toNat_lt hin, UInt16.ofNat_toNat]

theorem u32At_of_mem {v : UInt32} (hw : ⟨off, leBytes 4 v.toNat⟩ ∈ ws)
    (hin : off + 4 ≤ slotStride) : u32At (Buffer.write ws b) off = v := by
  rw [u32At, Buffer.leNat_of_mem b hws hw v.toNat_lt hin, UInt32.ofNat_toNat]

theorem u64At_of_mem {v : UInt64} (hw : ⟨off, leBytes 8 v.toNat⟩ ∈ ws)
    (hin : off + 8 ≤ slotStride) : u64At (Buffer.write ws b) off = v := by
  rw [u64At, Buffer.leNat_of_mem b hws hw v.toNat_lt hin, UInt64.ofNat_toNat]

theorem wcTimeAt_of_mem (wc : WcTime) (hsub : wc.fields ⊆ ws) :
    wcTimeAt (Buffer.write ws b) = wc := by
  have hmem : ∀ w ∈ wc.fields, w ∈ ws := fun w hw => hsub hw
  simp only [WcTime.fields, List.forall_mem_cons] at hmem
  obtain ⟨h₀, h₁, h₂, h₃, h₄, h₅, -⟩ := hmem
  rw [wcTimeAt, u64At_of_mem b hws h₀ (by decide), u64At_of_mem b hws h₁ (by decide),
    u64At_of_mem b hws h₂ (by decide), u64At_of_mem b hws h₃ (by decide),
    u64At_of_mem b hws h₄ (by decide), u64At_of_mem b hws h₅ (by decide)]

theorem pathAt_of_mem {path : CText} (hw : ⟨0x78, terminated path.bytes 256⟩ ∈ ws)
    (hle : path.bytes.length ≤ 254) : pathAt (Buffer.write ws b) = path := by
  have hbytes := Buffer.cString_of_mem b hws hw path.nul_free (hle.trans (by decide)) le_rfl
    (by decide)
  cases path
  simp only [pathAt, CText.mk.injEq]
  exact hbytes

end Fields

/-- The engine finds in a request what the caller has asked for. -/
theorem parse_fields {op : Op} (hfits : op.Fits) (b : SlotBytes) :
    op.fn.parse (Buffer.write op.fields b) = op := by
  have hws := op.fields_inOrder.1
  cases op with
  | errorString code =>
      have hcode := u32At_of_mem b hws (v := code.toUInt32) List.mem_cons_self (by decide)
      exact congrArg (fun v : UInt32 => Op.errorString v.toInt32) hcode
  | createTagDbHandle path =>
      exact congrArg Op.createTagDbHandle
        (pathAt_of_mem b hws List.mem_cons_self (hfits path rfl))
  | deleteTagDbHandle handle =>
      exact congrArg Op.deleteTagDbHandle (u32At_of_mem b hws List.mem_cons_self (by decide))
  | buildTagDb handle =>
      exact congrArg Op.buildTagDb (u32At_of_mem b hws List.mem_cons_self (by decide))
  | testTagDbVer handle =>
      exact congrArg Op.testTagDbVer (u32At_of_mem b hws List.mem_cons_self (by decide))
  | getSymbolInfo handle index =>
      exact congrArg₂ Op.getSymbolInfo (u32At_of_mem b hws List.mem_cons_self (by decide))
        (u16At_of_mem b hws (List.mem_of_getElem? (i := 1) rfl) (by decide))
  | getStructInfo handle structId =>
      exact congrArg₂ Op.getStructInfo (u32At_of_mem b hws List.mem_cons_self (by decide))
        (u16At_of_mem b hws (List.mem_of_getElem? (i := 1) rfl) (by decide))
  | getStructMbrInfo handle structId memberIndex =>
      have hhandle := u32At_of_mem b hws (v := handle) List.mem_cons_self (by decide)
      have hstruct := u16At_of_mem b hws (v := structId) (List.mem_of_getElem? (i := 1) rfl)
        (by decide)
      have hmember := u16At_of_mem b hws (v := memberIndex) (List.mem_of_getElem? (i := 2) rfl)
        (by decide)
      simp only [Op.fn, Fn.parse, hhandle, hstruct, hmember]
  | getDeviceIdObject path inst =>
      exact congrArg₂ Op.getDeviceIdObject
        (pathAt_of_mem b hws List.mem_cons_self (hfits path rfl))
        (u16At_of_mem b hws (List.mem_of_getElem? (i := 1) rfl) (by decide))
  | getDeviceIdStatus path inst =>
      exact congrArg₂ Op.getDeviceIdStatus
        (pathAt_of_mem b hws List.mem_cons_self (hfits path rfl))
        (u16At_of_mem b hws (List.mem_of_getElem? (i := 2) rfl) (by decide))
  | getExDevObject path inst =>
      exact congrArg₂ Op.getExDevObject
        (pathAt_of_mem b hws List.mem_cons_self (hfits path rfl))
        (u16At_of_mem b hws (List.mem_of_getElem? (i := 1) rfl) (by decide))
  | getDeviceIcpObject path inst =>
      exact congrArg₂ Op.getDeviceIcpObject
        (pathAt_of_mem b hws List.mem_cons_self (hfits path rfl))
        (u16At_of_mem b hws (List.mem_of_getElem? (i := 1) rfl) (by decide))
  | parsePath text =>
      exact congrArg Op.parsePath (pathAt_of_mem b hws List.mem_cons_self (hfits text rfl))
  | getWcTime clock path inst =>
      exact congrArg₂ (Op.getWcTime clock)
        (pathAt_of_mem b hws List.mem_cons_self (hfits path rfl))
        (u16At_of_mem b hws (List.mem_of_getElem? (i := 1) rfl) (by decide))
  | setWcTime clock path inst wc =>
      have hpath := pathAt_of_mem b hws List.mem_cons_self (hfits path rfl)
      have hinst := u16At_of_mem b hws (v := inst) (List.mem_of_getElem? (i := 1) rfl) (by decide)
      have hwc := wcTimeAt_of_mem b hws wc (List.subset_append_right _ _)
      simp only [Op.fn, Fn.parse, hpath, hinst, hwc]
  | getLed ledId =>
      exact congrArg Op.getLed (u32At_of_mem b hws List.mem_cons_self (by decide))
  | setLed ledId state =>
      exact congrArg₂ Op.setLed (u32At_of_mem b hws List.mem_cons_self (by decide))
        (u32At_of_mem b hws (List.mem_of_getElem? (i := 1) rfl) (by decide))
  | setDisplay four =>
      have hread := Buffer.read_of_mem b hws (w := ⟨0x78, four.1⟩) List.mem_cons_self (by
        simp [Region.Within, Write.region, Region.stop, four.2, slotStride])
      rw [four.2] at hread
      exact congrArg Op.setDisplay (Subtype.ext hread)
  | _ => rfl

def image (op : Op) (c : Claimant) : SlotBytes := Buffer.write op.fields (op.fn.headed c)

theorem image_read {op : Op} (c : Claimant) {off len : Nat} (hstop : off + len ≤ 0x78) :
    (image op c).read off len = (op.fn.headed c).read off len := by
  apply Buffer.read_write_of_disjoint
  intro w hw
  apply Region.disjoint_of_le_off
  exact hstop.trans (op.fields_inOrder.2 w hw).1

theorem parse_image {op : Op} (hfits : op.Fits) (c : Claimant) : parse (image op c) = some op := by
  have hopcode : leNat ((image op c).read Slot.hdrOpcode 2) = Slot.opcodeCip := by
    rw [image_read c (by decide), Fn.headed_opcode]
  have hname : cString ((image op c).read Slot.hdrFnName 64) = ascii op.fn.name := by
    rw [image_read c (by decide), Fn.headed_name]
  have hsize : leNat ((image op c).read Slot.hdrPayloadSize 4) = op.fn.size := by
    rw [image_read c (by decide), Fn.headed_size]
  rw [parse, if_neg (not_not_intro hopcode), hname, op.fn.named.found, Option.bind_some,
    if_neg (not_not_intro hsize), image, parse_fields hfits]

/-- Whatever a free slot holds, a call that asks for an operation makes it the same. -/
theorem Asks.prepare {sdk : Sdk} {op : Op} {call : Call} (hasks : Asks op call) (c : Claimant)
    {s : SlotBytes} (hfree : Slot.owner s = 0) :
    Slot.prepare sdk call.request c s = some (image op c) := by
  have hblank : Slot.owner (fun _ => 0) = 0 := by decide
  obtain ⟨ws, hheader, hsame⟩ := header_same op.fn c sdk call hasks.fn hasks.size
  have hheaded : Buffer.write ws (Buffer.write [Slot.ownerWrite c] fun _ => 0) =
      op.fn.headed c := hsame.write _
  rw [Slot.prepare_eq sdk _ c hfree hblank, Slot.prepare, Slot.reserve, if_pos hblank,
    Option.bind_some, hheader, Option.bind_some]
  have hfill := hasks.fill _ (op.fn.headed_zeroOn c)
  simp only [Call.request, hheaded, hfill]
  rfl

/-- What is asked for does not depend on the SDK that asks: two calls of the same operation
leave the same slot, byte for byte, wherever they are made from, and the engine finds the
operation in it with all its arguments. -/
theorem request_identical {sdk sdk' : Sdk} {op : Op} {call call' : Call}
    (h : start sdk op = .call call) (h' : start sdk' op = .call call') (c : Claimant)
    {s s' : SlotBytes} (hfree : Slot.owner s = 0) (hfree' : Slot.owner s' = 0) :
    ∃ slot, Slot.prepare sdk call.request c s = some slot ∧
      Slot.prepare sdk' call'.request c s' = some slot ∧ parse slot = some op ∧
      call.timeoutMs = call'.timeoutMs := by
  have hasks := asks_of_start h
  have hasks' := asks_of_start h'
  refine ⟨image op c, hasks.prepare c hfree, hasks'.prepare c hfree', ?_, ?_⟩
  · exact parse_image hasks.fits c
  · rw [hasks.timeout, hasks'.timeout]

def backplaneTwo : CText := ⟨[0x50, 0x3A, 0x31, 0x2C, 0x53, 0x3A, 0x32], by decide⟩

/-- Python asks for the time of a device as C does, through a slot with a stale byte in it. -/
theorem request_identical_wctime :
    ∃ slot, Slot.prepare .c (Call.mk "OCXcip_GetWCTime" 0x1B0 (C.wcGetFill backplaneTwo 1)
        5000).request ⟨1, 1, 0⟩ (fun _ => 0) = some slot ∧
      Slot.prepare .python (Call.mk "OCXcip_GetWCTime" 0x1B0
        (Python.wctimeReq backplaneTwo 1 (some Python.dummyWcTime)) 5000).request ⟨1, 1, 0⟩
        Slot.staleSlot = some slot ∧
      parse slot = some (.getWcTime .plain backplaneTwo 1) := by
  obtain ⟨slot, hc, hpython, hparse, -⟩ := @request_identical .c .python
    (.getWcTime .plain backplaneTwo 1) _ _ rfl rfl ⟨1, 1, 0⟩ (fun _ => 0) Slot.staleSlot
    (by decide) (by decide)
  exact ⟨slot, hc, hpython, hparse⟩

end BpClient.Calls
