import BpClient.Lib.Buffer
import Mathlib.Data.List.TakeWhile

/-!
Records whose fields are stored in the order of their offsets. Each field is read back
as it was stored, a text with the zero byte that ends it. On bytes that are zero already,
stores of zeros may be left out.
-/

namespace BpClient.Lib

/-- Each store ends before the next begins. -/
def InOrder (ws : List Write) : Prop := ws.Pairwise fun v w => v.region.stop ≤ w.off

/-- A text as the bytes of a field of `size` bytes: with its terminating zero byte, if there is
room for it. -/
def terminated (s : List UInt8) (size : Nat) : List UInt8 := (s ++ [0]).take size

theorem nul_free_cString (bytes : List UInt8) : 0 ∉ cString bytes := by
  intro h
  have hne := List.mem_takeWhile_imp h
  simp at hne

theorem cString_terminated {s rest : List UInt8} (hnul : 0 ∉ s) :
    cString (s ++ 0 :: rest) = s := by
  have hs : ∀ c ∈ s, decide (c ≠ 0) = true := by
    intro c hc
    rw [decide_eq_true_eq]
    rintro rfl
    exact hnul hc
  rw [cString, List.takeWhile_append_of_pos hs, List.takeWhile_cons_of_neg (by simp),
    List.append_nil]

theorem cString_of_nul_free {s : List UInt8} (hnul : 0 ∉ s) : cString s = s := by
  have := cString_append_zeros hnul 0
  rwa [List.replicate_zero, List.append_nil] at this

/-- Terminated or not, a text in front of anything is found again. -/
theorem cString_take_terminated {s : List UInt8} (rest : List UInt8) {len size : Nat} (hnul : 0 ∉ s)
    (hlen : s.length ≤ len) (hsize : len ≤ size) :
    cString ((terminated s size ++ rest).take len) = s := by
  rcases hlen.lt_or_eq with hlt | rfl
  · have hwhole : terminated s size = s ++ [0] := by
      apply List.take_of_length_le
      rw [List.length_append, List.length_singleton]
      omega
    obtain ⟨k, hk⟩ := Nat.exists_eq_add_of_lt hlt
    have htake : (s ++ [0] ++ rest).take len = s ++ 0 :: rest.take k := by
      rw [hk, List.append_assoc, Nat.add_assoc, List.take_length_add_append]
      rfl
    rw [hwhole, htake, cString_terminated hnul]
  · have htake : (terminated s size ++ rest).take s.length = s := by
      have hle : s.length ≤ (terminated s size).length := by
        rw [terminated, List.length_take, List.length_append]
        omega
      rw [List.take_append_of_le_length hle, terminated, List.take_take, Nat.min_eq_left hsize,
        List.take_left]
    rw [htake, cString_of_nul_free hnul]

namespace Buffer

variable {n : Nat} {ws : List Write} {w : Write} (b : Buffer n)

/-- Every field of a record is read back. -/
theorem read_of_mem (hws : InOrder ws) (hw : w ∈ ws) (hin : w.region.Within n) :
    (write ws b).read w.off w.bytes.length = w.bytes := by
  obtain ⟨front, back, rfl⟩ := List.append_of_mem hw
  apply read_write front back w.bytes b
  · intro v hv
    have hpair := (List.pairwise_append.mp hws).2.1
    exact Region.disjoint_of_le_off ((List.pairwise_cons.mp hpair).1 v hv)
  · exact hin

/-- So is the front of a field. -/
theorem read_take_of_mem (hws : InOrder ws) (hw : w ∈ ws) (hin : w.region.Within n) {len : Nat}
    (hlen : len ≤ w.bytes.length) : (write ws b).read w.off len = w.bytes.take len := by
  obtain ⟨k, hk⟩ := Nat.exists_eq_add_of_le hlen
  have hread := read_of_mem b hws hw hin
  rw [hk, read_add] at hread
  have htake := congrArg (List.take len) hread
  rwa [List.take_left' (read_length _ _ _)] at htake

theorem leNat_of_mem (hws : InOrder ws) {off width v : Nat} (hw : ⟨off, leBytes width v⟩ ∈ ws)
    (hv : v < 256 ^ width) (hin : off + width ≤ n) :
    leNat ((write ws b).read off width) = v := by
  have hread := read_of_mem b hws hw (by rwa [Region.Within, Write.region, Region.stop,
    leBytes_length])
  rw [leBytes_length] at hread
  rw [hread, leNat_leBytes_of_lt hv]

theorem get_of_mem (hws : InOrder ws) {off : Nat} {v : UInt8} (hw : ⟨off, [v]⟩ ∈ ws)
    (hin : off < n) : (write ws b).get off = v := by
  have hread : (write ws b).read off 1 = [v] := read_of_mem b hws hw hin
  simpa [read] using hread

theorem cString_of_mem (hws : InOrder ws) {off size len : Nat} {s : List UInt8}
    (hw : ⟨off, terminated s size⟩ ∈ ws) (hnul : 0 ∉ s) (hlen : s.length ≤ len)
    (hsize : len ≤ size) (hin : off + size ≤ n) :
    cString ((write ws b).read off len) = s := by
  have hle : (terminated s size).length ≤ size := List.length_take_le _ _
  have hwithin : (⟨off, terminated s size⟩ : Write).region.Within n := by
    simp only [Region.Within, Write.region, Region.stop]
    omega
  rcases le_total len (terminated s size).length with hshort | hlong
  · rw [read_take_of_mem b hws hw hwithin hshort]
    have hnil := cString_take_terminated [] hnul hlen hsize
    rwa [List.append_nil] at hnil
  · obtain ⟨k, hk⟩ := Nat.exists_eq_add_of_le hlong
    have hread := read_of_mem b hws hw hwithin
    have htake : (write ws b).read off len =
        (terminated s size ++ (write ws b).read (off + (terminated s size).length) k).take len := by
      rw [hk, read_add]
      have : (write ws b).read off (terminated s size).length = terminated s size := hread
      rw [this, ← hk, List.take_of_length_le]
      rw [List.length_append, read_length, hk]
    rw [htake, cString_take_terminated _ hnul hlen hsize]

/-- What is cut out of a copy stands in the buffer. -/
theorem read_window {off len start k : Nat} (h : start + k ≤ len) :
    ((b.read off len).drop start).take k = b.read (off + start) k := by
  obtain ⟨rest, rfl⟩ := Nat.exists_eq_add_of_le h
  rw [read_add, List.drop_append_of_le_length (by rw [read_length]; omega), read_add,
    List.drop_left' (read_length _ _ _), List.take_left' (read_length _ _ _)]

theorem read_take {off len k : Nat} (h : k ≤ len) : (b.read off len).take k = b.read off k := by
  have hwindow : ((b.read off len).drop 0).take k = b.read (off + 0) k :=
    read_window b (by rwa [Nat.zero_add])
  rwa [List.drop_zero, Nat.add_zero] at hwindow

theorem leField_read {off len start width : Nat} (h : start + width ≤ len) :
    leField start width (b.read off len) = leNat (b.read (off + start) width) := by
  rw [leField, read_window b h]

/-- Stores of zeros, last. -/
theorem write_append_zeros {zs : List Write} (hzero : ∀ z ∈ zs, ∃ k, z.bytes = List.replicate k 0)
    (hb : ∀ z ∈ zs, b.ZeroOn z.region) (hws : ∀ z ∈ zs, ∀ v ∈ ws, v.region.Disjoint z.region) :
    write (ws ++ zs) b = write ws b := by
  induction zs with
  | nil => rw [List.append_nil]
  | cons z zs ih =>
      obtain ⟨k, hk⟩ := hzero z List.mem_cons_self
      have hclear : (write ws b).ZeroOn z.region :=
        (hb z List.mem_cons_self).write (hws z List.mem_cons_self)
      have hone : write [z] (write ws b) = write ws b := by
        have hz : z = ⟨z.off, List.replicate k 0⟩ := by rw [← hk]
        have hregion : z.region = ⟨z.off, k⟩ := by
          rw [Write.region, hk, List.length_replicate]
        rw [hz]
        rw [hregion] at hclear
        exact write_zeros hclear
      have hrest := ih (fun z hz => hzero z (List.mem_cons_of_mem _ hz))
        (fun z hz => hb z (List.mem_cons_of_mem _ hz))
        (fun z hz => hws z (List.mem_cons_of_mem _ hz))
      rw [write_append] at hrest ⊢
      rw [show z :: zs = [z] ++ zs from rfl, write_append, hone, hrest]

end Buffer

end BpClient.Lib
