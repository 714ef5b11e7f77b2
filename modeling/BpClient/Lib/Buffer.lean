import BpClient.Lib.Region

/-!
Buffers of a fixed number of bytes, and what a sequence of writes leaves in
them. The last write that reaches a byte decides it; writes that together reach
every byte leave nothing of what was there before.
-/

namespace BpClient.Lib

abbrev Buffer (n : Nat) := Fin n → UInt8

/-- The byte that a write stores at a place, if it reaches it. -/
def Write.byte (w : Write) (i : Nat) : Option UInt8 :=
  if w.off ≤ i then w.bytes[i - w.off]? else none

/-- The byte that the last write to reach a place stores there. -/
def written : List Write → Nat → Option UInt8
  | [], _ => none
  | w :: ws, i => (written ws i).or (w.byte i)

namespace Buffer

variable {n : Nat}

def write (ws : List Write) (b : Buffer n) : Buffer n := fun i => (written ws i).getD (b i)

end Buffer

theorem byte_isSome_iff {w : Write} {i : Nat} : (w.byte i).isSome ↔ w.region.Contains i := by
  simp only [Write.byte, Write.region, Region.Contains, Region.stop]
  split
  · rw [isSome_getElem?]
    omega
  · simp only [Option.isSome_none, Bool.false_eq_true, false_iff]
    omega

theorem written_append (ws vs : List Write) (i : Nat) :
    written (ws ++ vs) i = (written vs i).or (written ws i) := by
  induction ws with
  | nil => simp [written]
  | cons w ws ih => rw [List.cons_append, written, ih, written, Option.or_assoc]

theorem written_isSome {ws : List Write} {w : Write} {i : Nat} (hw : w ∈ ws)
    (hi : w.region.Contains i) : (written ws i).isSome := by
  induction ws with
  | nil => cases hw
  | cons v ws ih =>
      rw [written, Option.isSome_or, Bool.or_eq_true]
      rcases List.mem_cons.mp hw with rfl | hw
      · exact .inr (byte_isSome_iff.mpr hi)
      · exact .inl (ih hw)

theorem written_eq_none {ws : List Write} {i : Nat} (h : ∀ w ∈ ws, ¬ w.region.Contains i) :
    written ws i = none := by
  induction ws with
  | nil => rfl
  | cons w ws ih =>
      have hbyte : w.byte i = none := by
        rw [← Option.not_isSome_iff_eq_none, byte_isSome_iff]
        exact h w List.mem_cons_self
      rw [written, ih fun v hv => h v (List.mem_cons_of_mem w hv), hbyte]
      rfl

namespace Buffer

variable {n : Nat}

/-- Writes are made one by one. -/
theorem write_append (ws vs : List Write) (b : Buffer n) :
    write (ws ++ vs) b = write vs (write ws b) := by
  funext i
  simp only [write, written_append]
  cases written vs i <;> rfl

/-- A byte depends on what it was before, and on no other. -/
theorem write_congr {ws : List Write} {b b' : Buffer n} {i : Fin n} (h : b i = b' i) :
    write ws b i = write ws b' i := by
  rw [write, write, h]

theorem write_of_disjoint {ws : List Write} {r : Region} (h : ∀ w ∈ ws, w.region.Disjoint r)
    (b : Buffer n) {i : Fin n} (hi : r.Contains i) : write ws b i = b i := by
  have hnone : written ws i = none := written_eq_none fun w hw hcontains => h w hw i ⟨hcontains, hi⟩
  rw [write, hnone, Option.getD_none]

def ZeroOn (b : Buffer n) (r : Region) : Prop := ∀ i : Fin n, r.Contains i → b i = 0

theorem ZeroOn.mono {b : Buffer n} {r t : Region} (h : b.ZeroOn r) (hoff : r.off ≤ t.off)
    (hstop : t.stop ≤ r.stop) : b.ZeroOn t :=
  fun i hi => h i ⟨Nat.le_trans hoff hi.1, Nat.lt_of_lt_of_le hi.2 hstop⟩

theorem ZeroOn.write {b : Buffer n} {r : Region} (h : b.ZeroOn r) {ws : List Write}
    (hws : ∀ w ∈ ws, w.region.Disjoint r) : (Buffer.write ws b).ZeroOn r :=
  fun i hi => (write_of_disjoint hws b hi).trans (h i hi)

/-- Clearing what is clear changes nothing. -/
theorem write_zeros {b : Buffer n} {off k : Nat} (h : b.ZeroOn ⟨off, k⟩) :
    Buffer.write [⟨off, List.replicate k 0⟩] b = b := by
  funext i
  by_cases hi : (⟨off, k⟩ : Region).Contains i
  · obtain ⟨hlo, hhi⟩ := hi
    simp only [Region.stop] at hlo hhi
    have hlt : i - off < k := by omega
    have hwritten : written [⟨off, List.replicate k 0⟩] i = some 0 := by
      rw [written, written, Option.none_or, Write.byte, if_pos hlo, List.getElem?_replicate,
        if_pos hlt]
    rw [write, hwritten, Option.getD_some, h i ⟨hlo, hhi⟩]
  · have hnone : written [⟨off, List.replicate k 0⟩] i = none := by
      refine written_eq_none fun w hw => ?_
      rw [List.mem_singleton] at hw
      subst hw
      simpa only [Write.region, List.length_replicate] using hi
    rw [write, hnone, Option.getD_none]

end Buffer

/-- Writes with the same effect on every buffer. -/
def SameEffect (ws vs : List Write) : Prop := ∀ i, written ws i = written vs i

theorem SameEffect.refl (ws : List Write) : SameEffect ws ws := fun _ => rfl

theorem SameEffect.trans {ws vs us : List Write} (h : SameEffect ws vs) (h' : SameEffect vs us) :
    SameEffect ws us := fun i => (h i).trans (h' i)

theorem SameEffect.cons (w : Write) {ws vs : List Write} (h : SameEffect ws vs) :
    SameEffect (w :: ws) (w :: vs) := by
  intro i
  rw [written, written, h i]

theorem SameEffect.append {ws ws' vs vs' : List Write} (h : SameEffect ws ws')
    (h' : SameEffect vs vs') : SameEffect (ws ++ vs) (ws' ++ vs') := by
  intro i
  rw [written_append, written_append, h i, h' i]

theorem SameEffect.write {n : Nat} {ws vs : List Write} (h : SameEffect ws vs) (b : Buffer n) :
    Buffer.write ws b = Buffer.write vs b := by
  funext i
  rw [Buffer.write, Buffer.write, h i]

/-- Bytes written together or in two parts. -/
theorem sameEffect_split (off : Nat) (front back : List UInt8) (ws : List Write) :
    SameEffect (⟨off, front ++ back⟩ :: ws) (⟨off, front⟩ :: ⟨off + front.length, back⟩ :: ws) := by
  intro i
  simp only [written, Option.or_assoc]
  refine congrArg _ ?_
  simp only [Write.byte]
  by_cases hoff : off ≤ i
  · by_cases hback : off + front.length ≤ i
    · have hsub : i - off - front.length = i - (off + front.length) := by omega
      rw [if_pos hoff, if_pos hback, if_pos hoff, List.getElem?_append_right (by omega),
        List.getElem?_eq_none (l := front) (by omega), hsub, Option.or_none]
    · rw [if_pos hoff, if_neg hback, if_pos hoff, List.getElem?_append_left (by omega),
        Option.none_or]
  · have hback : ¬ off + front.length ≤ i := by omega
    rw [if_neg hoff, if_neg hback, if_neg hoff, Option.none_or]

namespace Buffer

variable {n : Nat}

/-- The byte at a place, zero behind the end. -/
def get (b : Buffer n) (i : Nat) : UInt8 := if h : i < n then b ⟨i, h⟩ else 0

def read (b : Buffer n) (off len : Nat) : List UInt8 :=
  (List.range len).map fun k => b.get (off + k)

@[simp] theorem read_length (b : Buffer n) (off len : Nat) : (b.read off len).length = len := by
  simp [read]

theorem read_getElem (b : Buffer n) {off len k : Nat} (hk : k < (b.read off len).length) :
    (b.read off len)[k] = b.get (off + k) := by
  simp [read]

theorem read_add (b : Buffer n) (off k m : Nat) :
    b.read off (k + m) = b.read off k ++ b.read (off + k) m := by
  simp only [read, List.range_add, List.map_append, List.map_map, Function.comp_def, Nat.add_assoc]

theorem get_write {ws : List Write} {b : Buffer n} {i : Nat} (hi : i < n) :
    (write ws b).get i = (written ws i).getD (b.get i) := by
  simp only [get, dif_pos hi, write]

/-- Writes elsewhere do not change what is read. -/
theorem read_write_of_disjoint {ws : List Write} (b : Buffer n) {off len : Nat}
    (h : ∀ w ∈ ws, w.region.Disjoint ⟨off, len⟩) : (write ws b).read off len = b.read off len := by
  refine List.map_congr_left fun k hk => ?_
  have hlt := List.mem_range.mp hk
  have hnone : written ws (off + k) = none := by
    refine written_eq_none fun w hw hcontains => h w hw _ ⟨hcontains, Nat.le_add_right off k, ?_⟩
    exact Nat.add_lt_add_left hlt off
  by_cases hin : off + k < n
  · rw [get_write hin, hnone, Option.getD_none]
  · simp only [get, dif_neg hin]

/-- What has been written last to a region is read back. -/
theorem read_write (front back : List Write) {off : Nat} (bytes : List UInt8) (b : Buffer n)
    (hback : ∀ v ∈ back, v.region.Disjoint ⟨off, bytes.length⟩) (hin : off + bytes.length ≤ n) :
    (write (front ++ ⟨off, bytes⟩ :: back) b).read off bytes.length = bytes := by
  refine List.ext_getElem (read_length _ _ _) fun k hk hk' => ?_
  have hcontains : (⟨off, bytes.length⟩ : Region).Contains (off + k) :=
    ⟨Nat.le_add_right off k, Nat.add_lt_add_left hk' off⟩
  have hnone : written back (off + k) = none :=
    written_eq_none fun v hv h => hback v hv _ ⟨h, hcontains⟩
  have hbyte : (⟨off, bytes⟩ : Write).byte (off + k) = some bytes[k] := by
    rw [Write.byte, if_pos (Nat.le_add_right off k), Nat.add_sub_cancel_left,
      List.getElem?_eq_getElem hk']
  rw [read_getElem, get_write (by omega), written_append, written, hnone, hbyte]
  rfl

/-- Zeros that nothing has been written over are read back. -/
theorem read_cleared (front back : List Write) {off k start len : Nat} (b : Buffer n)
    (hback : ∀ v ∈ back, v.region.Disjoint ⟨start, len⟩) (hstart : off ≤ start)
    (hstop : start + len ≤ off + k) (hin : start + len ≤ n) :
    (write (front ++ ⟨off, List.replicate k 0⟩ :: back) b).read start len =
      List.replicate len 0 := by
  refine List.ext_getElem (by simp) fun j hj hj' => ?_
  have hlt : j < len := by simpa using hj
  have hlo : off ≤ start + j := by omega
  have hhi : start + j - off < k := by omega
  have hcontains : (⟨start, len⟩ : Region).Contains (start + j) :=
    ⟨Nat.le_add_right start j, Nat.add_lt_add_left hlt start⟩
  have hnone : written back (start + j) = none :=
    written_eq_none fun v hv h => hback v hv _ ⟨h, hcontains⟩
  have hbyte : (⟨off, List.replicate k 0⟩ : Write).byte (start + j) = some 0 := by
    rw [Write.byte, if_pos hlo, List.getElem?_replicate, if_pos hhi]
  rw [read_getElem, get_write (by omega), written_append, written, hnone, hbyte,
    List.getElem_replicate]
  rfl

end Buffer

/-- Pieces stored one behind the other, with a running offset. -/
def appended (off : Nat) : List (List UInt8) → List Write
  | [] => []
  | piece :: rest => ⟨off, piece⟩ :: appended (off + piece.length) rest

theorem off_le_of_mem_appended {off : Nat} {pieces : List (List UInt8)} {w : Write}
    (h : w ∈ appended off pieces) : off ≤ w.off := by
  induction pieces generalizing off with
  | nil => cases h
  | cons piece rest ih =>
      rcases List.mem_cons.mp h with rfl | h
      · exact le_rfl
      · exact (Nat.le_add_right off piece.length).trans (ih h)

/-- The pieces stay in a buffer when all their bytes do. -/
theorem appended_within_iff {off size : Nat} {pieces : List (List UInt8)} (hoff : off ≤ size) :
    (∀ w ∈ appended off pieces, w.region.Within size) ↔ off + pieces.flatten.length ≤ size := by
  induction pieces generalizing off with
  | nil => simpa [appended] using hoff
  | cons piece rest ih =>
      rw [appended, List.forall_mem_cons, List.flatten_cons, List.length_append, ← Nat.add_assoc]
      constructor
      · rintro ⟨hfirst, hrest⟩
        exact (ih hfirst).mp hrest
      · intro h
        have hfirst : off + piece.length ≤ size := (Nat.le_add_right _ _).trans h
        exact ⟨hfirst, (ih hfirst).mpr h⟩

/-- Pieces stored one behind the other are stored as a whole. -/
theorem appended_sameEffect (off : Nat) (pieces : List (List UInt8)) :
    SameEffect (appended off pieces) [⟨off, pieces.flatten⟩] := by
  induction pieces generalizing off with
  | nil =>
      intro i
      simp [appended, written, Write.byte]
  | cons piece rest ih =>
      intro i
      rw [appended, List.flatten_cons, sameEffect_split]
      exact (ih (off + piece.length)).cons ⟨off, piece⟩ i

/-- What has been stored piece by piece is read back as a whole. -/
theorem Buffer.read_appended {n : Nat} {off : Nat} {pieces : List (List UInt8)} (b : Buffer n)
    (h : off + pieces.flatten.length ≤ n) :
    (Buffer.write (appended off pieces) b).read off pieces.flatten.length = pieces.flatten := by
  induction pieces generalizing off b with
  | nil => rfl
  | cons piece rest ih =>
      rw [List.flatten_cons, List.length_append] at h ⊢
      have hback : ∀ v ∈ appended (off + piece.length) rest,
          v.region.Disjoint ⟨off, piece.length⟩ := fun v hv =>
        (Region.disjoint_of_stop_le
          (show (⟨off, piece.length⟩ : Region).stop ≤ v.region.off from
            off_le_of_mem_appended hv)).symm
      have hfirst := Buffer.read_write [] _ piece b hback (show off + piece.length ≤ n by omega)
      have hrest := ih (Buffer.write [⟨off, piece⟩] b)
        (show off + piece.length + rest.flatten.length ≤ n by omega)
      rw [← Buffer.write_append] at hrest
      rw [Buffer.read_add, appended]
      exact congrArg₂ _ hfirst hrest

/-- A string up to its terminating zero byte. -/
def cString (bytes : List UInt8) : List UInt8 := bytes.takeWhile (· ≠ 0)

theorem cString_append_zeros {s : List UInt8} (h : 0 ∉ s) (k : Nat) :
    cString (s ++ List.replicate k 0) = s := by
  have hs : ∀ c ∈ s, decide (c ≠ 0) = true := by
    intro c hc
    rw [decide_eq_true_eq]
    rintro rfl
    exact h hc
  rw [cString, List.takeWhile_append_of_pos hs]
  cases k with
  | zero => simp
  | succ k => simp [List.replicate_succ]

/-- A string copied over zeros is read back, its end found by the zeros. -/
theorem Buffer.cString_read {n : Nat} (front back : List Write) {off k len : Nat} {s : List UInt8}
    (b : Buffer n) (hnul : 0 ∉ s) (hlen : s.length ≤ len) (hk : len ≤ k)
    (hback : ∀ v ∈ back, v.region.Disjoint ⟨off, len⟩) (hin : off + len ≤ n) :
    cString ((Buffer.write (front ++ ⟨off, List.replicate k 0⟩ :: ⟨off, s⟩ :: back) b).read off len)
      = s := by
  obtain ⟨m, rfl⟩ := Nat.exists_eq_add_of_le hlen
  have hname : (Buffer.write (front ++ ⟨off, List.replicate k 0⟩ :: ⟨off, s⟩ :: back) b).read off
      s.length = s := by
    have := Buffer.read_write (front ++ [⟨off, List.replicate k 0⟩]) back s b
      (fun v hv => (hback v hv).mono (le_refl off) (by simp only [Region.stop]; omega))
      (show off + s.length ≤ n by omega)
    simpa only [List.append_assoc, List.singleton_append] using this
  have hrest : (Buffer.write (front ++ ⟨off, List.replicate k 0⟩ :: ⟨off, s⟩ :: back) b).read
      (off + s.length) m = List.replicate m 0 := by
    refine Buffer.read_cleared front _ b (fun v hv => ?_) (by omega) (by omega) (by omega)
    rcases List.mem_cons.mp hv with rfl | hv
    · exact Region.disjoint_of_stop_le (le_refl (off + s.length))
    · exact (hback v hv).mono (Nat.le_add_right off s.length) (by simp only [Region.stop]; omega)
  rw [Buffer.read_add, hname, hrest, cString_append_zeros hnul]

/-- A number is read back from its bytes. -/
theorem Buffer.leNat_read {n : Nat} (front back : List Write) {off width v : Nat} (b : Buffer n)
    (hv : v < 256 ^ width) (hback : ∀ w ∈ back, w.region.Disjoint ⟨off, width⟩)
    (hin : off + width ≤ n) :
    leNat ((Buffer.write (front ++ ⟨off, leBytes width v⟩ :: back) b).read off width) = v := by
  have hread : (Buffer.write (front ++ ⟨off, leBytes width v⟩ :: back) b).read off width =
      leBytes width v := by
    have := Buffer.read_write front back (leBytes width v) b (by rwa [leBytes_length])
      (by rwa [leBytes_length])
    rwa [leBytes_length] at this
  rw [hread, leNat_leBytes_of_lt hv]

/-- A number is read back when all later writes are behind it. -/
theorem Buffer.leNat_read_of_le {n : Nat} {ws : List Write} {k off width v : Nat} (b : Buffer n)
    (hw : ws[k]? = some ⟨off, leBytes width v⟩) (hv : v < 256 ^ width)
    (hback : ∀ w ∈ ws.drop (k + 1), off + width ≤ w.off) (hin : off + width ≤ n) :
    leNat ((Buffer.write ws b).read off width) = v := by
  obtain ⟨hk, hget⟩ := List.getElem?_eq_some_iff.mp hw
  have hsplit : ws = ws.take k ++ ⟨off, leBytes width v⟩ :: ws.drop (k + 1) := by
    rw [← hget, ← List.drop_eq_getElem_cons hk, List.take_append_drop]
  rw [hsplit]
  refine Buffer.leNat_read _ _ b hv (fun w hw => ?_) hin
  exact (Region.disjoint_of_stop_le (show (⟨off, width⟩ : Region).stop ≤ w.region.off from
    hback w hw)).symm

/-- How far regions fill a buffer that is filled up to `a`, taken in order. -/
def filled (a : Nat) : List Region → Nat
  | [] => a
  | r :: rs => if r.off ≤ a then filled (max a r.stop) rs else a

theorem covered_of_filled {a i : Nat} {rs : List Region} (ha : a ≤ i) (hi : i < filled a rs) :
    ∃ r ∈ rs, r.Contains i := by
  induction rs generalizing a with
  | nil => exact absurd hi (by simp only [filled]; omega)
  | cons r rs ih =>
      rw [filled] at hi
      split at hi
      · next hoff =>
          by_cases hr : i < r.stop
          · exact ⟨r, List.mem_cons_self, Nat.le_trans hoff ha, hr⟩
          · obtain ⟨t, ht, hcontains⟩ := ih (by omega) hi
            exact ⟨t, List.mem_cons_of_mem r ht, hcontains⟩
      · omega

/-- Writes to regions that fill the buffer leave nothing of its former contents. -/
theorem Buffer.write_eq {n : Nat} {ws : List Write} {rs : List Region}
    (hsub : rs ⊆ ws.map Write.region) (hfill : n ≤ filled 0 rs) (b b' : Buffer n) :
    Buffer.write ws b = Buffer.write ws b' := by
  funext i
  obtain ⟨r, hr, hi⟩ := covered_of_filled (Nat.zero_le i) (Nat.lt_of_lt_of_le i.isLt hfill)
  obtain ⟨w, hw, rfl⟩ := List.mem_map.mp (hsub hr)
  obtain ⟨v, hv⟩ := Option.isSome_iff_exists.mp (written_isSome hw hi)
  rw [Buffer.write, Buffer.write, hv, Option.getD_some, Option.getD_some]

end BpClient.Lib
