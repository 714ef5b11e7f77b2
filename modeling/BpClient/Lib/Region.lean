import BpClient.Lib.Bytes

/-!
Byte regions of a buffer: containment, disjointness, and regions laid out one
after the other. A write is the bytes it stores at an offset.
-/

namespace BpClient.Lib

structure Region where
  off : Nat
  len : Nat
  deriving DecidableEq, Repr

namespace Region

def stop (r : Region) : Nat := r.off + r.len

def Contains (r : Region) (x : Nat) : Prop := r.off ≤ x ∧ x < r.stop

/-- Every byte of the region lies in a buffer of `size` bytes. -/
def Within (r : Region) (size : Nat) : Prop := r.stop ≤ size

def Disjoint (r t : Region) : Prop := ∀ x, ¬ (r.Contains x ∧ t.Contains x)

theorem disjoint_of_stop_le {r t : Region} (h : r.stop ≤ t.off) : r.Disjoint t := by
  rintro x ⟨⟨-, hr⟩, ⟨ht, -⟩⟩
  omega

theorem Disjoint.mono {r t u : Region} (h : r.Disjoint t) (hoff : t.off ≤ u.off)
    (hstop : u.stop ≤ t.stop) : r.Disjoint u :=
  fun x hx => h x ⟨hx.1, Nat.le_trans hoff hx.2.1, Nat.lt_of_lt_of_le hx.2.2 hstop⟩

theorem Disjoint.symm {r t : Region} (h : r.Disjoint t) : t.Disjoint r :=
  fun x hx => h x ⟨hx.2, hx.1⟩

theorem disjoint_of_le_off {r t : Region} (h : t.stop ≤ r.off) : r.Disjoint t :=
  (disjoint_of_stop_le h).symm

section Windows

variable {w r : Region} {lo hi start : Nat}

/-- What lies in a window, or behind a start, is not in front of both. -/
theorem disjoint_of_before (h : lo ≤ w.off ∧ w.stop ≤ hi ∨ start ≤ w.off) (hlo : r.stop ≤ lo)
    (hstart : r.stop ≤ start) : w.Disjoint r := by
  rcases h with ⟨hoff, -⟩ | hoff
  · exact disjoint_of_le_off (hlo.trans hoff)
  · exact disjoint_of_le_off (hstart.trans hoff)

/-- Nor is it between the two. -/
theorem disjoint_of_between (h : lo ≤ w.off ∧ w.stop ≤ hi ∨ start ≤ w.off) (hhi : hi ≤ r.off)
    (hstart : r.stop ≤ start) : w.Disjoint r := by
  rcases h with ⟨-, hstop⟩ | hoff
  · exact disjoint_of_stop_le (hstop.trans hhi)
  · exact disjoint_of_le_off (hstart.trans hoff)

end Windows

end Region

/-- Regions of the given lengths, one after the other from `off` on. -/
def layOut (off : Nat) : List Nat → List Region
  | [] => []
  | n :: ns => ⟨off, n⟩ :: layOut (off + n) ns

theorem mem_layOut {off : Nat} {ns : List Nat} {r : Region} (h : r ∈ layOut off ns) :
    off ≤ r.off ∧ r.stop ≤ off + ns.sum := by
  induction ns generalizing off with
  | nil => cases h
  | cons n ns ih =>
      rw [List.sum_cons]
      rcases List.mem_cons.mp h with rfl | h
      · simp only [Region.stop]
        omega
      · have := ih h
        omega

theorem layOut_pairwise (off : Nat) (ns : List Nat) :
    (layOut off ns).Pairwise Region.Disjoint := by
  induction ns generalizing off with
  | nil => exact .nil
  | cons n ns ih =>
      refine .cons (fun r hr => ?_) (ih (off + n))
      exact Region.disjoint_of_stop_le (mem_layOut hr).1

structure Write where
  off : Nat
  bytes : List UInt8
  deriving DecidableEq, Repr

namespace Write

def region (w : Write) : Region := ⟨w.off, w.bytes.length⟩

/-- The write with its offset counted from `base`. -/
def shift (base : Nat) (w : Write) : Write := ⟨base + w.off, w.bytes⟩

@[simp] theorem region_stop (w : Write) : w.region.stop = w.off + w.bytes.length := rfl

end Write

end BpClient.Lib
