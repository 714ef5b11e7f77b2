import Mathlib.Data.List.TakeDrop

/-!
A list cut into batches: the loop `for start := 0; start < len; start += n` over
`l[start:start+n]`.
-/

namespace BpClient.Lib

variable {α : Type*} {n : Nat} {l : List α}

/-- The batches of at most `n` elements, in order. -/
def batches (n : Nat) (l : List α) : List (List α) :=
  (List.range ((l.length + n - 1) / n)).map fun k => (l.drop (k * n)).take n

theorem batches_nil (hn : 1 ≤ n) : batches n ([] : List α) = [] := by
  have hcount : (0 + n - 1) / n = 0 := Nat.div_eq_of_lt (by omega)
  rw [batches, List.length_nil, hcount, List.range_zero, List.map_nil]

/-- The first batch, and those of the rest. -/
theorem batches_eq_cons (hn : 1 ≤ n) (hl : l ≠ []) :
    batches n l = l.take n :: batches n (l.drop n) := by
  have hpos := List.length_pos_iff.mpr hl
  have hcount : (l.length + n - 1) / n = (l.length - n + n - 1) / n + 1 := by
    by_cases hlen : l.length ≤ n
    · have hone : l.length + n - 1 = l.length - 1 + 1 * n := by omega
      have hzero : l.length - n + n - 1 = n - 1 := by omega
      rw [hone, hzero, Nat.add_mul_div_right _ _ hn, Nat.div_eq_of_lt (by omega),
        Nat.div_eq_of_lt (by omega)]
    · have hmore : l.length + n - 1 = l.length - n + n - 1 + 1 * n := by omega
      rw [hmore, Nat.add_mul_div_right _ _ hn]
  rw [batches, hcount, List.range_succ_eq_map, List.map_cons, List.map_map, Nat.zero_mul,
    List.drop_zero, batches, List.length_drop]
  refine congrArg _ (List.map_congr_left fun k _ => ?_)
  rw [Function.comp_apply, List.drop_drop, Nat.succ_mul, Nat.add_comm n]

/-- A list that fits into one batch. -/
theorem batches_of_length_le (hl : l ≠ []) (hlen : l.length ≤ n) : batches n l = [l] := by
  have hn : 1 ≤ n := Nat.le_trans (List.length_pos_iff.mpr hl) hlen
  rw [batches_eq_cons hn hl, List.take_of_length_le hlen, List.drop_of_length_le hlen,
    batches_nil hn]

/-- What holds of no batch, and of a first batch before those of which it holds,
holds of the batches of a list. -/
theorem batches_induction {motive : List α → List (List α) → Prop} (hn : 1 ≤ n)
    (nil : motive [] [])
    (cons : ∀ first rest, first ≠ [] → first.length ≤ n →
      motive rest (batches n rest) → motive (first ++ rest) (first :: batches n rest)) :
    motive l (batches n l) := by
  induction hlen : l.length using Nat.strongRecOn generalizing l with
  | ind len ih =>
      by_cases hl : l = []
      · subst hl
        rw [batches_nil hn]
        exact nil
      · have hpos := List.length_pos_iff.mpr hl
        have hrest : motive (l.drop n) (batches n (l.drop n)) :=
          ih (l.drop n).length (by rw [List.length_drop]; omega) rfl
        have hfirst : l.take n ≠ [] := by
          intro hnil
          have hzero := congrArg List.length hnil
          rw [List.length_take, List.length_nil] at hzero
          omega
        have hstep := cons (l.take n) (l.drop n) hfirst (List.length_take_le n l) hrest
        rw [List.take_append_drop] at hstep
        rw [batches_eq_cons hn hl]
        exact hstep

/-- Every element is in exactly one batch. -/
theorem batches_flatten (hn : 1 ≤ n) : (batches n l).flatten = l := by
  apply batches_induction (motive := fun l bs => bs.flatten = l) hn
  · rfl
  · intro first rest _ _ ih
    rw [List.flatten_cons, ih]

theorem length_le_of_mem_batches {batch : List α} (h : batch ∈ batches n l) : batch.length ≤ n := by
  obtain ⟨k, -, rfl⟩ := List.mem_map.mp h
  exact List.length_take_le n _

theorem ne_nil_of_mem_batches (hn : 1 ≤ n) {batch : List α} (h : batch ∈ batches n l) :
    batch ≠ [] := by
  revert h
  apply batches_induction (motive := fun _ bs => batch ∈ bs → batch ≠ []) hn
  · intro h
    cases h
  · intro first rest hfirst _ ih h
    rcases List.mem_cons.mp h with rfl | h
    · exact hfirst
    · exact ih h

end BpClient.Lib
