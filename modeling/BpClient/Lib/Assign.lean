import Mathlib.Data.List.Nodup
import Mathlib.Logic.Function.Basic

/-!
A dictionary built by assignments, of which the last one for a key counts.
-/

namespace BpClient.Lib

variable {K V : Type*} [DecidableEq K] {dict : K → Option V} {kvs : List (K × V)}

def assign (dict : K → Option V) (kvs : List (K × V)) : K → Option V :=
  kvs.foldl (fun dict p => Function.update dict p.1 (some p.2)) dict

/-- A key that is not assigned keeps its value. -/
theorem assign_of_notMem {k : K} (h : k ∉ kvs.map Prod.fst) : assign dict kvs k = dict k := by
  induction kvs generalizing dict with
  | nil => rfl
  | cons p kvs ih =>
      rw [List.map_cons, List.mem_cons, not_or] at h
      exact (ih h.2).trans (Function.update_of_ne h.1 _ _)

/-- A key that is always assigned the same value has it. -/
theorem assign_of_mem {k : K} {v : V} (hmem : (k, v) ∈ kvs) (h : ∀ v', (k, v') ∈ kvs → v' = v) :
    assign dict kvs k = some v := by
  induction kvs generalizing dict with
  | nil => cases hmem
  | cons p kvs ih =>
      by_cases hrest : (k, v) ∈ kvs
      · exact ih hrest fun v' hv' => h v' (List.mem_cons_of_mem _ hv')
      · obtain rfl : (k, v) = p := (List.mem_cons.mp hmem).resolve_right hrest
        have hkey : k ∉ kvs.map Prod.fst := by
          intro hk
          obtain ⟨⟨k', v'⟩, hp, rfl⟩ := List.mem_map.mp hk
          exact hrest (h v' (List.mem_cons_of_mem _ hp) ▸ hp)
        exact (assign_of_notMem hkey).trans (Function.update_self ..)

theorem assign_of_nodup {p : K × V} (h : (kvs.map Prod.fst).Nodup) (hp : p ∈ kvs) :
    assign dict kvs p.1 = some p.2 := by
  apply assign_of_mem hp
  intro v' hv'
  have heq := List.inj_on_of_nodup_map h hv' hp rfl
  exact congrArg Prod.snd heq

end BpClient.Lib
