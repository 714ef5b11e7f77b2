import BpClient.Lib.Transition
import Mathlib.Data.List.AList
import Mathlib.Data.List.FinRange

/-!
Tables from keys to values with room for a fixed number of entries. A lawful
table behaves as a partial map whatever its representation; the two
representations are an array of cells that are free or in use, and a map whose
size is checked before an insertion.
-/

namespace BpClient.Lib

structure TableOps (T K V : Type*) where
  empty : T
  entries : T → List (K × V)
  find : T → K → Option V
  /-- For a key that is not there; `none` when the table is full. -/
  insert : T → K → V → Option T
  modify : T → K → (V → V) → T
  erase : T → K → T

/-- The table is a partial map `find` of at most `cap` entries. -/
structure TableOps.Lawful {T K V : Type*} [DecidableEq K] (ops : TableOps T K V) (cap : Nat)
    (Valid : T → Prop) : Prop where
  nodup {t : T} : Valid t → ((ops.entries t).map Prod.fst).Nodup
  length_le {t : T} : Valid t → (ops.entries t).length ≤ cap
  find_iff {t : T} {k : K} {v : V} : Valid t → (ops.find t k = some v ↔ (k, v) ∈ ops.entries t)
  empty : Valid ops.empty ∧ ∀ k, ops.find ops.empty k = none
  insert {t t' : T} {k : K} {v : V} : Valid t → ops.find t k = none →
    ops.insert t k v = some t' → Valid t' ∧ ops.find t' = Function.update (ops.find t) k (some v)
  full {t : T} {k : K} {v : V} : Valid t → ops.insert t k v = none → (ops.entries t).length = cap
  modify {t : T} {k : K} {f : V → V} : Valid t → Valid (ops.modify t k f) ∧
    ops.find (ops.modify t k f) = Function.update (ops.find t) k ((ops.find t k).map f)
  erase {t : T} {k : K} : Valid t →
    Valid (ops.erase t k) ∧ ops.find (ops.erase t k) = Function.update (ops.find t) k none

section Array

variable {K V : Type*} [DecidableEq K] {n : Nat}

structure Cell (K V : Type*) where
  inUse : Bool
  key : K
  value : V

namespace Cells

variable (cells : Fin n → Cell K V)

def find (k : K) : Option (Fin n) :=
  (List.finRange n).find? fun i => (cells i).inUse && decide ((cells i).key = k)

def alloc : Option (Fin n) := (List.finRange n).find? fun i => !(cells i).inUse

def entry (i : Fin n) : Option (K × V) :=
  if (cells i).inUse then some ((cells i).key, (cells i).value) else none

def ops (free : Cell K V) : TableOps (Fin n → Cell K V) K V where
  empty := fun _ => free
  entries := fun cells => (List.finRange n).filterMap (entry cells)
  find := fun cells k => (find cells k).map fun i => (cells i).value
  insert := fun cells k v => (alloc cells).map fun i => Function.update cells i ⟨true, k, v⟩
  modify := fun cells k f => match find cells k with
    | some i => Function.update cells i { cells i with value := f (cells i).value }
    | none => cells
  erase := fun cells k => match find cells k with
    | some i => Function.update cells i { cells i with inUse := false }
    | none => cells

def Distinct : Prop :=
  ∀ i j, (cells i).inUse = true → (cells j).inUse = true → (cells i).key = (cells j).key → i = j

variable {cells} {free : Cell K V}

theorem find_some {k : K} {i : Fin n} (h : find cells k = some i) :
    (cells i).inUse = true ∧ (cells i).key = k := by
  simpa using List.find?_some h

theorem find_none {k : K} (h : find cells k = none) (i : Fin n) (hi : (cells i).inUse = true) :
    (cells i).key ≠ k := by
  simpa [hi] using List.find?_eq_none.mp h i (List.mem_finRange i)

theorem find_eq_some (hd : Distinct cells) {k : K} {i : Fin n} :
    find cells k = some i ↔ (cells i).inUse = true ∧ (cells i).key = k := by
  refine ⟨find_some, fun ⟨huse, hkey⟩ => ?_⟩
  cases h : find cells k with
  | none => exact absurd hkey (find_none h i huse)
  | some j =>
      obtain ⟨huse', hkey'⟩ := find_some h
      rw [hd j i huse' huse (hkey'.trans hkey.symm)]

theorem lookup_eq_some (hd : Distinct cells) {k : K} {v : V} : (ops free).find cells k = some v ↔
    ∃ i, (cells i).inUse = true ∧ (cells i).key = k ∧ (cells i).value = v := by
  simp only [ops, Option.map_eq_some_iff, find_eq_some hd, and_assoc]

omit [DecidableEq K] in
theorem Distinct.update (hd : Distinct cells) {i : Fin n} {c : Cell K V}
    (hc : c.inUse = true → ∀ j, j ≠ i → (cells j).inUse = true → (cells j).key ≠ c.key) :
    Distinct (Function.update cells i c) := by
  intro a b ha hb hab
  by_cases hai : a = i <;> by_cases hbi : b = i
  · rw [hai, hbi]
  · subst a
    simp only [Function.update_self, Function.update_of_ne hbi] at ha hb hab
    exact absurd hab.symm (hc ha b hbi hb)
  · subst b
    simp only [Function.update_self, Function.update_of_ne hai] at ha hb hab
    exact absurd hab (hc hb a hai ha)
  · simp only [Function.update_of_ne hai, Function.update_of_ne hbi] at ha hb hab
    exact hd a b ha hb hab

/-- Writing the cell of a key affects the key alone. -/
theorem lookup_update (hd : Distinct cells) {i : Fin n} {c : Cell K V} {k : K}
    (hold : (cells i).inUse = true → (cells i).key = k) (hnew : c.inUse = true → c.key = k)
    (hk : ∀ j, j ≠ i → (cells j).inUse = true → (cells j).key ≠ k) :
    Distinct (Function.update cells i c) ∧ (ops free).find (Function.update cells i c) =
      Function.update ((ops free).find cells) k (if c.inUse then some c.value else none) := by
  have hd' : Distinct (Function.update cells i c) :=
    hd.update fun huse j hj hjuse => hnew huse ▸ hk j hj hjuse
  refine ⟨hd', funext fun k' => Option.ext fun v => ?_⟩
  rw [lookup_eq_some hd']
  by_cases hkk : k' = k
  · subst k'
    rw [Function.update_self]
    constructor
    · rintro ⟨j, huse, hkey, hval⟩
      by_cases hji : j = i
      · subst j
        rw [Function.update_self] at huse hval
        simp [huse, hval]
      · rw [Function.update_of_ne hji] at huse hkey
        exact absurd hkey (hk j hji huse)
    · intro hv
      split at hv
      · next huse =>
          have hval := Option.some.inj hv
          exact ⟨i, by simp [huse, hnew huse, hval]⟩
      · cases hv
  · rw [Function.update_of_ne hkk, lookup_eq_some hd]
    refine exists_congr fun j => ?_
    by_cases hji : j = i
    · subst j
      rw [Function.update_self]
      constructor
      · rintro ⟨huse, hkey, -⟩
        exact absurd (hkey.symm.trans (hnew huse)) hkk
      · rintro ⟨huse, hkey, -⟩
        exact absurd (hkey.symm.trans (hold huse)) hkk
    · rw [Function.update_of_ne hji]

omit [DecidableEq K] in
theorem alloc_some {i : Fin n} (h : alloc cells = some i) : (cells i).inUse = false := by
  simpa using List.find?_some h

omit [DecidableEq K] in
theorem alloc_none (h : alloc cells = none) (i : Fin n) : (cells i).inUse = true := by
  simpa using List.find?_eq_none.mp h i (List.mem_finRange i)

omit [DecidableEq K] in
theorem entries_nodup (hd : Distinct cells) :
    (((List.finRange n).filterMap (entry cells)).map Prod.fst).Nodup := by
  rw [List.map_filterMap]
  refine (List.nodup_finRange n).filterMap fun i j k hi hj => ?_
  simp only [Option.mem_def, Option.map_eq_some_iff, entry] at hi hj
  obtain ⟨x, hx, rfl⟩ := hi
  obtain ⟨y, hy, hxy⟩ := hj
  split at hx <;> cases hx
  split at hy <;> cases hy
  next hi hj => exact hd i j hi hj hxy.symm

/-- The array of cells is a lawful table of `n` entries. -/
theorem lawful (hfree : free.inUse = false) :
    (ops (n := n) free).Lawful n (Distinct (K := K) (V := V)) where
  nodup := entries_nodup
  length_le := fun _ => (List.length_filterMap_le _ _).trans_eq (List.length_finRange ..)
  find_iff := by
    intro cells k v hd
    rw [lookup_eq_some hd]
    simp only [ops, List.mem_filterMap, List.mem_finRange, true_and, entry]
    refine exists_congr fun i => ?_
    split
    · next huse => simp [huse]
    · next huse => simp [huse]
  empty := by
    refine ⟨fun i j hi => ?_, fun k => ?_⟩
    · simp [ops, hfree] at hi
    · simp [ops, find, hfree]
  insert := by
    intro cells cells' k v hd hnone hins
    obtain ⟨i, hi, rfl⟩ := Option.map_eq_some_iff.mp hins
    have hk : find cells k = none := Option.map_eq_none_iff.mp hnone
    refine lookup_update hd ?_ (fun _ => rfl) fun j _ hj => find_none hk j hj
    simp [alloc_some hi]
  full := by
    intro cells k v _ hins
    have hall := alloc_none (Option.map_eq_none_iff.mp hins)
    have hentry : entry cells = some ∘ fun i => ((cells i).key, (cells i).value) := by
      funext i
      simp [entry, hall i]
    simp [ops, hentry]
  modify := by
    intro cells k f hd
    cases hi : find cells k with
    | some i =>
        obtain ⟨huse, hkey⟩ := find_some hi
        have heq : (ops free).modify cells k f =
            Function.update cells i { cells i with value := f (cells i).value } := by
          simp [ops, hi]
        have hfind : (ops free).find cells k = some (cells i).value := by simp [ops, hi]
        rw [heq, hfind]
        obtain ⟨hd', hfind'⟩ := @lookup_update _ _ _ _ cells free hd i
          { cells i with value := f (cells i).value } k (fun _ => hkey) (fun _ => hkey)
          fun j hj hjuse hjk => hj (hd j i hjuse huse (hjk.trans hkey.symm))
        exact ⟨hd', by simpa [huse] using hfind'⟩
    | none =>
        have heq : (ops free).modify cells k f = cells := by simp [ops, hi]
        have hfind : (ops free).find cells k = none := by simp [ops, hi]
        rw [heq, hfind]
        exact ⟨hd, (Function.update_eq_self_iff.mpr hfind.symm).symm⟩
  erase := by
    intro cells k hd
    cases hi : find cells k with
    | some i =>
        obtain ⟨huse, hkey⟩ := find_some hi
        have heq : (ops free).erase cells k =
            Function.update cells i { cells i with inUse := false } := by
          simp [ops, hi]
        rw [heq]
        obtain ⟨hd', hfind'⟩ := @lookup_update _ _ _ _ cells free hd i
          { cells i with inUse := false } k (fun _ => hkey) (fun _ => hkey)
          fun j hj hjuse hjk => hj (hd j i hjuse huse (hjk.trans hkey.symm))
        exact ⟨hd', by simpa using hfind'⟩
    | none =>
        have heq : (ops free).erase cells k = cells := by simp [ops, hi]
        have hfind : (ops free).find cells k = none := by simp [ops, hi]
        rw [heq]
        exact ⟨hd, (Function.update_eq_self_iff.mpr hfind.symm).symm⟩

end Cells

end Array

section Map

variable {K V : Type*} [DecidableEq K]

/-- A map whose size is checked before an insertion. -/
def mapOps (cap : Nat) : TableOps (AList fun _ : K => V) K V where
  empty := ∅
  entries := fun m => m.entries.map fun e => (e.1, e.2)
  find := fun m k => m.lookup k
  insert := fun m k v => if m.entries.length < cap then some (m.insert k v) else none
  modify := fun m k f => match m.lookup k with
    | some v => m.insert k (f v)
    | none => m
  erase := fun m k => m.erase k

theorem lookup_insert_eq (m : AList fun _ : K => V) (k : K) (v : V) :
    (fun k' => (m.insert k v).lookup k') = Function.update (fun k' => m.lookup k') k (some v) := by
  funext k'
  by_cases hk : k' = k
  · subst k'
    rw [Function.update_self, AList.lookup_insert]
  · rw [Function.update_of_ne hk, AList.lookup_insert_ne hk]

theorem lookup_erase_eq (m : AList fun _ : K => V) (k : K) :
    (fun k' => (m.erase k).lookup k') = Function.update (fun k' => m.lookup k') k none := by
  funext k'
  by_cases hk : k' = k
  · subst k'
    rw [Function.update_self, AList.lookup_erase]
  · rw [Function.update_of_ne hk, AList.lookup_erase_ne hk]

omit [DecidableEq K] in
theorem length_keys (m : AList fun _ : K => V) : m.keys.length = m.entries.length :=
  List.length_map ..

/-- A map with a bound is a table of that capacity. -/
theorem mapOps_lawful (cap : Nat) :
    (mapOps (K := K) (V := V) cap).Lawful cap fun m => m.entries.length ≤ cap where
  nodup := by
    intro m _
    have := m.keys_nodup
    simpa [mapOps, AList.keys, List.keys, Function.comp_def] using this
  length_le := fun h => by simpa [mapOps] using h
  find_iff := by
    intro m k v _
    rw [← Option.mem_def]
    simp only [mapOps]
    rw [AList.mem_lookup_iff]
    constructor
    · exact fun h => List.mem_map.mpr ⟨_, h, rfl⟩
    · intro h
      obtain ⟨⟨k', v'⟩, he, heq⟩ := List.mem_map.mp h
      cases heq
      exact he
  empty := ⟨by simp [mapOps], fun _ => rfl⟩
  insert := by
    intro m m' k v _ hnone hins
    simp only [mapOps] at hins
    split at hins <;> cases hins
    next hlt =>
    refine ⟨?_, lookup_insert_eq m k v⟩
    have hk : k ∉ m := AList.lookup_eq_none.mp hnone
    rw [AList.entries_insert_of_notMem hk, List.length_cons]
    omega
  full := by
    intro m k v hle hins
    simp only [mapOps] at hins ⊢
    split at hins <;> cases hins
    next hge =>
    rw [List.length_map]
    omega
  modify := by
    intro m k f hle
    cases hv : m.lookup k with
    | some v =>
        have heq : (mapOps cap).modify m k f = m.insert k (f v) := by simp [mapOps, hv]
        have hfind : (mapOps cap).find m k = some v := hv
        rw [heq, hfind]
        refine ⟨?_, lookup_insert_eq m k (f v)⟩
        have hk : k ∈ m.keys := AList.mem_keys.mp (AList.lookup_isSome.mp (by rw [hv]; rfl))
        have hpos : 0 < m.keys.length := List.length_pos_of_mem hk
        rw [← length_keys, AList.keys_insert, List.length_cons, List.length_erase_of_mem hk]
        rw [← length_keys] at hle
        omega
    | none =>
        have heq : (mapOps cap).modify m k f = m := by simp [mapOps, hv]
        have hfind : (mapOps cap).find m k = none := hv
        rw [heq, hfind]
        exact ⟨hle, (Function.update_eq_self_iff.mpr hfind.symm).symm⟩
  erase := by
    intro m k hle
    exact ⟨(List.kerase_sublist k m.entries).length_le.trans hle, lookup_erase_eq m k⟩

end Map

end BpClient.Lib
