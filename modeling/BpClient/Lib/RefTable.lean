import BpClient.Lib.Table

/-!
Tables whose entries are reached through references. A key is looked up once; the entry that
it has, or gets, is read and written through the reference from then on, whatever happens to
the rest of the table. An array of cells that are taken and not given back is such a table,
and a map is one.
-/

namespace BpClient.Lib

structure RefTable (T R K V : Type*) where
  empty : T
  /-- A reference to the entry of a key, a new one if there is none; `none` without room. -/
  findOrAlloc : T → K → Option (T × R)
  get : T → R → V
  set : T → R → V → T
  lookup : T → K → Option V

/-- The table is a partial map `lookup`, and references stay with their keys. -/
structure RefTable.Lawful {T R K V : Type*} [DecidableEq K] (tab : RefTable T R K V) (fresh : V)
    (Valid : T → Prop) (Refers : T → R → K → Prop) : Prop where
  empty : Valid tab.empty ∧ ∀ k, tab.lookup tab.empty k = none
  alloc {t t' : T} {k : K} {r : R} : Valid t → tab.findOrAlloc t k = some (t', r) → Valid t' ∧
    Refers t' r k ∧
    tab.lookup t' = Function.update (tab.lookup t) k (some ((tab.lookup t k).getD fresh)) ∧
    ∀ r' k', Refers t r' k' → Refers t' r' k'
  full {t : T} {k : K} : Valid t → tab.findOrAlloc t k = none → tab.lookup t k = none
  get {t : T} {r : R} {k : K} : Valid t → Refers t r k → tab.lookup t k = some (tab.get t r)
  set {t : T} {r : R} {k : K} {v : V} : Valid t → Refers t r k → Valid (tab.set t r v) ∧
    tab.lookup (tab.set t r v) = Function.update (tab.lookup t) k (some v) ∧
    ∀ r' k', Refers t r' k' → Refers (tab.set t r v) r' k'

namespace Cells

variable {K V : Type*} [DecidableEq K] {n : Nat}

def refs (admits : K → Bool) (free : Cell K V) (fresh : V) :
    RefTable (Fin n → Cell K V) (Fin n) K V where
  empty := fun _ => free
  findOrAlloc := fun cells k =>
    if admits k then
      match find cells k with
      | some i => some (cells, i)
      | none => (alloc cells).map fun i => (Function.update cells i ⟨true, k, fresh⟩, i)
    else none
  get := fun cells i => (cells i).value
  set := fun cells i v => Function.update cells i { cells i with value := v }
  lookup := (ops free).find

def Holds (cells : Fin n → Cell K V) (i : Fin n) (k : K) : Prop :=
  (cells i).inUse = true ∧ (cells i).key = k

/-- No key is held twice, and none that is not admitted. -/
structure Sound (admits : K → Bool) (cells : Fin n → Cell K V) : Prop where
  distinct : Distinct cells
  admitted : ∀ i k, Holds cells i k → admits k = true

variable {admits : K → Bool} {cells : Fin n → Cell K V}

omit [DecidableEq K] in
theorem Holds.update {i j : Fin n} {k' : K} {c : Cell K V} (h : Holds cells j k')
    (hkeep : j = i → c.inUse = true ∧ c.key = k') : Holds (Function.update cells i c) j k' := by
  by_cases hji : j = i
  · subst hji
    rw [Holds, Function.update_self]
    exact hkeep rfl
  · rwa [Holds, Function.update_of_ne hji]

omit [DecidableEq K] in
theorem holds_update_cases {i j : Fin n} {k : K} {c : Cell K V}
    (h : Holds (Function.update cells i c) j k) : j = i ∧ c.key = k ∨ Holds cells j k := by
  by_cases hji : j = i
  · subst hji
    rw [Holds, Function.update_self] at h
    exact .inl ⟨rfl, h.2⟩
  · rw [Holds, Function.update_of_ne hji] at h
    exact .inr h

theorem lookup_of_holds (free : Cell K V) (hd : Distinct cells) {i : Fin n} {k : K}
    (h : Holds cells i k) :
    (ops free).find cells k = some (cells i).value :=
  (lookup_eq_some hd).mpr ⟨i, h.1, h.2, rfl⟩

/-- A cell that is written through its reference keeps its key. -/
theorem Sound.set (free : Cell K V) (hs : Sound admits cells) {i : Fin n} {k : K}
    (h : Holds cells i k) (v : V) :
    Sound admits (Function.update cells i { cells i with value := v }) ∧
      (ops free).find (Function.update cells i { cells i with value := v }) =
        Function.update ((ops free).find cells) k (some v) ∧
      ∀ j k', Holds cells j k' →
        Holds (Function.update cells i { cells i with value := v }) j k' := by
  obtain ⟨huse, hkey⟩ := h
  have hother : ∀ j, j ≠ i → (cells j).inUse = true → (cells j).key ≠ k :=
    fun j hj hjuse hjk => hj (hs.distinct j i hjuse huse (hjk.trans hkey.symm))
  obtain ⟨hd, hfind⟩ := @lookup_update _ _ _ _ cells free hs.distinct i
    { cells i with value := v } k (fun _ => hkey) (fun _ => hkey) hother
  refine ⟨⟨hd, fun j k' hj => ?_⟩, by simpa [huse] using hfind, fun j k' hj => ?_⟩
  · rcases holds_update_cases hj with ⟨rfl, hk'⟩ | hj
    · exact hs.admitted j k' ⟨huse, hk'⟩
    · exact hs.admitted j k' hj
  · exact hj.update fun hji => hji ▸ hj

/-- A free cell is taken for a key that has none. -/
theorem Sound.take (free : Cell K V) (fresh : V) (hs : Sound admits cells) {i : Fin n} {k : K}
    (hk : admits k = true) (hnone : find cells k = none) (hfree : alloc cells = some i) :
    Sound admits (Function.update cells i ⟨true, k, fresh⟩) ∧
      Holds (Function.update cells i ⟨true, k, fresh⟩) i k ∧
      (ops free).find (Function.update cells i ⟨true, k, fresh⟩) =
        Function.update ((ops free).find cells) k (some fresh) ∧
      ∀ j k', Holds cells j k' → Holds (Function.update cells i ⟨true, k, fresh⟩) j k' := by
  have hi := alloc_some hfree
  obtain ⟨hd, hfind⟩ := @lookup_update _ _ _ _ cells free hs.distinct i ⟨true, k, fresh⟩ k
    (by simp [hi]) (fun _ => rfl) fun j _ hj => find_none hnone j hj
  refine ⟨⟨hd, fun j k' hj => ?_⟩, ?_, hfind, fun j k' hj => hj.update fun hji => ?_⟩
  · rcases holds_update_cases hj with ⟨-, rfl⟩ | hj
    · exact hk
    · exact hs.admitted j k' hj
  · rw [Holds, Function.update_self]
    exact ⟨rfl, rfl⟩
  · rw [hji] at hj
    exact absurd (hi.symm.trans hj.1) Bool.false_ne_true

/-- All cells are taken when as many keys as there are cells have one. -/
theorem all_taken_iff {free : Cell K V} (hd : Distinct cells) : alloc cells = none ↔
    ∃ ks : Finset K, ks.card = n ∧ ∀ k ∈ ks, ((ops free).find cells k).isSome = true := by
  constructor
  · intro hfull
    have hall := alloc_none hfull
    refine ⟨Finset.univ.image fun i => (cells i).key, ?_, fun k hk => ?_⟩
    · rw [Finset.card_image_of_injective _ fun i j hij => hd i j (hall i) (hall j) hij]
      exact Finset.card_fin n
    · obtain ⟨i, -, rfl⟩ := Finset.mem_image.mp hk
      rw [lookup_of_holds free hd ⟨hall i, rfl⟩]
      rfl
  · rintro ⟨ks, hcard, hheld⟩
    cases hfree : alloc cells with
    | none => rfl
    | some i =>
        have hsub : ks ⊆ (Finset.univ.erase i).image fun j => (cells j).key := by
          intro k hk
          obtain ⟨v, hv⟩ := Option.isSome_iff_exists.mp (hheld k hk)
          obtain ⟨j, huse, hkey, -⟩ := (lookup_eq_some hd).mp hv
          have hji : j ≠ i := by
            rintro rfl
            cases (alloc_some hfree).symm.trans huse
          exact Finset.mem_image.mpr ⟨j, Finset.mem_erase.mpr ⟨hji, Finset.mem_univ j⟩, hkey⟩
        have hle := (Finset.card_le_card hsub).trans Finset.card_image_le
        rw [hcard, Finset.card_erase_of_mem (Finset.mem_univ i), Finset.card_fin] at hle
        have hpos := i.pos
        omega

variable {free : Cell K V} {fresh : V}

/-- An array of cells refers to each key by the cell that holds it. -/
theorem refs_lawful (hfree : free.inUse = false) :
    (refs (n := n) admits free fresh).Lawful fresh (Sound admits) Holds where
  empty := by
    refine ⟨⟨fun i j hi => ?_, fun i k hi => ?_⟩, fun k => ?_⟩
    · simp [refs, hfree] at hi
    · simp [refs, Holds, hfree] at hi
    · simp [refs, ops, find, hfree]
  alloc := by
    intro cells cells' k i hs halloc
    simp only [refs] at halloc ⊢
    split at halloc
    · next hk =>
        cases hfind : find cells k with
        | some j =>
            rw [hfind] at halloc
            cases halloc
            have hholds : Holds cells i k := find_some hfind
            refine ⟨hs, hholds, ?_, fun _ _ h => h⟩
            have hlookup := lookup_of_holds free hs.distinct hholds
            rw [hlookup, Option.getD_some, ← hlookup, Function.update_eq_self]
        | none =>
            rw [hfind] at halloc
            obtain ⟨j, hj, heq⟩ := Option.map_eq_some_iff.mp halloc
            cases heq
            have hlookup : (ops free).find cells k = none := Option.map_eq_none_iff.mpr hfind
            obtain ⟨hsound, hholds, hupdate, hkeep⟩ := hs.take free fresh hk hfind hj
            rw [hlookup]
            exact ⟨hsound, hholds, hupdate, hkeep⟩
    · cases halloc
  full := by
    intro cells k hs hnone
    simp only [refs] at hnone ⊢
    cases hfind : find cells k with
    | none => exact Option.map_eq_none_iff.mpr hfind
    | some i =>
        rw [if_pos (hs.admitted i k (find_some hfind)), hfind] at hnone
        cases hnone
  get := fun hs h => lookup_of_holds free hs.distinct h
  set := fun hs h => hs.set free h _

/-- A key finds no room if it is not admitted, or if other keys have all the cells. -/
theorem refs_full_iff (hs : Sound admits cells) {k : K} :
    (refs admits free fresh).findOrAlloc cells k = none ↔ admits k = false ∨
      (refs admits free fresh).lookup cells k = none ∧ ∃ ks : Finset K, ks.card = n ∧
        ∀ k' ∈ ks, ((refs admits free fresh).lookup cells k').isSome = true := by
  cases hk : admits k with
  | false => simp [refs, hk]
  | true =>
      have hlookup : (refs admits free fresh).lookup cells k = none ↔ find cells k = none :=
        Option.map_eq_none_iff
      rw [hlookup]
      cases hfind : find cells k with
      | some i => simp [refs, hk, hfind]
      | none =>
          simp only [refs, hk, hfind, if_true, Option.map_eq_none_iff, Bool.true_eq_false, false_or,
            true_and]
          exact all_taken_iff hs.distinct

end Cells

section Map

variable {K V : Type*} [DecidableEq K] {fresh : V}

/-- A map, whose keys are the references. -/
def mapRefs (fresh : V) : RefTable (K → Option V) K K V where
  empty := fun _ => none
  findOrAlloc := fun m k =>
    match m k with
    | some _ => some (m, k)
    | none => some (Function.update m k (some fresh), k)
  get := fun m k => (m k).getD fresh
  set := fun m k v => Function.update m k (some v)
  lookup := fun m => m

theorem mapRefs_lawful : (mapRefs (K := K) fresh).Lawful fresh (fun _ => True)
    fun m r k => r = k ∧ (m k).isSome where
  empty := ⟨trivial, fun _ => rfl⟩
  alloc := by
    intro m m' k r _ halloc
    simp only [mapRefs] at halloc ⊢
    cases hk : m k with
    | some v =>
        rw [hk] at halloc
        cases halloc
        refine ⟨trivial, ⟨rfl, by rw [hk]; rfl⟩, ?_, fun _ _ h => h⟩
        rw [Option.getD_some, ← hk, Function.update_eq_self]
    | none =>
        rw [hk] at halloc
        cases halloc
        refine ⟨trivial, ⟨rfl, by rw [Function.update_self]; rfl⟩, rfl, fun r' k' h => ⟨h.1, ?_⟩⟩
        by_cases hkk : k' = k
        · rw [hkk, Function.update_self]
          rfl
        · rw [Function.update_of_ne hkk]
          exact h.2
  full := by
    intro m k _ hnone
    simp only [mapRefs] at hnone
    split at hnone <;> cases hnone
  get := by
    rintro m r k - ⟨rfl, hsome⟩
    obtain ⟨v, hv⟩ := Option.isSome_iff_exists.mp hsome
    simp only [mapRefs, hv, Option.getD_some]
  set := by
    rintro m r k v - ⟨rfl, -⟩
    refine ⟨trivial, rfl, fun r' k' h => ⟨h.1, ?_⟩⟩
    simp only [mapRefs]
    by_cases hkk : k' = r
    · rw [hkk, Function.update_self]
      rfl
    · rw [Function.update_of_ne hkk]
      exact h.2

end Map

end BpClient.Lib
