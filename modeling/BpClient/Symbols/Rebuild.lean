import BpClient.Symbols.Model

/-!
The cache across builds: what the threads in `lookup_symbol` and
`preload_symbols` may assume of it when they take the mutex again, and what
holds of the cache and of every lookup as long as they are right.
-/

namespace BpClient.Symbols

open BpClient.Lib
open BpClient.Slot (Sdk CallId)

def Absent (name : List UInt8) (syms : List SymbolInfo) : Prop := ∀ sym ∈ syms, sym.name ≠ name

def Build.lookup (b : Build) (name : List UInt8) : Option SymbolInfo :=
  b.table.symbols.find? fun sym => sym.name = name

/-- The cache holds descriptors of the build that sized it, each at its index,
and a lookup that has found nothing had nothing to find in the build that the
cache was sized by when it returned. -/
structure Faithful (s : State) : Prop where
  cached : ∀ i < s.cache.knownCount, s.cache.symbols[i]? = s.sized.table.symbols[i]?
  notFound : ∀ id h name last, s.calls id = some (.lookup h name, .done .notFound last) →
    Absent name last.table.symbols

def Op.scans : Op → Bool
  | .lookup _ _ => true
  | .build _ | .preload _ => false

/-- What a call that takes the mutex again after `symbol_at` meets. The append
guard is open only if the engine has answered from the build that sized the
cache; a lookup that goes on from its index has left nothing behind it. -/
def OnTime (c : TagCache) (sized : Build) : Option (Op × Pc) → Prop
  | some (op, .fetched idx _ src seen) =>
      (idx = c.knownCount ∧ c.knownCount < c.symbols.length → src = sized) ∧
        (op.scans = true → seen = sized ∨ idx = 0 ∨ c.knownCount = 0)
  | _ => True

instance (c : TagCache) (sized : Build) : (call : Option (Op × Pc)) → Decidable (OnTime c sized call)
  | some (_, .fetched _ _ _ _) => inferInstanceAs (Decidable (_ ∧ _))
  | some (_, .enter) | some (_, .reset _) | some (_, .fetch _ _) | some (_, .done _ _) | none =>
      inferInstanceAs (Decidable True)

def Timely (s : State) : Label → Prop
  | .start _ _ => True
  | .run id _ => OnTime s.cache s.sized (s.calls id)

instance (s : State) : (l : Label) → Decidable (Timely s l)
  | .start _ _ => inferInstanceAs (Decidable True)
  | .run id _ => inferInstanceAs (Decidable (OnTime s.cache s.sized (s.calls id)))

/-- What a call knows of the builds it has seen. -/
def Pc.Ok (op : Op) : Pc → Prop
  | .enter | .reset _ => True
  | .fetch idx seen =>
      ∀ h name, op = .lookup h name → Absent name (seen.table.symbols.take idx)
  | .fetched idx sym src seen => src.table.symbols[idx]? = some sym ∧
      ∀ h name, op = .lookup h name → Absent name (seen.table.symbols.take idx)
  | .done r last => ∀ h name, op = .lookup h name →
      (∀ sym, r = .found sym → last.lookup name = some sym) ∧
        (r = .notFound → Absent name last.table.symbols)

structure Good (s : State) : Prop where
  total : s.cache.totalCount = s.sized.table.symbols.length
  known : s.cache.known = s.sized.table.symbols.take s.cache.knownCount
  unused : s.inUse = false → s.sized = .zero
  calls : ∀ id op pc, s.calls id = some (op, pc) → pc.Ok op

section Cache

variable {c : TagCache} {idx : Nat} {sym : SymbolInfo} {name : List UInt8}

theorem Absent.nil : Absent name [] := fun _ h => absurd h List.not_mem_nil

theorem Absent.sublist {syms syms' : List SymbolInfo} (h : Absent name syms)
    (hsub : syms'.Sublist syms) : Absent name syms' :=
  fun sym hsym => h sym (hsub.subset hsym)

theorem absent_iff {syms : List SymbolInfo} :
    Absent name syms ↔ syms.find? (fun sym => sym.name = name) = none := by
  simp [Absent, List.find?_eq_none]

@[simp] theorem TagCache.known_length (c : TagCache) : c.known.length = c.knownCount := by
  rw [TagCache.known, List.length_take, Nat.min_eq_left c.known_le]

theorem TagCache.length_le_total (c : TagCache) : c.symbols.length ≤ c.totalCount := by
  rcases c.capacity with h | h
  · exact h.le
  · rw [h]
    exact Nat.zero_le _

theorem TagCache.append_of_closed
    (h : ¬ (idx = c.knownCount ∧ c.knownCount < c.symbols.length)) : c.append idx sym = c :=
  dif_neg h

/-- An open append guard: the descriptor becomes the last known one. -/
theorem TagCache.append_of_open (sym : SymbolInfo) (hidx : idx = c.knownCount)
    (hlt : c.knownCount < c.symbols.length) :
    (c.append idx sym).knownCount = c.knownCount + 1 ∧
      (c.append idx sym).known = c.known ++ [sym] := by
  have happend : c.append idx sym = _ := dif_pos ⟨hidx, hlt⟩
  rw [happend]
  refine ⟨rfl, ?_⟩
  simp only [TagCache.known]
  rw [List.take_add_one, List.take_set_of_le (Nat.le_refl _), List.getElem?_set_self hlt]
  rfl

@[simp] theorem TagCache.append_total (c : TagCache) (idx : Nat) (sym : SymbolInfo) :
    (c.append idx sym).totalCount = c.totalCount := by
  unfold TagCache.append
  split <;> rfl

/-- What a scan from `i` on finds is the first of the known symbols with the
name, if none is before `i`. -/
theorem TagCache.scan_eq (c : TagCache) {i : Nat} (h : Absent name (c.known.take i)) :
    c.scan name i = c.known.find? fun sym => sym.name = name := by
  have hsplit := List.take_append_drop i c.known
  rw [TagCache.scan, ← hsplit, List.find?_append, absent_iff.mp h, Option.none_or, hsplit]

end Cache

section Good

variable {sdk : Sdk} {s s' : State} {id : CallId} {op : Op} {pc : Pc} {h : DbHandle}
  {name : List UInt8} {env : Env} {idx : Nat} {sym : SymbolInfo} {src seen : Build}

theorem good_fresh : Good fresh where
  total := rfl
  known := rfl
  unused := fun _ => rfl
  calls := fun _ _ _ hcall => by cases hcall

theorem Good.goto (hg : Good s) (hpc : pc.Ok op) : Good (s.goto id op pc) where
  total := hg.total
  known := hg.known
  unused := hg.unused
  calls := by
    intro id' op' pc' hcall
    simp only [State.goto, Function.update_apply] at hcall
    split at hcall
    · cases hcall
      exact hpc
    · exact hg.calls id' op' pc' hcall

/-- A full cache has the whole table. -/
theorem Good.full (hg : Good s) (hfull : ¬ s.cache.knownCount < s.cache.totalCount) :
    s.cache.known = s.sized.table.symbols := by
  rw [hg.known, List.take_of_length_le]
  rw [← hg.total]
  exact Nat.le_of_not_lt hfull

/-- A call that returns what says nothing of a name. -/
theorem Good.finish (hg : Good s) {r : Result} (hfound : ∀ sym, r ≠ .found sym)
    (hnot : r ≠ .notFound) : Good (s.finish id op r) :=
  hg.goto fun _ _ _ => ⟨fun sym hr => absurd hr (hfound sym), fun hr => absurd hr hnot⟩

theorem Good.next_preload (hg : Good s) : Good (s.next id (.preload h) .loaded) := by
  unfold State.next
  split
  · exact hg.goto fun _ _ hop => by cases hop
  · exact hg.finish (fun _ hr => by cases hr) (fun hr => by cases hr)

/-- A lookup that has not found the name among the known descriptors fetches
the next one, or there is none. -/
theorem Good.next_lookup (hg : Good s) (habsent : Absent name s.cache.known) :
    Good (s.next id (.lookup h name) .notFound) := by
  unfold State.next
  split
  · refine hg.goto fun h' name' hop => ?_
    cases hop
    rw [← hg.known]
    exact habsent
  · next hfull =>
      refine hg.goto fun h' name' hop => ⟨fun sym hr => (by cases hr), fun _ => ?_⟩
      cases hop
      rw [← hg.full hfull]
      exact habsent

/-- A lookup that has not found the name before `i` goes on from there. -/
theorem Good.search (hg : Good s) {i : Nat} (habsent : Absent name (s.cache.known.take i)) :
    Good (s.search id (.lookup h name) name i) := by
  have hscan := s.cache.scan_eq habsent
  unfold State.search
  split
  · next sym hsym =>
      refine hg.goto fun h' name' hop => ⟨fun sym' hr => ?_, fun hr => by cases hr⟩
      cases hop
      cases hr
      rw [hscan, hg.known] at hsym
      exact (List.take_prefix _ _).find?_eq_some hsym
  · next hnone =>
      rw [hscan] at hnone
      exact hg.next_lookup (absent_iff.mpr hnone)

/-- An append of the descriptor that the build has at the index. -/
theorem Good.append (hg : Good s) (hsym : idx = s.cache.knownCount ∧
    s.cache.knownCount < s.cache.symbols.length → s.sized.table.symbols[idx]? = some sym) :
    Good { s with cache := s.cache.append idx sym } := by
  refine ⟨?_, ?_, hg.unused, hg.calls⟩
  · simp only [TagCache.append_total]
    exact hg.total
  · by_cases hopen : idx = s.cache.knownCount ∧ s.cache.knownCount < s.cache.symbols.length
    · obtain ⟨hcount, hknown⟩ := TagCache.append_of_open sym hopen.1 hopen.2
      have hget := hsym hopen
      rw [hopen.1] at hget
      simp only [hcount, hknown]
      rw [List.take_add_one, hget, ← hg.known]
      rfl
    · simp only [TagCache.append_of_closed hopen]
      exact hg.known

/-- What a lookup that takes the mutex again may leave behind: either the build
is still the one it has seen, or there is nothing before its index. -/
theorem absent_behind (habsent : Absent name (seen.table.symbols.take idx))
    (htime : seen = s.sized ∨ idx = 0 ∨ s.cache.knownCount = 0)
    (hgood : Good { s with cache := s.cache.append idx sym }) :
    Absent name ((s.cache.append idx sym).known.take idx) := by
  rcases htime with rfl | rfl | hzero
  · have hknown : (s.cache.append idx sym).known = _ := hgood.known
    rw [hknown, List.take_take, Nat.min_comm, ← List.take_take]
    exact habsent.sublist (List.take_sublist _ _)
  · rw [List.take_zero]
    exact .nil
  · by_cases hidx : idx = 0
    · rw [hidx, List.take_zero]
      exact .nil
    · rw [TagCache.append_of_closed fun hopen => hidx (hopen.1.trans hzero)]
      rw [TagCache.known, hzero, List.take_zero, List.take_nil]
      exact .nil

theorem Good.findOrAlloc (hg : Good s) (hs : s.findOrAlloc sdk env = some s') :
    Good s' ∧ s'.inUse = true ∧ s'.calls = s.calls := by
  unfold State.findOrAlloc at hs
  split at hs
  · next huse =>
      cases hs
      exact ⟨hg, huse, rfl⟩
  · next huse =>
      split at hs
      · cases hs
      · cases hs
        have hzero : s.sized = .zero := hg.unused (by simpa using huse)
        refine ⟨⟨?_, ?_, fun hfalse => (by cases hfalse), hg.calls⟩, rfl, rfl⟩
        · simp only [hzero]
          rfl
        · simp only [hzero]
          rfl

theorem good_buildStep (hg : Good s) : Good (buildStep s id env h) := by
  unfold buildStep
  split
  · exact hg.finish (fun _ hr => by cases hr) (fun hr => by cases hr)
  · exact Good.goto ⟨hg.total, hg.known, hg.unused, hg.calls⟩ trivial

theorem good_lookupSymbol (hg : Good s) : Good (lookupSymbol sdk s id env h name) := by
  unfold lookupSymbol
  split
  · exact hg.finish (fun _ hr => by cases hr) (fun hr => by cases hr)
  · next s' hs' =>
      obtain ⟨hg', -⟩ := hg.findOrAlloc hs'
      split
      · exact hg'.finish (fun _ hr => by cases hr) (fun hr => by cases hr)
      · exact hg'.search .nil

theorem good_preloadSymbols (hg : Good s) : Good (preloadSymbols sdk s id env h) := by
  unfold preloadSymbols
  split
  · exact hg.finish (fun _ hr => by cases hr) (fun hr => by cases hr)
  · next s' hs' =>
      obtain ⟨hg', -⟩ := hg.findOrAlloc hs'
      split
      · exact hg'.finish (fun _ hr => by cases hr) (fun hr => by cases hr)
      · exact hg'.next_preload

theorem good_resetAfterBuild (hg : Good s) {b : Build} :
    Good (resetAfterBuild sdk s id env h b) := by
  unfold resetAfterBuild
  split
  · exact hg.finish (fun _ hr => by cases hr) (fun hr => by cases hr)
  · next s' hs' =>
      obtain ⟨hg', huse, -⟩ := hg.findOrAlloc hs'
      have hreset : Good { s' with
          cache := .reset b.table.symbols.length (env.memory || decide (sdk ≠ .c)), sized := b } := by
        refine ⟨rfl, ?_, fun hfalse => ?_, hg'.calls⟩
        · exact List.take_zero
        · rw [huse] at hfalse
          cases hfalse
      exact hreset.finish (fun _ hr => by cases hr) (fun hr => by cases hr)

theorem good_symbolAt (hg : Good s)
    (habsent : ∀ h' name, op = .lookup h' name → Absent name (seen.table.symbols.take idx)) :
    Good (symbolAt s id env op h idx seen) := by
  unfold symbolAt
  split
  · exact hg.finish (fun _ hr => by cases hr) (fun hr => by cases hr)
  · split
    · exact hg.finish (fun _ hr => by cases hr) (fun hr => by cases hr)
    · next sym hsym =>
        split
        · exact hg.goto ⟨hsym, habsent⟩
        · exact hg.finish (fun _ hr => by cases hr) (fun hr => by cases hr)

/-- What a timely step keeps. -/
theorem good_step (hg : Good s) {l : Label} (htime : Timely s l) (hs : step sdk s l = some s') :
    Good s' := by
  cases l with
  | start id op =>
      simp only [step] at hs
      split at hs
      · cases hs
        exact hg.goto trivial
      · cases hs
  | run id env =>
      obtain ⟨⟨op, pc⟩, hcall, hs⟩ := Option.bind_eq_some_iff.mp hs
      have hpc := hg.calls id op pc hcall
      rw [Timely, hcall] at htime
      cases op with
      | build h =>
          cases pc with
          | enter =>
              cases hs
              exact good_buildStep hg
          | reset b =>
              cases hs
              exact good_resetAfterBuild hg
          | _ => cases hs
      | lookup h name =>
          cases pc with
          | enter =>
              cases hs
              exact good_lookupSymbol hg
          | fetch idx seen =>
              cases hs
              exact good_symbolAt hg hpc
          | fetched idx sym src seen =>
              cases hs
              obtain ⟨happend, hbehind⟩ := htime
              have hgood := hg.append fun hopen => happend hopen ▸ hpc.1
              exact hgood.search (absent_behind (hpc.2 h name rfl) (hbehind rfl) hgood)
          | _ => cases hs
      | preload h =>
          cases pc with
          | enter =>
              cases hs
              exact good_preloadSymbols hg
          | fetch idx seen =>
              cases hs
              exact good_symbolAt hg hpc
          | fetched idx sym src seen =>
              cases hs
              obtain ⟨happend, -⟩ := htime
              exact (hg.append fun hopen => happend hopen ▸ hpc.1).next_preload
          | _ => cases hs

theorem good_of_reaches (hr : (client sdk).Reaches Timely s) : Good s := by
  refine hr.invariant Good ?_ ?_
  · rintro s rfl
    exact good_fresh
  · intro s l s' hg htime hs
    exact good_step hg htime hs

theorem Good.faithful (hg : Good s) : Faithful s where
  cached := by
    intro i hi
    have hget : s.cache.known[i]? = s.cache.symbols[i]? := List.getElem?_take_of_lt hi
    rw [← hget, hg.known, List.getElem?_take_of_lt hi]
  notFound := fun id h name last hcall => (hg.calls id _ _ hcall h name rfl).2 rfl

end Good

/-- In every run in which the calls that fill the cache take the mutex again in
time, the cache is faithful to the build that last sized it. -/
theorem faithful_of_timely (sdk : Sdk) {s : State} (hr : (client sdk).Reaches Timely s) :
    Faithful s :=
  (good_of_reaches hr).faithful

def symbolA : SymbolInfo := { name := [0x61] }

def symbolX : SymbolInfo := { name := [0x78] }

def tableAX : EngineTable := ⟨[symbolA, symbolX], by decide⟩

def tableXA : EngineTable := ⟨[symbolX, symbolA], by decide⟩

def buildLabels (id : CallId) (table : EngineTable) : List Label :=
  [.start id (.build 0), .run id { table := some table }, .run id {}]

theorem faithful_of_timely_lookup :
    ∃ s, (client .c).Reaches Timely s ∧
      s.calls 1 = some (.lookup 0 [0x78], .done (.found symbolX) ⟨1, tableAX⟩) ∧ Faithful s := by
  obtain ⟨s, hs, hp⟩ := (client .c).exists_reaches_of_run Timely rfl
    (buildLabels 0 tableAX ++ .start 1 (.lookup 0 [0x78]) :: List.replicate 5 (.run 1 {}))
    (fun s => decide
      (s.calls 1 = some (.lookup 0 [0x78], .done (.found symbolX) ⟨1, tableAX⟩)))
    (by decide +kernel)
  exact ⟨s, hs, of_decide_eq_true hp, faithful_of_timely .c hs⟩

/-- Every table that a step captures has the name. -/
def Label.has (name : List UInt8) : Label → Bool
  | .start _ _ => true
  | .run _ env => env.table.all fun t => t.symbols.any fun sym => sym.name = name

/-- A descriptor that `symbol_at` has fetched before a build passes the append
guard after it. And a lookup misses a name that every build has: the symbol is
behind its index in the new table. -/
theorem not_faithful_after_rebuild :
    (∃ s, (client .c).Reachable s ∧
        ∃ i < s.cache.knownCount, s.cache.symbols[i]? ≠ s.sized.table.symbols[i]?) ∧
      (∃ s, (client .c).Reaches (fun _ l => l.has [0x78]) s ∧ ∃ last,
        s.calls 1 = some (.lookup 0 [0x78], .done .notFound last) ∧
          ¬ Absent [0x78] last.table.symbols) := by
  constructor
  · obtain ⟨s, hs, hp⟩ := (client .c).exists_reaches_of_run (fun _ _ => True) rfl
      (buildLabels 0 tableAX ++ [.start 1 (.preload 0), .run 1 {}, .run 1 {}] ++
        buildLabels 2 tableXA ++ [.run 1 {}])
      (fun s => decide (∃ i < s.cache.knownCount,
        s.cache.symbols[i]? ≠ s.sized.table.symbols[i]?)) (by decide +kernel)
    exact ⟨s, hs, of_decide_eq_true hp⟩
  · obtain ⟨s, hs, hp⟩ := (client .c).exists_reaches_of_run (fun _ l => l.has [0x78]) rfl
      (buildLabels 0 tableAX ++ .start 1 (.lookup 0 [0x78]) :: List.replicate 4 (.run 1 {}) ++
        buildLabels 2 tableXA ++ .start 3 (.preload 0) :: List.replicate 5 (.run 3 {}) ++
        [.run 1 {}])
      (fun s => decide (s.calls 1 = some (.lookup 0 [0x78], .done .notFound ⟨2, tableXA⟩)))
      (by decide +kernel)
    refine ⟨s, hs, _, of_decide_eq_true hp, fun habsent => ?_⟩
    exact habsent symbolX List.mem_cons_self rfl

end BpClient.Symbols
