import BpClient.Symbols.Rebuild

/-!
The cache after a single build: as long as no other build is started, what the
lookups and the preloads do to it in any order adds up to the engine's table.
-/

namespace BpClient.Symbols

open BpClient.Lib
open BpClient.Slot (Sdk CallId)

/-- No other build than call `b` is started. -/
def OnlyBuild (b : CallId) : Label → Prop
  | .start id (.build _) => id = b
  | .start _ (.lookup _ _) | .start _ (.preload _) | .run _ _ => True

instance (b : CallId) : (l : Label) → Decidable (OnlyBuild b l)
  | .start id (.build _) => inferInstanceAs (Decidable (id = b))
  | .start _ (.lookup _ _) | .start _ (.preload _) | .run _ _ => inferInstanceAs (Decidable True)

/-- The cache and the calls have the table of a build. -/
structure Complete (sdk : Sdk) (s : State) (x : Build) : Prop where
  known : s.cache.known = x.table.symbols.take s.cache.knownCount
  found : ∀ id h name sym last, s.calls id = some (.lookup h name, .done (.found sym) last) →
    x.lookup name = some sym
  notFound : ∀ id h name last, s.calls id = some (.lookup h name, .done .notFound last) →
    Absent name x.table.symbols
  loaded : ∀ id h last, s.calls id = some (.preload h, .done .loaded last) →
    s.cache.knownCount = s.cache.totalCount ∧ s.cache.totalCount = x.table.symbols.length
  /-- Once the build has sized the cache, only the empty table is refused, and
  in C one for which there was no memory. -/
  refused : ∀ id h name, s.calls id = some (.lookup h name, .done .refused x) →
    x.table.symbols = [] ∨ sdk = .c ∧ s.cache.symbols = []

def Result.tells : Result → Bool
  | .found _ | .notFound | .loaded => true
  | .built | .refused | .noCache | .failed => false

/-- A call that has seen no build but the one that has sized the cache. -/
def Pc.Uses (sized : Build) : Pc → Prop
  | .enter => True
  | .reset b => b ≠ .zero ∧ sized = .zero
  | .fetch _ seen => seen = sized ∧ sized ≠ .zero
  | .fetched _ _ src seen => src = sized ∧ seen = sized ∧ sized ≠ .zero
  | .done r last => (last = .zero ∨ last = sized) ∧ (r.tells = true → last = sized ∧ sized ≠ .zero)

/-- The build call is behind the engine's part, and in front of the reset only
with the table that the engine has. -/
def Pc.Built (sized y : Build) : Pc → Prop
  | .reset b => y = b
  | .done _ _ => sized ≠ .zero → y = sized
  | .enter | .fetch _ _ | .fetched _ _ _ _ => False

structure OneBuild (sdk : Sdk) (b : CallId) (s : State) : Prop where
  calls : ∀ id op pc, s.calls id = some (op, pc) → pc.Uses s.sized
  builds : ∀ id h pc, s.calls id = some (.build h, pc) → id = b
  resets : ∀ id op x, s.calls id = some (op, .reset x) → ∃ h, op = .build h
  engine : ∀ h y, s.engine h = some y →
    ∃ h' pc, s.calls b = some (.build h', pc) ∧ pc.Built s.sized y
  sized : s.sized ≠ .zero → ∃ h r last, s.calls b = some (.build h, .done r last)
  loaded : ∀ id h last, s.calls id = some (.preload h, .done .loaded last) →
    s.cache.knownCount = s.cache.totalCount
  refused : ∀ id op, s.calls id = some (op, .done .refused s.sized) → s.cache.symbols = []
  memory : sdk ≠ .c → s.cache.symbols.length = s.cache.totalCount

section OneBuild

variable {sdk : Sdk} {b id : CallId} {s s' : State} {op : Op} {pc pc' : Pc} {h : DbHandle}
  {name : List UInt8} {env : Env} {idx : Nat} {sym : SymbolInfo} {src seen : Build}

theorem oneBuild_fresh : OneBuild sdk b fresh where
  calls := fun _ _ _ hcall => by cases hcall
  builds := fun _ _ _ hcall => by cases hcall
  resets := fun _ _ _ hcall => by cases hcall
  engine := fun _ _ hy => by cases hy
  sized := fun hne => absurd rfl hne
  loaded := fun _ _ _ hcall => by cases hcall
  refused := fun _ _ hcall => by cases hcall
  memory := fun _ => rfl

/-- A move of a call that is no build. -/
theorem OneBuild.move (ho : OneBuild sdk b s) (hcall : ∀ h pc, s.calls id ≠ some (.build h, pc))
    (hop : ∀ h, op ≠ .build h) (hpc : pc.Uses s.sized) (hreset : ∀ x, pc ≠ .reset x)
    (hload : ∀ last, pc = .done .loaded last → s.cache.knownCount = s.cache.totalCount)
    (href : pc = .done .refused s.sized → s.cache.symbols = []) :
    OneBuild sdk b (s.goto id op pc) := by
  have hkeep : ∀ h' pc', s.calls b = some (.build h', pc') →
      (s.goto id op pc).calls b = some (.build h', pc') := by
    intro h' pc' hb
    have hne : b ≠ id := fun heq => hcall h' pc' (heq ▸ hb)
    exact (Function.update_of_ne hne _ _).trans hb
  have hcases : ∀ id' op' pc', (s.goto id op pc).calls id' = some (op', pc') →
      (op' = op ∧ pc' = pc) ∨ s.calls id' = some (op', pc') := by
    intro id' op' pc' hcall'
    simp only [State.goto, Function.update_apply] at hcall'
    split at hcall'
    · cases hcall'
      exact .inl ⟨rfl, rfl⟩
    · exact .inr hcall'
  refine ⟨?_, ?_, ?_, ?_, ?_, ?_, ?_, ho.memory⟩
  · intro id' op' pc' hcall'
    rcases hcases id' op' pc' hcall' with ⟨rfl, rfl⟩ | hold
    · exact hpc
    · exact ho.calls id' op' pc' hold
  · intro id' h' pc' hcall'
    rcases hcases id' _ pc' hcall' with ⟨heq, -⟩ | hold
    · exact absurd heq.symm (hop h')
    · exact ho.builds id' h' pc' hold
  · intro id' op' x hcall'
    rcases hcases id' op' _ hcall' with ⟨-, heq⟩ | hold
    · exact absurd heq.symm (hreset x)
    · exact ho.resets id' op' x hold
  · intro h' y hy
    obtain ⟨h'', pc', hb, hbuilt⟩ := ho.engine h' y hy
    exact ⟨h'', pc', hkeep h'' pc' hb, hbuilt⟩
  · intro hne
    obtain ⟨h', r, last, hb⟩ := ho.sized hne
    exact ⟨h', r, last, hkeep h' _ hb⟩
  · intro id' h' last hcall'
    rcases hcases id' _ _ hcall' with ⟨-, heq⟩ | hold
    · exact hload last heq.symm
    · exact ho.loaded id' h' last hold
  · intro id' op' hcall'
    rcases hcases id' op' _ hcall' with ⟨-, heq⟩ | hold
    · exact href heq.symm
    · exact ho.refused id' op' hold

/-- A move of the build, in a state that differs from `s` in the cache and the
engine. -/
theorem OneBuild.own (ho : OneBuild sdk b s) {t : State} (ht : t.calls = s.calls)
    (hcalls : ∀ id op pc, id ≠ b → s.calls id = some (op, pc) → pc.Uses t.sized)
    (hpc : pc.Uses t.sized) (hengine : ∀ h y, t.engine h = some y → pc.Built t.sized y)
    (hsized : t.sized ≠ .zero → ∃ r last, pc = .done r last)
    (hload : ∀ id h last, s.calls id = some (.preload h, .done .loaded last) →
      t.cache.knownCount = t.cache.totalCount)
    (href : ∀ id op, id ≠ b → s.calls id = some (op, .done .refused t.sized) →
      t.cache.symbols = []) (hnot : pc ≠ .done .refused t.sized)
    (hmemory : sdk ≠ .c → t.cache.symbols.length = t.cache.totalCount) :
    OneBuild sdk b (t.goto b (.build h) pc) := by
  have hself : (t.goto b (.build h) pc).calls b = some (.build h, pc) :=
    Function.update_self _ _ _
  have hcases : ∀ id op pc', (t.goto b (.build h) pc).calls id = some (op, pc') →
      (op = .build h ∧ pc' = pc) ∨ (id ≠ b ∧ s.calls id = some (op, pc')) := by
    intro id op pc' hcall
    simp only [State.goto, Function.update_apply, ht] at hcall
    split at hcall
    · cases hcall
      exact .inl ⟨rfl, rfl⟩
    · next hne => exact .inr ⟨hne, hcall⟩
  refine ⟨?_, ?_, ?_, ?_, ?_, ?_, ?_, hmemory⟩
  · intro id op pc' hcall
    rcases hcases id op pc' hcall with ⟨-, rfl⟩ | ⟨hne, hold⟩
    · exact hpc
    · exact hcalls id op pc' hne hold
  · intro id h' pc' hcall
    by_cases hid : id = b
    · exact hid
    · simp only [State.goto, Function.update_apply, if_neg hid, ht] at hcall
      exact ho.builds id h' pc' hcall
  · intro id op x hcall
    rcases hcases id op _ hcall with ⟨hop, -⟩ | ⟨-, hold⟩
    · exact ⟨h, hop⟩
    · exact ho.resets id op x hold
  · intro h' y hy
    exact ⟨h, pc, hself, hengine h' y hy⟩
  · intro hne
    obtain ⟨r, last, rfl⟩ := hsized hne
    exact ⟨h, r, last, hself⟩
  · intro id h' last hcall
    rcases hcases id _ _ hcall with ⟨hop, -⟩ | ⟨-, hold⟩
    · cases hop
    · exact hload id h' last hold
  · intro id op hcall
    rcases hcases id op _ hcall with ⟨-, heq⟩ | ⟨hne, hold⟩
    · exact absurd heq.symm hnot
    · exact href id op hne hold

theorem uses_finish {r : Result} {sized : Build} (htells : r.tells = true → sized ≠ .zero) :
    (Pc.done r sized).Uses sized :=
  ⟨.inr rfl, fun h => ⟨rfl, htells h⟩⟩

/-- Before the build is through the engine there is no table. -/
theorem OneBuild.engine_none (ho : OneBuild sdk b s)
    (hb : ∀ h pc, s.calls b = some (.build h, pc) → pc = .enter) (h : DbHandle) :
    s.engine h = none := by
  cases hy : s.engine h with
  | none => rfl
  | some y =>
      obtain ⟨h', pc, hcall, hbuilt⟩ := ho.engine h y hy
      rw [hb h' pc hcall] at hbuilt
      exact hbuilt.elim

theorem OneBuild.start (ho : OneBuild sdk b s) (honly : OnlyBuild b (.start id op))
    (hnone : s.calls id = none) : OneBuild sdk b (s.goto id op .enter) := by
  have hmove : (∀ h, op ≠ .build h) → OneBuild sdk b (s.goto id op .enter) := by
    intro hop
    refine ho.move (fun h pc hcall => ?_) hop trivial (fun x hx => by cases hx)
      (fun last hx => by cases hx) (fun hx => by cases hx)
    rw [hnone] at hcall
    cases hcall
  cases op with
  | build h =>
      have hid : id = b := honly
      subst hid
      have hengine := ho.engine_none fun h pc hcall => by
        rw [hnone] at hcall
        cases hcall
      refine ho.own rfl (fun id op pc _ => ho.calls id op pc) trivial (fun h y hy => ?_)
        (fun hne => ?_) ho.loaded (fun id op _ => ho.refused id op) (fun hx => by cases hx)
        ho.memory
      · rw [hengine h] at hy
        cases hy
      · obtain ⟨h', r, last, hcall⟩ := ho.sized hne
        rw [hnone] at hcall
        cases hcall
  | lookup h name => exact hmove fun h' heq => by cases heq
  | preload h => exact hmove fun h' heq => by cases heq

theorem OneBuild.buildStep (ho : OneBuild sdk b s) (hcall : s.calls b = some (.build h, .enter)) :
    OneBuild sdk b (buildStep s b env h) := by
  have hzero : s.sized = .zero := by
    by_contra hne
    obtain ⟨h', r, last, hdone⟩ := ho.sized hne
    rw [hcall] at hdone
    cases hdone
  have hengine := ho.engine_none fun h' pc hcall' => by
    rw [hcall] at hcall'
    cases hcall'
    rfl
  unfold Symbols.buildStep
  split
  · refine ho.own rfl (fun id op pc _ => ho.calls id op pc) (uses_finish fun h => by cases h)
      (fun h' y hy => ?_) (fun hne => absurd hzero hne) ho.loaded
      (fun id op _ => ho.refused id op) (fun hx => by cases hx) ho.memory
    rw [hengine h'] at hy
    cases hy
  · next table htable =>
      refine ho.own rfl (fun id op pc _ => ho.calls id op pc) ⟨?_, hzero⟩ (fun h' y hy => ?_)
        (fun hne => absurd hzero hne) ho.loaded (fun id op _ => ho.refused id op)
        (fun hx => by cases hx) ho.memory
      · intro heq
        cases congrArg Build.no heq
      · simp only [Function.update_apply, hengine] at hy
        split at hy
        · cases hy
          rfl
        · cases hy

/-- A cache that has just been made is as empty as the one before. -/
theorem OneBuild.findOrAlloc (ho : OneBuild sdk b s) (hs : s.findOrAlloc sdk env = some s') :
    OneBuild sdk b s' ∧ s'.calls = s.calls ∧ s'.sized = s.sized := by
  unfold State.findOrAlloc at hs
  split at hs
  · cases hs
    exact ⟨ho, rfl, rfl⟩
  · split at hs <;> cases hs
    exact ⟨⟨ho.calls, ho.builds, ho.resets, ho.engine, ho.sized, fun _ _ _ _ => rfl,
      fun _ _ _ => rfl, fun _ => rfl⟩, rfl, rfl⟩

/-- The one reset finds no call that has seen a build. -/
theorem OneBuild.resetAfterBuild (ho : OneBuild sdk b s) {x : Build}
    (hcall : s.calls b = some (.build h, .reset x)) :
    OneBuild sdk b (resetAfterBuild sdk s b env h x) := by
  obtain ⟨hx, hzero⟩ : x ≠ .zero ∧ s.sized = .zero := ho.calls b _ _ hcall
  unfold Symbols.resetAfterBuild
  split
  · refine ho.own rfl (fun id op pc _ => ho.calls id op pc) (uses_finish fun h => by cases h)
      (fun _ _ _ hne => absurd hzero hne) (fun hne => absurd hzero hne) ho.loaded
      (fun id op _ => ho.refused id op) (fun heq => by cases heq) ho.memory
  · next s' hs' =>
      obtain ⟨ho', hcalls, hsized⟩ := ho.findOrAlloc hs'
      have hbefore : ∀ id op pc, id ≠ b → s'.calls id = some (op, pc) → pc.Uses .zero := by
        intro id op pc _ hcall'
        have huses := ho'.calls id op pc hcall'
        rwa [hsized, hzero] at huses
      refine ho'.own rfl (fun id op pc hne hcall' => ?_) (uses_finish fun h => by cases h)
        (fun h' y hy _ => ?_) (fun _ => ⟨_, _, rfl⟩) (fun id h' last hcall' => ?_)
        (fun id op hne hcall' => ?_) (fun heq => by cases heq) (fun hsdk => ?_)
      · have huses := hbefore id op pc hne hcall'
        cases pc with
        | enter => trivial
        | reset y =>
            obtain ⟨h', rfl⟩ := ho'.resets id op y hcall'
            exact absurd (ho'.builds id h' _ hcall') hne
        | fetch idx seen => exact absurd rfl huses.2
        | fetched idx sym src seen => exact absurd rfl huses.2.2
        | done r last =>
            obtain ⟨hlast, htells⟩ := huses
            exact ⟨.inl (or_self_iff.mp hlast), fun h => absurd rfl (htells h).2⟩
      · obtain ⟨h'', pc, hb, hbuilt⟩ := ho'.engine h' y hy
        rw [hcalls, hcall] at hb
        cases hb
        exact hbuilt
      · have hne : id ≠ b := by
          rintro rfl
          rw [hcalls, hcall] at hcall'
          cases hcall'
        exact absurd rfl ((hbefore id _ _ hne hcall').2 rfl).2
      · obtain ⟨hlast, -⟩ := hbefore id op _ hne hcall'
        exact absurd (or_self_iff.mp hlast) hx
      · have hmemory : (env.memory || decide (sdk ≠ .c)) = true := by simp [hsdk]
        simp only [hmemory, TagCache.reset, if_true, List.length_replicate]

/-- An append finds a cache that is neither full nor without memory. -/
theorem OneBuild.append (ho : OneBuild sdk b s) :
    OneBuild sdk b { s with cache := s.cache.append idx sym } := by
  by_cases hopen : idx = s.cache.knownCount ∧ s.cache.knownCount < s.cache.symbols.length
  · have hlt := hopen.2.trans_le s.cache.length_le_total
    refine ⟨ho.calls, ho.builds, ho.resets, ho.engine, ho.sized, fun id h last hcall => ?_,
      fun id op hcall => ?_, fun hsdk => ?_⟩
    · have hfull := ho.loaded id h last hcall
      omega
    · have hnil := ho.refused id op hcall
      rw [hnil] at hopen
      exact absurd hopen.2 (Nat.not_lt_zero _)
    · have happend : s.cache.append idx sym = _ := dif_pos hopen
      rw [happend]
      simp only [List.length_set]
      exact ho.memory hsdk
  · rw [TagCache.append_of_closed hopen]
    exact ho

variable (hcall : ∀ h pc, s.calls id ≠ some (.build h, pc)) (hop : ∀ h, op ≠ .build h)
include hcall hop

theorem OneBuild.finish (ho : OneBuild sdk b s) {r : Result}
    (htells : r.tells = true → s.sized ≠ .zero)
    (hload : r = .loaded → s.cache.knownCount = s.cache.totalCount)
    (href : r = .refused → s.cache.symbols = []) : OneBuild sdk b (s.finish id op r) :=
  ho.move hcall hop (uses_finish htells) (fun x hx => by cases hx)
    (fun last hx => hload (by cases hx; rfl)) (fun hx => href (by cases hx; rfl))

theorem OneBuild.next (ho : OneBuild sdk b s) (hne : s.sized ≠ .zero) {r : Result}
    (hr : r ≠ .refused) : OneBuild sdk b (s.next id op r) := by
  unfold State.next
  split
  · exact ho.move hcall hop ⟨rfl, hne⟩ (fun x hx => by cases hx) (fun last hx => by cases hx)
      (fun hx => by cases hx)
  · next hfull =>
      refine ho.finish hcall hop (fun _ => hne) (fun _ => ?_) (fun h => absurd h hr)
      have hknown := s.cache.known_le
      have htotal := s.cache.length_le_total
      omega

theorem OneBuild.search (ho : OneBuild sdk b s) (hne : s.sized ≠ .zero) {i : Nat} :
    OneBuild sdk b (s.search id op name i) := by
  unfold State.search
  split
  · exact ho.finish hcall hop (fun _ => hne) (fun h => by cases h) (fun h => by cases h)
  · exact ho.next hcall hop hne (fun h => by cases h)

theorem OneBuild.symbolAt (ho : OneBuild sdk b s) (hpc : (Pc.fetch idx seen).Uses s.sized) :
    OneBuild sdk b (symbolAt s id env op h idx seen) := by
  have hfailed : OneBuild sdk b (s.finish id op .failed) :=
    ho.finish hcall hop (fun h => by cases h) (fun h => by cases h) (fun h => by cases h)
  unfold Symbols.symbolAt
  split
  · exact hfailed
  · next y hy =>
      split
      · exact hfailed
      · split
        · obtain ⟨hseen, hne⟩ := hpc
          obtain ⟨h', r, last, hdone⟩ := ho.sized hne
          obtain ⟨h'', pc, hb, hbuilt⟩ := ho.engine h y hy
          rw [hdone] at hb
          cases hb
          exact ho.move hcall hop ⟨hbuilt hne, hseen, hne⟩ (fun x hx => by cases hx)
            (fun last hx => by cases hx) (fun hx => by cases hx)
        · exact hfailed

omit hcall hop

/-- A cache that is not refused has been sized. -/
theorem Good.sized_ne (hg : Good s) (hbuilt : s.cache.unbuilt sdk = false) : s.sized ≠ .zero := by
  intro hzero
  have htotal : s.cache.totalCount = 0 := by
    rw [hg.total, hzero]
    rfl
  have hlength := s.cache.length_le_total
  rw [htotal] at hlength
  cases sdk <;> simp [TagCache.unbuilt, htotal, Nat.le_zero.mp hlength] at hbuilt

theorem nil_of_unbuilt {c : TagCache} (h : c.unbuilt sdk = true) : c.symbols = [] := by
  apply List.eq_nil_of_length_eq_zero
  cases sdk <;> simp_all [TagCache.unbuilt]

theorem OneBuild.lookupSymbol (ho : OneBuild sdk b s) (hg : Good s)
    (hcall : ∀ h pc, s.calls id ≠ some (.build h, pc)) :
    OneBuild sdk b (lookupSymbol sdk s id env h name) := by
  have hop : ∀ h', Op.lookup h name ≠ .build h' := fun _ heq => by cases heq
  unfold Symbols.lookupSymbol
  split
  · exact ho.finish hcall hop (fun h => by cases h) (fun h => by cases h) (fun h => by cases h)
  · next s' hs' =>
      obtain ⟨ho', hcalls, -⟩ := ho.findOrAlloc hs'
      obtain ⟨hg', -⟩ := hg.findOrAlloc hs'
      rw [← hcalls] at hcall
      split
      · next hunbuilt =>
          exact ho'.finish hcall hop (fun h => by cases h) (fun h => by cases h)
            (fun _ => nil_of_unbuilt hunbuilt)
      · next hbuilt => exact ho'.search hcall hop (hg'.sized_ne (Bool.eq_false_of_not_eq_true hbuilt))

theorem OneBuild.preloadSymbols (ho : OneBuild sdk b s) (hg : Good s)
    (hcall : ∀ h pc, s.calls id ≠ some (.build h, pc)) :
    OneBuild sdk b (preloadSymbols sdk s id env h) := by
  have hop : ∀ h', Op.preload h ≠ .build h' := fun _ heq => by cases heq
  unfold Symbols.preloadSymbols
  split
  · exact ho.finish hcall hop (fun h => by cases h) (fun h => by cases h) (fun h => by cases h)
  · next s' hs' =>
      obtain ⟨ho', hcalls, -⟩ := ho.findOrAlloc hs'
      obtain ⟨hg', -⟩ := hg.findOrAlloc hs'
      rw [← hcalls] at hcall
      split
      · next hunbuilt =>
          exact ho'.finish hcall hop (fun h => by cases h) (fun h => by cases h)
            (fun _ => nil_of_unbuilt hunbuilt)
      · next hbuilt =>
          exact ho'.next hcall hop (hg'.sized_ne (Bool.eq_false_of_not_eq_true hbuilt))
            (fun h => by cases h)

/-- With a single build every call that fills the cache is in time. -/
theorem OneBuild.timely (ho : OneBuild sdk b s) (l : Label) : Timely s l := by
  cases l with
  | start id op => trivial
  | run id env =>
      cases hcall : s.calls id with
      | none => rw [Timely, hcall]; trivial
      | some c =>
          obtain ⟨op, pc⟩ := c
          have huses := ho.calls id op pc hcall
          rw [Timely, hcall]
          cases pc with
          | fetched idx sym src seen => exact ⟨fun _ => huses.1, fun _ => .inl huses.2.1⟩
          | _ => trivial

/-- Every step of a run with one build keeps what that build has made. -/
theorem oneBuild_step (ho : OneBuild sdk b s) (hg : Good s) {l : Label} (honly : OnlyBuild b l)
    (hs : step sdk s l = some s') : OneBuild sdk b s' := by
  cases l with
  | start id op =>
      simp only [step] at hs
      split at hs
      · next hnone =>
          cases hs
          exact ho.start honly hnone
      · cases hs
  | run id env =>
      obtain ⟨⟨op, pc⟩, hcall, hs⟩ := Option.bind_eq_some_iff.mp hs
      have hpc := ho.calls id op pc hcall
      have hother : (∀ h, op ≠ .build h) → ∀ h pc, s.calls id ≠ some (.build h, pc) := by
        intro hop h pc' hbuild
        rw [hcall] at hbuild
        cases hbuild
        exact hop h rfl
      cases op with
      | build h =>
          obtain rfl := ho.builds id h pc hcall
          cases pc with
          | enter =>
              cases hs
              exact ho.buildStep hcall
          | reset x =>
              cases hs
              exact ho.resetAfterBuild hcall
          | _ => cases hs
      | lookup h name =>
          have hop : ∀ h', Op.lookup h name ≠ .build h' := fun _ heq => by cases heq
          cases pc with
          | enter =>
              cases hs
              exact ho.lookupSymbol hg (hother hop)
          | fetch idx seen =>
              cases hs
              exact ho.symbolAt (hother hop) hop hpc
          | fetched idx sym src seen =>
              cases hs
              exact OneBuild.search (s := { s with cache := s.cache.append idx sym }) (hother hop)
                hop ho.append hpc.2.2
          | _ => cases hs
      | preload h =>
          have hop : ∀ h', Op.preload h ≠ .build h' := fun _ heq => by cases heq
          cases pc with
          | enter =>
              cases hs
              exact ho.preloadSymbols hg (hother hop)
          | fetch idx seen =>
              cases hs
              exact ho.symbolAt (hother hop) hop hpc
          | fetched idx sym src seen =>
              cases hs
              exact OneBuild.next (s := { s with cache := s.cache.append idx sym }) (hother hop)
                hop ho.append hpc.2.2 (fun h => by cases h)
          | _ => cases hs

theorem oneBuild_of_reaches (hr : (client sdk).Reaches (fun _ l => OnlyBuild b l) s) :
    OneBuild sdk b s ∧ Good s := by
  refine hr.invariant (fun s => OneBuild sdk b s ∧ Good s) ?_ ?_
  · rintro s rfl
    exact ⟨oneBuild_fresh, good_fresh⟩
  · rintro s l s' ⟨ho, hg⟩ honly hs
    exact ⟨oneBuild_step ho hg honly hs, good_step hg (ho.timely l) hs⟩

/-- What a call has seen of the build is what the engine has. -/
theorem OneBuild.sized_eq (ho : OneBuild sdk b s) {x : Build} (hx : s.engine h = some x)
    (hne : s.sized ≠ .zero) : s.sized = x := by
  obtain ⟨h', r, last, hdone⟩ := ho.sized hne
  obtain ⟨h'', pc, hb, hbuilt⟩ := ho.engine h x hx
  rw [hdone] at hb
  cases hb
  exact (hbuilt hne).symm

end OneBuild

/-- With a single build, which the engine has made, the cache and the calls have
its table, whatever lookups and preloads do in any order and whichever of their
requests fail. -/
theorem complete_of_onlyBuild (sdk : Sdk) (b : CallId) {s : State}
    (hr : (client sdk).Reaches (fun _ l => OnlyBuild b l) s) {h : DbHandle} {x : Build}
    (hx : s.engine h = some x) : Complete sdk s x := by
  obtain ⟨ho, hg⟩ := oneBuild_of_reaches hr
  refine ⟨?_, ?_, ?_, ?_, ?_⟩
  · by_cases hne : s.sized = .zero
    · have hcount : s.cache.knownCount = 0 := by
        have htotal := hg.total
        have hlength := s.cache.length_le_total
        have hknown := s.cache.known_le
        rw [hne] at htotal
        simp only [Build.zero, List.length_nil] at htotal
        omega
      rw [TagCache.known, hcount, List.take_zero, List.take_zero]
    · rw [← ho.sized_eq hx hne]
      exact hg.known
  · intro id h' name sym last hcall
    obtain ⟨rfl, hne⟩ := (ho.calls id _ _ hcall).2 rfl
    rw [← ho.sized_eq hx hne]
    exact (hg.calls id _ _ hcall h' name rfl).1 sym rfl
  · intro id h' name last hcall
    obtain ⟨rfl, hne⟩ := (ho.calls id _ _ hcall).2 rfl
    rw [← ho.sized_eq hx hne]
    exact (hg.calls id _ _ hcall h' name rfl).2 rfl
  · intro id h' last hcall
    obtain ⟨-, hne⟩ := (ho.calls id _ _ hcall).2 rfl
    rw [← ho.sized_eq hx hne]
    exact ⟨ho.loaded id h' last hcall, hg.total⟩
  · intro id h' name hcall
    rcases (ho.calls id _ _ hcall).1 with rfl | rfl
    · exact .inl rfl
    · have hnil := ho.refused id _ hcall
      by_cases hsdk : sdk = .c
      · exact .inr ⟨hsdk, hnil⟩
      · have hlength := (ho.memory hsdk).trans hg.total
        rw [hnil, List.length_nil] at hlength
        exact .inl (List.eq_nil_of_length_eq_zero hlength.symm)

/-- A lookup and a preload that fill the cache together. -/
theorem complete_of_onlyBuild_preload :
    ∃ s, (client .c).Reaches (fun _ l => OnlyBuild 0 l) s ∧
      s.calls 1 = some (.lookup 0 [0x78], .done (.found symbolX) ⟨1, tableAX⟩) ∧
      s.calls 2 = some (.preload 0, .done .loaded ⟨1, tableAX⟩) ∧
      Complete .c s ⟨1, tableAX⟩ := by
  obtain ⟨s, hs, hp⟩ := (client .c).exists_reaches_of_run (fun _ l => OnlyBuild 0 l) rfl
    (buildLabels 0 tableAX ++ [.start 1 (.lookup 0 [0x78]), .start 2 (.preload 0), .run 1 {},
      .run 2 {}, .run 1 {}, .run 2 {}, .run 2 {}, .run 1 {}, .run 1 {}, .run 2 {}, .run 2 {},
      .run 1 {}])
    (fun s => decide (s.calls 1 = some (.lookup 0 [0x78], .done (.found symbolX) ⟨1, tableAX⟩) ∧
      s.calls 2 = some (.preload 0, .done .loaded ⟨1, tableAX⟩) ∧
      s.engine 0 = some ⟨1, tableAX⟩)) (by decide +kernel)
  obtain ⟨hlookup, hpreload, hengine⟩ := of_decide_eq_true hp
  exact ⟨s, hs, hlookup, hpreload, complete_of_onlyBuild .c 0 hs hengine⟩

end BpClient.Symbols
