import BpClient.Symbols.OneBuild

/-!
The loops that fill the cache come to an end. The loop condition compares the
known symbols with the size of the last build, and the append with the capacity:
as long as both are the same, an index that `symbol_at` has answered for is known
afterwards, unless a build has reset the cache in between. So a call that has
made more requests than a table can have symbols has met a reset for each table.
-/

namespace BpClient.Symbols

open BpClient.Lib
open BpClient.Slot (Sdk CallId)

/-- The capacity is the size of the last build. -/
def TagCache.Whole (c : TagCache) : Prop :=
  c.knownCount ≤ c.symbols.length ∧ c.symbols.length = c.totalCount

/-- A build that has symbols gets the memory for them. -/
def Allocates (sdk : Sdk) (s : State) : Label → Prop
  | .start _ _ => True
  | .run id env =>
      match s.calls id with
      | some (_, .reset b) => b.table.symbols = [] ∨ s.findOrAlloc sdk env = none ∨
          (env.memory || decide (sdk ≠ .c)) = true
      | _ => True

section Counts

variable (id : CallId) (tr : List (State × Label))

/-- A build gets to the cache. -/
def isReset (q : State × Label) : Bool :=
  match q.2 with
  | .start _ _ => false
  | .run id _ =>
      match q.1.calls id with
      | some (_, .reset _) => true
      | _ => false

def isStep (q : State × Label) : Bool :=
  match q.2 with
  | .start _ _ => false
  | .run id' _ => decide (id' = id)

def isSymbolAt (q : State × Label) : Bool :=
  isStep id q &&
    match q.1.calls id with
    | some (_, .fetch _ _) => true
    | _ => false

def resets : Nat := tr.countP isReset

def steps : Nat := tr.countP (isStep id)

def symbolAts : Nat := tr.countP (isSymbolAt id)

end Counts

/-- An iteration that no build has overtaken either fills the index that it has
asked for, or meets it filled. -/
def Advances (q : State × Label) (s' : State) : Prop :=
  ∀ id env op idx sym src seen, q.2 = .run id env →
    q.1.calls id = some (op, .fetched idx sym src seen) → seen = q.1.sized →
      q.1.cache.knownCount = idx ∧ s'.cache.knownCount = idx + 1 ∨ idx < q.1.cache.knownCount

/-- The cache is whole all the time, its filling advances, and each call is at all
times able to go on, or has returned, after a number of steps that the builds of
the run determine. -/
structure Terminates (sdk : Sdk) (tr : List (State × Label)) (s : State) : Prop where
  whole : (∀ q ∈ tr, q.1.cache.Whole) ∧ s.cache.Whole
  advances : ∀ q ∈ tr, ∀ s', step sdk q.1 q.2 = some s' → Advances q s'
  symbolAts_le : ∀ id, symbolAts id tr ≤ 65535 * (resets tr + 1)
  steps_le : ∀ id, steps id tr ≤ 2 * symbolAts id tr + 2
  enabled : ∀ id op pc, s.calls id = some (op, pc) → (∀ r last, pc ≠ .done r last) →
    ∀ env, ∃ s', step sdk s (.run id env) = some s'

structure Same (s s' : State) : Prop where
  cache : s'.cache = s.cache
  sized : s'.sized = s.sized
  builds : s'.builds = s.builds

inductive Loops (s : State) : Pc → Prop
  | fetch : s.cache.knownCount < s.cache.totalCount →
      Loops s (.fetch s.cache.knownCount s.sized)
  | done (r : Result) (last : Build) : Loops s (.done r last)

/-- What a step of a call does to the state, and to the call. -/
inductive Effect (sdk : Sdk) (s s' : State) (env : Env) : Pc → Pc → Prop
  | enter {pc' : Pc} : Same s s' → Loops s' pc' → Effect sdk s s' env .enter pc'
  | build (b : Build) : s'.cache = s.cache → s'.sized = s.sized → s'.builds = s.builds + 1 →
      b.no = s.builds + 1 → Effect sdk s s' env .enter (.reset b)
  | reset (b : Build) (r : Result) (last : Build) : s.findOrAlloc sdk env ≠ none →
      s'.cache = .reset b.table.symbols.length (env.memory || decide (sdk ≠ .c)) →
        s'.sized = b → s'.builds = s.builds → Effect sdk s s' env (.reset b) (.done r last)
  | noCache (b : Build) (r : Result) (last : Build) : s.findOrAlloc sdk env = none → Same s s' →
      Effect sdk s s' env (.reset b) (.done r last)
  | symbolAt (idx : Nat) (sym : SymbolInfo) (src seen : Build) : Same s s' →
      Effect sdk s s' env (.fetch idx seen) (.fetched idx sym src seen)
  | failed (idx : Nat) (seen : Build) (r : Result) (last : Build) : Same s s' →
      Effect sdk s s' env (.fetch idx seen) (.done r last)
  | append (idx : Nat) (sym : SymbolInfo) (src seen : Build) {pc' : Pc} :
      s'.cache = s.cache.append idx sym → s'.sized = s.sized → s'.builds = s.builds →
        Loops s' pc' → Effect sdk s s' env (.fetched idx sym src seen) pc'

/-- A path without a cache has never had one. -/
def Unused (s : State) : Prop := s.inUse = false → s.cache = .empty

section Step

variable {sdk : Sdk} {s s' : State} {id : CallId} {op : Op} {pc : Pc} {env : Env}

theorem Unused.findOrAlloc (hu : Unused s) (hs : s.findOrAlloc sdk env = some s') :
    Unused s' ∧ Same s s' ∧ s'.calls = s.calls := by
  unfold State.findOrAlloc at hs
  split at hs
  · cases hs
    exact ⟨hu, ⟨rfl, rfl, rfl⟩, rfl⟩
  · next huse =>
      split at hs <;> cases hs
      exact ⟨nofun, ⟨(hu (Bool.eq_false_of_not_eq_true huse)).symm, rfl, rfl⟩, rfl⟩

structure Moves (s s' : State) (id : CallId) (op : Op) : Prop where
  same : Same s s'
  unused : Unused s → Unused s'
  calls : ∃ pc', s'.calls = Function.update s.calls id (some (op, pc')) ∧ Loops s' pc'

theorem moves_finish (s : State) (id : CallId) (op : Op) (r : Result) :
    Moves s (s.finish id op r) id op :=
  ⟨⟨rfl, rfl, rfl⟩, fun h => h, _, rfl, .done r s.sized⟩

theorem moves_next (s : State) (id : CallId) (op : Op) (r : Result) :
    Moves s (s.next id op r) id op := by
  unfold State.next
  split
  · next hlt => exact ⟨⟨rfl, rfl, rfl⟩, fun h => h, _, rfl, .fetch (s := s.goto id op _) hlt⟩
  · exact moves_finish s id op r

theorem moves_search (s : State) (id : CallId) (op : Op) (name : List UInt8) (i : Nat) :
    Moves s (s.search id op name i) id op := by
  unfold State.search
  split
  · exact moves_finish s id op _
  · exact moves_next s id op .notFound

theorem Same.trans {t : State} (h : Same s t) (h' : Same t s') : Same s s' :=
  ⟨h'.cache.trans h.cache, h'.sized.trans h.sized, h'.builds.trans h.builds⟩

theorem Moves.after {t : State} (h : Moves t s' id op) (hu : Unused s)
    (hs : s.findOrAlloc sdk env = some t) : Moves s s' id op := by
  obtain ⟨hu', hsame, hcalls⟩ := hu.findOrAlloc hs
  obtain ⟨pc', hcalls', hloops⟩ := h.calls
  exact ⟨hsame.trans h.same, fun _ => h.unused hu', pc', hcalls ▸ hcalls', hloops⟩

theorem moves_lookupSymbol (hu : Unused s) (h : DbHandle) (name : List UInt8) :
    Moves s (lookupSymbol sdk s id env h name) id (.lookup h name) := by
  unfold lookupSymbol
  split
  · exact moves_finish s id _ _
  · next t ht =>
      split
      · exact (moves_finish t id _ _).after hu ht
      · exact (moves_search t id _ name 0).after hu ht

theorem moves_preloadSymbols (hu : Unused s) (h : DbHandle) :
    Moves s (preloadSymbols sdk s id env h) id (.preload h) := by
  unfold preloadSymbols
  split
  · exact moves_finish s id _ _
  · next t ht =>
      split
      · exact (moves_finish t id _ _).after hu ht
      · exact (moves_next t id _ _).after hu ht

/-- The places that a call of this kind comes to. -/
def Pc.Fits : Op → Pc → Prop
  | .build _, .fetch _ _ | .build _, .fetched _ _ _ _ => False
  | .lookup _ _, .reset _ | .preload _, .reset _ => False
  | _, _ => True

theorem Loops.fits (hop : ∀ h, op ≠ .build h) (h : Loops s pc) : pc.Fits op := by
  cases h with
  | fetch _ =>
      cases op with
      | build h => exact absurd rfl (hop h)
      | lookup h name | preload h => trivial
  | done r last => cases op <;> trivial

structure Steps (sdk : Sdk) (s s' : State) (id : CallId) (env : Env) (op : Op) (pc : Pc) :
    Prop where
  unused : Unused s'
  calls : ∃ pc', s'.calls = Function.update s.calls id (some (op, pc')) ∧
    Effect sdk s s' env pc pc' ∧ pc'.Fits op

theorem Moves.steps (h : Moves s s' id op) (hu : Unused s) (hop : ∀ h, op ≠ .build h) :
    Steps sdk s s' id env op .enter := by
  obtain ⟨pc', hcalls, hloops⟩ := h.calls
  exact ⟨h.unused hu, pc', hcalls, .enter h.same hloops, hloops.fits hop⟩

theorem steps_buildStep (hu : Unused s) (h : DbHandle) :
    Steps sdk s (buildStep s id env h) id env (.build h) .enter := by
  unfold buildStep
  split
  · exact ⟨hu, _, rfl, .enter ⟨rfl, rfl, rfl⟩ (.done _ _), trivial⟩
  · exact ⟨hu, _, rfl, .build _ rfl rfl rfl rfl, trivial⟩

theorem steps_resetAfterBuild (hu : Unused s) (h : DbHandle) (b : Build) :
    Steps sdk s (resetAfterBuild sdk s id env h b) id env (.build h) (.reset b) := by
  unfold resetAfterBuild
  split
  · next hnone => exact ⟨hu, _, rfl, .noCache b _ _ hnone ⟨rfl, rfl, rfl⟩, trivial⟩
  · next t ht =>
      obtain ⟨-, hsame, hcalls⟩ := hu.findOrAlloc ht
      have huse : t.inUse = true := by
        unfold State.findOrAlloc at ht
        split at ht
        · cases ht
          assumption
        · split at ht <;> cases ht
          rfl
      refine ⟨fun hfree => ?_, .done .built b, ?_, ?_, trivial⟩
      · exact absurd (huse.symm.trans hfree) Bool.true_eq_false_eq_False
      · exact congrArg (Function.update · id _) hcalls
      · have hroom : s.findOrAlloc sdk env ≠ none := by simp [ht]
        exact .reset b .built b hroom rfl rfl hsame.builds

theorem steps_symbolAt (hu : Unused s) (hop : ∀ h, op ≠ .build h) (h : DbHandle) (idx : Nat)
    (seen : Build) : Steps sdk s (symbolAt s id env op h idx seen) id env op (.fetch idx seen) := by
  have hfailed : Steps sdk s (s.finish id op .failed) id env op (.fetch idx seen) :=
    ⟨hu, _, rfl, .failed idx seen _ _ ⟨rfl, rfl, rfl⟩, (Loops.done (s := s) _ _).fits hop⟩
  unfold symbolAt
  split
  · exact hfailed
  · next b _ =>
      split
      · exact hfailed
      · next sym _ =>
          split
          · refine ⟨hu, _, rfl, .symbolAt idx sym b seen ⟨rfl, rfl, rfl⟩, ?_⟩
            cases op with
            | build h => exact absurd rfl (hop h)
            | lookup h name | preload h => trivial
          · exact hfailed

/-- The append, and what comes after it. -/
theorem Moves.append {idx : Nat} {sym : SymbolInfo} {src seen : Build}
    (h : Moves { s with cache := s.cache.append idx sym } s' id op) (hu : Unused s)
    (hop : ∀ h, op ≠ .build h) : Steps sdk s s' id env op (.fetched idx sym src seen) := by
  obtain ⟨pc', hcalls, hloops⟩ := h.calls
  refine ⟨h.unused fun hfree => ?_, pc', hcalls, ?_, hloops.fits hop⟩
  · change s.cache.append idx sym = .empty
    rw [hu hfree]
    exact TagCache.append_of_closed fun hopen => absurd hopen.2 (Nat.lt_irrefl 0)
  · exact .append idx sym src seen h.same.cache h.same.sized h.same.builds hloops

/-- Each step of a call leads where its program leads it. -/
theorem run_cases (hu : Unused s) (hs : step sdk s (.run id env) = some s') :
    ∃ op pc, s.calls id = some (op, pc) ∧ Steps sdk s s' id env op pc := by
  obtain ⟨⟨op, pc⟩, hcall, hs⟩ := Option.bind_eq_some_iff.mp hs
  refine ⟨op, pc, hcall, ?_⟩
  cases op with
  | build h =>
      cases pc with
      | enter =>
          cases hs
          exact steps_buildStep hu h
      | reset b =>
          cases hs
          exact steps_resetAfterBuild hu h b
      | _ => cases hs
  | lookup h name =>
      have hop : ∀ h', Op.lookup h name ≠ .build h' := nofun
      cases pc with
      | enter =>
          cases hs
          exact (moves_lookupSymbol hu h name).steps hu hop
      | fetch idx seen =>
          cases hs
          exact steps_symbolAt hu hop h idx seen
      | fetched idx sym src seen =>
          cases hs
          exact (moves_search _ id _ name idx).append hu hop
      | _ => cases hs
  | preload h =>
      have hop : ∀ h', Op.preload h ≠ .build h' := nofun
      cases pc with
      | enter =>
          cases hs
          exact (moves_preloadSymbols hu h).steps hu hop
      | fetch idx seen =>
          cases hs
          exact steps_symbolAt hu hop h idx seen
      | fetched idx sym src seen =>
          cases hs
          exact (moves_next _ id _ .loaded).append hu hop
      | _ => cases hs

/-- A call that fits its operation can go on, or has returned. -/
theorem enabled_of_fits (hcall : s.calls id = some (op, pc)) (hfits : pc.Fits op)
    (hdone : ∀ r last, pc ≠ .done r last) : ∃ s', step sdk s (.run id env) = some s' := by
  simp only [step, hcall, Option.bind_some]
  cases op <;> cases pc <;>
    first | exact absurd rfl (hdone _ _) | exact hfits.elim | exact ⟨_, rfl⟩

end Step

/-- The build that had sized the cache when the call read its index. -/
def Pc.seen : Pc → Option Build
  | .fetch _ seen | .fetched _ _ _ seen => some seen
  | .enter | .reset _ | .done _ _ => none

/-- No build sizes the cache twice: the numbers in `A` are those of the builds that
have done so. -/
structure Numbered (A : Set Nat) (s : State) : Prop where
  sized : s.sized.no ∈ A
  le : ∀ n ∈ A, n ≤ s.builds
  seen : ∀ id op pc x, s.calls id = some (op, pc) → pc.seen = some x → x.no ∈ A
  pending : ∀ id op b, s.calls id = some (op, .reset b) → b.no ∉ A ∧ b.no ≤ s.builds
  once : ∀ id op b id' op' b', s.calls id = some (op, .reset b) →
    s.calls id' = some (op', .reset b') → b.no = b'.no → id = id'

section Numbered

variable {sdk : Sdk} {s s' : State} {id : CallId} {op : Op} {pc pc' : Pc} {env : Env} {A : Set Nat}

theorem numbered_fresh : Numbered {0} fresh where
  sized := rfl
  le := fun _ hn => hn.le
  seen := nofun
  pending := nofun
  once := nofun

theorem calls_cases (hcalls : s'.calls = Function.update s.calls id (some (op, pc'))) {id' : CallId}
    {op' : Op} {pc : Pc} (hcall : s'.calls id' = some (op', pc)) :
    (id' = id ∧ op' = op ∧ pc = pc') ∨ (id' ≠ id ∧ s.calls id' = some (op', pc)) := by
  rw [hcalls, Function.update_apply] at hcall
  split at hcall
  · next heq =>
      cases hcall
      exact .inl ⟨heq, rfl, rfl⟩
  · next hne => exact .inr ⟨hne, hcall⟩

/-- A call that gets to no reset of its own. -/
theorem Numbered.move (h : Numbered A s)
    (hcalls : s'.calls = Function.update s.calls id (some (op, pc'))) (hsized : s'.sized = s.sized)
    (hbuilds : s'.builds = s.builds) (hseen : ∀ x, pc'.seen = some x → x.no ∈ A)
    (hreset : ∀ b, pc' ≠ .reset b) : Numbered A s' := by
  refine ⟨hsized ▸ h.sized, hbuilds ▸ h.le, ?_, ?_, ?_⟩
  · intro id' op' pc x hcall hx
    rcases calls_cases hcalls hcall with ⟨-, -, rfl⟩ | ⟨-, hold⟩
    · exact hseen x hx
    · exact h.seen id' op' pc x hold hx
  · intro id' op' b hcall
    rcases calls_cases hcalls hcall with ⟨-, -, heq⟩ | ⟨-, hold⟩
    · exact absurd heq.symm (hreset b)
    · exact hbuilds ▸ h.pending id' op' b hold
  · intro id₁ op₁ b₁ id₂ op₂ b₂ hcall₁ hcall₂
    rcases calls_cases hcalls hcall₁ with ⟨-, -, heq⟩ | ⟨-, hold₁⟩
    · exact absurd heq.symm (hreset b₁)
    · rcases calls_cases hcalls hcall₂ with ⟨-, -, heq⟩ | ⟨-, hold₂⟩
      · exact absurd heq.symm (hreset b₂)
      · exact h.once id₁ op₁ b₁ id₂ op₂ b₂ hold₁ hold₂

/-- The engine has built, and numbers the build. -/
theorem Numbered.build (h : Numbered A s) {b : Build}
    (hcalls : s'.calls = Function.update s.calls id (some (op, .reset b)))
    (hsized : s'.sized = s.sized) (hbuilds : s'.builds = s.builds + 1)
    (hno : b.no = s.builds + 1) : Numbered A s' := by
  refine ⟨hsized ▸ h.sized, fun n hn => ?_, ?_, ?_, ?_⟩
  · rw [hbuilds]
    exact (h.le n hn).trans (Nat.le_succ _)
  · intro id' op' pc x hcall hx
    rcases calls_cases hcalls hcall with ⟨-, -, rfl⟩ | ⟨-, hold⟩
    · cases hx
    · exact h.seen id' op' pc x hold hx
  · intro id' op' b' hcall
    rw [hbuilds]
    rcases calls_cases hcalls hcall with ⟨-, -, heq⟩ | ⟨-, hold⟩
    · cases heq
      refine ⟨fun hmem => ?_, hno.le⟩
      have hle := h.le _ hmem
      omega
    · obtain ⟨hnot, hle⟩ := h.pending id' op' b' hold
      exact ⟨hnot, hle.trans (Nat.le_succ _)⟩
  · have hother : ∀ id' op' b', s.calls id' = some (op', .reset b') → b'.no ≠ b.no := by
      intro id' op' b' hold
      have hle := (h.pending id' op' b' hold).2
      omega
    intro id₁ op₁ b₁ id₂ op₂ b₂ hcall₁ hcall₂ heq
    rcases calls_cases hcalls hcall₁ with ⟨rfl, -, h₁⟩ | ⟨-, hold₁⟩ <;>
      rcases calls_cases hcalls hcall₂ with ⟨rfl, -, h₂⟩ | ⟨-, hold₂⟩
    · rfl
    · cases h₁
      exact absurd heq.symm (hother id₂ op₂ b₂ hold₂)
    · cases h₂
      exact absurd heq (hother id₁ op₁ b₁ hold₁)
    · exact h.once id₁ op₁ b₁ id₂ op₂ b₂ hold₁ hold₂ heq

/-- A build sizes the cache. -/
theorem Numbered.reset (h : Numbered A s) {b : Build} {r : Result} {last : Build}
    (hcall : s.calls id = some (op, .reset b))
    (hcalls : s'.calls = Function.update s.calls id (some (op, .done r last)))
    (hsized : s'.sized = b) (hbuilds : s'.builds = s.builds) : Numbered (insert b.no A) s' := by
  refine ⟨hsized ▸ Set.mem_insert _ _, fun n hn => ?_, ?_, ?_, ?_⟩
  · rw [hbuilds]
    rcases hn with rfl | hn
    · exact (h.pending id op b hcall).2
    · exact h.le n hn
  · intro id' op' pc x hcall' hx
    rcases calls_cases hcalls hcall' with ⟨-, -, rfl⟩ | ⟨-, hold⟩
    · cases hx
    · exact Set.mem_insert_of_mem _ (h.seen id' op' pc x hold hx)
  · intro id' op' b' hcall'
    rw [hbuilds]
    rcases calls_cases hcalls hcall' with ⟨-, -, heq⟩ | ⟨hne, hold⟩
    · cases heq
    · obtain ⟨hnot, hle⟩ := h.pending id' op' b' hold
      refine ⟨?_, hle⟩
      rintro (heq | hmem)
      · exact hne (h.once id' op' b' id op b hold hcall heq)
      · exact hnot hmem
  · intro id₁ op₁ b₁ id₂ op₂ b₂ hcall₁ hcall₂
    rcases calls_cases hcalls hcall₁ with ⟨-, -, heq⟩ | ⟨-, hold₁⟩
    · cases heq
    · rcases calls_cases hcalls hcall₂ with ⟨-, -, heq⟩ | ⟨-, hold₂⟩
      · cases heq
      · exact h.once id₁ op₁ b₁ id₂ op₂ b₂ hold₁ hold₂

/-- Where the loop condition leads, the call has seen the last build. -/
theorem Loops.seen (h : Loops s pc) {x : Build} (hx : pc.seen = some x) : x = s.sized := by
  cases h with
  | fetch _ =>
      cases hx
      rfl
  | done r last => cases hx

theorem Loops.ne_reset (h : Loops s pc) (b : Build) : pc ≠ .reset b := by
  cases h <;> nofun

theorem Numbered.loops (h : Numbered A s)
    (hcalls : s'.calls = Function.update s.calls id (some (op, pc'))) (hsized : s'.sized = s.sized)
    (hbuilds : s'.builds = s.builds) (hloops : Loops s' pc') : Numbered A s' := by
  apply h.move hcalls hsized hbuilds
  · intro x hx
    rw [hloops.seen hx, hsized]
    exact h.sized
  · exact hloops.ne_reset

theorem Numbered.effect (h : Numbered A s) (hcall : s.calls id = some (op, pc))
    (hcalls : s'.calls = Function.update s.calls id (some (op, pc')))
    (heff : Effect sdk s s' env pc pc') : ∃ A', Numbered A' s' := by
  cases heff with
  | enter hsame hloops => exact ⟨A, h.loops hcalls hsame.sized hsame.builds hloops⟩
  | build b _ hsized hbuilds hno => exact ⟨A, h.build hcalls hsized hbuilds hno⟩
  | reset b r last _ _ hsized hbuilds => exact ⟨_, h.reset hcall hcalls hsized hbuilds⟩
  | noCache b r last _ hsame =>
      exact ⟨A, h.loops hcalls hsame.sized hsame.builds (.done r last)⟩
  | symbolAt idx sym src seen hsame =>
      refine ⟨A, h.move hcalls hsame.sized hsame.builds (fun x hx => ?_) nofun⟩
      cases hx
      exact h.seen id op _ _ hcall rfl
  | failed idx seen r last hsame =>
      exact ⟨A, h.loops hcalls hsame.sized hsame.builds (.done r last)⟩
  | append idx sym src seen _ hsized hbuilds hloops =>
      exact ⟨A, h.loops hcalls hsized hbuilds hloops⟩

end Numbered

/-- A call that is about to ask for an index, or has asked for it: with each reset of
the cache that it has met it may have asked for as many symbols as a table can have,
and since the last one for those before the index. -/
structure Lap (c : TagCache) (sized : Build) (resets asked idx : Nat) (seen : Build) : Prop where
  lt : idx < 65535
  le : asked ≤ 65535 * resets + idx
  stale : seen ≠ sized → asked + 65535 ≤ 65535 * resets + idx
  fresh : seen = sized → idx ≤ c.knownCount ∧ idx < c.totalCount

/-- The steps and the requests of a call, by the place it has come to. -/
def Counted (c : TagCache) (sized : Build) (resets asked steps : Nat) : Option (Op × Pc) → Prop
  | none | some (_, .enter) => asked = 0 ∧ steps = 0
  | some (_, .reset _) => asked = 0 ∧ steps ≤ 1
  | some (_, .fetch idx seen) => Lap c sized resets asked idx seen ∧ steps ≤ 2 * asked + 1
  | some (_, .fetched idx _ _ seen) =>
      (∃ before, asked = before + 1 ∧ Lap c sized resets before idx seen) ∧ steps ≤ 2 * asked
  | some (_, .done _ _) => asked ≤ 65535 * (resets + 1) ∧ steps ≤ 2 * asked + 2

section Counted

variable {sdk : Sdk} {s s' : State} {id : CallId} {op : Op} {pc pc' : Pc} {env : Env}
variable {c c' : TagCache} {sized sized' seen : Build} {r r' f n idx : Nat} {sym : SymbolInfo}
variable {call : Option (Op × Pc)}

theorem Lap.keep (h : Lap c sized r f idx seen) (hr : r ≤ r') (hknown : c.knownCount ≤ c'.knownCount)
    (htotal : c'.totalCount = c.totalCount) : Lap c' sized r' f idx seen := by
  have hle := h.le
  refine ⟨h.lt, by omega, fun hne => ?_, fun heq => ?_⟩
  · have hstale := h.stale hne
    omega
  · obtain ⟨hidx, hlt⟩ := h.fresh heq
    exact ⟨hidx.trans hknown, htotal ▸ hlt⟩

/-- A build sizes the cache after the call has read its index. -/
theorem Lap.overtaken (h : Lap c sized r f idx seen) (hne : seen ≠ sized') :
    Lap c' sized' (r + 1) f idx seen := by
  have hle := h.le
  exact ⟨h.lt, by omega, fun _ => by omega, fun heq => absurd heq hne⟩

/-- The index is filled, or found to be. -/
theorem Lap.advances (h : Lap c sized r f idx seen) (hwhole : c.symbols.length = c.totalCount)
    (heq : seen = sized) (sym : SymbolInfo) :
    c.knownCount = idx ∧ (c.append idx sym).knownCount = idx + 1 ∨ idx < c.knownCount := by
  obtain ⟨hidx, hlt⟩ := h.fresh heq
  rcases Nat.eq_or_lt_of_le hidx with rfl | hpast
  · have hopen : c.knownCount < c.symbols.length := hwhole.symm ▸ hlt
    exact .inl ⟨rfl, (TagCache.append_of_open sym rfl hopen).1⟩
  · exact .inr hpast

theorem TagCache.known_le_append (c : TagCache) (idx : Nat) (sym : SymbolInfo) :
    c.knownCount ≤ (c.append idx sym).knownCount := by
  by_cases hopen : idx = c.knownCount ∧ c.knownCount < c.symbols.length
  · rw [(TagCache.append_of_open sym hopen.1 hopen.2).1]
    exact Nat.le_succ _
  · rw [TagCache.append_of_closed hopen]

/-- With the request for the index the call has not asked for more than what is known
now, and one table for each reset. -/
theorem Lap.append (h : Lap c sized r f idx seen) (hwhole : c.symbols.length = c.totalCount)
    (sym : SymbolInfo) : f + 1 ≤ 65535 * r + (c.append idx sym).knownCount := by
  have hlt := h.lt
  by_cases heq : seen = sized
  · have hle := h.le
    have hknown := c.known_le_append idx sym
    rcases h.advances hwhole heq sym with ⟨-, hnext⟩ | hpast <;> omega
  · have hstale := h.stale heq
    omega

theorem Counted.keep (h : Counted c sized r f n call) (hr : r ≤ r')
    (hknown : c.knownCount ≤ c'.knownCount) (htotal : c'.totalCount = c.totalCount) :
    Counted c' sized r' f n call := by
  rcases call with - | ⟨op, pc⟩
  · exact h
  · cases pc with
    | enter | reset b => exact h
    | fetch idx seen => exact ⟨h.1.keep hr hknown htotal, h.2⟩
    | fetched idx sym src seen =>
        obtain ⟨⟨g, hg, hlap⟩, hn⟩ := h
        exact ⟨⟨g, hg, hlap.keep hr hknown htotal⟩, hn⟩
    | done res last =>
        refine ⟨h.1.trans ?_, h.2⟩
        omega

theorem Counted.overtaken (h : Counted c sized r f n call)
    (hne : ∀ op pc, call = some (op, pc) → pc.seen ≠ some sized') :
    Counted c' sized' (r + 1) f n call := by
  rcases call with - | ⟨op, pc⟩
  · exact h
  · cases pc with
    | enter | reset b => exact h
    | fetch idx seen =>
        exact ⟨h.1.overtaken fun heq => hne op _ rfl (congrArg some heq), h.2⟩
    | fetched idx sym src seen =>
        obtain ⟨⟨g, hg, hlap⟩, hn⟩ := h
        exact ⟨⟨g, hg, hlap.overtaken fun heq => hne op _ rfl (congrArg some heq)⟩, hn⟩
    | done res last =>
        refine ⟨h.1.trans ?_, h.2⟩
        omega

/-- The loop condition, for a call that has asked for what is known. -/
theorem Loops.counted (h : Loops s pc) (htotal : s.cache.totalCount ≤ 65535)
    (hf : f ≤ 65535 * r + s.cache.knownCount) (hn : n ≤ 2 * f + 1) :
    Counted s.cache s.sized r f n (some (op, pc)) := by
  have hknown := s.cache.known_le
  have hlength := s.cache.length_le_total
  cases h with
  | fetch hlt => exact ⟨⟨by omega, hf, fun hne => absurd rfl hne, fun _ => ⟨le_rfl, hlt⟩⟩, hn⟩
  | done res last => exact ⟨by omega, by omega⟩

def Pc.isReset : Pc → Bool
  | .reset _ => true
  | .enter | .fetch _ _ | .fetched _ _ _ _ | .done _ _ => false

def Pc.isFetch : Pc → Bool
  | .fetch _ _ => true
  | .enter | .reset _ | .fetched _ _ _ _ | .done _ _ => false

/-- The call that makes the step. -/
theorem Counted.effect (h : Counted s.cache s.sized r f n (some (op, pc)))
    (heff : Effect sdk s s' env pc pc') (hwhole : s.cache.symbols.length = s.cache.totalCount)
    (htotal : s'.cache.totalCount ≤ 65535) :
    Counted s'.cache s'.sized (r + pc.isReset.toNat) (f + pc.isFetch.toNat) (n + 1)
      (some (op, pc')) := by
  cases heff with
  | enter hsame hloops =>
      obtain ⟨rfl, rfl⟩ := h
      exact hloops.counted htotal (Nat.zero_le _) le_rfl
  | build b hcache hsized hbuilds hno =>
      obtain ⟨rfl, rfl⟩ := h
      exact ⟨rfl, le_rfl⟩
  | reset b res last _ _ _ _ | noCache b res last _ _ =>
      obtain ⟨rfl, hn⟩ := h
      change 0 + 0 ≤ 65535 * (r + 1 + 1) ∧ n + 1 ≤ 2 * (0 + 0) + 2
      exact ⟨by omega, by omega⟩
  | symbolAt idx sym src seen hsame =>
      obtain ⟨hlap, hn⟩ := h
      refine ⟨⟨f, rfl, ?_⟩, ?_⟩
      · rw [hsame.sized]
        exact hlap.keep le_rfl (congrArg TagCache.knownCount hsame.cache).ge
          (congrArg TagCache.totalCount hsame.cache)
      · change n + 1 ≤ 2 * (f + 1)
        omega
  | failed idx seen res last hsame =>
      obtain ⟨hlap, hn⟩ := h
      have hle := hlap.le
      have hlt := hlap.lt
      change f + 1 ≤ 65535 * (r + 1) ∧ n + 1 ≤ 2 * (f + 1) + 2
      exact ⟨by omega, by omega⟩
  | append idx sym src seen hcache hsized hbuilds hloops =>
      obtain ⟨⟨g, rfl, hlap⟩, hn⟩ := h
      apply hloops.counted (f := g + 1) (r := r) htotal
      · rw [hcache]
        exact hlap.append hwhole sym
      · exact Nat.succ_le_succ hn

/-- What the other calls see of a step. -/
theorem Effect.later (h : Effect sdk s s' env pc pc') :
    (s'.sized = s.sized ∧ s.cache.knownCount ≤ s'.cache.knownCount ∧
      s'.cache.totalCount = s.cache.totalCount) ∨ ∃ b, pc = .reset b ∧ s'.sized = b := by
  have same : Same s s' → s'.sized = s.sized ∧ s.cache.knownCount ≤ s'.cache.knownCount ∧
      s'.cache.totalCount = s.cache.totalCount := fun hsame =>
    ⟨hsame.sized, (congrArg TagCache.knownCount hsame.cache).ge,
      congrArg TagCache.totalCount hsame.cache⟩
  cases h with
  | enter hsame _ | noCache _ _ _ _ hsame | symbolAt _ _ _ _ hsame | failed _ _ _ _ hsame =>
      exact .inl (same hsame)
  | build b hcache hsized _ _ =>
      exact .inl ⟨hsized, (congrArg TagCache.knownCount hcache).ge,
        congrArg TagCache.totalCount hcache⟩
  | reset b _ _ _ _ hsized _ => exact .inr ⟨b, rfl, hsized⟩
  | append idx sym _ _ hcache hsized _ _ =>
      refine .inl ⟨hsized, ?_, ?_⟩
      · rw [hcache]
        exact s.cache.known_le_append idx sym
      · rw [hcache, TagCache.append_total]

end Counted

section Run

variable {sdk : Sdk} {s s' : State} {l : Label} {tr : List (State × Label)}

structure Basic (s : State) : Prop where
  unused : Unused s
  total_le : s.cache.totalCount ≤ 65535
  numbered : ∃ A, Numbered A s
  fits : ∀ id op pc, s.calls id = some (op, pc) → pc.Fits op

theorem basic_fresh : Basic fresh :=
  ⟨fun _ => rfl, Nat.zero_le _, ⟨_, numbered_fresh⟩, nofun⟩

theorem Effect.total_le {env : Env} {pc pc' : Pc} (h : Effect sdk s s' env pc pc')
    (htotal : s.cache.totalCount ≤ 65535) : s'.cache.totalCount ≤ 65535 := by
  cases h with
  | enter hsame _ | noCache _ _ _ _ hsame | symbolAt _ _ _ _ hsame | failed _ _ _ _ hsame =>
      exact hsame.cache ▸ htotal
  | build b hcache _ _ _ => exact hcache ▸ htotal
  | reset b _ _ _ hcache _ _ =>
      rw [hcache]
      exact Nat.le_of_lt_succ b.table.length_lt
  | append idx sym _ _ hcache _ _ _ =>
      rw [hcache, TagCache.append_total]
      exact htotal

/-- Every step keeps what holds of all runs. -/
theorem Basic.step (h : Basic s) (hs : step sdk s l = some s') : Basic s' := by
  obtain ⟨A, hA⟩ := h.numbered
  cases l with
  | start id op =>
      simp only [Symbols.step] at hs
      split at hs <;> cases hs
      refine ⟨h.unused, h.total_le, ⟨A, hA.move rfl rfl rfl (fun _ h => by cases h)
        (fun _ h => by cases h)⟩, fun id' op' pc hcall => ?_⟩
      rcases calls_cases rfl hcall with ⟨-, -, rfl⟩ | ⟨-, hold⟩
      · cases op' <;> trivial
      · exact h.fits id' op' pc hold
  | run id env =>
      obtain ⟨op, pc, hcall, hunused, pc', hcalls, heff, hfits⟩ := run_cases h.unused hs
      refine ⟨hunused, heff.total_le h.total_le, hA.effect hcall hcalls heff, fun id' op' pc hcall' => ?_⟩
      rcases calls_cases hcalls hcall' with ⟨-, rfl, rfl⟩ | ⟨-, hold⟩
      · exact hfits
      · exact h.fits id' op' pc hold

theorem basic_of_reachable (hr : (client sdk).Reachable s) : Basic s := by
  apply hr.invariant Basic
  · rintro s rfl
    exact basic_fresh
  · intro s l s' h _ hs
    exact h.step hs

/-- A step keeps the cache whole exactly when it allocates. -/
theorem whole_iff (h : Basic s) (hwhole : s.cache.Whole) (hs : step sdk s l = some s') :
    s'.cache.Whole ↔ Allocates sdk s l := by
  cases l with
  | start id op =>
      simp only [Symbols.step] at hs
      split at hs <;> cases hs
      exact iff_of_true hwhole trivial
  | run id env =>
      obtain ⟨op, pc, hcall, -, pc', -, heff, -⟩ := run_cases h.unused hs
      simp only [Allocates, hcall]
      cases heff with
      | enter hsame _ | symbolAt _ _ _ _ hsame | failed _ _ _ _ hsame =>
          exact iff_of_true (hsame.cache.symm ▸ hwhole) trivial
      | build b hcache _ _ _ => exact iff_of_true (hcache.symm ▸ hwhole) trivial
      | noCache b _ _ hnone hsame =>
          exact iff_of_true (hsame.cache.symm ▸ hwhole) (.inr (.inl hnone))
      | reset b _ _ hroom hcache _ _ =>
          rw [hcache]
          cases hmemory : env.memory || decide (sdk ≠ .c) with
          | true =>
              refine iff_of_true ⟨Nat.zero_le _, ?_⟩ (.inr (.inr rfl))
              exact List.length_replicate
          | false =>
              simp only [TagCache.Whole, TagCache.reset, hroom, List.length_nil,
                Bool.false_eq_true, if_false, or_false, le_refl, true_and]
              rw [eq_comm, List.length_eq_zero_iff]
      | append idx sym _ _ hcache _ _ _ =>
          refine iff_of_true ⟨s'.cache.known_le, ?_⟩ trivial
          rw [hcache, TagCache.append_total, ← hwhole.2]
          unfold TagCache.append
          split
          · exact List.length_set
          · rfl

theorem countP_snoc {α : Type} (p : α → Bool) (tr : List α) (q : α) :
    (tr ++ [q]).countP p = tr.countP p + (p q).toNat := by
  rw [List.countP_append, List.countP_singleton]
  cases p q <;> rfl

/-- The requests and the steps of each call, in runs that keep the cache whole. -/
theorem counted_of_trace (htr : (client sdk).Trace tr s) (hwhole : ∀ q ∈ tr, q.1.cache.Whole)
    (id : CallId) :
    Counted s.cache s.sized (resets tr) (symbolAts id tr) (steps id tr) (s.calls id) := by
  induction htr with
  | init h =>
      subst h
      exact ⟨rfl, rfl⟩
  | @step tr s s' l htr hs ih =>
      have hbefore := ih fun q hq => hwhole q (List.mem_append_left _ hq)
      have hlast : s.cache.Whole :=
        hwhole (s, l) (List.mem_append_right _ (List.mem_singleton_self _))
      have hbasic := basic_of_reachable htr.reachable
      rw [resets, symbolAts, steps, countP_snoc, countP_snoc, countP_snoc, ← resets, ← symbolAts,
        ← steps]
      cases l with
      | start id' op =>
          simp only [client, Symbols.step] at hs
          split at hs <;> cases hs
          next hnone =>
          by_cases hid : id = id'
          · subst hid
            rw [hnone] at hbefore
            simp only [State.goto, Function.update_self]
            exact hbefore
          · simp only [State.goto, Function.update_of_ne hid]
            exact hbefore
      | run id' env =>
          obtain ⟨op, pc, hcall, -, pc', hcalls, heff, -⟩ := run_cases hbasic.unused hs
          have hreset : isReset (s, .run id' env) = pc.isReset := by
            simp only [isReset, hcall]
            cases pc <;> rfl
          rw [hreset]
          by_cases hid : id = id'
          · subst hid
            have hfetch : isSymbolAt id (s, .run id env) = pc.isFetch := by
              simp only [isSymbolAt, isStep, hcall, decide_true, Bool.true_and]
              cases pc <;> rfl
            have hstep : isStep id (s, .run id env) = true := decide_eq_true rfl
            rw [hcall] at hbefore
            rw [hfetch, hstep, hcalls, Function.update_self]
            exact hbefore.effect heff hlast.2 (heff.total_le hbasic.total_le)
          · have hstep : isStep id (s, .run id' env) = false := decide_eq_false (Ne.symm hid)
            have hfetch : isSymbolAt id (s, .run id' env) = false := by
              rw [isSymbolAt, hstep, Bool.false_and]
            rw [hfetch, hstep, hcalls, Function.update_of_ne hid]
            rcases heff.later with ⟨hsized, hknown, htotal⟩ | ⟨b, rfl, hsized⟩
            · rw [hsized]
              exact hbefore.keep (Nat.le_add_right _ _) hknown htotal
            · -- the number of the build is new
              obtain ⟨A, hA⟩ := hbasic.numbered
              apply hbefore.overtaken
              intro op' pc hcall' hseen
              rw [hsized] at hseen
              exact (hA.pending id' op b hcall).1 (hA.seen id op' pc b hcall' hseen)

/-- The steps and the requests of a call, wherever it is. -/
theorem Counted.le {c : TagCache} {sized : Build} {r f n : Nat} {call : Option (Op × Pc)}
    (h : Counted c sized r f n call) : f ≤ 65535 * (r + 1) ∧ n ≤ 2 * f + 2 := by
  rcases call with - | ⟨op, pc⟩
  · obtain ⟨rfl, rfl⟩ := h
    exact ⟨Nat.zero_le _, Nat.zero_le _⟩
  · cases pc with
    | enter =>
        obtain ⟨rfl, rfl⟩ := h
        exact ⟨Nat.zero_le _, Nat.zero_le _⟩
    | reset b =>
        obtain ⟨rfl, hn⟩ := h
        exact ⟨Nat.zero_le _, hn.trans (Nat.le_succ _)⟩
    | fetch idx seen =>
        obtain ⟨hlap, hn⟩ := h
        have hlt := hlap.lt
        have hle := hlap.le
        exact ⟨by omega, by omega⟩
    | fetched idx sym src seen =>
        obtain ⟨⟨g, rfl, hlap⟩, hn⟩ := h
        have hlt := hlap.lt
        have hle := hlap.le
        exact ⟨by omega, by omega⟩
    | done res last => exact h

theorem advances_of_whole (htr : (client sdk).Trace tr s) (hwhole : ∀ q ∈ tr, q.1.cache.Whole)
    (hlast : s.cache.Whole) (hs : step sdk s l = some s') : Advances (s, l) s' := by
  rintro id env op idx sym src seen rfl hcall hseen
  have hcounted := counted_of_trace htr hwhole id
  change s.calls id = _ at hcall
  rw [hcall] at hcounted
  obtain ⟨⟨g, -, hlap⟩, -⟩ := hcounted
  obtain ⟨op', pc, hcall', -, pc', -, heff, -⟩ :=
    run_cases (basic_of_reachable htr.reachable).unused hs
  cases hcall.symm.trans hcall'
  cases heff with
  | append _ _ _ _ hcache _ _ _ =>
      rw [hcache]
      exact hlap.advances hlast.2 hseen sym

/-- The fill loops terminate in a run exactly when each build in it that has symbols
and gets to the cache gets the memory for them. -/
theorem fill_terminates (htr : (client sdk).Trace tr s) :
    Terminates sdk tr s ↔ ∀ q ∈ tr, Allocates sdk q.1 q.2 := by
  have hiff : ((∀ q ∈ tr, q.1.cache.Whole) ∧ s.cache.Whole) ↔ ∀ q ∈ tr, Allocates sdk q.1 q.2 := by
    have hinit : ∀ s, (client sdk).init s → s.cache.Whole := by
      rintro s rfl
      exact ⟨le_rfl, rfl⟩
    refine htr.always_iff (Allocates sdk) hinit fun s l s' hr hs => ?_
    have hwhole : s.cache.Whole := by
      apply hr.invariant_of (fun s hr => basic_of_reachable hr.reachable) fun s => s.cache.Whole
      · exact hinit
      · exact fun s l s' hbasic hwhole hok hs => (whole_iff hbasic hwhole hs).mpr hok
    exact whole_iff (basic_of_reachable hr.reachable) hwhole hs
  rw [← hiff]
  refine ⟨Terminates.whole, fun hwhole => ?_⟩
  have hcounted := counted_of_trace htr hwhole.1
  have hbasic := basic_of_reachable htr.reachable
  refine ⟨hwhole, ?_, fun id => (hcounted id).le.1, fun id => (hcounted id).le.2, ?_⟩
  · rintro ⟨t, l⟩ hq t' hs
    obtain ⟨pre, post, rfl⟩ := List.append_of_mem hq
    have hpre : ∀ q ∈ pre, q.1.cache.Whole := fun q hq => hwhole.1 q (List.mem_append_left _ hq)
    exact advances_of_whole htr.upTo.1 hpre (hwhole.1 (t, l) hq) hs
  · intro id op pc hcall hdone env
    exact enabled_of_fits hcall (hbasic.fits id op pc hcall) hdone

def Label.memory : Label → Bool
  | .start _ _ => true
  | .run _ env => env.memory

/-- A lookup that a build overtakes. -/
theorem fill_terminates_rebuild : ∃ tr s, (client .c).Trace tr s ∧
    s.calls 1 = some (.lookup 0 [0x78], .done (.found symbolX) ⟨2, tableXA⟩) ∧
      Terminates .c tr s := by
  obtain ⟨tr, s, htr, hmemory, hend⟩ := (client .c).exists_trace_of_run (fun _ l => l.memory) rfl
    (buildLabels 0 tableAX ++ [.start 1 (.lookup 0 [0x78]), .run 1 {}] ++ buildLabels 2 tableXA ++
      [.run 1 {}, .run 1 {}])
    (fun s => decide (s.calls 1 = some (.lookup 0 [0x78], .done (.found symbolX) ⟨2, tableXA⟩)))
    (by decide +kernel)
  refine ⟨tr, s, htr, of_decide_eq_true hend, (fill_terminates htr).mpr fun q hq => ?_⟩
  obtain ⟨t, l⟩ := q
  have hl := hmemory _ hq
  cases l with
  | start id op => trivial
  | run id env =>
      have hmem : env.memory = true := hl
      simp only [Allocates, hmem, Bool.true_or]
      split <;> simp

def Label.isBuild : Label → Bool
  | .start _ (.build _) => true
  | .start _ (.lookup _ _) | .start _ (.preload _) | .run _ _ => false

/-- A lookup of a name that is not there, in a cache whose build had no memory. -/
structure Spins (s : State) (id : CallId) (h : DbHandle) (name : List UInt8) : Prop where
  call : s.calls id = some (.lookup h name, .fetch 0 s.sized)
  capacity : s.cache.symbols = []
  total : 0 < s.cache.totalCount
  engine : ∃ b sym, s.engine h = some b ∧ b.table.symbols[0]? = some sym

/-- An iteration leads back to where it has begun. -/
theorem Spins.iterate (sdk : Sdk) {id : CallId} {h : DbHandle} {name : List UInt8} (hs : Spins s id h name) :
    ∃ s₁, step sdk s (.run id {}) = some s₁ ∧ step sdk s₁ (.run id {}) = some s := by
  obtain ⟨b, sym, hb, hsym⟩ := hs.engine
  have hknown : s.cache.knownCount = 0 := by
    have hle := s.cache.known_le
    rw [hs.capacity] at hle
    exact Nat.le_zero.mp hle
  refine ⟨s.goto id (.lookup h name) (.fetched 0 sym b s.sized), ?_, ?_⟩
  · simp [step, hs.call, callStep, symbolAt, hb, hsym]
  · have hclosed : s.cache.append 0 sym = s.cache := by
      apply TagCache.append_of_closed
      simp [hs.capacity]
    have hscan : s.cache.scan name 0 = none := by
      simp [TagCache.scan, TagCache.known, hknown]
    have hback : Function.update s.calls id (some (.lookup h name, .fetch 0 s.sized)) = s.calls := by
      rw [← hs.call, Function.update_eq_self]
    simp [step, State.goto, callStep, hclosed, State.search, hscan, State.next, hknown, hs.total,
      Function.update_idem, hback]

/-- It goes on for any number of requests. -/
theorem Spins.run {id : CallId} {h : DbHandle} {name : List UInt8} (hs : Spins s id h name)
    (htr : (client sdk).Trace tr s) (n : Nat) : ∃ tr', (client sdk).Trace tr' s ∧
      n ≤ symbolAts id tr' ∧
        (tr'.map Prod.snd).countP Label.isBuild = (tr.map Prod.snd).countP Label.isBuild := by
  induction n with
  | zero => exact ⟨tr, htr, Nat.zero_le _, rfl⟩
  | succ n ih =>
      obtain ⟨tr', htr', hasked, hbuilds⟩ := ih
      obtain ⟨s₁, hfetch, hfetched⟩ := hs.iterate sdk
      have hfirst : isSymbolAt id (s, .run id {}) = true := by
        simp [isSymbolAt, isStep, hs.call]
      have hnext : (client sdk).Trace (tr' ++ [(s, .run id {})]) s₁ := .step htr' hfetch
      have hback : (client sdk).Trace (tr' ++ [(s, .run id {})] ++ [(s₁, .run id {})]) s :=
        .step hnext hfetched
      refine ⟨_, hback, ?_, ?_⟩
      · rw [symbolAts, countP_snoc, countP_snoc, hfirst, ← symbolAts]
        exact (Nat.succ_le_succ hasked).trans (Nat.le_add_right _ _)
      · simp only [List.map_append, List.countP_append, hbuilds]
        rfl

/-- In C the size of a build outlives the memory that it has not got: a lookup that
is on its way then asks for the first symbol again and again. -/
theorem fill_spins :
    (∃ s, (client .c).Reachable s ∧ s.cache.symbols.length ≠ s.cache.totalCount) ∧
      ∀ n, ∃ tr s, (client .c).Trace tr s ∧ (tr.map Prod.snd).countP Label.isBuild = 2 ∧
        n ≤ symbolAts 1 tr ∧ Spins s 1 0 [0x7A] := by
  obtain ⟨s, htr, -, hlabels, hend⟩ := (client .c).exists_end_of_run (fun _ _ => True) rfl
    (buildLabels 0 tableAX ++ [.start 1 (.lookup 0 [0x7A]), .run 1 {}, .start 2 (.build 0),
      .run 2 { table := some tableXA }, .run 2 { memory := false }, .run 1 {}, .run 1 {}])
    (fun s => decide (s.calls 1 = some (.lookup 0 [0x7A], .fetch 0 ⟨2, tableXA⟩) ∧
      s.cache.symbols = [] ∧ s.cache.totalCount = 2 ∧ s.sized = ⟨2, tableXA⟩ ∧
        s.engine 0 = some ⟨2, tableXA⟩)) (by decide +kernel)
  obtain ⟨hcall, hnil, htotal, hsized, hengine⟩ := of_decide_eq_true hend
  have hspins : Spins s 1 0 [0x7A] := by
    refine ⟨hsized ▸ hcall, hnil, ?_, _, symbolX, hengine, rfl⟩
    rw [htotal]
    exact Nat.two_pos
  refine ⟨⟨s, htr.reachable, ?_⟩, fun n => ?_⟩
  · rw [hnil, htotal]
    exact nofun
  · obtain ⟨tr', htr', hasked, hbuilds⟩ := hspins.run htr n
    refine ⟨tr', s, htr', ?_, hasked, hspins⟩
    rw [hbuilds, hlabels]
    rfl

end Run

end BpClient.Symbols
