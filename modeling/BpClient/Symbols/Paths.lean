import BpClient.Lib.RefTable
import BpClient.Symbols.Model

/-!
The symbol caches of a client for all its PLC paths: `tag_caches` of `c/src/proto.h` and
`bp_tag_cache_find_or_alloc` of `c/src/tagcache.c`, the map `tagCaches` of Go and
`_tag_caches` of Python. A call looks the cache of its path up once, and uses it from then
on through a pointer, also after it has given the mutexes back.

For each path, these caches are the cache of a client that knows no other path.
-/

namespace BpClient.Symbols

open BpClient.Lib
open BpClient.Slot (Sdk CallId)

abbrev Path := List UInt8

def tagCacheMax : Nat := 8

/-- `tag_caches` and `bp_tag_cache_find_or_alloc`: the first cache in use under the path, else
the first that is not in use, for paths of at most 254 bytes. -/
def tagCaches : RefTable (Fin tagCacheMax → Cell Path TagCache) (Fin tagCacheMax) Path TagCache :=
  Cells.refs (fun path => decide (path.length ≤ 254)) ⟨false, [], .empty⟩ .empty

/-- `findOrAllocCache` and `_find_or_alloc_tag_cache`, with their maps. -/
def tagCacheMap : RefTable (Path → Option TagCache) Path Path TagCache := mapRefs .empty

def Op.handle : Op → DbHandle
  | .build h | .lookup h _ | .preload h => h

/-- The call is about to look up the cache of its path. -/
def Pc.attaches : Op → Pc → Bool
  | .build _, .reset _ | .lookup _ _, .enter | .preload _, .enter => true
  | _, _ => false

/-- A call, with its pointer to a cache. -/
structure PathCall (R : Type) where
  op : Op
  pc : Pc
  cache : Option R

structure ClientState (T R : Type) where
  caches : T
  /-- The build that last sized the cache of a path. -/
  sized : Path → Build
  engine : DbHandle → Option Build
  builds : Path → Nat
  calls : CallId → Option (PathCall R)

section Clients

variable {T R : Type} (sdk : Sdk) (tab : RefTable T R Path TagCache) (pathOf : DbHandle → Path)

namespace ClientState

variable (s : ClientState T R)

/-- What there is of a path. -/
def view (p : Path) : State where
  inUse := (tab.lookup s.caches p).isSome
  cache := (tab.lookup s.caches p).getD .empty
  sized := s.sized p
  engine := fun h => if pathOf h = p then s.engine h else none
  builds := s.builds p
  calls := fun id => (s.calls id).bind fun c =>
    if pathOf c.op.handle = p then some (c.op, c.pc) else none

/-- The caches, and the pointer that the call goes on with. -/
def attach (c : PathCall R) : T × Option R :=
  if c.pc.attaches c.op then
    match tab.findOrAlloc s.caches (pathOf c.op.handle) with
    | some (caches, r) => (caches, some r)
    | none => (s.caches, none)
  else (s.caches, c.cache)

def seen (p : Path) (caches : T) : Option R → State
  | some r => { s.view tab pathOf p with inUse := true, cache := tab.get caches r }
  | none => s.view tab pathOf p

/-- What a step of a call leaves behind. -/
def put (id : CallId) (p : Path) (caches : T) (ref : Option R) (t : State) : ClientState T R where
  caches := ref.elim caches fun r => tab.set caches r t.cache
  sized := Function.update s.sized p t.sized
  engine := fun h => if pathOf h = p then t.engine h else s.engine h
  builds := Function.update s.builds p t.builds
  calls := Function.update s.calls id ((t.calls id).map fun c => ⟨c.1, c.2, ref⟩)

/-- Whether there is room for a cache is not the environment's choice any more. -/
def step : Label → Option (ClientState T R)
  | .start id op =>
      match s.calls id with
      | none => some { s with calls := Function.update s.calls id (some ⟨op, .enter, none⟩) }
      | some _ => none
  | .run id env => (s.calls id).bind fun c =>
      let p := pathOf c.op.handle
      let found := s.attach tab pathOf c
      (callStep sdk (s.seen tab pathOf p found.1 found.2) id { env with room := false } c.op
        c.pc).map (s.put tab pathOf id p found.1 found.2)

/-- What a client that knows the path alone is asked to do. -/
def labelOf (p : Path) : Label → Option Label
  | .start id op => if pathOf op.handle = p then some (.start id op) else none
  | .run id env => (s.calls id).bind fun c =>
      if pathOf c.op.handle = p then
        some (.run id { env with room := (s.attach tab pathOf c).2.isSome })
      else none

end ClientState

def clients : System (ClientState T R) Label :=
  ⟨fun s => s = ⟨tab.empty, fun _ => .zero, fun _ => none, fun _ => 0, fun _ => none⟩,
    fun s => s.step sdk tab pathOf⟩

end Clients

/-- A step of a call touches the call, its handle and its cache. -/
structure Touches (s t : State) (id : CallId) (op : Op) : Prop where
  calls : ∃ pc, t.calls = Function.update s.calls id (some (op, pc))
  engine : ∀ h, h ≠ op.handle → t.engine h = s.engine h
  inUse : s.inUse = true → t.inUse = true

section Step

variable {sdk : Sdk} {s t : State} {id : CallId} {op : Op} {pc : Pc} {env : Env}

theorem touches_goto (s : State) (id : CallId) (op : Op) (pc : Pc) :
    Touches s (s.goto id op pc) id op :=
  ⟨⟨pc, rfl⟩, fun _ _ => rfl, fun h => h⟩

theorem touches_next (s : State) (id : CallId) (op : Op) (r : Result) :
    Touches s (s.next id op r) id op := by
  unfold State.next
  split <;> apply touches_goto

theorem touches_search (s : State) (id : CallId) (op : Op) (name : List UInt8) (i : Nat) :
    Touches s (s.search id op name i) id op := by
  unfold State.search
  split
  · apply touches_goto
  · apply touches_next

theorem findOrAlloc_cases (h : s.findOrAlloc sdk env = some t) :
    t = { s with inUse := true, cache := t.cache } ∧ (s.inUse = true → t.cache = s.cache) ∧
      (s.inUse = false → t.cache = .empty) := by
  unfold State.findOrAlloc at h
  split at h
  · next huse =>
      cases h
      refine ⟨?_, fun _ => rfl, fun hfree => absurd (huse.symm.trans hfree) (by decide)⟩
      cases s
      simp only [State.mk.injEq, and_true] at huse ⊢
      exact huse
  · next huse =>
      split at h <;> cases h
      exact ⟨rfl, fun htrue => absurd htrue huse, fun _ => rfl⟩

theorem Touches.after {t' : State} (h : Touches t t' id op)
    (hs : s.findOrAlloc sdk env = some t) : Touches s t' id op := by
  obtain ⟨heq, -, -⟩ := findOrAlloc_cases hs
  rw [heq] at h
  exact ⟨h.calls, h.engine, fun _ => h.inUse rfl⟩

theorem touches_symbolAt (s : State) (id : CallId) (env : Env) (op : Op) (h : DbHandle) (idx : Nat)
    (seen : Build) : Touches s (symbolAt s id env op h idx seen) id op := by
  unfold symbolAt
  repeat' split
  all_goals apply touches_goto

/-- No step of a call touches the engine tables of other handles. -/
theorem callStep_touches (h : callStep sdk s id env op pc = some t) : Touches s t id op := by
  cases op with
  | build hd =>
      cases pc with
      | enter =>
          cases h
          unfold buildStep
          split
          · apply touches_goto
          · refine ⟨⟨_, rfl⟩, fun h' hne => ?_, fun huse => huse⟩
            exact Function.update_of_ne hne _ _
      | reset b =>
          cases h
          unfold resetAfterBuild
          split
          · apply touches_goto
          · next t ht =>
              apply Touches.after _ ht
              exact ⟨⟨_, rfl⟩, fun _ _ => rfl, fun huse => huse⟩
      | _ => cases h
  | lookup hd name =>
      cases pc with
      | enter =>
          cases h
          unfold lookupSymbol
          split
          · apply touches_goto
          · next t ht =>
              apply Touches.after _ ht
              split
              · apply touches_goto
              · apply touches_search
      | fetch idx seen =>
          cases h
          apply touches_symbolAt
      | fetched idx sym src seen =>
          cases h
          obtain ⟨hcalls, hengine, huse⟩ :=
            touches_search { s with cache := s.cache.append idx sym } id (.lookup hd name) name idx
          exact ⟨hcalls, hengine, huse⟩
      | _ => cases h
  | preload hd =>
      cases pc with
      | enter =>
          cases h
          unfold preloadSymbols
          split
          · apply touches_goto
          · next t ht =>
              apply Touches.after _ ht
              split
              · apply touches_goto
              · apply touches_next
      | fetch idx seen =>
          cases h
          apply touches_symbolAt
      | fetched idx sym src seen =>
          cases h
          obtain ⟨hcalls, hengine, huse⟩ :=
            touches_next { s with cache := s.cache.append idx sym } id (.preload hd) .loaded
          exact ⟨hcalls, hengine, huse⟩
      | _ => cases h

/-- A call that looks its cache up goes on as if it had found it before. -/
theorem callStep_of_attaches (hatt : pc.attaches op = true)
    (ht : s.findOrAlloc sdk env = some t) (room : Bool) :
    callStep sdk s id env op pc = callStep sdk t id { env with room := room } op pc := by
  have huse : t.inUse = true := by
    rw [(findOrAlloc_cases ht).1]
  have hfound : t.findOrAlloc sdk { env with room := room } = some t := if_pos huse
  cases op <;> cases pc <;> try cases hatt
  all_goals simp only [callStep, resetAfterBuild, lookupSymbol, preloadSymbols, ht, hfound]

theorem callStep_room (hatt : pc.attaches op = false) (room : Bool) :
    callStep sdk s id env op pc = callStep sdk s id { env with room := room } op pc := by
  cases op <;> cases pc <;> first | rfl | cases hatt

/-- The call goes on to use a cache. -/
def Pc.uses : Pc → Bool
  | .fetch _ _ | .fetched _ _ _ _ => true
  | _ => false

/-- A call without a cache leaves the cache of its path alone. -/
theorem callStep_detached (hnone : pc.attaches op = true → s.findOrAlloc sdk env = none)
    (huses : pc.uses = false) (h : callStep sdk s id env op pc = some t) :
    t.inUse = s.inUse ∧ t.cache = s.cache ∧
      ∃ pc', t.calls = Function.update s.calls id (some (op, pc')) ∧ pc'.uses = false := by
  cases op with
  | build hd =>
      cases pc with
      | enter =>
          cases h
          unfold buildStep
          split
          · exact ⟨rfl, rfl, _, rfl, rfl⟩
          · exact ⟨rfl, rfl, _, rfl, rfl⟩
      | reset b =>
          simp only [callStep, resetAfterBuild, hnone rfl, Option.some.injEq] at h
          subst h
          exact ⟨rfl, rfl, _, rfl, rfl⟩
      | _ => cases h
  | lookup hd name =>
      cases pc with
      | enter =>
          simp only [callStep, lookupSymbol, hnone rfl, Option.some.injEq] at h
          subst h
          exact ⟨rfl, rfl, _, rfl, rfl⟩
      | fetch idx seen | fetched idx sym src seen => cases huses
      | _ => cases h
  | preload hd =>
      cases pc with
      | enter =>
          simp only [callStep, preloadSymbols, hnone rfl, Option.some.injEq] at h
          subst h
          exact ⟨rfl, rfl, _, rfl, rfl⟩
      | fetch idx seen | fetched idx sym src seen => cases huses
      | _ => cases h

end Step

section Views

variable {T R : Type} {sdk : Sdk} {tab : RefTable T R Path TagCache} {pathOf : DbHandle → Path}
  {Valid : T → Prop} {Refers : T → R → Path → Prop} {s s' : ClientState T R}

/-- Every pointer points to the cache of its call's path. -/
structure Pointed (pathOf : DbHandle → Path) (Valid : T → Prop) (Refers : T → R → Path → Prop)
    (s : ClientState T R) : Prop where
  valid : Valid s.caches
  refers : ∀ id c r, s.calls id = some c → c.cache = some r →
    Refers s.caches r (pathOf c.op.handle)
  attached : ∀ id c, s.calls id = some c → c.pc.uses = true → c.cache.isSome = true

/-- What a call has got when it goes on, with a pointer or without. -/
structure Attached (sdk : Sdk) (tab : RefTable T R Path TagCache) (pathOf : DbHandle → Path)
    (Valid : T → Prop) (Refers : T → R → Path → Prop) (s : ClientState T R) (id : CallId)
    (c : PathCall R) (caches : T) (ref : Option R) : Prop where
  valid : Valid caches
  keeps : ∀ r p, Refers s.caches r p → Refers caches r p
  others : ∀ p, p ≠ pathOf c.op.handle → tab.lookup caches p = tab.lookup s.caches p
  refers : ∀ r, ref = some r → Refers caches r (pathOf c.op.handle)
  detached : ref = none → caches = s.caches ∧ c.pc.uses = false ∧ (c.pc.attaches c.op = true →
    ∀ env : Env, (s.view tab pathOf (pathOf c.op.handle)).findOrAlloc sdk { env with room := false } =
      none)
  same : ∀ env : Env, callStep sdk (s.view tab pathOf (pathOf c.op.handle)) id
      { env with room := ref.isSome } c.op c.pc =
    callStep sdk (s.seen tab pathOf (pathOf c.op.handle) caches ref) id
      { env with room := false } c.op c.pc

theorem Pc.uses_of_attaches {op : Op} {pc : Pc} (h : pc.attaches op = true) : pc.uses = false := by
  cases op <;> cases pc <;> first | rfl | cases h

/-- The call finds the cache of its path, or gets a new one. -/
theorem attached_of_some (hlaw : tab.Lawful .empty Valid Refers) (hp : Pointed pathOf Valid Refers s)
    (id : CallId) {c : PathCall R} (hatt : c.pc.attaches c.op = true) {caches : T} {r : R}
    (hfind : tab.findOrAlloc s.caches (pathOf c.op.handle) = some (caches, r)) :
    Attached sdk tab pathOf Valid Refers s id c caches (some r) := by
  obtain ⟨hvalid, hrefers, hlookup, hkeep⟩ := hlaw.alloc hp.valid hfind
  have hget := hlaw.get hvalid hrefers
  rw [hlookup, Function.update_self, Option.some.injEq] at hget
  refine ⟨hvalid, hkeep, fun p hne => ?_, fun r' hr' => ?_, fun hnone => ?_, fun env => ?_⟩
  · rw [hlookup, Function.update_of_ne hne]
  · exact Option.some.inj hr' ▸ hrefers
  · cases hnone
  · apply callStep_of_attaches hatt
    rcases Option.eq_none_or_eq_some (tab.lookup s.caches (pathOf c.op.handle)) with hl | ⟨v, hl⟩
    · simp [State.findOrAlloc, ClientState.view, ClientState.seen, ← hget, hl]
    · simp [State.findOrAlloc, ClientState.view, ClientState.seen, ← hget, hl]

/-- There is no room for a cache. -/
theorem attached_of_none (hlaw : tab.Lawful .empty Valid Refers)
    (hroom : ∀ t p, tab.findOrAlloc t p = none → sdk = .c) (hp : Pointed pathOf Valid Refers s)
    (id : CallId) {c : PathCall R} (hatt : c.pc.attaches c.op = true)
    (hfind : tab.findOrAlloc s.caches (pathOf c.op.handle) = none) :
    Attached sdk tab pathOf Valid Refers s id c s.caches none := by
  have hlookup := hlaw.full hp.valid hfind
  refine ⟨hp.valid, fun _ _ h => h, fun _ _ => rfl, fun r hr => ?_,
    fun _ => ⟨rfl, Pc.uses_of_attaches hatt, fun _ env => ?_⟩, fun _ => rfl⟩
  · cases hr
  · simp [State.findOrAlloc, ClientState.view, hlookup, hroom _ _ hfind]

/-- The call uses the pointer that it has. -/
theorem attached_of_not_attaches (hlaw : tab.Lawful .empty Valid Refers)
    (hp : Pointed pathOf Valid Refers s) {id : CallId} {c : PathCall R} (hc : s.calls id = some c)
    (hatt : c.pc.attaches c.op = false) :
    Attached sdk tab pathOf Valid Refers s id c s.caches c.cache := by
  refine ⟨hp.valid, fun _ _ h => h, fun _ _ => rfl, fun r hr => hp.refers id c r hc hr,
    fun hnone => ⟨rfl, ?_, fun htrue => ?_⟩, fun env => ?_⟩
  · by_contra huses
    have hsome := hp.attached id c hc (Bool.eq_true_of_not_eq_false huses)
    rw [hnone] at hsome
    cases hsome
  · cases hatt.symm.trans htrue
  · have hsame : s.seen tab pathOf (pathOf c.op.handle) s.caches c.cache =
        s.view tab pathOf (pathOf c.op.handle) := by
      cases hr : c.cache with
      | none => rfl
      | some r =>
          have hget := hlaw.get hp.valid (hp.refers id c r hc hr)
          simp only [ClientState.seen, ClientState.view, hget, Option.isSome_some, Option.getD_some]
    rw [hsame]
    exact callStep_room hatt false

theorem attached (hlaw : tab.Lawful .empty Valid Refers)
    (hroom : ∀ t p, tab.findOrAlloc t p = none → sdk = .c) (hp : Pointed pathOf Valid Refers s)
    {id : CallId} {c : PathCall R} (hc : s.calls id = some c) :
    Attached sdk tab pathOf Valid Refers s id c (s.attach tab pathOf c).1
      (s.attach tab pathOf c).2 := by
  unfold ClientState.attach
  split
  · next hatt =>
      split
      · next hfind => exact attached_of_some hlaw hp id hatt hfind
      · next hfind => exact attached_of_none hlaw hroom hp id hatt hfind
  · next hatt => exact attached_of_not_attaches hlaw hp hc (Bool.eq_false_of_not_eq_true hatt)

section Put

variable {id : CallId} {c : PathCall R} {caches : T} {ref : Option R} {env : Env} {t : State}

theorem seen_engine {p : Path} {h : DbHandle} (hne : pathOf h ≠ p) :
    (s.seen tab pathOf p caches ref).engine h = none := by
  cases ref <;> exact if_neg hne

theorem seen_calls (s : ClientState T R) (p : Path) :
    (s.seen tab pathOf p caches ref).calls = (s.view tab pathOf p).calls := by
  cases ref <;> rfl

/-- What a step leaves of a path that its call is not about. -/
theorem view_put_other (hlaw : tab.Lawful .empty Valid Refers)
    (hatt : Attached sdk tab pathOf Valid Refers s id c caches ref) (hc : s.calls id = some c)
    (htouches : Touches (s.seen tab pathOf (pathOf c.op.handle) caches ref) t id c.op) {q : Path}
    (hq : q ≠ pathOf c.op.handle) :
    (s.put tab pathOf id (pathOf c.op.handle) caches ref t).view tab pathOf q =
      s.view tab pathOf q := by
  obtain ⟨⟨pc', hcalls⟩, -, -⟩ := htouches
  have hlookup : tab.lookup (ref.elim caches fun r => tab.set caches r t.cache) q =
      tab.lookup s.caches q := by
    rw [← hatt.others q hq]
    cases hr : ref with
    | none => rfl
    | some r =>
        have hset := (hlaw.set (v := t.cache) hatt.valid (hatt.refers r hr)).2.1
        rw [Option.elim_some, hset, Function.update_of_ne hq]
  simp only [ClientState.view, ClientState.put, State.mk.injEq, hlookup, Function.update_of_ne hq,
    true_and]
  constructor
  · funext h
    by_cases hh : pathOf h = q
    · rw [if_pos hh, if_pos hh, if_neg (hh ▸ hq)]
    · rw [if_neg hh, if_neg hh]
  · funext id'
    by_cases hid : id' = id
    · subst hid
      rw [Function.update_self, hcalls, Function.update_self, hc]
      simp [hq.symm]
    · rw [Function.update_of_ne hid]

/-- And what of its own path. -/
theorem view_put_self (hlaw : tab.Lawful .empty Valid Refers)
    (hatt : Attached sdk tab pathOf Valid Refers s id c caches ref)
    (hstep : callStep sdk (s.seen tab pathOf (pathOf c.op.handle) caches ref) id
      { env with room := false } c.op c.pc = some t) :
    (s.put tab pathOf id (pathOf c.op.handle) caches ref t).view tab pathOf (pathOf c.op.handle) =
      t := by
  obtain ⟨⟨pc', hcalls⟩, hengine, huse⟩ := callStep_touches hstep
  have hcache : (tab.lookup (ref.elim caches fun r => tab.set caches r t.cache)
      (pathOf c.op.handle)).isSome = t.inUse ∧
      (tab.lookup (ref.elim caches fun r => tab.set caches r t.cache)
        (pathOf c.op.handle)).getD .empty = t.cache := by
    cases hr : ref with
    | none =>
        obtain ⟨hcaches, huses, hnone⟩ := hatt.detached hr
        rw [hr] at hstep
        obtain ⟨huse', hcache', -⟩ := callStep_detached (fun h => hnone h env) huses hstep
        rw [Option.elim_none, hcaches, huse', hcache']
        exact ⟨rfl, rfl⟩
    | some r =>
        have hset := (hlaw.set (v := t.cache) hatt.valid (hatt.refers r hr)).2.1
        rw [Option.elim_some, hset, Function.update_self, huse (by rw [hr]; rfl)]
        exact ⟨rfl, rfl⟩
  cases t
  simp only [ClientState.view, ClientState.put, State.mk.injEq, Function.update_self, true_and]
  refine ⟨hcache.1, hcache.2, ?_, ?_⟩
  · funext h
    by_cases hh : pathOf h = pathOf c.op.handle
    · rw [if_pos hh, if_pos hh]
    · have hother := hengine h fun heq => hh (congrArg pathOf heq)
      rw [seen_engine hh] at hother
      rw [if_neg hh]
      exact hother.symm
  · rw [seen_calls] at hcalls
    simp only at hcalls
    funext id'
    rw [hcalls]
    by_cases hid : id' = id
    · subst hid
      simp
    · rw [Function.update_of_ne hid, Function.update_of_ne hid]
      rfl

/-- The pointers stay where they point to. -/
theorem pointed_put (hlaw : tab.Lawful .empty Valid Refers) (hp : Pointed pathOf Valid Refers s)
    (hatt : Attached sdk tab pathOf Valid Refers s id c caches ref)
    (hstep : callStep sdk (s.seen tab pathOf (pathOf c.op.handle) caches ref) id
      { env with room := false } c.op c.pc = some t) :
    Pointed pathOf Valid Refers (s.put tab pathOf id (pathOf c.op.handle) caches ref t) := by
  obtain ⟨⟨pc', hcalls⟩, -, -⟩ := callStep_touches hstep
  have hset : Valid (s.put tab pathOf id (pathOf c.op.handle) caches ref t).caches ∧
      ∀ r p, Refers caches r p →
        Refers (s.put tab pathOf id (pathOf c.op.handle) caches ref t).caches r p := by
    cases hr : ref with
    | none => exact ⟨hatt.valid, fun _ _ h => h⟩
    | some r =>
        obtain ⟨hvalid, -, hkeep⟩ := hlaw.set (v := t.cache) hatt.valid (hatt.refers r hr)
        exact ⟨hvalid, hkeep⟩
  have hcall : (s.put tab pathOf id (pathOf c.op.handle) caches ref t).calls =
      Function.update s.calls id (some ⟨c.op, pc', ref⟩) := by
    simp only [ClientState.put, hcalls, Function.update_self, Option.map_some]
  refine ⟨hset.1, fun id' c' r hc' hr => ?_, fun id' c' hc' huses => ?_⟩
  · rw [hcall] at hc'
    apply hset.2
    by_cases hid : id' = id
    · rw [hid, Function.update_self] at hc'
      cases hc'
      exact hatt.refers r hr
    · rw [Function.update_of_ne hid] at hc'
      exact hatt.keeps r _ (hp.refers id' c' r hc' hr)
  · rw [hcall] at hc'
    by_cases hid : id' = id
    · rw [hid, Function.update_self] at hc'
      cases hc'
      rw [Option.isSome_iff_ne_none]
      intro hnone
      obtain ⟨-, huses', hfull⟩ := hatt.detached hnone
      have hnone' : ref = none := hnone
      rw [hnone'] at hstep
      obtain ⟨-, -, pc'', hcalls'', hleft⟩ :=
        callStep_detached (fun h => hfull h env) huses' hstep
      rw [hnone'] at hcalls
      have heq := congrFun (hcalls.symm.trans hcalls'') id
      rw [Function.update_self, Function.update_self] at heq
      cases heq
      cases huses.symm.trans hleft
    · rw [Function.update_of_ne hid] at hc'
      exact hp.attached id' c' hc' huses

end Put

theorem pointed_init (hlaw : tab.Lawful .empty Valid Refers)
    (h : (clients sdk tab pathOf).init s) : Pointed pathOf Valid Refers s := by
  obtain rfl := h
  refine ⟨hlaw.empty.1, fun id c r hc => ?_, fun id c hc => ?_⟩ <;> cases hc

theorem view_init (hlaw : tab.Lawful .empty Valid Refers) (h : (clients sdk tab pathOf).init s)
    (p : Path) : s.view tab pathOf p = fresh := by
  obtain rfl := h
  simp [ClientState.view, fresh, hlaw.empty.2]

theorem pointed_start (hp : Pointed pathOf Valid Refers s) (id : CallId) (op : Op) :
    Pointed pathOf Valid Refers
      { s with calls := Function.update s.calls id (some ⟨op, .enter, none⟩) } := by
  refine ⟨hp.valid, fun id' c r hc hr => ?_, fun id' c hc huses => ?_⟩
  · by_cases hid : id' = id
    · simp only [hid, Function.update_self, Option.some.injEq] at hc
      subst hc
      cases hr
    · simp only [Function.update_of_ne hid] at hc
      exact hp.refers id' c r hc hr
  · by_cases hid : id' = id
    · simp only [hid, Function.update_self, Option.some.injEq] at hc
      subst hc
      cases huses
    · simp only [Function.update_of_ne hid] at hc
      exact hp.attached id' c hc huses

theorem view_start {id : CallId} (hfree : s.calls id = none) (op : Op) (p : Path) :
    (∀ l', s.labelOf tab pathOf p (.start id op) = some l' →
      (client sdk).step (s.view tab pathOf p) l' = some (ClientState.view tab pathOf
        { s with calls := Function.update s.calls id (some ⟨op, .enter, none⟩) } p)) ∧
    (s.labelOf tab pathOf p (.start id op) = none → ClientState.view tab pathOf
      { s with calls := Function.update s.calls id (some ⟨op, .enter, none⟩) } p =
        s.view tab pathOf p) := by
  have hcalls : ∀ id', (Function.update s.calls id (some ⟨op, .enter, none⟩) id').bind (fun c =>
        if pathOf c.op.handle = p then some (c.op, c.pc) else none) =
      if pathOf op.handle = p then Function.update (s.view tab pathOf p).calls id
        (some (op, .enter)) id' else (s.view tab pathOf p).calls id' := by
    intro id'
    by_cases hid : id' = id
    · subst hid
      rw [Function.update_self, Function.update_self]
      simp [ClientState.view, hfree]
    · rw [Function.update_of_ne hid, Function.update_of_ne hid, ite_self]
      rfl
  have hnone : (s.view tab pathOf p).calls id = none := by simp [ClientState.view, hfree]
  constructor
  · intro l' hl'
    simp only [ClientState.labelOf] at hl'
    split at hl'
    · next hpath =>
        cases hl'
        simp only [client, step, hnone, if_true, Option.some.injEq, State.goto]
        simp only [ClientState.view, State.mk.injEq, true_and]
        funext id'
        rw [hcalls, if_pos hpath]
        rfl
    · cases hl'
  · intro hl'
    simp only [ClientState.labelOf] at hl'
    split at hl'
    · cases hl'
    · next hpath =>
        simp only [ClientState.view, State.mk.injEq, true_and]
        funext id'
        rw [hcalls, if_neg hpath]
        rfl

/-- A step of the client is a step of each path that it is about, and no step of the others. -/
theorem view_step (hlaw : tab.Lawful .empty Valid Refers)
    (hroom : ∀ t p, tab.findOrAlloc t p = none → sdk = .c) (hp : Pointed pathOf Valid Refers s)
    {l : Label} (hs : (clients sdk tab pathOf).step s l = some s') :
    Pointed pathOf Valid Refers s' ∧ ∀ p,
      (∀ l', s.labelOf tab pathOf p l = some l' →
        (client sdk).step (s.view tab pathOf p) l' = some (s'.view tab pathOf p)) ∧
      (s.labelOf tab pathOf p l = none → s'.view tab pathOf p = s.view tab pathOf p) := by
  cases l with
  | start id op =>
      simp only [clients, ClientState.step] at hs
      split at hs
      · next hfree =>
          cases hs
          exact ⟨pointed_start hp id op, fun p => view_start hfree op p⟩
      · cases hs
  | run id env =>
      obtain ⟨c, hc, hs⟩ := Option.bind_eq_some_iff.mp hs
      obtain ⟨t, hstep, rfl⟩ := Option.map_eq_some_iff.mp hs
      have hatt := attached hlaw hroom hp hc
      refine ⟨pointed_put hlaw hp hatt hstep, fun p => ⟨fun l' hl' => ?_, fun hl' => ?_⟩⟩
      · simp only [ClientState.labelOf, hc, Option.bind_some] at hl'
        split at hl'
        · next hpath =>
            cases hl'
            subst hpath
            rw [view_put_self hlaw hatt hstep]
            have hcall : (s.view tab pathOf (pathOf c.op.handle)).calls id = some (c.op, c.pc) := by
              simp [ClientState.view, hc]
            simp only [client, step, hcall, Option.bind_some]
            rw [hatt.same env, hstep]
        · cases hl'
      · simp only [ClientState.labelOf, hc, Option.bind_some] at hl'
        split at hl'
        · cases hl'
        · next hpath =>
            exact view_put_other hlaw hatt hc (callStep_touches hstep) fun heq => hpath heq.symm

/-- The steps that are about a path are such as the guard allows. -/
def OnPath (tab : RefTable T R Path TagCache) (pathOf : DbHandle → Path) (p : Path)
    (ok : State → Label → Prop) (s : ClientState T R) (l : Label) : Prop :=
  ∀ l', s.labelOf tab pathOf p l = some l' → ok (s.view tab pathOf p) l'

/-- What is seen of a path in a run is a run of a client that has the path alone. -/
theorem view_reaches (hlaw : tab.Lawful .empty Valid Refers)
    (hroom : ∀ t p, tab.findOrAlloc t p = none → sdk = .c) {p : Path}
    {ok : State → Label → Prop} (h : (clients sdk tab pathOf).Reaches (OnPath tab pathOf p ok) s) :
    Pointed pathOf Valid Refers s ∧ (client sdk).Reaches ok (s.view tab pathOf p) := by
  induction h with
  | init h =>
      refine ⟨pointed_init hlaw h, ?_⟩
      rw [view_init hlaw h]
      exact .init rfl
  | @step s s' l _ hok hs ih =>
      obtain ⟨hp, hview⟩ := ih
      obtain ⟨hp', hstep⟩ := view_step hlaw hroom hp hs
      refine ⟨hp', ?_⟩
      cases hl : s.labelOf tab pathOf p l with
      | some l' => exact .step hview (hok l' hl) ((hstep p).1 l' hl)
      | none =>
          rw [(hstep p).2 hl]
          exact hview

end Views

section Paths

theorem tagCaches_lawful : tagCaches.Lawful .empty
    (Cells.Sound fun path => decide (path.length ≤ 254)) Cells.Holds :=
  Cells.refs_lawful rfl

theorem tagCacheMap_total (t : Path → Option TagCache) (p : Path) :
    tagCacheMap.findOrAlloc t p ≠ none := by
  simp only [tagCacheMap, mapRefs]
  split <;> exact Option.some_ne_none _

/-- In every run of a client, in any SDK, each PLC path has the cache, the engine and the calls
that it would have in a run of a client without other paths, within the same guard. The paths
share nothing but C's eight caches: a path gets none if its text is too long, or if it has none
and eight others have one. -/
theorem paths_independent (pathOf : DbHandle → Path) (p : Path) (ok : State → Label → Prop) :
    (∀ s, (clients .c tagCaches pathOf).Reaches (OnPath tagCaches pathOf p ok) s →
      (client .c).Reaches ok (s.view tagCaches pathOf p)) ∧
    (∀ sdk s, (clients sdk tagCacheMap pathOf).Reaches (OnPath tagCacheMap pathOf p ok) s →
      (client sdk).Reaches ok (s.view tagCacheMap pathOf p)) ∧
    ∀ s, (clients .c tagCaches pathOf).Reachable s →
      (tagCaches.findOrAlloc s.caches p = none ↔ 254 < p.length ∨
        (s.view tagCaches pathOf p).inUse = false ∧ ∃ others : Finset Path, others.card = 8 ∧
          ∀ q ∈ others, (s.view tagCaches pathOf q).inUse = true) := by
  refine ⟨fun s h => ?_, fun sdk s h => ?_, fun s h => ?_⟩
  · exact (view_reaches tagCaches_lawful (fun _ _ _ => rfl) h).2
  · exact (view_reaches mapRefs_lawful (fun t p hnone => absurd hnone (tagCacheMap_total t p)) h).2
  · have hreaches : (clients .c tagCaches pathOf).Reaches
        (OnPath tagCaches pathOf p fun _ _ => True) s := h.mono fun _ _ _ _ _ => trivial
    have hvalid := (view_reaches tagCaches_lawful (fun _ _ _ => rfl) hreaches).1.valid
    rw [tagCaches, Cells.refs_full_iff hvalid]
    simp only [decide_eq_false_iff_not, Nat.not_le, ClientState.view, Option.isSome_eq_false_iff,
      Option.isNone_iff_eq_none]
    rfl

/-- A handle to the path whose name is its number. -/
def numbered (h : DbHandle) : Path := [UInt8.ofNat h]

def tableOne : EngineTable := ⟨[{ name := [0x61] }], by decide⟩

/-- Two PLCs: one is built and has its symbol looked up while the other is built. -/
theorem paths_independent_two :
    ∃ s : ClientState (Fin tagCacheMax → Cell Path TagCache) (Fin tagCacheMax),
      (client .c).Reachable (s.view tagCaches numbered [1]) ∧
      (s.view tagCaches numbered [1]).cache.knownCount = 1 ∧
      (s.view tagCaches numbered [2]).cache.totalCount = 1 ∧
      (s.view tagCaches numbered [2]).cache.knownCount = 0 := by
  obtain ⟨s, hs, hcaches⟩ :=
    (clients .c tagCaches numbered).exists_reaches_of_run (fun _ _ => True) rfl
      [.start 0 (.build 1), .run 0 { table := some tableOne }, .run 0 {},
        .start 1 (.lookup 1 [0x61]), .start 2 (.build 2), .run 1 {},
        .run 2 { table := some tableOne }, .run 1 {}, .run 2 {}, .run 1 {}]
      (fun s => decide ((s.view tagCaches numbered [1]).cache.knownCount = 1 ∧
        (s.view tagCaches numbered [2]).cache.totalCount = 1 ∧
        (s.view tagCaches numbered [2]).cache.knownCount = 0)) (by decide +kernel)
  obtain ⟨hfirst, hsecond⟩ := of_decide_eq_true hcaches
  refine ⟨s, ?_, hfirst, hsecond⟩
  apply (paths_independent numbered [1] fun _ _ => True).1
  exact hs.mono fun _ _ _ _ _ => trivial

end Paths

end BpClient.Symbols
