import BpClient.Lib.Transition
import BpClient.Slot.Dispatcher

/-!
The symbol cache of one PLC path (`c/src/tagcache.c`, `go/ocxbp/tagcache.go`,
`python/src/bpclient/client.py`): any number of threads in `build`,
`lookup_symbol` and `preload_symbols`, through any handles to the path.

The engine keeps a table for each handle, the SDK one cache for all of them.
What is done under the cache mutex is one step; `symbol_at` runs without it.
-/

namespace BpClient.Symbols

open BpClient.Lib
open BpClient.Slot (Sdk CallId)

abbrev DbHandle := Nat

structure SymbolInfo where
  name : List UInt8 := []
  dataType : UInt16 := 0
  structType : UInt16 := 0
  elemByteSize : UInt32 := 0
  dim0 : UInt32 := 0
  dim1 : UInt32 := 0
  dim2 : UInt32 := 0
  flags : UInt16 := 0
  deriving DecidableEq, Repr

/-- The table of a build; the engine reports the number of its symbols in 16
bits. -/
structure EngineTable where
  symbols : List SymbolInfo
  length_lt : symbols.length < 2 ^ 16
  deriving DecidableEq

/-- A build: its number, and the table that the engine has captured. -/
structure Build where
  no : Nat
  table : EngineTable
  deriving DecidableEq

def Build.zero : Build := ⟨0, ⟨[], by decide⟩⟩

/-- `struct bp_tag_cache`, `tagCache`, `_TagCache`; the capacity is the length
of `symbols`. -/
structure TagCache where
  symbols : List SymbolInfo
  knownCount : Nat
  totalCount : Nat
  known_le : knownCount ≤ symbols.length
  capacity : symbols.length = totalCount ∨ symbols = []
  deriving DecidableEq

namespace TagCache

def empty : TagCache := ⟨[], 0, 0, le_rfl, .inr rfl⟩

/-- The part of `reset_after_build` under the mutex; `memory` is the outcome of
`calloc`. -/
def reset (totalCount : Nat) (memory : Bool) : TagCache where
  symbols := if memory then List.replicate totalCount {} else []
  knownCount := 0
  totalCount := totalCount
  known_le := Nat.zero_le _
  capacity := by
    cases memory
    · exact .inr rfl
    · exact .inl List.length_replicate

variable (c : TagCache)

def known : List SymbolInfo := c.symbols.take c.knownCount

/-- The guarded append after `symbol_at`. -/
def append (idx : Nat) (sym : SymbolInfo) : TagCache :=
  if h : idx = c.knownCount ∧ c.knownCount < c.symbols.length then
    { c with
      symbols := c.symbols.set c.knownCount sym
      knownCount := c.knownCount + 1
      known_le := by
        rw [List.length_set]
        exact h.2
      capacity := by
        rw [List.length_set]
        refine c.capacity.imp_right fun hnil => ?_
        rw [hnil, List.set_nil] }
  else c

/-- The linear scan for a name, from an index on. -/
def scan (name : List UInt8) (i : Nat) : Option SymbolInfo :=
  (c.known.drop i).find? fun sym => sym.name = name

/-- The test for a lookup before the first build. -/
def unbuilt : Sdk → Bool
  | .c => c.symbols.length = 0
  | .go | .python => c.totalCount = 0 ∧ c.symbols.length = 0

end TagCache

inductive Op
  | build (h : DbHandle)
  | lookup (h : DbHandle) (name : List UInt8)
  | preload (h : DbHandle)
  deriving DecidableEq, Repr

inductive Result
  | built
  | found (sym : SymbolInfo)
  | loaded
  /-- `BP_ERR_PARAM_RANGE`, before a build has sized the cache. -/
  | refused
  /-- `BP_ERR_PARAM_RANGE`, at the end of the table. -/
  | notFound
  /-- `BP_ERR_CLIENT_OPEN`: C has no room for another cache. -/
  | noCache
  /-- The error of a call to the engine. -/
  | failed
  deriving DecidableEq, Repr

/-- Where a call is. A call that fills the cache keeps the build that had sized
it when the call read its index. -/
inductive Pc
  | enter
  /-- The engine has built; the cache has not been reset. -/
  | reset (b : Build)
  /-- About to call `symbol_at`. -/
  | fetch (idx : Nat) (seen : Build)
  /-- `symbol_at` has answered from the table of build `src`. -/
  | fetched (idx : Nat) (sym : SymbolInfo) (src seen : Build)
  /-- Returned; the cache was sized by build `last`. -/
  | done (r : Result) (last : Build)
  deriving DecidableEq

structure State where
  /-- The path has a cache. -/
  inUse : Bool
  cache : TagCache
  /-- The build that last sized the cache. -/
  sized : Build
  /-- The last build of each handle. -/
  engine : DbHandle → Option Build
  builds : Nat
  calls : CallId → Option (Op × Pc)

structure Env where
  /-- The table that the engine captures, if the build succeeds. -/
  table : Option EngineTable := none
  /-- `symbol_at` succeeds, for an index in the table of its handle. -/
  answers : Bool := true
  /-- C has room for another cache. -/
  room : Bool := true
  memory : Bool := true
  deriving DecidableEq

inductive Label
  | start (id : CallId) (op : Op)
  | run (id : CallId) (env : Env)
  deriving DecidableEq

section Step

variable (sdk : Sdk) (s : State)

def State.goto (id : CallId) (op : Op) (pc : Pc) : State :=
  { s with calls := Function.update s.calls id (some (op, pc)) }

def State.finish (id : CallId) (op : Op) (r : Result) : State := s.goto id op (.done r s.sized)

def State.findOrAlloc (env : Env) : Option State :=
  if s.inUse then some s
  else if sdk = .c ∧ !env.room then none
  else some { s with inUse := true, cache := .empty }

/-- The loop condition of `lookup_symbol` and `preload_symbols`. -/
def State.next (id : CallId) (op : Op) (r : Result) : State :=
  if s.cache.knownCount < s.cache.totalCount then
    s.goto id op (.fetch s.cache.knownCount s.sized)
  else s.finish id op r

/-- The scan from an index on, and then the loop condition. -/
def State.search (id : CallId) (op : Op) (name : List UInt8) (i : Nat) : State :=
  match s.cache.scan name i with
  | some sym => s.finish id op (.found sym)
  | none => s.next id op .notFound

/-- `lookup_symbol` up to its first `symbol_at`. -/
def lookupSymbol (id : CallId) (env : Env) (h : DbHandle) (name : List UInt8) : State :=
  match s.findOrAlloc sdk env with
  | none => s.finish id (.lookup h name) .noCache
  | some s =>
      if s.cache.unbuilt sdk then s.finish id (.lookup h name) .refused
      else s.search id (.lookup h name) name 0

/-- `preload_symbols` up to its first `symbol_at`. -/
def preloadSymbols (id : CallId) (env : Env) (h : DbHandle) : State :=
  match s.findOrAlloc sdk env with
  | none => s.finish id (.preload h) .noCache
  | some s =>
      if s.cache.unbuilt sdk then s.finish id (.preload h) .refused
      else s.next id (.preload h) .loaded

def buildStep (id : CallId) (env : Env) (h : DbHandle) : State :=
  match env.table with
  | none => s.finish id (.build h) .failed
  | some table =>
      let b : Build := ⟨s.builds + 1, table⟩
      ({ s with engine := Function.update s.engine h (some b), builds := s.builds + 1 } :
        State).goto id (.build h) (.reset b)

/-- `reset_after_build`, whose outcome `build` ignores. -/
def resetAfterBuild (id : CallId) (env : Env) (h : DbHandle) (b : Build) : State :=
  match s.findOrAlloc sdk env with
  | none => s.finish id (.build h) .built
  | some s =>
      let memory := env.memory || sdk ≠ .c
      ({ s with cache := .reset b.table.symbols.length memory, sized := b } :
        State).finish id (.build h) .built

def symbolAt (id : CallId) (env : Env) (op : Op) (h : DbHandle) (idx : Nat) (seen : Build) :
    State :=
  match s.engine h with
  | none => s.finish id op .failed
  | some b =>
      match b.table.symbols[idx]? with
      | none => s.finish id op .failed
      | some sym =>
          if env.answers then s.goto id op (.fetched idx sym b seen) else s.finish id op .failed

def callStep (id : CallId) (env : Env) : Op → Pc → Option State
  | .build h, .enter => some (buildStep s id env h)
  | .build h, .reset b => some (resetAfterBuild sdk s id env h b)
  | .lookup h name, .enter => some (lookupSymbol sdk s id env h name)
  | .preload h, .enter => some (preloadSymbols sdk s id env h)
  | .lookup h name, .fetch idx seen => some (symbolAt s id env (.lookup h name) h idx seen)
  | .preload h, .fetch idx seen => some (symbolAt s id env (.preload h) h idx seen)
  | .lookup h name, .fetched idx sym _ _ =>
      some (({ s with cache := s.cache.append idx sym } : State).search id (.lookup h name) name idx)
  | .preload h, .fetched idx sym _ _ =>
      some (({ s with cache := s.cache.append idx sym } : State).next id (.preload h) .loaded)
  | _, _ => none

def step (s : State) : Label → Option State
  | .start id op => if s.calls id = none then some (s.goto id op .enter) else none
  | .run id env => (s.calls id).bind fun c => callStep sdk s id env c.1 c.2

end Step

def fresh : State := ⟨false, .empty, .zero, fun _ => none, 0, fun _ => none⟩

def client (sdk : Sdk) : System State Label := ⟨fun s => s = fresh, step sdk⟩

end BpClient.Symbols
