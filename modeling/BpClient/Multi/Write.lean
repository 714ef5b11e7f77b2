import BpClient.Lib.Assign
import BpClient.Lib.Batches
import BpClient.Multi.Tags
import BpClient.Multi.Value

/-!
`write_tags`: every pair of a name and a value is checked and encoded before
anything is sent. `WriteTags` and `write_tags` then cut the requests into batches
of 16; `bp_tagdb_write_tags` makes one access of them, which takes at most 16.
-/

namespace BpClient.Multi

open BpClient.Lib
open BpClient.Slot (Sdk)
open BpClient.Tag

section Model

variable {σ V : Type} (e : Engine σ) (slots : Slots) (t : TagTable)

/-- The checks on a pair, and the request for it. -/
def prepare (sdk : Sdk) (encode : ScalarTag t sdk → V → Except TagError (Option (List UInt8)))
    (p : Name × V) : Except TagError TagRequest := do
  let tag ← t.resolve sdk p.1
  match ← encode tag p.2 with
  | none => .error .paramRange
  | some bytes => .ok (tag.request actionWrite bytes)

/-- The validation loop of `bp_tagdb_write_tags`. -/
def cPrepare : Name × BpValue → Except TagError TagRequest :=
  prepare t .c fun tag v => .ok (cEncode tag.kind tag.sym.elemByteSize v)

def goPrepare : Name × GoValue → Except TagError TagRequest :=
  prepare t .go fun tag v => .ok (goEncodeForKind tag.kind v)

def pyPrepare : Name × PyValue → Except TagError TagRequest :=
  prepare t .python fun tag v => pyEncodeForKind tag.kind v

/-- The return code of `bp_tagdb_write_tags`, and each `cip_status` once the
engine has answered. -/
structure CWrite where
  rc : Option TagError
  statuses : Option (List UInt32)
  deriving DecidableEq, Repr

def bpTagdbWriteTags (path : List UInt8) (pairs : List (Name × BpValue)) (w : World σ) :
    CWrite × World σ :=
  if pairs.length = 0 then (⟨none, some []⟩, w)
  else
    match pairs.mapM (cPrepare t) with
    | .error err => (⟨some err, none⟩, w)
    | .ok reqs =>
        match e.access slots (.c path) reqs w with
        | (.error err, w) => (⟨some err, none⟩, w)
        | (.ok results, w) =>
            let statuses := results.map Prod.snd
            let anyFailed := statuses.any (· ≠ 0)
            (⟨if anyFailed then some .generic else none, some statuses⟩, w)

def reported (results : List (TagRequest × UInt32)) : List (Name × UInt32) :=
  results.map fun p => (p.1.tagName, p.2)

/-- The loop of `WriteTags` and `write_tags` over the batches. -/
def writeLoop (db : TagDb) : List (List TagRequest) → List (Name × UInt32) → World σ →
    List (Name × UInt32) × Option TagError × World σ
  | [], done, w => (done, none, w)
  | reqs :: rest, done, w =>
      match e.access slots db reqs w with
      | (.error err, w) => (done, some err, w)
      | (.ok results, w) => writeLoop db rest (done ++ reported results) w

def failedNames (done : List (Name × UInt32)) : List Name :=
  (done.filter (·.2 ≠ 0)).map Prod.fst

def statusDict (done : List (Name × UInt32)) : Name → Option UInt32 :=
  assign (fun _ => none) done

inductive GoWriteError
  | wraps (err : TagError)
  | failed (names : List Name)
  deriving DecidableEq, Repr

/-- `WriteTags`, with the pairs of the map in the order of its iteration. -/
def goWriteTags (path : List UInt8) (pairs : List (Name × GoValue)) (w : World σ) :
    Option GoWriteError × World σ :=
  match pairs.mapM (goPrepare t) with
  | .error err => (some (.wraps err), w)
  | .ok reqs =>
      match writeLoop e slots (.go path) (batches 16 reqs) [] w with
      | (_, some err, w) => (some (.wraps err), w)
      | (done, none, w) =>
          (if failedNames done = [] then none else some (.failed (failedNames done)), w)

inductive PyWriteError
  | raised (err : TagError)
  | failed (names : List Name) (statuses : Name → Option UInt32)

/-- `write_tags`, with the pairs of the dictionary in its order. -/
def pyWriteTags (path : TagPath) (pairs : List (Name × PyValue)) (w : World σ) :
    Option PyWriteError × World σ :=
  match pairs.mapM (pyPrepare t) with
  | .error err => (some (.raised err), w)
  | .ok reqs =>
      match writeLoop e slots (.python path) (batches 16 reqs) [] w with
      | (_, some err, w) => (some (.raised err), w)
      | (done, none, w) =>
          (if failedNames done = [] then none
            else some (.failed (failedNames done) (statusDict done)), w)

end Model

/-- A known scalar with a value of its kind. -/
def Writable {V : Type} (t : TagTable) (sdk : Sdk) (fit : Kind → V → Fit) (p : Name × V) : Prop :=
  ∃ tag s, t.resolve sdk p.1 = .ok tag ∧ fit tag.kind p.2 = .scalar s

/-- The request that writes the value of a pair to its tag. -/
def Carries {V : Type} (t : TagTable) (sdk : Sdk) (fit : Kind → V → Fit) (p : Name × V)
    (r : WireRequest) : Prop :=
  ∃ tag s, t.resolve sdk p.1 = .ok tag ∧ fit tag.kind p.2 = .scalar s ∧
    r = ⟨p.1, tag.sym.dataType.toNat, s.kind.size, 2, 1, some s.bytes⟩

def replies (b : List WireRequest × Option (List Answer)) : List (WireRequest × Answer) :=
  b.1.zip (b.2.getD [])

/-- Batches that together carry every pair once, and the statuses that were
returned for the pairs. -/
structure Delivered {V : Type} (t : TagTable) (sdk : Sdk) (fit : Kind → V → Fit)
    (pairs : List (Name × V)) (served : List (List WireRequest × Option (List Answer)))
    (statuses : List UInt32) : Prop where
  length_le : ∀ b ∈ served, b.1.length ≤ 16
  carries : List.Forall₂ (Carries t sdk fit) pairs (served.flatMap (·.1))
  answered : (served.flatMap replies).map (·.1) = served.flatMap (·.1)
  statuses : (served.flatMap replies).map (·.2.result) = statuses

/-- What an SDK does with a value agrees with how it fits. -/
structure Encodes {V : Type} (t : TagTable) (sdk : Sdk)
    (encode : ScalarTag t sdk → V → Except TagError (Option (List UInt8))) (fit : Kind → V → Fit) :
    Prop where
  scalar : ∀ tag v s, fit tag.kind v = .scalar s → encode tag v = .ok (some s.bytes)
  kind : ∀ kind v s, fit kind v = .scalar s → s.kind = kind

section Prepare

variable {V : Type} {t : TagTable} {sdk : Sdk} {fit : Kind → V → Fit} {p : Name × V}
  {encode : ScalarTag t sdk → V → Except TagError (Option (List UInt8))}

/-- A pair whose name is known: its value is encoded. -/
theorem prepare_of_resolve (encode : ScalarTag t sdk → V → Except TagError (Option (List UInt8)))
    {tag : ScalarTag t sdk} (h : t.resolve sdk p.1 = .ok tag) :
    prepare t sdk encode p = (encode tag p.2).bind fun b =>
      b.elim (.error .paramRange) fun bytes => .ok (tag.request actionWrite bytes) := by
  rw [prepare, h]
  change (encode tag p.2).bind _ = (encode tag p.2).bind _
  congr 1
  funext b
  cases b <;> rfl

/-- A pair whose name is not. -/
theorem prepare_of_error (encode : ScalarTag t sdk → V → Except TagError (Option (List UInt8)))
    {err : TagError} (h : t.resolve sdk p.1 = .error err) :
    prepare t sdk encode p = .error (lookupError sdk p.1) := by
  rw [prepare, h, TagTable.resolve_error h]
  rfl

/-- The request for a pair that can be written. -/
theorem Encodes.prepare (h : Encodes t sdk encode fit) (hp : Writable t sdk fit p) :
    ∃ r, prepare t sdk encode p = .ok r ∧ IsScalar t sdk r ∧ Carries t sdk fit p r.wire := by
  obtain ⟨tag, s, htag, hfit⟩ := hp
  have hkind := h.kind _ _ _ hfit
  have hname := TagTable.resolve_name htag
  refine ⟨tag.request actionWrite s.bytes, ?_, ?_, ?_⟩
  · rw [prepare_of_resolve encode htag, h.scalar tag p.2 s hfit]
    rfl
  · exact ⟨tag, actionWrite, s.bytes, rfl, .inr rfl, by rw [s.bytes_length, hkind]⟩
  · refine ⟨tag, s, htag, hfit, ?_⟩
    have hsize : (tag.request actionWrite s.bytes).elemByteSize.toNat = s.kind.size := by
      rw [hkind]
      exact tag.size_toNat
    rw [TagRequest.wire, hsize, ← hname]
    rfl

/-- All pairs that can be written get their requests. -/
theorem Encodes.prepareAll (h : Encodes t sdk encode fit) {pairs : List (Name × V)}
    (hp : ∀ p ∈ pairs, Writable t sdk fit p) :
    ∃ reqs, pairs.mapM (Multi.prepare t sdk encode) = .ok reqs ∧
      (∀ r ∈ reqs, IsScalar t sdk r) ∧
      List.Forall₂ (fun p r => Carries t sdk fit p r.wire) pairs reqs := by
  induction pairs with
  | nil => exact ⟨[], rfl, fun r hr => absurd hr List.not_mem_nil, .nil⟩
  | cons p pairs ih =>
      rw [List.forall_mem_cons] at hp
      obtain ⟨r, hr, hscalar, hcarries⟩ := h.prepare hp.1
      obtain ⟨reqs, hreqs, hscalars, hall⟩ := ih hp.2
      refine ⟨r :: reqs, ?_, List.forall_mem_cons.mpr ⟨hscalar, hscalars⟩, .cons hcarries hall⟩
      exact mapM_eq_ok_iff.mpr (.cons hr (mapM_eq_ok_iff.mp hreqs))

theorem cEncodes : Encodes t .c (fun tag v => .ok (cEncode tag.kind tag.sym.elemByteSize v))
    BpValue.fit where
  scalar := by
    intro tag v s hfit
    rw [cEncode_eq tag.size_eq, hfit]
    rfl
  kind := fun _ _ _ => BpValue.fit_kind

theorem goEncodes : Encodes t .go (fun tag v => .ok (goEncodeForKind tag.kind v)) GoValue.fit where
  scalar := by
    intro tag v s hfit
    rcases goEncodeForKind_eq tag.kind v with ⟨-, h⟩ | ⟨h, -⟩
    · rw [h, hfit]
      rfl
    · rw [hfit] at h
      cases h
  kind := fun _ _ _ => GoValue.fit_kind

theorem pyEncodes : Encodes t .python (fun tag v => pyEncodeForKind tag.kind v) PyValue.fit where
  scalar := by
    intro tag v s hfit
    have hne : PyValue.fit tag.kind v ≠ .overflow := by
      rw [hfit]
      exact Fit.noConfusion
    rw [pyEncodeForKind_eq, if_neg hne, hfit]
    rfl
  kind := fun _ _ _ => PyValue.fit_kind

end Prepare

/-- What the engine has been given for some batches of requests, and what has
been noted of its answers. -/
structure Served (bs : List (List TagRequest))
    (served : List (List WireRequest × Option (List Answer))) (done : List (Name × UInt32)) :
    Prop where
  requests : served.map (·.1) = bs.map (List.map TagRequest.wire)
  answered : (served.flatMap replies).map (·.1) = served.flatMap (·.1)
  done : done = (served.flatMap replies).map fun p => (p.1.tagName, p.2.result)

section Run

variable {σ : Type} {e : Engine σ} (slots : Slots) {t : TagTable} (db : TagDb)

/-- One access: its requests go to the engine as a batch, and each result is the
answer to its request. -/
theorem access_served (he : e.Accepts) {reqs : List TagRequest} (hpos : 1 ≤ reqs.length)
    (hlen : reqs.length ≤ 16) (hreqs : ∀ r ∈ reqs, IsScalar t db.sdk r) (w : World σ) :
    ∃ results served w', e.access slots db reqs w = (.ok results, w') ∧
      w'.log = w.log ++ [served] ∧ results.map Prod.snd = (replies served).map (·.2.result) ∧
      Served [reqs] [served] (reported results) := by
  obtain ⟨answers, hanswers⟩ := Option.isSome_iff_exists.mp
    (he w.engine (reqs.map TagRequest.wire))
  have hcount := (e.sized _ _ _ hanswers).length_eq
  have hzip : replies (reqs.map TagRequest.wire, some answers) =
      (reqs.zip answers).map fun p => (p.1.wire, p.2) := by
    rw [replies, Option.getD_some, List.zip_map_left]
    rfl
  rw [Engine.access_eq_exchange e slots (sends_of_isScalar hpos hlen hreqs)]
  refine ⟨List.zipWith TagRequest.answered reqs answers, (reqs.map TagRequest.wire, some answers),
    ⟨(e.serve w.engine (reqs.map TagRequest.wire)).2, w.log ++ [(reqs.map TagRequest.wire,
      some answers)]⟩, ?_, rfl, ?_, rfl, ?_, ?_⟩
  · simp only [Engine.exchange, hanswers]
  · rw [hzip, List.map_map, ← List.map_uncurry_zip_eq_zipWith, List.map_map]
    rfl
  · simp only [List.flatMap_singleton]
    rw [replies, Option.getD_some, List.map_fst_zip hcount.le]
  · rw [List.flatMap_singleton, hzip, reported, List.map_map, ← List.map_uncurry_zip_eq_zipWith,
      List.map_map]
    rfl

/-- What is served in two parts. -/
theorem Served.append {bs bs' : List (List TagRequest)}
    {served served' : List (List WireRequest × Option (List Answer))}
    {done done' : List (Name × UInt32)} (h : Served bs served done)
    (h' : Served bs' served' done') : Served (bs ++ bs') (served ++ served') (done ++ done') where
  requests := by rw [List.map_append, List.map_append, h.requests, h'.requests]
  answered := by
    rw [List.flatMap_append, List.flatMap_append, List.map_append, h.answered, h'.answered]
  done := by rw [List.flatMap_append, List.map_append, h.done, h'.done]

/-- Batches of 16 of requests for scalars can be sent. -/
theorem batches_isScalar {sdk : Sdk} {reqs : List TagRequest}
    (hreqs : ∀ r ∈ reqs, IsScalar t sdk r) : ∀ batch ∈ batches 16 reqs,
      batch ≠ [] ∧ batch.length ≤ 16 ∧ ∀ r ∈ batch, IsScalar t sdk r := by
  intro batch hbatch
  refine ⟨ne_nil_of_mem_batches (by decide) hbatch, length_le_of_mem_batches hbatch, ?_⟩
  intro r hr
  apply hreqs
  rw [← batches_flatten (n := 16) (l := reqs) (by decide)]
  exact List.mem_flatten_of_mem hbatch hr

/-- The loop over the batches gives each of them to the engine. -/
theorem writeLoop_served (he : e.Accepts) (bs : List (List TagRequest))
    (hbs : ∀ reqs ∈ bs, reqs ≠ [] ∧ reqs.length ≤ 16 ∧ ∀ r ∈ reqs, IsScalar t db.sdk r)
    (done : List (Name × UInt32)) (w : World σ) :
    ∃ served done' w', writeLoop e slots db bs done w = (done ++ done', none, w') ∧
      w'.log = w.log ++ served ∧ Served bs served done' := by
  induction bs generalizing done w with
  | nil => exact ⟨[], [], w, by rw [List.append_nil]; rfl, (List.append_nil _).symm, rfl, rfl, rfl⟩
  | cons reqs bs ih =>
      rw [List.forall_mem_cons] at hbs
      obtain ⟨⟨hne, hlen, hreqs⟩, hrest⟩ := hbs
      obtain ⟨results, batch, w', haccess, hlog, -, hbatch⟩ := access_served slots db he
        (List.length_pos_iff.mpr hne) hlen hreqs w
      obtain ⟨served, done', w'', hloop, hlog', hserved⟩ := ih hrest (done ++ reported results) w'
      refine ⟨batch :: served, reported results ++ done', w'', ?_, ?_, hbatch.append hserved⟩
      · rw [writeLoop, haccess]
        simp only
        rw [hloop, List.append_assoc]
      · rw [hlog', hlog, List.append_assoc, List.singleton_append]

end Run

section Delivery

variable {V : Type} {t : TagTable} {sdk : Sdk} {fit : Kind → V → Fit} {pairs : List (Name × V)}
  {reqs : List TagRequest} {bs : List (List TagRequest)} {done : List (Name × UInt32)}
  {served : List (List WireRequest × Option (List Answer))} {statuses : List UInt32}

/-- Batches of the requests for some pairs deliver the pairs. -/
theorem Served.delivered (h : Served bs served done) (hbs : ∀ batch ∈ bs, batch.length ≤ 16)
    (hreqs : bs.flatten = reqs)
    (hcarries : List.Forall₂ (fun p r => Carries t sdk fit p r.wire) pairs reqs) :
    ∃ statuses, Delivered t sdk fit pairs served statuses ∧
      done = (pairs.map Prod.fst).zip statuses := by
  have hwire : served.flatMap (·.1) = reqs.map TagRequest.wire := by
    rw [List.flatMap_def, h.requests, ← List.map_flatten, hreqs]
  have hnames : (reqs.map TagRequest.wire).map (·.tagName) = pairs.map Prod.fst := by
    clear hreqs hwire
    induction hcarries with
    | nil => rfl
    | cons hp _ ih =>
        obtain ⟨tag, s, -, -, hr⟩ := hp
        rw [List.map_cons, List.map_cons, List.map_cons, ih, hr]
  refine ⟨(served.flatMap replies).map (·.2.result), ⟨?_, ?_, h.answered, rfl⟩, ?_⟩
  · intro b hb
    have hmem : b.1 ∈ bs.map (List.map TagRequest.wire) := by
      rw [← h.requests]
      exact List.mem_map_of_mem hb
    obtain ⟨batch, hbatch, heq⟩ := List.mem_map.mp hmem
    rw [← heq, List.length_map]
    exact hbs batch hbatch
  · rwa [hwire, List.forall₂_map_right_iff]
  · rw [← hnames, ← hwire, ← h.answered, List.map_map, List.zip_map', h.done]
    rfl

theorem Delivered.length_eq (h : Delivered t sdk fit pairs served statuses) :
    pairs.length = statuses.length := by
  rw [← h.statuses, List.length_map, h.carries.length_eq, ← h.answered, List.length_map]

/-- No name has failed exactly when all statuses are 0. -/
theorem Delivered.failedNames_eq_nil (h : Delivered t sdk fit pairs served statuses) :
    failedNames ((pairs.map Prod.fst).zip statuses) = [] ↔ ∀ status ∈ statuses, status = 0 := by
  have hsnd : ((pairs.map Prod.fst).zip statuses).map Prod.snd = statuses :=
    List.map_snd_zip (by rw [List.length_map, h.length_eq])
  rw [failedNames, List.map_eq_nil_iff, List.filter_eq_nil_iff, ← hsnd, List.forall_mem_map, hsnd]
  simp only [decide_eq_true_eq, not_not]

/-- The status of each pair is in the dictionary under its name. -/
theorem Delivered.statusDict (h : Delivered t sdk fit pairs served statuses)
    (hnodup : (pairs.map Prod.fst).Nodup) :
    List.Forall₂ (fun p status =>
      Multi.statusDict ((pairs.map Prod.fst).zip statuses) p.1 = some status) pairs statuses := by
  have hfst : ((pairs.map Prod.fst).zip statuses).map Prod.fst = pairs.map Prod.fst :=
    List.map_fst_zip (by rw [List.length_map, h.length_eq])
  apply List.forall₂_iff_zip.mpr
  refine ⟨h.length_eq, fun {p status} hp => ?_⟩
  have hmem : (p.1, status) ∈ (pairs.map Prod.fst).zip statuses := by
    rw [List.zip_map_left]
    exact List.mem_map_of_mem hp
  exact assign_of_nodup (hfst.symm ▸ hnodup) hmem

end Delivery

section Contract

variable {σ : Type} (t : TagTable) (w : World σ)

/-- What `bp_tagdb_write_tags` is to do: the pairs are delivered, each gets its
status, and the return code is `BP_OK` exactly when all of them are 0. -/
def CDelivers (pairs : List (Name × BpValue)) (r : CWrite × World σ) : Prop :=
  ∃ served statuses, r.2.log = w.log ++ served ∧
    Delivered t .c BpValue.fit pairs served statuses ∧ r.1.statuses = some statuses ∧
    (r.1.rc = none ↔ ∀ status ∈ statuses, status = 0)

/-- What `WriteTags` is to do: its error has the names with a non-zero status. -/
def GoDelivers (pairs : List (Name × GoValue)) (r : Option GoWriteError × World σ) : Prop :=
  ∃ served statuses, r.2.log = w.log ++ served ∧
    Delivered t .go GoValue.fit pairs served statuses ∧
    (r.1 = none ↔ ∀ status ∈ statuses, status = 0) ∧
    ∀ err, r.1 = some err → err = .failed (failedNames ((pairs.map Prod.fst).zip statuses))

/-- What `write_tags` is to do: it raises the names with a non-zero status, and
the dictionary of all statuses. -/
def PyDelivers (pairs : List (Name × PyValue)) (r : Option PyWriteError × World σ) : Prop :=
  ∃ served statuses, r.2.log = w.log ++ served ∧
    Delivered t .python PyValue.fit pairs served statuses ∧
    (r.1 = none ↔ ∀ status ∈ statuses, status = 0) ∧
    ∀ err, r.1 = some err → ∃ dict,
      err = .failed (failedNames ((pairs.map Prod.fst).zip statuses)) dict ∧
        List.Forall₂ (fun p status => dict p.1 = some status) pairs statuses

end Contract

section Members

variable {σ : Type} {e : Engine σ} {slots : Slots} {t : TagTable}

/-- C delivers up to 16 pairs in one access. -/
theorem bpTagdbWriteTags_delivers (he : e.Accepts) {path : List UInt8}
    {pairs : List (Name × BpValue)} (hp : ∀ p ∈ pairs, Writable t .c BpValue.fit p)
    (hlen : pairs.length ≤ 16) (w : World σ) :
    CDelivers t w pairs (bpTagdbWriteTags e slots t path pairs w) := by
  obtain ⟨reqs, hreqs, hscalars, hcarries⟩ := cEncodes.prepareAll hp
  unfold bpTagdbWriteTags
  by_cases hzero : pairs.length = 0
  · obtain rfl : pairs = [] := List.length_eq_zero_iff.mp hzero
    rw [if_pos hzero]
    refine ⟨[], [], (List.append_nil _).symm, ⟨?_, .nil, rfl, rfl⟩, rfl, ?_⟩
    · exact fun b hb => absurd hb List.not_mem_nil
    · exact ⟨fun _ status hstatus => absurd hstatus List.not_mem_nil, fun _ => rfl⟩
  · have hcount := hcarries.length_eq
    obtain ⟨results, batch, w', haccess, hlog, hresults, hserved⟩ := access_served slots
      (.c path) he (show 1 ≤ reqs.length by omega) (by omega) hscalars w
    obtain ⟨statuses, hdelivered, -⟩ := hserved.delivered
      (by rw [List.forall_mem_singleton]; omega) (List.flatten_singleton) hcarries
    have hstatuses : results.map Prod.snd = statuses := by
      rw [hresults, ← hdelivered.statuses, List.flatMap_singleton]
    rw [if_neg hzero]
    simp only [cPrepare, hreqs, haccess, hstatuses]
    refine ⟨[batch], statuses, hlog, hdelivered, rfl, ?_⟩
    cases hany : statuses.any (· ≠ 0) with
    | true =>
        obtain ⟨status, hmem, hstatus⟩ := List.any_eq_true.mp hany
        simp only [if_true, reduceCtorEq, false_iff, not_forall]
        exact ⟨status, hmem, of_decide_eq_true hstatus⟩
    | false =>
        rw [List.any_eq_false] at hany
        simpa using hany

/-- More than 16 pairs are refused by C. -/
theorem bpTagdbWriteTags_refuses {path : List UInt8} {pairs : List (Name × BpValue)}
    (hp : ∀ p ∈ pairs, Writable t .c BpValue.fit p) (hlen : 16 < pairs.length) (w : World σ) :
    bpTagdbWriteTags e slots t path pairs w = (⟨some .paramRange, none⟩, w) := by
  obtain ⟨reqs, hreqs, -, hcarries⟩ := cEncodes.prepareAll hp
  have hcount := hcarries.length_eq
  have hcall : TagDb.call reqs (.c path) = .error .paramRange := by
    rw [TagDb.call, bpTagdbAccess, Format.call, if_neg (by omega), if_pos (by omega)]
    rfl
  have haccess : e.access slots (.c path) reqs w = (.error .paramRange, w) := by
    unfold Engine.access
    rw [hcall]
    rfl
  unfold bpTagdbWriteTags
  rw [if_neg (by omega)]
  simp only [cPrepare, hreqs, haccess]

/-- The loop over the batches of 16 delivers the pairs. -/
theorem writeLoop_delivers {V : Type} (slots : Slots) (db : TagDb) {fit : Kind → V → Fit}
    (he : e.Accepts) {pairs : List (Name × V)} {reqs : List TagRequest}
    (hscalars : ∀ r ∈ reqs, IsScalar t db.sdk r)
    (hcarries : List.Forall₂ (fun p r => Carries t db.sdk fit p r.wire) pairs reqs) (w : World σ) :
    ∃ served statuses w', writeLoop e slots db (batches 16 reqs) [] w =
        ((pairs.map Prod.fst).zip statuses, none, w') ∧
      w'.log = w.log ++ served ∧ Delivered t db.sdk fit pairs served statuses := by
  have hbs := batches_isScalar hscalars
  obtain ⟨served, done, w', hloop, hlog, hserved⟩ := writeLoop_served slots db he _ hbs [] w
  obtain ⟨statuses, hdelivered, hdone⟩ := hserved.delivered
    (fun batch hbatch => (hbs batch hbatch).2.1) (batches_flatten (by decide)) hcarries
  rw [List.nil_append, hdone] at hloop
  exact ⟨served, statuses, w', hloop, hlog, hdelivered⟩

theorem goWriteTags_delivers (he : e.Accepts) {path : List UInt8} {pairs : List (Name × GoValue)}
    (hp : ∀ p ∈ pairs, Writable t .go GoValue.fit p) (w : World σ) :
    GoDelivers t w pairs (goWriteTags e slots t path pairs w) := by
  obtain ⟨reqs, hreqs, hscalars, hcarries⟩ := goEncodes.prepareAll hp
  obtain ⟨served, statuses, w', hloop, hlog, hdelivered⟩ := writeLoop_delivers slots (.go path) he
    hscalars hcarries w
  unfold goWriteTags
  simp only [goPrepare, hreqs, hloop]
  refine ⟨served, statuses, hlog, hdelivered, ?_, ?_⟩
  · rw [← hdelivered.failedNames_eq_nil, ite_eq_left_iff]
    simp only [reduceCtorEq, imp_false, not_not]
  · intro err herr
    exact (Option.some.inj (Option.ite_none_left_eq_some.mp herr).2).symm

theorem pyWriteTags_delivers (he : e.Accepts) {path : TagPath} {pairs : List (Name × PyValue)}
    (hnodup : (pairs.map Prod.fst).Nodup) (hp : ∀ p ∈ pairs, Writable t .python PyValue.fit p)
    (w : World σ) : PyDelivers t w pairs (pyWriteTags e slots t path pairs w) := by
  obtain ⟨reqs, hreqs, hscalars, hcarries⟩ := pyEncodes.prepareAll hp
  obtain ⟨served, statuses, w', hloop, hlog, hdelivered⟩ := writeLoop_delivers slots (.python path)
    he hscalars hcarries w
  unfold pyWriteTags
  simp only [pyPrepare, hreqs, hloop]
  refine ⟨served, statuses, hlog, hdelivered, ?_, ?_⟩
  · rw [← hdelivered.failedNames_eq_nil, ite_eq_left_iff]
    simp only [reduceCtorEq, imp_false, not_not]
  · intro err herr
    cases (Option.ite_none_left_eq_some.mp herr).2
    exact ⟨_, rfl, hdelivered.statusDict hnodup⟩

end Members

/-- With an engine that accepts its batches, writing values of the right kinds
to known scalars delivers every pair: always in Go and Python, and in C exactly
for up to 16 pairs. -/
theorem writeTags_delivers_iff {σ : Type} (e : Engine σ) (he : e.Accepts) (slots : Slots)
    (t : TagTable) (w : World σ) :
    (∀ path pairs, (∀ p ∈ pairs, Writable t .c BpValue.fit p) →
      (CDelivers t w pairs (bpTagdbWriteTags e slots t path pairs w) ↔ pairs.length ≤ 16)) ∧
    (∀ path pairs, (∀ p ∈ pairs, Writable t .go GoValue.fit p) →
      GoDelivers t w pairs (goWriteTags e slots t path pairs w)) ∧
    (∀ path pairs, (pairs.map Prod.fst).Nodup → (∀ p ∈ pairs, Writable t .python PyValue.fit p) →
      PyDelivers t w pairs (pyWriteTags e slots t path pairs w)) := by
  refine ⟨fun path pairs hp => ⟨fun h => ?_, fun hlen => ?_⟩, fun path pairs hp => ?_,
    fun path pairs hnodup hp => ?_⟩
  · by_contra hlen
    rw [bpTagdbWriteTags_refuses hp (Nat.lt_of_not_le hlen)] at h
    obtain ⟨served, statuses, -, -, hstatuses, -⟩ := h
    cases hstatuses
  · exact bpTagdbWriteTags_delivers he hp hlen w
  · exact goWriteTags_delivers he hp w
  · exact pyWriteTags_delivers he hnodup hp w

theorem writable_x {V : Type} {fit : Kind → V → Fit} (sdk : Sdk) {v : V} {s : Scalar}
    (h : fit .dint v = .scalar s) : Writable tableXY sdk fit (symbolX.name, v) := by
  obtain ⟨tag, htag, hkind⟩ := tableXY_x sdk
  exact ⟨tag, s, htag, hkind ▸ h⟩

/-- The DINT whose name is a letter: of the seventeen from `i` to `y`, the last one is the tag
that the memory of sevens refuses. -/
def letter (i : Nat) : Symbols.SymbolInfo :=
  { name := [UInt8.ofNat (0x69 + i)], dataType := 0xC4, elemByteSize := 4 }

def tableLetters : TagTable where
  build := ⟨1, ⟨(List.range 17).map letter, by decide⟩⟩
  nul_free := by decide
  name_le := by decide

theorem tableLetters_resolve (sdk : Sdk) : ∀ i < 17,
    ∃ tag, tableLetters.resolve sdk (letter i).name = .ok tag ∧ tag.kind = .dint := by
  have hfound : ∀ i < 17, tableLetters.lookupSymbol (letter i).name sdk = .ok (letter i) := by
    cases sdk <;> decide
  have hkind : kindForAtomic 0xC4 4 = some .dint := by decide
  exact fun i hi => TagTable.resolve_of (letter i) (hfound i hi) ⟨rfl, rfl⟩ hkind

/-- Each letter with a value of its own. -/
def letterPairs {V : Type} (n : Nat) (value : Nat → V) : List (Name × V) :=
  (List.range n).map fun i => ((letter i).name, value i)

theorem letterPairs_writable {V : Type} {fit : Kind → V → Fit} (sdk : Sdk) {n : Nat} (hn : n ≤ 17)
    {value : Nat → V} (h : ∀ i < n, ∃ s, fit .dint (value i) = .scalar s) :
    ∀ p ∈ letterPairs n value, Writable tableLetters sdk fit p := by
  intro p hp
  obtain ⟨i, hi, rfl⟩ := List.mem_map.mp hp
  have hlt := List.mem_range.mp hi
  obtain ⟨tag, htag, hkind⟩ := tableLetters_resolve sdk i (hlt.trans_le hn)
  obtain ⟨s, hs⟩ := h i hlt
  exact ⟨tag, s, htag, hkind ▸ hs⟩

def cLetters : List (Name × BpValue) := letterPairs 16 fun i => .scalar (.dint (.ofNat i))
def goLetters : List (Name × GoValue) := letterPairs 17 fun i => some (.dint (.ofNat i))
def pyLetters : List (Name × PyValue) := letterPairs 17 fun i => .int i

/-- Sixteen pairs in C, and seventeen in Go and Python, in two batches; the tag of the second
batch is the one that is reported. -/
theorem writeTags_delivers_letters :
    (CDelivers tableLetters ⟨(), []⟩ cLetters
        (bpTagdbWriteTags sevens.engine clearSlots tableLetters [0x50] cLetters ⟨(), []⟩) ∧
      (bpTagdbWriteTags sevens.engine clearSlots tableLetters [0x50] cLetters ⟨(), []⟩).1 =
        ⟨none, some (List.replicate 16 0)⟩) ∧
    (GoDelivers tableLetters ⟨(), []⟩ goLetters
        (goWriteTags sevens.engine clearSlots tableLetters [0x50] goLetters ⟨(), []⟩) ∧
      (goWriteTags sevens.engine clearSlots tableLetters [0x50] goLetters ⟨(), []⟩).1 =
        some (.failed [symbolY.name])) ∧
    PyDelivers tableLetters ⟨(), []⟩ pyLetters
        (pyWriteTags sevens.engine clearSlots tableLetters pathP pyLetters ⟨(), []⟩) ∧
      (pyWriteTags sevens.engine clearSlots tableLetters pathP pyLetters ⟨(), []⟩).2.log.map
        (·.1.length) = [16, 1] := by
  obtain ⟨hc, hgo, hpython⟩ := writeTags_delivers_iff sevens.engine sevens_accepts clearSlots
    tableLetters ⟨(), []⟩
  refine ⟨⟨(hc [0x50] _ ?_).mpr (by decide), by decide +kernel⟩,
    ⟨hgo [0x50] _ ?_, by decide +kernel⟩, hpython pathP _ (by decide) ?_, by decide +kernel⟩
  · exact letterPairs_writable .c (by decide) fun i _ => ⟨_, rfl⟩
  · exact letterPairs_writable .go le_rfl fun i _ => ⟨_, rfl⟩
  · refine letterPairs_writable .python le_rfl fun i hi => ?_
    have hint : Scalar.ofInt .dint i = some (.dint (.ofInt i)) := by
      rw [Scalar.ofInt, if_pos (by omega)]
    refine ⟨.dint (.ofInt i), ?_⟩
    simp only [PyValue.fit, hint, Option.elim_some]

def seventeen : List (Name × BpValue) := List.replicate 17 (symbolX.name, .scalar (.dint 1))

/-- The engine would take the pairs in two batches; C makes one access of them,
which refuses it. -/
theorem writeTags_not_delivers : sevens.engine.Accepts ∧
    (∀ p ∈ seventeen, Writable tableXY .c BpValue.fit p) ∧
    ¬ CDelivers tableXY ⟨(), []⟩ seventeen
      (bpTagdbWriteTags sevens.engine clearSlots tableXY [0x50] seventeen ⟨(), []⟩) := by
  have hp : ∀ p ∈ seventeen, Writable tableXY .c BpValue.fit p := by
    intro p hmem
    rw [List.eq_of_mem_replicate hmem]
    exact writable_x .c rfl
  refine ⟨sevens_accepts, hp, ?_⟩
  rw [bpTagdbWriteTags_refuses hp (by decide)]
  rintro ⟨served, statuses, -, -, hstatuses, -⟩
  cases hstatuses

end BpClient.Multi
