import BpClient.Lib.Assign
import BpClient.Lib.Batches
import BpClient.Multi.Tags
import BpClient.Multi.Value

/-!
`read_tags`: `bp_tagdb_read_tags`, which makes one access of all its names, and
`ReadTags` and `read_tags`, which cut them into batches and merge the results by
name. On a memory that does not change this is the same as reading the names one
by one.
-/

namespace BpClient.Multi

open BpClient.Lib
open BpClient.Slot (Sdk)
open BpClient.Tag

/-- What is read of a tag: a value when the CIP status is 0. -/
structure TagResult (α : Type) where
  value : Option α
  cipStatus : UInt32
  deriving DecidableEq, Repr

abbrev Results (α : Type) := Name → Option (TagResult α)

namespace ScalarTag

variable {t : TagTable} {sdk : Sdk} {α : Type} (tag : ScalarTag t sdk)

def readRequest : TagRequest := tag.request actionRead (zeros tag.sym.elemByteSize.toNat)

def result (decode : Kind → List UInt8 → α) (p : TagRequest × UInt32) : TagResult α where
  value := if p.2 = 0 then some (decode tag.kind (p.1.data.getD [])) else none
  cipStatus := p.2

end ScalarTag

section Model

variable {σ α : Type} (e : Engine σ) (slots : Slots) (t : TagTable)

/-- One access for some tags, and what is made of its results. -/
def readBatch (db : TagDb) (decode : Kind → List UInt8 → α) (tags : List (ScalarTag t db.sdk))
    (w : World σ) : Except TagError (List (TagResult α)) × World σ :=
  let (results, w) := e.access slots db (tags.map (·.readRequest)) w
  (results.map (List.zipWith (fun tag => tag.result decode) tags), w)

/-- A name read on its own: the access of one request, and the value that is in its
data afterwards if its CIP status is 0. -/
def readOne (db : TagDb) (decode : Kind → List UInt8 → α) (name : Name) (w : World σ) :
    Except TagError (TagResult α) :=
  match t.resolve db.sdk name with
  | .error err => .error err
  | .ok tag =>
      match (e.access slots db [tag.readRequest] w).1 with
      | .error err => .error err
      | .ok [(request, status)] =>
          if status = 0 then .ok ⟨some (decode tag.kind (request.data.getD [])), 0⟩
          else .ok ⟨none, status⟩
      | .ok _ => .error .engine

/-- The return code of `bp_tagdb_read_tags`, and `out_values` once the engine
has answered. -/
structure CRead where
  rc : Option TagError
  values : Option (List (TagResult Scalar))
  deriving DecidableEq, Repr

def bpTagdbReadTags (path : List UInt8) (names : List Name) (w : World σ) : CRead × World σ :=
  if names.length = 0 then (⟨none, some []⟩, w)
  else
    match names.mapM (t.resolve .c) with
    | .error err => (⟨some err, none⟩, w)
    | .ok tags =>
        match readBatch e slots t (.c path) cDecodeScalar tags w with
        | (.error err, w) => (⟨some err, none⟩, w)
        | (.ok values, w) =>
            let anyFailed := values.any (·.cipStatus ≠ 0)
            (⟨if anyFailed then some .generic else none, some values⟩, w)

/-- Where the loop over the batches is: the results, and the names that have
failed. -/
structure Progress (α : Type) where
  out : Results α
  failed : List Name

/-- `out[names[i]] = res` for the tags of a batch. -/
def Progress.merge {sdk : Sdk} (p : Progress α) (tags : List (ScalarTag t sdk))
    (results : List (TagResult α)) : Progress α where
  out := assign p.out ((tags.zip results).map fun q => (q.1.name, q.2))
  failed := p.failed ++ ((tags.zip results).filter (·.2.cipStatus ≠ 0)).map (·.1.name)

/-- The loop of `ReadTags` and `read_tags` over the batches. -/
def readLoop (db : TagDb) (decode : Kind → List UInt8 → α) :
    List (List (ScalarTag t db.sdk)) → Progress α → World σ →
      Progress α × Option TagError × World σ
  | [], p, w => (p, none, w)
  | tags :: rest, p, w =>
      match readBatch e slots t db decode tags w with
      | (.error err, w) => (p, some err, w)
      | (.ok results, w) => readLoop db decode rest (p.merge t tags results) w

/-- `readTagsBatchCap`, and the 16 of `read_tags` -/
def readTagsBatchCap : Nat := 16

/-- The map and the error of `ReadTags`. -/
structure GoRead where
  results : Results Scalar
  err : Option TagError

def goReadTags (cap : Nat) (path : List UInt8) (names : List Name) (w : World σ) :
    GoRead × World σ :=
  match names.mapM (t.resolve .go) with
  | .error err => (⟨fun _ => none, some err⟩, w)
  | .ok tags =>
      match readLoop e slots t (.go path) goDecodeScalar (batches cap tags)
          ⟨fun _ => none, []⟩ w with
      | (p, some err, w) => (⟨p.out, some err⟩, w)
      | (p, none, w) => (⟨p.out, if p.failed = [] then none else some .generic⟩, w)

/-- What `read_tags` raises: a `BpGeneric` has the dictionaries. -/
inductive PyReadError
  | raised (err : TagError)
  | failed (results : Name → Option (Option PyValue)) (statuses : Name → Option UInt32)

def pyReadTags (cap : Nat) (path : TagPath) (names : List Name) (w : World σ) :
    Except PyReadError (Name → Option (Option PyValue)) × World σ :=
  match names.mapM (t.resolve .python) with
  | .error err => (.error (.raised err), w)
  | .ok tags =>
      match readLoop e slots t (.python path) pyDecodeScalar (batches cap tags)
          ⟨fun _ => none, []⟩ w with
      | (_, some err, w) => (.error (.raised err), w)
      | (p, none, w) =>
          let out := fun name => (p.out name).map (·.value)
          let statuses := fun name => (p.out name).map (·.cipStatus)
          (if p.failed = [] then .ok out else .error (.failed out statuses), w)

end Model

/-- What the answer of an engine says of one tag: its result is the CIP status, and
its data is the value if that is 0. -/
def TagResult.ofAnswer {α : Type} (decode : List UInt8 → α) (a : Answer) : TagResult α :=
  if a.result = 0 then ⟨some (decode a.data), 0⟩ else ⟨none, a.result⟩

/-- The request for one element of the symbol's type and size, as the engine gets it. -/
def ScalarTag.wireRead {t : TagTable} {sdk : Sdk} (tag : ScalarTag t sdk) : WireRequest where
  tagName := tag.name
  dataType := tag.sym.dataType.toNat
  elemByteSize := tag.sym.elemByteSize.toNat
  action := 1
  elemCount := 1
  data := none

def ScalarTag.read {t : TagTable} {sdk : Sdk} {α : Type} (tag : ScalarTag t sdk) (m : Memory)
    (decode : Kind → List UInt8 → α) : TagResult α :=
  .ofAnswer (decode tag.kind) (m.answer tag.wireRead)

section Answered

variable {t : TagTable} {sdk : Sdk} {α : Type} (tag : ScalarTag t sdk)

theorem ScalarTag.wire_readRequest : tag.readRequest.wire = tag.wireRead := by
  have hsize : tag.sym.elemByteSize.toUInt16.toNat = tag.sym.elemByteSize.toNat :=
    tag.size_toNat.trans tag.size_eq.symm
  simp only [ScalarTag.readRequest, ScalarTag.request, TagRequest.wire, ScalarTag.wireRead, hsize]
  rfl

/-- An answer of the right length is what is in the data of the request afterwards. -/
theorem ScalarTag.answered_eq {a : Answer} (hlen : a.data.length = tag.kind.size) :
    (tag.readRequest.answered a).1.data = some a.data ∧
      (tag.readRequest.answered a).2 = a.result := by
  have hread : tag.readRequest.action = actionRead := rfl
  have hbuf : tag.readRequest.data = some (zeros tag.sym.elemByteSize.toNat) := rfl
  refine ⟨?_, rfl⟩
  rw [TagRequest.answered, if_pos hread, hbuf, Option.map_some, hlen,
    List.drop_of_length_le (by rw [zeros_length, tag.size_eq]), List.append_nil]

theorem ScalarTag.result_answered (decode : Kind → List UInt8 → α) {a : Answer}
    (hlen : a.data.length = tag.kind.size) :
    tag.result decode (tag.readRequest.answered a) = .ofAnswer (decode tag.kind) a := by
  obtain ⟨hdata, hresult⟩ := tag.answered_eq hlen
  rw [ScalarTag.result, hdata, hresult, TagResult.ofAnswer]
  by_cases hzero : a.result = 0
  · rw [if_pos hzero, if_pos hzero, hzero]
    rfl
  · rw [if_neg hzero, if_neg hzero]

theorem ScalarTag.wire_size :
    tag.readRequest.wire.elemByteSize * tag.readRequest.wire.elemCount = tag.kind.size :=
  tag.request_size actionRead (zeros tag.sym.elemByteSize.toNat)

theorem ScalarTag.answer_length (m : Memory) :
    (m.answer tag.readRequest.wire).data.length = tag.kind.size :=
  (m.sized tag.readRequest.wire rfl).trans tag.wire_size

end Answered

section Reads

variable {t : TagTable} (m : Memory) (slots : Slots) (db : TagDb) {α : Type}
  (decode : Kind → List UInt8 → α)

theorem isScalar_readRequest {sdk : Sdk} (tag : ScalarTag t sdk) :
    IsScalar t sdk tag.readRequest :=
  ⟨tag, actionRead, _, rfl, .inl rfl, by rw [zeros_length, tag.size_eq]⟩

/-- An access for some tags reads each of them. -/
theorem access_reads {tags : List (ScalarTag t db.sdk)} (hpos : 1 ≤ tags.length)
    (hlen : tags.length ≤ 16) (w : World Unit) :
    ∃ w', m.engine.access slots db (tags.map (·.readRequest)) w =
      (.ok (tags.map fun tag => tag.readRequest.answered (m.answer tag.readRequest.wire)), w') := by
  have hsends : db.Sends (tags.map (·.readRequest)) := by
    apply sends_of_isScalar (t := t)
    · rwa [List.length_map]
    · rwa [List.length_map]
    · intro r hr
      obtain ⟨tag, -, rfl⟩ := List.mem_map.mp hr
      exact isScalar_readRequest tag
  rw [Engine.access_eq_exchange _ slots hsends]
  refine ⟨_, Prod.ext ?_ rfl⟩
  simp only [Engine.exchange, Memory.engine, List.map_map]
  rw [List.zipWith_map_left, List.zipWith_map_right, List.zipWith_self]
  rfl

theorem readBatch_eq {tags : List (ScalarTag t db.sdk)} (hpos : 1 ≤ tags.length)
    (hlen : tags.length ≤ 16) (w : World Unit) :
    ∃ w', readBatch m.engine slots t db decode tags w =
      (.ok (tags.map fun tag => tag.read m decode), w') := by
  obtain ⟨w', haccess⟩ := access_reads m slots db hpos hlen w
  refine ⟨w', ?_⟩
  unfold readBatch
  rw [haccess]
  refine Prod.ext ?_ rfl
  simp only [Except.map]
  rw [List.zipWith_map_right, List.zipWith_self]
  refine congrArg Except.ok (List.map_congr_left fun tag _ => ?_)
  rw [tag.result_answered decode (tag.answer_length m), tag.wire_readRequest]
  rfl

/-- A tag read on its own gives the value and the status of the engine's answer. -/
theorem readOne_eq (tag : ScalarTag t db.sdk) (w : World Unit) :
    readOne m.engine slots t db decode tag.name w = .ok (tag.read m decode) := by
  obtain ⟨w', haccess⟩ := access_reads m slots db (show 1 ≤ [tag].length from le_rfl)
    (show 1 ≤ 16 by decide) w
  obtain ⟨hdata, hresult⟩ := tag.answered_eq (tag.answer_length m)
  unfold readOne
  rw [t.resolve_tag tag]
  simp only [List.map_cons, List.map_nil] at haccess
  simp only [haccess]
  rw [hresult, hdata, Option.getD_some, ScalarTag.read, TagResult.ofAnswer, ← tag.wire_readRequest]
  split <;> rfl

end Reads

section Merge

variable {t : TagTable} {sdk : Sdk} {α : Type} {read : ScalarTag t sdk → TagResult α}

/-- A name has one tag. -/
theorem ScalarTag.eq_of_name {tag tag' : ScalarTag t sdk} (h : tag.name = tag'.name) :
    tag = tag' := by
  obtain ⟨name, sym, kind, hfound, hplain, hkind⟩ := tag
  obtain ⟨name', sym', kind', hfound', hplain', hkind'⟩ := tag'
  cases h
  cases Except.ok.inj (hfound.symm.trans hfound')
  cases Option.some.inj (hkind.symm.trans hkind')
  rfl

/-- Progress that shows what has been read of some tags. -/
structure Progress.Shows (p : Progress α) (read : ScalarTag t sdk → TagResult α)
    (tags : List (ScalarTag t sdk)) : Prop where
  each : ∀ tag ∈ tags, p.out tag.name = some (read tag)
  only : ∀ name, (∀ tag ∈ tags, tag.name ≠ name) → p.out name = none
  failed : p.failed = (tags.filter fun tag => (read tag).cipStatus ≠ 0).map (·.name)

theorem Progress.shows_nil : (⟨fun _ => none, []⟩ : Progress α).Shows read [] where
  each := fun _ htag => absurd htag List.not_mem_nil
  only := fun _ _ => rfl
  failed := rfl

/-- A batch adds to what the loop shows what has been read of its tags. -/
theorem Progress.Shows.merge {p : Progress α} {before : List (ScalarTag t sdk)}
    (h : p.Shows read before) (tags : List (ScalarTag t sdk)) :
    (p.merge t tags (tags.map read)).Shows read (before ++ tags) := by
  have hzip : tags.zip (tags.map read) = tags.map fun tag => (tag, read tag) := by
    rw [List.zip_eq_zipWith, List.zipWith_map_right, List.zipWith_self]
  have hout : (p.merge t tags (tags.map read)).out =
      assign p.out (tags.map fun tag => (tag.name, read tag)) := by
    rw [Progress.merge, hzip, List.map_map]
    rfl
  have hkeys : (tags.map fun tag => (tag.name, read tag)).map Prod.fst = tags.map (·.name) := by
    rw [List.map_map]
    rfl
  -- a name that comes again has the same tag, and is assigned the same
  have hassigned : ∀ tag ∈ tags, (p.merge t tags (tags.map read)).out tag.name =
      some (read tag) := by
    intro tag htag
    have hmem : (tag.name, read tag) ∈ tags.map fun tag => (tag.name, read tag) :=
      List.mem_map.mpr ⟨tag, htag, rfl⟩
    rw [hout]
    apply assign_of_mem hmem
    intro v hv
    obtain ⟨other, -, heq⟩ := List.mem_map.mp hv
    obtain ⟨hname, rfl⟩ := Prod.ext_iff.mp heq
    rw [ScalarTag.eq_of_name hname]
  have hkept : ∀ name, (∀ tag ∈ tags, tag.name ≠ name) →
      (p.merge t tags (tags.map read)).out name = p.out name := by
    intro name hname
    rw [hout, assign_of_notMem]
    rw [hkeys, List.mem_map, not_exists]
    exact fun tag htag => hname tag htag.1 htag.2
  constructor
  · intro tag htag
    by_cases hmem : ∃ other ∈ tags, other.name = tag.name
    · obtain ⟨other, hother, hname⟩ := hmem
      rw [← ScalarTag.eq_of_name hname]
      exact hassigned other hother
    · push Not at hmem
      rcases List.mem_append.mp htag with hbefore | hlater
      · exact (hkept tag.name hmem).trans (h.each tag hbefore)
      · exact hassigned tag hlater
  · intro name hname
    have hbefore := fun tag htag => hname tag (List.mem_append_left _ htag)
    have hlater := fun tag htag => hname tag (List.mem_append_right _ htag)
    exact (hkept name hlater).trans (h.only name hbefore)
  · simp only [Progress.merge, hzip, h.failed, List.filter_append, List.map_append,
      List.filter_map, List.map_map]
    rfl

end Merge

section Loop

variable {t : TagTable} (m : Memory) (slots : Slots) (db : TagDb) {α : Type}
  (decode : Kind → List UInt8 → α)

/-- After the batches, the results are those of all their tags. -/
theorem readLoop_eq (bs : List (List (ScalarTag t db.sdk)))
    (hbs : ∀ tags ∈ bs, tags ≠ [] ∧ tags.length ≤ 16) {p : Progress α}
    {before : List (ScalarTag t db.sdk)}
    (h : p.Shows (fun tag => tag.read m decode) before) (w : World Unit) :
    ∃ p' w', readLoop m.engine slots t db decode bs p w = (p', none, w') ∧
      p'.Shows (fun tag => tag.read m decode) (before ++ bs.flatten) := by
  induction bs generalizing p before w with
  | nil =>
      refine ⟨p, w, rfl, ?_⟩
      rwa [List.flatten_nil, List.append_nil]
  | cons tags bs ih =>
      rw [List.forall_mem_cons] at hbs
      obtain ⟨⟨hne, hlen⟩, hrest⟩ := hbs
      obtain ⟨w', hbatch⟩ := readBatch_eq m slots db decode (List.length_pos_iff.mpr hne) hlen w
      obtain ⟨p', w'', hloop, hshows⟩ := ih hrest (h.merge tags) w'
      refine ⟨p', w'', ?_, ?_⟩
      · rw [readLoop, hbatch]
        exact hloop
      · rwa [List.flatten_cons, ← List.append_assoc]

end Loop

/-- Some name, read on its own, has a non-zero status. -/
def Fails {α : Type} (one : Name → Except TagError (TagResult α)) (names : List Name) : Prop :=
  ∃ name ∈ names, ∃ v, one name = .ok v ∧ v.cipStatus ≠ 0

/-- Results under the names that are those of reading each name on its own. -/
structure Agree {α β : Type} (one : Name → Except TagError (TagResult α)) (names : List Name)
    (part : TagResult α → β) (out : Name → Option β) : Prop where
  each : ∀ name ∈ names, ∃ v, one name = .ok v ∧ out name = some (part v)
  only : ∀ name, name ∉ names → out name = none

/-- `out_values` and the return code are those of reading each name on its own. -/
structure CRead.Agrees (r : CRead) (one : Name → Except TagError (TagResult Scalar))
    (names : List Name) : Prop where
  values : ∃ values, r.values = some values ∧
    List.Forall₂ (fun name v => one name = .ok v) names values
  succeeds : r.rc = none ↔ ¬ Fails one names
  fails : r.rc = some .generic ↔ Fails one names

structure GoRead.Agrees (r : GoRead) (one : Name → Except TagError (TagResult Scalar))
    (names : List Name) : Prop where
  results : Agree one names id r.results
  succeeds : r.err = none ↔ ¬ Fails one names
  fails : r.err = some .generic ↔ Fails one names

inductive PyAgrees (one : Name → Except TagError (TagResult PyValue)) (names : List Name) :
    Except PyReadError (Name → Option (Option PyValue)) → Prop
  | ok {out : Name → Option (Option PyValue)} :
      ¬ Fails one names → Agree one names (·.value) out → PyAgrees one names (.ok out)
  | failed {out : Name → Option (Option PyValue)} {statuses : Name → Option UInt32} :
      Fails one names → Agree one names (·.value) out → Agree one names (·.cipStatus) statuses →
        PyAgrees one names (.error (.failed out statuses))

/-- What Python raises when some status is not 0. -/
theorem PyAgrees.of_fails {one : Name → Except TagError (TagResult PyValue)} {names : List Name}
    {r : Except PyReadError (Name → Option (Option PyValue))} (hfails : Fails one names)
    (h : PyAgrees one names r) :
    ∃ results statuses, r = .error (.failed results statuses) ∧
      Agree one names (·.value) results ∧ Agree one names (·.cipStatus) statuses := by
  cases h with
  | ok hnot _ => exact absurd hfails hnot
  | failed _ hvalues hstatuses => exact ⟨_, _, rfl, hvalues, hstatuses⟩

section Agreement

variable {t : TagTable} (m : Memory) (slots : Slots) (db : TagDb) {α : Type}
  (decode : Kind → List UInt8 → α) {names : List Name} {tags : List (ScalarTag t db.sdk)}

theorem fails_iff (hres : names.mapM (t.resolve db.sdk) = .ok tags) (w : World Unit) :
    Fails (fun name => readOne m.engine slots t db decode name w) names ↔
      ∃ tag ∈ tags, (tag.read m decode).cipStatus ≠ 0 := by
  obtain ⟨rfl, -⟩ := TagTable.mapM_resolve hres
  constructor
  · rintro ⟨name, hname, v, hv, hstatus⟩
    obtain ⟨tag, htag, rfl⟩ := List.mem_map.mp hname
    cases Except.ok.inj (hv.symm.trans (readOne_eq m slots db decode tag w))
    exact ⟨tag, htag, hstatus⟩
  · rintro ⟨tag, htag, hstatus⟩
    exact ⟨tag.name, List.mem_map_of_mem htag, _, readOne_eq m slots db decode tag w, hstatus⟩

/-- Progress over all tags is what reading each name on its own gives. -/
theorem Progress.Shows.agree {p : Progress α} (hres : names.mapM (t.resolve db.sdk) = .ok tags)
    (h : p.Shows (fun tag => tag.read m decode) tags) (w : World Unit) {β : Type}
    (part : TagResult α → β) :
    Agree (fun name => readOne m.engine slots t db decode name w) names part
      fun name => (p.out name).map part := by
  obtain ⟨rfl, -⟩ := TagTable.mapM_resolve hres
  constructor
  · intro name hname
    obtain ⟨tag, htag, rfl⟩ := List.mem_map.mp hname
    exact ⟨_, readOne_eq m slots db decode tag w, by rw [h.each tag htag, Option.map_some]⟩
  · intro name hname
    rw [h.only name fun tag htag heq => hname (heq ▸ List.mem_map_of_mem htag), Option.map_none]

theorem Progress.Shows.failed_iff {p : Progress α}
    (hres : names.mapM (t.resolve db.sdk) = .ok tags)
    (h : p.Shows (fun tag => tag.read m decode) tags) (w : World Unit) :
    p.failed = [] ↔ ¬ Fails (fun name => readOne m.engine slots t db decode name w) names := by
  rw [fails_iff m slots db decode hres w, h.failed, List.map_eq_nil_iff, List.filter_eq_nil_iff]
  simp only [decide_eq_true_eq, not_exists, not_and]

/-- The loop over the batches reads every tag. -/
theorem readLoop_batches {cap : Nat} (hpos : 1 ≤ cap) (hcap : cap ≤ 16)
    (tags : List (ScalarTag t db.sdk)) (w : World Unit) :
    ∃ p w', readLoop m.engine slots t db decode (batches cap tags) ⟨fun _ => none, []⟩ w =
      (p, none, w') ∧ p.Shows (fun tag => tag.read m decode) tags := by
  have hbs : ∀ batch ∈ batches cap tags, batch ≠ [] ∧ batch.length ≤ 16 := fun batch hbatch =>
    ⟨ne_nil_of_mem_batches hpos hbatch, (length_le_of_mem_batches hbatch).trans hcap⟩
  obtain ⟨p, w', hloop, hshows⟩ := readLoop_eq m slots db decode _ hbs Progress.shows_nil w
  rw [List.nil_append, batches_flatten hpos] at hshows
  exact ⟨p, w', hloop, hshows⟩

end Agreement

section Members

variable {t : TagTable} {m : Memory} {slots slots' : Slots} {names : List Name} {cap : Nat}

/-- C reads at most 16 names as it would read each of them. -/
theorem bpTagdbReadTags_agrees (path : List UInt8) (hknown : ∀ name ∈ names, t.Knows .c name)
    (hlen : names.length ≤ 16) (w w' : World Unit) :
    (bpTagdbReadTags m.engine slots t path names w).1.Agrees
      (fun name => readOne m.engine slots' t (.c path) cDecodeScalar name w') names := by
  obtain ⟨tags, hres⟩ := exists_mapM_eq_ok hknown
  have hfails := fails_iff m slots' (.c path) cDecodeScalar hres w'
  obtain ⟨hnames, -⟩ := TagTable.mapM_resolve hres
  have hcount : names.length = tags.length := by rw [hnames, List.length_map]
  let values := tags.map fun tag => tag.read m cDecodeScalar
  have hvalues : List.Forall₂ (fun name v =>
      readOne m.engine slots' t (.c path) cDecodeScalar name w' = .ok v) names values := by
    rw [hnames, List.forall₂_map_left_iff, List.forall₂_map_right_iff, List.forall₂_same]
    exact fun tag _ => readOne_eq m slots' (.c path) cDecodeScalar tag w'
  have hany : values.any (·.cipStatus ≠ 0) = true ↔
      Fails (fun name => readOne m.engine slots' t (.c path) cDecodeScalar name w') names := by
    rw [hfails, List.any_map, List.any_eq_true]
    simp only [Function.comp_apply, decide_eq_true_eq]
  have hrun : (bpTagdbReadTags m.engine slots t path names w).1 =
      ⟨if values.any (·.cipStatus ≠ 0) then some .generic else none, some values⟩ := by
    unfold bpTagdbReadTags
    by_cases hzero : names.length = 0
    · have htags : tags = [] := List.length_eq_zero_iff.mp (hcount ▸ hzero)
      rw [if_pos hzero]
      simp only [values, htags]
      rfl
    · obtain ⟨w'', hbatch⟩ := readBatch_eq m slots (.c path) cDecodeScalar
        (show 1 ≤ tags.length by omega) (by omega) w
      rw [if_neg hzero, hres]
      simp only [hbatch, values]
  rw [hrun]
  refine ⟨⟨values, rfl, hvalues⟩, ?_, ?_⟩
  · rw [← hany]
    cases values.any (·.cipStatus ≠ 0) <;> simp
  · rw [← hany]
    cases values.any (·.cipStatus ≠ 0) <;> simp

theorem goReadTags_agrees (path : List UInt8) (hpos : 1 ≤ cap) (hcap : cap ≤ 16)
    (hknown : ∀ name ∈ names, t.Knows .go name) (w w' : World Unit) :
    (goReadTags m.engine slots t cap path names w).1.Agrees
      (fun name => readOne m.engine slots' t (.go path) goDecodeScalar name w') names := by
  obtain ⟨tags, hres⟩ := exists_mapM_eq_ok hknown
  obtain ⟨p, w'', hloop, hshows⟩ := readLoop_batches m slots (.go path) goDecodeScalar hpos hcap
    tags w
  have hrun : (goReadTags m.engine slots t cap path names w).1 =
      ⟨p.out, if p.failed = [] then none else some .generic⟩ := by
    unfold goReadTags
    rw [hres]
    simp only [hloop]
  have hfailed := hshows.failed_iff m slots' (.go path) goDecodeScalar hres w'
  have hagree := hshows.agree m slots' (.go path) goDecodeScalar hres w' id
  rw [hrun]
  refine ⟨?_, ?_, ?_⟩
  · simpa only [Option.map_id, id_eq] using hagree
  · rw [← hfailed]
    by_cases hnil : p.failed = [] <;> simp [hnil]
  · rw [← not_iff_not, ← hfailed]
    by_cases hnil : p.failed = [] <;> simp [hnil]

theorem pyReadTags_agrees (path : TagPath) (hpos : 1 ≤ cap) (hcap : cap ≤ 16)
    (hknown : ∀ name ∈ names, t.Knows .python name) (w w' : World Unit) :
    PyAgrees (fun name => readOne m.engine slots' t (.python path) pyDecodeScalar name w') names
      (pyReadTags m.engine slots t cap path names w).1 := by
  obtain ⟨tags, hres⟩ := exists_mapM_eq_ok hknown
  obtain ⟨p, w'', hloop, hshows⟩ := readLoop_batches m slots (.python path) pyDecodeScalar hpos hcap
    tags w
  have hrun : (pyReadTags m.engine slots t cap path names w).1 =
      if p.failed = [] then .ok fun name => (p.out name).map (·.value)
      else .error (.failed (fun name => (p.out name).map (·.value))
        fun name => (p.out name).map (·.cipStatus)) := by
    unfold pyReadTags
    rw [hres]
    simp only [hloop]
  have hfailed := hshows.failed_iff m slots' (.python path) pyDecodeScalar hres w'
  have hvalues := hshows.agree m slots' (.python path) pyDecodeScalar hres w' (·.value)
  have hstatuses := hshows.agree m slots' (.python path) pyDecodeScalar hres w' (·.cipStatus)
  rw [hrun]
  split
  · next hnil => exact .ok (hfailed.mp hnil) hvalues
  · next hcons => exact .failed (not_not.mp fun h => hcons (hfailed.mpr h)) hvalues hstatuses

end Members

/-- Reading a list of known scalars at once is reading them one by one, whatever
the slots and however the list is cut into batches: in C by position, for at most
16 names, in Go and Python by name. The call fails exactly when some status is
not 0, and still delivers the values. Read on its own, a tag has the status of
the engine's answer, and the decoded data as its value exactly when that is 0. -/
theorem readTags_eq_readOne (m : Memory) (t : TagTable) (slots slots' : Slots) (w w' : World Unit)
    (names : List Name) :
    (∀ path, (∀ name ∈ names, t.Knows .c name) → names.length ≤ 16 →
      (bpTagdbReadTags m.engine slots t path names w).1.Agrees
        (fun name => readOne m.engine slots' t (.c path) cDecodeScalar name w') names) ∧
    (∀ cap path, 1 ≤ cap → cap ≤ 16 → (∀ name ∈ names, t.Knows .go name) →
      (goReadTags m.engine slots t cap path names w).1.Agrees
        (fun name => readOne m.engine slots' t (.go path) goDecodeScalar name w') names) ∧
    (∀ cap path, 1 ≤ cap → cap ≤ 16 → (∀ name ∈ names, t.Knows .python name) →
      PyAgrees (fun name => readOne m.engine slots' t (.python path) pyDecodeScalar name w') names
        (pyReadTags m.engine slots t cap path names w).1) ∧
    ∀ (db : TagDb) (α : Type) (decode : Kind → List UInt8 → α) (tag : ScalarTag t db.sdk),
      readOne m.engine slots' t db decode tag.name w' =
        .ok (.ofAnswer (decode tag.kind) (m.answer tag.wireRead)) :=
  ⟨fun path hknown hlen => bpTagdbReadTags_agrees path hknown hlen w w',
    fun _ path hpos hcap hknown => goReadTags_agrees path hpos hcap hknown w w',
    fun _ path hpos hcap hknown => pyReadTags_agrees path hpos hcap hknown w w',
    fun db _ decode tag => readOne_eq m slots' db decode tag w'⟩

def namesXs : List Name := List.replicate 16 symbolX.name ++ [symbolY.name]

theorem namesXs_knows (sdk : Sdk) : ∀ name ∈ namesXs, tableXY.Knows sdk name := by
  intro name hname
  apply tableXY_knows sdk name
  rcases List.mem_append.mp hname with hx | hy
  · exact List.mem_pair.mpr (.inl (List.eq_of_mem_replicate hx))
  · exact List.mem_pair.mpr (.inr (List.mem_singleton.mp hy))

theorem sevens_x {sdk : Sdk} (tag : ScalarTag tableXY sdk) (hname : tag.name = symbolX.name)
    (hkind : tag.kind = .dint) : sevens.answer tag.wireRead = ⟨0, [7, 7, 7, 7]⟩ := by
  have hsize : tag.sym.elemByteSize.toNat = 4 := by rw [tag.size_eq, hkind]; rfl
  simp only [sevens, ScalarTag.wireRead, hname, hsize]
  rfl

theorem sevens_y {sdk : Sdk} (tag : ScalarTag tableXY sdk) (hname : tag.name = symbolY.name) :
    (sevens.answer tag.wireRead).result = 5 :=
  if_pos hname

/-- The tag `x` has the value 0x07070707, and `y` the status 5. -/
theorem readTags_eq_readOne_xy :
    (bpTagdbReadTags sevens.engine clearSlots tableXY [0x50] namesXY ⟨(), []⟩).1 =
        ⟨some .generic, some [⟨some (.dint 0x07070707), 0⟩, ⟨none, 5⟩]⟩ ∧
      (∃ results, (goReadTags sevens.engine clearSlots tableXY readTagsBatchCap [0x50] namesXs
          ⟨(), []⟩).1 = ⟨results, some .generic⟩ ∧
        results symbolX.name = some ⟨some (.dint 0x07070707), 0⟩ ∧
        results symbolY.name = some ⟨none, 5⟩) ∧
      ∃ results statuses, (pyReadTags sevens.engine clearSlots tableXY readTagsBatchCap pathP namesXs
          ⟨(), []⟩).1 = .error (.failed results statuses) ∧
        results symbolX.name = some (some (.int 0x07070707)) ∧ statuses symbolX.name = some 0 ∧
        results symbolY.name = some none ∧ statuses symbolY.name = some 5 := by
  have hc := (readTags_eq_readOne sevens tableXY clearSlots clearSlots ⟨(), []⟩ ⟨(), []⟩
    namesXY).1 [0x50] (tableXY_knows .c) (by decide)
  obtain ⟨-, hgo, hpython, hone⟩ := readTags_eq_readOne sevens tableXY clearSlots clearSlots
    ⟨(), []⟩ ⟨(), []⟩ namesXs
  have hx : ∀ (db : TagDb) (α : Type) (decode : Kind → List UInt8 → α),
      readOne sevens.engine clearSlots tableXY db decode symbolX.name ⟨(), []⟩ =
        .ok ⟨some (decode .dint [7, 7, 7, 7]), 0⟩ := by
    intro db α decode
    obtain ⟨tag, htag, hkind⟩ := tableXY_x db.sdk
    rw [← TagTable.resolve_name htag, hone, sevens_x tag (TagTable.resolve_name htag) hkind, hkind]
    rfl
  have hy : ∀ (db : TagDb) (α : Type) (decode : Kind → List UInt8 → α),
      readOne sevens.engine clearSlots tableXY db decode symbolY.name ⟨(), []⟩ =
        .ok ⟨none, 5⟩ := by
    intro db α decode
    obtain ⟨tag, htag, -⟩ := tableXY_y db.sdk
    rw [← TagTable.resolve_name htag, hone, TagResult.ofAnswer,
      sevens_y tag (TagTable.resolve_name htag)]
    rfl
  have memX : symbolX.name ∈ namesXs := by decide
  have memY : symbolY.name ∈ namesXs := by decide
  refine ⟨?_, ?_, ?_⟩
  · obtain ⟨⟨values, hvalues, hall⟩, -, hfails⟩ := hc
    have hrc := hfails.mpr ⟨symbolY.name, by decide, _, hy _ _ _, by decide⟩
    obtain ⟨vx, vs, hvx, hlast, rfl⟩ := List.forall₂_cons_left_iff.mp hall
    obtain ⟨vy, vs, hvy, hnil, rfl⟩ := List.forall₂_cons_left_iff.mp hlast
    obtain rfl := List.forall₂_nil_left_iff.mp hnil
    cases Except.ok.inj ((hx _ _ _).symm.trans hvx)
    cases Except.ok.inj ((hy _ _ _).symm.trans hvy)
    generalize (bpTagdbReadTags sevens.engine clearSlots tableXY [0x50] namesXY ⟨(), []⟩).1 = r at *
    obtain ⟨rc, values⟩ := r
    cases hrc
    cases hvalues
    rfl
  · obtain ⟨hresults, -, hfails⟩ := hgo readTagsBatchCap [0x50] (by decide) (by decide)
      (namesXs_knows .go)
    have herr := hfails.mpr ⟨symbolY.name, memY, _, hy _ _ _, by decide⟩
    obtain ⟨vx, hvx, houtX⟩ := hresults.each symbolX.name memX
    obtain ⟨vy, hvy, houtY⟩ := hresults.each symbolY.name memY
    cases Except.ok.inj ((hx _ _ _).symm.trans hvx)
    cases Except.ok.inj ((hy _ _ _).symm.trans hvy)
    generalize (goReadTags sevens.engine clearSlots tableXY readTagsBatchCap [0x50] namesXs
      ⟨(), []⟩).1 = r at *
    obtain ⟨results, err⟩ := r
    cases herr
    exact ⟨results, rfl, houtX, houtY⟩
  · have hfails : Fails (fun name =>
        readOne sevens.engine clearSlots tableXY (.python pathP) pyDecodeScalar name ⟨(), []⟩)
        namesXs := ⟨symbolY.name, memY, _, hy _ _ _, by decide⟩
    obtain ⟨results, statuses, hrun, hresults, hstatuses⟩ := PyAgrees.of_fails hfails
      (hpython readTagsBatchCap pathP (by decide) (by decide) (namesXs_knows .python))
    obtain ⟨vx, hvx, houtX⟩ := hresults.each symbolX.name memX
    obtain ⟨vy, hvy, houtY⟩ := hresults.each symbolY.name memY
    obtain ⟨sx, hsx, hstatusX⟩ := hstatuses.each symbolX.name memX
    obtain ⟨sy, hsy, hstatusY⟩ := hstatuses.each symbolY.name memY
    cases Except.ok.inj ((hx _ _ _).symm.trans hvx)
    cases Except.ok.inj ((hy _ _ _).symm.trans hvy)
    cases Except.ok.inj ((hx _ _ _).symm.trans hsx)
    cases Except.ok.inj ((hy _ _ _).symm.trans hsy)
    exact ⟨results, statuses, hrun, houtX, hstatusX, houtY, hstatusY⟩

end BpClient.Multi
