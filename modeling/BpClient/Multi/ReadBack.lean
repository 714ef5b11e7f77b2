import BpClient.Arrays.Store
import BpClient.Multi.Read
import BpClient.Multi.Write

/-!
Tags that are written together and read together. With an engine that keeps what it is
given, `read_tags` of any SDK gives for every known scalar the value that `write_tags`
of any SDK has written last, and for the others what they had before.
-/

namespace BpClient.Multi

open BpClient.Arrays (after after_eq overwrite firstBytes firstBytes_length firstBytes_overwrite
  memoryEngine)
open BpClient.Lib
open BpClient.Slot (Sdk)
open BpClient.Tag

abbrev Contents := List UInt8 → Nat → UInt8

def Contents.stored (mem : Contents) (r : WireRequest) : Contents :=
  Function.update mem r.tagName (overwrite (r.data.getD []) (mem r.tagName))

structure IsWrite (r : WireRequest) (data : List UInt8) : Prop where
  action : r.action = 2
  length : data.length = r.elemByteSize * r.elemCount
  data : r.data = some data

/-- An engine with tags that keep what is written to them, one after the other. `cap` is
the size of a tag in bytes; there is nothing to rely on in a batch with a larger request. -/
structure BatchStore {σ : Type} (e : Engine σ) where
  cap : Name → Nat
  bytes : σ → Contents
  write : ∀ s reqs, (∀ r ∈ reqs, ∃ data, IsWrite r data ∧ data.length ≤ cap r.tagName) →
    ∃ answers, (e.serve s reqs).1 = some answers ∧ (∀ a ∈ answers, a.result = 0) ∧
      bytes (e.serve s reqs).2 = reqs.foldl Contents.stored (bytes s)
  read : ∀ s reqs, (∀ r ∈ reqs, r.action = 1 ∧ r.elemByteSize * r.elemCount ≤ cap r.tagName) →
    (e.serve s reqs).1 = some (reqs.map fun r =>
      ⟨0, firstBytes (r.elemByteSize * r.elemCount) (bytes s r.tagName)⟩) ∧
      bytes (e.serve s reqs).2 = bytes s

/-- The scalar that is in a tag. -/
def TagTable.held (t : TagTable) (mem : Contents) (name : Name) : Option Scalar :=
  (t.build.lookup name).bind fun sym =>
    (kindForAtomic sym.dataType sym.elemByteSize).map fun kind =>
      goDecodeScalar kind (firstBytes kind.size (mem name))

section Held

variable {t : TagTable} {sdk : Sdk} {mem : Contents}

theorem ScalarTag.held (tag : ScalarTag t sdk) (mem : Contents) :
    t.held mem tag.name = some (goDecodeScalar tag.kind (firstBytes tag.kind.size (mem tag.name))) := by
  rw [TagTable.held, (TagTable.lookup_of_ok tag.found).1, Option.bind_some, tag.kind_eq]
  rfl

/-- A write of a scalar changes what the tag holds, and nothing else. -/
theorem held_stored (tag : ScalarTag t sdk) {s : Scalar} (hkind : s.kind = tag.kind)
    {r : WireRequest} (hname : r.tagName = tag.name) (hdata : r.data = some s.bytes) :
    t.held (mem.stored r) = Function.update (t.held mem) tag.name (some s) := by
  funext name
  by_cases h : name = tag.name
  · subst h
    have hfirst : firstBytes tag.kind.size (mem.stored r tag.name) = s.bytes := by
      rw [Contents.stored, hname, Function.update_self, hdata, Option.getD_some, ← hkind,
        ← s.bytes_length, firstBytes_overwrite]
    rw [Function.update_self, tag.held, hfirst, ← hkind, goDecodeScalar_bytes]
  · have hother : mem.stored r name = mem name := by
      rw [Contents.stored, hname, Function.update_of_ne h]
    rw [Function.update_of_ne h, TagTable.held, TagTable.held, hother]

end Held

def Gives {V : Type} (t : TagTable) (sdk : Sdk) (fit : Kind → V → Fit) (pairs : List (Name × V))
    (written : List (Name × Scalar)) : Prop :=
  List.Forall₂ (fun p q => p.1 = q.1 ∧ ∃ tag, t.resolve sdk p.1 = .ok tag ∧
    fit tag.kind p.2 = .scalar q.2) pairs written

section Writes

variable {V : Type} {t : TagTable} {sdk : Sdk} {fit : Kind → V → Fit} {pairs : List (Name × V)}
  {written : List (Name × Scalar)}

theorem Gives.writable (h : Gives t sdk fit pairs written) :
    ∀ p ∈ pairs, Writable t sdk fit p := by
  unfold Gives at h
  induction h with
  | nil => exact fun p hp => absurd hp List.not_mem_nil
  | cons hp _ ih =>
      obtain ⟨-, tag, htag, hfit⟩ := hp
      exact List.forall_mem_cons.mpr ⟨⟨tag, _, htag, hfit⟩, ih⟩

/-- After the requests for the pairs the tags hold what the pairs give. -/
theorem Gives.held (h : Gives t sdk fit pairs written)
    (hkind : ∀ kind v s, fit kind v = .scalar s → s.kind = kind) {wire : List WireRequest}
    (hcarries : List.Forall₂ (Carries t sdk fit) pairs wire) (mem : Contents) :
    t.held (wire.foldl Contents.stored mem) = assign (t.held mem) written := by
  unfold Gives at h
  induction h generalizing wire mem with
  | nil =>
      cases hcarries
      rfl
  | @cons p q pairs written hp _ ih =>
      cases hcarries with
      | @cons _ r _ wire hr hrest =>
          obtain ⟨hname, tag, htag, hfit⟩ := hp
          obtain ⟨tag', s, htag', hfit', rfl⟩ := hr
          cases Except.ok.inj (htag.symm.trans htag')
          cases Fit.scalar.inj (hfit.symm.trans hfit')
          have hresolved := TagTable.resolve_name htag
          rw [List.foldl_cons, ih hrest,
            held_stored tag (hkind _ _ _ hfit) hresolved.symm rfl, hresolved, hname]
          rfl

end Writes

section Stores

variable {σ V : Type} {e : Engine σ} {t : TagTable} (db : TagDb) (slots : Slots)

def BatchStore.Holds (m : BatchStore e) (t : TagTable) : Prop :=
  ∀ sym ∈ t.build.table.symbols, sym.elemByteSize.toNat ≤ m.cap sym.name

theorem BatchStore.Holds.size_le {m : BatchStore e} (h : m.Holds t) {sdk : Sdk}
    (tag : ScalarTag t sdk) : tag.kind.size ≤ m.cap tag.name := by
  obtain ⟨hmem, hname⟩ := tag.mem_symbols
  rw [← tag.size_eq, ← hname]
  exact h _ hmem

/-- A request for a write to a tag that has room. -/
def BatchStore.Takes (m : BatchStore e) (r : TagRequest) : Prop :=
  ∃ data, IsWrite r.wire data ∧ data.length ≤ m.cap r.tagName

theorem BatchStore.Holds.takes {m : BatchStore e} (h : m.Holds t) {sdk : Sdk} {fit : Kind → V → Fit}
    (hkind : ∀ kind v s, fit kind v = .scalar s → s.kind = kind) {p : Name × V} {r : TagRequest}
    (hr : Carries t sdk fit p r.wire) : m.Takes r := by
  obtain ⟨tag, s, htag, hfit, hwire⟩ := hr
  have hname : r.tagName = p.1 := congrArg WireRequest.tagName hwire
  refine ⟨s.bytes, ?_, ?_⟩
  · rw [hwire]
    exact ⟨rfl, by rw [s.bytes_length, Nat.mul_one], rfl⟩
  · rw [s.bytes_length, hkind _ _ _ hfit, hname, ← TagTable.resolve_name htag]
    exact h.size_le tag

/-- One access for some writes. -/
theorem BatchStore.access_stores (m : BatchStore e) {reqs : List TagRequest} (hne : reqs ≠ [])
    (hlen : reqs.length ≤ 16) (hreqs : ∀ r ∈ reqs, IsScalar t db.sdk r ∧ m.Takes r) (w : World σ) :
    ∃ results w', e.access slots db reqs w = (.ok results, w') ∧
      results.length = reqs.length ∧ (∀ p ∈ results, p.2 = 0) ∧
      m.bytes w'.engine = (reqs.map TagRequest.wire).foldl Contents.stored (m.bytes w.engine) := by
  have htakes : ∀ r ∈ reqs.map TagRequest.wire,
      ∃ data, IsWrite r data ∧ data.length ≤ m.cap r.tagName := by
    rw [List.forall_mem_map]
    exact fun r hr => (hreqs r hr).2
  obtain ⟨answers, hserved, hzero, hbytes⟩ := m.write w.engine _ htakes
  have hcount : reqs.length = answers.length := by
    have hsized := (e.sized _ _ _ hserved).length_eq
    rwa [List.length_map] at hsized
  rw [Engine.access_eq_exchange e slots
    (sends_of_isScalar (List.length_pos_iff.mpr hne) hlen fun r hr => (hreqs r hr).1)]
  refine ⟨List.zipWith TagRequest.answered reqs answers,
    ⟨(e.serve w.engine (reqs.map TagRequest.wire)).2, w.log ++ [(reqs.map TagRequest.wire,
      some answers)]⟩, ?_, ?_, ?_, hbytes⟩
  · simp only [Engine.exchange, hserved]
  · rw [List.length_zipWith, ← hcount, Nat.min_self]
  · intro p hp
    rw [← List.map_uncurry_zip_eq_zipWith, List.mem_map] at hp
    obtain ⟨⟨r, a⟩, hra, rfl⟩ := hp
    exact hzero a (List.of_mem_zip hra).2

/-- The loop over the batches stores all of them, and no name fails. -/
theorem BatchStore.writeLoop_stores (m : BatchStore e) (bs : List (List TagRequest))
    (hbs : ∀ reqs ∈ bs, reqs ≠ [] ∧ reqs.length ≤ 16 ∧
      ∀ r ∈ reqs, IsScalar t db.sdk r ∧ m.Takes r)
    (done : List (Name × UInt32)) (hdone : failedNames done = []) (w : World σ) :
    ∃ done' w', writeLoop e slots db bs done w = (done', none, w') ∧ failedNames done' = [] ∧
      m.bytes w'.engine =
        (bs.flatten.map TagRequest.wire).foldl Contents.stored (m.bytes w.engine) := by
  induction bs generalizing done w with
  | nil => exact ⟨done, w, rfl, hdone, rfl⟩
  | cons reqs bs ih =>
      rw [List.forall_mem_cons] at hbs
      obtain ⟨⟨hne, hlen, hreqs⟩, hrest⟩ := hbs
      obtain ⟨results, w', haccess, -, hzero, hbytes⟩ :=
        m.access_stores db slots hne hlen hreqs w
      have hreported : failedNames (done ++ reported results) = [] := by
        have hnone : failedNames (reported results) = [] := by
          rw [failedNames, reported, List.map_eq_nil_iff, List.filter_eq_nil_iff, List.forall_mem_map]
          intro p hp
          simp [hzero p hp]
        rw [failedNames, List.filter_append, List.map_append]
        exact List.append_eq_nil_iff.mpr ⟨hdone, hnone⟩
      obtain ⟨done', w'', hloop, hfailed, hstored⟩ := ih hrest _ hreported w'
      refine ⟨done', w'', ?_, hfailed, ?_⟩
      · rw [writeLoop, haccess]
        exact hloop
      · rw [hstored, hbytes, List.flatten_cons, List.map_append, List.foldl_append]

end Stores

section Reads

variable {σ α : Type} {e : Engine σ} {t : TagTable} (db : TagDb) (slots : Slots)
  (decode : Kind → List UInt8 → α)

def ScalarTag.readIn {sdk : Sdk} (tag : ScalarTag t sdk) (mem : Contents)
    (decode : Kind → List UInt8 → α) : TagResult α :=
  ⟨some (decode tag.kind (firstBytes tag.kind.size (mem tag.name))), 0⟩

/-- The answer of an engine that keeps what it is given. -/
def ScalarTag.kept {sdk : Sdk} (tag : ScalarTag t sdk) (mem : Contents) : Answer :=
  ⟨0, firstBytes tag.kind.size (mem tag.name)⟩

theorem ScalarTag.result_kept {sdk : Sdk} (tag : ScalarTag t sdk) (mem : Contents) :
    tag.result decode (tag.readRequest.answered (tag.kept mem)) = tag.readIn mem decode := by
  rw [tag.result_answered decode (firstBytes_length _ _)]
  rfl

theorem BatchStore.readBatch_held (m : BatchStore e) (hroom : m.Holds t)
    {tags : List (ScalarTag t db.sdk)} (hne : tags ≠ []) (hlen : tags.length ≤ 16) (w : World σ) :
    ∃ w', readBatch e slots t db decode tags w =
        (.ok (tags.map fun tag => tag.readIn (m.bytes w.engine) decode), w') ∧
      m.bytes w'.engine = m.bytes w.engine := by
  have hsends : db.Sends (tags.map (·.readRequest)) := by
    apply sends_of_isScalar (t := t)
    · rw [List.length_map]
      exact List.length_pos_iff.mpr hne
    · rwa [List.length_map]
    · rw [List.forall_mem_map]
      exact fun tag _ => isScalar_readRequest tag
  have hreads : ∀ r ∈ (tags.map (·.readRequest)).map TagRequest.wire,
      r.action = 1 ∧ r.elemByteSize * r.elemCount ≤ m.cap r.tagName := by
    simp only [List.forall_mem_map]
    exact fun tag _ => ⟨rfl, tag.wire_size.trans_le (hroom.size_le tag)⟩
  obtain ⟨hserved, hbytes⟩ := m.read w.engine _ hreads
  have hanswers : (e.serve w.engine ((tags.map (·.readRequest)).map TagRequest.wire)).1 =
      some (tags.map fun tag => tag.kept (m.bytes w.engine)) := by
    rw [hserved, List.map_map, List.map_map]
    refine congrArg some (List.map_congr_left fun tag _ => ?_)
    simp only [Function.comp_apply, tag.wire_size]
    rfl
  refine ⟨after e ((tags.map ScalarTag.readRequest).map TagRequest.wire) w, ?_, hbytes⟩
  rw [after_eq hanswers, readBatch, Engine.access_eq_exchange e slots hsends]
  simp only [Engine.exchange, hanswers, Except.map]
  rw [List.zipWith_map_left, List.zipWith_map_right, List.zipWith_self, List.zipWith_map_right,
    List.zipWith_self]
  simp only [ScalarTag.result_kept]

/-- The loop over the batches reads what the tags hold. -/
theorem BatchStore.readLoop_held (m : BatchStore e) (hroom : m.Holds t)
    (bs : List (List (ScalarTag t db.sdk))) (hbs : ∀ tags ∈ bs, tags ≠ [] ∧ tags.length ≤ 16)
    {p : Progress α} {before : List (ScalarTag t db.sdk)} (w : World σ)
    (h : p.Shows (fun tag => tag.readIn (m.bytes w.engine) decode) before) :
    ∃ p' w', readLoop e slots t db decode bs p w = (p', none, w') ∧
      p'.Shows (fun tag => tag.readIn (m.bytes w.engine) decode) (before ++ bs.flatten) := by
  induction bs generalizing p before w with
  | nil =>
      refine ⟨p, w, rfl, ?_⟩
      rwa [List.flatten_nil, List.append_nil]
  | cons tags bs ih =>
      rw [List.forall_mem_cons] at hbs
      obtain ⟨⟨hne, hlen⟩, hrest⟩ := hbs
      obtain ⟨w', hbatch, hbytes⟩ := m.readBatch_held db slots decode hroom hne hlen w
      have hmerged := h.merge tags
      rw [← hbytes] at hmerged
      obtain ⟨p', w'', hloop, hshows⟩ := ih hrest w' hmerged
      refine ⟨p', w'', ?_, ?_⟩
      · rw [readLoop, hbatch, ← hbytes]
        exact hloop
      · rwa [List.flatten_cons, ← List.append_assoc, ← hbytes]

theorem BatchStore.readAll_held (m : BatchStore e) (hroom : m.Holds t) (view : Scalar → α)
    (hview : ∀ kind b, decode kind b = view (goDecodeScalar kind b)) {cap : Nat} (hpos : 1 ≤ cap)
    (hcap : cap ≤ 16) (tags : List (ScalarTag t db.sdk)) (w : World σ) :
    ∃ p w', readLoop e slots t db decode (batches cap tags) ⟨fun _ => none, []⟩ w = (p, none, w') ∧
      p.failed = [] ∧ ∀ name, p.out name = if name ∈ tags.map (·.name) then
        some ⟨(t.held (m.bytes w.engine) name).map view, 0⟩ else none := by
  have hbs : ∀ batch ∈ batches cap tags, batch ≠ [] ∧ batch.length ≤ 16 := fun batch hbatch =>
    ⟨ne_nil_of_mem_batches hpos hbatch, (length_le_of_mem_batches hbatch).trans hcap⟩
  obtain ⟨p, w', hloop, hshows⟩ := m.readLoop_held db slots decode hroom _ hbs w
    Progress.shows_nil
  rw [List.nil_append, batches_flatten hpos] at hshows
  refine ⟨p, w', hloop, ?_, fun name => ?_⟩
  · rw [hshows.failed, List.map_eq_nil_iff, List.filter_eq_nil_iff]
    intro tag _
    simp [ScalarTag.readIn]
  · by_cases hname : name ∈ tags.map (·.name)
    · obtain ⟨tag, htag, rfl⟩ := List.mem_map.mp hname
      rw [if_pos hname, hshows.each tag htag, tag.held, Option.map_some, ScalarTag.readIn, hview]
    · rw [if_neg hname]
      exact hshows.only name fun tag htag heq => hname (heq ▸ List.mem_map_of_mem htag)

end Reads

/-- What `read_tags` of every SDK gives of known scalars: no failure, and the values, by
position in C and by name in Go and Python. -/
structure ReadsAs {σ : Type} (e : Engine σ) (slots : Slots) (t : TagTable) (w : World σ)
    (value : Name → Option Scalar) : Prop where
  c : ∀ path names, (∀ name ∈ names, t.Knows .c name) → names.length ≤ 16 →
    (bpTagdbReadTags e slots t path names w).1 =
      ⟨none, some (names.map fun name => ⟨value name, 0⟩)⟩
  go : ∀ cap path names, 1 ≤ cap → cap ≤ 16 → (∀ name ∈ names, t.Knows .go name) →
    (goReadTags e slots t cap path names w).1 =
      ⟨fun name => if name ∈ names then some ⟨value name, 0⟩ else none, none⟩
  python : ∀ cap path names, 1 ≤ cap → cap ≤ 16 → (∀ name ∈ names, t.Knows .python name) →
    (pyReadTags e slots t cap path names w).1 =
      .ok fun name => if name ∈ names then some ((value name).map Scalar.toPy) else none

section Members

variable {σ : Type} {e : Engine σ} {t : TagTable}

theorem BatchStore.readsAs (m : BatchStore e) (hroom : m.Holds t) (slots : Slots) (w : World σ) :
    ReadsAs e slots t w (t.held (m.bytes w.engine)) := by
  constructor
  · intro path names hknown hlen
    obtain ⟨tags, hres⟩ := exists_mapM_eq_ok hknown
    obtain ⟨hnames, -⟩ := TagTable.mapM_resolve hres
    unfold bpTagdbReadTags
    by_cases hzero : names.length = 0
    · obtain rfl := List.length_eq_zero_iff.mp hzero
      rw [if_pos hzero]
      rfl
    · have hne : tags ≠ [] := by
        rintro rfl
        exact hzero (by rw [hnames]; rfl)
      have hcount : tags.length ≤ 16 := by
        rwa [hnames, List.length_map] at hlen
      obtain ⟨w', hbatch, -⟩ := m.readBatch_held (.c path) slots cDecodeScalar hroom hne
        hcount w
      have hvalues : (tags.map fun tag => tag.readIn (m.bytes w.engine) cDecodeScalar) =
          names.map fun name => ⟨t.held (m.bytes w.engine) name, 0⟩ := by
        rw [hnames, List.map_map]
        refine List.map_congr_left fun tag _ => ?_
        rw [Function.comp_apply, tag.held, cDecodeScalar_eq]
        rfl
      rw [if_neg hzero, hres]
      simp only [hbatch, hvalues]
      simp
  · intro cap path names hpos hcap hknown
    obtain ⟨tags, hres⟩ := exists_mapM_eq_ok hknown
    obtain ⟨hnames, -⟩ := TagTable.mapM_resolve hres
    obtain ⟨p, w', hloop, hfailed, hout⟩ := m.readAll_held (.go path) slots goDecodeScalar hroom
      id (fun _ _ => rfl) hpos hcap tags w
    unfold goReadTags
    rw [hres]
    simp only [hloop, hfailed, if_true, funext hout, Option.map_id, id_eq, hnames]
  · intro cap path names hpos hcap hknown
    obtain ⟨tags, hres⟩ := exists_mapM_eq_ok hknown
    obtain ⟨hnames, -⟩ := TagTable.mapM_resolve hres
    obtain ⟨p, w', hloop, hfailed, hout⟩ := m.readAll_held (.python path) slots pyDecodeScalar hroom
      Scalar.toPy (fun _ _ => rfl) hpos hcap tags w
    unfold pyReadTags
    rw [hres]
    simp only [hloop, hfailed, if_true, hnames]
    refine congrArg Except.ok (funext fun name => ?_)
    rw [hout]
    split <;> rfl

/-- The requests for pairs that can be written. -/
theorem Gives.requests (m : BatchStore e) (hroom : m.Holds t) {V : Type} {sdk : Sdk}
    {fit : Kind → V → Fit}
    {encode : ScalarTag t sdk → V → Except TagError (Option (List UInt8))}
    (hencodes : Encodes t sdk encode fit) {pairs : List (Name × V)}
    {written : List (Name × Scalar)} (h : Gives t sdk fit pairs written) :
    ∃ reqs, pairs.mapM (prepare t sdk encode) = .ok reqs ∧ reqs.length = pairs.length ∧
      (∀ r ∈ reqs, IsScalar t sdk r ∧ m.Takes r) ∧
      ∀ mem, t.held ((reqs.map TagRequest.wire).foldl Contents.stored mem) =
        assign (t.held mem) written := by
  obtain ⟨reqs, hreqs, hscalars, hcarries⟩ := hencodes.prepareAll h.writable
  refine ⟨reqs, hreqs, hcarries.length_eq.symm, fun r hr => ⟨hscalars r hr, ?_⟩, fun mem => ?_⟩
  · obtain ⟨p, hp, hprepare⟩ := exists_of_mem_mapM hreqs r hr
    obtain ⟨r', hr', -, hcarried⟩ := hencodes.prepare (h.writable p hp)
    cases Except.ok.inj (hprepare.symm.trans hr')
    exact hroom.takes hencodes.kind hcarried
  · exact h.held hencodes.kind (List.forall₂_map_right_iff.mpr hcarries) mem

theorem batches_taken {m : BatchStore e} {sdk : Sdk} {reqs : List TagRequest}
    (h : ∀ r ∈ reqs, IsScalar t sdk r ∧ m.Takes r) : ∀ batch ∈ batches 16 reqs,
      batch ≠ [] ∧ batch.length ≤ 16 ∧ ∀ r ∈ batch, IsScalar t sdk r ∧ m.Takes r := by
  intro batch hbatch
  refine ⟨ne_nil_of_mem_batches (by decide) hbatch, length_le_of_mem_batches hbatch, ?_⟩
  intro r hr
  apply h
  rw [← batches_flatten (n := 16) (l := reqs) (by decide)]
  exact List.mem_flatten_of_mem hbatch hr

theorem bpTagdbWriteTags_wrote (m : BatchStore e) (hroom : m.Holds t) (slots : Slots)
    (path : List UInt8) {pairs : List (Name × BpValue)} {written : List (Name × Scalar)}
    (h : Gives t .c BpValue.fit pairs written) (hlen : pairs.length ≤ 16) (w : World σ) :
    ∃ w', bpTagdbWriteTags e slots t path pairs w =
        (⟨none, some (List.replicate pairs.length 0)⟩, w') ∧
      t.held (m.bytes w'.engine) = assign (t.held (m.bytes w.engine)) written := by
  obtain ⟨reqs, hreqs, hcount, htakes, hheld⟩ := h.requests m hroom cEncodes
  unfold bpTagdbWriteTags
  by_cases hzero : pairs.length = 0
  · obtain rfl := List.length_eq_zero_iff.mp hzero
    obtain rfl := List.length_eq_zero_iff.mp hcount
    rw [if_pos hzero]
    exact ⟨w, rfl, hheld (m.bytes w.engine)⟩
  · have hne : reqs ≠ [] := by
      rintro rfl
      exact hzero hcount.symm
    obtain ⟨results, w', haccess, hresults, hok, hbytes⟩ := m.access_stores (.c path) slots hne
      (hcount.trans_le hlen) htakes w
    have hstatuses : results.map Prod.snd = List.replicate pairs.length 0 := by
      rw [List.eq_replicate_iff, List.length_map, hresults, hcount]
      exact ⟨rfl, List.forall_mem_map.mpr hok⟩
    rw [if_neg hzero]
    simp only [cPrepare, hreqs, haccess, hstatuses]
    refine ⟨w', ?_, hbytes ▸ hheld _⟩
    simp

theorem goWriteTags_wrote (m : BatchStore e) (hroom : m.Holds t) (slots : Slots)
    (path : List UInt8) {pairs : List (Name × GoValue)} {written : List (Name × Scalar)}
    (h : Gives t .go GoValue.fit pairs written) (w : World σ) :
    ∃ w', goWriteTags e slots t path pairs w = (none, w') ∧
      t.held (m.bytes w'.engine) = assign (t.held (m.bytes w.engine)) written := by
  obtain ⟨reqs, hreqs, -, htakes, hheld⟩ := h.requests m hroom goEncodes
  obtain ⟨done, w', hloop, hfailed, hbytes⟩ := m.writeLoop_stores (.go path) slots
    (batches 16 reqs) (batches_taken htakes) [] rfl w
  rw [batches_flatten (by decide)] at hbytes
  unfold goWriteTags
  simp only [goPrepare, hreqs, hloop, hfailed, if_true]
  exact ⟨w', rfl, hbytes ▸ hheld _⟩

theorem pyWriteTags_wrote (m : BatchStore e) (hroom : m.Holds t) (slots : Slots) (path : TagPath)
    {pairs : List (Name × PyValue)} {written : List (Name × Scalar)}
    (h : Gives t .python PyValue.fit pairs written) (w : World σ) :
    ∃ w', pyWriteTags e slots t path pairs w = (none, w') ∧
      t.held (m.bytes w'.engine) = assign (t.held (m.bytes w.engine)) written := by
  obtain ⟨reqs, hreqs, -, htakes, hheld⟩ := h.requests m hroom pyEncodes
  obtain ⟨done, w', hloop, hfailed, hbytes⟩ := m.writeLoop_stores (.python path) slots
    (batches 16 reqs) (batches_taken htakes) [] rfl w
  rw [batches_flatten (by decide)] at hbytes
  unfold pyWriteTags
  simp only [pyPrepare, hreqs, hloop, hfailed, if_true]
  exact ⟨w', rfl, hbytes ▸ hheld _⟩

end Members

/-- Values that any SDK has written to known scalars are what every SDK then reads of
them, of a name that is written again the last one; the other scalars keep what they
have. No call fails. -/
theorem writeTags_read_back {σ : Type} {e : Engine σ} (m : BatchStore e) (t : TagTable)
    (hroom : m.Holds t) (slots : Slots) (w : World σ) (written : List (Name × Scalar)) :
    (∀ path pairs, Gives t .c BpValue.fit pairs written → pairs.length ≤ 16 →
      ∃ w', bpTagdbWriteTags e slots t path pairs w =
          (⟨none, some (List.replicate pairs.length 0)⟩, w') ∧
        ∀ slots', ReadsAs e slots' t w' (assign (t.held (m.bytes w.engine)) written)) ∧
    (∀ path pairs, Gives t .go GoValue.fit pairs written →
      ∃ w', goWriteTags e slots t path pairs w = (none, w') ∧
        ∀ slots', ReadsAs e slots' t w' (assign (t.held (m.bytes w.engine)) written)) ∧
    ∀ path pairs, Gives t .python PyValue.fit pairs written →
      ∃ w', pyWriteTags e slots t path pairs w = (none, w') ∧
        ∀ slots', ReadsAs e slots' t w' (assign (t.held (m.bytes w.engine)) written) := by
  refine ⟨fun path pairs h hlen => ?_, fun path pairs h => ?_, fun path pairs h => ?_⟩
  · obtain ⟨w', hwrite, hheld⟩ := bpTagdbWriteTags_wrote m hroom slots path h hlen w
    exact ⟨w', hwrite, fun slots' => hheld ▸ m.readsAs hroom slots' w'⟩
  · obtain ⟨w', hwrite, hheld⟩ := goWriteTags_wrote m hroom slots path h w
    exact ⟨w', hwrite, fun slots' => hheld ▸ m.readsAs hroom slots' w'⟩
  · obtain ⟨w', hwrite, hheld⟩ := pyWriteTags_wrote m hroom slots path h w
    exact ⟨w', hwrite, fun slots' => hheld ▸ m.readsAs hroom slots' w'⟩

def memoryBatches (cap : List UInt8 → Nat) : BatchStore (memoryEngine cap) where
  cap := cap
  bytes := fun s => s
  write := by
    intro s reqs h
    have hfits : ∀ r ∈ reqs, r.elemByteSize * r.elemCount ≤ cap r.tagName := by
      intro r hr
      obtain ⟨data, hwrite, hle⟩ := h r hr
      exact hwrite.length.symm.trans_le hle
    refine ⟨_, rfl, ?_, ?_⟩
    · rw [List.forall_mem_map]
      exact fun r hr => if_pos (hfits r hr)
    · apply List.foldl_ext
      intro mem r hr
      obtain ⟨data, hwrite, -⟩ := h r hr
      rw [if_pos ⟨hwrite.action, hfits r hr⟩]
      rfl
  read := by
    intro s reqs h
    constructor
    · refine congrArg some (List.map_congr_left fun r hr => ?_)
      rw [if_pos (h r hr).2]
    · apply List.foldlRecOn (motive := fun mem => mem = s) _ _ rfl
      intro mem hmem r hr
      have haction : ¬(r.action = 2 ∧ r.elemByteSize * r.elemCount ≤ cap r.tagName) := by
        rw [(h r hr).1]
        simp
      rw [if_neg haction]
      exact hmem

def pairsXY : List (Name × BpValue) :=
  [(symbolX.name, .scalar (.dint 1)), (symbolY.name, .scalar (.real 0)),
    (symbolX.name, .scalar (.dint 2))]

theorem pairsXY_gives : Gives tableXY .c BpValue.fit pairsXY
    [(symbolX.name, .dint 1), (symbolY.name, .real 0), (symbolX.name, .dint 2)] := by
  obtain ⟨x, hx, hxkind⟩ := tableXY_x .c
  obtain ⟨y, hy, hykind⟩ := tableXY_y .c
  refine .cons ⟨rfl, x, hx, ?_⟩ (.cons ⟨rfl, y, hy, ?_⟩ (.cons ⟨rfl, x, hx, ?_⟩ .nil))
  · rw [hxkind]
    rfl
  · rw [hykind]
    rfl
  · rw [hxkind]
    rfl

/-- Go reads 2 of `x`. -/
theorem writeTags_read_back_xy :
    ∃ w', bpTagdbWriteTags (memoryEngine fun _ => 8) clearSlots tableXY [0x50] pairsXY
        ⟨fun _ _ => 0, []⟩ = (⟨none, some [0, 0, 0]⟩, w') ∧
      (goReadTags (memoryEngine fun _ => 8) clearSlots tableXY 16 [0x50] [symbolX.name] w').1.results
        symbolX.name = some ⟨some (.dint 2), 0⟩ := by
  have hroom : (memoryBatches fun _ => 8).Holds tableXY := by
    intro sym hsym
    rcases List.mem_pair.mp hsym with rfl | rfl <;> decide
  obtain ⟨hc, -, -⟩ := writeTags_read_back (memoryBatches fun _ => 8) tableXY hroom clearSlots
    ⟨fun _ _ => 0, []⟩ _
  obtain ⟨w', hwrite, hreads⟩ := hc [0x50] pairsXY pairsXY_gives (by decide)
  refine ⟨w', hwrite, ?_⟩
  have hknown : ∀ name ∈ [symbolX.name], tableXY.Knows .go name := by
    rw [List.forall_mem_singleton]
    exact tableXY_knows .go _ List.mem_cons_self
  rw [(hreads clearSlots).go 16 [0x50] _ (by decide) le_rfl hknown]
  rfl

end BpClient.Multi
