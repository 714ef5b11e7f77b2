import BpClient.Multi.Write

/-!
`write_tags` with pairs that cannot be written: whether the call fails as out of
range before it sends anything. What gets in the way is a number that is too
large for its float type: Go writes an infinity, Python raises `OverflowError`.
-/

namespace BpClient.Multi

open BpClient.Lib
open BpClient.Slot (Sdk)
open BpClient.Tag

/-- A known scalar with a number that is too large for it as a float. -/
def Overflows {V : Type} (t : TagTable) (sdk : Sdk) (fit : Kind → V → Fit) (p : Name × V) : Prop :=
  ∃ tag, t.resolve sdk p.1 = .ok tag ∧ fit tag.kind p.2 = .overflow

section Pairs

variable {V : Type} {t : TagTable} {sdk : Sdk} {fit : Kind → V → Fit} {p : Name × V}

theorem not_writable_of_error (fit : Kind → V → Fit) {err : TagError}
    (h : t.resolve sdk p.1 = .error err) :
    ¬ Writable t sdk fit p ∧ ¬ Overflows t sdk fit p := by
  constructor
  · rintro ⟨tag, s, htag, -⟩
    rw [h] at htag
    cases htag
  · rintro ⟨tag, htag, -⟩
    rw [h] at htag
    cases htag

theorem writable_iff {tag : ScalarTag t sdk} (h : t.resolve sdk p.1 = .ok tag) :
    Writable t sdk fit p ↔ ∃ s, fit tag.kind p.2 = .scalar s := by
  constructor
  · rintro ⟨tag', s, htag, hfit⟩
    cases Except.ok.inj (h.symm.trans htag)
    exact ⟨s, hfit⟩
  · rintro ⟨s, hfit⟩
    exact ⟨tag, s, h, hfit⟩

theorem Overflows.not_writable (h : Overflows t sdk fit p) : ¬ Writable t sdk fit p := by
  obtain ⟨tag, htag, hfit⟩ := h
  rintro ⟨tag', s, htag', hscalar⟩
  cases Except.ok.inj (htag.symm.trans htag')
  rw [hfit] at hscalar
  cases hscalar

theorem overflows_iff {tag : ScalarTag t sdk} (h : t.resolve sdk p.1 = .ok tag) :
    Overflows t sdk fit p ↔ fit tag.kind p.2 = .overflow := by
  constructor
  · rintro ⟨tag', htag, hfit⟩
    cases Except.ok.inj (h.symm.trans htag)
    exact hfit
  · intro hfit
    exact ⟨tag, h, hfit⟩

end Pairs

section Cases

variable {t : TagTable}

/-- A pair in C: written, or out of range. -/
theorem cPrepare_cases (p : Name × BpValue) :
    (Writable t .c BpValue.fit p ∧ ∃ r, cPrepare t p = .ok r) ∨
      (¬ Writable t .c BpValue.fit p ∧ cPrepare t p = .error .paramRange) := by
  cases hres : t.resolve .c p.1 with
  | error err => exact .inr ⟨(not_writable_of_error BpValue.fit hres).1, prepare_of_error _ hres⟩
  | ok tag =>
      have hprepare := prepare_of_resolve (p := p)
        (fun tag v => .ok (cEncode tag.kind tag.sym.elemByteSize v)) hres
      rw [writable_iff hres, cPrepare, hprepare, cEncode_eq tag.size_eq]
      cases hfit : p.2.fit tag.kind with
      | scalar s => exact .inl ⟨⟨s, rfl⟩, _, rfl⟩
      | overflow => exact .inr ⟨by simp, rfl⟩
      | misfit => exact .inr ⟨by simp, rfl⟩

/-- A pair in Go: sent, also when it is too large, or out of range. -/
theorem goPrepare_cases (p : Name × GoValue) :
    ((Writable t .go GoValue.fit p ∨ Overflows t .go GoValue.fit p) ∧
        ∃ r, goPrepare t p = .ok r ∧ IsScalar t .go r) ∨
      (¬ Writable t .go GoValue.fit p ∧ ¬ Overflows t .go GoValue.fit p ∧
        goPrepare t p = .error .paramRange) := by
  cases hres : t.resolve .go p.1 with
  | error err =>
      obtain ⟨hwritable, hoverflows⟩ := not_writable_of_error GoValue.fit hres
      exact .inr ⟨hwritable, hoverflows, prepare_of_error _ hres⟩
  | ok tag =>
      have hprepare := prepare_of_resolve (p := p)
        (fun tag v => .ok (goEncodeForKind tag.kind v)) hres
      rw [writable_iff hres, overflows_iff hres, goPrepare, hprepare]
      rcases goEncodeForKind_eq tag.kind p.2 with ⟨hover, hencode⟩ | ⟨hover, b, hencode, hlen⟩
      · rw [hencode]
        cases hfit : p.2.fit tag.kind with
        | scalar s =>
            have hlen : s.bytes.length = tag.kind.size := by
              rw [s.bytes_length, GoValue.fit_kind hfit]
            exact .inl ⟨.inl ⟨s, rfl⟩, _, rfl, tag, actionWrite, s.bytes, rfl, .inr rfl, hlen⟩
        | overflow => exact absurd hfit hover
        | misfit => exact .inr ⟨by simp, Fit.noConfusion, rfl⟩
      · rw [hencode]
        exact .inl ⟨.inr hover, _, rfl, tag, actionWrite, b, rfl, .inr rfl, hlen⟩

/-- A bad pair that Python refuses as out of range. -/
def PyRefusable (t : TagTable) (p : Name × PyValue) : Prop :=
  p.1 ≠ [] ∧ ¬ Writable t .python PyValue.fit p ∧ ¬ Overflows t .python PyValue.fit p

/-- A pair in Python: written, out of range, or raised as something else. -/
theorem pyPrepare_cases (p : Name × PyValue) :
    (Writable t .python PyValue.fit p ∧ ∃ r, pyPrepare t p = .ok r) ∨
      (PyRefusable t p ∧ pyPrepare t p = .error .paramRange) ∨
      (¬ Writable t .python PyValue.fit p ∧ ¬ PyRefusable t p ∧
        ∃ err, pyPrepare t p = .error err ∧ err ≠ .paramRange) := by
  cases hres : t.resolve .python p.1 with
  | error err =>
      obtain ⟨hwritable, hoverflows⟩ := not_writable_of_error PyValue.fit hres
      have hprepare : pyPrepare t p = .error (lookupError .python p.1) := prepare_of_error _ hres
      rw [lookupError] at hprepare
      by_cases hempty : p.1 = []
      · rw [if_pos ⟨rfl, hempty⟩] at hprepare
        exact .inr (.inr ⟨hwritable, fun h => h.1 hempty, _, hprepare, TagError.noConfusion⟩)
      · rw [if_neg fun h => hempty h.2] at hprepare
        exact .inr (.inl ⟨⟨hempty, hwritable, hoverflows⟩, hprepare⟩)
  | ok tag =>
      have hname : p.1 ≠ [] := by
        intro hempty
        have hfound := tag.found
        rw [TagTable.resolve_name hres, hempty] at hfound
        cases hfound
      have hprepare := prepare_of_resolve (p := p)
        (fun tag v => pyEncodeForKind tag.kind v) hres
      rw [PyRefusable, writable_iff hres, overflows_iff hres, pyPrepare, hprepare,
        pyEncodeForKind_eq]
      cases hfit : p.2.fit tag.kind with
      | scalar s => exact .inl ⟨⟨s, rfl⟩, _, rfl⟩
      | overflow =>
          exact .inr (.inr ⟨by simp, fun h => h.2.2 rfl, _, rfl,
            TagError.noConfusion⟩)
      | misfit =>
          exact .inr (.inl ⟨⟨hname, by simp, Fit.noConfusion⟩, rfl⟩)

/-- C and Go fail as out of range only. -/
theorem cPrepare_error {p : Name × BpValue} {err : TagError} (h : cPrepare t p = .error err) :
    err = .paramRange := by
  rcases cPrepare_cases (t := t) p with ⟨-, r, hr⟩ | ⟨-, herr⟩
  · rw [hr] at h
    cases h
  · rw [herr] at h
    exact (Except.error.inj h).symm

theorem goPrepare_error {p : Name × GoValue} {err : TagError} (h : goPrepare t p = .error err) :
    err = .paramRange := by
  rcases goPrepare_cases (t := t) p with ⟨-, r, hr, -⟩ | ⟨-, -, herr⟩
  · rw [hr] at h
    cases h
  · rw [herr] at h
    exact (Except.error.inj h).symm

theorem pyPrepare_ok_iff (p : Name × PyValue) :
    (∃ r, pyPrepare t p = .ok r) ↔ Writable t .python PyValue.fit p := by
  rcases pyPrepare_cases (t := t) p with
    ⟨hgood, hr⟩ | ⟨⟨-, hbad, -⟩, herr⟩ | ⟨hbad, -, err, herr, -⟩
  · exact iff_of_true hr hgood
  · rw [herr]
    exact iff_of_false (by simp) hbad
  · rw [herr]
    exact iff_of_false (by simp) hbad

theorem pyPrepare_paramRange_iff (p : Name × PyValue) :
    pyPrepare t p = .error .paramRange ↔ PyRefusable t p := by
  rcases pyPrepare_cases (t := t) p with ⟨hgood, r, hr⟩ | ⟨hbad, herr⟩ | ⟨-, hbad, err, herr, hne⟩
  · rw [hr]
    exact iff_of_false (by simp) fun h => h.2.1 hgood
  · exact iff_of_true herr hbad
  · rw [herr]
    exact iff_of_false (fun h => hne (Except.error.inj h)) hbad

end Cases

/-- What `write_tags` is to do with a pair that cannot be written: it sends
nothing and fails as out of range. -/
def Refuses {σ V E : Type} (t : TagTable) (sdk : Sdk) (fit : Kind → V → Fit) (w : World σ)
    (outOfRange : E) (pairs : List (Name × V)) (r : Option E × World σ) : Prop :=
  (∃ p ∈ pairs, ¬ Writable t sdk fit p) → r = (some outOfRange, w)

section Members

variable {σ : Type} {e : Engine σ} {slots : Slots} {t : TagTable}

/-- The loop over the batches fails only as the engine does. -/
theorem writeLoop_error {db : TagDb} (bs : List (List TagRequest))
    (hbs : ∀ reqs ∈ bs, reqs ≠ [] ∧ reqs.length ≤ 16 ∧ ∀ r ∈ reqs, IsScalar t db.sdk r)
    (done : List (Name × UInt32)) (w : World σ) {err : TagError}
    (h : (writeLoop e slots db bs done w).2.1 = some err) : err = .engine := by
  induction bs generalizing done w with
  | nil => cases h
  | cons reqs bs ih =>
      rw [List.forall_mem_cons] at hbs
      obtain ⟨⟨hne, hlen, hreqs⟩, hrest⟩ := hbs
      have hsends := sends_of_isScalar (List.length_pos_iff.mpr hne) hlen hreqs
      rw [writeLoop, Engine.access_eq_exchange e slots hsends, Engine.exchange] at h
      cases hserved : (e.serve w.engine (reqs.map TagRequest.wire)).1 with
      | none =>
          simp only [hserved] at h
          exact (Option.some.inj h).symm
      | some answers =>
          simp only [hserved] at h
          exact ih hrest _ _ h

/-- C refuses whatever cannot be written. -/
theorem bpTagdbWriteTags_validates (path : List UInt8) (pairs : List (Name × BpValue))
    (w : World σ) : Refuses t .c BpValue.fit w .paramRange pairs
      ((bpTagdbWriteTags e slots t path pairs w).map CWrite.rc id) := by
  rintro ⟨p, hp, hbad⟩
  have hfails : cPrepare t p = .error .paramRange :=
    ((cPrepare_cases p).resolve_left fun h => hbad h.1).2
  have hprepare : pairs.mapM (cPrepare t) = .error .paramRange :=
    mapM_eq_error hp hfails fun q _ err => cPrepare_error
  have hne : pairs.length ≠ 0 := (List.length_pos_of_mem hp).ne'
  rw [bpTagdbWriteTags, if_neg hne, hprepare]
  rfl

/-- Go sends the requests when all bad pairs are bad for their size. -/
theorem goWriteTags_sends (path : List UInt8) {pairs : List (Name × GoValue)}
    (h : ∀ p ∈ pairs, ¬ Writable t .go GoValue.fit p → Overflows t .go GoValue.fit p)
    (w : World σ) : (goWriteTags e slots t path pairs w).1 ≠ some (.wraps .paramRange) := by
  have hsent : ∀ p ∈ pairs, ∃ r, goPrepare t p = .ok r ∧ IsScalar t .go r := by
    intro p hp
    rcases goPrepare_cases (t := t) p with ⟨-, hr⟩ | ⟨hbad, hfits, -⟩
    · exact hr
    · exact absurd (h p hp hbad) hfits
  obtain ⟨reqs, hreqs⟩ := exists_mapM_eq_ok fun p hp => (hsent p hp).imp fun _ hr => hr.1
  have hscalars : ∀ r ∈ reqs, IsScalar t .go r := by
    intro r hr
    obtain ⟨p, hp, hprepare⟩ := exists_of_mem_mapM hreqs r hr
    obtain ⟨r', hr', hscalar⟩ := hsent p hp
    rw [hprepare] at hr'
    cases hr'
    exact hscalar
  have herror : ∀ err, (writeLoop e slots (.go path) (batches 16 reqs) [] w).2.1 = some err →
      err = .engine :=
    fun err => writeLoop_error (batches 16 reqs) (batches_isScalar hscalars) [] w
  rw [goWriteTags, hreqs]
  simp only
  split
  · next err w' hloop =>
      rw [hloop] at herror
      rw [herror err rfl]
      simp
  · split <;> simp

/-- Go refuses when some pair is bad for another reason than its size. -/
theorem goWriteTags_validates_iff (path : List UInt8) (pairs : List (Name × GoValue))
    (w : World σ) :
    Refuses t .go GoValue.fit w (.wraps .paramRange) pairs (goWriteTags e slots t path pairs w) ↔
      ((∃ p ∈ pairs, ¬ Writable t .go GoValue.fit p) →
        ∃ p ∈ pairs, ¬ Writable t .go GoValue.fit p ∧ ¬ Overflows t .go GoValue.fit p) := by
  refine imp_congr_right fun _ => ⟨fun hrefused => ?_, fun ⟨p, hp, hbad, hfits⟩ => ?_⟩
  · by_contra hnone
    push Not at hnone
    exact goWriteTags_sends path hnone w (congrArg Prod.fst hrefused)
  · have hfails : goPrepare t p = .error .paramRange := by
      rcases goPrepare_cases (t := t) p with ⟨hgood, -⟩ | ⟨-, -, hfails⟩
      · exact absurd hgood (not_or.mpr ⟨hbad, hfits⟩)
      · exact hfails
    have hprepare : pairs.mapM (goPrepare t) = .error .paramRange :=
      mapM_eq_error hp hfails fun q _ err => goPrepare_error
    rw [goWriteTags, hprepare]

/-- Python refuses as the first bad pair says. -/
theorem pyWriteTags_validates_iff (path : TagPath) (pairs : List (Name × PyValue)) (w : World σ) :
    Refuses t .python PyValue.fit w (.raised .paramRange) pairs
        (pyWriteTags e slots t path pairs w) ↔
      ((∃ p ∈ pairs, ¬ Writable t .python PyValue.fit p) →
        ∃ front p back, pairs = front ++ p :: back ∧
          (∀ q ∈ front, Writable t .python PyValue.fit q) ∧ PyRefusable t p) := by
  have hloop : pairs.mapM (pyPrepare t) = .error .paramRange ↔
      ∃ front p back, pairs = front ++ p :: back ∧
        (∀ q ∈ front, Writable t .python PyValue.fit q) ∧ PyRefusable t p := by
    simp only [mapM_eq_error_iff, pyPrepare_ok_iff, pyPrepare_paramRange_iff]
  refine imp_congr_right fun ⟨bad, hmem, hbad⟩ => ?_
  rw [← hloop, pyWriteTags]
  cases hprepare : pairs.mapM (pyPrepare t) with
  | ok reqs => exact absurd ((pyPrepare_ok_iff bad).mp (eq_ok_of_mapM_eq_ok hprepare bad hmem)) hbad
  | error err =>
      constructor
      · intro h
        cases h
        rfl
      · intro h
        cases h
        rfl

end Members

/-- Pairs that cannot be written keep everything from being sent: always in C; in
Go unless all of them are too large for a REAL; in Python unless the first of
them is too large for its float type, or has an empty name. -/
theorem writeTags_validates_iff {σ : Type} (e : Engine σ) (slots : Slots) (t : TagTable)
    (w : World σ) :
    (∀ path pairs, Refuses t .c BpValue.fit w .paramRange pairs
      ((bpTagdbWriteTags e slots t path pairs w).map CWrite.rc id)) ∧
    (∀ path pairs, Refuses t .go GoValue.fit w (.wraps .paramRange) pairs
        (goWriteTags e slots t path pairs w) ↔
      ((∃ p ∈ pairs, ¬ Writable t .go GoValue.fit p) →
        ∃ p ∈ pairs, ¬ Writable t .go GoValue.fit p ∧ ¬ Overflows t .go GoValue.fit p)) ∧
    (∀ path pairs, Refuses t .python PyValue.fit w (.raised .paramRange) pairs
        (pyWriteTags e slots t path pairs w) ↔
      ((∃ p ∈ pairs, ¬ Writable t .python PyValue.fit p) →
        ∃ front p back, pairs = front ++ p :: back ∧
          (∀ q ∈ front, Writable t .python PyValue.fit q) ∧ PyRefusable t p)) :=
  ⟨fun path pairs => bpTagdbWriteTags_validates path pairs w,
    fun path pairs => goWriteTags_validates_iff path pairs w,
    fun path pairs => pyWriteTags_validates_iff path pairs w⟩

def large : UInt64 := 0x48078287F49C4A1D

theorem overflows32_large : overflows32 large = true := by decide +kernel

theorem overflows_y {V : Type} {fit : Kind → V → Fit} (sdk : Sdk) {v : V}
    (h : fit .real v = .overflow) : Overflows tableXY sdk fit (symbolY.name, v) := by
  obtain ⟨tag, htag, hkind⟩ := tableXY_y sdk
  exact ⟨tag, htag, hkind ▸ h⟩

def largeY : List (Name × GoValue) := [(symbolY.name, some (.lreal large))]

/-- Go writes `+Inf` for a number that is too large. -/
theorem writeTags_not_refused :
    ¬ Refuses tableXY .go GoValue.fit ⟨(), []⟩ (.wraps .paramRange) largeY
        (goWriteTags sevens.engine clearSlots tableXY [0x50] largeY ⟨(), []⟩) ∧
      ∃ batch ∈ (goWriteTags sevens.engine clearSlots tableXY [0x50] largeY ⟨(), []⟩).2.log,
        ∃ r ∈ batch.1, r.tagName = symbolY.name ∧ r.action = 2 ∧
          r.data = some [0, 0, 0x80, 0x7F] := by
  have hover : Overflows tableXY .go GoValue.fit (symbolY.name, some (.lreal large)) := by
    apply overflows_y
    rw [GoValue.fit, if_pos overflows32_large]
  obtain ⟨tag, htag, hkind⟩ := tableXY_y .go
  have hencode : goEncodeForKind tag.kind (some (.lreal large)) = some [0, 0, 0x80, 0x7F] := by
    rw [hkind]
    decide +kernel
  have hprepare : largeY.mapM (goPrepare tableXY) =
      .ok [tag.request actionWrite [0, 0, 0x80, 0x7F]] := by
    refine mapM_eq_ok_iff.mpr (.cons ?_ .nil)
    rw [goPrepare, prepare_of_resolve _ htag, hencode]
    rfl
  have hscalars : ∀ r ∈ [tag.request actionWrite [0, 0, 0x80, 0x7F]], IsScalar tableXY .go r := by
    rw [List.forall_mem_singleton]
    exact ⟨tag, actionWrite, _, rfl, .inr rfl, by rw [hkind]; rfl⟩
  obtain ⟨served, done, w, hloop, hlog, hserved⟩ := writeLoop_served clearSlots (.go [0x50])
    sevens_accepts _ (batches_isScalar hscalars) [] ⟨(), []⟩
  have hwritten : (goWriteTags sevens.engine clearSlots tableXY [0x50] largeY ⟨(), []⟩).2.log =
      served := by
    unfold goWriteTags
    simp only [hprepare, hloop]
    exact hlog
  rw [hwritten]
  have hrequests : served.map (·.1) =
      [[(tag.request actionWrite [0, 0, 0x80, 0x7F]).wire]] := by
    rw [hserved.requests, batches_of_length_le (List.cons_ne_nil _ _) (by simp)]
    rfl
  obtain ⟨batch, rfl, hbatch⟩ := List.map_eq_singleton_iff.mp hrequests
  constructor
  · intro hrefused
    have hnone := hrefused ⟨_, List.mem_singleton_self _, hover.not_writable⟩
    rw [hnone] at hwritten
    exact absurd hwritten (List.cons_ne_nil _ _).symm
  · refine ⟨batch, List.mem_singleton_self _, ?_⟩
    rw [hbatch]
    refine ⟨_, List.mem_singleton_self _, TagTable.resolve_name htag, rfl, rfl⟩

end BpClient.Multi
