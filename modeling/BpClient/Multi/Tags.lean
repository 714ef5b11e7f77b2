import BpClient.Lib.FirstError
import BpClient.Multi.Scalar
import BpClient.Symbols.Rebuild
import BpClient.Tag.Exchange
import Mathlib.Algebra.Order.BigOperators.Group.List
import Mathlib.Algebra.Order.Ring.Nat
import Mathlib.Algebra.Group.Action.Defs

/-!
The tags of `read_tags` and `write_tags`: each name is looked up and classified
before anything is sent.
-/

namespace BpClient.Multi

open BpClient.Lib
open BpClient.Slot (Sdk)
open BpClient.Symbols (Build SymbolInfo)
open BpClient.Tag

abbrev Name := List UInt8

/-- The symbols of a build as the SDKs take them from the engine: a name ends
before its first zero byte, and at 99 bytes. -/
structure TagTable where
  build : Build
  nul_free : ∀ sym ∈ build.table.symbols, 0 ∉ sym.name
  name_le : ∀ sym ∈ build.table.symbols, sym.name.length ≤ 99

/-- `encode("ascii", "strict")` does not raise. -/
def ascii (name : Name) : Bool := name.all (· < 0x80)

/-- `bp_tagdb_lookup_symbol`, `LookupSymbol` and `lookup_symbol` while the build
stands, for a path that has a cache and an engine that answers: C's
`BP_ERR_CLIENT_OPEN` for a ninth path and the errors of `symbol_at` are left out.
Python takes an empty name for a missing argument, and has replaced what is not
ASCII in the names of the symbols. -/
def TagTable.lookupSymbol (t : TagTable) (name : Name) : Sdk → Except TagError SymbolInfo
  | .c | .go => (t.build.lookup name).elim (.error .paramRange) .ok
  | .python =>
      if name = [] then .error .nullArg
      else if ascii name then (t.build.lookup name).elim (.error .paramRange) .ok
      else .error .paramRange

/-- A tag that has been resolved: a scalar of one of the kinds. -/
structure ScalarTag (t : TagTable) (sdk : Sdk) where
  name : Name
  sym : SymbolInfo
  kind : Kind
  found : t.lookupSymbol name sdk = .ok sym
  plain : sym.dim0 = 0 ∧ sym.structType = 0
  kind_eq : kindForAtomic sym.dataType sym.elemByteSize = some kind

/-- The checks on a name before any call. -/
def TagTable.resolve (t : TagTable) (sdk : Sdk) (name : Name) :
    Except TagError (ScalarTag t sdk) :=
  match hfound : t.lookupSymbol name sdk with
  | .error e => .error e
  | .ok sym =>
      if hplain : sym.dim0 = 0 ∧ sym.structType = 0 then
        match hkind : kindForAtomic sym.dataType sym.elemByteSize with
        | none => .error .paramRange
        | some kind => .ok ⟨name, sym, kind, hfound, hplain, hkind⟩
      else .error .paramRange

def TagTable.Knows (t : TagTable) (sdk : Sdk) (name : Name) : Prop :=
  ∃ tag, t.resolve sdk name = .ok tag

section Resolve

variable {t : TagTable} {sdk : Sdk} {name : Name}

theorem TagTable.resolve_name {tag : ScalarTag t sdk} (h : t.resolve sdk name = .ok tag) :
    tag.name = name := by
  unfold TagTable.resolve at h
  split at h
  · cases h
  · split at h
    · split at h
      · cases h
      · cases h
        rfl
    · cases h

theorem TagTable.resolve_of (sym : SymbolInfo) {kind : Kind}
    (hfound : t.lookupSymbol name sdk = .ok sym) (hplain : sym.dim0 = 0 ∧ sym.structType = 0)
    (hkind : kindForAtomic sym.dataType sym.elemByteSize = some kind) :
    ∃ tag, t.resolve sdk name = .ok tag ∧ tag.kind = kind := by
  cases h : t.resolve sdk name with
  | ok tag =>
      have hname := TagTable.resolve_name h
      have hsym : tag.sym = sym := Except.ok.inj (tag.found.symm.trans (hname ▸ hfound))
      have htag := tag.kind_eq
      rw [hsym, hkind] at htag
      exact ⟨tag, rfl, (Option.some.inj htag).symm⟩
  | error e =>
      unfold TagTable.resolve at h
      split at h
      · next herror =>
          rw [hfound] at herror
          cases herror
      · next sym' hok =>
          cases Except.ok.inj (hfound.symm.trans hok)
          rw [dif_pos hplain] at h
          split at h
          · next hnone =>
              rw [hkind] at hnone
              cases hnone
          · cases h

/-- A tag is what its name resolves to. -/
theorem TagTable.resolve_tag (t : TagTable) (tag : ScalarTag t sdk) :
    t.resolve sdk tag.name = .ok tag := by
  obtain ⟨name, sym, kind, hfound, hplain, hkind⟩ := tag
  obtain ⟨tag, htag, rfl⟩ := TagTable.resolve_of sym hfound hplain hkind
  obtain rfl : tag.name = name := TagTable.resolve_name htag
  obtain rfl : tag.sym = sym := Except.ok.inj (tag.found.symm.trans hfound)
  exact htag

/-- The tags of a list of names, in order. -/
theorem TagTable.mapM_resolve {names : List Name} {tags : List (ScalarTag t sdk)}
    (h : names.mapM (t.resolve sdk) = .ok tags) :
    names = tags.map (·.name) ∧ ∀ tag ∈ tags, t.resolve sdk tag.name = .ok tag := by
  have hall := mapM_eq_ok_iff.mp h
  clear h
  induction hall with
  | nil => exact ⟨rfl, fun tag htag => absurd htag List.not_mem_nil⟩
  | cons hhead _ ih =>
      obtain ⟨hnames, htags⟩ := ih
      have hname := TagTable.resolve_name hhead
      refine ⟨by rw [List.map_cons, hname, ← hnames], ?_⟩
      rw [List.forall_mem_cons, hname]
      exact ⟨hhead, htags⟩

theorem TagTable.lookup_of_ok {sym : SymbolInfo} (h : t.lookupSymbol name sdk = .ok sym) :
    t.build.lookup name = some sym ∧ (sdk = .python → ascii name = true) := by
  have hfound : ∀ {o : Option SymbolInfo},
      o.elim (.error .paramRange) .ok = (.ok sym : Except TagError SymbolInfo) → o = some sym := by
    intro o ho
    cases o with
    | none => cases ho
    | some sym' =>
        cases ho
        rfl
  cases sdk with
  | c => exact ⟨hfound h, fun hsdk => Sdk.noConfusion hsdk⟩
  | go => exact ⟨hfound h, fun hsdk => Sdk.noConfusion hsdk⟩
  | python =>
      simp only [TagTable.lookupSymbol] at h
      split at h
      · cases h
      · split at h
        · next hascii => exact ⟨hfound h, fun _ => hascii⟩
        · cases h

/-- Why a name is not found. -/
def lookupError (sdk : Sdk) (name : Name) : TagError :=
  if sdk = .python ∧ name = [] then .nullArg else .paramRange

theorem TagTable.lookup_error {e : TagError} (h : t.lookupSymbol name sdk = .error e) :
    e = lookupError sdk name := by
  have hmissing : ∀ {o : Option SymbolInfo},
      o.elim (.error .paramRange) .ok = (.error e : Except TagError SymbolInfo) →
        e = .paramRange := by
    intro o ho
    cases o with
    | none =>
        cases ho
        rfl
    | some sym => cases ho
  unfold lookupError
  cases sdk with
  | c => exact hmissing h
  | go => exact hmissing h
  | python =>
      simp only [TagTable.lookupSymbol] at h
      split at h
      · next hempty =>
          cases h
          rw [if_pos ⟨rfl, hempty⟩]
      · next hempty =>
          rw [if_neg fun hboth => hempty hboth.2]
          split at h
          · exact hmissing h
          · cases h
            rfl

/-- A name that is not resolved is out of range, or in Python empty. -/
theorem TagTable.resolve_error {e : TagError} (h : t.resolve sdk name = .error e) :
    e = lookupError sdk name := by
  unfold TagTable.resolve at h
  split at h
  · next hlookup =>
      cases h
      exact TagTable.lookup_error hlookup
  · next sym hlookup =>
      have hrange : lookupError sdk name = .paramRange := by
        unfold lookupError
        rw [if_neg]
        rintro ⟨rfl, rfl⟩
        cases hlookup
      rw [hrange]
      split at h
      · split at h
        · cases h
          rfl
        · cases h
      · cases h
        rfl

end Resolve

namespace ScalarTag

variable {t : TagTable} {sdk : Sdk} (tag : ScalarTag t sdk)

theorem mem_symbols : tag.sym ∈ t.build.table.symbols ∧ tag.sym.name = tag.name := by
  have hlookup := (TagTable.lookup_of_ok tag.found).1
  have hname := List.find?_some hlookup
  exact ⟨List.mem_of_find?_eq_some hlookup, by simpa using hname⟩

theorem nul_free : 0 ∉ tag.name := by
  obtain ⟨hmem, hname⟩ := tag.mem_symbols
  rw [← hname]
  exact t.nul_free _ hmem

theorem name_le : tag.name.length ≤ 99 := by
  obtain ⟨hmem, hname⟩ := tag.mem_symbols
  rw [← hname]
  exact t.name_le _ hmem

theorem size_eq : tag.sym.elemByteSize.toNat = tag.kind.size :=
  of_decide_eq_true (Option.filter_eq_some_iff.mp tag.kind_eq).2

/-- The size of a scalar fits the field of a request. -/
theorem size_toNat : tag.sym.elemByteSize.toUInt16.toNat = tag.kind.size := by
  have hle : tag.kind.size ≤ 8 := by
    cases tag.kind <;> decide
  rw [UInt32.toNat_toUInt16, tag.size_eq, Nat.mod_eq_of_lt (by omega)]

def request (action : UInt16) (data : List UInt8) : TagRequest where
  tagName := tag.name
  dataType := tag.sym.dataType
  elemByteSize := tag.sym.elemByteSize.toUInt16
  action := action
  elemCount := 1
  data := some data

theorem request_size (action : UInt16) (data : List UInt8) :
    (tag.request action data).elemByteSize.toNat * (tag.request action data).elemCount.toNat =
      tag.kind.size := by
  have hone : (tag.request action data).elemCount.toNat = 1 := rfl
  rw [hone, Nat.mul_one]
  exact tag.size_toNat

end ScalarTag

def IsScalar (t : TagTable) (sdk : Sdk) (r : TagRequest) : Prop :=
  ∃ (tag : ScalarTag t sdk) (action : UInt16) (data : List UInt8),
    r = tag.request action data ∧ (action = actionRead ∨ action = actionWrite) ∧
      data.length = tag.kind.size

section Requests

variable {t : TagTable} {db : TagDb} {r : TagRequest} {reqs : List TagRequest}

theorem IsScalar.full {sdk : Sdk} (h : IsScalar t sdk r) : r.Full := by
  obtain ⟨tag, action, data, rfl, -, hdata⟩ := h
  exact ⟨data, rfl, hdata.trans (tag.request_size action data).symm⟩

theorem IsScalar.sendable {sdk : Sdk} (h : IsScalar t sdk r) : r.Sendable := by
  obtain ⟨data, hdata, hlen⟩ := h.full
  obtain ⟨tag, action, _, rfl, haction, -⟩ := h
  exact ⟨tag.nul_free, tag.name_le.trans (by decide), haction, fun _ => ⟨data, hdata, hlen⟩⟩

theorem IsScalar.size_le {sdk : Sdk} (h : IsScalar t sdk r) :
    r.elemByteSize.toNat * r.elemCount.toNat ≤ 8 := by
  obtain ⟨tag, action, data, rfl, -, -⟩ := h
  rw [tag.request_size]
  cases tag.kind <;> decide

/-- Up to 16 requests for scalars can be sent in one call. -/
theorem sends_of_isScalar (hpos : 1 ≤ reqs.length) (hlen : reqs.length ≤ 16)
    (h : ∀ r ∈ reqs, IsScalar t db.sdk r) : db.Sends reqs where
  pos := hpos
  length_le := hlen
  sendable := fun r hr => (h r hr).sendable
  full := fun r hr => (h r hr).full
  ascii := by
    intro hpython r hr
    obtain ⟨tag, action, data, rfl, -, -⟩ := h r hr
    exact (TagTable.lookup_of_ok tag.found).2 hpython
  fits := by
    have hsum : (reqs.map fun r => r.elemByteSize.toNat * r.elemCount.toNat).sum ≤
        (reqs.map fun r => r.elemByteSize.toNat * r.elemCount.toNat).length • 8 := by
      apply List.sum_le_card_nsmul
      intro n hn
      obtain ⟨r, hr, rfl⟩ := List.mem_map.mp hn
      exact (h r hr).size_le
    have htotal : (cAccess []).trueTotal reqs = 0x2A0 + (reqs.length - 1) * 0x120 +
        (reqs.map fun r => r.elemByteSize.toNat * r.elemCount.toNat).sum := rfl
    rw [List.length_map, smul_eq_mul] at hsum
    simp only [slotStride]
    omega

end Requests

def symbolX : SymbolInfo := { name := [0x78], dataType := 0xC4, elemByteSize := 4 }

def symbolY : SymbolInfo := { name := [0x79], dataType := 0xCA, elemByteSize := 4 }

def tableXY : TagTable where
  build := ⟨1, ⟨[symbolX, symbolY], by decide⟩⟩
  nul_free := by simp [symbolX, symbolY]
  name_le := by simp [symbolX, symbolY]

def namesXY : List Name := [symbolX.name, symbolY.name]

def pathP : TagPath := ⟨[0x50], by decide, by simp⟩

theorem tableXY_x (sdk : Sdk) :
    ∃ tag, tableXY.resolve sdk symbolX.name = .ok tag ∧ tag.kind = .dint := by
  cases sdk <;> exact TagTable.resolve_of symbolX rfl (by decide) rfl

theorem tableXY_y (sdk : Sdk) :
    ∃ tag, tableXY.resolve sdk symbolY.name = .ok tag ∧ tag.kind = .real := by
  cases sdk <;> exact TagTable.resolve_of symbolY rfl (by decide) rfl

theorem tableXY_knows (sdk : Sdk) : ∀ name ∈ namesXY, tableXY.Knows sdk name := by
  intro name hname
  rcases List.mem_pair.mp hname with rfl | rfl
  · obtain ⟨tag, htag, -⟩ := tableXY_x sdk
    exact ⟨tag, htag⟩
  · obtain ⟨tag, htag, -⟩ := tableXY_y sdk
    exact ⟨tag, htag⟩

def clearSlots : Slots := ⟨fun _ _ => 0, fun _ _ _ => rfl⟩

/-- A memory of sevens, of which `y` cannot be read. -/
def sevens : Memory where
  answer := fun r =>
    ⟨if r.tagName = symbolY.name then 5 else 0, List.replicate (r.elemByteSize * r.elemCount) 7⟩
  sized := fun _ _ => List.length_replicate

theorem sevens_accepts : sevens.engine.Accepts := fun _ _ => rfl

end BpClient.Multi
