import BpClient.Arrays.Store

/-!
`write_string` and `read_string` (`c/src/access.c`, `go/ocxbp/access_arrays.go`,
`python/src/bpclient/tagdb.py`): the bytes of a string travel as the SINTs of
`tag.DATA`, its length as the DINT `tag.LEN`.
-/

namespace BpClient.Arrays

open BpClient.Lib
open BpClient.Multi (clearSlots)
open BpClient.Slot (Sdk)
open BpClient.Tag

def typeSint : UInt16 := 0xC2
def typeDint : UInt16 := 0xC4

def dotData : List UInt8 := [0x2E, 0x44, 0x41, 0x54, 0x41]
def dotLen : List UInt8 := [0x2E, 0x4C, 0x45, 0x4E]

def sintsRequest (name : List UInt8) (action count : UInt16) (data : List UInt8) : TagRequest :=
  ⟨name, typeSint, 1, action, count, some data⟩

def dintRequest (name : List UInt8) (action : UInt16) (data : List UInt8) : TagRequest :=
  ⟨name, typeDint, 4, action, 1, some data⟩

def dintOf (data : List UInt8) : Int := (BitVec.ofNat 32 (leNat data)).toInt

section Runes

/-- `0x80 <= b <= 0xBF` -/
def continues (b : UInt8) : Bool := 0x80 ≤ b && b ≤ 0xBF

/-- The bytes of the rune that a string begins with: what is not a well-formed
UTF-8 sequence counts as one. -/
def runeWidth (s : List UInt8) : Nat :=
  let b0 := s.getD 0 0
  let b1 := s.getD 1 0
  if 0xC2 ≤ b0 ∧ b0 ≤ 0xDF ∧ continues b1 then 2
  else if 0xE0 ≤ b0 ∧ b0 ≤ 0xEF ∧ (if b0 = 0xE0 then 0xA0 else 0x80) ≤ b1 ∧
      b1 ≤ (if b0 = 0xED then 0x9F else 0xBF) ∧ continues (s.getD 2 0) then 3
  else if 0xF0 ≤ b0 ∧ b0 ≤ 0xF4 ∧ (if b0 = 0xF0 then 0x90 else 0x80) ≤ b1 ∧
      b1 ≤ (if b0 = 0xF4 then 0x8F else 0xBF) ∧ continues (s.getD 2 0) ∧
      continues (s.getD 3 0) then 4
  else 1

/-- The indices of a `range` loop over a string, from byte `i` on; `skip` bytes
belong to the rune before. -/
def runeStarts (i skip : Nat) : List UInt8 → List Nat
  | [] => []
  | b :: bs =>
      if skip = 0 then i :: runeStarts (i + 1) (runeWidth (b :: bs) - 1) bs
      else runeStarts (i + 1) (skip - 1) bs

/-- `for i := range value { data[i] = int8(value[i]) }` on zeros. -/
def goSints (value : List UInt8) : List Int8 :=
  (runeStarts 0 0 value).foldl (fun data i => data.set i (value.getD i 0).toInt8)
    (List.replicate value.length 0)

def goBytes (value : List UInt8) : List UInt8 := (goSints value).map Int8.toUInt8

end Runes

section Ranges

theorem runeStarts_ge {s : List UInt8} {i skip j : Nat} (h : j ∈ runeStarts i skip s) :
    i + min skip 1 ≤ j := by
  induction s generalizing i skip with
  | nil => cases h
  | cons b bs ih =>
      rw [runeStarts] at h
      split at h
      · next hskip =>
          rcases List.mem_cons.mp h with rfl | h
          · omega
          · have := ih h
            omega
      · have := ih h
        omega

/-- Runes of one byte begin everywhere. -/
theorem runeStarts_of_narrow {s : List UInt8} (h : ∀ k < s.length, runeWidth (s.drop k) = 1)
    (i : Nat) : runeStarts i 0 s = List.range' i s.length := by
  induction s generalizing i with
  | nil => rfl
  | cons b bs ih =>
      have hhead : runeWidth (b :: bs) = 1 := h 0 (Nat.succ_pos _)
      have hrest : ∀ k < bs.length, runeWidth (bs.drop k) = 1 :=
        fun k hk => h (k + 1) (Nat.succ_lt_succ hk)
      rw [runeStarts, if_pos rfl, hhead, Nat.sub_self, ih hrest, List.length_cons,
        List.range'_succ]

/-- The second byte of a wide rune is not zero. -/
theorem second_ne_zero {s : List UInt8} (h : runeWidth s ≠ 1) : s.getD 1 0 ≠ 0 := by
  intro hzero
  apply h
  have hno : continues (0 : UInt8) = false := rfl
  have hlow : ∀ c : Prop, [Decidable c] → ¬(if c then (0xA0 : UInt8) else 0x80) ≤ 0 := by
    intro c _
    split <;> decide
  have hlow' : ∀ c : Prop, [Decidable c] → ¬(if c then (0x90 : UInt8) else 0x80) ≤ 0 := by
    intro c _
    split <;> decide
  simp only [runeWidth, hzero, hno, hlow, hlow', Bool.false_eq_true, and_false, false_and, if_false]

theorem runeWidth_pos (s : List UInt8) : 1 ≤ runeWidth s := by
  have hite : ∀ {p : Prop} [Decidable p] {n m : Nat}, 1 ≤ n → 1 ≤ m → 1 ≤ if p then n else m := by
    intro p _ n m hn hm
    split <;> assumption
  exact hite (by decide) (hite (by decide) (hite (by decide) (by decide)))

/-- When a rune begins at every byte that is not zero, all runes have one byte. -/
theorem narrow_of_runeStarts {s : List UInt8} {i : Nat}
    (h : ∀ k < s.length, i + k ∈ runeStarts i 0 s ∨ s.getD k 0 = 0) :
    ∀ k < s.length, runeWidth (s.drop k) = 1 := by
  induction s generalizing i with
  | nil =>
      intro k hk
      cases hk
  | cons b bs ih =>
      have hhead : runeWidth (b :: bs) = 1 := by
        by_contra hwide
        have hsecond := second_ne_zero hwide
        have hwidth := runeWidth_pos (b :: bs)
        cases bs with
        | nil => exact hsecond rfl
        | cons b' bs' =>
            rcases h 1 (by simp) with hmem | hzero
            · rw [runeStarts, if_pos rfl] at hmem
              rcases List.mem_cons.mp hmem with heq | hmem
              · omega
              · have := runeStarts_ge hmem
                omega
            · exact hsecond hzero
      intro k hk
      cases k with
      | zero => exact hhead
      | succ k =>
          refine ih (i := i + 1) (fun k hk => ?_) k (Nat.lt_of_succ_lt_succ hk)
          rcases h (k + 1) (Nat.succ_lt_succ hk) with hmem | hzero
          · rw [runeStarts, if_pos rfl, hhead] at hmem
            rcases List.mem_cons.mp hmem with heq | hmem
            · omega
            · left
              rwa [Nat.add_assoc, Nat.add_comm 1 k]
          · exact .inr hzero

/-- What a loop of assignments leaves in a list. -/
theorem foldl_set {α : Type} (f : Nat → α) (is : List Nat) (data : List α) (j : Nat) :
    (is.foldl (fun data i => data.set i (f i)) data)[j]? =
      if j ∈ is ∧ j < data.length then some (f j) else data[j]? := by
  induction is generalizing data with
  | nil => simp
  | cons i is ih =>
      rw [List.foldl_cons, ih, List.length_set, List.getElem?_set]
      grind

theorem goBytes_get (value : List UInt8) (j : Nat) : (goBytes value)[j]? =
    if j < value.length then some (if j ∈ runeStarts 0 0 value then value.getD j 0 else 0)
    else none := by
  rw [goBytes, List.getElem?_map, goSints, foldl_set, List.length_replicate,
    List.getElem?_replicate]
  by_cases hj : j < value.length
  · by_cases hmem : j ∈ runeStarts 0 0 value
    · rw [if_pos ⟨hmem, hj⟩, if_pos hj, if_pos hmem, Option.map_some, UInt8.toUInt8_toInt8]
    · rw [if_neg fun h => hmem h.1, if_pos hj, if_pos hj, if_neg hmem]
      rfl
  · rw [if_neg fun h => hj h.2, if_neg hj, if_neg hj]
    rfl

@[simp] theorem goBytes_length (value : List UInt8) : (goBytes value).length = value.length := by
  have hset : ∀ (is : List Nat) (data : List Int8),
      (is.foldl (fun data i => data.set i (value.getD i 0).toInt8) data).length = data.length := by
    intro is
    induction is with
    | nil => exact fun _ => rfl
    | cons i is ih =>
        intro data
        rw [List.foldl_cons, ih, List.length_set]
  rw [goBytes, List.length_map, goSints, hset, List.length_replicate]

/-- Go sends the bytes of a string exactly when all its runes have one byte. -/
theorem goBytes_eq_iff (value : List UInt8) :
    goBytes value = value ↔ ∀ k < value.length, runeWidth (value.drop k) = 1 := by
  constructor
  · intro heq
    refine narrow_of_runeStarts (i := 0) fun k hk => ?_
    have hget := goBytes_get value k
    rw [heq, if_pos hk] at hget
    by_cases hmem : k ∈ runeStarts 0 0 value
    · rw [Nat.zero_add]
      exact .inl hmem
    · rw [if_neg hmem] at hget
      exact .inr (by rw [List.getD_eq_getElem?_getD, hget, Option.getD_some])
  · intro hnarrow
    apply List.ext_getElem?
    intro j
    rw [goBytes_get, runeStarts_of_narrow hnarrow]
    by_cases hj : j < value.length
    · have hmem : j ∈ List.range' 0 value.length := List.mem_range'_1.mpr ⟨Nat.zero_le j, by omega⟩
      rw [if_pos hj, if_pos hmem, List.getD_eq_getElem?_getD, List.getElem?_eq_getElem hj,
        Option.getD_some]
    · rw [if_neg hj, List.getElem?_eq_none (Nat.le_of_not_lt hj)]

end Ranges

section Latin1

/-- `value.encode("latin-1")`, which raises on other characters. -/
def latin1Encode (text : List Nat) : Option (List UInt8) :=
  if ∀ c ∈ text, c < 256 then some (text.map UInt8.ofNat) else none

def latin1Decode (bytes : List UInt8) : List Nat := bytes.map UInt8.toNat

def pySigned (b : UInt8) : Int := if b.toNat ≥ 128 then b.toNat - 256 else b.toNat

/-- `struct.pack(f"<{len(vals)}b", *vals)`, which raises on other numbers. -/
def packSints (vals : List Int) : Option (List UInt8) :=
  if ∀ v ∈ vals, -128 ≤ v ∧ v ≤ 127 then some (vals.map fun v => UInt8.ofNat (v % 256).toNat)
  else none

def unpackSints (raw : List UInt8) : List Int := raw.map fun b => b.toInt8.toInt

def maskBytes (data : List Int) : List UInt8 := data.map fun v => UInt8.ofNat (v % 256).toNat

theorem latin1Encode_decode (bytes : List UInt8) : latin1Encode (latin1Decode bytes) = some bytes := by
  have hall : ∀ c ∈ latin1Decode bytes, c < 256 := by
    intro c hc
    obtain ⟨b, -, rfl⟩ := List.mem_map.mp hc
    exact b.toNat_lt
  have hmap : (latin1Decode bytes).map UInt8.ofNat = bytes := by
    rw [latin1Decode, List.map_map]
    exact (List.map_congr_left fun b _ => UInt8.ofNat_toNat).trans (List.map_id bytes)
  rw [latin1Encode, if_pos hall, hmap]

theorem latin1Decode_injective : Function.Injective latin1Decode := by
  intro bytes bytes' h
  have h' := congrArg latin1Encode h
  rw [latin1Encode_decode, latin1Encode_decode] at h'
  exact Option.some.inj h'

/-- The sign is lost again. -/
theorem ofNat_pySigned (b : UInt8) : UInt8.ofNat (pySigned b % 256).toNat = b := by
  have hb := b.toNat_lt
  have hmod : (pySigned b % 256).toNat = b.toNat := by
    unfold pySigned
    split <;> omega
  rw [hmod, UInt8.ofNat_toNat]

theorem packSints_pySigned (bytes : List UInt8) : packSints (bytes.map pySigned) = some bytes := by
  have hall : ∀ v ∈ bytes.map pySigned, -128 ≤ v ∧ v ≤ 127 := by
    intro v hv
    obtain ⟨b, -, rfl⟩ := List.mem_map.mp hv
    have hb := b.toNat_lt
    unfold pySigned
    split <;> omega
  rw [packSints, if_pos hall, List.map_map]
  exact congrArg some
    ((List.map_congr_left fun b _ => ofNat_pySigned b).trans (List.map_id bytes))

theorem maskBytes_unpackSints (raw : List UInt8) : maskBytes (unpackSints raw) = raw := by
  have hsigned : ∀ b : UInt8, b.toInt8.toInt = pySigned b := by
    intro b
    have hcond := b.toBitVec.toInt_eq_toNat_cond
    have hb := b.toNat_lt
    change b.toInt8.toInt = if 2 * b.toNat < 256 then (b.toNat : Int) else b.toNat - 256 at hcond
    rw [hcond, pySigned]
    split <;> split <;> omega
  rw [maskBytes, unpackSints, List.map_map]
  refine (List.map_congr_left fun b _ => ?_).trans (List.map_id raw)
  rw [Function.comp_apply, hsigned, ofNat_pySigned]
  rfl

end Latin1

section Calls

variable {σ : Type} (e : Engine σ) (slots : Slots)

/-- `write_dint`, of one of the numbers that a length can be. -/
def writeDint (db : TagDb) (name : List UInt8) (v : Nat) (w : World σ) :
    Except Fault Unit × World σ :=
  Prod.map (Except.map fun _ => ()) id
    (single e slots db (dintRequest name actionWrite (leBytes 4 v)) w)

def readDint (db : TagDb) (name : List UInt8) (w : World σ) : Except Fault Int × World σ :=
  Prod.map (Except.map dintOf) id (single e slots db (dintRequest name actionRead (zeros 4)) w)

/-- `write_sint_array`, given the bytes of the numbers. -/
def writeSints (db : TagDb) (name data : List UInt8) (w : World σ) :
    Except Fault Unit × World σ :=
  Prod.map (Except.map fun _ => ()) id
    (arrayRw e slots db (sintsRequest name actionWrite (UInt16.ofNat data.length) data) w)

/-- `read_sint_array`; the numbers are still bytes. -/
def readSints (db : TagDb) (name : List UInt8) (count : Nat) (w : World σ) :
    Except Fault (List UInt8) × World σ :=
  arrayRw e slots db (sintsRequest name actionRead (UInt16.ofNat count) (zeros count)) w

/-- The data unless there is none, then the length. -/
def writeDataAndLen (db : TagDb) (tag data : List UInt8) (w : World σ) :
    Except Fault Unit × World σ :=
  if 0 < data.length then
    match writeSints e slots db (tag ++ dotData) data w with
    | (.error fault, w) => (.error fault, w)
    | (.ok (), w) => writeDint e slots db (tag ++ dotLen) data.length w
  else writeDint e slots db (tag ++ dotLen) data.length w

def bpTagdbWriteString (path tag data : List UInt8) (w : World σ) : Except Fault Unit × World σ :=
  if 65535 < data.length then (.error (.error .paramRange), w)
  else if 250 < tag.length then (.error (.error .paramRange), w)
  else writeDataAndLen e slots (.c path) tag data w

/-- `bp_tagdb_read_string`: the string in `out_buf` and `*out_len`. -/
def bpTagdbReadString (path tag : List UInt8) (outSize : Nat) (w : World σ) :
    Except Fault (List UInt8 × Nat) × World σ :=
  if outSize = 0 then (.error (.error .nullArg), w)
  else if 250 < tag.length then (.error (.error .paramRange), w)
  else
    match readDint e slots (.c path) (tag ++ dotLen) w with
    | (.error fault, w) => (.error fault, w)
    | (.ok lenField, w) =>
        if lenField < 0 then (.error (.error .generic), w)
        else
          let toRead := min (min lenField.toNat (outSize - 1)) 65535
          if toRead = 0 then (.ok ([], lenField.toNat), w)
          else Prod.map (Except.map fun data => (data, lenField.toNat)) id
            (readSints e slots (.c path) (tag ++ dotData) toRead w)

def goWriteString (path tag value : List UInt8) (w : World σ) : Except Fault Unit × World σ :=
  if tag.length = 0 ∨ 250 < tag.length then (.error (.error .paramRange), w)
  else if 0xFFFF < value.length then (.error (.error .paramRange), w)
  else writeDataAndLen e slots (.go path) tag (goBytes value) w

def goReadString (path tag : List UInt8) (w : World σ) : Except Fault (List UInt8) × World σ :=
  if tag.length = 0 ∨ 250 < tag.length then (.error (.error .paramRange), w)
  else
    match readDint e slots (.go path) (tag ++ dotLen) w with
    | (.error fault, w) => (.error fault, w)
    | (.ok lenField, w) =>
        if lenField ≤ 0 then (.ok [], w)
        else Prod.map (Except.map fun data => (data.map UInt8.toInt8).map Int8.toUInt8) id
          (readSints e slots (.go path) (tag ++ dotData) (min lenField.toNat 0xFFFF) w)

def pyWriteString (path : TagPath) (tag : List UInt8) (value : List Nat) (w : World σ) :
    Except Fault Unit × World σ :=
  if tag.length = 0 ∨ 250 < tag.length then (.error (.error .paramRange), w)
  else
    match latin1Encode value with
    | none => (.error (.error .unicode), w)
    | some encoded =>
        if 0xFFFF < encoded.length then (.error (.error .paramRange), w)
        else
          match packSints (encoded.map pySigned) with
          | none => (.error (.error .overflow), w)
          | some data => writeDataAndLen e slots (.python path) tag data w

def pyReadString (path : TagPath) (tag : List UInt8) (w : World σ) :
    Except Fault (List Nat) × World σ :=
  if tag.length = 0 ∨ 250 < tag.length then (.error (.error .paramRange), w)
  else
    match readDint e slots (.python path) (tag ++ dotLen) w with
    | (.error fault, w) => (.error fault, w)
    | (.ok lenField, w) =>
        if lenField ≤ 0 then (.ok [], w)
        else Prod.map (Except.map fun data => latin1Decode (maskBytes (unpackSints data))) id
          (readSints e slots (.python path) (tag ++ dotData) (min lenField.toNat 0xFFFF) w)

end Calls

section Tags

/-- The name of a tag that all SDKs take for a string. -/
structure StringTag extends TagName where
  pos : bytes ≠ []
  length_le : bytes.length ≤ 250

variable (tag : StringTag)

def StringTag.member (suffix : List UInt8) (h : 0 ∉ suffix ∧ suffix.all (· < 0x80)) : TagName where
  bytes := tag.bytes ++ suffix
  nul_free := by
    rw [List.mem_append, not_or]
    exact ⟨tag.nul_free, h.1⟩
  ascii := by
    rw [List.all_append, tag.ascii, h.2]
    rfl

def StringTag.data : TagName := tag.member dotData (by decide)

def StringTag.len : TagName := tag.member dotLen (by decide)

theorem StringTag.len_sent : tag.len.sent = tag.bytes ++ dotLen := by
  have := tag.length_le
  have hlen : (tag.bytes ++ dotLen).length ≤ 254 := by
    rw [List.length_append]
    exact Nat.add_le_add_right this 4
  exact name254_of_le hlen

/-- The name `tag.DATA` fits unless the tag has 250 bytes. -/
theorem StringTag.data_sent (h : tag.bytes.length ≤ 249) :
    tag.data.sent = tag.bytes ++ dotData := by
  have hlen : (tag.bytes ++ dotData).length ≤ 254 := by
    rw [List.length_append]
    exact Nat.add_le_add_right h 5
  exact name254_of_le hlen

theorem StringTag.data_sent_ne_len : tag.data.sent ≠ tag.len.sent := by
  intro h
  have hlen := tag.length_le
  have hat : tag.data.sent[tag.bytes.length + 1]? = tag.len.sent[tag.bytes.length + 1]? := by
    rw [h]
  rw [tag.len_sent, TagName.sent, name254, List.getElem?_take, if_pos (by omega)] at hat
  simp only [StringTag.data, StringTag.member] at hat
  rw [List.getElem?_append_right (by omega), List.getElem?_append_right (by omega),
    Nat.add_sub_cancel_left] at hat
  cases hat

end Tags

section Members

variable {σ : Type} {e : Engine σ}

theorem arrayRw_sints {slots : Slots} {db : TagDb} {w : World σ} {n : Nat} (hpos : 0 < n)
    (hle : n ≤ 65535) {bytes data : List UInt8} {action : UInt16} :
    arrayRw e slots db (sintsRequest bytes action (UInt16.ofNat n) data) w =
      single e slots db (sintsRequest bytes action (UInt16.ofNat n) data) w := by
  have hn : (UInt16.ofNat n).toNat = n :=
    UInt16.toNat_ofNat_of_lt' (by simp only [UInt16.size]; omega)
  apply if_neg
  intro h
  change UInt16.ofNat n = 0 at h
  rw [h] at hn
  exact hpos.ne hn

variable (m : TagStore e) (slots : Slots) (db : TagDb) (w : World σ) (name : TagName)

theorem writeDint_ok (hcap : 4 ≤ m.cap name.sent) (n : Nat) :
    ∃ w', writeDint e slots db name.bytes n w = (.ok (), w') ∧
      m.bytes w'.engine = Function.update (m.bytes w.engine) name.sent
        (overwrite (leBytes 4 n) (m.bytes w.engine name.sent)) := by
  have hlen : (leBytes 4 n).length = (4 : UInt16).toNat * (1 : UInt16).toNat := leBytes_length 4 n
  obtain ⟨s', answers, hwrite, hbytes⟩ := m.single_write slots db w
    (dintRequest name.bytes actionWrite (leBytes 4 n)) name rfl rfl rfl hlen
    (by rw [leBytes_length]; decide) (by rwa [leBytes_length])
  rw [writeDint, hwrite]
  exact ⟨_, rfl, hbytes⟩

theorem readDint_ok (hcap : 4 ≤ m.cap name.sent) {n : Nat} (hn : n ≤ 65535)
    (hstored : firstBytes 4 (m.bytes w.engine name.sent) = leBytes 4 n) :
    ∃ w', readDint e slots db name.bytes w = (.ok (n : Int), w') ∧
      m.bytes w'.engine = m.bytes w.engine := by
  obtain ⟨s', answers, hread, hbytes⟩ := m.single_read slots db w
    (dintRequest name.bytes actionRead (zeros 4)) name rfl rfl rfl rfl (by decide) hcap
  have hdint : dintOf (leBytes 4 n) = n := by
    rw [dintOf, leNat_leBytes_of_lt (by omega), BitVec.toInt_eq_toNat_cond, BitVec.toNat_ofNat,
      Nat.mod_eq_of_lt (by omega), if_pos (by omega)]
  rw [readDint, hread, zeros_length, hstored]
  exact ⟨_, by rw [Prod.map, Except.map, hdint, id], hbytes⟩

theorem writeSints_ok {data : List UInt8} (hne : data ≠ []) (hle : data.length ≤ 65535)
    (hcap : data.length ≤ m.cap name.sent) :
    ∃ w', writeSints e slots db name.bytes data w = (.ok (), w') ∧
      m.bytes w'.engine = Function.update (m.bytes w.engine) name.sent
        (overwrite data (m.bytes w.engine name.sent)) := by
  have hcount : (UInt16.ofNat data.length).toNat = data.length :=
    UInt16.toNat_ofNat_of_lt' (by simp only [UInt16.size]; omega)
  have hlen : data.length = (1 : UInt16).toNat * (UInt16.ofNat data.length).toNat := by
    rw [hcount]
    exact (Nat.one_mul _).symm
  obtain ⟨s', answers, hwrite, hbytes⟩ := m.single_write slots db w
    (sintsRequest name.bytes actionWrite (UInt16.ofNat data.length) data) name rfl rfl rfl hlen
    (by omega) hcap
  rw [writeSints, arrayRw_sints (List.length_pos_iff.mpr hne) hle, hwrite]
  exact ⟨_, rfl, hbytes⟩

theorem readSints_ok {n : Nat} (hpos : 0 < n) (hle : n ≤ 65535) (hcap : n ≤ m.cap name.sent) :
    ∃ w', readSints e slots db name.bytes n w =
        (.ok (firstBytes n (m.bytes w.engine name.sent)), w') ∧
      m.bytes w'.engine = m.bytes w.engine := by
  have hcount : (UInt16.ofNat n).toNat = n :=
    UInt16.toNat_ofNat_of_lt' (by simp only [UInt16.size]; omega)
  have hlen : (zeros n).length = (1 : UInt16).toNat * (UInt16.ofNat n).toNat := by
    rw [hcount, zeros_length]
    exact (Nat.one_mul _).symm
  obtain ⟨s', answers, hread, hbytes⟩ := m.single_read slots db w
    (sintsRequest name.bytes actionRead (UInt16.ofNat n) (zeros n)) name rfl rfl rfl hlen
    (by rw [zeros_length]; omega) (by rwa [zeros_length])
  rw [zeros_length] at hread
  rw [readSints, arrayRw_sints hpos hle, hread]
  exact ⟨_, rfl, hbytes⟩

structure Stored (tag : StringTag) (w : World σ) (data : List UInt8) : Prop where
  text : firstBytes data.length (m.bytes w.engine tag.data.sent) = data
  len : firstBytes 4 (m.bytes w.engine tag.len.sent) = leBytes 4 data.length

variable {m} {tag : StringTag} {data : List UInt8}

/-- After both writes the tag holds the string. -/
theorem writeDataAndLen_stored (hle : data.length ≤ 65535)
    (hdata : data.length ≤ m.cap tag.data.sent) (hlen : 4 ≤ m.cap tag.len.sent) :
    ∃ w', writeDataAndLen e slots db tag.bytes data w = (.ok (), w') ∧ Stored m tag w' data := by
  by_cases hpos : 0 < data.length
  · obtain ⟨w₁, hwrite, hbytes⟩ :=
      writeSints_ok m slots db w tag.data (List.length_pos_iff.mp hpos) hle hdata
    obtain ⟨w₂, hwrite', hbytes'⟩ := writeDint_ok m slots db w₁ tag.len hlen data.length
    refine ⟨w₂, ?_, ?_, ?_⟩
    · rw [writeDataAndLen, if_pos hpos]
      simp only [StringTag.data, StringTag.member] at hwrite
      simp only [hwrite]
      exact hwrite'
    · rw [hbytes', Function.update_of_ne tag.data_sent_ne_len, hbytes, Function.update_self,
        firstBytes_overwrite]
    · rw [hbytes', Function.update_self]
      exact (leBytes_length 4 data.length) ▸ firstBytes_overwrite _ _
  · have hnil : data = [] := List.eq_nil_of_length_eq_zero (Nat.eq_zero_of_not_pos hpos)
    subst hnil
    obtain ⟨w₂, hwrite', hbytes'⟩ := writeDint_ok m slots db w tag.len hlen 0
    refine ⟨w₂, hwrite', rfl, ?_⟩
    rw [hbytes', Function.update_self]
    exact (leBytes_length 4 0) ▸ firstBytes_overwrite _ _

end Members

section RoundTrip

def sentBytes (sdk : Sdk) (s : List UInt8) : List UInt8 := if sdk = .go then goBytes s else s

section Calls

variable {σ : Type} (e : Engine σ) (slots : Slots)

/-- The function of the SDK that writes a string; Python is given the text that
it is in Latin-1. -/
def writeString (db : TagDb) (tag s : List UInt8) (w : World σ) : Except Fault Unit × World σ :=
  match db with
  | .c path => bpTagdbWriteString e slots path tag s w
  | .go path => goWriteString e slots path tag s w
  | .python path => pyWriteString e slots path tag (latin1Decode s) w

/-- The function of the SDK that reads a string returns this one. -/
def ReadsString (db : TagDb) (tag : List UInt8) (outSize : Nat) (s : List UInt8) (w : World σ) :
    Prop :=
  match db with
  | .c path => (bpTagdbReadString e slots path tag outSize w).1 = .ok (s, s.length)
  | .go path => (goReadString e slots path tag w).1 = .ok s
  | .python path => (pyReadString e slots path tag w).1 = .ok (latin1Decode s)

end Calls

variable {σ : Type} {e : Engine σ} {m : TagStore e} {slots : Slots} {db : TagDb} {w : World σ}
  {tag : StringTag} {s s' : List UInt8} {outSize : Nat}

theorem sentBytes_length (sdk : Sdk) (s : List UInt8) : (sentBytes sdk s).length = s.length := by
  unfold sentBytes
  split
  · exact goBytes_length s
  · rfl

theorem sentBytes_eq_iff {sdk : Sdk} : sentBytes sdk s = s ↔
    (sdk = .go → ∀ k < s.length, runeWidth (s.drop k) = 1) := by
  unfold sentBytes
  split
  · next hgo => simp only [goBytes_eq_iff, hgo, true_implies]
  · next hgo => simp only [hgo, false_implies]

theorem ReadsString.unique (h : ReadsString e slots db tag.bytes outSize s w)
    (h' : ReadsString e slots db tag.bytes outSize s' w) : s = s' := by
  cases db with
  | c path => exact (Prod.mk.inj (Except.ok.inj (h.symm.trans h'))).1
  | go path => exact Except.ok.inj (h.symm.trans h')
  | python path => exact latin1Decode_injective (Except.ok.inj (h.symm.trans h'))

theorem writeString_eq (hle : s.length ≤ 65535) : writeString e slots db tag.bytes s w =
    writeDataAndLen e slots db tag.bytes (sentBytes db.sdk s) w := by
  have htag := tag.length_le
  have hpos := List.length_pos_iff.mpr tag.pos
  cases db with
  | c path =>
      rw [writeString, bpTagdbWriteString, if_neg (by omega), if_neg (by omega)]
      rfl
  | go path =>
      rw [writeString, goWriteString, if_neg (by omega), if_neg (by omega)]
      rfl
  | python path =>
      rw [writeString, pyWriteString, if_neg (by omega)]
      simp only [latin1Encode_decode, packSints_pySigned]
      rw [if_neg (by omega)]
      rfl

/-- The two reads of a string. -/
theorem Stored.parts (h : Stored m tag w s) (slots : Slots) (db : TagDb) (hle : s.length ≤ 65535)
    (hdata : s.length ≤ m.cap tag.data.sent) (hlen : 4 ≤ m.cap tag.len.sent) :
    ∃ w₁, readDint e slots db (tag.bytes ++ dotLen) w = (.ok (s.length : Int), w₁) ∧
      (0 < s.length → ∃ w₂,
        readSints e slots db (tag.bytes ++ dotData) s.length w₁ = (.ok s, w₂)) := by
  obtain ⟨w₁, hread, hbytes⟩ := readDint_ok m slots db w tag.len hlen hle h.len
  refine ⟨w₁, hread, fun hpos => ?_⟩
  obtain ⟨w₂, hread', -⟩ := readSints_ok m slots db w₁ tag.data hpos hle hdata
  rw [hbytes, h.text] at hread'
  exact ⟨w₂, hread'⟩

/-- A string that a tag holds is what every SDK reads of it. -/
theorem Stored.reads (h : Stored m tag w s) (hle : s.length ≤ 65535)
    (hdata : s.length ≤ m.cap tag.data.sent) (hlen : 4 ≤ m.cap tag.len.sent)
    (hout : s.length < outSize) : ReadsString e slots db tag.bytes outSize s w := by
  have htag := tag.length_le
  have hne := List.length_pos_iff.mpr tag.pos
  obtain ⟨w₁, hread, hread'⟩ := h.parts slots db hle hdata hlen
  cases db with
  | c path =>
      have htake : min (min (s.length : Int).toNat (outSize - 1)) 65535 = s.length := by omega
      rw [ReadsString, bpTagdbReadString, if_neg (by omega), if_neg (by omega)]
      simp only [hread]
      rw [if_neg (by omega), htake]
      by_cases hpos : 0 < s.length
      · obtain ⟨w₂, hread'⟩ := hread' hpos
        rw [if_neg hpos.ne', hread']
        rfl
      · have hnil : s = [] := List.eq_nil_of_length_eq_zero (by omega)
        subst hnil
        rfl
  | go path =>
      have htake : min (s.length : Int).toNat 0xFFFF = s.length := by omega
      rw [ReadsString, goReadString, if_neg (by omega)]
      simp only [hread, htake]
      by_cases hpos : 0 < s.length
      · obtain ⟨w₂, hread'⟩ := hread' hpos
        have hsigned : (s.map UInt8.toInt8).map Int8.toUInt8 = s := by
          rw [List.map_map]
          exact List.map_id s
        rw [if_neg (by omega), hread']
        exact congrArg Except.ok hsigned
      · have hnil : s = [] := List.eq_nil_of_length_eq_zero (by omega)
        subst hnil
        rfl
  | python path =>
      have htake : min (s.length : Int).toNat 0xFFFF = s.length := by omega
      rw [ReadsString, pyReadString, if_neg (by omega)]
      simp only [hread, htake]
      by_cases hpos : 0 < s.length
      · obtain ⟨w₂, hread'⟩ := hread' hpos
        rw [if_neg (by omega), hread']
        exact congrArg (Except.ok ∘ latin1Decode) (maskBytes_unpackSints s)
      · have hnil : s = [] := List.eq_nil_of_length_eq_zero (by omega)
        subst hnil
        rfl

/-- A string that is written, then read, is what it was; the writing and the
reading SDK may be two. -/
def StringRoundTrips (writer reader : TagDb) (tag : StringTag) (s : List UInt8) : Prop :=
  ∀ {σ : Type} (e : Engine σ) (m : TagStore e) (slots : Slots) (w : World σ) (outSize : Nat),
    s.length < outSize → s.length ≤ m.cap (tag.bytes ++ dotData) →
    4 ≤ m.cap (tag.bytes ++ dotLen) →
    (writeString e slots writer tag.bytes s w).1 = .ok () ∧
      ReadsString e slots reader tag.bytes outSize s (writeString e slots writer tag.bytes s w).2

/-- What is read is what has been sent. -/
theorem writeString_stored (m : TagStore e) (slots : Slots) (writer reader : TagDb)
    (tag : StringTag) (w : World σ) (hle : s.length ≤ 65535)
    (hdata : s.length ≤ m.cap tag.data.sent) (hlen : 4 ≤ m.cap tag.len.sent)
    (hout : s.length < outSize) :
    ∃ w', writeString e slots writer tag.bytes s w = (.ok (), w') ∧
      ReadsString e slots reader tag.bytes outSize (sentBytes writer.sdk s) w' := by
  have hsent := sentBytes_length writer.sdk s
  rw [← hsent] at hdata hout
  obtain ⟨w', hwrite, hstored⟩ := writeDataAndLen_stored slots writer w (hsent ▸ hle) hdata hlen
  exact ⟨w', (writeString_eq hle).trans hwrite, hstored.reads (hsent ▸ hle) hdata hlen hout⟩

/-- A tag without room for the data refuses it. -/
theorem writeString_refused {cap : List UInt8 → Nat} {w : World (List UInt8 → Nat → UInt8)}
    (hle : s.length ≤ 65535) (hne : s ≠ []) (hcap : cap tag.data.sent = 0) :
    (writeString (memoryEngine cap) slots db tag.bytes s w).1 = .error (.error .generic) := by
  let data := sentBytes db.sdk s
  have hlength : data.length = s.length := sentBytes_length db.sdk s
  have hpos : 0 < data.length := hlength ▸ List.length_pos_iff.mpr hne
  have hcount : (UInt16.ofNat data.length).toNat = data.length :=
    UInt16.toNat_ofNat_of_lt' (by simp only [UInt16.size]; omega)
  have hlen : data.length = (1 : UInt16).toNat * (UInt16.ofNat data.length).toNat := by
    rw [hcount]
    exact (Nat.one_mul _).symm
  have hrefused := memoryEngine_refuses cap slots db w
    (sintsRequest tag.data.bytes actionWrite (UInt16.ofNat data.length) data) tag.data rfl rfl rfl
    hlen (by omega) (hcap ▸ hpos)
  have hsints : (writeSints (memoryEngine cap) slots db (tag.bytes ++ dotData) data w).1 =
      .error (.error .generic) := by
    rw [writeSints, arrayRw_sints hpos (by omega)]
    exact congrArg (Except.map fun _ => ()) hrefused
  rw [writeString_eq hle, writeDataAndLen, if_pos hpos]
  revert hsints
  generalize writeSints (memoryEngine cap) slots db (tag.bytes ++ dotData) data w = result
  rintro hsints
  obtain ⟨outcome, w'⟩ := result
  subst hsints
  rfl

theorem StringTag.data_sent_ne (h : 249 < tag.bytes.length) :
    tag.data.sent ≠ tag.bytes ++ dotData := by
  intro heq
  have hlen := name254_length tag.data.bytes
  have hsent : tag.data.sent.length = tag.bytes.length + 5 := by
    rw [heq, List.length_append]
    rfl
  rw [TagName.sent] at hsent
  omega

def StringTag.caps (tag : StringTag) (name : List UInt8) : Nat :=
  if name = tag.bytes ++ dotData then 65535 else if name = tag.bytes ++ dotLen then 4 else 0

theorem StringTag.caps_len : tag.caps (tag.bytes ++ dotLen) = 4 := by
  have hmembers : tag.bytes ++ dotLen ≠ tag.bytes ++ dotData := by
    intro heq
    cases List.append_cancel_left heq
  rw [StringTag.caps, if_neg hmembers, if_pos rfl]

theorem StringTag.caps_sent (h : 249 < tag.bytes.length) : tag.caps tag.data.sent = 0 := by
  have hother : tag.data.sent ≠ tag.bytes ++ dotLen := tag.len_sent ▸ tag.data_sent_ne_len
  rw [StringTag.caps, if_neg (tag.data_sent_ne h), if_neg hother]

/-- What makes the round trip is sent as it is. -/
theorem StringRoundTrips.sentBytes_eq {writer reader : TagDb}
    (h : StringRoundTrips writer reader tag s) (hle : s.length ≤ 65535) :
    sentBytes writer.sdk s = s := by
  have hroom : 4 ≤ 65535 := by decide
  obtain ⟨w', hwrite, hread⟩ := writeString_stored (memoryStore fun _ => 65535) clearSlots
    writer reader tag ⟨fun _ _ => 0, []⟩ hle hle hroom (Nat.lt_succ_self s.length)
  obtain ⟨-, hread'⟩ := h (memoryEngine fun _ => 65535) (memoryStore fun _ => 65535) clearSlots
    ⟨fun _ _ => 0, []⟩ (s.length + 1) (Nat.lt_succ_self _) hle hroom
  rw [hwrite] at hread'
  exact hread.unique hread'

/-- A string makes the round trip when its tag leaves room for the name of the
data and, if it is written by Go, none of its runes has more than one byte. -/
theorem string_roundTrips_iff (writer reader : TagDb) (tag : StringTag) (s : List UInt8)
    (hle : s.length ≤ 65535) : StringRoundTrips writer reader tag s ↔
      (s = [] ∨ tag.bytes.length ≤ 249) ∧
        (writer.sdk = .go → ∀ k < s.length, runeWidth (s.drop k) = 1) := by
  constructor
  · intro h
    constructor
    · by_contra hno
      rw [not_or, not_le] at hno
      have hdata : s.length ≤ tag.caps (tag.bytes ++ dotData) := by
        rwa [StringTag.caps, if_pos rfl]
      obtain ⟨hwrite, -⟩ := h (memoryEngine tag.caps) (memoryStore tag.caps) clearSlots
        ⟨fun _ _ => 0, []⟩ (s.length + 1) (Nat.lt_succ_self _) hdata tag.caps_len.ge
      rw [writeString_refused hle hno.1 (tag.caps_sent hno.2)] at hwrite
      cases hwrite
    · exact sentBytes_eq_iff.mp (h.sentBytes_eq hle)
  · rintro ⟨htag, hgo⟩ σ e m slots w outSize hout hdata hlen
    have hsent : s.length ≤ m.cap tag.data.sent := by
      rcases htag with rfl | htag
      · exact Nat.zero_le _
      · rwa [tag.data_sent htag]
    rw [← tag.len_sent] at hlen
    obtain ⟨w', hwrite, hread⟩ :=
      writeString_stored m slots writer reader tag w hle hsent hlen hout
    rw [sentBytes_eq_iff.mpr hgo] at hread
    rw [hwrite]
    exact ⟨rfl, hread⟩

/-- The word `héllo` in UTF-8, written by C to a tag `x` and read by Go. -/
theorem string_roundTrips_hello : StringRoundTrips (.c [0x70]) (.go [0x70])
    ⟨tagB, by decide, by decide⟩ [0x68, 0xC3, 0xA9, 0x6C, 0x6C, 0x6F] :=
  (string_roundTrips_iff _ _ _ _ (by decide)).mpr ⟨.inr (by decide), fun h => by cases h⟩

/-- Written by Go it has lost a byte. -/
theorem string_not_roundTrips : ¬StringRoundTrips (.go [0x70]) (.go [0x70])
    ⟨tagB, by decide, by decide⟩ [0x68, 0xC3, 0xA9, 0x6C, 0x6C, 0x6F] := by
  intro h
  cases h.sentBytes_eq (by decide)

end RoundTrip

end BpClient.Arrays
