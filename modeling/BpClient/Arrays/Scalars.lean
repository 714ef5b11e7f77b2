import BpClient.Arrays.Numbers

/-!
The typed helpers for one scalar (`DEFINE_RW` and the helpers for BOOL in
`c/src/access.c`, `scalarRW` and its callers in `go/ocxbp/access.go`, `_scalar_rw` and
its callers in `python/src/bpclient/tagdb.py`), and what they have to do with the
helpers for arrays.
-/

namespace BpClient.Arrays

open BpClient.Lib
open BpClient.Multi
open BpClient.Tag

section Calls

variable {σ : Type} (e : Engine σ) (slots : Slots) (name : List UInt8) (w : World σ)

/-- `bp_tagdb_write_sint` and its siblings, which are not for BOOL. -/
def cWriteScalar (path : List UInt8) (s : Scalar) : Except Fault Unit × World σ :=
  Prod.map (Except.map fun _ => ()) id
    (single e slots (.c path) (numberRequest s.kind name actionWrite 1 s.bytes) w)

def cReadScalar (kind : Kind) (path : List UInt8) : Except Fault Scalar × World σ :=
  Prod.map (Except.map fun data => Scalar.ofBits kind (leField 0 kind.size data)) id
    (single e slots (.c path) (numberRequest kind name actionRead 1 (zeros kind.size)) w)

/-- `bp_tagdb_write_bool`, whose callers pass an `int` -/
def cWriteBool (path : List UInt8) (value : Int32) : Except Fault Unit × World σ :=
  Prod.map (Except.map fun _ => ()) id
    (single e slots (.c path)
      (numberRequest .bool name actionWrite 1 [if value ≠ 0 then 1 else 0]) w)

def cReadBool (path : List UInt8) : Except Fault Int32 × World σ :=
  Prod.map (Except.map fun data => if data.getD 0 0 ≠ 0 then 1 else 0) id
    (single e slots (.c path) (numberRequest .bool name actionRead 1 [0]) w)

/-- `WriteSINT` and its siblings, `WriteBOOL` among them. -/
def goWriteScalar (path : List UInt8) (s : Scalar) : Except Fault Unit × World σ :=
  Prod.map (Except.map fun _ => ()) id
    (single e slots (.go path) (numberRequest s.kind name actionWrite 1 s.bytes) w)

def goReadScalar (kind : Kind) (path : List UInt8) : Except Fault Scalar × World σ :=
  Prod.map (Except.map (goDecodeScalar kind)) id
    (single e slots (.go path) (numberRequest kind name actionRead 1 (zeros kind.size)) w)

/-- Python's helpers for writing drop what `_scalar_rw` returns. -/
def pyResult (r : Except Fault (List UInt8) × World σ) : Except PyFault Unit × World σ :=
  Prod.map (Except.map fun _ => ()) id (Prod.map (Except.mapError PyFault.call) id r)

/-- `write_sint` and its siblings, which are not for BOOL. -/
def pyWriteScalar (kind : Kind) (path : TagPath) (v : PyValue) : Except PyFault Unit × World σ :=
  match structPack kind v with
  | none => (.error .pack, w)
  | some data =>
      pyResult (single e slots (.python path) (numberRequest kind name actionWrite 1 data) w)

def pyWriteBool (path : TagPath) (v : Bool) : Except PyFault Unit × World σ :=
  pyResult (single e slots (.python path)
    (numberRequest .bool name actionWrite 1 (if v then [1] else [0])) w)

def pyReadScalar (kind : Kind) (path : TagPath) : Except PyFault PyValue × World σ :=
  Prod.map (Except.map fun b => pyDecodeScalar kind (b.take kind.size)) id
    (Prod.map (Except.mapError .call) id
      (single e slots (.python path) (numberRequest kind name actionRead 1 (zeros kind.size)) w))

end Calls

def one (s : Scalar) : Numbers s.kind := ⟨[s], fun _ h => congrArg Scalar.kind (List.mem_singleton.mp h)⟩

@[simp] theorem one_bytes (s : Scalar) : (one s).bytes = s.bytes := List.flatMap_singleton ..

theorem one_countable (s : Scalar) : Countable (one s) := ⟨le_rfl, by simp [one]⟩

theorem scalar_room (s : Scalar) : Room s.bytes.length := by
  apply room_of_le
  rw [s.bytes_length]
  cases s.kind <;> decide

variable {σ : Type} {e : Engine σ} {slots : Slots}

/-- Every SDK writes the scalar, and all of them leave the same world behind. C and
Python have a helper of its own for BOOL. -/
structure ScalarWritten (e : Engine σ) (slots : Slots) (name : TagName) (s : Scalar)
    (w w' : World σ) : Prop where
  c : s.kind ≠ .bool → ∀ path, cWriteScalar e slots name.bytes w path s = (.ok (), w')
  c_bool : ∀ path value, s = .bool (decide (value ≠ 0)) →
    cWriteBool e slots name.bytes w path value = (.ok (), w')
  go : ∀ path, goWriteScalar e slots name.bytes w path s = (.ok (), w')
  python : s.kind ≠ .bool → ∀ path v, PyValue.fit s.kind (number v) = .scalar s →
    pyWriteScalar e slots name.bytes w s.kind path v = (.ok (), w')
  python_bool : ∀ path v, s = .bool v → pyWriteBool e slots name.bytes w path v = (.ok (), w')

structure ScalarReadable (e : Engine σ) (slots : Slots) (name : TagName) (s : Scalar) (w : World σ) :
    Prop where
  c : s.kind ≠ .bool → ∀ path, (cReadScalar e slots name.bytes w s.kind path).1 = .ok s
  c_bool : ∀ path v, s = .bool v →
    (cReadBool e slots name.bytes w path).1 = .ok (if v then 1 else 0)
  go : ∀ path, (goReadScalar e slots name.bytes w s.kind path).1 = .ok s
  python : ∀ path, (pyReadScalar e slots name.bytes w s.kind path).1 = .ok s.toPy

theorem ofBits_bytes_self (s : Scalar) : Scalar.ofBits s.kind (leField 0 s.kind.size s.bytes) = s := by
  rw [leField, List.drop_zero, ← load, ← goDecodeScalar_eq, goDecodeScalar_bytes]

theorem single_scalar_read (m : TagStore e) (name : TagName) (s : Scalar) {w : World σ}
    (hcap : s.bytes.length ≤ m.cap name.sent)
    (hstored : firstBytes s.bytes.length (m.bytes w.engine name.sent) = s.bytes) (slots : Slots)
    (db : TagDb) : (single e slots db
      (numberRequest s.kind name.bytes actionRead 1 (zeros s.kind.size)) w).1 = .ok s.bytes := by
  have hlen : (zeros s.kind.size).length = s.bytes.length := by
    rw [zeros_length, s.bytes_length]
  have hsize : (zeros s.kind.size).length = (elem s.kind).byteSize.toNat * 1 := by
    rw [zeros_length, elem_byteSize, Nat.mul_one]
  obtain ⟨hread, -⟩ := m.read_stored slots db w
    (numberRequest s.kind name.bytes actionRead 1 (zeros s.kind.size)) name rfl rfl rfl hsize
    (hlen ▸ scalar_room s) (hlen ▸ hcap)
  rw [hread, hlen, hstored]

/-- Every SDK reads the scalar whose bytes are at the beginning of the tag. -/
theorem scalarReadable_of_stored (m : TagStore e) (name : TagName) (s : Scalar) {w : World σ}
    (hcap : s.bytes.length ≤ m.cap name.sent)
    (hstored : firstBytes s.bytes.length (m.bytes w.engine name.sent) = s.bytes) (slots : Slots) :
    ScalarReadable e slots name s w := by
  have hread := single_scalar_read m name s hcap hstored slots
  constructor
  · intro _ path
    rw [cReadScalar, Prod.map_fst, hread]
    exact congrArg Except.ok (ofBits_bytes_self s)
  · rintro path v rfl
    have hbool := hread (.c path)
    simp only [Scalar.kind, Kind.size, zeros, List.replicate_one] at hbool
    rw [cReadBool, Prod.map_fst, hbool]
    cases v <;> rfl
  · intro path
    rw [goReadScalar, Prod.map_fst, hread]
    exact congrArg Except.ok (goDecodeScalar_bytes s)
  · intro path
    rw [pyReadScalar, Prod.map_fst, Prod.map_fst, hread]
    have hdecode : pyDecodeScalar s.kind (s.bytes.take s.kind.size) = s.toPy := by
      rw [List.take_of_length_le s.bytes_length.le, pyDecodeScalar, goDecodeScalar_bytes]
    exact congrArg Except.ok hdecode

/-- Every SDK makes the write of an array of one. -/
theorem scalarWritten_of_room (m : TagStore e) (name : TagName) (s : Scalar)
    (hcap : s.bytes.length ≤ m.cap name.sent) (w : World σ) (slots : Slots) :
    ScalarWritten e slots name s w ((one s).stored e name w) := by
  have hsize : s.bytes.length = (elem s.kind).byteSize.toNat * 1 := by
    rw [s.bytes_length, elem_byteSize, Nat.mul_one]
  have hwrite : ∀ db, single e slots db (numberRequest s.kind name.bytes actionWrite 1 s.bytes) w =
      (.ok s.bytes, (one s).stored e name w) := by
    intro db
    rw [Numbers.stored, Numbers.write, one_bytes]
    exact (m.write_stored slots db w (numberRequest s.kind name.bytes actionWrite 1 s.bytes) name rfl
      rfl rfl hsize (scalar_room s) hcap).1
  constructor
  · intro _ path
    rw [cWriteScalar, hwrite]
    rfl
  · rintro path value rfl
    have hbyte : ([if value ≠ 0 then 1 else 0] : List UInt8) =
        (Scalar.bool (decide (value ≠ 0))).bytes := by
      by_cases hzero : value = 0
      · subst hzero
        rfl
      · simp [hzero, Scalar.bytes, Scalar.kind, Scalar.bits, Kind.size, leBytes]
    rw [cWriteBool, hbyte]
    exact congrArg (Prod.map (Except.map fun _ => ()) id) (hwrite (.c path))
  · intro path
    rw [goWriteScalar, hwrite]
    rfl
  · intro hkind path v hfit
    rw [pyWriteScalar, structPack_eq hkind, hfit]
    exact congrArg pyResult (hwrite (.python path))
  · rintro path v rfl
    have hbyte : (if v then [1] else [0] : List UInt8) = (Scalar.bool v).bytes := by
      cases v <;> rfl
    rw [pyWriteBool, hbyte]
    exact congrArg pyResult (hwrite (.python path))

/-- A scalar that any SDK writes is read by all of them, and the helpers for arrays of
numbers write and read a number as an array of one. Python sends nothing when the value
does not fit. -/
theorem scalar_read_back (m : TagStore e) (name : TagName) (s : Scalar)
    (hcap : s.bytes.length ≤ m.cap name.sent) (w : World σ) :
    (∃ w' : World σ, (∀ slots, ScalarWritten e slots name s w w') ∧
      (s.kind ≠ .bool → ∀ slots, Written e slots name (one s) w w') ∧
      (∀ other, other ≠ name.sent → m.bytes w'.engine other = m.bytes w.engine other) ∧
      ∀ slots, ScalarReadable e slots name s w' ∧
        (s.kind ≠ .bool → Readable e slots name (one s) w')) ∧
    ∀ slots path kind v, kind ≠ .bool → (∀ s, PyValue.fit kind (number v) ≠ .scalar s) →
      pyWriteScalar e slots name.bytes w kind path v = (.error .pack, w) := by
  have hroom : Room (one s).bytes.length := by
    rw [one_bytes]
    exact scalar_room s
  have hone : (one s).bytes.length ≤ m.cap name.sent := by
    rw [one_bytes]
    exact hcap
  have hbytes := stored_bytes m name (one_countable s) hroom hone w
  have hstored : firstBytes (one s).bytes.length
      (m.bytes ((one s).stored e name w).engine name.sent) = (one s).bytes := by
    rw [hbytes, Function.update_self, firstBytes_overwrite]
  refine ⟨⟨(one s).stored e name w, ?_, ?_, ?_, fun slots => ⟨?_, ?_⟩⟩, ?_⟩
  · exact scalarWritten_of_room m name s hcap w
  · exact fun hkind => written_of_room m hkind name (one_countable s) hroom hone w
  · intro other hother
    rw [hbytes, Function.update_of_ne hother]
  · rw [one_bytes] at hstored
    exact scalarReadable_of_stored m name s hcap hstored slots
  · exact fun _ => readable_of_stored m name (one_countable s) hroom hone hstored slots
  · intro slots path kind v hkind hmisfit
    rw [pyWriteScalar, structPack_of_misfit hkind hmisfit]

/-- A REAL, written to a tag of four bytes. -/
theorem scalar_read_back_real :
    ∃ w' : World (List UInt8 → Nat → UInt8), (∀ slots, ScalarWritten (memoryEngine fun _ => 4) slots
        tagB (.real 0x3FC00000) ⟨fun _ _ => 0, []⟩ w') ∧
      ∀ slots, ScalarReadable (memoryEngine fun _ => 4) slots tagB (.real 0x3FC00000) w' := by
  obtain ⟨⟨w', hwritten, -, -, hread⟩, -⟩ := scalar_read_back (memoryStore fun _ => 4) tagB
    (.real 0x3FC00000) (by decide) ⟨fun _ _ => 0, []⟩
  exact ⟨w', hwritten, fun slots => (hread slots).1⟩

end BpClient.Arrays
