import BpClient.Multi.Tags

/-!
Accesses with a single request: `arrayRW` and `scalarRW` of `go/ocxbp`,
`_array_rw` and `_scalar_rw` of `python/src/bpclient/tagdb.py`, and what the
macros of `c/src/access.c` expand to; and engines that store what is written.
-/

namespace BpClient.Arrays

open BpClient.Lib
open BpClient.Slot (Sdk)
open BpClient.Tag

inductive Fault
  | error (err : TagError)
  /-- Go panics. -/
  | panics
  deriving DecidableEq, Repr

structure TagName where
  bytes : List UInt8
  nul_free : 0 ∉ bytes
  ascii : bytes.all (· < 0x80)

def TagName.sent (name : TagName) : List UInt8 := name254 name.bytes

def tagB : TagName := ⟨[0x62], by decide, by decide⟩

theorem TagName.sent_nul_free (name : TagName) : 0 ∉ name.sent :=
  fun h => name.nul_free (List.mem_of_mem_take h)

theorem TagName.sent_ascii (name : TagName) : name.sent.all (· < 0x80) := by
  rw [List.all_eq_true]
  exact fun b hb => List.all_eq_true.mp name.ascii b (List.mem_of_mem_take hb)

section Single

variable {σ : Type} (e : Engine σ) (slots : Slots) (db : TagDb)

/-- One request, and the test of its result. What is returned is its data after
the call. -/
def single (r : TagRequest) (w : World σ) : Except Fault (List UInt8) × World σ :=
  match e.access slots db [r] w with
  | (.error err, w) => (.error (.error err), w)
  | (.ok results, w) =>
      match results with
      | [] => (.error (.error .engine), w)
      | (r, result) :: _ =>
          (if result ≠ 0 then .error (.error .generic) else .ok (r.data.getD []), w)

def emptyArray : Sdk → TagError
  | .c => .nullArg
  | .go | .python => .paramRange

/-- `arrayRW`, `_array_rw` and the macro `DEFINE_ARR` -/
def arrayRw (r : TagRequest) (w : World σ) : Except Fault (List UInt8) × World σ :=
  if r.elemCount = 0 then (.error (.error (emptyArray db.sdk)), w) else single e slots db r w

end Single

/-- A memory with bytes written over its beginning. -/
def overwrite (data : List UInt8) (old : Nat → UInt8) (i : Nat) : UInt8 :=
  if i < data.length then data.getD i 0 else old i

def firstBytes (n : Nat) (memory : Nat → UInt8) : List UInt8 := (List.range n).map memory

@[simp] theorem firstBytes_length (n : Nat) (memory : Nat → UInt8) :
    (firstBytes n memory).length = n := by
  simp [firstBytes]

/-- What has been written is read back. -/
theorem firstBytes_overwrite (data : List UInt8) (old : Nat → UInt8) :
    firstBytes data.length (overwrite data old) = data := by
  refine List.ext_getElem (by simp) fun i hi hi' => ?_
  simp [firstBytes, overwrite, hi']

/-- An engine with tags that keep what is written to them. `cap` is the size of a
tag in bytes; there is nothing to rely on where a request is larger. -/
structure TagStore {σ : Type} (e : Engine σ) where
  cap : List UInt8 → Nat
  bytes : σ → List UInt8 → Nat → UInt8
  write : ∀ s (r : WireRequest) data, r.action = 2 → r.data = some data →
    data.length = r.elemByteSize * r.elemCount → data.length ≤ cap r.tagName →
    ∃ a, (e.serve s [r]).1 = some [a] ∧ a.result = 0 ∧
      bytes (e.serve s [r]).2 =
        Function.update (bytes s) r.tagName (overwrite data (bytes s r.tagName))
  read : ∀ s (r : WireRequest), r.action = 1 →
    r.elemByteSize * r.elemCount ≤ cap r.tagName →
    ∃ a, (e.serve s [r]).1 = some [a] ∧ a.result = 0 ∧
      a.data = firstBytes (r.elemByteSize * r.elemCount) (bytes s r.tagName) ∧
      bytes (e.serve s [r]).2 = bytes s

section Requests

variable {σ : Type} {e : Engine σ} {slots : Slots} {db : TagDb} {r : TagRequest} {w : World σ}

/-- The data of a request alone has room in a slot. -/
def Room (n : Nat) : Prop := 0x2A0 + n ≤ slotStride - 0x80

instance (n : Nat) : Decidable (Room n) := inferInstanceAs (Decidable (_ ≤ _))

theorem room_of_le {n : Nat} (h : n ≤ 0x40000) : Room n := by
  simp only [Room, slotStride]
  omega

/-- A request alone can be sent when its name can and its data has room. -/
theorem sends_of_room (name : TagName)
    (haction : r.action = actionRead ∨ r.action = actionWrite) {data : List UInt8}
    (hdata : r.data = some data)
    (hlen : data.length = r.elemByteSize.toNat * r.elemCount.toNat)
    (hroom : Room data.length) : db.Sends [{ r with tagName := name.sent }] where
  pos := le_rfl
  length_le := show 1 ≤ 16 by decide
  sendable := by
    intro r' hr
    rw [List.mem_singleton] at hr
    subst hr
    exact ⟨name.sent_nul_free, name254_length name.bytes, haction, fun _ => ⟨data, hdata, hlen⟩⟩
  full := by
    intro r' hr
    rw [List.mem_singleton] at hr
    subst hr
    exact ⟨data, hdata, hlen⟩
  ascii := by
    intro _ r' hr
    rw [List.mem_singleton] at hr
    subst hr
    exact name.sent_ascii
  fits := by
    have htotal : (cAccess []).trueTotal [{ r with tagName := name.sent }] =
        0x2A0 + (1 - 1) * 0x120 + (r.elemByteSize.toNat * r.elemCount.toNat + 0) := rfl
    rw [htotal, ← hlen]
    exact hroom

theorem sends_single (name : TagName)
    (haction : r.action = actionRead ∨ r.action = actionWrite) {data : List UInt8}
    (hdata : r.data = some data)
    (hlen : data.length = r.elemByteSize.toNat * r.elemCount.toNat)
    (hfits : data.length ≤ 0x40000) : db.Sends [{ r with tagName := name.sent }] :=
  sends_of_room name haction hdata hlen (room_of_le hfits)

/-- What is sent is the beginning of the name. -/
theorem single_sent (name : TagName) (hname : r.tagName = name.bytes) :
    single e slots db r w = single e slots db { r with tagName := name.sent } w := by
  have hcall : db.call [r] = db.call [{ r with tagName := name.sent }] := by
    rw [TagName.sent, ← hname]
    exact db.call_name254 r (by rw [TagRequest.asciiName, hname, name.ascii])
  have hdata : ∀ b read, (db.receive b r read).1.data =
      (db.receive b { r with tagName := name.sent } read).1.data := by
    intro b read
    cases db <;> rfl
  have hresult : ∀ b read, (db.receive b r read).2 =
      (db.receive b { r with tagName := name.sent } read).2 := by
    intro b read
    cases db <;> rfl
  rw [single, single, Engine.access, Engine.access, hcall]
  cases db.call [{ r with tagName := name.sent }] with
  | error err => rfl
  | ok call =>
      obtain ⟨fill, read⟩ := call
      cases fill with
      | none => rfl
      | some fill =>
          dsimp only
          cases (e.serve w.engine
              (accessLayout.decode (Buffer.write fill (slots.slot w.log.length))).2).1 with
          | none => rfl
          | some answers =>
              cases read with
              | nil => rfl
              | cons read reads =>
                  simp only [List.zipWith_cons_cons, hdata, hresult]

/-- What is left of a single access that is an exchange. -/
theorem single_of_served (hs : db.Sends [r]) {a : Answer}
    (hserved : (e.serve w.engine [r.wire]).1 = some [a]) (hok : a.result = 0) :
    single e slots db r w = (.ok ((r.answered a).1.data.getD []),
      ⟨(e.serve w.engine [r.wire]).2, w.log ++ [([r.wire], some [a])]⟩) := by
  rw [single, e.access_eq_exchange slots hs w, Engine.exchange]
  simp only [List.map_cons, List.map_nil, hserved, List.zipWith_cons_cons, List.zipWith_nil_left]
  have hresult : (r.answered a).2 = 0 := hok
  rw [hresult]
  rfl

/-- What is left of one whose result is not zero. -/
theorem single_of_refused (hs : db.Sends [r]) {a : Answer}
    (hserved : (e.serve w.engine [r.wire]).1 = some [a]) (hresult : a.result ≠ 0) :
    (single e slots db r w).1 = .error (.error .generic) := by
  rw [single, e.access_eq_exchange slots hs w, Engine.exchange]
  simp only [List.map_cons, List.map_nil, hserved, List.zipWith_cons_cons, List.zipWith_nil_left]
  exact if_pos hresult

def after (e : Engine σ) (wire : List WireRequest) (w : World σ) : World σ :=
  ⟨(e.serve w.engine wire).2, w.log ++ [(wire, (e.serve w.engine wire).1)]⟩

theorem after_eq {wire : List WireRequest} {answers : Option (List Answer)}
    (h : (e.serve w.engine wire).1 = answers) :
    after e wire w = ⟨(e.serve w.engine wire).2, w.log ++ [(wire, answers)]⟩ := by
  rw [after, h]

/-- A write to a tag that has room is stored. -/
theorem TagStore.write_stored (m : TagStore e) (slots : Slots) (db : TagDb) (w : World σ)
    (r : TagRequest) (name : TagName) (hname : r.tagName = name.bytes) (haction : r.action = actionWrite)
    {data : List UInt8} (hdata : r.data = some data)
    (hlen : data.length = r.elemByteSize.toNat * r.elemCount.toNat)
    (hroom : Room data.length) (hcap : data.length ≤ m.cap name.sent) :
    single e slots db r w = (.ok data, after e [{ r with tagName := name.sent }.wire] w) ∧
      m.bytes (after e [{ r with tagName := name.sent }.wire] w).engine =
        Function.update (m.bytes w.engine) name.sent (overwrite data (m.bytes w.engine name.sent)) := by
  have hs : db.Sends [{ r with tagName := name.sent }] :=
    sends_of_room name (.inr haction) hdata hlen hroom
  have hwire : ({ r with tagName := name.sent } : TagRequest).wire.data = some data := by
    rw [TagRequest.wire, if_pos haction, hdata]
    rfl
  have hact : r.action.toNat = 2 := congrArg UInt16.toNat haction
  obtain ⟨a, hserved, hok, hbytes⟩ :=
    m.write w.engine { r with tagName := name.sent }.wire data hact hwire hlen hcap
  have hread : r.action ≠ actionRead := by
    rw [haction]
    decide
  refine ⟨?_, hbytes⟩
  rw [single_sent name hname, single_of_served hs hserved hok, after_eq hserved,
    TagRequest.answered, if_neg hread]
  simp only [hdata, Option.getD_some]

theorem TagStore.single_write (m : TagStore e) (slots : Slots) (db : TagDb) (w : World σ)
    (r : TagRequest) (name : TagName) (hname : r.tagName = name.bytes) (haction : r.action = actionWrite)
    {data : List UInt8} (hdata : r.data = some data)
    (hlen : data.length = r.elemByteSize.toNat * r.elemCount.toNat)
    (hfits : data.length ≤ 0x40000) (hcap : data.length ≤ m.cap name.sent) :
    ∃ s' answers, single e slots db r w =
        (.ok data, ⟨s', w.log ++ [([{ r with tagName := name.sent }.wire], answers)]⟩) ∧
      m.bytes s' = Function.update (m.bytes w.engine) name.sent
        (overwrite data (m.bytes w.engine name.sent)) :=
  ⟨_, _, m.write_stored slots db w r name hname haction hdata hlen (room_of_le hfits) hcap⟩

/-- A read of a tag that is large enough gives what is stored. -/
theorem TagStore.read_stored (m : TagStore e) (slots : Slots) (db : TagDb) (w : World σ)
    (r : TagRequest) (name : TagName) (hname : r.tagName = name.bytes) (haction : r.action = actionRead)
    {data : List UInt8} (hdata : r.data = some data)
    (hlen : data.length = r.elemByteSize.toNat * r.elemCount.toNat)
    (hroom : Room data.length) (hcap : data.length ≤ m.cap name.sent) :
    single e slots db r w =
        (.ok (firstBytes data.length (m.bytes w.engine name.sent)),
          after e [{ r with tagName := name.sent }.wire] w) ∧
      m.bytes (after e [{ r with tagName := name.sent }.wire] w).engine = m.bytes w.engine := by
  have hs : db.Sends [{ r with tagName := name.sent }] :=
    sends_of_room name (.inl haction) hdata hlen hroom
  have hact : r.action.toNat = 1 := congrArg UInt16.toNat haction
  obtain ⟨a, hserved, hok, hanswer, hbytes⟩ :=
    m.read w.engine { r with tagName := name.sent }.wire hact (hlen ▸ hcap)
  have hlength : a.data.length = data.length := by
    rw [hlen]
    exact (List.forall₂_cons.mp (e.sized _ _ _ hserved)).1 hact
  have hmemory : a.data = firstBytes data.length (m.bytes w.engine name.sent) := by
    rw [hanswer, hlen]
    rfl
  refine ⟨?_, hbytes⟩
  rw [single_sent name hname, single_of_served hs hserved hok, after_eq hserved,
    TagRequest.answered, if_pos haction, ← hmemory]
  simp only [hdata, Option.map_some, Option.getD_some, hlength, List.drop_length, List.append_nil]

theorem TagStore.single_read (m : TagStore e) (slots : Slots) (db : TagDb) (w : World σ)
    (r : TagRequest) (name : TagName) (hname : r.tagName = name.bytes) (haction : r.action = actionRead)
    {data : List UInt8} (hdata : r.data = some data)
    (hlen : data.length = r.elemByteSize.toNat * r.elemCount.toNat)
    (hfits : data.length ≤ 0x40000) (hcap : data.length ≤ m.cap name.sent) :
    ∃ s' answers, single e slots db r w =
        (.ok (firstBytes data.length (m.bytes w.engine name.sent)),
          ⟨s', w.log ++ [([{ r with tagName := name.sent }.wire], answers)]⟩) ∧
      m.bytes s' = m.bytes w.engine :=
  ⟨_, _, m.read_stored slots db w r name hname haction hdata hlen (room_of_le hfits) hcap⟩

end Requests

/-- An engine with tags of some sizes; it has no tag of no bytes. -/
def memoryEngine (cap : List UInt8 → Nat) : Engine (List UInt8 → Nat → UInt8) where
  serve := fun s reqs =>
    let fits := fun r : WireRequest => r.elemByteSize * r.elemCount ≤ cap r.tagName
    (some (reqs.map fun r =>
      ⟨if fits r then 0 else 5, firstBytes (r.elemByteSize * r.elemCount) (s r.tagName)⟩),
    reqs.foldl (fun s r =>
      if r.action = 2 ∧ fits r then
        Function.update s r.tagName (overwrite (r.data.getD []) (s r.tagName))
      else s) s)
  sized := by
    intro s reqs answers h
    cases h
    rw [List.forall₂_map_right_iff, List.forall₂_same]
    exact fun r _ _ => firstBytes_length _ _

def memoryStore (cap : List UInt8 → Nat) : TagStore (memoryEngine cap) where
  cap := cap
  bytes := fun s => s
  write := by
    intro s r data haction hdata hlen hcap
    rw [hlen] at hcap
    refine ⟨_, rfl, if_pos hcap, ?_⟩
    simp only [memoryEngine, List.foldl_cons, List.foldl_nil, haction, hcap, and_self, if_true,
      hdata, Option.getD_some]
  read := by
    intro s r haction hcap
    refine ⟨_, rfl, if_pos hcap, rfl, ?_⟩
    simp [memoryEngine, haction]

/-- A write to a tag that has no room is refused. -/
theorem memoryEngine_refuses (cap : List UInt8 → Nat) (slots : Slots) (db : TagDb)
    (w : World (List UInt8 → Nat → UInt8)) (r : TagRequest) (name : TagName)
    (hname : r.tagName = name.bytes) (haction : r.action = actionWrite) {data : List UInt8}
    (hdata : r.data = some data) (hlen : data.length = r.elemByteSize.toNat * r.elemCount.toNat)
    (hfits : data.length ≤ 0x40000) (hcap : cap name.sent < data.length) :
    (single (memoryEngine cap) slots db r w).1 = .error (.error .generic) := by
  have hs : db.Sends [{ r with tagName := name.sent }] :=
    sends_single name (.inr haction) hdata hlen hfits
  have hroom : ¬r.elemByteSize.toNat * r.elemCount.toNat ≤ cap name.sent := by
    rw [← hlen]
    omega
  have hresult : (if r.elemByteSize.toNat * r.elemCount.toNat ≤ cap name.sent then 0 else 5) ≠
      (0 : UInt32) := by
    rw [if_neg hroom]
    decide
  rw [single_sent name hname]
  exact single_of_refused hs rfl hresult

end BpClient.Arrays
