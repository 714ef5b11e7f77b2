import BpClient.Calls.Request
import BpClient.Errors.Mapping

/-!
The replies. A call has a type of reply; the engine lays a reply out in the payload, with
anything behind the end of a name, and each SDK takes its own way back from the bytes: C
and Go keep the bytes of a text, Python decodes them as ASCII.
-/

namespace BpClient.Calls

open BpClient.Lib
open BpClient.Slot (Sdk SlotBytes)
open BpClient.Tag (slotStride)

/-- `bp_symbol_info_t`. A text is the list of its characters: bytes in C and Go, code points
in Python. -/
structure SymbolInfo where
  name : List Nat
  dataType : UInt16
  structType : UInt16
  elemByteSize : UInt32
  dim0 : UInt32
  dim1 : UInt32
  dim2 : UInt32
  flags : UInt16
  deriving DecidableEq, Repr

structure StructInfo where
  name : List Nat
  dataType : UInt32
  byteSize : UInt32
  nMembers : UInt16
  deriving DecidableEq, Repr

structure StructMember where
  name : List Nat
  dataType : UInt16
  structId : UInt16
  byteSize : UInt32
  offset : UInt32
  arrayCount : UInt32
  flags : UInt8
  deriving DecidableEq, Repr

structure IdObject where
  vendorId : UInt16
  deviceType : UInt16
  productCode : UInt16
  majorRev : UInt8
  minorRev : UInt8
  status : UInt16
  serialNumber : UInt32
  productName : Block 32
  deriving DecidableEq, Repr

structure ParsedPath where
  encoded : List UInt8
  cipClass : UInt16
  segmentFlags : UInt8
  inst : UInt32
  attrFlags : UInt8
  deriving DecidableEq, Repr

def exDevObjectBytes : Nat := 226

def deviceIcpObjectBytes : Nat := 20

def Op.Reply : Op → Type
  | .openSession | .createTagDbHandle _ | .getSwitchPosition | .getLed _ => UInt32
  | .closeSession | .dummy | .deleteTagDbHandle _ | .setWcTime _ _ _ _ | .setLed _ _
  | .setDisplay _ => Unit
  | .errorString _ => List Nat
  | .buildTagDb _ | .getDeviceIdStatus _ _ => UInt16
  | .testTagDbVer _ => Bool
  | .getSymbolInfo _ _ => SymbolInfo
  | .getStructInfo _ _ => StructInfo
  | .getStructMbrInfo _ _ _ => StructMember
  | .getIdObject | .getDeviceIdObject _ _ => IdObject
  | .getExDevObject _ _ => Block exDevObjectBytes
  | .getDeviceIcpObject _ _ => Block deviceIcpObjectBytes
  | .getActiveNodeTable => UInt32 × UInt32
  | .parsePath _ => ParsedPath
  | .getWcTime _ _ _ => WcTime
  | .getDisplay => Block 5

section Decode

abbrev TextOf := List UInt8 → List Nat

def bytesText : TextOf := List.map UInt8.toNat

/-- `decode("ascii", "replace")`: U+FFFD for every byte that is not ASCII. -/
def asciiReplace : TextOf := List.map fun byte => if byte < 0x80 then byte.toNat else 0xFFFD

variable (text : TextOf) (b : SlotBytes)

def idAt (off : Nat) : IdObject where
  vendorId := u16At b off
  deviceType := u16At b (off + 0x02)
  productCode := u16At b (off + 0x04)
  majorRev := b.get (off + 0x06)
  minorRev := b.get (off + 0x07)
  status := u16At b (off + 0x08)
  serialNumber := u32At b (off + 0x0A)
  productName := ⟨b.read (off + 0x0E) 32, Buffer.read_length _ _ _⟩

def symbolOf (raw : List UInt8) : SymbolInfo where
  name := text (cString (raw.take 99))
  dataType := UInt16.ofNat (leField 0x64 2 raw)
  structType := UInt16.ofNat (leField 0x68 2 raw)
  elemByteSize := UInt32.ofNat (leField 0x6C 4 raw)
  dim0 := UInt32.ofNat (leField 0x70 4 raw)
  dim1 := UInt32.ofNat (leField 0x74 4 raw)
  dim2 := UInt32.ofNat (leField 0x78 4 raw)
  flags := UInt16.ofNat (leField 0x7C 2 raw)

def structInfoOf (raw : List UInt8) : StructInfo where
  name := text (cString (raw.take 39))
  dataType := UInt32.ofNat (leField 0x2C 4 raw)
  byteSize := UInt32.ofNat (leField 0x30 4 raw)
  nMembers := UInt16.ofNat (leField 0x36 2 raw)

def structMemberOf (raw : List UInt8) : StructMember where
  name := text (cString (raw.take 43))
  dataType := UInt16.ofNat (leField 0x2C 2 raw)
  structId := UInt16.ofNat (leField 0x30 2 raw)
  byteSize := UInt32.ofNat (leField 0x34 4 raw)
  offset := UInt32.ofNat (leField 0x38 4 raw)
  arrayCount := UInt32.ofNat (leField 0x40 4 raw)
  flags := UInt8.ofNat (leField 0x44 1 raw)

/-- `pp_read`, `DecodeParsePath` and `read` of `parse_path`. -/
def parsedPathAt : ParsedPath where
  encoded := b.read 0x180 (min (leNat (b.read 0x280 2)) 256)
  cipClass := u16At b 0x178
  segmentFlags := b.get 0x17A
  inst := u32At b 0x17C
  attrFlags := b.get 0x282

/-- The read callbacks. The three SDKs have the same offsets and widths, and differ in what
they make of a text. -/
def readReply : (op : Op) → op.Reply
  | .openSession => u32At b 0x78
  | .closeSession => ()
  | .dummy => ()
  | .errorString _ => text (cString (b.read 0x7C 78))
  | .createTagDbHandle _ => u32At b 0x17C
  | .deleteTagDbHandle _ => ()
  | .buildTagDb _ => u16At b 0x7C
  | .testTagDbVer _ => false
  | .getSymbolInfo _ _ => symbolOf text (b.read 0x80 128)
  | .getStructInfo _ _ => structInfoOf text (b.read 0x80 56)
  | .getStructMbrInfo _ _ _ => structMemberOf text (b.read 0x80 76)
  | .getIdObject => idAt b 0x78
  | .getDeviceIdObject _ _ => idAt b 0x178
  | .getDeviceIdStatus _ _ => u16At b 0x178
  | .getExDevObject _ _ => ⟨b.read 0x178 exDevObjectBytes, Buffer.read_length _ _ _⟩
  | .getDeviceIcpObject _ _ => ⟨b.read 0x178 deviceIcpObjectBytes, Buffer.read_length _ _ _⟩
  | .getActiveNodeTable => (u32At b 0x78, u32At b 0x7C)
  | .parsePath _ => parsedPathAt b
  | .getWcTime _ _ _ => wcTimeAt b
  | .setWcTime _ _ _ _ => ()
  | .getSwitchPosition => u32At b 0x78
  | .getLed _ => u32At b 0x7C
  | .setLed _ _ => ()
  | .getDisplay => ⟨b.read 0x78 4 ++ [0], by simp⟩
  | .setDisplay _ => ()

end Decode

def C.readReply : (op : Op) → SlotBytes → op.Reply := fun op b => Calls.readReply bytesText b op

def Go.readReply : (op : Op) → SlotBytes → op.Reply := fun op b => Calls.readReply bytesText b op

def Python.readReply : (op : Op) → SlotBytes → op.Reply :=
  fun op b => Calls.readReply asciiReplace b op

section Layout

/-- An ASCII text of at most `n` characters, none of them NUL. -/
def AsciiText (n : Nat) (text : List Nat) : Prop :=
  text.length ≤ n ∧ ∀ char ∈ text, 0 < char ∧ char < 0x80

instance (n : Nat) (text : List Nat) : Decidable (AsciiText n text) := by
  unfold AsciiText
  infer_instance

/-- What is taken for granted of a reply. `docs/protocol.md` promises ASCII for the text of
an error only; here the names of symbols and structures are ASCII too. That the symbol
table has changed the engine tells by an errorcode, not by a reply. -/
def WellFormed : (op : Op) → op.Reply → Prop
  | .errorString _, text => AsciiText 78 text
  | .testTagDbVer _, changed => changed = false
  | .getSymbolInfo _ _, info => AsciiText 99 info.name
  | .getStructInfo _ _, info => AsciiText 39 info.name
  | .getStructMbrInfo _ _ _, info => AsciiText 43 info.name
  | .parsePath _, path => path.encoded.length ≤ 256
  | .getDisplay, five => ∃ four : Block 4, five.1 = four.1 ++ [0]
  | _, _ => True

def textField (text : List Nat) (size : Nat) : List UInt8 :=
  terminated (text.map UInt8.ofNat) size

def IdObject.fields (id : IdObject) (off : Nat) : List Write :=
  [⟨off, leBytes 2 id.vendorId.toNat⟩, ⟨off + 0x02, leBytes 2 id.deviceType.toNat⟩,
    ⟨off + 0x04, leBytes 2 id.productCode.toNat⟩, ⟨off + 0x06, [id.majorRev]⟩,
    ⟨off + 0x07, [id.minorRev]⟩, ⟨off + 0x08, leBytes 2 id.status.toNat⟩,
    ⟨off + 0x0A, leBytes 4 id.serialNumber.toNat⟩, ⟨off + 0x0E, id.productName.1⟩]

def SymbolInfo.fields (info : SymbolInfo) : List Write :=
  [⟨0x80, textField info.name 100⟩, ⟨0xE4, leBytes 2 info.dataType.toNat⟩,
    ⟨0xE8, leBytes 2 info.structType.toNat⟩, ⟨0xEC, leBytes 4 info.elemByteSize.toNat⟩,
    ⟨0xF0, leBytes 4 info.dim0.toNat⟩, ⟨0xF4, leBytes 4 info.dim1.toNat⟩,
    ⟨0xF8, leBytes 4 info.dim2.toNat⟩, ⟨0xFC, leBytes 2 info.flags.toNat⟩]

def StructInfo.fields (info : StructInfo) : List Write :=
  [⟨0x80, textField info.name 40⟩, ⟨0xAC, leBytes 4 info.dataType.toNat⟩,
    ⟨0xB0, leBytes 4 info.byteSize.toNat⟩, ⟨0xB6, leBytes 2 info.nMembers.toNat⟩]

def StructMember.fields (info : StructMember) : List Write :=
  [⟨0x80, textField info.name 44⟩, ⟨0xAC, leBytes 2 info.dataType.toNat⟩,
    ⟨0xB0, leBytes 2 info.structId.toNat⟩, ⟨0xB4, leBytes 4 info.byteSize.toNat⟩,
    ⟨0xB8, leBytes 4 info.offset.toNat⟩, ⟨0xC0, leBytes 4 info.arrayCount.toNat⟩,
    ⟨0xC4, leBytes 1 info.flags.toNat⟩]

def ParsedPath.fields (path : ParsedPath) : List Write :=
  [⟨0x178, leBytes 2 path.cipClass.toNat⟩, ⟨0x17A, [path.segmentFlags]⟩,
    ⟨0x17C, leBytes 4 path.inst.toNat⟩, ⟨0x180, path.encoded⟩,
    ⟨0x280, leBytes 2 path.encoded.length⟩, ⟨0x282, [path.attrFlags]⟩]

/-- Where the engine stores a reply, in the order of the offsets. -/
def replyFields : (op : Op) → op.Reply → List Write
  | .openSession, handle => [⟨0x78, leBytes 4 (handle : UInt32).toNat⟩]
  | .errorString _, text => [⟨0x7C, textField text 78⟩]
  | .createTagDbHandle _, handle => [⟨0x17C, leBytes 4 (handle : UInt32).toNat⟩]
  | .buildTagDb _, count => [⟨0x7C, leBytes 2 (count : UInt16).toNat⟩]
  | .getSymbolInfo _ _, info => SymbolInfo.fields info
  | .getStructInfo _ _, info => StructInfo.fields info
  | .getStructMbrInfo _ _ _, info => StructMember.fields info
  | .getIdObject, id => IdObject.fields id 0x78
  | .getDeviceIdObject _ _, id => IdObject.fields id 0x178
  | .getDeviceIdStatus _ _, status => [⟨0x178, leBytes 2 (status : UInt16).toNat⟩]
  | .getExDevObject _ _, bytes => [⟨0x178, Subtype.val bytes⟩]
  | .getDeviceIcpObject _ _, bytes => [⟨0x178, Subtype.val bytes⟩]
  | .getActiveNodeTable, nodes =>
      [⟨0x78, leBytes 4 (Prod.fst nodes : UInt32).toNat⟩,
        ⟨0x7C, leBytes 4 (Prod.snd nodes : UInt32).toNat⟩]
  | .parsePath _, path => ParsedPath.fields path
  | .getWcTime _ _ _, wc => WcTime.fields wc
  | .getSwitchPosition, position => [⟨0x78, leBytes 4 (position : UInt32).toNat⟩]
  | .getLed _, state => [⟨0x7C, leBytes 4 (state : UInt32).toNat⟩]
  | .getDisplay, five => [⟨0x78, (Subtype.val five).take 4⟩]
  | _, _ => []

end Layout

/-- The fields of a reply come one behind the other, none in front of the payload area. -/
theorem replyFields_inOrder {op : Op} {r : op.Reply} (hwf : WellFormed op r) :
    InOrder (replyFields op r) ∧ ∀ w ∈ replyFields op r, 0x78 ≤ w.off := by
  have htext : ∀ (text : List Nat) (size : Nat), (textField text size).length ≤ size :=
    fun _ _ => List.length_take_le _ _
  cases op with
  | errorString _ => simp [replyFields, InOrder]
  | getSymbolInfo _ _ =>
      have hname := htext (SymbolInfo.name r) 100
      simp [replyFields, SymbolInfo.fields, InOrder, Region.stop, Write.region]
      omega
  | getStructInfo _ _ =>
      have hname := htext (StructInfo.name r) 40
      simp [replyFields, StructInfo.fields, InOrder, Region.stop, Write.region]
      omega
  | getStructMbrInfo _ _ _ =>
      have hname := htext (StructMember.name r) 44
      simp [replyFields, StructMember.fields, InOrder, Region.stop, Write.region]
      omega
  | getIdObject | getDeviceIdObject _ _ =>
      simp [replyFields, IdObject.fields, InOrder, Region.stop, Write.region]
  | parsePath _ =>
      have hlen : (ParsedPath.encoded r).length ≤ 256 := hwf
      simp [replyFields, ParsedPath.fields, InOrder, Region.stop, Write.region]
      omega
  | getWcTime _ _ _ => simp [replyFields, WcTime.fields, InOrder, Region.stop, Write.region]
  | _ => simp [replyFields, InOrder, Region.stop, Write.region]

section Text

variable {text : List Nat} {n : Nat}

theorem AsciiText.toNat_ofNat (h : AsciiText n text) {char : Nat} (hchar : char ∈ text) :
    (UInt8.ofNat char).toNat = char :=
  UInt8.toNat_ofNat_of_lt ((h.2 char hchar).2.trans (by decide))

theorem AsciiText.bytesText_eq (h : AsciiText n text) :
    bytesText (text.map UInt8.ofNat) = text := by
  rw [bytesText, List.map_map]
  calc text.map (UInt8.toNat ∘ UInt8.ofNat)
      = text.map id := List.map_congr_left fun char hchar => h.toNat_ofNat hchar
    _ = text := List.map_id text

theorem AsciiText.nul_free (h : AsciiText n text) : 0 ∉ text.map UInt8.ofNat := by
  intro hzero
  obtain ⟨char, hchar, hnul⟩ := List.mem_map.mp hzero
  have htoNat := h.toNat_ofNat hchar
  rw [hnul] at htoNat
  have hpos := (h.2 char hchar).1
  rw [← htoNat] at hpos
  exact Nat.lt_irrefl 0 hpos

theorem AsciiText.asciiReplace_eq (h : AsciiText n text) :
    asciiReplace (text.map UInt8.ofNat) = text := by
  have hbytes : asciiReplace (text.map UInt8.ofNat) = bytesText (text.map UInt8.ofNat) := by
    apply List.map_congr_left
    intro byte hbyte
    obtain ⟨char, hchar, rfl⟩ := List.mem_map.mp hbyte
    have hlt : UInt8.ofNat char < 0x80 := by
      rw [UInt8.lt_iff_toNat_lt, h.toNat_ofNat hchar]
      exact (h.2 char hchar).2
    rw [if_pos hlt]
  rw [hbytes, h.bytesText_eq]

/-- What C, Go and Python make of texts: each has the characters of an ASCII text. -/
def TextOf.Ascii (textOf : TextOf) : Prop :=
  ∀ n text, AsciiText n text → textOf (text.map UInt8.ofNat) = text

theorem bytesText_ascii : TextOf.Ascii bytesText := fun _ _ h => h.bytesText_eq

theorem asciiReplace_ascii : TextOf.Ascii asciiReplace := fun _ _ h => h.asciiReplace_eq

end Text

section Records

variable {ws : List Write} (b : SlotBytes) (hws : InOrder ws) {textOf : TextOf}
  (htext : textOf.Ascii)

theorem u16_leField {off len start : Nat} (h : start + 2 ≤ len) :
    UInt16.ofNat (leField start 2 (b.read off len)) = u16At b (off + start) := by
  rw [Buffer.leField_read b h, u16At]

theorem u32_leField {off len start : Nat} (h : start + 4 ≤ len) :
    UInt32.ofNat (leField start 4 (b.read off len)) = u32At b (off + start) := by
  rw [Buffer.leField_read b h, u32At]

include hws htext in
theorem text_of_mem {off size n : Nat} {text : List Nat} (hw : ⟨off, textField text size⟩ ∈ ws)
    (h : AsciiText n text) (hn : n ≤ size) (hin : off + size ≤ slotStride) :
    textOf (cString ((Buffer.write ws b).read off n)) = text := by
  have hlen : (text.map UInt8.ofNat).length ≤ n := by
    rw [List.length_map]
    exact h.1
  rw [Buffer.cString_of_mem b hws hw h.nul_free hlen hn hin]
  exact htext n text h

include hws in
theorem block_of_mem {off n : Nat} {block : Block n} (hw : ⟨off, block.1⟩ ∈ ws)
    (hin : off + n ≤ slotStride) : (Buffer.write ws b).read off n = block.1 := by
  have hread := Buffer.read_of_mem b hws hw (by
    simpa only [Region.Within, Region.stop, Write.region, block.2] using hin)
  rwa [block.2] at hread

include hws htext in
/-- A descriptor of a symbol is read back from its fields. -/
theorem symbol_of_mem {info : SymbolInfo} (hsub : ∀ w ∈ info.fields, w ∈ ws)
    (hname : AsciiText 99 info.name) :
    symbolOf textOf ((Buffer.write ws b).read 0x80 128) = info := by
  simp only [SymbolInfo.fields, List.forall_mem_cons] at hsub
  obtain ⟨h₀, h₁, h₂, h₃, h₄, h₅, h₆, h₇, -⟩ := hsub
  cases info
  simp only [symbolOf, SymbolInfo.mk.injEq]
  refine ⟨?_, ?_, ?_, ?_, ?_, ?_, ?_, ?_⟩
  · rw [Buffer.read_take _ (by decide)]
    exact text_of_mem b hws htext h₀ hname (by decide) (by decide)
  · rw [u16_leField _ (by decide)]
    exact u16At_of_mem b hws h₁ (by decide)
  · rw [u16_leField _ (by decide)]
    exact u16At_of_mem b hws h₂ (by decide)
  · rw [u32_leField _ (by decide)]
    exact u32At_of_mem b hws h₃ (by decide)
  · rw [u32_leField _ (by decide)]
    exact u32At_of_mem b hws h₄ (by decide)
  · rw [u32_leField _ (by decide)]
    exact u32At_of_mem b hws h₅ (by decide)
  · rw [u32_leField _ (by decide)]
    exact u32At_of_mem b hws h₆ (by decide)
  · rw [u16_leField _ (by decide)]
    exact u16At_of_mem b hws h₇ (by decide)

include hws htext in
theorem structInfo_of_mem {info : StructInfo} (hsub : ∀ w ∈ info.fields, w ∈ ws)
    (hname : AsciiText 39 info.name) :
    structInfoOf textOf ((Buffer.write ws b).read 0x80 56) = info := by
  simp only [StructInfo.fields, List.forall_mem_cons] at hsub
  obtain ⟨h₀, h₁, h₂, h₃, -⟩ := hsub
  cases info
  simp only [structInfoOf, StructInfo.mk.injEq]
  refine ⟨?_, ?_, ?_, ?_⟩
  · rw [Buffer.read_take _ (by decide)]
    exact text_of_mem b hws htext h₀ hname (by decide) (by decide)
  · rw [u32_leField _ (by decide)]
    exact u32At_of_mem b hws h₁ (by decide)
  · rw [u32_leField _ (by decide)]
    exact u32At_of_mem b hws h₂ (by decide)
  · rw [u16_leField _ (by decide)]
    exact u16At_of_mem b hws h₃ (by decide)

include hws htext in
/-- A descriptor of a member is read back from its fields. -/
theorem structMember_of_mem {info : StructMember} (hsub : ∀ w ∈ info.fields, w ∈ ws)
    (hname : AsciiText 43 info.name) :
    structMemberOf textOf ((Buffer.write ws b).read 0x80 76) = info := by
  simp only [StructMember.fields, List.forall_mem_cons] at hsub
  obtain ⟨h₀, h₁, h₂, h₃, h₄, h₅, h₆, -⟩ := hsub
  cases info
  simp only [structMemberOf, StructMember.mk.injEq]
  refine ⟨?_, ?_, ?_, ?_, ?_, ?_, ?_⟩
  · rw [Buffer.read_take _ (by decide)]
    exact text_of_mem b hws htext h₀ hname (by decide) (by decide)
  · rw [u16_leField _ (by decide)]
    exact u16At_of_mem b hws h₁ (by decide)
  · rw [u16_leField _ (by decide)]
    exact u16At_of_mem b hws h₂ (by decide)
  · rw [u32_leField _ (by decide)]
    exact u32At_of_mem b hws h₃ (by decide)
  · rw [u32_leField _ (by decide)]
    exact u32At_of_mem b hws h₄ (by decide)
  · rw [u32_leField _ (by decide)]
    exact u32At_of_mem b hws h₅ (by decide)
  · rw [Buffer.leField_read _ (by decide), Buffer.leNat_of_mem b hws h₆ (UInt8.toNat_lt _)
      (by decide), UInt8.ofNat_toNat]

include hws in
theorem id_of_mem {id : IdObject} {off : Nat} (hsub : ∀ w ∈ id.fields off, w ∈ ws)
    (hin : off + 46 ≤ slotStride) : idAt (Buffer.write ws b) off = id := by
  simp only [IdObject.fields, List.forall_mem_cons] at hsub
  obtain ⟨h₀, h₁, h₂, h₃, h₄, h₅, h₆, h₇, -⟩ := hsub
  cases id
  simp only [idAt, IdObject.mk.injEq]
  refine ⟨?_, ?_, ?_, ?_, ?_, ?_, ?_, ?_⟩
  · exact u16At_of_mem b hws h₀ (by omega)
  · exact u16At_of_mem b hws h₁ (by omega)
  · exact u16At_of_mem b hws h₂ (by omega)
  · exact Buffer.get_of_mem b hws h₃ (by omega)
  · exact Buffer.get_of_mem b hws h₄ (by omega)
  · exact u16At_of_mem b hws h₅ (by omega)
  · exact u32At_of_mem b hws h₆ (by omega)
  · exact Subtype.ext (block_of_mem b hws h₇ (by omega))

include hws in
theorem parsedPath_of_mem {path : ParsedPath} (hsub : ∀ w ∈ path.fields, w ∈ ws)
    (hlen : path.encoded.length ≤ 256) : parsedPathAt (Buffer.write ws b) = path := by
  simp only [ParsedPath.fields, List.forall_mem_cons] at hsub
  obtain ⟨h₀, h₁, h₂, h₃, h₄, h₅, -⟩ := hsub
  have hsize : leNat ((Buffer.write ws b).read 0x280 2) = path.encoded.length :=
    Buffer.leNat_of_mem b hws h₄ (by omega) (by decide)
  have hencoded : (Buffer.write ws b).read 0x180 path.encoded.length = path.encoded :=
    Buffer.read_of_mem b hws h₃ (by
      simp only [Region.Within, Region.stop, Write.region, slotStride]
      omega)
  cases path
  simp only [parsedPathAt, ParsedPath.mk.injEq, hsize, Nat.min_eq_left hlen]
  refine ⟨hencoded, ?_, ?_, ?_, ?_⟩
  · exact u16At_of_mem b hws h₀ (by decide)
  · exact Buffer.get_of_mem b hws h₁ (by decide)
  · exact u32At_of_mem b hws h₂ (by decide)
  · exact Buffer.get_of_mem b hws h₅ (by decide)

include hws htext in
/-- Each call gets back the reply that the engine has stored for it. -/
theorem readReply_of_mem {op : Op} {r : op.Reply} (hsub : ∀ w ∈ replyFields op r, w ∈ ws)
    (hwf : WellFormed op r) : readReply textOf (Buffer.write ws b) op = r := by
  cases op with
  | openSession | createTagDbHandle _ | getSwitchPosition | getLed _ =>
      exact u32At_of_mem b hws (hsub _ List.mem_cons_self) (by decide)
  | buildTagDb _ | getDeviceIdStatus _ _ =>
      exact u16At_of_mem b hws (hsub _ List.mem_cons_self) (by decide)
  | errorString _ =>
      exact text_of_mem b hws htext (hsub _ List.mem_cons_self) hwf le_rfl (by decide)
  | testTagDbVer _ => exact hwf.symm
  | getSymbolInfo _ _ => exact symbol_of_mem b hws htext hsub hwf
  | getStructInfo _ _ => exact structInfo_of_mem b hws htext hsub hwf
  | getStructMbrInfo _ _ _ => exact structMember_of_mem b hws htext hsub hwf
  | getIdObject | getDeviceIdObject _ _ => exact id_of_mem b hws hsub (by decide)
  | getExDevObject _ _ | getDeviceIcpObject _ _ =>
      exact Subtype.ext (block_of_mem b hws (hsub _ List.mem_cons_self) (by decide))
  | getActiveNodeTable =>
      have hlo := u32At_of_mem b hws (hsub _ List.mem_cons_self) (by decide)
      have hhi := u32At_of_mem b hws (hsub _ (List.mem_of_getElem? (i := 1) rfl)) (by decide)
      exact Prod.ext hlo hhi
  | parsePath _ => exact parsedPath_of_mem b hws hsub hwf
  | getWcTime _ _ _ => exact wcTimeAt_of_mem b hws _ hsub
  | getDisplay =>
      obtain ⟨four, hfour⟩ := hwf
      have htake : (Subtype.val r).take 4 = four.1 := by
        rw [hfour]
        exact List.take_left' four.2
      have hmem := hsub _ List.mem_cons_self
      rw [htake] at hmem
      apply Subtype.ext
      rw [hfour]
      exact congrArg (· ++ [0]) (block_of_mem b hws hmem (by decide))
  | _ => rfl

end Records

end BpClient.Calls
