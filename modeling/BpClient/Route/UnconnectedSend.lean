import BpClient.Lib.Buffer
import BpClient.Lib.Bytes

/-!
The body of an Unconnected_Send, which carries a message over a route:
`bp_build_unconnected_send` of `c/src/route.c`, `BuildUnconnectedSend` of
`go/ocxbp/cip/route.go`, `build_unconnected_send` of
`python/src/bpclient/_route.py`.
-/

namespace BpClient.Route

open BpClient.Lib

def ucsTickVal : UInt8 := 5

def einval : Int := -22
def enospc : Int := -28

namespace C

def ticks (timeoutMs : UInt16) : UInt32 :=
  let ticks := (timeoutMs.toUInt32 + 32 - 1) / 32
  let ticks := if ticks < 1 then 1 else ticks
  if 255 < ticks then 255 else ticks

def pieces (embedded route : List UInt8) (timeoutMs : UInt16) : List (List UInt8) :=
  [[0x52], [0x02], [0x20], [0x06], [0x24], [0x01], [ucsTickVal &&& 0x0F],
    [(ticks timeoutMs).toUInt8], [UInt8.ofNat (embedded.length &&& 0xFF)],
    [UInt8.ofNat ((embedded.length >>> 8) &&& 0xFF)], embedded] ++
    (if embedded.length &&& 1 ≠ 0 then [[0x00]] else []) ++
    [[UInt8.ofNat (route.length / 2)], [0x00], route]

/-- `bp_build_unconnected_send`; `none` is a null pointer. -/
def bpBuildUnconnectedSend {cap : Nat} (out : Option (Buffer cap))
    (embedded route : Option (List UInt8)) (timeoutMs : UInt16) : Int × Option (Buffer cap) :=
  match out, embedded, route with
  | some out, some embedded, some route =>
      if route.length &&& 1 ≠ 0 then (einval, some out)
      else if embedded.length = 0 ∨ 0xFFFF < embedded.length then (einval, some out)
      else if route.length = 0 ∨ 0x1FE < route.length then (einval, some out)
      else
        let total := 10 + embedded.length + (embedded.length &&& 1) + 2 + route.length
        if cap < total then (enospc, some out)
        else
          let pieces := pieces embedded route timeoutMs
          (pieces.flatten.length, some (Buffer.write (appended 0 pieces) out))
  | out, _, _ => (0, out)

end C

namespace Go

def ticks (timeoutMs : UInt16) : UInt32 :=
  let ticks := (timeoutMs.toUInt32 + 32 - 1) / 32
  let ticks := if ticks < 1 then 1 else ticks
  if 255 < ticks then 255 else ticks

def pieces (embedded route : List UInt8) (timeoutMs : UInt16) : List (List UInt8) :=
  [[0x52], [0x02], [0x20], [0x06], [0x24], [0x01], [ucsTickVal &&& 0x0F],
    [(ticks timeoutMs).toUInt8], leBytes 2 (UInt16.ofNat embedded.length).toNat, embedded] ++
    (if embedded.length &&& 1 = 1 then [[0x00]] else []) ++
    [[UInt8.ofNat (route.length / 2)], [0x00], route]

/-- `BuildUnconnectedSend`; `none` is a nil slice. -/
def buildUnconnectedSend {cap : Nat} (buf : Option (Buffer cap))
    (embedded route : Option (List UInt8)) (timeoutMs : UInt16) : Int × Option (Buffer cap) :=
  match buf, embedded, route with
  | some buf, some embedded, some route =>
      if route.length &&& 1 ≠ 0 then (-22, some buf)
      else if embedded.length = 0 ∨ 0xFFFF < embedded.length then (-22, some buf)
      else if route.length = 0 ∨ 0x1FE < route.length then (-22, some buf)
      else
        let total := 10 + embedded.length + (embedded.length &&& 1) + 2 + route.length
        if cap < total then (-28, some buf)
        else
          let pieces := pieces embedded route timeoutMs
          (pieces.flatten.length, some (Buffer.write (appended 0 pieces) buf))
  | buf, _, _ => (0, buf)

end Go

namespace Python

def ticks (timeoutMs : Int) : Int := max 1 (min 255 ((timeoutMs + 32 - 1) / 32))

def pieces (embedded route : List UInt8) (timeoutMs : Int) : List (List UInt8) :=
  [[0x52], [0x02], [0x20], [0x06], [0x24], [0x01], [ucsTickVal &&& 0x0F],
    [UInt8.ofNat (ticks timeoutMs).toNat], leBytes 2 embedded.length, embedded] ++
    (if embedded.length &&& 1 ≠ 0 then [[0x00]] else []) ++
    [[UInt8.ofNat (route.length / 2)], [0x00], route]

/-- `build_unconnected_send`, or the text of its `ValueError`; `none` is Python's
`None`. -/
def buildUnconnectedSend (embedded route : Option (List UInt8)) (timeoutMs : Int) :
    Except String (List UInt8) :=
  let embedded := embedded.getD []
  let route := route.getD []
  if embedded.length = 0 then .error "embedded_msg is required"
  else if route.length = 0 then .error "route_path is required"
  else if route.length &&& 1 ≠ 0 then
    .error "route_path length must be even (encoded as 16-bit words)"
  else if 0xFFFF < embedded.length then
    .error ("embedded_msg too large (" ++ toString embedded.length ++ " > 0xFFFF)")
  else if 0x1FE < route.length then
    .error ("route_path too large (" ++ toString route.length ++ " > 510)")
  else
    let total := 10 + embedded.length + (embedded.length &&& 1) + 2 + route.length
    let out : Buffer total := fun _ => 0
    .ok ((Buffer.write (appended 0 (pieces embedded route timeoutMs)) out).read 0 total)

end Python

/-- A body as a gateway takes it apart. -/
structure UnconnectedSend where
  tick : UInt8
  ticks : UInt8
  embedded : List UInt8
  route : List UInt8
  deriving DecidableEq, Repr

/-- The route behind the message: its size in words, a reserved byte, and its
segments. -/
def parseRoute : List UInt8 → Option (List UInt8)
  | words :: _ :: route => if route.length = 2 * words.toNat then some route else none
  | _ => none

/-- The pad behind a message of odd length. -/
def skipPad (len : Nat) (bytes : List UInt8) : Option (List UInt8) :=
  if len % 2 = 0 then some bytes
  else
    match bytes with
    | 0 :: bytes => some bytes
    | _ => none

/-- The service, the path of the Connection Manager, the timeout, the message and
the route. -/
def parse : List UInt8 → Option UnconnectedSend
  | 0x52 :: 0x02 :: 0x20 :: 0x06 :: 0x24 :: 0x01 :: tick :: ticks :: lo :: hi :: rest =>
      let len := leNat [lo, hi]
      if rest.length < len then none
      else do
        let behind ← skipPad len (rest.drop len)
        let route ← parseRoute behind
        some ⟨tick, ticks, rest.take len, route⟩
  | _ => none

/-- Messages and routes that have an encoding. -/
structure Sized (embedded route : List UInt8) : Prop where
  embedded_pos : 1 ≤ embedded.length
  embedded_le : embedded.length ≤ 65535
  route_ge : 2 ≤ route.length
  route_le : route.length ≤ 510
  route_even : route.length % 2 = 0

/-- The timeout in ticks, rounded up. -/
def ticksOf (timeoutMs : Nat) : Nat := min 255 (max 1 ((timeoutMs + 31) / 32))

section Ticks

theorem ticksOf_le (timeoutMs : Nat) : ticksOf timeoutMs ≤ 255 := Nat.min_le_left _ _

/-- The ticks last as long as the timeout, or as long as ticks can. -/
theorem le_ticksOf (timeoutMs : Nat) :
    timeoutMs ≤ ticksOf timeoutMs * 32 ∨ ticksOf timeoutMs = 255 := by
  unfold ticksOf
  omega

theorem C.ticks_toNat (timeoutMs : UInt16) :
    (C.ticks timeoutMs).toNat = ticksOf timeoutMs.toNat := by
  have := timeoutMs.toNat_lt
  have hsum : ((timeoutMs.toUInt32 + 32 - 1) / 32).toNat = (timeoutMs.toNat + 31) / 32 := by
    have hle : (1 : UInt32) ≤ timeoutMs.toUInt32 + 32 := by
      rw [UInt32.le_iff_toNat_le, UInt32.toNat_add, UInt16.toNat_toUInt32]
      simp only [UInt32.reduceToNat]
      omega
    rw [UInt32.toNat_div, UInt32.toNat_sub_of_le _ _ hle, UInt32.toNat_add, UInt16.toNat_toUInt32]
    simp only [UInt32.reduceToNat]
    omega
  unfold C.ticks ticksOf
  dsimp only
  rw [← hsum]
  generalize (timeoutMs.toUInt32 + 32 - 1) / 32 = ticks
  split <;> split <;> simp_all [UInt32.lt_iff_toNat_lt] <;> omega

theorem Python.ticks_eq (timeoutMs : Nat) : Python.ticks timeoutMs = ticksOf timeoutMs := by
  unfold Python.ticks ticksOf
  omega

end Ticks

section Body

theorem leBytes_two (v : Nat) : leBytes 2 v = [UInt8.ofNat v, UInt8.ofNat (v / 256)] := by
  rw [leBytes_succ, leBytes_succ]
  rfl

def body (embedded route : List UInt8) (timeoutMs : Nat) : List UInt8 :=
  [0x52, 0x02, 0x20, 0x06, 0x24, 0x01, ucsTickVal, UInt8.ofNat (ticksOf timeoutMs),
    UInt8.ofNat embedded.length, UInt8.ofNat (embedded.length / 256)] ++
    (embedded ++ ((if embedded.length % 2 = 0 then [] else [0x00]) ++
      (UInt8.ofNat (route.length / 2) :: 0x00 :: route)))

variable {embedded route : List UInt8}

theorem body_length (embedded route : List UInt8) (timeoutMs : Nat) :
    (body embedded route timeoutMs).length =
      10 + embedded.length + embedded.length % 2 + 2 + route.length := by
  have hpad : (if embedded.length % 2 = 0 then [] else [(0x00 : UInt8)]).length =
      embedded.length % 2 := by
    split
    · next heven => exact heven.symm
    · next hodd => exact (Nat.mod_two_ne_zero.mp hodd).symm
  rw [body, List.length_append, List.length_append, List.length_append, hpad]
  simp only [List.length_cons, List.length_nil]
  omega

/-- The parser finds the message and the route. -/
theorem parse_body (h : Sized embedded route) (timeoutMs : Nat) :
    parse (body embedded route timeoutMs) =
      some ⟨5, UInt8.ofNat (ticksOf timeoutMs), embedded, route⟩ := by
  have hle := h.embedded_le
  have hroute := h.route_le
  have heven := h.route_even
  have hlen : leNat [UInt8.ofNat embedded.length, UInt8.ofNat (embedded.length / 256)] =
      embedded.length := leBytes_two embedded.length ▸ leNat_leBytes_of_lt (show embedded.length < 256 ^ 2 by omega)
  have hwords : route.length = 2 * (UInt8.ofNat (route.length / 2)).toNat := by
    rw [UInt8.toNat_ofNat']
    omega
  have hpad : skipPad embedded.length ((if embedded.length % 2 = 0 then [] else [0x00]) ++
      (UInt8.ofNat (route.length / 2) :: 0x00 :: route)) =
      some (UInt8.ofNat (route.length / 2) :: 0x00 :: route) := by
    unfold skipPad
    split <;> rfl
  have hparse : parseRoute (UInt8.ofNat (route.length / 2) :: 0x00 :: route) = some route :=
    if_pos hwords
  rw [body]
  simp only [List.cons_append, List.nil_append, parse, hlen]
  rw [if_neg (by rw [List.length_append]; omega), List.drop_left, List.take_left, hpad]
  simp only [Option.bind_eq_bind, Option.bind_some, hparse]
  rfl

theorem C.pieces_flatten (embedded route : List UInt8) (timeoutMs : UInt16) :
    (C.pieces embedded route timeoutMs).flatten = body embedded route timeoutMs.toNat := by
  have hticks : (C.ticks timeoutMs).toUInt8 = UInt8.ofNat (ticksOf timeoutMs.toNat) := by
    rw [← C.ticks_toNat]
    rfl
  have hlo : UInt8.ofNat (embedded.length &&& 0xFF) = UInt8.ofNat embedded.length := by
    rw [Nat.and_two_pow_sub_one_eq_mod _ 8]
    exact UInt8.ofNat_mod_size
  have hhi : UInt8.ofNat ((embedded.length >>> 8) &&& 0xFF) =
      UInt8.ofNat (embedded.length / 256) := by
    rw [Nat.and_two_pow_sub_one_eq_mod _ 8, Nat.shiftRight_eq_div_pow]
    exact UInt8.ofNat_mod_size
  have hpad : (if embedded.length &&& 1 ≠ 0 then [[0x00]] else []).flatten =
      if embedded.length % 2 = 0 then [] else [(0x00 : UInt8)] := by
    rw [Nat.and_one_is_mod, ite_not, apply_ite List.flatten]
    rfl
  rw [C.pieces, List.flatten_append, List.flatten_append, hpad, hticks, hlo, hhi]
  simp only [body, List.flatten_cons, List.flatten_nil, List.append_nil, List.append_assoc]
  rfl

theorem Go.pieces_eq {embedded route : List UInt8} (h : embedded.length ≤ 65535)
    (timeoutMs : UInt16) :
    (Go.pieces embedded route timeoutMs).flatten = body embedded route timeoutMs.toNat := by
  have hticks : (Go.ticks timeoutMs).toUInt8 = UInt8.ofNat (ticksOf timeoutMs.toNat) := by
    rw [← C.ticks_toNat]
    rfl
  have hcount : (UInt16.ofNat embedded.length).toNat = embedded.length :=
    UInt16.toNat_ofNat_of_lt' (by simp only [UInt16.size]; omega)
  have hpad : (if embedded.length &&& 1 = 1 then [[0x00]] else []).flatten =
      if embedded.length % 2 = 0 then [] else [(0x00 : UInt8)] := by
    rw [Nat.and_one_is_mod]
    split <;> split <;> first | rfl | omega
  rw [Go.pieces, List.flatten_append, List.flatten_append, hpad, hticks, hcount, leBytes_two]
  simp only [body, List.flatten_cons, List.flatten_nil, List.append_nil, List.append_assoc]
  rfl

theorem Python.pieces_eq (embedded route : List UInt8) (timeoutMs : Nat) :
    (Python.pieces embedded route timeoutMs).flatten = body embedded route timeoutMs := by
  have hpad : (if embedded.length &&& 1 ≠ 0 then [[0x00]] else []).flatten =
      if embedded.length % 2 = 0 then [] else [(0x00 : UInt8)] := by
    rw [Nat.and_one_is_mod, ite_not, apply_ite List.flatten]
    rfl
  rw [Python.pieces, List.flatten_append, List.flatten_append, hpad, Python.ticks_eq,
    Int.toNat_natCast, leBytes_two]
  simp only [body, List.flatten_cons, List.flatten_nil, List.append_nil, List.append_assoc]
  rfl

end Body

section Calls

variable {cap : Nat} {embedded route : List UInt8} {timeoutMs : UInt16}

def filledWith (out : Buffer cap) (body : List UInt8) : Buffer cap := Buffer.write [⟨0, body⟩] out

theorem Sized.no_einval (h : Sized embedded route) : ¬route.length &&& 1 ≠ 0 ∧
    ¬(embedded.length = 0 ∨ 0xFFFF < embedded.length) ∧
    ¬(route.length = 0 ∨ 0x1FE < route.length) := by
  have := h.embedded_pos
  have := h.embedded_le
  have := h.route_ge
  have := h.route_le
  rw [Nat.and_one_is_mod, h.route_even]
  omega

theorem total_eq (embedded route : List UInt8) (timeoutMs : Nat) :
    10 + embedded.length + (embedded.length &&& 1) + 2 + route.length =
      (body embedded route timeoutMs).length := by
  rw [body_length, Nat.and_one_is_mod]

/-- C's function, where it can encode. -/
theorem C.build_eq (h : Sized embedded route) (out : Buffer cap) :
    C.bpBuildUnconnectedSend (some out) (some embedded) (some route) timeoutMs =
      if cap < (body embedded route timeoutMs.toNat).length then (enospc, some out)
      else (((body embedded route timeoutMs.toNat).length : Nat),
        some (filledWith out (body embedded route timeoutMs.toNat))) := by
  obtain ⟨heven, hembedded, hroute⟩ := h.no_einval
  simp only [bpBuildUnconnectedSend, if_neg heven, if_neg hembedded, if_neg hroute,
    total_eq embedded route timeoutMs.toNat, (appended_sameEffect 0 _).write,
    C.pieces_flatten]
  rfl

/-- And Go's. -/
theorem Go.build_eq (h : Sized embedded route) (out : Buffer cap) :
    Go.buildUnconnectedSend (some out) (some embedded) (some route) timeoutMs =
      if cap < (body embedded route timeoutMs.toNat).length then (enospc, some out)
      else (((body embedded route timeoutMs.toNat).length : Nat),
        some (filledWith out (body embedded route timeoutMs.toNat))) := by
  obtain ⟨heven, hembedded, hroute⟩ := h.no_einval
  simp only [buildUnconnectedSend, if_neg heven, if_neg hembedded, if_neg hroute,
    total_eq embedded route timeoutMs.toNat, (appended_sameEffect 0 _).write,
    Go.pieces_eq h.embedded_le]
  rfl

/-- And Python's, which makes its own buffer. -/
theorem Python.build_eq (h : Sized embedded route) (timeoutMs : Nat) :
    Python.buildUnconnectedSend (some embedded) (some route) timeoutMs =
      .ok (body embedded route timeoutMs) := by
  obtain ⟨heven, hembedded, hroute⟩ := h.no_einval
  rw [not_or] at hembedded hroute
  have hread := Buffer.read_write [] [] (body embedded route timeoutMs)
    (fun _ => 0 : Buffer (body embedded route timeoutMs).length) (by simp) (Nat.zero_add _).le
  rw [buildUnconnectedSend]
  simp only [Option.getD_some]
  rw [if_neg hembedded.1, if_neg hroute.1, if_neg heven, if_neg hembedded.2, if_neg hroute.2,
    total_eq embedded route timeoutMs, (appended_sameEffect 0 _).write, Python.pieces_eq]
  exact congrArg Except.ok hread

/-- Sizes that no SDK takes fail one of its checks. -/
theorem einval_of_not_sized (h : ¬Sized embedded route) : route.length &&& 1 ≠ 0 ∨
    (embedded.length = 0 ∨ 0xFFFF < embedded.length) ∨
    (route.length = 0 ∨ 0x1FE < route.length) := by
  rw [Nat.and_one_is_mod]
  by_contra hno
  exact h ⟨by omega, by omega, by omega, by omega, by omega⟩

theorem C.build_refuses (h : ¬Sized embedded route) (out : Buffer cap) :
    C.bpBuildUnconnectedSend (some out) (some embedded) (some route) timeoutMs =
      (einval, some out) := by
  have hchecks := einval_of_not_sized h
  unfold bpBuildUnconnectedSend
  dsimp only
  split
  · rfl
  · split
    · rfl
    · rw [if_pos (by tauto)]

theorem Go.build_refuses (h : ¬Sized embedded route) (out : Buffer cap) :
    Go.buildUnconnectedSend (some out) (some embedded) (some route) timeoutMs =
      (einval, some out) := by
  have hchecks := einval_of_not_sized h
  unfold buildUnconnectedSend
  dsimp only
  split
  · rfl
  · split
    · rfl
    · rw [if_pos (by tauto)]
      rfl

/-- Python's `None` is as good as no bytes. -/
theorem Python.build_refuses {embedded route : Option (List UInt8)}
    (h : ¬Sized (embedded.getD []) (route.getD [])) (timeoutMs : Int) :
    ∃ err, Python.buildUnconnectedSend embedded route timeoutMs = .error err := by
  have hchecks := einval_of_not_sized h
  unfold buildUnconnectedSend
  dsimp only
  generalize embedded.getD [] = embedded at hchecks
  generalize route.getD [] = route at hchecks
  split
  · exact ⟨_, rfl⟩
  · split
    · exact ⟨_, rfl⟩
    · split
      · exact ⟨_, rfl⟩
      · split
        · exact ⟨_, rfl⟩
        · rw [if_pos (by tauto)]
          exact ⟨_, rfl⟩

end Calls

/-- What the three SDKs make of a message and a route, and of a timeout in
milliseconds. -/
structure Encodes (embedded route : List UInt8) (timeoutMs : UInt16) (body : List UInt8) :
    Prop where
  length : body.length = 10 + embedded.length + embedded.length % 2 + 2 + route.length
  parsed : ∃ ticks : UInt8, parse body = some ⟨5, ticks, embedded, route⟩ ∧
    ticks.toNat = min 255 (max 1 ((timeoutMs.toNat + 31) / 32)) ∧
    (timeoutMs.toNat ≤ ticks.toNat * 32 ∨ ticks = 255)
  python : Python.buildUnconnectedSend (some embedded) (some route) timeoutMs.toNat = .ok body
  stored : ∀ {cap : Nat} (out : Buffer cap), body.length ≤ cap → ∃ out' : Buffer cap,
    C.bpBuildUnconnectedSend (some out) (some embedded) (some route) timeoutMs =
        ((body.length : Int), some out') ∧
      Go.buildUnconnectedSend (some out) (some embedded) (some route) timeoutMs =
        ((body.length : Int), some out') ∧
      out'.read 0 body.length = body ∧ ∀ i : Fin cap, body.length ≤ i → out' i = out i
  no_space : ∀ {cap : Nat} (out : Buffer cap), cap < body.length →
    C.bpBuildUnconnectedSend (some out) (some embedded) (some route) timeoutMs =
        (enospc, some out) ∧
      Go.buildUnconnectedSend (some out) (some embedded) (some route) timeoutMs =
        (enospc, some out)

/-- What is refused is refused by all three, and C and Go write nothing. -/
structure Refuses (embedded route : Option (List UInt8)) (timeoutMs : UInt16) : Prop where
  python : ∃ err, Python.buildUnconnectedSend embedded route timeoutMs.toNat = .error err
  c : ∀ {cap : Nat} (out : Option (Buffer cap)), ∃ rc ≤ 0,
    C.bpBuildUnconnectedSend out embedded route timeoutMs = (rc, out)
  go : ∀ {cap : Nat} (out : Option (Buffer cap)), ∃ rc ≤ 0,
    Go.buildUnconnectedSend out embedded route timeoutMs = (rc, out)

section Encoding

variable {embedded route : List UInt8}

theorem encodes_body (h : Sized embedded route) (timeoutMs : UInt16) :
    Encodes embedded route timeoutMs (body embedded route timeoutMs.toNat) where
  length := body_length embedded route timeoutMs.toNat
  parsed := by
    have hticks : (UInt8.ofNat (ticksOf timeoutMs.toNat)).toNat = ticksOf timeoutMs.toNat :=
      UInt8.toNat_ofNat_of_lt' (Nat.lt_succ_of_le (ticksOf_le timeoutMs.toNat))
    refine ⟨_, parse_body h timeoutMs.toNat, hticks, ?_⟩
    rw [hticks]
    rcases le_ticksOf timeoutMs.toNat with hle | hmax
    · exact .inl hle
    · rw [hmax]
      exact .inr rfl
  python := Python.build_eq h timeoutMs.toNat
  stored := by
    intro cap out hcap
    refine ⟨filledWith out (body embedded route timeoutMs.toNat), ?_, ?_, ?_, ?_⟩
    · rw [C.build_eq h, if_neg (Nat.not_lt.mpr hcap)]
    · rw [Go.build_eq h, if_neg (Nat.not_lt.mpr hcap)]
    · exact Buffer.read_write [] [] _ out (by simp) (by rwa [Nat.zero_add])
    · intro i hi
      have hdisjoint : ∀ w ∈ [(⟨0, body embedded route timeoutMs.toNat⟩ : Write)],
          w.region.Disjoint ⟨i, 1⟩ := by
        intro w hw
        rw [List.mem_singleton] at hw
        subst hw
        apply Region.disjoint_of_stop_le
        simpa only [Region.stop, Write.region, Nat.zero_add] using hi
      exact Buffer.write_of_disjoint hdisjoint out ⟨le_rfl, Nat.lt_succ_self _⟩
  no_space := by
    intro cap out hcap
    rw [C.build_eq h, Go.build_eq h, if_pos hcap]
    exact ⟨rfl, rfl⟩

theorem refuses_of_not_sized {embedded route : Option (List UInt8)}
    (h : ¬Sized (embedded.getD []) (route.getD [])) (timeoutMs : UInt16) :
    Refuses embedded route timeoutMs where
  python := Python.build_refuses h timeoutMs.toNat
  c := by
    intro cap out
    cases out <;> cases embedded <;> cases route <;> try exact ⟨0, le_rfl, rfl⟩
    exact ⟨einval, by decide, C.build_refuses h _⟩
  go := by
    intro cap out
    cases out <;> cases embedded <;> cases route <;> try exact ⟨0, le_rfl, rfl⟩
    exact ⟨einval, by decide, Go.build_refuses h _⟩

/-- Where the sizes allow it a message and a route have one encoding, which can be
taken apart again; elsewhere they are refused. -/
theorem unconnectedSend_encoding (timeoutMs : UInt16) :
    (∀ embedded route, Sized embedded route → ∃ body, Encodes embedded route timeoutMs body) ∧
    ∀ embedded route : Option (List UInt8), ¬Sized (embedded.getD []) (route.getD []) →
      Refuses embedded route timeoutMs :=
  ⟨fun _ _ h => ⟨_, encodes_body h timeoutMs⟩, fun _ _ h => refuses_of_not_sized h timeoutMs⟩

/-- The canonical example of the protocol's documentation, and one without a
route. -/
theorem unconnectedSend_encoding_identity :
    (∃ body, Encodes [0x01, 0x02, 0x20, 0x01, 0x24, 0x01] [0x02, 0x01] 5024 body) ∧
      Refuses (some [0x01]) (some []) 5024 :=
  ⟨(unconnectedSend_encoding 5024).1 _ _
      ⟨by decide, by decide, by decide, by decide, by decide⟩,
    (unconnectedSend_encoding 5024).2 _ _ fun h => absurd h.route_ge (by decide)⟩

end Encoding

end BpClient.Route
