import Brynet.Http.ParserCore
import Brynet.Http.WebSocketFrame
import Mathlib.Data.List.Induction

/-!
# The WebSocket stream

`ProcessWebSocket` takes complete frames off its buffer as long as it finds one.
What it has taken off does not depend on what follows, so a stream can be cut
anywhere: processing a first part, and then what was left of it together with the
second part, is processing the whole (`processWebSocket_append`).

The second half is about what the frames mean.  A message is one final frame, or a
first frame and any number of continuation frames with control frames between
them.  While a message is open, `mWSCacheFrame` holds the payloads that have
arrived and `mWSFrameType` the opcode of the first frame; control frames leave both
alone.

* `consumes_frame`: a frame that `wsFrameBuild` has built is taken off and nothing else;
* `wsFrame_final`, `wsFrame_first`, `wsFrame_middle`, `wsFrame_last`: what the four roles a
  data frame can have do to the cache;
* `Assembling` is the invariant between the parts of a message, and `consumes_parts` the
  induction on them, with `consumes_controls` for the control frames in between.
-/

namespace Brynet.Http

namespace HTTPParser

variable {core : HttpCore} {parser : HTTPParser core} {session : HttpSession}

/-! ## One frame at a time -/

theorem processWebSocket_nil : parser.processWebSocket session [] = ⟨parser, 0, []⟩ := by
  rw [processWebSocket, if_pos rfl]

theorem processWebSocket_error {buffer : Bytes} {e : Unextracted} (hne : buffer ≠ [])
    (h : wsFrameExtractBuffer [] buffer = .error e) :
    parser.processWebSocket session buffer = ⟨{ parser with mWSParsePayload := [] }, 0, []⟩ := by
  rw [processWebSocket, if_neg hne]
  split
  · rfl
  · rename_i frame hframe
    rw [h] at hframe
    cases hframe

theorem processWebSocket_ok {buffer : Bytes} {frame : WsFrame}
    (h : wsFrameExtractBuffer [] buffer = .ok frame) :
    parser.processWebSocket session buffer =
      (let framed := parser.wsFrame session frame
      let rest := framed.1.processWebSocket session (buffer.drop frame.frameSize)
      ⟨rest.parser, frame.frameSize + rest.retlen, framed.2 ++ rest.calls⟩) := by
  have hne : buffer ≠ [] := by
    intro hnil
    have hbounds := frameSize_bounds h
    rw [hnil, List.length_nil] at hbounds
    omega
  rw [processWebSocket, if_neg hne]
  split
  · rename_i e herror
    rw [h] at herror
    cases herror
  · rename_i frame' hframe
    rw [h] at hframe
    cases hframe
    rfl

/-- The payload of the frame before is not looked at. -/
theorem processWebSocket_parsePayload {buffer : Bytes} (hne : buffer ≠ []) (payload : Bytes) :
    { parser with mWSParsePayload := payload }.processWebSocket session buffer =
      parser.processWebSocket session buffer := by
  cases h : wsFrameExtractBuffer [] buffer with
  | error e => rw [processWebSocket_error hne h, processWebSocket_error hne h]
  | ok frame =>
      rw [processWebSocket_ok h, processWebSocket_ok h]
      rfl

/-- Never more bytes are used than were given. -/
theorem retlen_processWebSocket_le (session : HttpSession) (parser : HTTPParser core) (buffer : Bytes) :
    (parser.processWebSocket session buffer).retlen ≤ buffer.length := by
  by_cases hne : buffer = []
  · rw [hne, processWebSocket_nil]
    exact Nat.zero_le _
  · cases h : wsFrameExtractBuffer [] buffer with
    | error e =>
        rw [processWebSocket_error hne h]
        exact Nat.zero_le _
    | ok frame =>
        have hbounds := frameSize_bounds h
        have hrest := retlen_processWebSocket_le session (parser.wsFrame session frame).1
          (buffer.drop frame.frameSize)
        rw [List.length_drop] at hrest
        rw [processWebSocket_ok h]
        dsimp only
        omega
termination_by buffer.length
decreasing_by
  rw [List.length_drop]
  omega

/-- **The stream can be cut anywhere.**  What is left of the first part is processed
together with the second. -/
theorem processWebSocket_append (session : HttpSession) (parser : HTTPParser core)
    (first second : Bytes) :
    parser.processWebSocket session (first ++ second) =
      (let before := parser.processWebSocket session first
      let after := before.parser.processWebSocket session (first.drop before.retlen ++ second)
      ⟨after.parser, before.retlen + after.retlen, before.calls ++ after.calls⟩) := by
  by_cases hne : first = []
  · rw [hne, processWebSocket_nil]
    simp
  · cases h : wsFrameExtractBuffer [] first with
    | error e =>
        rw [processWebSocket_error hne h]
        have hwhole : first ++ second ≠ [] := by simp [hne]
        simp [processWebSocket_parsePayload hwhole]
    | ok frame =>
        have hbounds := frameSize_bounds h
        have hrest := processWebSocket_append session (parser.wsFrame session frame).1
          (first.drop frame.frameSize) second
        rw [processWebSocket_ok (stable_wsFrameExtractBuffer [] first second frame h),
          processWebSocket_ok h, List.drop_append_of_le_length hbounds.2]
        dsimp only at hrest ⊢
        rw [hrest]
        dsimp only
        rw [List.drop_drop, Nat.add_assoc, List.append_assoc]
termination_by first.length
decreasing_by
  rw [List.length_drop]
  omega

theorem mIsWebSocket_wsFrame (session : HttpSession) (parser : HTTPParser core) (frame : WsFrame) :
    (parser.wsFrame session frame).1.mIsWebSocket = parser.mIsWebSocket := by
  unfold wsFrame
  cases frame.fin with
  | false => rfl
  | true =>
      cases frame.opcode == WebSocketFrameType.continuationFrame with
      | false => rfl
      | true =>
          show (if _ then _ else _ : HTTPParser core).mIsWebSocket = _
          rw [apply_ite mIsWebSocket, ite_self]

/-- The upgrade is never taken back. -/
theorem mIsWebSocket_processWebSocket (session : HttpSession) (parser : HTTPParser core)
    (buffer : Bytes) :
    (parser.processWebSocket session buffer).parser.mIsWebSocket = parser.mIsWebSocket := by
  by_cases hne : buffer = []
  · rw [hne, processWebSocket_nil]
  · cases h : wsFrameExtractBuffer [] buffer with
    | error e => rw [processWebSocket_error hne h]
    | ok frame =>
        have hbounds := frameSize_bounds h
        have hrest := mIsWebSocket_processWebSocket session (parser.wsFrame session frame).1
          (buffer.drop frame.frameSize)
        rw [processWebSocket_ok h]
        exact hrest.trans (mIsWebSocket_wsFrame session parser frame)
termination_by buffer.length
decreasing_by
  rw [List.length_drop]
  omega

end HTTPParser

/-- The frames at the front of a buffer, up to the first that is not complete. -/
def frames (buffer : Bytes) : List WsFrame :=
  match _hframe : wsFrameExtractBuffer [] buffer with
  | .error _ => []
  | .ok frame => frame :: frames (buffer.drop frame.frameSize)
termination_by buffer.length
decreasing_by
  have hbounds := frameSize_bounds _hframe
  rw [List.length_drop]
  omega

theorem frames_error {buffer : Bytes} {e : Unextracted}
    (h : wsFrameExtractBuffer [] buffer = .error e) : frames buffer = [] := by
  rw [frames]
  split
  · rfl
  · rename_i frame hframe
    rw [h] at hframe
    cases hframe

theorem frames_ok {buffer : Bytes} {frame : WsFrame}
    (h : wsFrameExtractBuffer [] buffer = .ok frame) :
    frames buffer = frame :: frames (buffer.drop frame.frameSize) := by
  rw [frames]
  split
  · rename_i e herror
    rw [h] at herror
    cases herror
  · rename_i frame' hframe
    rw [h] at hframe
    cases hframe
    rfl

namespace HTTPParser

variable {core : HttpCore}

/-- A frame leads to a callback exactly if it is final. -/
theorem wsFrame_calls_eq_nil_iff (parser : HTTPParser core) (frame : WsFrame) :
    (parser.wsFrame .full frame).2 = [] ↔ frame.fin = false := by
  unfold wsFrame
  cases frame.fin with
  | false => simp
  | true =>
      simp only [Bool.not_true, Bool.false_eq_true, if_false, callIf, HttpSession.full, if_true]
      split <;> simp

/-- All calls of an upgraded connection are calls of the ws callback. -/
theorem ws_of_mem_processWebSocket (session : HttpSession) (parser : HTTPParser core)
    (buffer : Bytes) :
    ∀ call ∈ (parser.processWebSocket session buffer).calls,
      ∃ opcode payload, call = .ws opcode payload := by
  by_cases hne : buffer = []
  · simp [hne, processWebSocket_nil]
  · cases h : wsFrameExtractBuffer [] buffer with
    | error e => simp [processWebSocket_error hne h]
    | ok frame =>
        have hbounds := frameSize_bounds h
        have hrest := ws_of_mem_processWebSocket session (parser.wsFrame session frame).1
          (buffer.drop frame.frameSize)
        rw [processWebSocket_ok h]
        intro call hcall
        rcases List.mem_append.mp hcall with hframe | htail
        · unfold wsFrame callIf at hframe
          grind
        · exact hrest call htail
termination_by buffer.length
decreasing_by
  rw [List.length_drop]
  omega

theorem isCallback_of_mem_processWebSocket (session : HttpSession) (parser : HTTPParser core)
    (buffer : Bytes) :
    ∀ call ∈ (parser.processWebSocket session buffer).calls, call.isCallback = true := by
  intro call hcall
  obtain ⟨opcode, payload, rfl⟩ := ws_of_mem_processWebSocket session parser buffer call hcall
  rfl

/-- There is no callback exactly if no frame is final. -/
theorem processWebSocket_calls_eq_nil_iff (parser : HTTPParser core) (buffer : Bytes) :
    (parser.processWebSocket .full buffer).calls = [] ↔ ∀ f ∈ frames buffer, f.fin = false := by
  cases h : wsFrameExtractBuffer [] buffer with
  | error e =>
      rw [frames_error h]
      by_cases hne : buffer = []
      · simp [hne, processWebSocket_nil]
      · simp [processWebSocket_error hne h]
  | ok frame =>
      have hbounds := frameSize_bounds h
      have hrest := processWebSocket_calls_eq_nil_iff (parser.wsFrame .full frame).1
        (buffer.drop frame.frameSize)
      rw [processWebSocket_ok h, frames_ok h]
      simp only [List.append_eq_nil_iff, hrest, wsFrame_calls_eq_nil_iff, List.forall_mem_cons]
termination_by buffer.length
decreasing_by
  rw [List.length_drop]
  omega

end HTTPParser

/-! ## Segments -/

namespace HttpConnection

variable {core : HttpCore} {session : HttpSession}

/-- A segment arrives on an upgraded connection. -/
def receiveWs (session : HttpSession) (connection : HttpConnection core) (segment : Bytes) :
    HttpConnection core :=
  let buffer := connection.pending ++ segment
  let handled := connection.parser.processWebSocket session buffer
  { parser := handled.parser
    pending := buffer.drop handled.retlen
    calls := connection.calls ++ handled.calls }

/-- The upgraded connection after all the segments. -/
def receiveWsAll (session : HttpSession) (connection : HttpConnection core)
    (segments : List Bytes) : HttpConnection core :=
  segments.foldl (receiveWs session) connection

/-- The state after some segments is the state after their bytes in one. -/
theorem receiveWsAll_eq (parser : HTTPParser core) (calls : List HttpCall) (segments : List Bytes) :
    receiveWsAll session ⟨parser, [], calls⟩ segments =
      receiveWs session ⟨parser, [], calls⟩ segments.flatten := by
  induction segments using List.reverseRecOn with
  | nil =>
      show _ = receiveWs _ _ []
      simp only [receiveWs, HTTPParser.processWebSocket_nil, List.append_nil]
      rfl
  | append_singleton segments segment ih =>
      unfold receiveWsAll at ih ⊢
      rw [List.foldl_append, ih, List.foldl_cons, List.foldl_nil, List.flatten_append,
        List.flatten_singleton]
      have happend := HTTPParser.processWebSocket_append session parser
        segments.flatten segment
      have hle := HTTPParser.retlen_processWebSocket_le session parser segments.flatten
      simp only [receiveWs, List.nil_append] at happend ⊢
      rw [happend]
      dsimp only
      rw [← List.drop_drop, List.drop_append_of_le_length hle, List.append_assoc]

/-- **Segmentation independence.**  However a stream is cut, the callbacks, the
cached part of a message, its type and the bytes left over are those of the whole
stream at once; and no call uses more bytes than it is given. -/
theorem ws_segmentation_independence (session : HttpSession) (parser : HTTPParser core)
    (segments : List Bytes) :
    let cut := receiveWsAll session ⟨parser, [], []⟩ segments
    let whole := parser.processWebSocket session segments.flatten
    cut.calls = whole.calls ∧
    cut.parser.mWSCacheFrame = whole.parser.mWSCacheFrame ∧
    cut.parser.mWSFrameType = whole.parser.mWSFrameType ∧
    cut.pending = segments.flatten.drop whole.retlen ∧
    ∀ (parser : HTTPParser core) (buffer : Bytes),
      (parser.processWebSocket session buffer).retlen ≤ buffer.length := by
  intro cut whole
  have hcut : cut = ⟨whole.parser, segments.flatten.drop whole.retlen, whole.calls⟩ :=
    receiveWsAll_eq parser [] segments
  rw [hcut]
  exact ⟨rfl, rfl, rfl, rfl, HTTPParser.retlen_processWebSocket_le session⟩

end HttpConnection

/-! ## Messages -/

/-- A control frame. -/
structure WsControl where
  opcode : WebSocketFrameType
  payload : Bytes
  mask : Option (Fin 4 → UInt8)
  control : opcode ∈ [WebSocketFrameType.closeFrame, .pingFrame, .pongFrame]

/-- A later fragment of a message, behind the control frames that precede it. -/
structure WsPart where
  controls : List WsControl
  payload : Bytes
  mask : Option (Fin 4 → UInt8)

/-- A message: the control frames before it, its first fragment and the later
ones.  Its opcode is any that fits into a frame but the continuation. -/
structure WsMessage where
  controls : List WsControl
  opcode : WebSocketFrameType
  payload : Bytes
  mask : Option (Fin 4 → UInt8)
  parts : List WsPart
  four_bits : opcode.code.toNat < 16
  starts : opcode ≠ .continuationFrame

namespace WsControl

def bytes (frame : WsControl) : Bytes := wsFrameBuild frame.payload frame.opcode true frame.mask

def call (frame : WsControl) : HttpCall := .ws (some frame.opcode) frame.payload

end WsControl

namespace WsPart

/-- The bytes of the later fragments; the last one is final. -/
def bytes : List WsPart → Bytes
  | [] => []
  | part :: rest =>
      part.controls.flatMap WsControl.bytes ++
        (wsFrameBuild part.payload .continuationFrame rest.isEmpty part.mask ++ bytes rest)

end WsPart

namespace WsMessage

def bytes (message : WsMessage) : Bytes :=
  message.controls.flatMap WsControl.bytes ++
    (wsFrameBuild message.payload message.opcode message.parts.isEmpty message.mask ++
      WsPart.bytes message.parts)

/-- The payload of the whole message. -/
def content (message : WsMessage) : Bytes :=
  message.payload ++ message.parts.flatMap WsPart.payload

/-- The callbacks that are due: one for each control frame, then one for the
message. -/
def calls (message : WsMessage) : List HttpCall :=
  message.controls.map WsControl.call ++
    ((message.parts.flatMap WsPart.controls).map WsControl.call ++
      [.ws (some message.opcode) message.content])

/-- Every frame has less than `2 ^ 31` bytes of payload. -/
structure Short (message : WsMessage) : Prop where
  first : message.payload.length < 2 ^ 31
  controls : ∀ frame ∈ message.controls, frame.payload.length < 2 ^ 31
  parts : ∀ part ∈ message.parts, part.payload.length < 2 ^ 31 ∧
    ∀ frame ∈ part.controls, frame.payload.length < 2 ^ 31

end WsMessage

namespace HTTPParser

variable {core : HttpCore} {parser : HTTPParser core} {session : HttpSession}

/-- `bytes` are complete frames: they lead to `parser'` and make `calls`, and what
follows them is processed there. -/
def Consumes (session : HttpSession) (parser : HTTPParser core) (bytes : Bytes)
    (parser' : HTTPParser core) (calls : List HttpCall) : Prop :=
  ∀ rest, parser.processWebSocket session (bytes ++ rest) =
    (let after := parser'.processWebSocket session rest
    ⟨after.parser, bytes.length + after.retlen, calls ++ after.calls⟩)

theorem Consumes.nil (parser : HTTPParser core) : parser.Consumes session [] parser [] := by
  intro rest
  simp

theorem Consumes.append {parser' parser'' : HTTPParser core} {first second : Bytes}
    {calls calls' : List HttpCall} (h : parser.Consumes session first parser' calls)
    (h' : parser'.Consumes session second parser'' calls') :
    parser.Consumes session (first ++ second) parser'' (calls ++ calls') := by
  intro rest
  rw [List.append_assoc, h, h']
  simp [Nat.add_assoc]

/-- What is left when nothing follows. -/
theorem Consumes.processWebSocket {parser' : HTTPParser core} {bytes : Bytes}
    {calls : List HttpCall} (h : parser.Consumes session bytes parser' calls) :
    parser.processWebSocket session bytes = ⟨parser', bytes.length, calls⟩ := by
  have hnil := h []
  rw [processWebSocket_nil] at hnil
  simpa using hnil

/-- What extraction reports about a built frame. -/
def builtFrame (payload : Bytes) (opcode : WebSocketFrameType) (fin : Bool)
    (mask : Option (Fin 4 → UInt8)) : WsFrame :=
  ⟨payload, opcode, (wsFrameBuild payload opcode fin mask).length, fin⟩

@[simp] theorem builtFrame_payload (payload : Bytes) (opcode : WebSocketFrameType) (fin : Bool)
    (mask : Option (Fin 4 → UInt8)) : (builtFrame payload opcode fin mask).payload = payload := rfl

@[simp] theorem builtFrame_opcode (payload : Bytes) (opcode : WebSocketFrameType) (fin : Bool)
    (mask : Option (Fin 4 → UInt8)) : (builtFrame payload opcode fin mask).opcode = opcode := rfl

theorem consumes_frame (session : HttpSession) {payload : Bytes} {opcode : WebSocketFrameType}
    (hpayload : payload.length < 2 ^ 31) (hopcode : opcode.code.toNat < 16) (fin : Bool)
    (mask : Option (Fin 4 → UInt8)) (parser : HTTPParser core) :
    parser.Consumes session (wsFrameBuild payload opcode fin mask)
      (parser.wsFrame session (builtFrame payload opcode fin mask)).1
      (parser.wsFrame session (builtFrame payload opcode fin mask)).2 := by
  intro rest
  have hextract := wsFrameExtractBuffer_wsFrameBuild hpayload hopcode fin mask [] rest
  rw [List.nil_append] at hextract
  rw [processWebSocket_ok hextract]
  simp [builtFrame]

/-- The parser collects a message of type `opcode`, of which `payload` has
arrived. -/
structure Assembling (parser : HTTPParser core) (opcode : WebSocketFrameType) (payload : Bytes) :
    Prop where
  cache : parser.mWSCacheFrame = payload
  frameType : parser.mWSFrameType = some opcode

/-- Cache and type are those of `parser`. -/
structure SameCache (parser parser' : HTTPParser core) : Prop where
  cache : parser'.mWSCacheFrame = parser.mWSCacheFrame
  frameType : parser'.mWSFrameType = parser.mWSFrameType

theorem SameCache.assembling {parser' : HTTPParser core} {opcode : WebSocketFrameType}
    {payload : Bytes} (hsame : SameCache parser parser') (h : parser.Assembling opcode payload) :
    parser'.Assembling opcode payload :=
  ⟨hsame.cache.trans h.cache, hsame.frameType.trans h.frameType⟩

/-! ### What a frame does -/

/-- A final frame that continues nothing is a callback, and nothing else. -/
theorem wsFrame_final (frame : WsFrame) (hsession : session.mWSCallback = true)
    (hfin : frame.fin = true) (hstarts : frame.opcode ≠ .continuationFrame) (parser : HTTPParser core) :
    SameCache parser (parser.wsFrame session frame).1 ∧
      (parser.wsFrame session frame).2 = [.ws (some frame.opcode) frame.payload] := by
  have hcontinues : (frame.opcode == WebSocketFrameType.continuationFrame) = false := by
    simpa using hstarts
  simp only [wsFrame, hfin, hcontinues, Bool.not_true, Bool.or_self, Bool.false_and,
    Bool.false_eq_true, if_false, hsession, callIf, if_true]
  exact ⟨⟨rfl, rfl⟩, trivial⟩

/-- The first fragment opens a message. -/
theorem wsFrame_first (frame : WsFrame) (hfin : frame.fin = false)
    (hstarts : frame.opcode ≠ .continuationFrame) (session : HttpSession)
    (hcache : parser.mWSCacheFrame = []) :
    (parser.wsFrame session frame).1.Assembling frame.opcode frame.payload ∧
      (parser.wsFrame session frame).2 = [] := by
  have hcontinues : (frame.opcode == WebSocketFrameType.continuationFrame) = false := by
    simpa using hstarts
  simp only [wsFrame, hfin, hcontinues, Bool.not_false, Bool.true_or, Bool.and_self, if_true,
    hcache, List.nil_append]
  exact ⟨⟨rfl, rfl⟩, trivial⟩

/-- A continuation that is not final is collected. -/
theorem wsFrame_middle (frame : WsFrame) {opcode : WebSocketFrameType} {collected : Bytes}
    (hfin : frame.fin = false) (hopcode : frame.opcode = .continuationFrame)
    (session : HttpSession) (h : parser.Assembling opcode collected) :
    (parser.wsFrame session frame).1.Assembling opcode (collected ++ frame.payload) ∧
      (parser.wsFrame session frame).2 = [] := by
  simp only [wsFrame, hfin, hopcode, Bool.not_false, Bool.true_or, beq_self_eq_true, Bool.not_true,
    Bool.and_false, Bool.false_eq_true, if_false, if_true, h.cache]
  exact ⟨⟨rfl, h.frameType⟩, trivial⟩

/-- The last continuation hands the message over and empties the cache.  If nothing was
collected the payload of the frame itself is handed over, and is empty too. -/
theorem wsFrame_last (frame : WsFrame) {opcode : WebSocketFrameType} {collected : Bytes}
    (hsession : session.mWSCallback = true) (hfin : frame.fin = true)
    (hopcode : frame.opcode = .continuationFrame) (h : parser.Assembling opcode collected) :
    (parser.wsFrame session frame).1.mWSCacheFrame = [] ∧
      (parser.wsFrame session frame).2 = [.ws (some opcode) (collected ++ frame.payload)] := by
  simp only [wsFrame, hfin, hopcode, Bool.not_true, Bool.false_or, beq_self_eq_true, if_true,
    Bool.false_and, Bool.false_eq_true, if_false, h.cache, h.frameType, hsession, callIf]
  by_cases hempty : collected ++ frame.payload = []
  · have hpayload : frame.payload = [] := (List.append_eq_nil_iff.mp hempty).2
    rw [if_pos hempty]
    exact ⟨hempty, by rw [hempty, hpayload]⟩
  · rw [if_neg hempty]
    exact ⟨rfl, rfl⟩

/-! ### Messages -/

section Messages

variable (hsession : session.mWSCallback = true)

include hsession

theorem consumes_controls {controls : List WsControl}
    (hshort : ∀ frame ∈ controls, frame.payload.length < 2 ^ 31) (parser : HTTPParser core) :
    ∃ parser', parser.Consumes session (controls.flatMap WsControl.bytes) parser'
      (controls.map WsControl.call) ∧ SameCache parser parser' := by
  induction controls generalizing parser with
  | nil => exact ⟨parser, .nil parser, rfl, rfl⟩
  | cons frame rest ih =>
      have hcontrol : frame.opcode.code.toNat < 16 ∧ frame.opcode ≠ .continuationFrame := by
        have hmem := frame.control
        simp only [List.mem_cons, List.not_mem_nil, or_false] at hmem
        rcases hmem with h | h | h <;> rw [h] <;> decide
      have hframe := consumes_frame session (hshort frame List.mem_cons_self) hcontrol.1 true
        frame.mask parser
      obtain ⟨hsame, hcalls⟩ := wsFrame_final (builtFrame frame.payload frame.opcode true frame.mask)
        hsession rfl hcontrol.2 parser
      rw [hcalls] at hframe
      obtain ⟨parser', hrest, hsame'⟩ := ih
        (fun other hother => hshort other (List.mem_cons_of_mem _ hother))
        (parser.wsFrame session (builtFrame frame.payload frame.opcode true frame.mask)).1
      exact ⟨parser', hframe.append hrest, hsame'.cache.trans hsame.cache,
        hsame'.frameType.trans hsame.frameType⟩

/-- The later fragments complete a message, with the control frames between them. -/
theorem consumes_parts {parts : List WsPart} {opcode : WebSocketFrameType} {collected : Bytes}
    (hne : parts ≠ []) (hshort : ∀ part ∈ parts, part.payload.length < 2 ^ 31 ∧
      ∀ frame ∈ part.controls, frame.payload.length < 2 ^ 31)
    (h : parser.Assembling opcode collected) :
    ∃ parser', parser.Consumes session (WsPart.bytes parts) parser'
      ((parts.flatMap WsPart.controls).map WsControl.call ++
        [.ws (some opcode) (collected ++ parts.flatMap WsPart.payload)]) ∧
      parser'.mWSCacheFrame = [] := by
  induction parts generalizing parser collected with
  | nil => exact absurd rfl hne
  | cons part rest ih =>
      obtain ⟨hpart, hcontrols⟩ := hshort part List.mem_cons_self
      obtain ⟨between, hbetween, hsame⟩ := consumes_controls hsession hcontrols parser
      have hopen := hsame.assembling h
      have hframe := consumes_frame session hpart
        (show WebSocketFrameType.continuationFrame.code.toNat < 16 by decide) rest.isEmpty part.mask
        between
      -- The last fragment has the final bit and hands the message on; the others are collected.
      by_cases hrest : rest = []
      · subst hrest
        obtain ⟨hcache, hcalls⟩ := wsFrame_last
          (builtFrame part.payload .continuationFrame true part.mask) hsession rfl rfl hopen
        rw [List.isEmpty_nil, hcalls] at hframe
        refine ⟨_, ?_, hcache⟩
        have hboth := hbetween.append hframe
        simpa [WsPart.bytes] using hboth
      · have hnot : rest.isEmpty = false := by simpa using hrest
        obtain ⟨hmore, hcalls⟩ := wsFrame_middle
          (builtFrame part.payload .continuationFrame false part.mask) rfl rfl session hopen
        rw [hnot, hcalls] at hframe
        obtain ⟨parser', hlast, hcache⟩ := ih hrest
          (fun other hother => hshort other (List.mem_cons_of_mem _ hother)) hmore
        refine ⟨parser', ?_, hcache⟩
        have hall := hbetween.append (hframe.append hlast)
        simpa [WsPart.bytes, hnot, List.append_assoc] using hall

/-- A whole message is one callback, and its control frames one each. -/
theorem consumes_message {message : WsMessage} (hshort : message.Short)
    (hcache : parser.mWSCacheFrame = []) :
    ∃ parser', parser.Consumes session message.bytes parser' message.calls ∧
      parser'.mWSCacheFrame = [] := by
  obtain ⟨before, hbefore, hsame⟩ := consumes_controls hsession hshort.controls parser
  have hempty := hsame.cache.trans hcache
  have hframe := consumes_frame session hshort.first message.four_bits message.parts.isEmpty
    message.mask before
  -- A message in one frame, or a first frame and the later ones.
  by_cases hparts : message.parts = []
  · have hfin : message.parts.isEmpty = true := by simp [hparts]
    obtain ⟨hsame', hcalls⟩ := wsFrame_final
      (builtFrame message.payload message.opcode true message.mask) hsession rfl message.starts before
    rw [hfin, hcalls] at hframe
    refine ⟨_, ?_, hsame'.cache.trans hempty⟩
    have hboth := hbefore.append hframe
    simpa [WsMessage.bytes, WsMessage.calls, WsMessage.content, WsPart.bytes, hparts] using hboth
  · have hfin : message.parts.isEmpty = false := by simpa using hparts
    obtain ⟨hopen, hcalls⟩ := wsFrame_first
      (builtFrame message.payload message.opcode false message.mask) rfl message.starts session hempty
    rw [hfin, hcalls] at hframe
    obtain ⟨parser', hrest, hcache'⟩ := consumes_parts hsession hparts hshort.parts hopen
    refine ⟨parser', ?_, hcache'⟩
    have hall := hbefore.append (hframe.append hrest)
    simpa [WsMessage.bytes, WsMessage.calls, WsMessage.content, hfin] using hall

theorem consumes_messages {messages : List WsMessage} (hshort : ∀ m ∈ messages, m.Short)
    (hcache : parser.mWSCacheFrame = []) :
    ∃ parser', parser.Consumes session (messages.flatMap WsMessage.bytes) parser'
      (messages.flatMap WsMessage.calls) ∧ parser'.mWSCacheFrame = [] := by
  induction messages generalizing parser with
  | nil => exact ⟨parser, .nil parser, hcache⟩
  | cons message rest ih =>
      obtain ⟨between, hfirst, hempty⟩ :=
        consumes_message hsession (hshort message List.mem_cons_self) hcache
      obtain ⟨parser', hrest, hempty'⟩ :=
        ih (fun other hother => hshort other (List.mem_cons_of_mem _ hother)) hempty
      exact ⟨parser', hfirst.append hrest, hempty'⟩

end Messages

/-- The messages are reassembled: the callbacks are those that are due, in stream
order, all bytes are used, and the cache is empty at the end of each message. -/
def Reassembles (session : HttpSession) (parser : HTTPParser core) (messages : List WsMessage) :
    Prop :=
  let whole := parser.processWebSocket session (messages.flatMap WsMessage.bytes)
  whole.calls = messages.flatMap WsMessage.calls ∧
  whole.retlen = (messages.flatMap WsMessage.bytes).length ∧
  ∀ first second, messages = first ++ second →
    let before := parser.processWebSocket session (first.flatMap WsMessage.bytes)
    before.parser.mWSCacheFrame = [] ∧
    whole.parser =
      (before.parser.processWebSocket session (second.flatMap WsMessage.bytes)).parser

/-- **Message reassembly.** -/
theorem ws_message_reassembly (hsession : session.mWSCallback = true)
    (hcache : parser.mWSCacheFrame = []) {messages : List WsMessage}
    (hshort : ∀ m ∈ messages, m.Short) : parser.Reassembles session messages := by
  obtain ⟨last, hall, -⟩ := consumes_messages hsession hshort hcache
  have hwhole := hall.processWebSocket
  refine ⟨by rw [hwhole], by rw [hwhole], ?_⟩
  rintro first second rfl
  obtain ⟨between, hfirst, hempty⟩ := consumes_messages hsession
    (fun m hm => hshort m (List.mem_append_left _ hm)) hcache
  dsimp only
  rw [hfirst.processWebSocket, List.flatMap_append, hfirst]
  exact ⟨hempty, rfl⟩

/-- A text in two fragments, the second empty, with a masked ping between them, and a
binary message behind it. -/
def twoMessages : List WsMessage :=
  [⟨[], .textFrame, text "Hello", none,
      [⟨[⟨.pingFrame, text "?", some fun i => UInt8.ofNat i, by decide⟩], [], none⟩], by decide, by decide⟩,
    ⟨[], .binaryFrame, [7], none, [], by decide, by decide⟩]

theorem ws_message_reassembly_two_messages :
    (new (parserCore .both)).mWSCacheFrame = [] ∧ (∀ m ∈ twoMessages, m.Short) ∧
      (new (parserCore .both)).Reassembles .full twoMessages := by
  have hshort : ∀ m ∈ twoMessages, m.Short := by
    intro m hm
    simp only [twoMessages, List.mem_cons, List.not_mem_nil, or_false] at hm
    rcases hm with rfl | rfl
    · exact ⟨by decide, by simp, by simp [text]⟩
    · exact ⟨by decide, by simp, by simp⟩
  exact ⟨rfl, hshort, ws_message_reassembly rfl rfl hshort⟩

/-- A binary message in one frame. -/
def binaryMessage (payload : Bytes) : WsMessage :=
  ⟨[], .binaryFrame, payload, none, [], by decide, by decide⟩

/-- A frame of `2 ^ 31` bytes or more is refused: its message never arrives. -/
theorem not_reassembles_of_high {payload : Bytes} (hlow : 2 ^ 31 ≤ payload.length)
    (hhigh : payload.length < 2 ^ 32) :
    ¬parser.Reassembles session [binaryMessage payload] := by
  rintro ⟨hcalls, -, -⟩
  have hbytes : [binaryMessage payload].flatMap WsMessage.bytes =
      wsFrameBuild payload .binaryFrame true none ++ [] := by
    rw [List.flatMap_singleton]
    rfl
  have hne : wsFrameBuild payload .binaryFrame true none ++ [] ≠ [] := by
    rw [wsFrameBuild]
    exact List.cons_ne_nil _ _
  rw [hbytes, processWebSocket_error hne (wsFrameExtractBuffer_of_high hlow hhigh true [] [])]
    at hcalls
  rw [List.flatMap_singleton] at hcalls
  exact absurd hcalls.symm (by simp [WsMessage.calls])

theorem not_reassembles_huge :
    ¬(new (parserCore .both)).Reassembles .full [binaryMessage (List.replicate (2 ^ 31) 0)] := by
  have hlength : (List.replicate (2 ^ 31) (0 : UInt8)).length = 2 ^ 31 := List.length_replicate
  exact not_reassembles_of_high hlength.ge (hlength.trans_lt (by decide))

end HTTPParser

end Brynet.Http
