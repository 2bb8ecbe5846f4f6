import Brynet.Http.ParserCore
import Brynet.Http.Segmentation
import Brynet.Http.WebSocketHandshake

/-!
# The handshake on the side of the client

The client reads the response of `wsHandshake` with the same `HTTPParser`, over the bundled
parser.  Whatever the key is, the parser is in one state behind the name of the last header
(`acceptState`) and in one state inside of its value (`valueState`), so the response is a
message that asks for an upgrade, with the callbacks of its three lines.
-/

namespace Brynet.Http

/-- The response up to the value of its last header. -/
def handshakeHead : Bytes :=
  handshakeLine ++ text "\r\nUpgrade: websocket\r\nConnection: Upgrade\r\nSec-WebSocket-Accept: "

/-- The parser in the last header line, in the given state. -/
def lineState (state : ParserState) : Parser where
  type := .response
  flags :=
    { chunked := false
      connectionKeepAlive := false
      connectionClose := false
      connectionUpgrade := true
      trailing := false
      upgrade := true
      skipbody := false }
  state := state
  headerState := .general
  index := 0
  contentLength := ullongMax
  httpMajor := 1
  httpMinor := 1
  statusCode := 101
  method := .delete
  httpErrno := .ok
  upgrade := false
  nread := 0

/-- The parser behind `handshakeHead`. -/
def acceptState : (parserCore .both).State := lineState .headerValueDiscardWs

/-- The parser inside of the value. -/
def valueState : (parserCore .both).State := lineState .headerValue

/-- The callbacks in front of the header lines. -/
def statusEvents : List HttpEvent :=
  .messageBegin :: (byteByByte (text "Switching Protocols")).map (.status 101)

/-! ## The core -/

theorem replay_handshakeHead :
    (parserCore .both).replay (parserCore .both).init handshakeHead =
      some (acceptState, statusEvents ++ ((byteLine (text "Upgrade", text "websocket")).events ++
        ((byteLine (text "Connection", text "Upgrade")).events ++
          (byteByByte (text "Sec-WebSocket-Accept")).map .headerField))) := by
  decide +kernel

/-- The first byte of the value, and every other one. -/
theorem step_value {b : UInt8} : isBase64 b ∨ b = '='.toUInt8 →
    (parserCore .both).step acceptState b = (valueState, [.headerValue [b]], .next) ∧
      (parserCore .both).step valueState b = (valueState, [.headerValue [b]], .next) := by
  intro hb
  constructor <;> revert hb b
  · exact @forall_byte _ (by decide +kernel)
  · exact @forall_byte _ (by decide +kernel)

/-- One byte in front of a run. -/
theorem HttpCore.run_cons {core : HttpCore} {s s' : core.State} {b : UInt8}
    {events : List HttpEvent} (hstep : core.step s b = (s', events, .next)) (rest : Bytes) :
    (core.Runs s (b :: rest) ↔ core.Runs s' rest) ∧
      core.after s (b :: rest) = core.after s' rest ∧
      core.trace s (b :: rest) = events ++ core.trace s' rest := by
  rw [Runs, after, trace, hstep]
  exact ⟨and_iff_right rfl, rfl, rfl⟩

variable {s : Bytes}

theorem run_valueState (hs : ∀ b ∈ s, isBase64 b ∨ b = '='.toUInt8) :
    (parserCore .both).Runs valueState s ∧ (parserCore .both).after valueState s = valueState ∧
      (parserCore .both).trace valueState s = s.map fun b => .headerValue [b] := by
  induction s with
  | nil => exact ⟨trivial, rfl, rfl⟩
  | cons b rest ih =>
      obtain ⟨hb, hrest⟩ := List.forall_mem_cons.mp hs
      obtain ⟨hruns, hafter, htrace⟩ := HttpCore.run_cons (step_value hb).2 rest
      obtain ⟨hruns', hafter', htrace'⟩ := ih hrest
      refine ⟨hruns.mpr hruns', hafter.trans hafter', ?_⟩
      rw [htrace, htrace', List.map_cons, List.singleton_append]

theorem run_acceptState (hs : ∀ b ∈ s, isBase64 b ∨ b = '='.toUInt8) (hne : s ≠ []) :
    (parserCore .both).Runs acceptState s ∧ (parserCore .both).after acceptState s = valueState ∧
      (parserCore .both).trace acceptState s = s.map fun b => .headerValue [b] := by
  obtain ⟨b, rest, rfl⟩ := List.exists_cons_of_ne_nil hne
  obtain ⟨hb, hrest⟩ := List.forall_mem_cons.mp hs
  obtain ⟨hruns, hafter, htrace⟩ := HttpCore.run_cons (step_value hb).1 rest
  obtain ⟨hruns', hafter', htrace'⟩ := run_valueState hrest
  refine ⟨hruns.mpr hruns', hafter.trans hafter', ?_⟩
  rw [htrace, htrace', List.map_cons, List.singleton_append]

/-- The parser before the last byte. -/
def endState : (parserCore .both).State := (parserCore .both).after valueState [13, 10, 13]

/-- The end of the headers.  With its last byte the response is complete, and the parser leaves
its loop. -/
theorem run_headersEnd :
    ((parserCore .both).Runs valueState [13, 10, 13] ∧
      (parserCore .both).trace valueState [13, 10, 13] = [.headerValue []]) ∧
    ((parserCore .both).step endState 10).2 = ([.headersComplete, .messageComplete], .stop) ∧
      (parserCore .both).upgrade ((parserCore .both).step endState 10).1 = true := by
  decide +kernel

/-! ## The message -/

variable {secKey : Bytes}

/-- The response, with the value in its place. -/
def handshakeResponse (secKey : Bytes) : Bytes :=
  handshakeHead ++ (acceptKey secKey ++ [13, 10, 13]) ++ [10]

/-- The header lines as the core reports them. -/
def handshakeLines (secKey : Bytes) : List HeaderLine := (handshakeHeads secKey).map byteLine

theorem isBase64_acceptKey : ∀ b ∈ acceptKey secKey, isBase64 b ∨ b = '='.toUInt8 :=
  fun _ hb => isBase64_of_mem_base64Encode hb

theorem acceptKey_ne_nil : acceptKey secKey ≠ [] := by
  have hhash : (Sha1.sha1 (secKey ++ guid)).length = 20 := Sha1.length_digest _
  have hlength : (acceptKey secKey).length = 28 := by
    rw [acceptKey, length_base64Encode, hhash]
  exact List.ne_nil_of_length_pos (by omega)

/-- All of the response but its last byte. -/
theorem run_handshakeResponse :
    (parserCore .both).Runs (parserCore .both).init
        (handshakeHead ++ (acceptKey secKey ++ [13, 10, 13])) ∧
      (parserCore .both).after (parserCore .both).init
          (handshakeHead ++ (acceptKey secKey ++ [13, 10, 13])) = endState ∧
      (parserCore .both).trace (parserCore .both).init
          (handshakeHead ++ (acceptKey secKey ++ [13, 10, 13])) =
        statusEvents ++ (handshakeLines secKey).flatMap HeaderLine.events := by
  obtain ⟨hhead, hstate, hevents⟩ := HttpCore.of_replay replay_handshakeHead
  obtain ⟨hruns, hafter, htrace⟩ := run_acceptState (@isBase64_acceptKey secKey) acceptKey_ne_nil
  obtain ⟨⟨hruns', htrace'⟩, -⟩ := run_headersEnd
  refine ⟨?_, ?_, ?_⟩
  · rw [HttpCore.runs_append, HttpCore.runs_append, hstate, hafter]
    exact ⟨hhead, hruns, hruns'⟩
  · rw [HttpCore.after_append, HttpCore.after_append, hstate, hafter, endState]
  · rw [HttpCore.trace_append, HttpCore.trace_append, hstate, hafter, htrace, htrace', hevents]
    simp [handshakeLines, handshakeHeads, byteLine, HeaderLine.events, byteByByte]

theorem trace_handshakeResponse :
    (parserCore .both).trace (parserCore .both).init (handshakeResponse secKey) =
      statusEvents ++ (handshakeLines secKey).flatMap HeaderLine.events ++
        [.headersComplete, .messageComplete] := by
  obtain ⟨-, hafter, htrace⟩ := @run_handshakeResponse secKey
  obtain ⟨-, hstep, -⟩ := run_headersEnd
  rw [handshakeResponse, HttpCore.trace_append, htrace, hafter, HttpCore.trace, HttpCore.trace,
    hstep, List.append_nil]

/-- An event of a status or of a header line. -/
theorem mem_handshakeEvents {event : HttpEvent}
    (h : event ∈ statusEvents ++ (handshakeLines secKey).flatMap HeaderLine.events) :
    event = .messageBegin ∨ (∃ data, event = .status 101 data) ∨
      (∃ data, event = .headerField data) ∨ ∃ data, event = .headerValue data := by
  simp only [statusEvents, List.mem_append, List.mem_cons, List.mem_map, List.mem_flatMap,
    HeaderLine.events] at h
  obtain (rfl | ⟨data, -, rfl⟩) | ⟨line, -, ⟨data, -, rfl⟩ | ⟨data, -, rfl⟩⟩ := h
  · exact .inl rfl
  · exact .inr (.inl ⟨data, rfl⟩)
  · exact .inr (.inr (.inl ⟨data, rfl⟩))
  · exact .inr (.inr (.inr ⟨data, rfl⟩))

/-- **The response is a message that asks for an upgrade**, for the bundled parser. -/
theorem wellFormed_handshakeResponse :
    (⟨handshakeResponse secKey, []⟩ : HttpMessage).WellFormed (parserCore .both) true := by
  obtain ⟨hruns, hafter, htrace⟩ := @run_handshakeResponse secKey
  obtain ⟨-, hstep, hupgrade⟩ := run_headersEnd
  have hcomplete : .messageComplete ∉
      statusEvents ++ (handshakeLines secKey).flatMap HeaderLine.events := by
    intro hmem
    obtain h | ⟨_, h⟩ | ⟨_, h⟩ | ⟨_, h⟩ := mem_handshakeEvents hmem <;> cases h
  have hhead : .headersComplete ∉
      statusEvents ++ (handshakeLines secKey).flatMap HeaderLine.events := by
    intro hmem
    obtain h | ⟨_, h⟩ | ⟨_, h⟩ | ⟨_, h⟩ := mem_handshakeEvents hmem <;> cases h
  have hurl : urlOf (statusEvents ++ (handshakeLines secKey).flatMap HeaderLine.events) = [] := by
    refine urlOf_eq_nil fun data hmem => ?_
    obtain h | ⟨_, h⟩ | ⟨_, h⟩ | ⟨_, h⟩ := mem_handshakeEvents hmem <;> cases h
  constructor
  · refine ⟨_, 10, rfl, hruns, htrace ▸ hcomplete, ?_, ?_⟩
    · rw [hafter, hstep]
      exact List.mem_cons_of_mem _ List.mem_cons_self
    · rw [hafter, hstep]
      rfl
  · dsimp only
    rw [handshakeResponse, HttpCore.after_append, hafter, HttpCore.after, HttpCore.after, hupgrade]
  · exact ⟨_, [.messageComplete], trace_handshakeResponse, hcomplete, hhead, by decide, hurl, rfl⟩
  · intro x hx
    cases hx

/-! ## The class -/

namespace HTTPParser

variable {core : HttpCore} {parser : HTTPParser core}

theorem mStatus_sHeadComplete :
    parser.sHeadComplete.1.mStatus = parser.mStatus ∧
      parser.sHeadComplete.1.mStatusCode = parser.mStatusCode := by
  rw [sHeadComplete_eq, storeHeader_eq]
  split
  · exact ⟨rfl, rfl⟩
  · cases target parser.mUrl <;> exact ⟨rfl, rfl⟩

/-- A status, however it is cut. -/
theorem notifyAll_status (code : ℕ) (fragments : List Bytes) (h : fragments ≠ []) :
    parser.notifyAll (fragments.map (.status code)) =
      ({ parser with
        mStatus := parser.mStatus ++ fragments.flatten, mStatusCode := some code }, true) := by
  induction fragments generalizing parser with
  | nil => exact absurd rfl h
  | cons fragment rest ih =>
      rw [List.map_cons, notifyAll_cons]
      simp only [notify, if_true, sStatusHandle]
      by_cases hrest : rest = []
      · subst hrest
        simp [notifyAll]
      · rw [ih hrest]
        simp

/-- Header lines leave the status alone. -/
theorem mStatus_notifyAll {events : List HttpEvent}
    (h : ∀ event ∈ events, ∀ code data, event ≠ .status code data) :
    (parser.notifyAll events).1.mStatus = parser.mStatus ∧
      (parser.notifyAll events).1.mStatusCode = parser.mStatusCode := by
  induction events generalizing parser with
  | nil => exact ⟨rfl, rfl⟩
  | cons event rest ih =>
      obtain ⟨hevent, hrest⟩ := List.forall_mem_cons.mp h
      have hone : (parser.notify event).1.mStatus = parser.mStatus ∧
          (parser.notify event).1.mStatusCode = parser.mStatusCode := by
        cases event with
        | status code data => exact absurd rfl (hevent code data)
        | headersComplete => exact mStatus_sHeadComplete
        | headerField data =>
            show (sHeadField _ _).mStatus = _ ∧ (sHeadField _ _).mStatusCode = _
            unfold sHeadField
            dsimp only
            split
            · split
              · exact ⟨rfl, rfl⟩
              · exact mStatus_sHeadComplete
            · exact ⟨rfl, rfl⟩
        | _ => exact ⟨rfl, rfl⟩
      rw [notifyAll_cons]
      split
      · obtain ⟨hstatus, hcode⟩ := @ih (parser.notify event).1 hrest
        exact ⟨hstatus.trans hone.1, hcode.trans hone.2⟩
      · exact hone

/-- The end of the headers stores the last of them. -/
theorem mHeadValues_notifyAll_end :
    (parser.notifyAll [.headersComplete, .messageComplete]).1.mHeadValues =
      parser.storeHeader.mHeadValues := by
  rw [notifyAll_cons]
  split
  · exact mHeadValues_sHeadComplete
  · exact mHeadValues_sHeadComplete

theorem finishParse_frame :
    parser.finishParse.mHeadValues = parser.mHeadValues ∧
      parser.finishParse.mStatus = parser.mStatus ∧
      parser.finishParse.mStatusCode = parser.mStatusCode := by
  unfold finishParse
  split <;> exact ⟨rfl, rfl, rfl⟩

/-- A message without URL and body, behind its first line. -/
theorem Collected.finishParse_lines {lines : List HeaderLine} (h : Collected [] parser)
    (hlines : ∀ line ∈ lines, line.WellFormed) (s : core.State) :
    let done := ((parser.notifyAll (lines.flatMap HeaderLine.events ++
      [.headersComplete, .messageComplete])).1.withCore s).finishParse
    done.mHeadValues = headerMap lines ∧ done.mStatus = parser.mStatus ∧
      done.mStatusCode = parser.mStatusCode := by
  have hnone : ∀ event ∈ lines.flatMap HeaderLine.events ++
      [.headersComplete, .messageComplete], ∀ code data, event ≠ .status code data := by
    intro event hmem code data heq
    subst heq
    simp [HeaderLine.events] at hmem
  obtain ⟨hok, hread⟩ := h.lines hlines
  obtain ⟨hheads, hstatus, hcode⟩ := @finishParse_frame core ((parser.notifyAll
    (lines.flatMap HeaderLine.events ++ [.headersComplete, .messageComplete])).1.withCore s)
  obtain ⟨hsame, hsame'⟩ := @mStatus_notifyAll core parser _ hnone
  refine ⟨hheads.trans ?_, hstatus.trans hsame, hcode.trans hsame'⟩
  show (parser.notifyAll _).1.mHeadValues = _
  rw [notifyAll_append, if_pos hok, mHeadValues_notifyAll_end, hread.stored, List.nil_append]

theorem hasKey_view (parser : HTTPParser core) (name : Bytes) :
    parser.view.hasKey name = (parser.mHeadValues name).isSome := rfl

theorem getValue_view (parser : HTTPParser core) (name : Bytes) :
    parser.view.getValue name = (parser.mHeadValues name).getD [] := rfl

end HTTPParser

/-- The three lines have different names, so the map is the list. -/
theorem headerMap_handshakeLines (name : Bytes) :
    headerMap (handshakeLines secKey) name = (handshakeHeads secKey).lookup name := by
  have hcontent : ∀ head : Bytes × Bytes, (byteLine head).content = head.2 :=
    fun head => flatten_byteByByte head.2
  have hname : ∀ head : Bytes × Bytes, (byteLine head).name = head.1 :=
    fun head => flatten_byteByByte head.1
  have hdistinct : text "Upgrade" ≠ text "Connection" ∧
      text "Upgrade" ≠ text "Sec-WebSocket-Accept" ∧
      text "Connection" ≠ text "Sec-WebSocket-Accept" := by decide
  obtain ⟨hfirst, hsecond, hthird⟩ := hdistinct
  simp only [handshakeLines, handshakeHeads, headerMap, List.map_cons, List.map_nil,
    List.foldl_cons, List.foldl_nil, hcontent, hname, List.lookup_cons, List.lookup_nil]
  by_cases hupgrade : name = text "Upgrade"
  · subst hupgrade
    rw [Function.update_of_ne hsecond, Function.update_of_ne hfirst, Function.update_self,
      beq_self_eq_true]
  · rw [beq_eq_false_iff_ne.mpr hupgrade]
    by_cases hconnection : name = text "Connection"
    · subst hconnection
      rw [Function.update_of_ne hthird, Function.update_self, beq_self_eq_true]
    · rw [beq_eq_false_iff_ne.mpr hconnection]
      by_cases haccept : name = text "Sec-WebSocket-Accept"
      · subst haccept
        rw [Function.update_self, beq_self_eq_true]
      · rw [Function.update_of_ne haccept, Function.update_of_ne hconnection,
          Function.update_of_ne hupgrade, beq_eq_false_iff_ne.mpr haccept]

/-- The client's parser behind the response. -/
def handshakeParser (secKey : Bytes) : HTTPParser (parserCore .both) :=
  completed (parserCore .both) ⟨handshakeResponse secKey, []⟩

theorem feeds_handshakeResponse :
    (HTTPParser.new (parserCore .both)).Feeds (handshakeResponse secKey) :=
  (wellFormed_handshakeResponse.feeds_iff rfl).mpr (.inl rfl)

/-- What the callbacks in front of the header lines leave. -/
theorem notifyAll_statusEvents (core : HttpCore) :
    (HTTPParser.new core).notifyAll statusEvents = ({ HTTPParser.new core with
      mStatus := text "Switching Protocols", mStatusCode := some 101 }, true) := by
  have hne : byteByByte (text "Switching Protocols") ≠ [] := by simp [byteByByte]
  rw [statusEvents, HTTPParser.notifyAll_cons]
  simp only [HTTPParser.notify, if_true]
  rw [HTTPParser.notifyAll_status 101 _ hne, flatten_byteByByte]
  rfl

theorem handshakeLines_wellFormed : ∀ line ∈ handshakeLines secKey, line.WellFormed := by
  intro line hline
  obtain ⟨head, hhead, rfl⟩ := List.mem_map.mp hline
  refine ⟨?_, by simp [byteLine, byteByByte]⟩
  rw [show (byteLine head).field.flatten = head.1 from flatten_byteByByte head.1]
  simp only [handshakeHeads, List.mem_cons, List.not_mem_nil, or_false] at hhead
  obtain rfl | rfl | rfl := hhead
  · exact (by decide : text "Upgrade" ≠ [])
  · exact (by decide : text "Connection" ≠ [])
  · exact (by decide : text "Sec-WebSocket-Accept" ≠ [])

theorem handshakeParser_eq :
    (∀ name, (handshakeParser secKey).mHeadValues name = (handshakeHeads secKey).lookup name) ∧
      (handshakeParser secKey).mStatus = text "Switching Protocols" ∧
      (handshakeParser secKey).mStatusCode = some 101 := by
  have hcollected : HTTPParser.Collected [] { HTTPParser.new (parserCore .both) with
      mStatus := text "Switching Protocols", mStatusCode := some 101 } := ⟨rfl, rfl⟩
  have hinit : (HTTPParser.new (parserCore .both)).mParser = (parserCore .both).init := rfl
  obtain ⟨hheads, hstatus, hcode⟩ := hcollected.finishParse_lines
    (@handshakeLines_wellFormed secKey)
    ((parserCore .both).after (parserCore .both).init (handshakeResponse secKey))
  have hparser : handshakeParser secKey = ((HTTPParser.notifyAll
      { HTTPParser.new (parserCore .both) with
        mStatus := text "Switching Protocols", mStatusCode := some 101 }
      ((handshakeLines secKey).flatMap HeaderLine.events ++
        [.headersComplete, .messageComplete])).1.withCore
      ((parserCore .both).after (parserCore .both).init (handshakeResponse secKey))).finishParse := by
    rw [handshakeParser, completed, HTTPParser.fed, hinit, trace_handshakeResponse,
      List.append_assoc, HTTPParser.notifyAll_append, notifyAll_statusEvents, if_pos rfl]
  rw [hparser]
  exact ⟨fun name => (congrFun hheads name).trans (headerMap_handshakeLines name), hstatus, hcode⟩

theorem wsHandshake_eq_handshakeResponse {mBuffer mDigest : Bytes} (hbuffer : mBuffer.length = 64)
    (hkey : secKey.length + 100 ≤ 2 ^ 32) :
    wsHandshake mBuffer mDigest secKey = some (handshakeResponse secKey) := by
  have hhead : handshakeHead = handshakeLine ++ (text "\r\n" ++ (text "Upgrade" ++ text ": " ++
      text "websocket" ++ text "\r\n" ++ (text "Connection" ++ text ": " ++ text "Upgrade" ++
      text "\r\n" ++ (text "Sec-WebSocket-Accept" ++ text ": ")))) := by decide +kernel
  have hend : ([13, 10, 13] ++ [10] : Bytes) = text "\r\n" ++ text "\r\n" := by decide
  rw [wsHandshake_eq hbuffer hkey]
  simp only [handshakeResponse, hhead, handshakeHeads, headText, List.flatMap_cons,
    List.flatMap_nil, List.append_assoc, List.append_nil, hend]

/-- **The client reads the handshake.**  However the response is cut, the connection of the
client makes one call, the callback for a new WebSocket.  It sees the status, the three
headers of the response and no other header; the last of the three decodes to the hash of the
key and the fixed string. -/
theorem wsHandshake_received {mBuffer mDigest response : Bytes} {segments : List Bytes}
    (hbuffer : mBuffer.length = 64) (hkey : secKey.length + 100 ≤ 2 ^ 32)
    (hresponse : wsHandshake mBuffer mDigest secKey = some response)
    (hcut : Cuts response segments) :
    ∃ view : View,
      ((HttpConnection.new (parserCore .both)).receiveAll .full segments).calls =
        [.wsConnected view] ∧
      ((HttpConnection.new (parserCore .both)).receiveAll .full segments).pending = [] ∧
      view.isWebSocket = true ∧ view.statusCode = some 101 ∧
      view.status = text "Switching Protocols" ∧
      (∀ name, view.hasKey name = ((handshakeHeads secKey).lookup name).isSome ∧
        view.getValue name = ((handshakeHeads secKey).lookup name).getD []) ∧
      base64Decode (view.getValue (text "Sec-WebSocket-Accept")) =
        Sha1.sha1 (secKey ++ guid) := by
  obtain rfl : handshakeResponse secKey = response :=
    Option.some.inj ((wsHandshake_eq_handshakeResponse hbuffer hkey).symm.trans hresponse)
  obtain ⟨hheads, hstatus, hcode⟩ := @handshakeParser_eq secKey
  have hsocket : (handshakeParser secKey).mIsWebSocket = true :=
    mIsWebSocket_completed wellFormed_handshakeResponse feeds_handshakeResponse
  have hreceived : (HttpConnection.new (parserCore .both)).receiveAll .full segments =
      ⟨((handshakeParser secKey).completeHttp .full).1, [],
        ((handshakeParser secKey).completeHttp .full).2⟩ :=
    receiveAll_new wellFormed_handshakeResponse feeds_handshakeResponse hcut
  -- only these facts about the parser are needed
  generalize handshakeParser secKey = parser at *
  have hvalues : ∀ name, parser.view.hasKey name = ((handshakeHeads secKey).lookup name).isSome ∧
      parser.view.getValue name = ((handshakeHeads secKey).lookup name).getD [] := by
    intro name
    rw [HTTPParser.hasKey_view, HTTPParser.getValue_view, hheads]
    exact ⟨rfl, rfl⟩
  have hkeyless : parser.hasKey (text "Sec-WebSocket-Key") = false := by
    have hnone : (handshakeHeads secKey).lookup (text "Sec-WebSocket-Key") = none := rfl
    rw [HTTPParser.hasKey, hheads, hnone]
    rfl
  have hcalls : (parser.completeHttp .full).2 = [.wsConnected parser.view] := by
    rw [HTTPParser.completeHttp, if_pos hsocket]
    dsimp only
    rw [hkeyless]
    rfl
  refine ⟨parser.view, ?_, ?_, hsocket, hcode, hstatus, hvalues, ?_⟩
  · rw [hreceived]
    exact hcalls
  · rw [hreceived]
  · have haccept : (handshakeHeads secKey).lookup (text "Sec-WebSocket-Accept") =
        some (acceptKey secKey) := rfl
    have hlength : (Sha1.sha1 (secKey ++ guid)).length = 20 := Sha1.length_digest _
    rw [(hvalues _).2, haccept, Option.getD_some]
    exact decode_encode (by rw [hlength]; decide)

/-- The response in two segments, with a cut in front of the value. -/
theorem wsHandshake_received_cut :
    ∃ view : View,
      ((HttpConnection.new (parserCore .both)).receiveAll .full
        [handshakeHead, acceptKey (text "key") ++ [13, 10, 13] ++ [10]]).calls =
          [.wsConnected view] ∧
      view.hasKey (text "Upgrade") = true ∧ view.getValue (text "Upgrade") = text "websocket" := by
  have hcut : Cuts (handshakeResponse (text "key"))
      [handshakeHead, acceptKey (text "key") ++ [13, 10, 13] ++ [10]] := by
    refine ⟨by simp [handshakeResponse], ?_⟩
    simp only [List.forall_mem_cons]
    exact ⟨by decide, by simp, nofun⟩
  obtain ⟨view, hcalls, -, -, -, -, hvalues, -⟩ := @wsHandshake_received (text "key")
    (List.replicate 64 0) [] _ _ List.length_replicate (by decide)
    (wsHandshake_eq_handshakeResponse List.length_replicate (by decide)) hcut
  obtain ⟨hkey, hvalue⟩ := hvalues (text "Upgrade")
  exact ⟨view, hcalls, hkey, hvalue⟩

end Brynet.Http
