import Brynet.Http.HttpParser

/-!
# `HttpService`

The data handler that `HttpService::handle` installs on a session: a new
`HTTPParser` for the session, `ProcessHttp` until a message asked for an upgrade,
`ProcessWebSocket` from then on.  The handler returns how many bytes it has used;
`DataSocket::recv` presents the others again, in front of the next bytes.

The calls out of the class are collected in a list: the user's callbacks with
what they can read of their arguments, and the handshake response that is sent.
-/

namespace Brynet.Http

/-- What a callback reads about a message: `getPath`, `getQuery`, `getBody`, and
`hasKey` and `getValue` for every key. -/
structure Message where
  path : Bytes
  query : Bytes
  body : Bytes
  hasKey : Bytes → Bool
  getValue : Bytes → Bytes

/-- Everything a callback reads of its `HTTPParser`. -/
structure View extends Message where
  isWebSocket : Bool
  isKeepAlive : Bool
  status : Bytes
  statusCode : Option ℕ

/-- The calls out of the class.  `send` is the sending of
`wsHandshake(secKey)`; the opcode of a message that began before the first frame
is not initialised. -/
inductive HttpCall
  | http (view : View)
  | wsConnected (view : View)
  | ws (opcode : Option WebSocketFrameType) (payload : Bytes)
  | send (secKey : Bytes)

/-- The callbacks of the user. -/
def HttpCall.isCallback : HttpCall → Bool
  | .send _ => false
  | _ => true

/-- Which callbacks of an `HttpSession` are set. -/
structure HttpSession where
  mHttpRequestCallback : Bool
  mWSCallback : Bool
  mWSConnectedCallback : Bool
deriving Repr, DecidableEq

/-- A session with all its callbacks. -/
def HttpSession.full : HttpSession := ⟨true, true, true⟩

/-- A call that is made only if its callback is set. -/
def callIf (isSet : Bool) (call : HttpCall) : List HttpCall := if isSet then [call] else []

/-- What the handler leaves: the parser, the number of bytes used, the calls. -/
structure Handled (core : HttpCore) where
  parser : HTTPParser core
  retlen : ℕ
  calls : List HttpCall

namespace HTTPParser

variable {core : HttpCore}

def message (parser : HTTPParser core) : Message :=
  { path := parser.mPath
    query := parser.mQuery
    body := parser.mBody
    hasKey := parser.hasKey
    getValue := parser.getValue }

def view (parser : HTTPParser core) : View :=
  { parser.message with
    isWebSocket := parser.mIsWebSocket
    isKeepAlive := parser.mIsKeepAlive
    status := parser.mStatus
    statusCode := parser.mStatusCode }

/-- What `ProcessWebSocket` does with one frame. -/
def wsFrame (session : HttpSession) (parser : HTTPParser core) (frame : WsFrame) :
    HTTPParser core × List HttpCall :=
  let continues := frame.opcode == WebSocketFrameType.continuationFrame
  let parser := { parser with
    mWSParsePayload := frame.payload
    mWSCacheFrame :=
      if !frame.fin || continues then parser.mWSCacheFrame ++ frame.payload
      else parser.mWSCacheFrame
    mWSFrameType := if !frame.fin && !continues then some frame.opcode else parser.mWSFrameType }
  if !frame.fin then (parser, [])
  else if continues then
    let parser :=
      if parser.mWSCacheFrame = [] then parser
      else { parser with mWSParsePayload := parser.mWSCacheFrame, mWSCacheFrame := [] }
    (parser, callIf session.mWSCallback (.ws parser.mWSFrameType parser.mWSParsePayload))
  else (parser, callIf session.mWSCallback (.ws (some frame.opcode) parser.mWSParsePayload))

/-- `ProcessWebSocket`. -/
def processWebSocket (session : HttpSession) (parser : HTTPParser core) (buffer : Bytes) :
    Handled core :=
  if buffer = [] then ⟨parser, 0, []⟩
  else
    match _hframe : wsFrameExtractBuffer [] buffer with
    | .error _ => ⟨{ parser with mWSParsePayload := [] }, 0, []⟩
    | .ok frame =>
        let framed := parser.wsFrame session frame
        let rest := framed.1.processWebSocket session (buffer.drop frame.frameSize)
        ⟨rest.parser, frame.frameSize + rest.retlen, framed.2 ++ rest.calls⟩
termination_by buffer.length
decreasing_by
  have hbounds := frameSize_bounds _hframe
  rw [List.length_drop]
  omega

/-- The end of `ProcessHttp`, once a message is complete. -/
def completeHttp (session : HttpSession) (parser : HTTPParser core) :
    HTTPParser core × List HttpCall :=
  if parser.mIsWebSocket then
    let key := text "Sec-WebSocket-Key"
    (parser, (if parser.hasKey key then [.send (parser.getValue key)] else []) ++
      callIf session.mWSConnectedCallback (.wsConnected parser.view))
  else
    (if parser.mIsKeepAlive then parser.clearParse else parser,
      callIf session.mHttpRequestCallback (.http parser.view))

/-- `ProcessHttp`. -/
def processHttp (session : HttpSession) (parser : HTTPParser core) (buffer : Bytes) :
    Handled core :=
  let parsed := if parser.mISCompleted then (parser, buffer.length) else parser.tryParse buffer
  if parsed.1.mISCompleted then
    let completed := parsed.1.completeHttp session
    ⟨completed.1, parsed.2, completed.2⟩
  else ⟨parsed.1, parsed.2, []⟩

/-- The data callback that `handle` sets. -/
def handle (session : HttpSession) (parser : HTTPParser core) (buffer : Bytes) : Handled core :=
  if parser.mIsWebSocket then parser.processWebSocket session buffer
  else parser.processHttp session buffer

end HTTPParser

/-! ## A connection -/

/-- A connection that `HttpService` handles: its parser, the bytes that were
received and not used, and the calls made so far. -/
structure HttpConnection (core : HttpCore) where
  parser : HTTPParser core
  pending : Bytes
  calls : List HttpCall

namespace HttpConnection

variable {core : HttpCore}

def new (core : HttpCore) : HttpConnection core := ⟨HTTPParser.new core, [], []⟩

/-- A segment arrives: the handler is given the pending bytes with it. -/
def receive (session : HttpSession) (connection : HttpConnection core) (segment : Bytes) :
    HttpConnection core :=
  let buffer := connection.pending ++ segment
  let handled := connection.parser.handle session buffer
  { parser := handled.parser
    pending := buffer.drop handled.retlen
    calls := connection.calls ++ handled.calls }

/-- The connection after all the segments. -/
def receiveAll (session : HttpSession) (connection : HttpConnection core) (segments : List Bytes) :
    HttpConnection core :=
  segments.foldl (receive session) connection

end HttpConnection

end Brynet.Http
