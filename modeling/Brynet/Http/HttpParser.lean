import Brynet.Http.WebSocketFormat

/-!
# `HTTPParser`

The class `HTTPParser` collects what the callbacks of the bundled `http_parser`
report about a message.  `http_parser_execute` itself is a parameter of this
model, an `HttpCore`: a machine that reads one byte after the other and makes
callbacks on the way.  `parserCore` is the core that the bundled parser is, and
`HTTPParser.bundled_refines` says that the class over it does what the class with
the bundled parser does; the results for any core are read at this one.

Reading bytes one at a time is the assumption that the callbacks do not depend
on how the bytes were cut into buffers.  The data callbacks (`url`,
`headerField`, ...) append what they are given, so a string that the source
reports in one piece may as well be reported byte by byte.
-/

namespace Brynet.Http

open Memory

/-- The callbacks of `http_parser_settings`. -/
inductive HttpEvent
  | messageBegin
  | url (data : Bytes)
  | status (code : ℕ) (data : Bytes)
  | headerField (data : Bytes)
  | headerValue (data : Bytes)
  | headersComplete
  | body (data : Bytes)
  | messageComplete
  | chunkHeader
  | chunkComplete
deriving Repr, DecidableEq

/-- How `http_parser_execute` goes on after a byte: to the next one, out of the
loop because the message asked for an upgrade, or into its error state. -/
inductive CoreResult
  | next
  | stop
  | error
deriving Repr, DecidableEq

/-- `http_parser_execute`, byte by byte.  `upgrade` is the field of that name. -/
structure HttpCore where
  State : Type
  init : State
  step : State → UInt8 → State × List HttpEvent × CoreResult
  upgrade : State → Bool

/-- The text of a string literal. -/
def text (s : String) : Bytes := s.toList.map Char.toUInt8

/-- The members of the class.  `httpErrno` says whether `http_errno` of `mParser`
differs from `HPE_OK`; `mStatusCode` and `mWSFrameType` are not initialised by the
constructor. -/
structure HTTPParser (core : HttpCore) where
  mParser : core.State
  httpErrno : Bool
  mIsWebSocket : Bool
  mIsKeepAlive : Bool
  mISCompleted : Bool
  mLastWasValue : Bool
  mCurrentField : Bytes
  mCurrentValue : Bytes
  mPath : Bytes
  mQuery : Bytes
  mStatus : Bytes
  mHeadValues : Bytes → Option Bytes
  mStatusCode : Option ℕ
  mUrl : Bytes
  mBody : Bytes
  mWSCacheFrame : Bytes
  mWSParsePayload : Bytes
  mWSFrameType : Option WebSocketFrameType

namespace HTTPParser

variable {core : HttpCore}

/-- The constructor. -/
def new (core : HttpCore) : HTTPParser core :=
  { mParser := core.init
    httpErrno := false
    mIsWebSocket := false
    mIsKeepAlive := false
    mISCompleted := false
    mLastWasValue := true
    mCurrentField := []
    mCurrentValue := []
    mPath := []
    mQuery := []
    mStatus := []
    mHeadValues := fun _ => none
    mStatusCode := none
    mUrl := []
    mBody := []
    mWSCacheFrame := []
    mWSParsePayload := []
    mWSFrameType := none }

/-- `clearParse`. -/
def clearParse (parser : HTTPParser core) : HTTPParser core :=
  { parser with mISCompleted := false, mHeadValues := fun _ => none, mPath := [], mQuery := [] }

/-- `hasEntry`. -/
def hasEntry (parser : HTTPParser core) (key value : Bytes) : Bool :=
  parser.mHeadValues key == some value

/-- `hasKey`. -/
def hasKey (parser : HTTPParser core) (key : Bytes) : Bool := (parser.mHeadValues key).isSome

/-- `getValue`. -/
def getValue (parser : HTTPParser core) (key : Bytes) : Bytes := (parser.mHeadValues key).getD []

/-! ## The callbacks -/

/-- `sMessageBegin`. -/
def sMessageBegin (parser : HTTPParser core) : HTTPParser core :=
  { parser with mLastWasValue := true, mCurrentField := [], mCurrentValue := [] }

/-- `sMessageEnd`. -/
def sMessageEnd (parser : HTTPParser core) : HTTPParser core := { parser with mISCompleted := true }

/-- The first statement of `sHeadComplete`. -/
def storeHeader (parser : HTTPParser core) : HTTPParser core :=
  if parser.mCurrentField = [] then parser
  else { parser with
    mHeadValues := Function.update parser.mHeadValues parser.mCurrentField
      (some parser.mCurrentValue) }

/-- `sHeadComplete`, with whether it returns 0. -/
def sHeadComplete (parser : HTTPParser core) : HTTPParser core × Bool :=
  let parser := parser.storeHeader
  if parser.mUrl = [] then (parser, true)
  else
    match httpParserParseUrl parser.mUrl false with
    | none => (parser, false)
    | some u =>
        match u.fields .path with
        | none => (parser, false)
        | some path =>
            let parser := { parser with mPath := slice parser.mUrl path.off path.len }
            match u.fields .query with
            | none => (parser, true)
            | some query => ({ parser with mQuery := slice parser.mUrl query.off query.len }, true)

/-- `sUrlHandle`. -/
def sUrlHandle (parser : HTTPParser core) (url : Bytes) : HTTPParser core :=
  { parser with mUrl := parser.mUrl ++ url }

/-- `sHeadValue`. -/
def sHeadValue (parser : HTTPParser core) (data : Bytes) : HTTPParser core :=
  { parser with mCurrentValue := parser.mCurrentValue ++ data, mLastWasValue := true }

/-- `sHeadField`.  The result of `sHeadComplete` is ignored. -/
def sHeadField (parser : HTTPParser core) (data : Bytes) : HTTPParser core :=
  let parser :=
    if parser.mLastWasValue then
      let parser := if parser.mCurrentField = [] then parser else parser.sHeadComplete.1
      { parser with mCurrentField := [], mCurrentValue := [] }
    else parser
  { parser with mCurrentField := parser.mCurrentField ++ data, mLastWasValue := false }

/-- `sStatusHandle`. -/
def sStatusHandle (parser : HTTPParser core) (code : ℕ) (data : Bytes) : HTTPParser core :=
  { parser with mStatus := parser.mStatus ++ data, mStatusCode := some code }

/-- `sBodyHandle`. -/
def sBodyHandle (parser : HTTPParser core) (data : Bytes) : HTTPParser core :=
  { parser with mBody := parser.mBody ++ data }

/-- The callback for an event, with whether it returns 0; `sChunkHeader` and
`sChunkComplete` do nothing. -/
def notify (parser : HTTPParser core) : HttpEvent → HTTPParser core × Bool
  | .messageBegin => (parser.sMessageBegin, true)
  | .url data => (parser.sUrlHandle data, true)
  | .status code data => (parser.sStatusHandle code data, true)
  | .headerField data => (parser.sHeadField data, true)
  | .headerValue data => (parser.sHeadValue data, true)
  | .headersComplete => parser.sHeadComplete
  | .body data => (parser.sBodyHandle data, true)
  | .messageComplete => (parser.sMessageEnd, true)
  | .chunkHeader => (parser, true)
  | .chunkComplete => (parser, true)

/-- The callbacks of one byte, up to the first that fails. -/
def notifyAll (parser : HTTPParser core) : List HttpEvent → HTTPParser core × Bool
  | [] => (parser, true)
  | event :: rest =>
      let notified := parser.notify event
      if notified.2 then notified.1.notifyAll rest else notified

/-! ## Parsing -/

/-- The loop of `http_parser_execute`, with the number of bytes it has parsed. -/
def executeLoop (parser : HTTPParser core) : Bytes → HTTPParser core × ℕ
  | [] => (parser, 0)
  | byte :: rest =>
      let step := core.step parser.mParser byte
      let notified := { parser with mParser := step.1 }.notifyAll step.2.1
      if notified.2 then
        match step.2.2 with
        | .next =>
            let done := notified.1.executeLoop rest
            (done.1, done.2 + 1)
        | .stop => (notified.1, 1)
        | .error => ({ notified.1 with httpErrno := true }, 0)
      else ({ notified.1 with httpErrno := true }, 0)

/-- `http_parser_execute` on a buffer that is not empty. -/
def execute (parser : HTTPParser core) (buffer : Bytes) : HTTPParser core × ℕ :=
  if parser.httpErrno then (parser, 0) else parser.executeLoop buffer

/-- The end of `tryParse`: if a message was completed its decisions are noted
and `mParser` is initialised again. -/
def finishParse (parser : HTTPParser core) : HTTPParser core :=
  if parser.mISCompleted then
    { parser with
      mIsWebSocket := core.upgrade parser.mParser
      mIsKeepAlive := !parser.hasEntry (text "Connection") (text "close")
      mParser := core.init
      httpErrno := false }
  else parser

/-- `tryParse`. -/
def tryParse (parser : HTTPParser core) (buffer : Bytes) : HTTPParser core × ℕ :=
  let parsed := parser.execute buffer
  (parsed.1.finishParse, parsed.2)

end HTTPParser

end Brynet.Http
