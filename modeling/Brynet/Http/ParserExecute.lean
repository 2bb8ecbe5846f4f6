import Brynet.Http.ParserReact

/-!
# `http_parser_execute`

The loop of the function over a buffer, with the pointer `p`, the five marks and the
callbacks.  A callback is a function on the state of the library's user; it may refuse,
and it may pause the parser.  A failed assertion is the result `none`.
-/

namespace Brynet.Http

open Memory

namespace HttpFields

/-! ## The loop over a header field -/

/-- A further character of the name `name`, whose last one leads to `found`. -/
def matchName (parser : HttpFields) (c : UInt8) (name : String) (found failed : HeaderState) :
    HttpFields :=
  let index := parser.nextIndex
  if index > (text name).length ∨ c ≠ (text name).getD index 0 then
    { parser with index := index, headerState := failed }
  else if index = (text name).length - 1 then
    { parser with index := index, headerState := found }
  else { parser with index := index }

/-- The switch of the loop of `s_header_field`; `none` is the failed assertion. -/
def fieldChar (parser : HttpFields) (ch : UInt8) : Option HttpFields :=
  let c := token ch
  match parser.headerState with
  | .general => some parser
  | .c => some { parser with
      index := parser.nextIndex, headerState := if c = 'o'.toUInt8 then .co else .general }
  | .co => some { parser with
      index := parser.nextIndex, headerState := if c = 'n'.toUInt8 then .con else .general }
  | .con => some { parser with
      index := parser.nextIndex
      headerState :=
        if c = 'n'.toUInt8 then .matchingConnection
        else if c = 't'.toUInt8 then .matchingContentLength
        else .general }
  | .matchingConnection => some (parser.matchName c "connection" .connection .general)
  | .matchingProxyConnection => some (parser.matchName c "proxy-connection" .connection .general)
  | .matchingContentLength => some (parser.matchName c "content-length" .contentLength .general)
  | .matchingTransferEncoding =>
      some (parser.matchName c "transfer-encoding" .transferEncoding .general)
  | .matchingUpgrade => some (parser.matchName c "upgrade" .upgrade .general)
  | .connection | .contentLength | .transferEncoding | .upgrade =>
      some (if ch ≠ ' '.toUInt8 then { parser with headerState := .general } else parser)
  | _ => none

/-- The loop of `s_header_field`, with the number of bytes it has read. -/
def scanField (parser : HttpFields) : Bytes → Option (HttpFields × ℕ)
  | [] => some (parser, 0)
  | ch :: rest =>
      if token ch = 0 then some (parser, 0)
      else (parser.fieldChar ch).bind fun parser =>
        (parser.scanField rest).map fun scan => (scan.1, scan.2 + 1)

/-- The byte that ends a header field. -/
def headerFieldEnd (parser : HttpFields) (ch : UInt8) : Reaction :=
  if ch = ':'.toUInt8 then (parser.goto .headerValueDiscardWs).report .headerField
  else .error .invalidHeaderToken parser

/-- `s_header_field` on the rest of the buffer: how far `p` moves, and what happens there. -/
def headerField (parser : HttpFields) (rest : Bytes) : ℕ × Reaction :=
  match parser.scanField rest with
  | none => (0, .abort)
  | some (parser, n) =>
      match rest.drop n with
      | [] => (n, .count n parser <| .back <| .next parser)
      | ch :: _ => (n, .count n parser <| parser.headerFieldEnd ch)

/-! ## The loop over a header value -/

/-- The flag for a token of `Connection` that was read to its end. -/
def finishToken (parser : HttpFields) : HttpFields :=
  match parser.headerState with
  | .connectionKeepAlive => { parser with flags := { parser.flags with connectionKeepAlive := true } }
  | .connectionClose => { parser with flags := { parser.flags with connectionClose := true } }
  | .connectionUpgrade => { parser with flags := { parser.flags with connectionUpgrade := true } }
  | _ => parser

/-- What the switch of the loop of `s_header_value` does with a character. -/
inductive ValueChar
  | next (parser : HttpFields)
  | invalid (parser : HttpFields)
  | abort
deriving Repr, DecidableEq

/-- The switch of the loop of `s_header_value`, for a character that is no line end.
`h_general` is not here: there the loop looks for the line end with `memchr`. -/
def valueChar (parser : HttpFields) (ch : UInt8) : ValueChar :=
  let c := lower ch
  match parser.headerState with
  | .connection | .transferEncoding => .abort
  | .contentLength =>
      if ch = ' '.toUInt8 then .next parser
      else if !isNum ch then .invalid parser
      else if (ullongMax - 10) / 10 < parser.contentLength then .invalid parser
      else .next { parser with contentLength := (parser.contentLength * 10 + digit ch) % 2 ^ 64 }
  | .matchingTransferEncodingChunked =>
      .next (parser.matchName c "chunked" .transferEncodingChunked .general)
  | .matchingConnectionTokenStart =>
      .next { parser with
        headerState :=
          if c = 'k'.toUInt8 then .matchingConnectionKeepAlive
          else if c = 'c'.toUInt8 then .matchingConnectionClose
          else if c = 'u'.toUInt8 then .matchingConnectionUpgrade
          else if token c ≠ 0 then .matchingConnectionToken
          else if isOneOf [' ', '\t'] c then .matchingConnectionTokenStart
          else .general }
  | .matchingConnectionKeepAlive =>
      .next (parser.matchName c "keep-alive" .connectionKeepAlive .matchingConnectionToken)
  | .matchingConnectionClose =>
      .next (parser.matchName c "close" .connectionClose .matchingConnectionToken)
  | .matchingConnectionUpgrade =>
      .next (parser.matchName c "upgrade" .connectionUpgrade .matchingConnectionToken)
  | .matchingConnectionToken =>
      .next (if ch = ','.toUInt8 then
        { parser with headerState := .matchingConnectionTokenStart, index := 0 } else parser)
  | .transferEncodingChunked =>
      .next (if ch ≠ ' '.toUInt8 then { parser with headerState := .general } else parser)
  | .connectionKeepAlive | .connectionClose | .connectionUpgrade =>
      .next (if ch = ','.toUInt8 then
          { parser.finishToken with headerState := .matchingConnectionTokenStart, index := 0 }
        else if ch ≠ ' '.toUInt8 then { parser with headerState := .matchingConnectionToken }
        else parser)
  | _ => .next { parser with headerState := .general }

/-- `memchr`: the first position of `c`. -/
def memchr (c : UInt8) (s : Bytes) : Option ℕ := s.findIdx? (· == c)

/-- Where the search for a line end stops, from a character in the state `h_general`.  If
there is no line end within the limit it stops at the end of the buffer. -/
def lineEnd (rest : Bytes) : ℕ :=
  let limit := min rest.length httpMaxHeaderSize
  match memchr '\r'.toUInt8 (rest.take limit), memchr '\n'.toUInt8 (rest.take limit) with
  | some cr, some lf => if lf ≤ cr then lf else cr
  | some cr, none => cr
  | none, some lf => lf
  | none, none => rest.length

/-- How the loop of `s_header_value` ends: at the end of the buffer, at a line end, at a
character that is not allowed, or with a failed assertion. -/
inductive ValueEnd
  | buffer (parser : HttpFields)
  | line (parser : HttpFields) (ch : UInt8)
  | invalid (parser : HttpFields)
  | abort
deriving Repr, DecidableEq

/-- The end of the loop at a line end, or at the end of the buffer. -/
def valueEndAt (parser : HttpFields) (rest : Bytes) : ValueEnd :=
  match rest with
  | [] => .buffer parser
  | ch :: _ => .line parser ch

/-- The loop of `s_header_value`, with the number of bytes it has read. -/
def scanValue (parser : HttpFields) : Bytes → ValueEnd × ℕ
  | [] => (.buffer parser, 0)
  | ch :: rest =>
      if isOneOf ['\r', '\n'] ch then (.line parser ch, 0)
      else if parser.headerState = .general then
        let n := lineEnd (ch :: rest)
        (parser.valueEndAt ((ch :: rest).drop n), n)
      else
        match parser.valueChar ch with
        | .next parser =>
            let scan := parser.scanValue rest
            (scan.1, scan.2 + 1)
        | .invalid parser => (.invalid parser, 0)
        | .abort => (.abort, 0)

/-- `s_header_almost_done`. -/
def headerAlmostDone (parser : HttpFields) (ch : UInt8) : Reaction :=
  parser.expect ch '\n' .headerValueLws

/-- The line end after a header value, which was `n` bytes behind `p`.  A carriage return
counts after the callback, a line feed before it, when `header_state` is still `old`. -/
def headerValueEnd (parser : HttpFields) (old : HeaderState) (n : ℕ) (ch : UInt8) : Reaction :=
  let parser := parser.goto .headerAlmostDone
  if ch = '\r'.toUInt8 then
    .data .headerValue parser 0 1 <| .count n parser <| .next parser
  else
    .count n { parser with headerState := old } <|
      .data .headerValue parser 0 0 <| parser.headerAlmostDone ch

/-- What follows the loop of `s_header_value` after `n` bytes. -/
def ValueEnd.reaction (old : HeaderState) (n : ℕ) : ValueEnd → Reaction
  | .buffer parser => .count n parser <| .back <| .next parser
  | .line parser ch => parser.headerValueEnd old n ch
  | .invalid parser => .error .invalidContentLength parser
  | .abort => .abort

/-- `s_header_value` on the rest of the buffer. -/
def headerValue (parser : HttpFields) (rest : Bytes) : ℕ × Reaction :=
  let scan := parser.scanValue rest
  (scan.2, scan.1.reaction parser.headerState scan.2)

/-! ## Bodies -/

/-- `parser->content_length -= n`. -/
def consume (parser : HttpFields) (n : ℕ) : HttpFields :=
  { parser with contentLength := parser.contentLength - n }

/-- `s_body_identity` at the last byte it takes; that byte is in the callback, too. -/
def bodyRead (parser : HttpFields) : Reaction :=
  if parser.contentLength = 0 then
    let parser := parser.goto .messageDone
    .data .body parser 1 0 parser.messageDone
  else .next parser

/-- `s_body_identity` with `left` bytes in the buffer.  `MARK(body)` is made before `p` moves. -/
def bodyIdentity (parser : HttpFields) (left : ℕ) : ℕ × Reaction :=
  let toRead := min parser.contentLength left
  if parser.contentLength = 0 ∨ parser.contentLength = ullongMax then (0, .abort)
  else (toRead - 1, (parser.consume toRead).bodyRead)

/-- `s_chunk_data` at the last byte it takes. -/
def chunkRead (parser : HttpFields) : Reaction :=
  .next (if parser.contentLength = 0 then parser.goto .chunkDataAlmostDone else parser)

/-- `s_chunk_data` with `left` bytes in the buffer. -/
def chunkData (parser : HttpFields) (left : ℕ) : ℕ × Reaction :=
  let toRead := min parser.contentLength left
  if !parser.flags.chunked ∨ parser.contentLength = 0 ∨ parser.contentLength = ullongMax then
    (0, .abort)
  else (toRead - 1, (parser.consume toRead).chunkRead)

/-- `s_body_identity_eof` with `left` bytes in the buffer. -/
def bodyIdentityEof (parser : HttpFields) (left : ℕ) : ℕ × Reaction := (left - 1, .next parser)

/-! ## The switch -/

/-- Whether the case of the state starts with `MARK(body)`. -/
def marksBody (parser : HttpFields) : Bool :=
  match parser.state with
  | .bodyIdentity | .bodyIdentityEof | .chunkData => true
  | _ => false

/-- A case that reads one byte. -/
def react (parser : HttpFields) (ch : UInt8) : Reaction :=
  match parser.state with
  | .dead => parser.deadState ch
  | .startReqOrRes => parser.startReqOrRes ch
  | .resOrRespH => parser.resOrRespH ch
  | .startRes => parser.startRes ch
  | .resH => parser.expect ch 'T' .resHT
  | .resHT => parser.expect ch 'T' .resHTT
  | .resHTT => parser.expect ch 'P' .resHTTP
  | .resHTTP => parser.expect ch '/' .resFirstHttpMajor
  | .resFirstHttpMajor => parser.firstHttpMajor ch '0' .resHttpMajor
  | .resHttpMajor => parser.httpMajorState ch .resFirstHttpMinor
  | .resFirstHttpMinor => parser.firstHttpMinor ch .resHttpMinor
  | .resHttpMinor => parser.resHttpMinor ch
  | .resFirstStatusCode => parser.resFirstStatusCode ch
  | .resStatusCode => parser.resStatusCode ch
  | .resStatusStart => parser.resStatusStart ch
  | .resStatus => parser.resStatus ch
  | .resLineAlmostDone => parser.expect ch '\n' .headerFieldStart
  | .startReq => parser.startReq ch
  | .reqMethod => parser.reqMethod ch
  | .url s => parser.reqUrl s ch
  | .reqHttpStart => parser.reqHttpStart ch
  | .reqHttpH => parser.expect ch 'T' .reqHttpHT
  | .reqHttpHT => parser.expect ch 'T' .reqHttpHTT
  | .reqHttpHTT => parser.expect ch 'P' .reqHttpHTTP
  | .reqHttpHTTP => parser.expect ch '/' .reqFirstHttpMajor
  | .reqFirstHttpMajor => parser.firstHttpMajor ch '1' .reqHttpMajor
  | .reqHttpMajor => parser.httpMajorState ch .reqFirstHttpMinor
  | .reqFirstHttpMinor => parser.firstHttpMinor ch .reqHttpMinor
  | .reqHttpMinor => parser.reqHttpMinor ch
  | .reqLineAlmostDone => parser.reqLineAlmostDone ch
  | .headerFieldStart => parser.headerFieldStart ch
  | .headerValueDiscardWs => parser.headerValueDiscardWs ch
  | .headerValueDiscardWsAlmostDone => parser.expect ch '\n' .headerValueDiscardLws
  | .headerValueDiscardLws => parser.headerValueDiscardLws ch
  | .headerValueStart => parser.headerValueStart ch
  | .headerValueLws => parser.headerValueLws ch
  | .headerAlmostDone => parser.headerAlmostDone ch
  | .chunkSizeStart => parser.chunkSizeStart ch
  | .chunkSize => parser.chunkSize ch
  | .chunkParameters => parser.chunkParameters ch
  | .chunkSizeAlmostDone => parser.chunkSizeAlmostDone ch
  | .headersAlmostDone => parser.headersAlmostDone ch
  | .headersDone => parser.headersDone ch
  | .chunkDataAlmostDone => parser.chunkDataAlmostDone ch
  | .chunkDataDone => parser.chunkDataDone ch
  | .messageDone => parser.messageDone
  | .headerField | .headerValue | .bodyIdentity | .bodyIdentityEof | .chunkData => .abort

/-- The switch with `ch :: rest` from `p` on: how far `p` moves, and what happens there. -/
def switch (parser : HttpFields) (ch : UInt8) (rest : Bytes) : ℕ × Reaction :=
  match parser.state with
  | .headerField => parser.headerField (ch :: rest)
  | .headerValue => parser.headerValue (ch :: rest)
  | .bodyIdentity => parser.bodyIdentity (rest.length + 1)
  | .bodyIdentityEof => parser.bodyIdentityEof (rest.length + 1)
  | .chunkData => parser.chunkData (rest.length + 1)
  | _ => (0, parser.react ch)

end HttpFields

/-! ## Callbacks -/

/-- What a callback did: it returned 0, it returned 1, which `on_headers_complete` may, it
returned another value, or it returned 0 after it paused the parser. -/
inductive Reply
  | ok
  | skip
  | fail
  | pause
deriving Repr, DecidableEq

/-- `http_parser_settings`: the callbacks, on the state of the user of the library. -/
abbrev Settings (σ : Type*) := HttpEvent → σ → σ × Reply

/-- The event that a data callback reports. -/
def DataKind.event (kind : DataKind) (statusCode : ℕ) (data : Bytes) : HttpEvent :=
  match kind with
  | .headerField => .headerField data
  | .headerValue => .headerValue data
  | .url => .url data
  | .body => .body data
  | .status => .status statusCode data

/-- The event that a callback without data reports. -/
def Notice.event : Notice → HttpEvent
  | .messageBegin => .messageBegin
  | .messageComplete => .messageComplete
  | .chunkHeader => .chunkHeader
  | .chunkComplete => .chunkComplete

/-- `http_errno` after a callback, if it is not `HPE_OK`. -/
def Reply.errno (reply : Reply) (callback : HttpErrno) : Option HttpErrno :=
  match reply with
  | .ok => none
  | .skip | .fail => some callback
  | .pause => some .paused

/-! ## The loop -/

/-- The locals of `http_parser_execute`, with the parser and the state of the user.  `p` is
`p - data`. -/
structure Frame (σ : Type*) where
  fields : HttpFields
  nread : ℕ
  user : σ
  p : ℕ
  marks : DataKind → Option ℕ

/-- How a step of `http_parser_execute` ends: it goes on, it returns a number, or an
assertion has failed. -/
inductive Outcome (σ : Type*)
  | next (frame : Frame σ)
  | ret (fields : HttpFields) (nread : ℕ) (user : σ) (parsed : ℕ)
  | abort

namespace Frame

variable {σ : Type*}

/-- `MARK`. -/
def mark (frame : Frame σ) (kind : DataKind) : Frame σ :=
  { frame with
    marks := Function.update frame.marks kind (some ((frame.marks kind).getD frame.p)) }

/-- The exit with `http_errno` set. -/
def fail (frame : Frame σ) (errno : HttpErrno) (fields : HttpFields) (advance : ℕ) : Outcome σ :=
  .ret { fields with httpErrno := errno } frame.nread frame.user (frame.p + advance)

/-- `parser->nread += bytes`. -/
def counted (frame : Frame σ) (bytes : ℕ) : Frame σ :=
  { frame with nread := (frame.nread + bytes) % 2 ^ 32 }

/-- The data callback with the bytes from the mark on. -/
def callbackData (settings : Settings σ) (data : Bytes) (frame : Frame σ) (kind : DataKind)
    (fields : HttpFields) (extra from' : ℕ) : σ × Reply :=
  settings (kind.event fields.statusCode (slice data from' (frame.p - from' + extra))) frame.user

/-- The rest of a case of the switch, from `p` on.  A data callback whose bytes are not in
the buffer is as bad as a failed assertion. -/
def run (settings : Settings σ) (data : Bytes) (frame : Frame σ) : Reaction → Outcome σ
  | .next fields => .next { frame with fields := fields }
  | .error errno fields => frame.fail errno fields 0
  | .leave fields => .ret fields frame.nread frame.user (frame.p + 1)
  | .abort => .abort
  | .back rest => { frame with p := frame.p - 1 }.run settings data rest
  | .mark kind rest => (frame.mark kind).run settings data rest
  | .resetCount rest => { frame with nread := 0 }.run settings data rest
  | .assertCount rest => if frame.nread = 1 then frame.run settings data rest else .abort
  | .count bytes fields rest =>
      let frame := frame.counted bytes
      if frame.nread > httpMaxHeaderSize then frame.fail .headerOverflow fields 0
      else frame.run settings data rest
  | .data kind fields extra advance rest =>
      match frame.marks kind with
      | none => frame.run settings data rest
      | some from' =>
          if frame.p < from' ∨ data.length < frame.p + extra then .abort
          else
            let called := frame.callbackData settings data kind fields extra from'
            let frame := { frame with user := called.1 }
            match called.2.errno (.cbData kind) with
            | some errno => frame.fail errno fields advance
            | none =>
                { frame with marks := Function.update frame.marks kind none }.run settings data rest
  | .notify notice fields advance rest =>
      let called := settings notice.event frame.user
      let frame := { frame with user := called.1 }
      match called.2.errno (.cbNotice notice) with
      | some errno => frame.fail errno fields advance
      | none => frame.run settings data rest
  | .headersComplete fields rest skip =>
      let called := settings .headersComplete frame.user
      let frame := { frame with user := called.1 }
      match called.2 with
      | .ok => frame.run settings data rest
      | .skip => frame.run settings data skip
      | .fail => frame.fail .cbHeadersComplete fields 0
      | .pause => frame.fail .paused fields 0

/-- The case of the switch for the byte at `p`. -/
def dispatch (settings : Settings σ) (data : Bytes) (frame : Frame σ) (ch : UInt8) (rest : Bytes) :
    Outcome σ :=
  let marked := if frame.fields.marksBody then frame.mark .body else frame
  let step := frame.fields.switch ch rest
  { marked with p := frame.p + step.1 }.run settings data step.2

/-- One turn of the loop. -/
def turn (settings : Settings σ) (data : Bytes) (frame : Frame σ) (ch : UInt8) (rest : Bytes) :
    Outcome σ :=
  if frame.fields.state.parsingHeader then
    let frame := frame.counted 1
    if frame.nread > httpMaxHeaderSize then frame.fail .headerOverflow frame.fields 0
    else frame.dispatch settings data ch rest
  else frame.dispatch settings data ch rest

/-- The loop, which makes at most `turns` turns. -/
def loop (settings : Settings σ) (data : Bytes) : ℕ → Frame σ → Outcome σ
  | 0, frame => .next frame
  | turns + 1, frame =>
      match data.drop frame.p with
      | [] => .next frame
      | ch :: rest =>
          match frame.turn settings data ch rest with
          | .next frame => loop settings data turns { frame with p := frame.p + 1 }
          | outcome => outcome

/-- The marks, in the order in which the end of the buffer looks at them. -/
def kinds : List DataKind := [.headerField, .headerValue, .url, .body, .status]

/-- The number of marks that are set. -/
def openMarks (frame : Frame σ) : ℕ :=
  (kinds.filter fun kind => (frame.marks kind).isSome).length

/-- `CALLBACK_DATA_NOADVANCE` for each of `kinds`. -/
def flush (fields : HttpFields) (kinds : List DataKind) : Reaction :=
  kinds.foldr (fun kind rest => .data kind fields 0 0 rest) (.next fields)

/-- What follows the loop. -/
def finish (settings : Settings σ) (data : Bytes) (frame : Frame σ) : Outcome σ :=
  if frame.openMarks > 1 then .abort
  else
    match frame.run settings data (flush frame.fields kinds) with
    | .next frame => .ret frame.fields frame.nread frame.user data.length
    | outcome => outcome

end Frame

/-- The mark that a state starts a buffer with. -/
def ParserState.firstMark : ParserState → Option DataKind
  | .headerField => some .headerField
  | .headerValue => some .headerValue
  | .url .dead | .url .spacesBeforeUrl => none
  | .url _ => some .url
  | .resStatus => some .status
  | _ => none

namespace Parser

variable {σ : Type*}

/-- The locals at the start of a buffer. -/
def frame (parser : Parser) (user : σ) : Frame σ where
  fields := parser.toHttpFields
  nread := parser.nread
  user := user
  p := 0
  marks kind := if parser.state.firstMark = some kind then some 0 else none

/-- `http_parser_execute` without bytes, the end of the stream. -/
def executeEof (settings : Settings σ) (parser : Parser) (user : σ) : Parser × σ × ℕ :=
  match parser.state with
  | .bodyIdentityEof =>
      let called := settings .messageComplete user
      match called.2.errno (.cbNotice .messageComplete) with
      | some errno => ({ parser with httpErrno := errno }, called.1, 0)
      | none => (parser, called.1, 0)
  | .dead | .url .dead | .startReqOrRes | .startRes | .startReq => (parser, user, 0)
  | _ => ({ parser with httpErrno := .invalidEofState }, user, 1)

/-- `http_parser_pause`; it may not be called in an error state. -/
def httpParserPause (parser : Parser) (paused : Bool) : Option Parser :=
  if parser.httpErrno = .ok ∨ parser.httpErrno = .paused then
    some { parser with httpErrno := if paused then .paused else .ok }
  else none

/-- `http_parser_execute`: the parser, the state of the user and the number of bytes parsed;
`none` is a failed assertion. -/
def httpParserExecute (settings : Settings σ) (parser : Parser) (user : σ) (data : Bytes) :
    Option (Parser × σ × ℕ) :=
  if parser.httpErrno ≠ .ok then some (parser, user, 0)
  else if data = [] then some (parser.executeEof settings user)
  else
    match (parser.frame user).loop settings data data.length with
    | .abort => none
    | .ret fields nread user parsed => some (⟨fields, nread⟩, user, parsed)
    | .next frame =>
        match frame.finish settings data with
        | .ret fields nread user parsed => some (⟨fields, nread⟩, user, parsed)
        | _ => none

end Parser

end Brynet.Http
