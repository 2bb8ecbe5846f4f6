import Brynet.Http.ParserState

/-!
# The switch of `http_parser_execute`

The body of the loop is a `switch` over the state of the parser.  Each of its cases is a
function here, from the parser and the byte to a `Reaction`: what the case does to the
parser, and which of the macros `MARK`, `CALLBACK_DATA`, `CALLBACK_NOTIFY` and
`COUNT_HEADER_SIZE` it goes through on the way.  `REEXECUTE` is always reached with a known
state, so it is a call of the function of that state.

Five cases read more than one byte: the two loops over a header field and a header value,
and the three that take as much of a body as there is.  They are in `ParserExecute`.
-/

namespace Brynet.Http

/-- What one case of the switch does.

`next` is `break`, `error` is `goto error` after `SET_ERRNO`, `leave` is
`RETURN((p - data) + 1)`, `abort` is a failed assertion and `back` is `--p`.  In `data` the
callback gets the bytes from the mark up to `p`, and `extra` more; if it does not return 0
the function returns `p - data + advance`, as it does in `notify`.  The parser in
`count`, `data` and `notify` is what the function leaves if it returns there. -/
inductive Reaction
  | next (parser : HttpFields)
  | error (errno : HttpErrno) (parser : HttpFields)
  | leave (parser : HttpFields)
  | abort
  | back (rest : Reaction)
  | mark (kind : DataKind) (rest : Reaction)
  | resetCount (rest : Reaction)
  | assertCount (rest : Reaction)
  | count (bytes : ℕ) (parser : HttpFields) (rest : Reaction)
  | data (kind : DataKind) (parser : HttpFields) (extra advance : ℕ) (rest : Reaction)
  | notify (notice : Notice) (parser : HttpFields) (advance : ℕ) (rest : Reaction)
  | headersComplete (parser : HttpFields) (rest skip : Reaction)
deriving Repr, DecidableEq

namespace HttpFields

/-- `UPDATE_STATE`. -/
def goto (parser : HttpFields) (state : ParserState) : HttpFields := { parser with state := state }

/-- `STRICT_CHECK(ch != expected)`, and the next state. -/
def expect (parser : HttpFields) (ch : UInt8) (expected : Char) (state : ParserState) : Reaction :=
  if ch ≠ expected.toUInt8 then .error .strict parser else .next (parser.goto state)

/-- `CALLBACK_DATA(kind); break;`. -/
def report (parser : HttpFields) (kind : DataKind) : Reaction :=
  .data kind parser 0 1 (.next parser)

/-- The digit that `ch` is. -/
def digit (ch : UInt8) : ℕ := ch.toNat - '0'.toNat

/-- `value *= 10; value += ch - '0'` in a field of 16 bits. -/
def pushDigit (value : ℕ) (ch : UInt8) : ℕ := (value * 10 + digit ch) % 65536

/-! ## The end of a message -/

/-- `s_message_done`. -/
def messageDone (parser : HttpFields) : Reaction :=
  let parser := parser.goto parser.newMessage
  .notify .messageComplete parser 1 (if parser.upgrade then .leave parser else .next parser)

/-- A message without a body in `s_headers_done`. -/
def completeMessage (parser : HttpFields) : Reaction :=
  let parser := parser.goto parser.newMessage
  .notify .messageComplete parser 1 (.next parser)

/-- `hasBody` of `s_headers_done`. -/
def hasBody (parser : HttpFields) : Bool :=
  parser.flags.chunked || (parser.contentLength > 0 && parser.contentLength != ullongMax)

/-- `s_headers_done`. -/
def headersDone (parser : HttpFields) (ch : UInt8) : Reaction :=
  if ch ≠ '\n'.toUInt8 then .error .strict parser
  else .resetCount <|
    if parser.upgrade && (parser.method == .connect || parser.flags.skipbody || !parser.hasBody) then
      let parser := parser.goto parser.newMessage
      .notify .messageComplete parser 1 (.leave parser)
    else if parser.flags.skipbody then parser.completeMessage
    else if parser.flags.chunked then .next (parser.goto .chunkSizeStart)
    else if parser.contentLength = 0 then parser.completeMessage
    else if parser.contentLength ≠ ullongMax then .next (parser.goto .bodyIdentity)
    else if !parser.httpMessageNeedsEof then parser.completeMessage
    else .next (parser.goto .bodyIdentityEof)

/-- `s_headers_almost_done`. -/
def headersAlmostDone (parser : HttpFields) (ch : UInt8) : Reaction :=
  if ch ≠ '\n'.toUInt8 then .error .strict parser
  else if parser.flags.trailing then
    -- the end of a chunked message
    .notify .chunkComplete (parser.goto .messageDone) 0 (parser.goto .messageDone).messageDone
  else
    let parser := { parser.goto .headersDone with
      upgrade := parser.flags.upgrade && parser.flags.connectionUpgrade || parser.method == .connect }
    .headersComplete parser (parser.headersDone ch)
      ({ parser with flags := { parser.flags with skipbody := true } }.headersDone ch)

/-! ## Header lines -/

/-- The state of a header line by the first character of its name. -/
def firstHeaderState (c : UInt8) : HeaderState :=
  if c = 'c'.toUInt8 then .c
  else if c = 'p'.toUInt8 then .matchingProxyConnection
  else if c = 't'.toUInt8 then .matchingTransferEncoding
  else if c = 'u'.toUInt8 then .matchingUpgrade
  else .general

/-- `s_header_field_start`. -/
def headerFieldStart (parser : HttpFields) (ch : UInt8) : Reaction :=
  if ch = '\r'.toUInt8 then .next (parser.goto .headersAlmostDone)
  else if ch = '\n'.toUInt8 then (parser.goto .headersAlmostDone).headersAlmostDone ch
  else if token ch = 0 then .error .invalidHeaderToken parser
  else .mark .headerField <| .next { parser with
    index := 0, state := .headerField, headerState := firstHeaderState (token ch) }

/-- The flag that the end of a header line sets. -/
def finishHeader (parser : HttpFields) : HttpFields :=
  match parser.headerState with
  | .connectionKeepAlive => { parser with flags := { parser.flags with connectionKeepAlive := true } }
  | .connectionClose => { parser with flags := { parser.flags with connectionClose := true } }
  | .transferEncodingChunked => { parser with flags := { parser.flags with chunked := true } }
  | .connectionUpgrade => { parser with flags := { parser.flags with connectionUpgrade := true } }
  | _ => parser

/-- `s_header_value_start`. -/
def headerValueStart (parser : HttpFields) (ch : UInt8) : Reaction :=
  let parser := { parser with state := .headerValue, index := 0 }
  let c := lower ch
  .mark .headerValue <|
    match parser.headerState with
    | .upgrade =>
        .next { parser with flags := { parser.flags with upgrade := true }, headerState := .general }
    | .transferEncoding =>
        .next { parser with headerState :=
          if c = 'c'.toUInt8 then .matchingTransferEncodingChunked else .general }
    | .contentLength =>
        if !isNum ch then .error .invalidContentLength parser
        else .next { parser with contentLength := digit ch }
    | .connection =>
        .next { parser with headerState :=
          if c = 'k'.toUInt8 then .matchingConnectionKeepAlive
          else if c = 'c'.toUInt8 then .matchingConnectionClose
          else if c = 'u'.toUInt8 then .matchingConnectionUpgrade
          else .matchingConnectionToken }
    | .matchingConnectionTokenStart => .next parser
    | _ => .next { parser with headerState := .general }

/-- `s_header_value_discard_ws`. -/
def headerValueDiscardWs (parser : HttpFields) (ch : UInt8) : Reaction :=
  if isOneOf [' ', '\t'] ch then .next parser
  else if ch = '\r'.toUInt8 then .next (parser.goto .headerValueDiscardWsAlmostDone)
  else if ch = '\n'.toUInt8 then .next (parser.goto .headerValueDiscardLws)
  else parser.headerValueStart ch

/-- `s_header_value_lws`. -/
def headerValueLws (parser : HttpFields) (ch : UInt8) : Reaction :=
  if isOneOf [' ', '\t'] ch then (parser.goto .headerValueStart).headerValueStart ch
  else (parser.finishHeader.goto .headerFieldStart).headerFieldStart ch

/-- `s_header_value_discard_lws`. -/
def headerValueDiscardLws (parser : HttpFields) (ch : UInt8) : Reaction :=
  if isOneOf [' ', '\t'] ch then .next (parser.goto .headerValueDiscardWs)
  else
    -- the value of the header was empty
    let parser := parser.finishHeader.goto .headerFieldStart
    .mark .headerValue <| .data .headerValue parser 0 0 <| parser.headerFieldStart ch

/-! ## The first line -/

/-- `s_start_res`.  `on_message_begin` is called for a line end before the message, too. -/
def startRes (parser : HttpFields) (ch : UInt8) : Reaction :=
  let parser := { parser with flags := {}, contentLength := ullongMax }
  if ch = 'H'.toUInt8 then
    .notify .messageBegin (parser.goto .resH) 1 (.next (parser.goto .resH))
  else if isOneOf ['\r', '\n'] ch then .notify .messageBegin parser 1 (.next parser)
  else .error .invalidConstant parser

/-- The method that the first character of a request line stands for. -/
def firstMethod (ch : UInt8) : Option RequestMethod :=
  if ch = 'A'.toUInt8 then some .acl
  else if ch = 'B'.toUInt8 then some .bind
  else if ch = 'C'.toUInt8 then some .connect
  else if ch = 'D'.toUInt8 then some .delete
  else if ch = 'G'.toUInt8 then some .get
  else if ch = 'H'.toUInt8 then some .head
  else if ch = 'L'.toUInt8 then some .lock
  else if ch = 'M'.toUInt8 then some .mkcol
  else if ch = 'N'.toUInt8 then some .notify
  else if ch = 'O'.toUInt8 then some .options
  else if ch = 'P'.toUInt8 then some .post
  else if ch = 'R'.toUInt8 then some .report
  else if ch = 'S'.toUInt8 then some .subscribe
  else if ch = 'T'.toUInt8 then some .trace
  else if ch = 'U'.toUInt8 then some .unlock
  else none

/-- `s_start_req`. -/
def startReq (parser : HttpFields) (ch : UInt8) : Reaction :=
  if isOneOf ['\r', '\n'] ch then .next parser
  else
    let parser := { parser with flags := {}, contentLength := ullongMax }
    if !isAlpha ch then .error .invalidMethod parser
    else
      let parser := { parser with method := .delete, index := 1 }
      match firstMethod ch with
      | none => .error .invalidMethod parser
      | some method =>
          let parser := { parser with method := method, state := .reqMethod }
          .notify .messageBegin parser 1 (.next parser)

/-- `s_start_req_or_res`. -/
def startReqOrRes (parser : HttpFields) (ch : UInt8) : Reaction :=
  if isOneOf ['\r', '\n'] ch then .next parser
  else
    let parser := { parser with flags := {}, contentLength := ullongMax }
    if ch = 'H'.toUInt8 then
      .notify .messageBegin (parser.goto .resOrRespH) 1 (.next (parser.goto .resOrRespH))
    else { parser with type := .request, state := .startReq }.startReq ch

/-- `s_res_or_resp_H`. -/
def resOrRespH (parser : HttpFields) (ch : UInt8) : Reaction :=
  if ch = 'T'.toUInt8 then .next { parser with type := .response, state := .resHT }
  else if ch ≠ 'E'.toUInt8 then .error .invalidConstant parser
  else .next { parser with type := .request, method := .head, index := 2, state := .reqMethod }

/-- The method that a byte out of line with `method_strings` turns the method into. -/
def otherMethod (method : RequestMethod) (index : ℕ) (ch : UInt8) : Option RequestMethod :=
  let is (i : ℕ) (c : Char) : Bool := index == i && ch == c.toUInt8
  if method = .connect then
    if is 1 'H' then some .checkout else if is 2 'P' then some .copy else none
  else if method = .mkcol then
    if is 1 'O' then some .move
    else if is 1 'E' then some .merge
    else if is 1 '-' then some .msearch
    else if is 2 'A' then some .mkactivity
    else if is 3 'A' then some .mkcalendar
    else none
  else if method = .subscribe then if is 1 'E' then some .search else none
  else if method = .report then if is 2 'B' then some .rebind else none
  else if index = 1 ∧ method = .post then
    if ch = 'R'.toUInt8 then some .propfind
    else if ch = 'U'.toUInt8 then some .put
    else if ch = 'A'.toUInt8 then some .patch
    else none
  else if index = 2 then
    if method = .put then if ch = 'R'.toUInt8 then some .purge else none
    else if method = .unlock then
      if ch = 'S'.toUInt8 then some .unsubscribe
      else if ch = 'B'.toUInt8 then some .unbind
      else none
    else none
  else if index = 4 ∧ method = .propfind ∧ ch = 'P'.toUInt8 then some .proppatch
  else none

/-- `s_req_method`.  The character of `method_strings` at `index` is the 0 at its end, or
behind it, if `index` is not within the string. -/
def reqMethod (parser : HttpFields) (ch : UInt8) : Reaction :=
  let matcher := methodStrings parser.method
  if ch = 0 then .error .invalidMethod parser
  else if matcher.length < parser.index then .abort
  else if ch = ' '.toUInt8 ∧ parser.index = matcher.length then
    .next { parser with state := .url .spacesBeforeUrl, index := parser.nextIndex }
  else if ch = matcher.getD parser.index 0 then .next { parser with index := parser.nextIndex }
  else
    match otherMethod parser.method parser.index ch with
    | none => .error .invalidMethod parser
    | some method => .next { parser with method := method, index := parser.nextIndex }

/-- The state of the parser for one of `parse_url_char`. -/
def urlState : UrlState → ParserState
  | .dead => .dead
  | s => .url s

/-- `UPDATE_STATE(parse_url_char(s, ch))` and the check for `s_dead`. -/
def urlChar (parser : HttpFields) (s : UrlState) (ch : UInt8) : Reaction :=
  let parser := parser.goto (urlState (parseUrlChar s ch))
  if parser.state = .dead then .error .invalidUrl parser else .next parser

/-- `s_dead`. -/
def deadState (parser : HttpFields) (ch : UInt8) : Reaction :=
  if isOneOf ['\r', '\n'] ch then .next parser else .error .closedConnection parser

/-- The states of a URL before its server: no whitespace is allowed. -/
def earlyUrl (parser : HttpFields) (s : UrlState) (ch : UInt8) : Reaction :=
  if isOneOf [' ', '\r', '\n'] ch then .error .invalidUrl parser else parser.urlChar s ch

/-- The states in which a URL may end. -/
def lateUrl (parser : HttpFields) (s : UrlState) (ch : UInt8) : Reaction :=
  if ch = ' '.toUInt8 then (parser.goto .reqHttpStart).report .url
  else if ch = '\r'.toUInt8 then
    { parser with httpMajor := 0, httpMinor := 9, state := .reqLineAlmostDone }.report .url
  else if ch = '\n'.toUInt8 then
    { parser with httpMajor := 0, httpMinor := 9, state := .headerFieldStart }.report .url
  else parser.urlChar s ch

/-- `s_req_spaces_before_url`. -/
def spacesBeforeUrl (parser : HttpFields) (ch : UInt8) : Reaction :=
  if ch = ' '.toUInt8 then .next parser
  else .mark .url <|
    parser.urlChar (if parser.method = .connect then .serverStart else .spacesBeforeUrl) ch

/-- The states of a URL. -/
def reqUrl (parser : HttpFields) (s : UrlState) (ch : UInt8) : Reaction :=
  match s with
  | .dead => parser.deadState ch
  | .spacesBeforeUrl => parser.spacesBeforeUrl ch
  | .schema | .schemaSlash | .schemaSlashSlash | .serverStart => parser.earlyUrl s ch
  | .server | .serverWithAt | .path | .queryStringStart | .queryString | .fragmentStart
  | .fragment => parser.lateUrl s ch

/-- `s_req_http_start`. -/
def reqHttpStart (parser : HttpFields) (ch : UInt8) : Reaction :=
  if ch = 'H'.toUInt8 then .next (parser.goto .reqHttpH)
  else if ch = ' '.toUInt8 then .next parser
  else .error .invalidConstant parser

/-- The first digit of the major version, which is at least `least`. -/
def firstHttpMajor (parser : HttpFields) (ch : UInt8) (least : Char) (state : ParserState) :
    Reaction :=
  if ch < least.toUInt8 ∨ '9'.toUInt8 < ch then .error .invalidVersion parser
  else .next { parser with httpMajor := digit ch, state := state }

/-- The major version or the dot. -/
def httpMajorState (parser : HttpFields) (ch : UInt8) (state : ParserState) : Reaction :=
  if ch = '.'.toUInt8 then .next (parser.goto state)
  else if !isNum ch then .error .invalidVersion parser
  else
    let parser := { parser with httpMajor := pushDigit parser.httpMajor ch }
    if parser.httpMajor > 999 then .error .invalidVersion parser else .next parser

/-- The first digit of the minor version. -/
def firstHttpMinor (parser : HttpFields) (ch : UInt8) (state : ParserState) : Reaction :=
  if !isNum ch then .error .invalidVersion parser
  else .next { parser with httpMinor := digit ch, state := state }

/-- A further digit of the minor version. -/
def httpMinorDigit (parser : HttpFields) (ch : UInt8) : Reaction :=
  if !isNum ch then .error .invalidVersion parser
  else
    let parser := { parser with httpMinor := pushDigit parser.httpMinor ch }
    if parser.httpMinor > 999 then .error .invalidVersion parser else .next parser

/-- `s_req_http_minor`. -/
def reqHttpMinor (parser : HttpFields) (ch : UInt8) : Reaction :=
  if ch = '\r'.toUInt8 then .next (parser.goto .reqLineAlmostDone)
  else if ch = '\n'.toUInt8 then .next (parser.goto .headerFieldStart)
  else parser.httpMinorDigit ch

/-- `s_req_line_almost_done`. -/
def reqLineAlmostDone (parser : HttpFields) (ch : UInt8) : Reaction :=
  if ch ≠ '\n'.toUInt8 then .error .lfExpected parser else .next (parser.goto .headerFieldStart)

/-- `s_res_http_minor`. -/
def resHttpMinor (parser : HttpFields) (ch : UInt8) : Reaction :=
  if ch = ' '.toUInt8 then .next (parser.goto .resFirstStatusCode) else parser.httpMinorDigit ch

/-- `s_res_first_status_code`. -/
def resFirstStatusCode (parser : HttpFields) (ch : UInt8) : Reaction :=
  if !isNum ch then
    if ch = ' '.toUInt8 then .next parser else .error .invalidStatus parser
  else .next { parser with statusCode := digit ch, state := .resStatusCode }

/-- `s_res_status_code`. -/
def resStatusCode (parser : HttpFields) (ch : UInt8) : Reaction :=
  if !isNum ch then
    if ch = ' '.toUInt8 then .next (parser.goto .resStatusStart)
    else if ch = '\r'.toUInt8 then .next (parser.goto .resLineAlmostDone)
    else if ch = '\n'.toUInt8 then .next (parser.goto .headerFieldStart)
    else .error .invalidStatus parser
  else
    let parser := { parser with statusCode := pushDigit parser.statusCode ch }
    if parser.statusCode > 999 then .error .invalidStatus parser else .next parser

/-- `s_res_status_start`. -/
def resStatusStart (parser : HttpFields) (ch : UInt8) : Reaction :=
  if ch = '\r'.toUInt8 then .next (parser.goto .resLineAlmostDone)
  else if ch = '\n'.toUInt8 then .next (parser.goto .headerFieldStart)
  else .mark .status (.next { parser with state := .resStatus, index := 0 })

/-- `s_res_status`. -/
def resStatus (parser : HttpFields) (ch : UInt8) : Reaction :=
  if ch = '\r'.toUInt8 then (parser.goto .resLineAlmostDone).report .status
  else if ch = '\n'.toUInt8 then (parser.goto .headerFieldStart).report .status
  else .next parser

/-! ## Chunks -/

/-- `s_chunk_size_start`. -/
def chunkSizeStart (parser : HttpFields) (ch : UInt8) : Reaction :=
  .assertCount <|
    if !parser.flags.chunked then .abort
    else if unhex ch = -1 then .error .invalidChunkSize parser
    else .next { parser with contentLength := (unhex ch).toNat, state := .chunkSize }

/-- `s_chunk_size`. -/
def chunkSize (parser : HttpFields) (ch : UInt8) : Reaction :=
  if !parser.flags.chunked then .abort
  else if ch = '\r'.toUInt8 then .next (parser.goto .chunkSizeAlmostDone)
  else if unhex ch = -1 then
    if isOneOf [';', ' '] ch then .next (parser.goto .chunkParameters)
    else .error .invalidChunkSize parser
  else if (ullongMax - 16) / 16 < parser.contentLength then .error .invalidContentLength parser
  else .next { parser with
    contentLength := (parser.contentLength * 16 + (unhex ch).toNat) % 2 ^ 64 }

/-- `s_chunk_parameters`. -/
def chunkParameters (parser : HttpFields) (ch : UInt8) : Reaction :=
  if !parser.flags.chunked then .abort
  else if ch = '\r'.toUInt8 then .next (parser.goto .chunkSizeAlmostDone)
  else .next parser

/-- `s_chunk_size_almost_done`. -/
def chunkSizeAlmostDone (parser : HttpFields) (ch : UInt8) : Reaction :=
  if !parser.flags.chunked then .abort
  else if ch ≠ '\n'.toUInt8 then .error .strict parser
  else .resetCount <|
    let parser :=
      if parser.contentLength = 0 then
        { parser with flags := { parser.flags with trailing := true }, state := .headerFieldStart }
      else parser.goto .chunkData
    .notify .chunkHeader parser 1 (.next parser)

/-- `s_chunk_data_almost_done`. -/
def chunkDataAlmostDone (parser : HttpFields) (ch : UInt8) : Reaction :=
  if !parser.flags.chunked || parser.contentLength != 0 then .abort
  else if ch ≠ '\r'.toUInt8 then .error .strict parser
  else (parser.goto .chunkDataDone).report .body

/-- `s_chunk_data_done`. -/
def chunkDataDone (parser : HttpFields) (ch : UInt8) : Reaction :=
  if !parser.flags.chunked then .abort
  else if ch ≠ '\n'.toUInt8 then .error .strict parser
  else .resetCount <|
    .notify .chunkComplete (parser.goto .chunkSizeStart) 1 (.next (parser.goto .chunkSizeStart))

end HttpFields

end Brynet.Http
