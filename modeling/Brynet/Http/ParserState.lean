import Brynet.Http.HttpParser

/-!
# `struct http_parser`

The types and tables of the bundled `http_parser.c`, built as it is here: in strict
mode and with the default limit on the size of a header.

The bit fields are natural numbers, and every assignment that could leave the width of
its field takes the remainder.  `nread` counts the bytes of a header and nothing else
depends on it, so it is kept apart from the other members, the `HttpFields`.
-/

namespace Brynet.Http

/-- `ULLONG_MAX`, which stands for a length that was not given. -/
def ullongMax : ℕ := 2 ^ 64 - 1

/-- `HTTP_MAX_HEADER_SIZE`. -/
def httpMaxHeaderSize : ℕ := 80 * 1024

/-! ## Tables -/

/-- The table `tokens`; the entries that the source leaves out are 0. -/
def tokens : List UInt8 :=
  [0, 0, 0, 0, 0, 0, 0, 0, 0, 0, 0, 0, 0, 0, 0, 0,
    0, 0, 0, 0, 0, 0, 0, 0, 0, 0, 0, 0, 0, 0, 0, 0,
    0, 33, 0, 35, 36, 37, 38, 39, 0, 0, 42, 43, 0, 45, 46, 0,
    48, 49, 50, 51, 52, 53, 54, 55, 56, 57, 0, 0, 0, 0, 0, 0,
    0, 97, 98, 99, 100, 101, 102, 103, 104, 105, 106, 107, 108, 109, 110, 111,
    112, 113, 114, 115, 116, 117, 118, 119, 120, 121, 122, 0, 0, 0, 94, 95,
    96, 97, 98, 99, 100, 101, 102, 103, 104, 105, 106, 107, 108, 109, 110, 111,
    112, 113, 114, 115, 116, 117, 118, 119, 120, 121, 122, 0, 124, 0, 126, 0]

/-- `TOKEN`, the same as `STRICT_TOKEN` in strict mode. -/
def token (c : UInt8) : UInt8 := tokens.getD c.toNat 0

/-- The table `unhex`.  The source writes half of its 256 entries, so the others are 0:
a byte from 128 on counts as the digit 0. -/
def unhexTable : List ℤ :=
  [-1, -1, -1, -1, -1, -1, -1, -1, -1, -1, -1, -1, -1, -1, -1, -1,
    -1, -1, -1, -1, -1, -1, -1, -1, -1, -1, -1, -1, -1, -1, -1, -1,
    -1, -1, -1, -1, -1, -1, -1, -1, -1, -1, -1, -1, -1, -1, -1, -1,
    0, 1, 2, 3, 4, 5, 6, 7, 8, 9, -1, -1, -1, -1, -1, -1,
    -1, 10, 11, 12, 13, 14, 15, -1, -1, -1, -1, -1, -1, -1, -1, -1,
    -1, -1, -1, -1, -1, -1, -1, -1, -1, -1, -1, -1, -1, -1, -1, -1,
    -1, 10, 11, 12, 13, 14, 15, -1, -1, -1, -1, -1, -1, -1, -1, -1,
    -1, -1, -1, -1, -1, -1, -1, -1, -1, -1, -1, -1, -1, -1, -1, -1]

/-- `unhex[c]`. -/
def unhex (c : UInt8) : ℤ := unhexTable.getD c.toNat 0

/-- `enum http_method`. -/
inductive RequestMethod
  | delete
  | get
  | head
  | post
  | put
  | connect
  | options
  | trace
  | copy
  | lock
  | mkcol
  | move
  | propfind
  | proppatch
  | search
  | unlock
  | bind
  | rebind
  | unbind
  | acl
  | report
  | mkactivity
  | checkout
  | merge
  | msearch
  | notify
  | subscribe
  | unsubscribe
  | patch
  | purge
  | mkcalendar
deriving Repr, DecidableEq

/-- `method_strings`. -/
def methodStrings : RequestMethod → Bytes
  | .delete => text "DELETE"
  | .get => text "GET"
  | .head => text "HEAD"
  | .post => text "POST"
  | .put => text "PUT"
  | .connect => text "CONNECT"
  | .options => text "OPTIONS"
  | .trace => text "TRACE"
  | .copy => text "COPY"
  | .lock => text "LOCK"
  | .mkcol => text "MKCOL"
  | .move => text "MOVE"
  | .propfind => text "PROPFIND"
  | .proppatch => text "PROPPATCH"
  | .search => text "SEARCH"
  | .unlock => text "UNLOCK"
  | .bind => text "BIND"
  | .rebind => text "REBIND"
  | .unbind => text "UNBIND"
  | .acl => text "ACL"
  | .report => text "REPORT"
  | .mkactivity => text "MKACTIVITY"
  | .checkout => text "CHECKOUT"
  | .merge => text "MERGE"
  | .msearch => text "M-SEARCH"
  | .notify => text "NOTIFY"
  | .subscribe => text "SUBSCRIBE"
  | .unsubscribe => text "UNSUBSCRIBE"
  | .patch => text "PATCH"
  | .purge => text "PURGE"
  | .mkcalendar => text "MKCALENDAR"

/-! ## Enumerations -/

/-- `enum http_parser_type`. -/
inductive ParserType
  | request
  | response
  | both
deriving Repr, DecidableEq

/-- `enum state`.  The states of a URL are those of `parse_url_char`, whose `s_dead` is
`dead`. -/
inductive ParserState
  | dead
  | startReqOrRes
  | resOrRespH
  | startRes
  | resH
  | resHT
  | resHTT
  | resHTTP
  | resFirstHttpMajor
  | resHttpMajor
  | resFirstHttpMinor
  | resHttpMinor
  | resFirstStatusCode
  | resStatusCode
  | resStatusStart
  | resStatus
  | resLineAlmostDone
  | startReq
  | reqMethod
  | url (s : UrlState)
  | reqHttpStart
  | reqHttpH
  | reqHttpHT
  | reqHttpHTT
  | reqHttpHTTP
  | reqFirstHttpMajor
  | reqHttpMajor
  | reqFirstHttpMinor
  | reqHttpMinor
  | reqLineAlmostDone
  | headerFieldStart
  | headerField
  | headerValueDiscardWs
  | headerValueDiscardWsAlmostDone
  | headerValueDiscardLws
  | headerValueStart
  | headerValue
  | headerValueLws
  | headerAlmostDone
  | chunkSizeStart
  | chunkSize
  | chunkParameters
  | chunkSizeAlmostDone
  | headersAlmostDone
  | headersDone
  | chunkData
  | chunkDataAlmostDone
  | chunkDataDone
  | bodyIdentity
  | bodyIdentityEof
  | messageDone
deriving Repr, DecidableEq

/-- `PARSING_HEADER`. -/
def ParserState.parsingHeader : ParserState → Bool
  | .chunkData | .chunkDataAlmostDone | .chunkDataDone => false
  | .bodyIdentity | .bodyIdentityEof | .messageDone => false
  | _ => true

/-- `enum header_states`. -/
inductive HeaderState
  | general
  | c
  | co
  | con
  | matchingConnection
  | matchingProxyConnection
  | matchingContentLength
  | matchingTransferEncoding
  | matchingUpgrade
  | connection
  | contentLength
  | transferEncoding
  | upgrade
  | matchingTransferEncodingChunked
  | matchingConnectionTokenStart
  | matchingConnectionKeepAlive
  | matchingConnectionClose
  | matchingConnectionUpgrade
  | matchingConnectionToken
  | transferEncodingChunked
  | connectionKeepAlive
  | connectionClose
  | connectionUpgrade
deriving Repr, DecidableEq

/-- The strings that data callbacks report, each with its mark. -/
inductive DataKind
  | headerField
  | headerValue
  | url
  | body
  | status
deriving Repr, DecidableEq

/-- The callbacks that report no data, other than `on_headers_complete`. -/
inductive Notice
  | messageBegin
  | messageComplete
  | chunkHeader
  | chunkComplete
deriving Repr, DecidableEq

/-- `enum http_errno`, less the values that nothing sets. -/
inductive HttpErrno
  | ok
  | cbData (kind : DataKind)
  | cbNotice (notice : Notice)
  | cbHeadersComplete
  | invalidEofState
  | headerOverflow
  | closedConnection
  | invalidVersion
  | invalidStatus
  | invalidMethod
  | invalidUrl
  | lfExpected
  | invalidHeaderToken
  | invalidContentLength
  | invalidChunkSize
  | invalidConstant
  | strict
  | paused
deriving Repr, DecidableEq

/-- `flags`, one member for each bit. -/
structure Flags where
  chunked : Bool := false
  connectionKeepAlive : Bool := false
  connectionClose : Bool := false
  connectionUpgrade : Bool := false
  trailing : Bool := false
  upgrade : Bool := false
  skipbody : Bool := false
deriving Repr, DecidableEq

/-! ## The parser -/

/-- The members of `struct http_parser` other than `nread` and the pointer `data`. -/
structure HttpFields where
  type : ParserType
  flags : Flags
  state : ParserState
  headerState : HeaderState
  index : ℕ
  contentLength : ℕ
  httpMajor : ℕ
  httpMinor : ℕ
  statusCode : ℕ
  method : RequestMethod
  httpErrno : HttpErrno
  upgrade : Bool
deriving Repr, DecidableEq

/-- `struct http_parser`. -/
structure Parser extends HttpFields where
  nread : ℕ
deriving Repr, DecidableEq

/-- `http_parser_init`. -/
def httpParserInit (type : ParserType) : Parser where
  type := type
  flags := {}
  state := match type with
    | .request => .startReq
    | .response => .startRes
    | .both => .startReqOrRes
  headerState := .general
  index := 0
  contentLength := 0
  httpMajor := 0
  httpMinor := 0
  statusCode := 0
  method := .delete
  httpErrno := .ok
  upgrade := false
  nread := 0

namespace HttpFields

/-- `start_state`. -/
def startState (parser : HttpFields) : ParserState :=
  if parser.type = .request then .startReq else .startRes

/-- `http_message_needs_eof`. -/
def httpMessageNeedsEof (parser : HttpFields) : Bool :=
  if parser.type = .request then false
  else if parser.statusCode / 100 = 1 ∨ parser.statusCode = 204 ∨ parser.statusCode = 304 ∨
      parser.flags.skipbody then false
  else if parser.flags.chunked ∨ parser.contentLength ≠ ullongMax then false
  else true

/-- `http_should_keep_alive`. -/
def httpShouldKeepAlive (parser : HttpFields) : Bool :=
  if parser.httpMajor > 0 ∧ parser.httpMinor > 0 then
    if parser.flags.connectionClose then false else !parser.httpMessageNeedsEof
  else
    if !parser.flags.connectionKeepAlive then false else !parser.httpMessageNeedsEof

/-- `NEW_MESSAGE`. -/
def newMessage (parser : HttpFields) : ParserState :=
  if parser.httpShouldKeepAlive then parser.startState else .dead

/-- `++parser->index`, a field of 8 bits. -/
def nextIndex (parser : HttpFields) : ℕ := (parser.index + 1) % 256

end HttpFields

end Brynet.Http
