import Brynet.Http.ParserExecute

/-!
# Sound reactions

What the assertions of `http_parser_execute` need of the parser in each of its states, and
that every case of the switch provides it for the states it leads to.  The same case
distinction shows that the marks are kept in order: at most one is set at a time, and it is
the one that the state stands for.
-/

namespace Brynet.Http

/-- The mark that may be set at the start of a turn in this state: for a body there need
not be one. -/
def ParserState.openKind : ParserState → Option DataKind
  | .bodyIdentity | .bodyIdentityEof | .chunkData | .chunkDataAlmostDone => some .body
  | s => s.firstMark

/-- What a turn in the state knows of `nread`. -/
def ParserState.knownCount (s : ParserState) : Option ℕ :=
  if s = .chunkSizeStart then some 1 else none

/-- The errors that `goto error` reports, other than those of callbacks and of the limit. -/
@[simp] def HttpErrno.isSyntax : HttpErrno → Bool
  | .closedConnection | .invalidVersion | .invalidStatus | .invalidMethod | .invalidUrl => true
  | .lfExpected | .invalidHeaderToken | .invalidContentLength | .invalidChunkSize => true
  | .invalidConstant | .strict => true
  | _ => false

/-- The header states that the loop of `s_header_field` knows. -/
def HeaderState.isName : HeaderState → Bool
  | .general | .c | .co | .con => true
  | .matchingConnection | .matchingProxyConnection | .matchingContentLength => true
  | .matchingTransferEncoding | .matchingUpgrade => true
  | .connection | .contentLength | .transferEncoding | .upgrade => true
  | _ => false

namespace HttpFields

/-- What the assertions need of the members in a state. -/
def Fits (parser : HttpFields) : Prop :=
  match parser.state with
  | .url .dead => False
  | .reqMethod => parser.index ≤ (methodStrings parser.method).length
  | .headerField => parser.headerState.isName
  | .headerValue => parser.headerState ≠ .connection ∧ parser.headerState ≠ .transferEncoding
  | .chunkSizeStart | .chunkDataDone => parser.flags.chunked
  | .chunkSize | .chunkParameters | .chunkSizeAlmostDone =>
      parser.flags.chunked ∧ parser.contentLength < ullongMax
  | .chunkData =>
      parser.flags.chunked ∧ 0 < parser.contentLength ∧ parser.contentLength < ullongMax
  | .chunkDataAlmostDone => parser.flags.chunked ∧ parser.contentLength = 0
  | .bodyIdentity => 0 < parser.contentLength ∧ parser.contentLength < ullongMax
  | _ => True

/-- What holds in every state. -/
structure Base (parser : HttpFields) : Prop where
  errno : parser.httpErrno = .ok
  length : parser.contentLength ≤ ullongMax

structure Ok (parser : HttpFields) : Prop extends parser.Base where
  fits : parser.Fits

end HttpFields

/-- The states of which nothing is asserted and that keep no mark. -/
def ParserState.isPlain : ParserState → Bool
  | .reqMethod | .headerField | .headerValue | .resStatus => false
  | .chunkSizeStart | .chunkSize | .chunkParameters | .chunkSizeAlmostDone => false
  | .chunkData | .chunkDataAlmostDone | .chunkDataDone => false
  | .bodyIdentity | .bodyIdentityEof => false
  | .url .spacesBeforeUrl => true
  | .url _ => false
  | _ => true

/-- A parser that the function may leave, with `count` what is known of `nread`. -/
structure Reaction.Saved (count : Option ℕ) (parser : HttpFields) : Prop where
  ok : parser.Ok
  closed : parser.state.firstMark = none
  count : parser.state = .chunkSizeStart → count = some 0

/-- Wherever the reaction ends, this is the member `upgrade`. -/
def Reaction.Upgrades (upgrade : Bool) : Reaction → Prop
  | .next parser | .error _ parser | .leave parser => parser.upgrade = upgrade
  | .abort => True
  | .back rest | .mark _ rest | .resetCount rest | .assertCount rest => rest.Upgrades upgrade
  | .count _ parser rest | .data _ parser _ _ rest | .notify _ parser _ rest =>
      parser.upgrade = upgrade ∧ rest.Upgrades upgrade
  | .headersComplete parser rest skip =>
      parser.upgrade = upgrade ∧ rest.Upgrades upgrade ∧ skip.Upgrades upgrade

/-- The reaction keeps the marks in order and fails no assertion.  `kind` is the mark that
may be set, `count` what is known of `nread`. -/
def Reaction.Sound (kind : Option DataKind) (count : Option ℕ) : Reaction → Prop
  | .next parser => parser.Ok ∧ (parser.state = .chunkSizeStart → count = some 0) ∧
      (parser.state.openKind = kind ∨ kind = none ∧ parser.state.openKind = some .body)
  | .error errno _ => errno.isSyntax
  | .leave parser => kind = none ∧ Saved count parser
  | .abort => False
  | .back _ => False
  | .mark new rest => (kind = none ∨ kind = some new) ∧ rest.Sound (some new) count
  | .resetCount rest => rest.Sound kind (some 0)
  | .assertCount rest => count = some 1 ∧ rest.Sound kind count
  | .count _ _ rest => rest.Sound kind none
  | .data old parser extra advance rest => kind = some old ∧ (extra ≤ 1 ∧ advance ≤ 1) ∧
      Saved count parser ∧ rest.Sound none count
  | .notify _ parser advance rest => kind = none ∧ advance ≤ 1 ∧
      Saved count parser ∧ rest.Sound none count
  | .headersComplete parser rest skip =>
      kind = none ∧ Saved count parser ∧ (rest.Sound none count ∧ skip.Sound none count) ∧
        rest.Upgrades parser.upgrade

namespace ParserState

variable {s : ParserState}

theorem openKind_of_isPlain (h : s.isPlain) : s.openKind = none ∧ s.firstMark = none := by
  cases s with
  | url s => cases s <;> first | exact ⟨rfl, rfl⟩ | exact absurd h (by decide)
  | _ => first | exact ⟨rfl, rfl⟩ | exact absurd h (by decide)

theorem openKind_of_firstMark {kind : DataKind} (h : s.firstMark = some kind) :
    s.openKind = some kind := by
  cases s <;> first | exact h | cases h

theorem firstMark_of_openKind {kind : DataKind} (h : s.openKind = some kind) (hbody : kind ≠ .body) :
    s.firstMark = some kind := by
  unfold openKind at h
  split at h
  all_goals first | exact h | exact absurd (Option.some.inj h).symm hbody

theorem firstMark_of_body (h : s.openKind = some .body) : s.firstMark = none := by
  cases s with
  | url s => cases s <;> cases h
  | _ => first | rfl | cases h

theorem ne_chunkSizeStart_of_isPlain (h : s.isPlain) : s ≠ .chunkSizeStart := by
  rintro rfl
  exact absurd h (by decide)

end ParserState

namespace HttpFields

variable {parser : HttpFields} {count : Option ℕ}

theorem Base.ok_of_isPlain (h : parser.Base) (hs : parser.state.isPlain) : parser.Ok := by
  refine ⟨h, ?_⟩
  unfold Fits
  split <;> simp_all [ParserState.isPlain]

theorem Base.saved (h : parser.Base) (hs : parser.state.isPlain) : Reaction.Saved count parser :=
  ⟨h.ok_of_isPlain hs, (ParserState.openKind_of_isPlain hs).2,
    fun hstart => absurd hstart (ParserState.ne_chunkSizeStart_of_isPlain hs)⟩

theorem Base.next (h : parser.Base) (hs : parser.state.isPlain) :
    (Reaction.next parser).Sound none count :=
  ⟨h.ok_of_isPlain hs, fun hstart => absurd hstart (ParserState.ne_chunkSizeStart_of_isPlain hs),
    .inl (ParserState.openKind_of_isPlain hs).1⟩

theorem Base.report (h : parser.Base) (hs : parser.state.isPlain) (kind : DataKind) :
    (parser.report kind).Sound (some kind) count :=
  ⟨rfl, by decide, h.saved hs, h.next hs⟩

theorem Base.notify (h : parser.Base) (hs : parser.state.isPlain) (notice : Notice) :
    (Reaction.notify notice parser 1 (.next parser)).Sound none count :=
  ⟨rfl, le_rfl, h.saved hs, h.next hs⟩

theorem isPlain_newMessage : parser.newMessage.isPlain := by
  unfold newMessage startState
  split_ifs <;> rfl

theorem Base.goto (h : parser.Base) (state : ParserState) : (parser.goto state).Base :=
  ⟨h.errno, h.length⟩

theorem Base.completeMessage (h : parser.Base) : parser.completeMessage.Sound none count :=
  (h.goto parser.newMessage).notify isPlain_newMessage _

theorem Base.messageDone (h : parser.Base) : parser.messageDone.Sound none count := by
  have hbase := h.goto parser.newMessage
  refine ⟨rfl, le_rfl, hbase.saved isPlain_newMessage, ?_⟩
  split_ifs
  · exact ⟨rfl, hbase.saved isPlain_newMessage⟩
  · exact hbase.next isPlain_newMessage

theorem Base.headersDone (h : parser.Base) (ch : UInt8) :
    (parser.headersDone ch).Sound none count := by
  have hnew := h.goto parser.newMessage
  unfold HttpFields.headersDone
  split_ifs with _ _ _ hchunked hzero hmax
  · simp [Reaction.Sound]
  · exact ⟨rfl, le_rfl, hnew.saved isPlain_newMessage, rfl, hnew.saved isPlain_newMessage⟩
  · exact h.completeMessage
  · exact ⟨⟨⟨h.errno, h.length⟩, hchunked⟩, fun _ => rfl, .inl rfl⟩
  · exact h.completeMessage
  · have hlt : parser.contentLength < ullongMax := Nat.lt_of_le_of_ne h.length hmax
    exact ⟨⟨⟨h.errno, h.length⟩, Nat.pos_of_ne_zero hzero, hlt⟩, nofun, .inr ⟨rfl, rfl⟩⟩
  · exact h.completeMessage
  · exact ⟨⟨⟨h.errno, h.length⟩, trivial⟩, nofun, .inr ⟨rfl, rfl⟩⟩

theorem upgrades_headersDone (ch : UInt8) : (parser.headersDone ch).Upgrades parser.upgrade := by
  unfold HttpFields.headersDone
  split_ifs <;> first | rfl | exact ⟨rfl, rfl⟩

theorem Base.headersAlmostDone (h : parser.Base) (ch : UInt8) :
    (parser.headersAlmostDone ch).Sound none count := by
  unfold HttpFields.headersAlmostDone
  split_ifs
  · simp [Reaction.Sound]
  · exact ⟨rfl, by decide, (h.goto .messageDone).saved rfl, (h.goto .messageDone).messageDone⟩
  · refine ⟨rfl, Base.saved ?_ rfl, ⟨Base.headersDone ?_ ch, Base.headersDone ?_ ch⟩,
      upgrades_headersDone ch⟩ <;> exact ⟨h.errno, h.length⟩

theorem isName_firstHeaderState (c : UInt8) : (firstHeaderState c).isName := by
  unfold firstHeaderState
  split_ifs <;> rfl

theorem Base.headerFieldStart (h : parser.Base) (ch : UInt8) :
    (parser.headerFieldStart ch).Sound none count := by
  unfold HttpFields.headerFieldStart
  split_ifs
  · exact (h.goto .headersAlmostDone).next rfl
  · exact (h.goto .headersAlmostDone).headersAlmostDone ch
  · simp [Reaction.Sound]
  · exact ⟨.inl rfl, ⟨⟨h.errno, h.length⟩, isName_firstHeaderState _⟩, nofun, .inl rfl⟩

theorem Base.finishHeader (h : parser.Base) : parser.finishHeader.Base := by
  unfold HttpFields.finishHeader
  split <;> exact ⟨h.errno, h.length⟩

theorem digit_le (ch : UInt8) : digit ch ≤ ullongMax := by
  have hlt := ch.toNat_lt
  unfold digit ullongMax
  omega

theorem Base.headerValueStart (h : parser.Base) (ch : UInt8) :
    (parser.headerValueStart ch).Sound none count := by
  refine ⟨.inl rfl, ?_⟩
  dsimp only
  split
  · exact ⟨⟨⟨h.errno, h.length⟩, nofun, nofun⟩, nofun, .inl rfl⟩
  · refine ⟨⟨⟨h.errno, h.length⟩, ?_⟩, nofun, .inl rfl⟩
    constructor <;> dsimp only <;> split_ifs <;> simp
  · rename_i hstate
    split_ifs
    · simp [Reaction.Sound]
    · refine ⟨⟨⟨h.errno, digit_le ch⟩, ?_⟩, nofun, .inl rfl⟩
      constructor <;> simp [hstate]
  · refine ⟨⟨⟨h.errno, h.length⟩, ?_⟩, nofun, .inl rfl⟩
    constructor <;> dsimp only <;> split_ifs <;> simp
  · rename_i hstate
    refine ⟨⟨⟨h.errno, h.length⟩, ?_⟩, nofun, .inl rfl⟩
    constructor <;> simp [hstate]
  · exact ⟨⟨⟨h.errno, h.length⟩, nofun, nofun⟩, nofun, .inl rfl⟩

theorem Base.headerValueDiscardWs (h : parser.Base) (hs : parser.state = .headerValueDiscardWs)
    (ch : UInt8) : (parser.headerValueDiscardWs ch).Sound none count := by
  unfold HttpFields.headerValueDiscardWs
  split_ifs
  · exact h.next (by rw [hs]; rfl)
  · exact (h.goto _).next rfl
  · exact (h.goto _).next rfl
  · exact h.headerValueStart ch

theorem Base.headerValueLws (h : parser.Base) (ch : UInt8) :
    (parser.headerValueLws ch).Sound none count := by
  unfold HttpFields.headerValueLws
  split_ifs
  · exact (h.goto .headerValueStart).headerValueStart ch
  · exact (h.finishHeader.goto .headerFieldStart).headerFieldStart ch

theorem Base.headerValueDiscardLws (h : parser.Base) (ch : UInt8) :
    (parser.headerValueDiscardLws ch).Sound none count := by
  unfold HttpFields.headerValueDiscardLws
  split_ifs
  · exact (h.goto _).next rfl
  · have hbase := h.finishHeader.goto .headerFieldStart
    exact ⟨.inl rfl, rfl, by decide, hbase.saved rfl, hbase.headerFieldStart ch⟩

/-! ## The first line -/

theorem Base.expect (h : parser.Base) (ch : UInt8) (expected : Char) {state : ParserState}
    (hs : state.isPlain) : (parser.expect ch expected state).Sound none count := by
  unfold HttpFields.expect
  split_ifs
  · simp [Reaction.Sound]
  · exact (h.goto state).next hs

theorem Base.startRes (h : parser.Base) (hs : parser.state = .startRes) (ch : UInt8) :
    (parser.startRes ch).Sound none count := by
  have hbase : { parser with flags := {}, contentLength := ullongMax }.Base := ⟨h.errno, le_rfl⟩
  unfold HttpFields.startRes
  dsimp only
  split_ifs
  · exact (hbase.goto .resH).notify rfl _
  · exact hbase.notify (by dsimp only; rw [hs]; rfl) _
  · simp [Reaction.Sound]

theorem one_le_length_methodStrings (method : RequestMethod) :
    1 ≤ (methodStrings method).length := by
  cases method <;> decide

theorem Base.reqMethodOk (h : parser.Base) (hs : parser.state = .reqMethod)
    (hindex : parser.index ≤ (methodStrings parser.method).length) : parser.Ok := by
  refine ⟨h, ?_⟩
  unfold Fits
  rw [hs]
  exact hindex

theorem Base.startReq (h : parser.Base) (hs : parser.state = .startReq) (ch : UInt8) :
    (parser.startReq ch).Sound none count := by
  unfold HttpFields.startReq
  dsimp only
  split_ifs
  · exact h.next (by rw [hs]; rfl)
  · simp [Reaction.Sound]
  · split
    · simp [Reaction.Sound]
    · have hok : Ok { parser with
          flags := {}, contentLength := ullongMax, method := ‹RequestMethod›, index := 1,
          state := .reqMethod } :=
        Base.reqMethodOk ⟨h.errno, le_rfl⟩ rfl (one_le_length_methodStrings _)
      exact ⟨rfl, le_rfl, ⟨hok, rfl, nofun⟩, hok, nofun, .inl rfl⟩

theorem Base.startReqOrRes (h : parser.Base) (hs : parser.state = .startReqOrRes) (ch : UInt8) :
    (parser.startReqOrRes ch).Sound none count := by
  have hbase : { parser with flags := {}, contentLength := ullongMax }.Base := ⟨h.errno, le_rfl⟩
  unfold HttpFields.startReqOrRes
  dsimp only
  split_ifs
  · exact h.next (by rw [hs]; rfl)
  · exact (hbase.goto .resOrRespH).notify rfl _
  · refine Base.startReq ?_ rfl ch
    exact ⟨h.errno, le_rfl⟩

theorem Base.resOrRespH (h : parser.Base) (ch : UInt8) : (parser.resOrRespH ch).Sound none count := by
  unfold HttpFields.resOrRespH
  split_ifs
  · refine Base.next ?_ rfl
    exact ⟨h.errno, h.length⟩
  · simp [Reaction.Sound]
  · refine ⟨Base.reqMethodOk ?_ rfl ?_, nofun, .inl rfl⟩
    · exact ⟨h.errno, h.length⟩
    · show 2 ≤ (methodStrings .head).length
      decide

/-- A method that the byte at `index` leads to has a character there. -/
theorem lt_length_of_otherMethod {method other : RequestMethod} {index : ℕ} {ch : UInt8}
    (h : otherMethod method index ch = some other) : index < (methodStrings other).length := by
  have hindex : index = 1 ∨ index = 2 ∨ index = 3 ∧ other = .mkcalendar ∨
      index = 4 ∧ other = .proppatch := by
    grind [otherMethod]
  obtain rfl | rfl | ⟨rfl, rfl⟩ | ⟨rfl, rfl⟩ := hindex
  · cases other <;> decide
  · cases other <;> decide
  · decide
  · decide

theorem length_methodStrings_le (method : RequestMethod) : (methodStrings method).length ≤ 11 := by
  cases method <;> decide

theorem nextIndex_le {method : RequestMethod} (h : parser.index < (methodStrings method).length) :
    parser.nextIndex ≤ (methodStrings method).length := by
  have hle := length_methodStrings_le method
  unfold nextIndex
  omega

theorem Base.reqMethod (h : parser.Base) (hs : parser.state = .reqMethod)
    (hindex : parser.index ≤ (methodStrings parser.method).length) (ch : UInt8) :
    (parser.reqMethod ch).Sound none count := by
  unfold HttpFields.reqMethod
  dsimp only
  split_ifs with hzero hbehind hspace hmatch
  · simp [Reaction.Sound]
  · omega
  · refine Base.next ?_ rfl
    exact ⟨h.errno, h.length⟩
  · have hlt : parser.index < (methodStrings parser.method).length := by
      by_contra hge
      rw [List.getD_eq_getElem?_getD, List.getElem?_eq_none (Nat.le_of_not_lt hge)] at hmatch
      exact hzero hmatch
    refine ⟨Base.reqMethodOk ?_ hs (nextIndex_le hlt), by simp [hs], ?_⟩
    · exact ⟨h.errno, h.length⟩
    · simp [hs, ParserState.openKind, ParserState.firstMark]
  · split
    · simp [Reaction.Sound]
    · rename_i method hother
      refine ⟨Base.reqMethodOk ?_ hs (nextIndex_le (lt_length_of_otherMethod hother)), by simp [hs], ?_⟩
      · exact ⟨h.errno, h.length⟩
      · simp [hs, ParserState.openKind, ParserState.firstMark]

theorem parseUrlChar_ne_spacesBeforeUrl (s : UrlState) (ch : UInt8) :
    parseUrlChar s ch ≠ .spacesBeforeUrl := by
  unfold parseUrlChar parseServerChar
  split
  · nofun
  · split <;> try split_ifs
    all_goals nofun

theorem Base.urlChar (h : parser.Base) (s : UrlState) (ch : UInt8) :
    (parser.urlChar s ch).Sound (some .url) count := by
  unfold HttpFields.urlChar
  dsimp only
  split_ifs with hdead
  · simp [Reaction.Sound]
  · have hspaces := parseUrlChar_ne_spacesBeforeUrl s ch
    revert hdead hspaces
    cases parseUrlChar s ch <;> intro hdead hspaces
    · exact absurd rfl hdead
    · exact absurd rfl hspaces
    all_goals exact ⟨⟨h.goto _, trivial⟩, nofun, .inl rfl⟩

theorem Base.deadState (h : parser.Base) (hs : parser.state = .dead) (ch : UInt8) :
    (parser.deadState ch).Sound none count := by
  unfold HttpFields.deadState
  split_ifs
  · exact h.next (by rw [hs]; rfl)
  · simp [Reaction.Sound]

theorem Base.earlyUrl (h : parser.Base) (s : UrlState) (ch : UInt8) :
    (parser.earlyUrl s ch).Sound (some .url) count := by
  unfold HttpFields.earlyUrl
  split_ifs
  · simp [Reaction.Sound]
  · exact h.urlChar s ch

theorem Base.lateUrl (h : parser.Base) (s : UrlState) (ch : UInt8) :
    (parser.lateUrl s ch).Sound (some .url) count := by
  unfold HttpFields.lateUrl
  split_ifs
  · exact (h.goto .reqHttpStart).report rfl _
  · refine Base.report ?_ rfl _
    exact ⟨h.errno, h.length⟩
  · refine Base.report ?_ rfl _
    exact ⟨h.errno, h.length⟩
  · exact h.urlChar s ch

theorem Base.spacesBeforeUrl (h : parser.Base) (hs : parser.state = .url .spacesBeforeUrl)
    (ch : UInt8) : (parser.spacesBeforeUrl ch).Sound none count := by
  unfold HttpFields.spacesBeforeUrl
  split_ifs
  · exact h.next (by rw [hs]; rfl)
  · exact ⟨.inl rfl, h.urlChar _ ch⟩
  · exact ⟨.inl rfl, h.urlChar _ ch⟩

theorem Base.reqUrl (h : parser.Base) {s : UrlState} (hs : parser.state = .url s)
    (hdead : s ≠ .dead) (ch : UInt8) :
    (parser.reqUrl s ch).Sound (ParserState.url s).openKind count := by
  cases s with
  | dead => exact absurd rfl hdead
  | spacesBeforeUrl => exact h.spacesBeforeUrl hs ch
  | schema | schemaSlash | schemaSlashSlash | serverStart => exact h.earlyUrl _ ch
  | _ => exact h.lateUrl _ ch

theorem Base.reqHttpStart (h : parser.Base) (hs : parser.state = .reqHttpStart) (ch : UInt8) :
    (parser.reqHttpStart ch).Sound none count := by
  unfold HttpFields.reqHttpStart
  split_ifs
  · exact (h.goto _).next rfl
  · exact h.next (by rw [hs]; rfl)
  · simp [Reaction.Sound]

theorem Base.firstHttpMajor (h : parser.Base) (ch : UInt8) (least : Char) {state : ParserState}
    (hs : state.isPlain) : (parser.firstHttpMajor ch least state).Sound none count := by
  unfold HttpFields.firstHttpMajor
  split_ifs
  · simp [Reaction.Sound]
  · refine Base.next ?_ hs
    exact ⟨h.errno, h.length⟩

theorem Base.httpMajorState (h : parser.Base) (hs : parser.state.isPlain) (ch : UInt8)
    {state : ParserState} (hnext : state.isPlain) :
    (parser.httpMajorState ch state).Sound none count := by
  unfold HttpFields.httpMajorState
  dsimp only
  split_ifs
  · exact (h.goto state).next hnext
  · simp [Reaction.Sound]
  · simp [Reaction.Sound]
  · refine Base.next ?_ hs
    exact ⟨h.errno, h.length⟩

theorem Base.firstHttpMinor (h : parser.Base) (ch : UInt8) {state : ParserState}
    (hs : state.isPlain) : (parser.firstHttpMinor ch state).Sound none count := by
  unfold HttpFields.firstHttpMinor
  split_ifs
  · simp [Reaction.Sound]
  · refine Base.next ?_ hs
    exact ⟨h.errno, h.length⟩

theorem Base.httpMinorDigit (h : parser.Base) (hs : parser.state.isPlain) (ch : UInt8) :
    (parser.httpMinorDigit ch).Sound none count := by
  unfold HttpFields.httpMinorDigit
  dsimp only
  split_ifs
  · simp [Reaction.Sound]
  · simp [Reaction.Sound]
  · refine Base.next ?_ hs
    exact ⟨h.errno, h.length⟩

theorem Base.reqHttpMinor (h : parser.Base) (hs : parser.state.isPlain) (ch : UInt8) :
    (parser.reqHttpMinor ch).Sound none count := by
  unfold HttpFields.reqHttpMinor
  split_ifs
  · exact (h.goto _).next rfl
  · exact (h.goto _).next rfl
  · exact h.httpMinorDigit hs ch

theorem Base.resHttpMinor (h : parser.Base) (hs : parser.state.isPlain) (ch : UInt8) :
    (parser.resHttpMinor ch).Sound none count := by
  unfold HttpFields.resHttpMinor
  split_ifs
  · exact (h.goto _).next rfl
  · exact h.httpMinorDigit hs ch

theorem Base.reqLineAlmostDone (h : parser.Base) (ch : UInt8) :
    (parser.reqLineAlmostDone ch).Sound none count := by
  unfold HttpFields.reqLineAlmostDone
  split_ifs
  · simp [Reaction.Sound]
  · exact (h.goto _).next rfl

theorem Base.resFirstStatusCode (h : parser.Base) (hs : parser.state.isPlain) (ch : UInt8) :
    (parser.resFirstStatusCode ch).Sound none count := by
  unfold HttpFields.resFirstStatusCode
  split_ifs
  · exact h.next hs
  · simp [Reaction.Sound]
  · refine Base.next ?_ rfl
    exact ⟨h.errno, h.length⟩

theorem Base.resStatusCode (h : parser.Base) (hs : parser.state.isPlain) (ch : UInt8) :
    (parser.resStatusCode ch).Sound none count := by
  unfold HttpFields.resStatusCode
  dsimp only
  split_ifs
  · exact (h.goto _).next rfl
  · exact (h.goto _).next rfl
  · exact (h.goto _).next rfl
  · simp [Reaction.Sound]
  · simp [Reaction.Sound]
  · refine Base.next ?_ hs
    exact ⟨h.errno, h.length⟩

theorem Base.resStatusStart (h : parser.Base) (ch : UInt8) :
    (parser.resStatusStart ch).Sound none count := by
  unfold HttpFields.resStatusStart
  split_ifs
  · exact (h.goto _).next rfl
  · exact (h.goto _).next rfl
  · exact ⟨.inl rfl, ⟨⟨h.errno, h.length⟩, trivial⟩, nofun, .inl rfl⟩

theorem Base.resStatus (h : parser.Base) (hs : parser.state = .resStatus) (ch : UInt8) :
    (parser.resStatus ch).Sound (some .status) count := by
  unfold HttpFields.resStatus
  split_ifs
  · exact (h.goto _).report rfl _
  · exact (h.goto _).report rfl _
  · refine ⟨⟨h, ?_⟩, ?_, .inl ?_⟩
    · unfold Fits
      rw [hs]
      trivial
    · rw [hs]
      nofun
    · rw [hs]
      rfl

/-! ## Chunks -/

theorem unhex_lt (ch : UInt8) : (unhex ch).toNat < 16 := by
  have htable : ∀ digit ∈ unhexTable, digit.toNat < 16 := by decide +kernel
  rw [unhex, List.getD_eq_getElem?_getD]
  cases hdigit : unhexTable[ch.toNat]? with
  | none => decide
  | some digit => exact htable digit (List.mem_of_getElem? hdigit)

theorem Ok.chunkSizeStart (h : parser.Ok) (hs : parser.state = .chunkSizeStart) (ch : UInt8) :
    (parser.chunkSizeStart ch).Sound none (some 1) := by
  have hchunked : parser.flags.chunked := by simpa [Fits, hs] using h.fits
  have hlt : (unhex ch).toNat < ullongMax := (unhex_lt ch).trans (by decide)
  refine ⟨rfl, ?_⟩
  simp only [hchunked, Bool.not_true, Bool.false_eq_true, if_false]
  split_ifs
  · simp [Reaction.Sound]
  · exact ⟨⟨⟨h.errno, hlt.le⟩, hchunked, hlt⟩, nofun, .inl rfl⟩

/-- In the states of a chunk size. -/
theorem Ok.chunk (h : parser.Ok)
    (hs : parser.state = .chunkSize ∨ parser.state = .chunkParameters ∨
      parser.state = .chunkSizeAlmostDone) :
    parser.flags.chunked ∧ parser.contentLength < ullongMax := by
  have hfits := h.fits
  unfold Fits at hfits
  obtain hs | hs | hs := hs <;> simpa [hs] using hfits

theorem Ok.chunkSize (h : parser.Ok) (hs : parser.state = .chunkSize) (ch : UInt8) :
    (parser.chunkSize ch).Sound none count := by
  obtain ⟨hchunked, hlt⟩ := h.chunk (.inl hs)
  unfold HttpFields.chunkSize
  simp only [hchunked, Bool.not_true, Bool.false_eq_true, if_false]
  split_ifs with _ _ _ hbig
  · exact ⟨⟨⟨h.errno, h.length⟩, hchunked, hlt⟩, nofun, .inl rfl⟩
  · exact ⟨⟨⟨h.errno, h.length⟩, hchunked, hlt⟩, nofun, .inl rfl⟩
  · simp [Reaction.Sound]
  · simp [Reaction.Sound]
  · have hdigit := unhex_lt ch
    have hsize : (parser.contentLength * 16 + (unhex ch).toNat) % 2 ^ 64 < ullongMax := by
      unfold ullongMax at hbig ⊢
      omega
    refine ⟨⟨⟨h.errno, hsize.le⟩, ?_⟩, ?_, .inl ?_⟩
    · unfold Fits
      simp only [hs]
      exact ⟨hchunked, hsize⟩
    · simp [hs]
    · simp [hs, ParserState.openKind, ParserState.firstMark]

theorem Ok.chunkParameters (h : parser.Ok) (hs : parser.state = .chunkParameters) (ch : UInt8) :
    (parser.chunkParameters ch).Sound none count := by
  obtain ⟨hchunked, hlt⟩ := h.chunk (.inr (.inl hs))
  unfold HttpFields.chunkParameters
  simp only [hchunked, Bool.not_true, Bool.false_eq_true, if_false]
  split_ifs
  · exact ⟨⟨⟨h.errno, h.length⟩, hchunked, hlt⟩, nofun, .inl rfl⟩
  · exact ⟨h, by simp [hs], by simp [hs, ParserState.openKind, ParserState.firstMark]⟩

theorem Ok.chunkSizeAlmostDone (h : parser.Ok) (hs : parser.state = .chunkSizeAlmostDone)
    (ch : UInt8) : (parser.chunkSizeAlmostDone ch).Sound none count := by
  obtain ⟨hchunked, hlt⟩ := h.chunk (.inr (.inr hs))
  unfold HttpFields.chunkSizeAlmostDone
  simp only [hchunked, Bool.not_true, Bool.false_eq_true, if_false]
  split_ifs with _ hzero
  · simp [Reaction.Sound]
  · refine Base.notify ?_ rfl .chunkHeader
    exact ⟨h.errno, h.length⟩
  · have hok : (parser.goto .chunkData).Ok :=
      ⟨h.toBase.goto _, hchunked, Nat.pos_of_ne_zero hzero, hlt⟩
    exact ⟨rfl, le_rfl, ⟨hok, rfl, nofun⟩, hok, nofun, .inr ⟨rfl, rfl⟩⟩

theorem Ok.chunkDataAlmostDone (h : parser.Ok) (hs : parser.state = .chunkDataAlmostDone)
    (ch : UInt8) : (parser.chunkDataAlmostDone ch).Sound (some .body) count := by
  obtain ⟨hchunked, hzero⟩ : parser.flags.chunked ∧ parser.contentLength = 0 := by
    simpa [Fits, hs] using h.fits
  unfold HttpFields.chunkDataAlmostDone
  simp only [hchunked, hzero, Bool.not_true, bne_self_eq_false, Bool.or_self, Bool.false_eq_true,
    if_false]
  split_ifs
  · simp [Reaction.Sound]
  · have hok : (parser.goto .chunkDataDone).Ok := ⟨h.toBase.goto _, hchunked⟩
    exact ⟨rfl, by decide, ⟨hok, rfl, nofun⟩, hok, nofun, .inl rfl⟩

theorem Ok.chunkDataDone (h : parser.Ok) (hs : parser.state = .chunkDataDone) (ch : UInt8) :
    (parser.chunkDataDone ch).Sound none count := by
  have hchunked : parser.flags.chunked := by simpa [Fits, hs] using h.fits
  unfold HttpFields.chunkDataDone
  simp only [hchunked, Bool.not_true, Bool.false_eq_true, if_false]
  split_ifs
  · simp [Reaction.Sound]
  · have hok : (parser.goto .chunkSizeStart).Ok := ⟨h.toBase.goto _, hchunked⟩
    exact ⟨rfl, le_rfl, ⟨hok, rfl, fun _ => rfl⟩, hok, fun _ => rfl, .inl rfl⟩

/-! ## Header fields and values -/

/-- The parser with another state of the header line. -/
def withHeader (parser : HttpFields) (index : ℕ) (headerState : HeaderState) : HttpFields :=
  { parser with index := index, headerState := headerState }

/-- A step through a name changes `index` and `header_state`. -/
theorem matchName_eq (parser : HttpFields) (c : UInt8) (name : String) (found failed : HeaderState) :
    ∃ s, parser.matchName c name found failed = parser.withHeader parser.nextIndex s ∧
      (s = found ∨ s = failed ∨ s = parser.headerState) := by
  unfold matchName
  dsimp only
  split_ifs
  · exact ⟨failed, rfl, .inr (.inl rfl)⟩
  · exact ⟨found, rfl, .inl rfl⟩
  · exact ⟨parser.headerState, rfl, .inr (.inr rfl)⟩

/-- A character of a name changes `index` and `header_state`, and no assertion fails. -/
theorem fieldChar_eq (hname : parser.headerState.isName) (ch : UInt8) :
    ∃ i s, parser.fieldChar ch = some (parser.withHeader i s) ∧ s.isName := by
  cases hstate : parser.headerState <;> rw [hstate] at hname <;>
    simp only [HeaderState.isName, Bool.false_eq_true] at hname <;>
    simp only [fieldChar, hstate, Option.some.injEq]
  case general => exact ⟨parser.index, parser.headerState, rfl, by rw [hstate]; rfl⟩
  case c => exact ⟨_, _, rfl, by split_ifs <;> rfl⟩
  case co => exact ⟨_, _, rfl, by split_ifs <;> rfl⟩
  case con => exact ⟨_, _, rfl, by split_ifs <;> rfl⟩
  case connection | contentLength | transferEncoding | upgrade =>
    split_ifs
    · exact ⟨parser.index, .general, rfl, rfl⟩
    · exact ⟨parser.index, parser.headerState, rfl, by rw [hstate]; rfl⟩
  all_goals
    obtain ⟨s, heq, hs⟩ := matchName_eq parser (token ch) _ _ _
    refine ⟨_, s, heq, ?_⟩
    obtain rfl | rfl | rfl := hs
    · rfl
    · rfl
    · rw [hstate]
      rfl

theorem Ok.withHeader (h : parser.Ok) (hs : parser.state = .headerField) (index : ℕ)
    {headerState : HeaderState} (hname : headerState.isName) :
    (parser.withHeader index headerState).Ok := by
  refine ⟨⟨h.errno, h.length⟩, ?_⟩
  unfold Fits HttpFields.withHeader
  rw [hs]
  exact hname

/-- The loop over a header field keeps what it needs, and fails no assertion. -/
theorem Ok.scanField (h : parser.Ok) (hs : parser.state = .headerField) (rest : Bytes) :
    ∃ parser' n, parser.scanField rest = some (parser', n) ∧ parser'.Ok ∧
      parser'.state = .headerField ∧ n ≤ rest.length := by
  induction rest generalizing parser with
  | nil => exact ⟨parser, 0, rfl, h, hs, le_rfl⟩
  | cons ch rest ih =>
      simp only [HttpFields.scanField]
      split_ifs
      · exact ⟨parser, 0, rfl, h, hs, Nat.zero_le _⟩
      · have hname : parser.headerState.isName := by simpa [Fits, hs] using h.fits
        obtain ⟨i, s, hchar, hname⟩ := fieldChar_eq hname ch
        obtain ⟨parser', n, hscan, hok, hs', hle⟩ := ih (h.withHeader hs i hname) hs
        refine ⟨parser', n + 1, ?_, hok, hs', Nat.succ_le_succ hle⟩
        rw [hchar, Option.bind_some, hscan]
        rfl

theorem Base.okValue (h : parser.Base) (hs : parser.state = .headerValue)
    (hconnection : parser.headerState ≠ .connection)
    (htransfer : parser.headerState ≠ .transferEncoding) : parser.Ok := by
  refine ⟨h, ?_⟩
  unfold Fits
  rw [hs]
  exact ⟨hconnection, htransfer⟩

theorem Ok.matchValue (h : parser.Ok) (hs : parser.state = .headerValue) (c : UInt8) (name : String)
    {found failed : HeaderState}
    (hfound : found ≠ .connection ∧ found ≠ .transferEncoding)
    (hfailed : failed ≠ .connection ∧ failed ≠ .transferEncoding) :
    (parser.matchName c name found failed).Ok ∧
      (parser.matchName c name found failed).state = .headerValue := by
  have hold : parser.headerState ≠ .connection ∧ parser.headerState ≠ .transferEncoding := by
    simpa [Fits, hs] using h.fits
  obtain ⟨s, heq, hcases⟩ := matchName_eq parser c name found failed
  have hne : s ≠ .connection ∧ s ≠ .transferEncoding := by
    obtain rfl | rfl | rfl := hcases
    · exact hfound
    · exact hfailed
    · exact hold
  rw [heq]
  refine ⟨Base.okValue ?_ hs hne.1 hne.2, hs⟩
  exact ⟨h.errno, h.length⟩

/-- What a character of a header value leaves. -/
def ValueChar.Sound : ValueChar → Prop
  | .next parser => parser.Ok ∧ parser.state = .headerValue
  | .invalid _ => True
  | .abort => False

theorem finishToken_eq : ∃ flags, parser.finishToken = { parser with flags := flags } := by
  unfold finishToken
  split <;> exact ⟨_, rfl⟩

theorem Ok.valueChar (h : parser.Ok) (hs : parser.state = .headerValue) (ch : UInt8) :
    (parser.valueChar ch).Sound := by
  have hold : parser.headerState ≠ .connection ∧ parser.headerState ≠ .transferEncoding := by
    simpa [Fits, hs] using h.fits
  -- every branch that changes only flags, `index` and `header_state` is of this form
  have hnext : ∀ (flags : Flags) (index : ℕ) (s : HeaderState), s ≠ .connection →
      s ≠ .transferEncoding →
      (ValueChar.next { parser with flags := flags, index := index, headerState := s }).Sound := by
    intro flags index s hconnection htransfer
    refine ⟨Base.okValue ?_ hs hconnection htransfer, hs⟩
    exact ⟨h.errno, h.length⟩
  unfold HttpFields.valueChar
  dsimp only
  split
  case h_1 hstate => exact hold.1 hstate
  case h_2 hstate => exact hold.2 hstate
  case h_3 hstate =>
    split_ifs with _ _ hbig
    · exact ⟨h, hs⟩
    · trivial
    · trivial
    · refine ⟨Base.okValue ⟨h.errno, ?_⟩ hs hold.1 hold.2, hs⟩
      exact Nat.le_of_lt_succ (Nat.mod_lt _ (by decide))
  case h_4 => exact h.matchValue hs _ _ ⟨nofun, nofun⟩ ⟨nofun, nofun⟩
  case h_5 => split_ifs <;> exact hnext _ _ _ nofun nofun
  case h_6 => exact h.matchValue hs _ _ ⟨nofun, nofun⟩ ⟨nofun, nofun⟩
  case h_7 => exact h.matchValue hs _ _ ⟨nofun, nofun⟩ ⟨nofun, nofun⟩
  case h_8 => exact h.matchValue hs _ _ ⟨nofun, nofun⟩ ⟨nofun, nofun⟩
  case h_9 =>
    split_ifs
    · exact hnext _ _ _ nofun nofun
    · exact ⟨h, hs⟩
  case h_10 =>
    split_ifs
    · exact hnext _ _ _ nofun nofun
    · exact ⟨h, hs⟩
  case h_14 => exact hnext _ _ _ nofun nofun
  all_goals
    split_ifs
    · obtain ⟨flags, heq⟩ := @finishToken_eq parser
      rw [heq]
      exact hnext _ _ _ nofun nofun
    · exact hnext _ _ _ nofun nofun
    · exact ⟨h, hs⟩

/-! ## The search for a line end -/

/-- `memchr` finds the first `c`. -/
theorem memchr_eq_some {c : UInt8} {s : Bytes} {n : ℕ} (h : memchr c s = some n) :
    n < s.length ∧ (∃ rest, s.drop n = c :: rest) ∧ c ∉ s.take n := by
  obtain ⟨hlt, hc, hbefore⟩ := List.findIdx?_eq_some_iff_getElem.mp h
  refine ⟨hlt, ⟨s.drop (n + 1), ?_⟩, ?_⟩
  · rw [List.drop_eq_getElem_cons hlt, beq_iff_eq.mp hc]
  · intro hmem
    obtain ⟨j, hj, heq⟩ := List.mem_take_iff_getElem.mp hmem
    have hne := hbefore j (by omega)
    simp [heq] at hne

theorem not_mem_of_memchr {c : UInt8} {s : Bytes} (h : memchr c s = none) : c ∉ s := by
  intro hmem
  have hne := List.findIdx?_eq_none_iff.mp h c hmem
  simp at hne

theorem isOneOf_lineEnd (c : UInt8) :
    isOneOf ['\r', '\n'] c = true ↔ c = '\r'.toUInt8 ∨ c = '\n'.toUInt8 := by
  rw [isOneOf_iff]
  simp [eq_comm]

theorem isOneOf_lineEnd_of_not_mem {s : Bytes} (hcr : '\r'.toUInt8 ∉ s) (hlf : '\n'.toUInt8 ∉ s) :
    ∀ x ∈ s, isOneOf ['\r', '\n'] x = false := by
  intro x hx
  rw [Bool.eq_false_iff, Ne, isOneOf_lineEnd]
  rintro (rfl | rfl)
  · exact hcr hx
  · exact hlf hx

/-- The first line end within the limit. -/
def FirstLineEnd (s : Bytes) (n : ℕ) : Prop :=
  n < s.length ∧ (∃ c rest, s.drop n = c :: rest ∧ isOneOf ['\r', '\n'] c) ∧
    ∀ x ∈ s.take n, isOneOf ['\r', '\n'] x = false

theorem not_mem_take_of_le {c : UInt8} {s : Bytes} {n m : ℕ} (h : c ∉ s.take m) (hle : n ≤ m) :
    c ∉ s.take n := fun hmem => h (List.take_subset_take_left s hle hmem)

/-- The search for a line end stops at the first one within the limit; if there is none, it
stops at the end of the buffer. -/
theorem lineEnd_cases (rest : Bytes) :
    FirstLineEnd (rest.take httpMaxHeaderSize) (lineEnd rest) ∨
      (lineEnd rest = rest.length ∧
        ∀ x ∈ rest.take httpMaxHeaderSize, isOneOf ['\r', '\n'] x = false) := by
  have htake : rest.take (min rest.length httpMaxHeaderSize) = rest.take httpMaxHeaderSize := by
    rw [List.take_eq_take_iff]
    omega
  unfold lineEnd
  dsimp only
  rw [htake]
  generalize rest.take httpMaxHeaderSize = s
  cases hcr : memchr '\r'.toUInt8 s with
  | none =>
      have hnocr := not_mem_of_memchr hcr
      cases hlf : memchr '\n'.toUInt8 s with
      | none => exact .inr ⟨rfl, isOneOf_lineEnd_of_not_mem hnocr (not_mem_of_memchr hlf)⟩
      | some lf =>
          obtain ⟨hlt, ⟨tail, hdrop⟩, hbefore⟩ := memchr_eq_some hlf
          exact .inl ⟨hlt, ⟨_, tail, hdrop, by decide⟩,
            isOneOf_lineEnd_of_not_mem (fun hmem => hnocr (List.mem_of_mem_take hmem)) hbefore⟩
  | some cr =>
      obtain ⟨hcrlt, ⟨crtail, hcrdrop⟩, hnocr⟩ := memchr_eq_some hcr
      cases hlf : memchr '\n'.toUInt8 s with
      | none =>
          have hnolf := not_mem_of_memchr hlf
          exact .inl ⟨hcrlt, ⟨_, crtail, hcrdrop, by decide⟩,
            isOneOf_lineEnd_of_not_mem hnocr fun hmem => hnolf (List.mem_of_mem_take hmem)⟩
      | some lf =>
          obtain ⟨hlflt, ⟨lftail, hlfdrop⟩, hnolf⟩ := memchr_eq_some hlf
          dsimp only
          split_ifs with hle
          · exact .inl ⟨hlflt, ⟨_, lftail, hlfdrop, by decide⟩,
              isOneOf_lineEnd_of_not_mem (not_mem_take_of_le hnocr hle) hnolf⟩
          · exact .inl ⟨hcrlt, ⟨_, crtail, hcrdrop, by decide⟩,
              isOneOf_lineEnd_of_not_mem hnocr (not_mem_take_of_le hnolf (by omega))⟩

/-- The same of the whole buffer: a search that finds nothing has seen every byte, or more
bytes than a header may have. -/
theorem lineEnd_spec (rest : Bytes) :
    (∃ c tail, rest.drop (lineEnd rest) = c :: tail ∧ isOneOf ['\r', '\n'] c ∧
      ∀ x ∈ rest.take (lineEnd rest), isOneOf ['\r', '\n'] x = false) ∨
    (lineEnd rest = rest.length ∧
      (httpMaxHeaderSize < rest.length ∨ ∀ x ∈ rest, isOneOf ['\r', '\n'] x = false)) := by
  obtain ⟨hlt, ⟨c, tail, hdrop, hc⟩, hbefore⟩ | ⟨hlength, hnone⟩ := lineEnd_cases rest
  · refine .inl ?_
    have hn : lineEnd rest < httpMaxHeaderSize := by
      rw [List.length_take] at hlt
      omega
    rw [List.drop_take] at hdrop
    rw [List.take_take, min_eq_left hn.le] at hbefore
    cases hrest : rest.drop (lineEnd rest) with
    | nil => simp [hrest] at hdrop
    | cons d tail' =>
        obtain ⟨k, hk⟩ : ∃ k, httpMaxHeaderSize - lineEnd rest = k + 1 := ⟨_, (Nat.sub_add_cancel
          (Nat.sub_pos_of_lt hn)).symm⟩
        rw [hrest, hk, List.take_succ_cons] at hdrop
        rw [List.cons.inj hdrop |>.1]
        exact ⟨c, tail', rfl, hc, hbefore⟩
  · refine .inr ⟨hlength, ?_⟩
    rcases Nat.lt_or_ge httpMaxHeaderSize rest.length with hbig | hsmall
    · exact .inl hbig
    · rw [List.take_of_length_le hsmall] at hnone
      exact .inr hnone

/-! ## The loop over a header value -/

/-- How the loop over a header value may end on `rest` after `n` bytes. -/
def ValueEnd.Sound (rest : Bytes) (n : ℕ) : ValueEnd → Prop
  | .buffer parser => parser.Ok ∧ parser.state = .headerValue ∧ n = rest.length
  | .line parser ch => parser.Ok ∧ isOneOf ['\r', '\n'] ch ∧ ∃ tail, rest.drop n = ch :: tail
  | .invalid _ => n < rest.length
  | .abort => False

theorem Ok.scanValue (h : parser.Ok) (hs : parser.state = .headerValue) (rest : Bytes) :
    (parser.scanValue rest).1.Sound rest (parser.scanValue rest).2 := by
  induction rest generalizing parser with
  | nil => exact ⟨h, hs, rfl⟩
  | cons ch rest ih =>
      simp only [HttpFields.scanValue]
      split_ifs with hline hgeneral
      · exact ⟨h, hline, rest, rfl⟩
      · obtain ⟨c, tail, hdrop, hc, -⟩ | ⟨hlength, -⟩ := lineEnd_spec (ch :: rest)
        · rw [hdrop]
          exact ⟨h, hc, tail, hdrop⟩
        · rw [hlength, List.drop_length]
          exact ⟨h, hs, rfl⟩
      · have hchar := h.valueChar hs ch
        cases hvalue : parser.valueChar ch with
        | next parser' =>
            rw [hvalue] at hchar
            have hscan := ih hchar.1 hchar.2
            dsimp only
            revert hscan
            cases (parser'.scanValue rest).1 with
            | buffer _ => exact fun ⟨hok, hstate, hn⟩ => ⟨hok, hstate, by simp [hn]⟩
            | line _ _ => exact fun hend => hend
            | invalid _ => exact Nat.succ_lt_succ
            | abort => exact fun hend => hend
        | invalid _ => exact Nat.zero_lt_succ _
        | abort =>
            rw [hvalue] at hchar
            exact hchar

/-! ## The switch -/

theorem Base.headerFieldEnd (h : parser.Base) (ch : UInt8) :
    (parser.headerFieldEnd ch).Sound (some .headerField) count := by
  unfold HttpFields.headerFieldEnd
  split_ifs
  · exact (h.goto .headerValueDiscardWs).report rfl _
  · simp [Reaction.Sound]

theorem Ok.next (h : parser.Ok) (hs : parser.state = .headerField ∨ parser.state = .headerValue) :
    (Reaction.next parser).Sound parser.state.openKind count := by
  refine ⟨h, fun hstart => ?_, .inl rfl⟩
  obtain hs | hs := hs <;> simp [hs] at hstart

/-- A case of the switch that moves `p` by `n`, with `length` bytes from `p` on: it stays in
the buffer, or it stops at its end. -/
def SwitchSound (length : ℕ) (kind : Option DataKind) (count : Option ℕ) (n : ℕ)
    (reaction : Reaction) : Prop :=
  (n < length ∧ reaction.Sound kind count) ∨
  (n = length ∧ ∃ parser, reaction = .count n parser (.back (.next parser)) ∧
    (Reaction.next parser).Sound kind none)

theorem Ok.headerField (h : parser.Ok) (hs : parser.state = .headerField) (rest : Bytes) :
    SwitchSound rest.length (some .headerField) count (parser.headerField rest).1
      (parser.headerField rest).2 := by
  obtain ⟨parser', n, hscan, hok, hs', hle⟩ := h.scanField hs rest
  unfold HttpFields.headerField
  rw [hscan]
  dsimp only
  split
  next hend =>
    have hnext : (Reaction.next parser').Sound parser'.state.openKind none := hok.next (.inl hs')
    rw [hs'] at hnext
    exact .inr ⟨hle.antisymm (List.drop_eq_nil_iff.mp hend), parser', rfl, hnext⟩
  next hend =>
    refine .inl ⟨?_, hok.toBase.headerFieldEnd _⟩
    by_contra hge
    rw [List.drop_eq_nil_of_le (Nat.le_of_not_lt hge)] at hend
    cases hend

theorem Base.headerAlmostDone (h : parser.Base) (ch : UInt8) :
    (parser.headerAlmostDone ch).Sound none count := h.expect ch _ rfl

theorem Base.headerValueEnd (h : parser.Base) (old : HeaderState) (n : ℕ) (ch : UInt8) :
    (parser.headerValueEnd old n ch).Sound (some .headerValue) count := by
  have hbase := h.goto .headerAlmostDone
  unfold HttpFields.headerValueEnd
  dsimp only
  split_ifs
  · exact ⟨rfl, by decide, hbase.saved rfl, hbase.next rfl⟩
  · exact ⟨rfl, by decide, hbase.saved rfl, hbase.headerAlmostDone ch⟩

theorem Ok.headerValue (h : parser.Ok) (hs : parser.state = .headerValue) {rest : Bytes}
    (hrest : rest ≠ []) :
    SwitchSound rest.length (some .headerValue) count (parser.headerValue rest).1
      (parser.headerValue rest).2 := by
  have hscan := h.scanValue hs rest
  have hpos : 0 < rest.length := List.length_pos_iff.mpr hrest
  unfold HttpFields.headerValue
  dsimp only
  revert hscan
  cases (parser.scanValue rest).1 with
  | buffer parser' =>
      rintro ⟨hok, hs', hn⟩
      have hnext : (Reaction.next parser').Sound parser'.state.openKind none :=
        hok.next (.inr hs')
      rw [hs'] at hnext
      exact .inr ⟨hn, parser', rfl, hnext⟩
  | line parser' ch =>
      rintro ⟨hok, -, tail, hdrop⟩
      refine .inl ⟨?_, hok.toBase.headerValueEnd _ _ ch⟩
      by_contra hge
      rw [List.drop_eq_nil_of_le (Nat.le_of_not_lt hge)] at hdrop
      cases hdrop
  | invalid parser' => exact fun hn => .inl ⟨hn, rfl⟩
  | abort => exact fun habort => habort.elim

theorem Base.consume (h : parser.Base) (n : ℕ) : (parser.consume n).Base :=
  ⟨h.errno, (Nat.sub_le _ _).trans h.length⟩

theorem Ok.bodyIdentity (h : parser.Ok) (hs : parser.state = .bodyIdentity) (left : ℕ) :
    (parser.bodyIdentity left).2.Sound (some .body) count := by
  obtain ⟨hpos, hlt⟩ : 0 < parser.contentLength ∧ parser.contentLength < ullongMax := by
    simpa [Fits, hs] using h.fits
  have hbase := h.toBase.consume (min parser.contentLength left)
  unfold HttpFields.bodyIdentity
  dsimp only
  rw [if_neg (by omega)]
  unfold HttpFields.bodyRead
  dsimp only
  split_ifs with hzero
  · have hdone := hbase.goto .messageDone
    exact ⟨rfl, by decide, hdone.saved rfl, hdone.messageDone⟩
  · have hs' : (parser.consume (min parser.contentLength left)).state = .bodyIdentity := hs
    have hcontent : (parser.consume (min parser.contentLength left)).contentLength =
        parser.contentLength - min parser.contentLength left := rfl
    refine ⟨⟨hbase, ?_⟩, by simp [hs'], .inl (by simp [hs', ParserState.openKind])⟩
    unfold Fits
    simp only [hs']
    omega

theorem Ok.chunkData (h : parser.Ok) (hs : parser.state = .chunkData) (left : ℕ) :
    (parser.chunkData left).2.Sound (some .body) count := by
  obtain ⟨hchunked, hpos, hlt⟩ : parser.flags.chunked ∧ 0 < parser.contentLength ∧
      parser.contentLength < ullongMax := by simpa [Fits, hs] using h.fits
  have hbase := h.toBase.consume (min parser.contentLength left)
  unfold HttpFields.chunkData
  dsimp only
  rw [if_neg (by simp [hchunked]; omega)]
  unfold HttpFields.chunkRead
  split_ifs with hzero
  · exact ⟨⟨hbase.goto _, hchunked, hzero⟩, nofun, .inl rfl⟩
  · have hs' : (parser.consume (min parser.contentLength left)).state = .chunkData := hs
    have hcontent : (parser.consume (min parser.contentLength left)).contentLength =
        parser.contentLength - min parser.contentLength left := rfl
    refine ⟨⟨hbase, ?_⟩, by simp [hs'], .inl (by simp [hs', ParserState.openKind])⟩
    unfold Fits
    simp only [hs']
    exact ⟨hchunked, by omega⟩

/-- **Every case of the switch is sound.** -/
theorem Ok.react (h : parser.Ok) (ch : UInt8)
    (hbytes : parser.state ≠ .headerField ∧ parser.state ≠ .headerValue ∧
      parser.state ≠ .bodyIdentity ∧ parser.state ≠ .bodyIdentityEof ∧ parser.state ≠ .chunkData) :
    (parser.react ch).Sound parser.state.openKind parser.state.knownCount := by
  have hbase := h.toBase
  unfold HttpFields.react
  -- One case for each state of the switch, with the lemma of its function.
  cases hs : parser.state <;> dsimp only
  case dead => exact hbase.deadState hs ch
  case startReqOrRes => exact hbase.startReqOrRes hs ch
  case resOrRespH => exact hbase.resOrRespH ch
  case startRes => exact hbase.startRes hs ch
  case resFirstHttpMajor => exact hbase.firstHttpMajor ch _ rfl
  case resHttpMajor => exact hbase.httpMajorState (by rw [hs]; rfl) ch rfl
  case resFirstHttpMinor => exact hbase.firstHttpMinor ch rfl
  case resHttpMinor => exact hbase.resHttpMinor (by rw [hs]; rfl) ch
  case resFirstStatusCode => exact hbase.resFirstStatusCode (by rw [hs]; rfl) ch
  case resStatusCode => exact hbase.resStatusCode (by rw [hs]; rfl) ch
  case resStatusStart => exact hbase.resStatusStart ch
  case resStatus => exact hbase.resStatus hs ch
  case startReq => exact hbase.startReq hs ch
  case reqMethod => exact hbase.reqMethod hs (by simpa [Fits, hs] using h.fits) ch
  case url s =>
    refine hbase.reqUrl hs ?_ ch
    rintro rfl
    simpa [Fits, hs] using h.fits
  case reqHttpStart => exact hbase.reqHttpStart hs ch
  case reqFirstHttpMajor => exact hbase.firstHttpMajor ch _ rfl
  case reqHttpMajor => exact hbase.httpMajorState (by rw [hs]; rfl) ch rfl
  case reqFirstHttpMinor => exact hbase.firstHttpMinor ch rfl
  case reqHttpMinor => exact hbase.reqHttpMinor (by rw [hs]; rfl) ch
  case reqLineAlmostDone => exact hbase.reqLineAlmostDone ch
  case headerFieldStart => exact hbase.headerFieldStart ch
  case headerValueDiscardWs => exact hbase.headerValueDiscardWs hs ch
  case headerValueDiscardLws => exact hbase.headerValueDiscardLws ch
  case headerValueStart => exact hbase.headerValueStart ch
  case headerValueLws => exact hbase.headerValueLws ch
  case headerAlmostDone => exact hbase.headerAlmostDone ch
  case chunkSizeStart => exact h.chunkSizeStart hs ch
  case chunkSize => exact h.chunkSize hs ch
  case chunkParameters => exact h.chunkParameters hs ch
  case chunkSizeAlmostDone => exact h.chunkSizeAlmostDone hs ch
  case headersAlmostDone => exact hbase.headersAlmostDone ch
  case headersDone => exact hbase.headersDone ch
  case chunkDataAlmostDone => exact h.chunkDataAlmostDone hs ch
  case chunkDataDone => exact h.chunkDataDone hs ch
  case messageDone => exact hbase.messageDone
  case headerField | headerValue | bodyIdentity | bodyIdentityEof | chunkData =>
    simp [hs] at hbytes
  all_goals exact hbase.expect ch _ rfl

theorem bodyIdentity_lt {left : ℕ} (hleft : 0 < left) : (parser.bodyIdentity left).1 < left := by
  unfold HttpFields.bodyIdentity
  dsimp only
  split_ifs <;> dsimp only <;> omega

theorem chunkData_lt {left : ℕ} (hleft : 0 < left) : (parser.chunkData left).1 < left := by
  unfold HttpFields.chunkData
  dsimp only
  split_ifs <;> dsimp only <;> omega

theorem Ok.switch (h : parser.Ok) (ch : UInt8) (rest : Bytes) :
    SwitchSound (rest.length + 1) parser.state.openKind parser.state.knownCount
      (parser.switch ch rest).1 (parser.switch ch rest).2 := by
  unfold HttpFields.switch
  split
  case h_1 hs =>
    rw [hs]
    exact h.headerField hs (ch :: rest)
  case h_2 hs =>
    rw [hs]
    exact h.headerValue hs (List.cons_ne_nil ch rest)
  case h_3 hs =>
    rw [hs]
    exact .inl ⟨bodyIdentity_lt rest.length.succ_pos, h.bodyIdentity hs _⟩
  case h_4 hs =>
    rw [hs]
    refine .inl ⟨?_, h, ?_, .inl ?_⟩
    · exact rest.length.lt_succ_self
    · simp [hs]
    · simp [hs, ParserState.openKind]
  case h_5 hs =>
    rw [hs]
    exact .inl ⟨chunkData_lt rest.length.succ_pos, h.chunkData hs _⟩
  case h_6 hfield hvalue hidentity heof hchunk =>
    exact .inl ⟨rest.length.succ_pos, h.react ch ⟨hfield, hvalue, hidentity, heof, hchunk⟩⟩

end HttpFields

end Brynet.Http
