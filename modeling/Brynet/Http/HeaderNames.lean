import Brynet.Http.HeaderCase
import Brynet.Http.ParserCore

/-!
# The header names of the bundled parser

The bundled parser folds the case of header names: `parserCore` has the property
`FoldsNames` in all of its states, reachable or not.

In four states the parser may read a byte of a name: within a name, at the start of a line,
and behind a line that may be continued or whose value was empty (`namesFrom`).  If the
byte is in the table `tokens`, the reaction depends on its entry only (`byteReact_congr`)
and sets the mark of a name, so the end of the buffer reports the byte (`step_of_next`,
`step_of_mark`, `step_of_empty`).  All other reactions are `Unnamed`: they neither set that
mark nor report a name; but for the end of a name, whose last fragment is empty in a buffer
of its own.
-/

namespace Brynet.Http

open Text

/-- The states in which a byte of a name may be read. -/
def ParserState.namesFrom : ParserState → Bool
  | .headerField | .headerFieldStart | .headerValueLws | .headerValueDiscardLws => true
  | _ => false

theorem ParserState.firstMark_ne {s : ParserState} (h : s ≠ .headerField) :
    s.firstMark ≠ some .headerField := by
  unfold firstMark
  split <;> simp_all

/-- The reaction neither sets the mark of a header name nor reports one. -/
@[simp] def Reaction.Unnamed : Reaction → Prop
  | .next _ | .error _ _ | .leave _ | .abort => True
  | .back rest | .resetCount rest | .assertCount rest | .count _ _ rest => rest.Unnamed
  | .notify _ _ _ rest => rest.Unnamed
  | .mark kind rest | .data kind _ _ _ rest => kind ≠ .headerField ∧ rest.Unnamed
  | .headersComplete _ rest skip => rest.Unnamed ∧ skip.Unnamed

@[simp] theorem Reaction.unnamed_ite {c : Prop} [Decidable c] {first second : Reaction} :
    (if c then first else second).Unnamed ↔ (c → first.Unnamed) ∧ (¬c → second.Unnamed) := by
  split <;> simp_all

namespace HttpFields

variable {parser : HttpFields} {ch : UInt8}

/-! ## Reactions without a name -/

@[simp] theorem unnamed_headersDone : (parser.headersDone ch).Unnamed := by
  simp [headersDone, completeMessage]

@[simp] theorem unnamed_headersAlmostDone : (parser.headersAlmostDone ch).Unnamed := by
  simp [headersAlmostDone, messageDone]

@[simp] theorem unnamed_headerValueStart : (parser.headerValueStart ch).Unnamed := by
  refine ⟨nofun, ?_⟩
  dsimp only
  split <;> simp

@[simp] theorem unnamed_startReq : (parser.startReq ch).Unnamed := by
  simp only [startReq, Reaction.unnamed_ite]
  refine ⟨fun _ => trivial, fun _ => ⟨fun _ => trivial, fun _ => ?_⟩⟩
  split <;> simp

@[simp] theorem unnamed_reqMethod : (parser.reqMethod ch).Unnamed := by
  simp only [reqMethod, Reaction.unnamed_ite]
  refine ⟨fun _ => trivial, fun _ => ⟨fun _ => trivial, fun _ => ⟨fun _ => trivial,
    fun _ => ⟨fun _ => trivial, fun _ => ?_⟩⟩⟩⟩
  split <;> simp

@[simp] theorem unnamed_reqUrl (s : UrlState) : (parser.reqUrl s ch).Unnamed := by
  cases s <;> simp [reqUrl, deadState, spacesBeforeUrl, earlyUrl, lateUrl, urlChar, report]

@[simp] theorem unnamed_headerValueByte : (parser.headerValueByte ch).Unnamed := by
  simp only [headerValueByte, Reaction.unnamed_ite]
  refine ⟨fun _ => ?_, fun _ => ⟨fun _ => trivial, fun _ => ?_⟩⟩
  · simp [headerValueEnd, headerAlmostDone, expect]
  · split <;> simp

@[simp] theorem unnamed_bodyIdentity (left : ℕ) : (parser.bodyIdentity left).2.Unnamed := by
  unfold bodyIdentity
  dsimp only
  split
  · trivial
  · simp [bodyRead, messageDone]

@[simp] theorem unnamed_chunkData (left : ℕ) : (parser.chunkData left).2.Unnamed := by
  unfold chunkData
  dsimp only
  split <;> trivial

/-- A line does not start with a byte that is not in the table. -/
theorem unnamed_headerFieldStart (htoken : token ch = 0) :
    (parser.headerFieldStart ch).Unnamed := by
  simp [headerFieldStart, htoken]

/-- Only in four states a name is read, and only from bytes in the table. -/
theorem unnamed_byteReact (hfield : parser.state ≠ .headerField)
    (hname : parser.state.namesFrom → token ch = 0) : (parser.byteReact ch).Unnamed := by
  cases hs : parser.state <;> rw [hs] at hfield hname <;> simp only [byteReact, react, hs]
  case headerField => exact absurd rfl hfield
  case headerFieldStart => exact unnamed_headerFieldStart (hname rfl)
  case headerValueLws => simp [headerValueLws, unnamed_headerFieldStart (hname rfl)]
  case headerValueDiscardLws => simp [headerValueDiscardLws, unnamed_headerFieldStart (hname rfl)]
  all_goals simp [deadState, startReqOrRes, resOrRespH, startRes, expect, firstHttpMajor,
    httpMajorState, firstHttpMinor, resHttpMinor, httpMinorDigit, resFirstStatusCode, resStatusCode,
    resStatusStart, resStatus, report, reqHttpStart, reqHttpMinor, reqLineAlmostDone,
    headerValueDiscardWs, headerAlmostDone, chunkSizeStart, chunkSize, chunkParameters,
    chunkSizeAlmostDone, chunkDataAlmostDone, chunkDataDone, messageDone]

/-! ## Bytes of a name -/

/-- The entries of both cases of a letter are the same. -/
theorem token_of_lowerCase {b b' : UInt8} (h : lowerCase [b'] = lowerCase [b]) :
    token b' = token b := by
  have hlower : ∀ c : UInt8, token ((lowerCase [c]).headD 0) = token c := by
    intro c
    -- The table has the small letters at the places of the capital ones.
    have htable : ∀ i < 26, tokens.getD (65 + i + 32) 0 = tokens.getD (65 + i) 0 := by decide
    by_cases hupper : 65 ≤ c.toNat ∧ c.toNat ≤ 90
    · have hentry := htable (c.toNat - 65) (by omega)
      rw [Nat.add_sub_cancel' hupper.1] at hentry
      simpa [lowerCase, hupper, token, toNat_add_of_upper hupper] using hentry
    · simp [lowerCase, hupper]
  rw [← hlower b', h, hlower b]

/-- A byte in the table is none of the separators. -/
theorem separators_of_token (htoken : token ch ≠ 0) :
    ch ≠ '\r'.toUInt8 ∧ ch ≠ '\n'.toUInt8 ∧ ch ≠ ' '.toUInt8 ∧ ch ≠ '\t'.toUInt8 := by
  refine ⟨?_, ?_, ?_, ?_⟩ <;> rintro rfl <;> exact htoken rfl

/-- The parser behind the first byte of a name, whose entry is `entry`. -/
def startField (parser : HttpFields) (entry : UInt8) : HttpFields :=
  { parser with index := 0, state := .headerField, headerState := firstHeaderState entry }

theorem headerFieldStart_of_token (htoken : token ch ≠ 0) :
    parser.headerFieldStart ch =
      .mark .headerField (.next (parser.startField (token ch))) := by
  obtain ⟨hcr, hlf, -, -⟩ := separators_of_token htoken
  rw [headerFieldStart, if_neg hcr, if_neg hlf, if_neg htoken]
  rfl

theorem isOneOf_of_token (htoken : token ch ≠ 0) : isOneOf [' ', '\t'] ch = false := by
  obtain ⟨-, -, hspace, htab⟩ := separators_of_token htoken
  simp [isOneOf, hspace.symm, htab.symm]

/-- In a name, a byte of the table counts by its entry only. -/
theorem fieldChar_congr {ch' : UInt8} (htoken : token ch ≠ 0) (hcase : token ch' = token ch) :
    parser.fieldChar ch' = parser.fieldChar ch := by
  have hspace := (separators_of_token htoken).2.2.1
  have hspace' := (separators_of_token (hcase ▸ htoken)).2.2.1
  simp only [fieldChar, hcase, if_pos hspace, if_pos hspace']

end HttpFields

/-! ## The log of a byte -/

theorem nameless_nil : Nameless [] := fun _ hmem => absurd hmem List.not_mem_nil

namespace Frame

variable {frame : Frame (List HttpEvent)} {data : Bytes} {ch : UInt8}

/-- No mark of a name is set, and the log has no byte of one. -/
def Unnamed : Outcome (List HttpEvent) → Prop
  | .next frame => frame.marks .headerField = none ∧ Nameless frame.user
  | .ret _ _ log _ => Nameless log
  | .abort => True

theorem nameless_concat {events : List HttpEvent} {event : HttpEvent} (h : Nameless events)
    (hevent : ∀ data, event ≠ .headerField data) : Nameless (events ++ [event]) := by
  intro data hmem
  rcases List.mem_append.mp hmem with hmem | hmem
  · exact h data hmem
  · exact absurd (List.mem_singleton.mp hmem).symm (hevent data)

/-- **A reaction without a name logs no byte of one.** -/
theorem run_unnamed {reaction : Reaction} (h : reaction.Unnamed)
    (hmark : frame.marks .headerField = none) (hlog : Nameless frame.user) :
    Unnamed (frame.run logged data reaction.free) := by
  induction reaction generalizing frame with
  | next fields => exact ⟨hmark, hlog⟩
  | error errno fields | leave fields => exact hlog
  | abort => trivial
  | back rest ih | resetCount rest ih => exact ih h hmark hlog
  | assertCount rest ih | count _ _ rest ih => exact ih h hmark hlog
  | mark kind rest ih =>
      exact ih h.2 ((Function.update_of_ne (Ne.symm h.1) _ _).trans hmark) hlog
  | data kind fields extra advance rest ih =>
      rw [Reaction.free]
      cases hkind : frame.marks kind with
      | none =>
          rw [run_data_of_none hkind]
          exact ih h.2 hmark hlog
      | some i =>
          by_cases hin : frame.p < i ∨ data.length < frame.p + extra
          · rw [run_data_of_outside hkind hin]
            trivial
          · rw [run_data_of_ok hkind hin rfl]
            refine ih h.2 ((Function.update_of_ne (Ne.symm h.1) _ _).trans hmark) ?_
            refine nameless_concat hlog fun data heq => h.1 ?_
            cases kind <;> first | rfl | cases heq
  | notify notice fields advance rest ih =>
      rw [Reaction.free, run_notify_of_ok rfl]
      refine ih h hmark (nameless_concat hlog fun data heq => ?_)
      cases notice <;> cases heq
  | headersComplete fields rest skip ih _ =>
      rw [Reaction.free, run_headersComplete_of_ok rfl]
      exact ih h.1 hmark (nameless_concat hlog fun data heq => by cases heq)

/-- Nor does the end of the buffer. -/
theorem flush_unnamed {outcome : Outcome (List HttpEvent)} (h : Unnamed outcome) :
    Unnamed (outcome.flush logged ch) := by
  cases outcome with
  | next frame =>
      obtain ⟨hmark, hlog⟩ := h
      have hname : ({ frame with p := 1 } : Frame (List HttpEvent)).marks .headerField = none := hmark
      show Unnamed ({ frame with p := 1 }.run logged [ch]
        (.data .headerField frame.fields 0 0 (flush frame.fields [.headerValue, .url, .body, .status])))
      rw [run_data_of_none hname]
      exact @run_unnamed { frame with p := 1 } [ch] (flush frame.fields [.headerValue, .url, .body,
        .status]) (by simp [flush]) hmark hlog
  | ret fields nread log parsed => exact h
  | abort => trivial

@[simp] theorem marks_mark (kind k : DataKind) : (frame.mark kind).marks k =
    if k = kind then some ((frame.marks kind).getD frame.p) else frame.marks k :=
  Function.update_apply _ _ _ _

@[simp] theorem marks_reported (kind k : DataKind) (fields : HttpFields) (extra i : ℕ) :
    (frame.reported logged data kind fields extra i).marks k =
      if k = kind then none else frame.marks k :=
  Function.update_apply _ _ _ _

/-- Behind the first byte of a name, or a further one, the end of the buffer reports it. -/
theorem flush_name (hmark : frame.marks .headerField = some 0)
    (honly : ∀ kind, kind ≠ .headerField → frame.marks kind = none) :
    ∃ frame', (Outcome.next frame).flush logged ch = .next frame' ∧ frame'.fields = frame.fields ∧
      frame'.user = frame.user ++ [.headerField [ch]] :=
  ⟨_, @run_flush_of_mark _ logged [ch] { frame with p := 1 } (fun _ _ _ _ => rfl) frame.fields kinds
    .headerField 0 List.mem_cons_self hmark honly (Nat.zero_le 1) le_rfl, rfl, rfl⟩

end Frame

/-! ## The core -/

section Core

variable {type : ParserType} {parser : Parser} {ch : UInt8}

theorem nameless_step (h : Frame.Unnamed (parser.byteStep logged [] ch)) :
    Nameless ((parserCore type).step parser ch).2.1 := by
  revert h
  cases hstep : parser.byteStep logged [] ch with
  | next frame =>
      intro h
      rw [HTTPParser.step_next hstep]
      exact h.2
  | ret fields nread log parsed =>
      intro h
      rw [HTTPParser.step_ret hstep]
      exact h
  | abort =>
      intro _
      simp [parserCore, hstep, Nameless]

/-- A reaction that sets the mark of a name, and the step for its byte. -/
theorem step_of_flush {frame : Frame (List HttpEvent)}
    (hrun : ((Parser.mk parser.toHttpFields 0).frame []).run logged [ch]
      (parser.byteReact ch).free = .next frame)
    (hmark : frame.marks .headerField = some 0)
    (honly : ∀ kind, kind ≠ .headerField → frame.marks kind = none) :
    (parserCore type).step parser ch =
      (⟨frame.fields, parser.nread⟩, frame.user ++ [.headerField [ch]], .next) := by
  obtain ⟨frame', hflush, hfields, huser⟩ := @Frame.flush_name frame ch hmark honly
  have hstep : parser.byteStep logged [] ch = .next frame' := by
    rw [HttpFields.byteStep, hrun, hflush]
  rw [HTTPParser.step_next hstep, hfields, huser]

/-- The marks at the start of a buffer. -/
@[simp] theorem marks_frame {fields : HttpFields} (kind : DataKind) :
    ((Parser.mk fields 0).frame ([] : List HttpEvent)).marks kind =
      if fields.state.firstMark = some kind then some 0 else none := rfl

/-- The end of a name: its last fragment is empty, or the line is not accepted. -/
theorem nameless_fieldEnd (hs : parser.state = .headerField) (htoken : token ch = 0) :
    Nameless ((parserCore type).step parser ch).2.1 := by
  refine nameless_step (Frame.flush_unnamed ?_)
  simp only [HttpFields.byteReact, hs, HttpFields.headerFieldByte, if_pos htoken,
    HttpFields.headerFieldEnd, HttpFields.report]
  split
  · have hmark : ((Parser.mk parser.toHttpFields 0).frame ([] : List HttpEvent)).marks
        .headerField = some 0 := by
      rw [marks_frame, hs]
      rfl
    rw [Reaction.free, Frame.run_data_of_ok hmark (by simp [Parser.frame]) rfl]
    refine ⟨by simp, fun data hmem => ?_⟩
    cases List.mem_singleton.mp hmem
    rfl
  · exact nameless_nil

/-- A further byte of a name. -/
theorem step_within (hs : parser.state = .headerField) (htoken : token ch ≠ 0) {fields : HttpFields}
    (hchar : parser.fieldChar ch = some fields) :
    (parserCore type).step parser ch = (⟨fields, parser.nread⟩, [.headerField [ch]], .next) := by
  have hreact : parser.byteReact ch = .next fields := by
    simp only [HttpFields.byteReact, hs, HttpFields.headerFieldByte, if_neg htoken, hchar]
  refine step_of_flush (by rw [hreact]; rfl) ?_ fun kind hkind => ?_
  · simp [hs, ParserState.firstMark]
  · simp [hs, ParserState.firstMark, hkind.symm]

/-- The first byte of a name. -/
theorem step_first (hs : parser.state.firstMark = none) {fields : HttpFields}
    (hreact : parser.byteReact ch = .mark .headerField (.next fields)) :
    (parserCore type).step parser ch = (⟨fields, parser.nread⟩, [.headerField [ch]], .next) := by
  refine step_of_flush (by rw [hreact]; rfl) ?_ fun kind hkind => ?_
  · simp [hs, Parser.frame]
  · simp [hs, hkind]

/-- The first byte of a name behind a header whose value was empty. -/
theorem step_behind (hs : parser.state.firstMark = none) {fields old : HttpFields}
    (hreact : parser.byteReact ch =
      .mark .headerValue (.data .headerValue old 0 0 (.mark .headerField (.next fields)))) :
    (parserCore type).step parser ch =
      (⟨fields, parser.nread⟩, [.headerValue [], .headerField [ch]], .next) := by
  have hvalue : (((Parser.mk parser.toHttpFields 0).frame ([] : List HttpEvent)).mark
      .headerValue).marks .headerValue = some 0 := by simp [hs, Parser.frame]
  have hrun : ((Parser.mk parser.toHttpFields 0).frame []).run logged [ch]
      (parser.byteReact ch).free = ((((Parser.mk parser.toHttpFields 0).frame []).mark
        .headerValue).reported logged [ch] .headerValue old 0 0).run logged [ch]
          (.mark .headerField (.next fields)) := by
    rw [hreact]
    refine @Frame.run_data_of_ok _ logged [ch] _ _ old 0 0 0 _ hvalue ?_ rfl
    simp [Parser.frame, Frame.mark]
  refine step_of_flush hrun ?_ fun kind hkind => ?_
  · simp [hs, Parser.frame, Frame.mark, Frame.reported]
  · by_cases hvalue : kind = .headerValue <;> simp [hs, hkind, hvalue]

/-- The step for a byte of the table, where a name may be read. -/
theorem step_of_token (hs : parser.state.namesFrom) (htoken : token ch ≠ 0) :
    Nameless ((parserCore type).step parser ch).2.1 ∨
      ∃ before fields, Nameless before ∧ ∀ ch', token ch' = token ch →
        (parserCore type).step parser ch' =
          (⟨fields, parser.nread⟩, before ++ [.headerField [ch']], .next) := by
  have hne {ch' : UInt8} (hcase : token ch' = token ch) : token ch' ≠ 0 := hcase ▸ htoken
  cases hstate : parser.state <;> rw [hstate] at hs <;> try exact absurd hs Bool.false_ne_true
  case headerField =>
    cases hchar : parser.fieldChar ch with
    | none =>
        refine .inl (nameless_step (Frame.flush_unnamed ?_))
        simp [HttpFields.byteReact, hstate, HttpFields.headerFieldByte, htoken, hchar,
          Reaction.free, Frame.run, Frame.Unnamed]
    | some fields =>
        refine .inr ⟨[], fields, nameless_nil, fun ch' hcase => step_within hstate (hne hcase) ?_⟩
        rw [HttpFields.fieldChar_congr htoken hcase, hchar]
  case headerFieldStart =>
    refine .inr ⟨[], parser.startField (token ch), nameless_nil, fun ch' hcase =>
      step_first (by rw [hstate]; rfl) ?_⟩
    simp only [HttpFields.byteReact, HttpFields.react, hstate]
    rw [HttpFields.headerFieldStart_of_token (hne hcase), hcase]
  case headerValueLws =>
    refine .inr ⟨[], (parser.finishHeader.goto .headerFieldStart).startField (token ch),
      nameless_nil, fun ch' hcase => step_first (by rw [hstate]; rfl) ?_⟩
    simp only [HttpFields.byteReact, HttpFields.react, hstate, HttpFields.headerValueLws,
      HttpFields.isOneOf_of_token (hne hcase), Bool.false_eq_true, if_false]
    rw [HttpFields.headerFieldStart_of_token (hne hcase), hcase]
  case headerValueDiscardLws =>
    refine .inr ⟨[.headerValue []],
      (parser.finishHeader.goto .headerFieldStart).startField (token ch), by simp [Nameless],
      fun ch' hcase => @step_behind type parser ch' (by rw [hstate]; rfl) _
        (parser.finishHeader.goto .headerFieldStart) ?_⟩
    simp only [HttpFields.byteReact, HttpFields.react, hstate, HttpFields.headerValueDiscardLws,
      HttpFields.isOneOf_of_token (hne hcase), Bool.false_eq_true, if_false]
    rw [HttpFields.headerFieldStart_of_token (hne hcase), hcase]

/-- **The bundled parser folds the case of header names.** -/
theorem foldsNames_parserCore (type : ParserType) : (parserCore type).FoldsNames := by
  intro parser ch
  change Parser at parser
  by_cases hname : parser.state.namesFrom = true ∧ token ch ≠ 0
  · obtain hquiet | ⟨before, fields, hbefore, hstep⟩ := @step_of_token type parser ch hname.1 hname.2
    · exact .inl hquiet
    · refine .inr ⟨before, hbefore, fun ch' hcase => ?_⟩
      rw [hstep ch' (HttpFields.token_of_lowerCase hcase), hstep ch rfl]
  · have hentry : parser.state.namesFrom → token ch = 0 := fun hs =>
      not_not.mp fun htoken => hname ⟨hs, htoken⟩
    by_cases hfield : parser.state = .headerField
    · exact .inl (nameless_fieldEnd hfield (hentry (by rw [hfield]; rfl)))
    · have hmark : ((Parser.mk parser.toHttpFields 0).frame ([] : List HttpEvent)).marks
          .headerField = none := if_neg (ParserState.firstMark_ne hfield)
      exact .inl (nameless_step (Frame.flush_unnamed (Frame.run_unnamed
        (HttpFields.unnamed_byteReact hfield hentry) hmark nameless_nil)))

end Core

end Brynet.Http
