import Brynet.Http.ParserSafety

/-!
# Byte by byte

The loops over a header and the jumps over a body are shortcuts: `byteReact` is the switch
that reads one byte in every state, and `byteLoop` the loop that takes one turn for each
byte.  Both ways lead to the same callbacks and the same parser, unless the limit on the
size of a header stops the parser.  The limit itself is left out of `byteLoop`: it counts
a byte once, while `http_parser_execute` counts one more byte for every buffer that ends
within a field or a value.

`byteLoop_run` runs a reaction in both loops.  Then the cases with a shortcut are compared,
each in a theorem of its own that ends in `_follows`: the field, the value and the three
bodies.  `dispatch_follows` collects them, and `Valid.loop_follows` is the induction on the
turns.
-/

namespace Brynet.Http

/-- The reaction without the counting of header bytes. -/
def Reaction.free : Reaction → Reaction
  | .next parser => .next parser
  | .error errno parser => .error errno parser
  | .leave parser => .leave parser
  | .abort => .abort
  | .back rest => .back rest.free
  | .mark kind rest => .mark kind rest.free
  | .resetCount rest => rest.free
  | .assertCount rest => rest.free
  | .count _ _ rest => rest.free
  | .data kind parser extra advance rest => .data kind parser extra advance rest.free
  | .notify notice parser advance rest => .notify notice parser advance rest.free
  | .headersComplete parser rest skip => .headersComplete parser rest.free skip.free

namespace HttpFields

/-- `s_header_field` for one byte. -/
def headerFieldByte (parser : HttpFields) (ch : UInt8) : Reaction :=
  if token ch = 0 then parser.headerFieldEnd ch
  else
    match parser.fieldChar ch with
    | none => .abort
    | some parser => .next parser

/-- `s_header_value` for one byte. -/
def headerValueByte (parser : HttpFields) (ch : UInt8) : Reaction :=
  if isOneOf ['\r', '\n'] ch then parser.headerValueEnd parser.headerState 0 ch
  else if parser.headerState = .general then .next parser
  else
    match parser.valueChar ch with
    | .next parser => .next parser
    | .invalid parser => .error .invalidContentLength parser
    | .abort => .abort

/-- The switch for one byte. -/
def byteReact (parser : HttpFields) (ch : UInt8) : Reaction :=
  match parser.state with
  | .headerField => parser.headerFieldByte ch
  | .headerValue => parser.headerValueByte ch
  | .bodyIdentity => .mark .body (parser.bodyIdentity 1).2
  | .bodyIdentityEof => .mark .body (.next parser)
  | .chunkData => .mark .body (parser.chunkData 1).2
  | _ => parser.react ch

end HttpFields

variable {σ : Type*}

namespace Outcome

/-- The outcome without the count of header bytes. -/
def forget : Outcome σ → Outcome σ
  | .next frame => .next { frame with nread := 0 }
  | .ret fields _ user parsed => .ret fields 0 user parsed
  | .abort => .abort

/-- The limit on the size of a header has stopped the parser. -/
def Overflows : Outcome σ → Prop
  | .ret fields _ _ _ => fields.httpErrno = .headerOverflow
  | _ => False

end Outcome

namespace Frame

variable {settings : Settings σ} {data : Bytes} {frame : Frame σ}

/-- One turn of the loop for each of the bytes from `p` on. -/
def byteLoop (settings : Settings σ) (data : Bytes) (frame : Frame σ) : Bytes → Outcome σ
  | [] => .next frame
  | ch :: rest =>
      match frame.run settings data (frame.fields.byteReact ch).free with
      | .next frame => { frame with p := frame.p + 1 }.byteLoop settings data rest
      | outcome => outcome

/-- The frame without the count of header bytes, and with other fields. -/
def free (frame : Frame σ) (fields : HttpFields) : Frame σ :=
  { frame with nread := 0, fields := fields }

/-! ## Reactions by the replies of the callbacks -/

section Callbacks

variable {kind : DataKind} {notice : Notice} {fields : HttpFields} {extra advance i : ℕ}
  {rest skip : Reaction} {errno : HttpErrno}

/-- The frame after a data callback. -/
def reported (settings : Settings σ) (data : Bytes) (frame : Frame σ) (kind : DataKind)
    (fields : HttpFields) (extra i : ℕ) : Frame σ :=
  { frame with
    user := (frame.callbackData settings data kind fields extra i).1
    marks := Function.update frame.marks kind none }

theorem run_data_of_none (hmark : frame.marks kind = none) :
    frame.run settings data (.data kind fields extra advance rest) =
      frame.run settings data rest := by
  simp only [run, hmark]

theorem run_data_of_outside (hmark : frame.marks kind = some i)
    (hout : frame.p < i ∨ data.length < frame.p + extra) :
    frame.run settings data (.data kind fields extra advance rest) = .abort := by
  simp only [run, hmark, if_pos hout]

theorem run_data_of_fail (hmark : frame.marks kind = some i)
    (hin : ¬(frame.p < i ∨ data.length < frame.p + extra))
    (hreply : (frame.callbackData settings data kind fields extra i).2.errno (.cbData kind) =
      some errno) :
    frame.run settings data (.data kind fields extra advance rest) =
      { frame with user := (frame.callbackData settings data kind fields extra i).1 }.fail
        errno fields advance := by
  simp only [run, hmark, if_neg hin, hreply]

theorem run_data_of_ok (hmark : frame.marks kind = some i)
    (hin : ¬(frame.p < i ∨ data.length < frame.p + extra))
    (hreply : (frame.callbackData settings data kind fields extra i).2.errno (.cbData kind) = none) :
    frame.run settings data (.data kind fields extra advance rest) =
      (frame.reported settings data kind fields extra i).run settings data rest := by
  simp only [run, hmark, if_neg hin, hreply, reported]

/-- The frame after a callback without data. -/
def noticed (settings : Settings σ) (frame : Frame σ) (event : HttpEvent) : Frame σ :=
  { frame with user := (settings event frame.user).1 }

theorem run_notify_of_fail
    (hreply : (settings notice.event frame.user).2.errno (.cbNotice notice) = some errno) :
    frame.run settings data (.notify notice fields advance rest) =
      (frame.noticed settings notice.event).fail errno fields advance := by
  simp only [run, hreply, noticed]

theorem run_notify_of_ok
    (hreply : (settings notice.event frame.user).2.errno (.cbNotice notice) = none) :
    frame.run settings data (.notify notice fields advance rest) =
      (frame.noticed settings notice.event).run settings data rest := by
  simp only [run, hreply, noticed]

theorem run_headersComplete_of_ok (hreply : (settings .headersComplete frame.user).2 = .ok) :
    frame.run settings data (.headersComplete fields rest skip) =
      (frame.noticed settings .headersComplete).run settings data rest := by
  simp only [run, hreply, noticed]

theorem run_headersComplete_of_skip (hreply : (settings .headersComplete frame.user).2 = .skip) :
    frame.run settings data (.headersComplete fields rest skip) =
      (frame.noticed settings .headersComplete).run settings data skip := by
  simp only [run, hreply, noticed]

theorem run_headersComplete_of_fail (hreply : (settings .headersComplete frame.user).2 = .fail) :
    frame.run settings data (.headersComplete fields rest skip) =
      (frame.noticed settings .headersComplete).fail .cbHeadersComplete fields 0 := by
  simp only [run, hreply, noticed]

theorem run_headersComplete_of_pause (hreply : (settings .headersComplete frame.user).2 = .pause) :
    frame.run settings data (.headersComplete fields rest skip) =
      (frame.noticed settings .headersComplete).fail .paused fields 0 := by
  simp only [run, hreply, noticed]

end Callbacks

/-! ## One turn -/

/-- Without the count, a reaction does the same unless it exceeds the limit or fails the
assertion about the count.  It does not look at the fields of the frame. -/
theorem run_free (old : HttpFields) (reaction : Reaction) :
    (frame.run settings data reaction).Overflows ∨ frame.run settings data reaction = .abort ∨
      (frame.run settings data reaction).forget =
        (frame.free old).run settings data reaction.free := by
  induction reaction generalizing frame with
  | next _ | error _ _ | leave _ | abort => exact .inr (.inr rfl)
  | back rest ih => exact @ih { frame with p := frame.p - 1 }
  | mark kind rest ih => exact @ih (frame.mark kind)
  | resetCount rest ih => exact @ih { frame with nread := 0 }
  | assertCount rest ih =>
      simp only [run]
      split_ifs
      · exact @ih frame
      · exact .inr (.inl rfl)
  -- The only place where the two runs part: the limit.
  | count bytes fields rest ih =>
      simp only [run]
      split_ifs
      · exact .inl rfl
      · exact @ih (frame.counted bytes)
  -- The marks and the user are the same, so the callbacks are.
  | data kind fields extra advance rest ih =>
      rw [Reaction.free]
      cases hmark : frame.marks kind with
      | none =>
          have hfree : (frame.free old).marks kind = none := hmark
          rw [run_data_of_none hmark, run_data_of_none hfree]
          exact @ih frame
      | some i =>
          have hfree : (frame.free old).marks kind = some i := hmark
          by_cases hin : frame.p < i ∨ data.length < frame.p + extra
          · exact .inr (.inl (run_data_of_outside hmark hin))
          · cases hreply : (frame.callbackData settings data kind fields extra i).2.errno
              (.cbData kind) with
            | some errno =>
                rw [run_data_of_fail hmark hin hreply]
                exact .inr (.inr (run_data_of_fail hfree hin hreply).symm)
            | none =>
                rw [run_data_of_ok hmark hin hreply, run_data_of_ok hfree hin hreply]
                exact @ih (frame.reported settings data kind fields extra i)
  | notify notice fields advance rest ih =>
      rw [Reaction.free]
      cases hreply : (settings notice.event frame.user).2.errno (.cbNotice notice) with
      | some errno =>
          rw [run_notify_of_fail hreply]
          exact .inr (.inr (@run_notify_of_fail _ _ _ (frame.free old) _ _ _ _ _ hreply).symm)
      | none =>
          rw [run_notify_of_ok hreply, @run_notify_of_ok _ _ _ (frame.free old) _ _ _ _ hreply]
          exact @ih (frame.noticed settings notice.event)
  | headersComplete fields rest skip ih ihskip =>
      rw [Reaction.free]
      cases hreply : (settings .headersComplete frame.user).2 with
      | ok =>
          rw [run_headersComplete_of_ok hreply,
            @run_headersComplete_of_ok _ _ _ (frame.free old) _ _ _ hreply]
          exact @ih (frame.noticed settings .headersComplete)
      | skip =>
          rw [run_headersComplete_of_skip hreply,
            @run_headersComplete_of_skip _ _ _ (frame.free old) _ _ _ hreply]
          exact @ihskip (frame.noticed settings .headersComplete)
      | fail =>
          rw [run_headersComplete_of_fail hreply]
          exact .inr (.inr (@run_headersComplete_of_fail _ _ _ (frame.free old) _ _ _ hreply).symm)
      | pause =>
          rw [run_headersComplete_of_pause hreply]
          exact .inr (.inr (@run_headersComplete_of_pause _ _ _ (frame.free old) _ _ _ hreply).symm)

/-- A sound reaction stays at its byte. -/
theorem p_of_run {reaction : Reaction} {kind : Option DataKind} {count : Option ℕ} {frame' : Frame σ}
    (hsound : reaction.Sound kind count) (h : frame.run settings data reaction = .next frame') :
    frame'.p = frame.p := by
  induction reaction generalizing frame kind count with
  | next fields =>
      cases h
      rfl
  | error _ _ | leave _ | abort => cases h
  | back rest _ => exact hsound.elim
  | mark new rest ih => exact @ih (frame.mark new) _ _ hsound.2 h
  | resetCount rest ih => exact @ih { frame with nread := 0 } _ _ hsound h
  | assertCount rest ih =>
      simp only [run] at h
      split_ifs at h
      exact ih hsound.2 h
  | count bytes fields rest ih =>
      simp only [run] at h
      split_ifs at h
      · cases h
      · exact @ih (frame.counted bytes) _ _ hsound h
  | data old fields extra advance rest ih =>
      cases hmark : frame.marks old with
      | none =>
          rw [run_data_of_none hmark] at h
          exact ih hsound.2.2.2 h
      | some i =>
          by_cases hin : frame.p < i ∨ data.length < frame.p + extra
          · rw [run_data_of_outside hmark hin] at h
            cases h
          · cases hreply : (frame.callbackData settings data old fields extra i).2.errno
              (.cbData old) with
            | some errno =>
                rw [run_data_of_fail hmark hin hreply] at h
                cases h
            | none =>
                rw [run_data_of_ok hmark hin hreply] at h
                exact @ih (frame.reported settings data old fields extra i) _ _ hsound.2.2.2 h
  | notify notice fields advance rest ih =>
      cases hreply : (settings notice.event frame.user).2.errno (.cbNotice notice) with
      | some errno =>
          rw [run_notify_of_fail hreply] at h
          cases h
      | none =>
          rw [run_notify_of_ok hreply] at h
          exact @ih (frame.noticed settings notice.event) _ _ hsound.2.2.2 h
  | headersComplete fields rest skip ih ihskip =>
      cases hreply : (settings .headersComplete frame.user).2 with
      | ok =>
          rw [run_headersComplete_of_ok hreply] at h
          exact @ih (frame.noticed settings .headersComplete) _ _ hsound.2.2.1.1 h
      | skip =>
          rw [run_headersComplete_of_skip hreply] at h
          exact @ihskip (frame.noticed settings .headersComplete) _ _ hsound.2.2.1.2 h
      | fail =>
          rw [run_headersComplete_of_fail hreply] at h
          cases h
      | pause =>
          rw [run_headersComplete_of_pause hreply] at h
          cases h

/-- What the byte loop does after an outcome of the loop. -/
def resume (settings : Settings σ) (data : Bytes) : Outcome σ → Outcome σ
  | .next frame =>
      { frame.free frame.fields with p := frame.p + 1 }.byteLoop settings data
        (data.drop (frame.p + 1))
  | outcome => outcome.forget

/-- The byte at `p`, whose reaction is `reaction`. -/
theorem byteLoop_run {reaction : Reaction} {kind : Option DataKind} {count : Option ℕ}
    (hsound : reaction.Sound kind count) {fields : HttpFields} {ch : UInt8} {rest : Bytes}
    (hdata : data.drop frame.p = ch :: rest)
    (hreact : (fields.byteReact ch).free = reaction.free) :
    (frame.run settings data reaction).Overflows ∨ frame.run settings data reaction = .abort ∨
      (frame.free fields).byteLoop settings data (ch :: rest) =
        resume settings data (frame.run settings data reaction) := by
  obtain hover | habort | hfree := @run_free _ settings data frame fields reaction
  · exact .inl hover
  · exact .inr (.inl habort)
  · refine .inr (.inr ?_)
    rw [byteLoop]
    have hfields : (frame.free fields).fields = fields := rfl
    rw [hfields, hreact, ← hfree]
    cases hrun : frame.run settings data reaction with
    | next frame' =>
        have hp := p_of_run hsound hrun
        have hrest : data.drop (frame'.p + 1) = rest := by
          rw [hp, ← List.drop_drop, hdata]
          rfl
        simp only [Outcome.forget, resume, hrest]
        rfl
    | ret fields nread user parsed => rfl
    | abort => rfl

/-! ## The loops over a header -/

theorem byteLoop_scanField {rest : Bytes} {fields : HttpFields} {n : ℕ} (hok : frame.fields.Ok)
    (hs : frame.fields.state = .headerField)
    (hscan : frame.fields.scanField rest = some (fields, n)) :
    frame.byteLoop settings data rest =
      { frame with fields := fields, p := frame.p + n }.byteLoop settings data (rest.drop n) := by
  induction rest generalizing frame n with
  | nil =>
      cases hscan
      rfl
  | cons ch rest ih =>
      simp only [HttpFields.scanField] at hscan
      split_ifs at hscan with htoken
      · cases hscan
        rfl
      · have hname : frame.fields.headerState.isName := by
          simpa [HttpFields.Fits, hs] using hok.fits
        obtain ⟨i, s, hchar, hname⟩ := HttpFields.fieldChar_eq hname ch
        simp only [hchar, Option.bind_some, Option.map_eq_some_iff, Prod.mk.injEq] at hscan
        obtain ⟨⟨fields', m⟩, hscan, rfl, rfl⟩ := hscan
        have hreact : frame.fields.byteReact ch = .next (frame.fields.withHeader i s) := by
          simp only [HttpFields.byteReact, hs, HttpFields.headerFieldByte, if_neg htoken, hchar]
        have hrest := @ih { frame with fields := frame.fields.withHeader i s, p := frame.p + 1 } m
          (hok.withHeader hs i hname) hs hscan
        rw [byteLoop, hreact]
        simp only [Reaction.free, run, hrest, List.drop_succ_cons]
        rw [Nat.add_assoc, Nat.add_comm 1 m]

/-- Bytes that are no line end change nothing in a value of no interest. -/
theorem byteLoop_general {first rest : Bytes} (hs : frame.fields.state = .headerValue)
    (hgeneral : frame.fields.headerState = .general)
    (hfirst : ∀ x ∈ first, isOneOf ['\r', '\n'] x = false) :
    frame.byteLoop settings data (first ++ rest) =
      { frame with p := frame.p + first.length }.byteLoop settings data rest := by
  induction first generalizing frame with
  | nil => rfl
  | cons ch first ih =>
      have hreact : frame.fields.byteReact ch = .next frame.fields := by
        simp [HttpFields.byteReact, hs, HttpFields.headerValueByte, hgeneral,
          hfirst ch (List.mem_cons_self)]
      have hrest := @ih { frame with p := frame.p + 1 } hs hgeneral
        fun x hx => hfirst x (List.mem_cons_of_mem ch hx)
      rw [List.cons_append, byteLoop, hreact]
      simp only [Reaction.free, run, hrest, List.length_cons]
      rw [Nat.add_assoc, Nat.add_comm 1]

/-- What the byte loop does on `rest` where the loop over a header value ends so after `n`
bytes. -/
def ValueBytes (settings : Settings σ) (data : Bytes) (frame : Frame σ) (rest : Bytes) (n : ℕ) :
    HttpFields.ValueEnd → Prop
  | .buffer fields => httpMaxHeaderSize < rest.length ∨
      frame.byteLoop settings data rest = .next { frame with fields := fields, p := frame.p + n }
  | .line fields ch => ∃ tail, rest.drop n = ch :: tail ∧ fields.state = .headerValue ∧
      isOneOf ['\r', '\n'] ch ∧
      frame.byteLoop settings data rest =
        { frame with fields := fields, p := frame.p + n }.byteLoop settings data (ch :: tail)
  | .invalid fields => ∃ old ch tail, rest.drop n = ch :: tail ∧
      old.byteReact ch = .error .invalidContentLength fields ∧
      frame.byteLoop settings data rest =
        { frame with fields := old, p := frame.p + n }.byteLoop settings data (ch :: tail)
  | .abort => True

theorem byteLoop_scanValue (hok : frame.fields.Ok) (hs : frame.fields.state = .headerValue)
    (rest : Bytes) :
    ValueBytes settings data frame rest (frame.fields.scanValue rest).2
      (frame.fields.scanValue rest).1 := by
  induction rest generalizing frame with
  | nil => exact .inr rfl
  | cons ch rest ih =>
      simp only [HttpFields.scanValue]
      -- Three kinds of turns: the end of the line, a jump to it, a byte of a value that matters.
      split_ifs with hline hgeneral
      · exact ⟨rest, rfl, hs, hline, rfl⟩
      · obtain ⟨c, tail, hdrop, hc, hbefore⟩ | ⟨hlength, hall⟩ := HttpFields.lineEnd_spec (ch :: rest)
        · have hskip := @byteLoop_general _ settings data frame _ (c :: tail) hs hgeneral hbefore
          have hlt : HttpFields.lineEnd (ch :: rest) ≤ (ch :: rest).length := by
            by_contra hgt
            rw [List.drop_eq_nil_of_le (Nat.le_of_not_le hgt)] at hdrop
            cases hdrop
          rw [← hdrop, List.take_append_drop, List.length_take, min_eq_left hlt, hdrop] at hskip
          rw [hdrop]
          exact ⟨tail, hdrop, hs, hc, hskip⟩
        · rw [hlength, List.drop_length]
          obtain hbig | hnone := hall
          · exact .inl hbig
          · have hskip := @byteLoop_general _ settings data frame _ [] hs hgeneral hnone
            rw [List.append_nil] at hskip
            exact .inr hskip
      -- The value matters, for example that of `Content-Length`, and is read byte by byte.
      · have hchar := hok.valueChar hs ch
        cases hvalue : frame.fields.valueChar ch with
        | next fields =>
            rw [hvalue] at hchar
            have hreact : frame.fields.byteReact ch = .next fields := by
              simp [HttpFields.byteReact, hs, HttpFields.headerValueByte, hline, hgeneral, hvalue]
            have hloop : frame.byteLoop settings data (ch :: rest) =
                { frame with fields := fields, p := frame.p + 1 }.byteLoop settings data rest := by
              rw [byteLoop, hreact]
              rfl
            have hscan := @ih { frame with fields := fields, p := frame.p + 1 } hchar.1 hchar.2
            have hp : ∀ n, frame.p + 1 + n = frame.p + (n + 1) := by omega
            dsimp only at hscan ⊢
            revert hscan
            cases (fields.scanValue rest).1 with
            | buffer fields' =>
                rintro (hbig | hnext)
                · exact .inl (Nat.lt_succ_of_lt hbig)
                · exact .inr (by rw [hloop, hnext, hp])
            | line fields' c =>
                rintro ⟨tail, hdrop, hstate, hc, hnext⟩
                exact ⟨tail, hdrop, hstate, hc, by rw [hloop, hnext, hp]⟩
            | invalid fields' =>
                rintro ⟨old, c, tail, hdrop, herror, hnext⟩
                exact ⟨old, c, tail, hdrop, herror, by rw [hloop, hnext, hp]⟩
            | abort => exact fun _ => trivial
        | invalid fields =>
            have hreact : frame.fields.byteReact ch = .error .invalidContentLength fields := by
              simp [HttpFields.byteReact, hs, HttpFields.headerValueByte, hline, hgeneral, hvalue]
            exact ⟨frame.fields, ch, rest, rfl, hreact, rfl⟩
        | abort => trivial

/-! ## The jumps over a body -/

theorem mark_of_isSome {kind : DataKind} (h : (frame.marks kind).isSome) :
    frame.mark kind = frame := by
  obtain ⟨i, hi⟩ := Option.isSome_iff_exists.mp h
  unfold mark
  rw [hi, Option.getD_some, ← hi, Function.update_eq_self]

/-- The byte loop in a body of known length, before its last byte. -/
theorem byteLoop_body {first rest : Bytes}
    (hs : frame.fields.state = .bodyIdentity ∨
      frame.fields.state = .chunkData ∧ frame.fields.flags.chunked)
    (hmark : (frame.marks .body).isSome) (hlt : first.length < frame.fields.contentLength)
    (hmax : frame.fields.contentLength < ullongMax) :
    frame.byteLoop settings data (first ++ rest) =
      { frame with fields := frame.fields.consume first.length, p := frame.p + first.length }.byteLoop
        settings data rest := by
  induction first generalizing frame with
  | nil => rfl
  | cons ch first ih =>
      rw [List.length_cons] at hlt
      have hone : min frame.fields.contentLength 1 = 1 := by omega
      have hleft : frame.fields.contentLength - 1 ≠ 0 := by omega
      have hin : ¬(frame.fields.contentLength = 0 ∨ frame.fields.contentLength = ullongMax) := by
        omega
      -- No byte but the last one of the body does more than count.
      have hreact : frame.fields.byteReact ch = .mark .body (.next (frame.fields.consume 1)) := by
        have hleft : (frame.fields.consume 1).contentLength ≠ 0 := hleft
        obtain hs | ⟨hs, hchunked⟩ := hs
        · simp only [HttpFields.byteReact, hs, HttpFields.bodyIdentity, if_neg hin, hone,
            HttpFields.bodyRead, if_neg hleft]
        · simp only [HttpFields.byteReact, hs, HttpFields.chunkData, hchunked, Bool.not_true,
            Bool.false_eq_true, false_or, if_neg hin, hone, HttpFields.chunkRead, if_neg hleft]
      have hrest := @ih { frame with fields := frame.fields.consume 1, p := frame.p + 1 } hs hmark
        (by show first.length < frame.fields.contentLength - 1; omega)
        (by show frame.fields.contentLength - 1 < ullongMax; omega)
      have hsub : (frame.fields.consume 1).consume first.length =
          frame.fields.consume (first.length + 1) := by
        unfold HttpFields.consume
        dsimp only
        rw [Nat.sub_sub, Nat.add_comm 1]
      rw [List.cons_append, byteLoop, hreact]
      simp only [Reaction.free, run, mark_of_isSome hmark, hrest, List.length_cons, hsub]
      rw [Nat.add_assoc, Nat.add_comm 1]

/-- The byte loop in a body that ends with the stream. -/
theorem byteLoop_eof {rest : Bytes} (hs : frame.fields.state = .bodyIdentityEof)
    (hmark : (frame.marks .body).isSome) :
    frame.byteLoop settings data rest = .next { frame with p := frame.p + rest.length } := by
  induction rest generalizing frame with
  | nil => rfl
  | cons ch rest ih =>
      have hreact : frame.fields.byteReact ch = .mark .body (.next frame.fields) := by
        simp only [HttpFields.byteReact, hs]
      have hrest := @ih { frame with p := frame.p + 1 } hs hmark
      rw [byteLoop, hreact]
      simp only [Reaction.free, run, mark_of_isSome hmark, hrest, List.length_cons]
      rw [Nat.add_assoc, Nat.add_comm 1]

/-! ## One turn of the loop -/

/-- The byte loop over `rest` does the same as the outcome of a turn, unless the limit or an
assertion stopped it. -/
def Follows (settings : Settings σ) (data : Bytes) (frame : Frame σ) (rest : Bytes)
    (outcome : Outcome σ) : Prop :=
  outcome.Overflows ∨ outcome = .abort ∨
    frame.byteLoop settings data rest = resume settings data outcome

/-- A turn within the buffer, of which the last byte decides. -/
theorem byteLoop_skip {reaction : Reaction} {kind : Option DataKind} {count : Option ℕ}
    (hsound : reaction.Sound kind count) {old fields : HttpFields} {n : ℕ} {ch : UInt8}
    {rest tail : Bytes} (hdata : data.drop frame.p = rest) (htail : rest.drop n = ch :: tail)
    (hskip : (frame.free old).byteLoop settings data rest =
      { frame.free fields with p := frame.p + n }.byteLoop settings data (ch :: tail))
    (hreact : (fields.byteReact ch).free = reaction.free) :
    Follows settings data (frame.free old) rest
      ({ frame with p := frame.p + n }.run settings data reaction) := by
  unfold Follows
  rw [hskip]
  have hdrop : data.drop (frame.p + n) = ch :: tail := by rw [← List.drop_drop, hdata, htail]
  exact @byteLoop_run _ settings data { frame with p := frame.p + n } _ _ _ hsound fields ch tail
    hdrop hreact

/-- A turn that reads to the end of the buffer within a header. -/
theorem byteLoop_end {old fields : HttpFields} {n : ℕ} {rest : Bytes}
    (hdata : data.drop frame.p = rest) (hn : n = rest.length) (hpos : 0 < n)
    (hskip : (frame.free old).byteLoop settings data rest =
      .next { frame.free fields with p := frame.p + n }) :
    Follows settings data (frame.free old) rest
      ({ frame with p := frame.p + n }.run settings data
        (.count n fields (.back (.next fields)))) := by
  unfold Follows
  simp only [run]
  split_ifs
  · exact .inl rfl
  · refine .inr (.inr ?_)
    have hp : frame.p + n - 1 + 1 = frame.p + n := by omega
    have hdrop : data.drop (frame.p + n) = [] := by
      rw [← List.drop_drop, hdata, hn, List.drop_length]
    rw [hskip]
    simp only [resume, counted, hp, hdrop, byteLoop]
    rfl

/-- The byte at which the loop over a header field stops. -/
theorem token_of_scanField {parser parser' : HttpFields} {rest tail : Bytes} {n : ℕ} {ch : UInt8}
    (hscan : parser.scanField rest = some (parser', n)) (htail : rest.drop n = ch :: tail) :
    token ch = 0 := by
  induction rest generalizing parser n with
  | nil => simp at htail
  | cons c rest ih =>
      simp only [HttpFields.scanField] at hscan
      split_ifs at hscan with htoken
      · cases hscan
        cases htail
        exact htoken
      · simp only [Option.bind_eq_some_iff, Option.map_eq_some_iff] at hscan
        obtain ⟨next, -, ⟨_, m⟩, hrest, heq⟩ := hscan
        cases heq
        exact ih hrest htail

theorem headerField_follows (hok : frame.fields.Ok) (hs : frame.fields.state = .headerField)
    {rest : Bytes} (hrest : rest ≠ []) (hdata : data.drop frame.p = rest) :
    Follows settings data (frame.free frame.fields) rest
      ({ frame with p := frame.p + (frame.fields.headerField rest).1 }.run settings data
        (frame.fields.headerField rest).2) := by
  obtain ⟨fields, n, hscan, hok', hs', hle⟩ := hok.scanField hs rest
  have hskip := @byteLoop_scanField _ settings data (frame.free frame.fields) rest fields n hok hs hscan
  cases hend : rest.drop n with
  | nil =>
      have hfield : frame.fields.headerField rest =
          (n, .count n fields (.back (.next fields))) := by
        simp only [HttpFields.headerField, hscan, hend]
      have hn : n = rest.length := hle.antisymm (List.drop_eq_nil_iff.mp hend)
      rw [hend] at hskip
      rw [hfield]
      exact byteLoop_end hdata hn (hn ▸ List.length_pos_iff.mpr hrest) hskip
  | cons ch tail =>
      have hfield : frame.fields.headerField rest =
          (n, .count n fields (fields.headerFieldEnd ch)) := by
        simp only [HttpFields.headerField, hscan, hend]
      have hsound : (Reaction.count n fields (fields.headerFieldEnd ch)).Sound
          (some .headerField) none := hok'.toBase.headerFieldEnd ch
      rw [hend] at hskip
      rw [hfield]
      refine byteLoop_skip hsound hdata hend hskip ?_
      simp only [HttpFields.byteReact, hs', HttpFields.headerFieldByte, token_of_scanField hscan hend,
        if_true, Reaction.free]

/-- Only the count depends on how far a header value reached. -/
theorem free_headerValueEnd (parser : HttpFields) (old : HeaderState) (n : ℕ) (ch : UInt8) :
    (parser.headerValueEnd old n ch).free = (parser.headerValueEnd parser.headerState 0 ch).free := by
  unfold HttpFields.headerValueEnd
  dsimp only
  split_ifs <;> rfl

theorem headerValue_follows (hok : frame.fields.Ok) (hs : frame.fields.state = .headerValue)
    {rest : Bytes} (hrest : rest ≠ []) (hdata : data.drop frame.p = rest)
    (hcount : 1 ≤ frame.nread ∧ frame.nread ≤ httpMaxHeaderSize) (hsmall : data.length < 2 ^ 31) :
    Follows settings data (frame.free frame.fields) rest
      ({ frame with p := frame.p + (frame.fields.headerValue rest).1 }.run settings data
        (frame.fields.headerValue rest).2) := by
  have hlength : rest.length < 2 ^ 31 := by
    have hle := congrArg List.length hdata
    rw [List.length_drop] at hle
    omega
  have hend := hok.scanValue hs rest
  have hbytes : ValueBytes settings data (frame.free frame.fields) rest
      (frame.fields.scanValue rest).2 (frame.fields.scanValue rest).1 :=
    @byteLoop_scanValue _ settings data (frame.free frame.fields) hok hs rest
  unfold HttpFields.headerValue
  dsimp only
  revert hend hbytes
  generalize frame.fields.scanValue rest = scan
  obtain ⟨e, n⟩ := scan
  dsimp only
  cases e with
  | buffer fields =>
      rintro ⟨-, -, hn⟩ (hbig | hskip)
      · -- more bytes than a header may have
        refine .inl ?_
        have hover : ({ frame with p := frame.p + n }.counted n).nread > httpMaxHeaderSize := by
          have hmax : httpMaxHeaderSize < 2 ^ 31 := by decide
          show (frame.nread + n) % 2 ^ 32 > httpMaxHeaderSize
          rw [Nat.mod_eq_of_lt (by omega)]
          omega
        simp only [HttpFields.ValueEnd.reaction, run, if_pos hover]
        rfl
      · exact byteLoop_end hdata hn (hn ▸ List.length_pos_iff.mpr hrest) hskip
  -- The scan stops in front of the line end, which is a byte of its own for the byte loop.
  | line fields ch =>
      rintro ⟨hok', -, -⟩ ⟨tail, htail, hs', hline, hskip⟩
      have hsound : (fields.headerValueEnd frame.fields.headerState n ch).Sound
          (some .headerValue) none := hok'.toBase.headerValueEnd _ _ ch
      refine byteLoop_skip hsound hdata htail hskip ?_
      simp only [HttpFields.byteReact, hs', HttpFields.headerValueByte, hline, if_true]
      exact (free_headerValueEnd _ _ _ _).symm
  | invalid fields =>
      rintro - ⟨old, ch, tail, htail, hreact, hskip⟩
      have hsound : (Reaction.error .invalidContentLength fields).Sound none none := rfl
      exact byteLoop_skip hsound hdata htail hskip (by rw [hreact])
  | abort => exact fun habort => habort.elim

/-! ## Bodies -/

theorem byteReact_of_marksBody {parser : HttpFields} (h : parser.marksBody) (ch : UInt8) :
    ∃ rest, parser.byteReact ch = .mark .body rest := by
  unfold HttpFields.marksBody at h
  split at h
  case h_1 hs => exact ⟨_, by simp only [HttpFields.byteReact, hs]; rfl⟩
  case h_2 hs => exact ⟨_, by simp only [HttpFields.byteReact, hs]; rfl⟩
  case h_3 hs => exact ⟨_, by simp only [HttpFields.byteReact, hs]; rfl⟩
  case h_4 => cases h

theorem isSome_mark (kind : DataKind) : ((frame.mark kind).marks kind).isSome := by
  simp [mark]

/-- A mark that the reaction makes may be made before. -/
theorem byteLoop_mark (hbody : frame.fields.marksBody) (ch : UInt8) (rest : Bytes) :
    frame.byteLoop settings data (ch :: rest) =
      (frame.mark .body).byteLoop settings data (ch :: rest) := by
  obtain ⟨reaction, hreact⟩ := byteReact_of_marksBody hbody ch
  have hfields : (frame.mark .body).fields = frame.fields := rfl
  rw [byteLoop, byteLoop, hfields, hreact]
  simp only [Reaction.free, run, mark_of_isSome (isSome_mark .body)]

/-- A turn in a body of known length. -/
theorem body_follows {reaction : Reaction} {n : ℕ} {ch : UInt8} {rest : Bytes}
    (hsound : reaction.Sound (some .body) none)
    (hs : frame.fields.state = .bodyIdentity ∨
      frame.fields.state = .chunkData ∧ frame.fields.flags.chunked)
    (hlt : n < frame.fields.contentLength) (hmax : frame.fields.contentLength < ullongMax)
    (hle : n < (ch :: rest).length) (hdata : data.drop frame.p = ch :: rest)
    (hreact : ∀ c, (frame.fields.consume n).byteReact c = .mark .body reaction) :
    Follows settings data (frame.free frame.fields) (ch :: rest)
      ({ frame.mark .body with p := frame.p + n }.run settings data reaction) := by
  have hbody : frame.fields.marksBody := by
    unfold HttpFields.marksBody
    obtain hs | ⟨hs, -⟩ := hs <;> rw [hs]
  -- The mark may be made before the jump instead of behind it.
  have hmarked : (frame.free frame.fields).byteLoop settings data (ch :: rest) =
      ((frame.mark .body).free frame.fields).byteLoop settings data (ch :: rest) :=
    @byteLoop_mark _ settings data (frame.free frame.fields) hbody ch rest
  have htake : ((ch :: rest).take n).length = n := by
    rw [List.length_take]
    omega
  have hskip := @byteLoop_body _ settings data ((frame.mark .body).free frame.fields)
    ((ch :: rest).take n) ((ch :: rest).drop n) hs (isSome_mark .body) (by rw [htake]; exact hlt)
    hmax
  rw [List.take_append_drop, htake] at hskip
  have htail : (ch :: rest).drop n = (ch :: rest)[n] :: (ch :: rest).drop (n + 1) :=
    List.drop_eq_getElem_cons hle
  rw [htail] at hskip
  have hfollows := @byteLoop_skip _ settings data (frame.mark .body) (.mark .body reaction)
    (some .body) none ⟨.inr rfl, hsound⟩ frame.fields (frame.fields.consume n) n _ _ _ hdata htail
    hskip (by rw [hreact])
  unfold Follows at hfollows ⊢
  rw [hmarked]
  have hset : ({ frame.mark .body with p := frame.p + n } : Frame σ).mark .body =
      { frame.mark .body with p := frame.p + n } := mark_of_isSome (isSome_mark .body)
  simp only [run] at hfollows
  rw [show ({ frame.mark .body with p := (frame.mark .body).p + n } : Frame σ).mark .body =
    { frame.mark .body with p := frame.p + n } from hset] at hfollows
  exact hfollows

/-- The bytes that a turn takes of a body, and its last one by itself. -/
theorem consume_consume_one {parser : HttpFields} {n : ℕ} (hpos : 0 < n)
    (hle : n ≤ parser.contentLength) :
    (parser.consume (n - 1)).consume (min (parser.consume (n - 1)).contentLength 1) =
      parser.consume n := by
  have hone : min (parser.contentLength - (n - 1)) 1 = 1 := by omega
  simp only [HttpFields.consume, hone]
  rw [Nat.sub_sub, Nat.sub_add_cancel hpos]

theorem bodyIdentity_follows (hok : frame.fields.Ok) (hs : frame.fields.state = .bodyIdentity)
    {ch : UInt8} {rest : Bytes} (hdata : data.drop frame.p = ch :: rest) :
    Follows settings data (frame.free frame.fields) (ch :: rest)
      ({ frame.mark .body with
        p := frame.p + (frame.fields.bodyIdentity (rest.length + 1)).1 }.run settings data
          (frame.fields.bodyIdentity (rest.length + 1)).2) := by
  obtain ⟨hpos, hmax⟩ : 0 < frame.fields.contentLength ∧
      frame.fields.contentLength < ullongMax := by simpa [HttpFields.Fits, hs] using hok.fits
  have hin : ¬(frame.fields.contentLength = 0 ∨ frame.fields.contentLength = ullongMax) := by omega
  have hsound : (frame.fields.bodyIdentity (rest.length + 1)).2.Sound (some .body) none :=
    hok.bodyIdentity hs (rest.length + 1)
  have hread : frame.fields.bodyIdentity (rest.length + 1) =
      (min frame.fields.contentLength (rest.length + 1) - 1,
        (frame.fields.consume (min frame.fields.contentLength (rest.length + 1))).bodyRead) := by
    simp only [HttpFields.bodyIdentity, if_neg hin]
  rw [hread] at hsound ⊢
  refine body_follows hsound (.inl hs) (by omega) hmax ?_ hdata fun c => ?_
  · rw [List.length_cons]
    omega
  · generalize hm : min frame.fields.contentLength (rest.length + 1) = m
    have hs' : (frame.fields.consume (m - 1)).state = .bodyIdentity := hs
    have hcontent : (frame.fields.consume (m - 1)).contentLength =
        frame.fields.contentLength - (m - 1) := rfl
    simp only [HttpFields.byteReact, hs', HttpFields.bodyIdentity]
    rw [if_neg (by omega), consume_consume_one (by omega) (by omega)]

theorem chunkData_follows (hok : frame.fields.Ok) (hs : frame.fields.state = .chunkData)
    {ch : UInt8} {rest : Bytes} (hdata : data.drop frame.p = ch :: rest) :
    Follows settings data (frame.free frame.fields) (ch :: rest)
      ({ frame.mark .body with
        p := frame.p + (frame.fields.chunkData (rest.length + 1)).1 }.run settings data
          (frame.fields.chunkData (rest.length + 1)).2) := by
  obtain ⟨hchunked, hpos, hmax⟩ : frame.fields.flags.chunked ∧ 0 < frame.fields.contentLength ∧
      frame.fields.contentLength < ullongMax := by simpa [HttpFields.Fits, hs] using hok.fits
  have hin : ¬(frame.fields.contentLength = 0 ∨ frame.fields.contentLength = ullongMax) := by omega
  have hsound : (frame.fields.chunkData (rest.length + 1)).2.Sound (some .body) none :=
    hok.chunkData hs (rest.length + 1)
  have hread : frame.fields.chunkData (rest.length + 1) =
      (min frame.fields.contentLength (rest.length + 1) - 1,
        (frame.fields.consume (min frame.fields.contentLength (rest.length + 1))).chunkRead) := by
    simp only [HttpFields.chunkData, hchunked, Bool.not_true, Bool.false_eq_true, false_or,
      if_neg hin]
  rw [hread] at hsound ⊢
  refine body_follows hsound (.inr ⟨hs, hchunked⟩) (by omega) hmax ?_ hdata fun c => ?_
  · rw [List.length_cons]
    omega
  · generalize hm : min frame.fields.contentLength (rest.length + 1) = m
    have hs' : (frame.fields.consume (m - 1)).state = .chunkData := hs
    have hchunked' : (frame.fields.consume (m - 1)).flags.chunked = true := hchunked
    have hcontent : (frame.fields.consume (m - 1)).contentLength =
        frame.fields.contentLength - (m - 1) := rfl
    simp only [HttpFields.byteReact, hs', HttpFields.chunkData, hchunked', Bool.not_true,
      Bool.false_eq_true, false_or]
    rw [if_neg (by omega), consume_consume_one (by omega) (by omega)]

theorem bodyIdentityEof_follows (hs : frame.fields.state = .bodyIdentityEof) {ch : UInt8}
    {rest : Bytes} (hdata : data.drop frame.p = ch :: rest) :
    Follows settings data (frame.free frame.fields) (ch :: rest)
      ({ frame.mark .body with p := frame.p + rest.length }.run settings data
        (.next frame.fields)) := by
  refine .inr (.inr ?_)
  have hbody : frame.fields.marksBody := by
    unfold HttpFields.marksBody
    rw [hs]
  have heof := @byteLoop_eof _ settings data ((frame.mark .body).free frame.fields) (ch :: rest) hs
    (isSome_mark .body)
  have hdrop : data.drop (frame.p + rest.length + 1) = [] := by
    rw [Nat.add_assoc, ← List.drop_drop, hdata]
    simp
  rw [@byteLoop_mark _ settings data (frame.free frame.fields) hbody ch rest]
  simp only [run, resume, hdrop, byteLoop]
  rw [List.length_cons, ← Nat.add_assoc] at heof
  exact heof

/-! ## The loop -/

theorem withBody_of_marksBody (h : frame.fields.marksBody) : frame.withBody = frame.mark .body :=
  if_pos h

theorem withBody_of_not (h : ¬frame.fields.marksBody) : frame.withBody = frame := if_neg h

theorem dispatch_follows (hok : frame.fields.Ok)
    (hcount : frame.fields.state = .headerValue →
      1 ≤ frame.nread ∧ frame.nread ≤ httpMaxHeaderSize)
    (hsmall : data.length < 2 ^ 31) {ch : UInt8} {rest : Bytes}
    (hdata : data.drop frame.p = ch :: rest) :
    Follows settings data (frame.free frame.fields) (ch :: rest)
      (frame.dispatch settings data ch rest) := by
  show Follows settings data (frame.free frame.fields) (ch :: rest)
    ({ frame.withBody with p := frame.p + _ }.run settings data _)
  unfold HttpFields.switch
  split
  -- The five cases that read more than one byte, and the switch for one byte.
  case h_1 hs =>
    rw [withBody_of_not (by simp [HttpFields.marksBody, hs])]
    exact headerField_follows hok hs (List.cons_ne_nil ch rest) hdata
  case h_2 hs =>
    rw [withBody_of_not (by simp [HttpFields.marksBody, hs])]
    exact headerValue_follows hok hs (List.cons_ne_nil ch rest) hdata (hcount hs) hsmall
  case h_3 hs =>
    rw [withBody_of_marksBody (by simp [HttpFields.marksBody, hs])]
    exact bodyIdentity_follows hok hs hdata
  case h_4 hs =>
    rw [withBody_of_marksBody (by simp [HttpFields.marksBody, hs])]
    exact bodyIdentityEof_follows hs hdata
  case h_5 hs =>
    rw [withBody_of_marksBody (by simp [HttpFields.marksBody, hs])]
    exact chunkData_follows hok hs hdata
  case h_6 hfield hvalue hidentity heof hchunk =>
    have hsound := hok.react ch ⟨hfield, hvalue, hidentity, heof, hchunk⟩
    have hreact : frame.fields.byteReact ch = frame.fields.react ch := by
      unfold HttpFields.byteReact
      split <;> simp_all
    have hbody : ¬frame.fields.marksBody := by
      unfold HttpFields.marksBody
      split <;> simp_all
    rw [withBody_of_not hbody]
    exact byteLoop_run hsound hdata (by rw [hreact])

theorem Valid.turn_follows (h : frame.Valid data.length) (hsmall : data.length < 2 ^ 31) {ch : UInt8}
    {rest : Bytes} (hdata : data.drop frame.p = ch :: rest) :
    Follows settings data (frame.free frame.fields) (ch :: rest)
      (frame.turn settings data ch rest) := by
  unfold Frame.turn
  have hmax : httpMaxHeaderSize < 2 ^ 31 := by decide
  have hlimit := h.limit
  split_ifs with hheader
  · dsimp only
    split_ifs with hover
    · exact .inl rfl
    · refine @dispatch_follows _ settings data (frame.counted 1) h.ok ?_ hsmall ch rest hdata
      intro _
      refine ⟨?_, Nat.le_of_not_lt hover⟩
      show 1 ≤ (frame.nread + 1) % 2 ^ 32
      rw [Nat.mod_eq_of_lt (by omega)]
      omega
  · refine dispatch_follows h.ok ?_ hsmall hdata
    intro hs
    rw [hs] at hheader
    exact absurd rfl hheader

/-- A turn never goes back. -/
theorem le_of_dispatch (hok : frame.fields.Ok) {ch : UInt8} {rest : Bytes} {frame' : Frame σ}
    (h : frame.dispatch settings data ch rest = .next frame') : frame.p ≤ frame'.p := by
  change { frame.withBody with p := frame.p + _ }.run settings data _ = _ at h
  obtain ⟨-, hsound⟩ | ⟨hend, parser, hreaction, -, -, -⟩ := hok.switch ch rest
  · rw [p_of_run hsound h]
    exact Nat.le_add_right _ _
  · rw [hreaction] at h
    simp only [run] at h
    split_ifs at h
    · cases h
    · cases h
      show frame.p ≤ frame.p + _ - 1
      omega

theorem Valid.le_of_turn (h : frame.Valid data.length) {ch : UInt8} {rest : Bytes} {frame' : Frame σ}
    (hturn : frame.turn settings data ch rest = .next frame') : frame.p ≤ frame'.p := by
  unfold Frame.turn at hturn
  split_ifs at hturn
  · dsimp only at hturn
    split_ifs at hturn
    · cases hturn
    · exact @le_of_dispatch _ settings data (frame.counted 1) h.ok ch rest frame' hturn
  · exact le_of_dispatch h.ok hturn

/-- **The loop does what the byte loop does**, unless the limit on the size of a header stops
it. -/
theorem Valid.loop_follows (h : frame.Valid data.length) (hsmall : data.length < 2 ^ 31) {turns : ℕ}
    (hturns : data.length ≤ frame.p + turns) :
    (frame.loop settings data turns).Overflows ∨
      (frame.loop settings data turns).forget =
        (frame.free frame.fields).byteLoop settings data (data.drop frame.p) := by
  induction turns generalizing frame with
  | zero =>
      rw [Nat.add_zero] at hturns
      rw [List.drop_eq_nil_of_le hturns]
      exact .inr rfl
  | succ turns ih =>
      rw [Frame.loop]
      cases hdata : data.drop frame.p with
      | nil => exact .inr rfl
      | cons ch rest =>
          have hvalid : (frame.turn settings data ch rest).Valid data.length := h.turn hdata
          have hfollows := @Valid.turn_follows _ settings data frame h hsmall ch rest hdata
          dsimp only
          cases hturn : frame.turn settings data ch rest with
          -- A turn goes on by at least one byte, so the turns that are left are enough.
          | next frame' =>
              rw [hturn] at hvalid hfollows
              have hle := h.le_of_turn hturn
              obtain hover | habort | hbytes := hfollows
              · exact hover.elim
              · cases habort
              · rw [hbytes]
                refine @ih { frame' with p := frame'.p + 1 } ?_ ?_
                · exact ⟨hvalid.1.ok, hvalid.1.limit, hvalid.1.count,
                    hvalid.1.marked.move (Nat.le_succ _), hvalid.2⟩
                · dsimp only
                  omega
          | ret fields nread user parsed =>
              rw [hturn] at hfollows
              obtain hover | habort | hbytes := hfollows
              · exact .inl hover
              · cases habort
              · exact .inr hbytes.symm
          | abort =>
              rw [hturn] at hvalid
              exact hvalid.elim

end Frame

end Brynet.Http
