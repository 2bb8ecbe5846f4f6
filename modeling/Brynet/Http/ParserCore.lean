import Brynet.Http.ParserSegments
import Brynet.Http.Segments

/-!
# The parser behind `HTTPParser`

`HTTPParser` is modelled over any `HttpCore`, a machine that reads one byte after the other
and makes callbacks on the way.  `parserCore` is the core that the bundled parser is, and
`tryParse` with `http_parser_execute` itself does what the model does over this core, until
the limit on the size of a header or a syntax error stops the parser.

* `run_replays`: the macros of one case, run with the callbacks of `HTTPParser`, do what
  they do with callbacks that only list the events, and `notifyAll` then replays;
* `byteStep_replays` and `executeLoop_ends` extend this to a byte and to the bytes of a call;
* `bundledExecute_agrees` joins it with the theorem on segments, by which a call for all
  bytes is as good as one call for each;
* `bundled_refines` is the induction on the calls of `tryParse` and `clearParse`.
-/

namespace Brynet.Http

open Memory Transition

/-- Callbacks that keep a log of themselves. -/
def logged : Settings (List HttpEvent) := fun event events => (events ++ [event], .ok)

/-- The core that the bundled parser is.  It does not count the bytes of a header. -/
def parserCore (type : ParserType) : HttpCore where
  State := Parser
  init := httpParserInit type
  step parser ch :=
    match parser.byteStep logged [] ch with
    | .next frame => (⟨frame.fields, parser.nread⟩, frame.user, .next)
    | .ret fields _ events _ =>
        (⟨fields, parser.nread⟩, events, if fields.httpErrno = .ok then .stop else .error)
    | .abort => (parser, [], .error)
  upgrade parser := parser.upgrade

instance (type : ParserType) : DecidableEq (parserCore type).State :=
  inferInstanceAs (DecidableEq Parser)

/-- The fragments of a string that the core reports: every byte by itself, and what is left of
the string, nothing, at the byte behind it. -/
def byteByByte (s : Bytes) : List Bytes := s.map (fun b => [b]) ++ [[]]

theorem flatten_byteByByte (s : Bytes) : (byteByByte s).flatten = s := by
  have hbytes : (s.map fun b => [b]).flatten = s := by
    induction s with
    | nil => rfl
    | cons b rest ih => rw [List.map_cons, List.flatten_cons, ih, List.singleton_append]
  rw [byteByByte, List.flatten_append, hbytes, List.flatten_singleton, List.append_nil]

/-- A header line, byte by byte. -/
def byteLine (head : Bytes × Bytes) : HeaderLine := ⟨byteByByte head.1, byteByByte head.2⟩

/-- `mSettings`: the callbacks of `HTTPParser`. -/
def HTTPParser.settings (core : HttpCore) : Settings (HTTPParser core) := fun event parser =>
  ((parser.notify event).1, if (parser.notify event).2 then .ok else .fail)

variable {core : HttpCore} {σ : Type*}

/-- The members of the parser after a step. -/
def Outcome.fields : Outcome σ → Option HttpFields
  | .next frame => some frame.fields
  | .ret fields _ _ _ => some fields
  | .abort => none

/-! ## The callbacks of `HTTPParser` -/

theorem HTTPParser.notify_event (parser : HTTPParser core) (kind : DataKind) (code : ℕ)
    (data : Bytes) : (parser.notify (kind.event code data)).2 = true := by
  cases kind <;> rfl

theorem HTTPParser.notify_notice (parser : HTTPParser core) (notice : Notice) :
    (parser.notify notice.event).2 = true := by
  cases notice <;> rfl

theorem HTTPParser.settings_of_true {parser : HTTPParser core} {event : HttpEvent}
    (h : (parser.notify event).2 = true) : (settings core event parser).2 = .ok := by
  simp [settings, h]

/-- The callbacks of `HTTPParser` append what they are given. -/
theorem HTTPParser.additive_settings (core : HttpCore) : (settings core).Additive := by
  constructor
  · intro kind code data parser
    exact settings_of_true (parser.notify_event kind code data)
  · intro kind code code' first rest parser
    cases kind with
    | headerField =>
        show parser.sHeadField (first ++ rest) = (parser.sHeadField first).sHeadField rest
        unfold sHeadField
        by_cases hvalue : parser.mLastWasValue
        · simp [hvalue]
        · simp [hvalue]
    | headerValue | url | body | status =>
        simp [settings, notify, DataKind.event, sHeadValue, sUrlHandle, sBodyHandle, sStatusHandle,
          List.append_assoc]

/-! ## A step without a failed assertion -/

namespace Frame

variable {settings : Settings σ} {data : Bytes} {frame : Frame σ} {kind : Option DataKind}

/-- The marks are in order after a reaction, and it returned only for a reason. -/
def Ordered (settings : Settings σ) (p : ℕ) : Outcome σ → Prop
  | .next frame => frame.Marked frame.fields.state.openKind ∧ frame.fields.Ok ∧ frame.p = p
  | .ret fields _ _ parsed => fields.httpErrno = .ok ∧ parsed = p + 1 ∨
      fields.httpErrno.isSyntax ∧ parsed = p ∨ ∃ event user, (settings event user).2 ≠ .ok
  | .abort => False

theorem ne_ok_of_errno {reply : Reply} {callback errno : HttpErrno}
    (h : reply.errno callback = some errno) : reply ≠ .ok := by
  rintro rfl
  cases h

theorem run_ordered {reaction : Reaction} {count : Option ℕ} (hsound : reaction.Sound kind count)
    (hmarked : frame.Marked kind) (hinside : frame.p < data.length) :
    Ordered settings frame.p (frame.run settings data reaction.free) := by
  induction reaction generalizing frame kind count with
  -- The three ways out: the byte is done, a syntax error, the last byte of a message.
  | next fields =>
      obtain ⟨hok, -, hkind⟩ := hsound
      have hnext := hmarked.next hkind
      exact ⟨⟨hnext.only, hnext.set⟩, hok, rfl⟩
  | error errno fields =>
      exact .inr (.inl ⟨hsound, rfl⟩)
  | leave fields => exact .inl ⟨hsound.2.ok.errno, rfl⟩
  | abort => exact hsound.elim
  -- A sound reaction neither aborts nor steps back over the byte.
  | back rest _ => exact hsound.elim
  | mark new rest ih => exact ih hsound.2 (hmarked.mark hsound.1) hinside
  | resetCount rest ih => exact ih hsound hmarked hinside
  | assertCount rest ih => exact ih hsound.2 hmarked hinside
  | count bytes fields rest ih => exact ih hsound hmarked hinside
  -- A callback may end the reaction, and then it is the one that refused.
  | data old fields extra advance rest ih =>
      obtain ⟨hold, hle, -, hrest⟩ := hsound
      rw [Reaction.free]
      cases hmark : frame.marks old with
      | none =>
          rw [run_data_of_none hmark]
          exact ih hrest (hmarked.unset hold hmark) hinside
      | some i =>
          have hbehind := (hmarked.only old i hmark).2
          have hin : ¬(frame.p < i ∨ data.length < frame.p + extra) := by omega
          cases hreply : (frame.callbackData settings data old fields extra i).2.errno
            (.cbData old) with
          | some errno =>
              rw [run_data_of_fail hmark hin hreply]
              exact .inr (.inr ⟨_, _, ne_ok_of_errno hreply⟩)
          | none =>
              rw [run_data_of_ok hmark hin hreply]
              exact @ih (frame.reported settings data old fields extra i) _ _ hrest
                (hmarked.clear hold _) hinside
  | notify notice fields advance rest ih =>
      obtain ⟨rfl, -, -, hrest⟩ := hsound
      rw [Reaction.free]
      cases hreply : (settings notice.event frame.user).2.errno (.cbNotice notice) with
      | some errno =>
          rw [run_notify_of_fail hreply]
          exact .inr (.inr ⟨_, _, ne_ok_of_errno hreply⟩)
      | none =>
          rw [run_notify_of_ok hreply]
          exact @ih (frame.noticed settings notice.event) _ _ hrest ⟨hmarked.only, hmarked.set⟩
            hinside
  | headersComplete fields rest skip ih ihskip =>
      obtain ⟨rfl, -, ⟨hrest, hskip⟩, -⟩ := hsound
      rw [Reaction.free]
      cases hreply : (settings .headersComplete frame.user).2 with
      | ok =>
          rw [run_headersComplete_of_ok hreply]
          exact @ih (frame.noticed settings .headersComplete) _ _ hrest
            ⟨hmarked.only, hmarked.set⟩ hinside
      | skip =>
          rw [run_headersComplete_of_skip hreply]
          exact @ihskip (frame.noticed settings .headersComplete) _ _ hskip
            ⟨hmarked.only, hmarked.set⟩ hinside
      | fail =>
          rw [run_headersComplete_of_fail hreply]
          exact .inr (.inr ⟨_, _, by rw [hreply]; decide⟩)
      | pause =>
          rw [run_headersComplete_of_pause hreply]
          exact .inr (.inr ⟨_, _, by rw [hreply]; decide⟩)

/-- The outcome of a byte in a buffer of its own. -/
def Stepped (settings : Settings σ) : Outcome σ → Prop
  | .next frame => frame.fields.Ok
  | .ret fields _ _ parsed => fields.httpErrno = .ok ∧ parsed = 1 ∨
      fields.httpErrno.isSyntax ∧ parsed = 0 ∨ ∃ event user, (settings event user).2 ≠ .ok
  | .abort => False

theorem flush_stepped {fields : HttpFields} (hok : fields.Ok)
    (hbehind : ∀ k i, frame.marks k = some i → i ≤ frame.p) (hinside : frame.p ≤ data.length)
    (kinds : List DataKind) : Stepped settings (frame.run settings data (flush fields kinds)) := by
  induction kinds generalizing frame with
  | nil => exact hok
  | cons kind kinds ih =>
      show Stepped settings (frame.run settings data (.data kind fields 0 0 (flush fields kinds)))
      cases hmark : frame.marks kind with
      | none =>
          rw [run_data_of_none hmark]
          exact ih hbehind hinside
      | some i =>
          have hi := hbehind kind i hmark
          have hin : ¬(frame.p < i ∨ data.length < frame.p + 0) := by omega
          cases hreply : (frame.callbackData settings data kind fields 0 i).2.errno
            (.cbData kind) with
          | some errno =>
              rw [run_data_of_fail hmark hin hreply]
              exact .inr (.inr ⟨_, _, ne_ok_of_errno hreply⟩)
          | none =>
              rw [run_data_of_ok hmark hin hreply]
              refine ih (fun k j hj => ?_) hinside
              by_cases hk : k = kind
              · simp [reported, hk] at hj
              · simp only [reported, Function.update_of_ne hk] at hj
                exact hbehind k j hj

theorem byteStep_stepped {parser : HttpFields} (hok : parser.Ok) (user : σ) (ch : UInt8) :
    Stepped settings (parser.byteStep settings user ch) := by
  have hrun := @run_ordered _ settings [ch] ((Parser.mk parser 0).frame user) _ _ _
    (hok.byteReact ch) (Parser.frame_marked ⟨parser, 0⟩ user) Nat.one_pos
  unfold HttpFields.byteStep
  revert hrun
  cases ((Parser.mk parser 0).frame user).run settings [ch] (parser.byteReact ch).free with
  | next frame =>
      rintro ⟨hmarked, hfields, hp⟩
      refine flush_stepped hfields (fun k i hi => ?_) le_rfl kinds
      have hle := (hmarked.only k i hi).2
      rw [hp] at hle
      exact hle.trans zero_le_one
  | ret fields nread user' parsed => exact fun hret => hret
  | abort => exact fun habort => habort

/-! ## The log of a byte, replayed -/

/-- The frame with another user. -/
def withUser {τ : Type*} (frame : Frame σ) (user : τ) : Frame τ where
  fields := frame.fields
  nread := frame.nread
  user := user
  p := frame.p
  marks := frame.marks

end Frame

variable {data : Bytes} {u : HTTPParser core} {p : ℕ} {events : List HttpEvent}

/-- `sHeadComplete` has refused the message. -/
def HeadersRefused (user : HTTPParser core) (p : ℕ) (upgrade : Bool) (outcome : Outcome (HTTPParser core)) :
    Prop :=
  ∃ fields nread, outcome = .ret fields nread user p ∧
    fields.httpErrno = .cbHeadersComplete ∧ fields.upgrade = upgrade

/-- `real` is what becomes of a logged outcome with the callbacks of `HTTPParser`, where `events`
was the log before. -/
def Replays (u : HTTPParser core) (p : ℕ) (events : List HttpEvent)
    (real : Outcome (HTTPParser core)) : Outcome (List HttpEvent) → Prop
  | .next frame => ∃ new, frame.user = events ++ new ∧
      if (u.notifyAll new).2 then real = .next (frame.withUser (u.notifyAll new).1)
      else HeadersRefused (u.notifyAll new).1 p frame.fields.upgrade real
  | .ret fields nread log parsed => ∃ new, log = events ++ new ∧
      if (u.notifyAll new).2 then real = .ret fields nread (u.notifyAll new).1 parsed
      else HeadersRefused (u.notifyAll new).1 p fields.upgrade real
  | .abort => True

/-- More callbacks before those of the log. -/
theorem Replays.append {first : List HttpEvent} {real : Outcome (HTTPParser core)}
    {log : Outcome (List HttpEvent)} (hok : (u.notifyAll first).2 = true)
    (h : Replays (u.notifyAll first).1 p (events ++ first) real log) : Replays u p events real log := by
  have happend : ∀ new, u.notifyAll (first ++ new) = (u.notifyAll first).1.notifyAll new := by
    intro new
    rw [HTTPParser.notifyAll_append, if_pos hok]
  cases log with
  | next frame =>
      obtain ⟨new, hnew, hreal⟩ := h
      exact ⟨first ++ new, by simp [hnew], by rw [happend]; exact hreal⟩
  | ret fields nread log parsed =>
      obtain ⟨new, hnew, hreal⟩ := h
      exact ⟨first ++ new, by simp [hnew], by rw [happend]; exact hreal⟩
  | abort => trivial

/-- The callback that refuses is the last one. -/
theorem Replays.refused {first : List HttpEvent} {v : HTTPParser core}
    {real real' : Outcome (HTTPParser core)} {log : Outcome (List HttpEvent)} {upgrade : Bool}
    (hno : (u.notifyAll first).2 = false) (h : Replays v p (events ++ first) real' log)
    (hupgrade : ∀ fields, log.fields = some fields → fields.upgrade = upgrade)
    (hreal : HeadersRefused (u.notifyAll first).1 p upgrade real) : Replays u p events real log := by
  have happend : ∀ new, u.notifyAll (first ++ new) = ((u.notifyAll first).1, false) := by
    intro new
    rw [HTTPParser.notifyAll_append, if_neg (by simp [hno])]
  cases log with
  | next frame =>
      obtain ⟨new, hnew, -⟩ := h
      refine ⟨first ++ new, by simp [hnew], ?_⟩
      rw [happend, if_neg (by simp), hupgrade frame.fields rfl]
      exact hreal
  | ret fields nread log parsed =>
      obtain ⟨new, hnew, -⟩ := h
      refine ⟨first ++ new, by simp [hnew], ?_⟩
      rw [happend, if_neg (by simp), hupgrade fields rfl]
      exact hreal
  | abort => trivial

theorem HTTPParser.notifyAll_single (event : HttpEvent) : u.notifyAll [event] = u.notify event := by
  rw [notifyAll_cons]
  split_ifs with hok
  · exact Prod.ext rfl hok.symm
  · exact Prod.ext rfl (Bool.eq_false_iff.mpr hok).symm

/-- One callback more. -/
theorem Replays.cons {event : HttpEvent} {real : Outcome (HTTPParser core)}
    {log : Outcome (List HttpEvent)} (hok : (u.notify event).2 = true)
    (h : Replays (u.notify event).1 p (events ++ [event]) real log) : Replays u p events real log := by
  rw [← HTTPParser.notifyAll_single] at hok h
  exact Replays.append hok h

namespace Frame

/-- Whatever the callbacks reply, a reaction ends with its member `upgrade`. -/
theorem upgrade_run {settings : Settings σ} {frame : Frame σ} {reaction : Reaction} {upgrade : Bool}
    (h : reaction.Upgrades upgrade) (fields : HttpFields)
    (hfields : (frame.run settings data reaction.free).fields = some fields) :
    fields.upgrade = upgrade := by
  induction reaction generalizing frame with
  -- Every way out carries the member that `Upgrades` speaks of.
  | next _ | error _ _ | leave _ =>
      cases hfields
      exact h
  | abort => cases hfields
  | back rest ih => exact @ih { frame with p := frame.p - 1 } h hfields
  | mark kind rest ih => exact @ih (frame.mark kind) h hfields
  | resetCount rest ih | assertCount rest ih => exact ih h hfields
  | count _ _ rest ih => exact ih h.2 hfields
  | data kind fields' extra advance rest ih =>
      rw [Reaction.free] at hfields
      cases hmark : frame.marks kind with
      | none =>
          rw [run_data_of_none hmark] at hfields
          exact ih h.2 hfields
      | some i =>
          by_cases hin : frame.p < i ∨ data.length < frame.p + extra
          · rw [run_data_of_outside hmark hin] at hfields
            cases hfields
          · cases hreply : (frame.callbackData settings data kind fields' extra i).2.errno
              (.cbData kind) with
            | some errno =>
                rw [run_data_of_fail hmark hin hreply] at hfields
                cases hfields
                exact h.1
            | none =>
                rw [run_data_of_ok hmark hin hreply] at hfields
                exact ih h.2 hfields
  | notify notice fields' advance rest ih =>
      rw [Reaction.free] at hfields
      cases hreply : (settings notice.event frame.user).2.errno (.cbNotice notice) with
      | some errno =>
          rw [run_notify_of_fail hreply] at hfields
          cases hfields
          exact h.1
      | none =>
          rw [run_notify_of_ok hreply] at hfields
          exact ih h.2 hfields
  -- The reply decides between the two continuations, or ends the reaction.
  | headersComplete fields' rest skip ih ihskip =>
      rw [Reaction.free] at hfields
      cases hreply : (settings .headersComplete frame.user).2 with
      | ok =>
          rw [run_headersComplete_of_ok hreply] at hfields
          exact ih h.2.1 hfields
      | skip =>
          rw [run_headersComplete_of_skip hreply] at hfields
          exact ihskip h.2.2 hfields
      | fail =>
          rw [run_headersComplete_of_fail hreply] at hfields
          cases hfields
          exact h.1
      | pause =>
          rw [run_headersComplete_of_pause hreply] at hfields
          cases hfields
          exact h.1

/-- A data callback, replayed. -/
theorem data_replays {frame : Frame (List HttpEvent)} {old : DataKind} {fields : HttpFields}
    {extra advance : ℕ} {rest : Reaction}
    (hrest : ∀ (u : HTTPParser core) (frame' : Frame (List HttpEvent)), frame'.p = frame.p →
      Replays u p frame'.user ((frame'.withUser u).run (HTTPParser.settings core) data rest)
        (frame'.run logged data rest)) :
    Replays u p frame.user
      ((frame.withUser u).run (HTTPParser.settings core) data (.data old fields extra advance rest))
      (frame.run logged data (.data old fields extra advance rest)) := by
  cases hmark : frame.marks old with
  | none =>
      have hreal : (frame.withUser u).marks old = none := hmark
      rw [run_data_of_none hmark, run_data_of_none hreal]
      exact hrest u frame rfl
  | some i =>
      have hreal : (frame.withUser u).marks old = some i := hmark
      by_cases hin : frame.p < i ∨ data.length < frame.p + extra
      · rw [run_data_of_outside hmark hin]
        trivial
      · have hok := u.notify_event old fields.statusCode (slice data i (frame.p - i + extra))
        have hreply : ((frame.withUser u).callbackData (HTTPParser.settings core) data old fields
            extra i).2.errno (.cbData old) = none := by
          show (HTTPParser.settings core (old.event fields.statusCode
            (slice data i (frame.p - i + extra))) u).2.errno _ = none
          rw [HTTPParser.settings_of_true hok]
          rfl
        rw [@run_data_of_ok _ logged _ _ _ _ _ advance _ rest hmark hin rfl,
          run_data_of_ok hreal hin hreply]
        exact Replays.cons hok (hrest _ (frame.reported logged data old fields extra i) rfl)

/-- **The callbacks of `HTTPParser` during a reaction are those of its log.** -/
theorem run_replays {frame : Frame (List HttpEvent)} {reaction : Reaction} {kind : Option DataKind}
    {count : Option ℕ} (hsound : reaction.Sound kind count) :
    Replays u frame.p frame.user
      ((frame.withUser u).run (HTTPParser.settings core) data reaction.free)
      (frame.run logged data reaction.free) := by
  induction reaction generalizing frame kind count u with
  | next fields => exact ⟨[], by simp, rfl⟩
  | error errno fields => exact ⟨[], by simp, rfl⟩
  | leave fields => exact ⟨[], by simp, rfl⟩
  | abort => exact hsound.elim
  | back rest _ => exact hsound.elim
  | mark new rest ih => exact @ih u (frame.mark new) _ _ hsound.2
  | resetCount rest ih => exact ih hsound
  | assertCount rest ih => exact ih hsound.2
  | count bytes fields rest ih => exact ih hsound
  | data old fields extra advance rest ih =>
      rw [Reaction.free]
      refine data_replays fun u frame' hp => ?_
      rw [← hp]
      exact ih hsound.2.2.2
  -- Among the notices only that of the complete headers can be refused.
  | notify notice fields advance rest ih =>
      have hok := u.notify_notice notice
      have hreply : (HTTPParser.settings core notice.event (frame.withUser u).user).2.errno
          (.cbNotice notice) = none := by
        show (HTTPParser.settings core _ u).2.errno _ = none
        rw [HTTPParser.settings_of_true hok]
        rfl
      rw [Reaction.free, @run_notify_of_ok _ logged _ _ _ _ _ _ rfl, run_notify_of_ok hreply]
      exact Replays.cons hok (@ih _ (frame.noticed logged notice.event) _ _ hsound.2.2.2)
  | headersComplete fields rest skip ih _ =>
      obtain ⟨-, -, ⟨hrest, -⟩, hupgrades⟩ := hsound
      rw [Reaction.free, @run_headersComplete_of_ok _ logged _ _ _ _ _ rfl]
      have hlog := @ih (u.notify .headersComplete).1 (frame.noticed logged .headersComplete) _ _ hrest
      cases hok : (u.notify .headersComplete).2 with
      | true =>
          have hreply : (HTTPParser.settings core .headersComplete (frame.withUser u).user).2 = .ok :=
            HTTPParser.settings_of_true hok
          rw [run_headersComplete_of_ok hreply]
          exact Replays.cons hok hlog
      -- The URL was not accepted: the log goes on, but the real run ends here.
      | false =>
          have hreply : (HTTPParser.settings core .headersComplete (frame.withUser u).user).2 =
              .fail := by
            show (if (u.notify .headersComplete).2 then Reply.ok else .fail) = .fail
            rw [hok]
            rfl
          rw [run_headersComplete_of_fail hreply]
          rw [← HTTPParser.notifyAll_single] at hok
          refine Replays.refused hok hlog (upgrade_run hupgrades) ?_
          rw [HTTPParser.notifyAll_single]
          exact ⟨_, _, rfl, rfl, rfl⟩

/-- The callbacks at the end of a buffer, replayed. -/
theorem flush_replays {frame : Frame (List HttpEvent)} {fields : HttpFields} (kinds : List DataKind) :
    Replays u p frame.user
      ((frame.withUser u).run (HTTPParser.settings core) data (flush fields kinds))
      (frame.run logged data (flush fields kinds)) := by
  induction kinds generalizing frame u with
  | nil => exact ⟨[], by simp, rfl⟩
  | cons kind kinds ih =>
      exact data_replays fun u frame' _ => ih

/-- **A byte in a buffer of its own, replayed.** -/
theorem byteStep_replays {parser : HttpFields} (hok : parser.Ok) (ch : UInt8) :
    Replays u 0 [] (parser.byteStep (HTTPParser.settings core) u ch)
      (parser.byteStep logged [] ch) := by
  have hrun := @run_replays core [ch] u ((Parser.mk parser 0).frame []) _ _ _ (hok.byteReact ch)
  change Replays u 0 [] (((Parser.mk parser 0).frame u).run _ _ _) _ at hrun
  unfold HttpFields.byteStep
  revert hrun
  cases ((Parser.mk parser 0).frame []).run logged [ch] (parser.byteReact ch).free with
  -- Behind the reaction the open mark is reported, which is replayed as well.
  | next frame =>
      rintro ⟨new, hnew, hreal⟩
      rw [List.nil_append] at hnew
      subst hnew
      have hflush : ∀ v : HTTPParser core, Replays v 0 ([] ++ frame.user) _ _ := fun v =>
        @flush_replays core [ch] v 0 { frame with p := 1 } frame.fields kinds
      split_ifs at hreal with hok'
      · rw [hreal]
        exact Replays.append hok' (hflush _)
      · have hno := Bool.eq_false_iff.mpr hok'
        obtain ⟨fields, nread, heq, herrno, hupgrade⟩ := hreal
        rw [heq]
        refine Replays.refused hno (hflush u) ?_ ⟨fields, nread, rfl, herrno, hupgrade⟩
        refine @upgrade_run _ _ _ _ (flush frame.fields kinds) _ ?_
        simp [flush, kinds, Reaction.Upgrades]
  | ret fields nread log parsed =>
      rintro ⟨new, hnew, hreal⟩
      refine ⟨new, hnew, ?_⟩
      split_ifs at hreal ⊢
      · rw [hreal]
        rfl
      · obtain ⟨fields', nread', heq, herrno⟩ := hreal
        exact ⟨fields', nread', by rw [heq]; rfl, herrno⟩
  | abort => exact fun _ => trivial

end Frame

/-! ## A whole buffer -/

namespace HTTPParser

variable {type : ParserType} {user : HTTPParser (parserCore type)}

/-- The loop of the model ends where the run over the bytes ends: with the same members, in the
error state if there is an error. -/
structure Ends (parser : HTTPParser (parserCore type) × ℕ) (nread : ℕ)
    (user : HTTPParser (parserCore type)) (progress : Progress (HTTPParser (parserCore type))) :
    Prop where
  errno : progress.user.httpErrno = user.httpErrno
  parsed : parser.2 = progress.parsed
  ok : progress.fields.httpErrno = .ok →
    parser.1 = progress.user.withCore ⟨progress.fields, nread⟩
  error : progress.fields.httpErrno ≠ .ok →
    ∃ s : Parser, parser.1 = progress.user.withError.withCore s ∧ s.upgrade = progress.fields.upgrade

theorem step_next {parser : Parser} {ch : UInt8} {frame : Frame (List HttpEvent)}
    (h : parser.byteStep logged [] ch = .next frame) :
    (parserCore type).step parser ch = (⟨frame.fields, parser.nread⟩, frame.user, .next) := by
  simp only [parserCore, h]

theorem step_ret {parser : Parser} {ch : UInt8} {fields : HttpFields} {nread parsed : ℕ}
    {log : List HttpEvent} (h : parser.byteStep logged [] ch = .ret fields nread log parsed) :
    (parserCore type).step parser ch =
      (⟨fields, parser.nread⟩, log, if fields.httpErrno = .ok then .stop else .error) := by
  simp only [parserCore, h]

/-- A message that `sHeadComplete` refuses. -/
theorem ends_refused {fields : HttpFields} {ch : UInt8} {rest : Bytes} {nread : ℕ}
    {after : HTTPParser (parserCore type)} {s : Parser} (hsame : after.httpErrno = user.httpErrno)
    (h : HeadersRefused after 0 s.upgrade (fields.byteStep (settings (parserCore type)) user ch)) :
    Ends (after.withError.withCore s, 0) nread user
      (fields.byteRun (settings (parserCore type)) user (ch :: rest)) := by
  obtain ⟨fields', nread', heq, herrno, hupgrade⟩ := h
  rw [HttpFields.byteRun_of_ret heq]
  refine ⟨hsame, rfl, fun hok => ?_, fun _ => ⟨s, rfl, hupgrade.symm⟩⟩
  rw [herrno] at hok
  cases hok

section Step

variable {s s' : core.State} {byte : UInt8} {rest : Bytes} {result : CoreResult}

theorem notifyAll_step (s s' : core.State) (events : List HttpEvent) :
    { u.withCore s with mParser := s' }.notifyAll events =
      ((u.notifyAll events).1.withCore s', (u.notifyAll events).2) :=
  @notifyAll_withCore core u s' events

theorem executeLoop_next (hstep : core.step s byte = (s', events, .next))
    (hok : (u.notifyAll events).2 = true) :
    (u.withCore s).executeLoop (byte :: rest) =
      ((((u.notifyAll events).1.withCore s').executeLoop rest).1,
        (((u.notifyAll events).1.withCore s').executeLoop rest).2 + 1) := by
  have hparser : (u.withCore s).mParser = s := rfl
  simp only [executeLoop, hparser, hstep, notifyAll_step, hok, if_true]

theorem executeLoop_stop (hstep : core.step s byte = (s', events, .stop))
    (hok : (u.notifyAll events).2 = true) :
    (u.withCore s).executeLoop (byte :: rest) = ((u.notifyAll events).1.withCore s', 1) := by
  have hparser : (u.withCore s).mParser = s := rfl
  simp only [executeLoop, hparser, hstep, notifyAll_step, hok, if_true]

theorem executeLoop_error (hstep : core.step s byte = (s', events, .error))
    (hok : (u.notifyAll events).2 = true) :
    (u.withCore s).executeLoop (byte :: rest) =
      ((u.notifyAll events).1.withError.withCore s', 0) := by
  have hparser : (u.withCore s).mParser = s := rfl
  simp only [executeLoop, hparser, hstep, notifyAll_step, hok, if_true]
  rfl

theorem executeLoop_refused (hstep : core.step s byte = (s', events, result))
    (hno : (u.notifyAll events).2 = false) :
    (u.withCore s).executeLoop (byte :: rest) =
      ((u.notifyAll events).1.withError.withCore s', 0) := by
  have hparser : (u.withCore s).mParser = s := rfl
  simp only [executeLoop, hparser, hstep, notifyAll_step, hno, Bool.false_eq_true, if_false]
  rfl

end Step

/-- **The model over `parserCore` follows the run over the bytes.** -/
theorem executeLoop_ends {fields : HttpFields} (hok : fields.Ok) (nread : ℕ) (bytes : Bytes) :
    Ends ((user.withCore (⟨fields, nread⟩ : Parser)).executeLoop bytes) nread user
      (fields.byteRun (settings (parserCore type)) user bytes) := by
  induction bytes generalizing fields user with
  | nil => exact ⟨rfl, rfl, fun _ => rfl, fun herrno => absurd hok.errno herrno⟩
  | cons ch rest ih =>
      have hreplays := @Frame.byteStep_replays (parserCore type) user fields hok ch
      have hstepped := @Frame.byteStep_stepped _ logged fields hok [] ch
      have hnext := @Frame.byteStep_stepped _ (settings (parserCore type)) fields hok user ch
      have hkeeps : ∀ events, (user.notifyAll events).1.httpErrno = user.httpErrno := fun events =>
        (notifyAll_frame user events).1
      cases hlog : fields.byteStep logged [] ch with
      -- The byte is done; what follows is the loop over the rest, unless a callback refused.
      | next frame =>
          have hstep := @step_next type ⟨fields, nread⟩ ch frame hlog
          rw [hlog] at hreplays
          obtain ⟨new, hnew, hreal⟩ := hreplays
          rw [List.nil_append] at hnew
          subst hnew
          split_ifs at hreal with hgo
          · rw [hreal] at hnext
            rw [HttpFields.byteRun_of_next hreal, executeLoop_next hstep hgo]
            have hrest := @ih (user.notifyAll frame.user).1 frame.fields hnext
            exact ⟨hrest.errno.trans (hkeeps frame.user), congrArg (· + 1) hrest.parsed, hrest.ok,
              hrest.error⟩
          · rw [executeLoop_refused hstep (Bool.eq_false_iff.mpr hgo)]
            exact ends_refused (hkeeps _) hreal
      | ret fields' nread' log parsed =>
          have hstep := @step_ret type ⟨fields, nread⟩ ch fields' nread' parsed log hlog
          rw [hlog] at hreplays hstepped
          obtain ⟨new, hnew, hreal⟩ := hreplays
          rw [List.nil_append] at hnew
          subst hnew
          split_ifs at hreal with hgo
          -- The last byte of a message, or a syntax error: the two ways out without a refusal.
          · rw [HttpFields.byteRun_of_ret hreal]
            obtain ⟨herrno, hparsed⟩ | ⟨hinvalid, hparsed⟩ | ⟨event, log', hno⟩ := hstepped
            · rw [if_pos herrno] at hstep
              rw [executeLoop_stop hstep hgo]
              exact ⟨hkeeps log, hparsed.symm, fun _ => rfl, fun hne => absurd herrno hne⟩
            · have herrno : fields'.httpErrno ≠ .ok := by
                intro heq
                rw [heq] at hinvalid
                cases hinvalid
              rw [if_neg herrno] at hstep
              rw [executeLoop_error hstep hgo]
              exact ⟨hkeeps log, hparsed.symm, fun heq => absurd heq herrno, fun _ => ⟨_, rfl, rfl⟩⟩
            · exact absurd rfl hno
          · rw [executeLoop_refused hstep (Bool.eq_false_iff.mpr hgo)]
            exact ends_refused (hkeeps _) hreal
      | abort =>
          rw [hlog] at hstepped
          exact hstepped.elim

/-! ## `tryParse` with the bundled parser -/

/-- `http_parser_execute` on `mParser`, with the callbacks on the other members. -/
def bundledExecute (parser : HTTPParser (parserCore type)) (buffer : Bytes) :
    Option (HTTPParser (parserCore type) × ℕ) :=
  (Parser.httpParserExecute (settings (parserCore type)) parser.mParser parser buffer).map
    fun called => ({ called.2.1 with
      mParser := called.1, httpErrno := decide (called.1.httpErrno ≠ .ok) }, called.2.2)

/-- The member `mParser` of a parser in use. -/
structure Sane (parser : HTTPParser (parserCore type)) : Prop where
  valid : Parser.Valid parser.mParser
  errno : parser.httpErrno = decide ((parser.mParser : Parser).httpErrno ≠ .ok)

/-- The same parser, but for the count of header bytes; in the error state the other members of
`mParser` do not matter. -/
structure Agrees (real model : HTTPParser (parserCore type)) : Prop where
  members : real.withCore model.mParser = model
  upgrade : (real.mParser : Parser).upgrade = (model.mParser : Parser).upgrade
  fields : model.httpErrno = false →
    (real.mParser : Parser).toHttpFields = (model.mParser : Parser).toHttpFields

/-- The parser stopped because of the limit on the size of a header, or at a syntax error. -/
def Stopped (parser : HTTPParser (parserCore type)) : Prop :=
  (parser.mParser : Parser).httpErrno = .headerOverflow ∨
    (parser.mParser : Parser).httpErrno.isSyntax

instance (parser : HTTPParser (parserCore type)) : Decidable parser.Stopped :=
  inferInstanceAs (Decidable ((parser.mParser : Parser).httpErrno = .headerOverflow ∨
    (parser.mParser : Parser).httpErrno.isSyntax))

theorem agrees_of_ends {progress : Progress (HTTPParser (parserCore type))} {nread : ℕ}
    {user : HTTPParser (parserCore type)} {model : HTTPParser (parserCore type) × ℕ} {parser : Parser}
    (herrno : user.httpErrno = false) (hfields : parser.toHttpFields = progress.fields)
    (h : Ends model nread user progress) :
    Agrees { progress.user with
      mParser := parser, httpErrno := decide (parser.httpErrno ≠ .ok) } model.1 := by
  by_cases hok : parser.httpErrno = .ok
  · have hmodel := h.ok (by rw [← hfields]; exact hok)
    have hsame : progress.user.httpErrno = decide (parser.httpErrno ≠ .ok) := by
      rw [h.errno, herrno, hok]
      rfl
    rw [hmodel, ← hsame]
    exact ⟨rfl, congrArg HttpFields.upgrade hfields, fun _ => hfields⟩
  · obtain ⟨s, hmodel, hupgrade⟩ := h.error (by rw [← hfields]; exact hok)
    have htrue : decide (parser.httpErrno ≠ .ok) = true := decide_eq_true hok
    rw [hmodel, htrue]
    exact ⟨rfl, (congrArg HttpFields.upgrade hfields).trans hupgrade.symm, nofun⟩

theorem bundledExecute_agrees {real model : HTTPParser (parserCore type)} (hsane : real.Sane)
    (hagree : Agrees real model) {buffer : Bytes} (hne : buffer ≠ [])
    (hsmall : buffer.length < 2 ^ 31) :
    ∃ result, real.bundledExecute buffer = some result ∧ result.1.Sane ∧
      (result.1.Stopped ∨
        Agrees result.1 (model.execute buffer).1 ∧ result.2 = (model.execute buffer).2) := by
  have herrno : real.httpErrno = model.httpErrno := by
    rw [← hagree.members]
    rfl
  obtain ⟨parser', user', parsed, hexecute, hvalid, -⟩ :=
    hsane.valid.execute (settings (parserCore type)) real buffer
  have hbundled : real.bundledExecute buffer = some ({ user' with
      mParser := parser', httpErrno := decide (parser'.httpErrno ≠ .ok) }, parsed) := by
    rw [bundledExecute, hexecute]
    rfl
  refine ⟨_, hbundled, ⟨hvalid, rfl⟩, ?_⟩
  cases hmodel : model.httpErrno with
  -- A parser in the error state reads nothing, on both sides.
  | true =>
      have hnot : (real.mParser : Parser).httpErrno ≠ .ok := by
        have hreal := hsane.errno
        rw [herrno, hmodel] at hreal
        exact of_decide_eq_true hreal.symm
      unfold Parser.httpParserExecute at hexecute
      rw [if_pos hnot] at hexecute
      cases hexecute
      have hsame : ({ real with
          mParser := real.mParser
          httpErrno := decide ((real.mParser : Parser).httpErrno ≠ .ok) } :
            HTTPParser (parserCore type)) = real := by
        rw [← hsane.errno]
      have hexecute' : model.execute buffer = (model, 0) := by
        rw [execute, if_pos hmodel]
      rw [hexecute', hsame]
      exact .inr ⟨hagree, rfl⟩
  | false =>
      have hok : (real.mParser : Parser).httpErrno = .ok := by
        have hreal := hsane.errno
        rw [herrno, hmodel] at hreal
        exact not_not.mp (of_decide_eq_false hreal.symm)
      have hfields := hagree.fields hmodel
      obtain ⟨_, _, _, hbytes, hdone⟩ := @Parser.Valid.execute_bytes _ (settings (parserCore type))
        real.mParser real buffer (additive_settings _) hsane.valid hok hne hsmall
      rw [hexecute, Option.some.injEq] at hbytes
      cases hbytes
      have hparser : real.withCore (⟨(real.mParser : Parser).toHttpFields,
          (model.mParser : Parser).nread⟩ : Parser) = model := by
        rw [hfields]
        exact hagree.members
      have hvalidFields : (real.mParser : Parser).toHttpFields.Ok := by
        have hframe := hsane.valid.frame hok real 0
        exact hframe.ok
      have hends := @executeLoop_ends type real _ hvalidFields (model.mParser : Parser).nread buffer
      rw [hparser] at hends
      have hexecute' : model.execute buffer = model.executeLoop buffer := by
        rw [execute, hmodel]
        rfl
      rw [hexecute']
      -- The call did what the byte run does, or was stopped by the limit.
      obtain hover | ⟨hfields', hparsed, -, huser⟩ := hdone
      · exact .inl (.inl hover)
      · cases hinvalid : parser'.httpErrno.isSyntax with
        | true => exact .inl (.inr hinvalid)
        | false =>
            refine .inr ⟨?_, hparsed.trans hends.parsed.symm⟩
            rw [huser hinvalid]
            exact agrees_of_ends (herrno.trans hmodel) hfields' hends

theorem Agrees.finishParse {real model : HTTPParser (parserCore type)} (h : Agrees real model) :
    Agrees real.finishParse model.finishParse := by
  obtain ⟨s, rfl⟩ : ∃ s, model = real.withCore s := ⟨_, h.members.symm⟩
  unfold HTTPParser.finishParse
  have hcompleted : (real.withCore s).mISCompleted = real.mISCompleted := rfl
  rw [hcompleted]
  split_ifs
  · refine ⟨?_, rfl, fun _ => rfl⟩
    have hupgrade : (parserCore type).upgrade real.mParser = (parserCore type).upgrade s := h.upgrade
    rw [hupgrade]
    rfl
  · exact h

theorem Sane.finishParse {parser : HTTPParser (parserCore type)} (h : parser.Sane) :
    parser.finishParse.Sane := by
  unfold HTTPParser.finishParse
  split_ifs
  · exact ⟨Parser.httpParserInit_valid type, rfl⟩
  · exact h

theorem Agrees.clearParse {real model : HTTPParser (parserCore type)} (h : Agrees real model) :
    Agrees real.clearParse model.clearParse := by
  obtain ⟨s, rfl⟩ : ∃ s, model = real.withCore s := ⟨_, h.members.symm⟩
  exact ⟨rfl, h.upgrade, h.fields⟩

/-! ## Whole runs -/

/-- What `HttpService` does with a parser, until the connection is upgraded. -/
inductive ParseCall
  | tryParse (buffer : Bytes)
  | clearParse
deriving Repr, DecidableEq

/-- The class with the bundled parser, and the numbers that `tryParse` has returned.  A buffer
is not empty and not larger than a message queue; a run ends where the limit or a syntax error
stops the parser. -/
def bundled (type : ParserType) : System (HTTPParser (parserCore type) × List ℕ) ParseCall where
  init s := s = (new (parserCore type), [])
  next s
    | .tryParse buffer =>
        if buffer = [] ∨ 2 ^ 31 ≤ buffer.length then none
        else (s.1.bundledExecute buffer).bind fun executed =>
          if executed.1.Stopped then none
          else some (executed.1.finishParse, s.2 ++ [executed.2])
    | .clearParse => some (s.1.clearParse, s.2)

/-- The model of the class over `parserCore`. -/
def modelled (type : ParserType) : System (HTTPParser (parserCore type) × List ℕ) ParseCall where
  init s := s = (new (parserCore type), [])
  next s
    | .tryParse buffer => some ((s.1.tryParse buffer).1, s.2 ++ [(s.1.tryParse buffer).2])
    | .clearParse => some (s.1.clearParse, s.2)

/-- **The model refines the class with the bundled parser.**  After any calls, however the
bytes are cut into buffers, the members that the callbacks have set, the decisions of
`tryParse` and the numbers it has returned are those of the model that reads byte by byte. -/
theorem bundled_refines {type : ParserType} {calls : List ParseCall}
    {real : HTTPParser (parserCore type) × List ℕ}
    (h : (bundled type).run (new (parserCore type), []) calls = some real) :
    ∃ model, (modelled type).run (new (parserCore type), []) calls = some model ∧
      real.1.withCore model.1.mParser = model.1 ∧ real.2 = model.2 := by
  have hinv : ∃ model, (modelled type).run (new (parserCore type), []) calls = some model ∧
      real.1.Sane ∧ Agrees real.1 model.1 ∧ real.2 = model.2 := by
    refine System.run_induction (M := bundled type) (I := fun calls real => ∃ model,
      (modelled type).run (new (parserCore type), []) calls = some model ∧
        real.1.Sane ∧ Agrees real.1 model.1 ∧ real.2 = model.2) ?_ ?_ h
    · exact ⟨_, rfl, ⟨Parser.httpParserInit_valid type, rfl⟩, ⟨rfl, rfl, fun _ => rfl⟩, rfl⟩
    -- One more call: both sides make it, and agree afterwards.
    · rintro calls ⟨real, results⟩ call s' ⟨⟨model, results'⟩, hrun, hsane, hagree, hresults⟩ hnext
      dsimp only at hsane hagree hresults
      subst hresults
      simp only [System.run_concat, hrun, Option.bind_some]
      cases call with
      | clearParse =>
          cases hnext
          exact ⟨_, rfl, ⟨hsane.valid, hsane.errno⟩, hagree.clearParse, rfl⟩
      | tryParse buffer =>
          simp only [bundled] at hnext
          split_ifs at hnext with hbuffer
          rw [not_or, not_le] at hbuffer
          obtain ⟨executed, hexecute, hsane', hdone⟩ :=
            bundledExecute_agrees hsane hagree hbuffer.1 hbuffer.2
          rw [hexecute, Option.bind_some] at hnext
          split_ifs at hnext with hstopped
          cases hnext
          obtain ⟨hagree', hparsed⟩ := hdone.resolve_left hstopped
          refine ⟨_, rfl, hsane'.finishParse, hagree'.finishParse, ?_⟩
          rw [hparsed]
          rfl
  obtain ⟨model, hrun, -, hagree, hresults⟩ := hinv
  exact ⟨model, hrun, hagree.members, hresults⟩

/-- A request in two buffers. -/
theorem bundled_refines_get : ∃ real model,
    (bundled .request).run (new _, [])
      [.tryParse (text "GET /a?b HTTP/1.1\r\nHo"), .tryParse (text "st: x\r\n\r\n")] = some real ∧
    (modelled .request).run (new _, [])
      [.tryParse (text "GET /a?b HTTP/1.1\r\nHo"), .tryParse (text "st: x\r\n\r\n")] = some model ∧
    (real.1.withCore model.1.mParser = model.1 ∧ real.2 = model.2) ∧
    (real.1.mPath, real.1.mQuery, real.1.mHeadValues (text "Host"), real.2) =
      (text "/a", text "b", some (text "x"), [21, 9]) := by
  have hrun : ((bundled .request).run (new _, [])
      [.tryParse (text "GET /a?b HTTP/1.1\r\nHo"), .tryParse (text "st: x\r\n\r\n")]).map
        (fun s => (s.1.mPath, s.1.mQuery, s.1.mHeadValues (text "Host"), s.2)) =
      some (text "/a", text "b", some (text "x"), [21, 9]) := by decide +kernel
  obtain ⟨real, hreal, hmembers⟩ := Option.map_eq_some_iff.mp hrun
  obtain ⟨model, hmodel, hagree⟩ := bundled_refines hreal
  exact ⟨real, model, hreal, hmodel, hagree, hmembers⟩

end HTTPParser

end Brynet.Http
