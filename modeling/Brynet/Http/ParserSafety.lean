import Brynet.Http.ParserSound
import Brynet.Lib.Transition

/-!
# The assertions of `http_parser_execute`

No run of the parser fails an assertion or hands a callback bytes that are not in the
buffer.  One step is the soundness of the reactions; here it is followed through the
macros, the loop and any number of calls.
-/

namespace Brynet.Http

open Transition

variable {σ : Type*}

/-- A parser that a call may start with. -/
structure Parser.Valid (parser : Parser) : Prop where
  ok : parser.httpErrno = .ok ∨ parser.httpErrno = .paused →
    { parser.toHttpFields with httpErrno := .ok }.Ok
  limit : parser.httpErrno = .ok ∨ parser.httpErrno = .paused → parser.nread ≤ httpMaxHeaderSize
  count : parser.httpErrno = .ok ∨ parser.httpErrno = .paused →
    parser.state = .chunkSizeStart → parser.nread = 0

/-- The marks of a frame while `kind` may be set, and where they are. -/
structure Frame.Marked (kind : Option DataKind) (frame : Frame σ) : Prop where
  only : ∀ k i, frame.marks k = some i → kind = some k ∧ i ≤ frame.p
  set : ∀ k, kind = some k → k ≠ .body → (frame.marks k).isSome

/-- The frame at the start of a turn of the loop over `length` bytes. -/
structure Frame.Valid (length : ℕ) (frame : Frame σ) : Prop where
  ok : frame.fields.Ok
  limit : frame.nread ≤ httpMaxHeaderSize
  count : frame.fields.state = .chunkSizeStart → frame.nread = 0
  marked : frame.Marked frame.fields.state.openKind
  inside : frame.p ≤ length

/-- The results of a step: none is a failed assertion. -/
def Outcome.Valid (length : ℕ) : Outcome σ → Prop
  | .next frame => frame.Valid length ∧ frame.p < length
  | .ret fields nread _ parsed => (Parser.mk fields nread).Valid ∧ parsed ≤ length
  | .abort => False

namespace Reaction

variable {count : Option ℕ} {fields : HttpFields}

/-- Leaving with an error other than a pause. -/
theorem valid_of_errno {errno : HttpErrno} (hok : errno ≠ .ok) (hpaused : errno ≠ .paused)
    (nread : ℕ) : (Parser.mk { fields with httpErrno := errno } nread).Valid := by
  refine ⟨?_, ?_, ?_⟩ <;> intro herrno <;> exact absurd herrno (not_or.mpr ⟨hok, hpaused⟩)

theorem valid_of_overflow (nread : ℕ) :
    (Parser.mk { fields with httpErrno := .headerOverflow } nread).Valid := by
  apply valid_of_errno <;> nofun

theorem Saved.valid (h : Saved count fields) (errno : HttpErrno) {nread : ℕ}
    (hlimit : nread ≤ httpMaxHeaderSize) (hcount : ∀ c, count = some c → nread = c) :
    (Parser.mk { fields with httpErrno := errno } nread).Valid := by
  refine ⟨fun _ => ?_, fun _ => hlimit, fun _ hstart => hcount 0 (h.count hstart)⟩
  have heq : { fields with httpErrno := HttpErrno.ok } = fields := by
    rw [← h.ok.errno]
  rw [heq]
  exact h.ok

end Reaction

namespace Frame

variable {settings : Settings σ} {data : Bytes} {frame : Frame σ} {kind : Option DataKind}

theorem Marked.mark (h : frame.Marked kind) {new : DataKind} (hnew : kind = none ∨ kind = some new) :
    (frame.mark new).Marked (some new) := by
  constructor
  · intro k i hi
    by_cases hk : k = new
    · subst hk
      refine ⟨rfl, ?_⟩
      simp only [Frame.mark, Function.update_self, Option.some.injEq] at hi
      cases hmark : frame.marks k with
      | none => simp [hmark] at hi; exact hi ▸ le_rfl
      | some j =>
          rw [hmark, Option.getD_some] at hi
          exact hi ▸ (h.only k j hmark).2
    · simp only [Frame.mark, Function.update_of_ne hk] at hi
      obtain ⟨hkind, -⟩ := h.only k i hi
      obtain hnone | hsome := hnew
      · rw [hnone] at hkind
        cases hkind
      · rw [hsome, Option.some.injEq] at hkind
        exact absurd hkind.symm hk
  · intro k hk _
    rw [Option.some.injEq] at hk
    subst hk
    simp [Frame.mark]

theorem Marked.clear (h : frame.Marked kind) {old : DataKind} (hold : kind = some old) (user : σ) :
    { frame with user := user, marks := Function.update frame.marks old none }.Marked none := by
  constructor
  · intro k i hi
    dsimp only at hi
    by_cases hk : k = old
    · rw [hk, Function.update_self] at hi
      cases hi
    · rw [Function.update_of_ne hk] at hi
      obtain ⟨hkind, -⟩ := h.only k i hi
      rw [hold, Option.some.injEq] at hkind
      exact absurd hkind.symm hk
  · nofun

/-- A kind without a mark may as well be closed. -/
theorem Marked.unset (h : frame.Marked kind) {old : DataKind} (hold : kind = some old)
    (hnone : frame.marks old = none) : frame.Marked none := by
  constructor
  · intro k i hi
    obtain ⟨hkind, -⟩ := h.only k i hi
    rw [hold, Option.some.injEq] at hkind
    rw [← hkind, hnone] at hi
    cases hi
  · nofun

/-- The marks at the start of the next turn. -/
theorem Marked.next (h : frame.Marked kind) {new : Option DataKind}
    (hnew : new = kind ∨ kind = none ∧ new = some .body) : frame.Marked new := by
  obtain rfl | ⟨hnone, rfl⟩ := hnew
  · exact h
  · refine ⟨fun k i hi => ?_, fun k hk hbody => ?_⟩
    · have hk := (h.only k i hi).1
      rw [hnone] at hk
      cases hk
    · rw [Option.some.injEq] at hk
      exact absurd hk.symm hbody

theorem next_valid {fields : HttpFields} {count : Option ℕ} {length nread : ℕ}
    (hsound : (Reaction.next fields).Sound kind count) (hmarked : frame.Marked kind)
    (hlimit : nread ≤ httpMaxHeaderSize) (hcount : ∀ c, count = some c → nread = c)
    (hinside : frame.p < length) :
    (Outcome.next { frame with fields := fields, nread := nread }).Valid length := by
  obtain ⟨hok, hstart, hkind⟩ := hsound
  have hnext := hmarked.next hkind
  exact ⟨⟨hok, hlimit, fun hs => hcount 0 (hstart hs), ⟨hnext.only, hnext.set⟩, hinside.le⟩, hinside⟩

/-- **A sound reaction fails no assertion.** -/
theorem run_valid {reaction : Reaction} {count : Option ℕ} (hsound : reaction.Sound kind count)
    (hmarked : frame.Marked kind) (hlimit : frame.nread ≤ httpMaxHeaderSize)
    (hcount : ∀ c, count = some c → frame.nread = c) (hinside : frame.p < data.length) :
    (frame.run settings data reaction).Valid data.length := by
  induction reaction generalizing frame kind count with
  | next fields => exact next_valid hsound hmarked hlimit hcount hinside
  -- A parser in an error state is not run again, so nothing is asked of it.
  | error errno fields =>
      refine ⟨Reaction.valid_of_errno ?_ ?_ _, hinside.le⟩ <;> rintro rfl <;> cases hsound
  | leave fields => exact ⟨hsound.2.valid fields.httpErrno hlimit hcount, hinside⟩
  | abort => exact hsound.elim
  | back rest _ => exact hsound.elim
  | mark new rest ih => exact ih hsound.2 (hmarked.mark hsound.1) hlimit hcount hinside
  | resetCount rest ih =>
      refine ih hsound ⟨hmarked.only, hmarked.set⟩ (Nat.zero_le _) ?_ hinside
      intro c hc
      exact Option.some.inj hc
  | assertCount rest ih =>
      have hone : frame.nread = 1 := hcount 1 hsound.1
      rw [run, if_pos hone]
      exact ih hsound.2 hmarked hlimit hcount hinside
  | count bytes fields rest ih =>
      simp only [run]
      split_ifs with hover
      · exact ⟨Reaction.valid_of_overflow _, hinside.le⟩
      · exact ih hsound ⟨hmarked.only, hmarked.set⟩ (Nat.le_of_not_lt hover) nofun hinside
  -- The marked bytes are in front of `p`, so they are in the buffer.
  | data old fields extra advance rest ih =>
      obtain ⟨hold, hle, hsaved, hrest⟩ := hsound
      simp only [run]
      cases hmark : frame.marks old with
      | none => exact ih hrest (hmarked.unset hold hmark) hlimit hcount hinside
      | some i =>
          have hbehind := (hmarked.only old i hmark).2
          dsimp only
          rw [if_neg (by omega)]
          split
          next errno herrno =>
            exact ⟨hsaved.valid errno hlimit hcount, by dsimp only; omega⟩
          next => exact ih hrest (hmarked.clear hold _) hlimit hcount hinside
  | notify notice fields advance rest ih =>
      obtain ⟨hnone, hle, hsaved, hrest⟩ := hsound
      simp only [run]
      subst hnone
      split
      next errno herrno => exact ⟨hsaved.valid errno hlimit hcount, by dsimp only; omega⟩
      next => exact ih hrest ⟨hmarked.only, hmarked.set⟩ hlimit hcount hinside
  | headersComplete fields rest skip ih ihskip =>
      obtain ⟨hnone, hsaved, ⟨hrest, hskip⟩, -⟩ := hsound
      simp only [run]
      subst hnone
      split
      · exact ih hrest ⟨hmarked.only, hmarked.set⟩ hlimit hcount hinside
      · exact ihskip hskip ⟨hmarked.only, hmarked.set⟩ hlimit hcount hinside
      · exact ⟨hsaved.valid _ hlimit hcount, hinside.le⟩
      · exact ⟨hsaved.valid _ hlimit hcount, hinside.le⟩

theorem Marked.move (h : frame.Marked kind) {p : ℕ} (hle : frame.p ≤ p) :
    { frame with p := p }.Marked kind :=
  ⟨fun k i hi => ⟨(h.only k i hi).1, (h.only k i hi).2.trans hle⟩, h.set⟩

/-- The frame after `MARK(body)`, if the case starts with it. -/
def withBody (frame : Frame σ) : Frame σ :=
  if frame.fields.marksBody then frame.mark .body else frame

theorem withBody_p : frame.withBody.p = frame.p := by
  unfold withBody
  split_ifs <;> rfl

theorem withBody_nread : frame.withBody.nread = frame.nread := by
  unfold withBody
  split_ifs <;> rfl

theorem Marked.withBody (h : frame.Marked frame.fields.state.openKind) :
    frame.withBody.Marked frame.fields.state.openKind := by
  unfold Frame.withBody
  split_ifs with hbody
  · have hkind : frame.fields.state.openKind = some .body := by
      unfold HttpFields.marksBody at hbody
      split at hbody <;> simp_all [ParserState.openKind]
    rw [hkind]
    exact h.mark (.inr hkind)
  · exact h

theorem length_of_drop {ch : UInt8} {rest : Bytes} (hdata : data.drop frame.p = ch :: rest) :
    frame.p + (rest.length + 1) = data.length := by
  have hlength := congrArg List.length hdata
  rw [List.length_drop, List.length_cons] at hlength
  omega

/-- The case of the switch for a byte of the buffer. -/
theorem dispatch_valid (hok : frame.fields.Ok) (hlimit : frame.nread ≤ httpMaxHeaderSize)
    (hcount : frame.fields.state = .chunkSizeStart → frame.nread = 1)
    (hmarked : frame.Marked frame.fields.state.openKind) {ch : UInt8} {rest : Bytes}
    (hdata : data.drop frame.p = ch :: rest) :
    (frame.dispatch settings data ch rest).Valid data.length := by
  have hlength := length_of_drop hdata
  have hbody := hmarked.withBody
  have hknown : ∀ c, frame.fields.state.knownCount = some c → frame.withBody.nread = c := by
    intro c hc
    unfold ParserState.knownCount at hc
    split_ifs at hc with hstart
    rw [withBody_nread, hcount hstart]
    exact Option.some.inj hc
  rw [← withBody_nread] at hlimit
  rw [← withBody_p] at hlength
  show ({ frame.withBody with p := frame.p + _ }.run settings data _).Valid data.length
  rw [← withBody_p]
  obtain ⟨hlt, hsound⟩ | ⟨hend, parser, hreaction, hok, hstart, hkind⟩ := hok.switch ch rest
  · exact run_valid hsound (hbody.move (Nat.le_add_right _ _)) hlimit hknown (by dsimp only; omega)
  · rw [hreaction]
    simp only [run]
    split_ifs with hover
    · exact ⟨Reaction.valid_of_overflow _, hend ▸ hlength.le⟩
    · have hlast : frame.withBody.p + (frame.fields.switch ch rest).1 - 1 < data.length := by omega
      exact next_valid ⟨hok, hstart, hkind⟩
        (hbody.move (p := frame.withBody.p + (frame.fields.switch ch rest).1 - 1) (by omega))
        (Nat.le_of_not_lt hover) nofun hlast

theorem Valid.turn (h : frame.Valid data.length) {ch : UInt8} {rest : Bytes}
    (hdata : data.drop frame.p = ch :: rest) :
    (frame.turn settings data ch rest).Valid data.length := by
  unfold Frame.turn
  split_ifs with hheader
  · dsimp only
    split_ifs with hover
    · exact ⟨Reaction.valid_of_overflow _, h.inside⟩
    · refine dispatch_valid ?_ (Nat.le_of_not_lt hover) ?_ ?_ ?_
      · exact h.ok
      · intro hstart
        show (frame.nread + 1) % 2 ^ 32 = 1
        rw [h.count hstart]
        rfl
      · exact ⟨h.marked.only, h.marked.set⟩
      · exact hdata
  · refine dispatch_valid h.ok h.limit ?_ h.marked hdata
    intro hstart
    rw [hstart] at hheader
    exact absurd rfl hheader

theorem Valid.loop (h : frame.Valid data.length) (turns : ℕ) :
    match frame.loop settings data turns with
    | .next frame => frame.Valid data.length
    | outcome => outcome.Valid data.length := by
  induction turns generalizing frame with
  | zero => exact h
  | succ turns ih =>
      rw [Frame.loop]
      cases hdata : data.drop frame.p with
      | nil => exact h
      | cons ch rest =>
          have hturn : (frame.turn settings data ch rest).Valid data.length := h.turn hdata
          dsimp only
          revert hturn
          cases frame.turn settings data ch rest with
          | next frame' =>
              rintro ⟨hvalid, hlt⟩
              exact ih ⟨hvalid.ok, hvalid.limit, hvalid.count,
                hvalid.marked.move (Nat.le_succ _), hlt⟩
          | ret fields nread user parsed => exact fun hret => hret
          | abort => exact fun habort => habort

/-! ## The end of the buffer -/

theorem Marked.openMarks_le (h : frame.Marked kind) : frame.openMarks ≤ 1 := by
  have hnone : ∀ k, kind ≠ some k → frame.marks k = none := by
    intro k hk
    cases hmark : frame.marks k with
    | none => rfl
    | some i => exact absurd (h.only k i hmark).1 hk
  unfold openMarks kinds
  cases kind with
  | none => simp [hnone]
  | some k => cases k <;> simp [hnone, List.filter_cons] <;> split_ifs <;> simp

/-- The callbacks after the loop leave a parser that a call may start with. -/
theorem flush_valid {fields : HttpFields} (hok : fields.httpErrno = .ok)
    (hvalid : (Parser.mk fields frame.nread).Valid)
    (hbehind : ∀ k i, frame.marks k = some i → i ≤ frame.p) (hinside : frame.p ≤ data.length)
    (kinds : List DataKind) :
    match frame.run settings data (flush fields kinds) with
    | .next frame' => frame'.fields = fields ∧ frame'.nread = frame.nread
    | .ret fields nread _ parsed => (Parser.mk fields nread).Valid ∧ parsed ≤ data.length
    | .abort => False := by
  induction kinds generalizing frame with
  | nil => exact ⟨rfl, rfl⟩
  | cons kind kinds ih =>
      show match frame.run settings data (.data kind fields 0 0 (flush fields kinds)) with
        | .next frame' => frame'.fields = fields ∧ frame'.nread = frame.nread
        | .ret fields nread _ parsed => (Parser.mk fields nread).Valid ∧ parsed ≤ data.length
        | .abort => False
      simp only [run]
      cases hmark : frame.marks kind with
      | none => exact ih hvalid hbehind hinside
      | some i =>
          have hi := hbehind kind i hmark
          dsimp only
          rw [if_neg (by omega)]
          cases (frame.callbackData settings data kind fields 0 i).2.errno (.cbData kind) with
          | none =>
              refine ih hvalid ?_ hinside
              intro k j hj
              by_cases hk : k = kind
              · simp [hk] at hj
              · simp only [Function.update_of_ne hk] at hj
                exact hbehind k j hj
          -- The refusal is stored in a parser that was in order.
          | some errno =>
              refine ⟨⟨fun _ => hvalid.ok (.inl hok), fun _ => hvalid.limit (.inl hok),
                fun _ => hvalid.count (.inl hok)⟩, hinside⟩

theorem Valid.finish (h : frame.Valid data.length) :
    ∃ (parser : Parser) (user : σ) (parsed : ℕ),
      frame.finish settings data = .ret parser.toHttpFields parser.nread user parsed ∧
        parser.Valid ∧ parsed ≤ data.length := by
  have hparser : (Parser.mk frame.fields frame.nread).Valid := by
    refine ⟨fun _ => ?_, fun _ => h.limit, fun _ => h.count⟩
    have heq : { frame.fields with httpErrno := HttpErrno.ok } = frame.fields := by
      rw [← h.ok.errno]
    rw [heq]
    exact h.ok
  have hbehind : ∀ k i, frame.marks k = some i → i ≤ frame.p := fun k i hi =>
    (h.marked.only k i hi).2
  have hflush := @flush_valid _ settings data frame _ h.ok.errno hparser hbehind h.inside kinds
  unfold Frame.finish
  rw [if_neg (Nat.not_lt.mpr h.marked.openMarks_le)]
  revert hflush
  cases frame.run settings data (flush frame.fields kinds) with
  | next frame' =>
      rintro ⟨hfields, hnread⟩
      dsimp only
      rw [hfields, hnread]
      exact ⟨⟨frame.fields, frame.nread⟩, frame'.user, data.length, rfl, hparser, Nat.le_refl _⟩
  | ret fields nread user parsed =>
      exact fun ⟨hvalid, hle⟩ => ⟨⟨fields, nread⟩, user, parsed, rfl, hvalid, hle⟩
  | abort => exact fun habort => habort.elim

end Frame

/-! ## Calls -/

namespace Parser

variable {settings : Settings σ} {parser : Parser}

theorem frame_marked (parser : Parser) (user : σ) :
    (parser.frame user).Marked parser.state.openKind := by
  constructor
  · intro k i hi
    simp only [Parser.frame] at hi
    split_ifs at hi with hk
    cases hi
    exact ⟨ParserState.openKind_of_firstMark hk, le_rfl⟩
  · intro k hk hbody
    have hfirst : parser.state.firstMark = some k := ParserState.firstMark_of_openKind hk hbody
    simp only [Parser.frame]
    rw [if_pos hfirst]
    rfl

theorem Valid.frame (h : parser.Valid) (hok : parser.httpErrno = .ok) (user : σ) (length : ℕ) :
    (parser.frame user).Valid length := by
  have hfields : parser.toHttpFields.Ok := by
    have hvalid := h.ok (.inl hok)
    rwa [← hok] at hvalid
  exact ⟨hfields, h.limit (.inl hok), h.count (.inl hok), frame_marked parser user, Nat.zero_le _⟩

theorem executeEof_valid (h : parser.Valid) (hok : parser.httpErrno = .ok) (user : σ) :
    (parser.executeEof settings user).1.Valid := by
  have hany : ∀ errno, { parser with httpErrno := errno }.Valid := fun errno =>
    ⟨fun _ => h.ok (.inl hok), fun _ => h.limit (.inl hok), fun _ => h.count (.inl hok)⟩
  unfold executeEof
  split
  · dsimp only
    split
    · exact hany _
    · exact h
  all_goals first | exact h | exact hany _

/-- **No call fails an assertion**, and every call leaves a parser that the next may start
with. -/
theorem Valid.execute (h : parser.Valid) (settings : Settings σ) (user : σ) (data : Bytes) :
    ∃ parser' user' parsed,
      parser.httpParserExecute settings user data = some (parser', user', parsed) ∧
        parser'.Valid ∧ (data ≠ [] → parsed ≤ data.length) := by
  unfold httpParserExecute
  split_ifs with herrno hempty
  · exact ⟨parser, user, 0, rfl, h, fun _ => Nat.zero_le _⟩
  · exact ⟨_, _, _, rfl, executeEof_valid h (not_not.mp herrno) user, fun hne => absurd hempty hne⟩
  · have hframe := h.frame (not_not.mp herrno) user data.length
    have hloop := @Frame.Valid.loop _ settings data _ hframe data.length
    revert hloop
    cases (parser.frame user).loop settings data data.length with
    | next frame =>
        intro hvalid
        obtain ⟨parser', user', parsed, hfinish, hparser, hle⟩ :=
          @Frame.Valid.finish _ settings data frame hvalid
        dsimp only
        rw [hfinish]
        exact ⟨parser', user', parsed, rfl, hparser, fun _ => hle⟩
    | ret fields nread user' parsed =>
        exact fun ⟨hparser, hle⟩ => ⟨_, _, _, rfl, hparser, fun _ => hle⟩
    | abort => exact fun habort => habort.elim

theorem httpParserInit_valid (type : ParserType) : (httpParserInit type).Valid := by
  refine ⟨fun _ => ⟨⟨rfl, Nat.zero_le _⟩, ?_⟩, fun _ => Nat.zero_le _, ?_⟩
  · cases type <;> trivial
  · intro _ _
    rfl

/-- Callbacks that collect the strings of a message. -/
def collect : Settings Bytes
  | .url data, user => (user ++ data, .ok)
  | .headerField data, user => (user ++ data, .ok)
  | .headerValue data, user => (user ++ data, .ok)
  | .body data, user => (user ++ data, .ok)
  | .status _ data, user => (user ++ data, .ok)
  | _, user => (user, .ok)

/-- What the owner of a parser may do with it. -/
inductive Call
  | execute (data : Bytes)
  | pause (paused : Bool)
deriving Repr, DecidableEq

/-- The calls of the owner of a parser, with what an assertion of a call reports. -/
def call (settings : Settings σ) (parser : Parser) (user : σ) : Call → Option (Parser × σ)
  | .execute data => (parser.httpParserExecute settings user data).map fun r => (r.1, r.2.1)
  | .pause paused => (parser.httpParserPause paused).map fun parser => (parser, user)

/-- A parser with its user: a call whose assertion fails is no step. -/
def calls (settings : Settings σ) : System (Parser × σ) Call where
  init s := ∃ type, s.1 = httpParserInit type
  next s a := call settings s.1 s.2 a

theorem httpParserPause_valid (h : parser.Valid) {paused : Bool} {parser' : Parser}
    (hpause : parser.httpParserPause paused = some parser') : parser'.Valid := by
  unfold httpParserPause at hpause
  split_ifs at hpause with herrno <;> cases hpause <;>
    exact ⟨fun _ => h.ok herrno, fun _ => h.limit herrno, fun _ => h.count herrno⟩

theorem valid_of_reachable {s : Parser × σ} (h : (calls settings).Reachable s) : s.1.Valid := by
  refine h.invariant (I := fun s => s.1.Valid) ?_ ?_
  · rintro ⟨_, user⟩ ⟨type, rfl⟩
    exact httpParserInit_valid type
  · rintro ⟨parser, user⟩ a s' - hvalid hnext
    cases a with
    | execute data =>
        obtain ⟨parser', user', parsed, heq, hvalid', -⟩ := hvalid.execute settings user data
        simp only [calls, call, heq, Option.map_some, Option.some.injEq] at hnext
        exact hnext ▸ hvalid'
    | pause paused =>
        simp only [calls, call, Option.map_eq_some_iff] at hnext
        obtain ⟨parser', hpause, rfl⟩ := hnext
        exact httpParserPause_valid hvalid hpause

/-- **No assertion of `http_parser_execute` fails.**  After any calls, with any callbacks, the
next buffer is parsed without a failed assertion and without a callback for bytes that are not
in it, and no more bytes are parsed than it has. -/
theorem execute_never_aborts (settings : Settings σ) {s : Parser × σ}
    (h : (calls settings).Reachable s) (data : Bytes) :
    ∃ parser' user' parsed,
      s.1.httpParserExecute settings s.2 data = some (parser', user', parsed) ∧
        (data ≠ [] → parsed ≤ data.length) := by
  obtain ⟨parser', user', parsed, heq, -, hle⟩ := (valid_of_reachable h).execute settings s.2 data
  exact ⟨parser', user', parsed, heq, hle⟩

/-- A request of which the first bytes were parsed in two calls. -/
theorem execute_never_aborts_get : ∃ s : Parser × Bytes,
    (calls collect).Reachable s ∧ s.2 = text "/index" ∧
      ∃ parser' user' parsed,
        s.1.httpParserExecute collect s.2 (text " HTTP/1.1") = some (parser', user', parsed) ∧
          (text " HTTP/1.1" ≠ [] → parsed ≤ (text " HTTP/1.1").length) := by
  let start : Parser × Bytes := (httpParserInit .request, [])
  let actions := [Call.execute (text "GET /in"), .execute (text "dex")]
  have hsome : ((calls collect).run start actions).isSome := by decide +kernel
  have huser : ((calls collect).run start actions).map Prod.snd = some (text "/index") := by
    decide +kernel
  obtain ⟨s, hrun⟩ := Option.isSome_iff_exists.mp hsome
  have hreach : (calls collect).Reachable s := System.reachable_of_run ⟨.request, rfl⟩ hrun
  rw [hrun] at huser
  exact ⟨s, hreach, Option.some.inj huser, execute_never_aborts collect hreach _⟩

end Parser

end Brynet.Http
