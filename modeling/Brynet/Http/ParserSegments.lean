import Brynet.Http.ParserBytes

/-!
# Segments

What the parser reports does not depend on how the bytes are cut into buffers, for callbacks
to which it makes no difference in how many pieces a string comes.  The common ground is
`byteRun`, which hands the parser every byte in a buffer of its own: the callbacks it has made
so far are those of a longer buffer, together with the one that the open mark still owes.

The comparison is between two frames that have read the same bytes, a long one and one that
starts at the last byte:

* `Pair` relates them before the byte is looked at: the user of the short frame has already
  been given what the open mark of the long one still covers, the user of the long one not
  (`Owes`);
* `Pair.run` follows the macros of one case through both; `Behind.step` is the switch;
* `Behind.loop` is the induction on the bytes of the buffer, and `Valid.execute_bytes` adds
  the end of the call, where the long frame pays what it owes.

`Settings.Additive` is all that the callbacks have to satisfy.
-/

namespace Brynet.Http

open Memory

variable {σ : Type*}

/-- Callbacks that take every string, and to which it makes no difference in how many pieces
it comes.  The pieces of a status may come with different codes, of which the last counts. -/
structure Settings.Additive (settings : Settings σ) : Prop where
  ok : ∀ (kind : DataKind) code data user, (settings (kind.event code data) user).2 = .ok
  append : ∀ (kind : DataKind) code code' first rest user,
    (settings (kind.event code (first ++ rest)) user).1 =
      (settings (kind.event code rest) (settings (kind.event code' first) user).1).1

/-! ## One byte in a buffer of its own -/

/-- The end of a buffer of one byte, at which the marks are reported. -/
def Outcome.flush (settings : Settings σ) (ch : UInt8) : Outcome σ → Outcome σ
  | .next frame => { frame with p := 1 }.run settings [ch] (Frame.flush frame.fields Frame.kinds)
  | outcome => outcome

/-- The parser after one byte in a buffer of its own. -/
def HttpFields.byteStep (settings : Settings σ) (parser : HttpFields) (user : σ) (ch : UInt8) :
    Outcome σ :=
  (((Parser.mk parser 0).frame user).run settings [ch] (parser.byteReact ch).free).flush settings ch

/-- The parser and its user after some bytes, of which `parsed` were parsed.  `stopped` says
that the parser left its loop. -/
structure Progress (σ : Type*) where
  fields : HttpFields
  user : σ
  parsed : ℕ
  stopped : Bool

/-- Every byte in a buffer of its own. -/
def HttpFields.byteRun (settings : Settings σ) (parser : HttpFields) (user : σ) :
    Bytes → Progress σ
  | [] => ⟨parser, user, 0, false⟩
  | ch :: rest =>
      match parser.byteStep settings user ch with
      | .next frame =>
          let progress := frame.fields.byteRun settings frame.user rest
          { progress with parsed := progress.parsed + 1 }
      | .ret fields _ user parsed => ⟨fields, user, parsed, true⟩
      | .abort => ⟨parser, user, 0, true⟩

/-- More bytes after those of `progress`, unless the parser has stopped. -/
def Progress.andThen (progress : Progress σ) (more : HttpFields → σ → Progress σ) : Progress σ :=
  if progress.stopped then progress
  else
    let next := more progress.fields progress.user
    { next with parsed := progress.parsed + next.parsed }

namespace HttpFields

variable {settings : Settings σ} {parser : HttpFields} {user : σ} {ch : UInt8}

theorem byteRun_of_next {frame : Frame σ} (h : parser.byteStep settings user ch = .next frame)
    (rest : Bytes) :
    parser.byteRun settings user (ch :: rest) =
      { frame.fields.byteRun settings frame.user rest with
        parsed := (frame.fields.byteRun settings frame.user rest).parsed + 1 } := by
  simp only [byteRun, h]

theorem byteRun_of_ret {fields : HttpFields} {nread parsed : ℕ} {user' : σ}
    (h : parser.byteStep settings user ch = .ret fields nread user' parsed) (rest : Bytes) :
    parser.byteRun settings user (ch :: rest) = ⟨fields, user', parsed, true⟩ := by
  simp only [byteRun, h]

theorem byteRun_of_abort (h : parser.byteStep settings user ch = .abort) (rest : Bytes) :
    parser.byteRun settings user (ch :: rest) = ⟨parser, user, 0, true⟩ := by
  simp only [byteRun, h]

theorem byteRun_append (first rest : Bytes) :
    parser.byteRun settings user (first ++ rest) =
      (parser.byteRun settings user first).andThen fun fields user =>
        fields.byteRun settings user rest := by
  induction first generalizing parser user with
  | nil => simp [byteRun, Progress.andThen]
  | cons ch first ih =>
      rw [List.cons_append]
      cases hstep : parser.byteStep settings user ch with
      | next frame =>
          rw [byteRun_of_next hstep, byteRun_of_next hstep, ih]
          unfold Progress.andThen
          split_ifs
          · rfl
          · dsimp only
            rw [Nat.add_right_comm]
      | ret fields nread user parsed =>
          rw [byteRun_of_ret hstep, byteRun_of_ret hstep]
          rfl
      | abort =>
          rw [byteRun_of_abort hstep, byteRun_of_abort hstep]
          rfl

theorem parsed_of_not_stopped {bytes : Bytes}
    (h : (parser.byteRun settings user bytes).stopped = false) :
    (parser.byteRun settings user bytes).parsed = bytes.length := by
  induction bytes generalizing parser user with
  | nil => rfl
  | cons ch rest ih =>
      cases hstep : parser.byteStep settings user ch with
      | next frame =>
          rw [byteRun_of_next hstep] at h ⊢
          exact congrArg (· + 1) (ih h)
      | ret fields nread user parsed =>
          rw [byteRun_of_ret hstep] at h
          cases h
      | abort =>
          rw [byteRun_of_abort hstep] at h
          cases h

end HttpFields

namespace Frame

variable {settings : Settings σ} {data : Bytes} {frame : Frame σ}

/-! ## The callbacks at the end of a buffer -/

theorem run_flush_of_none {fields : HttpFields} {kinds : List DataKind}
    (h : ∀ kind, frame.marks kind = none) :
    frame.run settings data (flush fields kinds) = .next { frame with fields := fields } := by
  induction kinds with
  | nil => rfl
  | cons kind kinds ih =>
      show frame.run settings data (.data kind fields 0 0 (flush fields kinds)) = _
      rw [run_data_of_none (h kind), ih]

theorem run_flush_of_mark
    (haccepts : ∀ kind code data user, (settings (DataKind.event kind code data) user).2 = .ok)
    {fields : HttpFields} {kinds : List DataKind} {kind : DataKind} {i : ℕ}
    (hmem : kind ∈ kinds) (hmark : frame.marks kind = some i)
    (honly : ∀ k, k ≠ kind → frame.marks k = none) (hi : i ≤ frame.p)
    (hinside : frame.p ≤ data.length) :
    frame.run settings data (flush fields kinds) = .next { frame with
      fields := fields
      user := (settings (kind.event fields.statusCode (slice data i (frame.p - i))) frame.user).1
      marks := Function.update frame.marks kind none } := by
  induction kinds with
  | nil => simp at hmem
  | cons head kinds ih =>
      show frame.run settings data (.data head fields 0 0 (flush fields kinds)) = _
      by_cases hhead : head = kind
      · subst hhead
        have hreply : (frame.callbackData settings data head fields 0 i).2.errno
            (.cbData head) = none := by
          rw [callbackData, haccepts]
          rfl
        rw [run_data_of_ok hmark (by omega) hreply]
        have hnone : ∀ k, (frame.reported settings data head fields 0 i).marks k = none := by
          intro k
          by_cases hk : k = head
          · rw [hk]
            exact Function.update_self _ _ _
          · exact (Function.update_of_ne hk _ _).trans (honly k hk)
        rw [run_flush_of_none hnone]
        rfl
      · rw [run_data_of_none (honly head hhead)]
        exact ih ((List.mem_cons.mp hmem).resolve_left (Ne.symm hhead))

/-! ## One byte of a longer buffer -/

variable {ch : UInt8} {kind : Option DataKind}

/-- The frame owes its user the bytes from `i` on, which `user` has heard of. -/
def Owes (settings : Settings σ) (data : Bytes) (frame : Frame σ) (kind : DataKind) (i : ℕ)
    (user : σ) : Prop :=
  ∀ code rest, (settings (kind.event code rest) user).1 =
    (settings (kind.event code (slice data i (frame.p - i) ++ rest)) frame.user).1

/-- The frame of a longer buffer and that of the buffer `[ch]`, within a turn for `ch`. -/
structure Pair (settings : Settings σ) (data : Bytes) (ch : UInt8) (kind : Option DataKind)
    (frame single : Frame σ) : Prop where
  byte : data[frame.p]? = some ch
  start : single.p = 0
  marked : frame.Marked kind
  markedSingle : single.Marked kind
  user : (∀ k, frame.marks k = none) ∧ (∀ k, single.marks k = none) ∧ single.user = frame.user ∨
    ∃ k i, kind = some k ∧ frame.marks k = some i ∧ single.marks k = some 0 ∧
      Owes settings data frame k i single.user

/-- Both buffers get the same from a turn for the byte at `p`, but for what is owed. -/
def OutcomePair (settings : Settings σ) (data : Bytes) (ch : UInt8) (p : ℕ) :
    Outcome σ → Outcome σ → Prop
  | .next frame, .next single => frame.fields = single.fields ∧ frame.fields.Ok ∧ frame.p = p ∧
      Pair settings data ch frame.fields.state.openKind frame single
  | .ret fields _ user parsed, .ret fields' _ user' parsed' => fields = fields' ∧
      parsed = p + parsed' ∧ (fields.httpErrno.isSyntax = false → user = user')
  | _, _ => False

theorem slice_next {i extra : ℕ} (hbyte : data[frame.p]? = some ch) (hi : i ≤ frame.p)
    (hextra : extra ≤ 1) :
    slice data i (frame.p - i + extra) = slice data i (frame.p - i) ++ slice [ch] 0 extra := by
  obtain ⟨hlt, hch⟩ := List.getElem?_eq_some_iff.mp hbyte
  obtain rfl | rfl := Nat.le_one_iff_eq_zero_or_eq_one.mp hextra
  · simp [slice]
  · have hdrop : frame.p - i < (data.drop i).length := by
      rw [List.length_drop]
      omega
    have hget : (data.drop i)[frame.p - i] = ch := by
      rw [List.getElem_drop, ← hch]
      congr 1
      omega
    unfold slice
    rw [List.take_add_one, List.getElem?_eq_getElem hdrop, hget]
    rfl

theorem marked_of_none (h : ∀ k, frame.marks k = none) : frame.Marked none := by
  refine ⟨fun k i hi => ?_, nofun⟩
  rw [h] at hi
  cases hi

theorem none_of_marked (h : frame.Marked none) (k : DataKind) : frame.marks k = none := by
  cases hmark : frame.marks k with
  | none => rfl
  | some i => cases (h.only k i hmark).1

theorem none_of_update {old : DataKind} (h : frame.Marked (some old)) (k : DataKind) :
    Function.update frame.marks old none k = none := by
  by_cases hk : k = old
  · rw [hk, Function.update_self]
  · rw [Function.update_of_ne hk]
    cases hmark : frame.marks k with
    | none => rfl
    | some i => exact absurd (Option.some.inj (h.only k i hmark).1).symm hk

/-- Nothing is owed at a new mark. -/
theorem owes_mark (kind : DataKind) :
    Owes settings data (frame.mark kind) kind frame.p frame.user := by
  intro code rest
  show _ = (settings (kind.event code (slice data frame.p (frame.p - frame.p) ++ rest)) frame.user).1
  rw [Nat.sub_self]
  simp [slice]

namespace Pair

variable {single : Frame σ}

theorem user_of_none (h : Pair settings data ch none frame single) : single.user = frame.user := by
  obtain ⟨-, -, huser⟩ | ⟨_, _, hkind, -⟩ := h.user
  · exact huser
  · cases hkind

theorem mark (h : Pair settings data ch kind frame single) {new : DataKind}
    (hnew : kind = none ∨ kind = some new) :
    Pair settings data ch (some new) (frame.mark new) (single.mark new) := by
  refine ⟨h.byte, h.start, h.marked.mark hnew, h.markedSingle.mark hnew, .inr ?_⟩
  obtain ⟨hnone, hsingle, huser⟩ | ⟨k, i, hk, hmark, hsingle, howes⟩ := h.user
  · refine ⟨new, frame.p, rfl, ?_, ?_, ?_⟩
    · simp [Frame.mark, hnone]
    · simp [Frame.mark, hsingle, h.start]
    · exact huser ▸ owes_mark new
  · obtain rfl : k = new := by
      obtain hnone | hsome := hnew
      · rw [hnone] at hk
        cases hk
      · exact Option.some.inj (hk.symm.trans hsome)
    rw [mark_of_isSome (by rw [hmark]; rfl), mark_of_isSome (by rw [hsingle]; rfl)]
    exact ⟨k, i, rfl, hmark, hsingle, howes⟩

/-- After the callback for the mark, neither frame has one. -/
theorem closed {user : σ} (h : Pair settings data ch kind frame single)
    {marks marks' : DataKind → Option ℕ} (hmarks : ∀ k, marks k = none)
    (hmarks' : ∀ k, marks' k = none) :
    Pair settings data ch none { frame with user := user, marks := marks }
      { single with user := user, marks := marks' } :=
  ⟨h.byte, h.start, marked_of_none hmarks, marked_of_none hmarks', .inl ⟨hmarks, hmarks', rfl⟩⟩

theorem noticed (h : Pair settings data ch none frame single) (event : HttpEvent) :
    Pair settings data ch none (frame.noticed settings event) (single.noticed settings event) := by
  have hnone : ∀ k, frame.marks k = none := none_of_marked h.marked
  have hsingle : ∀ k, single.marks k = none := none_of_marked h.markedSingle
  unfold Frame.noticed
  rw [h.user_of_none]
  exact h.closed hnone hsingle

/-- A data callback. -/
theorem callback (hadd : settings.Additive) {old : DataKind} {fields : HttpFields} {extra advance : ℕ}
    (h : Pair settings data ch (some old) frame single) (hextra : extra ≤ 1) {rest : Reaction} :
    ∃ frame' single', Pair settings data ch none frame' single' ∧ frame'.p = frame.p ∧
      frame.run settings data (.data old fields extra advance rest) =
        frame'.run settings data rest ∧
      single.run settings [ch] (.data old fields extra advance rest) =
        single'.run settings [ch] rest := by
  obtain ⟨hlt, -⟩ := List.getElem?_eq_some_iff.mp h.byte
  obtain ⟨hnone, hsingle, huser⟩ | ⟨k, i, hk, hmark, hsingle, howes⟩ := h.user
  · refine ⟨frame, single, ?_, rfl, run_data_of_none (hnone old), run_data_of_none (hsingle old)⟩
    exact ⟨h.byte, h.start, marked_of_none hnone, marked_of_none hsingle,
      .inl ⟨hnone, hsingle, huser⟩⟩
  · obtain rfl : old = k := Option.some.inj hk
    have hi := (h.marked.only old i hmark).2
    have hreply : ∀ {frame : Frame σ} {data : Bytes} {i : ℕ},
        (frame.callbackData settings data old fields extra i).2.errno (.cbData old) = none := by
      intro frame data i
      rw [callbackData, hadd.ok]
      rfl
    have hin : ¬(frame.p < i ∨ data.length < frame.p + extra) := by omega
    have hinSingle : ¬(single.p < 0 ∨ [ch].length < single.p + extra) := by
      rw [h.start, List.length_singleton]
      omega
    have huser : (single.callbackData settings [ch] old fields extra 0).1 =
        (frame.callbackData settings data old fields extra i).1 := by
      unfold callbackData
      rw [h.start, howes, slice_next h.byte hi hextra, Nat.sub_self, Nat.zero_add]
    refine ⟨frame.reported settings data old fields extra i,
      single.reported settings [ch] old fields extra 0, ?_, rfl, run_data_of_ok hmark hin hreply,
      run_data_of_ok hsingle hinSingle hreply⟩
    unfold reported
    rw [huser]
    exact h.closed (none_of_update h.marked) (none_of_update h.markedSingle)

/-- The exit after a callback without data. -/
theorem failed (h : Pair settings data ch none frame single) (errno : HttpErrno)
    (fields : HttpFields) (advance : ℕ) :
    OutcomePair settings data ch frame.p (frame.fail errno fields advance)
      (single.fail errno fields advance) := by
  refine ⟨rfl, ?_, fun _ => h.user_of_none.symm⟩
  rw [h.start, Nat.zero_add]

/-- **A reaction does the same in both buffers.** -/
theorem run (hadd : settings.Additive) {reaction : Reaction} {count : Option ℕ}
    (hsound : reaction.Sound kind count) (h : Pair settings data ch kind frame single) :
    OutcomePair settings data ch frame.p (frame.run settings data reaction.free)
      (single.run settings [ch] reaction.free) := by
  induction reaction generalizing frame single kind count with
  -- Both frames go on with the same fields; a mark that was owed is still owed.
  | next fields =>
      obtain ⟨hok, -, hkind⟩ := hsound
      have hmarked := h.marked.next hkind
      have hmarkedSingle := h.markedSingle.next hkind
      refine ⟨rfl, hok, rfl, h.byte, h.start, ⟨hmarked.only, hmarked.set⟩,
        ⟨hmarkedSingle.only, hmarkedSingle.set⟩, ?_⟩
      obtain hclosed | ⟨k, i, hk, howes⟩ := h.user
      · exact .inl hclosed
      · refine .inr ⟨k, i, ?_, howes⟩
        obtain heq | ⟨hnone, -⟩ := hkind
        · exact heq.trans hk
        · rw [hnone] at hk
          cases hk
  | error errno fields =>
      refine ⟨rfl, ?_, ?_⟩
      · rw [h.start]
      · intro hnot
        exact absurd hsound (Bool.eq_false_iff.mp hnot)
  -- `leave` comes behind a callback without data, so no mark is open.
  | leave fields =>
      obtain ⟨rfl, -⟩ := hsound
      refine ⟨rfl, ?_, fun _ => h.user_of_none.symm⟩
      rw [h.start]
  | abort => exact hsound.elim
  | back rest _ => exact hsound.elim
  | mark new rest ih => exact ih hsound.2 (h.mark hsound.1)
  | resetCount rest ih => exact ih hsound h
  | assertCount rest ih => exact ih hsound.2 h
  | count bytes fields rest ih => exact ih hsound h
  -- What the single byte reports is the piece that the long buffer has on top.
  | data old fields extra advance rest ih =>
      obtain ⟨rfl, hextra, -, hrest⟩ := hsound
      obtain ⟨frame', single', hpair, hp, hframe, hsingle⟩ :=
        @callback _ settings data frame ch single hadd old fields extra advance h hextra.1 rest.free
      rw [Reaction.free, hframe, hsingle, ← hp]
      exact ih hrest hpair
  -- The user has seen the same so far, so the replies are the same.
  | notify notice fields advance rest ih =>
      obtain ⟨rfl, -, -, hrest⟩ := hsound
      have hsame : (settings notice.event single.user).2.errno (.cbNotice notice) =
          (settings notice.event frame.user).2.errno (.cbNotice notice) := by
        rw [h.user_of_none]
      rw [Reaction.free]
      cases hreply : (settings notice.event frame.user).2.errno (.cbNotice notice) with
      | some errno =>
          rw [run_notify_of_fail hreply, run_notify_of_fail (hsame.trans hreply)]
          exact (h.noticed notice.event).failed errno fields advance
      | none =>
          rw [run_notify_of_ok hreply, run_notify_of_ok (hsame.trans hreply)]
          exact ih hrest (h.noticed notice.event)
  | headersComplete fields rest skip ih ihskip =>
      obtain ⟨rfl, -, ⟨hrest, hskip⟩, -⟩ := hsound
      have hsame : (settings .headersComplete single.user).2 =
          (settings .headersComplete frame.user).2 := by
        rw [h.user_of_none]
      have hnoticed := h.noticed .headersComplete
      rw [Reaction.free]
      cases hreply : (settings .headersComplete frame.user).2 with
      | ok =>
          rw [run_headersComplete_of_ok hreply, run_headersComplete_of_ok (hsame.trans hreply)]
          exact ih hrest hnoticed
      | skip =>
          rw [run_headersComplete_of_skip hreply, run_headersComplete_of_skip (hsame.trans hreply)]
          exact ihskip hskip hnoticed
      | fail =>
          rw [run_headersComplete_of_fail hreply, run_headersComplete_of_fail (hsame.trans hreply)]
          exact hnoticed.failed _ _ _
      | pause =>
          rw [run_headersComplete_of_pause hreply,
            run_headersComplete_of_pause (hsame.trans hreply)]
          exact hnoticed.failed _ _ _

end Pair

/-! ## From byte to byte -/

/-- Between two bytes: `user` has heard of the bytes that the frame owes its user.  The mark of
a body need not be set, and the user of one-byte buffers has no mark to hear of its end. -/
def Behind (settings : Settings σ) (data : Bytes) (frame : Frame σ) (user : σ) : Prop :=
  (∀ k, frame.marks k = none) ∧ user = frame.user ∨
    ∃ k i, frame.fields.state.openKind = some k ∧ frame.marks k = some i ∧
      Owes settings data frame k i user ∧ (k = .body → ∃ code,
        user = (settings (k.event code (slice data i (frame.p - i))) frame.user).1)

/-- After a byte: `user` has heard exactly of what the frame owes its user. -/
def Reported (settings : Settings σ) (data : Bytes) (frame : Frame σ) (user : σ) : Prop :=
  (∀ k, frame.marks k = none) ∧ user = frame.user ∨
    ∃ k i, frame.fields.state.openKind = some k ∧ frame.marks k = some i ∧
      user = (settings (k.event frame.fields.statusCode (slice data i (frame.p - i))) frame.user).1

theorem Reported.behind (hadd : settings.Additive) {user : σ}
    (h : Reported settings data frame user) : Behind settings data frame user := by
  obtain hclosed | ⟨k, i, hk, hmark, huser⟩ := h
  · exact .inl hclosed
  · refine .inr ⟨k, i, hk, hmark, fun code rest => ?_, fun _ => ⟨_, huser⟩⟩
    rw [huser]
    exact (hadd.append k code _ _ rest frame.user).symm

/-- Both ways have done the same for the byte at `p`. -/
def StepPair (settings : Settings σ) (data : Bytes) (p : ℕ) : Outcome σ → Outcome σ → Prop
  | .next frame, .next single => frame.fields = single.fields ∧ frame.fields.Ok ∧ frame.p = p ∧
      frame.Marked frame.fields.state.openKind ∧
      Reported settings data { frame with p := p + 1 } single.user
  | .ret fields _ user parsed, .ret fields' _ user' parsed' => fields = fields' ∧
      parsed = p + parsed' ∧ (fields.httpErrno.isSyntax = false → user = user')
  | _, _ => False

theorem mem_kinds (kind : DataKind) : kind ∈ kinds := by
  cases kind <;> decide

theorem OutcomePair.flush (hadd : settings.Additive) {p : ℕ} {outcome outcome' : Outcome σ}
    (h : OutcomePair settings data ch p outcome outcome') :
    StepPair settings data p outcome (outcome'.flush settings ch) := by
  cases outcome with
  | next frame =>
      cases outcome' with
      | next alone =>
          obtain ⟨hfields, hok, hp, hpair⟩ := h
          rw [Outcome.flush]
          obtain ⟨hnone, hsingle, huser⟩ | ⟨k, i, hk, hmark, hsingle, howes⟩ := hpair.user
          · rw [@run_flush_of_none _ _ _ { alone with p := 1 } _ _ hsingle]
            exact ⟨hfields, hok, hp, hpair.marked, .inl ⟨hnone, huser⟩⟩
          · have honly : ∀ j, j ≠ k → alone.marks j = none := by
              intro j hj
              cases hother : alone.marks j with
              | none => rfl
              | some i' =>
                  have hj' := (hpair.markedSingle.only j i' hother).1
                  rw [hk] at hj'
                  exact absurd (Option.some.inj hj').symm hj
            rw [@run_flush_of_mark _ settings [ch] { alone with p := 1 } hadd.ok _ _ k 0 (mem_kinds k)
              hsingle honly (Nat.zero_le _) le_rfl]
            refine ⟨hfields, hok, hp, hpair.marked, .inr ⟨k, i, hk, hmark, ?_⟩⟩
            have hi := (hpair.marked.only k i hmark).2
            have hnext := slice_next hpair.byte hi le_rfl
            have hlen : frame.p - i + 1 = p + 1 - i := by omega
            rw [hlen] at hnext
            show (settings (k.event alone.fields.statusCode (slice [ch] 0 (1 - 0))) alone.user).1 =
              (settings (k.event frame.fields.statusCode (slice data i (p + 1 - i))) frame.user).1
            rw [howes, hnext, hfields]
      | ret _ _ _ _ => exact h.elim
      | abort => exact h.elim
  | ret fields nread user parsed =>
      cases outcome' with
      | next _ => exact h.elim
      | ret _ _ _ _ => exact h
      | abort => exact h.elim
  | abort => cases outcome' <;> exact h.elim

end Frame

namespace HttpFields

variable {parser : HttpFields}

/-- **The switch for one byte is sound.** -/
theorem Ok.byteReact (h : parser.Ok) (ch : UInt8) :
    (parser.byteReact ch).Sound parser.state.openKind parser.state.knownCount := by
  unfold HttpFields.byteReact
  split
  case h_1 hs =>
    have hname : parser.headerState.isName := by simpa [Fits, hs] using h.fits
    obtain ⟨i, s, hchar, hs'⟩ := fieldChar_eq hname ch
    unfold headerFieldByte
    split_ifs
    · rw [hs]
      exact h.toBase.headerFieldEnd ch
    · rw [hchar]
      exact (h.withHeader hs i hs').next (.inl hs)
  case h_2 hs =>
    unfold headerValueByte
    split_ifs
    · rw [hs]
      exact h.toBase.headerValueEnd _ _ ch
    · exact h.next (.inr hs)
    · have hchar := h.valueChar hs ch
      revert hchar
      cases parser.valueChar ch with
      | next parser' =>
          rintro ⟨hok, hs'⟩
          have hkind : parser.state.openKind = parser'.state.openKind := by rw [hs, hs']
          rw [hkind]
          exact hok.next (.inr hs')
      | invalid parser' => exact fun _ => rfl
      | abort => exact fun habort => habort
  case h_3 hs =>
    rw [hs]
    exact ⟨.inr rfl, h.bodyIdentity hs 1⟩
  case h_4 hs =>
    rw [hs]
    refine ⟨.inr rfl, h, ?_, .inl ?_⟩
    · simp [hs]
    · simp [hs, ParserState.openKind]
  case h_5 hs =>
    rw [hs]
    exact ⟨.inr rfl, h.chunkData hs 1⟩
  case h_6 hfield hvalue hidentity heof hchunk =>
    exact h.react ch ⟨hfield, hvalue, hidentity, heof, hchunk⟩

end HttpFields

namespace Frame

variable {settings : Settings σ} {data : Bytes} {frame : Frame σ} {user : σ} {ch : UInt8}

/-- A byte outside of a body. -/
theorem Behind.pair (h : Behind settings data frame user)
    (hmarked : frame.Marked frame.fields.state.openKind) (hbyte : data[frame.p]? = some ch)
    (hbody : frame.fields.state.openKind ≠ some .body) :
    Pair settings data ch frame.fields.state.openKind frame
      ((Parser.mk frame.fields 0).frame user) := by
  refine ⟨hbyte, rfl, hmarked, Parser.frame_marked ⟨frame.fields, 0⟩ user, ?_⟩
  obtain ⟨hnone, huser⟩ | ⟨k, i, hk, hmark, howes, -⟩ := h
  · refine .inl ⟨hnone, fun k => ?_, huser⟩
    simp only [Parser.frame]
    split_ifs with hfirst
    · have hopen := ParserState.openKind_of_firstMark hfirst
      have hset := hmarked.set k hopen (fun hk => hbody (hk ▸ hopen))
      rw [hnone] at hset
      cases hset
    · rfl
  · refine .inr ⟨k, i, hk, hmark, ?_, howes⟩
    have hne : k ≠ .body := fun hk' => hbody (hk' ▸ hk)
    simp only [Parser.frame]
    rw [if_pos (ParserState.firstMark_of_openKind hk hne)]

theorem marks_of_body (hbody : frame.fields.state.openKind = some .body) (k : DataKind) :
    ((Parser.mk frame.fields 0).frame user).marks k = none := by
  simp only [Parser.frame]
  rw [if_neg]
  simp [ParserState.firstMark_of_body hbody]

/-- A byte of a body, after its mark. -/
theorem Behind.pair_body (h : Behind settings data frame user)
    (hmarked : frame.Marked frame.fields.state.openKind) (hbyte : data[frame.p]? = some ch)
    (hbody : frame.fields.state.openKind = some .body) :
    Pair settings data ch (some .body) (frame.mark .body)
      (((Parser.mk frame.fields 0).frame user).mark .body) := by
  have hmarkedSingle := Parser.frame_marked ⟨frame.fields, 0⟩ user
  have hnone := @marks_of_body _ frame user hbody
  refine ⟨hbyte, rfl, hmarked.mark (.inr hbody), hmarkedSingle.mark (.inr hbody), .inr ?_⟩
  have hsingle : (((Parser.mk frame.fields 0).frame user).mark .body).marks .body = some 0 := by
    simp only [Frame.mark, Function.update_self, hnone, Option.getD_none]
    rfl
  obtain ⟨hclosed, huser⟩ | ⟨k, i, hk, hmark, howes, -⟩ := h
  · exact ⟨.body, frame.p, rfl, by simp [Frame.mark, hclosed], hsingle, huser ▸ owes_mark .body⟩
  · obtain rfl : k = .body := Option.some.inj (hk.symm.trans hbody)
    rw [mark_of_isSome (by rw [hmark]; rfl)]
    exact ⟨.body, i, rfl, hmark, hsingle, howes⟩

/-- The byte after the last one of a chunk reports the chunk, if it is not the first byte of the
buffer. -/
theorem Behind.chunkDataAlmostDone (hadd : settings.Additive) (h : Behind settings data frame user)
    (hok : frame.fields.Ok) (hs : frame.fields.state = .chunkDataAlmostDone)
    (hmarked : frame.Marked frame.fields.state.openKind) (hbyte : data[frame.p]? = some ch) :
    StepPair settings data frame.p (frame.run settings data (frame.fields.byteReact ch).free)
      (frame.fields.byteStep settings user ch) := by
  have hbody : frame.fields.state.openKind = some .body := by simp [hs, ParserState.openKind]
  obtain ⟨hchunked, hzero⟩ : frame.fields.flags.chunked ∧ frame.fields.contentLength = 0 := by
    simpa [HttpFields.Fits, hs] using hok.fits
  have hnone := @marks_of_body _ frame user hbody
  obtain ⟨hlt, -⟩ := List.getElem?_eq_some_iff.mp hbyte
  have hreact : (frame.fields.byteReact ch).free = if ch ≠ '\r'.toUInt8 then
      .error .strict frame.fields
      else ((frame.fields.goto .chunkDataDone).report .body).free := by
    simp only [HttpFields.byteReact, hs, HttpFields.react, HttpFields.chunkDataAlmostDone, hchunked,
      hzero, Bool.not_true, bne_self_eq_false, Bool.or_self, Bool.false_eq_true, if_false]
    split_ifs <;> rfl
  unfold HttpFields.byteStep
  rw [hreact]
  split_ifs
  · refine ⟨rfl, rfl, fun hnot => ?_⟩
    cases hnot
  · have hok' : (frame.fields.goto .chunkDataDone).Ok := ⟨hok.toBase.goto _, hchunked⟩
    -- In a buffer of its own the byte has nothing to report: the chunk was reported before.
    have hsingle : ((((Parser.mk frame.fields 0).frame user).run settings [ch]
        ((frame.fields.goto .chunkDataDone).report .body).free).flush settings ch) =
        .next { (Parser.mk frame.fields 0).frame user with
          fields := frame.fields.goto .chunkDataDone, p := 1 } := by
      simp only [HttpFields.report, Reaction.free]
      rw [run_data_of_none (hnone .body)]
      exact @run_flush_of_none _ settings [ch] { (Parser.mk frame.fields 0).frame user with
          fields := frame.fields.goto .chunkDataDone, p := 1 } _ _ hnone
    rw [hsingle]
    simp only [HttpFields.report, Reaction.free]
    -- In the long buffer the chunk is reported now, if the mark is in this buffer.
    obtain ⟨hclosed, huser⟩ | ⟨k, i, hk, hmark, -, hstrong⟩ := h
    · rw [run_data_of_none (hclosed .body)]
      exact ⟨rfl, hok', rfl, marked_of_none hclosed, .inl ⟨hclosed, huser⟩⟩
    · obtain rfl : k = .body := Option.some.inj (hk.symm.trans hbody)
      obtain ⟨code, huser⟩ := hstrong rfl
      have hi := (hmarked.only .body i hmark).2
      have hreply : (frame.callbackData settings data .body (frame.fields.goto .chunkDataDone) 0
          i).2.errno (.cbData .body) = none := by
        rw [callbackData, hadd.ok]
        rfl
      have hclosed := @none_of_update _ frame .body (hbody ▸ hmarked)
      rw [run_data_of_ok hmark (by omega) hreply]
      exact ⟨rfl, hok', rfl, marked_of_none hclosed, .inl ⟨hclosed, huser⟩⟩

/-- **A byte does the same in a buffer of its own.** -/
theorem Behind.step (hadd : settings.Additive) (h : Behind settings data frame user)
    (hok : frame.fields.Ok) (hmarked : frame.Marked frame.fields.state.openKind)
    (hbyte : data[frame.p]? = some ch) :
    StepPair settings data frame.p (frame.run settings data (frame.fields.byteReact ch).free)
      (frame.fields.byteStep settings user ch) := by
  have hsound := hok.byteReact ch
  by_cases hbody : frame.fields.state.openKind = some .body
  · by_cases hdone : frame.fields.state = .chunkDataAlmostDone
    · exact h.chunkDataAlmostDone hadd hok hdone hmarked hbyte
    · have hfirst := ParserState.firstMark_of_body hbody
      have hmarks : frame.fields.marksBody := by
        unfold ParserState.openKind at hbody
        unfold HttpFields.marksBody
        split at hbody <;> simp_all
      obtain ⟨rest, hreact⟩ := byteReact_of_marksBody hmarks ch
      unfold HttpFields.byteStep
      rw [hreact] at hsound ⊢
      have hrun := (h.pair_body hmarked hbyte hbody).run hadd hsound.2
      exact hrun.flush hadd
  · exact ((h.pair hmarked hbyte hbody).run hadd hsound).flush hadd

/-! ## A whole buffer -/

/-- The byte loop over a buffer and the run over its bytes, each in a buffer of its own. -/
def LoopPair (settings : Settings σ) (data : Bytes) (p : ℕ) (outcome : Outcome σ)
    (progress : Progress σ) : Prop :=
  match outcome with
  | .next frame => progress.stopped = false ∧ frame.fields = progress.fields ∧
      frame.p = p + progress.parsed ∧ frame.p = data.length ∧ frame.fields.Ok ∧
      frame.Marked frame.fields.state.openKind ∧ Reported settings data frame progress.user
  | .ret fields _ user parsed => progress.stopped = true ∧ fields = progress.fields ∧
      parsed = p + progress.parsed ∧ (fields.httpErrno.isSyntax = false → user = progress.user)
  | .abort => False

theorem LoopPair.next {p : ℕ} {outcome : Outcome σ} {progress : Progress σ}
    (h : LoopPair settings data (p + 1) outcome progress) :
    LoopPair settings data p outcome { progress with parsed := progress.parsed + 1 } := by
  have hp : p + 1 + progress.parsed = p + (progress.parsed + 1) := by omega
  cases outcome with
  | next frame =>
      obtain ⟨hstopped, hfields, hparsed, hrest⟩ := h
      exact ⟨hstopped, hfields, hparsed.trans hp, hrest⟩
  | ret fields nread user parsed =>
      obtain ⟨hstopped, hfields, hparsed, hrest⟩ := h
      exact ⟨hstopped, hfields, hparsed.trans hp, hrest⟩
  | abort => exact h

theorem Behind.loop (hadd : settings.Additive) {rest : Bytes} (hrest : rest ≠ [])
    (hdata : data.drop frame.p = rest) (h : Behind settings data frame user)
    (hok : frame.fields.Ok) (hmarked : frame.Marked frame.fields.state.openKind) :
    LoopPair settings data frame.p (frame.byteLoop settings data rest)
      (frame.fields.byteRun settings user rest) := by
  induction rest generalizing frame user with
  -- At the end of the buffer the open mark is reported by what follows the loop.
  | nil => exact absurd rfl hrest
  | cons ch rest ih =>
      have hbyte : data[frame.p]? = some ch := by
        rw [← List.head?_drop, hdata]
        rfl
      have hstep := h.step hadd hok hmarked hbyte
      rw [byteLoop]
      revert hstep
      cases frame.run settings data (frame.fields.byteReact ch).free with
      | next next =>
          cases hsingle : frame.fields.byteStep settings user ch with
          | next single =>
              rintro ⟨hfields, hok', hp, hmarked', hreported⟩
              rw [HttpFields.byteRun_of_next hsingle, ← hfields]
              apply LoopPair.next
              dsimp only
              rw [hp]
              have hdata' : data.drop (frame.p + 1) = rest := by
                rw [← List.drop_drop, hdata]
                rfl
              have hmoved := hmarked'.move (p := frame.p + 1) (by omega)
              cases rest with
              | nil =>
                  have hlength : frame.p + 1 = data.length := by
                    have hl := congrArg List.length hdata
                    rw [List.length_drop, List.length_singleton] at hl
                    omega
                  exact ⟨rfl, rfl, rfl, hlength, hok', hmoved, hreported⟩
              | cons c rest =>
                  exact @ih { next with p := frame.p + 1 } single.user (List.cons_ne_nil c rest)
                    hdata' (hreported.behind hadd) hok' hmoved
          | ret _ _ _ _ => exact fun hfalse => hfalse.elim
          | abort => exact fun hfalse => hfalse.elim
      -- A call that ends within the buffer ends both loops at this byte.
      | ret fields nread user' parsed =>
          cases hsingle : frame.fields.byteStep settings user ch with
          | next _ => exact fun hfalse => hfalse.elim
          | ret fields' nread' user'' parsed' =>
              rintro ⟨hfields, hparsed, huser⟩
              rw [HttpFields.byteRun_of_ret hsingle]
              exact ⟨rfl, hfields, hparsed, huser⟩
          | abort => exact fun hfalse => hfalse.elim
      | abort =>
          cases frame.fields.byteStep settings user ch <;> exact fun hfalse => hfalse.elim

/-- The start of a buffer. -/
theorem behind_start (parser : Parser) (user : σ) :
    Behind settings data ((parser.frame user).free parser.toHttpFields) user := by
  cases hfirst : parser.state.firstMark with
  | none =>
      refine .inl ⟨fun k => ?_, rfl⟩
      show (if parser.state.firstMark = some k then some 0 else none) = none
      rw [hfirst, if_neg (by simp)]
  | some k =>
      have hopen := ParserState.openKind_of_firstMark hfirst
      refine .inr ⟨k, 0, hopen, ?_, fun code rest => rfl, fun hbody => ?_⟩
      · show (if parser.state.firstMark = some k then some 0 else none) = some 0
        rw [if_pos hfirst]
      · rw [hbody] at hopen
        rw [ParserState.firstMark_of_body hopen] at hfirst
        cases hfirst

/-- At the end of the buffer the user hears what is owed. -/
theorem finish_of_reported (hadd : settings.Additive) (hp : frame.p = data.length)
    (hmarked : frame.Marked frame.fields.state.openKind)
    (hreported : Reported settings data frame user) :
    frame.finish settings data = .ret frame.fields frame.nread user data.length := by
  unfold Frame.finish
  rw [if_neg (Nat.not_lt.mpr hmarked.openMarks_le)]
  obtain ⟨hnone, huser⟩ | ⟨k, i, hk, hmark, huser⟩ := hreported
  · rw [run_flush_of_none hnone, huser]
  · have honly : ∀ j, j ≠ k → frame.marks j = none := by
      intro j hj
      cases hother : frame.marks j with
      | none => rfl
      | some i' =>
          have hj' := (hmarked.only j i' hother).1
          rw [hk] at hj'
          exact absurd (Option.some.inj hj').symm hj
    rw [run_flush_of_mark hadd.ok (mem_kinds k) hmark honly (hmarked.only k i hmark).2 hp.le, huser]

end Frame

namespace Parser

variable {settings : Settings σ} {parser : Parser} {user : σ} {data : Bytes}

/-- **A call does what the calls for its bytes do**, unless the limit on the size of a header
stops it.  After a syntax error the bytes that are owed are not reported. -/
theorem Valid.execute_bytes (hadd : settings.Additive) (h : parser.Valid)
    (hok : parser.httpErrno = .ok) (hdata : data ≠ []) (hsmall : data.length < 2 ^ 31) :
    ∃ parser' user' parsed,
      parser.httpParserExecute settings user data = some (parser', user', parsed) ∧
      (parser'.httpErrno = .headerOverflow ∨
        parser'.toHttpFields = (parser.byteRun settings user data).fields ∧
        parsed = (parser.byteRun settings user data).parsed ∧
        ((parser.byteRun settings user data).stopped = false → parser'.httpErrno = .ok) ∧
        (parser'.httpErrno.isSyntax = false →
          user' = (parser.byteRun settings user data).user)) := by
  have hframe := h.frame hok user data.length
  have hvalid := @Frame.Valid.loop _ settings data _ hframe data.length
  have hpair := @Frame.Behind.loop _ settings data ((parser.frame user).free parser.toHttpFields)
    user hadd data hdata rfl (Frame.behind_start parser user) hframe.ok
    ⟨hframe.marked.only, hframe.marked.set⟩
  -- The loop is the byte loop, unless the limit stops it, and that is the run over the bytes.
  have hbytes : ((parser.frame user).loop settings data data.length).Overflows ∨
      Frame.LoopPair settings data 0 ((parser.frame user).loop settings data data.length).forget
        (parser.byteRun settings user data) := by
    obtain hover | hforget := @Frame.Valid.loop_follows _ settings data _ hframe hsmall data.length
      (Nat.le_add_left _ _)
    · exact .inl hover
    · rw [hforget]
      exact .inr hpair
  unfold httpParserExecute
  rw [if_neg (not_not.mpr hok), if_neg hdata]
  revert hvalid hbytes
  cases (parser.frame user).loop settings data data.length with
  -- The buffer was read to its end, where the callbacks for the open mark follow.
  | next frame =>
      rintro - (hover | ⟨-, hfields, hparsed, hlength, hfieldsOk, hmarked, hreported⟩)
      · exact hover.elim
      · have hfinish := @Frame.finish_of_reported _ settings data frame _ hadd hlength
          ⟨hmarked.only, hmarked.set⟩ hreported
        refine ⟨⟨frame.fields, frame.nread⟩, (parser.byteRun settings user data).user, data.length,
          ?_, .inr ⟨hfields, ?_, fun _ => hfieldsOk.errno, fun _ => rfl⟩⟩
        · dsimp only
          rw [hfinish]
        · rw [← hlength]
          exact hparsed.trans (Nat.zero_add _)
  | ret fields nread user' parsed =>
      rintro - hbytes
      refine ⟨⟨fields, nread⟩, user', parsed, rfl, hbytes.imp_right ?_⟩
      rintro ⟨hstopped, hfields, hparsed, huser⟩
      refine ⟨hfields, hparsed.trans (Nat.zero_add _), fun hnot => ?_, huser⟩
      rw [hnot] at hstopped
      cases hstopped
  | abort => exact fun habort => habort.elim

/-! ## Several buffers -/

/-- The calls for the buffers of `segments`, until one of them fails or leaves bytes over. -/
def executeAll (settings : Settings σ) (parser : Parser) (user : σ) :
    List Bytes → Option (Parser × σ × ℕ)
  | [] => some (parser, user, 0)
  | data :: segments =>
      (parser.httpParserExecute settings user data).bind fun called =>
        if called.1.httpErrno = .ok ∧ called.2.2 = data.length then
          (executeAll settings called.1 called.2.1 segments).map fun rest =>
            (rest.1, rest.2.1, called.2.2 + rest.2.2)
        else some called

theorem Valid.exists_executeAll (h : parser.Valid) (segments : List Bytes) :
    ∃ result, parser.executeAll settings user segments = some result := by
  induction segments generalizing parser user with
  | nil => exact ⟨_, rfl⟩
  | cons data segments ih =>
      obtain ⟨parser', user', parsed, hexecute, hvalid, -⟩ := h.execute settings user data
      simp only [executeAll, hexecute, Option.bind_some]
      split_ifs
      · obtain ⟨result, hresult⟩ := @ih parser' user' hvalid
        exact ⟨_, by rw [hresult]; rfl⟩
      · exact ⟨_, rfl⟩

/-- The calls for the buffers of `segments` do what the calls for their bytes do. -/
theorem Valid.executeAll_bytes (hadd : settings.Additive) {segments : List Bytes}
    (h : parser.Valid) (hok : parser.httpErrno = .ok) (hne : ∀ data ∈ segments, data ≠ [])
    (hsmall : segments.flatten.length < 2 ^ 31)
    (hall : (parser.byteRun settings user segments.flatten).fields.httpErrno = .ok →
      (parser.byteRun settings user segments.flatten).parsed = segments.flatten.length) :
    ∃ parser' user' parsed, parser.executeAll settings user segments = some (parser', user', parsed) ∧
      (parser'.httpErrno = .headerOverflow ∨
        parser'.toHttpFields = (parser.byteRun settings user segments.flatten).fields ∧
        parsed = (parser.byteRun settings user segments.flatten).parsed ∧
        (parser'.httpErrno.isSyntax = false →
          user' = (parser.byteRun settings user segments.flatten).user)) := by
  induction segments generalizing parser user with
  | nil => exact ⟨parser, user, 0, rfl, .inr ⟨rfl, rfl, fun _ => rfl⟩⟩
  | cons data segments ih =>
      rw [List.flatten_cons] at hsmall hall ⊢
      rw [List.length_append] at hsmall
      obtain ⟨hdata, hrest⟩ := List.forall_mem_cons.mp hne
      obtain ⟨parser', user', parsed, hexecute, hbytes⟩ :=
        @execute_bytes _ settings parser user data hadd h hok hdata (by omega)
      obtain ⟨_, _, _, hsame, hvalid', hle⟩ := h.execute settings user data
      rw [hexecute, Option.some.injEq, Prod.mk.injEq, Prod.mk.injEq] at hsame
      obtain ⟨rfl, rfl, rfl⟩ := hsame
      have hle := hle hdata
      have happend := @HttpFields.byteRun_append _ settings parser.toHttpFields user data
        segments.flatten
      simp only [executeAll, hexecute, Option.bind_some]
      obtain hover | ⟨hfields, hparsed, hcontinue, huser⟩ := hbytes
      -- The limit has stopped this call, and there is no other one.
      · rw [if_neg (by simp [hover])]
        exact ⟨_, _, _, rfl, .inl hover⟩
      · cases hstopped : (parser.byteRun settings user data).stopped with
        | true =>
            rw [Progress.andThen, if_pos hstopped] at happend
            rw [happend, ← hfields, ← hparsed, List.length_append] at hall
            rw [happend]
            split_ifs with hgo
            · -- the parser left its loop at the last byte
              have hnil : segments = [] := by
                have hlength : segments.flatten.length = 0 := by
                  have := hall hgo.1
                  omega
                cases segments with
                | nil => rfl
                | cons head tail =>
                    rw [List.flatten_cons, List.length_append, Nat.add_eq_zero_iff] at hlength
                    exact absurd (List.length_eq_zero_iff.mp hlength.1) (hrest head (by simp))
              subst hnil
              exact ⟨_, _, _, rfl, .inr ⟨hfields, hparsed, huser⟩⟩
            · exact ⟨_, _, _, rfl, .inr ⟨hfields, hparsed, huser⟩⟩
        -- The call read its buffer, and the others start where the byte run is.
        | false =>
            have herrno := hcontinue hstopped
            have hlength := HttpFields.parsed_of_not_stopped hstopped
            have huser := huser (by rw [herrno]; rfl)
            rw [Progress.andThen, if_neg (by simp [hstopped]), ← hfields, ← huser, hlength] at happend
            rw [happend] at hall ⊢
            dsimp only at hall ⊢
            rw [List.length_append, Nat.add_left_cancel_iff] at hall
            rw [hparsed, hlength, if_pos ⟨herrno, rfl⟩]
            obtain ⟨parser'', user'', parsed, hexecute', hbytes⟩ :=
              @ih parser' user' hvalid' herrno hrest (by omega) hall
            refine ⟨parser'', user'', data.length + parsed, by rw [hexecute']; rfl, ?_⟩
            refine hbytes.imp_right fun hequal => ⟨hequal.1, ?_, hequal.2.2⟩
            rw [hequal.2.1]

/-- **It does not matter how the bytes are cut into buffers.**  For callbacks to which the pieces
of a string are as good as the whole, a call for all bytes and the calls for the segments lead to
the same parser after the same number of bytes, and without a syntax error to the same callbacks,
unless the limit on the size of a header stops one of them.  A call that leaves bytes over
without an error does so because of an upgrade. -/
theorem execute_segments (hadd : settings.Additive) {s : Parser × σ}
    (h : (calls settings).Reachable s) {segments : List Bytes} (hsegments : segments ≠ [])
    (hne : ∀ data ∈ segments, data ≠ []) (hsmall : segments.flatten.length < 2 ^ 31) :
    ∃ whole parts, s.1.httpParserExecute settings s.2 segments.flatten = some whole ∧
      s.1.executeAll settings s.2 segments = some parts ∧
      (whole.1.httpErrno ≠ .headerOverflow → parts.1.httpErrno ≠ .headerOverflow →
        (whole.1.httpErrno = .ok → whole.2.2 = segments.flatten.length) →
        parts.1.toHttpFields = whole.1.toHttpFields ∧ parts.2.2 = whole.2.2 ∧
          (whole.1.httpErrno.isSyntax = false → parts.2.1 = whole.2.1)) := by
  have hvalid := valid_of_reachable h
  obtain ⟨data, rest, rfl⟩ := List.exists_cons_of_ne_nil hsegments
  have hdata : data ≠ [] := hne data List.mem_cons_self
  have hflat : (data :: rest).flatten ≠ [] := by
    rw [List.flatten_cons]
    exact List.append_ne_nil_of_left_ne_nil hdata _
  by_cases hok : s.1.httpErrno = .ok
  · obtain ⟨parser', user', parsed, hwhole, hbytes⟩ :=
      @Valid.execute_bytes _ settings s.1 s.2 _ hadd hvalid hok hflat hsmall
    obtain ⟨parts, hparts⟩ := @Valid.exists_executeAll _ settings s.1 s.2 hvalid (data :: rest)
    refine ⟨_, parts, hwhole, hparts, fun hover hoverParts hall => ?_⟩
    obtain ⟨hfields, hparsed, -, huser⟩ := hbytes.resolve_left hover
    have hall' : (s.1.byteRun settings s.2 (data :: rest).flatten).fields.httpErrno = .ok →
        (s.1.byteRun settings s.2 (data :: rest).flatten).parsed = (data :: rest).flatten.length := by
      rw [← hfields, ← hparsed]
      exact hall
    obtain ⟨_, _, _, hparts', hbytes'⟩ := hvalid.executeAll_bytes hadd hok hne hsmall hall'
    rw [hparts, Option.some.injEq] at hparts'
    subst hparts'
    obtain ⟨hfields', hparsed', huser'⟩ := hbytes'.resolve_left hoverParts
    have hequal := hfields'.trans hfields.symm
    refine ⟨hequal, hparsed'.trans hparsed.symm, fun hinvalid => ?_⟩
    rw [huser hinvalid]
    apply huser'
    rw [hequal]
    exact hinvalid
  -- A parser in an error state reads nothing, however the bytes are cut.
  · have hwhole : s.1.httpParserExecute settings s.2 (data :: rest).flatten = some (s.1, s.2, 0) := by
      rw [httpParserExecute, if_pos hok]
    have hparts : s.1.executeAll settings s.2 (data :: rest) = some (s.1, s.2, 0) := by
      rw [executeAll, httpParserExecute, if_pos hok, Option.bind_some, if_neg (fun h => hok h.1)]
    exact ⟨_, _, hwhole, hparts, fun _ _ _ => ⟨rfl, rfl, fun _ => rfl⟩⟩

theorem additive_collect : Settings.Additive collect := by
  constructor
  · intro kind code data user
    cases kind <;> rfl
  · intro kind code code' first rest user
    cases kind <;> exact (List.append_assoc _ _ _).symm

/-- A response in three segments. -/
theorem execute_segments_response : ∃ whole parts,
    (httpParserInit .response).httpParserExecute collect []
      (text "HTTP/1.1 200 OK\r\nContent-Length: 2\r\n\r\nhi") = some whole ∧
    (httpParserInit .response).executeAll collect []
      [text "HTTP/1.1 20", text "0 OK\r\nContent-Leng", text "th: 2\r\n\r\nhi"] = some parts ∧
    parts.1.toHttpFields = whole.1.toHttpFields ∧ parts.2 = (text "OKContent-Length2hi", 40) := by
  obtain ⟨whole, parts, hwhole, hparts, hsame⟩ := @execute_segments _ collect additive_collect
    (httpParserInit .response, []) (.init ⟨.response, rfl⟩)
    [text "HTTP/1.1 20", text "0 OK\r\nContent-Leng", text "th: 2\r\n\r\nhi"] (by decide) (by decide)
    (by decide)
  have hwhole' : ((httpParserInit .response).httpParserExecute collect []
      (text "HTTP/1.1 200 OK\r\nContent-Length: 2\r\n\r\nhi")).map
        (fun result => (result.1.httpErrno, result.2)) =
      some (.ok, text "OKContent-Length2hi", 40) := by decide +kernel
  have hparts' : ((httpParserInit .response).executeAll collect []
      [text "HTTP/1.1 20", text "0 OK\r\nContent-Leng", text "th: 2\r\n\r\nhi"]).map
        (fun result => result.1.httpErrno) = some .ok := by decide +kernel
  have hflat : [text "HTTP/1.1 20", text "0 OK\r\nContent-Leng", text "th: 2\r\n\r\nhi"].flatten =
      text "HTTP/1.1 200 OK\r\nContent-Length: 2\r\n\r\nhi" := by decide
  rw [hflat] at hwhole
  dsimp only at hwhole hparts hsame
  rw [hwhole, Option.map_some, Option.some.injEq, Prod.mk.injEq] at hwhole'
  rw [hparts, Option.map_some, Option.some.injEq] at hparts'
  obtain ⟨herrno, hresult⟩ := hwhole'
  obtain ⟨hfields, hparsed, huser⟩ := hsame (by simp [herrno]) (by simp [hparts'])
    (fun _ => congrArg Prod.snd hresult)
  refine ⟨whole, parts, hwhole, hparts, hfields, ?_⟩
  rw [← hresult]
  exact Prod.ext (huser (by rw [herrno]; rfl)) hparsed

end Parser

end Brynet.Http
