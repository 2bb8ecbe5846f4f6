import Brynet.Http.KeepAlive
import Brynet.Http.WebSocket

/-!
# Cutting a connection into segments

A peer sends HTTP messages, then possibly a message that asks for an upgrade, and
WebSocket frames behind it.  TCP may cut these bytes anywhere.  The data handler
chooses its mode once per segment and runs at most one HTTP callback per segment,
and what is behind the upgrade in its segment is looked at again only when another
segment comes.  So the callbacks depend on the cut, except for a single message
(`segmentation_independent_iff`).

* One message: `receiveAll_part` follows the segments before its last byte, `handle_end` and
  `handle_fails` the segment that ends it; together `receiveAll_message`.
* A message with an upgrade: behind it the connection is in its WebSocket mode, where
  `receiveAll_of_isWebSocket` hands everything on to `receiveWsAll`.  What is behind the
  message in its last segment waits for the next one, so a cut after the message shows
  more than the whole at once, unless no frame is final (`independent_upgrade_iff`).
* Two messages: cut between them there are two callbacks, at once only one
  (`not_independent_of_two`).
-/

namespace Brynet.Http

/-! ## Streams -/

/-- The URL that the callbacks report. -/
def urlOf : List HttpEvent → Bytes
  | [] => []
  | .url data :: rest => data ++ urlOf rest
  | _ :: rest => urlOf rest

/-- An HTTP message and the URL in it; a response has none. -/
structure HttpMessage where
  bytes : Bytes
  url : Bytes
deriving Repr, DecidableEq

/-- `http_parser` reads all bytes of the message, reports its URL and then, once, the
end of its headers, and its end with its last byte.  If the message asks for an
upgrade the loop of `http_parser_execute` is left there. -/
structure HttpMessage.WellFormed (core : HttpCore) (upgrade : Bool) (m : HttpMessage) : Prop where
  ends : ∃ first last, m.bytes = first ++ [last] ∧ core.Runs core.init first ∧
    .messageComplete ∉ core.trace core.init first ∧
    .messageComplete ∈ (core.step (core.after core.init first) last).2.1 ∧
    (core.step (core.after core.init first) last).2.2 = if upgrade then .stop else .next
  upgrades : core.upgrade (core.after core.init m.bytes) = upgrade
  head : ∃ before after, core.trace core.init m.bytes = before ++ .headersComplete :: after ∧
    .messageComplete ∉ before ∧ .headersComplete ∉ before ∧ .headersComplete ∉ after ∧
    urlOf before = m.url ∧ urlOf after = []
  url_bytes : ∀ x ∈ m.url, isUrlByte x

/-- What one side of a connection sends: messages, then possibly one that asks for an
upgrade and the bytes of WebSocket frames. -/
structure HttpStream where
  messages : List HttpMessage
  upgrade : Option (HttpMessage × Bytes)
deriving Repr, DecidableEq

namespace HttpStream

/-- The bytes of the stream. -/
def bytes (stream : HttpStream) : Bytes :=
  stream.messages.flatMap HttpMessage.bytes ++
    stream.upgrade.elim [] fun u => u.1.bytes ++ u.2

/-- All messages of the stream. -/
def all (stream : HttpStream) : List HttpMessage :=
  stream.messages ++ stream.upgrade.toList.map Prod.fst

/-- Well-formed messages, all of them requests or all of them responses. -/
structure WellFormed (core : HttpCore) (stream : HttpStream) : Prop where
  messages : ∀ m ∈ stream.messages, m.WellFormed core false
  upgrade : ∀ u ∈ stream.upgrade, u.1.WellFormed core true
  one_side : (∀ m ∈ stream.all, m.url ≠ []) ∨ ∀ m ∈ stream.all, m.url = []

end HttpStream

/-- The segments are a way to receive `bytes`. -/
def Cuts (bytes : Bytes) (segments : List Bytes) : Prop :=
  segments.flatten = bytes ∧ ∀ s ∈ segments, s ≠ []

/-- The callbacks of a connection that receives the segments. -/
def callbacks (core : HttpCore) (segments : List Bytes) : List HttpCall :=
  ((HttpConnection.new core).receiveAll .full segments).calls.filter HttpCall.isCallback

/-- The callbacks do not depend on the cut. -/
def SegmentationIndependent (core : HttpCore) (bytes : Bytes) : Prop :=
  ∀ first second, Cuts bytes first → Cuts bytes second →
    callbacks core first = callbacks core second

theorem cuts_whole {bytes : Bytes} (hne : bytes ≠ []) : Cuts bytes [bytes] :=
  ⟨by simp, by simpa using hne⟩

theorem HttpMessage.WellFormed.bytes_ne_nil {core : HttpCore} {upgrade : Bool} {m : HttpMessage}
    (h : m.WellFormed core upgrade) : m.bytes ≠ [] := by
  obtain ⟨first, last, hbytes, -⟩ := h.ends
  simp [hbytes]

/-! ## Which callbacks succeed -/

namespace HTTPParser

variable {core : HttpCore} {parser : HTTPParser core}

theorem mUrl_sHeadComplete (parser : HTTPParser core) :
    parser.sHeadComplete.1.mUrl = parser.mUrl :=
  congrArg Surroundings.mUrl (surroundings_sHeadComplete parser)

theorem mUrl_notify (parser : HTTPParser core) (event : HttpEvent) :
    (parser.notify event).1.mUrl = parser.mUrl ++ urlOf [event] := by
  cases event with
  | headersComplete => simpa [urlOf, notify] using mUrl_sHeadComplete parser
  | headerField data =>
      show (sHeadField _ _).mUrl = _
      unfold sHeadField
      dsimp only
      split
      · split
        · simp [urlOf]
        · simpa [urlOf] using mUrl_sHeadComplete parser
      · simp [urlOf]
  | url data => simp [notify, sUrlHandle, urlOf]
  | _ => simp [notify, urlOf, sMessageBegin, sStatusHandle, sHeadValue, sBodyHandle, sMessageEnd]

theorem urlOf_cons (event : HttpEvent) (rest : List HttpEvent) :
    urlOf (event :: rest) = urlOf [event] ++ urlOf rest := by
  cases event <;> simp [urlOf]

theorem urlOf_append (first second : List HttpEvent) :
    urlOf (first ++ second) = urlOf first ++ urlOf second := by
  induction first with
  | nil => rfl
  | cons event rest ih => rw [List.cons_append, urlOf_cons, ih, ← List.append_assoc, ← urlOf_cons]

/-- Only the end of the headers can fail. -/
theorem notify_snd (parser : HTTPParser core) (event : HttpEvent) :
    (parser.notify event).2 = true ∨
      event = .headersComplete ∧ parser.mUrl ≠ [] ∧ target parser.mUrl = none := by
  cases event with
  | headersComplete =>
      show parser.sHeadComplete.2 = true ∨ _
      rw [sHeadComplete_eq]
      by_cases hnil : parser.mUrl = []
      · rw [if_pos hnil]
        exact .inl rfl
      · rw [if_neg hnil]
        cases htarget : target parser.mUrl with
        | none => exact .inr ⟨rfl, hnil, rfl⟩
        | some t => exact .inl rfl
  | _ => exact .inl rfl

theorem notifyAll_snd_of_no_head {events : List HttpEvent} (h : .headersComplete ∉ events) :
    (parser.notifyAll events).2 = true ∧
      (parser.notifyAll events).1.mUrl = parser.mUrl ++ urlOf events := by
  induction events generalizing parser with
  | nil => simp [notifyAll, urlOf]
  | cons event rest ih =>
      have hone : (parser.notify event).2 = true :=
        (notify_snd parser event).resolve_right fun hhead => h (hhead.1 ▸ List.mem_cons_self)
      rw [notifyAll_cons, if_pos hone, urlOf_cons, ← List.append_assoc, ← mUrl_notify]
      exact ih fun hmem => h (List.mem_cons_of_mem _ hmem)

/-- Whether the callbacks of a message succeed, and the URL they leave. -/
theorem notifyAll_message {before after : List HttpEvent} (hbefore : .headersComplete ∉ before)
    (hafter : .headersComplete ∉ after) :
    ((parser.notifyAll (before ++ .headersComplete :: after)).2 = true ↔
      parser.mUrl ++ urlOf before = [] ∨ (target (parser.mUrl ++ urlOf before)).isSome) ∧
    ((parser.notifyAll (before ++ .headersComplete :: after)).2 = true →
      (parser.notifyAll (before ++ .headersComplete :: after)).1.mUrl =
        parser.mUrl ++ urlOf before ++ urlOf after) := by
  obtain ⟨hok, hurl⟩ := @notifyAll_snd_of_no_head core parser before hbefore
  rw [notifyAll_append, if_pos hok, notifyAll_cons, ← hurl]
  obtain ⟨hafter, hurl'⟩ := @notifyAll_snd_of_no_head core
    ((parser.notifyAll before).1.notify .headersComplete).1 after hafter
  rw [mUrl_notify, show urlOf [.headersComplete] = [] from rfl, List.append_nil] at hurl'
  have hsuccess : ((parser.notifyAll before).1.notify .headersComplete).2 = true ↔
      (parser.notifyAll before).1.mUrl = [] ∨ (target (parser.notifyAll before).1.mUrl).isSome := by
    show (parser.notifyAll before).1.sHeadComplete.2 = true ↔ _
    rw [sHeadComplete_eq]
    split
    · rename_i hnil
      simp [hnil]
    · rename_i hne
      cases target (parser.notifyAll before).1.mUrl <;> simp [hne]
  by_cases hhead : ((parser.notifyAll before).1.notify .headersComplete).2 = true
  · rw [if_pos hhead]
    exact ⟨⟨fun _ => hsuccess.mp hhead, fun _ => hafter⟩, fun _ => hurl'⟩
  · rw [if_neg hhead]
    exact ⟨⟨fun h => absurd h (by simp), fun h => absurd (hsuccess.mpr h) hhead⟩,
      fun h => absurd h (by simp)⟩

end HTTPParser

/-! ## A message at the front of a buffer -/

namespace HTTPParser

variable {core : HttpCore} {parser : HTTPParser core}

theorem notifyAll_completes {events : List HttpEvent} (hok : (parser.notifyAll events).2 = true)
    (h : .messageComplete ∈ events) : (parser.notifyAll events).1.mISCompleted = true := by
  obtain ⟨before, after, rfl⟩ := List.append_of_mem h
  rw [notifyAll_append] at hok ⊢
  split at hok
  · rename_i hbefore
    rw [if_pos hbefore, notifyAll_cons]
    simp only [notify, if_true]
    exact notifyAll_completed after rfl
  · cases hok

theorem executeLoop_completed (bytes : Bytes) (h : parser.mISCompleted = true) :
    (parser.executeLoop bytes).1.mISCompleted = true := by
  induction bytes generalizing parser with
  | nil => exact h
  | cons b rest ih =>
      have hone : (parser.fed [b]).mISCompleted = true := notifyAll_completed _ h
      rw [executeLoop_cons]
      split
      · split
        · exact ih hone
        · exact hone
        · exact hone
      · exact hone

theorem open_new (core : HttpCore) : (new core).Open := ⟨rfl, rfl, rfl⟩

/-- Exactly one callback is due once a message is complete. -/
theorem length_completeHttp (parser : HTTPParser core) :
    ((parser.completeHttp .full).2.filter HttpCall.isCallback).length = 1 := by
  unfold completeHttp
  split
  · dsimp only
    split <;> rfl
  · rfl

theorem processHttp_completed {buffer : Bytes} (h : (parser.execute buffer).1.mISCompleted = true) :
    ((parser.processHttp .full buffer).calls.filter HttpCall.isCallback).length = 1 := by
  unfold processHttp
  by_cases hcompleted : parser.mISCompleted = true
  · simp only [hcompleted, if_true]
    exact length_completeHttp _
  · have hparsed : (parser.tryParse buffer).1.mISCompleted = true := by
      simp [tryParse, finishParse, h]
    simp only [if_neg hcompleted, hparsed, if_true]
    exact length_completeHttp _

end HTTPParser

namespace HttpMessage.WellFormed

variable {core : HttpCore} {parser : HTTPParser core} {m : HttpMessage} {upgrade : Bool}

theorem feeds_iff (h : m.WellFormed core upgrade) (hcore : parser.mParser = core.init) :
    parser.Feeds m.bytes ↔ parser.mUrl ++ m.url = [] ∨ (target (parser.mUrl ++ m.url)).isSome := by
  obtain ⟨before, after, htrace, -, hbefore, hafter, hurl, -⟩ := h.head
  unfold HTTPParser.Feeds
  rw [hcore, htrace, ← hurl]
  exact (HTTPParser.notifyAll_message hbefore hafter).1

theorem mUrl_fed (h : m.WellFormed core upgrade) (hcore : parser.mParser = core.init)
    (hfeeds : parser.Feeds m.bytes) : (parser.fed m.bytes).mUrl = parser.mUrl ++ m.url := by
  obtain ⟨before, after, htrace, -, hbefore, hafter, hurl, hurl'⟩ := h.head
  unfold HTTPParser.Feeds at hfeeds
  unfold HTTPParser.fed
  rw [hcore, htrace] at hfeeds ⊢
  have hleft := (HTTPParser.notifyAll_message hbefore hafter).2 hfeeds
  rw [hurl, hurl', List.append_nil] at hleft
  exact hleft

theorem mem_trace (h : m.WellFormed core upgrade) :
    .messageComplete ∈ core.trace core.init m.bytes := by
  obtain ⟨first, last, hbytes, -, -, hcomplete, -⟩ := h.ends
  rw [hbytes, HttpCore.trace_append]
  refine List.mem_append_right _ ?_
  simpa [HttpCore.trace] using hcomplete

/-- The message is complete after its callbacks. -/
theorem completed_fed (h : m.WellFormed core upgrade) (hcore : parser.mParser = core.init)
    (hfeeds : parser.Feeds m.bytes) : (parser.fed m.bytes).mISCompleted = true := by
  unfold HTTPParser.Feeds at hfeeds
  unfold HTTPParser.fed
  rw [hcore] at hfeeds ⊢
  exact HTTPParser.notifyAll_completes hfeeds h.mem_trace

theorem runs (h : m.WellFormed core false) : core.Runs core.init m.bytes := by
  obtain ⟨first, last, hbytes, hruns, -, -, hresult⟩ := h.ends
  rw [hbytes, HttpCore.runs_append]
  exact ⟨hruns, hresult, trivial⟩

/-- The loop over a message that asks for no upgrade goes on behind it. -/
theorem executeLoop_plain (h : m.WellFormed core false) (hcore : parser.mParser = core.init)
    (hfeeds : parser.Feeds m.bytes) (rest : Bytes) :
    (parser.executeLoop (m.bytes ++ rest)).1 = ((parser.fed m.bytes).executeLoop rest).1 := by
  rw [HTTPParser.executeLoop_append_of_feeds (by rw [hcore]; exact h.runs) hfeeds]

/-- The loop over a message that asks for an upgrade ends with it. -/
theorem executeLoop_upgrade (h : m.WellFormed core true) (hcore : parser.mParser = core.init)
    (hfeeds : parser.Feeds m.bytes) (rest : Bytes) :
    parser.executeLoop (m.bytes ++ rest) = (parser.fed m.bytes, m.bytes.length) := by
  obtain ⟨first, last, hbytes, hruns, -, -, hresult⟩ := h.ends
  rw [hbytes] at hfeeds ⊢
  obtain ⟨hfirst, hlast⟩ := (HTTPParser.feeds_append first [last]).mp hfeeds
  rw [← hcore] at hruns hresult
  rw [List.append_assoc, HTTPParser.executeLoop_append_of_feeds hruns hfirst, List.singleton_append,
    HTTPParser.executeLoop_cons, if_pos hlast]
  rw [show core.step (parser.fed first).mParser last =
    core.step (core.after parser.mParser first) last from rfl, hresult]
  simp [HTTPParser.fed_append hfirst, Nat.add_comm]

/-- A buffer that begins with a message leads to exactly one callback. -/
theorem handle_one (h : m.WellFormed core upgrade) (hopen : parser.Open)
    (hcore : parser.mParser = core.init) (hfeeds : parser.Feeds m.bytes) (rest : Bytes) :
    ((parser.handle .full (m.bytes ++ rest)).calls.filter HttpCall.isCallback).length = 1 := by
  rw [HTTPParser.handle_of_not_isWebSocket _ _ hopen.socket]
  apply HTTPParser.processHttp_completed
  rw [HTTPParser.execute, hopen.errno]
  show (parser.executeLoop (m.bytes ++ rest)).1.mISCompleted = true
  have hcompleted := h.completed_fed hcore hfeeds
  cases upgrade with
  | false =>
      rw [h.executeLoop_plain hcore hfeeds]
      exact HTTPParser.executeLoop_completed rest hcompleted
  | true =>
      rw [h.executeLoop_upgrade hcore hfeeds]
      exact hcompleted

/-- A message whose URL has no path is not completed. -/
theorem completed_fed_of_not_feeds (h : m.WellFormed core upgrade)
    (hcore : parser.mParser = core.init) (hfails : ¬parser.Feeds m.bytes)
    (hpart : parser.mISCompleted = false) : (parser.fed m.bytes).mISCompleted = false := by
  obtain ⟨before, after, htrace, hcomplete, hbefore, hafter, -, -⟩ := h.head
  obtain ⟨hok, -⟩ := @HTTPParser.notifyAll_snd_of_no_head core parser before hbefore
  unfold HTTPParser.Feeds at hfails
  unfold HTTPParser.fed
  rw [hcore, htrace, HTTPParser.notifyAll_append, if_pos hok, HTTPParser.notifyAll_cons] at hfails ⊢
  split at hfails
  · exact absurd (HTTPParser.notifyAll_snd_of_no_head hafter).1 hfails
  · rename_i hhead
    rw [if_neg hhead]
    show ((parser.notifyAll before).1.notify .headersComplete).1.mISCompleted = false
    rw [(HTTPParser.notify_frame _ _).2.2 (by simp),
      (HTTPParser.notifyAll_frame parser before).2.2 hcomplete, hpart]

/-- The loop over a message whose URL has no path fails in it, whatever follows. -/
theorem executeLoop_fails (h : m.WellFormed core upgrade) (hcore : parser.mParser = core.init)
    (hfails : ¬parser.Feeds m.bytes) : ∃ s n, ∀ rest, parser.executeLoop (m.bytes ++ rest) =
      (((parser.fed m.bytes).withCore s).withError, n) := by
  obtain ⟨first, last, hbytes, hruns, -, -, -⟩ := h.ends
  rw [← hcore] at hruns
  rw [hbytes] at hfails ⊢
  rw [HTTPParser.feeds_append] at hfails
  by_cases hfirst : parser.Feeds first
  · have hlast : ¬(parser.fed first).Feeds [last] := fun hlast => hfails ⟨hfirst, hlast⟩
    refine ⟨((parser.fed first).fed [last]).mParser, first.length, fun rest => ?_⟩
    rw [List.append_assoc, HTTPParser.executeLoop_append_of_feeds hruns hfirst,
      List.singleton_append, HTTPParser.executeLoop_cons, if_neg hlast,
      HTTPParser.fed_append hfirst, Nat.zero_add]
    rfl
  · obtain ⟨s, n, hloop⟩ := HTTPParser.executeLoop_append_of_not_feeds hruns hfirst
    refine ⟨s, n, fun rest => ?_⟩
    rw [List.append_assoc, hloop, HTTPParser.fed_append_of_not_feeds hfirst]
    rfl

end HttpMessage.WellFormed

/-! ## The segments up to the end of a message -/

/-- The segment in which the first part of the bytes ends. -/
theorem exists_segment {segments : List Bytes} {first rest : Bytes} (hne : first ≠ [])
    (h : segments.flatten = first ++ rest) :
    ∃ before y x after, segments = before ++ (y ++ x) :: after ∧ first = before.flatten ++ y ∧
      y ≠ [] ∧ rest = x ++ after.flatten := by
  induction segments generalizing first with
  | nil =>
      rw [List.flatten_nil] at h
      exact absurd (List.append_eq_nil_iff.mp h.symm).1 hne
  | cons segment tail ih =>
      rw [List.flatten_cons] at h
      rcases List.append_eq_append_iff.mp h with ⟨part, rfl, hrest⟩ | ⟨x, rfl, hrest⟩
      · by_cases hpart : part = []
        · refine ⟨[], segment, [], tail, by simp, by simp [hpart], ?_, by simpa [hpart] using hrest.symm⟩
          rintro rfl
          exact hne (by simp [hpart])
        · obtain ⟨before, y, x, after, rfl, rfl, hy, rfl⟩ := ih hpart hrest
          exact ⟨segment :: before, y, x, after, rfl, by simp, hy, rfl⟩
      · exact ⟨[], first, x, tail, rfl, rfl, hne, hrest⟩

namespace HttpMessage.WellFormed

variable {core : HttpCore} {parser : HTTPParser core} {m : HttpMessage} {upgrade : Bool}
  {b y : Bytes}

/-- A proper prefix of a message is read and completes nothing. -/
theorem runs_part (h : m.WellFormed core upgrade) (hsplit : m.bytes = b ++ y) (hy : y ≠ []) :
    core.Runs core.init b ∧ .messageComplete ∉ core.trace core.init b := by
  obtain ⟨first, last, hbytes, hruns, hnot, -, -⟩ := h.ends
  obtain ⟨y', z, rfl⟩ := List.eq_nil_or_concat y |>.resolve_left hy
  rw [hsplit, List.concat_eq_append, ← List.append_assoc] at hbytes
  obtain ⟨rfl, -⟩ := List.append_inj' hbytes rfl
  exact ⟨((HttpCore.runs_append b y').mp hruns).1, fun hmem =>
    hnot (by rw [HttpCore.trace_append]; exact List.mem_append_left _ hmem)⟩

/-- The parser in the middle of a message. -/
theorem open_part (h : m.WellFormed core upgrade) (hopen : parser.Open)
    (hcore : parser.mParser = core.init) (hsplit : m.bytes = b ++ y) (hy : y ≠ []) :
    (parser.fed b).Open := by
  refine hopen.fed (hopen.completed_fed ?_)
  rw [hcore]
  exact (h.runs_part hsplit hy).2

/-- The last segment of a message, and what follows it if the message asks for an
upgrade. -/
theorem handle_end (h : m.WellFormed core upgrade) (hopen : parser.Open)
    (hcore : parser.mParser = core.init) (hfeeds : parser.Feeds m.bytes)
    (hsplit : m.bytes = b ++ y) (hy : y ≠ []) {x : Bytes} (hx : upgrade = true ∨ x = []) :
    (parser.fed b).handle .full (y ++ x) =
      ⟨((parser.fed m.bytes).finishParse.completeHttp .full).1, y.length,
        ((parser.fed m.bytes).finishParse.completeHttp .full).2⟩ := by
  -- The loop ends with the message, whatever stands behind it.
  have hloop : parser.executeLoop (m.bytes ++ x) = (parser.fed m.bytes, m.bytes.length) := by
    rcases hx with rfl | rfl
    · exact h.executeLoop_upgrade hcore hfeeds x
    · cases upgrade with
      | true => exact h.executeLoop_upgrade hcore hfeeds []
      | false =>
          rw [List.append_nil]
          exact HTTPParser.executeLoop_of_feeds (by rw [hcore]; exact h.runs) hfeeds
  have hcompleted := h.completed_fed hcore hfeeds
  have hopen' := h.open_part hopen hcore hsplit hy
  have hruns := (h.runs_part hsplit hy).1
  rw [hsplit] at hfeeds hloop hcompleted ⊢
  have hb := ((HTTPParser.feeds_append b y).mp hfeeds).1
  rw [List.append_assoc, HTTPParser.executeLoop_append_of_feeds (by rw [hcore]; exact hruns) hb,
    Prod.mk.injEq, List.length_append] at hloop
  have hexecute : (parser.fed b).execute (y ++ x) = (parser.fed (b ++ y), y.length) := by
    rw [HTTPParser.execute, hopen'.errno]
    refine Prod.ext hloop.1 ?_
    show ((parser.fed b).executeLoop (y ++ x)).2 = y.length
    omega
  have hfinished : (parser.fed (b ++ y)).finishParse.mISCompleted = true := by
    simp [HTTPParser.finishParse, hcompleted]
  rw [HTTPParser.handle_of_not_isWebSocket _ _ hopen'.socket]
  simp [HTTPParser.processHttp, hopen'.completed, HTTPParser.tryParse, hexecute, hfinished]

/-- The segment in which a message without a path fails. -/
theorem handle_fails (h : m.WellFormed core upgrade) (hopen : parser.Open)
    (hcore : parser.mParser = core.init) (hfails : ¬parser.Feeds m.bytes)
    (hsplit : m.bytes = b ++ y) (hy : y ≠ []) (hb : parser.Feeds b) (x : Bytes) :
    ((parser.fed b).handle .full (y ++ x)).calls = [] ∧
      ((parser.fed b).handle .full (y ++ x)).parser.Stuck := by
  obtain ⟨s, n, hloop⟩ := h.executeLoop_fails hcore hfails
  have hpart := h.completed_fed_of_not_feeds hcore hfails hopen.completed
  have hsocket := (HTTPParser.fed_frame parser m.bytes).2.1.trans hopen.socket
  have hopen' := h.open_part hopen hcore hsplit hy
  have hruns := (h.runs_part hsplit hy).1
  have hloop := hloop x
  rw [hsplit, List.append_assoc, HTTPParser.executeLoop_append_of_feeds (by rw [hcore]; exact hruns) hb,
    Prod.mk.injEq] at hloop
  have hcompleted : (((parser.fed (b ++ y)).withCore s).withError).mISCompleted = false := by
    rw [← hsplit]
    exact hpart
  rw [HTTPParser.handle_of_not_isWebSocket _ _ hopen'.socket]
  simp only [HTTPParser.processHttp, hopen'.completed, Bool.false_eq_true, if_false,
    HTTPParser.tryParse, HTTPParser.execute, hopen'.errno, hloop.1, HTTPParser.finishParse, hcompleted]
  exact ⟨trivial, by rw [← hsplit]; exact hsocket, rfl, hcompleted⟩

end HttpMessage.WellFormed

namespace HttpConnection

variable {core : HttpCore} {parser : HTTPParser core} {m : HttpMessage} {upgrade : Bool}

/-- Segments in the middle of a message make no call. -/
theorem receiveAll_part (h : m.WellFormed core upgrade) (hopen : parser.Open)
    (hcore : parser.mParser = core.init) {before : List Bytes} {y : Bytes}
    (hsplit : m.bytes = before.flatten ++ y) (hy : y ≠ []) (hfeeds : parser.Feeds before.flatten) :
    receiveAll .full ⟨parser, [], []⟩ before = ⟨parser.fed before.flatten, [], []⟩ := by
  induction before using List.reverseRecOn generalizing y with
  | nil => rfl
  | append_singleton before segment ih =>
      rw [List.flatten_append, List.flatten_singleton] at hsplit hfeeds ⊢
      have hsplit' : m.bytes = before.flatten ++ (segment ++ y) := by
        rw [hsplit, List.append_assoc]
      obtain ⟨hbefore, hsegment⟩ := (HTTPParser.feeds_append _ _).mp hfeeds
      have hopen' := h.open_part hopen hcore hsplit' (by simp [hy])
      have hnext := h.open_part hopen hcore hsplit hy
      obtain ⟨hruns, -⟩ := h.runs_part hsplit hy
      rw [← hcore] at hruns
      rw [receiveAll_append, ih hsplit' (by simp [hy]) hbefore]
      rw [HTTPParser.fed_append hbefore] at hnext ⊢
      refine (receiveAll_cons _ _).trans ?_
      exact receive_part hopen' rfl ((HttpCore.runs_append _ _).mp hruns).2 hsegment hnext.completed

/-- Once upgraded, a connection only processes frames. -/
theorem receiveAll_of_isWebSocket {connection : HttpConnection core}
    (h : connection.parser.mIsWebSocket = true) (segments : List Bytes) :
    connection.receiveAll .full segments = connection.receiveWsAll .full segments := by
  induction segments generalizing connection with
  | nil => rfl
  | cons segment rest ih =>
      have hone : connection.receive .full segment = connection.receiveWs .full segment := by
        simp [receive, receiveWs, HTTPParser.handle, h]
      have hsocket : (connection.receiveWs .full segment).parser.mIsWebSocket = true :=
        (HTTPParser.mIsWebSocket_processWebSocket _ _ _).trans h
      rw [receiveAll_cons, hone, ih hsocket]
      rfl

/-- What was left behind the upgrade is looked at when a segment follows. -/
theorem calls_receiveWsAll (parser : HTTPParser core) (x : Bytes) (calls : List HttpCall)
    {segments : List Bytes} (hne : segments ≠ []) :
    (receiveWsAll .full ⟨parser, x, calls⟩ segments).calls =
      calls ++ (parser.processWebSocket .full (x ++ segments.flatten)).calls := by
  obtain ⟨segment, rest, rfl⟩ := List.exists_cons_of_ne_nil hne
  have hfirst : receiveWsAll .full ⟨parser, x, calls⟩ (segment :: rest) =
      receiveWsAll .full ⟨parser, [], calls⟩ ((x ++ segment) :: rest) := rfl
  rw [hfirst, receiveWsAll_eq, List.flatten_cons, List.flatten_cons, List.append_assoc]
  rfl

end HttpConnection

/-! ## The callbacks of a cut -/

section Callbacks

variable {core : HttpCore} {m : HttpMessage} {segments : List Bytes}

/-- What the callbacks of a message have left, with the decisions noted. -/
def completed (core : HttpCore) (m : HttpMessage) : HTTPParser core :=
  ((HTTPParser.new core).fed m.bytes).finishParse

section Ready

variable {parser : HTTPParser core} (hopen : parser.Open) (hcore : parser.mParser = core.init)
include hopen hcore

/-- A connection whose next message has no path never makes a call. -/
theorem calls_of_fails {upgrade : Bool} (h : m.WellFormed core upgrade)
    (hfails : ¬parser.Feeds m.bytes) {rest : Bytes} (hcut : Cuts (m.bytes ++ rest) segments) :
    (HttpConnection.receiveAll .full ⟨parser, [], []⟩ segments).calls = [] := by
  obtain ⟨before, y, x, after, rfl, hsplit, hy, -⟩ := exists_segment h.bytes_ne_nil hcut.1
  rw [HttpConnection.receiveAll_append]
  by_cases hb : parser.Feeds before.flatten
  · obtain ⟨hcalls, hstuck⟩ := h.handle_fails hopen hcore hfails hsplit hy hb x
    rw [HttpConnection.receiveAll_part h hopen hcore hsplit hy hb, HttpConnection.receiveAll_cons]
    refine (HttpConnection.receiveAll_stuck hstuck after).1.trans ?_
    simp [HttpConnection.receive, hcalls]
  · obtain ⟨hruns, hnot⟩ := h.runs_part hsplit hy
    rw [← hcore] at hruns hnot
    obtain ⟨hcalls, hstuck⟩ := @HttpConnection.receiveAll_fails core ⟨parser, [], []⟩ .full before
      hopen rfl hruns hb (hopen.completed_fed hnot)
    rw [(HttpConnection.receiveAll_stuck hstuck _).1, hcalls]

/-- The segments of a message up to its end, and what follows its end if it asks for
an upgrade. -/
theorem receiveAll_message {upgrade : Bool} (h : m.WellFormed core upgrade)
    (hfeeds : parser.Feeds m.bytes) {rest : Bytes}
    (hrest : upgrade = true ∨ rest = []) (hcut : segments.flatten = m.bytes ++ rest) :
    ∃ x after, rest = x ++ after.flatten ∧ (∀ s ∈ after, s ∈ segments) ∧
      HttpConnection.receiveAll .full ⟨parser, [], []⟩ segments =
        HttpConnection.receiveAll .full
          ⟨((parser.fed m.bytes).finishParse.completeHttp .full).1, x,
            ((parser.fed m.bytes).finishParse.completeHttp .full).2⟩ after := by
  obtain ⟨before, y, x, after, rfl, hsplit, hy, rfl⟩ := exists_segment h.bytes_ne_nil hcut
  have hx : upgrade = true ∨ x = [] :=
    hrest.imp_right fun hnil => (List.append_eq_nil_iff.mp hnil).1
  have hb : parser.Feeds before.flatten := by
    rw [hsplit] at hfeeds
    exact ((HTTPParser.feeds_append _ _).mp hfeeds).1
  have hend := h.handle_end hopen hcore hfeeds hsplit hy hx
  refine ⟨x, after, rfl, fun s hs => by simp [hs], ?_⟩
  rw [HttpConnection.receiveAll_append, HttpConnection.receiveAll_part h hopen hcore hsplit hy hb,
    HttpConnection.receiveAll_cons]
  congr 1
  simp [HttpConnection.receive, hend]

theorem receiveAll_single {upgrade : Bool} (h : m.WellFormed core upgrade)
    (hfeeds : parser.Feeds m.bytes) (hcut : Cuts m.bytes segments) :
    HttpConnection.receiveAll .full ⟨parser, [], []⟩ segments =
      ⟨((parser.fed m.bytes).finishParse.completeHttp .full).1, [],
        ((parser.fed m.bytes).finishParse.completeHttp .full).2⟩ := by
  obtain ⟨x, after, hnil, hafter, hreceived⟩ :=
    receiveAll_message hopen hcore h hfeeds (.inr rfl) (by rw [hcut.1, List.append_nil])
  obtain ⟨rfl, hflatten⟩ := List.append_eq_nil_iff.mp hnil.symm
  have hnone : after = [] := by
    by_contra hne
    exact HttpConnection.flatten_ne_nil hne (fun s hs => hcut.2 s (hafter s hs)) hflatten
  rw [hreceived, hnone]
  rfl

end Ready

theorem callbacks_of_fails {upgrade : Bool} (h : m.WellFormed core upgrade)
    (hfails : ¬(HTTPParser.new core).Feeds m.bytes) {rest : Bytes}
    (hcut : Cuts (m.bytes ++ rest) segments) : callbacks core segments = [] :=
  congrArg (List.filter HttpCall.isCallback)
    (calls_of_fails (HTTPParser.open_new core) rfl h hfails hcut)

/-- One message on a new connection. -/
theorem receiveAll_new {upgrade : Bool} (h : m.WellFormed core upgrade)
    (hfeeds : (HTTPParser.new core).Feeds m.bytes) (hcut : Cuts m.bytes segments) :
    (HttpConnection.new core).receiveAll .full segments =
      ⟨((completed core m).completeHttp .full).1, [], ((completed core m).completeHttp .full).2⟩ :=
  receiveAll_single (HTTPParser.open_new core) rfl h hfeeds hcut

theorem mIsWebSocket_completed {upgrade : Bool} (h : m.WellFormed core upgrade)
    (hfeeds : (HTTPParser.new core).Feeds m.bytes) :
    (completed core m).mIsWebSocket = upgrade := by
  have hcompleted := h.completed_fed rfl hfeeds
  simp only [completed, HTTPParser.finishParse, hcompleted, if_true]
  exact h.upgrades

/-- A message that asks for an upgrade: the frames behind it are looked at only if a
segment follows that in which the message ends. -/
theorem callbacks_of_upgrade (h : m.WellFormed core true)
    (hfeeds : (HTTPParser.new core).Feeds m.bytes) {rest : Bytes}
    (hcut : Cuts (m.bytes ++ rest) segments) :
    ∃ x after, rest = x ++ after.flatten ∧ callbacks core segments =
      ((completed core m).completeHttp .full).2.filter HttpCall.isCallback ++
        if after = [] then [] else ((completed core m).processWebSocket .full rest).calls := by
  obtain ⟨x, after, rfl, -, hreceived⟩ :=
    receiveAll_message (HTTPParser.open_new core) rfl h hfeeds (.inl rfl) hcut.1
  change (HttpConnection.new core).receiveAll .full segments =
    HttpConnection.receiveAll .full ⟨((completed core m).completeHttp .full).1, x,
      ((completed core m).completeHttp .full).2⟩ after at hreceived
  have hsocket := mIsWebSocket_completed h hfeeds
  have hparser : ((completed core m).completeHttp .full).1 = completed core m := by
    rw [HTTPParser.completeHttp, if_pos hsocket]
  refine ⟨x, after, rfl, ?_⟩
  rw [callbacks, hreceived, hparser, HttpConnection.receiveAll_of_isWebSocket hsocket]
  by_cases hafter : after = []
  · rw [if_pos hafter, hafter, List.append_nil]
    rfl
  · rw [if_neg hafter, HttpConnection.calls_receiveWsAll _ _ _ hafter, List.filter_append]
    congr 1
    exact List.filter_eq_self.mpr (HTTPParser.isCallback_of_mem_processWebSocket _ _ _)

/-- With a cut behind the upgrade the frames are seen. -/
theorem callbacks_upgrade_cut (h : m.WellFormed core true)
    (hfeeds : (HTTPParser.new core).Feeds m.bytes) (rest : Bytes) :
    callbacks core [m.bytes, rest] =
      ((completed core m).completeHttp .full).2.filter HttpCall.isCallback ++
        ((completed core m).processWebSocket .full rest).calls := by
  have hsocket := mIsWebSocket_completed h hfeeds
  have hparser : ((completed core m).completeHttp .full).1 = completed core m := by
    rw [HTTPParser.completeHttp, if_pos hsocket]
  have hfirst := receiveAll_new h hfeeds (cuts_whole h.bytes_ne_nil)
  rw [callbacks, show [m.bytes, rest] = [m.bytes] ++ [rest] from rfl,
    HttpConnection.receiveAll_append, hfirst, hparser,
    HttpConnection.receiveAll_of_isWebSocket hsocket,
    HttpConnection.calls_receiveWsAll _ _ _ (List.cons_ne_nil _ _), List.filter_append,
    List.flatten_singleton, List.nil_append]
  congr 1
  exact List.filter_eq_self.mpr (HTTPParser.isCallback_of_mem_processWebSocket _ _ _)

/-- In one segment only the first message is seen, or all of them as one. -/
theorem length_callbacks_whole {upgrade : Bool} (h : m.WellFormed core upgrade)
    (hfeeds : (HTTPParser.new core).Feeds m.bytes) (rest : Bytes) :
    (callbacks core [m.bytes ++ rest]).length = 1 := by
  have hone := h.handle_one (HTTPParser.open_new core) rfl hfeeds rest
  simpa [callbacks, HttpConnection.receiveAll, HttpConnection.receive, HttpConnection.new] using hone

/-- The segment behind a complete message leads to a callback: a kept-alive parser has
accepted the first URL and accepts what is appended to it, and any other has kept the
completed message. -/
theorem length_handle_next {m' : HttpMessage} {upgrade : Bool} (h : m.WellFormed core false)
    (h' : m'.WellFormed core upgrade) (hfeeds : (HTTPParser.new core).Feeds m.bytes)
    (hside : m.url ≠ [] ∨ m'.url = []) (rest : Bytes) :
    ((((completed core m).completeHttp .full).1.handle .full
      (m'.bytes ++ rest)).calls.filter HttpCall.isCallback).length = 1 := by
  have hsocket := mIsWebSocket_completed h hfeeds
  have hcompleted : (completed core m).mISCompleted = true := by
    simp [completed, HTTPParser.finishParse, h.completed_fed rfl hfeeds]
  have hfields : (completed core m).mParser = core.init ∧ (completed core m).httpErrno = false ∧
      (completed core m).mUrl = m.url := by
    have hurl := h.mUrl_fed rfl hfeeds
    simp only [completed, HTTPParser.finishParse, h.completed_fed rfl hfeeds, if_true, hurl]
    exact ⟨trivial, trivial, rfl⟩
  rw [HTTPParser.completeHttp, if_neg (by simp [hsocket])]
  dsimp only
  split
  · have hopen : (completed core m).clearParse.Open := ⟨hsocket, hfields.2.1, rfl⟩
    have hcore : (completed core m).clearParse.mParser = core.init := hfields.1
    refine h'.handle_one hopen hcore ((h'.feeds_iff hcore).mpr ?_) rest
    show (completed core m).mUrl ++ m'.url = [] ∨ (target ((completed core m).mUrl ++ m'.url)).isSome
    rw [hfields.2.2]
    rcases (h.feeds_iff rfl).mp hfeeds with hnil | hsome
    · have hurl : m.url = [] := hnil
      exact .inl (by simp [hurl, hside.resolve_left (not_not.mpr hurl)])
    · exact .inr (target_append_isSome hsome h'.url_bytes)
  · rw [HTTPParser.handle_of_not_isWebSocket _ _ hsocket]
    apply HTTPParser.processHttp_completed
    rw [HTTPParser.execute, hfields.2.1]
    exact HTTPParser.executeLoop_completed _ hcompleted

/-- With a cut behind the first message there is a callback for each part. -/
theorem length_callbacks_cut {m' : HttpMessage} {upgrade : Bool} (h : m.WellFormed core false)
    (h' : m'.WellFormed core upgrade) (hfeeds : (HTTPParser.new core).Feeds m.bytes)
    (hside : m.url ≠ [] ∨ m'.url = []) (rest : Bytes) :
    (callbacks core [m.bytes, m'.bytes ++ rest]).length = 2 := by
  have hfirst := receiveAll_new h hfeeds (cuts_whole h.bytes_ne_nil)
  have hsecond := length_handle_next h h' hfeeds hside rest
  have hcalls : callbacks core [m.bytes, m'.bytes ++ rest] =
      ((completed core m).completeHttp .full).2.filter HttpCall.isCallback ++
        (((completed core m).completeHttp .full).1.handle .full
          (m'.bytes ++ rest)).calls.filter HttpCall.isCallback := by
    rw [callbacks, show [m.bytes, m'.bytes ++ rest] = [m.bytes] ++ [m'.bytes ++ rest] from rfl,
      HttpConnection.receiveAll_append, hfirst, ← List.filter_append]
    rfl
  rw [hcalls, List.length_append, HTTPParser.length_completeHttp, hsecond]

end Callbacks

/-! ## When the cut does not matter -/

namespace HttpStream

/-- The URL of the first message has no path, so that the connection never makes a
callback; or there is one message at most, and if it asks for an upgrade no complete
frame behind it is final. -/
def Indivisible (stream : HttpStream) : Prop :=
  (∃ m ∈ stream.all.head?, m.url ≠ [] ∧ target m.url = none) ∨
    match stream.upgrade with
    | none => stream.messages.length ≤ 1
    | some u => stream.messages = [] ∧ ∀ f ∈ frames u.2, f.fin = false

end HttpStream

section Main

variable {core : HttpCore} {m : HttpMessage}

theorem not_feeds_new_iff {upgrade : Bool} (h : m.WellFormed core upgrade) :
    ¬(HTTPParser.new core).Feeds m.bytes ↔ m.url ≠ [] ∧ target m.url = none := by
  rw [h.feeds_iff rfl]
  show ¬(m.url = [] ∨ (target m.url).isSome) ↔ _
  rw [not_or, Option.not_isSome_iff_eq_none]

/-- Two messages: with a cut between them there is one callback more. -/
theorem not_independent_of_two {m' : HttpMessage} {upgrade : Bool} (h : m.WellFormed core false)
    (h' : m'.WellFormed core upgrade) (hfeeds : (HTTPParser.new core).Feeds m.bytes)
    (hside : m.url ≠ [] ∨ m'.url = []) (rest : Bytes) :
    ¬SegmentationIndependent core (m.bytes ++ (m'.bytes ++ rest)) := by
  intro hindependent
  have hne := h.bytes_ne_nil
  have hne' := h'.bytes_ne_nil
  have hsame := hindependent [m.bytes ++ (m'.bytes ++ rest)] [m.bytes, m'.bytes ++ rest]
    (cuts_whole (by simp [hne])) ⟨by simp, by simp [hne, hne']⟩
  have hwhole := length_callbacks_whole h hfeeds (m'.bytes ++ rest)
  have hcut := length_callbacks_cut h h' hfeeds hside rest
  rw [hsame, hcut] at hwhole
  omega

/-- An upgrade: a final frame is seen only if a segment follows. -/
theorem independent_upgrade_iff (h : m.WellFormed core true)
    (hfeeds : (HTTPParser.new core).Feeds m.bytes) (rest : Bytes) :
    SegmentationIndependent core (m.bytes ++ rest) ↔ ∀ f ∈ frames rest, f.fin = false := by
  have hne := h.bytes_ne_nil
  constructor
  · intro hindependent
    by_cases hrest : rest = []
    · subst hrest
      have hnone : wsFrameExtractBuffer [] [] = .error .incomplete := rfl
      simp [frames_error hnone]
    · have hsame := hindependent [m.bytes ++ rest] [m.bytes, rest] (cuts_whole (by simp [hne]))
        ⟨by simp, by simp [hne, hrest]⟩
      have hwhole := length_callbacks_whole h hfeeds rest
      rw [hsame, callbacks_upgrade_cut h hfeeds, List.length_append,
        HTTPParser.length_completeHttp] at hwhole
      have hnone : ((completed core m).processWebSocket .full rest).calls = [] :=
        List.length_eq_zero_iff.mp (by omega)
      exact (HTTPParser.processWebSocket_calls_eq_nil_iff _ rest).mp hnone
  · intro hnone first second hfirst hsecond
    have hcalls := (HTTPParser.processWebSocket_calls_eq_nil_iff (completed core m) rest).mpr hnone
    obtain ⟨_, _, -, hfirst⟩ := callbacks_of_upgrade h hfeeds hfirst
    obtain ⟨_, _, -, hsecond⟩ := callbacks_of_upgrade h hfeeds hsecond
    rw [hfirst, hsecond, hcalls, ite_self, ite_self]

theorem independent_of_fails {upgrade : Bool} (h : m.WellFormed core upgrade)
    (hfails : ¬(HTTPParser.new core).Feeds m.bytes) (rest : Bytes) :
    SegmentationIndependent core (m.bytes ++ rest) := by
  intro first second hfirst hsecond
  rw [callbacks_of_fails h hfails hfirst, callbacks_of_fails h hfails hsecond]

/-- Nothing at all can be cut in one way only. -/
theorem independent_nil (core : HttpCore) : SegmentationIndependent core [] := by
  intro first second hfirst hsecond
  have hnil : ∀ segments, Cuts [] segments → segments = [] := by
    intro segments hcut
    by_contra hne
    exact HttpConnection.flatten_ne_nil hne hcut.2 hcut.1
  rw [hnil first hfirst, hnil second hsecond]

/-- The condition of a stream whose first message is accepted. -/
theorem indivisible_iff {stream : HttpStream} {upgrade : Bool} (hfirst : stream.all.head? = some m)
    (h : m.WellFormed core upgrade) (hfeeds : (HTTPParser.new core).Feeds m.bytes) :
    stream.Indivisible ↔ match stream.upgrade with
      | none => stream.messages.length ≤ 1
      | some u => stream.messages = [] ∧ ∀ f ∈ frames u.2, f.fin = false := by
  refine or_iff_right ?_
  rintro ⟨m', hm', hrejected⟩
  obtain rfl : m' = m := Option.some.inj (hm'.symm.trans hfirst)
  exact (not_feeds_new_iff h).mpr hrejected hfeeds

/-- **When the cut does not matter.**  The callbacks are the same for all cuts exactly
if the stream is indivisible. -/
theorem segmentation_independent_iff {stream : HttpStream} (h : stream.WellFormed core) :
    SegmentationIndependent core stream.bytes ↔ stream.Indivisible := by
  obtain ⟨messages, upgrade⟩ := stream
  obtain ⟨hmessages, hupgrade, hside⟩ := h
  cases messages with
  -- No request: the upgrade alone, or nothing.
  | nil =>
      cases upgrade with
      | none => exact iff_of_true (independent_nil core) (.inr (Nat.zero_le _))
      | some u =>
          have hu := hupgrade u rfl
          show SegmentationIndependent core (u.1.bytes ++ u.2) ↔ _
          by_cases hfeeds : (HTTPParser.new core).Feeds u.1.bytes
          · rw [independent_upgrade_iff hu hfeeds, indivisible_iff rfl hu hfeeds]
            exact (and_iff_right rfl).symm
          · exact iff_of_true (independent_of_fails hu hfeeds u.2)
              (.inl ⟨u.1, rfl, (not_feeds_new_iff hu).mp hfeeds⟩)
  | cons m rest =>
      have hm := hmessages m List.mem_cons_self
      have hbytes : HttpStream.bytes ⟨m :: rest, upgrade⟩ =
          m.bytes ++ HttpStream.bytes ⟨rest, upgrade⟩ := by
        simp [HttpStream.bytes]
      rw [hbytes]
      by_cases hfeeds : (HTTPParser.new core).Feeds m.bytes
      · rw [indivisible_iff rfl hm hfeeds]
        have hurls : ∀ m' ∈ HttpStream.all ⟨rest, upgrade⟩, m.url ≠ [] ∨ m'.url = [] := fun m' hm' =>
          hside.imp (fun hall => hall m List.mem_cons_self)
            fun hall => hall m' (List.mem_cons_of_mem m hm')
        -- Two messages in one segment and in two are not answered alike.
        cases rest with
        | cons m' rest' =>
            have hm' := hmessages m' (by simp)
            refine iff_of_false ?_ ?_
            · have htwo := not_independent_of_two hm hm' hfeeds (hurls m' (by simp [HttpStream.all]))
                (HttpStream.bytes ⟨rest', upgrade⟩)
              simpa [HttpStream.bytes] using htwo
            · cases upgrade <;> simp
        | nil =>
            cases upgrade with
            | some u =>
                have hu := hupgrade u rfl
                refine iff_of_false ?_ (by simp)
                exact not_independent_of_two hm hu hfeeds (hurls u.1 (by simp [HttpStream.all])) u.2
            | none =>
                refine iff_of_true ?_ (by simp)
                intro first second hfirst hsecond
                have hend : HttpStream.bytes ⟨[], none⟩ = [] := rfl
                rw [hend, List.append_nil] at hfirst hsecond
                rw [callbacks, receiveAll_new hm hfeeds hfirst, callbacks,
                  receiveAll_new hm hfeeds hsecond]
      -- The first message is rejected, so no callback is ever made.
      · exact iff_of_true (independent_of_fails hm hfeeds _)
          (.inl ⟨m, rfl, (not_feeds_new_iff hm).mp hfeeds⟩)

end Main

/-! ## Requests -/

theorem not_mem_lines {headers : List HeaderLine} {event : HttpEvent}
    (hevent : event = .headersComplete ∨ event = .messageComplete) :
    event ∉ headers.flatMap HeaderLine.events := by
  intro hmem
  obtain ⟨line, -, hline⟩ := List.mem_flatMap.mp hmem
  rcases hevent with rfl | rfl <;> simp [HeaderLine.events] at hline

/-- Callbacks that report no URL. -/
theorem urlOf_eq_nil {events : List HttpEvent} (h : ∀ data, .url data ∉ events) :
    urlOf events = [] := by
  induction events with
  | nil => rfl
  | cons event rest ih =>
      rw [HTTPParser.urlOf_cons, ih fun data hmem => h data (List.mem_cons_of_mem _ hmem)]
      cases event with
      | url data => exact absurd List.mem_cons_self (h data)
      | _ => rfl

theorem urlOf_fragments (fragments : List Bytes) : urlOf (fragments.map .url) = fragments.flatten := by
  induction fragments with
  | nil => rfl
  | cons data rest ih => simp [urlOf, ih]

/-- A request of a kept-alive connection is a message without an upgrade. -/
theorem Request.WellFormed.httpMessage {core : HttpCore} {r : Request} (h : r.WellFormed core) :
    HttpMessage.WellFormed core false ⟨r.bytes, r.fullUrl⟩ := by
  have hne : r.bytes ≠ [] := by
    intro hnil
    have hemits := h.emits
    rw [hnil] at hemits
    exact absurd hemits.symm (List.cons_ne_nil _ _)
  -- The message is complete with its last byte, and not before.
  obtain ⟨first, last, hbytes⟩ := (List.eq_nil_or_concat r.bytes).resolve_left hne
  rw [List.concat_eq_append] at hbytes
  refine ⟨⟨first, last, hbytes, ?_⟩, h.noUpgrade, ?_, ?_⟩
  · have hruns := h.runs
    have hnot := h.completes first [last] hbytes (List.cons_ne_nil _ _)
    have hmem : .messageComplete ∈ core.trace core.init r.bytes := by
      rw [h.emits]
      simp [Request.events]
    rw [hbytes, HttpCore.runs_append] at hruns
    rw [hbytes, HttpCore.trace_append] at hmem
    have hlast := (List.mem_append.mp hmem).resolve_left hnot
    refine ⟨hruns.1, hnot, ?_, hruns.2.1⟩
    simpa [HttpCore.trace] using hlast
  · refine ⟨.messageBegin :: (r.url.map .url ++ r.headers.flatMap HeaderLine.events),
      r.body.map .body ++ [.messageComplete], ?_, ?_, ?_, ?_, ?_, ?_⟩
    · rw [h.emits, Request.events]
      simp
    · simpa using not_mem_lines (.inr rfl)
    · simpa using not_mem_lines (.inl rfl)
    · simp
    · have hlines : urlOf (r.headers.flatMap HeaderLine.events) = [] := by
        apply urlOf_eq_nil
        intro data hmem
        obtain ⟨line, -, hline⟩ := List.mem_flatMap.mp hmem
        simp [HeaderLine.events] at hline
      show urlOf (r.url.map .url ++ _) = r.fullUrl
      rw [HTTPParser.urlOf_append, hlines, List.append_nil, urlOf_fragments]
      rfl
    · apply urlOf_eq_nil
      simp
  · obtain ⟨scan, hscan⟩ := Option.isSome_iff_exists.mp h.url_scan
    exact isUrlByte_of_run hscan

/-- The request `GET url HTTP/1.1` as a message. -/
def getMessage (url : String) : HttpMessage := ⟨(getRequest url).bytes, (getRequest url).fullUrl⟩

theorem wellFormed_getMessage :
    ∀ url ∈ ["/a", "/b"], (getMessage url).WellFormed (parserCore .both) false := by
  intro url hurl
  simp only [List.mem_cons, List.not_mem_nil, or_false] at hurl
  rcases hurl with rfl | rfl
  · exact (wellFormed_getRequests "/a" (by simp)).httpMessage
  · exact (wellFormed_getRequests "/b" (by simp)).httpMessage

theorem segmentation_independent_one_request :
    HttpStream.WellFormed (parserCore .both) ⟨[getMessage "/a"], none⟩ ∧
      SegmentationIndependent (parserCore .both) (HttpStream.bytes ⟨[getMessage "/a"], none⟩) := by
  have hwf : HttpStream.WellFormed (parserCore .both) ⟨[getMessage "/a"], none⟩ :=
    ⟨by simpa using wellFormed_getMessage "/a" (by simp), by simp,
      .inl (by simp [HttpStream.all]; decide)⟩
  exact ⟨hwf, (segmentation_independent_iff hwf).mpr (.inr (Nat.le_refl 1))⟩

/-- Two requests in one segment lead to one callback, in two segments to two. -/
theorem not_segmentation_independent_two_requests :
    HttpStream.WellFormed (parserCore .both) ⟨[getMessage "/a", getMessage "/b"], none⟩ ∧
      ¬SegmentationIndependent (parserCore .both)
        (HttpStream.bytes ⟨[getMessage "/a", getMessage "/b"], none⟩) := by
  have ha := wellFormed_getMessage "/a" (by simp)
  have hb := wellFormed_getMessage "/b" (by simp)
  have hfeeds : (HTTPParser.new (parserCore .both)).Feeds (getMessage "/a").bytes :=
    (ha.feeds_iff rfl).mpr (.inr (by decide))
  refine ⟨⟨by simp [ha, hb], by simp, .inl ?_⟩, ?_⟩
  · simp [HttpStream.all]
    decide
  · have htwo := not_independent_of_two ha hb hfeeds (.inl (by decide)) []
    simpa [HttpStream.bytes] using htwo

end Brynet.Http
