import Brynet.Http.ParserCore
import Brynet.Http.WebSocket

/-!
# Callbacks and complete messages

`http_parser` raises `message_complete` once for each message, and `ProcessHttp` calls the
http callback when `mISCompleted` is set.  The flag is cleared after the callback if the
connection is kept alive.  If it is not, the flag stays, and every further segment leads to
another call, with the message that was shown before.

To compare the two, `history` is everything that happens on a connection in its order: the
events of `http_parser` and the calls out of `HttpService`.  An account of it is balanced
if at no moment there were more http callbacks than complete messages.

Counting is done segment by segment.  `countP_handle_le` bounds the callbacks of one by the
complete messages in it, for a parser that is not `Stale`, and `Covered.append` joins the
accounts of two segments.  A `Stale` parser raises no events and calls back
(`handle_of_stale`): as every further segment is one more callback
(`countP_history_of_stale`), the account is out of balance sooner or later.
-/

namespace Brynet.Http

/-! ## What happens on a connection -/

namespace HTTPParser

variable {core : HttpCore}

/-- The events of `notifyAll` whose callbacks are called. -/
def raised (parser : HTTPParser core) : List HttpEvent → List HttpEvent
  | [] => []
  | event :: rest =>
      let notified := parser.notify event
      event :: if notified.2 then notified.1.raised rest else []

/-- The events of `executeLoop`. -/
def raisedLoop (parser : HTTPParser core) : Bytes → List HttpEvent
  | [] => []
  | byte :: rest =>
      let step := core.step parser.mParser byte
      let stepped := { parser with mParser := step.1 }
      let notified := stepped.notifyAll step.2.1
      stepped.raised step.2.1 ++
        if notified.2 then
          match step.2.2 with
          | .next => notified.1.raisedLoop rest
          | .stop | .error => []
        else []

/-- The events of a call of the data handler. -/
def raisedHandle (parser : HTTPParser core) (buffer : Bytes) : List HttpEvent :=
  if parser.mIsWebSocket then []
  else if parser.mISCompleted then []
  else if parser.httpErrno then []
  else parser.raisedLoop buffer

end HTTPParser

/-- An event of `http_parser` or a call out of `HttpService`. -/
abbrev Moment := HttpEvent ⊕ HttpCall

def Moment.isComplete : Moment → Bool
  | .inl .messageComplete => true
  | _ => false

def Moment.isHttp : Moment → Bool
  | .inr (.http _) => true
  | _ => false

namespace HttpConnection

variable {core : HttpCore}

/-- What happens when a segment arrives. -/
def moments (session : HttpSession) (connection : HttpConnection core) (segment : Bytes) :
    List Moment :=
  let buffer := connection.pending ++ segment
  (connection.parser.raisedHandle buffer).map .inl ++
    (connection.parser.handle session buffer).calls.map .inr

/-- What happens when the segments arrive. -/
def history (session : HttpSession) : HttpConnection core → List Bytes → List Moment
  | _, [] => []
  | connection, segment :: rest =>
      connection.moments session segment ++ history session (connection.receive session segment) rest

end HttpConnection

/-- At no moment there were more http callbacks than complete messages. -/
def Covered (history : List Moment) : Prop :=
  ∀ past, past <+: history → past.countP Moment.isHttp ≤ past.countP Moment.isComplete

theorem covered_nil : Covered [] := by
  intro past hpast
  rw [List.prefix_nil.mp hpast]
  exact Nat.le_refl _

/-- A history may be cut into pieces that are covered. -/
theorem Covered.append {first second : List Moment} (h : Covered first) (h' : Covered second) :
    Covered (first ++ second) := by
  intro past hpast
  rcases List.prefix_or_prefix_of_prefix hpast (List.prefix_append first second) with hle | hge
  · exact h past hle
  · obtain ⟨rest, rfl⟩ := hge
    have hrest : rest <+: second := (List.prefix_append_right_inj first).mp hpast
    rw [List.countP_append, List.countP_append]
    exact Nat.add_le_add (h first (List.prefix_refl _)) (h' rest hrest)

/-- The calls of a segment come behind its events. -/
theorem covered_of_le {events : List HttpEvent} {calls : List HttpCall}
    (h : (calls.map Sum.inr).countP Moment.isHttp ≤
      (events.map Sum.inl).countP Moment.isComplete) :
    Covered (events.map Sum.inl ++ calls.map Sum.inr) := by
  have hevents : ∀ {past : List Moment}, past <+: events.map Sum.inl →
      past.countP Moment.isHttp = 0 := by
    intro past hpast
    refine List.countP_eq_zero.mpr fun moment hmem => ?_
    obtain ⟨event, -, rfl⟩ := List.mem_map.mp (hpast.subset hmem)
    simp [Moment.isHttp]
  intro past hpast
  rcases List.prefix_or_prefix_of_prefix hpast (List.prefix_append _ _) with hle | hge
  · rw [hevents hle]
    exact Nat.zero_le _
  · obtain ⟨rest, rfl⟩ := hge
    have hrest : rest <+: calls.map Sum.inr := (List.prefix_append_right_inj _).mp hpast
    have hcalls : rest.countP Moment.isHttp ≤ (calls.map Sum.inr).countP Moment.isHttp :=
      hrest.sublist.countP_le
    rw [List.countP_append, List.countP_append, hevents (List.prefix_refl _)]
    omega

/-! ## The flag and the event -/

namespace HTTPParser

variable {core : HttpCore} {parser : HTTPParser core} {session : HttpSession}

/-- The flag is set by the event. -/
theorem messageComplete_mem_raised (events : List HttpEvent) (hnot : parser.mISCompleted = false)
    (h : (parser.notifyAll events).1.mISCompleted = true) :
    .messageComplete ∈ parser.raised events := by
  induction events generalizing parser with
  | nil =>
      rw [notifyAll, hnot] at h
      cases h
  | cons event rest ih =>
      by_cases hevent : event = .messageComplete
      · rw [hevent]
        exact List.mem_cons_self
      · have hsame := (notify_frame parser event).2.2 hevent
        rw [notifyAll_cons] at h
        simp only [raised]
        refine List.mem_cons_of_mem _ ?_
        split at h
        next hok =>
          rw [if_pos hok]
          exact ih (hsame.trans hnot) h
        next hfail =>
          rw [hsame, hnot] at h
          cases h

theorem messageComplete_mem_raisedLoop (buffer : Bytes) (hnot : parser.mISCompleted = false)
    (h : (parser.executeLoop buffer).1.mISCompleted = true) :
    .messageComplete ∈ parser.raisedLoop buffer := by
  induction buffer generalizing parser with
  | nil =>
      rw [executeLoop, hnot] at h
      cases h
  | cons byte rest ih =>
      simp only [executeLoop] at h
      simp only [raisedLoop]
      generalize hstepped : { parser with mParser := (core.step parser.mParser byte).1 } = stepped
        at h ⊢
      have hstart : stepped.mISCompleted = false := by
        rw [← hstepped]
        exact hnot
      rw [List.mem_append]
      by_cases hone : (stepped.notifyAll (core.step parser.mParser byte).2.1).1.mISCompleted = true
      · exact .inl (messageComplete_mem_raised _ hstart hone)
      · -- The byte does not complete the message, so the loop goes on behind it.
        refine .inr ?_
        have hlater := Bool.eq_false_iff.mpr hone
        -- A refused callback ends the loop, and so do the last byte and an error.
        split at h
        next hok =>
          rw [if_pos hok]
          cases hresult : (core.step parser.mParser byte).2.2 with
          | next =>
              rw [hresult] at h
              exact ih hlater h
          | stop =>
              rw [hresult] at h
              exact absurd h hone
          | error =>
              rw [hresult] at h
              exact absurd h hone
        next => exact absurd h hone

/-! ## One segment -/

/-- The flag of the last message is still set, so the next segment is not parsed. -/
def Stale (parser : HTTPParser core) : Prop :=
  parser.mISCompleted = true ∧ parser.mIsWebSocket = false

instance (parser : HTTPParser core) : Decidable parser.Stale :=
  inferInstanceAs (Decidable (_ ∧ _))

theorem mISCompleted_finishParse : parser.finishParse.mISCompleted = parser.mISCompleted := by
  unfold finishParse
  split <;> rfl

/-- A complete message leads to one http callback or none. -/
theorem countP_completeHttp_le :
    ((parser.completeHttp session).2.map Sum.inr).countP Moment.isHttp ≤ 1 := by
  unfold completeHttp
  split
  · by_cases hkey : parser.hasKey (text "Sec-WebSocket-Key") = true <;>
      by_cases hset : session.mWSConnectedCallback = true <;>
        simp [callIf, hkey, hset, Moment.isHttp]
  · by_cases hset : session.mHttpRequestCallback = true <;> simp [callIf, hset, Moment.isHttp]

/-- A segment that does not find the flag set has a complete message for its callback. -/
theorem countP_handle_le (h : ¬parser.Stale) (buffer : Bytes) :
    ((parser.handle session buffer).calls.map Sum.inr).countP Moment.isHttp ≤
      ((parser.raisedHandle buffer).map Sum.inl).countP Moment.isComplete := by
  unfold handle raisedHandle
  by_cases hsocket : parser.mIsWebSocket = true
  -- After the upgrade there are only WebSocket callbacks.
  · rw [if_pos hsocket]
    refine (List.countP_eq_zero.mpr fun moment hmem => ?_).le.trans (Nat.zero_le _)
    obtain ⟨call, hcall, rfl⟩ := List.mem_map.mp hmem
    obtain ⟨opcode, payload, rfl⟩ := ws_of_mem_processWebSocket session parser buffer call hcall
    simp [Moment.isHttp]
  · have hnot : parser.mISCompleted = false := by
      by_contra hset
      exact h ⟨Bool.eq_true_of_not_eq_false hset, Bool.eq_false_iff.mpr hsocket⟩
    rw [if_neg hsocket, if_neg hsocket, if_neg (by simp [hnot])]
    unfold processHttp
    simp only [hnot, Bool.false_eq_true, if_false]
    split
    next hcompleted =>
      -- The message was completed by an event of this segment.
      have hexecute : (parser.execute buffer).1.mISCompleted = true := by
        rw [← mISCompleted_finishParse]
        exact hcompleted
      unfold execute at hexecute
      by_cases herrno : parser.httpErrno = true
      · rw [if_pos herrno, hnot] at hexecute
        cases hexecute
      · rw [if_neg herrno] at hexecute
        rw [if_neg herrno]
        have hmem := messageComplete_mem_raisedLoop buffer hnot hexecute
        have hpos : 0 < ((parser.raisedLoop buffer).map Sum.inl).countP Moment.isComplete :=
          List.countP_pos_iff.mpr ⟨.inl .messageComplete, List.mem_map_of_mem hmem, rfl⟩
        exact countP_completeHttp_le.trans hpos
    next => exact Nat.zero_le _

/-- The flag stays set only behind a message that asks for the end of the connection. -/
theorem mIsKeepAlive_of_stale {buffer : Bytes} (h : (parser.handle session buffer).parser.Stale) :
    (parser.handle session buffer).parser.mIsKeepAlive = false := by
  obtain ⟨hcompleted, hsocket⟩ := h
  revert hcompleted hsocket
  unfold handle
  split
  next hws =>
    intro _ hsocket
    rw [mIsWebSocket_processWebSocket, hws] at hsocket
    cases hsocket
  next =>
    unfold processHttp
    generalize (if parser.mISCompleted then (parser, buffer.length) else parser.tryParse buffer) =
      parsed
    dsimp only
    split
    next =>
      unfold completeHttp
      split
      next hws =>
        intro _ hsocket
        rw [hws] at hsocket
        cases hsocket
      next =>
        dsimp only
        split
        next =>
          -- The flag was cleared.
          intro hcompleted
          cases hcompleted
        next hclose =>
          intro _ _
          exact Bool.eq_false_iff.mpr hclose
    next hnot =>
      intro hcompleted
      exact absurd hcompleted hnot

/-- With the flag set a segment is not parsed, and the last message is shown again. -/
theorem handle_of_stale (h : parser.Stale) (hclose : parser.mIsKeepAlive = false)
    (buffer : Bytes) :
    parser.handle session buffer =
        ⟨parser, buffer.length, callIf session.mHttpRequestCallback (.http parser.view)⟩ ∧
      parser.raisedHandle buffer = [] := by
  obtain ⟨hcompleted, hsocket⟩ := h
  simp [handle, raisedHandle, processHttp, completeHttp, hcompleted, hsocket, hclose]

end HTTPParser

/-! ## Whole connections -/

namespace HttpConnection

variable {core : HttpCore} {session : HttpSession} {connection : HttpConnection core}

theorem history_append (first second : List Bytes) :
    connection.history session (first ++ second) =
      connection.history session first ++
        (connection.receiveAll session first).history session second := by
  induction first generalizing connection with
  | nil => rfl
  | cons segment rest ih =>
      simp only [List.cons_append, history, ih, List.append_assoc]
      rfl

/-- No segment finds the flag of an earlier message set. -/
def Prompt (session : HttpSession) (connection : HttpConnection core) (segments : List Bytes) :
    Prop :=
  ∀ first rest, segments = first ++ rest → rest ≠ [] →
    ¬(connection.receiveAll session first).parser.Stale

theorem covered_history {segments : List Bytes} (h : connection.Prompt session segments) :
    Covered (connection.history session segments) := by
  induction segments generalizing connection with
  | nil => exact covered_nil
  | cons segment rest ih =>
      have hfirst : ¬connection.parser.Stale := h [] (segment :: rest) rfl (by simp)
      refine Covered.append (covered_of_le (HTTPParser.countP_handle_le hfirst _)) (ih ?_)
      intro first last hsplit hlast
      exact h (segment :: first) last (by rw [hsplit, List.cons_append]) hlast

/-- Behind a stale parser every segment is one more http callback. -/
theorem countP_history_of_stale (hset : session.mHttpRequestCallback = true)
    (h : connection.parser.Stale) (hclose : connection.parser.mIsKeepAlive = false)
    (more : List Bytes) :
    (connection.history session more).countP Moment.isHttp = more.length ∧
      (connection.history session more).countP Moment.isComplete = 0 := by
  induction more generalizing connection with
  | nil => exact ⟨rfl, rfl⟩
  | cons segment rest ih =>
      obtain ⟨hhandle, hraised⟩ := @HTTPParser.handle_of_stale _ _ session h hclose
        (connection.pending ++ segment)
      have hparser : (connection.receive session segment).parser = connection.parser := by
        simp only [receive, hhandle]
      obtain ⟨hhttp, hcomplete⟩ := @ih (connection.receive session segment)
        (by rw [hparser]; exact h) (by rw [hparser]; exact hclose)
      have hmoments : connection.moments session segment =
          [.inr (.http connection.parser.view)] := by
        simp [moments, hhandle, hraised, callIf, hset]
      simp only [history, hmoments, List.countP_append, hhttp, hcomplete, List.length_cons]
      exact ⟨Nat.add_comm _ _, rfl⟩

end HttpConnection

/-- **One http callback per message, unless a segment finds the flag set.**  If no segment of
a connection arrives while the flag of an earlier message is still set, there are never more
http callbacks than complete messages.  Once it is set, and there is a callback to call, as
many further segments as there were messages without a callback, and one more, break this. -/
theorem one_callback_per_message (core : HttpCore) (session : HttpSession)
    (segments : List Bytes) :
    ((HttpConnection.new core).Prompt session segments →
      Covered ((HttpConnection.new core).history session segments)) ∧
    (session.mHttpRequestCallback = true →
      ((HttpConnection.new core).receiveAll session segments).parser.Stale →
      ∀ more : List Bytes,
        ((HttpConnection.new core).history session segments).countP Moment.isComplete <
          ((HttpConnection.new core).history session segments).countP Moment.isHttp +
            more.length →
        ¬Covered ((HttpConnection.new core).history session (segments ++ more))) := by
  refine ⟨HttpConnection.covered_history, fun hset hstale more hmore hcovered => ?_⟩
  have hclose : ((HttpConnection.new core).receiveAll session segments).parser.mIsKeepAlive =
      false := by
    rcases List.eq_nil_or_concat' segments with rfl | ⟨before, last, rfl⟩
    · cases hstale.1
    · rw [HttpConnection.receiveAll, List.foldl_concat] at hstale ⊢
      exact HTTPParser.mIsKeepAlive_of_stale hstale
  obtain ⟨hhttp, hcomplete⟩ := HttpConnection.countP_history_of_stale hset hstale hclose more
  have hle := hcovered _ (List.prefix_refl _)
  rw [HttpConnection.history_append, List.countP_append, List.countP_append, hhttp,
    hcomplete] at hle
  omega

/-- Two requests of a connection that is kept alive, one segment each. -/
theorem one_callback_per_message_kept_alive :
    (HttpConnection.new (parserCore .both)).Prompt .full
        [text "GET /a HTTP/1.1\r\n\r\n", text "GET /a HTTP/1.1\r\n\r\n"] ∧
      Covered ((HttpConnection.new (parserCore .both)).history .full
        [text "GET /a HTTP/1.1\r\n\r\n", text "GET /a HTTP/1.1\r\n\r\n"]) := by
  have hprompt : (HttpConnection.new (parserCore .both)).Prompt .full
      [text "GET /a HTTP/1.1\r\n\r\n", text "GET /a HTTP/1.1\r\n\r\n"] := by
    intro first rest hsplit hrest
    rcases first with _ | ⟨a, _ | ⟨b, first⟩⟩
    · decide
    · cases hsplit
      decide
    · injection hsplit with _ hsplit
      injection hsplit with _ hsplit
      exact absurd (List.append_eq_nil_iff.mp hsplit.symm).2 hrest
  exact ⟨hprompt, (one_callback_per_message (parserCore .both) .full _).1 hprompt⟩

/-- A request that asks for the end of the connection, and one byte more: two callbacks for one
message. -/
theorem not_one_callback_per_message_close :
    (((HttpConnection.new (parserCore .both)).receiveAll .full
      [text "GET /a HTTP/1.1\r\nConnection: close\r\n\r\n", text "x"]).parser.mIsWebSocket =
        false) ∧
    ¬Covered ((HttpConnection.new (parserCore .both)).history .full
      [text "GET /a HTTP/1.1\r\nConnection: close\r\n\r\n", text "x"]) := by
  refine ⟨by decide, fun hcovered => ?_⟩
  have hle := hcovered _ (List.prefix_refl _)
  revert hle
  decide

end Brynet.Http
