import Brynet.Http.Headers

/-!
# A message in segments

What the handler does with the segments of one message.  An `Open` parser is in
the middle of a message or before one; part of a message leaves it open, the rest
of it completes the message and leads to the callback, and a callback of
`http_parser` that fails leaves it `Stuck`, without another call ever.

The main result is `receiveAll_completes`: the user's callback sees what the
callbacks of all bytes of the message have left, however they were cut.
-/

namespace Brynet.Http

namespace HTTPParser

variable {core : HttpCore} {parser : HTTPParser core}

/-! ## What every callback keeps -/

theorem notify_frame (parser : HTTPParser core) (event : HttpEvent) :
    (parser.notify event).1.httpErrno = parser.httpErrno ∧
    (parser.notify event).1.mIsWebSocket = parser.mIsWebSocket ∧
    (event ≠ .messageComplete → (parser.notify event).1.mISCompleted = parser.mISCompleted) := by
  cases event with
  | headersComplete =>
      have hsame := surroundings_sHeadComplete parser
      exact ⟨congrArg Surroundings.httpErrno hsame, congrArg Surroundings.mIsWebSocket hsame,
        fun _ => congrArg Surroundings.mISCompleted hsame⟩
  | headerField data =>
      have hsame := surroundings_sHeadComplete parser
      show (sHeadField _ _).httpErrno = _ ∧ (sHeadField _ _).mIsWebSocket = _ ∧
        (_ → (sHeadField _ _).mISCompleted = _)
      unfold sHeadField
      dsimp only
      split
      · split
        · exact ⟨rfl, rfl, fun _ => rfl⟩
        · exact ⟨congrArg Surroundings.httpErrno hsame, congrArg Surroundings.mIsWebSocket hsame,
            fun _ => congrArg Surroundings.mISCompleted hsame⟩
      · exact ⟨rfl, rfl, fun _ => rfl⟩
  | messageComplete => exact ⟨rfl, rfl, fun hne => absurd rfl hne⟩
  | _ => exact ⟨rfl, rfl, fun _ => rfl⟩

theorem notifyAll_frame (parser : HTTPParser core) (events : List HttpEvent) :
    (parser.notifyAll events).1.httpErrno = parser.httpErrno ∧
    (parser.notifyAll events).1.mIsWebSocket = parser.mIsWebSocket ∧
    (.messageComplete ∉ events →
      (parser.notifyAll events).1.mISCompleted = parser.mISCompleted) := by
  induction events generalizing parser with
  | nil => exact ⟨rfl, rfl, fun _ => rfl⟩
  | cons event rest ih =>
      obtain ⟨herrno, hsocket, hcompleted⟩ := notify_frame parser event
      obtain ⟨herrno', hsocket', hcompleted'⟩ := ih (parser.notify event).1
      rw [notifyAll_cons]
      split
      · refine ⟨herrno'.trans herrno, hsocket'.trans hsocket, fun hnot => ?_⟩
        rw [hcompleted' fun hmem => hnot (List.mem_cons_of_mem _ hmem),
          hcompleted fun heq => hnot (heq ▸ List.mem_cons_self)]
      · refine ⟨herrno, hsocket, fun hnot => ?_⟩
        exact hcompleted fun heq => hnot (heq ▸ List.mem_cons_self)

end HTTPParser

/-! ## One segment -/

namespace HTTPParser

variable {core : HttpCore} {parser : HTTPParser core}

/-- A parser that reads a message: no upgrade, no error, nothing complete yet. -/
structure Open (parser : HTTPParser core) : Prop where
  socket : parser.mIsWebSocket = false
  errno : parser.httpErrno = false
  completed : parser.mISCompleted = false

/-- A parser that has met an error: it will never make a call again. -/
structure Stuck (parser : HTTPParser core) : Prop where
  socket : parser.mIsWebSocket = false
  errno : parser.httpErrno = true
  completed : parser.mISCompleted = false

theorem fed_frame (parser : HTTPParser core) (bytes : Bytes) :
    (parser.fed bytes).httpErrno = parser.httpErrno ∧
    (parser.fed bytes).mIsWebSocket = parser.mIsWebSocket ∧
    (.messageComplete ∉ core.trace parser.mParser bytes →
      (parser.fed bytes).mISCompleted = parser.mISCompleted) :=
  notifyAll_frame parser _

/-- Part of a message leaves the parser open. -/
theorem Open.fed (h : parser.Open) {bytes : Bytes}
    (hpart : (parser.fed bytes).mISCompleted = false) : (parser.fed bytes).Open := by
  obtain ⟨herrno, hsocket, -⟩ := fed_frame parser bytes
  exact ⟨hsocket.trans h.socket, herrno.trans h.errno, hpart⟩

theorem Open.completed_fed (h : parser.Open) {bytes : Bytes}
    (hpart : .messageComplete ∉ core.trace parser.mParser bytes) :
    (parser.fed bytes).mISCompleted = false :=
  ((fed_frame parser bytes).2.2 hpart).trans h.completed

/-- No callback takes a completion back. -/
theorem notifyAll_completed (events : List HttpEvent) (h : parser.mISCompleted = true) :
    (parser.notifyAll events).1.mISCompleted = true := by
  induction events generalizing parser with
  | nil => exact h
  | cons event rest ih =>
      have hone : (parser.notify event).1.mISCompleted = true := by
        by_cases heq : event = .messageComplete
        · subst heq
          rfl
        · rw [(notify_frame parser event).2.2 heq, h]
      rw [notifyAll_cons]
      split
      · exact ih hone
      · exact hone

theorem handle_of_not_isWebSocket (session : HttpSession) (buffer : Bytes)
    (h : parser.mIsWebSocket = false) :
    parser.handle session buffer = parser.processHttp session buffer := by
  simp [handle, h]

theorem Stuck.handle (h : parser.Stuck) (session : HttpSession) (buffer : Bytes) :
    parser.handle session buffer = ⟨parser, 0, []⟩ := by
  rw [handle_of_not_isWebSocket _ _ h.socket]
  simp [processHttp, h.completed, tryParse, execute, h.errno, finishParse]

theorem Open.execute (h : parser.Open) {segment : Bytes} (hruns : core.Runs parser.mParser segment)
    (hok : parser.Feeds segment) : parser.execute segment = (parser.fed segment, segment.length) := by
  rw [HTTPParser.execute, h.errno]
  exact executeLoop_of_feeds hruns hok

/-- Part of a message is read: the parser goes on where its callbacks have left
it. -/
theorem Open.handle_part (h : parser.Open) {segment : Bytes} (session : HttpSession)
    (hruns : core.Runs parser.mParser segment) (hok : parser.Feeds segment)
    (hpart : (parser.fed segment).mISCompleted = false) :
    parser.handle session segment = ⟨parser.fed segment, segment.length, []⟩ := by
  rw [handle_of_not_isWebSocket _ _ h.socket]
  simp [processHttp, h.completed, tryParse, h.execute hruns hok, finishParse, hpart]

/-- The rest of a message is read: it is handed to the callback. -/
theorem Open.handle_rest (h : parser.Open) {segment : Bytes} (session : HttpSession)
    (hruns : core.Runs parser.mParser segment) (hok : parser.Feeds segment)
    (hrest : (parser.fed segment).mISCompleted = true) :
    parser.handle session segment =
      ⟨((parser.fed segment).finishParse.completeHttp session).1, segment.length,
        ((parser.fed segment).finishParse.completeHttp session).2⟩ := by
  rw [handle_of_not_isWebSocket _ _ h.socket]
  have hcompleted : (parser.fed segment).finishParse.mISCompleted = true := by
    simp [finishParse, hrest]
  simp [processHttp, h.completed, tryParse, h.execute hruns hok, hcompleted]

/-- A callback fails: the parser is stuck. -/
theorem Open.handle_failed (h : parser.Open) {segment : Bytes} (session : HttpSession)
    (hruns : core.Runs parser.mParser segment)
    (hfail : ¬parser.Feeds segment) (hpart : (parser.fed segment).mISCompleted = false) :
    (parser.handle session segment).calls = [] ∧ (parser.handle session segment).parser.Stuck := by
  obtain ⟨s, n, hexecute⟩ := executeLoop_of_not_feeds hruns hfail
  obtain ⟨-, hsocket, -⟩ := fed_frame parser segment
  have hcompleted : ((parser.fed segment).withCore s).withError.mISCompleted = false := hpart
  rw [handle_of_not_isWebSocket _ _ h.socket]
  simp only [processHttp, h.completed, Bool.false_eq_true, if_false, tryParse, HTTPParser.execute,
    h.errno, hexecute, finishParse, hcompleted]
  exact ⟨trivial, hsocket.trans h.socket, rfl, hcompleted⟩

end HTTPParser

/-! ## All segments -/

namespace HttpConnection

variable {core : HttpCore} {connection : HttpConnection core} {session : HttpSession}

theorem receiveAll_cons (segment : Bytes) (rest : List Bytes) :
    connection.receiveAll session (segment :: rest) =
      (connection.receive session segment).receiveAll session rest := rfl

theorem receiveAll_append (first second : List Bytes) :
    connection.receiveAll session (first ++ second) =
      (connection.receiveAll session first).receiveAll session second :=
  List.foldl_append

theorem receiveAll_stuck (h : connection.parser.Stuck) (segments : List Bytes) :
    (connection.receiveAll session segments).calls = connection.calls ∧
      (connection.receiveAll session segments).parser.Stuck := by
  induction segments generalizing connection with
  | nil => exact ⟨rfl, h⟩
  | cons segment rest ih =>
      have hstuck : (connection.receive session segment).parser.Stuck := by
        simpa [receive, h.handle] using h
      have hcalls : (connection.receive session segment).calls = connection.calls := by
        simp [receive, h.handle]
      rw [receiveAll_cons]
      obtain ⟨hrest, hparser⟩ := ih hstuck
      exact ⟨hrest.trans hcalls, hparser⟩

/-- Part of a message arrives. -/
theorem receive_part {segment : Bytes} (hopen : connection.parser.Open)
    (hpending : connection.pending = []) (hruns : core.Runs connection.parser.mParser segment)
    (hok : connection.parser.Feeds segment)
    (hpart : (connection.parser.fed segment).mISCompleted = false) :
    connection.receive session segment =
      ⟨connection.parser.fed segment, [], connection.calls⟩ := by
  have hhandle := hopen.handle_part session hruns hok hpart
  simp [receive, hpending, hhandle]

theorem flatten_ne_nil {segments : List Bytes} (hne : segments ≠ [])
    (hsegments : ∀ s ∈ segments, s ≠ []) : segments.flatten ≠ [] := by
  obtain ⟨segment, rest, rfl⟩ := List.exists_cons_of_ne_nil hne
  have hfirst := hsegments segment List.mem_cons_self
  simp [hfirst]

/-- **A message in segments.**  However its bytes are cut, the callback sees what
the callbacks of all its bytes have left. -/
theorem receiveAll_completes {segments : List Bytes} (hopen : connection.parser.Open)
    (hpending : connection.pending = []) (hne : segments ≠ []) (hsegments : ∀ s ∈ segments, s ≠ [])
    (hruns : core.Runs connection.parser.mParser segments.flatten)
    (hok : connection.parser.Feeds segments.flatten)
    (hlast : (connection.parser.fed segments.flatten).mISCompleted = true)
    (hpart : ∀ first last, segments.flatten = first ++ last → last ≠ [] →
      .messageComplete ∉ core.trace connection.parser.mParser first) :
    connection.receiveAll session segments =
      ⟨((connection.parser.fed segments.flatten).finishParse.completeHttp session).1, [],
        connection.calls ++
          ((connection.parser.fed segments.flatten).finishParse.completeHttp session).2⟩ := by
  induction segments generalizing connection with
  | nil => exact absurd rfl hne
  | cons segment rest ih =>
      rw [receiveAll_cons]
      by_cases hrest : rest = []
      · subst hrest
        simp only [List.flatten_cons, List.flatten_nil, List.append_nil] at hruns hok hlast ⊢
        simp only [receiveAll, List.foldl_nil, receive, hpending, List.nil_append,
          hopen.handle_rest session hruns hok hlast, List.drop_length]
      · have hrestSegments : ∀ s ∈ rest, s ≠ [] := fun s hs =>
          hsegments s (List.mem_cons_of_mem segment hs)
        rw [List.flatten_cons] at hruns hok hlast hpart ⊢
        obtain ⟨hruns, hruns'⟩ := (HttpCore.runs_append segment rest.flatten).mp hruns
        obtain ⟨hok, hok'⟩ := (HTTPParser.feeds_append segment rest.flatten).mp hok
        have hnot := hopen.completed_fed
          (hpart segment rest.flatten rfl (flatten_ne_nil hrest hrestSegments))
        rw [receive_part hopen hpending hruns hok hnot, HTTPParser.fed_append hok]
        rw [HTTPParser.fed_append hok] at hlast
        refine ih (hopen.fed hnot) rfl hrest hrestSegments hruns' hok' hlast ?_
        intro first last hsplit hlastNe hmem
        refine hpart (segment ++ first) last (by rw [hsplit, List.append_assoc]) hlastNe ?_
        rw [HttpCore.trace_append]
        exact List.mem_append_right _ hmem

/-- A message whose callbacks fail gets the connection stuck. -/
theorem receiveAll_fails {segments : List Bytes} (hopen : connection.parser.Open)
    (hpending : connection.pending = [])
    (hruns : core.Runs connection.parser.mParser segments.flatten)
    (hfail : ¬connection.parser.Feeds segments.flatten)
    (hlast : (connection.parser.fed segments.flatten).mISCompleted = false) :
    (connection.receiveAll session segments).calls = connection.calls ∧
      (connection.receiveAll session segments).parser.Stuck := by
  induction segments generalizing connection with
  | nil => exact absurd rfl hfail
  | cons segment rest ih =>
      rw [receiveAll_cons]
      rw [List.flatten_cons] at hruns hfail hlast
      obtain ⟨hruns, hruns'⟩ := (HttpCore.runs_append segment rest.flatten).mp hruns
      by_cases hok : connection.parser.Feeds segment
      · rw [HTTPParser.feeds_append] at hfail
        rw [HTTPParser.fed_append hok] at hlast
        have hpart : (connection.parser.fed segment).mISCompleted = false := by
          by_contra hcompleted
          rw [Bool.not_eq_false] at hcompleted
          have hcontra := HTTPParser.notifyAll_completed
            (core.trace (connection.parser.fed segment).mParser rest.flatten) hcompleted
          exact Bool.false_ne_true (hlast.symm.trans hcontra)
        rw [receive_part hopen hpending hruns hok hpart]
        exact ih (hopen.fed hpart) rfl hruns' (fun hrest => hfail ⟨hok, hrest⟩) hlast
      · rw [HTTPParser.fed_append_of_not_feeds hok] at hlast
        obtain ⟨hcalls, hstuck⟩ := hopen.handle_failed session hruns hok hlast
        have hreceive : (connection.receive session segment).calls = connection.calls ∧
            (connection.receive session segment).parser.Stuck := by
          simpa [receive, hpending, hcalls] using hstuck
        obtain ⟨hrest, hparser⟩ := receiveAll_stuck hreceive.2 rest
        exact ⟨hrest.trans hreceive.1, hparser⟩

end HttpConnection

end Brynet.Http
