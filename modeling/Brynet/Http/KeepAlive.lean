import Brynet.Http.ParserCore

/-!
# Requests on one connection

A kept-alive connection reuses one `HTTPParser` for all its requests.  Between
two requests `clearParse` empties the header map, the path and the query, and
the next `messageBegin` the current line.  `mUrl` and `mBody` are emptied by
nobody: from the second request on they hold what all requests so far have
appended.

`Ready url body` is the state between two requests, with what was left behind.
`receiveAll_accepted` and `receiveAll_rejected` say what the segments of one
request do in it, and by induction `messages_eq` says what the callbacks of the
whole connection have seen.  A request shows itself undisturbed exactly if the
URLs and the bodies joined up to it show the same as its own.

The argument, one request at a time:

* `notifyAll_accepted` and `notifyAll_rejected`: what the callbacks of a request leave in
  an `HTTPParser`, depending on whether its joined URL is accepted;
* `HTTPParser.Ready.message_eq`: the message that is shown is `messageAfter`, the URL and
  the body of before with those of the request behind them;
* `messages_eq`: the induction on the requests.

With it `isolated_iff` is an equivalence for all requests and cuts.  `Undisturbed` is then
compared with a condition that can be read off from the single URLs, `Repeats`: from two
requests on they are the same, as long as no length of a URL wraps around at sixteen bits
(`undisturbed_of_repeats`, `repeats_of_undisturbed`).
-/

namespace Brynet.Http

/-- A request: its bytes, and the fragments in which `http_parser` reports its
URL, its header lines and its body. -/
structure Request where
  bytes : Bytes
  url : List Bytes
  headers : List HeaderLine
  body : List Bytes
deriving Repr, DecidableEq

namespace Request

def fullUrl (r : Request) : Bytes := r.url.flatten

def fullBody (r : Request) : Bytes := r.body.flatten

/-- The callbacks of a request. -/
def events (r : Request) : List HttpEvent :=
  .messageBegin :: (r.url.map .url ++ (r.headers.flatMap HeaderLine.events ++
    (.headersComplete :: (r.body.map .body ++ [.messageComplete]))))

/-- A well-formed request that asks neither for an upgrade nor for the end of the
connection.  `http_parser` makes its callbacks in their order, the last one at
its last byte, and has checked its URL with `parse_url_char`. -/
structure WellFormed (core : HttpCore) (r : Request) : Prop where
  runs : core.Runs core.init r.bytes
  emits : core.trace core.init r.bytes = r.events
  completes : ∀ first last, r.bytes = first ++ last → last ≠ [] →
    .messageComplete ∉ core.trace core.init first
  noUpgrade : core.upgrade (core.after core.init r.bytes) = false
  url_ne_nil : r.fullUrl ≠ []
  url_scan : ((UrlScan.init false).run r.fullUrl).isSome
  lines : ∀ line ∈ r.headers, line.WellFormed
  noClose : ∀ line ∈ r.headers,
    ¬(line.name = text "Connection" ∧ line.content = text "close")

end Request

/-! ## The callbacks of one request -/

namespace HTTPParser

variable {core : HttpCore} {parser : HTTPParser core} {events : List HttpEvent}

theorem notifyAll_url (fragments : List Bytes) :
    parser.notifyAll (fragments.map .url) =
      ({ parser with mUrl := parser.mUrl ++ fragments.flatten }, true) := by
  induction fragments generalizing parser with
  | nil => simp [notifyAll]
  | cons fragment rest ih =>
      rw [List.map_cons, notifyAll_cons]
      simp only [notify, if_true, sUrlHandle]
      refine ih.trans ?_
      simp

theorem notifyAll_body (fragments : List Bytes) :
    parser.notifyAll (fragments.map .body) =
      ({ parser with mBody := parser.mBody ++ fragments.flatten }, true) := by
  induction fragments generalizing parser with
  | nil => simp [notifyAll]
  | cons fragment rest ih =>
      rw [List.map_cons, notifyAll_cons]
      simp only [notify, if_true, sBodyHandle]
      refine ih.trans ?_
      simp

/-- What the callbacks of an accepted request leave behind. -/
structure Accepted (parser : HTTPParser core) (r : Request) (t : Bytes × Option Bytes)
    (result : HTTPParser core) : Prop where
  path : result.mPath = t.1
  query : result.mQuery = t.2.getD parser.mQuery
  headers : result.mHeadValues = headerMap r.headers
  url : result.mUrl = parser.mUrl ++ r.fullUrl
  body : result.mBody = parser.mBody ++ r.fullBody
  completed : result.mISCompleted = true

/-- What the callbacks of a rejected request leave behind. -/
structure Rejected (parser : HTTPParser core) (r : Request) (result : HTTPParser core) :
    Prop where
  path : result.mPath = parser.mPath
  query : result.mQuery = parser.mQuery
  headers : result.mHeadValues = headerMap r.headers
  body : result.mBody = parser.mBody
  completed : result.mISCompleted = parser.mISCompleted

section Request

variable {r : Request}

/-- The state at the end of the header lines. -/
theorem reading_request (hwf : r.WellFormed core) (hvalues : parser.mHeadValues = fun _ => none) :
    ∃ first last : HTTPParser core, first.mUrl = parser.mUrl ++ r.fullUrl ∧ first.mBody = parser.mBody ∧
      first.mPath = parser.mPath ∧ first.mQuery = parser.mQuery ∧
      first.mISCompleted = parser.mISCompleted ∧ first.Reading r.headers last ∧
      parser.notifyAll r.events =
        last.notifyAll (.headersComplete :: (r.body.map .body ++ [.messageComplete])) := by
  obtain ⟨first, hfirst⟩ : ∃ first : HTTPParser core, first =
    { parser.sMessageBegin with mUrl := parser.mUrl ++ r.fullUrl } := ⟨_, rfl⟩
  have hread : first.Reading [] first := by
    rw [hfirst]
    exact ⟨by simpa [storeHeader, sMessageBegin, headerMap] using hvalues, rfl, .inl ⟨rfl, rfl⟩, rfl⟩
  have hurl : first.mUrl = parser.mUrl ++ r.fullUrl := by rw [hfirst]
  obtain ⟨hok, hlines⟩ := hread.lines (by simp [hurl, hwf.url_ne_nil]) hwf.lines
  refine ⟨first, _, hurl, by rw [hfirst]; rfl, by rw [hfirst]; rfl, by rw [hfirst]; rfl,
    by rw [hfirst]; rfl, by simpa using hlines, ?_⟩
  unfold Request.events
  rw [notifyAll_cons]
  simp only [notify, if_true]
  rw [notifyAll_append, notifyAll_url]
  simp only [if_true]
  subst hfirst
  rw [notifyAll_append]
  exact if_pos hok

theorem notifyAll_accepted (hwf : r.WellFormed core) (hvalues : parser.mHeadValues = fun _ => none)
    {t : Bytes × Option Bytes} (htarget : target (parser.mUrl ++ r.fullUrl) = some t) :
    (parser.notifyAll r.events).2 = true ∧ parser.Accepted r t (parser.notifyAll r.events).1 := by
  obtain ⟨first, last, hurl, hbody, hpath, hquery, -, hread, hevents⟩ :=
    reading_request hwf hvalues
  have hne : first.mUrl ≠ [] := by simp [hurl, hwf.url_ne_nil]
  obtain ⟨hok, hlocated⟩ := hread.sHeadComplete hne
  rw [hurl, htarget] at hok hlocated
  obtain ⟨hnone, -⟩ | ⟨t', ht', hpath', hquery'⟩ := hlocated
  · cases hnone
  · obtain rfl : t = t' := Option.some.inj ht'
    have hsame := (surroundings_sHeadComplete last).trans hread.frame
    rw [hevents, notifyAll_cons]
    simp only [notify, hok, Option.isSome_some, if_true]
    rw [notifyAll_append, notifyAll_body]
    simp only [if_true]
    refine ⟨rfl, hpath', hquery'.trans (by rw [hquery]), ?_, ?_, ?_, rfl⟩
    · exact mHeadValues_sHeadComplete.trans hread.stored
    · exact (congrArg Surroundings.mUrl hsame).trans hurl
    · exact congrArg (· ++ r.body.flatten) ((congrArg Surroundings.mBody hsame).trans hbody)

theorem notifyAll_rejected (hwf : r.WellFormed core) (hvalues : parser.mHeadValues = fun _ => none)
    (htarget : target (parser.mUrl ++ r.fullUrl) = none) :
    (parser.notifyAll r.events).2 = false ∧ parser.Rejected r (parser.notifyAll r.events).1 := by
  obtain ⟨first, last, hurl, hbody, hpath, hquery, hcompleted, hread, hevents⟩ :=
    reading_request hwf hvalues
  have hne : first.mUrl ≠ [] := by simp [hurl, hwf.url_ne_nil]
  obtain ⟨hok, hlocated⟩ := hread.sHeadComplete hne
  rw [hurl, htarget] at hok hlocated
  obtain ⟨-, hpath', hquery'⟩ | ⟨t, ht, -⟩ := hlocated
  · have hsame := (surroundings_sHeadComplete last).trans hread.frame
    rw [hevents, notifyAll_cons]
    simp only [notify, hok, Option.isSome_none, Bool.false_eq_true, if_false]
    refine ⟨trivial, hpath'.trans hpath, hquery'.trans hquery, ?_, ?_, ?_⟩
    · exact mHeadValues_sHeadComplete.trans hread.stored
    · exact (congrArg Surroundings.mBody hsame).trans hbody
    · exact (congrArg Surroundings.mISCompleted hsame).trans hcompleted
  · cases ht

end Request

end HTTPParser

/-! ## What the callbacks see -/

/-- Path, query and body that are shown after a request for `url` with `body`:
those of a parser that had collected them, all empty if it rejects the URL. -/
def shows (url body : Bytes) : Bytes × Bytes × Bytes :=
  ((shown url).1, (shown url).2, if (target url).isSome then body else [])

/-- The message that is shown for `r` by a parser that had `url` and `body` left
from before. -/
def Request.messageAfter (r : Request) (url body : Bytes) : Message :=
  { path := (shows (url ++ r.fullUrl) (body ++ r.fullBody)).1
    query := (shows (url ++ r.fullUrl) (body ++ r.fullBody)).2.1
    body := (shows (url ++ r.fullUrl) (body ++ r.fullBody)).2.2
    hasKey := fun key => (headerMap r.headers key).isSome
    getValue := fun key => (headerMap r.headers key).getD [] }

/-- What a freshly constructed `HTTPParser` shows after it was fed `r`. -/
def Request.freshMessage (core : HttpCore) (r : Request) : Message :=
  ((HTTPParser.new core).tryParse r.bytes).1.message

/-- A parser between two requests, with the URL and the body that earlier
requests have left. -/
structure HTTPParser.Ready {core : HttpCore} (url body : Bytes) (parser : HTTPParser core) :
    Prop extends parser.Open where
  core_init : parser.mParser = core.init
  mUrl : parser.mUrl = url
  mBody : parser.mBody = body
  mPath : parser.mPath = []
  mQuery : parser.mQuery = []
  mHeadValues : parser.mHeadValues = fun _ => none

theorem HTTPParser.ready_new (core : HttpCore) : (HTTPParser.new core).Ready [] [] :=
  ⟨⟨rfl, rfl, rfl⟩, rfl, rfl, rfl, rfl, rfl, rfl⟩

section Message

variable {core : HttpCore} {parser : HTTPParser core} {r : Request} {url body : Bytes}

theorem HTTPParser.Ready.fed_eq (h : parser.Ready url body) (hwf : r.WellFormed core) :
    parser.fed r.bytes =
      (parser.notifyAll r.events).1.withCore (core.after core.init r.bytes) := by
  rw [HTTPParser.fed, h.core_init, hwf.emits]

theorem HTTPParser.Ready.feeds_iff (h : parser.Ready url body) (hwf : r.WellFormed core) :
    parser.Feeds r.bytes ↔ (target (url ++ r.fullUrl)).isSome := by
  rw [HTTPParser.Feeds, h.core_init, hwf.emits]
  cases htarget : target (url ++ r.fullUrl) with
  | none =>
      have hreject := (HTTPParser.notifyAll_rejected hwf h.mHeadValues
        (by rw [h.mUrl]; exact htarget)).1
      simp [hreject]
  | some t =>
      have haccept := (HTTPParser.notifyAll_accepted hwf h.mHeadValues
        (by rw [h.mUrl]; exact htarget)).1
      simp [haccept]

theorem HTTPParser.Ready.completed_fed (h : parser.Ready url body) (hwf : r.WellFormed core) :
    (parser.fed r.bytes).mISCompleted = (target (url ++ r.fullUrl)).isSome := by
  rw [h.fed_eq hwf]
  cases htarget : target (url ++ r.fullUrl) with
  | none =>
      have hreject := (HTTPParser.notifyAll_rejected hwf h.mHeadValues
        (by rw [h.mUrl]; exact htarget)).2
      exact hreject.completed.trans h.completed
  | some t =>
      have haccept := (HTTPParser.notifyAll_accepted hwf h.mHeadValues
        (by rw [h.mUrl]; exact htarget)).2
      exact haccept.completed

/-- **One request.**  After its callbacks the parser shows the path and the query
of the joined URL, and the joined body. -/
theorem HTTPParser.Ready.message_fed (h : parser.Ready url body) (hwf : r.WellFormed core) :
    (parser.fed r.bytes).mHeadValues = headerMap r.headers ∧
      (parser.fed r.bytes).mPath = (shown (url ++ r.fullUrl)).1 ∧
      (parser.fed r.bytes).mQuery = (shown (url ++ r.fullUrl)).2 ∧
      (parser.fed r.bytes).mBody =
        if (target (url ++ r.fullUrl)).isSome then body ++ r.fullBody else body := by
  rw [h.fed_eq hwf]
  cases htarget : target (url ++ r.fullUrl) with
  | none =>
      have hreject := (HTTPParser.notifyAll_rejected hwf h.mHeadValues
        (by rw [h.mUrl]; exact htarget)).2
      rw [shown, htarget]
      exact ⟨hreject.headers, hreject.path.trans h.mPath, hreject.query.trans h.mQuery,
        hreject.body.trans h.mBody⟩
  | some t =>
      have haccept := (HTTPParser.notifyAll_accepted hwf h.mHeadValues
        (by rw [h.mUrl]; exact htarget)).2
      rw [shown, htarget]
      refine ⟨haccept.headers, haccept.path, haccept.query.trans ?_, haccept.body.trans ?_⟩
      · rw [h.mQuery]
      · rw [h.mBody]
        rfl

theorem HTTPParser.Ready.message_eq (h : parser.Ready url body) (hwf : r.WellFormed core)
    (hsome : (target (url ++ r.fullUrl)).isSome ∨ body = []) :
    (parser.fed r.bytes).message = r.messageAfter url body := by
  obtain ⟨hvalues, hpath, hquery, hbody⟩ := h.message_fed hwf
  have hshown : (parser.fed r.bytes).mBody = (shows (url ++ r.fullUrl) (body ++ r.fullBody)).2.2 := by
    rw [hbody, shows]
    split
    · rfl
    · exact hsome.resolve_left ‹_›
  unfold HTTPParser.message Request.messageAfter HTTPParser.hasKey HTTPParser.getValue
  rw [hvalues, hpath, hquery, hshown]
  rfl

theorem HTTPParser.message_finishParse (parser : HTTPParser core) :
    parser.finishParse.message = parser.message := by
  unfold HTTPParser.finishParse
  split <;> rfl

/-- A fresh parser shows what a parser without a past shows. -/
theorem Request.freshMessage_eq (hwf : r.WellFormed core) :
    r.freshMessage core = r.messageAfter [] [] := by
  have hexecute : ((HTTPParser.new core).execute r.bytes).1.message =
      ((HTTPParser.new core).fed r.bytes).message := by
    show ((HTTPParser.new core).executeLoop r.bytes).1.message = _
    by_cases hok : (HTTPParser.new core).Feeds r.bytes
    · rw [HTTPParser.executeLoop_of_feeds hwf.runs hok]
    · obtain ⟨s, n, hfail⟩ := HTTPParser.executeLoop_of_not_feeds hwf.runs hok
      rw [hfail]
      rfl
  calc r.freshMessage core = ((HTTPParser.new core).execute r.bytes).1.message :=
        HTTPParser.message_finishParse _
    _ = ((HTTPParser.new core).fed r.bytes).message := hexecute
    _ = r.messageAfter [] [] := (HTTPParser.ready_new core).message_eq hwf (.inr rfl)

/-- A complete request that keeps the connection alive: the callback sees it, and
the parser is ready again. -/
theorem HTTPParser.Ready.completeHttp (h : parser.Ready url body) (hwf : r.WellFormed core)
    (htarget : (target (url ++ r.fullUrl)).isSome) :
    ((parser.fed r.bytes).finishParse.completeHttp .full).1.Ready (url ++ r.fullUrl)
        (body ++ r.fullBody) ∧
      ∃ view : View, view.toMessage = r.messageAfter url body ∧
        ((parser.fed r.bytes).finishParse.completeHttp .full).2 = [.http view] := by
  obtain ⟨t, ht⟩ := Option.isSome_iff_exists.mp htarget
  have haccept := (HTTPParser.notifyAll_accepted hwf h.mHeadValues (by rw [h.mUrl]; exact ht)).2
  have hmessage := h.message_eq hwf (.inl htarget)
  have hcompleted : (parser.fed r.bytes).mISCompleted = true := by
    rw [h.completed_fed hwf, htarget]
  have hcore : (parser.fed r.bytes).mParser = core.after core.init r.bytes := by
    rw [h.fed_eq hwf]
    rfl
  -- No line asks for the end of the connection, so `mISCompleted` is cleared.
  have hkeep : (parser.fed r.bytes).hasEntry (text "Connection") (text "close") = false := by
    rw [HTTPParser.hasEntry, (h.message_fed hwf).1]
    rw [beq_eq_false_iff_ne]
    intro hentry
    obtain ⟨line, hline, hname⟩ := exists_line_of_headerMap hentry
    exact hwf.noClose line hline hname
  -- `finishParse` starts the core anew; `mUrl` and `mBody` are not touched by anybody.
  have hfinish : (parser.fed r.bytes).finishParse = { parser.fed r.bytes with
      mIsWebSocket := false, mIsKeepAlive := true, mParser := core.init, httpErrno := false } := by
    simp [HTTPParser.finishParse, hcompleted, hcore, hwf.noUpgrade, hkeep]
  have hurl : (parser.fed r.bytes).mUrl = url ++ r.fullUrl := by
    rw [h.fed_eq hwf, ← h.mUrl]
    exact haccept.url
  have hbody : (parser.fed r.bytes).mBody = body ++ r.fullBody := by
    rw [h.fed_eq hwf, ← h.mBody]
    exact haccept.body
  rw [hfinish]
  refine ⟨⟨⟨rfl, rfl, rfl⟩, rfl, hurl, hbody, rfl, rfl, rfl⟩, _, ?_, rfl⟩
  exact hmessage

end Message

/-! ## A connection of requests -/

section Connection

variable {core : HttpCore} {connection : HttpConnection core} {r : Request} {url body : Bytes}
  {segments : List Bytes}

/-- The messages that the http callback has been shown. -/
def httpMessages (calls : List HttpCall) : List Message :=
  calls.filterMap fun
    | .http view => some view.toMessage
    | _ => none

theorem httpMessages_append (first second : List HttpCall) :
    httpMessages (first ++ second) = httpMessages first ++ httpMessages second :=
  List.filterMap_append

/-- The segments of an accepted request lead to one callback. -/
theorem receiveAll_accepted (h : connection.parser.Ready url body) (hpending : connection.pending = [])
    (hwf : r.WellFormed core) (hsegments : ∀ s ∈ segments, s ≠ []) (hbytes : segments.flatten = r.bytes)
    (htarget : (target (url ++ r.fullUrl)).isSome) :
    (connection.receiveAll .full segments).parser.Ready (url ++ r.fullUrl) (body ++ r.fullBody) ∧
      (connection.receiveAll .full segments).pending = [] ∧
      httpMessages (connection.receiveAll .full segments).calls =
        httpMessages connection.calls ++ [r.messageAfter url body] := by
  have hne : segments ≠ [] := by
    intro hnil
    have hemits := hwf.emits
    rw [← hbytes, hnil] at hemits
    cases hemits
  obtain ⟨hready, view, hview, hcalls⟩ := h.completeHttp hwf htarget
  have hall : connection.receiveAll .full segments =
      ⟨((connection.parser.fed r.bytes).finishParse.completeHttp .full).1, [],
        connection.calls ++ ((connection.parser.fed r.bytes).finishParse.completeHttp .full).2⟩ := by
    rw [← hbytes]
    apply HttpConnection.receiveAll_completes h.toOpen hpending hne hsegments
    · rw [hbytes, h.core_init]
      exact hwf.runs
    · rw [hbytes, h.feeds_iff hwf]
      exact htarget
    · rw [hbytes, h.completed_fed hwf]
      exact htarget
    · rw [hbytes, h.core_init]
      exact hwf.completes
  rw [hall]
  refine ⟨hready, rfl, ?_⟩
  show httpMessages (connection.calls ++ _) = _
  rw [hcalls, httpMessages_append]
  simp [httpMessages, hview]

/-- The segments of a rejected request get the connection stuck. -/
theorem receiveAll_rejected (h : connection.parser.Ready url body)
    (hpending : connection.pending = []) (hwf : r.WellFormed core)
    (hbytes : segments.flatten = r.bytes) (htarget : target (url ++ r.fullUrl) = none) :
    (connection.receiveAll .full segments).calls = connection.calls ∧
      (connection.receiveAll .full segments).parser.Stuck := by
  have hcompleted : (connection.parser.fed segments.flatten).mISCompleted = false := by
    rw [hbytes, h.completed_fed hwf, htarget]
    rfl
  refine HttpConnection.receiveAll_fails h.toOpen hpending ?_ ?_ hcompleted
  · rw [hbytes, h.core_init]
    exact hwf.runs
  · rw [hbytes, h.feeds_iff hwf, htarget]
    exact Bool.false_ne_true

/-- The requests arrive one after the other, each in segments of its own. -/
structure Delivers (requests : List Request) (cuts : List (List Bytes)) : Prop where
  bytes : cuts.map List.flatten = requests.map Request.bytes
  segments : ∀ cut ∈ cuts, ∀ segment ∈ cut, segment ≠ []

/-- The messages shown for `requests`, given what was left before them. -/
def messagesAfter (url body : Bytes) : List Request → List Message
  | [] => []
  | r :: rest =>
      if (target (url ++ r.fullUrl)).isSome then
        r.messageAfter url body :: messagesAfter (url ++ r.fullUrl) (body ++ r.fullBody) rest
      else []

/-- **A connection.**  By induction over the requests, with what the earlier ones
have left as the invariant. -/
theorem messages_eq (h : connection.parser.Ready url body) (hpending : connection.pending = [])
    {requests : List Request} {cuts : List (List Bytes)}
    (hwf : ∀ r ∈ requests, r.WellFormed core) (hcuts : Delivers requests cuts) :
    httpMessages (connection.receiveAll .full cuts.flatten).calls =
      httpMessages connection.calls ++ messagesAfter url body requests := by
  induction requests generalizing connection url body cuts with
  | nil =>
      have hnil : cuts = [] := List.map_eq_nil_iff.mp hcuts.bytes
      subst hnil
      simp [messagesAfter, HttpConnection.receiveAll]
  | cons r rest ih =>
      obtain ⟨cut, later, rfl, hcut, hlater⟩ := List.map_eq_cons_iff.mp hcuts.bytes
      have hr := hwf r List.mem_cons_self
      have hsegments := hcuts.segments cut List.mem_cons_self
      rw [List.flatten_cons, HttpConnection.receiveAll_append]
      by_cases htarget : (target (url ++ r.fullUrl)).isSome
      · obtain ⟨hready, hpending', hmessages⟩ :=
          receiveAll_accepted h hpending hr hsegments hcut htarget
        rw [ih hready hpending' (fun r hr => hwf r (List.mem_cons_of_mem _ hr))
          ⟨hlater, fun cut hcut => hcuts.segments cut (List.mem_cons_of_mem _ hcut)⟩, hmessages,
          messagesAfter, if_pos htarget, List.append_assoc]
        rfl
      · obtain ⟨hcalls, hstuck⟩ := receiveAll_rejected h hpending hr hcut
          (Option.not_isSome_iff_eq_none.mp htarget)
        rw [(HttpConnection.receiveAll_stuck hstuck _).1, hcalls, messagesAfter, if_neg htarget,
          List.append_nil]

end Connection

/-! ## Isolation -/

/-- The `k`-th invocation of the http callback is shown what a fresh parser shows
of the `k`-th request. -/
def Isolated (core : HttpCore) (requests : List Request) (cuts : List (List Bytes)) : Prop :=
  ∀ (k : ℕ) message,
    (httpMessages ((HttpConnection.new core).receiveAll .full cuts.flatten).calls)[k]? =
      some message →
    ∃ r : Request, requests[k]? = some r ∧ message = r.freshMessage core

/-- The URLs of the first `k` requests, one after the other. -/
def joinedUrl (requests : List Request) (k : ℕ) : Bytes :=
  ((requests.take k).map Request.fullUrl).flatten

/-- The bodies of the first `k` requests, one after the other. -/
def joinedBody (requests : List Request) (k : ℕ) : Bytes :=
  ((requests.take k).map Request.fullBody).flatten

/-- The first request has a URL without a path, so that the connection gets stuck
before any callback. -/
def FirstRejected (requests : List Request) : Prop :=
  ∃ r, requests.head? = some r ∧ target r.fullUrl = none

/-- With the URLs and the bodies of all requests before it in front, every request
shows the same path, query and body. -/
def Undisturbed (requests : List Request) : Prop :=
  ∀ (k : ℕ) r, requests[k]? = some r →
    shows (joinedUrl requests k ++ r.fullUrl) (joinedBody requests k ++ r.fullBody) =
      shows r.fullUrl r.fullBody

theorem joinedUrl_cons_succ (r : Request) (rest : List Request) (k : ℕ) :
    joinedUrl (r :: rest) (k + 1) = r.fullUrl ++ joinedUrl rest k := by
  simp [joinedUrl]

theorem joinedBody_cons_succ (r : Request) (rest : List Request) (k : ℕ) :
    joinedBody (r :: rest) (k + 1) = r.fullBody ++ joinedBody rest k := by
  simp [joinedBody]

theorem isUrlByte_of_wellFormed {core : HttpCore} {r : Request} (h : r.WellFormed core) :
    ∀ x ∈ r.fullUrl, isUrlByte x := by
  obtain ⟨scan, hscan⟩ := Option.isSome_iff_exists.mp h.url_scan
  exact isUrlByte_of_run hscan

/-- Behind an accepted URL every request gets its callback. -/
theorem messagesAfter_getElem? {url body : Bytes} {requests : List Request}
    (hurl : (target url).isSome) (hbytes : ∀ r ∈ requests, ∀ x ∈ r.fullUrl, isUrlByte x) (k : ℕ) :
    (messagesAfter url body requests)[k]? = (requests[k]?).map fun r =>
      r.messageAfter (url ++ joinedUrl requests k) (body ++ joinedBody requests k) := by
  induction requests generalizing url body k with
  | nil => rfl
  | cons r rest ih =>
      have hnext := target_append_isSome hurl (hbytes r List.mem_cons_self)
      rw [messagesAfter, if_pos hnext]
      cases k with
      | zero => simp [joinedUrl, joinedBody]
      | succ k =>
          rw [List.getElem?_cons_succ, List.getElem?_cons_succ,
            ih hnext fun r hr => hbytes r (List.mem_cons_of_mem _ hr), joinedUrl_cons_succ,
            joinedBody_cons_succ, List.append_assoc, List.append_assoc]

/-- Every request of a connection whose first URL is accepted gets its callback,
with everything joined up to it. -/
theorem messagesAfter_nil_getElem? {requests : List Request}
    (hfirst : ¬FirstRejected requests) (hbytes : ∀ r ∈ requests, ∀ x ∈ r.fullUrl, isUrlByte x)
    (k : ℕ) :
    (messagesAfter [] [] requests)[k]? = (requests[k]?).map fun r =>
      r.messageAfter (joinedUrl requests k) (joinedBody requests k) := by
  cases requests with
  | nil => rfl
  | cons r rest =>
      have hsome : (target r.fullUrl).isSome := by
        rw [Option.isSome_iff_ne_none]
        exact fun hnone => hfirst ⟨r, rfl, hnone⟩
      rw [messagesAfter, List.nil_append, List.nil_append, if_pos hsome]
      cases k with
      | zero => simp [joinedUrl, joinedBody]
      | succ k =>
          rw [List.getElem?_cons_succ, List.getElem?_cons_succ, messagesAfter_getElem? hsome
            fun r hr => hbytes r (List.mem_cons_of_mem _ hr)]
          rw [joinedUrl_cons_succ, joinedBody_cons_succ]

theorem messageAfter_eq_iff (r : Request) (url body : Bytes) :
    r.messageAfter url body = r.messageAfter [] [] ↔
      shows (url ++ r.fullUrl) (body ++ r.fullBody) = shows r.fullUrl r.fullBody := by
  unfold Request.messageAfter
  simp only [List.nil_append, Message.mk.injEq, and_true, Prod.ext_iff]

theorem isolated_iff {core : HttpCore} {requests : List Request} {cuts : List (List Bytes)}
    (hwf : ∀ r ∈ requests, r.WellFormed core) (hcuts : Delivers requests cuts) :
    Isolated core requests cuts ↔ FirstRejected requests ∨ Undisturbed requests := by
  have hmessages : httpMessages ((HttpConnection.new core).receiveAll .full cuts.flatten).calls =
      messagesAfter [] [] requests := messages_eq (HTTPParser.ready_new core) rfl hwf hcuts
  have hbytes : ∀ r ∈ requests, ∀ x ∈ r.fullUrl, isUrlByte x := fun r hr =>
    isUrlByte_of_wellFormed (hwf r hr)
  unfold Isolated
  rw [hmessages]
  by_cases hfirst : FirstRejected requests
  -- Nothing is shown, so there is nothing to compare.
  · refine iff_of_true ?_ (.inl hfirst)
    obtain ⟨r, hr, hnone⟩ := hfirst
    obtain ⟨rest, rfl⟩ := List.head?_eq_some_iff.mp hr
    intro k message hmessage
    simp [messagesAfter, hnone] at hmessage
  · have hshown := messagesAfter_nil_getElem? hfirst hbytes
    constructor
    -- Each message shown is the one of a fresh parser, member by member.
    · intro hisolated
      refine .inr fun k r hr => ?_
      obtain ⟨r', hr', heq⟩ := hisolated k _ (by rw [hshown, hr]; rfl)
      obtain rfl : r = r' := Option.some.inj (hr.symm.trans hr')
      rw [Request.freshMessage_eq (hwf r (List.mem_of_getElem? hr)), messageAfter_eq_iff] at heq
      exact heq
    · rintro (hrejected | hundisturbed) k message hmessage
      · exact absurd hrejected hfirst
      · rw [hshown, Option.map_eq_some_iff] at hmessage
        obtain ⟨r, hr, rfl⟩ := hmessage
        refine ⟨r, hr, ?_⟩
        rw [Request.freshMessage_eq (hwf r (List.mem_of_getElem? hr)), messageAfter_eq_iff]
        exact hundisturbed k r hr

/-! ## The condition for short URLs -/

/-- All requests but the last come without a body, and all of them have the path
and the query of the first one, whose URL has a fragment. -/
structure Repeats (first : Request) (rest : List Request) : Prop where
  fragment : ∃ x ∈ first.fullUrl, isOneOf ['#'] x
  body : ∀ r ∈ (first :: rest).dropLast, r.fullBody = []
  shown : ∀ r ∈ rest, shown r.fullUrl = shown first.fullUrl

section Brief

variable {core : HttpCore} {first : Request} {rest : List Request}

theorem isUrlByte_joinedUrl {requests : List Request}
    (hbytes : ∀ r ∈ requests, ∀ x ∈ r.fullUrl, isUrlByte x) (k : ℕ) :
    ∀ x ∈ joinedUrl requests k, isUrlByte x := by
  intro x hx
  simp only [joinedUrl, List.mem_flatten, List.mem_map] at hx
  obtain ⟨_, ⟨r, hr, rfl⟩, hx⟩ := hx
  exact hbytes r (List.mem_of_mem_take hr) x hx

/-- Behind a URL with a fragment the joined URLs keep its target. -/
theorem target_joinedUrl (hhash : ∃ x ∈ first.fullUrl, isOneOf ['#'] x)
    (hsome : (target first.fullUrl).isSome)
    (hbytes : ∀ r ∈ rest, ∀ x ∈ r.fullUrl, isUrlByte x) {k : ℕ} {r : Request}
    (hr : rest[k]? = some r) :
    target (joinedUrl (first :: rest) (k + 1) ++ r.fullUrl) = target first.fullUrl := by
  obtain ⟨t, ht⟩ := Option.isSome_iff_exists.mp hsome
  rw [joinedUrl_cons_succ, List.append_assoc, ht]
  refine target_append_of_hash ht hhash fun x hx => ?_
  rcases List.mem_append.mp hx with hx | hx
  · exact isUrlByte_joinedUrl hbytes k x hx
  · exact hbytes r (List.mem_of_getElem? hr) x hx

theorem undisturbed_of_repeats (hbytes : ∀ r ∈ rest, ∀ x ∈ r.fullUrl, isUrlByte x)
    (hsome : (target first.fullUrl).isSome) (hshort : first.fullUrl.length < 65536)
    (h : Repeats first rest) : Undisturbed (first :: rest) := by
  intro k r hr
  cases k with
  | zero => simp_all [joinedUrl, joinedBody]
  | succ k =>
      rw [List.getElem?_cons_succ] at hr
      -- The fragment of the first URL hides all that is joined behind it.
      have htarget := target_joinedUrl h.fragment hsome hbytes hr
      have hshown := h.shown r (List.mem_of_getElem? hr)
      have hr' : (target r.fullUrl).isSome := by
        by_contra hnone
        rw [Option.not_isSome_iff_eq_none] at hnone
        have hpath := shown_path_ne_nil (Option.isSome_iff_ne_none.mp hsome) hshort
        rw [← hshown, Http.shown, hnone] at hpath
        exact hpath rfl
      have hbody : joinedBody (first :: rest) (k + 1) = [] := by
        simp only [joinedBody, List.flatten_eq_nil_iff, List.mem_map]
        rintro _ ⟨x, hx, rfl⟩
        refine h.body x ?_
        have hlen := (List.getElem?_eq_some_iff.mp hr).1
        rw [List.dropLast_eq_take]
        exact List.take_subset_take_left _ (by simp; omega) hx
      unfold shows
      rw [hbody, List.nil_append, htarget, hsome, hr', hshown]
      simp only [Http.shown, htarget]

/-- The joined URLs are a prefix of all of them. -/
theorem length_joinedUrl_le (requests : List Request) {k n : ℕ} (h : k ≤ n) :
    (joinedUrl requests k).length ≤ (joinedUrl requests n).length := by
  have hsplit : requests.take n = requests.take k ++ (requests.take n).drop k := by
    conv_lhs => rw [← List.take_append_drop k (requests.take n)]
    rw [List.take_take, Nat.min_eq_left h]
  rw [joinedUrl, joinedUrl, hsplit, List.map_append, List.flatten_append, List.length_append]
  exact Nat.le_add_right _ _

theorem repeats_of_undisturbed {second : Request}
    (hwf : ∀ r ∈ first :: second :: rest, r.WellFormed core) (hsome : (target first.fullUrl).isSome)
    (hlen : (joinedUrl (first :: second :: rest) (rest.length + 2)).length < 65536)
    (h : Undisturbed (first :: second :: rest)) : Repeats first (second :: rest) := by
  have hbytes : ∀ r ∈ second :: rest, ∀ x ∈ r.fullUrl, isUrlByte x := fun r hr =>
    isUrlByte_of_wellFormed (hwf r (List.mem_cons_of_mem _ hr))
  have htwo : (first.fullUrl ++ second.fullUrl).length < 65536 := by
    have hle := length_joinedUrl_le (first :: second :: rest) (Nat.le_add_left 2 rest.length)
    simp only [joinedUrl, List.take_succ_cons, List.take_zero, List.map_cons, List.map_nil,
      List.flatten_cons, List.flatten_nil, List.append_nil] at hle
    exact hle.trans_lt hlen
  have hshort : first.fullUrl.length < 65536 := by
    rw [List.length_append] at htwo
    omega
  -- already the second request shows that the first URL has a fragment
  have hhash : ∃ x ∈ first.fullUrl, isOneOf ['#'] x := by
    by_contra hhash
    have hsecond := hwf second (by simp)
    obtain ⟨scan, hscan⟩ := Option.isSome_iff_exists.mp hsecond.url_scan
    refine shown_append_ne (Option.isSome_iff_ne_none.mp hsome) hhash hsecond.url_ne_nil hscan htwo ?_
    have hone := h 1 second rfl
    simp only [shows, joinedUrl, List.take_succ_cons, List.take_zero, List.map_cons, List.map_nil,
      List.flatten_cons, List.flatten_nil, List.append_nil, Prod.mk.injEq] at hone
    exact Prod.ext hone.1 hone.2.1
  -- With the fragment known, the joined URLs show what the first one shows.
  have hshown : ∀ k r, (second :: rest)[k]? = some r → shown r.fullUrl = shown first.fullUrl ∧
      joinedBody (first :: second :: rest) (k + 1) = [] := by
    intro k r hr
    have hone := h (k + 1) r hr
    have htarget := target_joinedUrl hhash hsome hbytes hr
    have hjoined : shown (joinedUrl (first :: second :: rest) (k + 1) ++ r.fullUrl) =
        shown first.fullUrl := by simp only [shown, htarget]
    simp only [shows, htarget, hjoined, hsome, if_true, Prod.mk.injEq] at hone
    obtain ⟨hpath, hquery, hbody⟩ := hone
    have hr' : (target r.fullUrl).isSome := by
      by_contra hnone
      rw [Option.not_isSome_iff_eq_none] at hnone
      refine shown_path_ne_nil (Option.isSome_iff_ne_none.mp hsome) hshort ?_
      rw [hpath, shown, hnone]
    rw [if_pos hr'] at hbody
    exact ⟨(Prod.ext hpath hquery).symm, List.self_eq_append_left.mp hbody.symm⟩
  refine ⟨hhash, ?_, ?_⟩
  -- A body that is not the last one would be seen again with the next request.
  · intro r hr
    obtain ⟨k, hk, rfl⟩ := List.mem_iff_getElem.mp hr
    rw [List.length_dropLast, List.length_cons, Nat.add_sub_cancel] at hk
    have hnil := (hshown k _ (List.getElem?_eq_getElem hk)).2
    rw [joinedBody, List.flatten_eq_nil_iff] at hnil
    rw [List.getElem_dropLast]
    refine hnil _ (List.mem_map.mpr ⟨_, ?_, rfl⟩)
    exact List.mem_take_iff_getElem.mpr ⟨k, by simp at hk ⊢; omega, rfl⟩
  · intro r hr
    obtain ⟨k, hk⟩ := List.mem_iff_getElem?.mp hr
    exact (hshown k r hk).1

end Brief

/-- **Keep-alive isolation.**  The callbacks see every request as a fresh parser
would exactly if the first request is rejected, or every request shows the same
with the URLs and bodies before it in front.  Unless the URLs are so long that
their lengths wrap around, the latter needs a first URL with a fragment, which
hides all later ones. -/
theorem keep_alive_isolation (core : HttpCore) (requests : List Request) (cuts : List (List Bytes))
    (hwf : ∀ r ∈ requests, r.WellFormed core) (hcuts : Delivers requests cuts) :
    (Isolated core requests cuts ↔ FirstRejected requests ∨ Undisturbed requests) ∧
    ((joinedUrl requests requests.length).length < 65536 →
      (Isolated core requests cuts ↔ requests.length ≤ 1 ∨ FirstRejected requests ∨
        ∃ first rest, requests = first :: rest ∧ Repeats first rest)) := by
  refine ⟨isolated_iff hwf hcuts, fun hlen => ?_⟩
  rw [isolated_iff hwf hcuts]
  constructor
  · rintro (hrejected | hundisturbed)
    · exact .inr (.inl hrejected)
    · match requests, hundisturbed with
      | [], _ => exact .inl (Nat.zero_le 1)
      | [r], _ => exact .inl (Nat.le_refl 1)
      -- Two requests are the first ones that can disturb each other.
      | first :: second :: rest, hundisturbed =>
          by_cases hsome : (target first.fullUrl).isSome
          · exact .inr (.inr ⟨first, second :: rest, rfl,
              repeats_of_undisturbed hwf hsome hlen hundisturbed⟩)
          · exact .inr (.inl ⟨first, rfl, Option.not_isSome_iff_eq_none.mp hsome⟩)
  · rintro (hone | hrejected | ⟨first, rest, rfl, hrepeats⟩)
    · refine .inr fun k r hr => ?_
      obtain rfl : k = 0 := by
        have hk := (List.getElem?_eq_some_iff.mp hr).1
        omega
      simp [joinedUrl, joinedBody]
    · exact .inl hrejected
    · by_cases hsome : (target first.fullUrl).isSome
      · have hshort : first.fullUrl.length < 65536 := by
          have hle := length_joinedUrl_le (first :: rest) (Nat.le_add_left 1 rest.length)
          simp only [joinedUrl, List.take_succ_cons, List.take_zero, List.map_cons, List.map_nil,
            List.flatten_cons, List.flatten_nil, List.append_nil] at hle
          exact hle.trans_lt hlen
        refine .inr (undisturbed_of_repeats (fun r hr => ?_) hsome hshort hrepeats)
        exact isUrlByte_of_wellFormed (hwf r (List.mem_cons_of_mem _ hr))
      · exact .inl ⟨first, rfl, Option.not_isSome_iff_eq_none.mp hsome⟩

/-! ## Two requests -/

/-- The request `GET url HTTP/1.1` without header lines, as the bundled parser reports it byte
by byte. -/
def getRequest (url : String) : Request :=
  { bytes := text "GET " ++ text url ++ text " HTTP/1.1\r\n\r\n"
    url := byteByByte (text url)
    headers := []
    body := [] }

/-- A request of which all prefixes were looked at. -/
theorem wellFormed_getRequest {url : String}
    (hruns : (parserCore .both).Runs (parserCore .both).init (getRequest url).bytes)
    (hemits : (parserCore .both).trace (parserCore .both).init (getRequest url).bytes =
      (getRequest url).events)
    (hprefixes : ∀ n < (getRequest url).bytes.length, .messageComplete ∉
      (parserCore .both).trace (parserCore .both).init ((getRequest url).bytes.take n))
    (hupgrade : (parserCore .both).upgrade
      ((parserCore .both).after (parserCore .both).init (getRequest url).bytes) = false)
    (hurl : (getRequest url).fullUrl ≠ [])
    (hscan : ((UrlScan.init false).run (getRequest url).fullUrl).isSome) :
    (getRequest url).WellFormed (parserCore .both) := by
  refine ⟨hruns, hemits, ?_, hupgrade, hurl, hscan, by simp [getRequest], by simp [getRequest]⟩
  intro first last hsplit hlast
  have hfirst : (getRequest url).bytes.take first.length = first := by
    rw [hsplit, List.take_left]
  rw [← hfirst]
  refine hprefixes first.length ?_
  rw [hsplit, List.length_append]
  have hpos := List.length_pos_of_ne_nil hlast
  omega

theorem wellFormed_getRequests :
    ∀ url ∈ ["/a", "/b", "/a#b"], (getRequest url).WellFormed (parserCore .both) := by
  intro url hurl
  simp only [List.mem_cons, List.not_mem_nil, or_false] at hurl
  obtain rfl | rfl | rfl := hurl <;>
    exact wellFormed_getRequest (by decide) (by decide) (by decide)
      (by decide +kernel) (by decide) (by decide)

/-- Two requests for `/a`, the first with a fragment in its URL, which hides the second URL:
both are shown as by a fresh parser. -/
theorem keep_alive_isolation_fragment :
    (∀ r ∈ [getRequest "/a#b", getRequest "/a"], r.WellFormed (parserCore .both)) ∧
      Delivers [getRequest "/a#b", getRequest "/a"]
        [[(getRequest "/a#b").bytes], [(getRequest "/a").bytes]] ∧
      Isolated (parserCore .both) [getRequest "/a#b", getRequest "/a"]
        [[(getRequest "/a#b").bytes], [(getRequest "/a").bytes]] := by
  have hwf : ∀ r ∈ [getRequest "/a#b", getRequest "/a"], r.WellFormed (parserCore .both) := by
    simp [wellFormed_getRequests]
  have hcuts : Delivers [getRequest "/a#b", getRequest "/a"]
      [[(getRequest "/a#b").bytes], [(getRequest "/a").bytes]] :=
    ⟨by simp, by simp [getRequest, text]⟩
  refine ⟨hwf, hcuts, ?_⟩
  have htheorem := keep_alive_isolation (parserCore .both) _ _ hwf hcuts
  refine (htheorem.2 (by decide)).mpr (.inr (.inr ⟨_, _, rfl, ?_⟩))
  exact ⟨by decide, by decide, by decide⟩

/-- A request for `/b` after one for `/a` is shown with the path `/a/b`. -/
theorem not_isolated_two_requests :
    (∀ r ∈ [getRequest "/a", getRequest "/b"], r.WellFormed (parserCore .both)) ∧
      Delivers [getRequest "/a", getRequest "/b"]
        [[(getRequest "/a").bytes], [(getRequest "/b").bytes]] ∧
      ¬Isolated (parserCore .both) [getRequest "/a", getRequest "/b"]
        [[(getRequest "/a").bytes], [(getRequest "/b").bytes]] := by
  have hwf : ∀ r ∈ [getRequest "/a", getRequest "/b"], r.WellFormed (parserCore .both) := by
    simp [wellFormed_getRequests]
  have hcuts : Delivers [getRequest "/a", getRequest "/b"]
      [[(getRequest "/a").bytes], [(getRequest "/b").bytes]] :=
    ⟨by simp, by simp [getRequest, text]⟩
  refine ⟨hwf, hcuts, ?_⟩
  rw [isolated_iff hwf hcuts]
  rintro (⟨r, hr, hnone⟩ | hundisturbed)
  · cases hr
    revert hnone
    decide
  · have hsecond := hundisturbed 1 _ rfl
    revert hsecond
    decide

end Brynet.Http
