import Brynet.Http.HeaderNames
import Mathlib.Data.List.SplitLengths

/-!
# What the letter case of header names decides

`HTTPParser` stores header names as they are spelled, and `tryParse` and `ProcessHttp` ask
for `Connection` and `Sec-WebSocket-Key` in one spelling.  So the decisions about a message
are the same under every change of case exactly if these two questions do not matter for it
(`header_case_iff`).
-/

namespace Brynet.Http

open Text

/-! ## Decisions -/

/-- What `ProcessHttp` decides: to send the handshake response, and what it notes about the
message before it calls a callback. -/
inductive Decision
  | handshake (secKey : Bytes)
  | answer (isKeepAlive isWebSocket : Bool)
deriving Repr, DecidableEq

def HttpCall.decision? : HttpCall → Option Decision
  | .http view | .wsConnected view => some (.answer view.isKeepAlive view.isWebSocket)
  | .send secKey => some (.handshake secKey)
  | .ws _ _ => none

/-- The decisions of a connection that receives the segments. -/
def decisions {core : HttpCore} (parser : HTTPParser core) (segments : List Bytes) :
    List Decision :=
  (HttpConnection.receiveAll .full ⟨parser, [], []⟩ segments).calls.filterMap HttpCall.decision?

/-- The decisions about a message with the header map `heads`. -/
def decisionsFor (upgrade : Bool) (heads : Bytes → Option Bytes) : List Decision :=
  (if upgrade then (heads (text "Sec-WebSocket-Key")).toList.map .handshake else []) ++
    [.answer (!(heads (text "Connection") == some (text "close"))) upgrade]

section Decisions

variable {core : HttpCore} {parser : HTTPParser core} {m : HeadedMessage} {upgrade : Bool}
  {url body : Bytes} {segments : List Bytes}

theorem filterMap_completeHttp {q : HTTPParser core} (hsocket : q.mIsWebSocket = upgrade)
    (hkeep : q.mIsKeepAlive = !q.hasEntry (text "Connection") (text "close")) :
    (q.completeHttp .full).2.filterMap HttpCall.decision? = decisionsFor upgrade q.mHeadValues := by
  cases upgrade with
  | true =>
      rw [HTTPParser.completeHttp, if_pos hsocket]
      simp only [HTTPParser.hasKey, HTTPParser.getValue, decisionsFor, if_true]
      obtain hkey | ⟨key, hkey⟩ := Option.eq_none_or_eq_some (q.mHeadValues (text "Sec-WebSocket-Key"))
      · simp [hkey, callIf, HttpSession.full, HttpCall.decision?, HTTPParser.view, hkeep, hsocket,
          HTTPParser.hasEntry]
      · simp [hkey, callIf, HttpSession.full, HttpCall.decision?, HTTPParser.view, hkeep, hsocket,
          HTTPParser.hasEntry]
  | false =>
      have hplain : ¬q.mIsWebSocket = true := by simp [hsocket]
      rw [HTTPParser.completeHttp, if_neg hplain]
      simp [callIf, HttpSession.full, HttpCall.decision?, HTTPParser.view, hkeep, hsocket,
        HTTPParser.hasEntry, decisionsFor]

/-- The decisions about an accepted message are those for its stored lines. -/
theorem decisions_of_accepted (h : m.WellFormed core upgrade) (hready : parser.Ready url body)
    (hfeeds : parser.Feeds m.bytes) (hcut : Cuts m.bytes segments) :
    decisions parser segments =
      decisionsFor upgrade (headerMap m.stored) := by
  have hmessage := h.toMessage
  have hcompleted := hmessage.completed_fed hready.core_init hfeeds
  have hok : (parser.notifyAll m.events).2 = true := by
    rw [HTTPParser.Feeds, hready.core_init, h.emits] at hfeeds
    exact hfeeds
  have hvalues : (parser.fed m.bytes).mHeadValues = headerMap m.stored := by
    rw [HTTPParser.fed, hready.core_init, h.emits]
    exact h.mHeadValues_notifyAll hready.mHeadValues hok
  have hstate : (parser.fed m.bytes).mParser = core.after core.init m.bytes := by
    rw [HTTPParser.fed, hready.core_init]
    rfl
  have hfinish : (parser.fed m.bytes).finishParse = { parser.fed m.bytes with
      mIsWebSocket := upgrade
      mIsKeepAlive := !(parser.fed m.bytes).hasEntry (text "Connection") (text "close")
      mParser := core.init
      httpErrno := false } := by
    have hcomplete : (parser.fed m.bytes).mISCompleted = true := hcompleted
    simp [HTTPParser.finishParse, hcomplete, hstate, h.upgrades]
  rw [decisions, receiveAll_single hready.toOpen hready.core_init hmessage hfeeds hcut]
  show ((parser.fed m.bytes).finishParse.completeHttp .full).2.filterMap _ = _
  rw [← hvalues, hfinish]
  exact filterMap_completeHttp rfl rfl

/-- There are none about a rejected one. -/
theorem decisions_of_rejected (h : m.WellFormed core upgrade) (hready : parser.Ready url body)
    (hfails : ¬parser.Feeds m.bytes) (hcut : Cuts m.bytes segments) :
    decisions parser segments = [] := by
  rw [decisions, calls_of_fails hready.toOpen hready.core_init h.toMessage hfails
    (by rw [List.append_nil]; exact hcut)]
  rfl

/-- The decisions for two header maps, as far as they differ. -/
theorem decisionsFor_eq_iff {heads heads' : Bytes → Option Bytes} :
    decisionsFor upgrade heads' = decisionsFor upgrade heads ↔
      (heads' (text "Connection") = some (text "close") ↔
        heads (text "Connection") = some (text "close")) ∧
      (upgrade = true → heads' (text "Sec-WebSocket-Key") = heads (text "Sec-WebSocket-Key")) := by
  have hanswer (value value' : Option Bytes) :
      Decision.answer (!(value' == some (text "close"))) upgrade =
          .answer (!(value == some (text "close"))) upgrade ↔
        (value' = some (text "close") ↔ value = some (text "close")) := by
    rw [Decision.answer.injEq, and_iff_left rfl, Bool.not_inj_iff]
    exact Bool.eq_iff_iff.trans (iff_congr beq_iff_eq beq_iff_eq)
  have hkeys (key key' : Option Bytes) :
      key'.toList.map Decision.handshake = key.toList.map Decision.handshake ↔ key' = key := by
    cases key <;> cases key' <;> simp
  rw [decisionsFor, decisionsFor, List.append_singleton_inj, hanswer, and_comm]
  refine and_congr_right fun _ => ?_
  cases upgrade with
  | true => simpa using hkeys _ _
  | false => simp

end Decisions

/-! ## When the case does not matter -/

namespace HeadedMessage

/-- Neither question matters: no `Connection` header, however it is spelled, has the value
`close`, and if the message asks for an upgrade it has no `Sec-WebSocket-Key` header. -/
def Indifferent (upgrade : Bool) (m : HeadedMessage) : Prop :=
  (∀ line ∈ m.stored, lowerCase line.name = text "connection" → line.content ≠ text "close") ∧
    (upgrade = true → ∀ line ∈ m.stored, lowerCase line.name ≠ text "sec-websocket-key")

end HeadedMessage

section Respelling

variable {lines : List HeaderLine} {line : HeaderLine} {key : Bytes}

/-- A line of a name makes an entry of the header map. -/
theorem isSome_headerMap (hline : line ∈ lines) (hname : line.name = key) :
    (headerMap lines key).isSome := by
  rw [headerMap_apply, Option.isSome_map, List.find?_isSome]
  exact ⟨line, List.mem_reverse.mpr hline, by simpa using hname⟩

/-- The line whose name is `key` up to case and whose value is in `chosen` is spelled as
`key`, cut into fragments as before; all others are spelled in lower case. -/
def respell (key : Bytes) (chosen : Bytes → Bool) (line : HeaderLine) : HeaderLine :=
  { line with
    field := if lowerCase line.name = lowerCase key ∧ chosen line.content then
        (line.field.map List.length).splitLengths key
      else line.field.map lowerCase }

theorem sameFragments_splitLengths {field : List Bytes}
    (h : lowerCase key = lowerCase field.flatten) :
    SameFragments field ((field.map List.length).splitLengths key) := by
  induction field generalizing key with
  | nil => exact .nil
  | cons data rest ih =>
      rw [List.map_cons, List.splitLengths_cons]
      rw [List.flatten_cons, lowerCase_append] at h
      have hlength : (lowerCase data).length = data.length := List.length_map _
      refine .cons ?_ (ih ?_)
      · rw [lowerCase, List.map_take, ← lowerCase, h, ← hlength, List.take_left]
      · rw [lowerCase, List.map_drop, ← lowerCase, h, ← hlength, List.drop_left]

theorem flatten_splitLengths_fragments {field : List Bytes}
    (h : lowerCase key = lowerCase field.flatten) :
    ((field.map List.length).splitLengths key).flatten = key := by
  refine List.flatten_splitLengths _ _ ?_
  have hlength := congrArg List.length h
  rw [lowerCase, lowerCase, List.length_map, List.length_map, List.length_flatten] at hlength
  exact hlength.le

theorem sameLines_respell (key : Bytes) (chosen : Bytes → Bool) (lines : List HeaderLine) :
    SameLines lines (lines.map (respell key chosen)) := by
  rw [SameLines, List.forall₂_map_right_iff, List.forall₂_same]
  intro line _
  refine ⟨?_, rfl⟩
  simp only [respell]
  split
  · rename_i hkey
    exact sameFragments_splitLengths hkey.1.symm
  · rw [SameFragments, List.forall₂_map_right_iff, List.forall₂_same]
    exact fun data _ => lowerCase_lowerCase data

/-- The name of a respelled line. -/
theorem name_respell (chosen : Bytes → Bool) (line : HeaderLine) :
    (respell key chosen line).name =
      if lowerCase line.name = lowerCase key ∧ chosen line.content then key
      else lowerCase line.name := by
  by_cases hchosen : lowerCase line.name = lowerCase key ∧ chosen line.content
  · rw [if_pos hchosen, respell, if_pos hchosen]
    exact flatten_splitLengths_fragments hchosen.1.symm
  · rw [if_neg hchosen, respell, if_neg hchosen]
    exact List.map_flatten.symm

/-- Only chosen lines are spelled as `key`. -/
theorem chosen_of_respell {chosen : Bytes → Bool} (hkey : lowerCase key ≠ key) {value : Bytes}
    (h : headerMap (lines.map (respell key chosen)) key = some value) : chosen value = true := by
  obtain ⟨respelled, hmem, hname, rfl⟩ := exists_line_of_headerMap h
  obtain ⟨line, -, rfl⟩ := List.mem_map.mp hmem
  rw [name_respell] at hname
  split at hname
  · rename_i hchosen
    exact hchosen.2
  · rw [← hname, lowerCase_lowerCase] at hkey
    exact absurd rfl hkey

/-- A chosen line is spelled as `key`. -/
theorem isSome_respell {chosen : Bytes → Bool} (hline : line ∈ lines)
    (hname : lowerCase line.name = lowerCase key) (hchosen : chosen line.content = true) :
    (headerMap (lines.map (respell key chosen)) key).isSome := by
  refine isSome_headerMap (List.mem_map_of_mem hline) ?_
  rw [name_respell, if_pos ⟨hname, hchosen⟩]

end Respelling

section Main

variable {core : HttpCore} {parser : HTTPParser core} {m : HeadedMessage} {upgrade : Bool}
  {url body : Bytes}

/-- The decisions about the message are the same under every change of case. -/
def SameDecisions (core : HttpCore) (parser : HTTPParser core) (m : HeadedMessage) : Prop :=
  ∀ bytes', core.Recased core.init m.bytes bytes' →
    ∀ segments segments', Cuts m.bytes segments → Cuts bytes' segments' →
      decisions parser segments' = decisions parser segments

theorem feeds_iff_of_url {m' : HeadedMessage} (h : m.WellFormed core upgrade)
    (h' : m'.WellFormed core upgrade) (hready : parser.Ready url body)
    (hstart : m'.start = m.start) : parser.Feeds m'.bytes ↔ parser.Feeds m.bytes := by
  have hfeeds := h.toMessage.feeds_iff hready.core_init
  have hfeeds' := h'.toMessage.feeds_iff hready.core_init
  simp only [HeadedMessage.toMessage, hstart] at hfeeds hfeeds'
  exact hfeeds'.trans hfeeds.symm

/-- The lines may be respelled at will. -/
theorem SameDecisions.decisionsFor_respell (hsame : SameDecisions core parser m)
    (hfold : core.FoldsNames) (h : m.WellFormed core upgrade) (hready : parser.Ready url body)
    (hfeeds : parser.Feeds m.bytes) (key : Bytes) (chosen : Bytes → Bool) :
    decisionsFor upgrade
        (headerMap (m.stored.map (respell key chosen))) =
      decisionsFor upgrade (headerMap m.stored) := by
  obtain ⟨bytes', hrecased, h'⟩ := h.exists_recased hfold
    (sameLines_respell key chosen m.headers) (sameLines_respell key chosen m.trailers)
  have hfeeds' := (feeds_iff_of_url h h' hready rfl).mpr hfeeds
  have hcut := cuts_whole h.toMessage.bytes_ne_nil
  have hcut' := cuts_whole h'.toMessage.bytes_ne_nil
  have hdecisions := hsame bytes' hrecased _ _ hcut hcut'
  have hfirst := decisions_of_accepted h hready hfeeds hcut
  have hsecond := decisions_of_accepted h' hready hfeeds' hcut'
  have hstored : (m.withLines bytes' (m.headers.map (respell key chosen))
      (m.trailers.map (respell key chosen))).stored =
        m.stored.map (respell key chosen) := by
    simp [HeadedMessage.stored, HeadedMessage.withLines]
  rw [hstored] at hsecond
  exact hsecond.symm.trans (hdecisions.trans hfirst)

theorem SameLines.exists_of_mem {lines lines' : List HeaderLine} (h : SameLines lines lines')
    {line' : HeaderLine} (hline' : line' ∈ lines') : ∃ line ∈ lines, line.SameButCase line' := by
  induction h with
  | nil => cases hline'
  | @cons first first' rest rest' hfirst _ ih =>
      rcases List.mem_cons.mp hline' with rfl | hrest
      · exact ⟨first, List.mem_cons_self, hfirst⟩
      · obtain ⟨line, hline, hsame⟩ := ih hrest
        exact ⟨line, List.mem_cons_of_mem _ hline, hsame⟩

theorem sameLines_stored {headers trailers : List HeaderLine} (bytes' : Bytes)
    (hheaders : SameLines m.headers headers) (htrailers : SameLines m.trailers trailers) :
    SameLines m.stored (m.withLines bytes' headers trailers).stored := by
  refine List.rel_append hheaders ?_
  show SameLines m.trailers.dropLast trailers.dropLast
  rw [List.dropLast_eq_take, List.dropLast_eq_take, htrailers.length_eq]
  exact List.forall₂_take _ htrailers

theorem SameLines.indifferent {m' : HeadedMessage} (h : SameLines m.stored m'.stored)
    (hm : m.Indifferent upgrade) : m'.Indifferent upgrade := by
  refine ⟨fun line' hline' hname => ?_, fun hupgrade line' hline' => ?_⟩
  · obtain ⟨line, hline, hcase⟩ := SameLines.exists_of_mem h hline'
    have hcontent := hm.1 line hline (hcase.name ▸ hname)
    rw [HeaderLine.content, hcase.2]
    exact hcontent
  · obtain ⟨line, hline, hcase⟩ := SameLines.exists_of_mem h hline'
    rw [hcase.name]
    exact hm.2 hupgrade line hline

/-- Neither question is answered by the headers of an indifferent message. -/
theorem HeadedMessage.Indifferent.lookups (h : m.Indifferent upgrade) :
    headerMap m.stored (text "Connection") ≠ some (text "close") ∧
      (upgrade = true →
        headerMap m.stored (text "Sec-WebSocket-Key") = none) := by
  refine ⟨fun hclose => ?_, fun hupgrade => ?_⟩
  · obtain ⟨line, hline, hname, hcontent⟩ := exists_line_of_headerMap hclose
    refine h.1 line hline ?_ hcontent
    rw [hname]
    decide
  · rw [Option.eq_none_iff_forall_not_mem]
    intro value hvalue
    obtain ⟨line, hline, hname, -⟩ := exists_line_of_headerMap hvalue
    refine h.2 hupgrade line hline ?_
    rw [hname]
    decide

/-- If the decisions do not depend on the case, the two questions do not matter: else some
line is asked for in one spelling of the message and not in another. -/
theorem SameDecisions.indifferent (hsame : SameDecisions core parser m) (hfold : core.FoldsNames)
    (h : m.WellFormed core upgrade) (hready : parser.Ready url body)
    (hfeeds : parser.Feeds m.bytes) : m.Indifferent upgrade := by
  -- The decisions for any two ways to respell the lines.
  have hrespell (key : Bytes) (chosen chosen' : Bytes → Bool) := decisionsFor_eq_iff.mp
    ((hsame.decisionsFor_respell hfold h hready hfeeds key chosen).trans
      (hsame.decisionsFor_respell hfold h hready hfeeds key chosen').symm)
  constructor
  · intro line hline hname hclose
    have hsome : (headerMap (m.stored.map (respell (text "Connection") (· == text "close")))
        (text "Connection")).isSome :=
      isSome_respell hline (hname.trans (by decide)) (by simpa using hclose)
    obtain ⟨value, hvalue⟩ := Option.isSome_iff_exists.mp hsome
    have hchosen := chosen_of_respell (by decide) hvalue
    rw [beq_iff_eq] at hchosen
    rw [hchosen] at hvalue
    have hnone := ((hrespell (text "Connection") (· == text "close") fun _ => false).1.mp hvalue)
    exact absurd (chosen_of_respell (by decide) hnone) Bool.false_ne_true
  · intro hupgrade line hline hname
    have hsome : (headerMap (m.stored.map (respell (text "Sec-WebSocket-Key") fun _ => true))
        (text "Sec-WebSocket-Key")).isSome :=
      isSome_respell hline (hname.trans (by decide)) rfl
    obtain ⟨value, hvalue⟩ := Option.isSome_iff_exists.mp hsome
    have heq := (hrespell (text "Sec-WebSocket-Key") (fun _ => true) fun _ => false).2 hupgrade
    rw [hvalue] at heq
    exact absurd (chosen_of_respell (by decide) heq.symm) Bool.false_ne_true

/-- The decisions about an indifferent message do not depend on the case. -/
theorem HeadedMessage.Indifferent.sameDecisions (hm : m.Indifferent upgrade)
    (hfold : core.FoldsNames) (h : m.WellFormed core upgrade) (hready : parser.Ready url body)
    (hfeeds : parser.Feeds m.bytes) : SameDecisions core parser m := by
  intro bytes' hrecased segments segments' hcut hcut'
  obtain ⟨headers, trailers, hheaders, htrailers, h'⟩ := h.of_recased hfold hrecased
  have hfeeds' := (feeds_iff_of_url h h' hready rfl).mpr hfeeds
  have hm' := SameLines.indifferent (sameLines_stored bytes' hheaders htrailers) hm
  rw [decisions_of_accepted h hready hfeeds hcut, decisions_of_accepted h' hready hfeeds' hcut',
    decisionsFor_eq_iff]
  refine ⟨iff_of_false hm'.lookups.1 hm.lookups.1, fun hupgrade => ?_⟩
  rw [hm'.lookups.2 hupgrade, hm.lookups.2 hupgrade]

/-- **When the case of header names does not matter.**  The decisions about a message are
the same under every change of case exactly if its URL is rejected, so that there are none,
or no `Connection` header of it, in any case, has the value `close` and, if it asks for an
upgrade, it has no `Sec-WebSocket-Key` header. -/
theorem header_case_iff (core : HttpCore) (hfold : core.FoldsNames) (upgrade : Bool)
    (m : HeadedMessage) (h : m.WellFormed core upgrade) (url body : Bytes)
    (parser : HTTPParser core) (hready : parser.Ready url body) :
    SameDecisions core parser m ↔
      (url ++ urlOf m.start ≠ [] ∧ target (url ++ urlOf m.start) = none) ∨
        m.Indifferent upgrade := by
  have hfeeds_iff : parser.Feeds m.bytes ↔
      ¬(url ++ urlOf m.start ≠ [] ∧ target (url ++ urlOf m.start) = none) := by
    have hfeeds := h.toMessage.feeds_iff hready.core_init
    rw [hready.mUrl] at hfeeds
    refine hfeeds.trans ?_
    rw [not_and_or, not_not, ← ne_eq, Option.ne_none_iff_isSome]
    rfl
  by_cases hfeeds : parser.Feeds m.bytes
  · rw [or_iff_right (hfeeds_iff.mp hfeeds)]
    exact ⟨fun hsame => hsame.indifferent hfold h hready hfeeds,
      fun hm => hm.sameDecisions hfold h hready hfeeds⟩
  · refine iff_of_true ?_ (.inl (not_not.mp fun hrejected => hfeeds (hfeeds_iff.mpr hrejected)))
    intro bytes' hrecased segments segments' hcut hcut'
    obtain ⟨headers, trailers, -, -, h'⟩ := h.of_recased hfold hrecased
    have hfeeds' : ¬parser.Feeds bytes' := fun hok =>
      hfeeds ((feeds_iff_of_url h h' hready rfl).mp hok)
    rw [decisions_of_rejected h hready hfeeds hcut, decisions_of_rejected h' hready hfeeds' hcut']

end Main

/-! ## Two requests -/

/-- The request `GET /a HTTP/1.1` with one header line, and what the bundled parser makes of
it byte by byte. -/
def headedGet (name value : String) : HeadedMessage where
  bytes := text "GET /a HTTP/1.1\r\n" ++ text name ++ text ": " ++ text value ++ text "\r\n\r\n"
  start := (byteByByte (text "/a")).map .url
  headers := [byteLine (text name, text value)]
  body := []
  trailers := []
  last := [.messageComplete]

/-- A request whose callbacks were looked at. -/
theorem wellFormed_headedGet {name value : String}
    (hruns : (parserCore .both).Runs (parserCore .both).init (headedGet name value).bytes.dropLast)
    (hpart : .messageComplete ∉
      (parserCore .both).trace (parserCore .both).init (headedGet name value).bytes.dropLast)
    (hlast : ((parserCore .both).step ((parserCore .both).after (parserCore .both).init
      (headedGet name value).bytes.dropLast) 10).2 = ([.headersComplete, .messageComplete], .next))
    (hupgrade : (parserCore .both).upgrade
      ((parserCore .both).after (parserCore .both).init (headedGet name value).bytes) = false)
    (hemits : (parserCore .both).trace (parserCore .both).init (headedGet name value).bytes =
      (headedGet name value).events)
    (hname : text name ≠ []) : (headedGet name value).WellFormed (parserCore .both) false := by
  have hbytes : (headedGet name value).bytes = (headedGet name value).bytes.dropLast ++ [10] := by
    have hend : text "\r\n\r\n" = [13, 10, 13] ++ [10] := by decide
    simp only [headedGet, hend, ← List.append_assoc, List.dropLast_concat]
  refine ⟨⟨_, 10, hbytes, hruns, hpart, ?_, ?_⟩, hupgrade, hemits, ?_, ?_, ?_, ?_, ?_⟩
  · rw [hlast]
    decide
  · rw [hlast]
    rfl
  · simp [headedGet]
  · simp [headedGet]
  · simp [headedGet]
  · simp only [headedGet, List.append_nil, List.forall_mem_cons]
    refine ⟨⟨?_, by simp [byteLine, byteByByte]⟩, nofun⟩
    rw [show (byteLine (text name, text value)).field.flatten = text name from
      flatten_byteByByte (text name)]
    exact hname
  · show ∀ x ∈ text "/a", isUrlByte x
    decide +kernel

/-- A request with the one header `Host: x`. -/
theorem header_case_iff_host :
    (headedGet "Host" "x").WellFormed (parserCore .both) false ∧
      SameDecisions (parserCore .both) (.new (parserCore .both)) (headedGet "Host" "x") := by
  have hwf : (headedGet "Host" "x").WellFormed (parserCore .both) false :=
    wellFormed_headedGet (by decide) (by decide) (by decide)
      (by decide +kernel) (by decide +kernel) (by decide)
  refine ⟨hwf, (header_case_iff (parserCore .both) (foldsNames_parserCore .both) false _ hwf [] [] _
    (HTTPParser.ready_new (parserCore .both))).mpr (.inr ⟨?_, by simp⟩)⟩
  decide

/-- `Connection: close` ends the connection, `connection: close` does not. -/
theorem not_header_case_close :
    (headedGet "Connection" "close").WellFormed (parserCore .both) false ∧
      ¬SameDecisions (parserCore .both) (.new (parserCore .both))
        (headedGet "Connection" "close") := by
  have hwf : (headedGet "Connection" "close").WellFormed (parserCore .both) false :=
    wellFormed_headedGet (by decide) (by decide) (by decide)
      (by decide +kernel) (by decide +kernel) (by decide)
  refine ⟨hwf, fun hsame => ?_⟩
  have hrecased : (parserCore .both).Recased (parserCore .both).init
      (headedGet "Connection" "close").bytes (headedGet "connection" "close").bytes :=
    HttpCore.Recased.at (text "GET /a HTTP/1.1\r\n") (by decide) (by decide)
      (text "onnection: close\r\n\r\n")
  have hdecisions := hsame _ hrecased [(headedGet "Connection" "close").bytes]
    [(headedGet "connection" "close").bytes] (cuts_whole (by decide)) (cuts_whole (by decide))
  revert hdecisions
  decide

end Brynet.Http
