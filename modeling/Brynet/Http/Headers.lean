import Brynet.Http.Execute

/-!
# Header lines from their fragments

A header line reaches `HTTPParser` as fragments of its name followed by
fragments of its value.  The class keeps the line it is reading in
`mCurrentField` and `mCurrentValue` and stores it when the next name begins or
the headers are complete; on that occasion it also parses the URL.

`Reading` is the invariant between two lines: the stored lines with the current
one are the lines read so far.  Path and query are those from before the headers
or already those of the URL.
-/

namespace Brynet.Http

/-- A header line in fragments. -/
structure HeaderLine where
  field : List Bytes
  value : List Bytes
deriving Repr, DecidableEq

namespace HeaderLine

/-- The fragments that `http_parser` makes of a line: its name is not empty, and
its value is reported also if it is. -/
structure WellFormed (line : HeaderLine) : Prop where
  field_ne_nil : line.field.flatten ≠ []
  value_ne_nil : line.value ≠ []

def name (line : HeaderLine) : Bytes := line.field.flatten

def content (line : HeaderLine) : Bytes := line.value.flatten

def events (line : HeaderLine) : List HttpEvent :=
  line.field.map .headerField ++ line.value.map .headerValue

end HeaderLine

/-- The lines as a map: each name has its last value. -/
def headerMap (lines : List HeaderLine) : Bytes → Option Bytes :=
  lines.foldl (fun m line => Function.update m line.name (some line.content)) fun _ => none

theorem headerMap_concat (lines : List HeaderLine) (line : HeaderLine) :
    headerMap (lines ++ [line]) =
      Function.update (headerMap lines) line.name (some line.content) := by
  simp [headerMap]

/-- The entry of a name is the value of its last line, if there is one. -/
theorem headerMap_apply (lines : List HeaderLine) (name : Bytes) :
    headerMap lines name =
      (lines.reverse.find? fun line => line.name = name).map HeaderLine.content := by
  induction lines using List.reverseRecOn with
  | nil => rfl
  | append_singleton lines line ih =>
      rw [headerMap_concat, List.reverse_append, List.reverse_singleton, List.singleton_append]
      by_cases hname : line.name = name
      · subst hname
        rw [Function.update_self, List.find?_cons_of_pos (by simp)]
        rfl
      · rw [Function.update_of_ne (Ne.symm hname), List.find?_cons_of_neg (by simpa using hname)]
        exact ih

/-- An entry of the map comes from a line. -/
theorem exists_line_of_headerMap {lines : List HeaderLine} {name value : Bytes}
    (h : headerMap lines name = some value) :
    ∃ line ∈ lines, line.name = name ∧ line.content = value := by
  induction lines using List.reverseRecOn with
  | nil => cases h
  | append_singleton lines line ih =>
      rw [headerMap_concat] at h
      by_cases hname : name = line.name
      · subst hname
        rw [Function.update_self, Option.some.injEq] at h
        exact ⟨line, List.mem_append_right _ List.mem_cons_self, rfl, h⟩
      · rw [Function.update_of_ne hname] at h
        obtain ⟨found, hfound, heq⟩ := ih h
        exact ⟨found, List.mem_append_left _ hfound, heq⟩

/-- The callbacks that have nothing to do with header lines. -/
def HttpEvent.leavesLines : HttpEvent → Bool
  | .messageBegin | .headerField _ | .headerValue _ | .headersComplete => false
  | _ => true

/-- The members that header lines leave alone. -/
structure Surroundings (core : HttpCore) where
  mParser : core.State
  httpErrno : Bool
  mIsWebSocket : Bool
  mISCompleted : Bool
  mUrl : Bytes
  mBody : Bytes

namespace HTTPParser

variable {core : HttpCore} {parser parser' : HTTPParser core}

def surroundings (parser : HTTPParser core) : Surroundings core :=
  { mParser := parser.mParser
    httpErrno := parser.httpErrno
    mIsWebSocket := parser.mIsWebSocket
    mISCompleted := parser.mISCompleted
    mUrl := parser.mUrl
    mBody := parser.mBody }

/-! ## One line -/

/-- The parser with its current line stored. -/
def flushed (parser : HTTPParser core) : HTTPParser core :=
  if parser.mCurrentField = [] then parser else parser.sHeadComplete.1

theorem surroundings_sHeadComplete (parser : HTTPParser core) :
    parser.sHeadComplete.1.surroundings = parser.surroundings := by
  rw [sHeadComplete_eq, storeHeader_eq]
  split
  · rfl
  · cases target parser.mUrl <;> rfl

theorem mHeadValues_sHeadComplete :
    parser.sHeadComplete.1.mHeadValues = parser.storeHeader.mHeadValues := by
  rw [sHeadComplete_eq]
  split
  · rfl
  · cases target parser.mUrl <;> rfl

theorem surroundings_flushed : parser.flushed.surroundings = parser.surroundings := by
  unfold flushed
  split
  · rfl
  · exact surroundings_sHeadComplete parser

theorem mHeadValues_flushed : parser.flushed.mHeadValues = parser.storeHeader.mHeadValues := by
  unfold flushed
  split
  · rename_i hfield
    rw [storeHeader, if_pos hfield]
  · exact mHeadValues_sHeadComplete

theorem notifyAll_headerField (fragments : List Bytes) (h : parser.mLastWasValue = false) :
    parser.notifyAll (fragments.map .headerField) =
      ({ parser with mCurrentField := parser.mCurrentField ++ fragments.flatten }, true) := by
  induction fragments generalizing parser with
  | nil => simp [notifyAll]
  | cons fragment rest ih =>
      have hfirst : parser.sHeadField fragment =
          { parser with mCurrentField := parser.mCurrentField ++ fragment } := by
        simp [sHeadField, h]
      rw [List.map_cons, notifyAll_cons]
      simp only [notify, if_true, hfirst]
      refine (ih ?_).trans ?_
      · exact h
      · simp

theorem notifyAll_headerValue (fragments : List Bytes) (h : fragments ≠ []) :
    parser.notifyAll (fragments.map .headerValue) =
      ({ parser with
        mCurrentValue := parser.mCurrentValue ++ fragments.flatten, mLastWasValue := true }, true) := by
  induction fragments generalizing parser with
  | nil => exact absurd rfl h
  | cons fragment rest ih =>
      rw [List.map_cons, notifyAll_cons]
      simp only [notify, if_true, sHeadValue]
      by_cases hrest : rest = []
      · subst hrest
        simp [notifyAll]
      · rw [ih hrest]
        simp

/-- **One line.**  However it is cut, a line replaces the current one, which is
stored. -/
theorem notifyAll_line {line : HeaderLine} (hwf : line.WellFormed)
    (h : parser.mLastWasValue = true) :
    parser.notifyAll line.events = ({ parser.flushed with
      mCurrentField := line.name, mCurrentValue := line.content, mLastWasValue := true }, true) := by
  have hfield : line.field ≠ [] := by
    intro hnil
    exact hwf.field_ne_nil (by rw [hnil]; rfl)
  obtain ⟨fragment, rest, hsplit⟩ := List.exists_cons_of_ne_nil hfield
  have hfirst : parser.sHeadField fragment = { parser.flushed with
      mCurrentField := fragment, mCurrentValue := [], mLastWasValue := false } := by
    simp [sHeadField, h, flushed]
  unfold HeaderLine.events
  rw [notifyAll_append, hsplit, List.map_cons, notifyAll_cons]
  simp only [notify, if_true, hfirst]
  rw [notifyAll_headerField rest rfl]
  simp only [if_true]
  rw [notifyAll_headerValue _ hwf.value_ne_nil]
  simp [HeaderLine.name, HeaderLine.content, hsplit]

/-! ## All lines -/

/-- The stored lines with the current one are `lines`. -/
structure Collected (lines : List HeaderLine) (parser : HTTPParser core) : Prop where
  stored : parser.storeHeader.mHeadValues = headerMap lines
  lastWasValue : parser.mLastWasValue = true

theorem Collected.line {lines : List HeaderLine} {line : HeaderLine}
    (h : Collected lines parser) (hwf : line.WellFormed) :
    (parser.notifyAll line.events).2 = true ∧
      Collected (lines ++ [line]) (parser.notifyAll line.events).1 := by
  rw [notifyAll_line hwf h.lastWasValue]
  refine ⟨rfl, ⟨?_, rfl⟩⟩
  rw [storeHeader, if_neg (show line.name ≠ [] from hwf.field_ne_nil), headerMap_concat]
  show Function.update parser.flushed.mHeadValues line.name (some line.content) = _
  rw [mHeadValues_flushed, h.stored]

theorem Collected.lines {read : List HeaderLine} (h : Collected read parser)
    {lines : List HeaderLine} (hwf : ∀ line ∈ lines, line.WellFormed) :
    (parser.notifyAll (lines.flatMap HeaderLine.events)).2 = true ∧
      Collected (read ++ lines) (parser.notifyAll (lines.flatMap HeaderLine.events)).1 := by
  induction lines generalizing parser read with
  | nil => exact ⟨rfl, by simpa [notifyAll] using h⟩
  | cons line rest ih =>
      obtain ⟨hok, hread⟩ := h.line (hwf line List.mem_cons_self)
      obtain ⟨hok', hread'⟩ := ih hread fun line hline => hwf line (List.mem_cons_of_mem _ hline)
      rw [List.flatMap_cons, notifyAll_append, if_pos hok]
      refine ⟨hok', ?_⟩
      simpa using hread'

/-- `parser` has read `lines` since it was `first`, and the last of them is its
current line. -/
structure Reading (first : HTTPParser core) (lines : List HeaderLine) (parser : HTTPParser core) :
    Prop where
  stored : parser.storeHeader.mHeadValues = headerMap lines
  lastWasValue : parser.mLastWasValue = true
  located : (parser.mPath = first.mPath ∧ parser.mQuery = first.mQuery) ∨
    ∃ t, target first.mUrl = some t ∧ parser.mPath = t.1 ∧ parser.mQuery = t.2.getD first.mQuery
  frame : parser.surroundings = first.surroundings

theorem Reading.mUrl {first : HTTPParser core} {lines : List HeaderLine}
    (h : first.Reading lines parser) : parser.mUrl = first.mUrl :=
  congrArg Surroundings.mUrl h.frame

/-- Parsing the URL leads to its path and query, whether or not it was parsed
before. -/
theorem Reading.sHeadComplete {first : HTTPParser core} {lines : List HeaderLine}
    (h : first.Reading lines parser) (hurl : first.mUrl ≠ []) :
    parser.sHeadComplete.2 = (target first.mUrl).isSome ∧
    ((target first.mUrl = none ∧ parser.sHeadComplete.1.mPath = first.mPath ∧
        parser.sHeadComplete.1.mQuery = first.mQuery) ∨
      ∃ t, target first.mUrl = some t ∧ parser.sHeadComplete.1.mPath = t.1 ∧
        parser.sHeadComplete.1.mQuery = t.2.getD first.mQuery) := by
  rw [sHeadComplete_eq, h.mUrl, if_neg hurl]
  cases htarget : target first.mUrl with
  | none =>
      obtain ⟨hpath, hquery⟩ | ⟨t, ht, -⟩ := h.located
      · refine ⟨rfl, .inl ⟨rfl, ?_, ?_⟩⟩
        · rw [storeHeader_eq]
          exact hpath
        · rw [storeHeader_eq]
          exact hquery
      · rw [htarget] at ht
        cases ht
  | some t =>
      refine ⟨rfl, .inr ⟨t, rfl, rfl, ?_⟩⟩
      obtain ⟨-, hquery⟩ | ⟨t', ht', -, hquery⟩ := h.located
      · exact congrArg t.2.getD hquery
      · obtain rfl : t = t' := Option.some.inj (htarget.symm.trans ht')
        show t.2.getD parser.mQuery = _
        rw [hquery]
        cases t.2 <;> rfl

theorem Reading.line {first : HTTPParser core} {lines : List HeaderLine} {line : HeaderLine}
    (h : first.Reading lines parser) (hurl : first.mUrl ≠ []) (hwf : line.WellFormed) :
    (parser.notifyAll line.events).2 = true ∧
      first.Reading (lines ++ [line]) (parser.notifyAll line.events).1 := by
  obtain ⟨hok, hstored, hlast⟩ := Collected.line ⟨h.stored, h.lastWasValue⟩ hwf
  refine ⟨hok, ⟨hstored, hlast, ?_, ?_⟩⟩
  · rw [notifyAll_line hwf h.lastWasValue]
    show (parser.flushed.mPath = _ ∧ parser.flushed.mQuery = _) ∨
      ∃ t, _ ∧ parser.flushed.mPath = _ ∧ parser.flushed.mQuery = _
    unfold flushed
    split
    · exact h.located
    · obtain ⟨-, ⟨-, hsame⟩ | hfound⟩ := h.sHeadComplete hurl
      · exact .inl hsame
      · exact .inr hfound
  · rw [notifyAll_line hwf h.lastWasValue]
    exact surroundings_flushed.trans h.frame

/-- **All lines.**  By induction over them, with the current line as the last. -/
theorem Reading.lines {first : HTTPParser core} {read : List HeaderLine}
    (h : first.Reading read parser) (hurl : first.mUrl ≠ []) {lines : List HeaderLine}
    (hwf : ∀ line ∈ lines, line.WellFormed) :
    (parser.notifyAll (lines.flatMap HeaderLine.events)).2 = true ∧
      first.Reading (read ++ lines) (parser.notifyAll (lines.flatMap HeaderLine.events)).1 := by
  induction lines generalizing parser read with
  | nil => exact ⟨rfl, by simpa [notifyAll] using h⟩
  | cons line rest ih =>
      obtain ⟨hok, hread⟩ := h.line hurl (hwf line List.mem_cons_self)
      obtain ⟨hok', hread'⟩ := ih hread fun line hline => hwf line (List.mem_cons_of_mem _ hline)
      rw [List.flatMap_cons, notifyAll_append, if_pos hok]
      refine ⟨hok', ?_⟩
      simpa using hread'

/-! ## From the beginning of a message to the end of its headers -/

/-- The callbacks up to `headers_complete`: the fragments of the URL if the message is
a request, those of the status if it is a response, and the lines. -/
def headEvents (urls : List Bytes) (statuses : List (ℕ × Bytes)) (lines : List HeaderLine) :
    List HttpEvent :=
  .messageBegin :: (urls.map .url ++ statuses.map (fun status => .status status.1 status.2)) ++
    lines.flatMap HeaderLine.events ++ [.headersComplete]

/-- Such callbacks succeed, and change nothing that header lines are collected in. -/
theorem Collected.leaves {lines : List HeaderLine} (h : Collected lines parser)
    (events : List HttpEvent) (hevents : ∀ event ∈ events, event.leavesLines = true) :
    (parser.notifyAll events).2 = true ∧ Collected lines (parser.notifyAll events).1 ∧
      (parser.notifyAll events).1.mHeadValues = parser.mHeadValues := by
  induction events generalizing parser with
  | nil => exact ⟨rfl, h, rfl⟩
  | cons event rest ih =>
      have hnext : (parser.notify event).2 = true ∧ Collected lines (parser.notify event).1 ∧
          (parser.notify event).1.mHeadValues = parser.mHeadValues := by
        have hstored := h.stored
        rw [storeHeader_eq] at hstored
        have hleaves := hevents event List.mem_cons_self
        cases event with
        | messageBegin | headerField data | headerValue data | headersComplete => cases hleaves
        | url data | status code data | body data | messageComplete | chunkHeader
        | chunkComplete =>
            refine ⟨rfl, ⟨?_, h.lastWasValue⟩, rfl⟩
            rw [storeHeader_eq]
            exact hstored
      obtain ⟨hok, hcollected, hvalues⟩ :=
        ih hnext.2.1 fun event hevent => hevents event (List.mem_cons_of_mem _ hevent)
      rw [notifyAll_cons, if_pos hnext.1]
      exact ⟨hok, hcollected, hvalues.trans hnext.2.2⟩

theorem fst_notifyAll_singleton (event : HttpEvent) :
    (parser.notifyAll [event]).1 = (parser.notify event).1 := by
  rw [notifyAll_cons]
  split <;> rfl

/-- **Header assembly.**  However the lines are cut, after `headers_complete` each name
has the full value of its last line, and there is no other name. -/
theorem headers_assembled (parser : HTTPParser core) (urls : List Bytes)
    (statuses : List (ℕ × Bytes)) (lines : List HeaderLine)
    (hwf : ∀ line ∈ lines, line.WellFormed) (name : Bytes) :
    (parser.clearParse.notifyAll (headEvents urls statuses lines)).1.mHeadValues name =
      (lines.reverse.find? fun line => line.name = name).map HeaderLine.content := by
  have hbegin : Collected [] parser.clearParse.sMessageBegin := ⟨rfl, rfl⟩
  obtain ⟨hok, hfirst, -⟩ := hbegin.leaves
    (urls.map .url ++ statuses.map fun status => .status status.1 status.2) (by
      simp only [List.mem_append, List.mem_map]
      rintro event (⟨url, -, rfl⟩ | ⟨status, -, rfl⟩) <;> rfl)
  obtain ⟨hok', hread⟩ := hfirst.lines hwf
  rw [← headerMap_apply, headEvents, List.append_assoc, List.cons_append, notifyAll_cons]
  simp only [notify, if_true]
  rw [notifyAll_append, if_pos hok, notifyAll_append, if_pos hok']
  rw [fst_notifyAll_singleton]
  exact congrFun (mHeadValues_sHeadComplete.trans hread.stored) name

/-- The name `ab` in two fragments, first with a value and then with the empty one. -/
theorem headers_assembled_twice :
    ((new ⟨Unit, (), fun _ _ => ((), [], .next), fun _ => false⟩).clearParse.notifyAll
      (headEvents [] [] [⟨[text "a", text "b"], [text "x"]⟩, ⟨[text "ab"], [[]]⟩])).1.mHeadValues
        (text "ab") = some [] :=
  headers_assembled _ [] [] _ (by
    simp only [List.mem_cons, List.not_mem_nil, or_false]
    rintro line (rfl | rfl)
    · exact ⟨by decide, by decide⟩
    · exact ⟨by decide, by decide⟩) (text "ab")

end HTTPParser

end Brynet.Http
