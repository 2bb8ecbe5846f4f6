import Brynet.Http.Segmentation
import Brynet.Lib.Text
import Mathlib.Data.List.Forall2

/-!
# The letter case of header names

`http_parser` looks up every byte of a header name in its table `tokens`, which folds
letters, so it takes the same way through a message however its header names are
spelled.

* `FoldsNames` is what is known of the core: a step that reports a byte of a header name
  does the same, up to this byte, for the other case of the byte.
* `Recased` is a change of letter case in the header names of a message.  The core takes
  the same way through both texts (`Recased.trace`), and every change of case in the
  callbacks comes from one in the bytes (`exists_recased`).
* A message is given by its header lines in fragments.  A fragment may be empty:
  `http_parser` reports one where a name or a value ends at the start of a buffer.  A
  change of case carries the callbacks of a message to those of one with respelled lines
  (`of_recased`), and every respelling of the lines comes from such a change.
-/

namespace Brynet.Http

open Text

/-! ## Changes of case -/

/-- The same callback, up to the case of a header name. -/
def HttpEvent.SameButCase : HttpEvent → HttpEvent → Prop
  | .headerField data, event => ∃ data', event = .headerField data' ∧ lowerCase data' = lowerCase data
  | event, event' => event' = event

/-- Callbacks that report no byte of a header name. -/
def Nameless (events : List HttpEvent) : Prop := ∀ data, .headerField data ∈ events → data = []

/-- A step that reports a header name reports the byte it reads, behind other callbacks, and
for the same byte in another case it does the same. -/
def HttpCore.FoldsNames (core : HttpCore) : Prop :=
  ∀ s b, Nameless (core.step s b).2.1 ∨
    ∃ before, Nameless before ∧ ∀ b', lowerCase [b'] = lowerCase [b] →
      core.step s b' = ((core.step s b).1, before ++ [.headerField [b']], (core.step s b).2.2)

/-- The second text is the first with the case of some bytes of header names changed;
`s` is the state of the core before them. -/
inductive HttpCore.Recased (core : HttpCore) : core.State → Bytes → Bytes → Prop
  | nil (s : core.State) : Recased core s [] []
  | keep {s : core.State} {rest rest' : Bytes} (b : UInt8)
      (h : Recased core (core.step s b).1 rest rest') : Recased core s (b :: rest) (b :: rest')
  | change {s : core.State} {b b' : UInt8} {rest rest' : Bytes}
      (hname : .headerField [b] ∈ (core.step s b).2.1) (hcase : lowerCase [b'] = lowerCase [b])
      (h : Recased core (core.step s b).1 rest rest') : Recased core s (b :: rest) (b' :: rest')

theorem HttpEvent.SameButCase.refl (event : HttpEvent) : event.SameButCase event := by
  cases event with
  | headerField data => exact ⟨data, rfl, rfl⟩
  | _ => rfl

/-- Lists of callbacks that are the same up to the case of header names. -/
abbrev SameEvents : List HttpEvent → List HttpEvent → Prop := List.Forall₂ HttpEvent.SameButCase

theorem SameEvents.refl (events : List HttpEvent) : SameEvents events events :=
  List.forall₂_same.mpr fun event _ => HttpEvent.SameButCase.refl event

/-- Callbacks that report no byte of a name are the same. -/
theorem SameEvents.eq_of_nameless {events events' : List HttpEvent} (h : SameEvents events events')
    (hquiet : Nameless events) : events' = events := by
  induction h with
  | nil => rfl
  | @cons event event' rest rest' hevent _ ih =>
      have hrest := ih fun data hmem => hquiet data (List.mem_cons_of_mem _ hmem)
      have hfirst : event' = event := by
        cases event with
        | headerField data =>
            obtain ⟨data', rfl, hcase⟩ := hevent
            obtain rfl := hquiet data List.mem_cons_self
            rw [List.map_eq_nil_iff.mp hcase]
        | _ => exact hevent
      rw [hfirst, hrest]

theorem SameEvents.exists_append {first second events' : List HttpEvent}
    (h : SameEvents (first ++ second) events') :
    ∃ first' second', events' = first' ++ second' ∧ SameEvents first first' ∧
      SameEvents second second' := by
  induction first generalizing events' with
  | nil => exact ⟨[], events', rfl, .nil, h⟩
  | cons event rest ih =>
      cases h with
      | cons hevent hrest =>
          obtain ⟨first', second', rfl, hfirst, hsecond⟩ := ih hrest
          exact ⟨_ :: first', second', rfl, .cons hevent hfirst, hsecond⟩

/-- A callback that is not for a header name is in both lists or in neither. -/
theorem SameEvents.mem_iff {events events' : List HttpEvent} (h : SameEvents events events')
    {event : HttpEvent} (hname : ∀ data, event ≠ .headerField data) :
    event ∈ events' ↔ event ∈ events := by
  induction h with
  | nil => rfl
  | @cons first first' rest rest' hfirst _ ih =>
      rw [List.mem_cons, List.mem_cons, ih]
      refine or_congr_left ?_
      cases first with
      | headerField data =>
          obtain ⟨data', rfl, -⟩ := hfirst
          exact iff_of_false (hname data') (hname data)
      | _ =>
          obtain rfl := hfirst
          rfl

namespace HttpCore

variable {core : HttpCore} {s : core.State} {bytes bytes' : Bytes} {b b' : UInt8}

/-- The step for a byte of a header name. -/
theorem FoldsNames.step_name (hfold : core.FoldsNames)
    (hname : .headerField [b] ∈ (core.step s b).2.1) :
    ∃ before, Nameless before ∧ (core.step s b).2.1 = before ++ [.headerField [b]] ∧
      ∀ b', lowerCase [b'] = lowerCase [b] →
        core.step s b' = ((core.step s b).1, before ++ [.headerField [b']], (core.step s b).2.2) := by
  obtain hquiet | ⟨before, hbefore, hstep⟩ := hfold s b
  · exact absurd (hquiet _ hname) (List.cons_ne_nil b [])
  · refine ⟨before, hbefore, ?_, hstep⟩
    have hsame := congrArg (fun step => step.2.1) (hstep b rfl)
    exact hsame

/-- The same byte in another case. -/
theorem FoldsNames.step_change (hfold : core.FoldsNames)
    (hname : .headerField [b] ∈ (core.step s b).2.1) (hcase : lowerCase [b'] = lowerCase [b]) :
    SameEvents (core.step s b).2.1 (core.step s b').2.1 ∧
      (core.step s b').1 = (core.step s b).1 ∧ (core.step s b').2.2 = (core.step s b).2.2 := by
  obtain ⟨before, -, hevents, hstep⟩ := hfold.step_name hname
  rw [hstep b' hcase, hevents]
  exact ⟨List.rel_append (SameEvents.refl before) (.cons ⟨[b'], rfl, hcase⟩ .nil), rfl, rfl⟩

/-- The core takes the same way through both texts. -/
theorem Recased.trace (h : core.Recased s bytes bytes') (hfold : core.FoldsNames) :
    SameEvents (core.trace s bytes) (core.trace s bytes') ∧
      core.after s bytes' = core.after s bytes ∧
      (core.Runs s bytes' ↔ core.Runs s bytes) := by
  induction h with
  | nil s => exact ⟨.nil, rfl, Iff.rfl⟩
  | @keep s rest rest' b _ ih =>
      obtain ⟨htrace, hafter, hruns⟩ := ih
      refine ⟨List.rel_append (SameEvents.refl _) htrace, hafter, ?_⟩
      exact and_congr_right fun _ => hruns
  | @change s b b' rest rest' hname hcase _ ih =>
      obtain ⟨htrace, hafter, hruns⟩ := ih
      obtain ⟨hevents, hstate, hresult⟩ := hfold.step_change hname hcase
      refine ⟨?_, ?_, ?_⟩
      · rw [HttpCore.trace, HttpCore.trace, hstate]
        exact List.rel_append hevents htrace
      · rw [HttpCore.after, HttpCore.after, hstate]
        exact hafter
      · rw [HttpCore.Runs, HttpCore.Runs, hstate, hresult]
        exact and_congr_right fun _ => hruns

/-- Every change of case in the callbacks comes from one in the bytes. -/
theorem exists_recased (hfold : core.FoldsNames) {events : List HttpEvent}
    (h : SameEvents (core.trace s bytes) events) :
    ∃ bytes', core.Recased s bytes bytes' ∧ core.trace s bytes' = events := by
  induction bytes generalizing s events with
  | nil =>
      cases h
      exact ⟨[], .nil s, rfl⟩
  | cons b rest ih =>
      obtain ⟨first, last, rfl, hfirst, hlast⟩ := SameEvents.exists_append h
      obtain ⟨rest', hrest, htrace⟩ := ih hlast
      by_cases hname : .headerField [b] ∈ (core.step s b).2.1
      · obtain ⟨before, hbefore, hevents, hstep⟩ := hfold.step_name hname
        rw [hevents] at hfirst
        obtain ⟨first', name, rfl, hsame, hchanged⟩ := SameEvents.exists_append hfirst
        obtain rfl := hsame.eq_of_nameless hbefore
        obtain ⟨event, tail, ⟨data', rfl, hcase⟩, htail, rfl⟩ := List.forall₂_cons_left_iff.mp hchanged
        cases htail
        -- The new spelling of one byte is one byte.
        have hone : data'.length = 1 := by
          have hlen := congrArg List.length hcase
          simpa [lowerCase] using hlen
        obtain ⟨b', rfl⟩ := List.length_eq_one_iff.mp hone
        refine ⟨b' :: rest', .change hname hcase hrest, ?_⟩
        rw [HttpCore.trace, hstep b' hcase]
        exact congrArg _ htrace
      · have hquiet : Nameless (core.step s b).2.1 := by
          obtain hquiet | ⟨before, -, hstep⟩ := hfold s b
          · exact hquiet
          · rw [hstep b rfl] at hname
            exact absurd (List.mem_append_right before List.mem_cons_self) hname
        refine ⟨b :: rest', .keep b hrest, ?_⟩
        rw [HttpCore.trace, htrace, hfirst.eq_of_nameless hquiet]

theorem Recased.refl (s : core.State) (bytes : Bytes) : core.Recased s bytes bytes := by
  induction bytes generalizing s with
  | nil => exact .nil s
  | cons b rest ih => exact .keep b (ih _)

/-- One byte of a name is changed. -/
theorem Recased.at (before : Bytes)
    (hname : .headerField [b] ∈ (core.step (core.after s before) b).2.1)
    (hcase : lowerCase [b'] = lowerCase [b]) (rest : Bytes) :
    core.Recased s (before ++ b :: rest) (before ++ b' :: rest) := by
  induction before generalizing s with
  | nil => exact .change hname hcase (.refl _ rest)
  | cons first before ih => exact .keep first (ih hname)

/-- A change of case, divided with the text. -/
theorem Recased.exists_append {first last : Bytes} (h : core.Recased s (first ++ last) bytes') :
    ∃ first' last', bytes' = first' ++ last' ∧ core.Recased s first first' ∧
      core.Recased (core.after s first) last last' := by
  induction first generalizing s bytes' with
  | nil => exact ⟨[], bytes', rfl, .nil s, h⟩
  | cons b rest ih =>
      cases h with
      | keep b h =>
          obtain ⟨first', last', rfl, hfirst, hlast⟩ := ih h
          exact ⟨b :: first', last', rfl, .keep b hfirst, hlast⟩
      | change hname hcase h =>
          obtain ⟨first', last', rfl, hfirst, hlast⟩ := ih h
          exact ⟨_ :: first', last', rfl, .change hname hcase hfirst, hlast⟩

/-- A change of case in one byte. -/
theorem Recased.single (h : core.Recased s [b] bytes') (hfold : core.FoldsNames) :
    ∃ b', bytes' = [b'] ∧ SameEvents (core.step s b).2.1 (core.step s b').2.1 ∧
      (core.step s b').2.2 = (core.step s b).2.2 := by
  cases h with
  | keep b hnil =>
      cases hnil
      exact ⟨b, rfl, SameEvents.refl _, rfl⟩
  | change hname hcase hnil =>
      cases hnil
      obtain ⟨hevents, -, hresult⟩ := hfold.step_change hname hcase
      exact ⟨_, rfl, hevents, hresult⟩

end HttpCore

/-! ## Messages -/

/-- The same fragments of a name, in another case. -/
abbrev SameFragments : List Bytes → List Bytes → Prop :=
  List.Forall₂ fun data data' => lowerCase data' = lowerCase data

/-- The same line with the fragments of its name in another case. -/
def HeaderLine.SameButCase (line line' : HeaderLine) : Prop :=
  SameFragments line.field line'.field ∧ line'.value = line.value

/-- The callbacks of some lines. -/
def lineEvents (lines : List HeaderLine) : List HttpEvent := lines.flatMap HeaderLine.events

/-- A message: its bytes, and the callbacks for it.  The lines behind a chunked body are
its trailers. -/
structure HeadedMessage where
  bytes : Bytes
  start : List HttpEvent
  headers : List HeaderLine
  body : List HttpEvent
  trailers : List HeaderLine
  last : List HttpEvent
deriving Repr, DecidableEq

namespace HeadedMessage

def events (m : HeadedMessage) : List HttpEvent :=
  (.messageBegin :: m.start) ++ (lineEvents m.headers ++
    ((.headersComplete :: m.body) ++ (lineEvents m.trailers ++ m.last)))

/-- The message without its callbacks. -/
def toMessage (m : HeadedMessage) : HttpMessage := ⟨m.bytes, urlOf m.start⟩

/-- The lines that are in `mHeadValues` when the message is complete.  A trailer is stored
when the next one begins, so the last one is not. -/
def stored (m : HeadedMessage) : List HeaderLine := m.headers ++ m.trailers.dropLast

/-- The message with other bytes and lines. -/
def withLines (m : HeadedMessage) (bytes : Bytes) (headers trailers : List HeaderLine) :
    HeadedMessage :=
  { m with bytes := bytes, headers := headers, trailers := trailers }

/-- `http_parser` makes these callbacks for the message, the last one at its last byte. -/
structure WellFormed (core : HttpCore) (upgrade : Bool) (m : HeadedMessage) : Prop where
  ends : ∃ first last, m.bytes = first ++ [last] ∧ core.Runs core.init first ∧
    .messageComplete ∉ core.trace core.init first ∧
    .messageComplete ∈ (core.step (core.after core.init first) last).2.1 ∧
    (core.step (core.after core.init first) last).2.2 = if upgrade then .stop else .next
  upgrades : core.upgrade (core.after core.init m.bytes) = upgrade
  emits : core.trace core.init m.bytes = m.events
  start : ∀ event ∈ m.start, (∃ data, event = .url data) ∨ ∃ code data, event = .status code data
  body : ∀ event ∈ m.body, event = .chunkHeader ∨ event = .chunkComplete ∨ ∃ data, event = .body data
  last : ∀ event ∈ m.last, event = .chunkComplete ∨ event = .messageComplete
  lines : ∀ line ∈ m.headers ++ m.trailers, line.WellFormed
  url_bytes : ∀ x ∈ urlOf m.start, isUrlByte x

end HeadedMessage

/-- Lines, and the same lines with their names in another case. -/
abbrev SameLines : List HeaderLine → List HeaderLine → Prop := List.Forall₂ HeaderLine.SameButCase

theorem lineEvents_cons (line : HeaderLine) (lines : List HeaderLine) :
    lineEvents (line :: lines) =
      line.field.map .headerField ++ (line.value.map .headerValue ++ lineEvents lines) := by
  rw [lineEvents, List.flatMap_cons, HeaderLine.events, List.append_assoc]
  rfl

/-- Fragments that are the same up to case make names that are. -/
theorem SameFragments.flatten {field field' : List Bytes} (h : SameFragments field field') :
    lowerCase field'.flatten = lowerCase field.flatten := by
  induction h with
  | nil => rfl
  | cons hdata _ ih =>
      rw [List.flatten_cons, List.flatten_cons, lowerCase_append, lowerCase_append, hdata, ih]

theorem HeaderLine.SameButCase.name {line line' : HeaderLine} (h : line.SameButCase line') :
    lowerCase line'.name = lowerCase line.name := h.1.flatten

/-- The callbacks of a name, in another case. -/
theorem SameEvents.exists_name {field : List Bytes} {events : List HttpEvent}
    (h : SameEvents (field.map .headerField) events) :
    ∃ field', SameFragments field field' ∧ events = field'.map .headerField := by
  induction field generalizing events with
  | nil =>
      cases h
      exact ⟨[], .nil, rfl⟩
  | cons data rest ih =>
      obtain ⟨event, tail, ⟨data', rfl, hcase⟩, htail, rfl⟩ := List.forall₂_cons_left_iff.mp h
      obtain ⟨rest', hrest, rfl⟩ := ih htail
      exact ⟨data' :: rest', .cons hcase hrest, rfl⟩

theorem SameFragments.events {field field' : List Bytes} (h : SameFragments field field') :
    SameEvents (field.map .headerField) (field'.map .headerField) := by
  rw [SameEvents, List.forall₂_map_left_iff, List.forall₂_map_right_iff]
  exact h.imp fun _ data' hcase => ⟨data', rfl, hcase⟩

/-- The callbacks of some lines, in another case, are those of respelled lines. -/
theorem SameEvents.exists_lines {lines : List HeaderLine} {events : List HttpEvent}
    (h : SameEvents (lineEvents lines) events) :
    ∃ lines', SameLines lines lines' ∧ events = lineEvents lines' := by
  induction lines generalizing events with
  | nil =>
      cases h
      exact ⟨[], .nil, rfl⟩
  | cons line rest ih =>
      rw [lineEvents_cons] at h
      obtain ⟨first, others, rfl, hname, hothers⟩ := h.exists_append
      obtain ⟨second, third, rfl, hvalue, hrest⟩ := SameEvents.exists_append hothers
      obtain ⟨field', hcase, rfl⟩ := SameEvents.exists_name hname
      obtain rfl := hvalue.eq_of_nameless (by simp [Nameless])
      obtain ⟨rest', hlines, rfl⟩ := ih hrest
      refine ⟨⟨field', line.value⟩ :: rest', .cons ⟨hcase, rfl⟩ hlines, ?_⟩
      rw [lineEvents_cons]

/-- Conversely, respelled lines have the same callbacks up to case. -/
theorem SameLines.events {lines lines' : List HeaderLine} (h : SameLines lines lines') :
    SameEvents (lineEvents lines) (lineEvents lines') := by
  induction h with
  | nil => exact .nil
  | @cons line line' rest rest' hline _ ih =>
      obtain ⟨hcase, hvalue⟩ := hline
      rw [lineEvents_cons, lineEvents_cons, hvalue]
      exact List.rel_append hcase.events (List.rel_append (SameEvents.refl _) ih)

/-! ## What the callbacks of a message leave -/

theorem lineEvents_eq (lines : List HeaderLine) {event : HttpEvent} (h : event ∈ lineEvents lines) :
    (∃ data, event = .headerField data) ∨ ∃ data, event = .headerValue data := by
  simp only [lineEvents, HeaderLine.events, List.mem_flatMap, List.mem_append, List.mem_map] at h
  obtain ⟨line, -, ⟨data, -, rfl⟩ | ⟨data, -, rfl⟩⟩ := h
  · exact .inl ⟨data, rfl⟩
  · exact .inr ⟨data, rfl⟩

namespace HTTPParser

variable {core : HttpCore} {parser : HTTPParser core}

theorem notifyAll_append_of_ok {first second : List HttpEvent}
    (h : (parser.notifyAll (first ++ second)).2 = true) :
    (parser.notifyAll first).2 = true ∧
      parser.notifyAll (first ++ second) = (parser.notifyAll first).1.notifyAll second := by
  rw [notifyAll_append] at h ⊢
  by_cases hok : (parser.notifyAll first).2 = true
  · exact ⟨hok, if_pos hok⟩
  · rw [if_neg hok] at h
    cases h

/-- The end of the headers stores the current line, which stays the current one. -/
theorem Collected.headersComplete {lines : List HeaderLine} (h : Collected lines parser) :
    Collected lines parser.sHeadComplete.1 ∧
      parser.sHeadComplete.1.mHeadValues = headerMap lines := by
  have hvalues : parser.sHeadComplete.1.mHeadValues = headerMap lines :=
    mHeadValues_sHeadComplete.trans h.stored
  have hline : parser.sHeadComplete.1.mCurrentField = parser.mCurrentField ∧
      parser.sHeadComplete.1.mCurrentValue = parser.mCurrentValue ∧
      parser.sHeadComplete.1.mLastWasValue = parser.mLastWasValue := by
    rw [sHeadComplete_eq, storeHeader_eq]
    split
    · exact ⟨rfl, rfl, rfl⟩
    · cases target parser.mUrl <;> exact ⟨rfl, rfl, rfl⟩
  refine ⟨⟨?_, hline.2.2.trans h.lastWasValue⟩, hvalues⟩
  have hstored := h.stored
  rw [storeHeader_eq] at hstored ⊢
  simp only [hvalues, hline.1, hline.2.1]
  split
  · rfl
  · rename_i hfield
    rw [if_neg hfield] at hstored
    rw [← hstored, Function.update_idem]

/-- Trailers are stored but for the last one. -/
theorem Collected.trailers {lines trailers : List HeaderLine} (h : Collected lines parser)
    (hvalues : parser.mHeadValues = headerMap lines)
    (hwf : ∀ line ∈ trailers, line.WellFormed) :
    (parser.notifyAll (trailers.flatMap HeaderLine.events)).1.mHeadValues =
      headerMap (lines ++ trailers.dropLast) := by
  rcases List.eq_nil_or_concat' trailers with rfl | ⟨before, last, rfl⟩
  · simpa [notifyAll] using hvalues
  · obtain ⟨hok, hread⟩ := h.lines fun line hline => hwf line (List.mem_append_left _ hline)
    have hlast := hwf last (List.mem_append_right _ List.mem_cons_self)
    rw [List.flatMap_append, notifyAll_append, if_pos hok, List.flatMap_singleton,
      notifyAll_line hlast hread.lastWasValue, List.dropLast_concat]
    exact mHeadValues_flushed.trans hread.stored

end HTTPParser

namespace HeadedMessage.WellFormed

variable {core : HttpCore} {parser : HTTPParser core} {m : HeadedMessage} {upgrade : Bool}

theorem leaves_start (h : m.WellFormed core upgrade) :
    ∀ event ∈ m.start, event.leavesLines = true := by
  intro event hevent
  obtain ⟨data, rfl⟩ | ⟨code, data, rfl⟩ := h.start event hevent <;> rfl

theorem leaves_body (h : m.WellFormed core upgrade) :
    ∀ event ∈ m.body, event.leavesLines = true := by
  intro event hevent
  obtain rfl | rfl | ⟨data, rfl⟩ := h.body event hevent <;> rfl

theorem leaves_last (h : m.WellFormed core upgrade) :
    ∀ event ∈ m.last, event.leavesLines = true := by
  intro event hevent
  obtain rfl | rfl := h.last event hevent <;> rfl

/-- The message as one whose headers do not matter. -/
theorem toMessage (h : m.WellFormed core upgrade) : m.toMessage.WellFormed core upgrade := by
  refine ⟨h.ends, h.upgrades, ⟨(.messageBegin :: m.start) ++ lineEvents m.headers,
    m.body ++ (lineEvents m.trailers ++ m.last), ?_, ?_, ?_, ?_, ?_, ?_⟩, h.url_bytes⟩
  · show core.trace core.init m.bytes = _
    rw [h.emits]
    simp [events]
  · simp only [List.mem_append, List.mem_cons, not_or]
    refine ⟨⟨by simp, fun hmem => ?_⟩, fun hmem => ?_⟩
    · have hstart := h.start _ hmem
      simp at hstart
    · have hlines := lineEvents_eq _ hmem
      simp at hlines
  · simp only [List.mem_append, List.mem_cons, not_or]
    refine ⟨⟨by simp, fun hmem => ?_⟩, fun hmem => ?_⟩
    · exact absurd (h.leaves_start _ hmem) (by decide)
    · have hlines := lineEvents_eq _ hmem
      simp at hlines
  · simp only [List.mem_append, not_or]
    refine ⟨fun hmem => ?_, fun hmem => ?_, fun hmem => ?_⟩
    · exact absurd (h.leaves_body _ hmem) (by decide)
    · have hlines := lineEvents_eq _ hmem
      simp at hlines
    · exact absurd (h.leaves_last _ hmem) (by decide)
  · have hlines : urlOf (lineEvents m.headers) = [] := by
      refine urlOf_eq_nil fun data hmem => ?_
      have hline := lineEvents_eq _ hmem
      simp at hline
    rw [List.cons_append, HTTPParser.urlOf_cons, HTTPParser.urlOf_append, hlines]
    exact List.append_nil _
  · refine urlOf_eq_nil fun data hmem => ?_
    simp only [List.mem_append] at hmem
    obtain hmem | hmem | hmem := hmem
    · have hbody := h.body _ hmem
      simp at hbody
    · have hline := lineEvents_eq _ hmem
      simp at hline
    · have hlast := h.last _ hmem
      simp at hlast

/-- The state at the end of the header lines. -/
theorem collected_headers (h : m.WellFormed core upgrade)
    (hvalues : parser.mHeadValues = fun _ => none) :
    HTTPParser.Collected m.headers
      (parser.notifyAll ((.messageBegin :: m.start) ++ lineEvents m.headers)).1 := by
  have hlines := fun line hline => h.lines line (List.mem_append_left _ hline)
  have hbegin : HTTPParser.Collected [] parser.sMessageBegin := by
    refine ⟨?_, rfl⟩
    rw [HTTPParser.storeHeader_eq]
    exact hvalues
  obtain ⟨hok, hstart, -⟩ := hbegin.leaves m.start h.leaves_start
  obtain ⟨-, hheaders⟩ := hstart.lines hlines
  rw [List.cons_append, HTTPParser.notifyAll_cons]
  simp only [HTTPParser.notify, if_true]
  rw [HTTPParser.notifyAll_append, if_pos hok]
  exact hheaders

/-- **The headers of a message.**  If its callbacks succeed they leave the stored lines. -/
theorem mHeadValues_notifyAll (h : m.WellFormed core upgrade)
    (hvalues : parser.mHeadValues = fun _ => none) (hok : (parser.notifyAll m.events).2 = true) :
    (parser.notifyAll m.events).1.mHeadValues =
      headerMap m.stored := by
  have hevents : m.events = ((.messageBegin :: m.start) ++ lineEvents m.headers) ++
      ([.headersComplete] ++ (m.body ++ (lineEvents m.trailers ++ m.last))) := by
    simp [HeadedMessage.events]
  rw [hevents] at hok ⊢
  obtain ⟨-, heq⟩ := HTTPParser.notifyAll_append_of_ok hok
  have hheaders := h.collected_headers hvalues
  rw [heq] at hok ⊢
  generalize (parser.notifyAll ((.messageBegin :: m.start) ++ lineEvents m.headers)).1 = first
    at hok hheaders ⊢
  obtain ⟨-, heq⟩ := HTTPParser.notifyAll_append_of_ok hok
  obtain ⟨hcomplete, hstored⟩ := hheaders.headersComplete
  rw [heq, HTTPParser.fst_notifyAll_singleton] at hok ⊢
  obtain ⟨hbody, hcollected, hkept⟩ := hcomplete.leaves m.body h.leaves_body
  change ((HTTPParser.sHeadComplete first).1.notifyAll _).2 = true at hok
  change ((HTTPParser.sHeadComplete first).1.notifyAll _).1.mHeadValues = _
  rw [HTTPParser.notifyAll_append, if_pos hbody] at hok ⊢
  have hlines := fun line hline => h.lines line (List.mem_append_right _ hline)
  obtain ⟨htrailers, hread⟩ := hcollected.lines hlines
  have hlast := (hread.leaves m.last h.leaves_last).2.2
  have hmap := hcollected.trailers (hkept.trans hstored) hlines
  rw [lineEvents, HTTPParser.notifyAll_append, if_pos htrailers]
  rw [hlast, hmap, stored]

end HeadedMessage.WellFormed

/-! ## Respelled messages -/

namespace HeadedMessage

variable {core : HttpCore} {m : HeadedMessage} {upgrade : Bool} {bytes' : Bytes}

theorem SameLines.lines {lines lines' : List HeaderLine} (h : SameLines lines lines')
    (hwf : ∀ line ∈ lines, line.WellFormed) : ∀ line ∈ lines', line.WellFormed := by
  induction h with
  | nil => exact hwf
  | @cons line line' rest rest' hline _ ih =>
      obtain ⟨hfirst, hrest⟩ := List.forall_mem_cons.mp hwf
      refine List.forall_mem_cons.mpr ⟨⟨fun hnil => hfirst.field_ne_nil ?_, ?_⟩, ih hrest⟩
      · have hname := hline.1.flatten
        rw [hnil] at hname
        exact List.map_eq_nil_iff.mp hname.symm
      · rw [hline.2]
        exact hfirst.value_ne_nil

/-- A change of case whose callbacks are those of respelled lines leads to a well-formed
message. -/
theorem WellFormed.withLines (h : m.WellFormed core upgrade) (hfold : core.FoldsNames)
    (hrecased : core.Recased core.init m.bytes bytes') {headers trailers : List HeaderLine}
    (hheaders : SameLines m.headers headers) (htrailers : SameLines m.trailers trailers)
    (hemits : core.trace core.init bytes' = (m.withLines bytes' headers trailers).events) :
    (m.withLines bytes' headers trailers).WellFormed core upgrade := by
  obtain ⟨-, hafter, -⟩ := hrecased.trace hfold
  refine ⟨?_, ?_, hemits, h.start, h.body, h.last, ?_, h.url_bytes⟩
  · obtain ⟨first, last, hbytes, hruns, hpart, hcomplete, hresult⟩ := h.ends
    rw [hbytes] at hrecased
    obtain ⟨first', tail, htail, hfirst, hlast⟩ := hrecased.exists_append
    obtain ⟨htrace, hstate, hruns'⟩ := hfirst.trace hfold
    obtain ⟨last', rfl, hevents, hsame⟩ := hlast.single hfold
    rw [← hstate] at hevents hsame hcomplete hresult
    refine ⟨first', last', htail, hruns'.mpr hruns, ?_, ?_, hsame.trans hresult⟩
    · rw [SameEvents.mem_iff htrace (by simp)]
      exact hpart
    · rw [SameEvents.mem_iff hevents (by simp)]
      exact hcomplete
  · show core.upgrade (core.after core.init bytes') = upgrade
    rw [hafter]
    exact h.upgrades
  · intro line hline
    rcases List.mem_append.mp hline with hmem | hmem
    · exact SameLines.lines hheaders
        (fun line hline => h.lines line (List.mem_append_left _ hline)) line hmem
    · exact SameLines.lines htrailers
        (fun line hline => h.lines line (List.mem_append_right _ hline)) line hmem

theorem WellFormed.nameless {events : List HttpEvent}
    (h : ∀ event ∈ events, event.leavesLines = true) : Nameless events :=
  fun _ hmem => absurd (h _ hmem) (by simp [HttpEvent.leavesLines])

/-- **A change of case respells the lines.** -/
theorem WellFormed.of_recased (h : m.WellFormed core upgrade) (hfold : core.FoldsNames)
    (hrecased : core.Recased core.init m.bytes bytes') :
    ∃ headers trailers, SameLines m.headers headers ∧ SameLines m.trailers trailers ∧
      (m.withLines bytes' headers trailers).WellFormed core upgrade := by
  obtain ⟨htrace, -, -⟩ := hrecased.trace hfold
  rw [h.emits, HeadedMessage.events] at htrace
  obtain ⟨start, events, heq, hstart, htrace⟩ := htrace.exists_append
  obtain ⟨first, events, rfl, hheaders, htrace⟩ := SameEvents.exists_append htrace
  obtain ⟨middle, events, rfl, hmiddle, htrace⟩ := SameEvents.exists_append htrace
  obtain ⟨second, last, rfl, htrailers, hlast⟩ := SameEvents.exists_append htrace
  obtain rfl := hstart.eq_of_nameless fun data hmem =>
    nameless h.leaves_start data (List.mem_of_ne_of_mem (by simp) hmem)
  obtain rfl := hmiddle.eq_of_nameless fun data hmem =>
    nameless h.leaves_body data (List.mem_of_ne_of_mem (by simp) hmem)
  obtain rfl := hlast.eq_of_nameless (nameless h.leaves_last)
  obtain ⟨headers, hlines, rfl⟩ := SameEvents.exists_lines hheaders
  obtain ⟨trailers, hlines', rfl⟩ := SameEvents.exists_lines htrailers
  exact ⟨headers, trailers, hlines, hlines', h.withLines hfold hrecased hlines hlines' heq⟩

/-- **Every respelling comes from a change of case.** -/
theorem WellFormed.exists_recased (h : m.WellFormed core upgrade) (hfold : core.FoldsNames)
    {headers trailers : List HeaderLine} (hheaders : SameLines m.headers headers)
    (htrailers : SameLines m.trailers trailers) :
    ∃ bytes', core.Recased core.init m.bytes bytes' ∧
      (m.withLines bytes' headers trailers).WellFormed core upgrade := by
  have hsame : SameEvents (core.trace core.init m.bytes)
      (m.withLines [] headers trailers).events := by
    rw [h.emits]
    exact List.rel_append (SameEvents.refl _) (List.rel_append hheaders.events
      (List.rel_append (SameEvents.refl _) (List.rel_append htrailers.events (SameEvents.refl _))))
  obtain ⟨bytes', hrecased, htrace⟩ := HttpCore.exists_recased hfold hsame
  exact ⟨bytes', hrecased, h.withLines hfold hrecased hheaders htrailers htrace⟩

end HeadedMessage

end Brynet.Http
