import Brynet.Http.HttpService
import Brynet.Http.Target

/-!
# Executing the callbacks

`http_parser_execute` on a buffer is the same as its callbacks in a row: the
`trace` of the core over the bytes, handed to `notifyAll`.  The callbacks never
look at `mParser`, and the core never looks at the other members, so the two can
be followed separately (`executeLoop_append_of_feeds`).

The callbacks of a whole message are then evaluated piece by piece.  Whatever the
fragments, the header lines end up in `mHeadValues` with the last value of each
name, and `mPath` and `mQuery` are those of the URL collected in `mUrl`.
-/

namespace Brynet.Http

namespace HttpCore

variable (core : HttpCore)

/-- The callbacks the core makes on `bytes`. -/
def trace : core.State → Bytes → List HttpEvent
  | _, [] => []
  | s, b :: rest => (core.step s b).2.1 ++ trace (core.step s b).1 rest

/-- The state of the core after `bytes`. -/
def after : core.State → Bytes → core.State
  | s, [] => s
  | s, b :: rest => after (core.step s b).1 rest

/-- The core reads all of `bytes` and is ready for the next byte. -/
def Runs : core.State → Bytes → Prop
  | _, [] => True
  | s, b :: rest => (core.step s b).2.2 = .next ∧ Runs (core.step s b).1 rest

instance decidableRuns : ∀ s bytes, Decidable (core.Runs s bytes)
  | _, [] => isTrue trivial
  | s, b :: rest =>
      have := decidableRuns (core.step s b).1 rest
      inferInstanceAs (Decidable ((core.step s b).2.2 = .next ∧ core.Runs (core.step s b).1 rest))

/-- The state behind `bytes` and the callbacks on the way, if the core reads all of them. -/
def replay : core.State → Bytes → Option (core.State × List HttpEvent)
  | s, [] => some (s, [])
  | s, b :: rest =>
      let (s', events, verdict) := core.step s b
      if verdict = .next then
        (replay s' rest).map fun result => (result.1, events ++ result.2)
      else none

variable {core} {s : core.State}

theorem of_replay {bytes : Bytes} {result : core.State × List HttpEvent}
    (h : core.replay s bytes = some result) :
    core.Runs s bytes ∧ core.after s bytes = result.1 ∧ core.trace s bytes = result.2 := by
  induction bytes generalizing s result with
  | nil =>
      cases h
      exact ⟨trivial, rfl, rfl⟩
  | cons b rest ih =>
      obtain ⟨hnext, hrest⟩ := Option.ite_none_right_eq_some.mp h
      obtain ⟨last, hreplay, rfl⟩ := Option.map_eq_some_iff.mp hrest
      obtain ⟨hruns, hafter, htrace⟩ := ih hreplay
      exact ⟨⟨hnext, hruns⟩, hafter, congrArg ((core.step s b).2.1 ++ ·) htrace⟩

theorem trace_append (a b : Bytes) :
    core.trace s (a ++ b) = core.trace s a ++ core.trace (core.after s a) b := by
  induction a generalizing s with
  | nil => rfl
  | cons x rest ih => simp only [List.cons_append, trace, after, ih, List.append_assoc]

theorem after_append (a b : Bytes) : core.after s (a ++ b) = core.after (core.after s a) b := by
  induction a generalizing s with
  | nil => rfl
  | cons x rest ih => exact ih

theorem runs_append (a b : Bytes) :
    core.Runs s (a ++ b) ↔ core.Runs s a ∧ core.Runs (core.after s a) b := by
  induction a generalizing s with
  | nil => simp [Runs, after]
  | cons x rest ih => simp only [List.cons_append, Runs, after, ih, and_assoc]

end HttpCore

namespace HTTPParser

variable {core : HttpCore} {parser parser' : HTTPParser core}

/-! ## Callbacks and core -/

/-- The parser with another state of the core. -/
def withCore (parser : HTTPParser core) (s : core.State) : HTTPParser core :=
  { parser with mParser := s }

/-- The parser in the error state of the core. -/
def withError (parser : HTTPParser core) : HTTPParser core := { parser with httpErrno := true }

theorem storeHeader_eq : parser.storeHeader = { parser with
    mHeadValues := if parser.mCurrentField = [] then parser.mHeadValues
      else Function.update parser.mHeadValues parser.mCurrentField (some parser.mCurrentValue) } := by
  unfold storeHeader
  split <;> rfl

/-- `sHeadComplete` by the target of the URL. -/
theorem sHeadComplete_eq : parser.sHeadComplete =
    if parser.mUrl = [] then (parser.storeHeader, true)
    else match target parser.mUrl with
      | none => (parser.storeHeader, false)
      | some t =>
          ({ parser.storeHeader with mPath := t.1, mQuery := t.2.getD parser.mQuery }, true) := by
  have hurl : parser.storeHeader.mUrl = parser.mUrl := by rw [storeHeader_eq]
  have hquery : parser.storeHeader.mQuery = parser.mQuery := by rw [storeHeader_eq]
  unfold sHeadComplete target
  dsimp only
  rw [hurl]
  split
  · rfl
  · cases httpParserParseUrl parser.mUrl false with
    | none => rfl
    | some u =>
        rw [Option.bind_some]
        cases hpath : u.fields .path with
        | none => simp [hpath]
        | some path =>
            cases hq : u.fields .query with
            | none => simp [hpath, hq, ← hquery]
            | some query => simp [hpath, hq]

theorem sHeadComplete_withCore (s : core.State) :
    (parser.withCore s).sHeadComplete =
      (parser.sHeadComplete.1.withCore s, parser.sHeadComplete.2) := by
  rw [sHeadComplete_eq, sHeadComplete_eq]
  show (if parser.mUrl = [] then _ else _) = _
  split
  · simp [storeHeader_eq, withCore]
  · show (match target parser.mUrl with | none => _ | some t => _) = _
    cases target parser.mUrl <;> simp [storeHeader_eq, withCore]

theorem notify_withCore (s : core.State) (event : HttpEvent) :
    (parser.withCore s).notify event =
      ((parser.notify event).1.withCore s, (parser.notify event).2) := by
  cases event with
  | headersComplete => exact sHeadComplete_withCore s
  | headerField data =>
      show (sHeadField _ _, true) = ((sHeadField _ _).withCore s, true)
      unfold sHeadField
      dsimp only
      rw [sHeadComplete_withCore]
      by_cases hvalue : parser.mLastWasValue <;> by_cases hfield : parser.mCurrentField = [] <;>
        simp [withCore, hvalue, hfield]
  | _ => rfl

theorem notifyAll_cons (event : HttpEvent) (rest : List HttpEvent) :
    parser.notifyAll (event :: rest) =
      if (parser.notify event).2 then (parser.notify event).1.notifyAll rest
      else ((parser.notify event).1, false) := by
  simp only [notifyAll]
  by_cases hok : (parser.notify event).2
  · rw [if_pos hok, if_pos hok]
  · rw [if_neg hok, if_neg hok]
    exact Prod.ext rfl (Bool.eq_false_iff.mpr hok)

theorem notifyAll_withCore (s : core.State) (events : List HttpEvent) :
    (parser.withCore s).notifyAll events =
      ((parser.notifyAll events).1.withCore s, (parser.notifyAll events).2) := by
  induction events generalizing parser with
  | nil => rfl
  | cons event rest ih =>
      rw [notifyAll_cons, notifyAll_cons, notify_withCore]
      by_cases hok : (parser.notify event).2
      · simp only [if_pos hok]
        exact ih
      · simp only [if_neg hok]

theorem notifyAll_append (first second : List HttpEvent) :
    parser.notifyAll (first ++ second) =
      if (parser.notifyAll first).2 then (parser.notifyAll first).1.notifyAll second
      else ((parser.notifyAll first).1, false) := by
  induction first generalizing parser with
  | nil => rfl
  | cons event rest ih =>
      rw [List.cons_append, notifyAll_cons, notifyAll_cons]
      by_cases hok : (parser.notify event).2
      · simp only [if_pos hok]
        exact ih
      · simp only [if_neg hok, Bool.false_eq_true, if_false]

/-! ## One buffer -/

/-- The parser after the callbacks of `bytes`. -/
def fed (parser : HTTPParser core) (bytes : Bytes) : HTTPParser core :=
  (parser.notifyAll (core.trace parser.mParser bytes)).1.withCore (core.after parser.mParser bytes)

/-- Whether all the callbacks of `bytes` succeed. -/
def Feeds (parser : HTTPParser core) (bytes : Bytes) : Prop :=
  (parser.notifyAll (core.trace parser.mParser bytes)).2 = true

instance (parser : HTTPParser core) (bytes : Bytes) : Decidable (parser.Feeds bytes) :=
  inferInstanceAs (Decidable (_ = true))

theorem feeds_append (a b : Bytes) :
    parser.Feeds (a ++ b) ↔ parser.Feeds a ∧ (parser.fed a).Feeds b := by
  unfold Feeds fed
  rw [HttpCore.trace_append, notifyAll_append, notifyAll_withCore]
  split
  · rename_i hok
    exact (and_iff_right hok).symm
  · rename_i hok
    simp [hok]

theorem fed_append {a : Bytes} (h : parser.Feeds a) (b : Bytes) :
    parser.fed (a ++ b) = (parser.fed a).fed b := by
  unfold Feeds at h
  unfold fed
  rw [HttpCore.trace_append, HttpCore.after_append, notifyAll_append, if_pos h, notifyAll_withCore]
  rfl

theorem fed_append_of_not_feeds {a : Bytes} (h : ¬parser.Feeds a) (b : Bytes) :
    parser.fed (a ++ b) = (parser.fed a).withCore (core.after parser.mParser (a ++ b)) := by
  unfold Feeds at h
  unfold fed
  rw [HttpCore.trace_append, notifyAll_append, if_neg h]
  rfl

/-- The loop of `http_parser_execute` by the callbacks of its first byte. -/
theorem executeLoop_cons (b : UInt8) (rest : Bytes) :
    parser.executeLoop (b :: rest) =
      if parser.Feeds [b] then
        match (core.step parser.mParser b).2.2 with
        | .next => (((parser.fed [b]).executeLoop rest).1, ((parser.fed [b]).executeLoop rest).2 + 1)
        | .stop => (parser.fed [b], 1)
        | .error => ((parser.fed [b]).withError, 0)
      else ((parser.fed [b]).withError, 0) := by
  have htrace : core.trace parser.mParser [b] = (core.step parser.mParser b).2.1 :=
    List.append_nil _
  have hnotified : { parser with mParser := (core.step parser.mParser b).1 }.notifyAll
      (core.step parser.mParser b).2.1 =
        (parser.fed [b], (parser.notifyAll (core.trace parser.mParser [b])).2) := by
    rw [fed, htrace]
    exact notifyAll_withCore _ _
  rw [executeLoop]
  dsimp only
  rw [hnotified]
  rfl

/-- **One buffer is its callbacks.**  Bytes that the core reads and whose callbacks
succeed lead to the parser that their callbacks leave, and the loop goes on there. -/
theorem executeLoop_append_of_feeds {bytes : Bytes} (hruns : core.Runs parser.mParser bytes)
    (h : parser.Feeds bytes) (rest : Bytes) :
    parser.executeLoop (bytes ++ rest) =
      (((parser.fed bytes).executeLoop rest).1,
        ((parser.fed bytes).executeLoop rest).2 + bytes.length) := by
  induction bytes generalizing parser with
  | nil => rfl
  | cons b tail ih =>
      obtain ⟨hnext, hruns⟩ := hruns
      obtain ⟨hone, htail⟩ := (feeds_append [b] tail).mp h
      rw [List.cons_append, executeLoop_cons, if_pos hone, hnext]
      dsimp only
      rw [@ih (parser.fed [b]) hruns htail, show b :: tail = [b] ++ tail from rfl,
        fed_append hone tail]
      rfl

/-- A callback that fails ends the loop, whatever follows. -/
theorem executeLoop_append_of_not_feeds {bytes : Bytes} (hruns : core.Runs parser.mParser bytes)
    (h : ¬parser.Feeds bytes) :
    ∃ s n, ∀ rest, parser.executeLoop (bytes ++ rest) =
      (((parser.fed bytes).withCore s).withError, n) := by
  induction bytes generalizing parser with
  | nil => exact absurd rfl h
  | cons b tail ih =>
      obtain ⟨hnext, hruns⟩ := hruns
      rw [show b :: tail = [b] ++ tail from rfl] at h ⊢
      rw [feeds_append] at h
      by_cases hone : parser.Feeds [b]
      · obtain ⟨s, n, hloop⟩ := @ih (parser.fed [b]) hruns fun htail => h ⟨hone, htail⟩
        refine ⟨s, n + 1, fun rest => ?_⟩
        rw [List.append_assoc, List.singleton_append, executeLoop_cons, if_pos hone, hnext]
        dsimp only
        rw [hloop, fed_append hone]
      · refine ⟨(parser.fed [b]).mParser, 0, fun rest => ?_⟩
        rw [List.append_assoc, List.singleton_append, executeLoop_cons, if_neg hone,
          fed_append_of_not_feeds hone]
        rfl

theorem executeLoop_of_feeds {bytes : Bytes} (hruns : core.Runs parser.mParser bytes)
    (h : parser.Feeds bytes) : parser.executeLoop bytes = (parser.fed bytes, bytes.length) := by
  have hloop := executeLoop_append_of_feeds hruns h []
  rw [List.append_nil] at hloop
  simpa [executeLoop] using hloop

theorem executeLoop_of_not_feeds {bytes : Bytes} (hruns : core.Runs parser.mParser bytes)
    (h : ¬parser.Feeds bytes) :
    ∃ s n, parser.executeLoop bytes = (((parser.fed bytes).withCore s).withError, n) := by
  obtain ⟨s, n, hloop⟩ := executeLoop_append_of_not_feeds hruns h
  have hnil := hloop []
  rw [List.append_nil] at hnil
  exact ⟨s, n, hnil⟩

end HTTPParser

end Brynet.Http
