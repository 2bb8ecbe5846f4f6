import Brynet.Net.Memsearch

/-!
# `PromiseReceive`

A queue of pending requests, each for a number of bytes or for the bytes up to a
delimiter, with a handler for what arrives.  `process` is the data callback: it serves
requests from the front as long as the bytes suffice, and returns how many it has used.

Handlers are user code.  Here a handler has a name, and `Handlers` says what it does with
the bytes it is handed: it changes the state of the user, in which the shared lengths
live, appends requests and says whether its request is to be repeated.  Because handlers
can append requests without end, `process` need not return; so it is a machine that serves
one request after the other (`fire`), and `Feed` runs it on segments that arrive one
after the other.
-/

namespace Brynet

/-- The length of a request: fixed, or read from a shared variable when it is needed. -/
inductive ReceiveLen (ℓ : Type)
  | fixed (len : ℕ)
  | shared (len : ℓ)
deriving Repr, DecidableEq

/-- `struct PendingReceive`; without a length it waits for `str`. -/
structure PendingReceive (ℓ η : Type) where
  len : Option (ReceiveLen ℓ)
  str : List UInt8
  handle : η
deriving Repr, DecidableEq

/-- What a handler does: the state it leaves, the requests it appends, and its result. -/
structure HandlerReturn (σ ℓ η : Type) where
  state : σ
  appended : List (PendingReceive ℓ η)
  again : Bool
deriving Repr, DecidableEq

/-- The user's code, with states `σ`, shared lengths `ℓ` and handlers `η`. -/
structure Handlers (σ ℓ η : Type) where
  call : η → List UInt8 → σ → HandlerReturn σ ℓ η
  value : ℓ → σ → ℕ

/-- The requests of a `PromiseReceive`, with the state of the user. -/
structure PromiseReceive (σ ℓ η : Type) where
  mPendingReceives : List (PendingReceive ℓ η)
  state : σ
deriving Repr, DecidableEq

/-- The call of a handler: the bytes it is handed, and the delimiter behind them. -/
structure Invocation (η : Type) where
  handle : η
  range : List UInt8
  delimiter : List UInt8
deriving Repr, DecidableEq

/-- The bytes that a call uses up. -/
def Invocation.bytes {η : Type} (i : Invocation η) : List UInt8 := i.range ++ i.delimiter

/-- What `memsearch` is there to report: the first position at which `str` stands in the
range, if there is one. -/
def searchDelimiter (data str : List UInt8) : Option ℕ :=
  (List.range (data.length + 1)).find? fun pos => str.isPrefixOf (data.drop pos)

theorem searchDelimiter_eq_some {data str : List UInt8} {pos : ℕ} :
    searchDelimiter data str = some pos ↔
      pos ≤ data.length ∧ str <+: data.drop pos ∧ ∀ j < pos, ¬str <+: data.drop j := by
  unfold searchDelimiter
  rw [List.find?_range_eq_some]
  simp only [List.isPrefixOf_iff_prefix, List.mem_range, Nat.lt_succ_iff, Bool.not_eq_true',
    ← Bool.not_eq_true]
  tauto

/-- `memsearch` does report it, on a range that is not shorter than the delimiter. -/
theorem searchDelimiter_eq_memsearch {data str : List UInt8} (hne : str ≠ [])
    (hle : str.length ≤ data.length) (hdata : data.length < 2 ^ 64) (pos : ℕ) :
    searchDelimiter data str = some pos ↔ memsearch data str = .found pos := by
  have hfirst := memsearch_of_le hle hdata
  rw [searchDelimiter_eq_some]
  constructor
  · rintro ⟨-, hhere, hbefore⟩
    have hok := hfirst.isOK.mpr (infix_iff_exists_drop.mpr ⟨pos, hhere⟩)
    cases hsearch : memsearch data str with
    | absent => simp [hsearch, SearchResult.isOK] at hok
    | outOfRange => simp [hsearch, SearchResult.isOK] at hok
    | found first =>
        obtain ⟨hthere, hnot⟩ := hfirst.result first hsearch
        have heq : first = pos := by
          rcases Nat.lt_trichotomy first pos with hlt | heq | hgt
          · exact absurd hthere (hbefore first hlt)
          · exact heq
          · exact absurd hhere (hnot pos hgt)
        rw [heq]
  · intro hsearch
    obtain ⟨hhere, hbefore⟩ := hfirst.result pos hsearch
    have hlen := hhere.length_le
    rw [List.length_drop] at hlen
    have hpos := List.length_pos_of_ne_nil hne
    exact ⟨by omega, hhere, hbefore⟩

/-- More bytes behind the range do not move the first occurrence. -/
theorem searchDelimiter_append {data str : List UInt8} {pos : ℕ} (more : List UInt8)
    (h : searchDelimiter data str = some pos) :
    pos + str.length ≤ data.length ∧ searchDelimiter (data ++ more) str = some pos := by
  obtain ⟨hpos, hhere, hbefore⟩ := searchDelimiter_eq_some.mp h
  have hfits : pos + str.length ≤ data.length := by
    have hlen := hhere.length_le
    rw [List.length_drop] at hlen
    omega
  refine ⟨hfits, searchDelimiter_eq_some.mpr ⟨?_, ?_, fun j hj hthere => hbefore j hj ?_⟩⟩
  · rw [List.length_append]
    omega
  · rw [List.drop_append_of_le_length hpos]
    exact hhere.trans (List.prefix_append _ _)
  · -- An occurrence before `pos` ends inside the range.
    rw [List.drop_append_of_le_length (by omega)] at hthere
    refine List.prefix_of_prefix_length_le hthere (List.prefix_append _ more) ?_
    rw [List.length_drop]
    omega

namespace PromiseReceive

variable {σ ℓ η : Type}

/-! ## Requests -/

def helpReceive (s : PromiseReceive σ ℓ η) (len : Option (ReceiveLen ℓ)) (str : List UInt8)
    (handle : η) : PromiseReceive σ ℓ η :=
  { s with mPendingReceives := s.mPendingReceives ++ [⟨len, str, handle⟩] }

/-- Both forms of `receive`; a `size_t` is never less than zero. -/
def receive (s : PromiseReceive σ ℓ η) (len : ReceiveLen ℓ) (handle : η) :
    PromiseReceive σ ℓ η :=
  s.helpReceive (some len) [] handle

/-- `receiveUntil`; `none` is the exception for an empty string. -/
def receiveUntil (s : PromiseReceive σ ℓ η) (str : List UInt8) (handle : η) :
    Option (PromiseReceive σ ℓ η) :=
  if str = [] then none else some (s.helpReceive none str handle)

/-! ## Serving a request -/

variable (user : Handlers σ ℓ η)

def tryReceiveLen (s : PromiseReceive σ ℓ η) : ReceiveLen ℓ → ℕ
  | .fixed len => len
  | .shared len => user.value len s.state

/-- Pop the front request, call its handler, and push it again at the front if that is
wanted.  What the handler appends comes behind the other requests. -/
def serve (s : PromiseReceive σ ℓ η) (request : PendingReceive ℓ η)
    (rest : List (PendingReceive ℓ η)) (range : List UInt8) (mayRepeat : Bool) :
    PromiseReceive σ ℓ η :=
  let r := user.call request.handle range s.state
  { mPendingReceives := (if r.again && mayRepeat then [request] else []) ++ (rest ++ r.appended)
    state := r.state }

/-- A turn of the loop of `process`, with `data` being the bytes from `procLen` on. -/
def fire (s : PromiseReceive σ ℓ η) (data : List UInt8) :
    Option (PromiseReceive σ ℓ η × Invocation η) :=
  match s.mPendingReceives with
  | [] => none
  | request :: rest =>
      match request.len with
      | some len =>
          let n := s.tryReceiveLen user len
          if data.length < n then none
          else some (s.serve user request rest (data.take n) (decide (0 < n)),
            ⟨request.handle, data.take n, []⟩)
      | none =>
          if request.str = [] then none
          else (searchDelimiter data request.str).map fun pos =>
            (s.serve user request rest (data.take pos) true,
              ⟨request.handle, data.take pos, (data.drop pos).take request.str.length⟩)

variable {user} {s s' : PromiseReceive σ ℓ η} {data : List UInt8} {i : Invocation η}

/-- A request that is served needs the bytes it uses up and no others: bytes that come
later change nothing. -/
theorem fire_append (h : s.fire user data = some (s', i)) (more : List UInt8) :
    i.bytes <+: data ∧ s.fire user (data ++ more) = some (s', i) := by
  unfold fire at h ⊢
  cases hpending : s.mPendingReceives with
  | nil => simp [hpending] at h
  | cons request rest =>
      simp only [hpending] at h ⊢
      cases hlen : request.len with
      | some len =>
          simp only [hlen] at h ⊢
          split at h
          next => cases h
          next hfits =>
            cases h
            have hle : s.tryReceiveLen user len ≤ data.length := Nat.le_of_not_lt hfits
            have hlater : ¬(data ++ more).length < s.tryReceiveLen user len := by
              rw [List.length_append]
              omega
            rw [if_neg hlater, List.take_append_of_le_length hle]
            exact ⟨by simpa [Invocation.bytes] using List.take_prefix _ data, rfl⟩
      | none =>
          simp only [hlen] at h ⊢
          split at h
          next => cases h
          next hstr =>
            obtain ⟨pos, hpos, heq⟩ := Option.map_eq_some_iff.mp h
            cases heq
            -- The delimiter ends inside the range, so its first occurrence stays the first.
            obtain ⟨hfits, hlater⟩ := searchDelimiter_append more hpos
            have hbehind : request.str.length ≤ (data.drop pos).length := by
              rw [List.length_drop]
              omega
            rw [if_neg hstr, hlater, Option.map_some, List.take_append_of_le_length (by omega),
              List.drop_append_of_le_length (by omega), List.take_append_of_le_length hbehind]
            refine ⟨?_, rfl⟩
            show data.take pos ++ (data.drop pos).take request.str.length <+: data
            rw [← List.take_add]
            exact List.take_prefix _ data

end PromiseReceive

/-! ## Segments -/

/-- Whether `process` is running. -/
inductive FeedPc
  | outside
  | inside
deriving Repr, DecidableEq

/-- A `PromiseReceive` that is fed with segments.  Inside a call `buffer` is its argument
and `procLen` what was used of it; outside, `buffer` is what is presented again with the
next segment. -/
structure Feed (σ ℓ η : Type) where
  promise : PromiseReceive σ ℓ η
  pc : FeedPc
  buffer : List UInt8
  procLen : ℕ
  segments : List (List UInt8)
  log : List (Invocation η)

namespace Feed

variable {σ ℓ η : Type} (user : Handlers σ ℓ η)

def start (promise : PromiseReceive σ ℓ η) (segments : List (List UInt8)) : Feed σ ℓ η where
  promise := promise
  pc := .outside
  buffer := []
  procLen := 0
  segments := segments
  log := []

/-- A request is served, the call of `process` returns `procLen`, or the next segment
arrives. -/
def next (s : Feed σ ℓ η) : Option (Feed σ ℓ η) :=
  match s.pc with
  | .inside =>
      match s.promise.fire user (s.buffer.drop s.procLen) with
      | some (promise, i) =>
          some { s with
            promise := promise, procLen := s.procLen + i.bytes.length, log := s.log ++ [i] }
      | none => some { s with pc := .outside, buffer := s.buffer.drop s.procLen, procLen := 0 }
  | .outside =>
      match s.segments with
      | [] => none
      | segment :: segments =>
          some { s with
            pc := .inside, buffer := s.buffer ++ segment, segments := segments }

/-- The states of a feed. -/
inductive Reaches (s : Feed σ ℓ η) : Feed σ ℓ η → Prop
  | refl : Reaches s s
  | step {t t' : Feed σ ℓ η} : Reaches s t → t.next user = some t' → Reaches s t'

/-- The calls that are made when the segments arrive, up to some moment. -/
def Invokes (promise : PromiseReceive σ ℓ η) (segments : List (List UInt8))
    (log : List (Invocation η)) : Prop :=
  ∃ s, Reaches user (start promise segments) s ∧ s.log = log

/-- A feed that has come to its end, with the calls it made. -/
def Halts (promise : PromiseReceive σ ℓ η) (segments : List (List UInt8))
    (log : List (Invocation η)) : Prop :=
  ∃ s, Reaches user (start promise segments) s ∧ s.next user = none ∧ s.log = log

/-- The stream in one piece. -/
def whole (stream : List UInt8) : List (List UInt8) := if stream = [] then [] else [stream]

/-- The calls that used up nothing. -/
def idleCalls (log : List (Invocation η)) : ℕ := log.countP fun i => i.bytes.isEmpty

variable {user} {s s' t : Feed σ ℓ η} {promise : PromiseReceive σ ℓ η}
  {segments : List (List UInt8)}

theorem Reaches.trans (h : Reaches user s s') (h' : Reaches user s' t) : Reaches user s t := by
  induction h' with
  | refl => exact h
  | step _ hnext ih => exact ih.step hnext

/-- The bytes that no call has used up. -/
def remaining (s : Feed σ ℓ η) : List UInt8 := s.buffer.drop s.procLen ++ s.segments.flatten

/-! ## What a step does -/

/-- A step is a served request, the end of a call, or a segment that arrives. -/
theorem next_cases (h : s.next user = some s') :
    (s.pc = .inside ∧ ∃ promise i,
      s.promise.fire user (s.buffer.drop s.procLen) = some (promise, i) ∧
      s' = { s with
        promise := promise, procLen := s.procLen + i.bytes.length, log := s.log ++ [i] }) ∨
    (s.pc = .inside ∧ s.promise.fire user (s.buffer.drop s.procLen) = none ∧
      s' = { s with pc := .outside, buffer := s.buffer.drop s.procLen, procLen := 0 }) ∨
    (s.pc = .outside ∧ ∃ segment segments, s.segments = segment :: segments ∧
      s' = { s with pc := .inside, buffer := s.buffer ++ segment, segments := segments }) := by
  unfold next at h
  split at h
  next hpc =>
    split at h
    next promise i hfire =>
      exact .inl ⟨hpc, promise, i, hfire, (Option.some.inj h).symm⟩
    next hfire => exact .inr (.inl ⟨hpc, hfire, (Option.some.inj h).symm⟩)
  next hpc =>
    split at h
    next => cases h
    next segment segments hsegments =>
      exact .inr (.inr ⟨hpc, segment, segments, hsegments, (Option.some.inj h).symm⟩)

theorem next_of_fire {i : Invocation η} (hpc : s.pc = .inside)
    (hfire : s.promise.fire user (s.buffer.drop s.procLen) = some (promise, i)) :
    s.next user = some { s with
      promise := promise, procLen := s.procLen + i.bytes.length, log := s.log ++ [i] } := by
  simp only [next, hpc, hfire]

/-- What holds of every state of a feed of `stream`. -/
structure Covers (stream : List UInt8) (s : Feed σ ℓ η) : Prop where
  procLen_le : s.procLen ≤ s.buffer.length
  outside : s.pc = .outside → s.procLen = 0
  bytes : (s.log.map Invocation.bytes).flatten ++ s.remaining = stream

theorem covers_start : Covers segments.flatten (start promise segments) :=
  ⟨Nat.le_refl 0, fun _ => rfl, rfl⟩

theorem Covers.next {stream : List UInt8} (h : Covers stream s) (hnext : s.next user = some s') :
    Covers stream s' := by
  obtain ⟨hprocLen, houtside, hbytes⟩ := h
  obtain ⟨hpc, promise, i, hfire, rfl⟩ | ⟨hpc, -, rfl⟩ | ⟨hpc, segment, segments, hsegments, rfl⟩ :=
    next_cases hnext
  · -- What the call uses up moves from the buffer to the log.
    obtain ⟨hpre, -⟩ := PromiseReceive.fire_append hfire []
    have hlen := hpre.length_le
    rw [List.length_drop] at hlen
    refine ⟨show s.procLen + _ ≤ s.buffer.length by omega, fun hout => ?_, ?_⟩
    · exact absurd (hpc.symm.trans hout) (by decide)
    · have hsplit : i.bytes ++ s.buffer.drop (s.procLen + i.bytes.length) =
          s.buffer.drop s.procLen := by
        rw [← List.drop_drop]
        exact (List.prefix_append_drop hpre).symm
      rw [← hbytes]
      simp only [remaining, List.map_append, List.map_cons, List.map_nil, List.flatten_append,
        List.flatten_cons, List.flatten_nil, List.append_nil, List.append_assoc]
      rw [← hsplit, List.append_assoc]
  · exact ⟨Nat.zero_le _, fun _ => rfl, by simpa [remaining] using hbytes⟩
  · have hzero : s.procLen = 0 := houtside hpc
    refine ⟨by simp [hzero], fun hout => absurd hout (by simp), ?_⟩
    rw [← hbytes]
    simp [remaining, hsegments, hzero]

theorem Reaches.covers (h : Reaches user (start promise segments) s) :
    Covers segments.flatten s := by
  induction h with
  | refl => exact covers_start
  | step _ hnext ih => exact ih.next hnext

/-! ## Two cuts of one stream -/

/-- A feed whose next request can be served from all that is still to come gets there: it
takes segments until the bytes suffice. -/
theorem catch_up {i : Invocation η} (hpc : s.pc = .inside)
    (hfire : s.promise.fire user s.remaining = some (promise, i)) :
    ∃ s', Reaches user s s' ∧ s'.pc = .inside ∧ s'.promise = promise ∧ s'.log = s.log ++ [i] := by
  induction hsegments : s.segments generalizing s with
  | nil =>
      have hhere : s.promise.fire user (s.buffer.drop s.procLen) = some (promise, i) := by
        simpa [remaining, hsegments] using hfire
      exact ⟨_, .step .refl (next_of_fire hpc hhere), hpc, rfl, rfl⟩
  | cons segment segments ih =>
      cases hhere : s.promise.fire user (s.buffer.drop s.procLen) with
      | some served =>
          obtain ⟨-, hlater⟩ := PromiseReceive.fire_append hhere s.segments.flatten
          have hserved : served = (promise, i) := Option.some.inj (hlater.symm.trans hfire)
          subst hserved
          exact ⟨_, .step .refl (next_of_fire hpc hhere), hpc, rfl, rfl⟩
      | none =>
          -- The call returns, and the next one starts with a segment more.
          let returned : Feed σ ℓ η :=
            { s with pc := .outside, buffer := s.buffer.drop s.procLen, procLen := 0 }
          let called : Feed σ ℓ η :=
            { returned with
              pc := .inside, buffer := s.buffer.drop s.procLen ++ segment, segments := segments }
          have hreturned : s.next user = some returned := by simp only [next, hpc, hhere, returned]
          have hcalled : returned.next user = some called := by
            simp only [next, returned, called, hsegments]
          have hsame : called.remaining = s.remaining := by
            simp [remaining, called, returned, hsegments]
          obtain ⟨s', hreaches, hpc', hpromise, hlog⟩ :=
            @ih called rfl (by rw [hsame]; exact hfire) rfl
          exact ⟨s', (Reaches.step (.step .refl hreturned) hcalled).trans hreaches, hpc', hpromise,
            hlog⟩

/-- **Simulation between two cuts.**  Whatever the one feed does, the other has a state
with the same requests and the same calls behind it. -/
theorem Reaches.mirror {segments' : List (List UInt8)}
    (hstream : segments'.flatten = segments.flatten) (hne : segments' ≠ [])
    (h : Reaches user (start promise segments) s) :
    ∃ t, Reaches user (start promise segments') t ∧ t.pc = .inside ∧ t.promise = s.promise ∧
      t.log = s.log := by
  induction h with
  | refl =>
      obtain ⟨segment, rest, rfl⟩ := List.exists_cons_of_ne_nil hne
      exact ⟨_, .step .refl rfl, rfl, rfl, rfl⟩
  | @step s s' hreach hnext ih =>
      obtain ⟨t, ht, hpc, hpromise, hlog⟩ := ih
      obtain ⟨-, promise', i, hfire, rfl⟩ | ⟨-, -, rfl⟩ | ⟨-, _, _, -, rfl⟩ := next_cases hnext
      · -- The same calls lie behind both feeds, so the same bytes remain.
        have hremaining : t.remaining = s.remaining := by
          have hbytes := ht.covers.bytes.trans (hstream.trans hreach.covers.bytes.symm)
          rw [hlog] at hbytes
          exact List.append_cancel_left hbytes
        have hfire' : t.promise.fire user t.remaining = some (promise', i) := by
          rw [hpromise, hremaining]
          exact (PromiseReceive.fire_append hfire _).2
        obtain ⟨t', hreaches, hpc', hpromise', hlog'⟩ := catch_up hpc hfire'
        exact ⟨t', ht.trans hreaches, hpc', hpromise', by rw [hlog', hlog]⟩
      · exact ⟨t, ht, hpc, hpromise, hlog⟩
      · exact ⟨t, ht, hpc, hpromise, hlog⟩

theorem Invokes.mirror {segments' : List (List UInt8)} {log : List (Invocation η)}
    (hstream : segments'.flatten = segments.flatten) (hne : segments' ≠ [])
    (h : Invokes user promise segments log) : Invokes user promise segments' log := by
  obtain ⟨s, hreach, rfl⟩ := h
  obtain ⟨t, ht, -, -, hlog⟩ := hreach.mirror hstream hne
  exact ⟨t, ht, hlog⟩

theorem invokes_whole (hne : ∀ segment ∈ segments, segment ≠ []) (log : List (Invocation η)) :
    Invokes user promise segments log ↔ Invokes user promise (whole segments.flatten) log := by
  cases segments with
  | nil => rfl
  | cons segment segments =>
      have hstream : (segment :: segments).flatten ≠ [] := by
        simp [hne segment List.mem_cons_self]
      rw [whole, if_neg hstream]
      exact ⟨Invokes.mirror (by simp) (by simp), Invokes.mirror (by simp) (by simp)⟩

/-! ## The end of a feed -/

theorem Reaches.log_le (h : Reaches user s t) : s.log <+: t.log := by
  induction h with
  | refl => exact List.prefix_refl _
  | step _ hnext ih =>
      obtain ⟨-, promise, i, -, rfl⟩ | ⟨-, -, rfl⟩ | ⟨-, _, _, -, rfl⟩ := next_cases hnext
      · exact ih.trans (List.prefix_append _ _)
      · exact ih
      · exact ih

/-- The step function is a function: every state lies before the last one. -/
theorem Reaches.before_last (h : Reaches user s t) (hlast : t.next user = none)
    (h' : Reaches user s s') : Reaches user s' t := by
  induction h' with
  | refl => exact h
  | @step u u' _ hnext ih =>
      -- The first step of the run from `u` to `t` is the one to `u'`.
      have hfirst : ∀ {v}, Reaches user u v → v = u ∨ Reaches user u' v := by
        intro v hv
        induction hv with
        | refl => exact .inl rfl
        | step _ hstep hor =>
            rcases hor with rfl | hfrom
            · rw [hnext] at hstep
              exact .inr (Option.some.inj hstep ▸ .refl)
            · exact .inr (hfrom.step hstep)
      rcases hfirst ih with rfl | hfrom
      · rw [hlast] at hnext
        cases hnext
      · exact hfrom

/-- Two feeds that come to their ends with the same calls on the way end with the same. -/
theorem Halts.eq_of_invokes {segments' : List (List UInt8)} {log log' : List (Invocation η)}
    (hiff : ∀ log, Invokes user promise segments log ↔ Invokes user promise segments' log)
    (h : Halts user promise segments log) (h' : Halts user promise segments' log') :
    log = log' := by
  obtain ⟨s, hreach, hlast, rfl⟩ := h
  obtain ⟨t, ht, htlast, rfl⟩ := h'
  obtain ⟨s', hs', hs'log⟩ := (hiff t.log).mpr ⟨t, ht, rfl⟩
  obtain ⟨t', ht', ht'log⟩ := (hiff s.log).mp ⟨s, hreach, rfl⟩
  have hle : t.log <+: s.log := hs'log ▸ (hreach.before_last hlast hs').log_le
  have hge : s.log <+: t.log := ht'log ▸ (ht.before_last htlast ht').log_le
  exact hge.eq_of_length (Nat.le_antisymm hge.length_le hle.length_le)

/-- Each step uses up bytes, is one of the calls that use up none, or brings the feed
closer to the end of its segments. -/
def work (n : ℕ) (s : Feed σ ℓ η) : ℕ :=
  s.remaining.length + (n - idleCalls s.log) + 2 * s.segments.length +
    (if s.pc = .inside then 1 else 0)

theorem work_next {stream : List UInt8} {n : ℕ} (h : Covers stream s)
    (hnext : s.next user = some s') (hidle : idleCalls s'.log ≤ n) : work n s' < work n s := by
  have hbytes := congrArg List.length (h.bytes.trans (h.next hnext).bytes.symm)
  obtain ⟨hpc, promise, i, -, rfl⟩ | ⟨hpc, -, rfl⟩ | ⟨hpc, segment, segments, hsegments, rfl⟩ :=
    next_cases hnext
  · simp only [List.map_append, List.map_cons, List.map_nil, List.flatten_append,
      List.flatten_cons, List.flatten_nil, List.append_nil, List.length_append] at hbytes
    have hcount : idleCalls (s.log ++ [i]) = idleCalls s.log + if i.bytes.isEmpty then 1 else 0 := by
      simp [idleCalls, List.countP_cons]
    simp only [work]
    rw [hcount] at hidle ⊢
    cases hempty : i.bytes with
    | nil =>
        simp only [hempty, List.isEmpty_nil, if_true, List.length_nil] at hidle hbytes ⊢
        omega
    | cons b bytes =>
        simp only [hempty, List.isEmpty_cons, Bool.false_eq_true, if_false,
          List.length_cons] at hbytes ⊢
        omega
  · simp [work, remaining, hpc]
  · simp only [List.length_append] at hbytes
    simp only [work, hpc, hsegments, List.length_cons, if_true, reduceCtorEq, if_false]
    omega

/-- A feed goes on for ever only if it makes infinitely many calls that use up nothing. -/
theorem exists_halts {n : ℕ}
    (hidle : ∀ log, Invokes user promise segments log → idleCalls log ≤ n) :
    ∃ log, Halts user promise segments log := by
  have hends : ∀ m s, Reaches user (start promise segments) s → work n s = m →
      ∃ log, Halts user promise segments log := by
    intro m
    induction m using Nat.strong_induction_on with
    | _ m ih =>
        intro s hreach hwork
        cases hnext : s.next user with
        | none => exact ⟨s.log, s, hreach, hnext, rfl⟩
        | some s' =>
            have hlt := work_next hreach.covers hnext (hidle s'.log ⟨s', hreach.step hnext, rfl⟩)
            exact ih _ (hwork ▸ hlt) s' (hreach.step hnext) rfl
  exact hends _ _ .refl rfl

/-- **Segmentation does not matter.**  However a stream is cut into non-empty segments,
the handlers are called with the same bytes in the same order as when it comes in one
piece.  In every state of the feed the call has used up no more than it was given, and
what the handlers got, the delimiters included, is the part of the stream before what
remains.  If there is a bound on the calls that use up nothing, the feed comes to its
end, with the same calls. -/
theorem feed_segmentation_independent {σ ℓ η : Type} (user : Handlers σ ℓ η)
    (promise : PromiseReceive σ ℓ η) (segments : List (List UInt8))
    (hne : ∀ segment ∈ segments, segment ≠ []) :
    (∀ log, Invokes user promise segments log ↔
      Invokes user promise (whole segments.flatten) log) ∧
    (∀ s, Reaches user (start promise segments) s →
      s.procLen ≤ s.buffer.length ∧
      (s.log.map Invocation.bytes).flatten ++ (s.buffer.drop s.procLen ++ s.segments.flatten) =
        segments.flatten) ∧
    ((∃ n, ∀ log, Invokes user promise segments log → idleCalls log ≤ n) →
      ∃ log, Halts user promise segments log ∧
        Halts user promise (whole segments.flatten) log) := by
  have hiff := @invokes_whole σ ℓ η user promise segments hne
  refine ⟨hiff, fun s hreach => ⟨hreach.covers.procLen_le, hreach.covers.bytes⟩, ?_⟩
  rintro ⟨n, hidle⟩
  obtain ⟨log, hhalts⟩ := exists_halts hidle
  obtain ⟨log', hhalts'⟩ := exists_halts (fun log h => hidle log ((hiff log).mpr h))
  exact ⟨log, hhalts, hhalts.eq_of_invokes hiff hhalts' ▸ hhalts'⟩

/-- A header line, whose length is the length of the records that follow it. -/
def lineHandlers : Handlers ℕ Unit Bool where
  call isLine range len := if isLine then ⟨range.length, [], false⟩ else ⟨len, [], true⟩
  value _ len := len

def lineRequests : PromiseReceive ℕ Unit Bool where
  mPendingReceives := [⟨none, [13, 10], true⟩, ⟨some (.shared ()), [], false⟩]
  state := 0

/-- A line and two records, with the delimiter cut in the middle. -/
theorem feed_segmentation_independent_line :
    (∀ segment ∈ [[7], [8, 13], [10, 1], [2, 3, 4]], segment ≠ ([] : List UInt8)) ∧
    Invokes lineHandlers lineRequests [[7], [8, 13], [10, 1], [2, 3, 4]]
      [⟨true, [7, 8], [13, 10]⟩, ⟨false, [1, 2], []⟩, ⟨false, [3, 4], []⟩] :=
  ⟨by decide, ((feed_segmentation_independent lineHandlers lineRequests
    [[7], [8, 13], [10, 1], [2, 3, 4]] (by decide)).1 _).mpr
    ⟨_, .step (.step (.step (.step .refl rfl) rfl) rfl) rfl, rfl⟩⟩

end Feed

end Brynet
