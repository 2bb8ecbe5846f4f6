import Brynet.Net.IOLoop

/-!
# The life of a session

What may happen to a socket of a `TcpService`, as an automaton over the events
of its history.  A socket that cannot be linked is closed and never enters.
Otherwise it enters, and until it is closed it may receive data; its closures
and operations on its id may run until the disconnect closure does.

`LifePhase.Says` spells out what each phase means for the history that leads to
it, and `says_of_run` is proved once, by induction on the history.
-/

namespace Brynet

open Transition

inductive LifePhase
  | fresh
  | refused
  | made (sid : SessionId)
  | opened (sid : SessionId)
  | shut (sid : SessionId)
  | leaving (sid : SessionId)
  | ended (sid : SessionId)
deriving Repr, DecidableEq

namespace LifePhase

def next : LifePhase → SocketEvent → Option LifePhase
  | fresh, .closed => some refused
  | fresh, .makeID sid => some (made sid)
  | made sid, .enterCallback => some (opened sid)
  | opened sid, .dataCallback => some (opened sid)
  | opened sid, .closed => some (shut sid)
  | opened sid, .ran .flush => some (opened sid)
  | opened sid, .ran .shutdown => some (opened sid)
  | opened sid, .applied target => if target = sid then some (opened sid) else none
  | shut sid, .ran .flush => some (shut sid)
  | shut sid, .ran .shutdown => some (shut sid)
  | shut sid, .applied target => if target = sid then some (shut sid) else none
  | shut sid, .ran .disConnect => some (leaving sid)
  | leaving sid, .disConnectCallback => some (ended sid)
  | _, _ => none

end LifePhase

def lifeCycle : System LifePhase SocketEvent where
  init phase := phase = .fresh
  next := LifePhase.next

/-! ## What a history says -/

def SocketEvent.isCallback : SocketEvent → Bool
  | enterCallback | dataCallback | disConnectCallback => true
  | makeID _ | closed | ran _ | applied _ => false

def SocketEvent.id? : SocketEvent → Option SessionId
  | makeID sid => some sid
  | _ => none

/-- The callbacks of a history, in order. -/
def callbacks (history : List SocketEvent) : List SocketEvent :=
  history.filter SocketEvent.isCallback

/-- The ids `MakeID` has returned in a history. -/
def madeIDs (history : List SocketEvent) : List SessionId :=
  history.filterMap SocketEvent.id?

@[simp] theorem callbacks_concat (history : List SocketEvent) (event : SocketEvent) :
    callbacks (history ++ [event]) =
      callbacks history ++ if event.isCallback then [event] else [] := by
  rw [callbacks, List.filter_append, List.filter_singleton, callbacks]
  cases event.isCallback <;> rfl

@[simp] theorem madeIDs_concat (history : List SocketEvent) (event : SocketEvent) :
    madeIDs (history ++ [event]) = madeIDs history ++ event.id?.toList := by
  rw [madeIDs, List.filterMap_append, madeIDs]
  cases h : event.id? <;> simp [h]

namespace LifePhase

/-- The callbacks are an enter and some data callbacks, and the socket has not
gone. -/
structure Active (sid : SessionId) (history : List SocketEvent) : Prop where
  ids : madeIDs history = [sid]
  callbacks : ∃ k, callbacks history = .enterCallback :: List.replicate k .dataCallback
  present : .ran .disConnect ∉ history

/-- What is known about the history that leads to a phase. -/
def Says (history : List SocketEvent) : LifePhase → Prop
  | fresh => history = []
  | refused => history = [.closed]
  | made sid => history = [.makeID sid]
  | opened sid => Active sid history ∧ .closed ∉ history
  | shut sid => Active sid history
  | leaving sid => ∃ pre, Active sid pre ∧ history = pre ++ [.ran .disConnect]
  | ended sid => ∃ pre, Active sid pre ∧ history = pre ++ [.ran .disConnect, .disConnectCallback]

variable {sid : SessionId} {history : List SocketEvent}

theorem Active.data (h : Active sid history) : Active sid (history ++ [.dataCallback]) := by
  obtain ⟨k, hk⟩ := h.callbacks
  refine ⟨by simp [h.ids, SocketEvent.id?], ⟨k + 1, ?_⟩, by simp [h.present]⟩
  rw [callbacks_concat, hk, List.replicate_succ']
  rfl

/-- An event that is no callback, no `MakeID` and not the disconnect closure
changes nothing. -/
theorem Active.concat (h : Active sid history) {event : SocketEvent}
    (hcallback : event.isCallback = false) (hid : event.id? = none)
    (hran : event ≠ .ran .disConnect) : Active sid (history ++ [event]) := by
  refine ⟨by simp [h.ids, hid], ?_, by simp [h.present, hran.symm]⟩
  rw [callbacks_concat, hcallback]
  simpa using h.callbacks

/-- One event: the phase it leads to says what it should. -/
theorem Says.next {phase phase' : LifePhase} {event : SocketEvent}
    (h : phase.Says history) (hnext : phase.next event = some phase') :
    phase'.Says (history ++ [event]) := by
  unfold LifePhase.next at hnext
  split at hnext <;> try split at hnext
  all_goals cases hnext
  · -- A socket that cannot be linked.
    cases h
    rfl
  · cases h
    rfl
  · -- The enter callback follows `MakeID`.
    cases h
    exact ⟨⟨rfl, ⟨0, rfl⟩, by simp⟩, by simp⟩
  · exact ⟨h.1.data, by simp [h.2]⟩
  · exact h.1.concat rfl rfl (by simp)
  · exact ⟨h.1.concat rfl rfl (by simp), by simp [h.2]⟩
  · exact ⟨h.1.concat rfl rfl (by simp), by simp [h.2]⟩
  · exact ⟨h.1.concat rfl rfl (by simp), by simp [h.2]⟩
  · exact Active.concat h rfl rfl (by simp)
  · exact Active.concat h rfl rfl (by simp)
  · exact Active.concat h rfl rfl (by simp)
  · exact ⟨history, h, rfl⟩
  · obtain ⟨pre, hpre, rfl⟩ := h
    exact ⟨pre, hpre, by simp⟩

end LifePhase

theorem says_of_run {history : List SocketEvent} {phase : LifePhase}
    (h : lifeCycle.run .fresh history = some phase) : phase.Says history := by
  apply System.run_induction (M := lifeCycle) _ _ h
  · rfl
  · exact fun _ _ _ _ hsays hnext => hsays.next hnext

end Brynet
