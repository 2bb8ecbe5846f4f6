import Mathlib.Logic.Basic
import Mathlib.Data.List.Basic
import Mathlib.Data.List.Induction

/-!
# Transition systems

A system is a set of initial states and a partial step function.  An action
carries every choice of the environment, so the step function itself is
deterministic and can be run: `run` executes a list of actions, `Reachable` is
the set of states some run ends in, and `Reachable.invariant` is the induction
rule by which every safety property of the development is proved; where a property
speaks of the actions too, `run_induction` is.

`restrict` keeps the steps that satisfy a condition, for results of the form
"in every run whose steps all meet the condition".  `record` keeps a record of
the steps beside the state, for results about what has happened so far.
-/

namespace Transition

variable {σ α : Type*}

/-- A transition system with states `σ` and actions `α`.  `next s a = none`
says that action `a` cannot happen in state `s`. -/
structure System (σ α : Type*) where
  init : σ → Prop
  next : σ → α → Option σ

namespace System

variable (M : System σ α)

/-- The states some run of the system ends in. -/
inductive Reachable : σ → Prop
  | init {s : σ} : M.init s → Reachable s
  | step {s s' : σ} {a : α} : Reachable s → M.next s a = some s' → Reachable s'

/-- Execute a list of actions. -/
def run : σ → List α → Option σ
  | s, [] => some s
  | s, a :: rest => (M.next s a).bind fun s' => run s' rest

/-- The same system with only the steps that satisfy `ok`. -/
def restrict (ok : σ → α → Bool) : System σ α where
  init := M.init
  next s a := if ok s a then M.next s a else none

/-- The same system with a record that every step updates. -/
def record {β : Type*} (start : β) (update : σ → α → β → β) : System (σ × β) α where
  init p := M.init p.1 ∧ p.2 = start
  next p a := (M.next p.1 a).map fun s' => (s', update p.1 a p.2)

variable {M}

/-- **Induction over runs.**  A property of the initial states that every step
from a reachable state preserves holds in every reachable state. -/
theorem Reachable.invariant {I : σ → Prop} (hinit : ∀ s, M.init s → I s)
    (hstep : ∀ s a s', M.Reachable s → I s → M.next s a = some s' → I s')
    {s : σ} (h : M.Reachable s) : I s := by
  induction h with
  | init hs => exact hinit _ hs
  | step hr hnext ih => exact hstep _ _ _ hr ih hnext

theorem Reachable.run {s s' : σ} {actions : List α} (h : M.Reachable s)
    (hrun : M.run s actions = some s') : M.Reachable s' := by
  induction actions generalizing s with
  | nil =>
      simp only [System.run, Option.some.injEq] at hrun
      exact hrun ▸ h
  | cons a rest ih =>
      simp only [System.run, Option.bind_eq_some_iff] at hrun
      obtain ⟨mid, hmid, hrest⟩ := hrun
      exact ih (h.step hmid) hrest

/-- A state that a run from an initial state ends in. -/
theorem reachable_of_run {s s' : σ} (hinit : M.init s) {actions : List α}
    (hrun : M.run s actions = some s') : M.Reachable s' :=
  (Reachable.init hinit).run hrun

theorem run_append (s : σ) (first second : List α) :
    M.run s (first ++ second) = (M.run s first).bind fun s' => M.run s' second := by
  induction first generalizing s with
  | nil => rfl
  | cons head rest ih => simp only [List.cons_append, System.run, ih, Option.bind_assoc]

theorem run_concat (s : σ) (actions : List α) (a : α) :
    M.run s (actions ++ [a]) = (M.run s actions).bind fun s' => M.next s' a := by
  simp [run_append, System.run]

/-- **Induction along a run.**  What holds of no actions and the first state, and is kept by
every step, holds of the actions of a run and the state it ends in. -/
theorem run_induction {I : List α → σ → Prop} {first : σ} (hinit : I [] first)
    (hnext : ∀ actions s a s', I actions s → M.next s a = some s' → I (actions ++ [a]) s')
    {actions : List α} {s : σ} (h : M.run first actions = some s) : I actions s := by
  induction actions using List.reverseRecOn generalizing s with
  | nil =>
      cases h
      exact hinit
  | append_singleton actions a ih =>
      rw [run_concat, Option.bind_eq_some_iff] at h
      obtain ⟨mid, hmid, hlast⟩ := h
      exact hnext actions mid a s (ih hmid) hlast

theorem next_of_restrict {ok : σ → α → Bool} {s s' : σ} {a : α}
    (h : (M.restrict ok).next s a = some s') : ok s a = true ∧ M.next s a = some s' := by
  simp only [restrict] at h
  split at h
  · exact ⟨‹_›, h⟩
  · cases h

theorem Reachable.of_restrict {ok : σ → α → Bool} {s : σ}
    (h : (M.restrict ok).Reachable s) : M.Reachable s := by
  induction h with
  | init hs => exact .init hs
  | step _ hnext ih => exact ih.step (next_of_restrict hnext).2

theorem next_of_record {β : Type*} {start : β} {update : σ → α → β → β} {p p' : σ × β} {a : α}
    (h : (M.record start update).next p a = some p') :
    M.next p.1 a = some p'.1 ∧ p'.2 = update p.1 a p.2 := by
  simp only [record, Option.map_eq_some_iff] at h
  obtain ⟨s', hnext, rfl⟩ := h
  exact ⟨hnext, rfl⟩

end System

end Transition
