import Mathlib.Data.List.Basic

/-!
# Custody of resources

A ledger of events, some of which take a resource and some of which give it away.
Names of resources are used again: one that was given away may be taken anew.  The
ledger is in order when the events about each name are `taken`, `given`, `taken`,
`given` and so on, so that each time a resource was taken it was given away once; the
names whose last event is `taken` are those held.

`act` says what an event does with a name, if it is about that name at all.
-/

namespace Custody

/-- What an event does with the resource of a name. -/
inductive Act
  | taken
  | given
deriving Repr, DecidableEq

variable {κ ε : Type*} (act : κ → ε → Option Act)

/-- What happened with the resources of this name. -/
def history (k : κ) (ledger : List ε) : List Act := ledger.filterMap (act k)

/-- Taken and given away, `n` times. -/
def rounds (n : ℕ) : List Act := (List.replicate n [.taken, .given]).flatten

/-- The last resource of this name that was taken was not given away. -/
def isHeld (k : κ) (ledger : List ε) : Bool := (history act k ledger).getLast? = some .taken

/-- Every resource that was taken was given away once, apart from those in `held`. -/
def Accounted [DecidableEq κ] (ledger : List ε) (held : List κ) : Prop :=
  ∀ k, ∃ n, history act k ledger = rounds n ++ if k ∈ held then [.taken] else []

variable {act}

theorem history_concat (k : κ) (ledger : List ε) (e : ε) :
    history act k (ledger ++ [e]) = history act k ledger ++ (act k e).toList := by
  rw [history, history, List.filterMap_append]
  cases hact : act k e with
  | none => simp [hact]
  | some a => simp [hact]

/-- The last event about a name decides. -/
theorem isHeld_concat (k : κ) (ledger : List ε) (e : ε) :
    isHeld act k (ledger ++ [e]) = (act k e).elim (isHeld act k ledger) fun a => a = .taken := by
  rw [isHeld, isHeld, history_concat]
  cases act k e with
  | none => simp
  | some a => simp

theorem rounds_succ (n : ℕ) : rounds (n + 1) = rounds n ++ [.taken, .given] := by
  rw [rounds, rounds, List.replicate_succ', List.flatten_append]
  rfl

theorem getLast?_rounds_ne (n : ℕ) : (rounds n).getLast? ≠ some .taken := by
  cases n with
  | zero => simp [rounds]
  | succ n => simp [rounds_succ]

namespace Accounted

variable [DecidableEq κ] {ledger : List ε} {held held' : List κ} {k : κ} {e : ε}

theorem nil : Accounted act [] [] := by
  intro k
  exact ⟨0, rfl⟩

theorem congr (h : Accounted act ledger held) (heq : ∀ k, k ∈ held' ↔ k ∈ held) :
    Accounted act ledger held' := by
  intro k
  obtain ⟨n, hn⟩ := h k
  refine ⟨n, ?_⟩
  simp only [heq]
  exact hn

theorem isHeld_iff (h : Accounted act ledger held) : isHeld act k ledger = true ↔ k ∈ held := by
  obtain ⟨n, hn⟩ := h k
  simp only [isHeld, hn, decide_eq_true_eq]
  by_cases hk : k ∈ held
  · simp [hk]
  · simpa [hk] using getLast?_rounds_ne n

/-- An event about no resource. -/
theorem idle (h : Accounted act ledger held) (he : ∀ k, act k e = none) :
    Accounted act (ledger ++ [e]) held := by
  intro k
  obtain ⟨n, hn⟩ := h k
  refine ⟨n, ?_⟩
  rw [history_concat, he, hn]
  simp

theorem take (h : Accounted act ledger held) (hk : k ∉ held) (he : act k e = some .taken)
    (hother : ∀ other, other ≠ k → act other e = none) :
    Accounted act (ledger ++ [e]) (k :: held) := by
  intro other
  obtain ⟨n, hn⟩ := h other
  refine ⟨n, ?_⟩
  rw [history_concat, hn]
  by_cases heq : other = k
  · subst heq
    simp [hk, he]
  · simp [heq, hother other heq]

theorem give (h : Accounted act ledger (k :: held)) (hk : k ∉ held) (he : act k e = some .given)
    (hother : ∀ other, other ≠ k → act other e = none) :
    Accounted act (ledger ++ [e]) held := by
  intro other
  obtain ⟨n, hn⟩ := h other
  by_cases heq : other = k
  · subst heq
    refine ⟨n + 1, ?_⟩
    rw [history_concat, hn, he, rounds_succ]
    simp [hk]
  · refine ⟨n, ?_⟩
    rw [history_concat, hn, hother other heq]
    simp [heq]

end Accounted

end Custody
