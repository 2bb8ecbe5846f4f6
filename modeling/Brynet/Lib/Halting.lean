import Mathlib.Logic.Function.Iterate

/-!
# Runs of a deterministic machine to its end

A machine is a step function together with the set of its halted states, which
the step function leaves alone.  `Ends step halted x y` says that the run from
`x` halts, in `y`.  The state it ends in does not depend on where along the run
one starts to look (`ends_iterate`), so a long run can be cut at will.
-/

namespace Halting

variable {σ : Type*}

/-- The run from `x` halts in `y`. -/
def Ends (step : σ → σ) (halted : σ → Prop) (x y : σ) : Prop :=
  (∃ n, step^[n] x = y) ∧ halted y

variable {step : σ → σ} {halted : σ → Prop} {x y : σ}

theorem Ends.of_halted (h : halted x) : Ends step halted x x := ⟨⟨0, rfl⟩, h⟩

theorem iterate_of_halted (hfix : ∀ y, halted y → step y = y) (h : halted x) (n : ℕ) :
    step^[n] x = x :=
  Function.iterate_fixed (hfix x h) n

/-- **A run may be cut.**  It ends where it ends from any of its states. -/
theorem ends_iterate (hfix : ∀ y, halted y → step y = y) (n : ℕ) :
    Ends step halted (step^[n] x) y ↔ Ends step halted x y := by
  constructor
  · rintro ⟨⟨m, hm⟩, hhalted⟩
    exact ⟨⟨m + n, by rw [Function.iterate_add_apply, hm]⟩, hhalted⟩
  · rintro ⟨⟨m, hm⟩, hhalted⟩
    refine ⟨⟨m, ?_⟩, hhalted⟩
    rw [← Function.iterate_add_apply, Nat.add_comm, Function.iterate_add_apply, hm]
    exact iterate_of_halted hfix hhalted n

/-- A run ends in one state only. -/
theorem Ends.unique (hfix : ∀ y, halted y → step y = y) {y' : σ} (h : Ends step halted x y)
    (h' : Ends step halted x y') : y = y' := by
  obtain ⟨⟨n, rfl⟩, hhalted⟩ := h
  obtain ⟨⟨m, hm⟩, -⟩ := (ends_iterate hfix n).mpr h'
  exact (iterate_of_halted hfix hhalted m).symm.trans hm

end Halting
