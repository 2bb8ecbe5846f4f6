import Brynet.Lib.MachineInt
import Mathlib.Data.List.Infix

/-!
# `memsearch`

The search of `PromiseReceive.h` for a delimiter.  Its outer loop runs over the
positions of the haystack up to `haysize - needlesize`, a difference of `size_t`: if the
haystack is shorter than the needle it wraps around, and the loop has no bound to speak of.

A read behind the end of the haystack is a result of its own here (`outOfRange`).  The
haystack is kept as its part from the current position on, so a position is read by
looking at the front.
-/

namespace Brynet

open MachineInt

/-- What a comparison of the needle with the haystack at one position finds. -/
inductive Comparison
  | equal
  | differs
  | outOfRange
deriving Repr, DecidableEq

/-- How the search ends: with `isOK` set and a result, with `isOK` reset, or at a read
behind the end of the haystack. -/
inductive SearchResult
  | found (result : ℕ)
  | absent
  | outOfRange
deriving Repr, DecidableEq

/-- `isOK` -/
def SearchResult.isOK : SearchResult → Bool
  | found _ => true
  | absent | outOfRange => false

/-- The inner loop: the rest of the haystack against the rest of the needle. -/
def compareNeedle : (hay needle : List UInt8) → Comparison
  | _, [] => .equal
  | [], _ :: _ => .outOfRange
  | h :: hay, n :: needle => if h ≠ n then .differs else compareNeedle hay needle

/-- The outer loop from `haypos` on, where the haystack goes on with `rest`. -/
def memsearchFrom (needle : List UInt8) (haysize haypos : ℕ) (rest : List UInt8) : SearchResult :=
  if haypos ≤ haysize then
    match compareNeedle rest needle with
    | .equal => .found haypos
    | .outOfRange => .outOfRange
    | .differs =>
        -- Nothing differs from an empty rest.
        match rest with
        | [] => .outOfRange
        | _ :: rest => memsearchFrom needle haysize (haypos + 1) rest
  else .absent

/-- `memsearch`; `haysize -= needlesize` comes first. -/
def memsearch (hay needle : List UInt8) : SearchResult :=
  memsearchFrom needle (sizeSub hay.length needle.length) 0 hay

/-- `r` is the outcome of a search for the first occurrence that reads no position
behind the haystack. -/
structure FirstOccurrence (hay needle : List UInt8) (r : SearchResult) : Prop where
  inRange : r ≠ .outOfRange
  isOK : r.isOK = true ↔ needle <:+: hay
  result : ∀ pos, r = .found pos →
    needle <+: hay.drop pos ∧ ∀ j < pos, ¬needle <+: hay.drop j

variable {hay needle rest : List UInt8}

/-! ## One position -/

/-- The comparison is a prefix test as long as it stays inside the haystack. -/
theorem compareNeedle_eq (h : needle.length ≤ rest.length) :
    compareNeedle rest needle = if needle <+: rest then .equal else .differs := by
  induction needle generalizing rest with
  | nil => simp [compareNeedle]
  | cons n needle ih =>
      cases rest with
      | nil => simp at h
      | cons b rest =>
          have hlen : needle.length ≤ rest.length := by simpa using h
          by_cases heq : b = n
          · subst heq
            simp only [compareNeedle, ne_eq, not_true_eq_false, if_false, ih hlen,
              List.prefix_cons_inj]
          · have hno : ¬n :: needle <+: b :: rest := by
              rw [List.cons_prefix_cons]
              exact fun hpre => heq hpre.1.symm
            simp only [compareNeedle, ne_eq, heq, not_false_eq_true, if_true, if_neg hno]

/-- A needle that is longer than the rest never matches. -/
theorem compareNeedle_ne_equal (h : rest.length < needle.length) :
    compareNeedle rest needle ≠ .equal := by
  induction needle generalizing rest with
  | nil => simp at h
  | cons n needle ih =>
      cases rest with
      | nil => simp [compareNeedle]
      | cons b rest =>
          unfold compareNeedle
          split
          · simp
          · exact ih (by simpa using h)

/-! ## The search -/

theorem infix_iff_exists_drop : needle <:+: hay ↔ ∃ j, needle <+: hay.drop j := by
  constructor
  · rintro ⟨before, after, rfl⟩
    refine ⟨before.length, after, ?_⟩
    rw [List.append_assoc, List.drop_left]
  · rintro ⟨j, hpre⟩
    exact hpre.isInfix.trans (List.drop_suffix j hay).isInfix

/-- With a bound that did not wrap around the search finds the first occurrence, counted
from `haypos`, or there is none. -/
theorem memsearchFrom_spec {haypos size : ℕ} (hsize : haypos + rest.length = size)
    (hle : needle.length ≤ size) :
    (∃ j, memsearchFrom needle (size - needle.length) haypos rest = .found (haypos + j) ∧
      needle <+: rest.drop j ∧ ∀ k < j, ¬needle <+: rest.drop k) ∨
    (memsearchFrom needle (size - needle.length) haypos rest = .absent ∧
      ∀ j, ¬needle <+: rest.drop j) := by
  induction rest generalizing haypos with
  | nil =>
      have hhaypos : haypos = size := by simpa using hsize
      unfold memsearchFrom
      split
      next hbound =>
        have hempty : needle = [] := List.length_eq_zero_iff.mp (by omega)
        subst hempty
        exact .inl ⟨0, rfl, List.nil_prefix, by simp⟩
      next hbound =>
        refine .inr ⟨rfl, fun j hpre => ?_⟩
        have hlen := hpre.length_le
        simp only [List.drop_nil, List.length_nil] at hlen
        omega
  | cons b rest ih =>
      rw [List.length_cons] at hsize
      unfold memsearchFrom
      split
      next hbound =>
        rw [compareNeedle_eq (by rw [List.length_cons]; omega)]
        by_cases hpre : needle <+: b :: rest
        · rw [if_pos hpre]
          exact .inl ⟨0, rfl, hpre, by simp⟩
        · rw [if_neg hpre]
          rcases @ih (haypos + 1) (by omega) with ⟨j, hfound, hhere, hfirst⟩ | ⟨habsent, hnone⟩
          · refine .inl ⟨j + 1, ?_, hhere, ?_⟩
            · show memsearchFrom _ _ _ _ = _
              rw [hfound, Nat.add_assoc, Nat.add_comm 1 j]
            · intro k hk
              cases k with
              | zero => exact hpre
              | succ k => exact hfirst k (by omega)
          · refine .inr ⟨habsent, fun j => ?_⟩
            cases j with
            | zero => exact hpre
            | succ j => exact hnone j
      next hbound =>
        -- The needle is longer than what is left.
        refine .inr ⟨rfl, fun j hpre => ?_⟩
        have hlen := hpre.length_le
        have hdrop := (List.drop_suffix j (b :: rest)).length_le
        rw [List.length_cons] at hdrop
        omega

/-- With a bound behind the haystack a needle that does not fit is looked for until the
first read out of range. -/
theorem memsearchFrom_outOfRange {haypos haysize : ℕ} (hne : needle ≠ [])
    (hlen : rest.length < needle.length) (hbound : haypos + rest.length ≤ haysize) :
    memsearchFrom needle haysize haypos rest = .outOfRange := by
  induction rest generalizing haypos with
  | nil =>
      obtain ⟨n, needle, rfl⟩ := List.exists_cons_of_ne_nil hne
      unfold memsearchFrom
      rw [if_pos (by omega)]
      rfl
  | cons b rest ih =>
      rw [List.length_cons] at hlen hbound
      unfold memsearchFrom
      rw [if_pos (by omega)]
      have hno := @compareNeedle_ne_equal needle (b :: rest) hlen
      cases hcompare : compareNeedle (b :: rest) needle with
      | equal => exact absurd hcompare hno
      | outOfRange => rfl
      | differs => exact ih (by omega) (by omega)

theorem memsearch_of_le (hle : needle.length ≤ hay.length) (hhay : hay.length < 2 ^ 64) :
    FirstOccurrence hay needle (memsearch hay needle) := by
  have hsub : sizeSub hay.length needle.length = hay.length - needle.length :=
    sizeSub_eq hle hhay
  have hspec := @memsearchFrom_spec needle hay 0 hay.length (Nat.zero_add _) hle
  unfold memsearch
  rw [hsub]
  rcases hspec with ⟨j, hfound, hhere, hfirst⟩ | ⟨habsent, hnone⟩
  · rw [Nat.zero_add] at hfound
    rw [hfound]
    refine ⟨by simp, iff_of_true rfl (infix_iff_exists_drop.mpr ⟨j, hhere⟩), ?_⟩
    rintro pos heq
    cases heq
    exact ⟨hhere, hfirst⟩
  · rw [habsent]
    refine ⟨by simp, iff_of_false (by simp [SearchResult.isOK]) ?_, by simp⟩
    rw [infix_iff_exists_drop]
    rintro ⟨j, hhere⟩
    exact hnone j hhere

/-- **When `memsearch` is a first-occurrence search**: exactly when the haystack is not
shorter than the needle.  On a shorter one the difference of the sizes wraps around, and
the search reads behind the end of the haystack. -/
theorem memsearch_first_occurrence_iff (hay needle : List UInt8) (hne : needle ≠ [])
    (hhay : hay.length < 2 ^ 64) (hneedle : needle.length < 2 ^ 64) :
    FirstOccurrence hay needle (memsearch hay needle) ↔ needle.length ≤ hay.length := by
  refine ⟨fun h => ?_, fun hle => memsearch_of_le hle hhay⟩
  by_contra hshort
  have hwrap : hay.length ≤ sizeSub hay.length needle.length := by
    unfold sizeSub sizeMod
    rw [Nat.mod_eq_of_lt hneedle, Nat.mod_eq_of_lt (by omega)]
    omega
  exact h.inRange (memsearchFrom_outOfRange hne (Nat.lt_of_not_le hshort) (by omega))

/-- The delimiter stands at position 1. -/
theorem memsearch_first_occurrence_found :
    memsearch [7, 13, 10, 13, 10] [13, 10] = .found 1 ∧
      FirstOccurrence [7, 13, 10, 13, 10] [13, 10] (memsearch [7, 13, 10, 13, 10] [13, 10]) :=
  ⟨rfl, (memsearch_first_occurrence_iff _ _ (by decide) (by decide) (by decide)).mpr (by decide)⟩

/-- An empty haystack is read at its first position. -/
theorem not_memsearch_first_occurrence_empty :
    memsearch [] [13, 10] = .outOfRange ∧ ¬FirstOccurrence [] [13, 10] (memsearch [] [13, 10]) := by
  have hread : memsearch [] [13, 10] = .outOfRange := rfl
  exact ⟨hread, fun h => h.inRange hread⟩

end Brynet
