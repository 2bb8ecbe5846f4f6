import Mathlib.Data.List.Basic

/-!
# Merges of sequences

A list of tagged items is a merge of a family of sequences when the items with
one tag are, in order, the sequence of that tag: every item of every sequence is
there once, and each sequence keeps its order.
-/

namespace Merge

variable {κ α : Type*} [DecidableEq κ]

/-- The items with tag `k`, in order. -/
def itemsOf (merged : List (κ × α)) (k : κ) : List α :=
  merged.filterMap fun item => if item.1 = k then some item.2 else none

/-- `merged` is a merge of the sequences `seqs k`. -/
def IsMerge (merged : List (κ × α)) (seqs : κ → List α) : Prop :=
  ∀ k, itemsOf merged k = seqs k

theorem itemsOf_append (first second : List (κ × α)) (k : κ) :
    itemsOf (first ++ second) k = itemsOf first k ++ itemsOf second k :=
  List.filterMap_append

theorem itemsOf_eq_nil {items : List (κ × α)} {k : κ} (h : ∀ item ∈ items, item.1 ≠ k) :
    itemsOf items k = [] := by
  rw [itemsOf, List.filterMap_eq_nil_iff]
  intro item hitem
  exact if_neg (h item hitem)

end Merge
