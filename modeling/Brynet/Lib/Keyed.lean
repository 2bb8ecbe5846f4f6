import Mathlib.Data.List.Nodup

/-!
# Lists of records with a key

A record is found by a search from the front for its key, and changed or erased where it
was found; new records go to the back.  Such a list is a finite map from the keys to the
records as long as the keys are distinct, which all of these operations keep, and what is
done for one key leaves the records of the others as they are and in their order.
-/

namespace Keyed

variable {α κ : Type*} [DecidableEq κ] (key : α → κ)

def lookup (k : κ) (l : List α) : Option α := l.find? fun x => key x = k

/-- The records of the other keys. -/
def others (k : κ) (l : List α) : List α := l.filter fun x => key x ≠ k

/-- The change of a record in its place. -/
def update (k : κ) (f : α → α) (l : List α) : List α := l.modify (l.findIdx fun x => key x = k) f

def remove (k : κ) (l : List α) : List α := l.eraseP fun x => key x = k

variable {key} {k : κ} {f : α → α} {l l' : List α} {x : α}

theorem lookup_eq_none_iff : lookup key k l = none ↔ k ∉ l.map key := by
  simp [lookup]

theorem lookup_eq_some_iff (h : (l.map key).Nodup) : lookup key (key x) l = some x ↔ x ∈ l := by
  constructor
  · exact List.mem_of_find?_eq_some
  · intro hmem
    induction l with
    | nil => cases hmem
    | cons y l ih =>
        obtain ⟨hy, hl⟩ := List.nodup_cons.mp h
        obtain rfl | hmem := List.mem_cons.mp hmem
        · exact List.find?_cons_of_pos (by simp)
        · have hne : key y ≠ key x := fun heq => hy (heq ▸ List.mem_map_of_mem hmem)
          rw [lookup, List.find?_cons_of_neg (by simpa using hne)]
          exact ih hl hmem

/-- Lists with the same records for the other keys. -/
theorem lookup_of_others {other : κ} (hne : other ≠ k) (h : others key k l' = others key k l) :
    lookup key other l' = lookup key other l := by
  have hfilter : ∀ m : List α, lookup key other (others key k m) = lookup key other m := by
    intro m
    rw [lookup, others, List.find?_filter, lookup]
    congr 1
    funext x
    by_cases hx : key x = other
    · simp [hx, hne]
    · simp [hx]
  rw [← hfilter, h, hfilter]

section Update

theorem update_cons : update key k f (x :: l) =
    if key x = k then f x :: l else x :: update key k f l := by
  by_cases hx : key x = k
  · simp [update, List.findIdx_cons, hx]
  · simp [update, List.findIdx_cons, hx]

variable (hf : ∀ x, key (f x) = key x)

include hf

theorem map_update : (update key k f l).map key = l.map key := by
  induction l with
  | nil => simp [update]
  | cons x l ih =>
      rw [update_cons]
      split
      · rw [List.map_cons, hf, List.map_cons]
      · rw [List.map_cons, ih, List.map_cons]

theorem lookup_update : lookup key k (update key k f l) = (lookup key k l).map f := by
  induction l with
  | nil => simp [lookup, update]
  | cons x l ih =>
      rw [update_cons]
      unfold lookup at ih ⊢
      by_cases hx : key x = k
      · simp [hx, hf]
      · simpa [hx] using ih

theorem others_update : others key k (update key k f l) = others key k l := by
  induction l with
  | nil => simp [others, update]
  | cons x l ih =>
      rw [update_cons]
      unfold others at ih ⊢
      by_cases hx : key x = k
      · simp [hx, hf]
      · simpa [hx] using ih

end Update

theorem others_remove : others key k (remove key k l) = others key k l := by
  induction l with
  | nil => rfl
  | cons x l ih =>
      unfold others remove at ih ⊢
      by_cases hx : key x = k
      · simp [hx]
      · simpa [hx] using ih

theorem map_remove_sublist : ((remove key k l).map key).Sublist (l.map key) :=
  List.eraseP_sublist.map key

theorem lookup_remove (h : (l.map key).Nodup) : lookup key k (remove key k l) = none := by
  rw [lookup_eq_none_iff]
  induction l with
  | nil => simp [remove]
  | cons x l ih =>
      obtain ⟨hx, hl⟩ := List.nodup_cons.mp h
      unfold remove at ih ⊢
      by_cases heq : key x = k
      · rwa [List.eraseP_cons_of_pos (by simpa using heq), ← heq]
      · rw [List.eraseP_cons_of_neg (by simpa using heq), List.map_cons, List.mem_cons, not_or]
        exact ⟨Ne.symm heq, ih hl⟩

theorem lookup_concat (hx : key x = k) (h : k ∉ l.map key) :
    lookup key k (l ++ [x]) = some x := by
  have hnone := lookup_eq_none_iff.mpr h
  unfold lookup at hnone ⊢
  simp [List.find?_append, hnone, hx]

theorem others_concat (hx : key x = k) : others key k (l ++ [x]) = others key k l := by
  simp [others, hx]

end Keyed
