import Mathlib.Data.List.Perm.Basic
import Mathlib.Data.List.Nodup
import Mathlib.Order.Lattice

/-!
# Ordered maps

A map whose entries are visited in the order of their keys, as the list of its
entries.  An iterator is the key it points to, so it stays good while the entry
is there.  The lemmas say what an operation does to the entries up to their
order, which is what an accounting argument needs.
-/

namespace OrderedMap

variable {κ α : Type*} [LinearOrder κ]

/-- The value stored under `k`. -/
def find (k : κ) (m : List (κ × α)) : Option α := (m.find? fun entry => entry.1 = k).map Prod.snd

/-- Store `v` under `k`, in place of what was there. -/
def assign (k : κ) (v : α) : List (κ × α) → List (κ × α)
  | [] => [(k, v)]
  | entry :: rest =>
      if k < entry.1 then (k, v) :: entry :: rest
      else if k = entry.1 then (k, v) :: rest
      else entry :: assign k v rest

def erase (k : κ) (m : List (κ × α)) : List (κ × α) := m.filter fun entry => entry.1 ≠ k

def keys (m : List (κ × α)) : List κ := m.map Prod.fst

/-- The iterator `begin()`; `none` is `end()`. -/
def first (m : List (κ × α)) : Option κ := (keys m).head?

/-- The iterator after the one at `k`. -/
def after (k : κ) (m : List (κ × α)) : Option κ := (keys m).find? fun other => k < other

variable {k : κ} {v : α} {m : List (κ × α)}

theorem mem_of_find (h : find k m = some v) : (k, v) ∈ m := by
  unfold find at h
  obtain ⟨entry, hentry, rfl⟩ := Option.map_eq_some_iff.mp h
  have hkey : entry.1 = k := by simpa using List.find?_some hentry
  exact hkey ▸ List.mem_of_find?_eq_some hentry

/-- Under a key that is not there, `assign` adds an entry. -/
theorem assign_perm (v : α) (h : k ∉ keys m) : (assign k v m).Perm ((k, v) :: m) := by
  induction m with
  | nil => exact .refl _
  | cons entry rest ih =>
      simp only [keys, List.map_cons, List.mem_cons, not_or] at h
      obtain ⟨hne, hrest⟩ := h
      unfold assign
      split
      · exact .refl _
      · exact ((ih hrest).cons entry).trans (.swap _ _ _)

theorem keys_assign_perm (v : α) (h : k ∉ keys m) : (keys (assign k v m)).Perm (k :: keys m) :=
  (assign_perm v h).map Prod.fst

theorem keys_erase (k : κ) (m : List (κ × α)) :
    keys (erase k m) = (keys m).filter fun other => other ≠ k := by
  unfold keys erase
  rw [List.filter_map]
  rfl

theorem erase_of_not_mem (h : k ∉ keys m) : erase k m = m := by
  unfold erase
  rw [List.filter_eq_self]
  intro entry hentry
  have hne : entry.1 ≠ k := fun heq => h (heq ▸ List.mem_map_of_mem hentry)
  simpa using hne

theorem mem_keys_of_find (h : find k m = some v) : k ∈ keys m :=
  List.mem_map.mpr ⟨(k, v), mem_of_find h, rfl⟩

theorem not_mem_keys_of_find (h : find k m = none) : k ∉ keys m := by
  intro hkey
  obtain ⟨entry, hentry, heq⟩ := List.mem_map.mp hkey
  rw [find, Option.map_eq_none_iff, List.find?_eq_none] at h
  exact h entry hentry (by simpa using heq)

theorem keys_perm_erase (hnodup : (keys m).Nodup) (h : k ∈ keys m) :
    (keys m).Perm (k :: keys (erase k m)) := by
  have herase : keys (erase k m) = (keys m).erase k := by
    rw [keys_erase, hnodup.erase_eq_filter]
    congr 1
    funext other
    by_cases hother : other = k <;> simp [hother]
  rw [herase]
  exact List.perm_cons_erase h

/-- What is found is the one entry that `erase` removes. -/
theorem perm_erase_of_find (hnodup : (keys m).Nodup) (h : find k m = some v) :
    m.Perm ((k, v) :: erase k m) := by
  have hmem := mem_of_find h
  induction m with
  | nil => cases hmem
  | cons entry rest ih =>
      simp only [keys, List.map_cons, List.nodup_cons] at hnodup
      obtain ⟨hnew, hnodup⟩ := hnodup
      by_cases hkey : entry.1 = k
      · have hfound : entry.2 = v := by simpa [find, hkey] using h
        have hrest : erase k rest = rest := erase_of_not_mem (hkey ▸ hnew)
        have herase : erase k (entry :: rest) = rest := by
          rw [← hrest]
          simp [erase, hkey]
        rw [herase, ← hkey, ← hfound]
      · have hfind : find k rest = some v := by simpa [find, hkey] using h
        have hcons : erase k (entry :: rest) = entry :: erase k rest := by simp [erase, hkey]
        rw [hcons]
        exact ((ih hnodup hfind (mem_of_find hfind)).cons entry).trans (.swap _ _ _)

/-- A key that is there has one entry. -/
theorem exists_filter_eq (hnodup : (keys m).Nodup) (h : k ∈ keys m) :
    ∃ v, m.filter (fun entry => entry.1 = k) = [(k, v)] := by
  induction m with
  | nil => cases h
  | cons entry rest ih =>
      simp only [keys, List.map_cons, List.nodup_cons, List.mem_cons] at hnodup h
      by_cases hkey : entry.1 = k
      · have hnone : rest.filter (fun other => other.1 = k) = [] := by
          rw [List.filter_eq_nil_iff]
          intro other hother
          have hne : other.1 ≠ k :=
            fun heq => hnodup.1 (List.mem_map.mpr ⟨other, hother, heq.trans hkey.symm⟩)
          simpa using hne
        refine ⟨entry.2, ?_⟩
        rw [List.filter_cons_of_pos (by simpa using hkey), hnone, ← hkey]
      · obtain ⟨v, hv⟩ := ih hnodup.2 (h.resolve_left fun heq => hkey heq.symm)
        exact ⟨v, by rw [List.filter_cons_of_neg (by simpa using hkey), hv]⟩

end OrderedMap
