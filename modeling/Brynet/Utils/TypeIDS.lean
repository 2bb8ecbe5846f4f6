import Brynet.Lib.Transition
import Mathlib.Data.List.Perm.Basic
import Mathlib.Data.List.Range
import Mathlib.Data.List.Nodup
import Mathlib.Tactic.Push

/-!
# The id allocator of `utils/Typeids.h`

`TypeIDS<T>` for a pointer type `T`: a vector of values, `none` being the null
pointer, and a free list used as a stack whose top is the back of the vector.
The free list is refilled in blocks of `growNum` ids when it is empty.

`Partition` is the invariant of the allocator: the free ids and the claimed ids
together are exactly the positions of the value vector, each once.  `IdUse` is an
allocator with the ids its users have; they reclaim only what they have claimed.
-/

namespace Brynet

structure TypeIDS (α : Type*) where
  mValues : List (Option α)
  mIds : List ℕ
deriving Repr, DecidableEq

namespace TypeIDS

variable {α : Type*}

def empty : TypeIDS α := ⟨[], []⟩

def growNum : ℕ := 100

def increase (ids : TypeIDS α) : TypeIDS α where
  mValues := ids.mValues ++ List.replicate growNum none
  mIds := ids.mIds ++ (List.range growNum).map (ids.mValues.length + ·)

/-- `claimID`: the id and the new allocator; `none` is the exception. -/
def claimID (ids : TypeIDS α) : Option (ℕ × TypeIDS α) :=
  let ids := if ids.mIds.isEmpty then ids.increase else ids
  ids.mIds.getLast?.map fun ret => (ret, { ids with mIds := ids.mIds.dropLast })

def reclaimID (ids : TypeIDS α) (id : ℕ) : TypeIDS α :=
  { ids with mIds := ids.mIds ++ [id] }

/-- `set`, which leaves the values alone when `id` is out of range. -/
def set (ids : TypeIDS α) (value : Option α) (id : ℕ) : TypeIDS α :=
  { ids with mValues := ids.mValues.set id value }

/-- `get`: `none` when `id` is out of range. -/
def get (ids : TypeIDS α) (id : ℕ) : Option (Option α) := ids.mValues[id]?

/-- The free ids and the claimed ids are the positions of the value vector. -/
def Partition (ids : TypeIDS α) (claimed : List ℕ) : Prop :=
  (ids.mIds ++ claimed).Perm (List.range ids.mValues.length)

variable {ids ids' : TypeIDS α} {claimed : List ℕ} {id : ℕ}

theorem partition_empty : (empty : TypeIDS α).Partition [] := List.Perm.refl _

theorem Partition.nodup (h : ids.Partition claimed) : (ids.mIds ++ claimed).Nodup :=
  h.nodup_iff.mpr List.nodup_range

theorem Partition.lt_of_mem (h : ids.Partition claimed) (hid : id ∈ claimed) :
    id < ids.mValues.length :=
  List.mem_range.mp (h.mem_iff.mp (List.mem_append_right _ hid))

theorem Partition.length_add (h : ids.Partition claimed) :
    ids.mIds.length + claimed.length = ids.mValues.length := by
  simpa using h.length_eq

theorem Partition.increase (h : ids.Partition claimed) : ids.increase.Partition claimed := by
  unfold Partition TypeIDS.increase at *
  simp only [List.length_append, List.length_replicate]
  rw [List.range_add]
  calc (ids.mIds ++ (List.range growNum).map (ids.mValues.length + ·)) ++ claimed
      _ |>.Perm ((ids.mIds ++ claimed) ++ (List.range growNum).map (ids.mValues.length + ·)) := by
        rw [List.append_assoc, List.append_assoc]
        exact List.Perm.append_left _ List.perm_append_comm
      _ |>.Perm (List.range ids.mValues.length ++
          (List.range growNum).map (ids.mValues.length + ·)) := h.append_right _

/-- What `claimID` does: the id it returns was free, and the values are those
of before, in front of a fresh block of null pointers if the free list was
empty. -/
theorem claimID_spec (ids : TypeIDS α) :
    ∃ id ids', ids.claimID = some (id, ids') ∧
      ids'.mIds ++ [id] = (if ids.mIds.isEmpty then ids.increase else ids).mIds ∧
      ids'.mValues = (if ids.mIds.isEmpty then ids.increase else ids).mValues := by
  generalize hgrown : (if ids.mIds.isEmpty then ids.increase else ids) = grown
  have hne : grown.mIds ≠ [] := by
    rw [← hgrown]
    split
    · simp [TypeIDS.increase, growNum]
    · rename_i hfree
      exact fun hnil => hfree (by rw [hnil]; rfl)
  refine ⟨grown.mIds.getLast hne, { grown with mIds := grown.mIds.dropLast }, ?_,
    List.dropLast_append_getLast hne, rfl⟩
  unfold claimID
  simp only [hgrown, List.getLast?_eq_some_getLast hne, Option.map_some]

theorem Partition.claimID (h : ids.Partition claimed) (hclaim : ids.claimID = some (id, ids')) :
    ids'.Partition (id :: claimed) := by
  obtain ⟨id₀, ids₀, hclaim₀, hmIds, hmValues⟩ := ids.claimID_spec
  rw [hclaim₀, Option.some.injEq, Prod.mk.injEq] at hclaim
  obtain ⟨rfl, rfl⟩ := hclaim
  have hgrown : (if ids.mIds.isEmpty then ids.increase else ids).Partition claimed := by
    split
    · exact h.increase
    · exact h
  unfold Partition at hgrown ⊢
  rw [hmValues]
  rw [← hmIds, List.append_assoc] at hgrown
  exact hgrown

theorem Partition.reclaimID (h : ids.Partition claimed) {rest : List ℕ}
    (hrest : claimed.Perm (id :: rest)) : (ids.reclaimID id).Partition rest := by
  unfold Partition TypeIDS.reclaimID at *
  rw [List.append_assoc]
  exact (hrest.symm.append_left _).trans h

theorem Partition.set (h : ids.Partition claimed) (value : Option α) (id : ℕ) :
    (ids.set value id).Partition claimed := by
  simpa [Partition, TypeIDS.set] using h

theorem get_set_self {value : Option α} (h : id < ids.mValues.length) :
    (ids.set value id).get id = some value := by
  simp [get, TypeIDS.set, h]

theorem get_set_of_ne {value : Option α} {other : ℕ} (h : other ≠ id) :
    (ids.set value id).get other = ids.get other := by
  simp only [get, TypeIDS.set]
  exact List.getElem?_set_ne h.symm

/-- `claimID` never changes a value that is there. -/
theorem get_claimID (hclaim : ids.claimID = some (id, ids')) {other : ℕ} {value : Option α}
    (hget : ids.get other = some value) : ids'.get other = some value := by
  obtain ⟨id₀, ids₀, hclaim₀, -, hmValues⟩ := ids.claimID_spec
  rw [hclaim₀, Option.some.injEq, Prod.mk.injEq] at hclaim
  obtain ⟨rfl, rfl⟩ := hclaim
  obtain ⟨hlt, -⟩ := List.getElem?_eq_some_iff.mp hget
  unfold get at hget ⊢
  rw [hmValues]
  split
  · rw [TypeIDS.increase, List.getElem?_append_left hlt]
    exact hget
  · exact hget

/-- A pointer that is there after `claimID` was there before. -/
theorem get_of_claimID (hclaim : ids.claimID = some (id, ids')) {other : ℕ} {value : α}
    (hget : ids'.get other = some (some value)) : ids.get other = some (some value) := by
  obtain ⟨id₀, ids₀, hclaim₀, -, hmValues⟩ := ids.claimID_spec
  rw [hclaim₀, Option.some.injEq, Prod.mk.injEq] at hclaim
  obtain ⟨rfl, rfl⟩ := hclaim
  unfold get at hget ⊢
  rw [hmValues] at hget
  split at hget
  · rw [TypeIDS.increase, List.getElem?_append] at hget
    split at hget
    · exact hget
    · simp [List.getElem?_replicate] at hget
  · exact hget

end TypeIDS

/-! ## Sequences of calls -/

/-- An allocator and the ids that have been claimed and not reclaimed since, which are not
in the source. -/
structure IdUse (α : Type*) where
  ids : TypeIDS α
  claimed : List ℕ

inductive IdCall (α : Type*)
  | claimID
  | reclaimID (id : ℕ)
  | set (value : Option α) (id : ℕ)
  | get (id : ℕ)

namespace IdUse

open Transition

variable {α : Type*} {s s' : IdUse α} {call : IdCall α}

/-- A call of `claimID` that throws has no next state.  `get` is const, so its `std::move`
is a copy. -/
def next (s : IdUse α) : IdCall α → Option (IdUse α)
  | .claimID => s.ids.claimID.map fun (id, ids) => { ids, claimed := id :: s.claimed }
  | .reclaimID id =>
      if id ∈ s.claimed then some { ids := s.ids.reclaimID id, claimed := s.claimed.erase id }
      else none
  | .set value id => some { s with ids := s.ids.set value id }
  | .get _ => some s

def system (α : Type*) : System (IdUse α) (IdCall α) where
  init s := s = { ids := .empty, claimed := [] }
  next := next

theorem partition_next (h : s.ids.Partition s.claimed) (hnext : (system α).next s call = some s') :
    s'.ids.Partition s'.claimed := by
  cases call with
  | claimID =>
      obtain ⟨⟨id, ids⟩, hclaim, rfl⟩ := Option.map_eq_some_iff.mp hnext
      exact h.claimID hclaim
  | reclaimID id =>
      obtain ⟨hmem, ⟨⟩⟩ := Option.ite_none_right_eq_some.mp hnext
      exact h.reclaimID (List.perm_cons_erase hmem)
  | set value id =>
      cases hnext
      exact h.set value id
  | get id =>
      cases hnext
      exact h

theorem partition_of_reachable (h : (system α).Reachable s) : s.ids.Partition s.claimed := by
  refine h.invariant (I := fun s => s.ids.Partition s.claimed) ?_ ?_
  · rintro s rfl
    exact TypeIDS.partition_empty
  · intro s call s' _ hpartition hnext
    exact partition_next hpartition hnext

/-- **Ids.**  However ids are claimed and reclaimed, the free ones and the claimed ones are
the positions of the values, each once.  `claimID` does not throw, and what it returns is
a position that is not claimed; `set` keeps what is stored under other ids. -/
theorem ids_allocated_disjointly (h : (system α).Reachable s) :
    s.ids.mIds.Nodup ∧ s.claimed.Nodup ∧ s.ids.mIds.Disjoint s.claimed ∧
    (∀ id, id < s.ids.mValues.length ↔ id ∈ s.ids.mIds ∨ id ∈ s.claimed) ∧
    (∃ id ids, s.ids.claimID = some (id, ids) ∧ id ∉ s.claimed ∧ id < ids.mValues.length) ∧
    (∀ value id other, other ≠ id → (s.ids.set value id).get other = s.ids.get other) := by
  have hpartition := partition_of_reachable h
  obtain ⟨hfree, hclaimed, hdisjoint⟩ := List.nodup_append'.mp hpartition.nodup
  refine ⟨hfree, hclaimed, hdisjoint, ?_, ?_, fun _ _ _ => TypeIDS.get_set_of_ne⟩
  · intro id
    rw [← List.mem_append, hpartition.mem_iff, List.mem_range]
  · obtain ⟨id, ids, hclaim, -⟩ := s.ids.claimID_spec
    have hnext := hpartition.claimID hclaim
    refine ⟨id, ids, hclaim, ?_, hnext.lt_of_mem List.mem_cons_self⟩
    exact (List.nodup_cons.mp (List.nodup_append'.mp hnext.nodup).2.1).1

/-- Two ids are claimed and the first is reclaimed. -/
theorem ids_allocated_disjointly_two :
    ∃ s, (system ℕ).run { ids := .empty, claimed := [] } [.claimID, .claimID, .reclaimID 99] =
        some s ∧
      s.claimed = [98] ∧
      ∃ id ids, s.ids.claimID = some (id, ids) ∧ id ∉ s.claimed ∧ id < ids.mValues.length := by
  obtain ⟨s, hrun⟩ : ∃ s, (system ℕ).run { ids := .empty, claimed := [] }
      [.claimID, .claimID, .reclaimID 99] = some s := ⟨_, rfl⟩
  have hclaimed : s.claimed = [98] := by
    cases hrun
    rfl
  exact ⟨s, hrun, hclaimed,
    (ids_allocated_disjointly (System.reachable_of_run rfl hrun)).2.2.2.2.1⟩

end IdUse

end Brynet
