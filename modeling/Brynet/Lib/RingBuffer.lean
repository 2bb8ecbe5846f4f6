import Mathlib.Data.List.Rotate
import Mathlib.Data.List.GetD
import Mathlib.Data.Nat.ModEq

/-!
# Ring buffers

The elements of a ring buffer lie in its cells from the position `front` on, and go on at
the first cell behind the last.  They are the beginning of the list of cells turned by
`front`, so what the operations do to them follows from how lists are turned.
-/

namespace RingBuffer

variable {α : Type*} [Inhabited α]

/-- The `num` elements from `front` on. -/
def contents (cells : List α) (front num : ℕ) : List α :=
  (List.range num).map fun i => cells.getD ((front + i) % cells.length) default

variable {cells : List α} {front num : ℕ} {x : α}

@[simp]
theorem length_contents : (contents cells front num).length = num := by
  rw [contents, List.length_map, List.length_range]

theorem contents_eq_take (h : num ≤ cells.length) :
    contents cells front num = (cells.rotate front).take num := by
  apply List.ext_getElem
  · rw [length_contents, List.length_take, List.length_rotate, min_eq_left h]
  · intro i hi hi'
    rw [length_contents] at hi
    have hlt : (front + i) % cells.length < cells.length := Nat.mod_lt _ (by omega)
    simp only [contents, List.getElem_map, List.getElem_range, List.getElem_take,
      List.getElem_rotate, Nat.add_comm i]
    exact List.getD_eq_getElem _ _ hlt

/-- The position of an element, counted from the front. -/
theorem getElem?_contents (h : num ≤ cells.length) {i : ℕ} (hi : i < num) :
    (contents cells front num)[i]? = cells[(front + i) % cells.length]? := by
  rw [contents_eq_take h, List.getElem?_take_of_lt hi, List.getElem?_rotate (hi.trans_le h),
    Nat.add_comm]

/-- Different elements lie in different cells. -/
theorem add_mod_eq_iff {n i j : ℕ} (hi : i < n) (hj : j < n) :
    (front + i) % n = (front + j) % n ↔ i = j := by
  constructor
  · intro heq
    have hmod : Nat.ModEq n i j := Nat.ModEq.add_left_cancel' front heq
    exact hmod.eq_of_lt_of_lt hi hj
  · rintro rfl
    rfl

omit [Inhabited α] in
theorem rotate_set (h : num < cells.length) :
    (cells.set ((front + num) % cells.length) x).rotate front = (cells.rotate front).set num x := by
  apply List.ext_getElem
  · simp
  · intro i hi hi'
    have hi : i < cells.length := by simpa using hi
    simp only [List.getElem_rotate, List.getElem_set, List.length_set, Nat.add_comm i,
      add_mod_eq_iff h hi]

/-- A cell behind the elements is filled. -/
theorem contents_set (h : num < cells.length) :
    contents (cells.set ((front + num) % cells.length) x) front (num + 1) =
      contents cells front num ++ [x] := by
  have hlen : num < (cells.rotate front).length := by rwa [List.length_rotate]
  have hset : num + 1 ≤ (cells.set ((front + num) % cells.length) x).length := by
    rwa [List.length_set]
  rw [contents_eq_take hset, contents_eq_take h.le, rotate_set h, List.take_add_one,
    List.getElem?_set_self hlen, List.take_set_of_le (le_refl num)]
  rfl

theorem head?_contents (h : num ≤ cells.length) (hnum : 0 < num) (hfront : front < cells.length) :
    (contents cells front num).head? = cells[front]? := by
  rw [List.head?_eq_getElem?, getElem?_contents h hnum, Nat.add_zero,
    Nat.mod_eq_of_lt hfront]

theorem getLast?_contents (h : num + 1 ≤ cells.length) :
    (contents cells front (num + 1)).getLast? = cells[(front + num) % cells.length]? := by
  rw [List.getLast?_eq_getElem?, length_contents, Nat.add_sub_cancel,
    getElem?_contents h (Nat.lt_succ_self num)]

theorem dropLast_contents : (contents cells front (num + 1)).dropLast = contents cells front num := by
  rw [contents, List.range_succ, List.map_append, List.map_singleton, List.dropLast_concat]
  rfl

/-- The front moves to the next cell. -/
theorem tail_contents :
    (contents cells front (num + 1)).tail = contents cells ((front + 1) % cells.length) num := by
  rw [contents, List.range_succ_eq_map, List.map_cons, List.tail_cons, List.map_map]
  apply List.map_congr_left
  intro i _
  simp only [Function.comp_apply]
  rw [Nat.mod_add_mod, Nat.add_assoc, Nat.add_comm 1 i]

/-- Elements that lie at the beginning. -/
theorem contents_append (l rest : List α) : contents (l ++ rest) 0 l.length = l := by
  rw [contents_eq_take (by simp), List.rotate_zero, List.take_left]

omit [Inhabited α] in
/-- One turn of a loop that copies `l` over the beginning of `m`. -/
theorem copy_succ {l m : List α} {i : ℕ} (hl : i < l.length) (hm : i < m.length) :
    (l.take i ++ m.drop i).set i l[i] = l.take (i + 1) ++ m.drop (i + 1) := by
  have hlength : (l.take i).length = i := List.length_take_of_le hl.le
  rw [List.set_append_right i _ hlength.le, hlength, Nat.sub_self, List.drop_eq_getElem_cons hm,
    List.set_cons_zero, List.take_add_one, List.getElem?_eq_getElem hl, List.append_assoc]
  rfl

end RingBuffer
