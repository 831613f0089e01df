import Mathlib.Data.List.Basic
import Mathlib.Data.List.ModifyLast

/-!
# Buffers that forget

A buffer with room for a fixed number of elements.  Pushed to when it is full, it drops the one at
its front.
-/

namespace OldPart

/-- `boost::circular_buffer`. -/
structure Ring (α : Type*) where
  capacity : ℕ
  elems : List α
  length_le : elems.length ≤ capacity

namespace Ring

variable {α : Type*}

/-- A buffer that holds nothing. -/
def empty (capacity : ℕ) : Ring α := ⟨capacity, [], Nat.zero_le _⟩

/-- `push_back`. -/
def pushBack (r : Ring α) (a : α) : Ring α where
  capacity := r.capacity
  elems := (r.elems ++ [a]).drop (r.elems.length + 1 - r.capacity)
  length_le := by
    rw [List.length_drop, List.length_append, List.length_singleton]
    omega

/-- A change of `back()`. -/
def modifyBack (f : α → α) (r : Ring α) : Ring α where
  capacity := r.capacity
  elems := r.elems.modifyLast f
  length_le := by
    have hle := r.length_le
    rcases List.eq_nil_or_concat r.elems with h | ⟨front, a, h⟩
    · rw [h]
      exact Nat.zero_le _
    · rw [h, List.concat_eq_append, List.length_append] at hle
      rwa [h, List.concat_eq_append, List.modifyLast_concat, List.length_append]

/-- `pop_front`. -/
def popFront (r : Ring α) : Ring α where
  capacity := r.capacity
  elems := r.elems.tail
  length_le := by
    rw [List.length_tail]
    exact Nat.le_trans (Nat.sub_le _ _) r.length_le

/-- `pop_front` until `empty()`. -/
def popAll (r : Ring α) : Ring α := empty r.capacity

@[simp] lemma capacity_modifyBack (f : α → α) (r : Ring α) :
    (r.modifyBack f).capacity = r.capacity := rfl

@[simp] lemma capacity_popFront (r : Ring α) : r.popFront.capacity = r.capacity := rfl

@[simp] lemma capacity_popAll (r : Ring α) : r.popAll.capacity = r.capacity := rfl

@[simp] lemma elems_popFront (r : Ring α) : r.popFront.elems = r.elems.tail := rfl

/-- A push keeps what there is room for besides the new element. -/
lemma elems_pushBack (r : Ring α) (a : α) (hpos : 0 < r.capacity) :
    (r.pushBack a).elems = r.elems.drop (r.elems.length + 1 - r.capacity) ++ [a] := by
  have hle := r.length_le
  exact List.drop_append_of_le_length (by omega)

lemma elems_pushBack_of_nil {r : Ring α} (h : r.elems = []) (a : α) (hpos : 0 < r.capacity) :
    (r.pushBack a).elems = [a] := by
  rw [elems_pushBack r a hpos, h, List.drop_nil, List.nil_append]

lemma elems_modifyBack {f : α → α} {r : Ring α} {front : List α} {a : α}
    (h : r.elems = front ++ [a]) : (r.modifyBack f).elems = front ++ [f a] :=
  (congrArg (List.modifyLast f) h).trans (List.modifyLast_concat f a front)

end Ring

end OldPart
