import Mathlib.Data.List.Basic
import Mathlib.Data.Nat.ModEq

/-!
# Queues in a fixed number of slots

A queue is everything that has been pushed and the number of elements that have been taken from it.
The element at position `i` is kept in slot `i % n` of `n`, and stays there as long as it is unread
when no more than `n` elements are.
-/

namespace OldPart

/-- An unbounded queue: what has been pushed, in order, and how much of it has been taken. -/
structure Fifo (α : Type*) where
  pushed : List α
  taken : ℕ
deriving DecidableEq, Repr

namespace Fifo

variable {α : Type*}

/-- A queue nothing has been pushed to. -/
def empty : Fifo α := ⟨[], 0⟩

/-- What has not been taken. -/
def unread (q : Fifo α) : List α := q.pushed.drop q.taken

/-- More is pushed. -/
def push (q : Fifo α) (xs : List α) : Fifo α := { q with pushed := q.pushed ++ xs }

/-- More is taken. -/
def take (q : Fifo α) (k : ℕ) : Fifo α := { q with taken := q.taken + k }

@[simp] lemma pushed_push (q : Fifo α) (xs : List α) : (q.push xs).pushed = q.pushed ++ xs := rfl

@[simp] lemma taken_push (q : Fifo α) (xs : List α) : (q.push xs).taken = q.taken := rfl

@[simp] lemma pushed_take (q : Fifo α) (k : ℕ) : (q.take k).pushed = q.pushed := rfl

@[simp] lemma taken_take (q : Fifo α) (k : ℕ) : (q.take k).taken = q.taken + k := rfl

lemma push_nil (q : Fifo α) : q.push [] = q := by
  rw [push, List.append_nil]

lemma push_push (q : Fifo α) (xs ys : List α) : (q.push xs).push ys = q.push (xs ++ ys) := by
  rw [push, push, push, List.append_assoc]

lemma length_unread (q : Fifo α) : q.unread.length = q.pushed.length - q.taken := List.length_drop

/-- What is pushed comes behind what is unread. -/
lemma unread_push {q : Fifo α} (hle : q.taken ≤ q.pushed.length) (xs : List α) :
    (q.push xs).unread = q.unread ++ xs :=
  List.drop_append_of_le_length hle

lemma getElem?_unread (q : Fifo α) (k : ℕ) : q.unread[k]? = q.pushed[q.taken + k]? :=
  List.getElem?_drop

/-- The slots hold what is unread, each element at its position. -/
structure HeldIn (q : Fifo α) (slots : List α) : Prop where
  taken_le : q.taken ≤ q.pushed.length
  fits : q.pushed.length ≤ q.taken + slots.length
  slot : ∀ i, q.taken ≤ i → i < q.pushed.length → slots[i % slots.length]? = q.pushed[i]?

lemma heldIn_empty (slots : List α) : (empty : Fifo α).HeldIn slots where
  taken_le := Nat.le_refl _
  fits := Nat.zero_le _
  slot i _ hi := absurd hi (Nat.not_lt_zero i)

namespace HeldIn

variable {q : Fifo α} {slots : List α}

lemma length_unread_le (h : q.HeldIn slots) : q.unread.length ≤ slots.length := by
  have hfits := h.fits
  rw [length_unread]
  omega

lemma length_pushed (h : q.HeldIn slots) : q.pushed.length = q.taken + q.unread.length := by
  have hle := h.taken_le
  rw [length_unread]
  omega

/-- What is taken is not needed any more. -/
lemma take (h : q.HeldIn slots) {k : ℕ} (hk : k ≤ q.unread.length) : (q.take k).HeldIn slots where
  taken_le := by
    have hlength := h.length_pushed
    rw [taken_take, pushed_take]
    omega
  fits := by
    have hfits := h.fits
    rw [taken_take, pushed_take]
    omega
  slot i hlo hi := by
    rw [taken_take] at hlo
    exact h.slot i (by omega) hi

/-- While there is room, what is pushed goes to a slot that is not in use. -/
lemma push (h : q.HeldIn slots) (hroom : q.unread.length < slots.length) (x : α) :
    (q.push [x]).HeldIn (slots.set (q.pushed.length % slots.length) x) where
  taken_le := by
    have hle := h.taken_le
    rw [taken_push, pushed_push, List.length_append]
    omega
  fits := by
    have hlength := h.length_pushed
    rw [taken_push, pushed_push, List.length_append, List.length_set, List.length_singleton]
    omega
  slot i hlo hi := by
    have hlength := h.length_pushed
    rw [taken_push] at hlo
    rw [pushed_push, List.length_append, List.length_singleton] at hi
    rw [pushed_push, List.length_set]
    obtain hold | hnew := Nat.lt_or_ge i q.pushed.length
    · -- two positions less than the number of slots apart do not share a slot
      have hne : q.pushed.length % slots.length ≠ i % slots.length := by
        intro hsame
        have hdvd := (Nat.modEq_iff_dvd' hold.le).mp hsame.symm
        have hle := Nat.le_of_dvd (by omega) hdvd
        omega
      rw [List.getElem?_set_ne hne, h.slot i hlo hold, List.getElem?_append_left hold]
    · obtain rfl : i = q.pushed.length := by omega
      have hlt : q.pushed.length % slots.length < slots.length := Nat.mod_lt _ (by omega)
      rw [List.getElem?_set_self hlt, List.getElem?_append_right (Nat.le_refl _), Nat.sub_self]
      rfl

/-- An unread element is where its position says. -/
lemma getElem?_unread (h : q.HeldIn slots) {k : ℕ} (hk : k < q.unread.length) :
    slots[(q.taken + k) % slots.length]? = some q.unread[k] := by
  have hlength := h.length_pushed
  rw [h.slot (q.taken + k) (Nat.le_add_right _ _) (by omega), ← Fifo.getElem?_unread,
    List.getElem?_eq_getElem hk]

end HeldIn

end Fifo

end OldPart
