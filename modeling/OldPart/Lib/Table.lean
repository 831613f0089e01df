import Mathlib.Data.List.Basic

/-!
# Tables that keep what they hold

A table has at most one value for a key, and inserting a pair whose key is there already
changes nothing.  So a table holds, for each key, what was inserted for it first.
-/

namespace OldPart

/-- At most one value for each key. -/
abbrev Table (κ ν : Type*) := κ → Option ν

namespace Table

variable {κ ν : Type*}

/-- No key has a value. -/
def empty : Table κ ν := fun _ => none

variable [DecidableEq κ]

/-- Whether a pair is inserted, and the table then. -/
def insert (t : Table κ ν) (k : κ) (v : ν) : Bool × Table κ ν :=
  match t k with
  | some _ => (false, t)
  | none => (true, fun k' => if k' = k then some v else t k')

/-- The table after some insertions. -/
def insertAll (t : Table κ ν) : List (κ × ν) → Table κ ν
  | [] => t
  | (k, v) :: xs => (t.insert k v).2.insertAll xs

variable {t : Table κ ν} {k : κ} {v : ν} {xs : List (κ × ν)}

lemma insert_fst : (t.insert k v).1 = (t k).isNone := by
  unfold insert
  cases t k <;> rfl

lemma insert_snd (k' : κ) :
    (t.insert k v).2 k' = (t k').or (if k' = k then some v else none) := by
  unfold insert
  by_cases hk : k' = k
  · subst hk
    cases h : t k' <;> simp [h]
  · cases t k <;> simp [hk]

/-- A table holds what it held before, and else what comes first. -/
lemma insertAll_apply (k' : κ) : t.insertAll xs k' = (t k').or (xs.lookup k') := by
  induction xs generalizing t with
  | nil => simp [insertAll]
  | cons x xs ih =>
    obtain ⟨k, v⟩ := x
    rw [insertAll, ih, insert_snd, Option.or_assoc, List.lookup_cons]
    by_cases hk : k' = k
    · simp [hk]
    · rw [if_neg hk, Option.none_or, beq_eq_false_iff_ne.mpr hk]

lemma insertAll_empty_apply (k' : κ) : (empty : Table κ ν).insertAll xs k' = xs.lookup k' := by
  rw [insertAll_apply]
  rfl

end Table

/-- The first entry for a key, when entries are looked for by what they are filed under. -/
lemma lookup_map {ι κ ν : Type*} [DecidableEq κ] (key : ι → κ) (value : ι → ν) (k : κ)
    (xs : List ι) : (xs.map fun x => (key x, value x)).lookup k =
      (xs.find? fun x => key x = k).map value := by
  induction xs with
  | nil => rfl
  | cons x xs ih =>
    rw [List.map_cons, List.lookup_cons, List.find?_cons, ih]
    by_cases hk : key x = k
    · simp [hk]
    · rw [beq_eq_false_iff_ne.mpr (Ne.symm hk), decide_eq_false hk]

/-- What is found first stays first when less is looked for. -/
lemma find?_eq_some_of_imp {ι : Type*} {p q : ι → Bool} {xs : List ι} {x : ι}
    (hx : xs.find? p = some x) (hq : q x = true) (himp : ∀ x, q x = true → p x = true) :
    xs.find? q = some x := by
  obtain ⟨-, pre, post, rfl, hpre⟩ := List.find?_eq_some_iff_append.mp hx
  refine List.find?_eq_some_iff_append.mpr ⟨hq, pre, post, rfl, fun y hy => ?_⟩
  have hnot := hpre y hy
  rw [Bool.not_eq_true'] at hnot ⊢
  exact Bool.eq_false_iff.mpr fun hqy => by simp [himp y hqy] at hnot

end OldPart
