import OldPart.Lib.MachineInt
import OldPart.Lib.Cuts
import Mathlib.Data.Vector.Basic
import Mathlib.Algebra.BigOperators.Group.List.Basic

/-!
# Proto schemas, their values and the flat encoding

A proto is a class with a `PROTO_FIELDS` list.  Its field types are the ones
`OProtoSerializeHelper` has a specialisation for: POD types, `std::string`, `std::vector` of
a field type, and nested protos.

`Schema.flat` is the encoding all the modules on reading and writing are measured against:
POD bytes as they lie in memory, `int32_t` length prefixes, string contents, elements and
fields one after the other.  It knows nothing of buffers.  `Schema.podSpans` says where in
it the blocks lie that the code copies in one piece, POD fields and length prefixes.
-/

namespace OldPart

/-- `sizeof` of a POD type.  The code keeps it in an `int32_t`. -/
abbrev PodSize := {n : ℕ // 0 < n ∧ n < 2 ^ 31}

/-- Field types, and lists of them.  `field first rest` is the list that starts with
`first`; a list of one field is that field.  `proto fields` is a nested `OProtoBase` object
whose class has the field list `fields`. -/
inductive Schema where
  | pod (size : PodSize)
  | string
  | vector (elem : Schema)
  | proto (fields : Schema)
  | field (first : Schema) (rest : Schema)

/-- `sizeof(int32_t)`. -/
def int32Size : PodSize := ⟨4, by decide⟩

namespace Schema

/-- The values of a field type.  A POD is its object representation. -/
@[reducible] def Val : Schema → Type
  | pod size => List.Vector UInt8 size.val
  | string => List UInt8
  | vector elem => List elem.Val
  | proto fields => fields.Val
  | field first rest => first.Val × rest.Val

/-! ## The flat encoding -/

/-- The encoding of a value without any buffers. -/
def flat : (s : Schema) → s.Val → List UInt8
  | pod _, v => v.toList
  | string, v => le32 v.length ++ v
  | vector elem, v => le32 v.length ++ v.flatMap (flat elem)
  | proto fields, v => flat fields v
  | field first rest, v => flat first v.1 ++ flat rest v.2

/-- The lengths of the strings and the vectors of a value fit in `int32_t`. -/
def Fits : (s : Schema) → s.Val → Prop
  | pod _, _ => True
  | string, v => v.length < 2 ^ 31
  | vector elem, v => v.length < 2 ^ 31 ∧ ∀ x ∈ v, Fits elem x
  | proto fields, v => Fits fields v
  | field first rest, v => Fits first v.1 ∧ Fits rest v.2

instance decidableFits : (s : Schema) → (v : s.Val) → Decidable (Fits s v)
  | pod _, _ => isTrue trivial
  | string, v => inferInstanceAs (Decidable (List.length v < 2 ^ 31))
  | vector elem, v =>
      haveI : DecidablePred (Fits elem) := decidableFits elem
      inferInstanceAs (Decidable (List.length v < 2 ^ 31 ∧ ∀ x ∈ (v : List elem.Val), Fits elem x))
  | proto fields, v => decidableFits fields v
  | field first rest, v =>
      haveI := decidableFits first v.1
      haveI := decidableFits rest v.2
      inferInstanceAs (Decidable (Fits first v.1 ∧ Fits rest v.2))

/-- The largest block that is copied in one piece: POD fields, and the `int32_t` in front of
strings and vectors. -/
def largestPod : Schema → ℕ
  | pod size => size.val
  | string => int32Size.val
  | vector elem => max int32Size.val elem.largestPod
  | proto fields => fields.largestPod
  | field first rest => max first.largestPod rest.largestPod

/-- The spans of the elements of a list, one after the other from `p` on. -/
def itemSpans {α : Type} (len : α → ℕ) (spans : ℕ → α → List Span) : ℕ → List α → List Span
  | _, [] => []
  | p, x :: xs => spans p x ++ itemSpans len spans (p + len x) xs

/-- Where the blocks that are copied in one piece lie in the flat encoding, when that starts
at position `p`. -/
def podSpans : (s : Schema) → ℕ → s.Val → List Span
  | pod size, p, _ => [⟨p, size.val⟩]
  | string, p, _ => [⟨p, int32Size.val⟩]
  | vector elem, p, v =>
      ⟨p, int32Size.val⟩ ::
        itemSpans (fun x => (flat elem x).length) (podSpans elem) (p + int32Size.val) v
  | proto fields, p, v => podSpans fields p v
  | field first rest, p, v =>
      podSpans first p v.1 ++ podSpans rest (p + (flat first v.1).length) v.2

@[simp] lemma flat_pod (size : PodSize) (v : (pod size).Val) :
    flat (pod size) v = List.Vector.toList v := rfl

@[simp] lemma flat_string (v : List UInt8) : flat string v = le32 v.length ++ v := rfl

@[simp] lemma flat_vector (elem : Schema) (v : List elem.Val) :
    flat (vector elem) v = le32 v.length ++ v.flatMap (flat elem) := rfl

@[simp] lemma flat_proto (fields : Schema) (v : fields.Val) :
    flat (proto fields) v = flat fields v := rfl

@[simp] lemma flat_field (first rest : Schema) (v : first.Val × rest.Val) :
    flat (field first rest) v = flat first v.1 ++ flat rest v.2 := rfl

/-- Every field type has something to copy in one piece. -/
lemma largestPod_pos (s : Schema) : 0 < s.largestPod := by
  induction s with
  | pod size => exact size.property.1
  | string => decide
  | vector elem ih => exact lt_max_of_lt_right ih
  | proto fields ih => exact ih
  | field first rest ih _ => exact lt_max_of_lt_left ih

/-- No encoding is empty: every field type starts with a POD or a length prefix. -/
lemma flat_length_pos (s : Schema) (v : s.Val) : 0 < (flat s v).length := by
  induction s with
  | pod size =>
    rw [flat_pod, List.Vector.toList_length]
    exact size.property.1
  | string => simp [flat]
  | vector elem ih => simp [flat]
  | proto fields ih => exact ih v
  | field first rest ih _ =>
    have := ih v.1
    simp only [flat_field, List.length_append]
    omega

lemma flat_ne_nil (s : Schema) (v : s.Val) : flat s v ≠ [] :=
  List.ne_nil_of_length_pos (flat_length_pos s v)

/-! ## Where the spans lie -/

lemma itemSpans_bounds {α : Type} {len : α → ℕ} {spans : ℕ → α → List Span}
    (h : ∀ p x, ∀ q ∈ spans p x, p ≤ q.start ∧ q.stop ≤ p + len x) (p : ℕ) (xs : List α) :
    ∀ q ∈ itemSpans len spans p xs, p ≤ q.start ∧ q.stop ≤ p + (xs.map len).sum := by
  induction xs generalizing p with
  | nil => simp [itemSpans]
  | cons x xs ih =>
    intro q hq
    simp only [List.map_cons, List.sum_cons]
    rcases List.mem_append.mp hq with hq | hq
    · have := h p x q hq
      omega
    · have := ih (p + len x) q hq
      omega

/-- The spans of a value lie inside its encoding. -/
lemma podSpans_bounds (s : Schema) (p : ℕ) (v : s.Val) :
    ∀ q ∈ podSpans s p v, p ≤ q.start ∧ q.stop ≤ p + (flat s v).length := by
  induction s generalizing p with
  | pod size =>
    intro q hq
    obtain rfl := List.mem_singleton.mp hq
    simp [Span.stop]
  | string =>
    intro q hq
    obtain rfl := List.mem_singleton.mp hq
    simp only [Span.stop, int32Size, flat, List.length_append, length_le32]
    omega
  | vector elem ih =>
    intro q hq
    simp only [flat, List.length_append, length_le32, List.length_flatMap]
    rcases List.mem_cons.mp hq with rfl | hq
    · simp only [Span.stop, int32Size]
      omega
    · have := itemSpans_bounds (fun p x => ih p x) (p + int32Size.val) v q hq
      simp only [int32Size] at this
      omega
  | proto fields ih => exact ih p v
  | field first rest ih₁ ih₂ =>
    intro q hq
    simp only [flat_field, List.length_append]
    rcases List.mem_append.mp hq with hq | hq
    · have := ih₁ p v.1 q hq
      omega
    · have := ih₂ _ v.2 q hq
      omega

lemma le_start_of_mem_podSpans {s : Schema} {p : ℕ} {v : s.Val} :
    ∀ q ∈ podSpans s p v, p ≤ q.start :=
  fun q hq => (podSpans_bounds s p v q hq).1

lemma stop_le_of_mem_podSpans {s : Schema} {p : ℕ} {v : s.Val} :
    ∀ q ∈ podSpans s p v, q.stop ≤ p + (flat s v).length :=
  fun q hq => (podSpans_bounds s p v q hq).2

/-! ## Objects before they are read into -/

/-- The value-initialised object, as `std::vector::resize` appends it. -/
def zero : (s : Schema) → s.Val
  | pod size => List.Vector.replicate size.val 0
  | string => ([] : List UInt8)
  | vector elem => ([] : List elem.Val)
  | proto fields => zero fields
  | field first rest => (zero first, zero rest)

/-- A freshly created object: its strings and vectors are empty, its PODs hold anything. -/
def Fresh : (s : Schema) → s.Val → Prop
  | pod _, _ => True
  | string, v => v = ([] : List UInt8)
  | vector elem, v => v = ([] : List elem.Val)
  | proto fields, v => Fresh fields v
  | field first rest, v => Fresh first v.1 ∧ Fresh rest v.2

lemma fresh_zero (s : Schema) : Fresh s (zero s) := by
  induction s with
  | pod size => trivial
  | string => rfl
  | vector elem _ => rfl
  | proto fields ih => exact ih
  | field first rest ih₁ ih₂ => exact ⟨ih₁, ih₂⟩

/-- `std::vector::resize`: old elements stay, missing ones are value-initialised. -/
def resize {α : Type} (zero : α) (size : ℕ) (v : List α) : List α :=
  v.take size ++ List.replicate (size - v.length) zero

@[simp] lemma length_resize {α : Type} (zero : α) (size : ℕ) (v : List α) :
    (resize zero size v).length = size := by
  simp only [resize, List.length_append, List.length_take, List.length_replicate]
  omega

@[simp] lemma resize_nil {α : Type} (zero : α) (size : ℕ) :
    resize zero size [] = List.replicate size zero := by
  simp [resize]

/-- What is left in an object that held `old` when the value `v` is read into it: strings
are appended to, vector elements are read over the ones `resize` leaves. -/
def overlay : (s : Schema) → s.Val → s.Val → s.Val
  | pod _, _, v => v
  | string, old, v => old ++ v
  | vector elem, old, v =>
      List.zipWith (overlay elem) (resize elem.zero v.length old) v
  | proto fields, old, v => overlay fields old v
  | field first rest, old, v => (overlay first old.1 v.1, overlay rest old.2 v.2)

lemma zipWith_replicate_left {α β γ : Type*} (f : α → β → γ) (a : α) (l : List β) :
    List.zipWith f (List.replicate l.length a) l = l.map (f a) := by
  induction l with
  | nil => rfl
  | cons b l ih => simp [List.replicate_succ, ih]

/-- Into a fresh object, reading leaves exactly the value read. -/
lemma overlay_of_fresh {s : Schema} {old : s.Val} (h : Fresh s old) (v : s.Val) :
    overlay s old v = v := by
  induction s with
  | pod size => rfl
  | string =>
    obtain rfl : old = ([] : List UInt8) := h
    rfl
  | vector elem ih =>
    obtain rfl : old = ([] : List elem.Val) := h
    have hzero : ∀ x, overlay elem elem.zero x = x := ih (fresh_zero elem)
    calc overlay (vector elem) ([] : List elem.Val) v
        = List.zipWith (overlay elem) (List.replicate (List.length v) elem.zero) v := by
          simp only [overlay, resize_nil]
      _ = List.map (overlay elem elem.zero) v := zipWith_replicate_left _ _ _
      _ = v := by rw [funext hzero]; exact List.map_id' _
  | proto fields ih => exact ih h v
  | field first rest ih₁ ih₂ =>
    exact Prod.ext (ih₁ h.1 v.1) (ih₂ h.2 v.2)

/-- The strings of the old object that a value is read over are empty. -/
def NoResidue : (s : Schema) → s.Val → s.Val → Prop
  | pod _, _, _ => True
  | string, old, _ => old = ([] : List UInt8)
  | vector elem, old, v => ∀ xy ∈ List.zip (α := elem.Val) (β := elem.Val) old v,
      NoResidue elem xy.1 xy.2
  | proto fields, old, v => NoResidue fields old v
  | field first rest, old, v => NoResidue first old.1 v.1 ∧ NoResidue rest old.2 v.2

lemma zipWith_resize_eq_iff {α : Type} {f : α → α → α} {P : α → α → Prop} {zero : α}
    (hzero : ∀ y, f zero y = y) (hf : ∀ x y, f x y = y ↔ P x y) (old v : List α) :
    List.zipWith f (resize zero v.length old) v = v ↔ ∀ xy ∈ List.zip old v, P xy.1 xy.2 := by
  induction v generalizing old with
  | nil => simp
  | cons y ys ih =>
    cases old with
    | nil =>
      rw [resize_nil, zipWith_replicate_left, funext hzero, List.map_id']
      exact iff_of_true rfl (by simp)
    | cons x xs =>
      have hresize : resize zero (y :: ys).length (x :: xs) = x :: resize zero ys.length xs := by
        simp [resize]
      rw [hresize, List.zipWith_cons_cons, List.cons.injEq, hf, ih, List.zip_cons_cons,
        List.forall_mem_cons]

/-- Reading leaves exactly the value read when, and only when, no string has anything left of
what was there. -/
lemma overlay_eq_iff (s : Schema) (old v : s.Val) : overlay s old v = v ↔ NoResidue s old v := by
  induction s with
  | pod size => exact iff_of_true rfl trivial
  | string => exact List.append_left_eq_self
  | vector elem ih =>
    exact zipWith_resize_eq_iff (overlay_of_fresh (fresh_zero elem)) ih old v
  | proto fields ih => exact ih old v
  | field first rest ih₁ ih₂ =>
    rw [NoResidue, ← ih₁, ← ih₂]
    exact Prod.ext_iff

end Schema

end OldPart
