import Mathlib.Data.List.Basic

/-!
# What an exception leaves behind

Statements that change a value and may throw.  What they have changed until then stays.
-/

namespace OldPart

/-- The value statements leave behind, and what they have thrown. -/
structure Attempt (ε α : Type*) where
  left : α
  thrown : Option ε

namespace Attempt

variable {ε ε' α β ι : Type*}

/-- Statements that have not thrown. -/
def done (a : α) : Attempt ε α := ⟨a, none⟩

/-- One statement behind the other. -/
def andThen (x : Attempt ε α) (f : α → Attempt ε α) : Attempt ε α :=
  match x.thrown with
  | some _ => x
  | none => f x.left

/-- `push_back` of what a call returns. -/
def push (x : Except ε β) (xs : List β) : Attempt ε (List β) :=
  match x with
  | .error e => ⟨xs, some e⟩
  | .ok b => done (xs ++ [b])

/-- A loop over some items. -/
def forEach (body : ι → α → Attempt ε α) : List ι → α → Attempt ε α
  | [], a => done a
  | i :: is, a => (body i a).andThen (forEach body is)

/-- Another type of errors. -/
def mapThrown (f : ε → ε') (x : Attempt ε α) : Attempt ε' α := ⟨x.left, x.thrown.map f⟩

@[simp] lemma andThen_done (a : α) (f : α → Attempt ε α) : (done a).andThen f = f a := rfl

@[simp] lemma andThen_thrown (a : α) (e : ε) (f : α → Attempt ε α) :
    andThen ⟨a, some e⟩ f = ⟨a, some e⟩ := rfl

@[simp] lemma thrown_mapThrown (f : ε → ε') (x : Attempt ε α) :
    (x.mapThrown f).thrown = x.thrown.map f := rfl

/-- A statement that changes nothing. -/
lemma left_andThen_of_keeps (x : Attempt ε α) (thrown : Option ε) :
    (x.andThen fun a => ⟨a, thrown⟩).left = x.left := by
  unfold andThen
  split <;> rfl

/-- A loop that adds something for each item. -/
lemma forEach_of_done {body : ι → List α → Attempt ε (List α)} {f : ι → α}
    (h : ∀ i as, body i as = done (as ++ [f i])) (is : List ι) (as : List α) :
    forEach body is as = done (as ++ is.map f) := by
  induction is generalizing as with
  | nil => rw [forEach, List.map_nil, List.append_nil]
  | cons i is ih => rw [forEach, h, andThen_done, ih, List.append_assoc, List.map_cons]; rfl

/-- A loop that ends with the first item. -/
lemma left_forEach_of_thrown {body : ι → List α → Attempt ε (List α)} {f : ι → α} {e : ε}
    (h : ∀ i as, body i as = ⟨as ++ [f i], some e⟩) (is : List ι) (as : List α) :
    (forEach body is as).left = as ++ (is.take 1).map f := by
  cases is with
  | nil => exact (List.append_nil as).symm
  | cons i is => rw [forEach, h, andThen_thrown]; rfl

/-- A loop of calls that return. -/
lemma forEach_push_of_ok {f : ι → Except ε β} {is : List ι} (h : ∀ i ∈ is, ∃ b, f i = .ok b)
    (bs : List β) :
    ∃ new, forEach (fun i => push (f i)) is bs = done (bs ++ new) ∧
      List.Forall₂ (fun i b => f i = .ok b) is new := by
  induction is generalizing bs with
  | nil => exact ⟨[], by rw [List.append_nil]; rfl, List.Forall₂.nil⟩
  | cons i is ih =>
    obtain ⟨b, hb⟩ := h i List.mem_cons_self
    obtain ⟨new, hrest, hnew⟩ := ih (fun i' hi' => h i' (List.mem_cons_of_mem _ hi')) (bs ++ [b])
    refine ⟨b :: new, ?_, List.Forall₂.cons hb hnew⟩
    have hpush : push (f i) bs = done (bs ++ [b]) := by rw [hb]; rfl
    simp only [forEach, hpush, andThen_done, hrest, List.append_assoc]
    rfl

/-- A loop with a call that throws. -/
lemma forEach_push_of_error {f : ι → Except ε β} {is : List ι} {i : ι} (hi : i ∈ is) {e : ε}
    (he : f i = .error e) (bs : List β) :
    ∃ e', (forEach (fun i => push (f i)) is bs).thrown = some e' := by
  induction is generalizing bs with
  | nil => cases hi
  | cons i' is ih =>
    cases hfirst : f i' with
    | error e' =>
      have hpush : push (f i') bs = ⟨bs, some e'⟩ := by rw [hfirst]; rfl
      simp only [forEach, hpush, andThen_thrown]
      exact ⟨e', rfl⟩
    | ok b =>
      have hpush : push (f i') bs = done (bs ++ [b]) := by rw [hfirst]; rfl
      obtain rfl | hi := List.mem_cons.mp hi
      · rw [hfirst] at he
        cases he
      · simp only [forEach, hpush, andThen_done]
        exact ih hi (bs ++ [b])

/-- What such a loop has added is what its calls have returned. -/
lemma mem_left_forEach_push {f : ι → Except ε β} {is : List ι} {bs : List β} {b : β}
    (hb : b ∈ (forEach (fun i => push (f i)) is bs).left) :
    b ∈ bs ∨ ∃ i ∈ is, f i = .ok b := by
  induction is generalizing bs with
  | nil => exact Or.inl hb
  | cons i is ih =>
    cases hfirst : f i with
    | error e =>
      have hpush : push (f i) bs = ⟨bs, some e⟩ := by rw [hfirst]; rfl
      rw [forEach, hpush, andThen_thrown] at hb
      exact Or.inl hb
    | ok a =>
      have hpush : push (f i) bs = done (bs ++ [a]) := by rw [hfirst]; rfl
      rw [forEach, hpush, andThen_done] at hb
      rcases ih hb with hmem | ⟨j, hj, hfj⟩
      · rw [List.mem_append, List.mem_singleton] at hmem
        rcases hmem with hmem | rfl
        · exact Or.inl hmem
        · exact Or.inr ⟨i, List.mem_cons_self, hfirst⟩
      · exact Or.inr ⟨j, List.mem_cons_of_mem i hj, hfj⟩

end Attempt

end OldPart
