import Mathlib.Data.List.Basic

/-!
# Messages in parts, and one slot to put them together in

Messages are sent in parts over one line.  The receiver has a single slot: a first part empties
it, every part is put into it, and a last part takes everything out.  The parts carry the label
of their message for us to see; the receiver does not see it.  `Orderly` says that the messages
stay together and the slot never mixes them, and `Orderly.concat` what it takes of one more part
to keep it so.
-/

namespace OldPart

variable {α : Type*}

/-! ## Labels that stand together -/

/-- Between two places with the same label there is no other label. -/
def Consecutive (ls : List α) : Prop :=
  ∀ i j k, i < j → j < k → k < ls.length → ls[i]? = ls[k]? → ls[j]? = ls[i]?

lemma consecutive_nil : Consecutive ([] : List α) := by
  intro i j k _ _ hk
  exact absurd hk (Nat.not_lt_zero k)

/-- A label comes behind itself, or for the first time. -/
lemma Consecutive.concat {ls : List α} {l : α} (h : Consecutive ls)
    (hl : ls.getLast? = some l ∨ l ∉ ls) : Consecutive (ls ++ [l]) := by
  intro i j k hij hjk hk heq
  rw [List.length_append, List.length_singleton] at hk
  rw [List.getElem?_append_left (by omega)] at heq
  rw [List.getElem?_append_left (by omega), List.getElem?_append_left (by omega)]
  rcases Nat.lt_or_ge k ls.length with hlt | hge
  · rw [List.getElem?_append_left hlt] at heq
    exact h i j k hij hjk hlt heq
  · obtain rfl : k = ls.length := by omega
    rw [List.getElem?_concat_length] at heq
    rcases hl with hlast | hnew
    · rw [List.getLast?_eq_getElem?] at hlast
      rcases Nat.lt_or_ge j (ls.length - 1) with hlt | hge
      · exact h i j (ls.length - 1) hij hlt (by omega) (heq.trans hlast.symm)
      · obtain rfl : j = ls.length - 1 := by omega
        exact hlast.trans heq.symm
    · exact (hnew (List.mem_of_getElem? heq)).elim

lemma Consecutive.of_isPrefix {ls ls' : List α} (h : Consecutive ls) (hbegins : ls' <+: ls) :
    Consecutive ls' := by
  obtain ⟨more, rfl⟩ := hbegins
  intro i j k hij hjk hk heq
  have hbefore := h i j k hij hjk (by rw [List.length_append]; omega)
  rw [List.getElem?_append_left (by omega), List.getElem?_append_left hk,
    List.getElem?_append_left (by omega)] at hbefore
  exact hbefore heq

/-! ## The slot -/

/-- A part of a message.  Parts that are not `taken` do not get to the slot. -/
structure Part (α : Type*) where
  label : α
  taken : Bool
  first : Bool
  last : Bool

/-- The labels of the parts in the slot, when one more part arrives. -/
def nextSlot (ls : List α) (p : Part α) : List α :=
  if p.taken then if p.last then [] else (if p.first then [] else ls) ++ [p.label] else ls

/-- The labels of the parts in the slot. -/
def slot (ps : List (Part α)) : List α := ps.foldl nextSlot []

@[simp] lemma slot_concat (ps : List (Part α)) (p : Part α) :
    slot (ps ++ [p]) = nextSlot (slot ps) p := by
  simp [slot]

/-- A part that is put to others belongs to them. -/
def Unmixed (ps : List (Part α)) : Prop :=
  ∀ pre p post, ps = pre ++ p :: post → p.taken = true → p.first = false →
    ∀ l ∈ slot pre, l = p.label

lemma unmixed_nil : Unmixed ([] : List (Part α)) := by
  intro pre p post h
  simp at h

lemma Unmixed.concat {ps : List (Part α)} {p : Part α} (h : Unmixed ps)
    (hp : p.taken = true → p.first = false → ∀ l ∈ slot ps, l = p.label) :
    Unmixed (ps ++ [p]) := by
  intro pre q post hps htaken hfirst
  rcases List.eq_nil_or_concat post with rfl | ⟨post', r, rfl⟩
  · obtain ⟨rfl, hlast⟩ := List.append_inj' hps rfl
    obtain rfl := List.singleton_injective hlast
    exact hp htaken hfirst
  · rw [List.concat_eq_append, ← List.cons_append, ← List.append_assoc] at hps
    obtain ⟨rfl, -⟩ := List.append_inj' hps rfl
    exact h pre q post' rfl htaken hfirst

lemma Unmixed.of_isPrefix {ps ps' : List (Part α)} (h : Unmixed ps) (hbegins : ps' <+: ps) :
    Unmixed ps' := by
  obtain ⟨more, rfl⟩ := hbegins
  rintro pre p post rfl
  exact h pre p (post ++ more) (by simp)

/-! ## Orderly lines -/

/-- The part that got to the slot last, if any, was a last part. -/
def Closed (ps : List (Part α)) : Prop :=
  ∀ q ∈ (ps.filter Part.taken).getLast?, q.last = true

instance (ps : List (Part α)) : Decidable (Closed ps) :=
  inferInstanceAs (Decidable (∀ q ∈ (ps.filter Part.taken).getLast?, q.last = true))

/-- The messages stay together, the slot does not mix them, and what is in it belongs to the
message of the last part.  Messages that are not `left` to the slot do not count here. -/
structure Orderly (left : α → Prop) (ps : List (Part α)) : Prop where
  consecutive : Consecutive (ps.map Part.label)
  unmixed : Unmixed ps
  slot_eq : ∀ z ∈ ps.getLast?, left z.label → ∀ l ∈ slot ps, l = z.label
  slot_closed : Closed ps → slot ps = []

variable {left : α → Prop} {ps : List (Part α)} {p : Part α}

lemma orderly_nil : Orderly left ([] : List (Part α)) :=
  ⟨consecutive_nil, unmixed_nil, by simp, fun _ => rfl⟩

lemma mem_of_mem_nextSlot {ls : List α} {l : α} (h : l ∈ nextSlot ls p) :
    l ∈ ls ∧ ¬(p.taken = true ∧ p.first = true) ∨ l = p.label := by
  unfold nextSlot at h
  split at h
  · next htaken =>
    split at h
    · cases h
    · rcases List.mem_append.mp h with h | h
      · split at h
        · cases h
        · next hfirst => exact Or.inl ⟨h, fun hboth => hfirst hboth.2⟩
      · exact Or.inr (List.mem_singleton.mp h)
  · next htaken => exact Or.inl ⟨h, fun hboth => htaken hboth.1⟩

/-- One more part keeps the line orderly when its label does not come apart, and it is the first
that gets to the slot or what is in the slot belongs to it. -/
lemma Orderly.concat (h : Orderly left ps) (htaken : p.taken = true → left p.label)
    (hlabel : (ps.map Part.label).getLast? = some p.label ∨ p.label ∉ ps.map Part.label)
    (hslot : left p.label → p.taken = true ∧ p.first = true ∨ ∀ l ∈ slot ps, l = p.label) :
    Orderly left (ps ++ [p]) := by
  refine ⟨?_, ?_, ?_, ?_⟩
  · rw [List.map_append, List.map_singleton]
    exact h.consecutive.concat hlabel
  · refine h.unmixed.concat fun htake hfirst => ?_
    refine (hslot (htaken htake)).resolve_left fun hboth => ?_
    rw [hboth.2] at hfirst
    cases hfirst
  · intro z hz hleft l hl
    rw [List.getLast?_append, List.getLast?_singleton] at hz
    obtain rfl : p = z := Option.some.inj hz
    rw [slot_concat] at hl
    rcases mem_of_mem_nextSlot hl with ⟨hmem, hnot⟩ | rfl
    · exact (hslot hleft).resolve_left hnot l hmem
    · rfl
  · intro hclosed
    rw [slot_concat]
    rcases htake : p.taken with _ | _
    · -- the part does not get to the slot, which is as it was
      have hbefore : Closed ps := by
        simpa [Closed, List.filter_append, htake] using hclosed
      simpa [nextSlot, htake] using h.slot_closed hbefore
    · have hlast : p.last = true := hclosed p (by simp [List.filter_append, htake])
      simp [nextSlot, htake, hlast]

/-- A part goes on with the message of the part before it. -/
lemma Orderly.concat_same (h : Orderly left ps) (htaken : p.taken = true → left p.label)
    (hlabel : (ps.map Part.label).getLast? = some p.label) : Orderly left (ps ++ [p]) := by
  refine h.concat htaken (Or.inl hlabel) fun hleft => Or.inr fun l hl => ?_
  rw [List.getLast?_map] at hlabel
  obtain ⟨z, hz, hzp⟩ := Option.map_eq_some_iff.mp hlabel
  rw [← hzp] at hleft ⊢
  exact h.slot_eq z hz hleft l hl

/-- A part begins a message, when it is the first that gets to the slot or nothing is in there. -/
lemma Orderly.concat_new (h : Orderly left ps) (htaken : p.taken = true → left p.label)
    (hlabel : p.label ∉ ps.map Part.label)
    (hopens : left p.label → p.taken = true ∧ p.first = true ∨ Closed ps) :
    Orderly left (ps ++ [p]) := by
  refine h.concat htaken (Or.inr hlabel) fun hleft => ?_
  refine (hopens hleft).imp_right fun hclosed l hl => ?_
  rw [h.slot_closed hclosed] at hl
  cases hl

end OldPart
