import OldPart.Proto.Buffer

/-!
# Offsets in unbounded integers

`EnsureBuffer` adds two `int32_t`.  `Schema.pack` follows the offset of a writer through a
value without doing the writing, in unbounded integers, and has no result when a sum on which
the writing depends would leave `int32_t`.
-/

namespace OldPart

/-- The offset behind a block of `n` bytes that is written at offset `o`, unless the sum of
the two leaves `int32_t`. -/
def packBlock (maxBody n o : ℕ) : Option ℕ :=
  if o + n < 2 ^ 31 then some (if maxBody < o + n then n else o + n) else none

/-- The offset behind `n` bytes that fill one buffer after the other from offset `o` on.  A
full buffer is flushed by asking for one byte more. -/
def packBytes (maxBody n o : ℕ) : Option ℕ :=
  if o + n ≤ maxBody then some (o + n)
  else if maxBody + 1 < 2 ^ 31 then some ((o + n - 1) % maxBody + 1)
  else none

/-- The offset after an `EnsureBuffer` that nothing is written behind.  An overflow does no
harm here. -/
def packRoom (maxBody : ℕ) (eleSize : ℤ) (o : ℕ) : ℕ :=
  if wrap32 (o + eleSize) > maxBody then 0 else o

/-- The offset behind the items of a list. -/
def packItems {α : Type} (pack : α → ℕ → Option ℕ) : List α → ℕ → Option ℕ
  | [], o => some o
  | x :: xs, o => (pack x o).bind (packItems pack xs)

/-- The offset behind a value that is written from offset `o` on, where `0` stands for no
buffer too; `none` when a sum in `EnsureBuffer` that matters leaves `int32_t`. -/
def Schema.pack (env : Env) : (s : Schema) → s.Val → ℕ → Option ℕ
  | pod size, _ => packBlock env.maxBody size.val
  | string, v => fun o =>
      (packBlock env.maxBody int32Size.val o).bind (packBytes env.maxBody (List.length v))
  | vector elem, v => fun o =>
      (packBlock env.maxBody int32Size.val
        (packRoom env.maxBody (wrap32 (env.sizeof elem)) o)).bind (packItems (pack env elem) v)
  | proto fields, v => pack env fields v
  | field first rest, v => fun o => (pack env first v.1 o).bind (pack env rest v.2)

/-- Taking `n` bytes by first filling the buffer there is, or a new one if that is full. -/
lemma packBytes_step {maxBody n o : ℕ} (hpos : 0 < maxBody) (hn : 0 < n) (ho : o ≤ maxBody)
    (hroom : o = maxBody → maxBody + 1 < 2 ^ 31) {start : ℕ}
    (hstart : start = if o = maxBody then 0 else o) {taken : ℕ}
    (htaken : taken = min n (maxBody - start)) :
    packBytes maxBody n o = packBytes maxBody (n - taken) (start + taken) := by
  by_cases hfull : o = maxBody
  · -- one turn of a full buffer is one turn of the modulus
    have hlt := hroom hfull
    rw [if_pos hfull] at hstart
    subst hstart hfull
    have hturn : (o + n - 1) % o = (n - 1) % o := by
      rw [Nat.add_sub_assoc hn, Nat.add_mod_left]
    have hover : ¬o + n ≤ o := by omega
    rw [packBytes, if_neg hover, if_pos hlt, hturn, Nat.sub_zero] at *
    by_cases hfit : n ≤ o
    · have hmod : (n - 1) % o = n - 1 := Nat.mod_eq_of_lt (by omega)
      have htaken' : taken = n := by omega
      have hrest : 0 + n + (n - n) ≤ o := by omega
      rw [htaken', packBytes, if_pos hrest, hmod]
      congr 1
      omega
    · have htaken' : taken = o := by omega
      have hrest : ¬0 + o + (n - o) ≤ o := by omega
      have hsum : 0 + o + (n - o) = n := by omega
      rw [htaken', packBytes, if_neg hrest, if_pos hlt, hsum]
  · rw [if_neg hfull] at hstart
    rw [hstart] at htaken ⊢
    by_cases hfit : o + n ≤ maxBody
    · have htaken' : taken = n := by omega
      simp [packBytes, htaken']
    · have hsum : o + taken + (n - taken) = o + n := by omega
      rw [packBytes, packBytes, hsum]

/-! ## When no sum overflows -/

/-- The offset stays in the buffer, and does not exceed the number of bytes written. -/
def Packs (maxBody len o : ℕ) (packed : Option ℕ) : Prop :=
  ∃ o', packed = some o' ∧ o' ≤ maxBody ∧ o' ≤ o + len

section Packs

variable {maxBody limit n o : ℕ}

/-- A block of at most `limit` bytes behind at most `total` written ones stays in range. -/
def NoOverflow (maxBody limit total : ℕ) : Prop :=
  total < 2 ^ 31 ∨ maxBody + limit < 2 ^ 31

lemma NoOverflow.mono {total total' : ℕ} (h : NoOverflow maxBody limit total)
    (hle : total' ≤ total) : NoOverflow maxBody limit total' :=
  h.imp (fun hlt => lt_of_le_of_lt hle hlt) id

lemma packBlock_packs (ho : o ≤ maxBody) (hlimit : n ≤ limit) (hbody : n ≤ maxBody)
    (h : NoOverflow maxBody limit (o + n)) : Packs maxBody n o (packBlock maxBody n o) := by
  have hlt : o + n < 2 ^ 31 := by
    rcases h with h | h <;> omega
  refine ⟨_, if_pos hlt, ?_, ?_⟩ <;> split <;> omega

lemma packBytes_packs (hbody : 0 < maxBody) (hsize : maxBody < 2 ^ 31) (hlimit : 1 ≤ limit)
    (h : NoOverflow maxBody limit (o + n)) : Packs maxBody n o (packBytes maxBody n o) := by
  by_cases hfit : o + n ≤ maxBody
  · exact ⟨o + n, if_pos hfit, hfit, le_rfl⟩
  · have hlt : maxBody + 1 < 2 ^ 31 := by
      rcases h with h | h <;> omega
    have hmod := Nat.mod_lt (o + n - 1) hbody
    have hle := Nat.mod_le (o + n - 1) maxBody
    refine ⟨(o + n - 1) % maxBody + 1, ?_, by omega, by omega⟩
    rw [packBytes, if_neg hfit, if_pos hlt]

lemma Packs.bind {packed : Option ℕ} {k : ℕ → Option ℕ} {m : ℕ} (h : Packs maxBody n o packed)
    (hk : ∀ o', o' ≤ maxBody → o' ≤ o + n → Packs maxBody m o' (k o')) :
    Packs maxBody (n + m) o (packed.bind k) := by
  obtain ⟨o', rfl, hbody, hle⟩ := h
  obtain ⟨o'', hrun, hbody', hle'⟩ := hk o' hbody hle
  exact ⟨o'', hrun, hbody', by omega⟩

lemma packItems_packs {α : Type} {pack : α → ℕ → Option ℕ} {len : α → ℕ}
    (hpack : ∀ x o, o ≤ maxBody → NoOverflow maxBody limit (o + len x) →
      Packs maxBody (len x) o (pack x o))
    (xs : List α) (ho : o ≤ maxBody) (h : NoOverflow maxBody limit (o + (xs.map len).sum)) :
    Packs maxBody (xs.map len).sum o (packItems pack xs o) := by
  induction xs generalizing o with
  | nil => exact ⟨o, rfl, ho, Nat.le_add_right _ _⟩
  | cons x xs ih =>
    rw [List.map_cons, List.sum_cons] at h ⊢
    refine (hpack x o ho (h.mono (by omega))).bind fun o' hbody hle => ih hbody (h.mono (by omega))

end Packs

namespace Schema

/-- The sums stay in range when the whole encoding is shorter than `2 ^ 31`, and when no
block behind a full buffer could leave the range. -/
lemma pack_packs (env : Env) (s : Schema) (v : s.Val) {o : ℕ} (ho : o ≤ env.maxBody)
    (hbody : max int32Size.val s.largestPod ≤ env.maxBody) {limit : ℕ}
    (hlimit : max int32Size.val s.largestPod ≤ limit)
    (h : NoOverflow env.maxBody limit (o + (flat s v).length)) :
    Packs env.maxBody (flat s v).length o (s.pack env v o) := by
  have hpos : 0 < int32Size.val := int32Size.property.1
  induction s generalizing o with
  | pod size =>
    rw [flat_pod, List.Vector.toList_length] at h ⊢
    exact packBlock_packs ho ((le_max_right _ _).trans hlimit) ((le_max_right _ _).trans hbody) h
  | string =>
    rw [flat_string, List.length_append, length_le32] at h ⊢
    have hfour := (le_max_left _ _).trans hbody
    refine (packBlock_packs (n := int32Size.val) ho ((le_max_left _ _).trans hlimit) hfour
      (h.mono ?_)).bind fun o' _ hle => packBytes_packs (by omega) env.maxBody_lt ?_ (h.mono ?_)
    · simp only [int32Size]
      omega
    · exact hpos.trans_le ((le_max_left _ _).trans hlimit)
    · simp only [int32Size] at hle
      omega
  | vector elem ih =>
    change List elem.Val at v
    simp only [largestPod, max_self, ← max_assoc] at hbody hlimit
    rw [flat_vector, List.length_append, length_le32, List.length_flatMap] at h ⊢
    have hroom : packRoom env.maxBody (wrap32 (env.sizeof elem)) o ≤ o := by
      unfold packRoom
      split <;> omega
    obtain ⟨o₁, hrun₁, hbody₁, hle₁⟩ := packBlock_packs (n := int32Size.val) (hroom.trans ho)
      ((le_max_left _ _).trans hlimit) ((le_max_left _ _).trans hbody) (h.mono (by
        simp only [int32Size]
        omega))
    simp only [int32Size] at hle₁
    obtain ⟨o₂, hrun₂, hbody₂, hle₂⟩ :=
      packItems_packs (fun x o ho hx => ih x ho hbody hlimit hx) v hbody₁ (h.mono (by omega))
    refine ⟨o₂, ?_, hbody₂, by omega⟩
    simp only [pack, hrun₁]
    exact hrun₂
  | proto fields ih => exact ih v ho hbody hlimit h
  | field first rest ih₁ ih₂ =>
    simp only [largestPod, max_le_iff] at hbody hlimit ih₁ ih₂
    rw [flat_field, List.length_append] at h ⊢
    exact (ih₁ v.1 ho ⟨hbody.1, hbody.2.1⟩ ⟨hlimit.1, hlimit.2.1⟩ (h.mono (by omega))).bind
      fun o' hle hle' => ih₂ v.2 hle ⟨hbody.1, hbody.2.2⟩ ⟨hlimit.1, hlimit.2.2⟩ (h.mono (by omega))

end Schema

end OldPart
