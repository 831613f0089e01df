import OldPart.Common.SPSCArray

/-!
# The array as a queue

As long as each position that has been written to has the slot that the queue gives it, the array
holds what the queue holds, and every operation does what it does to the queue.
-/

namespace OldPart

/-! ## Positions -/

/-- A position that is not negative as `int32_t`, or has a slot all the same. -/
abbrev InSlots (capacity n : ℕ) : Prop := 0 ≤ wrap32 n ∨ (capacity : ℤ) ∣ wrap32 n

lemma inSlots_of_lt (capacity : ℕ) {n : ℕ} (hn : n < 2 ^ 31) : InSlots capacity n := by
  left
  rw [wrap32_natCast hn]
  exact Int.natCast_nonneg n

lemma wrap32_two_pow : wrap32 ((2 ^ 31 : ℕ) : ℤ) = -2 ^ 31 := by decide

/-- Only a capacity of one lets the positions go on beyond the first that is negative. -/
lemma le_of_inSlots {capacity n : ℕ} (hcapacity : capacity ≠ 1)
    (h : ∀ i ≤ n, InSlots capacity i) : n ≤ 2 ^ 31 := by
  by_contra hlt
  have hfirst := h (2 ^ 31) (by omega)
  have hsecond := h (2 ^ 31 + 1) (by omega)
  have hwrap' : wrap32 ((2 ^ 31 + 1 : ℕ) : ℤ) = -2 ^ 31 + 1 := by decide
  rw [InSlots, wrap32_two_pow] at hfirst
  rw [InSlots, hwrap'] at hsecond
  have hdvd : (capacity : ℤ) ∣ -2 ^ 31 := hfirst.resolve_left (by decide)
  have hdvd' : (capacity : ℤ) ∣ -2 ^ 31 + 1 := hsecond.resolve_left (by decide)
  have hone : (capacity : ℤ) ∣ 1 := (Int.dvd_add_right hdvd).mp hdvd'
  exact hcapacity (Nat.dvd_one.mp (Int.natCast_dvd_natCast.mp hone))

/-- The remainder of a position is the slot that a queue gives it. -/
lemma tmod_wrap32 {capacity n : ℕ} (h : ∀ i ≤ n, InSlots capacity i) :
    (wrap32 n).tmod capacity = (n % capacity : ℕ) := by
  by_cases hone : capacity = 1
  · rw [hone, Nat.mod_one, Nat.cast_one, Int.tmod_one, Nat.cast_zero]
  · have hle := le_of_inSlots hone h
    obtain hlt | rfl := Nat.lt_or_eq_of_le hle
    · rw [wrap32_natCast hlt]
      exact (Int.ofNat_tmod n capacity).symm
    · have hlast := h (2 ^ 31) (Nat.le_refl _)
      rw [InSlots, wrap32_two_pow] at hlast
      have hdvd : (capacity : ℤ) ∣ -2 ^ 31 := hlast.resolve_left (by decide)
      have hdvd' : capacity ∣ 2 ^ 31 := Int.natCast_dvd.mp hdvd
      rw [wrap32_two_pow, Int.tmod_eq_zero_of_dvd hdvd, Nat.mod_eq_zero_of_dvd hdvd']
      rfl

/-- Behind a position, up to one that is larger, the positions go up one by one. -/
lemma wrap32_of_le {m i n : ℕ} (hlt : wrap32 m < wrap32 n) (hmi : m ≤ i) (hin : i ≤ n)
    (hnear : n < m + 2 ^ 31) : wrap32 i = wrap32 n - (n - i : ℕ) := by
  rw [Nat.cast_sub hin]
  unfold wrap32 at *
  omega

namespace Specialization

variable {c : Specialization}

/-- A number of pushes that does not leave `int`, or an `int` that does not care. -/
abbrev Fits (c : Specialization) (n : ℕ) : Prop := c.wraps = true ∨ n < 2 ^ 31

lemma Fits.mono {m n : ℕ} (h : c.Fits n) (hle : m ≤ n) : c.Fits m :=
  h.imp_right fun hlt => Nat.lt_of_le_of_lt hle hlt

lemma plus_ofNat {m k : ℕ} (h : c.Fits (m + k)) :
    c.plus (.ofNat m) (.ofNat k) = some (.ofNat (m + k)) := by
  rw [plus, Int32.ofNat_add]
  refine if_pos (h.imp_right fun hlt => ?_)
  rw [← Int32.ofNat_add, toInt_ofNat_eq_wrap32, toInt_ofNat_eq_wrap32, toInt_ofNat_eq_wrap32,
    wrap32_natCast hlt, wrap32_natCast (by omega), wrap32_natCast (by omega), Nat.cast_add]

lemma add_ofNat {m k : ℕ} (h : c.Fits (m + k)) (p : Position) :
    c.add p (.ofNat m) (.ofNat k) = some (.ofNat (m + k)) := by
  cases p with
  | int32 => exact plus_ofNat h
  | atomicInt => exact congrArg some (Int32.ofNat_add m k).symm

lemma minus_ofNat {m n : ℕ} (hle : m ≤ n) (h : c.Fits n) :
    c.minus (.ofNat n) (.ofNat m) = some (.ofNat (n - m)) := by
  rw [minus, ← Int32.ofNat_sub n m hle]
  refine if_pos (h.imp_right fun hlt => ?_)
  rw [toInt_ofNat_eq_wrap32, toInt_ofNat_eq_wrap32, toInt_ofNat_eq_wrap32, wrap32_natCast hlt,
    wrap32_natCast (by omega), wrap32_natCast (by omega), Nat.cast_sub hle]

/-- A difference of two numbers that are not negative stays in `int`. -/
lemma minus_of_lt {m n : ℕ} (hm : m < 2 ^ 31) (hn : n < 2 ^ 31) :
    ∃ x, c.minus (.ofNat n) (.ofNat m) = some x ∧ x.toInt = (n : ℤ) - m := by
  have hexact : (Int32.ofNat n - Int32.ofNat m).toInt = (n : ℤ) - m := by
    rw [Int32.toInt_sub, toInt_ofNat_eq_wrap32, toInt_ofNat_eq_wrap32, wrap32_natCast hm,
      wrap32_natCast hn, Int.bmod_eq_of_le (by omega) (by omega)]
  refine ⟨_, if_pos (Or.inr ?_), hexact⟩
  rw [hexact, toInt_ofNat_eq_wrap32, toInt_ofNat_eq_wrap32, wrap32_natCast hm, wrap32_natCast hn]

end Specialization

/-! ## What the array holds -/

namespace SPSCArray

variable {α : Type}

/-- The array holds what is unread in the queue, and has not written to a position without a
slot. -/
structure Represents (capacity : ℕ) (a : SPSCArray α) (q : Fifo α) : Prop where
  pos : 0 < capacity
  lt : capacity < 2 ^ 31
  capacity_eq : a.mCapacity = .ofNat capacity
  length : a.mData.length = capacity
  writePos : a.mWritePos = .ofNat q.pushed.length
  readPos : a.mReadPos = .ofNat q.taken
  held : q.HeldIn a.mData
  inSlots : ∀ i < q.pushed.length, InSlots capacity i

lemma represents_init (prior : ℕ → α) {capacity : Int32} (hcapacity : 0 < capacity) :
    Represents capacity.toNatClampNeg (init prior capacity) .empty where
  pos := (Int32.toNatClampNeg_pos_iff capacity).mpr hcapacity
  lt := capacity.toNatClampNeg_lt
  capacity_eq := (Int32.ofNat_toNatClampNeg capacity (Int32.le_of_lt hcapacity)).symm
  length := by rw [init, List.length_map, List.length_range]
  writePos := rfl
  readPos := rfl
  held := Fifo.heldIn_empty _
  inSlots i hi := absurd hi (Nat.not_lt_zero i)

namespace Represents

variable {c : Specialization} {capacity : ℕ} {a : SPSCArray α} {q : Fifo α}

/-- A position has an index exactly when it is in the slots. -/
lemma slot_eq (h : Represents capacity a q) (n : ℕ) :
    a.slot (.ofNat n) =
      if InSlots capacity n then some ((wrap32 n).tmod capacity).toNat else none := by
  have hpos : (0 : ℤ) < capacity := Int.natCast_pos.mpr h.pos
  have hint : (Int32.ofNat n % a.mCapacity).toInt = (wrap32 n).tmod capacity := by
    rw [Int32.toInt_mod, h.capacity_eq, toInt_ofNat_eq_wrap32, toInt_ofNat_eq_wrap32,
      wrap32_natCast h.lt]
  simp only [slot, h.length, Int32.le_iff_toInt_le, Int32.toInt_zero, ← Int32.toNat_toInt, hint]
  by_cases hin : InSlots capacity n
  · rw [if_pos hin]
    refine if_pos ?_
    obtain hnonneg | hdvd := hin
    · have hlo := Int.tmod_nonneg (capacity : ℤ) hnonneg
      have hhi := Int.tmod_lt_of_pos (wrap32 n) hpos
      omega
    · rw [Int.tmod_eq_zero_of_dvd hdvd]
      omega
  · rw [if_neg hin]
    refine if_neg fun hslot => ?_
    have hneg : wrap32 n < 0 := by
      by_contra hge
      exact hin (Or.inl (by omega))
    have hle : 0 ≤ (-wrap32 n).tmod capacity := Int.tmod_nonneg _ (by omega)
    rw [Int.neg_tmod] at hle
    have hzero : (wrap32 n).tmod capacity = 0 := by omega
    exact hin (Or.inr (Int.dvd_of_tmod_eq_zero hzero))

/-- An unread element is where it is looked for. -/
lemma elemAt_eq (h : Represents capacity a q) {k : ℕ} (hk : k < q.unread.length) :
    a.elemAt (.ofNat (q.taken + k)) = some q.unread[k] := by
  have hlength := h.held.length_pushed
  have hin : ∀ i ≤ q.taken + k, InSlots capacity i := fun i hi => h.inSlots i (by omega)
  rw [elemAt, h.slot_eq, if_pos (hin _ (Nat.le_refl _)), tmod_wrap32 hin, Int.toNat_natCast,
    Option.bind_some, ← h.length]
  exact h.held.getElem?_unread hk

/-- `Size()` is the number of unread elements. -/
lemma minus_eq (h : Represents capacity a q) (hfit : c.Fits q.pushed.length) :
    c.minus a.mWritePos a.mReadPos = some (.ofNat q.unread.length) := by
  rw [h.writePos, h.readPos, Specialization.minus_ofNat h.held.taken_le hfit, Fifo.length_unread]

lemma unread_lt (h : Represents capacity a q) : q.unread.length < 2 ^ 31 := by
  have hle := h.held.length_unread_le
  have hlt := h.lt
  rw [h.length] at hle
  omega

lemma lt_capacity_iff (h : Represents capacity a q) :
    Int32.ofNat q.unread.length < a.mCapacity ↔ q.unread.length < capacity := by
  rw [h.capacity_eq, Int32.lt_iff_toInt_lt, toInt_ofNat_eq_wrap32, toInt_ofNat_eq_wrap32,
    wrap32_natCast h.unread_lt, wrap32_natCast h.lt, Nat.cast_lt]

/-- A position that is read is published. -/
lemma take (h : Represents capacity a q) {k : ℕ} (hk : k ≤ q.unread.length) :
    Represents capacity { a with mReadPos := .ofNat (q.taken + k) } (q.take k) where
  pos := h.pos
  lt := h.lt
  capacity_eq := h.capacity_eq
  length := h.length
  writePos := h.writePos
  readPos := rfl
  held := h.held.take hk
  inSlots := h.inSlots

/-- An element that is pushed to a slot. -/
lemma push (h : Represents capacity a q) (hroom : q.unread.length < capacity)
    (hin : InSlots capacity q.pushed.length) (x : α) :
    Represents capacity { a with
      mData := a.mData.set (q.pushed.length % capacity) x
      mWritePos := .ofNat (q.pushed.length + 1) } (q.push [x]) where
  pos := h.pos
  lt := h.lt
  capacity_eq := h.capacity_eq
  length := List.length_set.trans h.length
  writePos := by rw [Fifo.pushed_push, List.length_append, List.length_singleton]
  readPos := h.readPos
  held := by
    have hlength := h.length
    rw [← hlength]
    exact h.held.push (by rwa [hlength]) x
  inSlots i hi := by
    rw [Fifo.pushed_push, List.length_append, List.length_singleton] at hi
    obtain hlt | rfl := Nat.lt_or_eq_of_le (Nat.le_of_lt_succ hi)
    · exact h.inSlots i hlt
    · exact hin

end Represents

/-! ## Operations that push -/

/-- What comes to a result exactly under a condition. -/
structure Yields {β : Type} (x : Option β) (cond : Prop) (post : β → Prop) : Prop where
  some_of : cond → ∃ b, x = some b ∧ post b
  none_of : ¬cond → x = none

lemma Yields.of_some {β : Type} {b : β} {cond : Prop} {post : β → Prop} (hcond : cond)
    (hpost : post b) : Yields (some b) cond post :=
  ⟨fun _ => ⟨b, rfl, hpost⟩, fun hnot => (hnot hcond).elim⟩

lemma Yields.bind {β γ : Type} {x : Option β} {f : β → Option γ} {cond cond' : Prop}
    {post : β → Prop} {post' : γ → Prop} (h : Yields x cond post)
    (hf : ∀ b, post b → Yields (f b) cond' post') : Yields (x.bind f) (cond ∧ cond') post' := by
  by_cases hcond : cond
  · obtain ⟨b, rfl, hpost⟩ := h.some_of hcond
    exact ⟨fun hboth => (hf b hpost).some_of hboth.2,
      fun hnot => (hf b hpost).none_of fun hcond' => hnot ⟨hcond, hcond'⟩⟩
  · rw [h.none_of hcond]
    exact ⟨fun hboth => (hcond hboth.1).elim, fun _ => rfl⟩

/-- The next `k` positions are in the slots. -/
abbrev AllInSlots (capacity n k : ℕ) : Prop := ∀ i < k, InSlots capacity (n + i)

lemma allInSlots_zero (capacity n : ℕ) : AllInSlots capacity n 0 := fun i hi =>
  absurd hi (Nat.not_lt_zero i)

lemma allInSlots_one_iff (capacity n : ℕ) : AllInSlots capacity n 1 ↔ InSlots capacity n := by
  refine ⟨fun hall => hall 0 Nat.one_pos, fun hin i hi => ?_⟩
  obtain rfl : i = 0 := by omega
  exact hin

lemma allInSlots_add (capacity n k l : ℕ) :
    AllInSlots capacity n (k + l) ↔ AllInSlots capacity n k ∧ AllInSlots capacity (n + k) l := by
  constructor
  · refine fun h => ⟨fun i hi => h i (by omega), fun i hi => ?_⟩
    rw [Nat.add_assoc]
    exact h (k + i) (by omega)
  · rintro ⟨hfirst, hsecond⟩ i hi
    obtain hlt | hge := Nat.lt_or_ge i k
    · exact hfirst i hlt
    · obtain ⟨j, rfl⟩ := Nat.exists_eq_add_of_le hge
      rw [← Nat.add_assoc]
      exact hsecond j (by omega)

section Push

variable {c : Specialization} {capacity : ℕ} {a : SPSCArray α} {q : Fifo α}

lemma push_yields (h : Represents capacity a q) (hfit : c.Fits (q.pushed.length + 1))
    (hroom : q.unread.length < capacity) (x : α) :
    Yields (a.push c x) (InSlots capacity q.pushed.length)
      fun a' => Represents capacity a' (q.push [x]) := by
  have hadd : c.add c.WT (.ofNat q.pushed.length) 1 = some (.ofNat (q.pushed.length + 1)) :=
    Specialization.add_ofNat hfit c.WT
  rw [SPSCArray.push, h.minus_eq (hfit.mono (Nat.le_succ _))]
  show Yields (if _ then _ else _) _ _
  rw [if_pos (h.lt_capacity_iff.mpr hroom), h.writePos, h.slot_eq, hadd]
  constructor
  · intro hin
    have hall : ∀ i ≤ q.pushed.length, InSlots capacity i := by
      intro i hi
      obtain hlt | rfl := Nat.lt_or_eq_of_le hi
      · exact h.inSlots i hlt
      · exact hin
    rw [if_pos hin, tmod_wrap32 hall, Int.toNat_natCast]
    exact ⟨_, rfl, h.push hroom hin x⟩
  · intro hnot
    rw [if_neg hnot]
    rfl

/-- What a callback pushes. -/
lemma pushWhileRoom_yields (h : Represents capacity a q) (xs : List α)
    (hfit : c.Fits (q.pushed.length + (xs.take (capacity - q.unread.length)).length)) :
    Yields (pushWhileRoom c xs a)
      (AllInSlots capacity q.pushed.length (xs.take (capacity - q.unread.length)).length)
      fun a' => Represents capacity a' (q.push (xs.take (capacity - q.unread.length))) := by
  induction xs generalizing a q with
  | nil =>
    rw [List.take_nil, Fifo.push_nil]
    exact .of_some (allInSlots_zero capacity _) h
  | cons x xs ih =>
    rw [pushWhileRoom, size, h.minus_eq (hfit.mono (Nat.le_add_right _ _))]
    show Yields (if _ then _ else _) _ _
    by_cases hroom : q.unread.length < capacity
    · obtain ⟨room, hsub⟩ : ∃ room, capacity - q.unread.length = room + 1 :=
        ⟨capacity - q.unread.length - 1, by omega⟩
      have hunread : (q.push [x]).unread.length = q.unread.length + 1 := by
        rw [Fifo.unread_push h.held.taken_le, List.length_append, List.length_singleton]
      have hrest : capacity - (q.push [x]).unread.length = room := by omega
      have hlength : (q.push [x]).pushed.length = q.pushed.length + 1 := by
        rw [Fifo.pushed_push, List.length_append, List.length_singleton]
      rw [if_pos (h.lt_capacity_iff.mpr hroom)]
      rw [hsub, List.take_succ_cons, List.length_cons, Nat.add_comm _ 1] at hfit ⊢
      rw [allInSlots_add, allInSlots_one_iff, ← List.singleton_append, ← Fifo.push_push]
      refine (push_yields h (hfit.mono (by omega)) hroom x).bind fun a' h' => ?_
      have hnext := ih h' (by rw [hrest, hlength]; exact hfit.mono (by omega))
      rwa [hrest, hlength] at hnext
    · have hzero : capacity - q.unread.length = 0 := by omega
      rw [if_neg fun hlt => hroom (h.lt_capacity_iff.mp hlt), hzero, List.take_zero, Fifo.push_nil]
      exact .of_some (allInSlots_zero capacity _) h

end Push

/-! ## `consume_all` -/

section Consume

variable {c : Specialization} {capacity : ℕ} {a : SPSCArray α} {q : Fifo α}

lemma ofNat_lt_iff (m n : ℕ) : Int32.ofNat m < .ofNat n ↔ wrap32 m < wrap32 n := by
  rw [Int32.lt_iff_toInt_lt, toInt_ofNat_eq_wrap32, toInt_ofNat_eq_wrap32]

/-- What fits of two lists is what fits of the first and then of the second. -/
lemma take_append_take (xs ys : List α) (room : ℕ) :
    (xs ++ ys).take room = xs.take room ++ ys.take (room - (xs.take room).length) := by
  have hroom : room - (xs.take room).length = room - xs.length := by
    rw [List.length_take]
    omega
  rw [List.take_append, hroom]

/-- The loop goes over the `d` elements behind the first `j`, which stay in the array while the
callback pushes. -/
lemma consumeLoop_yields (cb : ℕ → List α) {d j : ℕ} (visited : List α)
    (h : Represents capacity a q) (hj : j + d ≤ q.unread.length)
    (horder : ∀ i, q.taken + j ≤ i → i < q.taken + (j + d) →
      wrap32 i < wrap32 (q.taken + (j + d) : ℕ))
    {news : List α}
    (hnews : news = ((List.range' j d).flatMap cb).take (capacity - q.unread.length))
    (hfit : c.Fits (q.pushed.length + news.length)) :
    Yields (consumeLoop c cb (.ofNat (q.taken + (j + d))) d j (.ofNat (q.taken + j)) visited a)
      (AllInSlots capacity q.pushed.length news.length)
      fun r => r.2 = visited ++ (q.unread.drop j).take d ∧
        Represents capacity r.1 ((q.push news).take (j + d)) := by
  induction d generalizing a q j visited news with
  | zero =>
    obtain rfl : news = [] := by rw [hnews]; exact List.take_nil
    rw [consumeLoop, Nat.add_zero, if_neg Int32.lt_irrefl, Fifo.push_nil, List.take_zero,
      List.append_nil]
    exact .of_some (allInSlots_zero capacity _) ⟨rfl, h.take hj⟩
  | succ d ih =>
    have hlt := horder (q.taken + j) (Nat.le_refl _) (by omega)
    have hread : j < q.unread.length := by omega
    have hlength := h.held.length_pushed
    have hplus : c.plus (.ofNat (q.taken + j)) 1 = some (.ofNat (q.taken + (j + 1))) :=
      Specialization.plus_ofNat (k := 1) (hfit.mono (by omega))
    rw [consumeLoop, if_pos ((ofNat_lt_iff _ _).mpr hlt), h.elemAt_eq hread]
    show Yields ((pushWhileRoom c (cb j) a).bind fun a' =>
      (c.plus (.ofNat (q.taken + j)) 1).bind fun readPos => consumeLoop c cb _ d (j + 1) readPos
        (visited ++ [q.unread[j]]) a') _ _
    rw [hplus]
    -- what this call pushes, and what the calls behind it push
    obtain ⟨first, hfirst⟩ : ∃ first, first = (cb j).take (capacity - q.unread.length) := ⟨_, rfl⟩
    obtain ⟨rest, hrest⟩ : ∃ rest, rest = ((List.range' (j + 1) d).flatMap cb).take
        (capacity - (q.push first).unread.length) := ⟨_, rfl⟩
    have hunread : (q.push first).unread = q.unread ++ first :=
      Fifo.unread_push h.held.taken_le first
    have hpushed : (q.push first).pushed.length = q.pushed.length + first.length :=
      List.length_append
    obtain rfl : news = first ++ rest := by
      rw [hnews, List.range'_succ, List.flatMap_cons, take_append_take, ← hfirst, hrest, hunread,
        List.length_append, Nat.sub_add_eq]
    rw [List.length_append, allInSlots_add]
    rw [List.length_append] at hfit
    have hcalled := pushWhileRoom_yields h (cb j) (by rw [← hfirst]; exact hfit.mono (by omega))
    rw [← hfirst] at hcalled
    refine hcalled.bind fun a' h' => ?_
    have horder' : ∀ i, q.taken + (j + 1) ≤ i → i < q.taken + (j + 1 + d) →
        wrap32 i < wrap32 (q.taken + (j + 1 + d) : ℕ) := by
      intro i hlo hhi
      rw [Nat.add_assoc j 1 d, Nat.add_comm 1 d]
      exact horder i (by omega) (by omega)
    have hnext := ih (visited ++ [q.unread[j]]) h'
      (by rw [hunread, List.length_append]; omega) horder' hrest
      (by rw [hpushed, Nat.add_assoc]; exact hfit)
    have hseen : (q.push first).unread.drop (j + 1) = q.unread.drop (j + 1) ++ first := by
      rw [hunread, List.drop_append_of_le_length hread]
    have htail : ((q.push first).unread.drop (j + 1)).take d = (q.unread.drop (j + 1)).take d := by
      rw [hseen, List.take_append_of_le_length (by rw [List.length_drop]; omega)]
    rw [htail, List.append_assoc, List.singleton_append, Fifo.push_push, hpushed,
      Fifo.taken_push, Nat.add_assoc j 1 d, Nat.add_comm 1 d] at hnext
    rw [Option.bind_some, List.drop_eq_getElem_cons hread, List.take_succ_cons]
    exact hnext

/-- From a position that is in front of the other as `int32_t`, every unread element is visited. -/
lemma consumeAll_yields (cb : ℕ → List α) (h : Represents capacity a q)
    (horder : q.unread = [] ∨ wrap32 q.taken < wrap32 q.pushed.length)
    (hfit : c.Fits (q.pushed.length + (q.pushedBy capacity cb).length)) :
    Yields (a.consumeAll c cb)
      (AllInSlots capacity q.pushed.length (q.pushedBy capacity cb).length)
      fun r => r.2 = q.unread ∧
        Represents capacity r.1 ((q.push (q.pushedBy capacity cb)).take q.unread.length) := by
  have hlength := h.held.length_pushed
  have hunread := h.unread_lt
  have hnear : q.pushed.length < q.taken + 2 ^ 31 := by omega
  have hwrap : ∀ i, q.taken ≤ i → i ≤ q.pushed.length →
      wrap32 i = wrap32 q.pushed.length - (q.pushed.length - i : ℕ) := by
    intro i hlo hhi
    obtain hnil | hlt := horder
    · rw [hnil, List.length_nil] at hlength
      obtain rfl : i = q.pushed.length := by omega
      rw [Nat.sub_self, Nat.cast_zero, sub_zero]
    · exact wrap32_of_le hlt hlo hhi hnear
  have hturns : (a.mWritePos.toInt - a.mReadPos.toInt).toNat = q.unread.length := by
    have hread := hwrap q.taken (Nat.le_refl _) h.held.taken_le
    rw [h.writePos, h.readPos, toInt_ofNat_eq_wrap32, toInt_ofNat_eq_wrap32]
    omega
  have hloop := consumeLoop_yields (c := c) cb (d := q.unread.length) (j := 0) [] h (by omega)
    (by
      rw [Nat.zero_add, ← hlength]
      intro i hlo hhi
      have hi := hwrap i (by omega) hhi.le
      omega)
    (by rw [Fifo.pushedBy, List.range_eq_range']) hfit
  rw [Nat.zero_add, ← hlength, Nat.add_zero, List.drop_zero, List.take_length,
    List.nil_append] at hloop
  rw [consumeAll, hturns, h.writePos, h.readPos]
  exact hloop

/-- From one that is not, none is. -/
lemma consumeAll_of_le (cb : ℕ → List α) (h : Represents capacity a q)
    (hle : ¬wrap32 q.taken < wrap32 q.pushed.length) : a.consumeAll c cb = some (a, []) := by
  have hturns : (a.mWritePos.toInt - a.mReadPos.toInt).toNat = 0 := by
    rw [h.writePos, h.readPos, toInt_ofNat_eq_wrap32, toInt_ofNat_eq_wrap32]
    omega
  have hnot : ¬a.mReadPos < a.mWritePos := by
    rw [h.writePos, h.readPos, ofNat_lt_iff]
    exact hle
  rw [consumeAll, hturns, consumeLoop, if_neg hnot]

end Consume

/-! ## Every operation -/

section Step

variable {c : Specialization} {capacity : ℕ} {a : SPSCArray α} {q : Fifo α}

/-- `k` as it is added to a position. -/
lemma exists_eq_ofNat {k : Int32} (hk : 0 ≤ k) :
    k = .ofNat k.toNatClampNeg ∧ k.toNatClampNeg < 2 ^ 31 :=
  ⟨(Int32.ofNat_toNatClampNeg k hk).symm, k.toNatClampNeg_lt⟩

lemma first_eq (h : Represents capacity a q) {x : α} (hx : q.unread.head? = some x) :
    a.first = some x := by
  obtain ⟨rest, hunread⟩ := List.head?_eq_some_iff.mp hx
  have hpos : 0 < q.unread.length := by
    rw [hunread]
    exact Nat.succ_pos _
  have helem := h.elemAt_eq hpos
  rw [Nat.add_zero, ← h.readPos] at helem
  rw [first, helem]
  exact congrArg some (List.getElem_of_eq hunread hpos)

lemma firstAt_eq (h : Represents capacity a q) (hfit : c.Fits q.pushed.length) {k : Int32}
    (hk : 0 ≤ k) {x : α} (hx : q.unread[k.toNatClampNeg]? = some x) : a.firstAt c k = some x := by
  obtain ⟨hlt, rfl⟩ := List.getElem?_eq_some_iff.mp hx
  have hlength := h.held.length_pushed
  have hplus : c.plus a.mReadPos k = some (.ofNat (q.taken + k.toNatClampNeg)) := by
    rw [h.readPos]
    conv_lhs => rw [(exists_eq_ofNat hk).1]
    exact Specialization.plus_ofNat (hfit.mono (by omega))
  rw [firstAt, hplus]
  exact h.elemAt_eq hlt

lemma valid_eq (h : Represents capacity a q) (hfit : c.Fits q.pushed.length) {k : Int32}
    (hk : 0 ≤ k) : a.valid c k = some (decide (q.Live k)) := by
  obtain ⟨hofNat, hlt⟩ := exists_eq_ofNat hk
  obtain ⟨behind, hminus, hbehind⟩ := Specialization.minus_of_lt (c := c) hlt h.unread_lt
  rw [← hofNat] at hminus
  rw [valid, h.minus_eq hfit]
  show (c.minus (.ofNat q.unread.length) k).bind _ = _
  rw [hminus]
  refine congrArg some (decide_eq_decide.mpr ?_)
  rw [Fifo.Live, and_iff_right hk, Int32.lt_iff_toInt_lt, hbehind, Int32.toInt_zero]
  omega

lemma empty_eq (h : Represents capacity a q) (hfit : c.Fits q.pushed.length) :
    a.empty c = some q.unread.isEmpty := by
  rw [SPSCArray.empty, size, h.minus_eq hfit, Option.map_some]
  refine congrArg some ?_
  rw [Bool.eq_iff_iff, decide_eq_true_iff, List.isEmpty_iff, ← Int32.toInt_inj,
    toInt_ofNat_eq_wrap32, wrap32_natCast h.unread_lt, Int32.toInt_zero, Nat.cast_eq_zero,
    List.length_eq_zero_iff]

/-- `Pop` and `Skip`. -/
lemma add_readPos (h : Represents capacity a q) (hfit : c.Fits q.pushed.length) {k : ℕ}
    (hk : k ≤ q.unread.length) :
    c.add c.RT a.mReadPos (.ofNat k) = some (.ofNat (q.taken + k)) := by
  have hlength := h.held.length_pushed
  rw [h.readPos]
  exact Specialization.add_ofNat (hfit.mono (by omega)) c.RT

end Step

end SPSCArray

/-- A step that writes to positions in the slots only, and visits from a position that is in front
of the other as `int32_t`. -/
def Fifo.StaysInSlots {α : Type} (capacity : ℕ) (q : Fifo α) : SPSCArray.Op α → Prop
  | .push _ => InSlots capacity q.pushed.length
  | .consumeAll cb => (q.unread = [] ∨ wrap32 q.taken < wrap32 q.pushed.length) ∧
      SPSCArray.AllInSlots capacity q.pushed.length (q.pushedBy capacity cb).length
  | _ => True

namespace SPSCArray

/-- What such a step does to the queue, the array does. -/
lemma step_represents {α : Type} {c : Specialization} {capacity : ℕ} {a : SPSCArray α}
    {q q' : Fifo α} {op : Op α} {answers : List (Answer α)} (h : Represents capacity a q)
    (hstays : q.StaysInSlots capacity op) (hstep : q.step capacity op = some (q', answers))
    (hfit : c.Fits q'.pushed.length) :
    ∃ a', a.step c op = some (a', answers) ∧ Represents capacity a' q' := by
  cases op with
  | push data =>
    obtain ⟨hroom, hsame⟩ := Option.ite_none_right_eq_some.mp hstep
    obtain ⟨rfl, rfl⟩ := Prod.mk.inj (Option.some.inj hsame)
    rw [Fifo.pushed_push, List.length_append, List.length_singleton] at hfit
    obtain ⟨a', hpush, h'⟩ := (push_yields h hfit hroom data).some_of hstays
    exact ⟨a', by rw [step, hpush]; rfl, h'⟩
  | first =>
    obtain ⟨x, hx, hsame⟩ := Option.map_eq_some_iff.mp hstep
    obtain ⟨rfl, rfl⟩ := Prod.mk.inj hsame
    exact ⟨a, by rw [step, first_eq h hx]; rfl, h⟩
  | firstAt k =>
    obtain ⟨hk, hfirst⟩ := Option.ite_none_right_eq_some.mp hstep
    obtain ⟨x, hx, hsame⟩ := Option.map_eq_some_iff.mp hfirst
    obtain ⟨rfl, rfl⟩ := Prod.mk.inj hsame
    exact ⟨a, by rw [step, firstAt_eq h hfit hk hx]; rfl, h⟩
  | valid k =>
    obtain ⟨hk, hsame⟩ := Option.ite_none_right_eq_some.mp hstep
    obtain ⟨rfl, rfl⟩ := Prod.mk.inj (Option.some.inj hsame)
    exact ⟨a, by rw [step, valid_eq h hfit hk]; rfl, h⟩
  | pop =>
    obtain ⟨hne, hsame⟩ := Option.ite_none_right_eq_some.mp hstep
    obtain ⟨rfl, rfl⟩ := Prod.mk.inj (Option.some.inj hsame)
    have hone : 1 ≤ q.unread.length := List.length_pos_iff.mpr hne
    have hadd : c.add c.RT a.mReadPos 1 = some (.ofNat (q.taken + 1)) :=
      add_readPos h hfit hone
    exact ⟨_, by rw [step, pop, hadd]; rfl, h.take hone⟩
  | skip k =>
    obtain ⟨hk, hsame⟩ := Option.ite_none_right_eq_some.mp hstep
    obtain ⟨rfl, rfl⟩ := Prod.mk.inj (Option.some.inj hsame)
    have hadd := add_readPos h hfit hk.2
    rw [← (exists_eq_ofNat hk.1).1] at hadd
    exact ⟨_, by rw [step, skip, hadd]; rfl, h.take hk.2⟩
  | size =>
    obtain ⟨rfl, rfl⟩ := Prod.mk.inj (Option.some.inj hstep)
    refine ⟨a, ?_, h⟩
    rw [step, size, h.minus_eq hfit, Option.map_some, toInt_ofNat_eq_wrap32,
      wrap32_natCast h.unread_lt]
  | empty =>
    obtain ⟨rfl, rfl⟩ := Prod.mk.inj (Option.some.inj hstep)
    exact ⟨a, by rw [step, empty_eq h hfit]; rfl, h⟩
  | consumeAll cb =>
    obtain ⟨rfl, rfl⟩ := Prod.mk.inj (Option.some.inj hstep)
    rw [Fifo.pushed_take, Fifo.pushed_push, List.length_append] at hfit
    obtain ⟨⟨a', visited⟩, hconsume, rfl, h'⟩ :=
      (consumeAll_yields cb h hstays.1 hfit).some_of hstays.2
    exact ⟨a', by rw [step, hconsume]; rfl, h'⟩

end SPSCArray

end OldPart
