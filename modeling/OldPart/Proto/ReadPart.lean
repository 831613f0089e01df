import OldPart.Proto.ReadCorrect

/-!
# Readers that run out of chunks

A reader that is pushed only the first bytes of an encoding waits behind them, unless one of
its PODs or length prefixes has copied past the end of a chunk before.  What it has made of a
fresh object by then may be the encoded value already, when the bytes that are missing would
not have changed it: `Schema.Suffices` says when.
-/

namespace OldPart

open Cursor

namespace Schema

/-- The first `n` bytes of the encodings of some items suffice. -/
def sufficesItems {α : Type} (len : α → ℕ) (sufficient : ℕ → α → Prop) : ℕ → List α → Prop
  | _, [] => True
  | n, x :: xs => sufficient n x ∧ sufficesItems len sufficient (n - len x) xs

/-- The first `n` bytes of the encoding of `v` suffice to make `v` of the fresh object `old`:
the POD bytes behind them are in `old` already, and so are the empty strings and vectors. -/
def Suffices : (s : Schema) → ℕ → s.Val → s.Val → Prop
  | pod _, n, old, v => (List.Vector.toList old).drop n = (List.Vector.toList v).drop n
  | string, n, _, v => v = ([] : List UInt8) ∨ int32Size.val + List.length v ≤ n
  | vector elem, n, _, v => v = ([] : List elem.Val) ∨
      int32Size.val ≤ n ∧ sufficesItems (fun x => (flat elem x).length)
        (fun n x => Suffices elem n elem.zero x) (n - int32Size.val) v
  | proto fields, n, old, v => Suffices fields n old v
  | field first rest, n, old, v =>
      Suffices first n old.1 v.1 ∧ Suffices rest (n - (flat first v.1).length) old.2 v.2

section Items

variable {α : Type} {len : α → ℕ} {sufficient : ℕ → α → Prop}

lemma sufficesItems_zero {zero : α} (h : ∀ x, sufficient 0 x ↔ zero = x) (xs : List α) :
    sufficesItems len sufficient 0 xs ↔ List.replicate xs.length zero = xs := by
  induction xs with
  | nil => simp [sufficesItems]
  | cons x xs ih =>
    rw [sufficesItems, Nat.zero_sub, ih, h, List.length_cons, List.replicate_succ,
      List.cons.injEq]

lemma sufficesItems_of_le (h : ∀ n x, len x ≤ n → sufficient n x) {n : ℕ} {xs : List α}
    (hle : (xs.map len).sum ≤ n) : sufficesItems len sufficient n xs := by
  induction xs generalizing n with
  | nil => trivial
  | cons x xs ih =>
    rw [List.map_cons, List.sum_cons] at hle
    exact ⟨h n x (by omega), ih (by omega)⟩

end Items

/-- Without any bytes the object is what it was. -/
lemma suffices_zero {s : Schema} {old : s.Val} (hfresh : Fresh s old) (v : s.Val) :
    Suffices s 0 old v ↔ old = v := by
  induction s with
  | pod size =>
    rw [Suffices, List.drop_zero, List.drop_zero]
    exact List.Vector.toList_injective.eq_iff
  | string =>
    obtain rfl : old = ([] : List UInt8) := hfresh
    simp [Suffices, int32Size, eq_comm]
  | vector elem ih =>
    obtain rfl : old = ([] : List elem.Val) := hfresh
    simp [Suffices, int32Size, eq_comm]
  | proto fields ih => exact ih hfresh v
  | field first rest ih₁ ih₂ =>
    rw [Suffices, Nat.zero_sub, ih₁ hfresh.1, ih₂ hfresh.2]
    exact Prod.ext_iff.symm

/-- All bytes suffice. -/
lemma suffices_of_le (s : Schema) {n : ℕ} (old : s.Val) {v : s.Val} (h : (flat s v).length ≤ n) :
    Suffices s n old v := by
  induction s generalizing n with
  | pod size =>
    rw [flat_pod, List.Vector.toList_length] at h
    rw [Suffices, List.drop_of_length_le (by simpa using h),
      List.drop_of_length_le (by simpa using h)]
  | string =>
    rw [flat_string, List.length_append, length_le32] at h
    exact Or.inr h
  | vector elem ih =>
    rw [flat_vector, List.length_append, length_le32, List.length_flatMap] at h
    refine Or.inr ⟨(Nat.le_add_right 4 _).trans h, sufficesItems_of_le (fun n x => ih elem.zero) ?_⟩
    exact Nat.le_sub_of_add_le' h
  | proto fields ih => exact ih old h
  | field first rest ih₁ ih₂ =>
    rw [flat_field, List.length_append] at h
    exact ⟨ih₁ old.1 (by omega), ih₂ old.2 (by omega)⟩

end Schema

/-! ## Running out -/

/-- The outcome `o` of a run that starts at `c`, position `p`, is that of a reader that comes to
the end of the chunks, with an object of which `P` holds, given where the blocks copied in one
piece lie. -/
structure Halts {α : Type} (spans : List Span) (p : ℕ) (P : α → Prop) (c : Cursor UInt8)
    (o : Outcome Fault UInt8 α) : Prop where
  wait_of : AtMostOneCut spans (c.ends p) → ∃ w, o = .wait w ∧ P w
  fault_of : ¬AtMostOneCut spans (c.ends p) → ∃ w, o = .fault w .pastBufLen

section Halts

variable {α β : Type} {spans spans' : List Span} {p n : ℕ} {c : Cursor UInt8}
  {P : α → Prop} {Q : β → Prop} {o : Outcome Fault UInt8 α} {embed : α → β} {k : α → Reader β}

/-- The reader runs out in the first part. -/
lemma Halts.andThen (h : Halts spans p P c o)
    (hge : ∀ q ∈ spans', p + c.remaining.length < q.start) (hP : ∀ w, P w → Q (embed w)) :
    Halts (spans ++ spans') p Q c (o.andThen embed k) := by
  have hsecond : AtMostOneCut spans' (c.ends p) :=
    atMostOneCut_of_lt fun q hq e he => (mem_ends_le he).trans_lt (hge q hq)
  have hiff : AtMostOneCut (spans ++ spans') (c.ends p) ↔ AtMostOneCut spans (c.ends p) := by
    rw [atMostOneCut_append]
    exact and_iff_left hsecond
  refine ⟨fun hcut => ?_, fun hcut => ?_⟩
  · obtain ⟨w, rfl, hw⟩ := h.wait_of (hiff.mp hcut)
    exact ⟨embed w, rfl, hP w hw⟩
  · obtain ⟨w, rfl⟩ := h.fault_of fun h₁ => hcut (hiff.mpr h₁)
    exact ⟨embed w, rfl⟩

/-- The reader runs out in the second part. -/
lemma Reads.andThen_halts {v : α} (h : Reads spans p n v c o)
    (hge : ∀ q ∈ spans', p + n ≤ q.start)
    (hk : ∀ c', Advance p n c c' → Halts spans' (p + n) Q c' (k v c')) :
    Halts (spans ++ spans') p Q c (o.andThen embed k) where
  wait_of hcut := by
    obtain ⟨hcut₁, hcut₂⟩ := (atMostOneCut_append _ _ _).mp hcut
    obtain ⟨c', rfl, hadv⟩ := h.done_of hcut₁
    rw [← atMostOneCut_filter hge, ← hadv.ends_eq] at hcut₂
    exact (hk c' hadv).wait_of hcut₂
  fault_of := h.andThen_fault hge fun c' hadv => (hk c' hadv).fault_of

lemma Halts.map {f : α → β} (h : Halts spans p P c o) (hP : ∀ w, P w → Q (f w)) :
    Halts spans p Q c (o.map f) where
  wait_of hcut := by
    obtain ⟨w, rfl, hw⟩ := h.wait_of hcut
    exact ⟨f w, rfl, hP w hw⟩
  fault_of hcut := by
    obtain ⟨w, rfl⟩ := h.fault_of hcut
    exact ⟨f w, rfl⟩

end Halts

lemma overwrite_take_eq_iff {n m : ℕ} (hm : m ≤ n) (old v : List.Vector UInt8 n) :
    overwrite (v.toList.take m) old = v ↔ old.toList.drop m = v.toList.drop m := by
  have hlen : (v.toList.take m).length = m := by simpa using hm
  have hlist : (overwrite (v.toList.take m) old).toList = v.toList.take m ++ old.toList.drop m := by
    change (v.toList.take m).take n ++ old.toList.drop (v.toList.take m).length = _
    rw [hlen, List.take_take, Nat.min_eq_right hm]
  rw [← List.Vector.toList_injective.eq_iff, hlist]
  nth_rewrite 2 [← List.take_append_drop m v.toList]
  exact List.append_right_inj _

/-- A POD of which not all bytes are there. -/
lemma readPod_halts {n m : ℕ} (p : ℕ) (old v : List.Vector UInt8 n) (hm : m < n)
    {c : Cursor UInt8} (hrem : c.remaining = v.toList.take m) :
    Halts [⟨p, n⟩] p (fun w => w = v ↔ old.toList.drop m = v.toList.drop m) c
      (readPod n old c) := by
  obtain ⟨buf, offset, rest⟩ := c
  have hlen : (v.toList.take m).length = m := by
    rw [List.length_take, v.toList_length]
    omega
  have hall : buf.length - offset + rest.flatten.length = m := by
    rw [← hlen, ← hrem, Cursor.remaining, List.length_append, List.length_drop]
  have hin : ¬n ≤ buf.length - offset := by omega
  cases rest with
  | nil =>
    rw [Cursor.remaining, List.flatten_nil, List.append_nil] at hrem
    refine ⟨fun _ => ⟨overwrite (buf.drop offset) old, ?_, ?_⟩, fun hcut => ?_⟩
    · simp only [readPod, hin, if_false]
    · rw [hrem]
      exact overwrite_take_eq_iff hm.le old v
    · refine (hcut ?_).elim
      simp [AtMostOneCut, Cursor.ends, Span.cuts_cons]
      split <;> omega
  | cons x rest =>
    rw [List.flatten_cons, List.length_append] at hall
    have hcut : ¬AtMostOneCut [⟨p, n⟩] (ends p ⟨buf, offset, x :: rest⟩) := by
      simp only [atMostOneCut_cons, atMostOneCut_nil, and_true,
        cuts_ends_next (Nat.lt_of_not_le hin)]
      omega
    have hx : ¬n - (buf.length - offset) ≤ x.length := by omega
    exact ⟨fun h => (hcut h).elim, fun _ => ⟨overwrite (buf.drop offset) old, by
      simp only [readPod, hin, if_false, hx]⟩⟩

/-- The loop of the string reader with fewer bytes than it wants. -/
lemma readChars_halts {rest : List (List UInt8)} {len : ℕ} (v : List UInt8) {buf : List UInt8}
    {offset : ℕ} (hlen : (buf.drop offset).length + rest.flatten.length < len) :
    readChars rest len v buf offset = .wait (v ++ (buf.drop offset ++ rest.flatten)) := by
  have hmin : min len (buf.length - offset) = (buf.drop offset).length := by
    rw [List.length_drop] at hlen ⊢
    omega
  have hmore : ¬len - (buf.drop offset).length = 0 := by omega
  induction rest generalizing len v buf offset with
  | nil =>
    rw [readChars.eq_def]
    simp only [hmin, List.take_length, hmore, if_false, List.flatten_nil, List.append_nil]
  | cons x rest ih =>
    rw [List.flatten_cons, List.length_append] at hlen
    rw [readChars.eq_def]
    simp only [hmin, List.take_length, hmore, if_false]
    rw [ih]
    · rw [List.drop_zero, List.flatten_cons, List.append_assoc]
    · rw [List.drop_zero]
      omega
    · rw [List.drop_zero, Nat.sub_zero]
      omega
    · rw [List.drop_zero]
      omega

/-! ## The first bytes of an encoding -/

section TakeAppend

variable {c : Cursor UInt8} {xs ys : List UInt8} {n : ℕ}

lemma remaining_of_lt (hrem : c.remaining = (xs ++ ys).take n) (hn : n < xs.length) :
    c.remaining = xs.take n := by
  rw [hrem, List.take_append_of_le_length hn.le]

lemma remaining_of_le (hrem : c.remaining = (xs ++ ys).take n) (hn : xs.length ≤ n) :
    c.remaining = xs ++ ys.take (n - xs.length) := by
  rw [hrem, List.take_append, List.take_of_length_le hn]

lemma length_remaining (hrem : c.remaining = xs.take n) (hn : n < xs.length) :
    c.remaining.length = n := by
  rw [hrem, List.length_take]
  omega

end TakeAppend

lemma readInt32_halts (p : ℕ) {n m : ℕ} (hm : m < int32Size.val) {c : Cursor UInt8}
    (hrem : c.remaining = (le32 n).take m) :
    Halts [⟨p, int32Size.val⟩] p (fun _ => True) c (readInt32 c) :=
  (readPod_halts p (List.Vector.replicate int32Size.val 0) ⟨le32 n, length_le32 n⟩ hm hrem).map
    fun _ _ => trivial

lemma readString_halts (p : ℕ) (v : List UInt8) (hfits : v.length < 2 ^ 31) {n : ℕ}
    (hn : n < (le32 v.length ++ v).length) {c : Cursor UInt8}
    (hrem : c.remaining = (le32 v.length ++ v).take n) :
    Halts [⟨p, int32Size.val⟩] p (fun w => w = v ↔ Schema.Suffices .string n [] v) c
      (readString [] c) := by
  rw [List.length_append, length_le32] at hn
  have hspans : [(⟨p, int32Size.val⟩ : Span)] = [⟨p, int32Size.val⟩] ++ [] := rfl
  rw [hspans]
  by_cases hbegins : n < (le32 v.length).length
  · refine (readInt32_halts p hbegins (remaining_of_lt hrem hbegins)).andThen (by simp)
      fun _ _ => ?_
    rw [length_le32] at hbegins
    simp only [Schema.Suffices, int32Size]
    constructor
    · rintro rfl
      exact Or.inl rfl
    · rintro (rfl | hle)
      · rfl
      · omega
  · have hle := Nat.le_of_not_lt hbegins
    have hrem' := remaining_of_le hrem hle
    refine (readInt32_spec p hfits hrem').andThen_halts (by simp) fun c' hadv => ?_
    have hrest := remaining_of_le32 hrem' hadv
    rw [length_le32] at hle hrest
    have hshort : c'.remaining.length < v.length := by
      rw [hrest, List.length_take]
      omega
    have hrun : readContents [] v.length c' = .wait (v.take (n - 4)) := by
      rw [readContents, if_neg (by omega), Int.toNat_natCast, readChars_halts, List.nil_append]
      · exact congrArg Outcome.wait hrest
      · rwa [Cursor.remaining, List.length_append] at hshort
    rw [hrun]
    refine ⟨fun _ => ⟨_, rfl, ?_⟩, fun h => (h (atMostOneCut_nil _)).elim⟩
    simp only [Schema.Suffices, int32Size, List.take_eq_self_iff]
    constructor
    · intro h
      omega
    · rintro (rfl | h)
      · simp
      · omega

/-- The loop over the elements, from what the element reader does with all and with some of the
bytes of an element. -/
lemma readItems_halts {α : Type} {flat : α → List UInt8} {spans : ℕ → α → List Span}
    {fits : α → Prop} {zero : α} {sufficient : ℕ → α → Prop} {read : α → Reader α}
    (hspans : ∀ p x, ∀ q ∈ spans p x, p ≤ q.start ∧ q.stop ≤ p + (flat x).length)
    (hread : ∀ p v, fits v → ∀ c tail, c.remaining = flat v ++ tail →
      Reads (spans p v) p (flat v).length v c (read zero c))
    (hhalt : ∀ p v, fits v → ∀ n c, n < (flat v).length → c.remaining = (flat v).take n →
      Halts (spans p v) p (fun w => w = v ↔ sufficient n v) c (read zero c))
    (hzero : ∀ v, sufficient 0 v ↔ zero = v)
    (hfull : ∀ n v, (flat v).length ≤ n → sufficient n v)
    (p : ℕ) (vs : List α) (hfits : ∀ x ∈ vs, fits x) {n : ℕ} (hn : n < (vs.flatMap flat).length)
    {c : Cursor UInt8} (hrem : c.remaining = (vs.flatMap flat).take n) :
    Halts (Schema.itemSpans (fun x => (flat x).length) spans p vs) p
      (fun ws => ws = vs ↔ Schema.sufficesItems (fun x => (flat x).length) sufficient n vs) c
      (readItems read (List.replicate vs.length zero) c) := by
  induction vs generalizing p n c with
  | nil => simp at hn
  | cons v vs ih =>
    have hlen := length_remaining hrem hn
    rw [List.flatMap_cons] at hn hrem
    rw [List.length_append] at hn
    have hge : ∀ q ∈ Schema.itemSpans (fun x => (flat x).length) spans (p + (flat v).length) vs,
        p + (flat v).length ≤ q.start :=
      fun q hq => (Schema.itemSpans_bounds hspans _ _ q hq).1
    by_cases hfirst : n < (flat v).length
    · refine (hhalt p v (hfits v (by simp)) n c hfirst (remaining_of_lt hrem hfirst)).andThen
        (fun q hq => ?_) fun w hw => ?_
      · have := hge q hq
        omega
      · have hrest : n - (flat v).length = 0 := by omega
        rw [Schema.sufficesItems, hrest, Schema.sufficesItems_zero hzero, List.cons.injEq, hw]
    · have hle := Nat.le_of_not_lt hfirst
      have hrem' := remaining_of_le hrem hle
      refine (hread p v (hfits v (by simp)) c _ hrem').andThen_halts hge fun c' hadv => ?_
      have hrest : c'.remaining = (vs.flatMap flat).take (n - (flat v).length) := by
        rw [hadv.remaining_eq, hrem', List.drop_left]
      refine (ih (p + (flat v).length) (fun x hx => hfits x (by simp [hx])) (by omega) hrest).map
        fun ws hws => ?_
      rw [Schema.sufficesItems, List.cons.injEq, and_iff_right rfl,
        and_iff_right (hfull n v hle), hws]

namespace Schema

/-- The reader of a vector does so when that of its elements does. -/
lemma readVector_halts (elem : Schema)
    (helem : ∀ p v, Fits elem v → ∀ n c, n < (flat elem v).length →
      c.remaining = (flat elem v).take n →
      Halts (podSpans elem p v) p (fun w => w = v ↔ Suffices elem n elem.zero v) c
        (read elem elem.zero c))
    (p : ℕ) (v : List elem.Val) (hfits : Fits (vector elem) v) {n : ℕ}
    (hn : n < (flat (vector elem) v).length) {c : Cursor UInt8}
    (hrem : c.remaining = (flat (vector elem) v).take n) :
    Halts (podSpans (vector elem) p v) p (fun w => w = v ↔ Suffices (vector elem) n [] v) c
      (read (vector elem) [] c) := by
  obtain ⟨hsize, hitems⟩ := hfits
  have hlen := length_remaining hrem hn
  rw [flat_vector] at hn hrem
  rw [List.length_append, length_le32] at hn
  have hge : ∀ q ∈ itemSpans (fun x => (flat elem x).length) (podSpans elem)
      (p + int32Size.val) v, p + int32Size.val ≤ q.start :=
    fun q hq => (itemSpans_bounds (podSpans_bounds elem) _ _ q hq).1
  by_cases hbegins : n < (le32 v.length).length
  · refine (readInt32_halts p hbegins (remaining_of_lt hrem hbegins)).andThen
      (fun q hq => ?_) fun _ _ => ?_
    · have := hge q hq
      rw [length_le32] at hbegins
      simp only [int32Size] at this
      omega
    · rw [length_le32] at hbegins
      have hlt : ¬int32Size.val ≤ n := Nat.not_le.mpr hbegins
      simp only [Suffices, hlt, false_and, or_false]
      exact eq_comm
  · have hle := Nat.le_of_not_lt hbegins
    have hrem' := remaining_of_le hrem hle
    refine (readInt32_spec p hsize hrem').andThen_halts hge fun c' hadv => ?_
    have hrest := remaining_of_le32 hrem' hadv
    rw [length_le32] at hle hrest
    have hrun : readElements elem.zero (read elem) [] v.length c' =
        readItems (read elem) (List.replicate v.length elem.zero) c' := by
      rw [readElements, if_neg (by omega), Int.toNat_natCast, resize_nil]
    rw [hrun]
    have hne : v ≠ [] := by
      rintro rfl
      simp at hn
      omega
    have hread : ∀ p v, Fits elem v → ∀ c tail, c.remaining = flat elem v ++ tail →
        Reads (podSpans elem p v) p (flat elem v).length v c (read elem elem.zero c) := by
      intro p v hv c tail h
      have hspec := read_spec elem p elem.zero v hv h
      rwa [overlay_of_fresh (fresh_zero elem)] at hspec
    have hhalts := readItems_halts (podSpans_bounds elem) hread
      helem (suffices_zero (fresh_zero elem))
      (fun n v h => suffices_of_le elem elem.zero h) (p + int32Size.val) v hitems (by omega) hrest
    have hiff : Suffices (vector elem) n [] v ↔ sufficesItems (fun x => (flat elem x).length)
        (fun n x => Suffices elem n elem.zero x) (n - 4) v := by
      simp only [Suffices, hne, false_or]
      exact and_iff_right hle
    rw [hiff]
    exact hhalts

/-- The reader of a field type, run from the start of an encoding of which not all bytes are
there. -/
lemma read_halts (s : Schema) (p : ℕ) {old v : s.Val} (hfresh : Fresh s old) (hfits : Fits s v)
    {n : ℕ} (hn : n < (flat s v).length) {c : Cursor UInt8}
    (hrem : c.remaining = (flat s v).take n) :
    Halts (podSpans s p v) p (fun w => w = v ↔ Suffices s n old v) c (s.read old c) := by
  induction s generalizing p n c with
  | pod size =>
    rw [flat_pod, List.Vector.toList_length] at hn
    exact readPod_halts p old v hn hrem
  | string =>
    obtain rfl : old = ([] : List UInt8) := hfresh
    exact readString_halts p v hfits hn hrem
  | vector elem ih =>
    obtain rfl : old = ([] : List elem.Val) := hfresh
    exact readVector_halts elem
      (fun p v hv n c hn hrem => ih p (fresh_zero elem) hv hn hrem) p v hfits hn hrem
  | proto fields ih => exact ih p hfresh hfits hn hrem
  | field first rest ih₁ ih₂ =>
    obtain ⟨hfits₁, hfits₂⟩ := hfits
    have hlen := length_remaining hrem hn
    rw [flat_field] at hn hrem
    rw [List.length_append] at hn
    have hge : ∀ q ∈ podSpans rest (p + (flat first v.1).length) v.2,
        p + (flat first v.1).length ≤ q.start := le_start_of_mem_podSpans
    by_cases hfirst : n < (flat first v.1).length
    · refine (ih₁ p hfresh.1 hfits₁ hfirst (remaining_of_lt hrem hfirst)).andThen
        (fun q hq => ?_) fun w hw => ?_
      · have := hge q hq
        omega
      · have hrest : n - (flat first v.1).length = 0 := by omega
        rw [Suffices, hrest, suffices_zero hfresh.2, ← hw]
        exact Prod.ext_iff
    · have hle := Nat.le_of_not_lt hfirst
      have hrem' := remaining_of_le hrem hle
      refine (read_spec first p old.1 v.1 hfits₁ hrem').andThen_halts hge fun c' hadv => ?_
      have hrest : c'.remaining = (flat rest v.2).take (n - (flat first v.1).length) := by
        rw [hadv.remaining_eq, hrem', List.drop_left]
      refine (ih₂ _ hfresh.2 hfits₂ (by omega) hrest).map fun w hw => ?_
      rw [Suffices, and_iff_right (suffices_of_le first old.1 hle), ← hw,
        overlay_of_fresh hfresh.1]
      exact Prod.ext_iff.trans (and_iff_right rfl)

/-- The coroutine, pushed chunks that hold the first bytes of an encoding: it waits behind them,
or one of its PODs copies past the end of a chunk. -/
lemma readCoro_halts {s : Schema} {target v : s.Val} (hfresh : Fresh s target) (hfits : Fits s v)
    {chunks : List (List UInt8)} (hbegins : chunks.flatten <+: flat s v)
    (hlt : chunks.flatten.length < (flat s v).length) :
    (AtMostOneCut (podSpans s 0 v) (chunkEnds 0 (chunks.map List.length)) →
      ∃ w, s.readCoro target chunks = .wait w ∧
        (w = v ↔ Suffices s chunks.flatten.length target v)) ∧
    (¬AtMostOneCut (podSpans s 0 v) (chunkEnds 0 (chunks.map List.length)) →
      ∃ w, s.readCoro target chunks = .fault w .pastBufLen) := by
  cases chunks with
  | nil =>
    refine ⟨fun _ => ⟨target, rfl, (suffices_zero hfresh v).symm⟩, fun hcut => ?_⟩
    exact (hcut fun q _ => Nat.zero_le 1).elim
  | cons x xs =>
    have hrem : (Cursor.mk x 0 xs).remaining = (flat s v).take (x :: xs).flatten.length :=
      List.prefix_iff_eq_take.mp hbegins
    have hhalts := read_halts s 0 hfresh hfits hlt hrem
    exact ⟨hhalts.wait_of, hhalts.fault_of⟩

end Schema

end OldPart
