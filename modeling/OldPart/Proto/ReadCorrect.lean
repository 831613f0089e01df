import OldPart.Proto.Read

/-!
# What the readers read

`Schema.read_spec` follows a reader over any cut of an encoding: it comes back with the
value, standing right behind the encoding, unless a POD or a length prefix is spread over
more than two chunks, and then it copies bytes past the end of one.  And whatever a reader is
given, it leaves no string or vector in a fresh object that is too long for `int32_t`
(`Schema.fits_read`), so that a value with one never comes back.
-/

namespace OldPart

open Cursor

/-! ## Readers do not depend on what is pushed later -/

lemma readPod_local (n : ℕ) (old : List.Vector UInt8 n) : Local (readPod n old) := by
  rintro ⟨buf, offset, rest⟩ more hsettled
  cases rest with
  | nil =>
    by_cases hn : n ≤ buf.length - offset
    · simp [readPod, Cursor.extend, hn]
    · simp [readPod, hn, Outcome.Settled] at hsettled
  | cons x rest =>
    by_cases hn : n ≤ buf.length - offset
    · simp [readPod, Cursor.extend, hn]
    · by_cases hx : n - (buf.length - offset) ≤ x.length
      · simp [readPod, Cursor.extend, hn, hx]
      · simp [readPod, Cursor.extend, hn, hx]

lemma readChars_extend (rest more : List (List UInt8)) (len : ℕ) (v buf : List UInt8) (offset : ℕ)
    (hsettled : (readChars rest len v buf offset).Settled) :
    readChars (rest ++ more) len v buf offset =
      (readChars rest len v buf offset).extend more := by
  induction rest generalizing len v buf offset with
  | nil =>
    rw [readChars] at hsettled
    by_cases hlen : len - min len (buf.length - offset) = 0
    · rw [readChars.eq_def, readChars.eq_def]
      simp [hlen, Cursor.extend]
    · simp [hlen, Outcome.Settled] at hsettled
  | cons x rest ih =>
    rw [readChars] at hsettled
    rw [readChars.eq_def, readChars.eq_def]
    by_cases hlen : len - min len (buf.length - offset) = 0
    · simp [hlen, Cursor.extend]
    · simp only [hlen, if_false] at hsettled
      simp only [List.cons_append, hlen, if_false]
      exact ih _ _ _ _ hsettled

lemma readInt32_local : Local readInt32 := (readPod_local _ _).map

lemma readContents_local (old : List UInt8) (len : ℤ) : Local (readContents old len) := by
  intro c more hsettled
  by_cases hlen : len < 0
  · simp [readContents, hlen]
  · simp only [readContents, hlen, if_false] at hsettled ⊢
    exact readChars_extend _ more _ _ _ _ hsettled

lemma readString_local (old : List UInt8) : Local (readString old) :=
  readInt32_local.andThen fun len => readContents_local old len

lemma readItems_local {α : Type} {read : α → Reader α} (h : ∀ x, Local (read x)) (xs : List α) :
    Local (readItems read xs) := by
  induction xs with
  | nil => exact Local.done []
  | cons x xs ih => exact (h x).andThen fun y => ih.map

lemma readElements_local {α : Type} {zero : α} {read : α → Reader α} (h : ∀ x, Local (read x))
    (old : List α) (size : ℤ) : Local (readElements zero read old size) := by
  intro c more hsettled
  by_cases hsize : size < 0
  · simp [readElements, hsize]
  · simp only [readElements, hsize, if_false] at hsettled ⊢
    exact readItems_local h _ c more hsettled

lemma readVector_local {α : Type} {zero : α} {read : α → Reader α} (h : ∀ x, Local (read x))
    (old : List α) : Local (readVector zero read old) :=
  readInt32_local.andThen fun size => readElements_local h old size

lemma Schema.read_local (s : Schema) (old : s.Val) : Local (s.read old) := by
  induction s with
  | pod size => exact readPod_local _ _
  | string => exact readString_local _
  | vector elem ih => exact readVector_local ih _
  | proto fields ih => exact ih old
  | field first rest ih₁ ih₂ => exact (ih₁ old.1).andThen fun x => (ih₂ old.2).map

/-! ## Reading an encoding -/

/-- The outcome `o` of a run that starts at `c`, position `p`, is that of reading `n` bytes
as `v`, given where the blocks copied in one piece lie. -/
structure Reads {α : Type} (spans : List Span) (p n : ℕ) (v : α) (c : Cursor UInt8)
    (o : Outcome Fault UInt8 α) : Prop where
  done_of : AtMostOneCut spans (c.ends p) → ∃ c', o = .done v c' ∧ Advance p n c c'
  fault_of : ¬AtMostOneCut spans (c.ends p) → ∃ w, o = .fault w .pastBufLen

namespace Reads

variable {α β : Type} {spans spans' : List Span} {p n m : ℕ} {c : Cursor UInt8}

/-- A block that is cut twice, in the first part or in the second. -/
lemma andThen_fault {o : Outcome Fault UInt8 α} {embed : α → β} {k : α → Reader β} {v : α}
    (h : Reads spans p n v c o) (hge : ∀ q ∈ spans', p + n ≤ q.start)
    (hk : ∀ c', Advance p n c c' → ¬AtMostOneCut spans' (c'.ends (p + n)) →
      ∃ w, k v c' = .fault w .pastBufLen)
    (hcut : ¬AtMostOneCut (spans ++ spans') (c.ends p)) :
    ∃ w, o.andThen embed k = .fault w .pastBufLen := by
  by_cases hcut₁ : AtMostOneCut spans (c.ends p)
  · obtain ⟨c', rfl, hadv⟩ := h.done_of hcut₁
    have hcut₂ : ¬AtMostOneCut spans' (c.ends p) :=
      fun h₂ => hcut ((atMostOneCut_append _ _ _).mpr ⟨hcut₁, h₂⟩)
    rw [← atMostOneCut_filter hge, ← hadv.ends_eq] at hcut₂
    exact hk c' hadv hcut₂
  · obtain ⟨w', rfl⟩ := h.fault_of hcut₁
    exact ⟨embed w', rfl⟩

lemma andThen {o : Outcome Fault UInt8 α} {embed : α → β} {k : α → Reader β} {v : α} {w : β}
    (h : Reads spans p n v c o) (hge : ∀ q ∈ spans', p + n ≤ q.start)
    (hk : ∀ c', Advance p n c c' → Reads spans' (p + n) m w c' (k v c')) :
    Reads (spans ++ spans') p (n + m) w c (o.andThen embed k) where
  done_of hcut := by
    obtain ⟨hcut₁, hcut₂⟩ := (atMostOneCut_append _ _ _).mp hcut
    obtain ⟨c', rfl, hadv⟩ := h.done_of hcut₁
    rw [← atMostOneCut_filter hge, ← hadv.ends_eq] at hcut₂
    obtain ⟨c'', hrun, hadv'⟩ := (hk c' hadv).done_of hcut₂
    exact ⟨c'', hrun, hadv.trans hadv'⟩
  fault_of := h.andThen_fault hge fun c' hadv => (hk c' hadv).fault_of

lemma map {o : Outcome Fault UInt8 α} {v : α} (f : α → β) (h : Reads spans p n v c o) :
    Reads spans p n (f v) c (o.map f) where
  done_of hcut := by
    obtain ⟨c', rfl, hadv⟩ := h.done_of hcut
    exact ⟨c', rfl, hadv⟩
  fault_of hcut := by
    obtain ⟨w, rfl⟩ := h.fault_of hcut
    exact ⟨f w, rfl⟩

end Reads

lemma overwrite_of_length {n : ℕ} {src : List UInt8} (old : List.Vector UInt8 n)
    (h : src.length = n) : overwrite src old = ⟨src, h⟩ := by
  apply List.Vector.eq
  have hdrop : old.toList.drop src.length = [] :=
    List.drop_eq_nil_of_le (by rw [List.Vector.toList_length, h])
  change src.take n ++ old.toList.drop src.length = src
  rw [hdrop, List.append_nil, ← h, List.take_length]

/-- Reading a POD, from bytes that are there: the block may be cut once. -/
lemma readPod_spec {n : ℕ} (hn : 0 < n) (p : ℕ) (old v : List.Vector UInt8 n) {c : Cursor UInt8}
    {tail : List UInt8} (hrem : c.remaining = v.toList ++ tail) :
    Reads [⟨p, n⟩] p n v c (readPod n old c) := by
  obtain ⟨buf, offset, rest⟩ := c
  have hlen : v.toList.length = n := v.toList_length
  have hv : ∀ bs : List UInt8, bs = v.toList → overwrite bs old = v := by
    rintro _ rfl
    rw [overwrite_of_length old hlen]
    rfl
  simp only [Cursor.remaining] at hrem
  by_cases hin : n ≤ buf.length - offset
  · -- the chunk holds the whole block
    have hbytes : (buf.drop offset).take n = v.toList := by
      have := congrArg (List.take n) hrem
      rwa [List.take_append_of_le_length (by rw [List.length_drop]; exact hin),
        List.take_left' hlen] at this
    refine ⟨fun _ => ⟨⟨buf, offset + n, rest⟩, ?_, advance_within _ _ _ (by omega)⟩, fun hcut => ?_⟩
    · simp only [readPod, hin, if_true, hv _ hbytes]
    · simp [AtMostOneCut, cuts_ends_within hin] at hcut
  · -- the rest of the block is in a chunk to come
    have hin' : buf.length - offset < n := by omega
    cases rest with
    | nil =>
      have := congrArg List.length hrem
      simp only [List.flatten_nil, List.append_nil, List.length_drop, List.length_append, hlen]
        at this
      omega
    | cons x rest =>
      have hiff : AtMostOneCut [⟨p, n⟩] (ends p ⟨buf, offset, x :: rest⟩) ↔
          n ≤ buf.length - offset + x.length := by
        simp [AtMostOneCut, cuts_ends_next hin']
      refine ⟨fun hcut => ?_, fun hcut => ?_⟩
      · rw [hiff] at hcut
        have hbytes : buf.drop offset ++ x.take (n - (buf.length - offset)) = v.toList := by
          have := congrArg (List.take n) hrem
          rw [List.take_left' hlen, List.flatten_cons, List.take_append, List.length_drop,
            List.take_of_length_le (by rw [List.length_drop]; omega),
            List.take_append_of_le_length (by omega)] at this
          exact this
        refine ⟨⟨x, n - (buf.length - offset), rest⟩, ?_, advance_next hin' hcut⟩
        have hrest : n - (buf.length - offset) ≤ x.length := by omega
        simp only [readPod, hin, if_false, hrest, if_true, hv _ hbytes]
      · rw [hiff] at hcut
        have hrest : ¬n - (buf.length - offset) ≤ x.length := by omega
        exact ⟨overwrite (buf.drop offset) old, by simp only [readPod, hin, if_false, hrest]⟩

/-- The loop of the string reader takes its bytes from the chunk it is in. -/
lemma readChars_of_within (p : ℕ) (v : List UInt8) {bs buf : List UInt8} {offset : ℕ}
    (rest : List (List UInt8)) (hle : bs.length ≤ buf.length - offset)
    (hbytes : (buf.drop offset).take bs.length = bs) :
    ∃ c', readChars rest bs.length v buf offset = .done (v ++ bs) c' ∧
      Advance p bs.length ⟨buf, offset, rest⟩ c' := by
  refine ⟨⟨buf, offset + bs.length, rest⟩, ?_, ?_⟩
  · cases rest with
    | nil =>
      rw [readChars]
      simp only [Nat.min_eq_left hle, Nat.sub_self, if_true, hbytes]
    | cons x rest =>
      rw [readChars]
      simp only [Nat.min_eq_left hle, Nat.sub_self, if_true, hbytes]
  · rcases Nat.eq_zero_or_pos bs.length with hz | hpos
    · rw [hz]
      exact Advance.refl _ _
    · exact advance_within _ _ _ (by omega)

/-- The loop of the string reader takes its bytes from any cut. -/
lemma readChars_spec (p : ℕ) (v bs : List UInt8) {buf : List UInt8} {offset : ℕ}
    {rest : List (List UInt8)} {tail : List UInt8}
    (hrem : (Cursor.mk buf offset rest).remaining = bs ++ tail) :
    ∃ c', readChars rest bs.length v buf offset = .done (v ++ bs) c' ∧
      Advance p bs.length ⟨buf, offset, rest⟩ c' := by
  induction rest generalizing p v bs buf offset with
  | nil =>
    simp only [Cursor.remaining, List.flatten_nil, List.append_nil] at hrem
    have hle : bs.length ≤ buf.length - offset := by
      have := congrArg List.length hrem
      simp only [List.length_drop, List.length_append] at this
      omega
    have hbytes : (buf.drop offset).take bs.length = bs := by rw [hrem, List.take_left]
    exact readChars_of_within p v [] hle hbytes
  | cons x rest ih =>
    simp only [Cursor.remaining] at hrem
    by_cases hle : bs.length ≤ buf.length - offset
    · have hbytes : (buf.drop offset).take bs.length = bs := by
        have := congrArg (List.take bs.length) hrem
        rwa [List.take_left, List.take_append_of_le_length (by rw [List.length_drop]; exact hle)]
          at this
      exact readChars_of_within p v (x :: rest) hle hbytes
    · -- the chunk is used up and the loop pulls the next one
      have hlt : buf.length - offset < bs.length := by omega
      have htake : buf.drop offset = bs.take (buf.length - offset) := by
        have := congrArg (List.take (buf.length - offset)) hrem
        rwa [List.take_append_of_le_length (by rw [List.length_drop]),
          List.take_of_length_le (by rw [List.length_drop]),
          List.take_append_of_le_length (by omega)] at this
      have hdrop : (x :: rest).flatten = bs.drop (buf.length - offset) ++ tail := by
        have := congrArg (List.drop (buf.length - offset)) hrem
        rwa [List.drop_append_of_le_length (by rw [List.length_drop]),
          List.drop_of_length_le (by rw [List.length_drop]), List.nil_append,
          List.drop_append_of_le_length (by omega)] at this
      have hrem' : (Cursor.mk x 0 rest).remaining = bs.drop (buf.length - offset) ++ tail := hdrop
      obtain ⟨c', hrun, hadv⟩ := ih (p + (buf.length - offset)) (v ++ buf.drop offset) _ hrem'
      rw [List.length_drop] at hrun hadv
      refine ⟨c', ?_, Advance.of_next hlt hadv⟩
      rw [readChars]
      have hmin : min bs.length (buf.length - offset) = buf.length - offset := by omega
      have hne : ¬bs.length - (buf.length - offset) = 0 := by omega
      have hall : (buf.drop offset).take (buf.length - offset) = buf.drop offset :=
        List.take_of_length_le (by rw [List.length_drop])
      simp only [hmin, hne, if_false, hall, hrun]
      rw [List.append_assoc, htake, List.take_append_drop]

lemma readInt32_spec (p : ℕ) {n : ℕ} (hn : n < 2 ^ 31) {c : Cursor UInt8} {tail : List UInt8}
    (hrem : c.remaining = le32 n ++ tail) :
    Reads [⟨p, int32Size.val⟩] p int32Size.val (n : ℤ) c (readInt32 c) := by
  have h := (readPod_spec int32Size.property.1 p (List.Vector.replicate int32Size.val 0)
    ⟨le32 n, length_le32 n⟩ hrem).map fun v => ofLe32 v.toList
  rw [← ofLe32_le32 hn]
  exact h

/-- What follows a length prefix starts right behind it. -/
lemma remaining_of_le32 {p n : ℕ} {c c' : Cursor UInt8} {bs : List UInt8}
    (hrem : c.remaining = le32 n ++ bs) (hadv : Advance p int32Size.val c c') :
    c'.remaining = bs := by
  rw [hadv.remaining_eq, hrem]
  exact List.drop_left' (length_le32 n)

lemma readContents_spec (p : ℕ) (old v : List UInt8) {c : Cursor UInt8} {tail : List UInt8}
    (hrem : c.remaining = v ++ tail) :
    Reads [] p v.length (old ++ v) c (readContents old v.length c) := by
  have hrun : readContents old v.length c = readChars c.rest v.length old c.buf c.offset := by
    rw [readContents, if_neg (by omega), Int.toNat_natCast]
  rw [hrun]
  exact ⟨fun _ => readChars_spec p old v hrem, fun h => (h (atMostOneCut_nil _)).elim⟩

lemma readString_spec (p : ℕ) (old v : List UInt8) (hfits : v.length < 2 ^ 31) {c : Cursor UInt8}
    {tail : List UInt8} (hrem : c.remaining = le32 v.length ++ v ++ tail) :
    Reads [⟨p, int32Size.val⟩] p (le32 v.length ++ v).length (old ++ v) c (readString old c) := by
  rw [List.append_assoc] at hrem
  rw [List.length_append]
  have h : Reads ([⟨p, int32Size.val⟩] ++ []) p (int32Size.val + v.length) (old ++ v) c
      (readString old c) :=
    (readInt32_spec p hfits hrem).andThen (by simp) fun c' hadv =>
      readContents_spec _ old v (remaining_of_le32 hrem hadv)
  exact h

/-- The loop over the elements, from a specification of the element reader. -/
lemma readItems_spec {α : Type} {flat : α → List UInt8} {spans : ℕ → α → List Span}
    {fits : α → Prop} {overlay : α → α → α} {read : α → Reader α}
    (hspans : ∀ p x, ∀ q ∈ spans p x, p ≤ q.start ∧ q.stop ≤ p + (flat x).length)
    (hread : ∀ p old v, fits v → ∀ c tail, c.remaining = flat v ++ tail →
      Reads (spans p v) p (flat v).length (overlay old v) c (read old c))
    (p : ℕ) (olds vs : List α) (hlen : olds.length = vs.length) (hfits : ∀ x ∈ vs, fits x)
    {c : Cursor UInt8} {tail : List UInt8} (hrem : c.remaining = vs.flatMap flat ++ tail) :
    Reads (Schema.itemSpans (fun x => (flat x).length) spans p vs) p (vs.flatMap flat).length
      (List.zipWith overlay olds vs) c (readItems read olds c) := by
  induction vs generalizing p olds c with
  | nil =>
    obtain rfl := List.eq_nil_of_length_eq_zero hlen
    exact ⟨fun _ => ⟨c, rfl, Advance.refl _ _⟩, fun h => (h (atMostOneCut_nil _)).elim⟩
  | cons v vs ih =>
    obtain ⟨old, olds, rfl⟩ := List.exists_cons_of_length_eq_add_one hlen
    rw [List.flatMap_cons, List.append_assoc] at hrem
    rw [List.flatMap_cons, List.length_append]
    refine (hread p old v (hfits v (by simp)) c _ hrem).andThen ?_ fun c' hadv => ?_
    · exact fun q hq => (Schema.itemSpans_bounds hspans _ _ q hq).1
    · have hrem' : c'.remaining = vs.flatMap flat ++ tail := by
        rw [hadv.remaining_eq, hrem, List.drop_left]
      exact (ih (p + (flat v).length) olds (by simpa using hlen)
        (fun x hx => hfits x (by simp [hx])) hrem').map fun ys => overlay old v :: ys

namespace Schema

/-- The reader of a field type, run from the start of an encoding, over any cut of it. -/
lemma read_spec (s : Schema) (p : ℕ) (old v : s.Val) (hfits : Fits s v) {c : Cursor UInt8}
    {tail : List UInt8} (hrem : c.remaining = flat s v ++ tail) :
    Reads (podSpans s p v) p (flat s v).length (overlay s old v) c (s.read old c) := by
  induction s generalizing p c tail with
  | pod size =>
    have h := readPod_spec size.property.1 p old v hrem
    rw [flat_pod, List.Vector.toList_length]
    exact h
  | string => exact readString_spec p old v hfits hrem
  | vector elem ih =>
    change List elem.Val at v old
    obtain ⟨hsize, hitems⟩ := hfits
    rw [flat_vector, List.append_assoc] at hrem
    rw [flat_vector, List.length_append]
    refine (readInt32_spec p hsize hrem).andThen
      (fun q hq => (itemSpans_bounds (podSpans_bounds elem) _ _ q hq).1) fun c' hadv => ?_
    have hrun : readElements elem.zero (read elem) old v.length c' =
        readItems (read elem) (resize elem.zero v.length old) c' := by
      rw [readElements, if_neg (by omega), Int.toNat_natCast]
    rw [hrun]
    exact readItems_spec (podSpans_bounds elem) (fun p old v hv c tail h => ih p old v hv h) _ _ v
      (length_resize _ _ _) hitems (remaining_of_le32 hrem hadv)
  | proto fields ih => exact ih p old v hfits hrem
  | field first rest ih₁ ih₂ =>
    obtain ⟨hfits₁, hfits₂⟩ := hfits
    rw [flat_field, List.append_assoc] at hrem
    rw [flat_field, List.length_append]
    refine (ih₁ p old.1 v.1 hfits₁ hrem).andThen le_start_of_mem_podSpans fun c' hadv => ?_
    have hrem' : c'.remaining = flat rest v.2 ++ tail := by
      rw [hadv.remaining_eq, hrem, List.drop_left]
    exact (ih₂ _ old.2 v.2 hfits₂ hrem').map fun y => (overlay first old.1 v.1, y)

end Schema

/-! ## Reading anything -/

namespace Outcome

variable {ε β α γ : Type*} {P : γ → Prop} {o : Outcome ε β α}

@[simp] lemma obj_done (v : α) (c : Cursor β) : (done v c : Outcome ε β α).obj = v := rfl

@[simp] lemma obj_wait (v : α) : (wait v : Outcome ε β α).obj = v := rfl

@[simp] lemma obj_fault (v : α) (e : ε) : (fault v e : Outcome ε β α).obj = v := rfl

@[simp] lemma obj_map (f : α → γ) (o : Outcome ε β α) : (o.map f).obj = f o.obj := by
  cases o <;> rfl

/-- What holds of the object wherever the two parts of a run leave it. -/
lemma obj_andThen {embed : α → γ} {k : α → Cursor β → Outcome ε β γ} (hembed : P (embed o.obj))
    (hk : ∀ c, P (k o.obj c).obj) : P (o.andThen embed k).obj := by
  cases o with
  | done v c => exact hk c
  | wait v => exact hembed
  | fault v e => exact hembed

end Outcome

lemma readInt32_lt (c : Cursor UInt8) : (readInt32 c).obj < 2 ^ 31 := by
  rw [readInt32, Outcome.obj_map]
  exact ofLe32_lt _

lemma length_readChars_le (rest : List (List UInt8)) (len : ℕ) (v buf : List UInt8) (offset : ℕ) :
    (readChars rest len v buf offset).obj.length ≤ v.length + len := by
  induction rest generalizing len v buf offset with
  | nil =>
    rw [readChars]
    split <;>
      simp only [Outcome.obj_done, Outcome.obj_wait, List.length_append, List.length_take] <;>
      omega
  | cons x rest ih =>
    rw [readChars]
    split
    · simp only [Outcome.obj_done, List.length_append, List.length_take]
      omega
    · refine (ih _ _ _ _).trans ?_
      simp only [List.length_append, List.length_take]
      omega

lemma length_readContents_lt {len : ℤ} (hlen : len < 2 ^ 31) (c : Cursor UInt8) :
    (readContents [] len c).obj.length < 2 ^ 31 := by
  rw [readContents]
  split
  · simp [Outcome.obj]
  · have := length_readChars_le c.rest len.toNat [] c.buf c.offset
    rw [List.length_nil] at this
    omega

/-- The loop over the elements leaves as many as there were. -/
lemma readItems_obj {α : Type} {read : α → Reader α} {P Q : α → Prop} {xs : List α}
    (hxs : ∀ x ∈ xs, Q x) (hkeep : ∀ x, Q x → P x) (hread : ∀ x, Q x → ∀ c, P (read x c).obj)
    (c : Cursor UInt8) :
    (readItems read xs c).obj.length = xs.length ∧ ∀ y ∈ (readItems read xs c).obj, P y := by
  induction xs generalizing c with
  | nil => simp [readItems, Outcome.obj]
  | cons x xs ih =>
    have hx := hread x (hxs x (by simp)) c
    have hrest : ∀ y ∈ xs, Q y := fun y hy => hxs y (by simp [hy])
    rw [readItems]
    refine Outcome.obj_andThen (P := fun ys : List α => ys.length = (x :: xs).length ∧
      ∀ y ∈ ys, P y) ⟨by simp, ?_⟩ fun c' => ?_
    · exact List.forall_mem_cons.mpr ⟨hx, fun y hy => hkeep y (hrest y hy)⟩
    · obtain ⟨hlen, hmem⟩ := ih hrest c'
      rw [Outcome.obj_map]
      exact ⟨by simp [hlen], List.forall_mem_cons.mpr ⟨hx, hmem⟩⟩

namespace Schema

lemma fits_vector_nil (elem : Schema) : Fits (vector elem) ([] : List elem.Val) :=
  ⟨Nat.two_pow_pos 31, by simp⟩

lemma fits_of_fresh {s : Schema} {old : s.Val} (h : Fresh s old) : Fits s old := by
  induction s with
  | pod size => trivial
  | string =>
    obtain rfl : old = ([] : List UInt8) := h
    decide
  | vector elem ih =>
    obtain rfl : old = ([] : List elem.Val) := h
    exact fits_vector_nil elem
  | proto fields ih => exact ih h
  | field first rest ih₁ ih₂ => exact ⟨ih₁ h.1, ih₂ h.2⟩

/-- Whatever is read into a fresh object, its lengths fit in `int32_t` after it. -/
lemma fits_read (s : Schema) {old : s.Val} (hfresh : Fresh s old) (c : Cursor UInt8) :
    Fits s (s.read old c).obj := by
  induction s generalizing c with
  | pod size => trivial
  | string =>
    obtain rfl : old = ([] : List UInt8) := hfresh
    exact Outcome.obj_andThen (P := fun v : List UInt8 => v.length < 2 ^ 31) (by decide) fun c' =>
      length_readContents_lt (readInt32_lt c) c'
  | vector elem ih =>
    obtain rfl : old = ([] : List elem.Val) := hfresh
    have hsize := readInt32_lt c
    refine Outcome.obj_andThen (P := Fits (vector elem)) (fits_vector_nil elem) fun c' => ?_
    rw [readElements]
    split
    · exact fits_vector_nil elem
    · rw [resize_nil]
      have hzero : ∀ x ∈ List.replicate (readInt32 c).obj.toNat elem.zero, Fresh elem x :=
        fun x hx => List.eq_of_mem_replicate hx ▸ fresh_zero elem
      obtain ⟨hlen, hitems⟩ := readItems_obj (P := Fits elem) hzero
        (fun x hx => fits_of_fresh hx) (fun x hx c => ih hx c) c'
      rw [List.length_replicate] at hlen
      exact ⟨by omega, hitems⟩
  | proto fields ih => exact ih hfresh c
  | field first rest ih₁ ih₂ =>
    refine Outcome.obj_andThen (P := Fits (field first rest))
      ⟨ih₁ hfresh.1 c, fits_of_fresh hfresh.2⟩ fun c' => ?_
    rw [Outcome.obj_map]
    exact ⟨ih₁ hfresh.1 c, ih₂ hfresh.2 c'⟩

/-- The same of the object whose coroutine has been pushed some chunks. -/
lemma fits_readCoro {s : Schema} {target : s.Val} (hfresh : Fresh s target)
    (chunks : List (List UInt8)) : Fits s (s.readCoro target chunks).obj := by
  cases chunks with
  | nil => exact fits_of_fresh hfresh
  | cons x xs => exact fits_read s hfresh ⟨x, 0, xs⟩

end Schema

end OldPart
