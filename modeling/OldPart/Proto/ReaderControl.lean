import OldPart.Proto.ReadPart

/-!
# What decides where a reader stands

What the object held before decides what is in it afterwards, and nothing else: where a reader
returns, waits or fails, only the chunks say.  So what is known about readers of fresh objects
is known about all of them, as far as it does not speak of the object.
-/

namespace OldPart

lemma readPod_bare {n : ℕ} (old old' : List.Vector UInt8 n) (c : Cursor UInt8) :
    (readPod n old c).bare = (readPod n old' c).bare := by
  obtain ⟨buf, offset, rest⟩ := c
  simp only [readPod]
  split
  · rfl
  · cases rest with
    | nil => rfl
    | cons x rest =>
      dsimp only
      split <;> rfl

lemma readChars_bare (rest : List (List UInt8)) (len : ℕ) (v v' buf : List UInt8) (offset : ℕ) :
    (readChars rest len v buf offset).bare = (readChars rest len v' buf offset).bare := by
  induction rest generalizing len v v' buf offset with
  | nil =>
    rw [readChars.eq_def, readChars.eq_def [] len v']
    dsimp only
    split <;> rfl
  | cons x rest ih =>
    rw [readChars.eq_def, readChars.eq_def (x :: rest) len v']
    dsimp only
    split
    · rfl
    · exact ih _ _ _ _ _

lemma readString_bare (old old' : List UInt8) (c : Cursor UInt8) :
    (readString old c).bare = (readString old' c).bare := by
  unfold readString
  cases readInt32 c with
  | done len d =>
    simp only [Outcome.andThen_done, readContents]
    split
    · rfl
    · exact readChars_bare _ _ _ _ _ _
  | wait len => rfl
  | fault len e => rfl

lemma readItems_bare {α : Type} {read : α → Reader α}
    (h : ∀ x y c, (read x c).bare = (read y c).bare) {xs ys : List α}
    (hlen : xs.length = ys.length) (c : Cursor UInt8) :
    (readItems read xs c).bare = (readItems read ys c).bare := by
  induction xs generalizing ys c with
  | nil =>
    obtain rfl := List.length_eq_zero_iff.mp hlen.symm
    rfl
  | cons x xs ih =>
    cases ys with
    | nil => cases hlen
    | cons y ys =>
      refine Outcome.bare_andThen (h x y c) fun v v' d => ?_
      rw [Outcome.bare_map, Outcome.bare_map]
      exact ih (Nat.succ.inj hlen) d

namespace Schema

lemma read_bare (s : Schema) (old old' : s.Val) (c : Cursor UInt8) :
    (s.read old c).bare = (s.read old' c).bare := by
  induction s generalizing c with
  | pod size => exact readPod_bare old old' c
  | string => exact readString_bare old old' c
  | vector elem ih =>
    change (readVector elem.zero (read elem) old c).bare =
      (readVector elem.zero (read elem) old' c).bare
    unfold readVector
    cases readInt32 c with
    | done size d =>
      simp only [Outcome.andThen_done, readElements]
      split
      · rfl
      · exact readItems_bare ih (by rw [length_resize, length_resize]) d
    | wait size => rfl
    | fault size e => rfl
  | proto fields ih => exact ih old old' c
  | field first rest ih₁ ih₂ =>
    refine Outcome.bare_andThen (ih₁ old.1 old'.1 c) fun v v' d => ?_
    rw [Outcome.bare_map, Outcome.bare_map]
    exact ih₂ old.2 old'.2 d

lemma readCoro_bare (s : Schema) (target target' : s.Val) (chunks : List (List UInt8)) :
    (s.readCoro target chunks).bare = (s.readCoro target' chunks).bare := by
  cases chunks with
  | nil => rfl
  | cons x xs => exact read_bare s target target' _

/-- Behind the first bytes of an encoding a reader waits, or it has failed on a POD that is cut
more than once. -/
lemma settled_readCoro_iff {s : Schema} (target : s.Val) {v : s.Val} (hfits : Fits s v)
    {chunks : List (List UInt8)} (hbegins : chunks.flatten <+: flat s v)
    (hlt : chunks.flatten.length < (flat s v).length) :
    (s.readCoro target chunks).Settled ↔
      ¬AtMostOneCut (podSpans s 0 v) (chunkEnds 0 (chunks.map List.length)) := by
  obtain ⟨hwait, hfault⟩ := readCoro_halts (fresh_zero s) hfits hbegins hlt
  rw [← Outcome.settled_bare, readCoro_bare s target s.zero, Outcome.settled_bare]
  constructor
  · intro hsettled hcut
    obtain ⟨w, hw, -⟩ := hwait hcut
    rw [hw] at hsettled
    exact hsettled
  · intro hcut
    obtain ⟨w, hw⟩ := hfault hcut
    rw [hw]
    trivial

end Schema

/-! ## Readers do not hang -/

lemma readPod_failsWith {n : ℕ} (old : List.Vector UInt8 n) (c : Cursor UInt8) :
    (readPod n old c).FailsWith (· ≠ .hang) := by
  obtain ⟨buf, offset, rest⟩ := c
  simp only [readPod]
  split
  · exact Outcome.failsWith_done _ _
  · cases rest with
    | nil => exact Outcome.failsWith_wait _
    | cons x rest =>
      dsimp only
      split
      · exact Outcome.failsWith_done _ _
      · exact Outcome.failsWith_fault _ (by decide)

lemma readInt32_failsWith (c : Cursor UInt8) : (readInt32 c).FailsWith (· ≠ .hang) :=
  (readPod_failsWith _ c).map

lemma readChars_failsWith (rest : List (List UInt8)) (len : ℕ) (v buf : List UInt8) (offset : ℕ) :
    (readChars rest len v buf offset).FailsWith (· ≠ .hang) := by
  induction rest generalizing len v buf offset with
  | nil =>
    rw [readChars.eq_def]
    dsimp only
    split
    · exact Outcome.failsWith_done _ _
    · exact Outcome.failsWith_wait _
  | cons x rest ih =>
    rw [readChars.eq_def]
    dsimp only
    split
    · exact Outcome.failsWith_done _ _
    · exact ih _ _ _ _

lemma readItems_failsWith {α : Type} {read : α → Reader α}
    (h : ∀ x c, (read x c).FailsWith (· ≠ .hang)) (xs : List α) (c : Cursor UInt8) :
    (readItems read xs c).FailsWith (· ≠ .hang) := by
  induction xs generalizing c with
  | nil => exact Outcome.failsWith_done _ _
  | cons x xs ih => exact (h x c).andThen fun y d => (ih d).map

lemma Schema.read_failsWith (s : Schema) (old : s.Val) (c : Cursor UInt8) :
    (s.read old c).FailsWith (· ≠ .hang) := by
  induction s generalizing c with
  | pod size => exact readPod_failsWith old c
  | string =>
    refine (readInt32_failsWith c).andThen fun len d => ?_
    rw [readContents]
    split
    · exact Outcome.failsWith_fault _ (by decide)
    · exact readChars_failsWith _ _ _ _ _
  | vector elem ih =>
    refine (readInt32_failsWith c).andThen fun size d => ?_
    rw [readElements]
    split
    · exact Outcome.failsWith_fault _ (by decide)
    · exact readItems_failsWith ih _ d
  | proto fields ih => exact ih old c
  | field first rest ih₁ ih₂ => exact (ih₁ old.1 c).andThen fun v d => (ih₂ old.2 d).map

/-! ## Readers read no more than their lengths can say -/

lemma readPod_within {n : ℕ} (old : List.Vector UInt8 n) (c : Cursor UInt8) :
    (readPod n old c).Within n c := by
  obtain ⟨buf, offset, rest⟩ := c
  simp only [readPod]
  split
  · simp only [Outcome.Within, Cursor.remaining, List.length_append, List.length_drop]
    omega
  · cases rest with
    | nil =>
      simp only [Outcome.Within, Cursor.remaining, List.flatten_nil, List.append_nil,
        List.length_drop]
      omega
    | cons x rest =>
      dsimp only
      split
      · simp only [Outcome.Within, Cursor.remaining, List.flatten_cons, List.length_append,
          List.length_drop]
        omega
      · trivial

lemma readInt32_within (c : Cursor UInt8) : (readInt32 c).Within int32Size.val c :=
  (readPod_within _ c).map

lemma readChars_within (rest : List (List UInt8)) (len : ℕ) (v buf : List UInt8) (offset : ℕ) :
    (readChars rest len v buf offset).Within len ⟨buf, offset, rest⟩ := by
  induction rest generalizing len v buf offset with
  | nil =>
    rw [readChars.eq_def]
    dsimp only
    split <;>
      (simp only [Outcome.Within, Cursor.remaining, List.flatten_nil, List.append_nil,
        List.length_drop]
       omega)
  | cons x rest ih =>
    rw [readChars.eq_def]
    dsimp only
    split
    · simp only [Outcome.Within, Cursor.remaining, List.length_append, List.length_drop]
      omega
    · have hrest := ih (len - min len (buf.length - offset))
        (v ++ (buf.drop offset).take (min len (buf.length - offset))) x 0
      cases hrun : readChars rest (len - min len (buf.length - offset))
          (v ++ (buf.drop offset).take (min len (buf.length - offset))) x 0 with
      | done w d =>
        rw [hrun] at hrest
        simp only [Outcome.Within, Cursor.remaining, List.flatten_cons, List.length_append,
          List.length_drop, List.drop_zero] at hrest ⊢
        omega
      | wait w =>
        rw [hrun] at hrest
        simp only [Outcome.Within, Cursor.remaining, List.flatten_cons, List.length_append,
          List.length_drop, List.drop_zero] at hrest ⊢
        omega
      | fault w e => trivial

lemma readItems_within {α : Type} {read : α → Reader α} {n : ℕ}
    (h : ∀ x c, (read x c).Within n c) (xs : List α) (c : Cursor UInt8) :
    (readItems read xs c).Within (xs.length * n) c := by
  induction xs generalizing c with
  | nil => exact Nat.le_add_left _ _
  | cons x xs ih =>
    have hboth : (readItems read (x :: xs) c).Within (n + xs.length * n) c :=
      (h x c).andThen fun y d _ => (ih d).map
    refine hboth.mono (le_of_eq ?_)
    rw [List.length_cons]
    ring

/-- A length prefix that was read is one of an `int32_t`. -/
lemma toNat_le_of_readInt32 {c d : Cursor UInt8} {len : ℤ} (h : readInt32 c = .done len d) :
    len.toNat ≤ 2 ^ 31 := by
  have hlt := readInt32_lt c
  rw [h, Outcome.obj_done] at hlt
  omega

lemma Schema.exists_within (s : Schema) : ∃ n, ∀ old c, (s.read old c).Within n c := by
  induction s with
  | pod size => exact ⟨size.val, readPod_within⟩
  | string =>
    refine ⟨int32Size.val + 2 ^ 31, fun old c => (readInt32_within c).andThen fun len d hlen => ?_⟩
    rw [readContents]
    split
    · trivial
    · exact (readChars_within _ _ _ _ _).mono (toNat_le_of_readInt32 hlen)
  | vector elem ih =>
    obtain ⟨n, hn⟩ := ih
    refine ⟨int32Size.val + 2 ^ 31 * n,
      fun old c => (readInt32_within c).andThen fun size d hsize => ?_⟩
    rw [readElements]
    split
    · trivial
    · refine (readItems_within hn _ d).mono ?_
      rw [length_resize]
      exact Nat.mul_le_mul_right n (toNat_le_of_readInt32 hsize)
  | proto fields ih => exact ih
  | field first rest ih₁ ih₂ =>
    obtain ⟨n, hn⟩ := ih₁
    obtain ⟨m, hm⟩ := ih₂
    exact ⟨n + m, fun old c => (hn old.1 c).andThen fun v d _ => (hm old.2 d).map⟩

/-! ## Readers and empty chunks -/

lemma readPod_patient {n : ℕ} (old : List.Vector UInt8 n) : Patient (readPod n old) := by
  rintro ⟨buf, offset, rest⟩ v hwait
  refine Or.inl fun k hk => ?_
  obtain ⟨k, rfl⟩ := Nat.exists_eq_add_of_le' hk
  simp only [readPod] at hwait
  split at hwait
  · cases hwait
  · next hin =>
    cases rest with
    | nil =>
      have hempty : ¬n - (buf.length - offset) ≤ 0 := by omega
      simp only [Cursor.extend, List.nil_append, List.replicate_succ, readPod, hin, if_false,
        List.length_nil, hempty]
      trivial
    | cons x rest =>
      dsimp only at hwait
      split at hwait <;> cases hwait

lemma readInt32_patient : Patient readInt32 := (readPod_patient _).map (readPod_local _ _)

/-- Nothing comes of empty chunks while characters are missing. -/
lemma readChars_empty {len : ℕ} (hlen : len ≠ 0) (v : List UInt8) (n : ℕ) :
    readChars (List.replicate n []) len v [] 0 = .wait v := by
  induction n generalizing v with
  | zero =>
    rw [List.replicate_zero, readChars.eq_def]
    simp [hlen]
  | succ n ih =>
    rw [List.replicate_succ, readChars.eq_def]
    simp [hlen, ih]

lemma readChars_waits {rest : List (List UInt8)} {len : ℕ} {v w buf : List UInt8} {offset : ℕ}
    (h : readChars rest len v buf offset = .wait w) (n : ℕ) :
    readChars (rest ++ List.replicate n []) len v buf offset = .wait w := by
  induction rest generalizing len v buf offset with
  | nil =>
    rw [readChars.eq_def] at h
    dsimp only at h
    split at h
    · cases h
    · next hmore =>
      obtain rfl := Outcome.wait.inj h
      cases n with
      | zero =>
        rw [List.nil_append, List.replicate_zero, readChars.eq_def]
        simp only [hmore, if_false]
      | succ n =>
        rw [List.nil_append, List.replicate_succ, readChars.eq_def]
        simp only [hmore, if_false]
        exact readChars_empty hmore _ n
  | cons x rest ih =>
    rw [readChars.eq_def] at h
    dsimp only at h
    split at h
    · cases h
    · next hmore =>
      rw [List.cons_append, readChars.eq_def]
      simp only [hmore, if_false]
      exact ih h

lemma readString_patient (old : List UInt8) : Patient (readString old) := by
  refine readInt32_patient.andThen readInt32_local fun len => ?_
  intro c w hwait
  refine Or.inr fun n => ?_
  rw [readContents] at hwait ⊢
  split at hwait
  · cases hwait
  · next hlen =>
    rw [if_neg hlen]
    change ¬(readChars (c.rest ++ List.replicate n []) len.toNat old c.buf c.offset).Settled
    rw [readChars_waits hwait n]
    exact Outcome.not_settled_wait w

lemma readItems_patient {α : Type} {read : α → Reader α} (hlocal : ∀ x, Local (read x))
    (h : ∀ x, Patient (read x)) (xs : List α) : Patient (readItems read xs) := by
  induction xs with
  | nil => exact Patient.done _
  | cons x xs ih =>
    exact (h x).andThen (hlocal x) fun y => ih.map (readItems_local hlocal xs)

lemma Schema.read_patient (s : Schema) (old : s.Val) : Patient (s.read old) := by
  induction s with
  | pod size => exact readPod_patient old
  | string => exact readString_patient old
  | vector elem ih =>
    refine readInt32_patient.andThen readInt32_local fun size => ?_
    unfold readElements
    split
    · exact Patient.fault _ _
    · exact readItems_patient (read_local elem) ih _
  | proto fields ih => exact ih old
  | field first rest ih₁ ih₂ =>
    exact (ih₁ old.1).andThen (read_local first old.1) fun v =>
      (ih₂ old.2).map (read_local rest old.2)

namespace Schema

variable {s : Schema} {target : s.Val} {chunks : List (List UInt8)}

lemma readCoro_failsWith (s : Schema) (target : s.Val) (chunks : List (List UInt8)) :
    (s.readCoro target chunks).FailsWith (· ≠ .hang) := by
  cases chunks with
  | nil => exact Outcome.failsWith_wait _
  | cons x xs => exact read_failsWith s target _

/-- How many bytes a reader can be waiting behind is bounded by its field types. -/
lemma exists_length_le (s : Schema) : ∃ n, ∀ target chunks,
    ¬(s.readCoro target chunks).Settled → chunks.flatten.length ≤ n := by
  obtain ⟨n, hn⟩ := exists_within s
  refine ⟨n, fun target chunks hwait => ?_⟩
  obtain ⟨v, hv⟩ := Outcome.eq_wait_of_not_settled hwait
  cases chunks with
  | nil => exact Nat.zero_le n
  | cons x xs =>
    have h := hn target ⟨x, 0, xs⟩
    have hrun : s.read target ⟨x, 0, xs⟩ = .wait v := hv
    rwa [hrun] at h

/-- A reader that waits behind two empty chunks is inside the contents of a string, and empty
chunks never get it out. -/
lemma waits_of_two_empty (h : ¬(s.readCoro target (chunks ++ [[], []])).Settled) (n : ℕ) :
    ¬(s.readCoro target (chunks ++ List.replicate n [])).Settled :=
  OldPart.waits_of_two_empty (read_local s target) (read_patient s target) h n

/-- A reader that waits has waited before. -/
lemma waits_of_append {more : List (List UInt8)}
    (h : ¬(s.readCoro target (chunks ++ more)).Settled) : ¬(s.readCoro target chunks).Settled :=
  fun hsettled => h (settled_of_append (read_local s target) more hsettled)

end Schema

end OldPart
