import OldPart.Proto.ReadPart

/-!
# Bytes that change nothing

A reader fills its object as the bytes come in.  `Schema.kept` goes through the bytes, without
chunks, and says whether the object is still the one it was: as long as each POD byte that has
come is the one the object has, each vector has the size it has, and no string has got a
character.
-/

namespace OldPart

/-! ## Going through the bytes -/

/-- What became of an object as far as the bytes go. -/
inductive Kept where
  /-- It has changed. -/
  | changed
  /-- It has not, and the bytes are used up. -/
  | all
  /-- It has not, it has been read, and there are bytes left. -/
  | rest (bs : List UInt8)
deriving DecidableEq

/-- Go on with the bytes left. -/
def Kept.andThen : Kept → (List UInt8 → Kept) → Kept
  | changed, _ => changed
  | all, _ => all
  | rest bs, k => k bs

/-- A POD. -/
def keptPod {n : ℕ} (old : List.Vector UInt8 n) (bs : List UInt8) : Kept :=
  if bs.take n = old.toList.take bs.length then
    if n ≤ bs.length then .rest (bs.drop n) else .all
  else .changed

/-- A length prefix, and what comes behind it. -/
def keptLength (k : ℤ → List UInt8 → Kept) (bs : List UInt8) : Kept :=
  if int32Size.val ≤ bs.length then k (ofLe32 bs) (bs.drop int32Size.val) else .all

/-- A string. -/
def keptString : List UInt8 → Kept :=
  keptLength fun len bs => if len = 0 then .rest bs else if bs = [] then .all else .changed

/-- The elements of a vector. -/
def keptItems {α : Type} (kept : α → List UInt8 → Kept) : List α → List UInt8 → Kept
  | [], bs => .rest bs
  | x :: xs, bs => (kept x bs).andThen (keptItems kept xs)

/-- An object that held `old`. -/
def Schema.kept : (s : Schema) → s.Val → List UInt8 → Kept
  | pod _, old => keptPod old
  | string, _ => keptString
  | vector elem, old =>
      keptLength fun size bs =>
        if size = (List.length old : ℤ) then keptItems (kept elem) old bs else .changed
  | proto fields, old => kept fields old
  | field first rest, old => fun bs => (kept first old.1 bs).andThen (kept rest old.2)

/-- Some bytes, read into the object, leave it as it was. -/
def Schema.Keeps (s : Schema) (old : s.Val) (bs : List UInt8) : Prop := s.kept old bs ≠ .changed

instance (s : Schema) (old : s.Val) (bs : List UInt8) : Decidable (s.Keeps old bs) :=
  inferInstanceAs (Decidable (s.kept old bs ≠ .changed))

/-- No bytes do. -/
lemma Schema.kept_nil (s : Schema) (old : s.Val) : s.kept old [] = .all := by
  induction s with
  | pod size =>
    have hpos : ¬size.val ≤ ([] : List UInt8).length := Nat.not_le.mpr size.property.1
    rw [kept, keptPod, List.take_nil, List.length_nil, List.take_zero, if_pos rfl]
    exact if_neg hpos
  | string => rfl
  | vector elem _ => rfl
  | proto fields ih => exact ih old
  | field first rest ih _ =>
    show (first.kept old.1 []).andThen (rest.kept old.2) = .all
    rw [ih]
    rfl

/-! ## Readers -/

/-- What a reader of an object that held `old` has come to, from bytes of which `kept` says what
they do to it; a reader that has failed may have come to anything. -/
def KeptBy {α : Type} (old : α) (kept : Kept) (o : Outcome Fault UInt8 α) : Prop :=
  ¬o.Faulty →
    match kept with
    | .changed => o.obj ≠ old
    | .all => o = .wait old
    | .rest bs => ∃ c, o = .done old c ∧ c.remaining = bs

section KeptBy

variable {α β γ : Type} {a : α} {b : β} {pair : α → β → γ} {kept₁ : Kept}
  {kept₂ : List UInt8 → Kept}
  {o : Outcome Fault UInt8 α} {read : Reader β}

/-- An object of two parts is kept as its parts are. -/
lemma KeptBy.andThen (hpair : ∀ x y, pair x y = pair a b → x = a ∧ y = b) (h₁ : KeptBy a kept₁ o)
    (h₂ : ∀ c, KeptBy b (kept₂ c.remaining) (read c)) :
    KeptBy (pair a b) (kept₁.andThen kept₂)
      (o.andThen (fun x => pair x b) fun x c => (read c).map fun y => pair x y) := by
  intro hok
  have hfirst : ¬o.Faulty := by
    intro hfault
    cases o with
    | done v c => exact hfault
    | wait v => exact hfault
    | fault v e => exact hok trivial
  replace h₁ := h₁ hfirst
  cases kept₁ with
  | changed =>
    intro heq
    cases o with
    | done v c =>
      rw [Outcome.andThen_done, Outcome.obj_map] at heq
      exact h₁ (hpair _ _ heq).1
    | wait v => exact h₁ (hpair _ _ heq).1
    | fault v e => exact hfirst trivial
  | all =>
    obtain rfl := h₁
    rfl
  | rest bs =>
    obtain ⟨c, rfl, rfl⟩ := h₁
    rw [Outcome.andThen_done] at hok ⊢
    have hsecond : ¬(read c).Faulty := by
      intro hfault
      apply hok
      cases hread : read c with
      | done v c => rw [hread] at hfault; exact hfault.elim
      | wait v => rw [hread] at hfault; exact hfault.elim
      | fault v e => trivial
    replace h₂ := h₂ c hsecond
    change match kept₂ c.remaining with
      | .changed => _
      | .all => _
      | .rest bs => _
    cases hkept : kept₂ c.remaining with
    | changed =>
      rw [hkept] at h₂
      intro heq
      rw [Outcome.obj_map] at heq
      exact h₂ (hpair _ _ heq).2
    | all =>
      rw [hkept] at h₂
      rw [h₂]
      rfl
    | rest bs =>
      rw [hkept] at h₂
      obtain ⟨c', hdone, hrest⟩ := h₂
      exact ⟨c', by rw [hdone]; rfl, hrest⟩

end KeptBy

section Primitives

variable {c : Cursor UInt8}

/-- A POD that does not fail is read, or its bytes have not all come. -/
lemma readPod_cases {n : ℕ} (old : List.Vector UInt8 n) (hok : ¬(readPod n old c).Faulty) :
    (n ≤ c.remaining.length ∧ ∃ c',
      readPod n old c = .done (overwrite (c.remaining.take n) old) c' ∧
        c'.remaining = c.remaining.drop n) ∨
    (c.remaining.length < n ∧ readPod n old c = .wait (overwrite c.remaining old)) := by
  obtain ⟨buf, offset, rest⟩ := c
  have hlen : (buf.drop offset).length = buf.length - offset := List.length_drop
  simp only [Cursor.remaining]
  by_cases hin : n ≤ buf.length - offset
  · left
    refine ⟨?_, ⟨buf, offset + n, rest⟩, ?_, ?_⟩
    · rw [List.length_append]
      omega
    · rw [List.take_append_of_le_length (by omega)]
      simp only [readPod, hin, if_true]
    · rw [List.drop_append_of_le_length (by omega), List.drop_drop]
  · have hin' : ¬n ≤ (buf.drop offset).length := by omega
    cases rest with
    | nil =>
      right
      rw [List.flatten_nil, List.append_nil]
      refine ⟨by omega, ?_⟩
      simp only [readPod, hin, if_false]
    | cons x rest =>
      left
      by_cases hx : n - (buf.length - offset) ≤ x.length
      · rw [List.flatten_cons, List.length_append, List.length_append]
        refine ⟨by omega, ⟨x, n - (buf.length - offset), rest⟩, ?_, ?_⟩
        · rw [List.take_append, List.take_of_length_le (by omega), hlen,
            List.take_append_of_le_length hx]
          simp only [readPod, hin, if_false, hx, if_true]
        · have hgone : (buf.drop offset).drop n = [] := List.drop_of_length_le (by omega)
          rw [List.drop_append, hgone, hlen, List.drop_append_of_le_length hx, List.nil_append]
      · refine (hok ?_).elim
        simp only [readPod, hin, if_false, hx]
        trivial

/-- Bytes over the beginning of a POD change nothing when they are the ones it has. -/
lemma overwrite_eq_iff {n : ℕ} {src : List UInt8} (hle : src.length ≤ n)
    (old : List.Vector UInt8 n) : overwrite src old = old ↔ src = old.toList.take src.length := by
  have hlist : (overwrite src old).toList = src ++ old.toList.drop src.length := by
    change src.take n ++ old.toList.drop src.length = _
    rw [List.take_of_length_le hle]
  rw [← List.Vector.toList_injective.eq_iff, hlist]
  nth_rewrite 2 [← List.take_append_drop src.length old.toList]
  exact List.append_left_inj _

lemma keptPod_spec {n : ℕ} (old : List.Vector UInt8 n) :
    KeptBy old (keptPod old c.remaining) (readPod n old c) := by
  intro hok
  have hlen : old.toList.length = n := old.toList_length
  rcases readPod_cases old hok with ⟨hle, c', hdone, hrest⟩ | ⟨hlt, hwait⟩
  · have htake : (c.remaining.take n).length = n := by
      rw [List.length_take]
      omega
    have hiff := overwrite_eq_iff htake.le old
    have hall : old.toList.take c.remaining.length = old.toList.take n := by
      rw [List.take_of_length_le (by omega), List.take_of_length_le (by omega)]
    rw [htake, ← hall] at hiff
    by_cases hsame : c.remaining.take n = old.toList.take c.remaining.length
    · rw [keptPod, if_pos hsame, if_pos hle]
      exact ⟨c', by rw [hdone, hiff.mpr hsame], hrest⟩
    · rw [keptPod, if_neg hsame, hdone]
      exact fun heq => hsame (hiff.mp heq)
  · have hiff := overwrite_eq_iff hlt.le old
    have hall : c.remaining.take n = c.remaining := List.take_of_length_le hlt.le
    by_cases hsame : c.remaining.take n = old.toList.take c.remaining.length
    · rw [keptPod, if_pos hsame, if_neg (by omega), hwait, hiff.mpr (hall.symm.trans hsame)]
    · rw [keptPod, if_neg hsame, hwait]
      exact fun heq => hsame (hall.trans (hiff.mp heq))

lemma ofLe32_take (bs : List UInt8) : ofLe32 (bs.take int32Size.val) = ofLe32 bs := by
  match bs with
  | [] => rfl
  | [_] => rfl
  | [_, _] => rfl
  | [_, _, _] => rfl
  | _ :: _ :: _ :: _ :: _ => rfl

/-- A length prefix does not change the object. -/
lemma keptLength_spec {α : Type} {old : α} {kept : ℤ → List UInt8 → Kept} {read : ℤ → Reader α}
    (hread : ∀ len c, KeptBy old (kept len c.remaining) (read len c)) :
    KeptBy old (keptLength kept c.remaining) ((readInt32 c).andThen (fun _ => old) read) := by
  intro hok
  have hint : ¬(readPod int32Size.val (List.Vector.replicate int32Size.val 0) c).Faulty := by
    intro hfault
    rw [readInt32] at hok
    cases hrun : readPod int32Size.val (List.Vector.replicate int32Size.val 0) c with
    | done v c' => rw [hrun] at hfault; exact hfault
    | wait v => rw [hrun] at hfault; exact hfault
    | fault v e => rw [hrun] at hok; exact hok trivial
  rcases readPod_cases _ hint with ⟨hle, c', hdone, hrest⟩ | ⟨hlt, hwait⟩
  · have hlen : (c.remaining.take int32Size.val).length = int32Size.val := by
      rw [List.length_take]
      omega
    have hvalue : ofLe32 (overwrite (c.remaining.take int32Size.val)
        (List.Vector.replicate int32Size.val 0)).toList = ofLe32 c.remaining := by
      rw [overwrite_of_length _ hlen]
      exact ofLe32_take c.remaining
    have hrun : (readInt32 c).andThen (fun _ => old) read = read (ofLe32 c.remaining) c' := by
      rw [readInt32, hdone, Outcome.map_done, Outcome.andThen_done, hvalue]
    rw [hrun] at hok ⊢
    rw [keptLength, if_pos hle, ← hrest]
    exact hread _ c' hok
  · rw [keptLength, if_neg (by omega), readInt32, hwait]
    rfl

lemma keptString_spec (old : List UInt8) :
    KeptBy old (keptString c.remaining) (readString old c) := by
  apply keptLength_spec
  intro len c hok
  rw [readContents] at hok ⊢
  by_cases hneg : len < 0
  · rw [if_pos hneg] at hok
    exact (hok trivial).elim
  · rw [if_neg hneg]
    obtain ⟨n, rfl⟩ := Int.eq_ofNat_of_zero_le (Int.not_lt.mp hneg)
    rw [Int.toNat_natCast]
    by_cases hshort : c.remaining.length < n
    · -- not all the characters have come
      have hlong : ¬(n : ℤ) = 0 := by omega
      have hrun : readChars c.rest n old c.buf c.offset = .wait (old ++ c.remaining) :=
        readChars_halts old (by rwa [Cursor.remaining, List.length_append] at hshort)
      rw [hrun, if_neg hlong]
      by_cases hnone : c.remaining = []
      · rw [if_pos hnone, hnone, List.append_nil]
      · rw [if_neg hnone]
        exact fun heq => hnone (List.append_right_eq_self.mp heq)
    · have hbytes : c.remaining = c.remaining.take n ++ c.remaining.drop n :=
        (List.take_append_drop n c.remaining).symm
      have hlen : (c.remaining.take n).length = n := by
        rw [List.length_take]
        omega
      obtain ⟨c', hrun, hadv⟩ := readChars_spec 0 old (c.remaining.take n) hbytes
      rw [hlen] at hrun hadv
      rw [hrun]
      by_cases hzero : (n : ℤ) = 0
      · obtain rfl : n = 0 := by omega
        rw [if_pos hzero]
        exact ⟨c', by rw [List.take_zero, List.append_nil], hadv.remaining_eq⟩
      · have hnone : ¬c.remaining = [] := by
          intro hnil
          rw [hnil, List.length_nil] at hshort
          omega
        rw [if_neg hzero, if_neg hnone]
        intro heq
        have hnil : c.remaining.take n = [] := List.append_right_eq_self.mp heq
        rw [hnil, List.length_nil] at hlen
        omega

lemma keptItems_spec {α : Type} {kept : α → List UInt8 → Kept} {read : α → Reader α}
    (hread : ∀ x c, KeptBy x (kept x c.remaining) (read x c)) (xs : List α) :
    KeptBy xs (keptItems kept xs c.remaining) (readItems read xs c) := by
  induction xs generalizing c with
  | nil => exact fun _ => ⟨c, rfl, rfl⟩
  | cons x xs ih => exact KeptBy.andThen (fun _ _ => List.cons.inj) (hread x c) fun c => ih

end Primitives

namespace Schema

/-- A reader leaves its object as it was when the bytes do. -/
lemma kept_spec (s : Schema) (old : s.Val) (c : Cursor UInt8) :
    KeptBy old (s.kept old c.remaining) (s.read old c) := by
  induction s generalizing c with
  | pod size => exact keptPod_spec old
  | string => exact keptString_spec old
  | vector elem ih =>
    apply keptLength_spec
    intro size c hok
    change List elem.Val at old
    rw [readElements] at hok ⊢
    by_cases hneg : size < 0
    · rw [if_pos hneg] at hok
      exact (hok trivial).elim
    · rw [if_neg hneg] at hok ⊢
      by_cases hsize : size = (old.length : ℤ)
      · have hsame : resize elem.zero size.toNat old = old := by
          rw [hsize, Int.toNat_natCast, resize, List.take_length, Nat.sub_self,
            List.replicate_zero, List.append_nil]
        rw [hsame] at hok ⊢
        rw [if_pos hsize]
        exact keptItems_spec ih old hok
      · rw [if_neg hsize]
        intro heq
        have hlen : (readItems elem.read (resize elem.zero size.toNat old) c).obj.length =
            (resize elem.zero size.toNat old).length :=
          (readItems_obj (P := fun _ => True) (Q := fun _ => True) (by simp) (by simp)
            (by simp) c).1
        rw [heq, length_resize] at hlen
        omega
  | proto fields ih => exact ih old c
  | field first rest ih₁ ih₂ =>
    exact KeptBy.andThen (fun _ _ => Prod.mk.inj) (ih₁ old.1 c) fun c => ih₂ old.2 c

/-- So does the coroutine. -/
lemma readCoro_eq_iff_keeps {s : Schema} {target : s.Val} {chunks : List (List UInt8)}
    (hok : ¬(s.readCoro target chunks).Faulty) :
    (s.readCoro target chunks).obj = target ↔ s.Keeps target chunks.flatten := by
  cases chunks with
  | nil =>
    rw [Keeps, List.flatten_nil, kept_nil]
    exact iff_of_true rfl (by decide)
  | cons x xs =>
    have hkept := s.kept_spec target ⟨x, 0, xs⟩ hok
    have hrem : (Cursor.mk x 0 xs).remaining = (x :: xs).flatten := rfl
    rw [hrem] at hkept
    show (s.read target ⟨x, 0, xs⟩).obj = target ↔ s.kept target (x :: xs).flatten ≠ .changed
    cases hcase : s.kept target (x :: xs).flatten with
    | changed =>
      rw [hcase] at hkept
      exact iff_of_false hkept (fun hne => hne rfl)
    | all =>
      rw [hcase] at hkept
      exact iff_of_true (by rw [hkept]; rfl) (by simp)
    | rest bs =>
      rw [hcase] at hkept
      obtain ⟨c, hdone, -⟩ := hkept
      exact iff_of_true (by rw [hdone]; rfl) (by simp)

end Schema

end OldPart
