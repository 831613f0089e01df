import OldPart.Serializer.DeserializeCorrect
import OldPart.Serializer.ZLibContract

/-!
# `Deserialize` of compressed messages

A body that is compressed becomes as many chunks for the reader as `inflate` fills buffers
with it.  `Deserialize` gets through messages of such bodies exactly when `inflate` does and
the reader takes all the chunks.
-/

namespace OldPart

variable {u : Setup} {key : AesKey} {s : Schema} {target : s.Val}

lemma takes_append (pre xs ys : List (List UInt8)) :
    Takes s target pre (xs ++ ys) ↔ Takes s target pre xs ∧ Takes s target (pre ++ xs) ys := by
  induction xs generalizing pre with
  | nil => simp [takes_nil]
  | cons x xs ih =>
    rw [List.cons_append, takes_cons, takes_cons, ih, List.append_assoc, List.singleton_append]
    tauto

/-- Whichever message of a stream `m` is, `Deserialize` opens it and finds `x` in it,
compressed. -/
def OpensCompressed (u : Setup) (key : AesKey) (m : OMessage) (x : List UInt8) : Prop :=
  m.isCompressed = true ∧ Deserializer.bodyIsNull m = false ∧
    ∀ i, ∃ b, Deserializer.openBody u key i m = .ok (some b) ∧ b.bytes = x

namespace Deserializer

/-- A turn of the loop in which `inflate` does not fail. -/
lemma inflateBody_step {turns : ℕ} {c : UInt8} {cs : List UInt8} {st : u.zlib.Inflate}
    (hret : ¬((u.zlib.inflate st (c :: cs) u.env.maxBody).ret = .streamError ∨
      (u.zlib.inflate st (c :: cs) u.env.maxBody).ret = .dataError)) (d : Deserializer u.zlib) :
    inflateBody u s target (turns + 1) (c :: cs) st d =
      match d.push s target (u.zlib.inflate st (c :: cs) u.env.maxBody).out with
      | .more d => inflateBody u s target turns
          ((c :: cs).drop (u.zlib.inflate st (c :: cs) u.env.maxBody).consumed)
          (u.zlib.inflate st (c :: cs) u.env.maxBody).state d
      | fed => fed := by
  rw [inflateBody]
  cases h : (u.zlib.inflate st (c :: cs) u.env.maxBody).ret with
  | ok => rfl
  | streamEnd => rfl
  | bufError => rfl
  | streamError => exact (hret (Or.inl h)).elim
  | dataError => exact (hret (Or.inr h)).elim

/-- A turn in which it does. -/
lemma inflateBody_ne_more {turns : ℕ} {c : UInt8} {cs : List UInt8} {st : u.zlib.Inflate}
    (hret : (u.zlib.inflate st (c :: cs) u.env.maxBody).ret = .streamError ∨
      (u.zlib.inflate st (c :: cs) u.env.maxBody).ret = .dataError) (d d' : Deserializer u.zlib) :
    inflateBody u s target (turns + 1) (c :: cs) st d ≠ .more d' := by
  rw [inflateBody]
  rcases hret with h | h <;> simp [h]

/-- A body goes through exactly when `inflate` gets through it and the reader takes what it
writes. -/
lemma inflateBody_eq_more_iff {turns : ℕ} {x : List UInt8} {st : u.zlib.Inflate}
    {d d' : Deserializer u.zlib} :
    inflateBody u s target turns x st d = .more d' ↔
      ∃ ys st', u.zlib.inflatePiece u.env.maxBody turns st x = some (ys, st') ∧
        Takes s target d.chunks ys ∧
          d' = { d with chunks := d.chunks ++ ys, strm := some st' } := by
  induction turns generalizing x st d with
  | zero =>
    cases x with
    | nil =>
      rw [inflateBody, Zlib.inflatePiece]
      simp [takes_nil, eq_comm]
    | cons c cs => simp [inflateBody, Zlib.inflatePiece]
  | succ turns ih =>
    cases x with
    | nil =>
      rw [inflateBody, Zlib.inflatePiece]
      simp [takes_nil, eq_comm]
    | cons c cs =>
      rw [Zlib.inflatePiece]
      by_cases hret : (u.zlib.inflate st (c :: cs) u.env.maxBody).ret = .streamError ∨
          (u.zlib.inflate st (c :: cs) u.env.maxBody).ret = .dataError
      · simp [hret, inflateBody_ne_more hret d d']
      · rw [inflateBody_step hret, if_neg hret]
        simp only [Option.map_eq_some_iff, Prod.mk.injEq, Prod.exists]
        cases hpush : d.push s target (u.zlib.inflate st (c :: cs) u.env.maxBody).out with
        | more d₁ =>
          obtain ⟨hwait, hok, rfl⟩ := push_eq_more_iff.mp hpush
          dsimp only
          rw [ih]
          constructor
          · rintro ⟨ys, st', hpiece, htakes, rfl⟩
            refine ⟨_, st', ⟨ys, st', hpiece, rfl, rfl⟩, ?_, ?_⟩
            · exact (takes_cons _ _ _).mpr ⟨hwait, hok, htakes⟩
            · simp
          · rintro ⟨_, _, ⟨ys, st', hpiece, rfl, rfl⟩, htakes, rfl⟩
            exact ⟨ys, st', hpiece, ((takes_cons _ _ _).mp htakes).2.2, by simp⟩
        | rejected d₁ => exact (push_ne_rejected hpush).elim
        | fault d₁ e =>
          simp only [reduceCtorEq, false_iff]
          rintro ⟨_, _, ⟨ys, st', -, rfl, rfl⟩, htakes, -⟩
          obtain ⟨hwait, hok, -⟩ := (takes_cons _ _ _).mp htakes
          have hmore := push_eq_more_iff.mpr ⟨hwait, hok, rfl⟩
          rw [hpush] at hmore
          cases hmore

lemma inflateBody_ne_rejected {turns : ℕ} {x : List UInt8} {st : u.zlib.Inflate}
    {d d' : Deserializer u.zlib} : inflateBody u s target turns x st d ≠ .rejected d' := by
  induction turns generalizing x st d with
  | zero => cases x <;> simp [inflateBody]
  | succ turns ih =>
    cases x with
    | nil => simp [inflateBody]
    | cons c cs =>
      by_cases hret : (u.zlib.inflate st (c :: cs) u.env.maxBody).ret = .streamError ∨
          (u.zlib.inflate st (c :: cs) u.env.maxBody).ret = .dataError
      · rw [inflateBody]
        rcases hret with h | h <;> simp [h]
      · rw [inflateBody_step hret]
        cases hpush : d.push s target (u.zlib.inflate st (c :: cs) u.env.maxBody).out with
        | more d₁ => exact ih
        | rejected d₁ => exact (push_ne_rejected hpush).elim
        | fault d₁ e => simp

/-- Only the checksum test makes `Deserialize` return `false`. -/
lemma feed_eq_rejected_iff {turns : ℕ} {d d' : Deserializer u.zlib} {m : OMessage} :
    d.feed u key s target turns m = .rejected d' ↔ ¬PassesChecksum u key d.taken m ∧ d' = d := by
  rw [← openBody_eq_none_iff, feed]
  cases hopen : openBody u key d.taken m with
  | error e => simp
  | ok o =>
    cases o with
    | none => simp [eq_comm]
    | some b =>
      simp only [reduceCtorEq, Except.ok.injEq, false_and, iff_false]
      split
      · split
        · simp
        · exact inflateBody_ne_rejected
      · exact push_ne_rejected

lemma feed_of_opensCompressed {turns : ℕ} {d : Deserializer u.zlib} {m : OMessage}
    {x : List UInt8} (h : OpensCompressed u key m x) :
    d.feed u key s target turns m = inflateBody u s target turns x
      (d.strm.getD u.zlib.inflateInit) { d with taken := d.taken + 1 } := by
  obtain ⟨hcompress, hnull, hopen⟩ := h
  obtain ⟨b, hb, rfl⟩ := hopen d.taken
  simp [feed, hb, hcompress, hnull]

/-- The messages of a stream go through exactly when `inflate` gets through what they hold and
the reader takes what it writes. -/
lemma feedAll_inflates_iff (target : s.Val) (turns : ℕ) {ms : List OMessage}
    {xs : List (List UInt8)} (hopen : List.Forall₂ (OpensCompressed u key) ms xs)
    (d : Deserializer u.zlib) (cs : List (List UInt8)) :
    (∃ d', d.feedAll u key s target turns ms = .more d' ∧ d'.chunks = cs) ↔
      ∃ ys, u.zlib.inflatePieces u.env.maxBody turns (d.strm.getD u.zlib.inflateInit) xs = some ys ∧
        Takes s target d.chunks ys ∧ d.chunks ++ ys = cs := by
  induction hopen generalizing d with
  | nil => simp [feedAll, Zlib.inflatePieces, takes_nil]
  | @cons m x ms xs hm hms ih =>
    rw [feedAll, feed_of_opensCompressed hm, Zlib.inflatePieces]
    simp only [Option.bind_eq_some_iff, Option.map_eq_some_iff, Prod.exists]
    constructor
    · rintro ⟨d', hrun, hcs⟩
      cases hbody : inflateBody u s target turns x (d.strm.getD u.zlib.inflateInit)
          { d with taken := d.taken + 1 } with
      | more d₁ =>
        rw [hbody] at hrun
        obtain ⟨ys, st', hpiece, htakes, rfl⟩ := inflateBody_eq_more_iff.mp hbody
        obtain ⟨zs, hzs, hmore, rfl⟩ := (ih _).mp ⟨d', hrun, hcs⟩
        exact ⟨ys ++ zs, ⟨ys, st', hpiece, zs, hzs, rfl⟩,
          (takes_append _ _ _).mpr ⟨htakes, hmore⟩, by rw [List.append_assoc]⟩
      | rejected d₁ =>
        rw [hbody] at hrun
        cases hrun
      | fault d₁ e =>
        rw [hbody] at hrun
        cases hrun
    · rintro ⟨_, ⟨ys, st', hpiece, zs, hzs, rfl⟩, htakes, rfl⟩
      obtain ⟨htakes₁, htakes₂⟩ := (takes_append _ _ _).mp htakes
      have hbody := (inflateBody_eq_more_iff (d := { d with taken := d.taken + 1 })).mpr
        ⟨ys, st', hpiece, htakes₁, rfl⟩
      rw [hbody]
      exact (ih _).mpr ⟨zs, hzs, htakes₂, by rw [List.append_assoc]⟩

end Deserializer

/-- `Deserialize` returns `true` exactly when `inflate` gets through the messages and the reader
takes what it writes. -/
lemma deserialize_inflates_iff {turns : ℕ} {ms : List OMessage} {xs : List (List UInt8)}
    (hopen : List.Forall₂ (OpensCompressed u key) ms xs) (hne : ms ≠ []) {v : s.Val} :
    deserialize u key s target turns ms = .returned true v ↔
      ∃ ys, u.zlib.inflatePieces u.env.maxBody turns u.zlib.inflateInit xs = some ys ∧
        Takes s target [] ys ∧ (s.readCoro target ys).obj = v := by
  cases ms with
  | nil => exact (hne rfl).elim
  | cons m ms =>
    have hiff := Deserializer.feedAll_inflates_iff target turns hopen (Deserializer.start u.zlib)
    rw [deserialize]
    constructor
    · intro hrun
      cases hfeed : (Deserializer.start u.zlib).feedAll u key s target turns (m :: ms) with
      | more d =>
        obtain ⟨ys, hys, htakes, hchunks⟩ := (hiff d.chunks).mp ⟨d, hfeed, rfl⟩
        rw [hfeed] at hrun
        refine ⟨ys, hys, htakes, ?_⟩
        obtain rfl : ys = d.chunks := hchunks
        exact (Deserialized.returned.inj hrun).2
      | rejected d =>
        rw [hfeed] at hrun
        cases hrun
      | fault d e =>
        rw [hfeed] at hrun
        cases hrun
    · rintro ⟨ys, hys, htakes, rfl⟩
      obtain ⟨d, hfeed, rfl⟩ := (hiff ys).mpr ⟨ys, hys, htakes, rfl⟩
      rw [hfeed]
      rfl

/-- The same for a caller that has all the time it takes. -/
lemma deserialize_inflates_eventually_iff {ms : List OMessage} {xs : List (List UInt8)}
    (hopen : List.Forall₂ (OpensCompressed u key) ms xs) (hne : ms ≠ []) {v : s.Val} :
    (∃ enough, ∀ turns ≥ enough, deserialize u key s target turns ms = .returned true v) ↔
      ∃ ys, u.zlib.Inflates u.env.maxBody xs ys ∧ Takes s target [] ys ∧
        (s.readCoro target ys).obj = v := by
  constructor
  · rintro ⟨enough, hrun⟩
    obtain ⟨ys, hys, htakes, hobj⟩ :=
      (deserialize_inflates_iff hopen hne).mp (hrun enough le_rfl)
    exact ⟨ys, ⟨enough, hys⟩, htakes, hobj⟩
  · rintro ⟨ys, ⟨enough, hys⟩, htakes, hobj⟩
    exact ⟨enough, fun turns hle => (deserialize_inflates_iff hopen hne).mpr
      ⟨ys, Zlib.inflatePieces_mono hle hys, htakes, hobj⟩⟩

/-- A message with a compressed body. -/
def compressedMessage (messageSequenceId : Int32) (body : List UInt8) : OMessage :=
  makeMessage ⟨1, SerializeMethod.compress, 0⟩ 1 messageSequenceId
    ⟨⟨body, body.length⟩, 0, 0, false⟩

end OldPart
