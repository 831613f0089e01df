import OldPart.Proto.ReaderCuts
import OldPart.Serializer.Deserialize

/-!
# `Deserialize` and the reader's coroutine

Messages that are not compressed are opened one by one, and what they hold is pushed into
the reader.  `Deserialize` gets through them exactly when the reader still waits for a chunk
each time it is pushed one, and does not fail on any.  Whether it still waits after the last
chunk, `Deserialize` does not ask.
-/

namespace OldPart

variable {u : Setup} {key : AesKey} {s : Schema} {target : s.Val}

/-- Whichever message of a stream `m` is, `Deserialize` opens it and finds `x` in it, not
compressed. -/
def OpensTo (u : Setup) (key : AesKey) (m : OMessage) (x : List UInt8) : Prop :=
  m.isCompressed = false ∧
    ∀ i, ∃ b, Deserializer.openBody u key i m = .ok (some b) ∧ b.bytes = x

lemma opensTo_of_plain {m : OMessage} (hcompress : m.isCompressed = false)
    (hencrypt : m.isEncrypted = false) : OpensTo u key m m.bytes := by
  refine ⟨hcompress, fun i => ⟨m.body, ?_, rfl⟩⟩
  rw [Deserializer.openBody, hencrypt]
  rfl

/-- The body is not encrypted, or what it is decrypted to when it is opened as message `i` has the
frame's checksum. -/
def PassesChecksum (u : Setup) (key : AesKey) (i : ℕ) (m : OMessage) : Prop :=
  m.isEncrypted = true → ∀ done pDecryptedBuf,
    u.crypto.aesDecrypt key (u.env.makeBuffer .decrypt i) m.body m.encryptPadNum.toInt32 =
      .ok (done, pDecryptedBuf) → u.crypto.computeChecksum pDecryptedBuf = m.checksum

/-! ## One chunk -/

/-- The reader, waiting behind the chunks `pre`, takes the chunks `xs` one after the other:
it waits for each, and the last does not make it fail. -/
def Takes (s : Schema) (target : s.Val) (pre xs : List (List UInt8)) : Prop :=
  (∀ k < xs.length, ¬(s.readCoro target (pre ++ xs.take k)).Settled) ∧
    (xs ≠ [] → ¬(s.readCoro target (pre ++ xs)).Faulty)

lemma takes_nil (pre : List (List UInt8)) : Takes s target pre [] :=
  ⟨by simp, by simp⟩

lemma takes_cons (pre : List (List UInt8)) (x : List UInt8) (xs : List (List UInt8)) :
    Takes s target pre (x :: xs) ↔
      ¬(s.readCoro target pre).Settled ∧ ¬(s.readCoro target (pre ++ [x])).Faulty ∧
        Takes s target (pre ++ [x]) xs := by
  constructor
  · rintro ⟨hwait, hlast⟩
    have hshift : ∀ k < xs.length, ¬(s.readCoro target (pre ++ [x] ++ xs.take k)).Settled := by
      intro k hk
      have := hwait (k + 1) (by simpa using hk)
      rwa [List.take_succ_cons, ← List.singleton_append, ← List.append_assoc] at this
    have hend : ¬(s.readCoro target (pre ++ [x] ++ xs)).Faulty := by
      have := hlast (by simp)
      rwa [← List.singleton_append, ← List.append_assoc] at this
    refine ⟨by simpa using hwait 0 (by simp), ?_, hshift, fun _ => hend⟩
    cases xs with
    | nil => simpa using hend
    | cons y ys => exact fun hfault => hshift 0 (by simp) (by simpa using hfault.settled)
  · rintro ⟨hwait, hfirst, hshift, hend⟩
    refine ⟨fun k hk => ?_, fun _ => ?_⟩
    · cases k with
      | zero => simpa using hwait
      | succ k =>
        have := hshift k (by simpa using hk)
        rwa [List.append_assoc, List.singleton_append] at this
    · rw [← List.singleton_append, ← List.append_assoc]
      cases xs with
      | nil => simpa using hfirst
      | cons y ys => exact hend (by simp)

namespace Deserializer

/-- A push goes through exactly when the reader waits for it and does not fail on it. -/
lemma push_eq_more_iff {zlib : Zlib} {d d' : Deserializer zlib} {x : List UInt8} :
    d.push s target x = .more d' ↔
      ¬(s.readCoro target d.chunks).Settled ∧ ¬(s.readCoro target (d.chunks ++ [x])).Faulty ∧
        d' = { d with chunks := d.chunks ++ [x] } := by
  unfold push reader
  cases hbefore : s.readCoro target d.chunks with
  | done v c => simp [Outcome.Settled]
  | fault v e => simp [Outcome.Settled]
  | wait v =>
    cases hafter : s.readCoro target (d.chunks ++ [x]) with
    | done w c => simp [hafter, Outcome.Settled, Outcome.Faulty, eq_comm]
    | fault w e => simp [hafter, Outcome.Faulty]
    | wait w => simp [hafter, Outcome.Settled, Outcome.Faulty, eq_comm]

lemma push_ne_rejected {zlib : Zlib} {d d' : Deserializer zlib} {x : List UInt8} :
    d.push s target x ≠ .rejected d' := by
  unfold push
  split
  · dsimp only
    split <;> simp
  · simp
  · simp

lemma openBody_eq_none_iff {i : ℕ} {m : OMessage} :
    openBody u key i m = .ok none ↔ ¬PassesChecksum u key i m := by
  rw [openBody, PassesChecksum]
  by_cases hencrypted : m.isEncrypted = true
  · rw [if_pos hencrypted]
    cases hrun : u.crypto.aesDecrypt key (u.env.makeBuffer .decrypt i) m.body
        m.encryptPadNum.toInt32 with
    | error e => simp [hencrypted]
    | ok opened =>
      obtain ⟨done, pDecryptedBuf⟩ := opened
      simp only [ok_bind, hencrypted, Except.ok.injEq, Prod.mk.injEq, forall_const]
      split
      · next h => simp [h, pure, Except.pure]
      · next h => simp [h, pure, Except.pure]
  · simp [hencrypted]

lemma feed_of_opensTo {turns : ℕ} {d : Deserializer u.zlib} {m : OMessage} {x : List UInt8}
    (h : OpensTo u key m x) :
    d.feed u key s target turns m = { d with taken := d.taken + 1 }.push s target x := by
  obtain ⟨hcompress, hopen⟩ := h
  obtain ⟨b, hb, rfl⟩ := hopen d.taken
  simp [feed, hb, hcompress]

/-! ## Many chunks -/

/-- The messages of a stream go through exactly when the reader takes what they hold. -/
lemma feedAll_eq_more_iff (target : s.Val) (turns : ℕ) {ms : List OMessage} {xs : List (List UInt8)}
    (hopen : List.Forall₂ (OpensTo u key) ms xs) (d d' : Deserializer u.zlib) :
    d.feedAll u key s target turns ms = .more d' ↔
      Takes s target d.chunks xs ∧
        d' = { d with chunks := d.chunks ++ xs, taken := d.taken + ms.length } := by
  induction hopen generalizing d with
  | nil =>
    have hself : d = { d with chunks := d.chunks ++ [], taken := d.taken + 0 } := by simp
    simp only [feedAll, Fed.more.injEq, takes_nil, true_and, List.length_nil]
    rw [← hself]
    exact eq_comm
  | @cons m x ms xs hm hms ih =>
    rw [feedAll, feed_of_opensTo hm, takes_cons]
    cases hpush : Deserializer.push s target { d with taken := d.taken + 1 } x with
    | more d₁ =>
      obtain ⟨hwait, hok, rfl⟩ := push_eq_more_iff.mp hpush
      simp only
      rw [ih]
      simp only [List.append_assoc, List.singleton_append, List.length_cons, Nat.add_assoc,
        Nat.add_comm 1] at hwait hok ⊢
      tauto
    | rejected d₁ => exact (push_ne_rejected hpush).elim
    | fault d₁ e =>
      simp only [reduceCtorEq, false_iff, not_and]
      rintro ⟨hwait, hok, -⟩
      have hmore := (push_eq_more_iff (d := { d with taken := d.taken + 1 })).mpr ⟨hwait, hok, rfl⟩
      rw [hpush] at hmore
      cases hmore

/-- Nothing in a stream of messages that all open makes `Deserialize` return `false`. -/
lemma feedAll_ne_rejected {turns : ℕ} {ms : List OMessage} {xs : List (List UInt8)}
    (hopen : List.Forall₂ (OpensTo u key) ms xs) (d d' : Deserializer u.zlib) :
    d.feedAll u key s target turns ms ≠ .rejected d' := by
  induction hopen generalizing d with
  | nil => simp [feedAll]
  | @cons m x ms xs hm hms ih =>
    rw [feedAll, feed_of_opensTo hm]
    cases hpush : Deserializer.push s target { d with taken := d.taken + 1 } x with
    | more d₁ => exact ih d₁
    | rejected d₁ => exact (push_ne_rejected hpush).elim
    | fault d₁ e => simp

end Deserializer

/-- `Deserialize` returns `true` exactly when there is a message and the reader takes what
the messages hold; the object is then what the reader has made of it so far. -/
lemma deserialize_eq_true_iff {turns : ℕ} {ms : List OMessage} {xs : List (List UInt8)}
    (hopen : List.Forall₂ (OpensTo u key) ms xs) {v : s.Val} :
    deserialize u key s target turns ms = .returned true v ↔
      ms ≠ [] ∧ Takes s target [] xs ∧ (s.readCoro target xs).obj = v := by
  cases ms with
  | nil => simp [deserialize]
  | cons m ms =>
    have hiff := Deserializer.feedAll_eq_more_iff target turns hopen
      (Deserializer.start u.zlib)
    rw [deserialize]
    cases hrun : (Deserializer.start u.zlib).feedAll u key s target turns (m :: ms) with
    | more d =>
      obtain ⟨htakes, rfl⟩ := (hiff d).mp hrun
      simp only [Deserializer.start, List.nil_append] at htakes ⊢
      simp [htakes, Deserializer.reader]
    | rejected d => exact (Deserializer.feedAll_ne_rejected hopen _ _ hrun).elim
    | fault d e =>
      simp only [reduceCtorEq, ne_eq, not_false_eq_true, true_and, false_iff, not_and]
      intro htakes
      rw [(hiff _).mpr ⟨htakes, rfl⟩] at hrun
      cases hrun

/-- It does not return `false`. -/
lemma deserialize_ne_false {turns : ℕ} {ms : List OMessage} {xs : List (List UInt8)}
    (hopen : List.Forall₂ (OpensTo u key) ms xs) (v : s.Val) :
    deserialize u key s target turns ms ≠ .returned false v := by
  cases ms with
  | nil => simp [deserialize]
  | cons m ms =>
    rw [deserialize]
    cases hrun : (Deserializer.start u.zlib).feedAll u key s target turns (m :: ms) with
    | more d => simp
    | rejected d => exact (Deserializer.feedAll_ne_rejected hopen _ _ hrun).elim
    | fault d e => simp

/-- Whatever the messages are, an object that `Deserialize` returns has lengths that fit in
`int32_t`. -/
lemma fits_of_deserialize (hfresh : Schema.Fresh s target) {turns : ℕ} {ms : List OMessage}
    {ok : Bool} {v : s.Val} (hrun : deserialize u key s target turns ms = .returned ok v) :
    Schema.Fits s v := by
  cases ms with
  | nil => cases hrun
  | cons m ms =>
    rw [deserialize] at hrun
    cases hfeed : (Deserializer.start u.zlib).feedAll u key s target turns (m :: ms) with
    | more d =>
      rw [hfeed] at hrun
      obtain rfl := (Deserialized.returned.inj hrun).2
      exact Schema.fits_readCoro hfresh d.chunks
    | rejected d =>
      rw [hfeed] at hrun
      obtain rfl := (Deserialized.returned.inj hrun).2
      exact Schema.fits_readCoro hfresh d.chunks
    | fault d e =>
      rw [hfeed] at hrun
      cases hrun

end OldPart
