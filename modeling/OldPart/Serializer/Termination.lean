import OldPart.Proto.ReaderControl
import OldPart.Serializer.InflateCorrect
import OldPart.Serializer.RoundTrip
import OldPart.Serializer.StoredZlib

/-!
# When `Deserialize` comes to an end

The inner loop of `Deserialize` goes on while the body has bytes that `inflate` has not taken.
Until the stream has ended, each turn uses up bytes of the body or brings bytes to the reader,
and of both there is an end.  Behind the end of the stream a turn pushes an empty chunk and
changes nothing else.  Most readers fail on a second one; one that is inside the contents of a
string asks for the next.  Behind a body that is null a new stream begins.
-/

namespace OldPart

/-! ## `inflate` in the middle of its pieces -/

namespace Zlib

variable {z : Zlib} {size : ℕ}

/-- Given pieces, `inflate` has written the buffers `ys` and is offered `rest`, what it has not
taken of a piece.  Behind a piece that is null it begins anew. -/
inductive Midway (z : Zlib) (size : ℕ) :
    z.Inflate → List (Option (List UInt8)) → List (List UInt8) → z.Inflate → List UInt8 → Prop
  | here (st : z.Inflate) (x : List UInt8) (xs : List (Option (List UInt8))) :
      Midway z size st (some x :: xs) [] st x
  | call {st st' : z.Inflate} {c : UInt8} {cs rest : List UInt8} {xs : List (Option (List UInt8))}
      {ys : List (List UInt8)} :
      ¬((z.inflate st (c :: cs) size).ret = .streamError ∨
        (z.inflate st (c :: cs) size).ret = .dataError) →
      Midway z size (z.inflate st (c :: cs) size).state
        (some ((c :: cs).drop (z.inflate st (c :: cs) size).consumed) :: xs) ys st' rest →
      Midway z size st (some (c :: cs) :: xs) ((z.inflate st (c :: cs) size).out :: ys) st' rest
  | next {st st' : z.Inflate} {rest : List UInt8} {xs : List (Option (List UInt8))}
      {ys : List (List UInt8)} :
      Midway z size st xs ys st' rest → Midway z size st (some [] :: xs) ys st' rest
  | anew {st st' : z.Inflate} {rest : List UInt8} {xs : List (Option (List UInt8))}
      {ys : List (List UInt8)} :
      Midway z size z.inflateInit xs ys st' rest → Midway z size st (none :: xs) ys st' rest

/-- There are bytes behind the end of the stream: `inflate` is offered them and takes and writes
nothing. -/
structure Surplus (z : Zlib) (size : ℕ) (st : z.Inflate) (rest : List UInt8) : Prop where
  rest_ne : rest ≠ []
  ret_eq : (z.inflate st rest size).ret = .streamEnd
  consumed_eq : (z.inflate st rest size).consumed = 0
  out_eq : (z.inflate st rest size).out = []

/-- `st` is a state of some stream that is inflated. -/
def Inflated (z : Zlib) (st : z.Inflate) : Prop := ∃ eaten given, Inflating z st eaten given

lemma Inflated.call {st : z.Inflate} (h : z.Inflated st) (hsize : 0 < size) (input : List UInt8) :
    z.Inflated (z.inflate st input size).state := by
  obtain ⟨eaten, given, hi⟩ := h
  exact ⟨_, _, hi.call input size hsize⟩

lemma Inflated.inflatePiece {turns : ℕ} {st st' : z.Inflate} {x : List UInt8}
    {ys : List (List UInt8)} (h : z.Inflated st) (hsize : 0 < size)
    (hpiece : z.inflatePiece size turns st x = some (ys, st')) : z.Inflated st' := by
  induction turns generalizing st x ys with
  | zero =>
    cases x with
    | nil =>
      obtain ⟨-, rfl⟩ := Prod.mk.inj (Option.some.inj hpiece)
      exact h
    | cons c cs => cases hpiece
  | succ turns ih =>
    cases x with
    | nil =>
      obtain ⟨-, rfl⟩ := Prod.mk.inj (Option.some.inj hpiece)
      exact h
    | cons c cs =>
      rw [Zlib.inflatePiece] at hpiece
      split at hpiece
      · cases hpiece
      · obtain ⟨⟨zs, st₁⟩, hrest, hr⟩ := Option.map_eq_some_iff.mp hpiece
        obtain ⟨-, rfl⟩ := Prod.mk.inj hr
        exact ih (h.call hsize (c :: cs)) hrest

/-- A piece that is done comes before the others. -/
lemma Midway.after_piece {turns : ℕ} {st st₁ st' : z.Inflate} {x rest : List UInt8}
    {xs : List (Option (List UInt8))} {ys zs : List (List UInt8)}
    (hpiece : z.inflatePiece size turns st x = some (ys, st₁))
    (h : z.Midway size st₁ xs zs st' rest) :
    z.Midway size st (some x :: xs) (ys ++ zs) st' rest := by
  induction turns generalizing st x ys with
  | zero =>
    cases x with
    | nil =>
      obtain ⟨rfl, rfl⟩ := Prod.mk.inj (Option.some.inj hpiece)
      exact h.next
    | cons c cs => cases hpiece
  | succ turns ih =>
    cases x with
    | nil =>
      obtain ⟨rfl, rfl⟩ := Prod.mk.inj (Option.some.inj hpiece)
      exact h.next
    | cons c cs =>
      rw [Zlib.inflatePiece] at hpiece
      split at hpiece
      · cases hpiece
      · next hret =>
        obtain ⟨⟨ys', st₂⟩, hrest, hr⟩ := Option.map_eq_some_iff.mp hpiece
        obtain ⟨rfl, rfl⟩ := Prod.mk.inj hr
        exact .call hret (ih hrest)

/-- Surplus bytes stay. -/
lemma Surplus.again (hz : z.InflateProgress) (hsize : 0 < size) {st : z.Inflate}
    {rest : List UInt8} (hst : z.Inflated st) (h : z.Surplus size st rest) :
    z.Surplus size (z.inflate st rest size).state rest := by
  obtain ⟨eaten, given, hi⟩ := hst
  obtain ⟨hret, hconsumed, hout⟩ := hz.ended hi hsize h.ret_eq rest size hsize
  exact ⟨h.rest_ne, hret, hconsumed, hout⟩

/-- With bytes that are not surplus, `inflate` gets on. -/
lemma InflateProgress.gets_on (hz : z.InflateProgress) (hsize : 0 < size) {st : z.Inflate}
    {rest : List UInt8} (hst : z.Inflated st) (hne : rest ≠ [])
    (hret : ¬((z.inflate st rest size).ret = .streamError ∨
      (z.inflate st rest size).ret = .dataError)) (h : ¬z.Surplus size st rest) :
    0 < (z.inflate st rest size).consumed ∨ (z.inflate st rest size).out ≠ [] := by
  by_contra hstuck
  obtain ⟨hconsumed, hout⟩ := not_or.mp hstuck
  rw [not_not] at hout
  obtain ⟨eaten, given, hi⟩ := hst
  have hpromise := hz.progress hi hne hsize
  simp only [not_or.mp hret, hconsumed, hout, ne_eq, not_true, false_or] at hpromise
  exact h ⟨hne, hpromise, Nat.eq_zero_of_not_pos hconsumed, hout⟩

end Zlib

/-! ## What hangs, and what does not -/

variable {u : Setup} {key : AesKey} {s : Schema} {target : s.Val}

namespace Deserializer

/-- Pushing does not hang. -/
lemma push_ne_hang {zlib : Zlib} (d d' : Deserializer zlib) (x : List UInt8) :
    d.push s target x ≠ .fault d' .hang := by
  unfold push reader
  cases s.readCoro target d.chunks with
  | done v c => simp
  | fault v e => simp
  | wait v =>
    cases hafter : s.readCoro target (d.chunks ++ [x]) with
    | done w c => simp [hafter]
    | wait w => simp [hafter]
    | fault w e =>
      have hne := Schema.readCoro_failsWith s target (d.chunks ++ [x]) w e hafter
      simp [hafter, hne]

/-- A reader that waits behind the chunk has taken it. -/
lemma push_of_waits {zlib : Zlib} {d : Deserializer zlib} {x : List UInt8}
    (h : ¬(s.readCoro target (d.chunks ++ [x])).Settled) :
    d.push s target x = .more { d with chunks := d.chunks ++ [x] } :=
  push_eq_more_iff.mpr ⟨Schema.waits_of_append h, fun hfault => h hfault.settled, rfl⟩

/-- Neither does opening a message. -/
lemma openBody_ne_hang (i : ℕ) (m : OMessage) : openBody u key i m ≠ .error .hang := by
  rw [openBody]
  split
  · rw [Crypto.aesDecrypt]
    dsimp only
    split
    · simp only [ok_bind]
      split <;> simp [pure, Except.pure]
    · rw [Buf.copyN]
      split
      · simp only [ok_bind, pure, Except.pure]
        split <;> simp
      · simp
  · simp

/-! ### More turns -/

lemma inflateBody_mono {turns turns' : ℕ} (hle : turns ≤ turns') {x : List UInt8}
    {st : u.zlib.Inflate} {d : Deserializer u.zlib}
    (h : ∀ d', inflateBody u s target turns x st d ≠ .fault d' .hang) :
    inflateBody u s target turns' x st d = inflateBody u s target turns x st d := by
  induction turns generalizing turns' x st d with
  | zero =>
    cases x with
    | nil => rw [inflateBody, inflateBody]
    | cons c cs => exact (h d (by rw [inflateBody])).elim
  | succ turns ih =>
    cases x with
    | nil => rw [inflateBody, inflateBody]
    | cons c cs =>
      obtain ⟨turns', rfl⟩ := Nat.exists_eq_add_of_le' (Nat.one_le_of_lt hle)
      by_cases hret : (u.zlib.inflate st (c :: cs) u.env.maxBody).ret = .streamError ∨
          (u.zlib.inflate st (c :: cs) u.env.maxBody).ret = .dataError
      · rw [inflateBody, inflateBody]
        rcases hret with hret | hret <;> simp only [hret]
      · rw [inflateBody_step hret] at h ⊢
        rw [inflateBody_step hret]
        cases hpush : d.push s target (u.zlib.inflate st (c :: cs) u.env.maxBody).out with
        | more d₁ =>
          rw [hpush] at h
          exact ih (Nat.le_of_succ_le_succ hle) h
        | rejected d₁ => rfl
        | fault d₁ e => rfl

lemma feed_mono {turns turns' : ℕ} (hle : turns ≤ turns') {m : OMessage}
    {d : Deserializer u.zlib} (h : ∀ d', d.feed u key s target turns m ≠ .fault d' .hang) :
    d.feed u key s target turns' m = d.feed u key s target turns m := by
  unfold feed at h ⊢
  cases hopen : openBody u key d.taken m with
  | error e => rfl
  | ok o =>
    rw [hopen] at h
    cases o with
    | none => rfl
    | some b =>
      dsimp only at h ⊢
      split
      · next hcompressed =>
        simp only [hcompressed, if_true] at h
        split
        · rfl
        · next hnull =>
          simp only [hnull] at h
          exact inflateBody_mono hle h
      · rfl

lemma feedAll_mono {turns turns' : ℕ} (hle : turns ≤ turns') {ms : List OMessage}
    {d : Deserializer u.zlib} (h : ∀ d', d.feedAll u key s target turns ms ≠ .fault d' .hang) :
    d.feedAll u key s target turns' ms = d.feedAll u key s target turns ms := by
  induction ms generalizing d with
  | nil => rfl
  | cons m ms ih =>
    rw [feedAll] at h
    have hfeed : ∀ d', d.feed u key s target turns m ≠ .fault d' .hang := by
      intro d' hhang
      rw [hhang] at h
      exact h d' rfl
    rw [feedAll, feedAll, feed_mono hle hfeed]
    cases hrun : d.feed u key s target turns m with
    | more d₁ =>
      rw [hrun] at h
      exact ih h
    | rejected d₁ => rfl
    | fault d₁ e => rfl

/-! ### Behind the end of the stream -/

/-- One turn there is an empty chunk. -/
lemma inflateBody_surplus {turns : ℕ} {rest : List UInt8} {st : u.zlib.Inflate}
    (hsurplus : u.zlib.Surplus u.env.maxBody st rest) (d : Deserializer u.zlib) :
    inflateBody u s target (turns + 1) rest st d =
      match d.push s target [] with
      | .more d => inflateBody u s target turns rest (u.zlib.inflate st rest u.env.maxBody).state d
      | fed => fed := by
  obtain ⟨hne, hret, hconsumed, hout⟩ := hsurplus
  cases rest with
  | nil => exact (hne rfl).elim
  | cons c cs =>
    have hstep : inflateBody u s target (turns + 1) (c :: cs) st d = _ :=
      inflateBody_step (by simp [hret]) d
    rw [hout, hconsumed, List.drop_zero] at hstep
    exact hstep

section Surplus

variable (hz : u.zlib.InflateProgress) (hpos : 0 < u.env.maxBody)
include hz hpos

/-- A reader that waits for ever is pushed empty chunks for ever. -/
lemma inflateBody_hangs {rest : List UInt8} {st : u.zlib.Inflate}
    (hst : u.zlib.Inflated st) (hsurplus : u.zlib.Surplus u.env.maxBody st rest)
    {d : Deserializer u.zlib}
    (hwaits : ∀ n, ¬(s.readCoro target (d.chunks ++ List.replicate n [])).Settled) (turns : ℕ) :
    ∃ d', inflateBody u s target turns rest st d = .fault d' .hang := by
  induction turns generalizing st d with
  | zero =>
    cases rest with
    | nil => exact (hsurplus.rest_ne rfl).elim
    | cons c cs => exact ⟨d, by rw [inflateBody]⟩
  | succ turns ih =>
    rw [inflateBody_surplus hsurplus, push_of_waits (hwaits 1)]
    refine ih (hst.call hpos rest) (hsurplus.again hz hpos hst) fun n => ?_
    have hmore := hwaits (n + 1)
    rwa [List.replicate_succ, ← List.singleton_append, ← List.append_assoc] at hmore

/-- Any other reader soon has too many. -/
lemma inflateBody_ends {rest : List UInt8} {st : u.zlib.Inflate} (hst : u.zlib.Inflated st)
    (hsurplus : u.zlib.Surplus u.env.maxBody st rest) {d : Deserializer u.zlib} {n : ℕ}
    (hsettled : (s.readCoro target (d.chunks ++ List.replicate n [])).Settled)
    (d' : Deserializer u.zlib) :
    inflateBody u s target (n + 1) rest st d ≠ .fault d' .hang := by
  induction n generalizing st d with
  | zero =>
    rw [List.replicate_zero, List.append_nil] at hsettled
    rw [inflateBody_surplus hsurplus]
    cases hpush : d.push s target [] with
    | more d₁ => exact ((push_eq_more_iff.mp hpush).1 hsettled).elim
    | rejected d₁ => simp
    | fault d₁ e => exact fun h => push_ne_hang d d' [] (hpush.trans h)
  | succ n ih =>
    rw [inflateBody_surplus hsurplus]
    cases hpush : d.push s target [] with
    | more d₁ =>
      obtain ⟨-, -, rfl⟩ := push_eq_more_iff.mp hpush
      refine ih (hst.call hpos rest) (hsurplus.again hz hpos hst) ?_
      rwa [List.replicate_succ, ← List.singleton_append, ← List.append_assoc] at hsettled
    | rejected d₁ => simp
    | fault d₁ e => exact fun h => push_ne_hang d d' [] (hpush.trans h)

end Surplus

/-! ### One body -/

/-- The loop over a body comes to an end, or to bytes behind the end of the stream with a reader
that waits for ever. -/
lemma inflateBody_ends_or_starves (target : s.Val) (hz : u.zlib.InflateProgress)
    (hpos : 0 < u.env.maxBody) (x : List UInt8) {st : u.zlib.Inflate} (hst : u.zlib.Inflated st)
    (d : Deserializer u.zlib) :
    (∃ turns, ∀ d', inflateBody u s target turns x st d ≠ .fault d' .hang) ∨
      ∃ ys st' rest, (∀ xs, u.zlib.Midway u.env.maxBody st (some x :: xs) ys st' rest) ∧
        u.zlib.Surplus u.env.maxBody st' rest ∧
        ¬(s.readCoro target (d.chunks ++ ys ++ [[], []])).Settled := by
  obtain ⟨limit, hlimit⟩ := Schema.exists_length_le s
  -- a turn takes bytes of the body, or adds to what the reader has, of which there is a limit
  induction hmeasure : limit + 1 - d.chunks.flatten.length + x.length using Nat.strong_induction_on
    generalizing x st d with
  | _ measure ih =>
    cases x with
    | nil => exact Or.inl ⟨0, fun d' => by simp [inflateBody]⟩
    | cons c cs =>
      by_cases hret : (u.zlib.inflate st (c :: cs) u.env.maxBody).ret = .streamError ∨
          (u.zlib.inflate st (c :: cs) u.env.maxBody).ret = .dataError
      · refine Or.inl ⟨1, fun d' => ?_⟩
        rw [inflateBody]
        rcases hret with hret | hret <;> simp [hret]
      · by_cases hsurplus : u.zlib.Surplus u.env.maxBody st (c :: cs)
        · by_cases hsettled : (s.readCoro target (d.chunks ++ [[], []])).Settled
          · exact Or.inl ⟨3, inflateBody_ends hz hpos hst hsurplus hsettled⟩
          · refine Or.inr ⟨[], st, c :: cs, fun xs => .here st _ xs, hsurplus, ?_⟩
            rwa [List.append_nil]
        · have hprogress := hz.gets_on hpos hst (List.cons_ne_nil c cs) hret hsurplus
          cases hpush : d.push s target (u.zlib.inflate st (c :: cs) u.env.maxBody).out with
          | rejected d₁ => exact (push_ne_rejected hpush).elim
          | fault d₁ e =>
            refine Or.inl ⟨1, fun d' => ?_⟩
            rw [inflateBody_step hret, hpush]
            exact fun h => push_ne_hang d d' _ (hpush.trans h)
          | more d₁ =>
            obtain ⟨hwait, -, rfl⟩ := push_eq_more_iff.mp hpush
            have hroom := hlimit target d.chunks hwait
            have hless : limit + 1 - (d.chunks ++ [(u.zlib.inflate st (c :: cs) u.env.maxBody).out]
                ).flatten.length + ((c :: cs).drop
                  (u.zlib.inflate st (c :: cs) u.env.maxBody).consumed).length < measure := by
              rw [← hmeasure, List.flatten_append, List.flatten_singleton, List.length_append,
                List.length_drop, List.length_cons]
              rcases hprogress with hconsumed | hout
              · omega
              · have := List.length_pos_of_ne_nil hout
                omega
            rcases ih _ hless _ (hst.call hpos (c :: cs))
                { d with chunks := d.chunks ++ [(u.zlib.inflate st (c :: cs) u.env.maxBody).out] }
                rfl with ⟨turns, hends⟩ | ⟨ys, st', rest, hmidway, hsurplus', hwaits⟩
            · refine Or.inl ⟨turns + 1, fun d' => ?_⟩
              rw [inflateBody_step hret, hpush]
              exact hends d'
            · refine Or.inr ⟨_, st', rest, fun xs => .call hret (hmidway xs), hsurplus', ?_⟩
              rwa [List.append_assoc d.chunks, List.singleton_append] at hwaits

/-! ### All bodies -/

/-- What is left of a body is gone through. -/
def goThrough (u : Setup) (s : Schema) (target : s.Val) (left : ℕ) (x : Option (List UInt8))
    (st : u.zlib.Inflate) (d : Deserializer u.zlib) : Fed u.zlib :=
  match x with
  | none => .more { d with strm := none }
  | some x => inflateBody u s target left x st d

/-- The loop of `Deserialize` from the middle of a body on. -/
def goOn (u : Setup) (key : AesKey) (s : Schema) (target : s.Val) (turns left : ℕ)
    (x : Option (List UInt8)) (st : u.zlib.Inflate) (d : Deserializer u.zlib)
    (ms : List OMessage) : Fed u.zlib :=
  match goThrough u s target left x st d with
  | .more d => d.feedAll u key s target turns ms
  | fed => fed

/-- What `Reset` is given of a body that was opened. -/
def resetWith (m : OMessage) (pBuf : Buf) : Option (List UInt8) :=
  if bodyIsNull m then none else some pBuf.bytes

/-- Messages, the first of which is message `i` of its stream, open to the bodies. -/
inductive OpenFrom (u : Setup) (key : AesKey) :
    ℕ → List OMessage → List (Option (List UInt8)) → Prop
  | nil (i : ℕ) : OpenFrom u key i [] []
  | cons {i : ℕ} {m : OMessage} {b : Buf} {ms : List OMessage}
      {xs : List (Option (List UInt8))} :
      openBody u key i m = .ok (some b) → OpenFrom u key (i + 1) ms xs →
      OpenFrom u key i (m :: ms) (resetWith m b :: xs)

lemma feed_of_open (target : s.Val) (turns : ℕ) {d : Deserializer u.zlib} {m : OMessage}
    {b : Buf} (hcompressed : m.isCompressed = true)
    (hopen : openBody u key d.taken m = .ok (some b)) :
    d.feed u key s target turns m = goThrough u s target turns (resetWith m b)
      (d.strm.getD u.zlib.inflateInit) { d with taken := d.taken + 1 } := by
  rw [feed, hopen, resetWith]
  simp only [hcompressed, if_true]
  split <;> rfl

lemma feedAll_cons_of_open (target : s.Val) (turns : ℕ) {d : Deserializer u.zlib}
    {m : OMessage} {b : Buf} (hcompressed : m.isCompressed = true)
    (hopen : openBody u key d.taken m = .ok (some b))
    (ms : List OMessage) :
    d.feedAll u key s target turns (m :: ms) =
      goOn u key s target turns turns (resetWith m b) (d.strm.getD u.zlib.inflateInit)
        { d with taken := d.taken + 1 } ms := by
  rw [feedAll, feed_of_open target turns hcompressed hopen]
  rfl

/-- Behind a body the next message is opened. -/
lemma goOn_cons_of_open (target : s.Val) (turns left : ℕ) {x : Option (List UInt8)}
    {st : u.zlib.Inflate} {d : Deserializer u.zlib} {strm : Option u.zlib.Inflate}
    (hbehind : goThrough u s target left x st d = .more { d with strm }) {m : OMessage} {b : Buf}
    (hcompressed : m.isCompressed = true) (hopen : openBody u key d.taken m = .ok (some b))
    (ms : List OMessage) :
    goOn u key s target turns left x st d (m :: ms) =
      goOn u key s target turns turns (resetWith m b) (strm.getD u.zlib.inflateInit)
        { d with strm, taken := d.taken + 1 } ms := by
  rw [goOn, hbehind]
  exact feedAll_cons_of_open target turns (d := { d with strm }) hcompressed hopen ms

/-- What goes through is behind it, on either side. -/
lemma goThrough_eq_more (hpos : 0 < u.env.maxBody) {turns : ℕ} {x : Option (List UInt8)}
    {st : u.zlib.Inflate} {d d₁ : Deserializer u.zlib} (hst : u.zlib.Inflated st)
    (h : goThrough u s target turns x st d = .more d₁) :
    ∃ ys, d₁.chunks = d.chunks ++ ys ∧ d₁.taken = d.taken ∧
      u.zlib.Inflated (d₁.strm.getD u.zlib.inflateInit) ∧
      ∀ xs zs st' rest,
        u.zlib.Midway u.env.maxBody (d₁.strm.getD u.zlib.inflateInit) xs zs st' rest →
        u.zlib.Midway u.env.maxBody st (x :: xs) (ys ++ zs) st' rest := by
  cases x with
  | none =>
    obtain rfl := Fed.more.inj h
    exact ⟨[], (List.append_nil _).symm, rfl, ⟨[], [], .init⟩, fun _ _ _ _ => .anew⟩
  | some x =>
    obtain ⟨ys, st₁, hpiece, -, rfl⟩ := inflateBody_eq_more_iff.mp h
    exact ⟨ys, rfl, rfl, hst.inflatePiece hpos hpiece, fun _ _ _ _ => .after_piece hpiece⟩

/-- A body is gone through in so many turns, or not at all. -/
lemma goThrough_ends_or_starves (target : s.Val) (hz : u.zlib.InflateProgress)
    (hpos : 0 < u.env.maxBody) (x : Option (List UInt8)) {st : u.zlib.Inflate}
    (hst : u.zlib.Inflated st) (d : Deserializer u.zlib) :
    (∃ turns fed, (∀ turns' ≥ turns, goThrough u s target turns' x st d = fed) ∧
        ∀ d', fed ≠ .fault d' .hang) ∨
      ∃ ys st' rest, (∀ xs, u.zlib.Midway u.env.maxBody st (x :: xs) ys st' rest) ∧
        u.zlib.Surplus u.env.maxBody st' rest ∧
        ¬(s.readCoro target (d.chunks ++ ys ++ [[], []])).Settled := by
  cases x with
  | none => exact Or.inl ⟨0, _, fun _ _ => rfl, fun d' h => by cases h⟩
  | some x =>
    rcases inflateBody_ends_or_starves target hz hpos x hst d with ⟨turns, hends⟩ | hstarves
    · exact Or.inl ⟨turns, _, fun turns' hle => inflateBody_mono hle hends, hends⟩
    · exact Or.inr hstarves

/-- On the way to bytes behind the end of the stream, and to a reader that waits for ever, there
is no end of `Deserialize`. -/
lemma goOn_hangs (turns : ℕ) (hz : u.zlib.InflateProgress) (hpos : 0 < u.env.maxBody)
    {st st' : u.zlib.Inflate} {x : Option (List UInt8)} {rest : List UInt8}
    {xs : List (Option (List UInt8))} {ys : List (List UInt8)}
    (h : u.zlib.Midway u.env.maxBody st (x :: xs) ys st' rest)
    (hsurplus : u.zlib.Surplus u.env.maxBody st' rest) (hst : u.zlib.Inflated st)
    (d : Deserializer u.zlib) {pre : List OMessage} (hopen : OpenFrom u key d.taken pre xs)
    (hcompressed : ∀ m ∈ pre, m.isCompressed = true)
    (hwaits : ¬(s.readCoro target (d.chunks ++ ys ++ [[], []])).Settled) (left : ℕ)
    (post : List OMessage) :
    ∃ d', goOn u key s target turns left x st d (pre ++ post) = .fault d' .hang := by
  generalize hpieces : x :: xs = pieces at h
  induction h generalizing x xs d pre left with
  | here st x' xs' =>
    obtain ⟨rfl, rfl⟩ := List.cons.inj hpieces
    rw [List.append_nil] at hwaits
    obtain ⟨d', hhang⟩ :=
      inflateBody_hangs hz hpos hst hsurplus (Schema.waits_of_two_empty hwaits) left
    exact ⟨d', by rw [goOn, goThrough, hhang]⟩
  | @call st st' c cs rest xs' ys hret hmidway ih =>
    obtain ⟨rfl, rfl⟩ := List.cons.inj hpieces
    cases left with
    | zero => exact ⟨d, by rw [goOn, goThrough, inflateBody]⟩
    | succ left =>
      have hshift : ¬(s.readCoro target
          (d.chunks ++ [(u.zlib.inflate st (c :: cs) u.env.maxBody).out] ++ ys ++
            [[], []])).Settled := by
        rwa [List.append_assoc d.chunks, List.singleton_append]
      have hpush : d.push s target (u.zlib.inflate st (c :: cs) u.env.maxBody).out = .more { d with
          chunks := d.chunks ++ [(u.zlib.inflate st (c :: cs) u.env.maxBody).out] } :=
        push_of_waits (Schema.waits_of_append (Schema.waits_of_append hshift))
      rw [goOn, goThrough, inflateBody_step hret, hpush]
      exact ih hsurplus (hst.call hpos (c :: cs))
        { d with chunks := d.chunks ++ [(u.zlib.inflate st (c :: cs) u.env.maxBody).out] } hopen
        hcompressed hshift left rfl
  | @next st st' rest xs' ys hmidway ih =>
    obtain ⟨rfl, rfl⟩ := List.cons.inj hpieces
    cases hopen with
    | nil => cases hmidway
    | @cons _ m b ms xs hb hms =>
      have hbehind : goThrough u s target left (some []) st d =
          .more { d with strm := some st } := by rw [goThrough, inflateBody]
      rw [List.cons_append,
        goOn_cons_of_open target turns left hbehind (hcompressed m List.mem_cons_self) hb]
      exact ih hsurplus hst { d with strm := some st, taken := d.taken + 1 } hms
        (fun m hm => hcompressed m (List.mem_cons_of_mem _ hm)) hwaits turns rfl
  | @anew st st' rest xs' ys hmidway ih =>
    obtain ⟨rfl, rfl⟩ := List.cons.inj hpieces
    cases hopen with
    | nil => cases hmidway
    | @cons _ m b ms xs hb hms =>
      have hbehind : goThrough u s target left none st d = .more { d with strm := none } := rfl
      rw [List.cons_append,
        goOn_cons_of_open target turns left hbehind (hcompressed m List.mem_cons_self) hb]
      exact ih hsurplus ⟨[], [], .init⟩ { d with strm := none, taken := d.taken + 1 } hms
        (fun m hm => hcompressed m (List.mem_cons_of_mem _ hm)) hwaits turns rfl

lemma feedAll_ends_or_starves (key : AesKey) (target : s.Val) (hz : u.zlib.InflateProgress)
    (hpos : 0 < u.env.maxBody) {ms : List OMessage} (hcompressed : ∀ m ∈ ms, m.isCompressed = true)
    (d : Deserializer u.zlib) (hst : u.zlib.Inflated (d.strm.getD u.zlib.inflateInit)) :
    (∃ turns, ∀ d', d.feedAll u key s target turns ms ≠ .fault d' .hang) ∨
      ∃ pre xs ys st rest, pre <+: ms ∧ OpenFrom u key d.taken pre xs ∧
        u.zlib.Midway u.env.maxBody (d.strm.getD u.zlib.inflateInit) xs ys st rest ∧
        u.zlib.Surplus u.env.maxBody st rest ∧
        ¬(s.readCoro target (d.chunks ++ ys ++ [[], []])).Settled := by
  induction ms generalizing d with
  | nil => exact Or.inl ⟨0, fun d' => by simp [feedAll]⟩
  | cons m ms ih =>
    have hm := hcompressed m (by simp)
    cases hopen : openBody u key d.taken m with
    | error e =>
      refine Or.inl ⟨0, fun d' h => ?_⟩
      rw [feedAll, feed, hopen] at h
      obtain ⟨-, rfl⟩ := Fed.fault.inj h
      exact openBody_ne_hang _ _ hopen
    | ok o =>
      cases o with
      | none => exact Or.inl ⟨0, fun d' => by simp [feedAll, feed, hopen]⟩
      | some b =>
        rcases goThrough_ends_or_starves target hz hpos (resetWith m b) hst
            { d with taken := d.taken + 1 } with
          ⟨turns, fed, hfed, hends⟩ | ⟨ys, st, rest, hmidway, hsurplus, hwaits⟩
        · cases fed with
          | rejected d₁ =>
            refine Or.inl ⟨turns, fun d' => ?_⟩
            rw [feedAll_cons_of_open target _ hm hopen, goOn, hfed turns le_rfl]
            simp
          | fault d₁ e =>
            refine Or.inl ⟨turns, fun d' => ?_⟩
            rw [feedAll_cons_of_open target _ hm hopen, goOn, hfed turns le_rfl]
            exact hends d'
          | more d₁ =>
            obtain ⟨ys, hchunks, htaken, hst₁, hafter⟩ :=
              goThrough_eq_more hpos hst (hfed turns le_rfl)
            rcases ih (fun m hm => hcompressed m (by simp [hm])) d₁ hst₁ with
              ⟨turns', hends'⟩ | ⟨pre, xs, zs, st, rest, hpre, hxs, hmidway, hsurplus, hwaits⟩
            · refine Or.inl ⟨max turns turns', fun d' => ?_⟩
              rw [feedAll_cons_of_open target _ hm hopen, goOn, hfed _ (le_max_left _ _)]
              dsimp only
              rw [feedAll_mono (le_max_right _ _) hends']
              exact hends' d'
            · rw [htaken] at hxs
              refine Or.inr ⟨m :: pre, _, ys ++ zs, st, rest, (List.prefix_cons_inj m).mpr hpre,
                .cons hopen hxs, hafter _ _ _ _ hmidway, hsurplus, ?_⟩
              rwa [hchunks, List.append_assoc d.chunks] at hwaits
        · exact Or.inr ⟨[m], _, ys, st, rest, List.prefix_append [m] ms,
            .cons hopen (.nil _), hmidway [], hsurplus, hwaits⟩

end Deserializer

/-! ## Termination -/

/-- `Deserialize` of the messages comes to an end. -/
def Terminates (u : Setup) (key : AesKey) (s : Schema) (target : s.Val) (ms : List OMessage) :
    Prop :=
  ∃ turns, ∀ obj, deserialize u key s target turns ms ≠ .failed obj .hang

/-- There is a body with bytes behind the end of the stream, and there the reader is inside the
contents of a string: given two empty chunks it still waits. -/
def Starves (u : Setup) (key : AesKey) (s : Schema) (target : s.Val) (ms : List OMessage) : Prop :=
  ∃ pre xs ys st rest, pre <+: ms ∧ Deserializer.OpenFrom u key 0 pre xs ∧
    u.zlib.Midway u.env.maxBody u.zlib.inflateInit xs ys st rest ∧
    u.zlib.Surplus u.env.maxBody st rest ∧ ¬(s.readCoro target (ys ++ [[], []])).Settled

lemma Starves.not_terminates (hz : u.zlib.InflateProgress) (hpos : 0 < u.env.maxBody)
    {ms : List OMessage} (hcompressed : ∀ m ∈ ms, m.isCompressed = true)
    (h : Starves u key s target ms) : ¬Terminates u key s target ms := by
  have hinit : u.zlib.Inflated u.zlib.inflateInit := ⟨[], [], .init⟩
  obtain ⟨pre, xs, ys, st, rest, ⟨post, rfl⟩, hopen, hmidway, hsurplus, hwaits⟩ := h
  rintro ⟨turns, hends⟩
  cases hopen with
  | nil => cases hmidway
  | @cons _ m b pre xs hb hpre =>
    have hrun := Deserializer.feedAll_cons_of_open target turns
      (d := Deserializer.start u.zlib) (hcompressed m (by simp)) hb (pre ++ post)
    obtain ⟨d', hhang⟩ := Deserializer.goOn_hangs turns hz hpos hmidway hsurplus hinit
      { Deserializer.start u.zlib with taken := 0 + 1 } hpre
      (fun m hm => hcompressed m (by simp [hm])) hwaits turns post
    refine hends (d'.reader s target).obj ?_
    rw [List.cons_append, deserialize, hrun.trans hhang]

/-- With an `inflate` that gets on until the end of the stream and does nothing behind it,
`Deserialize` of compressed messages comes to an end exactly when no body has bytes behind the end
of the stream while the reader is inside the contents of a string. -/
theorem terminates_iff_not_starves (u : Setup) (hz : u.zlib.InflateProgress) (key : AesKey)
    (s : Schema) (target : s.Val) (hpos : 0 < u.env.maxBody) (ms : List OMessage)
    (hcompressed : ∀ m ∈ ms, m.isCompressed = true) :
    Terminates u key s target ms ↔ ¬Starves u key s target ms := by
  constructor
  · exact fun hends hstarves => hstarves.not_terminates hz hpos hcompressed hends
  · intro hstarves
    rcases Deserializer.feedAll_ends_or_starves key target hz hpos
        hcompressed (Deserializer.start u.zlib) ⟨[], [], .init⟩ with
      ⟨turns, hends⟩ | ⟨pre, xs, ys, st, rest, hpre, hopen, hmidway, hsurplus, hwaits⟩
    · refine ⟨turns, fun obj h => ?_⟩
      cases ms with
      | nil => cases h
      | cons m ms =>
        rw [deserialize] at h
        cases hrun : (Deserializer.start u.zlib).feedAll u key s target turns (m :: ms) with
        | more d => rw [hrun] at h; cases h
        | rejected d => rw [hrun] at h; cases h
        | fault d e =>
          rw [hrun] at h
          obtain ⟨-, rfl⟩ := Deserialized.failed.inj h
          exact hends d hrun
    · exact (hstarves ⟨pre, xs, ys, st, rest, hpre, hopen, hmidway, hsurplus, hwaits⟩).elim

/-! ## A byte behind the stream -/

/-- A build with a zlib that stores and stops at the end of a stream. -/
def Setup.storedToEnd : Setup :=
  { Setup.plain 32 (by decide) with zlib := Zlib.storedToEnd }

/-- The stream holds a string that announces two characters and has one.  `inflate` leaves the
byte behind the stream, and the reader waits for the other character. -/
theorem not_terminates_surplus :
    Zlib.storedToEnd.InflateProgress ∧
      (∀ m ∈ [compressedMessage (-1) [0x78, 0x01, 0x01, 5, 0, 0xfa, 0xff, 2, 0, 0, 0, 97,
        0x00, 0x70, 0x00, 0x64, 0]], m.isCompressed = true) ∧
      ¬Terminates Setup.storedToEnd zeroKey .string Schema.string.zero
        [compressedMessage (-1) [0x78, 0x01, 0x01, 5, 0, 0xfa, 0xff, 2, 0, 0, 0, 97,
          0x00, 0x70, 0x00, 0x64, 0]] := by
  refine ⟨Stored.inflateProgress, by decide, ?_⟩
  refine Starves.not_terminates Stored.inflateProgress (by decide) (by decide)
    ⟨_, _, _, _, _, List.prefix_rfl, .cons rfl (.nil _), .call (by decide) (.here _ _ _),
      ⟨by decide, rfl, rfl, rfl⟩, id⟩

/-- A reader of a POD does not wait behind two empty chunks. -/
lemma settled_pod (size : PodSize) (target : (Schema.pod size).Val) (ys : List (List UInt8)) :
    (Schema.readCoro (.pod size) target (ys ++ [[], []])).Settled := by
  have hsize := size.property.1
  cases ys with
  | nil =>
    change (readPod size.val target ⟨[], 0, [[]]⟩).Settled
    have hempty : ¬size.val ≤ 0 := by omega
    simp only [readPod, List.length_nil, Nat.sub_zero, hempty, if_false]
    trivial
  | cons y ys =>
    change (readPod size.val target ⟨y, 0, ys ++ [[], []]⟩).Settled
    simp only [readPod]
    split
    · trivial
    · cases ys with
      | nil =>
        dsimp only [List.nil_append]
        split <;> trivial
      | cons z zs =>
        dsimp only [List.cons_append]
        split <;> trivial

/-- Behind a stream of four bytes the reader has returned, and does not get a second chunk. -/
theorem terminates_oneToFour :
    Terminates Setup.storedToEnd zeroKey Schema.fourBytes Schema.fourBytes.zero
      [compressedMessage (-1) [0x78, 0x01, 0x01, 4, 0, 0xfb, 0xff, 1, 2, 3, 4,
        0x00, 0x18, 0x00, 0x0b, 0]] :=
  (terminates_iff_not_starves Setup.storedToEnd Stored.inflateProgress zeroKey Schema.fourBytes
    Schema.fourBytes.zero (by decide) _ (by decide)).mpr
    fun ⟨_, _, ys, _, _, _, _, _, _, hwaits⟩ => hwaits (settled_pod int32Size _ ys)

end OldPart
