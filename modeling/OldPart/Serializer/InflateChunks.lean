import OldPart.Proto.ReaderControl
import OldPart.Serializer.CompressRoundTrip

/-!
# The chunks `Deserialize` inflates

The inner loop of `Deserialize` goes on while the body has bytes that `inflate` has not taken,
and pushes a chunk in each turn.  The reader needs the bytes `inflate` writes.  These are not
the same thing: `inflate` takes the last byte of the stream with its buffer full and keeps some
output back, or is given a body that is all trailer and writes nothing.
-/

namespace OldPart

variable {u : Setup} {key : AesKey} {s : Schema} {target obj : s.Val}

/-- What is left of `Deserialize` when a message was fed to it. -/
def Fed.deserializer {zlib : Zlib} : Fed zlib → Deserializer zlib
  | more d => d
  | rejected d => d
  | fault d _ => d

/-! ## Where it stops -/

namespace Deserializer

/-- The reader has failed on the chunk it was pushed last. -/
def ReaderFailed {zlib : Zlib} (s : Schema) (target : s.Val) (d : Deserializer zlib) : Prop :=
  ∃ pre x, d.chunks = pre ++ [x] ∧ ¬(s.readCoro target pre).Settled ∧
    (s.readCoro target (pre ++ [x])).Faulty

lemma push_eq_fault {zlib : Zlib} {d d' : Deserializer zlib} {x : List UInt8} {e : Fault}
    (h : d.push s target x = .fault d' e) : e = .resumedAfterReturn ∨ d'.ReaderFailed s target := by
  unfold push reader at h
  cases hbefore : s.readCoro target d.chunks with
  | done v c =>
    rw [hbefore] at h
    exact Or.inl (Fed.fault.inj h).2.symm
  | fault v f =>
    rw [hbefore] at h
    exact Or.inl (Fed.fault.inj h).2.symm
  | wait v =>
    rw [hbefore] at h
    dsimp only at h
    cases hafter : s.readCoro target (d.chunks ++ [x]) with
    | done w c =>
      rw [hafter] at h
      cases h
    | wait w =>
      rw [hafter] at h
      cases h
    | fault w f =>
      rw [hafter] at h
      obtain ⟨rfl, -⟩ := Fed.fault.inj h
      refine Or.inr ⟨d.chunks, x, rfl, ?_, ?_⟩
      · rw [hbefore]
        exact Outcome.not_settled_wait v
      · rw [hafter]
        trivial

/-- Where `inflate` gets through a body, only the reader can be in the way. -/
lemma inflateBody_stops (target : s.Val) {turns : ℕ} {x : List UInt8} {st : u.zlib.Inflate}
    {r : List (List UInt8) × u.zlib.Inflate}
    (hpiece : u.zlib.inflatePiece u.env.maxBody turns st x = some r) (d : Deserializer u.zlib) :
    (∃ d', inflateBody u s target turns x st d = .more d') ∨
      ∃ d' e, inflateBody u s target turns x st d = .fault d' e ∧
        (e = .resumedAfterReturn ∨ d'.ReaderFailed s target) := by
  induction turns generalizing x st r d with
  | zero =>
    cases x with
    | nil => exact Or.inl ⟨_, by rw [inflateBody]⟩
    | cons c cs => cases hpiece
  | succ turns ih =>
    cases x with
    | nil => exact Or.inl ⟨_, by rw [inflateBody]⟩
    | cons c cs =>
      rw [Zlib.inflatePiece] at hpiece
      split at hpiece
      · cases hpiece
      · next hret =>
        obtain ⟨r', hrest, -⟩ := Option.map_eq_some_iff.mp hpiece
        rw [inflateBody_step hret]
        cases hpush : d.push s target (u.zlib.inflate st (c :: cs) u.env.maxBody).out with
        | more d₁ => exact ih hrest d₁
        | rejected d₁ => exact (push_ne_rejected hpush).elim
        | fault d₁ e => exact Or.inr ⟨d₁, e, rfl, push_eq_fault hpush⟩

lemma feedAll_stops (target : s.Val) {turns : ℕ} {ms : List OMessage} {xs ys : List (List UInt8)}
    (hopen : List.Forall₂ (OpensCompressed u key) ms xs) (d : Deserializer u.zlib)
    (hpieces : u.zlib.inflatePieces u.env.maxBody turns (d.strm.getD u.zlib.inflateInit) xs =
      some ys) :
    (∃ d', d.feedAll u key s target turns ms = .more d') ∨
      ∃ d' e, d.feedAll u key s target turns ms = .fault d' e ∧
        (e = .resumedAfterReturn ∨ d'.ReaderFailed s target) := by
  induction hopen generalizing d ys with
  | nil => exact Or.inl ⟨d, rfl⟩
  | @cons m x ms xs hm hms ih =>
    rw [Zlib.inflatePieces] at hpieces
    obtain ⟨⟨zs, st₁⟩, hpiece, hrest⟩ := Option.bind_eq_some_iff.mp hpieces
    obtain ⟨ys', hys', -⟩ := Option.map_eq_some_iff.mp hrest
    rw [feedAll, feed_of_opensCompressed hm]
    rcases inflateBody_stops target hpiece { d with taken := d.taken + 1 } with
      ⟨d₁, hbody⟩ | ⟨d₁, e, hbody, hwhy⟩
    · obtain ⟨zs', st₁', hpiece', -, rfl⟩ := inflateBody_eq_more_iff.mp hbody
      obtain rfl := (Prod.mk.inj (Option.some.inj (hpiece.symm.trans hpiece'))).2
      rw [hbody]
      exact ih _ hys'
    · rw [hbody]
      exact Or.inr ⟨d₁, e, rfl, hwhy⟩

/-- A reader that has all of an encoding does not fail on the last chunk of it. -/
lemma not_readerFailed {zlib : Zlib} {d : Deserializer zlib} (hfits : Schema.Fits s obj)
    (hflat : d.chunks.flatten = Schema.flat s obj) : ¬d.ReaderFailed s target := by
  rintro ⟨pre, x, hchunks, hwait, hfault⟩
  rw [hchunks] at hflat
  have hcut : ¬AtMostOneCut (Schema.podSpans s 0 obj)
      (chunkEnds 0 ((pre ++ [x]).map List.length)) := by
    intro hcut
    obtain ⟨c, hdone, -⟩ := (Schema.readCoro_spec target hfits hflat).1 hcut
    rw [hdone] at hfault
    exact hfault
  have hbegins : pre.flatten <+: Schema.flat s obj := by
    rw [← hflat, List.flatten_append]
    exact List.prefix_append _ _
  rcases hbegins.length_le.eq_or_lt with heq | hlt
  · -- the reader had all of it before
    have hspec := Schema.readCoro_spec target hfits (hbegins.eq_of_length heq)
    by_cases hpre : AtMostOneCut (Schema.podSpans s 0 obj) (chunkEnds 0 (pre.map List.length))
    · obtain ⟨c, hdone, -⟩ := hspec.1 hpre
      exact hwait (by rw [hdone]; trivial)
    · obtain ⟨w, hfailed⟩ := hspec.2 hpre
      exact hwait (by rw [hfailed]; trivial)
  · -- the last chunk ends behind all that is read in one piece
    rw [Schema.settled_readCoro_iff target hfits hbegins hlt, not_not] at hwait
    refine hcut fun q hq => ?_
    rw [List.map_append, chunkEnds_append, Span.cuts, List.countP_append]
    have hend : Span.cuts q (chunkEnds (0 + (pre.map List.length).sum) [x.length]) = 0 := by
      refine Span.cuts_eq_zero fun e he => ?_
      have hstop := Schema.stop_le_of_mem_podSpans q hq
      rw [← hflat, List.length_flatten, List.map_append, List.sum_append] at hstop
      simp only [chunkEnds_cons, chunkEnds_nil, List.mem_singleton] at he
      simp only [List.map_cons, List.map_nil, List.sum_cons, List.sum_nil] at hstop
      omega
    rw [Span.cuts] at hend
    rw [List.map_singleton, hend]
    exact hwait q hq

end Deserializer

/-! ## Feeding the reader -/

/-- Fed the messages, `Deserialize` pushes chunks into the reader that make up the encoding of
`obj`, and pushes none once the reader has returned. -/
def FeedsEncoding (u : Setup) (key : AesKey) (s : Schema) (target obj : s.Val)
    (ms : List OMessage) : Prop :=
  ∃ enough, ∀ turns ≥ enough,
    ((Deserializer.start u.zlib).feedAll u key s target turns ms).deserializer.chunks.flatten =
        Schema.flat s obj ∧
      ∀ d, (Deserializer.start u.zlib).feedAll u key s target turns ms ≠
        .fault d .resumedAfterReturn

/-- Given the pieces `xs`, `inflate` fills buffers with all of the encoding and no more after
it, and the buffers cut each POD and each length prefix at most once. -/
structure ComesOut (u : Setup) (s : Schema) (obj : s.Val) (xs ys : List (List UInt8)) : Prop where
  inflates : u.zlib.Inflates u.env.maxBody xs ys
  nothing_back : ys.flatten.length = (Schema.flat s obj).length
  nothing_behind : ys.dropLast.flatten ≠ Schema.flat s obj
  atMostOneCut : AtMostOneCut (Schema.podSpans s 0 obj) (chunkEnds 0 (ys.map List.length))

/-- With a zlib that keeps its contract, `Deserialize` feeds the reader of an object the
encoding in a compressed stream, cut into messages, exactly when `inflate` has written all of it
with the last byte of the last message, had something to write in the last buffer, and did not
cut a POD or a length prefix twice. -/
theorem feedsEncoding_iff_comesOut (u : Setup) (hz : u.zlib.Contract) (key : AesKey) (s : Schema)
    (target obj : s.Val) (hfits : Schema.Fits s obj) (hpos : 0 < u.env.maxBody)
    (ms : List OMessage) (xs : List (List UInt8))
    (hwhole : u.zlib.Whole (Schema.flat s obj) xs.flatten)
    (hopen : List.Forall₂ (OpensCompressed u key) ms xs) :
    FeedsEncoding u key s target obj ms ↔ ∃ ys, ComesOut u s obj xs ys := by
  obtain ⟨st, hd⟩ := hwhole
  have hbegins : ∀ ys, u.zlib.Inflates u.env.maxBody xs ys → ys.flatten <+: Schema.flat s obj := by
    intro ys hys
    have h : ys.flatten <+: Schema.flat s obj ++ [] :=
      hz.inflates_prefix hpos hd List.prefix_rfl hys
    rwa [List.append_nil] at h
  constructor
  · rintro ⟨enough, hfeeds⟩
    obtain ⟨zs, through, hzs⟩ := hz.exists_inflates hpos hd List.prefix_rfl
    obtain ⟨hflat, hreturned⟩ := hfeeds (max enough through) (le_max_left _ _)
    have hpieces := Zlib.inflatePieces_mono (le_max_right enough through) hzs
    rcases Deserializer.feedAll_stops target hopen
        (Deserializer.start u.zlib) hpieces with ⟨d, hrun⟩ | ⟨d, e, hrun, hwhy⟩
    · obtain ⟨ys, hys, htakes, hchunks⟩ :=
        (Deserializer.feedAll_inflates_iff target (max enough through) hopen
          (Deserializer.start u.zlib) d.chunks).mp ⟨d, hrun, rfl⟩
      rw [hrun] at hflat
      change d.chunks.flatten = _ at hflat
      rw [← hchunks] at hflat
      obtain ⟨hcut, hbehind⟩ := (takes_iff_of_eq ⟨hfits, hflat.symm⟩).mp htakes
      exact ⟨ys, ⟨_, hys⟩, congrArg List.length hflat, hbehind, hcut⟩
    · rw [hrun] at hflat
      rcases hwhy with rfl | hfailed
      · exact (hreturned d hrun).elim
      · exact (Deserializer.not_readerFailed hfits hflat hfailed).elim
  · rintro ⟨ys, ⟨enough, hys⟩, hback, hbehind, hcut⟩
    have hflat := (hbegins ys ⟨enough, hys⟩).eq_of_length hback
    have htakes : Takes s target [] ys := (takes_iff_of_eq ⟨hfits, hflat.symm⟩).mpr ⟨hcut, hbehind⟩
    refine ⟨enough, fun turns hle => ?_⟩
    obtain ⟨d, hrun, hchunks⟩ :=
      (Deserializer.feedAll_inflates_iff target turns hopen (Deserializer.start u.zlib) ys).mpr
        ⟨ys, Zlib.inflatePieces_mono hle hys, htakes, rfl⟩
    rw [hrun]
    refine ⟨?_, fun d' h => by cases h⟩
    change d.chunks.flatten = _
    rw [hchunks, hflat]

/-! ## One stream, cut in two -/

/-- The stream of four bytes in two bodies, the second with nothing but the checksum. -/
def trailerApart : List (List UInt8) :=
  [[0x78, 0x01, 0x01, 4, 0, 0xfb, 0xff, 1, 2, 3, 4], [0x00, 0x18, 0x00, 0x0b]]

/-- The same stream, cut inside the four bytes. -/
def trailerInside : List (List UInt8) :=
  [[0x78, 0x01, 0x01, 4, 0, 0xfb, 0xff, 1, 2], [3, 4, 0x00, 0x18, 0x00, 0x0b]]

/-- The messages of the two bodies. -/
def trailerApartMessages : List OMessage :=
  [compressedMessage 1 [0x78, 0x01, 0x01, 4, 0, 0xfb, 0xff, 1, 2, 3, 4],
    compressedMessage (-2) [0x00, 0x18, 0x00, 0x0b]]

def trailerInsideMessages : List OMessage :=
  [compressedMessage 1 [0x78, 0x01, 0x01, 4, 0, 0xfb, 0xff, 1, 2],
    compressedMessage (-2) [3, 4, 0x00, 0x18, 0x00, 0x0b]]

lemma opens_trailerApart (key : AesKey) :
    List.Forall₂ (OpensCompressed (Setup.stored .unused) key) trailerApartMessages trailerApart :=
  .cons ⟨rfl, rfl, fun _ => ⟨_, rfl, rfl⟩⟩ (.cons ⟨rfl, rfl, fun _ => ⟨_, rfl, rfl⟩⟩ .nil)

lemma opens_trailerInside (key : AesKey) :
    List.Forall₂ (OpensCompressed (Setup.stored .unused) key) trailerInsideMessages trailerInside :=
  .cons ⟨rfl, rfl, fun _ => ⟨_, rfl, rfl⟩⟩ (.cons ⟨rfl, rfl, fun _ => ⟨_, rfl, rfl⟩⟩ .nil)

lemma whole_oneToFour :
    Zlib.stored.Whole (Schema.flat Schema.fourBytes oneToFour)
      [0x78, 0x01, 0x01, 4, 0, 0xfb, 0xff, 1, 2, 3, 4, 0x00, 0x18, 0x00, 0x0b] := by
  obtain ⟨st, hst⟩ : ∃ st, Zlib.stored.deflateInit 0 = some st := ⟨_, rfl⟩
  obtain rfl := Option.some.inj hst
  exact ⟨_, Zlib.Deflating.call [1, 2, 3, 4] 16 true (.init hst) (Or.inl rfl) (by decide)⟩

/-- All four bytes come out with the first eleven; for the checksum `inflate` fills an empty
buffer, and the reader has returned. -/
theorem not_feedsEncoding_trailerApart :
    Zlib.stored.Contract ∧
      Zlib.stored.Whole (Schema.flat Schema.fourBytes oneToFour) trailerApart.flatten ∧
      (∀ x ∈ trailerApart, x ≠ [] ∧ x.length ≤ (Setup.stored .unused).env.maxBody) ∧
      List.Forall₂ (OpensCompressed (Setup.stored .unused) zeroKey) trailerApartMessages
        trailerApart ∧
      ¬FeedsEncoding (Setup.stored .unused) zeroKey Schema.fourBytes Schema.fourBytes.zero oneToFour
        trailerApartMessages := by
  refine ⟨Stored.contract, whole_oneToFour, by decide, opens_trailerApart zeroKey, ?_⟩
  rintro ⟨enough, hfeeds⟩
  obtain ⟨-, hreturned⟩ := hfeeds (enough + 2) (by omega)
  exact hreturned _ rfl

/-- Cut elsewhere, the checksum comes with bytes the reader still needs. -/
theorem feedsEncoding_trailerInside :
    FeedsEncoding (Setup.stored .unused) zeroKey Schema.fourBytes Schema.fourBytes.zero oneToFour
      trailerInsideMessages :=
  (feedsEncoding_iff_comesOut (Setup.stored .unused) Stored.contract zeroKey Schema.fourBytes
    Schema.fourBytes.zero oneToFour trivial (by decide) trailerInsideMessages trailerInside
    whole_oneToFour (opens_trailerInside zeroKey)).mpr
    ⟨[[1, 2], [3, 4]], ⟨1, rfl⟩, rfl, by decide, by decide⟩

end OldPart
