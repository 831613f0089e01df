import OldPart.Serializer.RoundTrip

/-!
# Which plain messages `Deserialize` accepts

`Deserialize` should return `true` on the bytes of a complete encoding and `false` on all
others.  It never looks at the reader's coroutine after the last message, and never returns
`false` unless a checksum differs.  So it is right only on a complete encoding, and there
only when the reader gets through the cut the bodies make and returns on the last of them.
-/

namespace OldPart

/-- A message with neither flag set whose body is there. -/
structure OMessage.Plain (m : OMessage) : Prop where
  bodyLength_nonneg : 0 ≤ m.bodyLength
  bodyLength_le : m.bodyLength.toNatClampNeg ≤ m.mBody.length
  not_compressed : m.isCompressed = false
  not_encrypted : m.isEncrypted = false

instance (m : OMessage) : Decidable m.Plain :=
  decidable_of_iff (0 ≤ m.bodyLength ∧ m.bodyLength.toNatClampNeg ≤ m.mBody.length ∧
      m.isCompressed = false ∧ m.isEncrypted = false)
    ⟨fun ⟨h₁, h₂, h₃, h₄⟩ => ⟨h₁, h₂, h₃, h₄⟩, fun ⟨h₁, h₂, h₃, h₄⟩ => ⟨h₁, h₂, h₃, h₄⟩⟩

/-- The bodies of a list of messages. -/
def bodies (ms : List OMessage) : List (List UInt8) := ms.map OMessage.bytes

/-- `bytes` is the complete encoding of `v`. -/
def Encodes (s : Schema) (v : s.Val) (bytes : List UInt8) : Prop :=
  Schema.Fits s v ∧ Schema.flat s v = bytes

/-- `Deserialize` returns `true` with the value the bodies encode, and `false` when they
encode none. -/
def AcceptsExactly (u : Setup) (key : AesKey) (turns : ℕ) (s : Schema) (target : s.Val)
    (ms : List OMessage) : Prop :=
  (∀ v, Encodes s v (bodies ms).flatten →
      deserialize u key s target turns ms = .returned true v) ∧
    ((∀ v, ¬Encodes s v (bodies ms).flatten) →
      ∃ v, deserialize u key s target turns ms = .returned false v)

section Acceptance

variable {u : Setup} {key : AesKey} {turns : ℕ} {s : Schema} {target : s.Val} {ms : List OMessage}

lemma opensTo_bodies (u : Setup) (key : AesKey) (hplain : ∀ m ∈ ms, m.Plain) :
    List.Forall₂ (OpensTo u key) ms (bodies ms) := by
  refine List.forall₂_map_right_iff.mpr (List.forall₂_same.mpr fun m hm => ?_)
  exact opensTo_of_plain (hplain m hm).not_compressed (hplain m hm).not_encrypted

/-- A reader that has returned before the last chunk does not take that chunk. -/
lemma not_takes_of_settled {front : List (List UInt8)} {last : List UInt8}
    (h : (s.readCoro target front).Settled) : ¬Takes s target [] (front ++ [last]) := by
  rintro ⟨hwait, -⟩
  apply hwait front.length (by simp)
  rwa [List.nil_append, List.take_left]

/-- What the reader takes of a complete encoding is a cut it can rebuild, with a last chunk
that is not empty. -/
lemma atMostOneCut_of_takes {v : s.Val} {chunks : List (List UInt8)}
    (henc : Encodes s v chunks.flatten) (htakes : Takes s target [] chunks) :
    AtMostOneCut (Schema.podSpans s 0 v) (chunkEnds 0 (chunks.map List.length)) ∧
      ∃ front last, chunks = front ++ [last] ∧ last ≠ [] := by
  obtain ⟨hfits, hflat⟩ := henc
  have hne : chunks ≠ [] := by
    rintro rfl
    exact Schema.flat_ne_nil s v hflat
  have hcut : AtMostOneCut (Schema.podSpans s 0 v) (chunkEnds 0 (chunks.map List.length)) := by
    by_contra hcut
    obtain ⟨w, hfault⟩ := (Schema.readCoro_spec target hfits hflat.symm).2 hcut
    apply htakes.2 hne
    rw [List.nil_append, hfault]
    trivial
  refine ⟨hcut, chunks.dropLast, chunks.getLast hne, (List.dropLast_append_getLast hne).symm, ?_⟩
  -- with an empty last chunk the reader would have returned on the chunks before it
  intro hlast
  have hchunks : chunks = chunks.dropLast ++ [[]] := by
    rw [← hlast]
    exact (List.dropLast_append_getLast hne).symm
  rw [hchunks] at htakes hcut
  rw [hchunks, List.flatten_append, List.flatten_singleton, List.append_nil] at hflat
  rw [List.map_append, chunkEnds_append] at hcut
  obtain ⟨c, hdone, -⟩ :=
    (Schema.readCoro_spec target hfits hflat.symm).1 hcut.of_append
  exact not_takes_of_settled (by rw [hdone]; trivial) htakes

/-- The reader takes a complete encoding exactly when it can rebuild the cut and no chunk comes
behind the encoding. -/
lemma takes_iff_of_eq {v : s.Val} {chunks : List (List UInt8)}
    (henc : Encodes s v chunks.flatten) :
    Takes s target [] chunks ↔
      AtMostOneCut (Schema.podSpans s 0 v) (chunkEnds 0 (chunks.map List.length)) ∧
        chunks.dropLast.flatten ≠ Schema.flat s v := by
  obtain ⟨hfits, hflat⟩ := id henc
  constructor
  · intro htakes
    obtain ⟨hcut, front, last, rfl, hlast⟩ := atMostOneCut_of_takes henc htakes
    refine ⟨hcut, fun hfront => hlast ?_⟩
    rw [List.dropLast_concat] at hfront
    rw [← hfront, List.flatten_append, List.flatten_singleton] at hflat
    exact List.append_right_eq_self.mp hflat.symm
  · rintro ⟨hcut, hdrop⟩
    have hne : chunks ≠ [] := by
      rintro rfl
      exact Schema.flat_ne_nil s v hflat
    have hchunks := (List.dropLast_append_getLast hne).symm
    have hlast : chunks.getLast hne ≠ [] := by
      intro hlast
      rw [hchunks, hlast, List.flatten_append, List.flatten_singleton, List.append_nil] at hflat
      exact hdrop hflat.symm
    exact (returnsOnLast_of_atMostOneCut target hfits hflat.symm hcut hchunks hlast).takes

/-- `Deserialize` decides plain messages correctly exactly when their bodies are a complete
encoding, cut so that at most one body ends inside each POD and each length prefix, and the
last body is not empty. -/
theorem acceptsExactly_iff (u : Setup) (key : AesKey) (turns : ℕ) (s : Schema) (target : s.Val)
    (ms : List OMessage) (hfresh : Schema.Fresh s target) (hplain : ∀ m ∈ ms, m.Plain)
    (hne : ms ≠ []) :
    AcceptsExactly u key turns s target ms ↔
      ∃ v, Encodes s v (bodies ms).flatten ∧
        AtMostOneCut (Schema.podSpans s 0 v) (chunkEnds 0 ((bodies ms).map List.length)) ∧
        ∃ front last, bodies ms = front ++ [last] ∧ last ≠ [] := by
  have hopen := opensTo_bodies u key hplain
  constructor
  · rintro ⟨htrue, hfalse⟩
    by_cases henc : ∃ v, Encodes s v (bodies ms).flatten
    · obtain ⟨v, henc⟩ := henc
      obtain ⟨-, htakes, -⟩ := (deserialize_eq_true_iff hopen).mp (htrue v henc)
      obtain ⟨hcut, hlast⟩ := atMostOneCut_of_takes henc htakes
      exact ⟨v, henc, hcut, hlast⟩
    · push Not at henc
      obtain ⟨v, hrun⟩ := hfalse henc
      exact (deserialize_ne_false hopen v hrun).elim
  · rintro ⟨v, ⟨hfits, hflat⟩, hcut, front, last, hbodies, hlast⟩
    have hreturns := returnsOnLast_of_atMostOneCut target hfits hflat.symm hcut hbodies
      hlast
    rw [Schema.overlay_of_fresh hfresh] at hreturns
    obtain ⟨c, hdone, -⟩ := hreturns.1
    have hrun : deserialize u key s target turns ms = .returned true v :=
      (deserialize_eq_true_iff hopen).mpr ⟨hne, hreturns.takes, by rw [hdone]; rfl⟩
    refine ⟨fun w hw => ?_, fun hnone => (hnone v ⟨hfits, hflat⟩).elim⟩
    -- the value is the only one with this encoding, since the reader returns with it
    obtain ⟨hdone_of, -⟩ := Schema.readCoro_spec target hw.1 hw.2.symm
    by_cases hcut' : AtMostOneCut (Schema.podSpans s 0 w)
        (chunkEnds 0 ((bodies ms).map List.length))
    · obtain ⟨c', hdone', -⟩ := hdone_of hcut'
      rw [Schema.overlay_of_fresh hfresh, hdone] at hdone'
      rw [hrun, (Outcome.done.inj hdone').1]
    · obtain ⟨w', hfault⟩ := (Schema.readCoro_spec target hw.1 hw.2.symm).2 hcut'
      rw [hdone] at hfault
      cases hfault

end Acceptance

/-! ## Messages of an `int32_t` -/

/-- A plain message with the given body. -/
def plainMessage (messageSequenceId : Int32) (body : List UInt8) : OMessage :=
  makeMessage ⟨1, SerializeMethod.none, 0⟩ 1 messageSequenceId ⟨⟨body, body.length⟩, 0, 0, false⟩

/-- Two bytes of an `int32_t`: `Deserialize` returns `true`, and the reader still waits. -/
theorem not_acceptsExactly_truncated :
    (plainMessage (-1) [1, 2]).Plain ∧
      (∃ v, deserialize (Setup.plain 8 (by decide)) zeroKey Schema.fourBytes Schema.fourBytes.zero 0
        [plainMessage (-1) [1, 2]] = .returned true v) ∧
      ¬AcceptsExactly (Setup.plain 8 (by decide)) zeroKey 0 Schema.fourBytes Schema.fourBytes.zero
        [plainMessage (-1) [1, 2]] := by
  refine ⟨by decide, ⟨_, rfl⟩, ?_⟩
  rintro ⟨-, hfalse⟩
  have hnone : ∀ v, ¬Encodes Schema.fourBytes v (bodies [plainMessage (-1) [1, 2]]).flatten := by
    rintro v ⟨-, hflat⟩
    have hlen : (Schema.flat Schema.fourBytes v).length = 4 := List.Vector.toList_length v
    rw [hflat] at hlen
    exact absurd hlen (by decide)
  obtain ⟨v, hrun⟩ := hfalse hnone
  cases hrun

/-- The four bytes in two messages. -/
theorem acceptsExactly_complete :
    AcceptsExactly (Setup.plain 8 (by decide)) zeroKey 0 Schema.fourBytes Schema.fourBytes.zero
      [plainMessage 1 [1], plainMessage (-2) [2, 3, 4]] :=
  (acceptsExactly_iff (Setup.plain 8 (by decide)) zeroKey 0 Schema.fourBytes Schema.fourBytes.zero
    [plainMessage 1 [1], plainMessage (-2) [2, 3, 4]] (Schema.fresh_zero _) (by decide)
    (by simp)).mpr
    ⟨⟨[1, 2, 3, 4], rfl⟩, ⟨trivial, by decide⟩, by decide, [[1]], [2, 3, 4], by decide, by simp⟩

end OldPart
