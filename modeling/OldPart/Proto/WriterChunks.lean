import OldPart.Proto.WriteCorrect

/-!
# The chunks are a cut of the encoding

Whatever `MAX_MESSAGE_BODY_LENGTH` is, the writers should yield the same bytes, in chunks that
it bounds and that keep each POD and each length prefix together.
-/

namespace OldPart

/-- `SerializeObject` yields the flat encoding of an object in chunks of at least one byte and
at most `MAX_MESSAGE_BODY_LENGTH`, with the last of them flagged, and with each POD and each
length prefix in one of them. -/
def RefinesFlat (env : Env) (s : Schema) (obj : s.Val) : Prop :=
  ∃ chunks, serializeObject env s obj = .ok chunks ∧
    (∀ t ∈ chunks, 1 ≤ t.bytes.length ∧ t.bytes.length ≤ env.maxBody) ∧
    (∃ front t, chunks = front ++ [t] ∧ t.isLast = true ∧ ∀ u ∈ front, u.isLast = false) ∧
    (chunks.map BufT.bytes).flatten = Schema.flat s obj ∧
    Uncut (Schema.podSpans s 0 obj) (chunkEnds 0 (chunks.map fun t => t.bytes.length))

/-- The writers refine the flat encoding exactly when no sum in `EnsureBuffer` leaves
`int32_t`. -/
theorem refinesFlat_iff_sumsFit (env : Env) (s : Schema) (obj : s.Val)
    (h : Writable env s obj) : RefinesFlat env s obj ↔ SumsFit env s obj := by
  constructor
  · rintro ⟨chunks, hwrite, -⟩
    exact sumsFit_of_serializeObject h hwrite
  · intro hsums
    obtain ⟨chunks, hwrite, hraw, hlast, hflat, huncut⟩ := serializeObject_spec h hsums
    refine ⟨chunks, hwrite, fun t ht => ?_, hlast, hflat, huncut⟩
    rw [(hraw t ht).length_bytes]
    exact ⟨(hraw t ht).bufLen_pos, (hraw t ht).bufLen_le⟩

/-- Memory that is all zeros. -/
def Env.zeros (maxBody : ℕ) (h : maxBody < 2 ^ 31) : Env := ⟨maxBody, h, fun _ => 0, fun _ _ _ => 0⟩

/-- A short and then a POD that fills the largest buffer but for one byte. -/
def shortAndHuge : Schema := .field (.pod ⟨2, by decide⟩) (.pod ⟨2 ^ 31 - 2, by decide⟩)

/-- Zeros. -/
def shortAndHugeValue : shortAndHuge.Val :=
  (List.Vector.replicate 2 0, List.Vector.replicate (2 ^ 31 - 2) 0)

/-- With the largest `MAX_MESSAGE_BODY_LENGTH` there is, `offset + eleSize` overflows behind the
short, and nothing is flushed before the large POD. -/
theorem not_refinesFlat_shortAndHuge :
    Writable (Env.zeros (2 ^ 31 - 1) (by decide)) shortAndHuge shortAndHugeValue ∧
      ¬RefinesFlat (Env.zeros (2 ^ 31 - 1) (by decide)) shortAndHuge shortAndHugeValue := by
  have hwritable : Writable (Env.zeros (2 ^ 31 - 1) (by decide)) shortAndHuge
      shortAndHugeValue := ⟨⟨trivial, trivial⟩, by decide, by decide⟩
  refine ⟨hwritable, ?_⟩
  rintro ⟨chunks, hwrite, -⟩
  exact absurd (sumsFit_of_serializeObject hwritable hwrite) (by decide)

lemma one_byte : 0 < 1 ∧ 1 < 2 ^ 31 := by decide

/-- A byte and a vector of strings. -/
def byteAndStrings : Schema := .field (.pod ⟨1, one_byte⟩) (.vector .string)

/-- A value of it that takes four buffers of six bytes. -/
def byteAndStringsValue : byteAndStrings.Val := (⟨[5], rfl⟩, [[97, 98, 99], []])

/-- That value is cut as it should be. -/
theorem refinesFlat_byteAndStrings :
    RefinesFlat (Env.zeros 6 (by decide)) byteAndStrings byteAndStringsValue :=
  (refinesFlat_iff_sumsFit (Env.zeros 6 (by decide)) byteAndStrings byteAndStringsValue
    ⟨by decide, by decide, by decide⟩).mpr (by decide)

end OldPart
