import OldPart.Proto.ReadCorrect

/-!
# Which cuts of an encoding the reader rebuilds

The string reader pulls as many chunks as it needs.  The POD reader pulls one: when the rest
of a block is not in the next chunk, it copies past the end of that chunk.  So a reader that
is given an encoding in chunks rebuilds the value exactly when no more than one chunk ends
inside a POD or a length prefix.
-/

namespace OldPart

namespace Schema

/-- The reader, pushed `chunks` one after the other, returns with `v` in the object it was
to fill. -/
def Rebuilds (s : Schema) (target v : s.Val) (chunks : List (List UInt8)) : Prop :=
  ∃ c, s.readCoro target chunks = .done v c

section Cuts

variable {s : Schema} {target v : s.Val} {chunks : List (List UInt8)}

/-- An encoding has a first chunk. -/
lemma exists_cons_of_flatten_eq_flat (hflat : chunks.flatten = flat s v) :
    ∃ x xs, chunks = x :: xs := by
  cases chunks with
  | nil => exact (flat_ne_nil s v hflat.symm).elim
  | cons x xs => exact ⟨x, xs, rfl⟩

/-- The coroutine, pushed an encoding in chunks: it returns behind the last byte, or one of
its PODs copies past the end of a chunk. -/
lemma readCoro_spec (target : s.Val) (hfits : Fits s v) (hflat : chunks.flatten = flat s v) :
    (AtMostOneCut (podSpans s 0 v) (chunkEnds 0 (chunks.map List.length)) →
      ∃ c, s.readCoro target chunks = .done (overlay s target v) c ∧ c.remaining = []) ∧
    (¬AtMostOneCut (podSpans s 0 v) (chunkEnds 0 (chunks.map List.length)) →
      ∃ w, s.readCoro target chunks = .fault w .pastBufLen) := by
  obtain ⟨x, xs, rfl⟩ := exists_cons_of_flatten_eq_flat hflat
  have hrem : (Cursor.mk x 0 xs).remaining = flat s v ++ [] := by
    rw [List.append_nil]
    exact hflat
  have hread := s.read_spec 0 target v hfits hrem
  constructor
  · intro hcut
    obtain ⟨c, hdone, hadv⟩ := hread.done_of hcut
    refine ⟨c, hdone, ?_⟩
    rw [hadv.remaining_eq, hrem, List.append_nil]
    exact List.drop_length
  · exact hread.fault_of

/-- The reader rebuilds a value from a cut of its encoding exactly when the lengths in it fit in
`int32_t` and at most one chunk ends inside each POD and each length prefix. -/
theorem rebuilds_iff_atMostOneCut (s : Schema) (target v : s.Val) (chunks : List (List UInt8))
    (hfresh : Fresh s target) (hflat : chunks.flatten = flat s v) :
    Rebuilds s target v chunks ↔
      Fits s v ∧ AtMostOneCut (podSpans s 0 v) (chunkEnds 0 (chunks.map List.length)) := by
  constructor
  · rintro ⟨c, hdone⟩
    have hfits : Fits s v := by
      have h := fits_readCoro hfresh chunks
      rwa [hdone] at h
    refine ⟨hfits, ?_⟩
    by_contra hcut
    obtain ⟨w, hfault⟩ := (readCoro_spec target hfits hflat).2 hcut
    rw [hdone] at hfault
    cases hfault
  · rintro ⟨hfits, hcut⟩
    obtain ⟨c, hdone, -⟩ := (readCoro_spec target hfits hflat).1 hcut
    rw [overlay_of_fresh hfresh] at hdone
    exact ⟨c, hdone⟩

end Cuts

/-- A POD of four bytes. -/
def fourBytes : Schema := pod int32Size

/-- An `int32_t` cut into three chunks is not rebuilt: the reader copies three bytes out of
a chunk of one. -/
theorem not_rebuilds_three_chunks :
    Fresh fourBytes ⟨[0, 0, 0, 0], rfl⟩ ∧ Fits fourBytes ⟨[1, 2, 3, 4], rfl⟩ ∧
      [[1], [2], [3, 4]].flatten = flat fourBytes ⟨[1, 2, 3, 4], rfl⟩ ∧
      (∃ w, fourBytes.readCoro ⟨[0, 0, 0, 0], rfl⟩ [[1], [2], [3, 4]] = .fault w .pastBufLen) ∧
      ¬Rebuilds fourBytes ⟨[0, 0, 0, 0], rfl⟩ ⟨[1, 2, 3, 4], rfl⟩ [[1], [2], [3, 4]] := by
  refine ⟨trivial, trivial, rfl, ⟨_, rfl⟩, ?_⟩
  rintro ⟨c, hdone⟩
  cases hdone

/-- An `int32_t` cut into two chunks is. -/
theorem rebuilds_two_chunks :
    Rebuilds fourBytes ⟨[0, 0, 0, 0], rfl⟩ ⟨[1, 2, 3, 4], rfl⟩ [[1], [2, 3, 4]] :=
  (rebuilds_iff_atMostOneCut fourBytes ⟨[0, 0, 0, 0], rfl⟩ ⟨[1, 2, 3, 4], rfl⟩ [[1], [2, 3, 4]]
    trivial rfl).mpr ⟨trivial, by decide⟩

end Schema

end OldPart
