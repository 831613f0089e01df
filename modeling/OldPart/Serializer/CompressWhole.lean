import OldPart.Serializer.CompressCorrect
import OldPart.Serializer.StoredZlib
import OldPart.Serializer.RoundTrip

/-!
# Whether `CompressBuf` yields the whole stream

When the last byte of the last body is taken, `deflate` may still owe any part of the stream.
`CompressBuf` gives it what is left of the current buffer and one more.
-/

namespace OldPart

/-! ## What is owed when all is taken -/

namespace Zlib

variable {z : Zlib}

/-- The calls that give a stream its last chunk, up to the one that takes the last byte, and
what that one has returned. -/
def Filling.giveLast (size : ℕ) : (turns : ℕ) → List UInt8 → Filling z → Option (Filling z × ZRet)
  | _, [], _ => none
  | 0, _ :: _, _ => none
  | turns + 1, c :: cs, f =>
      let step := z.deflate f.strm (c :: cs) f.room true
      let rest := (c :: cs).drop step.consumed
      if step.consumed = 0 then none
      else if rest.isEmpty then some (f.call (c :: cs) true, step.ret)
      else giveLast size turns rest ((f.call (c :: cs) true).renew size)

/-- The calls that give a stream chunks up to the last byte of the one that is the last. -/
def Filling.giveAll (size : ℕ) : List (List UInt8 × Bool) → Filling z → Option (Filling z × ZRet)
  | [], _ => none
  | (x, true) :: _, f => f.giveLast size x.length x
  | (x, false) :: rest, f => (f.chunk size false x.length x).bind (giveAll size rest)

variable (z) in
/-- The level is accepted, each call takes something of what it is given, and when all is taken
the stream has ended, or it ends with one more buffer. -/
def EndsInOneMore (size : ℕ) (level : Int8) (xs : List (List UInt8 × Bool)) : Prop :=
  ∃ strm f ret, z.deflateInit level = some strm ∧
    Filling.giveAll size xs ⟨strm, size, []⟩ = some (f, ret) ∧
    (ret = .streamEnd ∨ (z.deflate f.strm [] size true).ret = .streamEnd)

/-- The stream with one more buffer, unless it has ended. -/
def Filling.withTail (size : ℕ) (r : Filling z × ZRet) : Filling z :=
  if r.2 = .streamEnd then r.1 else { r.1 with room := size }.call [] true

section Owed

variable {size turns : ℕ} {f f' : Filling z} {taken x : List UInt8} {ret : ZRet}

lemma chunk_last_eq (hx : x ≠ []) :
    f.chunk size true turns x = (f.giveLast size turns x).map (Filling.withTail size) := by
  induction turns generalizing f x with
  | zero =>
    cases x with
    | nil => exact (hx rfl).elim
    | cons c cs => rfl
  | succ turns ih =>
    cases x with
    | nil => exact (hx rfl).elim
    | cons c cs =>
      rw [Filling.chunk, Filling.giveLast]
      dsimp only
      split
      · rfl
      · rw [Bool.true_and]
        split
        · rw [Option.map_some, Filling.withTail, ← apply_ite some]
        · next hrest => exact ih (by simpa using hrest)

lemma chunks_eq (front : List (List UInt8)) (hx : x ≠ []) :
    f.chunks size (front.map (fun y => (y, false)) ++ [(x, true)]) =
      (f.giveAll size (front.map (fun y => (y, false)) ++ [(x, true)])).map
        (Filling.withTail size) := by
  induction front generalizing f with
  | nil =>
    rw [List.map_nil, List.nil_append, Filling.chunks, Filling.giveAll, chunk_last_eq hx]
    cases f.giveLast size x.length x <;> rfl
  | cons y front ih =>
    rw [List.map_cons, List.cons_append, Filling.chunks, Filling.giveAll]
    cases f.chunk size false y.length y with
    | none => rfl
    | some f₁ => exact ih

lemma room_renew_pos (hsize : 0 < size) (f : Filling z) : 0 < (f.renew size).room := by
  unfold Filling.renew
  split
  · exact hsize
  · omega

lemma deflating_renew {phase : Phase} (h : Deflating z f.strm taken f.written phase) :
    Deflating z (f.renew size).strm taken (f.renew size).written phase := by
  unfold Filling.renew
  split <;> exact h

/-- A chunk that is not the last. -/
lemma deflating_of_chunk (hsize : 0 < size) (hroom : 0 < f.room)
    (hd : Deflating z f.strm taken f.written .feeding)
    (h : f.chunk size false turns x = some f') :
    0 < f'.room ∧ Deflating z f'.strm (taken ++ x) f'.written .feeding := by
  induction turns generalizing f taken x with
  | zero =>
    cases x with
    | nil =>
      obtain rfl := Option.some.inj h
      exact ⟨hroom, by rwa [List.append_nil]⟩
    | cons c cs => cases h
  | succ turns ih =>
    cases x with
    | nil =>
      obtain rfl := Option.some.inj h
      exact ⟨hroom, by rwa [List.append_nil]⟩
    | cons c cs =>
      rw [Filling.chunk] at h
      dsimp only at h
      split at h
      · cases h
      · rw [Bool.false_and, if_neg (by decide)] at h
        have hcall := hd.call (c :: cs) f.room false (Or.inr (by simp)) hroom
        have hrest := ih (room_renew_pos hsize _) (deflating_renew hcall) h
        rwa [List.append_assoc, List.take_append_drop] at hrest

/-- The phase of a stream when the last byte is taken. -/
def Phase.afterLast (ret : ZRet) : Phase := if ret = .streamEnd then ended else finishing []

lemma deflating_of_giveLast (hz : z.DeflateCalls) (hsize : 0 < size) (hroom : 0 < f.room)
    {phase : Phase} (hd : Deflating z f.strm taken f.written phase) (hadmits : phase.Admits true x)
    (h : f.giveLast size turns x = some (f', ret)) :
    Deflating z f'.strm (taken ++ x) f'.written (.afterLast ret) := by
  induction turns generalizing f taken x phase with
  | zero => cases x <;> cases h
  | succ turns ih =>
    cases x with
    | nil => cases h
    | cons c cs =>
      rw [Filling.giveLast] at h
      have hcall := hd.call (c :: cs) f.room true hadmits hroom
      split at h
      · cases h
      · split at h
        · next hrest =>
          obtain ⟨rfl, rfl⟩ := Prod.mk.inj (Option.some.inj h)
          have htake : (c :: cs).take (z.deflate f.strm (c :: cs) f.room true).consumed =
              c :: cs := List.take_of_length_le (List.drop_eq_nil_iff.mp (by simpa using hrest))
          have hdrop : (c :: cs).drop (z.deflate f.strm (c :: cs) f.room true).consumed = [] := by
            simpa using hrest
          rw [htake, Phase.after, if_pos rfl, hdrop] at hcall
          exact hcall
        · next hrest =>
          have hleft : (z.deflate f.strm (c :: cs) f.room true).consumed ≠ (c :: cs).length := by
            intro hall
            rw [hall, List.drop_length] at hrest
            exact hrest rfl
          -- something is left, so the stream has not ended
          obtain ⟨hok, -⟩ := (hz.finish hd hadmits hroom).2.resolve_left fun hend => hleft hend.2
          have hphase : Phase.after z true (c :: cs) (z.deflate f.strm (c :: cs) f.room true) =
              .finishing ((c :: cs).drop (z.deflate f.strm (c :: cs) f.room true).consumed) := by
            simp [Phase.after, hok]
          rw [hphase] at hcall
          have hadmits' : (Phase.finishing ((c :: cs).drop
              (z.deflate f.strm (c :: cs) f.room true).consumed)).Admits true ((c :: cs).drop
                (z.deflate f.strm (c :: cs) f.room true).consumed) := ⟨rfl, rfl⟩
          have hmore := ih (room_renew_pos hsize _) (deflating_renew hcall) hadmits' h
          rwa [List.append_assoc, List.take_append_drop] at hmore

lemma deflating_of_giveAll (hz : z.DeflateCalls) (hsize : 0 < size) (hroom : 0 < f.room)
    (hd : Deflating z f.strm taken f.written .feeding) {front : List (List UInt8)}
    (h : f.giveAll size (front.map (fun y => (y, false)) ++ [(x, true)]) = some (f', ret)) :
    Deflating z f'.strm (taken ++ (front ++ [x]).flatten) f'.written (.afterLast ret) := by
  induction front generalizing f taken with
  | nil =>
    have hlast := deflating_of_giveLast hz hsize hroom hd (Or.inl rfl) h
    rwa [List.nil_append, List.flatten_singleton]
  | cons y front ih =>
    rw [List.map_cons, List.cons_append, Filling.giveAll] at h
    obtain ⟨f₁, hchunk, hrest⟩ := Option.bind_eq_some_iff.mp h
    obtain ⟨hroom₁, hd₁⟩ := deflating_of_chunk hsize hroom hd hchunk
    have hmore := ih hroom₁ hd₁ hrest
    rwa [List.append_assoc, ← List.flatten_cons, ← List.cons_append] at hmore

/-- One more buffer. -/
lemma deflating_withTail (hsize : 0 < size)
    (hd : Deflating z f.strm taken f.written (.afterLast ret)) :
    Deflating z (Filling.withTail size (f, ret)).strm taken (Filling.withTail size (f, ret)).written
      (.afterLast (if ret = .streamEnd then .streamEnd
        else (z.deflate f.strm [] size true).ret)) := by
  by_cases hend : ret = .streamEnd
  · rw [Filling.withTail, if_pos hend, if_pos hend]
    rwa [hend] at hd
  · rw [Phase.afterLast, if_neg hend] at hd
    have hadmits : (Phase.finishing []).Admits true [] := ⟨rfl, rfl⟩
    have hcall := hd.call [] size true hadmits hsize
    rw [List.take_nil, List.append_nil, Phase.after, if_pos rfl, List.drop_nil] at hcall
    rw [Filling.withTail, if_neg hend, if_neg hend]
    exact hcall

/-- What `deflate` writes when it is given chunks and buffers, and one more buffer for the tail,
is the whole stream exactly when the stream ends there. -/
lemma endsInOneMore_iff (hz : z.DeflateContract) (hsize : 0 < size) (level : Int8)
    (front : List (List UInt8)) (hx : x ≠ []) :
    z.EndsInOneMore size level (front.map (fun y => (y, false)) ++ [(x, true)]) ↔
      ∃ written, z.deflated size level (front.map (fun y => (y, false)) ++ [(x, true)])
        = some written ∧ z.Whole (front ++ [x]).flatten written := by
  have hends : ∀ {strm f ret}, z.deflateInit level = some strm →
      Filling.giveAll size (front.map (fun y => (y, false)) ++ [(x, true)]) ⟨strm, size, []⟩
        = some (f, ret) →
      ((ret = .streamEnd ∨ (z.deflate f.strm [] size true).ret = .streamEnd) ↔
        z.Whole (front ++ [x]).flatten (Filling.withTail size (f, ret)).written) := by
    intro strm f ret hinit hgive
    have hd := deflating_of_giveAll hz.toDeflateCalls hsize (f := ⟨strm, size, []⟩) hsize
      (.init hinit) hgive
    have hd' := deflating_withTail hsize hd
    rw [List.nil_append] at hd'
    constructor
    · intro hend
      have hphase : (if ret = .streamEnd then .streamEnd
          else (z.deflate f.strm [] size true).ret) = ZRet.streamEnd := by
        rcases hend with rfl | hend
        · rfl
        · rw [hend, ite_self]
      rw [hphase] at hd'
      exact ⟨_, hd'⟩
    · intro hwhole
      have hphase := hz.whole hwhole hd'
      by_contra hnot
      rw [not_or] at hnot
      rw [if_neg hnot.1, Phase.afterLast, if_neg hnot.2] at hphase
      cases hphase
  constructor
  · rintro ⟨strm, f, ret, hinit, hgive, hend⟩
    refine ⟨_, ?_, (hends hinit hgive).mp hend⟩
    rw [deflated, hinit, Option.bind_some, chunks_eq front hx, hgive]
    rfl
  · rintro ⟨written, hdeflated, hwhole⟩
    obtain ⟨strm, hinit, hwritten⟩ := Option.bind_eq_some_iff.mp hdeflated
    rw [chunks_eq front hx, Option.map_map] at hwritten
    obtain ⟨⟨f, ret⟩, hgive, rfl⟩ := Option.map_eq_some_iff.mp hwritten
    exact ⟨strm, f, ret, hinit, hgive, (hends hinit hgive).mpr hwhole⟩

end Owed

end Zlib

/-! ## `CompressBuf` -/

/-- `CompressBuf` gets through bodies and yields the whole stream of what is in them, in bodies
of at most `MAX_MESSAGE_BODY_LENGTH` bytes of which the last is flagged, and no other. -/
def EmitsWhole (u : Setup) (level : Int8) (bodies : List BufT) : Prop :=
  ∃ emitted, compressBuf u level bodies = .ok emitted ∧
    (∀ t ∈ emitted, t.bytes.length ≤ u.env.maxBody) ∧
    (∃ front t, emitted = front ++ [t] ∧ t.isLast = true ∧ ∀ t ∈ front, t.isLast = false) ∧
    u.zlib.Whole (bodies.map BufT.bytes).flatten (emitted.map BufT.bytes).flatten

/-- The bodies as they are given to `deflate`. -/
lemma Bodies.offered_eq {env : Env} {bodies : List BufT} (h : Bodies env bodies) :
    ∃ front x, x ≠ [] ∧ offered bodies = front.map (fun y => (y, false)) ++ [(x, true)] ∧
      bodies.map BufT.bytes = front ++ [x] := by
  obtain ⟨front, t, rfl, hlast, hfront⟩ := h.last
  have ht := h.body t (by simp)
  refine ⟨front.map BufT.bytes, t.bytes, ?_, ?_, by simp⟩
  · apply List.ne_nil_of_length_pos
    rw [ht.length_bytes]
    exact ht.bufLen_pos
  · rw [offered, List.map_append, List.map_map, List.map_singleton, hlast]
    congr 1
    exact List.map_congr_left fun y hy => by rw [hfront y hy]; rfl

/-- `CompressBuf` yields the whole stream exactly when the level is accepted, each call of
`deflate` takes something of what it is given, and when the last byte is taken, what the stream
lacks fits into one more buffer. -/
theorem emitsWhole_iff_endsInOneMore (u : Setup) (hz : u.zlib.DeflateContract) (level : Int8)
    (bodies : List BufT) (h : Bodies u.env bodies) :
    EmitsWhole u level bodies ↔
      u.zlib.EndsInOneMore u.env.maxBody level (offered bodies) := by
  have hpos : 0 < u.env.maxBody := by
    obtain ⟨front, t, rfl, -, -⟩ := h.last
    have ht := h.body t (by simp)
    exact ht.bufLen_pos.trans_le ht.bufLen_le
  obtain ⟨front, x, hx, hoffered, hbytes⟩ := h.offered_eq
  obtain ⟨hnone, hsome⟩ := compressBuf_bodies hz.toDeflateCalls h level
  rw [hoffered, Zlib.endsInOneMore_iff hz hpos level front hx, ← hbytes, ← hoffered]
  constructor
  · rintro ⟨emitted, hrun, -, -, hwhole⟩
    cases hdeflated : u.zlib.deflated u.env.maxBody level (offered bodies) with
    | none =>
      obtain ⟨e, he⟩ := hnone hdeflated
      cases he.symm.trans hrun
    | some written =>
      obtain ⟨emitted', hrun', hcompressed, -⟩ := hsome written hdeflated
      obtain rfl := Except.ok.inj (hrun.symm.trans hrun')
      rw [hcompressed.flatten_eq] at hwhole
      exact ⟨written, rfl, hwhole⟩
  · rintro ⟨written, hdeflated, hwhole⟩
    obtain ⟨emitted, hrun, hcompressed, -⟩ := hsome written hdeflated
    obtain ⟨front', t, hemitted, hlast, hfull⟩ := hcompressed.last
    refine ⟨emitted, hrun, fun t ht => ?_, ⟨front', t, hemitted, hlast, fun t ht =>
      (hfull t ht).not_last⟩, by rwa [hcompressed.flatten_eq]⟩
    rw [(hcompressed.raw t ht).length_bytes]
    exact (hcompressed.raw t ht).bufLen_le

/-- A zlib that stores, and buffers of the given size. -/
def Setup.storedIn (maxBody : ℕ) (h : maxBody < 2 ^ 31) : Setup where
  env := (Setup.plain maxBody h).env
  crypto := Crypto.unused
  zlib := Zlib.stored

/-- A body of two bytes. -/
def twoBytes : List BufT := [⟨⟨[97, 98], 2⟩, 0, 0, true⟩]

/-- The stream of two bytes takes thirteen, and two buffers of four hold eight of them. -/
theorem not_emitsWhole_twoBytes :
    Zlib.stored.DeflateContract ∧ Bodies (Setup.storedIn 4 (by decide)).env twoBytes ∧
      ¬EmitsWhole (Setup.storedIn 4 (by decide)) 0 twoBytes := by
  refine ⟨Stored.deflateContract, ⟨?_, [], _, rfl, rfl, by simp⟩, ?_⟩
  · intro t ht
    obtain rfl := List.mem_singleton.mp ht
    exact ⟨by decide, by decide, by decide⟩
  · rintro ⟨emitted, hrun, -, -, st, hd⟩
    have hemitted : compressBuf (Setup.storedIn 4 (by decide)) 0 twoBytes =
        .ok [⟨⟨[0x78, 0x01, 0x01, 2], 4⟩, 0, 0, false⟩,
          ⟨⟨[0, 0xfd, 0xff, 97], 4⟩, 0, 0, true⟩] := rfl
    obtain rfl := Except.ok.inj (hrun.symm.trans hemitted)
    obtain ⟨-, -, hwhole⟩ := Stored.keeps_of_deflating hd
    have hbytes : [0x78, 0x01, 0x01, 2, 0, 0xfd, 0xff, 97] = Stored.encode [97, 98] := hwhole
    revert hbytes
    decide

/-- Two bodies whose stream takes fifteen bytes. -/
def twoBodies : List BufT := [⟨⟨[1, 2, 3], 3⟩, 0, 0, false⟩, ⟨⟨[4], 1⟩, 0, 0, true⟩]

/-- That stream ends in a second buffer of eight bytes. -/
theorem emitsWhole_twoBodies : EmitsWhole (Setup.storedIn 8 (by decide)) 0 twoBodies :=
  (emitsWhole_iff_endsInOneMore (Setup.storedIn 8 (by decide)) Stored.deflateContract 0 twoBodies
    ⟨List.forall_mem_cons.mpr ⟨⟨by decide, by decide, by decide⟩,
        List.forall_mem_singleton.mpr ⟨by decide, by decide, by decide⟩⟩,
      [_], _, rfl, rfl, by simp⟩).mpr ⟨_, _, _, rfl, rfl, Or.inr rfl⟩

end OldPart
