import OldPart.Proto.ReaderKeeps
import OldPart.Proto.WriterChunks
import OldPart.Serializer.InflateCorrect
import OldPart.Serializer.EncryptRoundTrip

/-!
# The object `Deserialize` is given

`Deserialize` reads into an object of its caller, which may hold anything.  Strings are appended
to, so what they held stays.  And each frame is read before the next is checked: when a frame is
rejected, the frames in front of it have been read.
-/

namespace OldPart

/-! ## What was there before -/

/-- `Deserialize` of the plain messages of `obj` leaves `obj` in the target, whatever that held,
as it does in a new object. -/
def OverwritesTarget (u : Setup) (fetch : ℕ → Int32) (messageId : Int32) (key : AesKey)
    (turns : ℕ) (s : Schema) (target obj : s.Val) : Prop :=
  ∃ ms, serialize u fetch messageId obj = .ok ms ∧
    deserialize u key s target turns ms = .returned true obj ∧
    deserialize u key s s.zero turns ms = .returned true obj

/-- The target ends as the object written exactly when the lengths in that fit in `int32_t`, no
sum in `EnsureBuffer` leaves `int32_t`, and the strings that are read over are empty. -/
theorem overwritesTarget_iff_noResidue (u : Setup) (fetch : ℕ → Int32) (messageId : Int32)
    (key : AesKey) (turns : ℕ) (s : Schema) (target obj : s.Val)
    (hfour : int32Size.val ≤ u.env.maxBody) (hpod : s.largestPod ≤ u.env.maxBody) :
    OverwritesTarget u fetch messageId key turns s target obj ↔
      Schema.Fits s obj ∧ SumsFit u.env s obj ∧ Schema.NoResidue s target obj := by
  have hboth : ∀ raw, serializeObject u.env s obj = .ok raw → RawChunks u.env s obj raw →
      Schema.Fits s obj → ∃ ms, serialize u fetch messageId obj = .ok ms ∧
        ∀ old, deserialize u key s old turns ms = .returned true (Schema.overlay s old obj) := by
    intro raw hwrite hraw hfits
    refine ⟨makeMessageFromBuf ⟨messageId, SerializeMethod.none, 0⟩ fetch raw, ?_, fun old => ?_⟩
    · rw [serialize, hwrite]
      rfl
    · apply hraw.deserialize_overlay hfits
      exact (hraw.opens_plain key fetch messageId).imp fun _ _ hm => hm.2
  constructor
  · rintro ⟨ms, hserialize, htarget, hzero⟩
    have hfits : Schema.Fits s obj := fits_of_deserialize (Schema.fresh_zero s) hzero
    obtain ⟨raw, hwrite, -⟩ := exists_of_bind_eq_ok hserialize
    have hsums := sumsFit_of_serializeObject ⟨hfits, hfour, hpod⟩ hwrite
    obtain ⟨raw', hwrite', hraw⟩ := serializeObject_spec ⟨hfits, hfour, hpod⟩ hsums
    obtain ⟨ms', hserialize', hrun⟩ := hboth raw' hwrite' hraw hfits
    obtain rfl := Except.ok.inj (hserialize.symm.trans hserialize')
    refine ⟨hfits, hsums, (Schema.overlay_eq_iff s target obj).mp ?_⟩
    exact (Deserialized.returned.inj ((hrun target).symm.trans htarget)).2
  · rintro ⟨hfits, hsums, hresidue⟩
    obtain ⟨raw, hwrite, hraw⟩ := serializeObject_spec ⟨hfits, hfour, hpod⟩ hsums
    obtain ⟨ms, hserialize, hrun⟩ := hboth raw hwrite hraw hfits
    refine ⟨ms, hserialize, ?_, ?_⟩
    · rw [hrun, (Schema.overlay_eq_iff s target obj).mpr hresidue]
    · rw [hrun, Schema.overlay_of_fresh (Schema.fresh_zero s)]

/-- A string that is read over a string. -/
theorem not_overwritesTarget_string :
    ¬OverwritesTarget (Setup.plain 8 (by decide)) (fun i => .ofNat i) 1 zeroKey 0 .string
      ([97] : List UInt8) ([98] : List UInt8) := by
  rintro ⟨ms, hserialize, htarget, -⟩
  obtain ⟨raw, hwrite, hms⟩ := exists_of_bind_eq_ok hserialize
  have hraw : serializeObject (Setup.plain 8 (by decide)).env .string ([98] : List UInt8) =
      .ok [⟨⟨[1, 0, 0, 0, 98, 0, 0, 0], 5⟩, 0, 0, true⟩] := rfl
  obtain rfl := Except.ok.inj (hwrite.symm.trans hraw)
  obtain rfl := Except.ok.inj hms
  have hrun : deserialize (Setup.plain 8 (by decide)) zeroKey .string ([97] : List UInt8) 0
      (makeMessageFromBuf ⟨1, SerializeMethod.none, 0⟩ (fun i => .ofNat i)
        [⟨⟨[1, 0, 0, 0, 98, 0, 0, 0], 5⟩, 0, 0, true⟩]) =
      .returned true ([97, 98] : List UInt8) := rfl
  have heq := (Deserialized.returned.inj (hrun.symm.trans htarget)).2
  revert heq
  decide

/-- A vector of bytes and a string. -/
def bytesAndString : Schema := .field (.vector (.pod ⟨1, one_byte⟩)) .string

/-- Two bytes and no character. -/
def bytesOnly : bytesAndString.Val := ([⟨[1], rfl⟩, ⟨[2], rfl⟩], [])

lemma length_seven : [(7 : UInt8)].length = 1 := rfl

/-- One byte and one character. -/
def byteAndChar : bytesAndString.Val := ([⟨[7], length_seven⟩], [97])

/-- A shorter vector over a longer one, and a string over an empty one. -/
theorem overwritesTarget_bytesAndString :
    OverwritesTarget (Setup.plain 8 (by decide)) (fun i => .ofNat i) 1 zeroKey 0 bytesAndString
      bytesOnly byteAndChar :=
  (overwritesTarget_iff_noResidue (Setup.plain 8 (by decide)) (fun i => .ofNat i) 1 zeroKey 0
    bytesAndString bytesOnly byteAndChar (by decide) (by decide)).mpr
    ⟨by decide, by decide, fun _ _ => trivial, rfl⟩

/-! ## What a rejected stream leaves -/

namespace Deserializer

variable {u : Setup} {key : AesKey} {s : Schema} {target : s.Val}

/-- What the messages in front of the first one that is not opened hold, in the chunks the reader
is given, when `taken` messages have been taken before them. -/
def accepted (u : Setup) (key : AesKey) (turns : ℕ) :
    (taken : ℕ) → u.zlib.Inflate → List OMessage → List (List UInt8)
  | _, _, [] => []
  | taken, strm, m :: ms =>
      match openBody u key taken m with
      | .ok (some b) =>
          if m.isCompressed then
            if bodyIsNull m then accepted u key turns (taken + 1) u.zlib.inflateInit ms
            else
              match u.zlib.inflatePiece u.env.maxBody turns strm b.bytes with
              | some (ys, strm) => ys ++ accepted u key turns (taken + 1) strm ms
              | none => []
          else b.bytes :: accepted u key turns (taken + 1) strm ms
      | _ => []

/-- Chunks that the reader takes do not make it fail. -/
lemma not_faulty_of_takes {pre xs : List (List UInt8)} (h : Takes s target pre xs)
    (hpre : ¬(s.readCoro target pre).Faulty) : ¬(s.readCoro target (pre ++ xs)).Faulty := by
  by_cases hnil : xs = []
  · rwa [hnil, List.append_nil]
  · exact h.2 hnil

/-- A stream that is rejected has been read up to the message that is not opened. -/
lemma feedAll_eq_rejected {turns : ℕ} {ms : List OMessage} {d d' : Deserializer u.zlib}
    (h : d.feedAll u key s target turns ms = .rejected d')
    (hok : ¬(s.readCoro target d.chunks).Faulty) :
    d'.chunks = d.chunks ++
        accepted u key turns d.taken (d.strm.getD u.zlib.inflateInit) ms ∧
      ¬(s.readCoro target d'.chunks).Faulty := by
  induction ms generalizing d with
  | nil => cases h
  | cons m ms ih =>
    rw [feedAll, feed] at h
    rw [accepted]
    cases hopen : openBody u key d.taken m with
    | error e =>
      rw [hopen] at h
      cases h
    | ok o =>
      rw [hopen] at h
      cases o with
      | none =>
        obtain rfl := Fed.rejected.inj h
        exact ⟨(List.append_nil _).symm, hok⟩
      | some b =>
        dsimp only at h ⊢
        by_cases hcompressed : m.isCompressed = true
        · rw [if_pos hcompressed] at h ⊢
          by_cases hnull : bodyIsNull m = true
          · rw [if_pos hnull] at h ⊢
            exact ih h hok
          · rw [if_neg hnull] at h ⊢
            cases hbody : inflateBody u s target turns b.bytes (d.strm.getD u.zlib.inflateInit)
                { d with taken := d.taken + 1 } with
            | more d₁ =>
              obtain ⟨ys, st, hpiece, htakes, rfl⟩ := inflateBody_eq_more_iff.mp hbody
              rw [hbody] at h
              obtain ⟨hchunks, hfine⟩ := ih h (not_faulty_of_takes htakes hok)
              rw [hpiece]
              refine ⟨?_, hfine⟩
              rw [hchunks, List.append_assoc]
              rfl
            | rejected d₁ => exact (inflateBody_ne_rejected hbody).elim
            | fault d₁ e =>
              rw [hbody] at h
              cases h
        · rw [if_neg hcompressed] at h ⊢
          cases hpush : push s target { d with taken := d.taken + 1 } b.bytes with
          | more d₁ =>
            obtain ⟨-, hfine₁, rfl⟩ := push_eq_more_iff.mp hpush
            rw [hpush] at h
            obtain ⟨hchunks, hfine⟩ := ih h hfine₁
            refine ⟨?_, hfine⟩
            rw [hchunks, List.append_assoc]
            rfl
          | rejected d₁ => exact (push_ne_rejected hpush).elim
          | fault d₁ e =>
            rw [hpush] at h
            cases h

end Deserializer

/-- What the messages in front of the first bad one hold. -/
def acceptedBytes (u : Setup) (key : AesKey) (turns : ℕ) (ms : List OMessage) : List UInt8 :=
  (Deserializer.accepted u key turns 0 u.zlib.inflateInit ms).flatten

/-- When `Deserialize` returns `false`, the target is untouched exactly when what the messages in
front of the first bad one hold changes nothing in it. -/
theorem untouched_iff_keeps (u : Setup) (key : AesKey) (s : Schema) (target : s.Val) (turns : ℕ)
    (ms : List OMessage) {obj : s.Val}
    (hrejected : deserialize u key s target turns ms = .returned false obj) :
    obj = target ↔ s.Keeps target (acceptedBytes u key turns ms) := by
  cases ms with
  | nil => cases hrejected
  | cons m ms =>
    rw [deserialize] at hrejected
    cases hrun : (Deserializer.start u.zlib).feedAll u key s target turns (m :: ms) with
    | more d => rw [hrun] at hrejected; cases hrejected
    | fault d e => rw [hrun] at hrejected; cases hrejected
    | rejected d =>
      rw [hrun] at hrejected
      obtain rfl := (Deserialized.returned.inj hrejected).2
      obtain ⟨hchunks, hok⟩ := Deserializer.feedAll_eq_rejected hrun id
      rw [Deserializer.reader, Schema.readCoro_eq_iff_keeps hok, hchunks]
      rfl

/-- What AES makes of a block of zeros under a key of zeros, and the checksum of that block. -/
def Crypto.ofZeroBlock : Crypto := { Crypto.ofZeros with crc := fun _ => 0xecbb4b55 }

/-- A build for frames of one block. -/
def Setup.ofZeroBlock : Setup := ⟨(Setup.plain 16 (by decide)).env, .ofZeroBlock, .unused⟩

/-- A frame that holds a block of zeros. -/
def zerosFrame (messageSequenceId checksum : Int32) : OMessage where
  bodyLength := 16
  major := messageMajorVersion
  minor := messageMinorVersion
  sequenceId := 0
  messageId := 1
  messageSequenceId := messageSequenceId
  requestId := 0
  bodySerializeMethod := SerializeMethod.encrypt.toInt16
  compressLevel := 0
  encryptPadNum := 0
  checksum := checksum
  mBody := [0x66, 0xe9, 0x4b, 0xd4, 0xef, 0x8a, 0x2c, 0x3b, 0x88, 0x4c, 0xfa, 0x59, 0xca, 0x34,
    0x2b, 0x2e]

/-- Two such frames, the second with a wrong checksum. -/
def secondBad : List OMessage := [zerosFrame 1 0xecbb4b55, zerosFrame (-2) 0]

/-- Two PODs of one block each. -/
def twoBlocks : Schema := .field (.pod ⟨16, sixteen_bytes⟩) (.pod ⟨16, sixteen_bytes⟩)

/-- An object of them that is all ones. -/
def onesOnes : twoBlocks.Val := (List.Vector.replicate 16 1, List.Vector.replicate 16 1)

/-- The same with zeros in the first. -/
def zerosOnes : twoBlocks.Val := (List.Vector.replicate 16 0, List.Vector.replicate 16 1)

/-- The first frame is read before the second is rejected. -/
theorem not_untouched_secondBad :
    (∀ m ∈ secondBad, m.isEncrypted = true) ∧
      deserialize Setup.ofZeroBlock zeroKey twoBlocks onesOnes 0 secondBad =
        .returned false zerosOnes ∧
      zerosOnes ≠ onesOnes := by
  refine ⟨by decide, rfl, fun heq => ?_⟩
  have hfirst : List.Vector.replicate 16 (0 : UInt8) = List.Vector.replicate 16 1 :=
    (Prod.mk.inj heq).1
  revert hfirst
  decide

/-- When it says what the object holds, nothing changes. -/
theorem untouched_secondBad :
    zerosOnes = zerosOnes ↔
      twoBlocks.Keeps zerosOnes (acceptedBytes Setup.ofZeroBlock zeroKey 0 secondBad) :=
  untouched_iff_keeps Setup.ofZeroBlock zeroKey twoBlocks zerosOnes 0 secondBad rfl

end OldPart
