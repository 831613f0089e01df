import OldPart.Lib.Packed
import OldPart.Socket.Reassembly

/-!
# Messages as bytes

An `OMessage` begins with fields of fixed widths, each the highest byte first, and this memory
is what is sent and received as its head.  The body comes behind it; how long it is stands in
the head, and a message without a body is its head.
-/

namespace OldPart

namespace OMessage

/-! ## The head -/

/-- The fields of an `OMessage` in front of `mBody`, in the order in which they are declared.
Each begins where the one before it ends. -/
def headLayout : Packed (Int32 × Int16 × Int16 × Int32 × Int32 × Int32 × Int32 × Int16 × Int8 ×
    Int8 × Int32) :=
  .prod .int32 <| .prod .int16 <| .prod .int16 <| .prod .int32 <| .prod .int32 <| .prod .int32 <|
    .prod .int32 <| .prod .int16 <| .prod .int8 <| .prod .int8 .int32

/-- `OMessage::GetHeadLength`, the offset of `mBody`. -/
def getHeadLength : ℕ := headLayout.width

/-- Thirty-two bytes, so that the pointer behind them needs no padding. -/
example : getHeadLength = 32 := by decide

/-- The memory at `OMessage::GetHead`. -/
def getHead (m : OMessage) : List UInt8 :=
  headLayout.pack (m.bodyLength, m.major, m.minor, m.sequenceId, m.messageId, m.messageSequenceId,
    m.requestId, m.bodySerializeMethod, m.compressLevel, m.encryptPadNum, m.checksum)

/-- An `OMessage` whose head is in memory, before it has a body. -/
def ofHead (head : List UInt8) : OMessage :=
  let (bodyLength, major, minor, sequenceId, messageId, messageSequenceId, requestId,
    bodySerializeMethod, compressLevel, encryptPadNum, checksum) := headLayout.unpack head
  { bodyLength, major, minor, sequenceId, messageId, messageSequenceId, requestId,
    bodySerializeMethod, compressLevel, encryptPadNum, checksum, mBody := [] }

lemma length_getHead (m : OMessage) : m.getHead.length = getHeadLength := headLayout.length_pack _

/-- Every field of the head is read as it was written. -/
lemma ofHead_getHead (m : OMessage) : ofHead m.getHead = { m with mBody := [] } := by
  rw [ofHead, getHead, headLayout.unpack_pack]

/-! ## Sending and receiving -/

def getSendBuffer (m : OMessage) : List (List UInt8) :=
  m.getHead :: if m.bodyLength ≠ 0 then [m.bytes] else []

end OMessage

/-- What the reads of `DoRead` for one message make of the bytes that arrive, and what is left
of these; nothing when they do not complete. -/
def readMessage (arrived : List UInt8) : Option (Frame × List UInt8) :=
  if arrived.length < OMessage.getHeadLength then none
  else
    let pMessage := OMessage.ofHead (arrived.take OMessage.getHeadLength)
    let arrived := arrived.drop OMessage.getHeadLength
    if hzero : pMessage.bodyLength = 0 then
      some (⟨{ pMessage with mBody := [] }, by simp [hzero]⟩, arrived)
    -- `GetReceiveBuffer` throws
    else if pMessage.bodyLength < 0 then none
    else if hlen : arrived.length < pMessage.bodyLength.toNatClampNeg then none
    else
      some (⟨{ pMessage with mBody := arrived.take pMessage.bodyLength.toNatClampNeg },
        by simp; omega⟩, arrived.drop pMessage.bodyLength.toNatClampNeg)

/-- Reading a message takes at least its head. -/
lemma length_lt_of_readMessage {arrived rest : List UInt8} {f : Frame}
    (h : readMessage arrived = some (f, rest)) : rest.length < arrived.length := by
  have hpos : 0 < OMessage.getHeadLength := by decide
  unfold readMessage at h
  split at h
  · cases h
  · dsimp only at h
    split at h
    · obtain ⟨-, rfl⟩ := Prod.mk.inj (Option.some.inj h)
      rw [List.length_drop]
      omega
    · split at h
      · cases h
      · split at h
        · cases h
        · obtain ⟨-, rfl⟩ := Prod.mk.inj (Option.some.inj h)
          rw [List.length_drop, List.length_drop]
          omega

/-- The messages `DoRead` reads from the bytes that arrive, and what is left of these. -/
def readMessages (arrived : List UInt8) : List Frame × List UInt8 :=
  match _hread : readMessage arrived with
  | none => ([], arrived)
  | some (f, rest) =>
      let (fs, rest) := readMessages rest
      (f :: fs, rest)
termination_by arrived.length
decreasing_by exact length_lt_of_readMessage ‹_›

/-! ## Reading what was sent -/

section RoundTrip

variable {m : OMessage}

/-- The body of a message is all of its memory. -/
lemma OMessage.bytes_eq (h : m.bodyLength.toInt = m.mBody.length) : m.bytes = m.mBody := by
  have hlen : m.bodyLength.toNatClampNeg = m.mBody.length := by
    rw [Int32.toNatClampNeg, h, Int.toNat_natCast]
  rw [bytes, body, Buf.bytes, hlen, List.take_length]

/-- A message whose bytes have arrived is read, and nothing else. -/
lemma readMessage_getSendBuffer (h : m.bodyLength.toInt = m.mBody.length) (rest : List UInt8) :
    ∃ f : Frame, f.message = m ∧
      readMessage (m.getSendBuffer.flatten ++ rest) = some (f, rest) := by
  have hlen : m.bodyLength.toNatClampNeg = m.mBody.length := by
    rw [Int32.toNatClampNeg, h, Int.toNat_natCast]
  have hnonneg : ¬m.bodyLength < 0 := by
    rw [Int32.lt_iff_toInt_lt, h, Int32.toInt_zero]
    omega
  have hhead := m.length_getHead
  refine ⟨⟨m, hlen.symm⟩, rfl, ?_⟩
  by_cases hzero : m.bodyLength = 0
  · have hnil : m.mBody = [] := by
      rw [hzero, Int32.toInt_zero] at h
      exact List.length_eq_zero_iff.mp (by omega)
    have hsame : { m with bodyLength := 0, mBody := [] } = m := by rw [← hzero, ← hnil]
    have hbuffer : m.getSendBuffer.flatten ++ rest = m.getHead ++ rest := by
      simp [OMessage.getSendBuffer, hzero]
    have htake : (m.getHead ++ rest).take OMessage.getHeadLength = m.getHead :=
      List.take_left' hhead
    have hdrop : (m.getHead ++ rest).drop OMessage.getHeadLength = rest := List.drop_left' hhead
    have hkeep : ¬(m.getHead ++ rest).length < OMessage.getHeadLength := by
      rw [List.length_append]
      omega
    rw [hbuffer]
    simp only [readMessage, if_neg hkeep, htake, hdrop, OMessage.ofHead_getHead, hzero, dite_true,
      hsame]
  · have hbuffer : m.getSendBuffer.flatten ++ rest = m.getHead ++ (m.mBody ++ rest) := by
      simp [OMessage.getSendBuffer, hzero, OMessage.bytes_eq h]
    have htake : (m.getHead ++ (m.mBody ++ rest)).take OMessage.getHeadLength = m.getHead :=
      List.take_left' hhead
    have hdrop : (m.getHead ++ (m.mBody ++ rest)).drop OMessage.getHeadLength = m.mBody ++ rest :=
      List.drop_left' hhead
    have hkeep : ¬(m.getHead ++ (m.mBody ++ rest)).length < OMessage.getHeadLength := by
      rw [List.length_append]
      omega
    have hwhole : ¬(m.mBody ++ rest).length < m.mBody.length := by
      rw [List.length_append]
      omega
    rw [hbuffer]
    simp only [readMessage, if_neg hkeep, htake, hdrop, OMessage.ofHead_getHead, dif_neg hzero,
      if_neg hnonneg, dif_neg hwhole, hlen, List.take_left, List.drop_left]

/-- One message of those that have arrived. -/
lemma readMessages_cons {arrived rest : List UInt8} {f : Frame}
    (h : readMessage arrived = some (f, rest)) :
    readMessages arrived = (f :: (readMessages rest).1, (readMessages rest).2) := by
  rw [readMessages]
  split
  · next hnone => cases hnone.symm.trans h
  · next hsome =>
    obtain ⟨rfl, rfl⟩ := Prod.mk.inj (Option.some.inj (hsome.symm.trans h))
    rfl

end RoundTrip

/-- The messages that were sent are read, with every field of their heads and their bodies, and
no byte is left. -/
theorem readMessages_getSendBuffers (ms : List OMessage)
    (h : ∀ m ∈ ms, m.bodyLength.toInt = m.mBody.length) :
    (readMessages (ms.flatMap fun m => m.getSendBuffer.flatten)).1.map Frame.message = ms ∧
      (readMessages (ms.flatMap fun m => m.getSendBuffer.flatten)).2 = [] := by
  induction ms with
  | nil =>
    have hnone : readMessage [] = none := if_pos (by decide)
    rw [List.flatMap_nil, readMessages]
    split
    · exact ⟨rfl, rfl⟩
    · next hsome => cases hnone.symm.trans hsome
  | cons m ms ih =>
    obtain ⟨hm, hms⟩ := List.forall_mem_cons.mp h
    obtain ⟨f, hf, hread⟩ :=
      readMessage_getSendBuffer hm (ms.flatMap fun m => m.getSendBuffer.flatten)
    obtain ⟨hfs, hrest⟩ := ih hms
    rw [List.flatMap_cons, readMessages_cons hread]
    exact ⟨by rw [List.map_cons, hf, hfs], hrest⟩

/-- A message without a body, and one of two bytes whose fields are negative. -/
def twoMessages : List OMessage :=
  [⟨0, 1, 1, 1, 1, -1, 0, 0, 0, 0, 0, []⟩, ⟨2, -1, -2, -3, -4, -5, -6, -7, -8, -9, -10, [0xff, 0]⟩]

/-- Both are read. -/
theorem readMessages_twoMessages :
    (readMessages (twoMessages.flatMap fun m => m.getSendBuffer.flatten)).1.map Frame.message
        = twoMessages ∧
      (readMessages (twoMessages.flatMap fun m => m.getSendBuffer.flatten)).2 = [] :=
  readMessages_getSendBuffers twoMessages (by decide)

end OldPart
