import OldPart.Proto.Buffer

/-!
# Messages

`OMessage`, the frame that goes over the wire, and `OSerializer::MakeMessageFromBuf`, which
numbers the chunks of one proto and makes a frame of each.
-/

namespace OldPart

namespace SerializeMethod

def none : Int32 := 0

def compress : Int32 := 1

def encrypt : Int32 := 2

/-- A `bodySerializeMethod` has a flag set. -/
def hasFlag (bodySerializeMethod : Int16) (flag : Int32) : Bool :=
  bodySerializeMethod &&& flag.toInt16 != 0

lemma hasFlag_none :
    hasFlag none.toInt16 compress = false ∧ hasFlag none.toInt16 encrypt = false := by decide

lemma hasFlag_compress :
    hasFlag compress.toInt16 compress = true ∧ hasFlag compress.toInt16 encrypt = false := by decide

lemma hasFlag_encrypt :
    hasFlag encrypt.toInt16 compress = false ∧ hasFlag encrypt.toInt16 encrypt = true := by decide

lemma hasFlag_compress_encrypt :
    hasFlag (compress ||| encrypt).toInt16 compress = true ∧
      hasFlag (compress ||| encrypt).toInt16 encrypt = true := by decide

end SerializeMethod

/-- `OMessage`.  `mBody` is the memory the pointer points to, of which `bodyLength` bytes
are the body; behind `nullptr` there is none. -/
structure OMessage where
  bodyLength : Int32
  major : Int16
  minor : Int16
  sequenceId : Int32
  messageId : Int32
  messageSequenceId : Int32
  requestId : Int32
  bodySerializeMethod : Int16
  compressLevel : Int8
  encryptPadNum : Int8
  checksum : Int32
  mBody : List UInt8
deriving DecidableEq, Repr

namespace OMessage

def isLast (m : OMessage) : Bool := decide (m.messageSequenceId < 0)

def isCompressed (m : OMessage) : Bool :=
  SerializeMethod.hasFlag m.bodySerializeMethod SerializeMethod.compress

def isEncrypted (m : OMessage) : Bool :=
  SerializeMethod.hasFlag m.bodySerializeMethod SerializeMethod.encrypt

/-- `Buf{GetBody(), GetBodyLength()}`.  A body length is not negative: `GetReceiveBuffer`
throws on such a header. -/
def body (m : OMessage) : Buf := ⟨m.mBody, m.bodyLength.toNatClampNeg⟩

/-- The bytes of the body. -/
def bytes (m : OMessage) : List UInt8 := m.body.bytes

end OMessage

/-- `OSerializer::MESSAGE_MAJOR_VERSION`. -/
def messageMajorVersion : Int16 := 1

/-- `OSerializer::MESSAGE_MINOR_VERSION`. -/
def messageMinorVersion : Int16 := 1

/-- What `MakeMessageFromBuf` is called with. -/
structure Stamp where
  messageId : Int32
  serializeMethod : Int32
  compressLevel : Int8
deriving DecidableEq, Repr

/-- One turn of the loop of `MakeMessageFromBuf`. -/
def makeMessage (stamp : Stamp) (sequenceId messageSequenceId : Int32) (body : BufT) :
    OMessage where
  bodyLength := .ofNat body.buf.bufLen
  major := messageMajorVersion
  minor := messageMinorVersion
  sequenceId := sequenceId
  messageId := stamp.messageId
  messageSequenceId := if body.isLast then -messageSequenceId else messageSequenceId
  requestId := 0
  bodySerializeMethod := stamp.serializeMethod.toInt16
  compressLevel := stamp.compressLevel
  encryptPadNum := body.padNum.toInt8
  checksum := body.checksum
  mBody := body.buf.buf

/-- The loop of `MakeMessageFromBuf`.  The counter `mMessageSequenceId` belongs to the
serializer and other streams take numbers from it too: `fetch i` is what
`mMessageSequenceId.fetch_add(1)` returns for the `i`-th frame of this one. -/
def makeMessages (stamp : Stamp) (fetch : ℕ → Int32) :
    (i : ℕ) → (messageSequenceId : Int32) → List BufT → List OMessage
  | _, _, [] => []
  | i, messageSequenceId, body :: rest =>
      makeMessage stamp (fetch i) messageSequenceId body ::
        makeMessages stamp fetch (i + 1) (messageSequenceId + 1) rest

/-- `OSerializer::MakeMessageFromBuf`: everything its coroutine yields. -/
def makeMessageFromBuf (stamp : Stamp) (fetch : ℕ → Int32) (bodies : List BufT) : List OMessage :=
  makeMessages stamp fetch 0 1 bodies

section MakeMessage

variable (stamp : Stamp) (sequenceId messageSequenceId : Int32) {body : BufT}

@[simp] lemma makeMessage_body (h : body.buf.bufLen < 2 ^ 31) :
    (makeMessage stamp sequenceId messageSequenceId body).body = body.buf := by
  simp [makeMessage, OMessage.body, Int32.toNatClampNeg_ofNat_of_lt h]

@[simp] lemma makeMessage_isCompressed :
    (makeMessage stamp sequenceId messageSequenceId body).isCompressed =
      SerializeMethod.hasFlag stamp.serializeMethod.toInt16 SerializeMethod.compress := rfl

@[simp] lemma makeMessage_isEncrypted :
    (makeMessage stamp sequenceId messageSequenceId body).isEncrypted =
      SerializeMethod.hasFlag stamp.serializeMethod.toInt16 SerializeMethod.encrypt := rfl

end MakeMessage

/-- What every message made of a body has to do with the value the body belongs to, the
messages of a stream have to do with the values in order, whatever their numbers. -/
lemma forall₂_makeMessages {α : Type} {stamp : Stamp} {S : BufT → α → Prop}
    {R : OMessage → α → Prop}
    (h : ∀ body x, S body x → ∀ sequenceId messageSequenceId,
      R (makeMessage stamp sequenceId messageSequenceId body) x)
    {bodies : List BufT} {xs : List α} (hbodies : List.Forall₂ S bodies xs)
    (fetch : ℕ → Int32) (i : ℕ) (messageSequenceId : Int32) :
    List.Forall₂ R (makeMessages stamp fetch i messageSequenceId bodies) xs := by
  induction hbodies generalizing i messageSequenceId with
  | nil => exact List.Forall₂.nil
  | cons hbody _ ih => exact List.Forall₂.cons (h _ _ hbody _ _) (ih _ _)

/-- One more body makes one more message. -/
lemma makeMessageFromBuf_concat (stamp : Stamp) (fetch : ℕ → Int32) (bodies : List BufT)
    (body : BufT) :
    makeMessageFromBuf stamp fetch (bodies ++ [body]) = makeMessageFromBuf stamp fetch bodies ++
      [makeMessage stamp (fetch bodies.length) (.ofNat (bodies.length + 1)) body] := by
  suffices hgen : ∀ i k, makeMessages stamp fetch i (.ofNat k) (bodies ++ [body]) =
      makeMessages stamp fetch i (.ofNat k) bodies ++
        [makeMessage stamp (fetch (i + bodies.length)) (.ofNat (k + bodies.length)) body] by
    have h := hgen 0 1
    rwa [Nat.zero_add, Nat.add_comm 1] at h
  induction bodies with
  | nil => intro i k; rfl
  | cons b rest ih =>
    intro i k
    have hnext : Int32.ofNat k + 1 = Int32.ofNat (k + 1) := (Int32.ofNat_add k 1).symm
    rw [List.cons_append, makeMessages, makeMessages, hnext, ih, List.cons_append,
      List.length_cons, Nat.add_assoc, Nat.add_assoc, Nat.add_comm 1]

/-- The messages depend on the numbers they take, and on no others. -/
lemma makeMessageFromBuf_congr {stamp : Stamp} {fetch fetch' : ℕ → Int32} {bodies : List BufT}
    (h : ∀ i < bodies.length, fetch i = fetch' i) :
    makeMessageFromBuf stamp fetch bodies = makeMessageFromBuf stamp fetch' bodies := by
  suffices hgen : ∀ i messageSequenceId, (∀ j < bodies.length, fetch (i + j) = fetch' (i + j)) →
      makeMessages stamp fetch i messageSequenceId bodies =
        makeMessages stamp fetch' i messageSequenceId bodies from
    hgen 0 1 fun j hj => by simpa using h j hj
  clear h
  induction bodies with
  | nil => intro i messageSequenceId _; rfl
  | cons b rest ih =>
    intro i messageSequenceId h
    have hfirst : fetch i = fetch' i := h 0 (by simp)
    rw [makeMessages, makeMessages, hfirst, ih (i + 1) _ fun j hj => ?_]
    have hlater := h (j + 1) (by simpa using hj)
    rwa [← Nat.add_assoc, Nat.add_right_comm] at hlater

end OldPart
