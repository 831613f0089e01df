import OldPart.Proto.Write
import OldPart.Serializer.OMessage
import OldPart.Serializer.DfcCrypto
import OldPart.Serializer.ZLib

/-!
# `OSerializer::Serialize`

The coroutines behind the four overloads: the writer, `CompressBuf`, `EncryptBuf`, and
`MakeMessageFromBuf` on top.  Each of them pulls from the one below it to the end, so each is
a function of everything the one below yields.
-/

namespace OldPart

/-- What a build of the code is linked with and configured for. -/
structure Setup where
  env : Env
  crypto : Crypto
  zlib : Zlib

/-! ## `CompressBuf` -/

/-- The state of the loop of `CompressBuf`: what was yielded so far, `compressedBuf` with
the buffer it fills, and how many buffers were made. -/
structure Compressor (zlib : Zlib) where
  yielded : List BufT
  compressedBuf : ZLibCompressBuf zlib
  made : ℕ

section CompressBuf

variable (u : Setup)

/-- Yield the full buffer and go on with a new one. -/
def Compressor.flush (w : Compressor u.zlib) : Compressor u.zlib where
  yielded := w.yielded ++ [⟨w.compressedBuf.outBuf, 0, 0, false⟩]
  compressedBuf := w.compressedBuf.reset (u.env.makeBuffer .compressBuf w.made)
  made := w.made + 1

/-- `Compress(nullptr, 0, true)` into a new buffer, when the tail needs more memory. -/
def Compressor.tail (w : Compressor u.zlib) : Except Fault (Compressor u.zlib) :=
  if !w.compressedBuf.needMoreMemory4Tail then .ok w
  else if w.compressedBuf.isFull then do
    let w := w.flush
    let (_, compressedBuf) ← w.compressedBuf.compress [] true
    return { w with compressedBuf := compressedBuf }
  else .error .assertFailed

/-- The branch of `CompressBuf` for the end of the last body. -/
def Compressor.finish (w : Compressor u.zlib) : Except Fault (Compressor u.zlib) := do
  let w ← w.tail
  let outBuf := { w.compressedBuf.outBuf with bufLen := w.compressedBuf.getOutLen }
  return { w with yielded := w.yielded ++ [⟨outBuf, 0, 0, true⟩] }

/-- The branches behind a call of `Compress` that has left `inBuf`. -/
def Compressor.afterCompress (isLast : Bool) (inBuf : List UInt8) (w : Compressor u.zlib) :
    Except Fault (Compressor u.zlib) :=
  if (!isLast || !inBuf.isEmpty) && w.compressedBuf.isFull then .ok w.flush
  else if isLast && inBuf.isEmpty then w.finish
  else .ok w

/-- The loop of `CompressBuf` over what is left of a body.  Every turn takes at least one
byte of it, or an assertion fails. -/
def compressBody (isLast : Bool) :
    (turns : ℕ) → List UInt8 → Compressor u.zlib → Except Fault (Compressor u.zlib)
  | _, [], w => .ok w
  | 0, _ :: _, _ => .error .hang
  | turns + 1, c :: cs, w => do
      let (compressedLen, compressedBuf) ← w.compressedBuf.compress (c :: cs) isLast
      if compressedLen = 0 then .error .assertFailed
      else
        let inBuf := (c :: cs).drop compressedLen
        let w ← { w with compressedBuf := compressedBuf }.afterCompress u isLast inBuf
        compressBody isLast turns inBuf w

/-- The loop of `CompressBuf` over the bodies it pulls. -/
def compressBodies : List BufT → Compressor u.zlib → Except Fault (Compressor u.zlib)
  | [], w => .ok w
  | body :: rest, w =>
      if body.buf.bufLen ≤ u.env.maxBody then do
        let w ← compressBody u body.isLast body.bytes.length body.bytes w
        compressBodies rest w
      else .error .assertFailed

/-- `OSerializer::CompressBuf`: everything it yields. -/
def compressBuf (level : Int8) (bodies : List BufT) : Except Fault (List BufT) :=
  match u.zlib.deflateInit level with
  | none => .error .deflateInitFailed
  | some strm => do
      let pBuf := u.env.makeBuffer .compressBuf 0
      let w ← compressBodies u bodies ⟨[], ⟨strm, pBuf, pBuf.bufLen, false⟩, 1⟩
      return w.yielded

end CompressBuf

/-! ## `EncryptBuf` -/

section EncryptBuf

variable (env : Env) (crypto : Crypto) (key : AesKey)

/-- One turn of the loop of `EncryptBuf`, for the `i`-th body. -/
def encryptBody (i : ℕ) (body : BufT) : Except Fault BufT := do
  let checksum := crypto.computeChecksum body.buf
  match ← crypto.aesEncrypt key (env.makeBuffer .encryptBuf i) body.buf with
  | none => .error .assertFailed
  | some (pEncryptBuf, padNum) => return ⟨pEncryptBuf, padNum, checksum, body.isLast⟩

/-- The loop of `EncryptBuf`, from the `i`-th body on. -/
def encryptBodies : (i : ℕ) → List BufT → Except Fault (List BufT)
  | _, [] => .ok []
  | i, body :: rest => do
      let encrypted ← encryptBody env crypto key i body
      let more ← encryptBodies (i + 1) rest
      return encrypted :: more

/-- `OSerializer::EncryptBuf`: everything it yields. -/
def encryptBuf (bodies : List BufT) : Except Fault (List BufT) :=
  encryptBodies env crypto key 0 bodies

end EncryptBuf

/-! ## The overloads -/

section Serialize

variable (u : Setup) {s : Schema} (fetch : ℕ → Int32) (messageId : Int32) (obj : s.Val)

/-- `Serialize(messageId, obj)`. -/
def serialize : Except Fault (List OMessage) := do
  let bodies ← serializeObject u.env s obj
  return makeMessageFromBuf ⟨messageId, SerializeMethod.none, 0⟩ fetch bodies

/-- `Serialize(messageId, obj, compressLevel)`. -/
def serializeCompress (compressLevel : Int8) : Except Fault (List OMessage) := do
  let bodies ← serializeObject u.env s obj
  let bodies ← compressBuf u compressLevel bodies
  return makeMessageFromBuf ⟨messageId, SerializeMethod.compress, compressLevel⟩ fetch bodies

/-- `Serialize(messageId, obj, key)`. -/
def serializeEncrypt (key : AesKey) : Except Fault (List OMessage) := do
  let bodies ← serializeObject u.env s obj
  let bodies ← encryptBuf u.env u.crypto key bodies
  return makeMessageFromBuf ⟨messageId, SerializeMethod.encrypt, 0⟩ fetch bodies

/-- `Serialize(messageId, obj, compressLevel, key)`. -/
def serializeCompressEncrypt (compressLevel : Int8) (key : AesKey) :
    Except Fault (List OMessage) := do
  let bodies ← serializeObject u.env s obj
  let bodies ← compressBuf u compressLevel bodies
  let bodies ← encryptBuf u.env u.crypto key bodies
  return makeMessageFromBuf
    ⟨messageId, SerializeMethod.compress ||| SerializeMethod.encrypt, compressLevel⟩ fetch bodies

end Serialize

end OldPart
