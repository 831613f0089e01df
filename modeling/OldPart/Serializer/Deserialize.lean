import OldPart.Proto.Read
import OldPart.Serializer.Serialize

/-!
# `OSerializer::Deserialize`

`Deserialize` pulls messages, opens each, and pushes what it holds into the coroutine of the
object's reader.  A `Deserializer` is what it keeps between two messages; `feed` is one turn
of its loop, so that the same definition serves a caller with all the messages at hand and
one that pushes them as they arrive.
-/

namespace OldPart

/-- `Deserialize` between two messages: the chunks the reader has been pushed, `mStrm` of
`uncompressBuf` unless its `next_in` is null, and the number of messages taken. -/
structure Deserializer (zlib : Zlib) where
  chunks : List (List UInt8)
  strm : Option zlib.Inflate
  taken : ℕ

/-- `Deserialize` before its first message. -/
def Deserializer.start (zlib : Zlib) : Deserializer zlib := ⟨[], none, 0⟩

/-- What became of `Deserialize` when a message was fed to it. -/
inductive Fed (zlib : Zlib) where
  /-- It goes on to the next message. -/
  | more (d : Deserializer zlib)
  /-- It has returned `false`. -/
  | rejected (d : Deserializer zlib)
  /-- It has failed. -/
  | fault (d : Deserializer zlib) (e : Fault)

/-- How `Deserialize` ends, and what the object holds then. -/
inductive Deserialized (α : Type) where
  | returned (ok : Bool) (obj : α)
  | failed (obj : α) (e : Fault)

section Deserialize

variable (u : Setup) (key : AesKey) (s : Schema) (target : s.Val)

namespace Deserializer

/-- The reader's coroutine. -/
def reader {zlib : Zlib} (d : Deserializer zlib) : Outcome Fault UInt8 s.Val :=
  s.readCoro target d.chunks

/-- `sink({buf, 0, 0, isLast})`: the reader runs until its next pull. -/
def push {zlib : Zlib} (d : Deserializer zlib) (x : List UInt8) : Fed zlib :=
  match d.reader s target with
  | .wait _ =>
      let d := { d with chunks := d.chunks ++ [x] }
      match d.reader s target with
      | .fault _ e => .fault d e
      | _ => .more d
  | .done _ _ => .fault d .resumedAfterReturn
  | .fault _ _ => .fault d .resumedAfterReturn

/-- The message's body, decrypted if it is encrypted; `none` when the checksum differs.
`AESDecrypt`'s own result is not looked at. -/
def openBody (i : ℕ) (m : OMessage) : Except Fault (Option Buf) :=
  if m.isEncrypted then do
    let (_, pDecryptedBuf) ←
      u.crypto.aesDecrypt key (u.env.makeBuffer .decrypt i) m.body m.encryptPadNum.toInt32
    if u.crypto.computeChecksum pDecryptedBuf = m.checksum then return some pDecryptedBuf
    else return none
  else .ok (some m.body)

/-- The buffer the body is in is null: `mBody` is, and nothing was decrypted from it. -/
def bodyIsNull (m : OMessage) : Bool := !m.isEncrypted && m.mBody.isEmpty

/-- The loop that inflates a body and pushes what comes out.  The loop of the code has no
bound; this one takes at most `turns` turns. -/
def inflateBody :
    (turns : ℕ) → List UInt8 → u.zlib.Inflate → Deserializer u.zlib → Fed u.zlib
  | _, [], strm, d => .more { d with strm := some strm }
  | 0, _ :: _, _, d => .fault d .hang
  | turns + 1, c :: cs, strm, d =>
      let step := u.zlib.inflate strm (c :: cs) u.env.maxBody
      match step.ret with
      | .streamError => .fault d .assertFailed
      | .dataError => .fault d .inflateFailed
      | _ =>
          match d.push s target step.out with
          | .more d => inflateBody turns ((c :: cs).drop step.consumed) step.state d
          | fed => fed

variable (turns : ℕ)

/-- One turn of the loop of `Deserialize`. -/
def feed (d : Deserializer u.zlib) (m : OMessage) : Fed u.zlib :=
  match openBody u key d.taken m with
  | .error e => .fault d e
  | .ok none => .rejected d
  | .ok (some pBuf) =>
      let d := { d with taken := d.taken + 1 }
      if m.isCompressed then
        -- `Reset` takes the buffer for `next_in`, and runs `inflateInit` when it finds none there
        if bodyIsNull m then .more { d with strm := none }
        else inflateBody u s target turns pBuf.bytes (d.strm.getD u.zlib.inflateInit) d
      else d.push s target pBuf.bytes

/-- The loop of `Deserialize`. -/
def feedAll (d : Deserializer u.zlib) : List OMessage → Fed u.zlib
  | [] => .more d
  | m :: ms =>
      match d.feed u key s target turns m with
      | .more d => d.feedAll ms
      | fed => fed

variable {u key s target turns} in
/-- One message after others that have gone through. -/
lemma feedAll_append_singleton {d d₁ : Deserializer u.zlib} {ms : List OMessage}
    (h : d.feedAll u key s target turns ms = .more d₁) (m : OMessage) :
    d.feedAll u key s target turns (ms ++ [m]) = d₁.feed u key s target turns m := by
  induction ms generalizing d with
  | nil =>
    obtain rfl := Fed.more.inj h
    rw [List.nil_append, feedAll]
    cases d.feed u key s target turns m <;> rfl
  | cons x ms ih =>
    rw [List.cons_append, feedAll]
    rw [feedAll] at h
    cases hfeed : d.feed u key s target turns x with
    | more d₂ =>
      rw [hfeed] at h
      exact ih h
    | rejected d₂ => rw [hfeed] at h; cases h
    | fault d₂ f => rw [hfeed] at h; cases h

end Deserializer

/-- `OSerializer::Deserialize` of a stream of messages. -/
def deserialize (turns : ℕ) (messages : List OMessage) : Deserialized s.Val :=
  match messages with
  | [] => .failed target .noMessage
  | m :: ms =>
      match (Deserializer.start u.zlib).feedAll u key s target turns (m :: ms) with
      | .more d => .returned true (d.reader s target).obj
      | .rejected d => .returned false (d.reader s target).obj
      | .fault d e => .failed (d.reader s target).obj e

end Deserialize

end OldPart
