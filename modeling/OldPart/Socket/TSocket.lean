import OldPart.Lib.Machine
import OldPart.Serializer.Deserialize
import OldPart.Serializer.Registry

/-!
# `TSocket`

The two callback loops of a connection.  `DoWrite` and the tasks that `Send` posts share the
queue of pending messages; `DoRead` puts the frames that arrive together.  All of them run on
the socket's `io_context`, one after another, so the socket is a machine whose events are the
tasks and the completions as they come.
-/

namespace OldPart

/-- The `boost::system::error_code` of a completion. -/
inductive ErrorCode where
  | success
  | operationAborted
  | other
deriving DecidableEq, Repr

/-- How a handler of `DoRead` can go wrong. -/
inductive SocketFault where
  /-- A frame is pushed into a `pMessageSink` that is null. -/
  | nullSink
  /-- `*pMessageBody` with a null pointer. -/
  | nullProto
  /-- A frame is pushed into a `Deserialize` that has returned. -/
  | finishedSink
  /-- The memory of `pMessageSink` holds no `shared_ptr`. -/
  | wildLocals
  | assertFailed
  /-- `std::length_error` from `GetReceiveBuffer`. -/
  | lengthError
  | deserialize (e : Fault)
deriving DecidableEq, Repr

/-- What a socket does that can be seen from outside. -/
inductive Effect where
  /-- `async_write` of a message. -/
  | asyncWrite (pMessage : OMessage)
  /-- `IConnectionManager::Stop`. -/
  | stop
  /-- `MessageHandler::OnMessage(pMessage, pProto)`. -/
  | onMessage (pMessage : OMessage) (pProto : Option Proto)
  | fault (f : SocketFault)

/-! ## Sending -/

/-- What `Send` and `DoWrite` work on.  `writing` are the messages of the `async_write`s that
were started and have not completed. -/
structure Outbox where
  mPendingMessages : List OMessage
  mIsInSending : Bool
  writing : List OMessage

namespace Outbox

def start : Outbox := ⟨[], false, []⟩

/-- What happens on the sending side: a task posted by `Send` runs, or the `i`-th of the
writes that are outstanding completes. -/
inductive Event where
  | send (pMessage : OMessage)
  | written (i : ℕ) (ec : ErrorCode)

def doWrite (w : Outbox) (pMessage : OMessage) : Outbox × List Effect :=
  ({ w with mIsInSending := true, writing := w.writing ++ [pMessage] }, [.asyncWrite pMessage])

/-- The task of `TSocket::Send`. -/
def send (w : Outbox) (pMessage : OMessage) : Outbox × List Effect :=
  if w.mPendingMessages.isEmpty then w.doWrite pMessage
  else ({ w with mPendingMessages := w.mPendingMessages ++ [pMessage] }, [])

/-- The part of `DoWrite`'s handler for a write that succeeded. -/
def writeNext (w : Outbox) : Outbox × List Effect :=
  match w.mPendingMessages with
  | pNextMessage :: rest => { w with mPendingMessages := rest }.doWrite pNextMessage
  | [] => ({ w with mIsInSending := false }, [])

/-- `DoWrite`'s handler.  The second `if` is not an `else` branch of the first. -/
def onWritten (w : Outbox) (ec : ErrorCode) : Outbox × List Effect :=
  let (w, effects) := if ec = .success then w.writeNext else (w, [])
  (w, effects ++ if ec ≠ .operationAborted then [.stop] else [])

def step : Machine Outbox Event Effect
  | w, .send pMessage => some (w.send pMessage)
  | w, .written i ec =>
      if i < w.writing.length then
        some ({ w with writing := w.writing.eraseIdx i }.onWritten ec)
      else none

end Outbox

/-! ## Receiving -/

inductive MessageSink (zlib : Zlib) where
  /-- Not entered yet. -/
  | fresh
  /-- `Deserialize` waits for the next frame; `target` is the object as it was created. -/
  | running (target : Proto) (d : Deserializer zlib)
  /-- `Deserialize` has returned. -/
  | finished

/-- The locals of `DoRead` that its handlers use.  `pMessageBody` is the object as it
stands. -/
structure Locals (zlib : Zlib) where
  pMessageBody : Option Proto
  pMessageSink : Option (MessageSink zlib)

def Locals.null (zlib : Zlib) : Locals zlib := ⟨none, none⟩

/-- What a handler finds at the place of `DoRead`'s locals.  It captured them by reference
and `DoRead` has returned since, so the language leaves it open. -/
inductive Residue where
  /-- What `DoRead` put there. -/
  | cleared
  /-- What the handler of the frame before left behind: that frame's `DoRead` had its locals
  at the same place. -/
  | kept
  /-- Something else that was on the stack since. -/
  | wild
deriving DecidableEq, Repr

/-- A receiving socket: its serializer, with the creators registered there and a bound on
the turns of its inflate loop, and `mEncryptKey`. -/
structure Endpoint where
  setup : Setup
  creators : ProtoCreators
  turns : ℕ
  mEncryptKey : AesKey

/-- The `async_read` of `DoRead` that is outstanding. -/
inductive Reading where
  | head
  | body (pMessage : OMessage)
  /-- There is none: a completion brought an error, or a handler failed. -/
  | none

section Receiving

variable (e : Endpoint)

/-- The coroutine that a push into `pMessageSink` resumes: the object it fills, and how far
`Deserialize` has come. -/
def Locals.enter {zlib : Zlib} (l : Locals zlib) :
    Except SocketFault (Proto × Deserializer zlib) :=
  match l.pMessageSink with
  | none => .error .nullSink
  | some .fresh =>
      match l.pMessageBody with
      | none => .error .nullProto
      | some target => .ok (target, .start zlib)
  | some (.running target d) => .ok (target, d)
  | some .finished => .error .finishedSink

def Proto.filled {zlib : Zlib} (target : Proto) (d : Deserializer zlib) : Proto :=
  ⟨target.schema, (d.reader target.schema target.obj).obj⟩

/-- The locals when the coroutine that fills `target` comes back. -/
def Locals.resumed {zlib : Zlib} (target : Proto) : Fed zlib → Except SocketFault (Locals zlib)
  | .more d => .ok ⟨some (target.filled d), some (.running target d)⟩
  | .rejected d => .ok ⟨some (target.filled d), some .finished⟩
  | .fault _ f => .error (.deserialize f)

/-- `(*pMessageSink)(pMessage)`. -/
def Locals.push (l : Locals e.setup.zlib) (pMessage : OMessage) :
    Except SocketFault (Locals e.setup.zlib) := do
  let (target, d) ← l.enter
  resumed target (d.feed e.setup e.mEncryptKey target.schema target.obj e.turns pMessage)

def Locals.opened (l : Locals e.setup.zlib) (pMessage : OMessage) : Locals e.setup.zlib :=
  if pMessage.messageSequenceId = 1 then ⟨e.creators.doCreate pMessage.messageId, some .fresh⟩
  else l

/-- What the handler of a body does with a frame that `OnMessage(pMessage)` has not handled. -/
def Locals.reassemble (l : Locals e.setup.zlib) (pMessage : OMessage) :
    Except SocketFault (Locals e.setup.zlib × List Effect) := do
  let l ← (l.opened e pMessage).push e pMessage
  if pMessage.messageSequenceId < 0 then
    return (.null _, [.onMessage pMessage l.pMessageBody])
  else return (l, [])

/-- The receiving side: the read that is outstanding, and what the last handler of a body
left in the locals it used. -/
structure Receiver where
  reading : Reading
  locals : Locals e.setup.zlib

/-- What happens on the receiving side: the read of a header or of a body completes.
`handled` is what `OnMessage(pMessage)` returns, where it is called. -/
inductive Receiver.Event where
  | head (ec : ErrorCode) (pMessage : OMessage) (handled : Bool)
  | body (ec : ErrorCode) (bytes : List UInt8) (residue : Residue) (handled : Bool)

namespace Receiver

variable {e}

def start : Receiver e := ⟨.head, .null _⟩

/-- A handler that fails; nothing is read after it. -/
def fail (r : Receiver e) (f : SocketFault) : Receiver e × List Effect :=
  ({ r with reading := .none }, [.fault f])

def onError (r : Receiver e) (ec : ErrorCode) : Receiver e × List Effect :=
  ({ r with reading := .none }, if ec ≠ .operationAborted then [.stop] else [])

def onHead (r : Receiver e) (pMessage : OMessage) (handled : Bool) : Receiver e × List Effect :=
  if pMessage.bodyLength = 0 then
    let r := { r with reading := .head }
    if pMessage.messageSequenceId ≠ -1 then r.fail .assertFailed
    else if handled then (r, [])
    else (r, [.onMessage pMessage (e.creators.doCreate pMessage.messageId)])
  -- `GetReceiveBuffer` resizes a string to the body length
  else if pMessage.bodyLength < 0 then r.fail .lengthError
  else ({ r with reading := .body pMessage }, [])

/-- The locals as the handler of a body finds them, when it finds locals at all. -/
def found (r : Receiver e) (residue : Residue) : Locals e.setup.zlib :=
  if residue = .kept then r.locals else .null _

/-- The handler of a body. -/
def onBody (r : Receiver e) (pMessage : OMessage) (residue : Residue) (handled : Bool) :
    Receiver e × List Effect :=
  let r := { r with reading := .head }
  if handled then (r, [])
  else if residue = .wild then r.fail .wildLocals
  else
    match (r.found residue).reassemble e pMessage with
    | .error f => r.fail f
    | .ok (locals, effects) => ({ r with locals := locals }, effects)

/-- The receiving side of a socket.  The read of a body completes when all its bytes are
there. -/
def step : Machine (Receiver e) Event Effect
  | r, .head ec pMessage handled =>
      match r.reading with
      | .head =>
          some (if ec = .success then r.onHead { pMessage with mBody := [] } handled
            else r.onError ec)
      | _ => none
  | r, .body ec bytes residue handled =>
      match r.reading with
      | .body pMessage =>
          if ec ≠ .success then some (r.onError ec)
          else if bytes.length = pMessage.bodyLength.toNatClampNeg then
            some (r.onBody { pMessage with mBody := bytes } residue handled)
          else none
      | _ => none

lemma step_head {r : Receiver e} {ec : ErrorCode} {pMessage : OMessage} {handled : Bool}
    {result : Receiver e × List Effect} :
    r.step (.head ec pMessage handled) = some result ↔ r.reading = .head ∧
      (if ec = .success then r.onHead { pMessage with mBody := [] } handled else r.onError ec)
        = result := by
  cases hr : r.reading <;> simp [step, hr]

lemma step_body {r : Receiver e} {ec : ErrorCode} {bytes : List UInt8} {residue : Residue}
    {handled : Bool} {result : Receiver e × List Effect} :
    r.step (.body ec bytes residue handled) = some result ↔ ∃ pMessage, r.reading = .body pMessage ∧
      if ec = .success then bytes.length = pMessage.bodyLength.toNatClampNeg ∧
        r.onBody { pMessage with mBody := bytes } residue handled = result
      else r.onError ec = result := by
  cases hr : r.reading <;> cases ec <;> simp [step, hr]

end Receiver

end Receiving

/-! ## The socket -/

abbrev TSocket (e : Endpoint) := Outbox × Receiver e

namespace TSocket

variable {e : Endpoint}

def start : TSocket e := (Outbox.start, Receiver.start)

abbrev Event := Outbox.Event ⊕ Receiver.Event

/-- `TSocket::Send(messageId, requestId, pProto)`: the messages it passes to
`Send(pMessage)`. -/
def sendProto (u : Setup) (mCompressLevel : Int8) (mEncryptKey : AesKey) (fetch : ℕ → Int32)
    (messageId requestId : Int32) (pProto : Proto) : Except Fault (List OMessage) := do
  let messages ←
    serializeCompressEncrypt u fetch messageId pProto.obj mCompressLevel mEncryptKey
  return messages.map fun pMessage => { pMessage with requestId := requestId }

/-- The two sides of a socket share no state. -/
def step : Machine (TSocket e) Event Effect := Machine.interleave Outbox.step Receiver.step

end TSocket

end OldPart
