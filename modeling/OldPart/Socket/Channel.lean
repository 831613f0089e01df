import OldPart.Socket.Delivery
import OldPart.Socket.StopCause
import OldPart.Socket.Wire

/-!
# A connection from end to end

One end sends messages, and the other receives them.  What `async_write` sends goes out bit by bit,
and the reads of `DoRead` complete as soon as the bytes they wait for are there.  A connection
manager closes the socket when it is told to stop it: then nothing more is sent, and the writes that
are outstanding or still to come fail.

The buffers of `async_write` point into the `OMessage`, which nothing owns any more when the task
that `Send` has posted is over.  What a write sends later is whatever this memory holds then.
-/

namespace OldPart

/-- All the bytes of a message. -/
def OMessage.sendBytes (m : OMessage) : List UInt8 := m.getSendBuffer.flatten

/-- A connection.  `unsent` is, for each `async_write` that is outstanding, what it has still to
send of its message, and `unread` what has arrived at the other end and was not read there. -/
structure Channel (e : Endpoint) where
  outbox : Outbox
  isOpen : Bool
  unsent : List (List UInt8)
  unread : List UInt8
  receiver : Receiver e

/-- What comes of an event, by where it happens. -/
inductive Transfer where
  | sender (o : Effect)
  | transmitted (bytes : List UInt8)
  | receiver (o : Effect)

namespace Channel

variable {e : Endpoint}

/-- A new connection. -/
def start : Channel e := ⟨.start, true, [], [], .start⟩

/-- What happens on a connection: a task of `Send` runs; the `i`-th of the writes that are
outstanding sends so many bytes more, which it finds in memory, or completes; the read that is
outstanding at the other end completes. -/
inductive Event where
  | send (pMessage : OMessage)
  | transmit (i : ℕ) (bytes : List UInt8)
  | written (i : ℕ) (ec : ErrorCode)
  | complete (residue : Residue) (handled : Bool)

/-- The messages whose tasks run. -/
def Event.sends : Event → List OMessage
  | .send pMessage => [pMessage]
  | _ => []

/-- `IConnectionManager::Stop` is called. -/
def isStop : Effect → Bool
  | .stop => true
  | _ => false

/-- A handler of the sending side has run. -/
def sending (σ : Channel e) (unsent : List (List UInt8)) :
    Outbox × List Effect → Channel e × List Transfer
  | (outbox, effects) =>
      ({ σ with
          outbox := outbox
          isOpen := σ.isOpen && !effects.any isStop
          unsent := unsent ++ (Outbox.handed effects).map OMessage.sendBytes },
        effects.map .sender)

/-- A handler of the receiving side has run, for a read of `n` bytes. -/
def receiving (σ : Channel e) (n : ℕ) :
    Receiver e × List Effect → Channel e × List Transfer
  | (receiver, effects) =>
      ({ σ with unread := σ.unread.drop n, receiver := receiver }, effects.map .receiver)

/-- A write succeeds when all has been sent, and is aborted only by closing the socket. -/
def CanComplete (σ : Channel e) (i : ℕ) (ec : ErrorCode) : Prop :=
  (ec = .success → σ.unsent[i]? = some []) ∧ (ec = .operationAborted → σ.isOpen = false)

instance (σ : Channel e) (i : ℕ) (ec : ErrorCode) : Decidable (σ.CanComplete i ec) :=
  inferInstanceAs (Decidable (_ ∧ _))

/-- Both ends, and what is on its way between them. -/
def step : Machine (Channel e) Event Transfer
  | σ, .send pMessage => some (σ.sending σ.unsent (σ.outbox.send pMessage))
  | σ, .transmit i bytes =>
      match σ.unsent[i]? with
      | none => none
      | some rest =>
          if σ.isOpen ∧ bytes.length ≤ rest.length then
            some ({ σ with
              unsent := σ.unsent.set i (rest.drop bytes.length)
              unread := σ.unread ++ bytes }, [.transmitted bytes])
          else none
  | σ, .written i ec =>
      if σ.CanComplete i ec then
        (σ.outbox.step (.written i ec)).map (σ.sending (σ.unsent.eraseIdx i))
      else none
  | σ, .complete residue handled =>
      match σ.receiver.reading with
      | .head =>
          let n := OMessage.getHeadLength
          if n ≤ σ.unread.length then
            let pMessage := OMessage.ofHead (σ.unread.take n)
            (σ.receiver.step (.head .success pMessage handled)).map (σ.receiving n)
          else none
      | .body pMessage =>
          let n := pMessage.bodyLength.toNatClampNeg
          if n ≤ σ.unread.length then
            let bytes := σ.unread.take n
            (σ.receiver.step (.body .success bytes residue handled)).map (σ.receiving n)
          else none
      | .none => none

/-! ## What has happened -/

/-- The messages handed to `DoWrite`, in order. -/
def sent (os : List Transfer) : List OMessage :=
  os.filterMap fun o => match o with
    | .sender (.asyncWrite pMessage) => some pMessage
    | _ => none

/-- The bytes that have been sent, in order. -/
def transmitted (os : List Transfer) : List UInt8 :=
  os.flatMap fun o => match o with
    | .transmitted bytes => bytes
    | _ => []

/-- What the receiving side has done. -/
def received (os : List Transfer) : List Effect :=
  os.filterMap fun o => match o with
    | .receiver o => some o
    | _ => none

@[simp] lemma sent_append (os os' : List Transfer) : sent (os ++ os') = sent os ++ sent os' :=
  List.filterMap_append

@[simp] lemma transmitted_append (os os' : List Transfer) :
    transmitted (os ++ os') = transmitted os ++ transmitted os' := List.flatMap_append

@[simp] lemma received_append (os os' : List Transfer) :
    received (os ++ os') = received os ++ received os' := List.filterMap_append

@[simp] lemma sent_sender (effects : List Effect) :
    sent (effects.map .sender) = Outbox.handed effects := by
  rw [sent, List.filterMap_map, Outbox.handed]
  refine List.filterMap_congr fun o _ => ?_
  cases o <;> rfl

@[simp] lemma transmitted_sender (effects : List Effect) :
    transmitted (effects.map .sender) = [] := by
  simp [transmitted, List.flatMap_map]

@[simp] lemma received_sender (effects : List Effect) : received (effects.map .sender) = [] := by
  simp [received, List.filterMap_map]

@[simp] lemma sent_receiver (effects : List Effect) : sent (effects.map .receiver) = [] := by
  simp [sent, List.filterMap_map]

@[simp] lemma transmitted_receiver (effects : List Effect) :
    transmitted (effects.map .receiver) = [] := by
  simp [transmitted, List.flatMap_map]

@[simp] lemma received_receiver (effects : List Effect) :
    received (effects.map .receiver) = effects := by
  simp [received, List.filterMap_map]

@[simp] lemma sent_transmitted (bytes : List UInt8) : sent [.transmitted bytes] = [] := rfl

@[simp] lemma transmitted_transmitted (bytes : List UInt8) :
    transmitted [.transmitted bytes] = bytes := List.append_nil bytes

@[simp] lemma received_transmitted (bytes : List UInt8) : received [.transmitted bytes] = [] := rfl

/-! ## The sending side -/

/-- A write sends only when those before it are through. -/
def InTurn (σ : Channel e) : Event → Prop
  | .transmit i _ => ∀ j < i, σ.unsent[j]? = some []
  | _ => True

instance (σ : Channel e) (event : Event) : Decidable (σ.InTurn event) :=
  match event with
  | .transmit i _ => inferInstanceAs (Decidable (∀ j < i, σ.unsent[j]? = some []))
  | .send _ | .written _ _ | .complete _ _ => inferInstanceAs (Decidable True)

/-- A write finds its message where it was: the message is still alive, or its memory as it was. -/
def InMemory (σ : Channel e) : Event → Prop
  | .transmit i bytes => ∃ rest ∈ σ.unsent[i]?, bytes <+: rest
  | _ => True

instance (σ : Channel e) (event : Event) : Decidable (σ.InMemory event) :=
  match event with
  | .transmit i bytes => inferInstanceAs (Decidable (∃ rest ∈ σ.unsent[i]?, bytes <+: rest))
  | .send _ | .written _ _ | .complete _ _ => inferInstanceAs (Decidable True)

/-- The bytes `ts` that have been sent begin those of the messages `ms` that were handed to
`DoWrite`.  While the socket is open, no write has completed, and the rest of them is still to be
sent. -/
structure Sends (σ : Channel e) (ms : List OMessage) (ts : List UInt8) : Prop where
  pending_eq : σ.outbox.mPendingMessages = []
  begins : ts <+: ms.flatMap OMessage.sendBytes
  whole : σ.isOpen = true → ts ++ σ.unsent.flatten = ms.flatMap OMessage.sendBytes
  outstanding : σ.isOpen = true → σ.outbox.writing.length = ms.length

section Sending

variable {σ σ' : Channel e} {ms : List OMessage} {ts : List UInt8} {os : List Transfer}
  {event : Event}

/-- The first list that is not empty comes first. -/
lemma flatten_of_take_eq_nil {ls : List (List UInt8)} {i : ℕ} {l : List UInt8}
    (hi : ls[i]? = some l) (h : ∀ j < i, ls[j]? = some []) :
    ls.flatten = l ++ (ls.drop (i + 1)).flatten := by
  induction i generalizing ls with
  | zero =>
    cases ls with
    | nil => cases hi
    | cons l' ls =>
      obtain rfl : l' = l := Option.some.inj hi
      rfl
  | succ i ih =>
    cases ls with
    | nil => cases hi
    | cons l' ls =>
      obtain rfl : l' = [] := Option.some.inj (h 0 (Nat.succ_pos i))
      exact ih hi fun j hj => h (j + 1) (Nat.succ_lt_succ hj)

lemma flatten_set_of_take_eq_nil {ls : List (List UInt8)} {i : ℕ} {l l' : List UInt8}
    (hi : ls[i]? = some l) (h : ∀ j < i, ls[j]? = some []) :
    (ls.set i l').flatten = l' ++ (ls.drop (i + 1)).flatten := by
  obtain ⟨hlt, -⟩ := List.getElem?_eq_some_iff.mp hi
  have hset : (ls.set i l')[i]? = some l' := List.getElem?_set_self hlt
  rw [flatten_of_take_eq_nil hset fun j hj => ?_, List.drop_set_of_lt (Nat.lt_succ_self i)]
  rw [List.getElem?_set_ne (Nat.ne_of_gt hj)]
  exact h j hj

/-- What a write changes that sends what its message holds. -/
lemma exists_of_transmit {i : ℕ} {bytes : List UInt8} (hmemory : σ.InMemory (.transmit i bytes))
    (hstep : Channel.step σ (.transmit i bytes) = some (σ', os)) :
    ∃ rest, σ.isOpen = true ∧ σ.unsent[i]? = some (bytes ++ rest) ∧
      σ' = { σ with unsent := σ.unsent.set i rest, unread := σ.unread ++ bytes } ∧
      os = [.transmitted bytes] := by
  obtain ⟨_, hi, rest, rfl⟩ := hmemory
  rw [Channel.step, Option.mem_def.mp hi] at hstep
  obtain ⟨⟨hopen, -⟩, hsome⟩ := Option.ite_none_right_eq_some.mp hstep
  obtain ⟨rfl, rfl⟩ := Prod.mk.inj (Option.some.inj hsome)
  exact ⟨rest, hopen, hi, by rw [List.drop_left], rfl⟩

/-- Nothing but the bytes themselves comes of a write that sends some. -/
lemma eq_transmitted {i : ℕ} {bytes : List UInt8}
    (hstep : Channel.step σ (.transmit i bytes) = some (σ', os)) :
    σ'.outbox = σ.outbox ∧ os = [.transmitted bytes] := by
  rw [Channel.step] at hstep
  split at hstep
  · cases hstep
  · obtain ⟨-, hsome⟩ := Option.ite_none_right_eq_some.mp hstep
    obtain ⟨rfl, rfl⟩ := Prod.mk.inj (Option.some.inj hsome)
    exact ⟨rfl, rfl⟩

lemma sends_start : Sends (start (e := e)) [] [] :=
  ⟨rfl, List.prefix_refl _, fun _ => rfl, fun _ => rfl⟩

lemma any_isStop_iff (effects : List Effect) : effects.any isStop = true ↔ .stop ∈ effects := by
  rw [List.any_eq_true]
  constructor
  · rintro ⟨o, ho, hstop⟩
    cases o with
    | stop => exact ho
    | _ => cases hstop
  · exact fun h => ⟨.stop, h, rfl⟩

/-- The socket is closed behind every write that completes. -/
lemma closed_of_written {i : ℕ} {ec : ErrorCode} (h : σ.CanComplete i ec) {outbox : Outbox}
    {effects : List Effect} (hstep : σ.outbox.step (.written i ec) = some (outbox, effects)) :
    (σ.isOpen && !effects.any isStop) ≠ true := by
  obtain ⟨-, hwritten⟩ := Option.ite_none_right_eq_some.mp hstep
  obtain rfl : _ = effects := congrArg Prod.snd (Option.some.inj hwritten)
  by_cases haborted : ec = .operationAborted
  · rw [h.2 haborted, Bool.false_and]
    exact Bool.false_ne_true
  · rw [(any_isStop_iff _).mpr ((TSocket.stop_mem_onWritten _ ec).mpr haborted)]
    rw [Bool.not_true, Bool.and_false]
    exact Bool.false_ne_true

/-- What a read that completes changes. -/
lemma exists_of_complete {residue : Residue} {handled : Bool}
    (hstep : Channel.step σ (.complete residue handled) = some (σ', os)) :
    ∃ receiver unread, ∃ effects : List Effect, σ' = { σ with unread, receiver } ∧
      os = effects.map .receiver := by
  rw [Channel.step] at hstep
  split at hstep
  · obtain ⟨-, hsome⟩ := Option.ite_none_right_eq_some.mp hstep
    obtain ⟨⟨receiver, effects⟩, -, hsame⟩ := Option.map_eq_some_iff.mp hsome
    obtain ⟨rfl, rfl⟩ := Prod.mk.inj hsame
    exact ⟨_, _, effects, rfl, rfl⟩
  · obtain ⟨-, hsome⟩ := Option.ite_none_right_eq_some.mp hstep
    obtain ⟨⟨receiver, effects⟩, -, hsame⟩ := Option.map_eq_some_iff.mp hsome
    obtain ⟨rfl, rfl⟩ := Prod.mk.inj hsame
    exact ⟨_, _, effects, rfl, rfl⟩
  · cases hstep

/-- What is handed to `DoWrite` when no message is pending. -/
lemma sent_of_step (h : σ.outbox.mPendingMessages = [])
    (hstep : Channel.step σ event = some (σ', os)) :
    σ'.outbox.mPendingMessages = [] ∧ sent os = event.sends := by
  cases event with
  | send m =>
    rw [Channel.step, Outbox.send_of_pending_eq_nil h, Outbox.doWrite, sending] at hstep
    obtain ⟨rfl, rfl⟩ := Prod.mk.inj (Option.some.inj hstep)
    exact ⟨h, sent_sender _⟩
  | transmit i bytes =>
    obtain ⟨hsame, rfl⟩ := eq_transmitted hstep
    exact ⟨hsame ▸ h, sent_transmitted bytes⟩
  | written i ec =>
    obtain ⟨-, hsome⟩ := Option.ite_none_right_eq_some.mp hstep
    obtain ⟨⟨outbox, effects⟩, hwritten, hsame⟩ := Option.map_eq_some_iff.mp hsome
    obtain ⟨rfl, rfl⟩ := Prod.mk.inj hsame
    obtain ⟨hempty, hnone⟩ := Outbox.written_of_pending_eq_nil h hwritten
    exact ⟨hempty, (sent_sender effects).trans hnone⟩
  | complete residue handled =>
    obtain ⟨receiver, unread, effects, rfl, rfl⟩ := exists_of_complete hstep
    exact ⟨h, sent_receiver effects⟩

/-- The receiving side does nothing before a read completes. -/
lemma received_of_step (hstep : Channel.step σ event = some (σ', os)) :
    received os = [] ∨ ∃ residue handled, event = .complete residue handled := by
  cases event with
  | send m =>
    rw [Channel.step, sending] at hstep
    obtain ⟨-, rfl⟩ := Prod.mk.inj (Option.some.inj hstep)
    exact Or.inl (received_sender _)
  | transmit i bytes =>
    obtain ⟨-, rfl⟩ := eq_transmitted hstep
    exact Or.inl (received_transmitted bytes)
  | written i ec =>
    obtain ⟨-, hsome⟩ := Option.ite_none_right_eq_some.mp hstep
    obtain ⟨⟨outbox, effects⟩, -, hsame⟩ := Option.map_eq_some_iff.mp hsome
    obtain ⟨-, rfl⟩ := Prod.mk.inj hsame
    exact Or.inl (received_sender effects)
  | complete residue handled => exact Or.inr ⟨residue, handled, rfl⟩

lemma Sends.step (h : Sends σ ms ts) (hturn : σ.InTurn event) (hmemory : σ.InMemory event)
    (hstep : Channel.step σ event = some (σ', os)) :
    Sends σ' (ms ++ sent os) (ts ++ transmitted os) := by
  obtain ⟨hpending, hbegins, hwhole, houtstanding⟩ := h
  cases event with
  | send m =>
    rw [Channel.step, Outbox.send_of_pending_eq_nil hpending, Outbox.doWrite, sending] at hstep
    obtain ⟨rfl, rfl⟩ := Prod.mk.inj (Option.some.inj hstep)
    have hstill : (σ.isOpen && !([Effect.asyncWrite m].any isStop)) = true → σ.isOpen = true := by
      simp [isStop]
    have hsent : Outbox.handed [.asyncWrite m] = [m] := rfl
    rw [sent_sender, transmitted_sender, hsent, List.append_nil]
    refine ⟨hpending, ?_, fun hopen => ?_, fun hopen => ?_⟩
    · rw [List.flatMap_append]
      exact hbegins.trans (List.prefix_append _ _)
    · rw [List.flatMap_append, ← hwhole (hstill hopen), List.flatten_append, ← List.append_assoc]
      rfl
    · rw [List.length_append, List.length_append, houtstanding (hstill hopen)]
  | transmit i bytes =>
    obtain ⟨rest, hopen, hi, rfl, rfl⟩ := exists_of_transmit hmemory hstep
    have hall : ts ++ bytes ++ (σ.unsent.set i rest).flatten = ms.flatMap OMessage.sendBytes := by
      rw [← hwhole hopen, flatten_of_take_eq_nil hi hturn, flatten_set_of_take_eq_nil hi hturn,
        List.append_assoc, ← List.append_assoc bytes]
    rw [sent_transmitted, transmitted_transmitted, List.append_nil]
    exact ⟨hpending, ⟨_, hall⟩, fun _ => hall, houtstanding⟩
  | written i ec =>
    obtain ⟨hcan, hsome⟩ := Option.ite_none_right_eq_some.mp hstep
    obtain ⟨⟨outbox, effects⟩, hwritten, hsame⟩ := Option.map_eq_some_iff.mp hsome
    obtain ⟨rfl, rfl⟩ := Prod.mk.inj hsame
    have hclosed := closed_of_written hcan hwritten
    obtain ⟨hempty, hnone⟩ := Outbox.written_of_pending_eq_nil hpending hwritten
    rw [sent_sender, transmitted_sender, hnone, List.append_nil, List.append_nil]
    refine ⟨hempty, hbegins, fun hopen => ?_, fun hopen => ?_⟩
    · exact (hclosed hopen).elim
    · exact (hclosed hopen).elim
  | complete residue handled =>
    obtain ⟨receiver, unread, effects, rfl, rfl⟩ := exists_of_complete hstep
    rw [sent_receiver, transmitted_receiver, List.append_nil, List.append_nil]
    exact ⟨hpending, hbegins, hwhole, houtstanding⟩

end Sending

/-! ## The receiving side -/

/-- All the bytes of a frame. -/
def frameBytes (a : Arrival) : List UInt8 := a.frame.message.sendBytes

/-- Where the receiving side is: the frames `as` of the first messages have arrived, and after them
perhaps the head of one that has a body.  What it has done is what it does on these arrivals, and
`Q` holds of what their handlers have found and what `OnMessage(pMessage)` has returned. -/
inductive Reads (Q : Residue → Bool → Prop) (ms : List OMessage) :
    Receiver e → (unread ts : List UInt8) → List Effect → Prop
  | between {as : List Arrival} {r : Receiver e} {os : List Effect} (unread : List UInt8) :
      Machine.Run Receiver.arrive .start as r os → (∀ a ∈ as, Q a.residue a.handled) →
      as.map (fun a => a.frame.message) <+: ms →
      Reads Q ms r unread (as.flatMap frameBytes ++ unread) os
  | behindHead {as : List Arrival} {r : Receiver e} {os : List Effect} {m : OMessage}
      (unread : List UInt8) :
      Machine.Run Receiver.arrive .start as r os → (∀ a ∈ as, Q a.residue a.handled) →
      as.map (fun a => a.frame.message) ++ [m] <+: ms → r.reading = .head → 0 < m.bodyLength →
      Reads Q ms { r with reading := .body { m with mBody := [] } } unread
        (as.flatMap frameBytes ++ m.getHead ++ unread) os

/-- The message is as long as its head says. -/
def Whole (m : OMessage) : Prop := m.bodyLength.toInt = m.mBody.length

section Receiving

variable {Q : Residue → Bool → Prop} {ms : List OMessage} {r : Receiver e} {os : List Effect}
  {unread ts : List UInt8} {as : List Arrival} {m : OMessage}

lemma sendBytes_eq (h : Whole m) : m.sendBytes = m.getHead ++ m.mBody := by
  rw [OMessage.sendBytes, OMessage.getSendBuffer, List.flatten_cons]
  split
  · rw [List.flatten_singleton, OMessage.bytes_eq h]
  · next hzero =>
    rw [ne_eq, not_not] at hzero
    have hnil : m.mBody = [] := by
      rw [Whole, hzero, Int32.toInt_zero] at h
      exact List.length_eq_zero_iff.mp (by omega)
    rw [hnil]
    rfl

/-- Behind a body comes a head. -/
lemma reading_ne_body_of_onBody (r : Receiver e) (m : OMessage) (residue : Residue)
    (handled : Bool) (m' : OMessage) : (r.onBody m residue handled).1.reading ≠ .body m' := by
  rw [Receiver.onBody]
  dsimp only
  split
  · exact Reading.noConfusion
  · split
    · exact Reading.noConfusion
    · split
      · exact Reading.noConfusion
      · exact Reading.noConfusion

lemma Whole.length_eq (h : Whole m) : m.bodyLength.toNatClampNeg = m.mBody.length := by
  rw [Int32.toNatClampNeg, h, Int.toNat_natCast]

/-- No frame leaves the receiving side in the middle of a message. -/
lemma reading_ne_body_of_arrive {r' : Receiver e} {a : Arrival} (h : r.arrive a = some (r', os))
    (m : OMessage) : r'.reading ≠ .body m := by
  obtain ⟨-, hresult⟩ := Receiver.arrive_eq_some.mp h
  by_cases hpos : 0 < a.frame.message.bodyLength
  · rw [if_pos hpos] at hresult
    obtain rfl : _ = r' := congrArg Prod.fst hresult
    exact reading_ne_body_of_onBody _ _ _ _ _
  · rw [if_neg hpos, Receiver.onHead] at hresult
    split at hresult
    · dsimp only at hresult
      split at hresult
      · obtain ⟨rfl, -⟩ := Prod.mk.inj hresult
        exact Reading.noConfusion
      · split at hresult
        · obtain ⟨rfl, -⟩ := Prod.mk.inj hresult
          exact Reading.noConfusion
        · obtain ⟨rfl, -⟩ := Prod.mk.inj hresult
          exact Reading.noConfusion
    · next hzero =>
      have hneg : a.frame.message.bodyLength < 0 :=
        (Int32.lt_or_lt_of_ne hzero).resolve_right hpos
      rw [if_pos hneg] at hresult
      obtain ⟨rfl, -⟩ := Prod.mk.inj hresult
      exact Reading.noConfusion

lemma reading_ne_body (h : Machine.Run Receiver.arrive .start as r os) (m : OMessage) :
    r.reading ≠ .body m := by
  refine h.invariant (I := fun _ r _ => r.reading ≠ .body m) (fun hstart => ?_)
    fun _ _ _ _ _ _ _ hstep => reading_ne_body_of_arrive hstep m
  cases hstart

/-- Whatever is unread comes next, so what is read first is what comes first. -/
lemma take_of_isPrefix {l more rest : List UInt8} (h : l <+: more ++ rest)
    (hlen : more.length ≤ l.length) : l.take more.length = more ∧ l.drop more.length <+: rest := by
  obtain ⟨tail, htail⟩ := h
  obtain ⟨mid, rfl⟩ : ∃ mid, l = more ++ mid := by
    have hbegins : more <+: l :=
      List.prefix_of_prefix_length_le ⟨rest, rfl⟩ ⟨tail, htail⟩ hlen
    obtain ⟨mid, hmid⟩ := hbegins
    exact ⟨mid, hmid.symm⟩
  rw [List.append_assoc, List.append_right_inj] at htail
  rw [List.take_left, List.drop_left]
  exact ⟨rfl, tail, htail⟩

/-- The arrival of a message. -/
def arrivalOf (m : OMessage) (h : Whole m) (residue : Residue) (handled : Bool) : Arrival where
  frame := ⟨m, h.length_eq.symm⟩
  handled := handled
  residue := residue

lemma flatMap_concat_arrivalOf (as : List Arrival) (h : Whole m) (residue : Residue)
    (handled : Bool) : (as ++ [arrivalOf m h residue handled]).flatMap frameBytes =
      as.flatMap frameBytes ++ m.getHead ++ m.mBody := by
  rw [List.flatMap_append, List.flatMap_singleton, List.append_assoc, ← sendBytes_eq h]
  rfl

lemma flatMap_message (as : List Arrival) :
    (as.map fun a => a.frame.message).flatMap OMessage.sendBytes = as.flatMap frameBytes :=
  List.flatMap_map _ _ _

/-- All the bytes, with a message in the middle. -/
lemma flatMap_sendBytes_append (as : List Arrival) (h : Whole m) (rest : List OMessage) :
    (as.map (fun a => a.frame.message) ++ [m] ++ rest).flatMap OMessage.sendBytes =
      as.flatMap frameBytes ++ m.getHead ++ (m.mBody ++ rest.flatMap OMessage.sendBytes) := by
  rw [List.flatMap_append, List.flatMap_append, List.flatMap_singleton, flatMap_message,
    sendBytes_eq h, ← List.append_assoc, ← List.append_assoc]

/-- The messages behind those that have arrived. -/
lemma exists_behind (hwhole : ∀ m ∈ ms, Whole m) (has : as.map (fun a => a.frame.message) <+: ms)
    {l : List UInt8} (hts : as.flatMap frameBytes ++ l <+: ms.flatMap OMessage.sendBytes) :
    ∃ rest, ms = as.map (fun a => a.frame.message) ++ rest ∧ (∀ m ∈ rest, Whole m) ∧
      l <+: rest.flatMap OMessage.sendBytes := by
  obtain ⟨rest, rfl⟩ := has
  refine ⟨rest, rfl, fun m hm => hwhole m (List.mem_append_right _ hm), ?_⟩
  rw [List.flatMap_append, flatMap_message] at hts
  exact (List.prefix_append_right_inj _).mp hts

/-- The read of a head completes. -/
lemma reads_head (hwhole : ∀ m ∈ ms, Whole m) (hrun : Machine.Run Receiver.arrive .start as r os)
    (hQ : ∀ a ∈ as, Q a.residue a.handled) (has : as.map (fun a => a.frame.message) <+: ms)
    (hts : as.flatMap frameBytes ++ unread <+: ms.flatMap OMessage.sendBytes)
    (hhead : r.reading = .head) (hlen : OMessage.getHeadLength ≤ unread.length)
    {residue : Residue} {handled : Bool} (hfound : Q residue handled) {r' : Receiver e}
    {os' : List Effect}
    (hstep : r.step (.head .success (.ofHead (unread.take OMessage.getHeadLength)) handled) =
      some (r', os')) :
    Reads Q ms r' (unread.drop OMessage.getHeadLength) (as.flatMap frameBytes ++ unread)
      (os ++ os') := by
  obtain ⟨rest, rfl, hrest, hunread⟩ := exists_behind hwhole has hts
  obtain ⟨m, rest, rfl⟩ : ∃ m more, rest = m :: more := by
    refine List.exists_cons_of_ne_nil ?_
    rintro rfl
    have hnil := List.prefix_nil.mp hunread
    rw [hnil] at hlen
    exact absurd hlen (by decide)
  have hm := hrest m List.mem_cons_self
  rw [List.flatMap_cons, sendBytes_eq hm, List.append_assoc] at hunread
  obtain ⟨htake, -⟩ := take_of_isPrefix hunread (by rwa [m.length_getHead])
  have hsplit := List.take_append_drop OMessage.getHeadLength unread
  rw [m.length_getHead] at htake
  rw [htake, OMessage.ofHead_getHead] at hstep
  rw [htake] at hsplit
  obtain ⟨-, hresult⟩ := Receiver.step_head.mp hstep
  rw [if_pos rfl] at hresult
  have hnonneg : ¬m.bodyLength < 0 := by
    rw [Int32.lt_iff_toInt_lt, hm, Int32.toInt_zero]
    omega
  rw [← hsplit, ← List.append_assoc]
  by_cases hzero : m.bodyLength = 0
  · -- the message has no body, and its frame has arrived
    have hnil : m.mBody = [] := by
      rw [Whole, hzero, Int32.toInt_zero] at hm
      exact List.length_eq_zero_iff.mp (by omega)
    have hsame : { m with mBody := [] } = m := by rw [← hnil]
    have hpos : ¬0 < m.bodyLength := by simp [hzero]
    have harrive : r.arrive (arrivalOf m hm residue handled) = some (r', os') :=
      Receiver.arrive_eq_some.mpr ⟨hhead, (if_neg hpos).trans
        ((congrArg (fun m => r.onHead m handled) hsame.symm).trans hresult)⟩
    have hbytes := flatMap_concat_arrivalOf as hm residue handled
    rw [hnil, List.append_nil] at hbytes
    rw [← hbytes]
    refine .between _ (hrun.append (Machine.Run.single harrive)) ?_ ?_
    · rw [List.forall_mem_append, List.forall_mem_singleton]
      exact ⟨hQ, hfound⟩
    · rw [List.map_append, List.map_singleton]
      exact ⟨rest, List.append_assoc _ _ _⟩
  · -- it has one, for which the next read waits
    have hpos : 0 < m.bodyLength := (Int32.lt_or_lt_of_ne hzero).resolve_left hnonneg
    rw [Receiver.onHead, if_neg hzero, if_neg hnonneg] at hresult
    obtain ⟨rfl, rfl⟩ := Prod.mk.inj hresult
    rw [List.append_nil]
    exact Reads.behindHead (m := m) _ hrun hQ ⟨rest, List.append_assoc _ _ _⟩ hhead hpos

/-- The read of a body completes. -/
lemma reads_body (hwhole : ∀ m ∈ ms, Whole m) (hrun : Machine.Run Receiver.arrive .start as r os)
    (hQ : ∀ a ∈ as, Q a.residue a.handled)
    (has : as.map (fun a => a.frame.message) ++ [m] <+: ms)
    (hts : as.flatMap frameBytes ++ m.getHead ++ unread <+: ms.flatMap OMessage.sendBytes)
    (hhead : r.reading = .head) (hpos : 0 < m.bodyLength)
    (hlen : m.bodyLength.toNatClampNeg ≤ unread.length)
    {residue : Residue} {handled : Bool} (hfound : Q residue handled) {r' : Receiver e}
    {os' : List Effect}
    (hstep : ({ r with reading := .body { m with mBody := [] } } : Receiver e).step
      (.body .success (unread.take m.bodyLength.toNatClampNeg) residue handled) =
        some (r', os')) :
    Reads Q ms r' (unread.drop m.bodyLength.toNatClampNeg)
      (as.flatMap frameBytes ++ m.getHead ++ unread) (os ++ os') := by
  obtain ⟨rest, rfl⟩ := has
  have hm := hwhole m (by simp)
  have hcount := hm.length_eq
  rw [flatMap_sendBytes_append as hm] at hts
  have hunread := (List.prefix_append_right_inj _).mp hts
  rw [hcount] at hlen
  obtain ⟨htake, -⟩ := take_of_isPrefix hunread hlen
  have hsplit := List.take_append_drop m.mBody.length unread
  rw [hcount, htake] at hstep
  rw [htake] at hsplit
  obtain ⟨m', hm', hresult⟩ := Receiver.step_body.mp hstep
  obtain rfl := Reading.body.inj hm'
  rw [if_pos rfl] at hresult
  have harrive : r.arrive (arrivalOf m hm residue handled) = some (r', os') :=
    Receiver.arrive_eq_some.mpr ⟨hhead, (if_pos hpos).trans hresult.2⟩
  rw [hcount, ← hsplit, ← List.append_assoc, ← flatMap_concat_arrivalOf as hm residue handled,
    hsplit]
  refine .between _ (hrun.append (Machine.Run.single harrive)) ?_ ?_
  · rw [List.forall_mem_append, List.forall_mem_singleton]
    exact ⟨hQ, hfound⟩
  · rw [List.map_append, List.map_singleton]
    exact List.prefix_append _ _

/-- What the read that completes has found, and what `OnMessage(pMessage)` has returned. -/
def Finds (Q : Residue → Bool → Prop) : Event → Prop
  | .complete residue handled => Q residue handled
  | _ => True

instance (Q : Residue → Bool → Prop) [∀ residue handled, Decidable (Q residue handled)]
    (event : Event) : Decidable (Finds Q event) :=
  match event with
  | .complete residue handled => inferInstanceAs (Decidable (Q residue handled))
  | .send _ | .transmit _ _ | .written _ _ => inferInstanceAs (Decidable True)

/-- What has been done comes of the frames that have arrived. -/
lemma Reads.exists_arrivals (h : Reads Q ms r unread ts os) :
    ∃ as, ∃ r' : Receiver e, Machine.Run Receiver.arrive .start as r' os ∧
      (∀ a ∈ as, Q a.residue a.handled) ∧ as.map (fun a => a.frame.message) <+: ms := by
  cases h with
  | between unread hrun hQ has => exact ⟨_, _, hrun, hQ, has⟩
  | behindHead unread hrun hQ has hhead hpos =>
    exact ⟨_, _, hrun, hQ, (List.prefix_append _ _).trans has⟩

/-- More messages may follow. -/
lemma Reads.mono {ms' : List OMessage} (h : Reads Q ms r unread ts os) (hms : ms <+: ms') :
    Reads Q ms' r unread ts os := by
  cases h with
  | between unread hrun hQ has => exact .between unread hrun hQ (has.trans hms)
  | behindHead unread hrun hQ has hhead hpos =>
    exact .behindHead unread hrun hQ (has.trans hms) hhead hpos

/-- More bytes may arrive. -/
lemma Reads.arrive (h : Reads Q ms r unread ts os) (bytes : List UInt8) :
    Reads Q ms r (unread ++ bytes) (ts ++ bytes) os := by
  cases h with
  | between unread hrun hQ has =>
    rw [List.append_assoc]
    exact .between _ hrun hQ has
  | behindHead unread hrun hQ has hhead hpos =>
    rw [List.append_assoc]
    exact .behindHead _ hrun hQ has hhead hpos

/-- A read that completes. -/
lemma Reads.complete {σ σ' : Channel e} {outs : List Transfer} {residue : Residue}
    {handled : Bool} (h : Reads Q ms σ.receiver σ.unread ts os) (hwhole : ∀ m ∈ ms, Whole m)
    (hts : ts <+: ms.flatMap OMessage.sendBytes) (hfound : Q residue handled)
    (hstep : Channel.step σ (.complete residue handled) = some (σ', outs)) :
    Reads Q ms σ'.receiver σ'.unread ts (os ++ received outs) := by
  obtain ⟨outbox, isOpen, unsent, unread, r⟩ := σ
  rw [Channel.step] at hstep
  dsimp only at h hstep
  cases h with
  | between unread hrun hQ has =>
    cases hreading : r.reading with
    | head =>
      simp only [hreading, Option.ite_none_right_eq_some, Option.map_eq_some_iff] at hstep
      obtain ⟨hlen, ⟨r', effects⟩, hreceiver, hsame⟩ := hstep
      obtain ⟨rfl, rfl⟩ := Prod.mk.inj hsame
      rw [received_receiver]
      exact reads_head hwhole hrun hQ has hts hreading hlen hfound hreceiver
    | body m => exact (reading_ne_body hrun m hreading).elim
    | none =>
      rw [hreading] at hstep
      cases hstep
  | behindHead unread hrun hQ has hhead hpos =>
    simp only [Option.ite_none_right_eq_some, Option.map_eq_some_iff] at hstep
    obtain ⟨hlen, ⟨r', effects⟩, hreceiver, hsame⟩ := hstep
    obtain ⟨rfl, rfl⟩ := Prod.mk.inj hsame
    rw [received_receiver]
    exact reads_body hwhole hrun hQ has hts hhead hpos hlen hfound hreceiver

end Receiving

/-! ## Runs -/

/-- The writes send in turn what their messages hold, and `Q` holds of what the handlers of the
frames have found. -/
def Meets (Q : Residue → Bool → Prop) (σ : Channel e) (event : Event) : Prop :=
  σ.InTurn event ∧ σ.InMemory event ∧ Finds Q event

instance (Q : Residue → Bool → Prop) [∀ residue handled, Decidable (Q residue handled)]
    (σ : Channel e) (event : Event) : Decidable (σ.Meets Q event) :=
  inferInstanceAs (Decidable (_ ∧ _ ∧ _))

/-- What is sent and what has come of it. -/
structure Flows (Q : Residue → Bool → Prop) (σ : Channel e) (os : List Transfer) : Prop where
  sends : Sends σ (sent os) (transmitted os)
  reads : Reads Q ((sent os).map OMessage.received) σ.receiver σ.unread (transmitted os)
    (received os)

/-- The memory of the message is as long as its head says. -/
def Complete (m : OMessage) : Prop := m.bodyLength.toInt = m.bytes.length

section Runs

variable {Q : Residue → Bool → Prop} {σ σ' : Channel e} {os os' : List Transfer}
  {event : Event}

/-- What is received of a message has the same bytes. -/
lemma sendBytes_received {m : OMessage} (h : Complete m) : m.received.sendBytes = m.sendBytes := by
  have hbytes : m.received.bytes = m.bytes := OMessage.bytes_eq (m := m.received) h
  rw [OMessage.sendBytes, OMessage.getSendBuffer, hbytes]
  rfl

lemma flatMap_received {ms : List OMessage} (h : ∀ m ∈ ms, Complete m) :
    (ms.map OMessage.received).flatMap OMessage.sendBytes = ms.flatMap OMessage.sendBytes := by
  rw [List.flatMap_map]
  exact List.flatMap_congr fun m hm => sendBytes_received (h m hm)

lemma flows_start : Flows Q (start (e := e)) [] :=
  ⟨sends_start, .between [] (Machine.Run.nil _) nofun (List.prefix_refl _)⟩

lemma Flows.step (h : Flows Q σ os) (hcomplete : ∀ m ∈ sent os, Complete m)
    (hmeets : σ.Meets Q event) (hstep : Channel.step σ event = some (σ', os')) :
    Flows Q σ' (os ++ os') := by
  obtain ⟨hsends, hreads⟩ := h
  obtain ⟨hturn, hmemory, hfinds⟩ := hmeets
  have hsends' := hsends.step hturn hmemory hstep
  rw [← sent_append, ← transmitted_append] at hsends'
  refine ⟨hsends', ?_⟩
  rw [sent_append, transmitted_append, received_append, List.map_append]
  cases event with
  | send m =>
    rw [Channel.step, sending] at hstep
    obtain ⟨rfl, rfl⟩ := Prod.mk.inj (Option.some.inj hstep)
    rw [transmitted_sender, received_sender, List.append_nil, List.append_nil]
    exact hreads.mono (List.prefix_append _ _)
  | transmit i bytes =>
    obtain ⟨rest, -, -, rfl, rfl⟩ := exists_of_transmit hmemory hstep
    rw [transmitted_transmitted, received_transmitted, List.append_nil]
    exact (hreads.arrive _).mono (List.prefix_append _ _)
  | written i ec =>
    obtain ⟨-, hsome⟩ := Option.ite_none_right_eq_some.mp hstep
    obtain ⟨⟨outbox, effects⟩, -, hsame⟩ := Option.map_eq_some_iff.mp hsome
    obtain ⟨rfl, rfl⟩ := Prod.mk.inj hsame
    rw [transmitted_sender, received_sender, List.append_nil, List.append_nil]
    exact hreads.mono (List.prefix_append _ _)
  | complete residue handled =>
    have hwhole : ∀ m ∈ (sent os).map OMessage.received, Whole m := by
      rintro _ hreceived
      obtain ⟨m, hm, rfl⟩ := List.mem_map.mp hreceived
      exact hcomplete m hm
    have hbegins := hsends.begins
    rw [← flatMap_received hcomplete] at hbegins
    have hdone := hreads.complete hwhole hbegins hfinds hstep
    obtain ⟨receiver, unread, effects, rfl, rfl⟩ := exists_of_complete hstep
    rw [sent_receiver, transmitted_receiver, List.map_nil, List.append_nil, List.append_nil]
    exact hdone

/-- In every run in which the writes send in turn what their messages hold, the frames that have
arrived are the first of those that were sent. -/
lemma flows_of_run {es : List Event} (hrun : Machine.Run Channel.step start es σ os)
    (halong : Machine.Along Channel.step (Meets Q) (start (e := e)) es)
    (hcomplete : ∀ m ∈ sent os, Complete m) : Flows Q σ os := by
  refine hrun.invariant_of_along (I := fun σ os => (∀ m ∈ sent os, Complete m) → Flows Q σ os)
    (fun _ => flows_start) (fun σ os event σ' os' hinv hmeets hstep hcomplete => ?_) halong
    hcomplete
  rw [sent_append, List.forall_mem_append] at hcomplete
  exact (hinv hcomplete.1).step hcomplete.1 hmeets hstep

end Runs

/-! ## Protos that are sent in a row -/

/-- A handler that finds what the one before it has left, of a frame that `OnMessage(pMessage)` has
not handled. -/
def Left (residue : Residue) (handled : Bool) : Prop := residue = .kept ∧ handled = false

instance (residue : Residue) (handled : Bool) : Decidable (Left residue handled) :=
  inferInstanceAs (Decidable (_ ∧ _))

section Protos

variable {σ : Channel e} {os : List Transfer} {xs : List Parcel}

/-- A list that looks like the beginning of another is that. -/
lemma isPrefix_of_map {α β : Type*} {f : α → β} {P : α → Prop}
    (hinj : ∀ a b, P a → P b → f a = f b → a = b) {as bs : List α} (has : ∀ a ∈ as, P a)
    (hbs : ∀ b ∈ bs, P b) (h : as.map f <+: bs.map f) : as <+: bs := by
  induction as generalizing bs with
  | nil => exact List.nil_prefix
  | cons a as ih =>
    cases bs with
    | nil => exact absurd (List.prefix_nil.mp h) nofun
    | cons b bs =>
      obtain ⟨hhead, htail⟩ := List.cons_prefix_cons.mp h
      obtain rfl := hinj a b (has a (by simp)) (hbs b (by simp)) hhead
      exact List.cons_prefix_cons.mpr ⟨rfl, ih (fun a ha => has a (by simp [ha]))
        (fun b hb => hbs b (by simp [hb])) htail⟩

/-- Such arrivals are told apart by their messages. -/
lemma eq_of_message_eq {a b : Arrival} (ha : Left a.residue a.handled)
    (hb : Left b.residue b.handled) (h : a.frame.message = b.frame.message) : a = b := by
  obtain ⟨⟨m, hm⟩, handled, residue⟩ := a
  obtain ⟨⟨m', hm'⟩, handled', residue'⟩ := b
  obtain ⟨rfl, rfl⟩ := ha
  obtain ⟨rfl, rfl⟩ := hb
  obtain rfl : m = m' := h
  rfl

/-- All protos are handed on when all their frames have arrived. -/
lemma run_frames {u : Setup} {mCompressLevel : Int8}
    (hsent : ∀ x ∈ xs, x.Sent u mCompressLevel e) (hcarried : ∀ x ∈ xs, KeptTogether x.frames) :
    Machine.Run Receiver.arrive (Receiver.start (e := e)) (xs.flatMap Parcel.frames)
      Receiver.start (xs.flatMap Parcel.handedOn) := by
  induction xs with
  | nil => exact Machine.Run.nil _
  | cons x xs ih =>
    rw [List.forall_mem_cons] at hsent hcarried
    rw [List.flatMap_cons, List.flatMap_cons]
    exact (hsent.1.run (Or.inl hcarried.1)).append (ih hsent.2 hcarried.2)

/-- The messages of such protos have all their bytes. -/
lemma complete_of_messages (hcarried : ∀ x ∈ xs, KeptTogether x.frames)
    (hmessages : (sent os).map OMessage.received <+: xs.flatMap Parcel.messages) :
    ∀ m ∈ sent os, Complete m := by
  intro m hm
  obtain ⟨x, hx, hmem⟩ := List.mem_flatMap.mp (hmessages.subset (List.mem_map_of_mem hm))
  obtain ⟨a, ha, hreceived⟩ := List.mem_map.mp hmem
  have hpos := (hcarried x hx).body a ha
  have hlen := a.frame.complete
  rw [hreceived] at hpos hlen
  have hlen' : m.bytes.length = m.bodyLength.toNatClampNeg := hlen
  have hpos' : 0 < m.bodyLength := hpos
  rw [Int32.lt_iff_toInt_lt, Int32.toInt_zero] at hpos'
  rw [Complete, hlen', Int32.toNatClampNeg]
  omega

lemma flatMap_messages (xs : List Parcel) :
    xs.flatMap Parcel.messages = (xs.flatMap Parcel.frames).map fun a => a.frame.message :=
  List.map_flatMap.symm

lemma left_of_mem_frames {u : Setup} {mCompressLevel : Int8}
    (hsent : ∀ x ∈ xs, x.Sent u mCompressLevel e)
    (hleft : ∀ x ∈ xs, ∀ a ∈ x.frames, a.residue = .kept) :
    ∀ a ∈ xs.flatMap Parcel.frames, Left a.residue a.handled := by
  intro a ha
  obtain ⟨x, hx, ha⟩ := List.mem_flatMap.mp ha
  exact ⟨hleft x hx a ha, (hsent x hx).unhandled a ha⟩

/-- What has been handed on of such protos. -/
lemma Flows.handedOn_isPrefix {u : Setup} {mCompressLevel : Int8} (h : Flows Left σ os)
    (hsent : ∀ x ∈ xs, x.Sent u mCompressLevel e) (hcarried : ∀ x ∈ xs, KeptTogether x.frames)
    (hleft : ∀ x ∈ xs, ∀ a ∈ x.frames, a.residue = .kept)
    (hmessages : (sent os).map OMessage.received <+: xs.flatMap Parcel.messages) :
    received os <+: xs.flatMap Parcel.handedOn := by
  rw [flatMap_messages] at hmessages
  have hends := left_of_mem_frames hsent hleft
  obtain ⟨as, r, harrived, hkept, has⟩ := h.reads.exists_arrivals
  obtain ⟨more, hmore⟩ := isPrefix_of_map (fun a b => eq_of_message_eq) hkept hends
    (has.trans hmessages)
  have hall := run_frames hsent hcarried
  rw [← hmore] at hall
  obtain ⟨r', os₁, os₂, hfirst, -, hos⟩ := hall.of_append
  obtain ⟨-, rfl⟩ := harrived.unique hfirst
  exact ⟨os₂, hos.symm⟩

/-- In every run of a connection on which protos of at least two frames are sent in a row, the
writes send in turn what their messages hold, and each handler finds what the one before it has
left: however the bytes are cut on their way and whenever they arrive, the protos that have been
handed on at the other end are the first of those that were sent, each once and in order, and
nothing else has happened there. -/
theorem hands_on_first (u : Setup) (mCompressLevel : Int8) (xs : List Parcel)
    (hsent : ∀ x ∈ xs, x.Sent u mCompressLevel e) (hcarried : ∀ x ∈ xs, KeptTogether x.frames)
    (hleft : ∀ x ∈ xs, ∀ a ∈ x.frames, a.residue = .kept) {es : List Event}
    (hrun : Machine.Run Channel.step start es σ os)
    (halong : Machine.Along Channel.step (Meets Left) (start (e := e)) es)
    (hmessages : (sent os).map OMessage.received <+: xs.flatMap Parcel.messages) :
    received os <+: xs.flatMap Parcel.handedOn :=
  (flows_of_run hrun halong (complete_of_messages hcarried hmessages)).handedOn_isPrefix hsent
    hcarried hleft hmessages

/-- The string of two frames, when both handlers find what the one before them has left. -/
def abcdefInTurn : Parcel where
  messageId := 1
  requestId := 7
  pProto := ⟨.string, abcdef⟩
  frames := [⟨abcdefFrame₁, false, .kept⟩, ⟨abcdefFrame₂, false, .kept⟩]

lemma sent_abcdefInTurn :
    abcdefInTurn.Sent (Setup.stored .ofAbcdef) 0 (Endpoint.stored .ofAbcdef .string) := by
  obtain ⟨hsent, -, hinverted⟩ := sent_abcdef
  exact ⟨hsent, by simp [abcdefInTurn], hinverted⟩

/-- Both frames are handed to `DoWrite` at once, and go out in pieces of another size. -/
def inPieces : List Event :=
  [.send abcdefFrame₁.message, .send abcdefFrame₂.message,
    .transmit 0 (abcdefFrame₁.message.sendBytes.take 40), .complete .kept false,
    .transmit 0 (abcdefFrame₁.message.sendBytes.drop 40),
    .transmit 1 (abcdefFrame₂.message.sendBytes.take 40), .complete .kept false,
    .complete .kept false, .transmit 1 (abcdefFrame₂.message.sendBytes.drop 40),
    .complete .kept false]

/-- The string is handed on. -/
theorem hands_on_first_inPieces : ∃ (σ : Channel (Endpoint.stored .ofAbcdef .string)) (os : _),
    Machine.Run step start inPieces σ os ∧
      received os <+: [abcdefInTurn].flatMap Parcel.handedOn ∧ (received os).length = 1 := by
  have hend : (Machine.exec step (start (e := Endpoint.stored .ofAbcdef .string)) inPieces).map
      (fun r => (sent r.2, (received r.2).length)) =
        some ([abcdefFrame₁.message, abcdefFrame₂.message], 1) := by decide +kernel
  obtain ⟨⟨σ, os⟩, hexec, hos⟩ := Option.map_eq_some_iff.mp hend
  obtain ⟨hsent, hlength⟩ := Prod.mk.inj hos
  refine ⟨σ, os, Machine.run_iff_exec.mpr hexec, ?_, hlength⟩
  refine hands_on_first (Setup.stored .ofAbcdef) 0 [abcdefInTurn] (by simp [sent_abcdefInTurn])
    ?_ (by simp [abcdefInTurn]) (Machine.run_iff_exec.mpr hexec) (by decide +kernel) ?_
  · rw [List.forall_mem_singleton]
    exact ⟨by decide, by decide, by decide, by decide, by decide⟩
  · rw [hsent]
    exact List.prefix_refl _

end Protos

end Channel

end OldPart
