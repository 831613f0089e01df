import OldPart.Socket.Channel

/-!
# One message at a time

The handler of a write stops the connection when the write has succeeded.  An end that waits for
each of its writes before it sends again therefore gets one message through, and this is too few
for a proto: the frame that is the only one of its proto is not put together.
-/

namespace OldPart

namespace Channel

variable {e : Endpoint}

/-- A message is sent when the writes of those before it have completed. -/
def Waits (σ : Channel e) : Event → Prop
  | .send _ => σ.outbox.writing = []
  | _ => True

instance (σ : Channel e) (event : Event) : Decidable (σ.Waits event) :=
  match event with
  | .send _ =>
      decidable_of_iff (σ.outbox.writing.isEmpty = true) List.isEmpty_iff
  | .transmit _ _ | .written _ _ | .complete _ _ => inferInstanceAs (Decidable True)

/-- Messages wait for each other, and a write sends what its message holds. -/
def OneAtATime (σ : Channel e) (event : Event) : Prop := σ.Waits event ∧ σ.InMemory event

instance (σ : Channel e) (event : Event) : Decidable (σ.OneAtATime event) :=
  inferInstanceAs (Decidable (_ ∧ _))

/-- While the socket is open, one message at most has been handed to `DoWrite`; nothing but bytes
of the first one has been sent. -/
structure SendsOne (σ : Channel e) (ms : List OMessage) (ts : List UInt8) : Prop where
  one : σ.isOpen = true → ms.length ≤ 1
  slots : σ.isOpen = true → σ.unsent.length = ms.length
  first : ts <+: ms.head?.toList.flatMap OMessage.sendBytes

section OneAtATime

variable {σ σ' : Channel e} {os os' : List Transfer} {event : Event} {ms : List OMessage}
  {ts : List UInt8}

lemma sendsOne_start : SendsOne (start (e := e)) [] [] :=
  ⟨fun _ => Nat.zero_le _, fun _ => rfl, List.prefix_refl _⟩

/-- The only write there is sends in turn. -/
lemma SendsOne.inTurn (h : SendsOne σ ms ts) (hmemory : σ.InMemory event)
    (hstep : Channel.step σ event = some (σ', os)) : σ.InTurn event := by
  cases event with
  | transmit i bytes =>
    obtain ⟨rest, hopen, hi, -, -⟩ := exists_of_transmit hmemory hstep
    obtain ⟨hlt, -⟩ := List.getElem?_eq_some_iff.mp hi
    have hone := h.one hopen
    have hslots := h.slots hopen
    intro j hj
    omega
  | _ => exact trivial

lemma SendsOne.step (h : SendsOne σ ms ts) (hsends : Sends σ ms ts) (hone : σ.OneAtATime event)
    (hstep : Channel.step σ event = some (σ', os)) :
    SendsOne σ' (ms ++ sent os) (ts ++ transmitted os) := by
  obtain ⟨hwaits, hmemory⟩ := hone
  have hsends' := hsends.step (h.inTurn hmemory hstep) hmemory hstep
  obtain ⟨hle, hslots, hfirst⟩ := h
  cases event with
  | send m =>
    rw [Channel.step, Outbox.send_of_pending_eq_nil hsends.pending_eq, Outbox.doWrite, sending]
      at hstep
    obtain ⟨rfl, rfl⟩ := Prod.mk.inj (Option.some.inj hstep)
    have hstill : (σ.isOpen && !([Effect.asyncWrite m].any isStop)) = true → σ.isOpen = true := by
      simp [isStop]
    have hnone : σ.isOpen = true → ms = [] := by
      intro hopen
      have hlength := hsends.outstanding hopen
      rw [show σ.outbox.writing = [] from hwaits] at hlength
      exact List.length_eq_zero_iff.mp hlength.symm
    have hsent : Outbox.handed [.asyncWrite m] = [m] := rfl
    rw [sent_sender, transmitted_sender, hsent, List.append_nil]
    refine ⟨fun hopen => ?_, fun hopen => ?_, ?_⟩
    · rw [hnone (hstill hopen)]
      exact Nat.le_refl 1
    · rw [List.length_append, List.length_append, hslots (hstill hopen)]
      rfl
    · cases ms with
      | nil =>
        rw [List.prefix_nil.mp hfirst]
        exact List.nil_prefix
      | cons m' ms => exact hfirst
  | transmit i bytes =>
    obtain ⟨rest, hopen, -, rfl, rfl⟩ := exists_of_transmit hmemory hstep
    have hbegins := hsends'.begins
    rw [sent_transmitted, List.append_nil] at hbegins ⊢
    refine ⟨hle, fun hopen => ?_, ?_⟩
    · rw [List.length_set]
      exact hslots hopen
    · cases ms with
      | nil => exact hbegins
      | cons m ms =>
        obtain rfl : ms = [] := List.length_eq_zero_iff.mp (Nat.le_zero.mp
          (Nat.le_of_succ_le_succ (hle hopen)))
        exact hbegins
  | written i ec =>
    obtain ⟨hcan, hsome⟩ := Option.ite_none_right_eq_some.mp hstep
    obtain ⟨⟨outbox, effects⟩, hwritten, hsame⟩ := Option.map_eq_some_iff.mp hsome
    obtain ⟨rfl, rfl⟩ := Prod.mk.inj hsame
    have hclosed := closed_of_written hcan hwritten
    obtain ⟨-, hnone⟩ := Outbox.written_of_pending_eq_nil hsends.pending_eq hwritten
    rw [sent_sender, transmitted_sender, hnone, List.append_nil, List.append_nil]
    refine ⟨fun hopen => ?_, fun hopen => ?_, hfirst⟩
    · exact (hclosed hopen).elim
    · exact (hclosed hopen).elim
  | complete residue handled =>
    obtain ⟨receiver, unread, effects, rfl, rfl⟩ := exists_of_complete hstep
    rw [sent_receiver, transmitted_receiver, List.append_nil, List.append_nil]
    exact ⟨hle, hslots, hfirst⟩

/-- Nothing is handed on while no object is waiting to be filled. -/
lemma effects_of_reassemble_null {m : OMessage} {l : Locals e.setup.zlib} {effects : List Effect}
    (h : (Locals.null e.setup.zlib).reassemble e m = .ok (l, effects)) : effects = [] := by
  by_cases hid : m.messageSequenceId = 1
  · have hnonneg : ¬m.messageSequenceId < 0 := by simp [hid]
    rw [Locals.reassemble] at h
    generalize Locals.push e _ m = pushed at h
    cases pushed with
    | error f => cases h
    | ok l' =>
      rw [ok_bind, if_neg hnonneg] at h
      exact (congrArg Prod.snd (Except.ok.inj h)).symm
  · rw [reassemble_null hid] at h
    cases h

/-- A frame with a body that is the first to arrive is not handed on. -/
lemma bodyLength_of_arrive {a : Arrival} {r : Receiver e} {effects : List Effect}
    (h : (Receiver.start (e := e)).arrive a = some (r, effects)) {m : OMessage}
    {pProto : Option Proto} (hmem : .onMessage m pProto ∈ effects) : m.bodyLength = 0 := by
  obtain ⟨-, hresult⟩ := Receiver.arrive_eq_some.mp h
  by_cases hpos : 0 < a.frame.message.bodyLength
  · have hfound : Receiver.found (e := e) ⟨.head, .null _⟩ a.residue = .null _ := ite_self _
    rw [if_pos hpos, Receiver.onBody] at hresult
    dsimp only at hresult
    split at hresult
    · obtain ⟨-, rfl⟩ := Prod.mk.inj hresult
      cases hmem
    · split at hresult
      · obtain ⟨-, rfl⟩ := Prod.mk.inj hresult
        simp at hmem
      · rw [Receiver.start, hfound] at hresult
        split at hresult
        · obtain ⟨-, rfl⟩ := Prod.mk.inj hresult
          simp at hmem
        · next l os' hok =>
          obtain ⟨-, rfl⟩ := Prod.mk.inj hresult
          rw [effects_of_reassemble_null hok] at hmem
          cases hmem
  · rw [if_neg hpos, Receiver.onHead] at hresult
    split at hresult
    · next hzero =>
      dsimp only at hresult
      split at hresult
      · obtain ⟨-, rfl⟩ := Prod.mk.inj hresult
        simp at hmem
      · split at hresult
        · obtain ⟨-, rfl⟩ := Prod.mk.inj hresult
          cases hmem
        · obtain ⟨-, rfl⟩ := Prod.mk.inj hresult
          obtain ⟨rfl, -⟩ : m = a.frame.message ∧ _ := by simpa using hmem
          exact hzero
    · next hne =>
      have hneg : a.frame.message.bodyLength < 0 :=
        (Int32.lt_or_lt_of_ne hne).resolve_right hpos
      rw [if_pos hneg] at hresult
      obtain ⟨-, rfl⟩ := Prod.mk.inj hresult
      simp at hmem

/-- The head of a message is sent at least. -/
lemma sendBytes_ne_nil (m : OMessage) : m.sendBytes ≠ [] := by
  intro h
  rw [OMessage.sendBytes, OMessage.getSendBuffer, List.flatten_cons, List.append_eq_nil_iff] at h
  have hlen := m.length_getHead
  rw [h.1] at hlen
  exact absurd hlen (by decide)

/-- Of what begins the bytes of the first message, no second frame can be made. -/
lemma length_le_one_of_isPrefix {as : List Arrival} {more : List UInt8}
    (has : as.map (fun a => a.frame.message) <+: ms)
    (h : as.flatMap frameBytes ++ more <+: ms.head?.toList.flatMap OMessage.sendBytes) :
    as.length ≤ 1 := by
  match as with
  | [] => exact Nat.zero_le 1
  | [_] => exact Nat.le_refl 1
  | a :: a' :: as =>
    obtain ⟨rest, rfl⟩ := has
    have hlen := h.length_le
    have hpos := List.length_pos_of_ne_nil (sendBytes_ne_nil a'.frame.message)
    simp only [List.map_cons, List.cons_append, List.head?_cons, Option.toList_some,
      List.flatMap_cons, List.flatMap_nil, List.append_nil, List.length_append, frameBytes] at hlen
    omega

/-- What is done on one frame at most. -/
lemma bodyLength_of_run {as : List Arrival} {r : Receiver e} {effects : List Effect}
    (h : Machine.Run Receiver.arrive .start as r effects) (hle : as.length ≤ 1) {m : OMessage}
    {pProto : Option Proto} (hmem : .onMessage m pProto ∈ effects) : m.bodyLength = 0 := by
  match as with
  | [] =>
    obtain ⟨-, rfl⟩ := Machine.run_nil_iff.mp h
    cases hmem
  | [a] => exact bodyLength_of_arrive (Machine.run_singleton_iff.mp h) hmem
  | _ :: _ :: _ => exact absurd hle (by simp)

/-- What has been read of the bytes of the first message. -/
lemma Reads.bodyLength {Q : Residue → Bool → Prop} {r : Receiver e} {unread : List UInt8}
    {effects : List Effect} (h : Reads Q ms r unread ts effects)
    (hfirst : ts <+: ms.head?.toList.flatMap OMessage.sendBytes) {m : OMessage}
    {pProto : Option Proto} (hmem : .onMessage m pProto ∈ effects) : m.bodyLength = 0 := by
  cases h with
  | between unread hrun hQ has =>
    exact bodyLength_of_run hrun (length_le_one_of_isPrefix has hfirst) hmem
  | behindHead unread hrun hQ has hhead hpos =>
    rw [List.append_assoc] at hfirst
    exact bodyLength_of_run hrun
      (length_le_one_of_isPrefix ((List.prefix_append _ _).trans has) hfirst) hmem

/-- On a connection on which every message waits until the writes before it have completed, and
writes send what their messages hold, the first message is the only one that gets through: the
handler of its write closes the socket.  So a message with a body is never handed on, whatever the
other end has registered. -/
theorem carries_one_message {es : List Event} (hrun : Machine.Run Channel.step start es σ os)
    (halong : Machine.Along Channel.step OneAtATime (start (e := e)) es)
    (hcomplete : ∀ m ∈ sent os, Complete m) :
    transmitted os <+: (sent os).head?.toList.flatMap OMessage.sendBytes ∧
      ∀ m pProto, .onMessage m pProto ∈ received os → m.bodyLength = 0 := by
  suffices hboth : SendsOne σ (sent os) (transmitted os) ∧ Flows (fun _ _ => True) σ os by
    obtain ⟨hone, -, hreads⟩ := hboth
    refine ⟨hone.first, fun m pProto hmem => hreads.bodyLength ?_ hmem⟩
    have hfirst := hone.first
    cases hsent : sent os with
    | nil =>
      rw [hsent] at hfirst
      exact hfirst
    | cons m' ms =>
      rw [hsent] at hfirst hcomplete
      rw [List.map_cons, List.head?_cons, Option.toList_some, List.flatMap_singleton,
        sendBytes_received (hcomplete m' List.mem_cons_self)]
      rwa [List.head?_cons, Option.toList_some, List.flatMap_singleton] at hfirst
  refine hrun.invariant_of_along (I := fun σ os => (∀ m ∈ sent os, Complete m) →
    SendsOne σ (sent os) (transmitted os) ∧ Flows (fun _ _ => True) σ os)
    (fun _ => ⟨sendsOne_start, flows_start⟩) (fun σ os event σ' os' hinv hmeets hstep hall => ?_)
    halong hcomplete
  rw [sent_append, List.forall_mem_append] at hall
  obtain ⟨hone, hflows⟩ := hinv hall.1
  have hturn := hone.inTurn hmeets.2 hstep
  rw [sent_append, transmitted_append]
  refine ⟨hone.step hflows.sends hmeets hstep, hflows.step hall.1 ⟨hturn, hmeets.2, ?_⟩ hstep⟩
  cases event <;> exact trivial

/-- The second frame of a string waits until the write of the first has completed. -/
def oneByOne : List Event :=
  [.send abcdefFrame₁.message, .transmit 0 abcdefFrame₁.message.sendBytes, .complete .kept false,
    .complete .kept false, .written 0 .success, .send abcdefFrame₂.message]

/-- Only the first one is transmitted. -/
theorem carries_one_message_oneByOne :
    ∃ (σ : Channel (Endpoint.stored .ofAbcdef .string)) (os : _),
      Machine.Run step start oneByOne σ os ∧
        (transmitted os <+: (sent os).head?.toList.flatMap OMessage.sendBytes ∧
          ∀ m pProto, .onMessage m pProto ∈ received os → m.bodyLength = 0) ∧
        (sent os).length = 2 ∧ (transmitted os).length = 48 := by
  have hend : (Machine.exec step (start (e := Endpoint.stored .ofAbcdef .string)) oneByOne).map
      (fun r => (sent r.2, (transmitted r.2).length)) =
        some ([abcdefFrame₁.message, abcdefFrame₂.message], 48) := by decide +kernel
  obtain ⟨⟨σ, os⟩, hexec, hos⟩ := Option.map_eq_some_iff.mp hend
  obtain ⟨hsent, hlength⟩ := Prod.mk.inj hos
  have hcomplete : ∀ m ∈ sent os, Complete m := by
    rw [hsent]
    rw [List.forall_mem_cons, List.forall_mem_singleton]
    exact ⟨rfl, rfl⟩
  refine ⟨σ, os, Machine.run_iff_exec.mpr hexec, ?_, by rw [hsent]; rfl, hlength⟩
  exact carries_one_message (Machine.run_iff_exec.mpr hexec) (by decide +kernel) hcomplete

end OneAtATime

end Channel

end OldPart
