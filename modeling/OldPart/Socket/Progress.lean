import OldPart.Socket.Channel

/-!
# What is sent arrives

A connection on which nothing more is sent comes to rest.  Each byte is sent once and read once, and
what is between the two can always go on, so when the connection rests all that was sent has been
handed on at the other end.  The handlers of the writes close the socket, and have to wait until all
has been sent; and the messages have to be there until they have been.
-/

namespace OldPart

/-- A body that is waited for. -/
def Reading.bodies : Reading → ℕ
  | .body _ => 1
  | _ => 0

lemma Reading.bodies_le (reading : Reading) : reading.bodies ≤ 1 := by
  cases reading <;> simp [Reading.bodies]

lemma Reading.bodies_eq_zero {reading : Reading} (h : ∀ m, reading ≠ .body m) :
    reading.bodies = 0 := by
  cases reading with
  | body m => exact (h m rfl).elim
  | _ => rfl

namespace Channel

variable {e : Endpoint}

/-- An event by which the connection goes on: the first of the writes that have something to send
sends some of what its message holds, a read completes, or a write whose handler had to wait
completes. -/
def Advances (σ : Channel e) : Event → Prop
  | .send _ => False
  | .transmit i bytes =>
      σ.InTurn (.transmit i bytes) ∧ σ.InMemory (.transmit i bytes) ∧ bytes ≠ []
  | .written _ _ => σ.unsent.flatten = []
  | .complete residue handled => Left residue handled

instance (σ : Channel e) (event : Event) : Decidable (σ.Advances event) :=
  match event with
  | .send _ => inferInstanceAs (Decidable False)
  | .transmit _ _ => inferInstanceAs (Decidable (_ ∧ _ ∧ _))
  | .written _ _ => inferInstanceAs (Decidable (_ = _))
  | .complete _ _ => inferInstanceAs (Decidable (Left _ _))

/-- The connection has not come to rest. -/
def CanAdvance (σ : Channel e) : Prop :=
  ∃ event, σ.Advances event ∧ (Channel.step σ event).isSome

/-- What is still to be done: each byte is sent and read, and each write completes. -/
def toDo (σ : Channel e) : ℕ :=
  2 * σ.unsent.flatten.length + σ.unread.length + σ.receiver.reading.bodies +
    σ.outbox.writing.length

section Measure

variable {σ σ' : Channel e} {os : List Transfer} {event : Event}

/-- Such an event is one of those in which the writes send in turn. -/
lemma Advances.meets (h : σ.Advances event) : σ.Meets Left event := by
  cases event with
  | send m => exact h.elim
  | transmit i bytes => exact ⟨h.1, h.2.1, trivial⟩
  | written i ec => exact ⟨trivial, trivial, trivial⟩
  | complete residue handled => exact ⟨trivial, trivial, h⟩

lemma Advances.sends_eq_nil (h : σ.Advances event) : event.sends = [] := by
  cases event with
  | send m => exact h.elim
  | _ => rfl

/-- Nothing is left of writes that have all been sent. -/
lemma flatten_eraseIdx_eq_nil {ls : List (List UInt8)} (h : ls.flatten = []) (i : ℕ) :
    (ls.eraseIdx i).flatten = [] := by
  rw [List.flatten_eq_nil_iff] at h ⊢
  exact fun l hl => h l (List.mem_of_mem_eraseIdx hl)

/-- What a write that completes changes, when no message is pending. -/
lemma exists_of_written {i : ℕ} {ec : ErrorCode} (hpending : σ.outbox.mPendingMessages = [])
    (hstep : Channel.step σ (.written i ec) = some (σ', os)) :
    σ'.unsent = σ.unsent.eraseIdx i ∧ σ'.unread = σ.unread ∧ σ'.receiver = σ.receiver ∧
      σ'.outbox.writing.length + 1 = σ.outbox.writing.length ∧ transmitted os = [] := by
  obtain ⟨-, hsome⟩ := Option.ite_none_right_eq_some.mp hstep
  obtain ⟨⟨outbox, effects⟩, hwritten, hsame⟩ := Option.map_eq_some_iff.mp hsome
  obtain ⟨rfl, rfl⟩ := Prod.mk.inj hsame
  obtain ⟨-, hnone⟩ := Outbox.written_of_pending_eq_nil hpending hwritten
  obtain ⟨hlt, hsome⟩ := Option.ite_none_right_eq_some.mp hwritten
  have hwriting : outbox.writing = σ.outbox.writing.eraseIdx i := by
    obtain rfl : _ = outbox := congrArg Prod.fst (Option.some.inj hsome)
    cases ec <;> simp [Outbox.onWritten, Outbox.writeNext, hpending]
  refine ⟨?_, rfl, rfl, ?_, transmitted_sender effects⟩
  · rw [hnone]
    exact List.append_nil _
  · rw [hwriting, List.length_eraseIdx_of_lt hlt]
    omega

/-- Each such event makes less of what is still to be done. -/
lemma toDo_lt_of_step (hpending : σ.outbox.mPendingMessages = []) (h : σ.Advances event)
    (hstep : Channel.step σ event = some (σ', os)) : σ'.toDo < σ.toDo := by
  cases event with
  | send m => exact h.elim
  | transmit i bytes =>
    obtain ⟨hturn, hmemory, hne⟩ := h
    obtain ⟨rest, -, hi, rfl, -⟩ := exists_of_transmit hmemory hstep
    have hbytes := List.length_pos_of_ne_nil hne
    -- a byte that is sent still has to be read
    simp only [toDo, flatten_set_of_take_eq_nil hi hturn, flatten_of_take_eq_nil hi hturn,
      List.length_append]
    omega
  | written i ec =>
    obtain ⟨hunsent, hunread, hreceiver, hwriting, -⟩ := exists_of_written hpending hstep
    have hnone : σ.unsent.flatten = [] := h
    rw [toDo, toDo, hunsent, hunread, hreceiver, flatten_eraseIdx_eq_nil hnone, hnone]
    omega
  | complete residue handled =>
    rw [Channel.step] at hstep
    split at hstep
    · -- the bytes of a head make up for the body that is waited for
      next hreading =>
      obtain ⟨hlen, hstep⟩ := Option.ite_none_right_eq_some.mp hstep
      obtain ⟨⟨receiver, effects⟩, -, hsame⟩ := Option.map_eq_some_iff.mp hstep
      obtain ⟨rfl, -⟩ := Prod.mk.inj hsame
      have hhead : 1 < OMessage.getHeadLength := by decide
      have hbodies := receiver.reading.bodies_le
      simp only [toDo, List.length_drop]
      omega
    · next m hreading =>
      obtain ⟨hlen, hstep⟩ := Option.ite_none_right_eq_some.mp hstep
      obtain ⟨⟨receiver, effects⟩, hread, hsame⟩ := Option.map_eq_some_iff.mp hstep
      obtain ⟨rfl, -⟩ := Prod.mk.inj hsame
      obtain ⟨m', -, hresult⟩ := Receiver.step_body.mp hread
      rw [if_pos rfl] at hresult
      have hbody : σ.receiver.reading.bodies = 1 := by
        rw [hreading]
        rfl
      have hnone : receiver.reading.bodies = 0 := by
        have hreceiver : _ = receiver := congrArg Prod.fst hresult.2
        rw [← hreceiver]
        exact Reading.bodies_eq_zero (reading_ne_body_of_onBody _ _ _ _)
      simp only [toDo, List.length_drop, hbody, hnone]
      omega
    · cases hstep

end Measure

/-! ## Nothing is lost -/

/-- What was handed to `DoWrite` has been sent or can still be sent. -/
structure Undisturbed (σ : Channel e) (os : List Transfer) : Prop where
  flows : Flows Left σ os
  whole : transmitted os ++ σ.unsent.flatten = (sent os).flatMap OMessage.sendBytes
  canSend : σ.unsent.flatten ≠ [] → σ.isOpen = true

section Settling

variable {σ σ' : Channel e} {os os' : List Transfer} {event : Event} {xs : List Parcel}

/-- While the socket is open nothing is lost. -/
lemma Flows.undisturbed (h : Flows Left σ os) (hopen : σ.isOpen = true) : Undisturbed σ os :=
  ⟨h, h.sends.whole hopen, fun _ => hopen⟩

lemma Undisturbed.step (h : Undisturbed σ os) (hcomplete : ∀ m ∈ sent os, Complete m)
    (hadvances : σ.Advances event) (hstep : Channel.step σ event = some (σ', os')) :
    Undisturbed σ' (os ++ os') ∧ sent os' = [] := by
  obtain ⟨hflows, hwhole, hcan⟩ := h
  have hflows' := hflows.step hcomplete hadvances.meets hstep
  obtain ⟨-, hnone⟩ := sent_of_step hflows.sends.pending_eq hstep
  rw [hadvances.sends_eq_nil] at hnone
  refine ⟨?_, hnone⟩
  cases event with
  | send m => exact hadvances.elim
  | transmit i bytes =>
    obtain ⟨rest, hopen, -, rfl, rfl⟩ := exists_of_transmit hadvances.2.1 hstep
    exact hflows'.undisturbed hopen
  | written i ec =>
    obtain ⟨hunsent, -, -, -, htransmitted⟩ := exists_of_written hflows.sends.pending_eq hstep
    have hrest : σ.unsent.flatten = [] := hadvances
    have hrest' : σ'.unsent.flatten = [] := by
      rw [hunsent]
      exact flatten_eraseIdx_eq_nil hrest i
    refine ⟨hflows', ?_, fun hne => (hne hrest').elim⟩
    rw [hrest', transmitted_append, htransmitted, sent_append, hnone, List.append_nil,
      List.append_nil, List.append_nil, ← hwhole, hrest, List.append_nil]
  | complete residue handled =>
    obtain ⟨receiver, unread, effects, rfl, rfl⟩ := exists_of_complete hstep
    refine ⟨hflows', ?_, hcan⟩
    rw [transmitted_append, sent_append, transmitted_receiver, sent_receiver, List.append_nil,
      List.append_nil]
    exact hwhole

/-- The first of some lists that is not empty. -/
lemma exists_first {ls : List (List UInt8)} (h : ls.flatten ≠ []) :
    ∃ (i : ℕ) (bytes : List UInt8), ls[i]? = some bytes ∧ bytes ≠ [] ∧
      ∀ j < i, ls[j]? = some [] := by
  induction ls with
  | nil => exact (h rfl).elim
  | cons l ls ih =>
    cases l with
    | cons b l => exact ⟨0, b :: l, rfl, List.cons_ne_nil b l, nofun⟩
    | nil =>
      obtain ⟨i, bytes, hi, hne, hbefore⟩ := ih h
      refine ⟨i + 1, bytes, hi, hne, fun j hj => ?_⟩
      cases j with
      | zero => rfl
      | succ j => exact hbefore j (Nat.lt_of_succ_lt_succ hj)

/-- A write that has something to send can send it. -/
lemma Undisturbed.exists_transmit (h : Undisturbed σ os) (hne : σ.unsent.flatten ≠ []) :
    σ.CanAdvance := by
  obtain ⟨i, bytes, hi, hbytes, hbefore⟩ := exists_first hne
  refine ⟨.transmit i bytes, ⟨hbefore, ⟨bytes, hi, List.prefix_refl bytes⟩, hbytes⟩, ?_⟩
  rw [Channel.step, hi]
  dsimp only
  rw [if_pos ⟨h.canSend hne, Nat.le_refl _⟩]
  rfl

/-- A head that is there can be read. -/
lemma exists_head (hreading : σ.receiver.reading = .head)
    (hlen : OMessage.getHeadLength ≤ σ.unread.length) : σ.CanAdvance := by
  refine ⟨.complete .kept false, ⟨rfl, rfl⟩, ?_⟩
  rw [Channel.step, hreading]
  dsimp only
  rw [if_pos hlen, Receiver.step_head.mpr ⟨hreading, rfl⟩]
  rfl

/-- A body that is there can be read. -/
lemma exists_body {m : OMessage} (hreading : σ.receiver.reading = .body m)
    (hlen : m.bodyLength.toNatClampNeg ≤ σ.unread.length) : σ.CanAdvance := by
  have htake := List.length_take_of_le hlen
  refine ⟨.complete .kept false, ⟨rfl, rfl⟩, ?_⟩
  rw [Channel.step, hreading]
  dsimp only
  rw [if_pos hlen, Receiver.step_body.mpr ⟨m, hreading, (if_pos rfl).mpr ⟨htake, rfl⟩⟩]
  rfl

end Settling

/-! ## At rest -/

section Resting

variable {ms : List OMessage} {r r' : Receiver e} {unread ts : List UInt8}
  {effects effects' : List Effect} {as : List Arrival}

/-- The head of a whole message is as long as every other. -/
lemma getHeadLength_le {m : OMessage} (h : Whole m) :
    OMessage.getHeadLength ≤ m.sendBytes.length := by
  rw [sendBytes_eq h, List.length_append, m.length_getHead]
  exact Nat.le_add_right _ _

/-- When all the bytes of some messages are there, and too few are unread for the next read, then
all the frames of the messages have arrived. -/
lemma Reads.eq_of_rests (h : Reads Left ms r unread ts effects) (hwhole : ∀ m ∈ ms, Whole m)
    (hts : ts = ms.flatMap OMessage.sendBytes)
    (hhead : r.reading = .head → unread.length < OMessage.getHeadLength)
    (hbody : ∀ m, r.reading = .body m → unread.length < m.bodyLength.toNatClampNeg)
    (hms : ms = as.map fun a => a.frame.message) (hends : ∀ a ∈ as, Left a.residue a.handled)
    (hall : Machine.Run Receiver.arrive .start as r' effects') : effects = effects' := by
  cases h with
  | @between bs r effects unread hrun hQ hbs =>
    rw [hms] at hbs
    obtain ⟨more, rfl⟩ := isPrefix_of_map (fun a b => eq_of_message_eq) hQ hends hbs
    obtain ⟨r₁, effects₁, effects₂, hfirst, hsecond, rfl⟩ := hall.of_append
    obtain ⟨rfl, rfl⟩ := hrun.unique hfirst
    cases hsecond with
    | nil => exact (List.append_nil _).symm
    | @cons _ _ _ a more _ _ hone hrest =>
      -- the next frame would be there
      obtain ⟨hreading, -⟩ := Receiver.arrive_eq_some.mp hone
      have ha := hwhole a.frame.message (by simp [hms])
      rw [hms, flatMap_message, List.flatMap_append, List.append_right_inj] at hts
      have hlt := hhead hreading
      rw [hts, List.flatMap_cons, List.length_append, frameBytes] at hlt
      have hle := getHeadLength_le ha
      omega
  | @behindHead bs r effects m unread hrun hQ hbs hreading hpos =>
    obtain ⟨rest, rfl⟩ := hbs
    have hm := hwhole m (by simp)
    rw [flatMap_sendBytes_append bs hm, List.append_right_inj] at hts
    have hlt : unread.length < m.bodyLength.toNatClampNeg := hbody { m with mBody := [] } rfl
    rw [hts, List.length_append, hm.length_eq] at hlt
    omega

end Resting

section Delivering

variable {σ σ' : Channel e} {os os' : List Transfer} {xs : List Parcel}

/-- When the connection has come to rest, all protos have been handed on. -/
lemma Undisturbed.received_eq {u : Setup} {mCompressLevel : Int8} (h : Undisturbed σ os)
    (hsent : ∀ x ∈ xs, x.Sent u mCompressLevel e) (hcarried : ∀ x ∈ xs, KeptTogether x.frames)
    (hleft : ∀ x ∈ xs, ∀ a ∈ x.frames, a.residue = .kept)
    (hmessages : (sent os).map OMessage.received = xs.flatMap Parcel.messages)
    (hrests : ¬σ.CanAdvance) : received os = xs.flatMap Parcel.handedOn := by
  have hcomplete := complete_of_messages hcarried ⟨[], (List.append_nil _).trans hmessages⟩
  have hwhole : ∀ m ∈ (sent os).map OMessage.received, Whole m :=
    List.forall_mem_map.mpr hcomplete
  have hnone : σ.unsent.flatten = [] := by
    by_contra hne
    exact hrests (h.exists_transmit hne)
  have hall := h.whole
  rw [hnone, List.append_nil, ← flatMap_received hcomplete] at hall
  refine h.flows.reads.eq_of_rests hwhole hall (fun hreading => ?_) (fun m hreading => ?_)
    (hmessages.trans (flatMap_messages xs)) (left_of_mem_frames hsent hleft)
    (run_frames hsent hcarried)
  · by_contra hle
    exact hrests (exists_head hreading (Nat.not_lt.mp hle))
  · by_contra hle
    exact hrests (exists_body hreading (Nat.not_lt.mp hle))

/-- When all the frames of protos of at least two frames each have been handed to `DoWrite` and
the socket is still open, every run in which nothing more is sent, the writes send in turn what
their messages hold, their handlers wait until all has been sent, and the handlers of the frames
find what the ones before them have left, ends: it has at most two events for every byte that is not
sent, and one for every byte that is not read, for a body that is waited for and for every write.
And it ends no sooner than all of the protos have been handed on at the other end, each once and in
order. -/
theorem hands_on_all (u : Setup) (mCompressLevel : Int8) (xs : List Parcel)
    (hsent : ∀ x ∈ xs, x.Sent u mCompressLevel e) (hcarried : ∀ x ∈ xs, KeptTogether x.frames)
    (hleft : ∀ x ∈ xs, ∀ a ∈ x.frames, a.residue = .kept) {es es' : List Event}
    (hrun : Machine.Run Channel.step start es σ os)
    (halong : Machine.Along Channel.step (Meets Left) (start (e := e)) es)
    (hmessages : (sent os).map OMessage.received = xs.flatMap Parcel.messages)
    (hopen : σ.isOpen = true) (hrun' : Machine.Run Channel.step σ es' σ' os')
    (hadvance : Machine.Along Channel.step Advances σ es') :
    es'.length + σ'.toDo ≤ σ.toDo ∧
      (received (os ++ os') = xs.flatMap Parcel.handedOn ∨ σ'.CanAdvance) := by
  have hcomplete := complete_of_messages hcarried ⟨[], (List.append_nil _).trans hmessages⟩
  have hstart := (flows_of_run hrun halong hcomplete).undisturbed hopen
  have hone : ∀ (σ : Channel e) outs event (σ' : Channel e) outs',
      Undisturbed σ outs ∧ sent outs = sent os → σ.Advances event →
      Channel.step σ event = some (σ', outs') →
      (Undisturbed σ' (outs ++ outs') ∧ sent (outs ++ outs') = sent os) ∧ σ'.toDo < σ.toDo := by
    rintro σ outs event σ' outs' ⟨hundisturbed, hsame⟩ hadvances hstep
    have hpending := hundisturbed.flows.sends.pending_eq
    obtain ⟨hnext, hnone⟩ := hundisturbed.step (by rwa [hsame]) hadvances hstep
    refine ⟨⟨hnext, ?_⟩, toDo_lt_of_step hpending hadvances hstep⟩
    rw [sent_append, hnone, List.append_nil, hsame]
  obtain ⟨⟨hend, hsame⟩, hlength⟩ :=
    Machine.Run.length_add_le hone ⟨hstart, rfl⟩ hrun' hadvance
  refine ⟨hlength, or_iff_not_imp_right.mpr fun hrests => ?_⟩
  exact hend.received_eq hsent hcarried hleft (by rwa [hsame]) hrests

/-- Both frames of the string are handed to `DoWrite`, and the first begins to go out. -/
def underWay : List Event :=
  [.send abcdefFrame₁.message, .send abcdefFrame₂.message,
    .transmit 0 (abcdefFrame₁.message.sendBytes.take 40)]

/-- The rest goes out and is read, and then the handlers of the writes run. -/
def restComes : List Event :=
  [.complete .kept false, .transmit 0 (abcdefFrame₁.message.sendBytes.drop 40),
    .transmit 1 (abcdefFrame₂.message.sendBytes.take 40), .complete .kept false,
    .complete .kept false, .transmit 1 (abcdefFrame₂.message.sendBytes.drop 40),
    .complete .kept false, .written 0 .success, .written 0 .success]

/-- Nothing is left to do then, and the string has been handed on. -/
theorem hands_on_all_restComes : ∃ (σ σ' : Channel (Endpoint.stored .ofAbcdef .string))
    (os os' : _), Machine.Run step start underWay σ os ∧ Machine.Run step σ restComes σ' os' ∧
      restComes.length ≤ σ.toDo ∧
      received (os ++ os') = [abcdefInTurn].flatMap Parcel.handedOn := by
  have hend : ∃ r ∈ Machine.exec step (start (e := Endpoint.stored .ofAbcdef .string)) underWay,
      (sent r.2 = [abcdefFrame₁.message, abcdefFrame₂.message] ∧ r.1.isOpen = true ∧
        Machine.Along step Advances r.1 restComes) ∧
        ∃ r' ∈ Machine.exec step r.1 restComes, r'.1.outbox.mPendingMessages = [] ∧
          r'.1.toDo = 0 := by decide +kernel
  obtain ⟨⟨σ, os⟩, hfirst, ⟨hsent, hopen, hadvance⟩, ⟨σ', os'⟩, hrest, hpending, hnone⟩ := hend
  have hrun := Machine.run_iff_exec.mpr hfirst
  have hrun' := Machine.run_iff_exec.mpr hrest
  obtain ⟨hlength, hall⟩ := hands_on_all (Setup.stored .ofAbcdef) 0 [abcdefInTurn]
    (by simp [sent_abcdefInTurn])
    (by
      rw [List.forall_mem_singleton]
      exact ⟨by decide, by decide, by decide, by decide, by decide⟩)
    (by simp [abcdefInTurn]) hrun (by decide +kernel)
    (by
      rw [hsent]
      rfl)
    hopen hrun' hadvance
  rw [hnone] at hlength
  refine ⟨σ, σ', os, os', hrun, hrun', hlength, hall.resolve_right ?_⟩
  rintro ⟨event, hadvances, hsome⟩
  obtain ⟨⟨σ'', os''⟩, hstep⟩ := Option.isSome_iff_exists.mp hsome
  have hless := toDo_lt_of_step hpending hadvances hstep
  rw [hnone] at hless
  exact Nat.not_lt_zero _ hless

end Delivering

end Channel

end OldPart
