import OldPart.Serializer.CompressRoundTrip
import OldPart.Serializer.Numbering
import OldPart.Socket.Reassembly

/-!
# Protos that are sent and arrive

One end calls `Send(messageId, requestId, pProto)` for one proto after another, and the frames
arrive at the other end complete and in order.  Each proto should be handed on once.  The frames
of a proto are put together in locals that have to outlive the handler that fills them, and only
the frame with the number one opens them; a proto of a single frame has no such frame.
-/

namespace OldPart

/-! ## What is sent and what arrives -/

/-- A message as it is received: of the memory the pointer points to, the body. -/
def OMessage.received (m : OMessage) : OMessage := { m with mBody := m.bytes }

/-- A proto that is sent, and the frames that arrive for it. -/
structure Parcel where
  messageId : Int32
  requestId : Int32
  pProto : Proto
  frames : List Arrival

/-- The messages of the frames. -/
def Parcel.messages (x : Parcel) : List OMessage := x.frames.map fun a => a.frame.message

/-- The frames are those `Send` has made of the proto with the key of the receiver,
`OnMessage(pMessage)` returns `false` for them, the messageId is registered, and `Deserialize`
makes the proto of the messages again. -/
structure Parcel.Sent (u : Setup) (mCompressLevel : Int8) (e : Endpoint) (x : Parcel) : Prop where
  sent : ∃ fetch ms, TSocket.sendProto u mCompressLevel e.mEncryptKey fetch x.messageId x.requestId
    x.pProto = .ok ms ∧ x.messages = ms.map OMessage.received
  unhandled : ∀ a ∈ x.frames, a.handled = false
  inverted : ∃ target v, e.creators.doCreate x.messageId = some target ∧
    deserialize e.setup e.mEncryptKey target.schema target.obj e.turns x.messages
      = .returned true v ∧ x.pProto = ⟨target.schema, v⟩

/-- Handing on the proto with its last frame, once. -/
def Parcel.handedOn (x : Parcel) : List Effect :=
  x.frames.getLast?.toList.map fun a => .onMessage a.frame.message (some x.pProto)

/-- The receiver hands on each of the protos once, in order, and does nothing else. -/
def Delivers (e : Endpoint) (xs : List Parcel) : Prop :=
  ∃ r, Machine.Run (Receiver.step (e := e)) Receiver.start
    (xs.flatMap fun x => x.frames.flatMap Arrival.events) r (xs.flatMap Parcel.handedOn)

/-- The frames of a proto of more than one frame: each has a body, the handler of the first
finds locals, and those of the others find what the handler before them has left. -/
structure KeptTogether (as : List Arrival) : Prop where
  two_le : 2 ≤ as.length
  le : as.length ≤ 2 ^ 31
  body : ∀ a ∈ as, 0 < a.frame.message.bodyLength
  first : ∀ a ∈ as.head?, a.residue ≠ .wild
  kept : ∀ a ∈ as.tail, a.residue = .kept

/-- The proto is of more than one frame and they are kept together, or it is of one frame
without a body, and is the object its creator makes. -/
def Parcel.Carried (e : Endpoint) (x : Parcel) : Prop :=
  KeptTogether x.frames ∨
    (∃ a, x.frames = [a] ∧ a.frame.message.bodyLength = 0) ∧
      e.creators.doCreate x.messageId = some x.pProto

section Frames

variable {e : Endpoint} {r r' : Receiver e} {a : Arrival} {os : List Effect}

/-- No handler fails. -/
def Faultless (os : List Effect) : Prop := ∀ f, .fault f ∉ os

lemma not_faultless_fault (f : SocketFault) (os : List Effect) : ¬Faultless (.fault f :: os) :=
  fun h => h f (by simp)

/-! ## One frame -/

/-- A frame without a body that is not the only one of its message. -/
lemma not_faultless_of_noBody (hbody : ¬0 < a.frame.message.bodyLength)
    (hid : a.frame.message.messageSequenceId ≠ -1) (h : r.arrive a = some (r', os)) :
    ¬Faultless os := by
  obtain ⟨-, hresult⟩ := Receiver.arrive_eq_some.mp h
  rw [if_neg hbody, Receiver.onHead] at hresult
  split at hresult
  · obtain ⟨-, rfl⟩ := Prod.mk.inj hresult
    exact not_faultless_fault _ _
  · next hne =>
    have hneg : a.frame.message.bodyLength < 0 := by
      rcases Int32.lt_or_lt_of_ne hne with hlt | hgt
      · exact hlt
      · exact (hbody hgt).elim
    rw [if_pos hneg] at hresult
    obtain ⟨-, rfl⟩ := Prod.mk.inj hresult
    exact not_faultless_fault _ _

/-- A frame without a body that is the only one of its message. -/
lemma arrive_of_noBody (hnone : a.frame.message.bodyLength = 0)
    (hid : a.frame.message.messageSequenceId = -1) (hhandled : a.handled = false) :
    (Receiver.start (e := e)).arrive a = some (Receiver.start, [.onMessage a.frame.message
      (e.creators.doCreate a.frame.message.messageId)]) := by
  refine Receiver.arrive_eq_some.mpr ⟨rfl, ?_⟩
  have hbody : ¬0 < a.frame.message.bodyLength := by simp [hnone]
  rw [if_neg hbody, Receiver.onHead, if_pos hnone, hhandled]
  simp only [hid, ne_eq, not_true_eq_false, if_false, Bool.false_eq_true]
  rfl

/-- A frame with a body, when its handler finds locals. -/
lemma arrive_of_body (hhead : r.reading = .head) (hbody : 0 < a.frame.message.bodyLength)
    (hhandled : a.handled = false) (hwild : a.residue ≠ .wild) :
    r.arrive a = some (match (r.found a.residue).reassemble e a.frame.message with
      | .error f => { r with reading := .head }.fail f
      | .ok (locals, effects) => (⟨.head, locals⟩, effects)) := by
  refine Receiver.arrive_eq_some.mpr ⟨hhead, ?_⟩
  rw [if_pos hbody, Receiver.onBody, hhandled]
  simp only [Bool.false_eq_true, if_false, hwild]
  rfl

lemma not_faultless_of_wild (hbody : 0 < a.frame.message.bodyLength) (hhandled : a.handled = false)
    (hwild : a.residue = .wild) (h : r.arrive a = some (r', os)) : ¬Faultless os := by
  obtain ⟨-, hresult⟩ := Receiver.arrive_eq_some.mp h
  rw [if_pos hbody, Receiver.onBody, hhandled] at hresult
  simp only [Bool.false_eq_true, if_false, hwild, if_true] at hresult
  obtain ⟨-, rfl⟩ := Prod.mk.inj hresult
  exact not_faultless_fault _ _

lemma reassemble_null {m : OMessage} (hid : m.messageSequenceId ≠ 1) :
    (Locals.null e.setup.zlib).reassemble e m = .error .nullSink := by
  rw [Locals.reassemble, Locals.opened, if_neg hid]
  rfl

/-- A frame that does not open the locals, when its handler does not find them open. -/
lemma not_faultless_of_closed (hbody : 0 < a.frame.message.bodyLength)
    (hhandled : a.handled = false) (hid : a.frame.message.messageSequenceId ≠ 1)
    (hclosed : a.residue = .kept → r.locals = .null _) (h : r.arrive a = some (r', os)) :
    ¬Faultless os := by
  by_cases hwild : a.residue = .wild
  · exact not_faultless_of_wild hbody hhandled hwild h
  · obtain ⟨hhead, -⟩ := Receiver.arrive_eq_some.mp h
    have hfound : r.found a.residue = .null _ := by
      unfold Receiver.found
      split
      · next hkept => exact hclosed hkept
      · rfl
    rw [arrive_of_body hhead hbody hhandled hwild, hfound, reassemble_null hid] at h
    obtain ⟨-, rfl⟩ := Prod.mk.inj (Option.some.inj h)
    exact not_faultless_fault _ _

/-- What a handler makes of a frame that `Deserialize` takes. -/
lemma reassemble_of_enter {l : Locals e.setup.zlib} {m : OMessage} {target : Proto}
    {d d' : Deserializer e.setup.zlib} (henter : (l.opened e m).enter = .ok (target, d))
    (hfeed : d.feed e.setup e.mEncryptKey target.schema target.obj e.turns m = .more d') :
    l.reassemble e m = .ok (if m.messageSequenceId < 0
      then (.null _, [.onMessage m (some (target.filled d'))])
      else (⟨some (target.filled d'), some (.running target d')⟩, [])) := by
  rw [Locals.reassemble, Locals.push, henter, ok_bind]
  dsimp only
  rw [hfeed, Locals.resumed, ok_bind]
  dsimp only
  split <;> rfl

/-- The state in which `Deserialize` of a message waits for its next frame. -/
def Receiver.reassembling (target : Proto) (d : Deserializer e.setup.zlib) : Receiver e :=
  ⟨.head, ⟨some (target.filled d), some (.running target d)⟩⟩

/-- What becomes of a frame that `Deserialize` takes. -/
def Receiver.after (m : OMessage) (target : Proto) (d : Deserializer e.setup.zlib) :
    Receiver e × List Effect :=
  if m.messageSequenceId < 0 then (start, [.onMessage m (some (target.filled d))])
  else (reassembling target d, [])

lemma arrive_of_first {target : Proto} {d : Deserializer e.setup.zlib}
    (hhead : r.reading = .head) (hbody : 0 < a.frame.message.bodyLength)
    (hhandled : a.handled = false) (hwild : a.residue ≠ .wild)
    (hid : a.frame.message.messageSequenceId = 1)
    (hcreate : e.creators.doCreate a.frame.message.messageId = some target)
    (hfeed : (Deserializer.start e.setup.zlib).feed e.setup e.mEncryptKey target.schema target.obj
      e.turns a.frame.message = .more d) :
    r.arrive a = some (Receiver.after a.frame.message target d) := by
  have henter : ((r.found a.residue).opened e a.frame.message).enter =
      .ok (target, .start e.setup.zlib) := by
    rw [Locals.opened, if_pos hid, hcreate]
    rfl
  rw [arrive_of_body hhead hbody hhandled hwild, reassemble_of_enter henter hfeed, Receiver.after]
  dsimp only
  split <;> rfl

lemma arrive_of_kept {target : Proto} {d d' : Deserializer e.setup.zlib}
    (hbody : 0 < a.frame.message.bodyLength) (hhandled : a.handled = false)
    (hkept : a.residue = .kept) (hid : a.frame.message.messageSequenceId ≠ 1)
    (hfeed : d.feed e.setup e.mEncryptKey target.schema target.obj e.turns a.frame.message
      = .more d') :
    (Receiver.reassembling target d).arrive a =
      some (Receiver.after a.frame.message target d') := by
  have henter :
      (((Receiver.reassembling target d).found a.residue).opened e a.frame.message).enter =
        .ok (target, d) := by
    rw [Locals.opened, if_neg hid, Receiver.found, if_pos hkept]
    rfl
  rw [arrive_of_body rfl hbody hhandled (by simp [hkept]), reassemble_of_enter henter hfeed,
    Receiver.after]
  dsimp only
  split <;> rfl

/-! ## One proto -/

lemma Faultless.of_append {os' : List Effect} (h : Faultless (os ++ os')) :
    Faultless os ∧ Faultless os' :=
  ⟨fun f hf => h f (List.mem_append_left _ hf), fun f hf => h f (List.mem_append_right _ hf)⟩

/-- The messages behind the first, and what `Deserialize` has made of those before them. -/
structure Remaining (k n : ℕ) (target : Proto) (d d' : Deserializer e.setup.zlib)
    (as : List Arrival) : Prop where
  numbers : as.map (fun a => a.frame.message.messageSequenceId) = numbersFrom k n
  unhandled : ∀ a ∈ as, a.handled = false
  taken : d.feedAll e.setup e.mEncryptKey target.schema target.obj e.turns
    (as.map fun a => a.frame.message) = .more d'

/-- `Deserialize` takes the first of the messages, and then the others. -/
lemma feedAll_cons_eq_more {target : Proto} {d d' : Deserializer e.setup.zlib} {m : OMessage}
    {ms : List OMessage} (h : d.feedAll e.setup e.mEncryptKey target.schema target.obj e.turns
      (m :: ms) = .more d') :
    ∃ d₁, d.feed e.setup e.mEncryptKey target.schema target.obj e.turns m = .more d₁ ∧
      d₁.feedAll e.setup e.mEncryptKey target.schema target.obj e.turns ms = .more d' := by
  rw [Deserializer.feedAll] at h
  cases hfeed : d.feed e.setup e.mEncryptKey target.schema target.obj e.turns m with
  | more d₁ =>
    rw [hfeed] at h
    exact ⟨d₁, rfl, h⟩
  | rejected d₁ =>
    rw [hfeed] at h
    cases h
  | fault d₁ f =>
    rw [hfeed] at h
    cases h

lemma Remaining.cons {k n : ℕ} {target : Proto} {d d' : Deserializer e.setup.zlib}
    {as : List Arrival} (h : Remaining k (n + 1) target d d' as) :
    ∃ a rest d₁, as = a :: rest ∧ a.frame.message.messageSequenceId = .ofNat k ∧
      a.handled = false ∧ d.feed e.setup e.mEncryptKey target.schema target.obj e.turns
        a.frame.message = .more d₁ ∧ Remaining (k + 1) n target d₁ d' rest := by
  obtain ⟨a, rest, rfl, hid, hrest⟩ := List.map_eq_cons_iff.mp h.numbers
  obtain ⟨d₁, hfeed, htaken⟩ := feedAll_cons_eq_more h.taken
  exact ⟨a, rest, d₁, rfl, hid, h.unhandled a (by simp), hfeed, hrest,
    fun b hb => h.unhandled b (by simp [hb]), htaken⟩

lemma Remaining.singleton {k : ℕ} {target : Proto} {d d' : Deserializer e.setup.zlib}
    {as : List Arrival} (h : Remaining k 0 target d d' as) :
    ∃ a, as = [a] ∧ a.frame.message.messageSequenceId = -.ofNat k ∧
      a.handled = false ∧ d.feed e.setup e.mEncryptKey target.schema target.obj e.turns
        a.frame.message = .more d' := by
  obtain ⟨a, rest, rfl, hid, hrest⟩ := List.map_eq_cons_iff.mp h.numbers
  obtain rfl := List.map_eq_nil_iff.mp hrest
  obtain ⟨d₁, hfeed, htaken⟩ := feedAll_cons_eq_more h.taken
  obtain rfl := Fed.more.inj htaken
  exact ⟨a, rfl, hid, h.unhandled a (by simp), hfeed⟩

/-- The frames behind the first, when each finds what the one before it has left. -/
lemma Remaining.run {k n : ℕ} {target : Proto} {d d' : Deserializer e.setup.zlib}
    {as : List Arrival} (h : Remaining k n target d d' as) (hlo : 2 ≤ k) (hhi : k + n ≤ 2 ^ 31)
    (hkept : ∀ a ∈ as, 0 < a.frame.message.bodyLength ∧ a.residue = .kept) :
    Machine.Run Receiver.arrive (Receiver.reassembling target d) as Receiver.start
      (as.getLast?.toList.map fun a => .onMessage a.frame.message (some (target.filled d'))) := by
  induction n generalizing k d as with
  | zero =>
    obtain ⟨a, rfl, hid, hhandled, hfeed⟩ := h.singleton
    obtain ⟨hbody, hresidue⟩ := hkept a (by simp)
    obtain ⟨-, hne, -⟩ := number_ne hlo (by omega)
    have hneg := number_neg (by omega) (by omega : k ≤ 2 ^ 31)
    have hstep := arrive_of_kept hbody hhandled hresidue (hid ▸ hne) hfeed
    rw [Receiver.after, hid, if_pos hneg] at hstep
    exact Machine.Run.single hstep
  | succ n ih =>
    obtain ⟨a, rest, d₁, rfl, hid, hhandled, hfeed, hrest⟩ := h.cons
    obtain ⟨hbody, hresidue⟩ := hkept a (by simp)
    obtain ⟨⟨hne, -⟩, -⟩ := number_ne hlo (by omega)
    have hnonneg := number_nonneg (by omega : k < 2 ^ 31)
    have hstep := arrive_of_kept hbody hhandled hresidue (hid ▸ hne) hfeed
    rw [Receiver.after, hid, if_neg hnonneg] at hstep
    have hrun := ih hrest (by omega) (by omega) fun b hb => hkept b (by simp [hb])
    obtain ⟨b, bs, rfl⟩ := List.exists_cons_of_ne_nil (l := rest) (by
      rintro rfl
      have := congrArg List.length hrest.numbers
      simp at this)
    exact Machine.Run.cons hstep hrun

/-- Frames behind the first that come when the locals are null, or lost. -/
lemma Remaining.not_faultless_of_closed {k n : ℕ} {target : Proto}
    {d d' : Deserializer e.setup.zlib} {as : List Arrival} (h : Remaining k n target d d' as)
    (hlo : 2 ≤ k) (hhi : k ≤ 2 ^ 31 + 1) (hclosed : ∀ a ∈ as.head?, a.residue = .kept →
      r.locals = .null _)
    (hrun : Machine.Run Receiver.arrive r as r' os) : ¬Faultless os := by
  obtain ⟨⟨hne₁, hne₂⟩, hne₃, hne₄⟩ := number_ne hlo hhi
  obtain ⟨a, rest, rfl, hid₁, hid₂, hhandled⟩ : ∃ a rest, as = a :: rest ∧
      a.frame.message.messageSequenceId ≠ 1 ∧ a.frame.message.messageSequenceId ≠ -1 ∧
      a.handled = false := by
    cases n with
    | zero =>
      obtain ⟨a, rfl, hid, hhandled, -⟩ := h.singleton
      exact ⟨a, [], rfl, hid ▸ hne₃, hid ▸ hne₄, hhandled⟩
    | succ n =>
      obtain ⟨a, rest, -, rfl, hid, hhandled, -⟩ := h.cons
      exact ⟨a, rest, rfl, hid ▸ hne₁, hid ▸ hne₂, hhandled⟩
  cases hrun with
  | cons hstep hrest =>
    refine fun hfaultless => ?_
    by_cases hbody : 0 < a.frame.message.bodyLength
    · exact OldPart.not_faultless_of_closed hbody hhandled hid₁ (hclosed a (by simp)) hstep
        hfaultless.of_append.1
    · exact not_faultless_of_noBody hbody hid₂ hstep hfaultless.of_append.1

/-- If no handler fails, the first of them finds what the handler before it has left. -/
lemma Remaining.kept_of_faultless {k n : ℕ} {target : Proto} {d d' : Deserializer e.setup.zlib}
    {as : List Arrival} (h : Remaining k n target d d' as) (hlo : 2 ≤ k) (hhi : k ≤ 2 ^ 31)
    (hrun : Machine.Run Receiver.arrive (Receiver.reassembling target d) as r' os)
    (hfaultless : Faultless os) : ∀ a ∈ as.head?, a.residue = .kept := by
  intro a ha
  by_contra hlost
  refine h.not_faultless_of_closed hlo (by omega) (fun b hb hkept => ?_) hrun hfaultless
  exact (hlost (Option.mem_unique hb ha ▸ hkept)).elim

/-- If no handler fails, each of them does, and they are not too many to be counted. -/
lemma Remaining.of_faultless {k n : ℕ} {target : Proto} {d d' : Deserializer e.setup.zlib}
    {as : List Arrival} (h : Remaining k n target d d' as) (hlo : 2 ≤ k) (hhi : k ≤ 2 ^ 31)
    (hrun : Machine.Run Receiver.arrive (Receiver.reassembling target d) as r' os)
    (hfaultless : Faultless os) :
    k + n ≤ 2 ^ 31 ∧ ∀ a ∈ as, 0 < a.frame.message.bodyLength ∧ a.residue = .kept := by
  induction n generalizing k d as os with
  | zero =>
    have hresidue := h.kept_of_faultless hlo hhi hrun hfaultless
    obtain ⟨a, rfl, hid, hhandled, hfeed⟩ := h.singleton
    obtain ⟨-, -, hne⟩ := number_ne hlo (by omega)
    refine ⟨hhi, fun b hb => ?_⟩
    obtain rfl := List.mem_singleton.mp hb
    refine ⟨?_, hresidue b (by simp)⟩
    by_contra hbody
    exact not_faultless_of_noBody hbody (hid ▸ hne) (Machine.run_singleton_iff.mp hrun) hfaultless
  | succ n ih =>
    have hresidues := h.kept_of_faultless hlo hhi hrun hfaultless
    obtain ⟨a, rest, d₁, rfl, hid, hhandled, hfeed, hrest⟩ := h.cons
    have hresidue := hresidues a (by simp)
    obtain ⟨⟨hne₁, hne₂⟩, -⟩ := number_ne hlo (by omega)
    cases hrun with
    | cons hstep hmore =>
      obtain ⟨hfaultless₁, hfaultless₂⟩ := hfaultless.of_append
      have hbody : 0 < a.frame.message.bodyLength := by
        by_contra hbody
        exact not_faultless_of_noBody hbody (hid ▸ hne₂) hstep hfaultless₁
      have hkept := arrive_of_kept hbody hhandled hresidue (hid ▸ hne₁) hfeed
      rw [hstep] at hkept
      rcases hhi.eq_or_lt with rfl | hlt
      · -- the count has wrapped around, so the handler has taken this frame for the last
        have hneg : Int32.ofNat (2 ^ 31) < 0 := by decide
        rw [Receiver.after, hid, if_pos hneg] at hkept
        obtain ⟨rfl, -⟩ := Prod.mk.inj (Option.some.inj hkept)
        exact (hrest.not_faultless_of_closed (by omega) (by omega) (fun _ _ _ => rfl) hmore
          hfaultless₂).elim
      · rw [Receiver.after, hid, if_neg (number_nonneg hlt)] at hkept
        obtain ⟨rfl, -⟩ := Prod.mk.inj (Option.some.inj hkept)
        obtain ⟨hcount, hall⟩ := ih hrest (by omega) (by omega) hmore hfaultless₂
        exact ⟨by omega, List.forall_mem_cons.mpr ⟨⟨hbody, hresidue⟩, hall⟩⟩

end Frames

/-! ## One proto -/

namespace Parcel.Sent

variable {u : Setup} {mCompressLevel : Int8} {e : Endpoint} {x : Parcel}

/-- The frames are numbered from one on. -/
lemma numbers (h : x.Sent u mCompressLevel e) :
    ∃ n, x.frames.map (fun a => a.frame.message.messageSequenceId) = numbersFrom 1 n := by
  obtain ⟨fetch, ms, hsend, hmessages⟩ := h.sent
  obtain ⟨ms', hserialize, hsend⟩ := exists_of_bind_eq_ok hsend
  obtain rfl := Except.ok.inj hsend
  obtain ⟨⟨n, hn⟩, -⟩ := serializeCompressEncrypt_numbers hserialize
  refine ⟨n, ?_⟩
  rw [← hn]
  have hmap := congrArg (List.map OMessage.messageSequenceId) hmessages
  rw [messages, List.map_map, List.map_map, List.map_map] at hmap
  exact hmap

/-- They have the message id of the proto. -/
lemma messageId (h : x.Sent u mCompressLevel e) {a : Arrival} (ha : a ∈ x.frames) :
    a.frame.message.messageId = x.messageId := by
  obtain ⟨fetch, ms, hsend, hmessages⟩ := h.sent
  obtain ⟨ms', hserialize, hsend⟩ := exists_of_bind_eq_ok hsend
  obtain rfl := Except.ok.inj hsend
  obtain ⟨-, hid⟩ := serializeCompressEncrypt_numbers hserialize
  have hmem : a.frame.message ∈ x.messages := List.mem_map_of_mem ha
  rw [hmessages, List.map_map] at hmem
  obtain ⟨m, hm, heq⟩ := List.mem_map.mp hmem
  rw [← heq]
  exact hid m hm

/-- `Deserialize` takes all of them, and has made the proto then. -/
lemma taken (h : x.Sent u mCompressLevel e) :
    ∃ target d, e.creators.doCreate x.messageId = some target ∧ x.pProto = target.filled d ∧
      (Deserializer.start e.setup.zlib).feedAll e.setup e.mEncryptKey target.schema target.obj
        e.turns x.messages = .more d := by
  obtain ⟨target, v, hcreate, hrun, hproto⟩ := h.inverted
  generalize x.messages = ms at hrun
  cases ms with
  | nil => cases hrun
  | cons m ms =>
    rw [deserialize] at hrun
    cases hfeed : (Deserializer.start e.setup.zlib).feedAll e.setup e.mEncryptKey target.schema
        target.obj e.turns (m :: ms) with
    | more d =>
      rw [hfeed] at hrun
      obtain rfl := (Deserialized.returned.inj hrun).2
      exact ⟨target, d, hcreate, hproto, hfeed⟩
    | rejected d =>
      rw [hfeed] at hrun
      cases (Deserialized.returned.inj hrun).1
    | fault d f =>
      rw [hfeed] at hrun
      cases hrun

/-- A proto of more than one frame. -/
lemma of_two_le (h : x.Sent u mCompressLevel e) (hlen : 2 ≤ x.frames.length) :
    ∃ a rest n target d d₁, x.frames = a :: rest ∧ rest.length = n + 1 ∧
      a.frame.message.messageSequenceId = 1 ∧ a.handled = false ∧
      e.creators.doCreate a.frame.message.messageId = some target ∧
      (Deserializer.start e.setup.zlib).feed e.setup e.mEncryptKey target.schema target.obj
        e.turns a.frame.message = .more d₁ ∧
      Remaining 2 n target d₁ d rest ∧ x.pProto = target.filled d := by
  obtain ⟨target, d, hcreate, hproto, htaken⟩ := h.taken
  obtain ⟨n, hnumbers⟩ := h.numbers
  have hcount := congrArg List.length hnumbers
  rw [List.length_map, length_numbersFrom] at hcount
  obtain ⟨n, rfl⟩ : ∃ n', n = n' + 1 := ⟨n - 1, by omega⟩
  obtain ⟨a, rest, d₁, hframes, hid, hhandled, hfeed, hrest⟩ :=
    (Remaining.mk hnumbers h.unhandled htaken).cons
  rw [hframes, List.length_cons] at hcount
  refine ⟨a, rest, n, target, d, d₁, hframes, by omega, hid, hhandled, ?_, hfeed, hrest, hproto⟩
  rw [h.messageId (hframes ▸ List.mem_cons_self), hcreate]

/-- A proto of a single frame. -/
lemma of_length_eq_one (h : x.Sent u mCompressLevel e) (hlen : x.frames.length = 1) :
    ∃ a, x.frames = [a] ∧ a.frame.message.messageSequenceId = -1 ∧ a.handled = false ∧
      a.frame.message.messageId = x.messageId := by
  obtain ⟨a, hframes⟩ := List.length_eq_one_iff.mp hlen
  obtain ⟨n, hnumbers⟩ := h.numbers
  rw [hframes, List.map_singleton] at hnumbers
  have hn := congrArg List.length hnumbers
  rw [List.length_singleton, length_numbersFrom] at hn
  obtain rfl : n = 0 := by omega
  have ha : a ∈ x.frames := hframes ▸ List.mem_singleton_self a
  exact ⟨a, hframes, List.head_eq_of_cons_eq hnumbers, h.unhandled a ha, h.messageId ha⟩

lemma length_pos (h : x.Sent u mCompressLevel e) : 0 < x.frames.length := by
  obtain ⟨n, hnumbers⟩ := h.numbers
  have hcount := congrArg List.length hnumbers
  rw [List.length_map, length_numbersFrom] at hcount
  omega

/-- A proto that is carried is handed on. -/
lemma run (h : x.Sent u mCompressLevel e) (hcarried : x.Carried e) :
    Machine.Run Receiver.arrive (Receiver.start (e := e)) x.frames Receiver.start x.handedOn := by
  rcases hcarried with ⟨hlo, hhi, hbody, hfirst, hkept⟩ | ⟨⟨a, hframes, hnone⟩, hcreate⟩
  · obtain ⟨a, rest, n, target, d, d₁, hframes, hlen, hid, hhandled, hcreate, hfeed, hrest,
      hproto⟩ := h.of_two_le hlo
    rw [hframes] at hhi hbody hfirst hkept
    rw [List.length_cons] at hhi
    have hstep := arrive_of_first (r := Receiver.start) rfl (hbody a (by simp)) hhandled
      (hfirst a (by simp)) hid hcreate hfeed
    have hone : ¬(1 : Int32) < 0 := by decide
    rw [Receiver.after, hid, if_neg hone] at hstep
    have hrun := hrest.run le_rfl (by omega) fun b hb => ⟨hbody b (by simp [hb]), hkept b hb⟩
    obtain ⟨b, bs, rfl⟩ := List.exists_cons_of_length_eq_add_one hlen
    rw [handedOn, hframes, hproto]
    exact Machine.Run.cons hstep hrun
  · obtain ⟨a', hframes', hid, hhandled, hmessageId⟩ := h.of_length_eq_one (by rw [hframes]; rfl)
    obtain rfl := List.head_eq_of_cons_eq (hframes.symm.trans hframes')
    have hstep := arrive_of_noBody (e := e) hnone hid hhandled
    rw [hmessageId, hcreate] at hstep
    rw [handedOn, hframes]
    exact Machine.Run.single hstep

/-- A proto whose frames are handled without a failure. -/
lemma of_faultless (h : x.Sent u mCompressLevel e) {r : Receiver e} {os : List Effect}
    (hrun : Machine.Run Receiver.arrive Receiver.start x.frames r os) (hfaultless : Faultless os) :
    KeptTogether x.frames ∨ (∃ a, x.frames = [a] ∧ a.frame.message.bodyLength = 0) ∧
      r = Receiver.start ∧ ∃ m, os = [.onMessage m (e.creators.doCreate x.messageId)] := by
  rcases Nat.lt_or_ge 1 x.frames.length with hlen | hlen
  · left
    obtain ⟨a, rest, n, target, d, d₁, hframes, hlen', hid, hhandled, hcreate, hfeed, hrest, -⟩ :=
      h.of_two_le hlen
    rw [hframes] at hrun ⊢
    cases hrun with
    | cons hstep hmore =>
      obtain ⟨hfaultless₁, hfaultless₂⟩ := hfaultless.of_append
      have hbody : 0 < a.frame.message.bodyLength := by
        by_contra hbody
        exact not_faultless_of_noBody hbody (by rw [hid]; decide) hstep hfaultless₁
      have hwild : a.residue ≠ .wild :=
        fun hwild => not_faultless_of_wild hbody hhandled hwild hstep hfaultless₁
      have hfirst :=
        arrive_of_first (r := Receiver.start) rfl hbody hhandled hwild hid hcreate hfeed
      have hone : ¬(1 : Int32) < 0 := by decide
      rw [Receiver.after, hid, if_neg hone, hstep] at hfirst
      obtain ⟨rfl, -⟩ := Prod.mk.inj (Option.some.inj hfirst)
      obtain ⟨hcount, hall⟩ := hrest.of_faultless le_rfl (by decide) hmore hfaultless₂
      exact ⟨by rw [List.length_cons]; omega, by rw [List.length_cons]; omega,
        List.forall_mem_cons.mpr ⟨hbody, fun b hb => (hall b hb).1⟩, by simpa using hwild,
        fun b hb => (hall b hb).2⟩
  · right
    obtain ⟨a, hframes, hid, hhandled, hmessageId⟩ :=
      h.of_length_eq_one (by have := h.length_pos; omega)
    rw [hframes, Machine.run_singleton_iff] at hrun
    have hnone : a.frame.message.bodyLength = 0 := by
      by_contra hne
      have hbody : ¬0 < a.frame.message.bodyLength := fun hbody =>
        OldPart.not_faultless_of_closed hbody hhandled (by rw [hid]; decide) (fun _ => rfl) hrun
          hfaultless
      obtain ⟨-, hresult⟩ := Receiver.arrive_eq_some.mp hrun
      have hneg : a.frame.message.bodyLength < 0 :=
        (Int32.lt_or_lt_of_ne hne).resolve_right hbody
      rw [if_neg hbody, Receiver.onHead, if_neg hne, if_pos hneg] at hresult
      obtain ⟨-, rfl⟩ := Prod.mk.inj hresult
      exact not_faultless_fault _ _ hfaultless
    rw [arrive_of_noBody hnone hid hhandled, hmessageId] at hrun
    obtain ⟨rfl, rfl⟩ := Prod.mk.inj (Option.some.inj hrun)
    exact ⟨⟨a, hframes, hnone⟩, rfl, a.frame.message, rfl⟩

end Parcel.Sent

/-! ## All protos -/

lemma faultless_handedOn (xs : List Parcel) : Faultless (xs.flatMap Parcel.handedOn) := by
  intro f hf
  obtain ⟨x, -, hx⟩ := List.mem_flatMap.mp hf
  obtain ⟨a, -, ha⟩ := List.mem_map.mp hx
  cases ha

/-- Protos that are sent one after another are each handed on once exactly when each takes at
least two frames, no more than can be counted, all with a body, and the locals of the handlers
are kept from one of its frames to the next; or, if it takes one, that has no body and the
object is as it was created. -/
theorem delivers_iff_carried (u : Setup) (mCompressLevel : Int8) (e : Endpoint) (xs : List Parcel)
    (h : ∀ x ∈ xs, x.Sent u mCompressLevel e) :
    Delivers e xs ↔ ∀ x ∈ xs, x.Carried e := by
  have hframes : (xs.flatMap fun x => x.frames.flatMap Arrival.events) =
      (xs.flatMap Parcel.frames).flatMap Arrival.events := List.flatMap_assoc.symm
  simp only [Delivers, hframes, ← Receiver.run_arrive_iff]
  clear hframes
  induction xs with
  | nil => exact ⟨by simp, fun _ => ⟨_, Machine.Run.nil _⟩⟩
  | cons x xs ih =>
    have hx := h x (by simp)
    have hxs := ih fun y hy => h y (by simp [hy])
    rw [List.forall_mem_cons, List.flatMap_cons, List.flatMap_cons]
    constructor
    · rintro ⟨r, hrun⟩
      obtain ⟨r₁, os₁, os₂, hfirst, hrest, hos⟩ := hrun.of_append
      have hfaultless : Faultless (os₁ ++ os₂) := hos ▸ faultless_handedOn (x :: xs)
      have hcarried : x.Carried e := by
        rcases hx.of_faultless hfirst hfaultless.of_append.1 with
          htogether | ⟨⟨a, hframe, hnone⟩, rfl, m, rfl⟩
        · exact Or.inl htogether
        · rw [Parcel.handedOn, hframe] at hos
          obtain ⟨-, hcreate⟩ := Effect.onMessage.inj (List.head_eq_of_cons_eq hos)
          exact Or.inr ⟨⟨a, hframe, hnone⟩, hcreate.symm⟩
      obtain ⟨rfl, rfl⟩ := hfirst.unique (hx.run hcarried)
      rw [← List.append_cancel_left hos] at hrest
      exact ⟨hcarried, hxs.mp ⟨r, hrest⟩⟩
    · rintro ⟨hcarried, hrest⟩
      obtain ⟨r, hrest⟩ := hxs.mpr hrest
      exact ⟨r, (hx.run hcarried).append hrest⟩

/-- An endpoint with buffers of one block that stores instead of compressing, and knows one
message, of a schema, under the id 1. -/
def Endpoint.stored (crypto : Crypto) (s : Schema) : Endpoint where
  setup := Setup.stored crypto
  creators := (ProtoCreators.empty.registe 1 (some (some ⟨s, s.zero⟩)) none).2
  turns := 2
  mEncryptKey := zeroKey

/-- The frame an `int32_t` takes: its body is full but for one byte. -/
def oneToFourFrame : Frame where
  message := OMessage.received { makeMessage
    ⟨1, SerializeMethod.compress ||| SerializeMethod.encrypt, 0⟩ 0 1
    ⟨⟨[0x8f, 0xc6, 0xe6, 0x7b, 0x6a, 0x23, 0x70, 0x5a, 0x65, 0xc3, 0xf3, 0xcd, 0xcb, 0x1b, 0xf1,
      0xec], 16⟩, 1, 0x51bc83fc, true⟩ with requestId := 7 }
  complete := by decide

/-- An `int32_t` that is sent, and its frame; `residue` is what the handler of the body
finds. -/
def oneToFourParcel (residue : Residue) : Parcel where
  messageId := 1
  requestId := 7
  pProto := ⟨Schema.fourBytes, oneToFour⟩
  frames := [⟨oneToFourFrame, false, residue⟩]

/-- A proto of a single frame is not handed on, whatever the handler finds: the frame is pushed
into a sink that nothing has made. -/
theorem not_delivers_oneToFour :
    (∀ residue, (oneToFourParcel residue).Sent (Setup.stored .ofOneToFour) 0
      (Endpoint.stored .ofOneToFour Schema.fourBytes)) ∧
    ∀ residue, ¬Delivers (Endpoint.stored .ofOneToFour Schema.fourBytes)
      [oneToFourParcel residue] := by
  have hsend : TSocket.sendProto (Setup.stored .ofOneToFour) 0 zeroKey (fun i => .ofNat i) 1 7
      ⟨Schema.fourBytes, oneToFour⟩ = .ok [oneToFourFrame.message] := rfl
  have hrun : deserialize (Setup.stored .ofOneToFour) zeroKey Schema.fourBytes Schema.fourBytes.zero
      2 [oneToFourFrame.message] = .returned true oneToFour := rfl
  refine ⟨fun residue => ⟨⟨fun i => .ofNat i, _, hsend, rfl⟩, by simp [oneToFourParcel],
    ⟨Schema.fourBytes, Schema.fourBytes.zero⟩, oneToFour, rfl, hrun, rfl⟩, fun residue => ?_⟩
  rintro ⟨r, hdelivers⟩
  rw [Machine.run_iff_exec] at hdelivers
  cases residue <;> cases hdelivers

/-- `"abcdef"`. -/
def abcdef : Schema.string.Val := [97, 98, 99, 100, 101, 102]

/-- What AES makes of the stream of that string, in two bodies, under a key of zeros, and the
checksums of the bodies. -/
def Crypto.ofAbcdef : Crypto where
  aes _ :=
    let plain₁ : AesBlock :=
      ⟨[0x78, 0x01, 0x01, 10, 0, 0xf5, 0xff, 6, 0, 0, 0, 97, 98, 99, 100, 101], rfl⟩
    let cipher₁ : AesBlock :=
      ⟨[0x17, 0x8b, 0x17, 0x0b, 0x61, 0x36, 0x94, 0x55, 0xb1, 0x9e, 0x39, 0x75, 0xd0, 0x5c, 0xdf,
        0xa9], rfl⟩
    let plain₂ : AesBlock := ⟨[102, 0x08, 0x5e, 0x02, 0x5c, 0, 0, 0, 0, 0, 0, 0, 0, 0, 0, 0], rfl⟩
    let cipher₂ : AesBlock :=
      ⟨[0x85, 0xb8, 0x95, 0x4a, 0xf4, 0x83, 0x97, 0xbb, 0xb5, 0x73, 0x83, 0x4c, 0xf2, 0x45, 0xad,
        0x31], rfl⟩
    (Equiv.swap plain₁ cipher₁).trans (Equiv.swap plain₂ cipher₂)
  cbcTail _ _ _ := List.Vector.replicate _ 0
  crc bytes := if bytes.length = 16 then 0x77097173 else 0x232d21f8

/-- The frames that string takes. -/
def abcdefFrame₁ : Frame where
  message := OMessage.received { makeMessage
    ⟨1, SerializeMethod.compress ||| SerializeMethod.encrypt, 0⟩ 0 1
    ⟨⟨[0x17, 0x8b, 0x17, 0x0b, 0x61, 0x36, 0x94, 0x55, 0xb1, 0x9e, 0x39, 0x75, 0xd0, 0x5c, 0xdf,
      0xa9], 16⟩, 0, 0x77097173, false⟩ with requestId := 7 }
  complete := by decide

@[inherit_doc abcdefFrame₁]
def abcdefFrame₂ : Frame where
  message := OMessage.received { makeMessage
    ⟨1, SerializeMethod.compress ||| SerializeMethod.encrypt, 0⟩ 1 2
    ⟨⟨[0x85, 0xb8, 0x95, 0x4a, 0xf4, 0x83, 0x97, 0xbb, 0xb5, 0x73, 0x83, 0x4c, 0xf2, 0x45, 0xad,
      0x31], 16⟩, 11, 0x232d21f8, true⟩ with requestId := 7 }
  complete := by decide

/-- A string of two frames, when the second handler finds what the first has left. -/
def abcdefParcel : Parcel where
  messageId := 1
  requestId := 7
  pProto := ⟨.string, abcdef⟩
  frames := [⟨abcdefFrame₁, false, .cleared⟩, ⟨abcdefFrame₂, false, .kept⟩]

lemma sent_abcdef :
    abcdefParcel.Sent (Setup.stored .ofAbcdef) 0 (Endpoint.stored .ofAbcdef .string) := by
  have hsend : TSocket.sendProto (Setup.stored .ofAbcdef) 0 zeroKey (fun i => .ofNat i) 1 7
      ⟨.string, abcdef⟩ = .ok [abcdefFrame₁.message, abcdefFrame₂.message] := rfl
  have hrun : deserialize (Setup.stored .ofAbcdef) zeroKey .string Schema.string.zero
      2 [abcdefFrame₁.message, abcdefFrame₂.message] = .returned true abcdef := rfl
  exact ⟨⟨fun i => .ofNat i, _, hsend, rfl⟩, by simp [abcdefParcel], ⟨.string, Schema.string.zero⟩,
    abcdef, rfl, hrun, rfl⟩

/-- Two such strings, one after the other. -/
theorem delivers_abcdef :
    Delivers (Endpoint.stored .ofAbcdef .string) [abcdefParcel, abcdefParcel] := by
  have htogether : KeptTogether abcdefParcel.frames :=
    ⟨by decide, by decide, by decide, by decide, by decide⟩
  exact (delivers_iff_carried (Setup.stored .ofAbcdef) 0 (Endpoint.stored .ofAbcdef .string)
    [abcdefParcel, abcdefParcel] (by simp [sent_abcdef])).mpr
    (by simp [Parcel.Carried, htogether])

end OldPart
