import OldPart.Serializer.Acceptance
import OldPart.Serializer.EncryptRoundTrip
import OldPart.Serializer.InflateCorrect
import OldPart.Socket.Reassembly

/-!
# What a peer can make the receiving side do

Two things should not depend on the frames a peer sends: `DoRead` should not use a proto or a
sink that is not there, and it should not hand on an object whose frames `Deserialize` has not
accepted.  Both fail, and in each case exactly for certain frames.
-/

namespace OldPart

variable (e : Endpoint)

/-- The frames so far have been handled without a failure. -/
def Alive (as : List Arrival) : Prop :=
  ∃ r os, Machine.Run (Receiver.arrive (e := e)) Receiver.start as r os ∧ r.reading = .head

variable {e}

/-- After frames that were handled without a failure, the next one is handled too, on locals
that hold the open message. -/
lemma Alive.next {as : List Arrival} (h : Alive e as) (a : Arrival) :
    ∃ r os result, Machine.Run Receiver.arrive Receiver.start as r os ∧
      r.arrive a = some result ∧ Holds e (openFrames as) r.locals := by
  obtain ⟨r, os, hrun, hhead⟩ := h
  exact ⟨r, os, _, hrun, Receiver.arrive_eq_some.mpr ⟨hhead, rfl⟩,
    Receiver.holds_of_run hrun hhead⟩

lemma Alive.of_step {as : List Arrival} {r : Receiver e} {os : List Effect} {a : Arrival}
    {result : Receiver e × List Effect}
    (hrun : Machine.Run Receiver.arrive Receiver.start as r os) (h : r.arrive a = some result) :
    Alive e as ∧ Holds e (openFrames as) r.locals := by
  obtain ⟨hhead, -⟩ := Receiver.arrive_eq_some.mp h
  exact ⟨⟨r, os, hrun, hhead⟩, Receiver.holds_of_run hrun hhead⟩

/-! ## Protos and sinks that are not there -/

section Misuse

variable (e)

/-- No handler uses a null proto, pushes into a null sink or through overwritten locals, or pushes
into a `Deserialize` that has returned. -/
def NeverMisuses (as : List Arrival) : Prop :=
  Machine.Every (Receiver.arrive (e := e)) Receiver.start as fun _ _ os =>
    ∀ f, .fault f ∈ os → ¬f.Misuse

/-- Every frame that is put together with others finds locals that are not overwritten, and begins
a message whose id has a creator that makes an object, or continues one of whose frames all have
passed so far; for the second the locals must have been kept. -/
def AlwaysContinues (as : List Arrival) : Prop :=
  ∀ pre a post, as = pre ++ a :: post → Alive e pre → a.Reassembled →
    a.residue ≠ .wild ∧
      ∃ target d, Continues e (a.behind (openFrames pre)) a.frame.message target d

/-- Whatever frames a peer sends, `DoRead` uses protos and sinks that are not there exactly
when the locals of a frame are overwritten, or it neither begins a message for which there is an
object nor continues one that is open. -/
theorem neverMisuses_iff_alwaysContinues (as : List Arrival) :
    NeverMisuses e as ↔ AlwaysContinues e as := by
  constructor
  · rintro h pre a post rfl halive hreassembled
    obtain ⟨r, os, result, hrun, hstep, hholds⟩ := halive.next a
    have hkept : a.residue ≠ .wild := by
      intro hwild
      refine h pre a post rfl r os _ _ hrun hstep .wildLocals ?_ (Or.inr (Or.inr (Or.inr rfl)))
      rw [Receiver.arrive_of_wild hreassembled hwild hstep]
      exact List.mem_singleton.mpr rfl
    refine ⟨hkept, ?_⟩
    by_contra hnone
    cases Receiver.meets_of_arrive hholds ⟨hreassembled, hkept⟩ hstep with
    | misuse hmisuse _ => exact h pre a post rfl r os _ _ hrun hstep _ (by simp) hmisuse
    | fails hcontinues _ => exact hnone ⟨_, _, hcontinues⟩
    | takes hcontinues _ _ => exact hnone ⟨_, _, hcontinues⟩
  · rintro h pre a post rfl r os r' os' hrun hstep f hf hmisuse
    obtain ⟨halive, hholds⟩ := Alive.of_step hrun hstep
    by_cases hreassembled : a.Reassembled
    · obtain ⟨hkept, target, d, hcontinues⟩ := h pre a post rfl halive hreassembled
      cases Receiver.meets_of_arrive hholds ⟨hreassembled, hkept⟩ hstep with
      | misuse _ hnone => exact hnone target d hcontinues
      | fails _ _ =>
        obtain rfl := by simpa using hf
        simp [SocketFault.Misuse] at hmisuse
      | takes _ _ _ => split at hf <;> simp at hf
    · have hmeets : ¬a.Meets := fun h => hreassembled h.1
      exact (Receiver.arrive_of_not_meets hmeets hstep).2.2.2 hreassembled f hf hmisuse

end Misuse

/-- A frame around a message with a body. -/
def plainFrame (messageSequenceId : Int32) (body : List UInt8) (h : body.length < 2 ^ 31) :
    Frame where
  message := plainMessage messageSequenceId body
  complete := (Int32.toNatClampNeg_ofNat_of_lt h).symm

/-- An endpoint that knows one message, an `int32_t` under the id 1. -/
def knowsFourBytes : Endpoint where
  setup := ⟨(Setup.plain 16 sixteen_lt).env, Crypto.ofZeros, Zlib.unused⟩
  creators := (ProtoCreators.empty.registe 1 (some (some ⟨Schema.fourBytes, Schema.fourBytes.zero⟩))
    none).2
  turns := 0
  mEncryptKey := zeroKey

/-- One frame that is the last of its message. -/
theorem not_neverMisuses_single_frame :
    0 < (plainFrame (-1) [1, 2, 3, 4] (by decide)).message.bodyLength ∧
      ¬NeverMisuses knowsFourBytes [⟨plainFrame (-1) [1, 2, 3, 4] (by decide), false, .kept⟩] := by
  refine ⟨by decide, fun h => ?_⟩
  exact h [] _ [] rfl _ [] _ _ (Machine.Run.nil _) rfl .nullSink (List.mem_singleton.mpr rfl)
    (Or.inl rfl)

/-! ## Objects that were rejected -/

section Dispatch

variable (e)

/-- `Deserialize` of the frames `fs` accepts them, and makes `pProto` of the object created
for the first of them. -/
def Accepted (fs : List OMessage) (pProto : Option Proto) : Prop :=
  ∃ opener rest target v, fs = opener :: rest ∧
    e.creators.doCreate opener.messageId = some target ∧
    deserialize e.setup e.mEncryptKey target.schema target.obj e.turns fs = .returned true v ∧
    pProto = some ⟨target.schema, v⟩

/-- An object is handed on for a body only when `Deserialize` has accepted the frames of its
message, and it is the one they encode. -/
def DispatchesAccepted (as : List Arrival) : Prop :=
  Machine.Every (Receiver.arrive (e := e)) Receiver.start as fun pre a os =>
    0 < a.frame.message.bodyLength → ∀ m pProto, .onMessage m pProto ∈ os →
      m = a.frame.message ∧ Accepted e (upTo (openFrames pre) a.frame.message) pProto

/-- A last frame that comes to a `Deserialize` which has accepted the frames before it passes
its checksum test. -/
def LastFramesPass (as : List Arrival) : Prop :=
  ∀ pre a post, as = pre ++ a :: post → Alive e pre → a.Meets →
    a.frame.message.messageSequenceId < 0 →
    ∀ target d, Continues e (a.behind (openFrames pre)) a.frame.message target d →
      PassesChecksum e.setup e.mEncryptKey d.taken a.frame.message

variable {e}

lemma ReadsInto.unique {fs : List OMessage} {target target' : Proto} {fed fed' : Fed e.setup.zlib}
    (h : ReadsInto e fs target fed) (h' : ReadsInto e fs target' fed') :
    target = target' ∧ fed = fed' := by
  obtain ⟨opener, rest, rfl, hcreate, hfeed⟩ := h
  obtain ⟨_, _, heq, hcreate', hfeed'⟩ := h'
  obtain ⟨rfl, rfl⟩ := List.cons.inj heq
  obtain rfl := Option.some.inj (hcreate.symm.trans hcreate')
  exact ⟨rfl, hfeed.symm.trans hfeed'⟩

lemma Continues.unique {fs : List OMessage} {m : OMessage} {target target' : Proto}
    {d d' : Deserializer e.setup.zlib} (h : Continues e fs m target d)
    (h' : Continues e fs m target' d') : target = target' ∧ d = d' := by
  unfold Continues at h h'
  by_cases hfirst : m.messageSequenceId = 1
  · rw [if_pos hfirst] at h h'
    exact ⟨Option.some.inj (h.1.symm.trans h'.1), h.2.trans h'.2.symm⟩
  · rw [if_neg hfirst] at h h'
    exact ⟨(h.unique h').1, Fed.more.inj (h.unique h').2⟩

/-- Frames `Deserialize` goes through are accepted, and frames it rejects are not. -/
lemma accepted_of_reads {fs : List OMessage} {target : Proto} {d : Deserializer e.setup.zlib}
    (h : ReadsInto e fs target (.more d)) : Accepted e fs (some (target.filled d)) := by
  obtain ⟨opener, rest, rfl, hcreate, hfeed⟩ := h
  refine ⟨opener, rest, target, _, rfl, hcreate, ?_, rfl⟩
  rw [deserialize, hfeed]

lemma not_accepted_of_reads {fs : List OMessage} {target : Proto} {d : Deserializer e.setup.zlib}
    (h : ReadsInto e fs target (.rejected d)) (pProto : Option Proto) : ¬Accepted e fs pProto := by
  obtain ⟨opener, rest, rfl, hcreate, hfeed⟩ := h
  rintro ⟨_, _, target', v, heq, hcreate', hreturns, -⟩
  obtain ⟨rfl, rfl⟩ := List.cons.inj heq
  obtain rfl := Option.some.inj (hcreate.symm.trans hcreate')
  rw [deserialize, hfeed] at hreturns
  cases hreturns

/-- Whatever frames a peer sends, only objects whose frames were accepted are handed on
exactly when no last frame fails its checksum test. -/
theorem dispatchesAccepted_iff_lastFramesPass (e : Endpoint) (as : List Arrival) :
    DispatchesAccepted e as ↔ LastFramesPass e as := by
  constructor
  · rintro h pre a post rfl halive hmeets hlast target d hcontinues
    by_contra hfails
    have hrejected : d.feed e.setup e.mEncryptKey target.schema target.obj e.turns a.frame.message =
        .rejected d := Deserializer.feed_eq_rejected_iff.mpr ⟨hfails, rfl⟩
    obtain ⟨r, os, result, hrun, hstep, hholds⟩ := halive.next a
    cases Receiver.meets_of_arrive hholds hmeets hstep with
    | misuse _ hnone => exact hnone target d hcontinues
    | fails hcontinues' hfails =>
      obtain ⟨rfl, rfl⟩ := hcontinues.unique hcontinues'
      cases hrejected.symm.trans hfails
    | takes _ _ _ =>
      rw [if_pos hlast] at hstep
      obtain ⟨-, haccepted⟩ := h pre a post rfl r os _ _ hrun hstep hmeets.1.1 _ _
        (List.mem_singleton.mpr rfl)
      have hreads := hcontinues.reads
      rw [hrejected, hcontinues.upTo_behind] at hreads
      exact not_accepted_of_reads hreads _ haccepted
  · rintro h pre a post rfl r os r' os' hrun hstep hpos m pProto hmem
    obtain ⟨halive, hholds⟩ := Alive.of_step hrun hstep
    by_cases hmeets : a.Meets
    · cases Receiver.meets_of_arrive hholds hmeets hstep with
      | misuse _ _ => simp at hmem
      | fails _ _ => simp at hmem
      | takes hcontinues hfeed _ =>
        split at hmem
        · rename_i hlast
          obtain ⟨rfl, rfl⟩ : m = a.frame.message ∧ pProto = _ := by simpa using hmem
          have hpasses := h pre a post rfl halive hmeets hlast _ _ hcontinues
          have hmore := hfeed.resolve_right fun hrejected =>
            (Deserializer.feed_eq_rejected_iff.mp hrejected).1 hpasses
          have hreads := hcontinues.reads
          rw [hmore, hcontinues.upTo_behind] at hreads
          exact ⟨rfl, accepted_of_reads hreads⟩
        · simp at hmem
    · exact absurd hmem ((Receiver.arrive_of_not_meets hmeets hstep).2.2.1 hpos m pProto)

end Dispatch

/-- Four zeros, padded and encrypted under a key of zeros, as the second and last frame of a
message; the checksum is not theirs. -/
def corruptedFrame : Frame where
  message := makeMessage ⟨1, SerializeMethod.encrypt, 0⟩ 2 (-2)
    ⟨⟨[0x66, 0xe9, 0x4b, 0xd4, 0xef, 0x8a, 0x2c, 0x3b, 0x88, 0x4c, 0xfa, 0x59, 0xca, 0x34, 0x2b,
      0x2e], 16⟩, 12, 0, false⟩
  complete := by decide

/-- A message with a corrupted last frame: the handler gets the object with the one byte that
the first frame brought. -/
theorem not_dispatchesAccepted_corrupted :
    ¬DispatchesAccepted knowsFourBytes [⟨plainFrame 1 [1] (by decide), false, .kept⟩,
      ⟨corruptedFrame, false, .kept⟩] := by
  intro h
  have hfirst : Machine.Run (Receiver.arrive (e := knowsFourBytes)) Receiver.start
      [⟨plainFrame 1 [1] (by decide), false, .kept⟩] _ _ := Machine.run_iff_exec.mpr rfl
  obtain ⟨-, opener, rest, target, v, hframes, hcreate, hreturns, -⟩ :=
    h [⟨plainFrame 1 [1] (by decide), false, .kept⟩] ⟨corruptedFrame, false, .kept⟩ [] rfl
      _ _ _ _ hfirst rfl (by decide) _ _ (List.mem_singleton.mpr rfl)
  have hmessage : upTo (openFrames [⟨plainFrame 1 [1] (by decide), false, .kept⟩])
      corruptedFrame.message = [plainMessage 1 [1], corruptedFrame.message] := rfl
  rw [hmessage] at hframes hreturns
  obtain ⟨rfl, -⟩ := List.cons.inj hframes
  obtain rfl : (⟨Schema.fourBytes, Schema.fourBytes.zero⟩ : Proto) = target :=
    Option.some.inj (Eq.trans rfl hcreate)
  have hrejected : ∃ w, deserialize knowsFourBytes.setup knowsFourBytes.mEncryptKey
      Schema.fourBytes Schema.fourBytes.zero knowsFourBytes.turns
      [plainMessage 1 [1], corruptedFrame.message] = .returned false w := ⟨_, rfl⟩
  obtain ⟨w, hrejected⟩ := hrejected
  cases hreturns.symm.trans hrejected

end OldPart
