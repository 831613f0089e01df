import OldPart.Socket.TSocket

/-!
# Frames that arrive

The receiving side, frame by frame: what the handlers make of the frames that come in depends
on the message that is open, which is a matter of the frames alone as long as no handler has
failed.
-/

namespace OldPart

/-- A frame as it comes over the wire: its body has the length its header says. -/
structure Frame where
  message : OMessage
  complete : message.mBody.length = message.bodyLength.toNatClampNeg

/-- A frame that arrives, with what `OnMessage(pMessage)` returns for it and what the handler
of its body finds at the place of the locals. -/
structure Arrival where
  frame : Frame
  handled : Bool
  residue : Residue

namespace Arrival

/-- The completions a frame brings. -/
def events (a : Arrival) : List Receiver.Event :=
  .head .success a.frame.message a.handled ::
    if 0 < a.frame.message.bodyLength then
      [.body .success a.frame.message.mBody a.residue a.handled]
    else []

/-- The frame has a body and is put together with others. -/
def Reassembled (a : Arrival) : Prop := 0 < a.frame.message.bodyLength ∧ a.handled = false

instance (a : Arrival) : Decidable a.Reassembled := inferInstanceAs (Decidable (_ ∧ _))

end Arrival

namespace Receiver

variable {e : Endpoint}

/-- The receiving side of a socket when a frame arrives. -/
def arrive : Machine (Receiver e) Arrival Effect
  | r, a =>
      match r.reading with
      | .head =>
          some (if 0 < a.frame.message.bodyLength then
              r.onBody a.frame.message a.residue a.handled
            else r.onHead a.frame.message a.handled)
      | _ => none

lemma arrive_eq_some {r : Receiver e} {a : Arrival} {result : Receiver e × List Effect} :
    r.arrive a = some result ↔ r.reading = .head ∧
      (if 0 < a.frame.message.bodyLength then r.onBody a.frame.message a.residue a.handled
        else r.onHead a.frame.message a.handled) = result := by
  cases hr : r.reading <;> simp [arrive, hr]

/-- The arrival of a frame is the run of its completions. -/
lemma arrive_iff_run {r r' : Receiver e} {a : Arrival} {os : List Effect} :
    r.arrive a = some (r', os) ↔ Machine.Run step r a.events r' os := by
  have hcomplete := a.frame.complete
  rw [Machine.run_iff_exec, Arrival.events]
  by_cases hpos : 0 < a.frame.message.bodyLength
  · have hne : a.frame.message.bodyLength ≠ 0 := fun h => by simp [h] at hpos
    have hle : ¬a.frame.message.bodyLength < 0 := Int32.not_lt.mpr (Int32.le_of_lt hpos)
    cases hr : r.reading <;>
      simp [arrive, hr, hpos, Machine.exec, step, onHead, onBody, hne, hle, hcomplete]
  · have hbody : { a.frame.message with mBody := [] } = a.frame.message := by
      have hnil : a.frame.message.mBody = [] := by
        rw [← List.length_eq_zero_iff, hcomplete, Int32.toNatClampNeg_eq_zero_iff]
        exact Int32.not_lt.mp hpos
      rw [← hnil]
    cases hr : r.reading <;> simp [arrive, hr, hpos, Machine.exec, step, hbody]

/-- The arrivals of frames are the run of their completions. -/
lemma run_arrive_iff {r r' : Receiver e} {as : List Arrival} {os : List Effect} :
    Machine.Run arrive r as r' os ↔ Machine.Run step r (as.flatMap Arrival.events) r' os := by
  constructor
  · intro h
    induction h with
    | nil r => exact Machine.Run.nil r
    | cons harrive _ ih => exact (arrive_iff_run.mp harrive).append ih
  · intro h
    induction as generalizing r os with
    | nil => exact Machine.run_nil_iff.mpr (Machine.run_nil_iff.mp h)
    | cons a as ih =>
      obtain ⟨r₁, os₁, os₂, hfirst, hrest, rfl⟩ := h.of_append
      exact Machine.Run.cons (arrive_iff_run.mpr hfirst) (ih hrest)

end Receiver

/-! ## The message that is open -/

/-- The frames of the message that is open, when one more arrives. -/
def nextOpen (fs : List OMessage) (a : Arrival) : List OMessage :=
  if a.Reassembled then
    let fs := if a.frame.message.messageSequenceId = 1 then [] else fs
    if a.frame.message.messageSequenceId < 0 then [] else fs ++ [a.frame.message]
  else fs

/-- The frames of the message that is open after some arrivals. -/
def openFrames (as : List Arrival) : List OMessage := as.foldl nextOpen []

@[simp] lemma openFrames_append_singleton (as : List Arrival) (a : Arrival) :
    openFrames (as ++ [a]) = nextOpen (openFrames as) a := by
  simp [openFrames]

section OpenMessage

variable (e : Endpoint)

/-- `Deserialize` of the frames `fs` so far, into the object made for the first of them. -/
def ReadsInto (fs : List OMessage) (target : Proto) (fed : Fed e.setup.zlib) : Prop :=
  ∃ opener rest, fs = opener :: rest ∧ e.creators.doCreate opener.messageId = some target ∧
    (Deserializer.start e.setup.zlib).feedAll e.setup e.mEncryptKey target.schema target.obj
      e.turns fs = fed

/-- What the locals hold while the frames `fs` are those of the message that is open. -/
inductive Holds : List OMessage → Locals e.setup.zlib → Prop
  | nothing : Holds [] (.null _)
  | running {fs : List OMessage} {target : Proto} {d : Deserializer e.setup.zlib}
      (body : Option Proto) : ReadsInto e fs target (.more d) →
      Holds fs ⟨body, some (.running target d)⟩
  | rejected {fs : List OMessage} {target : Proto} {d : Deserializer e.setup.zlib}
      (body : Option Proto) : ReadsInto e fs target (.rejected d) → Holds fs ⟨body, some .finished⟩

/-- The `Deserialize` a frame belongs to: of a new object for the first frame of a message,
and for another the one that has taken the frames of the message so far. -/
def Continues (fs : List OMessage) (m : OMessage) (target : Proto)
    (d : Deserializer e.setup.zlib) : Prop :=
  if m.messageSequenceId = 1 then
    e.creators.doCreate m.messageId = some target ∧ d = .start e.setup.zlib
  else ReadsInto e fs target (.more d)

variable {e}

/-- The message a frame belongs to, up to it. -/
def upTo (fs : List OMessage) (m : OMessage) : List OMessage :=
  (if m.messageSequenceId = 1 then [] else fs) ++ [m]

/-- How a push can find no `Deserialize` to go on with; overwritten locals are no sink either. -/
def SocketFault.Misuse (f : SocketFault) : Prop :=
  f = .nullSink ∨ f = .nullProto ∨ f = .finishedSink ∨ f = .wildLocals

lemma Locals.misuse_of_enter {zlib : Zlib} {l : Locals zlib} {f : SocketFault}
    (h : l.enter = .error f) : f.Misuse := by
  unfold enter at h
  split at h
  · cases h
    exact Or.inl rfl
  · split at h
    · cases h
      exact Or.inr (Or.inl rfl)
    · cases h
  · cases h
  · cases h
    exact Or.inr (Or.inr (Or.inl rfl))

/-- A push goes to the `Deserialize` the frame belongs to. -/
lemma Holds.enter_iff {fs : List OMessage} {l : Locals e.setup.zlib} (h : Holds e fs l)
    {m : OMessage} {target : Proto} {d : Deserializer e.setup.zlib} :
    (l.opened e m).enter = .ok (target, d) ↔ Continues e fs m target d := by
  unfold Locals.opened Continues
  split
  · cases hcreate : e.creators.doCreate m.messageId with
    | none => simp [Locals.enter]
    | some p => simp [Locals.enter, eq_comm]
  · cases h with
    | nothing => simp [Locals.enter, Locals.null, ReadsInto]
    | running body hreads =>
      obtain ⟨opener, rest, rfl, hcreate, hfeed⟩ := hreads
      simp only [Locals.enter, Except.ok.injEq, Prod.mk.injEq]
      constructor
      · rintro ⟨rfl, rfl⟩
        exact ⟨opener, rest, rfl, hcreate, hfeed⟩
      · rintro ⟨_, _, heq, hcreate', hfeed'⟩
        obtain ⟨rfl, rfl⟩ := List.cons.inj heq
        obtain rfl := Option.some.inj (hcreate.symm.trans hcreate')
        exact ⟨rfl, Fed.more.inj (hfeed.symm.trans hfeed')⟩
    | rejected body hreads =>
      obtain ⟨opener, rest, rfl, hcreate, hfeed⟩ := hreads
      simp only [Locals.enter, reduceCtorEq, false_iff]
      rintro ⟨_, _, heq, hcreate', hfeed'⟩
      obtain ⟨rfl, rfl⟩ := List.cons.inj heq
      obtain rfl := Option.some.inj (hcreate.symm.trans hcreate')
      cases hfeed.symm.trans hfeed'

/-- The frame goes to the `Deserialize` it belongs to as the frames before it did. -/
lemma Continues.reads {fs : List OMessage} {m : OMessage} {target : Proto}
    {d : Deserializer e.setup.zlib} (h : Continues e fs m target d) :
    ReadsInto e (upTo fs m) target
      (d.feed e.setup e.mEncryptKey target.schema target.obj e.turns m) := by
  unfold Continues at h
  unfold upTo
  split at h
  · rename_i hfirst
    obtain ⟨hcreate, rfl⟩ := h
    rw [if_pos hfirst]
    refine ⟨m, [], rfl, hcreate, ?_⟩
    rw [← List.nil_append [m]]
    exact Deserializer.feedAll_append_singleton rfl m
  · rename_i hlater
    obtain ⟨opener, rest, rfl, hcreate, hfeed⟩ := h
    rw [if_neg hlater]
    exact ⟨opener, rest ++ [m], rfl, hcreate, Deserializer.feedAll_append_singleton hfeed m⟩

/-! ## One frame -/

/-- What the handler can make of a frame behind the frames `fs` of an open message. -/
inductive Reassembles (fs : List OMessage) (m : OMessage) :
    Except SocketFault (Locals e.setup.zlib × List Effect) → Prop
  | misuse {f : SocketFault} : f.Misuse → (∀ target d, ¬Continues e fs m target d) →
      Reassembles fs m (.error f)
  | fails {target : Proto} {d d' : Deserializer e.setup.zlib} {f : Fault} :
      Continues e fs m target d →
      d.feed e.setup e.mEncryptKey target.schema target.obj e.turns m = .fault d' f →
      Reassembles fs m (.error (.deserialize f))
  | takes {target : Proto} {d d' : Deserializer e.setup.zlib} {l : Locals e.setup.zlib} :
      Continues e fs m target d →
      (d.feed e.setup e.mEncryptKey target.schema target.obj e.turns m = .more d' ∨
        d.feed e.setup e.mEncryptKey target.schema target.obj e.turns m = .rejected d') →
      Holds e (if m.messageSequenceId < 0 then [] else upTo fs m) l →
      Reassembles fs m (.ok (l,
        if m.messageSequenceId < 0 then [.onMessage m (some (target.filled d'))] else []))

/-- The end of the handler, when `Deserialize` has come back. -/
lemma Reassembles.of_taken {fs : List OMessage} {m : OMessage} {target : Proto}
    {d d' : Deserializer e.setup.zlib} {sink : Option (MessageSink e.setup.zlib)}
    (hcontinues : Continues e fs m target d)
    (hfeed : d.feed e.setup e.mEncryptKey target.schema target.obj e.turns m = .more d' ∨
      d.feed e.setup e.mEncryptKey target.schema target.obj e.turns m = .rejected d')
    (hholds : Holds e (upTo fs m) ⟨some (target.filled d'), sink⟩) :
    Reassembles fs m (if m.messageSequenceId < 0 then
      .ok (.null _, [.onMessage m (some (target.filled d'))])
      else .ok (⟨some (target.filled d'), sink⟩, [])) := by
  have htakes := fun l => Reassembles.takes (l := l) hcontinues hfeed
  split
  · rename_i hlast
    simp only [if_pos hlast] at htakes
    exact htakes _ .nothing
  · rename_i hmore
    simp only [if_neg hmore] at htakes
    exact htakes _ hholds

lemma Holds.reassembles {fs : List OMessage} {l : Locals e.setup.zlib} (h : Holds e fs l)
    (m : OMessage) : Reassembles fs m (l.reassemble e m) := by
  unfold Locals.reassemble Locals.push
  cases henter : (l.opened e m).enter with
  | error f =>
    rw [error_bind, error_bind]
    refine .misuse (Locals.misuse_of_enter henter) fun target d hcontinues => ?_
    rw [h.enter_iff.mpr hcontinues] at henter
    cases henter
  | ok entered =>
    obtain ⟨target, d⟩ := entered
    have hcontinues := h.enter_iff.mp henter
    have hreads := hcontinues.reads
    rw [ok_bind]
    dsimp only
    cases hfeed : d.feed e.setup e.mEncryptKey target.schema target.obj e.turns m with
    | more d' =>
      rw [hfeed] at hreads
      exact .of_taken hcontinues (Or.inl hfeed) (.running _ hreads)
    | rejected d' =>
      rw [hfeed] at hreads
      exact .of_taken hcontinues (Or.inr hfeed) (.rejected _ hreads)
    | fault d' f => exact .fails hcontinues hfeed

/-! ## Many frames -/

/-- The frames the handler of a body goes on from: those of the open message, when the locals
are still what the handler before left. -/
def Arrival.behind (a : Arrival) (fs : List OMessage) : List OMessage :=
  if a.residue = .kept then fs else []

/-- The frame meets the reassembly, and locals there. -/
def Arrival.Meets (a : Arrival) : Prop := a.Reassembled ∧ a.residue ≠ .wild

lemma Holds.found {fs : List OMessage} {r : Receiver e} (h : Holds e fs r.locals) (a : Arrival) :
    Holds e (a.behind fs) (r.found a.residue) := by
  unfold Arrival.behind Receiver.found
  split
  · exact h
  · exact .nothing

/-- A frame that continues what the handler found continues the open message. -/
lemma Continues.upTo_behind {fs : List OMessage} {a : Arrival} {m : OMessage} {target : Proto}
    {d : Deserializer e.setup.zlib} (h : Continues e (a.behind fs) m target d) :
    upTo (a.behind fs) m = upTo fs m := by
  unfold upTo Arrival.behind at *
  split
  · rfl
  · rename_i hlater
    unfold Continues at h
    rw [if_neg hlater] at h
    split at h
    · rename_i hkept
      rw [if_pos hkept]
    · obtain ⟨_, _, hnil, -⟩ := h
      cases hnil

lemma nextOpen_of_reassembled {fs : List OMessage} {a : Arrival} (h : a.Reassembled) :
    nextOpen fs a =
      if a.frame.message.messageSequenceId < 0 then [] else upTo fs a.frame.message := by
  rw [nextOpen, if_pos h]
  rfl

namespace Receiver

/-- What a frame that meets the reassembly comes to. -/
inductive Meets (fs : List OMessage) (a : Arrival) (r : Receiver e) :
    Receiver e × List Effect → Prop
  | misuse {f : SocketFault} : f.Misuse →
      (∀ target d, ¬Continues e (a.behind fs) a.frame.message target d) →
      Meets fs a r (⟨.none, r.locals⟩, [.fault f])
  | fails {target : Proto} {d d' : Deserializer e.setup.zlib} {f : Fault} :
      Continues e (a.behind fs) a.frame.message target d →
      d.feed e.setup e.mEncryptKey target.schema target.obj e.turns a.frame.message
        = .fault d' f →
      Meets fs a r (⟨.none, r.locals⟩, [.fault (.deserialize f)])
  | takes {target : Proto} {d d' : Deserializer e.setup.zlib} {l : Locals e.setup.zlib} :
      Continues e (a.behind fs) a.frame.message target d →
      (d.feed e.setup e.mEncryptKey target.schema target.obj e.turns a.frame.message = .more d' ∨
        d.feed e.setup e.mEncryptKey target.schema target.obj e.turns a.frame.message
          = .rejected d') →
      Holds e (nextOpen fs a) l →
      Meets fs a r (⟨.head, l⟩, if a.frame.message.messageSequenceId < 0 then
        [.onMessage a.frame.message (some (target.filled d'))] else [])

lemma meets_of_arrive {fs : List OMessage} {r : Receiver e} {a : Arrival}
    {result : Receiver e × List Effect} (hholds : Holds e fs r.locals) (hmeets : a.Meets)
    (h : r.arrive a = some result) : Meets fs a r result := by
  have hreassembles := (hholds.found a).reassembles a.frame.message
  obtain ⟨hreassembled, hwild⟩ := hmeets
  obtain ⟨hpos, hhandled⟩ := hreassembled
  obtain ⟨-, hresult⟩ := arrive_eq_some.mp h
  simp only [if_pos hpos, hhandled, onBody, Bool.false_eq_true, if_false, hwild, fail] at hresult
  have hfound : (⟨.head, r.locals⟩ : Receiver e).found a.residue = r.found a.residue := rfl
  rw [hfound] at hresult
  generalize (r.found a.residue).reassemble e a.frame.message = outcome
    at hresult hreassembles
  cases hreassembles with
  | misuse hmisuse hnone =>
    subst hresult
    exact .misuse hmisuse hnone
  | fails hcontinues hfeed =>
    subst hresult
    exact .fails hcontinues hfeed
  | takes hcontinues hfeed hnext =>
    subst hresult
    rw [hcontinues.upTo_behind] at hnext
    exact .takes hcontinues hfeed (by rwa [nextOpen_of_reassembled ⟨hpos, hhandled⟩])

/-- The handler of a header does not touch the locals. -/
lemma onHead_spec (r : Receiver e) (m : OMessage) (handled : Bool) :
    (r.onHead m handled).1.locals = r.locals ∧
      ∀ f, .fault f ∈ (r.onHead m handled).2 → ¬f.Misuse := by
  unfold onHead
  split
  · dsimp only
    split
    · simp [fail, SocketFault.Misuse]
    · split <;> simp
  · split <;> simp [fail, SocketFault.Misuse]

/-- A frame that does not meet it leaves the locals alone, and hands on an object only when it
has no body. -/
lemma arrive_of_not_meets {r r' : Receiver e} {a : Arrival} {os : List Effect}
    (hmeets : ¬a.Meets) (h : r.arrive a = some (r', os)) :
    r'.locals = r.locals ∧ (r'.reading = .head → ¬a.Reassembled) ∧
      (0 < a.frame.message.bodyLength → ∀ m p, .onMessage m p ∉ os) ∧
      (¬a.Reassembled → ∀ f, .fault f ∈ os → ¬f.Misuse) := by
  obtain ⟨-, hresult⟩ := arrive_eq_some.mp h
  by_cases hpos : 0 < a.frame.message.bodyLength
  · rw [if_pos hpos] at hresult
    unfold onBody at hresult
    cases hhandled : a.handled with
    | true =>
      simp only [hhandled, if_true, Prod.mk.injEq] at hresult
      obtain ⟨rfl, rfl⟩ := hresult
      simp [Arrival.Reassembled, hhandled]
    | false =>
      have hwild : a.residue = .wild := by
        by_contra hwild
        exact hmeets ⟨⟨hpos, hhandled⟩, hwild⟩
      simp only [hhandled, hwild, fail, if_true, Bool.false_eq_true, if_false,
        Prod.mk.injEq] at hresult
      obtain ⟨rfl, rfl⟩ := hresult
      simp [Arrival.Reassembled, hpos, hhandled]
  · rw [if_neg hpos] at hresult
    obtain ⟨hlocals, hfault⟩ := onHead_spec r a.frame.message a.handled
    rw [hresult] at hlocals hfault
    exact ⟨hlocals, fun _ h => hpos h.1, fun h => absurd h hpos, fun _ => hfault⟩

/-- A push through overwritten locals. -/
lemma arrive_of_wild {r : Receiver e} {a : Arrival} {result : Receiver e × List Effect}
    (hreassembled : a.Reassembled) (hwild : a.residue = .wild) (h : r.arrive a = some result) :
    result.2 = [.fault .wildLocals] := by
  obtain ⟨hpos, hhandled⟩ := hreassembled
  obtain ⟨-, rfl⟩ := arrive_eq_some.mp h
  simp only [if_pos hpos, onBody, hhandled, hwild, fail, if_true, Bool.false_eq_true, if_false]

/-- As long as no handler fails, the locals hold the message that is open. -/
lemma holds_of_run {r : Receiver e} {as : List Arrival} {os : List Effect}
    (hrun : Machine.Run arrive start as r os) (hhead : r.reading = .head) :
    Holds e (openFrames as) r.locals := by
  refine hrun.invariant (I := fun as r _ => r.reading = .head → Holds e (openFrames as) r.locals)
    (fun _ => .nothing) (fun as r os a r' os' hinv hstep hhead => ?_) hhead
  have hholds := hinv (arrive_eq_some.mp hstep).1
  rw [openFrames_append_singleton]
  by_cases hmeets : a.Meets
  · cases meets_of_arrive hholds hmeets hstep with
    | misuse _ _ => cases hhead
    | fails _ _ => cases hhead
    | takes _ _ hnext => exact hnext
  · obtain ⟨hlocals, hskipped, -⟩ := arrive_of_not_meets hmeets hstep
    rw [nextOpen, if_neg (hskipped hhead), hlocals]
    exact hholds

end Receiver

end OpenMessage

end OldPart
