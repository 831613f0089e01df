import OldPart.Lib.Framing
import OldPart.Serializer.Streams
import OldPart.Socket.Delivery
import OldPart.Socket.WriteOrder

/-!
# Threads that send on one socket

`Send(messageId, requestId, pProto)` runs on the thread that calls it.  It goes through the
messages of a coroutine of the serializer and posts a task for each, and the tasks run in the
order in which they were posted.  Nothing keeps two threads from posting in turn.  The other end
puts the frames together in one place for the whole connection, whichever proto they are of.
-/

namespace OldPart

/-! ## The calls of `Send` -/

/-- A call of `TSocket::Send(messageId, requestId, pProto)`. -/
structure SendCall where
  messageId : Int32
  requestId : Int32
  pProto : Proto

/-- The call of `Serialize` it begins with. -/
def SendCall.serialize (mCompressLevel : Int8) (mEncryptKey : AesKey) (c : SendCall) :
    SerializeCall where
  messageId := c.messageId
  schema := c.pProto.schema
  obj := c.pProto.obj
  overload := .compressEncrypt mCompressLevel mEncryptKey

/-- A thread in `Send`, and how many messages it has posted. -/
structure Sending where
  requestId : Int32
  posted : ℕ

/-- The sending side of a socket, with the threads that send on it.  The `i`-th of them goes
through the `i`-th coroutine of `mSerializer`.  `tasks` are the tasks of the `io_context`, and
`ran` those that have run, each with the thread that has posted it. -/
structure Senders where
  mSerializer : Streams
  sendings : List Sending
  tasks : List (ℕ × OMessage)
  ran : List (ℕ × OMessage)
  outbox : Outbox

namespace Senders

/-- A new socket. -/
def start : Senders := ⟨.start, [], [], [], .start⟩

/-- What happens on the sending side: a thread calls `Send`, posts a message or goes on to the
next; or a task runs, or a write completes. -/
inductive Event where
  | call (c : SendCall) (before : List BufT)
  | post (i : ℕ)
  | pull (i : ℕ)
  | run
  | written (k : ℕ) (ec : ErrorCode)

/-- The `i`-th thread and its coroutine. -/
def sending (σ : Senders) (i : ℕ) : Option (Sending × Stream) :=
  (σ.sendings.zip σ.mSerializer.streams)[i]?

/-- The message the thread posts next, when its coroutine stands there. -/
def next (σ : Senders) (i : ℕ) : Option OMessage :=
  match σ.sending i with
  | none => none
  | some (x, t) => t.yielded[x.posted]?.map fun pMessage =>
      { pMessage with requestId := x.requestId }

/-- The messages that have been posted, in order. -/
def posts (σ : Senders) : List (ℕ × OMessage) := σ.ran ++ σ.tasks

/-- The threads, the `io_context` and the writes. -/
def step (u : Setup) (mCompressLevel : Int8) (mEncryptKey : AesKey) :
    Machine Senders Event Effect
  | σ, .call c before =>
      let call := c.serialize mCompressLevel mEncryptKey
      (Streams.step u σ.mSerializer (.serialize call before)).map fun (mSerializer, _) =>
        ({ σ with mSerializer := mSerializer, sendings := σ.sendings ++ [⟨c.requestId, 0⟩] }, [])
  | σ, .post i =>
      (σ.next i).map fun pMessage =>
        ({ σ with
            sendings := σ.sendings.modify i fun x => { x with posted := x.posted + 1 }
            tasks := σ.tasks ++ [(i, pMessage)] }, [])
  | σ, .pull i =>
      match σ.sending i with
      | none => none
      | some (x, t) =>
          if x.posted = t.yielded.length then
            (Streams.step u σ.mSerializer (.pull i)).map fun (mSerializer, _) =>
              ({ σ with mSerializer := mSerializer }, [])
          else none
  | σ, .run =>
      match σ.tasks with
      | [] => none
      | task :: tasks =>
          let (outbox, effects) := σ.outbox.send task.2
          some ({ σ with tasks := tasks, ran := σ.ran ++ [task], outbox := outbox }, effects)
  | σ, .written k ec =>
      (Outbox.step σ.outbox (.written k ec)).map fun (outbox, effects) =>
        ({ σ with outbox := outbox }, effects)

end Senders

/-! ## What should hold -/

/-- The frames of the message that is open, when one more arrives, with their threads. -/
def nextOpenOf (fs : List (ℕ × OMessage)) (x : ℕ × Arrival) : List (ℕ × OMessage) :=
  if x.2.Reassembled then
    let fs := if x.2.frame.message.messageSequenceId = 1 then [] else fs
    if x.2.frame.message.messageSequenceId < 0 then [] else fs ++ [(x.1, x.2.frame.message)]
  else fs

/-- The frames of the message that is open after some arrivals, with their threads. -/
def openOf (as : List (ℕ × Arrival)) : List (ℕ × OMessage) := as.foldl nextOpenOf []

/-- When a frame is to go on with what the locals hold, what they hold are frames of the same
thread. -/
def FedAlone (e : Endpoint) (as : List (ℕ × Arrival)) : Prop :=
  ∀ pre i a post, as = pre ++ (i, a) :: post → ∀ (r : Receiver e) os,
    Machine.Run Receiver.arrive .start (pre.map Prod.snd) r os → r.reading = .head →
    a.Reassembled → a.residue = .kept → a.frame.message.messageSequenceId ≠ 1 →
    Holds e ((openOf pre).map Prod.snd) r.locals ∧ ∀ x ∈ openOf pre, x.1 = i

/-- What has come in so far of the frames that were put on the wire.  `handles` says for which
threads `OnMessage(pMessage)` returns `true`. -/
structure Senders.Received (handles : ℕ → Bool) (σ : Senders) (as : List (ℕ × Arrival)) :
    Prop where
  carried : as.map (fun x => (x.1, x.2.frame.message)) <+:
    σ.ran.map fun x => (x.1, x.2.received)
  handled : ∀ x ∈ as, x.2.handled = handles x.1

/-- The frames on the wire are those of the tasks, the frames of a thread stand together there,
and those that arrive are not put to the frames of another. -/
structure Senders.KeepsTogether (e : Endpoint) (σ : Senders) (os : List Effect)
    (as : List (ℕ × Arrival)) : Prop where
  wire : Outbox.handed os = σ.ran.map Prod.snd
  consecutive : Consecutive (σ.ran.map Prod.fst)
  fed : FedAlone e as

/-! ## Threads that do not get in each other's way -/

/-- The frame as a part of a proto. -/
def framePart (handles : ℕ → Bool) (x : ℕ × OMessage) : Part ℕ where
  label := x.1
  taken := decide (0 < x.2.bodyLength) && !handles x.1
  first := decide (x.2.messageSequenceId = 1)
  last := decide (x.2.messageSequenceId < 0)

namespace Senders

/-- The thread has posted all that its coroutine will make. -/
def Finished (σ : Senders) (i : ℕ) : Prop :=
  ∃ x ∈ σ.sending i, x.1.posted = x.2.yielded.length ∧ x.2.rest = []

/-- All other threads that have posted are finished when the `i`-th posts `pMessage`.  If that is
its first frame, it is one that opens the locals, or the frame that got there last was the last of
its proto, or `OnMessage(pMessage)` handles the frames of the thread. -/
structure Apart (handles : ℕ → Bool) (σ : Senders) (i : ℕ) (pMessage : OMessage) : Prop where
  finished : ∀ x ∈ σ.posts, x.1 ≠ i → σ.Finished x.1
  opens : (∀ x ∈ σ.posts, x.1 ≠ i) → handles i = false →
    0 < pMessage.bodyLength ∧ pMessage.messageSequenceId = 1 ∨
      Closed (σ.posts.map (framePart handles))

/-- A thread that posts does so apart from the others. -/
def SendsApart (handles : ℕ → Bool) (σ : Senders) : Event → Prop
  | .post i => ∀ pMessage ∈ σ.next i, σ.Apart handles i pMessage
  | _ => True

instance (σ : Senders) (i : ℕ) : Decidable (σ.Finished i) :=
  inferInstanceAs (Decidable (∃ x ∈ σ.sending i, x.1.posted = x.2.yielded.length ∧ x.2.rest = []))

instance (handles : ℕ → Bool) (σ : Senders) (i : ℕ) (pMessage : OMessage) :
    Decidable (σ.Apart handles i pMessage) :=
  decidable_of_iff
    ((∀ x ∈ σ.posts, x.1 ≠ i → σ.Finished x.1) ∧
      ((∀ x ∈ σ.posts, x.1 ≠ i) → handles i = false →
        0 < pMessage.bodyLength ∧ pMessage.messageSequenceId = 1 ∨
          Closed (σ.posts.map (framePart handles))))
    ⟨fun ⟨hfinished, hopens⟩ => ⟨hfinished, hopens⟩,
      fun ⟨hfinished, hopens⟩ => ⟨hfinished, hopens⟩⟩

instance (handles : ℕ → Bool) (σ : Senders) (e : Event) : Decidable (σ.SendsApart handles e) :=
  match e with
  | .post i => inferInstanceAs (Decidable (∀ pMessage ∈ σ.next i, σ.Apart handles i pMessage))
  | .call _ _ | .pull _ | .run | .written _ _ => inferInstanceAs (Decidable True)

/-! ## One step -/

section Step

variable {u : Setup} {mCompressLevel : Int8} {mEncryptKey : AesKey} {σ σ' : Senders}
  {os os' : List Effect} {e : Event} {i : ℕ}

lemma sending_eq_some {x : Sending} {t : Stream} :
    σ.sending i = some (x, t) ↔ σ.sendings[i]? = some x ∧ σ.mSerializer.streams[i]? = some t := by
  rw [sending, List.getElem?_zip_eq_some]

/-- What a step can do. -/
inductive Does (σ : Senders) : Event → Senders × List Effect → Prop
  | call {c : SendCall} {before : List BufT} (t : Stream) (number : Int32) :
      Does σ (.call c before) ({ σ with
        mSerializer := ⟨number, σ.mSerializer.streams ++ [t]⟩
        sendings := σ.sendings ++ [⟨c.requestId, 0⟩] }, [])
  | post {i : ℕ} {pMessage : OMessage} : σ.next i = some pMessage →
      Does σ (.post i) ({ σ with
        sendings := σ.sendings.modify i fun x => { x with posted := x.posted + 1 }
        tasks := σ.tasks ++ [(i, pMessage)] }, [])
  | pull {i : ℕ} {t : Stream} (number : Int32) : σ.mSerializer.streams[i]? = some t →
      Does σ (.pull i) ({ σ with
        mSerializer :=
          ⟨(t.resume number).2.1, σ.mSerializer.streams.set i (t.resume number).1⟩ }, [])
  | run {task : ℕ × OMessage} {tasks : List (ℕ × OMessage)} : σ.tasks = task :: tasks →
      Does σ .run ({ σ with
        tasks := tasks
        ran := σ.ran ++ [task]
        outbox := (σ.outbox.send task.2).1 }, (σ.outbox.send task.2).2)
  | written {k : ℕ} {ec : ErrorCode} {outbox : Outbox} {effects : List Effect} :
      Outbox.step σ.outbox (.written k ec) = some (outbox, effects) →
      Does σ (.written k ec) ({ σ with outbox := outbox }, effects)

lemma does_of_step {result : Senders × List Effect}
    (hstep : step u mCompressLevel mEncryptKey σ e = some result) : Does σ e result := by
  unfold step at hstep
  cases e with
  | call c before =>
    obtain rfl := Option.some.inj hstep
    exact .call _ _
  | post i =>
    obtain ⟨pMessage, hnext, rfl⟩ := Option.map_eq_some_iff.mp hstep
    exact .post hnext
  | pull i =>
    cases hsending : σ.sending i with
    | none => simp [hsending] at hstep
    | some xt =>
      obtain ⟨x, t⟩ := xt
      obtain ⟨-, ht⟩ := sending_eq_some.mp hsending
      simp only [hsending, Option.ite_none_right_eq_some, Option.map_eq_some_iff, Streams.step, ht,
        Option.some.injEq] at hstep
      obtain ⟨-, _, ⟨-, rfl⟩, rfl⟩ := hstep
      exact .pull _ ht
  | run =>
    cases htasks : σ.tasks with
    | nil => simp [htasks] at hstep
    | cons task tasks =>
      simp only [htasks] at hstep
      obtain rfl := Option.some.inj hstep
      exact .run htasks
  | written k ec =>
    obtain ⟨_, hwritten, rfl⟩ := Option.map_eq_some_iff.mp hstep
    exact .written hwritten

/-- A step posts a message of the thread that does so, and nothing otherwise. -/
lemma Does.posts (h : Does σ e (σ', os')) : σ'.posts = σ.posts ∨
    ∃ i pMessage, e = .post i ∧ σ.next i = some pMessage ∧
      σ'.posts = σ.posts ++ [(i, pMessage)] := by
  cases h with
  | call t number => exact Or.inl rfl
  | post hnext => exact Or.inr ⟨_, _, rfl, hnext, (List.append_assoc _ _ _).symm⟩
  | pull number ht => exact Or.inl rfl
  | run htasks =>
    refine Or.inl ?_
    rw [Senders.posts, Senders.posts, htasks, List.append_assoc, List.singleton_append]
  | written hwritten => exact Or.inl rfl

/-- A thread that is finished has nothing to post. -/
lemma Finished.next_eq_none (h : σ.Finished i) : σ.next i = none := by
  obtain ⟨⟨x, t⟩, hsending, hposted, -⟩ := h
  rw [next, hsending]
  dsimp only at hposted ⊢
  rw [hposted, List.getElem?_eq_none le_rfl, Option.map_none]

/-- A coroutine that has no more bodies makes nothing more. -/
lemma resume_of_rest_eq_nil {t : Stream} (h : t.rest = []) (number : Int32) :
    (t.resume number).1.yielded = t.yielded ∧ (t.resume number).1.rest = [] := by
  simp [Stream.resume, h]

/-- A thread that is finished stays so. -/
lemma Does.finished (h : Does σ e (σ', os')) (hfinished : σ.Finished i) : σ'.Finished i := by
  have hnext := hfinished.next_eq_none
  obtain ⟨⟨x, t⟩, hsending, hposted, hrest⟩ := hfinished
  obtain ⟨hx, ht⟩ := sending_eq_some.mp hsending
  cases h with
  | call t' number =>
    refine ⟨(x, t), sending_eq_some.mpr ⟨?_, ?_⟩, hposted, hrest⟩
    · rwa [List.getElem?_append_left (List.getElem?_eq_some_iff.mp hx).1]
    · exact (List.getElem?_append_left (List.getElem?_eq_some_iff.mp ht).1).trans ht
  | @post j pMessage hpost =>
    have hne : j ≠ i := by
      rintro rfl
      rw [hpost] at hnext
      cases hnext
    refine ⟨(x, t), sending_eq_some.mpr ⟨?_, ht⟩, hposted, hrest⟩
    simp [hne, hx]
  | @pull j t' number ht' =>
    by_cases hj : j = i
    · subst hj
      obtain rfl := Option.some.inj (ht'.symm.trans ht)
      obtain ⟨hyielded, hnil⟩ := resume_of_rest_eq_nil hrest number
      refine ⟨(x, (t'.resume number).1), sending_eq_some.mpr ⟨hx, ?_⟩, ?_, hnil⟩
      · exact List.getElem?_set_self (List.getElem?_eq_some_iff.mp ht').1
      · dsimp only at hposted ⊢
        rw [hposted, hyielded]
    · exact ⟨(x, t), sending_eq_some.mpr ⟨hx, (List.getElem?_set_ne hj).trans ht⟩, hposted, hrest⟩
  | run htasks => exact ⟨(x, t), hsending, hposted, hrest⟩
  | written hwritten => exact ⟨(x, t), hsending, hposted, hrest⟩

end Step

/-! ## Every run -/

/-- What holds while the threads send apart. -/
structure Together (handles : ℕ → Bool) (σ : Senders) (os : List Effect) : Prop where
  pending_eq : σ.outbox.mPendingMessages = []
  handed_eq : Outbox.handed os = σ.ran.map Prod.snd
  finished : ∀ x ∈ σ.posts, ∀ z ∈ σ.posts.getLast?, x.1 ≠ z.1 → σ.Finished x.1
  orderly : Orderly (fun i => handles i = false) (σ.posts.map (framePart handles))

section Runs

variable {u : Setup} {mCompressLevel : Int8} {mEncryptKey : AesKey} {handles : ℕ → Bool}
  {σ σ' : Senders} {os os' : List Effect} {e : Event} {i : ℕ}

lemma together_start (handles : ℕ → Bool) : Together handles start [] :=
  ⟨rfl, rfl, by simp [start, posts], orderly_nil⟩

lemma taken_framePart (handles : ℕ → Bool) (x : ℕ × OMessage) :
    (framePart handles x).taken = true → handles (framePart handles x).label = false := by
  intro htaken
  have hnot := (Bool.and_eq_true_iff.mp htaken).2
  rwa [Bool.not_eq_true'] at hnot

/-- One more frame, posted apart. -/
lemma Together.orderly_concat (h : Together handles σ os) {pMessage : OMessage}
    (hnext : σ.next i = some pMessage) (hapart : σ.Apart handles i pMessage) :
    Orderly (fun i => handles i = false)
      ((σ.posts ++ [(i, pMessage)]).map (framePart handles)) := by
  rw [List.map_append, List.map_singleton]
  by_cases hposted : ∃ x ∈ σ.posts, x.1 = i
  · -- the thread has posted before: it is the one that has posted last, as it is not finished
    obtain ⟨x, hx, rfl⟩ := hposted
    refine h.orderly.concat_same (taken_framePart handles _) ?_
    obtain ⟨z, hz⟩ :=
      Option.isSome_iff_exists.mp (List.getLast?_isSome.mpr (List.ne_nil_of_mem hx))
    have heq : x.1 = z.1 := by
      by_contra hne
      rw [(h.finished x hx z hz hne).next_eq_none] at hnext
      cases hnext
    rw [List.map_map, List.getLast?_map, hz]
    exact congrArg some heq.symm
  · refine h.orderly.concat_new (taken_framePart handles _) ?_ fun hleft => ?_
    · rw [List.map_map, List.mem_map]
      exact hposted
    · have hnew : ∀ x ∈ σ.posts, x.1 ≠ i := fun x hx heq => hposted ⟨x, hx, heq⟩
      refine (hapart.opens hnew hleft).imp_left fun ⟨hbody, hfirst⟩ => ⟨?_, decide_eq_true hfirst⟩
      simpa [framePart, hbody] using hleft

/-- The frames on the wire are those of the tasks, and no message waits. -/
lemma Does.wire (h : Does σ e (σ', os')) (hpending : σ.outbox.mPendingMessages = [])
    (hhanded : Outbox.handed os = σ.ran.map Prod.snd) :
    σ'.outbox.mPendingMessages = [] ∧ Outbox.handed (os ++ os') = σ'.ran.map Prod.snd := by
  rw [Outbox.handed_append, hhanded]
  cases h with
  | run htasks =>
    rw [Outbox.send_of_pending_eq_nil hpending, List.map_append]
    exact ⟨hpending, rfl⟩
  | written hwritten =>
    obtain ⟨hempty, hnone⟩ := Outbox.written_of_pending_eq_nil hpending hwritten
    exact ⟨hempty, by rw [hnone, List.append_nil]⟩
  | _ => exact ⟨hpending, List.append_nil _⟩

lemma Together.step (h : Together handles σ os) (hapart : σ.SendsApart handles e)
    (hstep : step u mCompressLevel mEncryptKey σ e = some (σ', os')) :
    Together handles σ' (os ++ os') := by
  have hdoes := does_of_step hstep
  obtain ⟨hpending, hhanded⟩ := hdoes.wire h.pending_eq h.handed_eq
  refine ⟨hpending, hhanded, ?_, ?_⟩
  · intro x hx z hz hne
    rcases hdoes.posts with hposts | ⟨i, pMessage, rfl, hnext, hposts⟩
    · rw [hposts] at hx hz
      exact hdoes.finished (h.finished x hx z hz hne)
    · rw [hposts, List.getLast?_append, List.getLast?_singleton] at hz
      obtain rfl := Option.some.inj hz
      rw [hposts] at hx
      rcases List.mem_append.mp hx with hx | hx
      · exact hdoes.finished ((hapart pMessage hnext).finished x hx hne)
      · rw [List.mem_singleton.mp hx] at hne
        exact (hne rfl).elim
  · rcases hdoes.posts with hposts | ⟨i, pMessage, rfl, hnext, hposts⟩
    · rw [hposts]
      exact h.orderly
    · rw [hposts]
      exact h.orderly_concat hnext (hapart pMessage hnext)

lemma together_of_run {es : List Event}
    (hrun : Machine.Run (Senders.step u mCompressLevel mEncryptKey) start es σ os)
    (hapart : Machine.Along (Senders.step u mCompressLevel mEncryptKey) (SendsApart handles)
      start es) : Together handles σ os :=
  hrun.invariant_of_along (together_start handles)
    (fun _ _ _ _ _ h hmeets hstep => h.step hmeets hstep) hapart

end Runs

/-! ## The other end -/

section Arrivals

variable {handles : ℕ → Bool} {σ : Senders} {as : List (ℕ × Arrival)} {e : Endpoint}

/-- The arrival as a part of a proto. -/
def arrivalPart (x : ℕ × Arrival) : Part ℕ where
  label := x.1
  taken := decide x.2.Reassembled
  first := decide (x.2.frame.message.messageSequenceId = 1)
  last := decide (x.2.frame.message.messageSequenceId < 0)

lemma openOf_concat (as : List (ℕ × Arrival)) (x : ℕ × Arrival) :
    openOf (as ++ [x]) = nextOpenOf (openOf as) x := by
  simp [openOf]

/-- Without the threads, these are the frames of the message that is open. -/
lemma map_snd_openOf (as : List (ℕ × Arrival)) :
    (openOf as).map Prod.snd = openFrames (as.map Prod.snd) := by
  induction as using List.reverseRecOn with
  | nil => rfl
  | append_singleton as x ih =>
    rw [openOf_concat, List.map_append, List.map_singleton, openFrames_append_singleton, ← ih,
      nextOpenOf, nextOpen]
    split_ifs <;> simp

/-- Their threads are what is in the slot. -/
lemma map_fst_openOf (as : List (ℕ × Arrival)) :
    (openOf as).map Prod.fst = slot (as.map arrivalPart) := by
  induction as using List.reverseRecOn with
  | nil => rfl
  | append_singleton as x ih =>
    rw [openOf_concat, List.map_append, List.map_singleton, slot_concat, ← ih, nextOpenOf, nextSlot]
    simp only [arrivalPart, decide_eq_true_eq]
    split_ifs <;> simp

/-- The arrivals are parts of what has been posted. -/
lemma Received.isPrefix (h : σ.Received handles as) :
    as.map arrivalPart <+: σ.posts.map (framePart handles) := by
  have hparts : as.map arrivalPart =
      (as.map fun x => (x.1, x.2.frame.message)).map (framePart handles) := by
    rw [List.map_map]
    refine List.map_congr_left fun x hx => ?_
    simp [arrivalPart, framePart, Arrival.Reassembled, h.handled x hx]
  have hreceived : (σ.ran.map fun x => (x.1, x.2.received)).map (framePart handles) =
      σ.ran.map (framePart handles) := List.map_map
  have hran := h.carried.map (framePart handles)
  rw [← hparts, hreceived] at hran
  exact hran.trans (List.prefix_append _ _ |>.map _)

/-- A line that is orderly does not feed the frames of one thread to the reader of another. -/
lemma Received.fedAlone (h : σ.Received handles as)
    (hunmixed : Unmixed (σ.posts.map (framePart handles))) : FedAlone e as := by
  rintro pre i a post rfl r os hrun hhead hreassembled - hlater
  refine ⟨?_, fun x hx => ?_⟩
  · rw [map_snd_openOf]
    exact Receiver.holds_of_run hrun hhead
  · have hparts := hunmixed.of_isPrefix h.isPrefix
    rw [List.map_append, List.map_cons] at hparts
    refine hparts _ _ _ rfl (decide_eq_true hreassembled) (decide_eq_false hlater) x.1 ?_
    rw [← map_fst_openOf]
    exact List.mem_map_of_mem hx

end Arrivals

/-- In a run in which a frame is posted only while all other threads that have posted are finished,
and a thread does not begin with a frame that belongs to an open message, the frames of each
thread stay together. -/
theorem keepsTogether_of_sendsApart (u : Setup) (mCompressLevel : Int8) (mEncryptKey : AesKey)
    (handles : ℕ → Bool) (e : Endpoint) {es : List Event} {σ : Senders} {os : List Effect}
    (hrun : Machine.Run (step u mCompressLevel mEncryptKey) start es σ os)
    (hapart : Machine.Along (step u mCompressLevel mEncryptKey) (SendsApart handles) start es)
    {as : List (ℕ × Arrival)} (has : σ.Received handles as) : σ.KeepsTogether e os as := by
  have h := together_of_run hrun hapart
  refine ⟨h.handed_eq, ?_, has.fedAlone h.orderly.unmixed⟩
  refine h.orderly.consecutive.of_isPrefix ?_
  rw [List.map_map]
  exact (List.prefix_append σ.ran σ.tasks).map _

/-! ## Two threads -/

/-- A thread that sends a string of two frames. -/
def abcdefCall : SendCall where
  messageId := 1
  requestId := 7
  pProto := ⟨.string, abcdef⟩

/-- Two such threads that post in turn. -/
def postsInTurn : List Event :=
  [.call abcdefCall [], .call abcdefCall [], .post 0, .post 1, .pull 0, .pull 1, .post 0, .post 1,
    .run, .run, .run, .run]

/-- The second begins to post when the first is through. -/
def postsInRow : List Event :=
  [.call abcdefCall [], .post 0, .run, .pull 0, .post 0, .call abcdefCall [], .post 1, .pull 1,
    .run, .run, .post 1, .run]

/-- The frames of the string as they arrive, with the number its serializer has given them. -/
def abcdefArrival₁ (sequenceId : Int32) : Arrival where
  frame := ⟨{ abcdefFrame₁.message with sequenceId := sequenceId }, abcdefFrame₁.complete⟩
  handled := false
  residue := .kept

@[inherit_doc abcdefArrival₁]
def abcdefArrival₂ (sequenceId : Int32) : Arrival where
  frame := ⟨{ abcdefFrame₂.message with sequenceId := sequenceId }, abcdefFrame₂.complete⟩
  handled := false
  residue := .kept

/-- What arrives when the threads post in turn. -/
def arrivalsInTurn : List (ℕ × Arrival) :=
  [(0, abcdefArrival₁ 1), (1, abcdefArrival₁ 2), (0, abcdefArrival₂ 3), (1, abcdefArrival₂ 4)]

/-- And when one does so behind the other. -/
def arrivalsInRow : List (ℕ × Arrival) :=
  [(0, abcdefArrival₁ 1), (0, abcdefArrival₂ 2), (1, abcdefArrival₁ 3), (1, abcdefArrival₂ 4)]

lemma exec_postsInTurn : ∃ σ os,
    Machine.exec (step (Setup.stored .ofAbcdef) 0 zeroKey) start postsInTurn = some (σ, os) ∧
      σ.ran.map Prod.fst = [0, 1, 0, 1] ∧
      (σ.ran.map fun x => (x.1, x.2.received)) =
        arrivalsInTurn.map fun x => (x.1, x.2.frame.message) :=
  ⟨_, _, rfl, rfl, rfl⟩

lemma exec_postsInRow : ∃ σ os,
    Machine.exec (step (Setup.stored .ofAbcdef) 0 zeroKey) start postsInRow = some (σ, os) ∧
      σ.ran.map Prod.fst = [0, 0, 1, 1] ∧
      (σ.ran.map fun x => (x.1, x.2.received)) =
        arrivalsInRow.map fun x => (x.1, x.2.frame.message) :=
  ⟨_, _, rfl, rfl, rfl⟩

lemma along_postsInRow : Machine.Along (step (Setup.stored .ofAbcdef) 0 zeroKey)
    (SendsApart fun _ => false) start postsInRow := by
  decide +kernel

/-- The last frame of the first thread meets the reader of the second. -/
lemma not_fedAlone_arrivalsInTurn :
    ¬FedAlone (Endpoint.stored .ofAbcdef .string) arrivalsInTurn := by
  intro h
  obtain ⟨-, halone⟩ := h [(0, abcdefArrival₁ 1), (1, abcdefArrival₁ 2)] 0 (abcdefArrival₂ 3)
    [(1, abcdefArrival₂ 4)] rfl _ _ (Machine.run_iff_exec.mpr rfl) rfl (by decide) rfl (by decide)
  exact absurd (halone (1, (abcdefArrival₁ 2).frame.message) (by decide)) Nat.one_ne_zero

/-- When two threads post in turn, their frames stand in turn on the wire, and the frames of one
get to the reader of the other. -/
theorem not_keepsTogether_postsInTurn :
    ∃ σ os, Machine.Run (step (Setup.stored .ofAbcdef) 0 zeroKey) start postsInTurn σ os ∧
      σ.Received (fun _ => false) arrivalsInTurn ∧ ¬Consecutive (σ.ran.map Prod.fst) ∧
      ¬FedAlone (Endpoint.stored .ofAbcdef .string) arrivalsInTurn ∧
      ¬σ.KeepsTogether (Endpoint.stored .ofAbcdef .string) os arrivalsInTurn := by
  obtain ⟨σ, os, hexec, hran, hreceived⟩ := exec_postsInTurn
  have hnot : ¬Consecutive (σ.ran.map Prod.fst) := by
    rw [hran]
    intro h
    exact absurd (h 0 1 2 (by decide) (by decide) (by decide) rfl) (by decide)
  refine ⟨σ, os, Machine.run_iff_exec.mpr hexec, ⟨?_, by decide⟩, hnot,
    not_fedAlone_arrivalsInTurn, fun h => hnot h.consecutive⟩
  rw [hreceived]

/-- When one posts behind the other, they stay together. -/
theorem keepsTogether_postsInRow :
    ∃ σ os, Machine.Run (step (Setup.stored .ofAbcdef) 0 zeroKey) start postsInRow σ os ∧
      σ.ran.map Prod.fst = [0, 0, 1, 1] ∧
      σ.KeepsTogether (Endpoint.stored .ofAbcdef .string) os arrivalsInRow := by
  obtain ⟨σ, os, hexec, hran, hreceived⟩ := exec_postsInRow
  have hrun := Machine.run_iff_exec.mpr hexec
  refine ⟨σ, os, hrun, hran, keepsTogether_of_sendsApart _ _ _ (fun _ => false) _ hrun
    along_postsInRow ⟨?_, by decide⟩⟩
  rw [hreceived]

end Senders

end OldPart
