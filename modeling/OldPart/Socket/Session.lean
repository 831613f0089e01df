import OldPart.Lib.Table
import OldPart.Socket.Channel
import OldPart.Socket.ResponseGuard

/-!
# Requests and responses

A server hands each request to the handler that its `MessageDispatcher` has for the id of the
message.  The handler fills a response, and the `OProtoResponseGuard` sends it back over the same
socket when the handler returns.
-/

namespace OldPart

/-! ## The dispatcher -/

/-- A `MessageDispatcher::Handler` that answers: the response it leaves to an
`OProtoResponseGuard`, and `none` when it makes no guard. -/
abbrev Handler := OMessage → Option Proto → Option Proto

/-- `MessageDispatcher::mHandlers`. -/
abbrev MessageDispatcher := Table Int32 Handler

namespace MessageDispatcher

def registeHandler (mHandlers : MessageDispatcher) (msgId : Int32) (handler : Handler) :
    Bool × MessageDispatcher :=
  mHandlers.insert msgId handler

def onMessage (mHandlers : MessageDispatcher) (pMessage : OMessage) (pProto : Option Proto) :
    Option Proto :=
  match mHandlers pMessage.messageId with
  | none => none
  | some handler => handler pMessage pProto

end MessageDispatcher

/-! ## The server -/

/-- The end that answers.  `fetch k` are the numbers that the frames of its `k`-th response get. -/
structure Service where
  endpoint : Endpoint
  mCompressLevel : Int8
  mHandlers : MessageDispatcher
  fetch : ℕ → ℕ → Int32

namespace Service

variable (v : Service)

/-- The server is told of something its socket does.  Of a message that is handed on, the frames of
the response are passed to `Send`, behind the tasks that are posted already. -/
def serve (s : ℕ × List OMessage) : Effect → Except Fault (ℕ × List OMessage)
  | .onMessage pMessage pProto =>
      match v.mHandlers.onMessage pMessage pProto with
      | none => .ok s
      | some response => do
          let guard : OProtoResponseGuard := ⟨pMessage, response⟩
          let messages ←
            guard.destroy v.endpoint.setup v.mCompressLevel v.endpoint.mEncryptKey (v.fetch s.1)
          return (s.1 + 1, s.2 ++ messages)
  | _ => .ok s

/-- All that its socket does. -/
def serveAll (s : ℕ × List OMessage) (effects : List Effect) : Except Fault (ℕ × List OMessage) :=
  effects.foldlM v.serve s

/-- The `k`-th response is `y`, and answers `x`. -/
def Answers (k : ℕ) (x y : Parcel) : Prop :=
  y.messageId = -x.messageId ∧ y.requestId = x.requestId ∧ ∃ a ∈ x.frames.getLast?,
    v.mHandlers.onMessage a.frame.message (some x.pProto) = some y.pProto ∧
      ∃ ms, OProtoResponseGuard.destroy ⟨a.frame.message, y.pProto⟩ v.endpoint.setup
        v.mCompressLevel v.endpoint.mEncryptKey (v.fetch k) = .ok ms ∧
          y.messages = ms.map OMessage.received

/-- The handlers make no response to `x`. -/
def Ignores (x : Parcel) : Prop :=
  ∀ a ∈ x.frames.getLast?, v.mHandlers.onMessage a.frame.message (some x.pProto) = none

/-- The responses to `xs` are `ys`, from the `k`-th on. -/
inductive Answering : ℕ → List Parcel → List Parcel → Prop
  | nil (k : ℕ) : Answering k [] []
  | ignored {k : ℕ} {x : Parcel} {xs ys : List Parcel} :
      v.Ignores x → Answering k xs ys → Answering k (x :: xs) ys
  | answered {k : ℕ} {x y : Parcel} {xs ys : List Parcel} :
      v.Answers k x y → Answering (k + 1) xs ys → Answering k (x :: xs) (y :: ys)

section Serving

variable {v} {k k' : ℕ} {p p' : List OMessage} {effects effects' : List Effect}
  {xs ys : List Parcel}

lemma serveAll_nil (s : ℕ × List OMessage) : v.serveAll s [] = .ok s := rfl

lemma serveAll_append (s : ℕ × List OMessage) :
    v.serveAll s (effects ++ effects') =
      (v.serveAll s effects).bind fun s' => v.serveAll s' effects' :=
  List.foldlM_append

/-- What was posted before is not looked at. -/
lemma serve_append_left (pre : List OMessage) (o : Effect) :
    v.serve (k, pre ++ p) o = (v.serve (k, p) o).map fun s => (s.1, pre ++ s.2) := by
  cases o with
  | onMessage m pProto =>
    rw [serve, serve]
    cases v.mHandlers.onMessage m pProto with
    | none => rfl
    | some response =>
      dsimp only
      cases OProtoResponseGuard.destroy ⟨m, response⟩ v.endpoint.setup v.mCompressLevel
        v.endpoint.mEncryptKey (v.fetch k) with
      | error f => rfl
      | ok ms => exact congrArg (fun q => Except.ok (k + 1, q)) (List.append_assoc pre p ms)
  | _ => rfl

lemma serveAll_append_left (pre : List OMessage) :
    v.serveAll (k, pre ++ p) effects =
      (v.serveAll (k, p) effects).map fun s => (s.1, pre ++ s.2) := by
  induction effects generalizing k p with
  | nil => rfl
  | cons o effects ih =>
    rw [serveAll, List.foldlM_cons, serve_append_left, serveAll, List.foldlM_cons]
    cases v.serve (k, p) o with
    | error f => rfl
    | ok s => exact ih

/-- More and more is posted. -/
lemma isPrefix_of_serveAll (h : v.serveAll (k, p) effects = .ok (k', p')) : p <+: p' := by
  have hpre : v.serveAll (k, p) effects =
      (v.serveAll (k, []) effects).map fun s => (s.1, p ++ s.2) := by
    rw [← serveAll_append_left, List.append_nil]
  rw [h] at hpre
  cases hall : v.serveAll (k, []) effects with
  | error f =>
    rw [hall] at hpre
    cases hpre
  | ok s =>
    rw [hall] at hpre
    obtain ⟨-, rfl⟩ := Prod.mk.inj (Except.ok.inj hpre)
    exact List.prefix_append p s.2

lemma serveAll_handedOn_of_ignores {x : Parcel} (h : v.Ignores x) (s : ℕ × List OMessage) :
    v.serveAll s x.handedOn = .ok s := by
  rw [Parcel.handedOn]
  cases hlast : x.frames.getLast? with
  | none => rfl
  | some a =>
    have hnone := h a hlast
    rw [Option.toList_some, List.map_singleton, serveAll, List.foldlM_cons, serve, hnone]
    rfl

lemma serveAll_handedOn_of_answers {x y : Parcel} (h : v.Answers k x y) :
    ∃ ms, v.serveAll (k, p) x.handedOn = .ok (k + 1, p ++ ms) ∧
      ms.map OMessage.received = y.messages := by
  obtain ⟨-, -, a, hlast, hresponse, ms, hdestroy, hmessages⟩ := h
  refine ⟨ms, ?_, hmessages.symm⟩
  rw [Parcel.handedOn, Option.mem_def.mp hlast, Option.toList_some, List.map_singleton, serveAll,
    List.foldlM_cons, serve, hresponse]
  dsimp only
  rw [hdestroy]
  rfl

/-- What is posted when all of the requests have been handed on. -/
lemma Answering.serveAll_eq (h : v.Answering k xs ys) : ∃ k' ms,
    v.serveAll (k, p) (xs.flatMap Parcel.handedOn) = .ok (k', p ++ ms) ∧
      ms.map OMessage.received = ys.flatMap Parcel.messages := by
  induction h generalizing p with
  | nil k => exact ⟨k, [], by rw [List.append_nil]; rfl, rfl⟩
  | ignored hignores _ ih =>
    rw [List.flatMap_cons, serveAll_append, serveAll_handedOn_of_ignores hignores]
    exact ih
  | answered hanswers _ ih =>
    obtain ⟨ms, hone, hmessages⟩ := serveAll_handedOn_of_answers (p := p) hanswers
    obtain ⟨k', ms', hrest, hmessages'⟩ := ih (p := p ++ ms)
    refine ⟨k', ms ++ ms', ?_, ?_⟩
    · rw [List.flatMap_cons, serveAll_append, hone, ← List.append_assoc]
      exact hrest
    · rw [List.map_append, List.flatMap_cons, hmessages, hmessages']

/-- The responses to the first of the requests. -/
lemma Answering.take (h : v.Answering k xs ys) (n : ℕ) :
    ∃ m, v.Answering k (xs.take n) (ys.take m) := by
  induction h generalizing n with
  | nil k => exact ⟨0, by rw [List.take_nil, List.take_nil]; exact .nil k⟩
  | ignored hignores _ ih =>
    cases n with
    | zero => exact ⟨0, .nil _⟩
    | succ n =>
      obtain ⟨m, hm⟩ := ih n
      exact ⟨m, .ignored hignores hm⟩
  | answered hanswers _ ih =>
    cases n with
    | zero => exact ⟨0, .nil _⟩
    | succ n =>
      obtain ⟨m, hm⟩ := ih n
      exact ⟨m + 1, .answered hanswers hm⟩

end Serving

end Service

/-! ## The session -/

/-- A connection that carries requests one way and responses the other.  `posted` are the tasks of
`Send` that wait on the server's `io_context`, `answered` counts the responses, and the server is
not `alive` any more when a destructor has failed. -/
structure Session (v : Service) (c : Endpoint) where
  requests : Channel v.endpoint
  responses : Channel c
  posted : List OMessage
  answered : ℕ
  alive : Bool

/-- What comes of an event, by the way it concerns. -/
inductive Exchange where
  | request (o : Transfer)
  | response (o : Transfer)
  | fault (f : Fault)

namespace Session

variable {v : Service} {c : Endpoint}

/-- A new session. -/
def start : Session v c := ⟨.start, .start, [], 0, true⟩

/-- What happens in a session: something on one of the two ways, or the next task that the server
has posted runs. -/
inductive Event where
  | request (event : Channel.Event)
  | response (event : Channel.Event)
  | post

/-- A handler of the server runs. -/
def Event.isServers : Event → Bool
  | .request (.complete _ _) | .response (.written _ _) | .post => true
  | _ => false

/-- Something has happened on the way of the requests. -/
def serving (σ : Session v c) :
    Channel v.endpoint × List Transfer → Session v c × List Exchange
  | (requests, os) =>
      match v.serveAll (σ.answered, σ.posted) (Channel.received os) with
      | .ok (answered, posted) => ({ σ with requests, answered, posted }, os.map .request)
      | .error f => ({ σ with requests, alive := false }, os.map .request ++ [.fault f])

/-- Something has happened on the way of the responses. -/
def responding (σ : Session v c) (posted : List OMessage) :
    Channel c × List Transfer → Session v c × List Exchange
  | (responses, os) => ({ σ with responses, posted }, os.map .response)

/-- Both ways of the connection, and the server between them. -/
def step : Machine (Session v c) Event Exchange
  | σ, event =>
      if event.isServers && !σ.alive then none
      else match event with
        | .request event => (Channel.step σ.requests event).map σ.serving
        | .response event =>
            if event.sends.isEmpty then
              (Channel.step σ.responses event).map (σ.responding σ.posted)
            else none
        | .post =>
            match σ.posted with
            | [] => none
            | pMessage :: posted =>
                (Channel.step σ.responses (.send pMessage)).map (σ.responding posted)

/-! ## The two ways -/

/-- What has happened on the way of the requests. -/
def requestsOf (os : List Exchange) : List Transfer :=
  os.filterMap fun o => match o with
    | .request o => some o
    | _ => none

/-- What has happened on the way of the responses. -/
def responsesOf (os : List Exchange) : List Transfer :=
  os.filterMap fun o => match o with
    | .response o => some o
    | _ => none

lemma requestsOf_append (os os' : List Exchange) :
    requestsOf (os ++ os') = requestsOf os ++ requestsOf os' := List.filterMap_append

lemma responsesOf_append (os os' : List Exchange) :
    responsesOf (os ++ os') = responsesOf os ++ responsesOf os' := List.filterMap_append

@[simp] lemma requestsOf_request (os : List Transfer) : requestsOf (os.map .request) = os := by
  simp [requestsOf, List.filterMap_map]

@[simp] lemma responsesOf_request (os : List Transfer) : responsesOf (os.map .request) = [] := by
  simp [responsesOf, List.filterMap_map]

@[simp] lemma requestsOf_response (os : List Transfer) : requestsOf (os.map .response) = [] := by
  simp [requestsOf, List.filterMap_map]

@[simp] lemma responsesOf_response (os : List Transfer) : responsesOf (os.map .response) = os := by
  simp [responsesOf, List.filterMap_map]

/-- What the way of the requests does in a step. -/
lemma serving_spec {σ σ' : Session v c} {requests : Channel v.endpoint} {os : List Transfer}
    {out : List Exchange} (h : σ.serving (requests, os) = (σ', out)) :
    σ'.requests = requests ∧ σ'.responses = σ.responses ∧ requestsOf out = os ∧
      responsesOf out = [] := by
  rw [serving] at h
  split at h
  · obtain ⟨rfl, rfl⟩ := Prod.mk.inj h
    exact ⟨rfl, rfl, requestsOf_request os, responsesOf_request os⟩
  · obtain ⟨rfl, rfl⟩ := Prod.mk.inj h
    rw [requestsOf_append, responsesOf_append, requestsOf_request, responsesOf_request]
    exact ⟨rfl, rfl, List.append_nil os, rfl⟩

/-- A step is one on the way of the requests, or one on the other way: either nothing is sent
there, or what was posted first. -/
lemma step_cases {σ σ' : Session v c} {event : Event} {out : List Exchange}
    (h : step σ event = some (σ', out)) :
    (∃ sub requests os, event = .request sub ∧ (event.isServers = true → σ.alive = true) ∧
      Channel.step σ.requests sub = some (requests, os) ∧ σ.serving (requests, os) = (σ', out)) ∨
    ∃ sub posted responses os,
      (event = .response sub ∨ event = .post ∧ ∃ pMessage, sub = .send pMessage) ∧
      σ.posted = sub.sends ++ posted ∧ Channel.step σ.responses sub = some (responses, os) ∧
        σ.responding posted (responses, os) = (σ', out) := by
  obtain ⟨hnot, h⟩ := Option.ite_none_left_eq_some.mp h
  cases event with
  | request sub =>
    obtain ⟨⟨requests, os⟩, hsub, hserving⟩ := Option.map_eq_some_iff.mp h
    refine Or.inl ⟨sub, requests, os, rfl, fun hservers => ?_, hsub, hserving⟩
    simpa [hservers] using hnot
  | response sub =>
    obtain ⟨hnone, h⟩ := Option.ite_none_right_eq_some.mp h
    obtain ⟨⟨responses, os⟩, hsub, hresponding⟩ := Option.map_eq_some_iff.mp h
    refine Or.inr ⟨sub, σ.posted, responses, os, Or.inl rfl, ?_, hsub, hresponding⟩
    rw [List.isEmpty_iff.mp hnone, List.nil_append]
  | post =>
    dsimp only at h
    split at h
    · cases h
    · next pMessage posted hposted =>
      obtain ⟨⟨responses, os⟩, hsub, hresponding⟩ := Option.map_eq_some_iff.mp h
      exact Or.inr ⟨.send pMessage, posted, responses, os, Or.inr ⟨rfl, pMessage, rfl⟩, hposted,
        hsub, hresponding⟩

/-! ## What is posted -/

/-- What has been posted, sent or not, are the responses to what has been handed on, up to the one
at which the server has failed. -/
structure Posts (σ : Session v c) (os : List Exchange) : Prop where
  pending_eq : σ.responses.outbox.mPendingMessages = []
  served : ∃ done, done <+: Channel.received (requestsOf os) ∧
    (σ.alive = true → done = Channel.received (requestsOf os)) ∧
      v.serveAll (0, []) done =
        .ok (σ.answered, Channel.sent (responsesOf os) ++ σ.posted)

section Runs

variable {σ σ' : Session v c} {os out : List Exchange} {event : Event}

lemma posts_start : Posts (start (v := v) (c := c)) [] :=
  ⟨rfl, [], List.prefix_refl _, fun _ => rfl, rfl⟩

/-- What is handed on to a server is answered behind what is posted. -/
lemma Posts.serving (h : Posts σ os) {requests : Channel v.endpoint} {trs : List Transfer}
    (halive : σ.alive = true ∨ Channel.received trs = [])
    (hserving : σ.serving (requests, trs) = (σ', out)) : Posts σ' (os ++ out) := by
  obtain ⟨hpending, done, hdone, hall, hserved⟩ := h
  rw [Session.serving] at hserving
  rcases halive with halive | hnone
  · obtain rfl := hall halive
    split at hserving
    · next answered posted hok =>
      obtain ⟨rfl, rfl⟩ := Prod.mk.inj hserving
      refine ⟨hpending, _, List.prefix_refl _, fun _ => rfl, ?_⟩
      rw [requestsOf_append, requestsOf_request, responsesOf_append, responsesOf_request,
        List.append_nil, Channel.received_append, Service.serveAll_append, hserved]
      refine (Service.serveAll_append_left _).trans ?_
      rw [hok]
      rfl
    · obtain ⟨rfl, rfl⟩ := Prod.mk.inj hserving
      refine ⟨hpending, Channel.received (requestsOf os), ?_,
        fun hdown => (Bool.false_ne_true hdown).elim, ?_⟩
      · rw [requestsOf_append, Channel.received_append]
        exact List.prefix_append _ _
      · rw [responsesOf_append, responsesOf_append, responsesOf_request]
        simpa [responsesOf] using hserved
  · rw [hnone, Service.serveAll_nil] at hserving
    obtain ⟨rfl, rfl⟩ := Prod.mk.inj hserving
    refine ⟨hpending, done, ?_, ?_, ?_⟩
    · rwa [requestsOf_append, requestsOf_request, Channel.received_append, hnone, List.append_nil]
    · rwa [requestsOf_append, requestsOf_request, Channel.received_append, hnone, List.append_nil]
    · rwa [responsesOf_append, responsesOf_request, List.append_nil]

lemma Posts.responding (h : Posts σ os) {sub : Channel.Event} {responses : Channel c}
    {posted : List OMessage} {trs : List Transfer} (hposted : σ.posted = sub.sends ++ posted)
    (hsub : Channel.step σ.responses sub = some (responses, trs))
    (hresponding : σ.responding posted (responses, trs) = (σ', out)) : Posts σ' (os ++ out) := by
  obtain ⟨hpending, done, hdone, hall, hserved⟩ := h
  obtain ⟨hpending', hsent⟩ := Channel.sent_of_step hpending hsub
  obtain ⟨rfl, rfl⟩ := Prod.mk.inj hresponding
  refine ⟨hpending', done, ?_, ?_, ?_⟩
  · rwa [requestsOf_append, requestsOf_response, List.append_nil]
  · rwa [requestsOf_append, requestsOf_response, List.append_nil]
  · rw [responsesOf_append, responsesOf_response, Channel.sent_append, hsent, List.append_assoc,
      ← hposted]
    exact hserved

lemma Posts.step (h : Posts σ os) (hstep : Session.step σ event = some (σ', out)) :
    Posts σ' (os ++ out) := by
  rcases step_cases hstep with ⟨sub, requests, trs, rfl, halive, hsub, hserving⟩ |
    ⟨sub, posted, responses, trs, -, hposted, hsub, hresponding⟩
  · refine h.serving ?_ hserving
    rcases Channel.received_of_step hsub with hnone | ⟨residue, handled, rfl⟩
    · exact Or.inr hnone
    · exact Or.inl (halive rfl)
  · exact h.responding hposted hsub hresponding

lemma posts_of_run {es : List Event} (hrun : Machine.Run Session.step start es σ os) :
    Posts σ os :=
  hrun.invariant (I := fun _ σ os => Posts σ os) posts_start
    fun _ _ _ _ _ _ hinv hstep => hinv.step hstep

/-! ## The run of each way -/

/-- On both ways the writes send in turn what their messages hold, and each handler finds what the
one before it has left. -/
def Meets (σ : Session v c) : Event → Prop
  | .request event => σ.requests.Meets Channel.Left event
  | .response event => σ.responses.Meets Channel.Left event
  | .post => True

instance (σ : Session v c) (event : Event) : Decidable (σ.Meets event) :=
  match event with
  | .request event => inferInstanceAs (Decidable (σ.requests.Meets Channel.Left event))
  | .response event => inferInstanceAs (Decidable (σ.responses.Meets Channel.Left event))
  | .post => inferInstanceAs (Decidable True)

/-- The way of the requests is a connection. -/
lemma run_requests {es : List Event} (hrun : Machine.Run Session.step start es σ os)
    (halong : Machine.Along Session.step Meets (start (v := v) (c := c)) es) :
    ∃ ks, Machine.Run Channel.step .start ks σ.requests (requestsOf os) ∧
      Machine.Along Channel.step (Channel.Meets Channel.Left) (.start (e := v.endpoint)) ks := by
  refine hrun.restrict (p := Session.requests) rfl requestsOf_append
    (fun σ event σ' out hmeets hstep => ?_) halong
  rcases step_cases hstep with ⟨sub, requests, trs, rfl, -, hsub, hserving⟩ |
    ⟨sub, posted, responses, trs, -, -, -, hresponding⟩
  · obtain ⟨hrequests, -, hout, -⟩ := serving_spec hserving
    rw [hrequests, hout]
    exact Or.inr ⟨sub, hmeets, hsub⟩
  · obtain ⟨rfl, rfl⟩ := Prod.mk.inj hresponding
    exact Or.inl ⟨rfl, requestsOf_response trs⟩

/-- The way of the responses is a connection. -/
lemma run_responses {es : List Event} (hrun : Machine.Run Session.step start es σ os)
    (halong : Machine.Along Session.step Meets (start (v := v) (c := c)) es) :
    ∃ ks, Machine.Run Channel.step .start ks σ.responses (responsesOf os) ∧
      Machine.Along Channel.step (Channel.Meets Channel.Left) (.start (e := c)) ks := by
  refine hrun.restrict (p := Session.responses) rfl responsesOf_append
    (fun σ event σ' out hmeets hstep => ?_) halong
  rcases step_cases hstep with ⟨sub, requests, trs, rfl, -, hsub, hserving⟩ |
    ⟨sub, posted, responses, trs, hevent, hposted, hsub, hresponding⟩
  · obtain ⟨-, hresponses, -, hout⟩ := serving_spec hserving
    exact Or.inl ⟨hresponses, hout⟩
  · obtain ⟨rfl, rfl⟩ := Prod.mk.inj hresponding
    rw [responsesOf_response]
    refine Or.inr ⟨sub, ?_, hsub⟩
    rcases hevent with rfl | ⟨-, pMessage, rfl⟩
    · exact hmeets
    · exact ⟨trivial, trivial, trivial⟩

end Runs

/-! ## Answers -/

/-- Protos of at least two frames, each with a body, of which each handler finds what the one before
it has left. -/
def InRow (u : Setup) (mCompressLevel : Int8) (e : Endpoint) (xs : List Parcel) : Prop :=
  ∀ x ∈ xs, x.Sent u mCompressLevel e ∧ KeptTogether x.frames ∧ ∀ a ∈ x.frames, a.residue = .kept

section Answers

variable {σ : Session v c} {os : List Exchange} {u : Setup} {mCompressLevel : Int8}
  {e : Endpoint} {xs ys : List Parcel}

lemma InRow.take (h : InRow u mCompressLevel e xs) (n : ℕ) :
    InRow u mCompressLevel e (xs.take n) := fun x hx => h x (List.mem_of_mem_take hx)

/-- What has been handed on of them in a run of a connection. -/
lemma InRow.handedOn_isPrefix (h : InRow u mCompressLevel e xs) {χ : Channel e}
    {trs : List Transfer} {es : List Channel.Event}
    (hrun : Machine.Run Channel.step .start es χ trs)
    (halong : Machine.Along Channel.step (Channel.Meets Channel.Left) (.start (e := e)) es)
    (hmessages : (Channel.sent trs).map OMessage.received <+: xs.flatMap Parcel.messages) :
    Channel.received trs <+: xs.flatMap Parcel.handedOn := by
  have hcarried : ∀ x ∈ xs, KeptTogether x.frames := fun x hx => (h x hx).2.1
  have hflows := Channel.flows_of_run hrun halong (Channel.complete_of_messages hcarried hmessages)
  exact hflows.handedOn_isPrefix (fun x hx => (h x hx).1) hcarried (fun x hx => (h x hx).2.2)
    hmessages

/-- What begins lists of one element each is all that comes of the first. -/
lemma exists_take_of_isPrefix {α β : Type*} {f : α → List β} {as : List α} {bs : List β}
    (hone : ∀ a ∈ as, (f a).length = 1) (h : bs <+: as.flatMap f) :
    ∃ n, bs = (as.take n).flatMap f := by
  induction as generalizing bs with
  | nil => exact ⟨0, List.prefix_nil.mp h⟩
  | cons a as ih =>
    rw [List.forall_mem_cons] at hone
    cases bs with
    | nil => exact ⟨0, rfl⟩
    | cons b bs =>
      obtain ⟨b', hb'⟩ := List.length_eq_one_iff.mp hone.1
      rw [List.flatMap_cons, hb', List.singleton_append] at h
      obtain ⟨rfl, hrest⟩ := List.cons_prefix_cons.mp h
      obtain ⟨n, rfl⟩ := ih hone.2 hrest
      exact ⟨n + 1, by rw [List.take_succ_cons, List.flatMap_cons, hb', List.singleton_append]⟩

/-- Every one of them is handed on with its last frame. -/
lemma InRow.length_handedOn (h : InRow u mCompressLevel e xs) :
    ∀ x ∈ xs, x.handedOn.length = 1 := by
  intro x hx
  have hpos := (h x hx).1.length_pos
  rw [Parcel.handedOn, List.getLast?_eq_some_getLast (List.length_pos_iff.mp hpos)]
  rfl

/-- What has been sent of the responses. -/
lemma Posts.sent_isPrefix (h : Posts σ os) (hanswering : v.Answering 0 xs ys)
    (hrequests : Channel.received (requestsOf os) = xs.flatMap Parcel.handedOn) :
    (Channel.sent (responsesOf os)).map OMessage.received <+: ys.flatMap Parcel.messages := by
  obtain ⟨-, done, ⟨more, hmore⟩, -, hserved⟩ := h
  obtain ⟨k, ms, hall, hms⟩ := hanswering.serveAll_eq (p := [])
  rw [← hrequests, ← hmore, Service.serveAll_append, hserved] at hall
  rw [← hms]
  exact ((List.prefix_append _ _).trans (Service.isPrefix_of_serveAll hall)).map _

/-- In every session in which the requests are sent in a row, they and the responses take at least
two frames each, the writes of either way send in turn what their messages hold, and each handler
finds what the one before it has left: however tasks, writes, reads and handlers of the two ways
follow one another, and also when a socket is closed in between, the requests that have been handed
on to the handlers are the first of those that were sent, and what has been handed on at the other
end are the first of the responses to these requests, each once, in order and intact. -/
theorem answers_first (u : Setup) (mCompressLevel : Int8) (xs ys : List Parcel)
    (hrequests : InRow u mCompressLevel v.endpoint xs)
    (hresponses : InRow v.endpoint.setup v.mCompressLevel c ys) (hanswers : v.Answering 0 xs ys)
    {es : List Event} (hrun : Machine.Run Session.step start es σ os)
    (halong : Machine.Along Session.step Meets (start (v := v) (c := c)) es)
    (hmessages : (Channel.sent (requestsOf os)).map OMessage.received <+:
      xs.flatMap Parcel.messages) :
    ∃ n m, Channel.received (requestsOf os) = (xs.take n).flatMap Parcel.handedOn ∧
      v.Answering 0 (xs.take n) (ys.take m) ∧
        Channel.received (responsesOf os) <+: (ys.take m).flatMap Parcel.handedOn := by
  obtain ⟨ks, hway, hmet⟩ := run_requests hrun halong
  obtain ⟨n, hn⟩ := exists_take_of_isPrefix hrequests.length_handedOn
    (hrequests.handedOn_isPrefix hway hmet hmessages)
  obtain ⟨m, hanswering⟩ := hanswers.take n
  have hsent := (posts_of_run hrun).sent_isPrefix hanswering hn
  obtain ⟨ks', hway', hmet'⟩ := run_responses hrun halong
  exact ⟨n, m, hn, hanswering, (hresponses.take m).handedOn_isPrefix hway' hmet' hsent⟩

/-- A server that sends strings back. -/
def echo : Service where
  endpoint := Endpoint.stored .ofAbcdef .string
  mCompressLevel := 0
  mHandlers := (MessageDispatcher.registeHandler Table.empty 1 fun _ pProto => pProto).2
  fetch _ i := .ofNat i

/-- The other end, which knows the response. -/
def echoClient : Endpoint :=
  { Endpoint.stored .ofAbcdef .string with
    creators := (ProtoCreators.empty.registe (-1) none
      (some (some ⟨.string, Schema.string.zero⟩))).2 }

/-- A frame of the response. -/
def echoFrame (f : Frame) : Frame := ⟨{ f.message with messageId := -1 }, f.complete⟩

/-- The response to the string of two frames. -/
def abcdefEcho : Parcel where
  messageId := -1
  requestId := 7
  pProto := ⟨.string, abcdef⟩
  frames := [⟨echoFrame abcdefFrame₁, false, .kept⟩, ⟨echoFrame abcdefFrame₂, false, .kept⟩]

lemma keptTogether_abcdefEcho : KeptTogether abcdefEcho.frames :=
  ⟨by decide, by decide, by decide, by decide, by decide⟩

lemma sent_abcdefEcho : abcdefEcho.Sent echo.endpoint.setup 0 echoClient := by
  have hsend : TSocket.sendProto echo.endpoint.setup 0 zeroKey (fun i => .ofNat i) (-1) 7
      ⟨.string, abcdef⟩ = .ok abcdefEcho.messages := rfl
  have hrun : deserialize echo.endpoint.setup zeroKey .string Schema.string.zero 2
      abcdefEcho.messages = .returned true abcdef := rfl
  exact ⟨⟨_, _, hsend, rfl⟩, by simp [abcdefEcho], ⟨.string, Schema.string.zero⟩, abcdef, rfl, hrun,
    rfl⟩

/-- The response is posted when the request has been handed on, and read while the second of its
frames is still to be sent. -/
def echoed : List Event :=
  Channel.inPieces.map .request ++ [.post, .post,
    .response (.transmit 0 (echoFrame abcdefFrame₁).message.sendBytes),
    .response (.complete .kept false), .response (.complete .kept false),
    .response (.transmit 1 (echoFrame abcdefFrame₂).message.sendBytes),
    .response (.complete .kept false), .response (.complete .kept false)]

/-- The string comes back. -/
theorem answers_first_echoed : ∃ (σ : Session echo echoClient) (os : _),
    Machine.Run step start echoed σ os ∧
      (∃ n m, Channel.received (requestsOf os) =
          ([Channel.abcdefInTurn].take n).flatMap Parcel.handedOn ∧
        echo.Answering 0 ([Channel.abcdefInTurn].take n) ([abcdefEcho].take m) ∧
        Channel.received (responsesOf os) <+: ([abcdefEcho].take m).flatMap Parcel.handedOn) ∧
      (Channel.received (responsesOf os)).length = 1 := by
  have hend : (Machine.exec step (start (v := echo) (c := echoClient)) echoed).map
      (fun r => (Channel.sent (requestsOf r.2), (Channel.received (responsesOf r.2)).length)) =
        some ([abcdefFrame₁.message, abcdefFrame₂.message], 1) := by decide +kernel
  obtain ⟨⟨σ, os⟩, hexec, hos⟩ := Option.map_eq_some_iff.mp hend
  obtain ⟨hsent, hlength⟩ := Prod.mk.inj hos
  have hanswers : echo.Answering 0 [Channel.abcdefInTurn] [abcdefEcho] :=
    .answered ⟨rfl, rfl, _, rfl, rfl, _, rfl, rfl⟩ (.nil 1)
  refine ⟨σ, os, Machine.run_iff_exec.mpr hexec, ?_, hlength⟩
  refine answers_first (Setup.stored .ofAbcdef) 0 [Channel.abcdefInTurn] [abcdefEcho] ?_ ?_ hanswers
    (Machine.run_iff_exec.mpr hexec) (by decide +kernel) ?_
  · refine List.forall_mem_singleton.mpr ⟨Channel.sent_abcdefInTurn, ?_, by decide⟩
    exact ⟨by decide, by decide, by decide, by decide, by decide⟩
  · exact List.forall_mem_singleton.mpr ⟨sent_abcdefEcho, keptTogether_abcdefEcho, by decide⟩
  · rw [hsent]
    exact List.prefix_refl _

end Answers

end Session

end OldPart
