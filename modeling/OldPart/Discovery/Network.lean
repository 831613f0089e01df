import OldPart.Discovery.Discover
import OldPart.Lib.Machine
import OldPart.Socket.TSocket
import Mathlib.Data.List.Forall2

/-!
# Finding the daemons of a group

Daemons receive the datagrams of a multicast group and answer the one that has sent a `Discover`.
What is sent can be lost, can come more than once and in any order.  Beside the daemons there are
the `sender`s of the repository, and any others that send datagrams.
-/

namespace OldPart

/-! ## The socket of a daemon -/

/-- `sizeof(Discover)`. -/
def sizeofDiscover : ℕ := Discover.layout.width

/-- `MSocket`.  An `async_receive_from` is outstanding while it is `receiving`. -/
structure MSocket (E : Type) where
  mSenderEndpoint : E
  mMessageHandler : Option FindOrganization
  receiving : Bool

namespace MSocket

variable {E : Type}

/-- What a handler of a receive does. -/
inductive Effect (E : Type) where
  | asyncSendTo (destination : E) (discover : Discover)
  /-- A call through a null pointer. -/
  | fault
  /-- Memory that is in use is overwritten. -/
  | corruption

/-- The handler of `DoReceive`, when `length` bytes have come from `source`.  They were written into
a local of the `DoReceive` that has returned, and `inUse` is whether its memory had another use
then.  The handler finds `discover` there, and `memory` where it makes an answer. -/
def onReceived (s : MSocket E) (ec : ErrorCode) (source : E) (length : ℕ) (inUse : Bool)
    (discover memory : Discover) : MSocket E × List (Effect E) :=
  if ec = .success then
    let s := { s with mSenderEndpoint := source }
    -- what a program does from there is undefined: this one does nothing more
    if inUse then ({ s with receiving := false }, [.corruption])
    else if length = sizeofDiscover then
      match s.mMessageHandler with
      | none => ({ s with receiving := false }, [.fault])
      | some handler =>
          if handler.filtOut discover then (s, [])
          else (s, (handler.onMessage memory discover).toList.map (.asyncSendTo s.mSenderEndpoint))
    else (s, [])
  else ({ s with receiving := false }, [])

/-- What comes too short is dropped. -/
lemma onReceived_of_lt (s : MSocket E) (source : E) {n : ℕ} (h : n < sizeofDiscover)
    (discover memory : Discover) :
    s.onReceived .success source (min n sizeofDiscover) false discover memory =
      ({ s with mSenderEndpoint := source }, []) := by
  rw [onReceived, if_pos rfl, if_neg Bool.false_ne_true, if_neg (by omega)]

/-- What is long enough comes to the handler, if there is one. -/
lemma onReceived_of_le (s : MSocket E) (source : E) {n : ℕ} (h : sizeofDiscover ≤ n)
    (discover memory : Discover) :
    s.onReceived .success source (min n sizeofDiscover) false discover memory =
      match s.mMessageHandler with
      | none => (⟨source, s.mMessageHandler, false⟩, [.fault])
      | some handler =>
          ({ s with mSenderEndpoint := source },
            if handler.filtOut discover then []
            else (handler.onMessage memory discover).toList.map (.asyncSendTo source)) := by
  rw [onReceived, if_pos rfl, if_neg Bool.false_ne_true, if_pos (by omega)]
  dsimp only
  cases s.mMessageHandler with
  | none => rfl
  | some handler =>
    dsimp only
    split <;> rfl

/-- The handler stays. -/
lemma mMessageHandler_onReceived (s : MSocket E) (ec : ErrorCode) (source : E) (length : ℕ)
    (inUse : Bool) (discover memory : Discover) :
    (s.onReceived ec source length inUse discover memory).1.mMessageHandler =
      s.mMessageHandler := by
  rw [onReceived]
  split
  · dsimp only
    split
    · rfl
    · split
      · split
        · rfl
        · split <;> rfl
      · rfl
  · rfl

end MSocket

/-! ## The program `sender` -/

/-- Where a `sender` is. -/
inductive SenderPhase where
  | created
  | sending
  | waiting
  | finished
deriving DecidableEq

structure Sender where
  phase : SenderPhase
  messageCount : ℕ

namespace Sender

/-- A sender before its constructor calls `do_send`. -/
def start : Sender := ⟨.created, 0⟩

/-- `max_message_count`. -/
def maxMessageCount : ℕ := 10

/-- The text of a message. -/
def text (messageCount : ℕ) : List UInt8 :=
  ("Message " ++ toString messageCount).toList.map fun c => UInt8.ofNat c.toNat

/-- What happens to a sender: it is constructed, its `async_send_to` or its `async_wait`
completes. -/
inductive Event where
  | construct
  | sent (ec : ErrorCode)
  | timeout (ec : ErrorCode)

/-- `do_send`. -/
def doSend (s : Sender) : Sender × List (List UInt8) :=
  (⟨.sending, s.messageCount + 1⟩, [text s.messageCount])

/-- A sender, and the messages it sends. -/
def step : Machine Sender Event (List UInt8)
  | s, .construct => if s.phase = .created then some s.doSend else none
  | s, .sent ec =>
      if s.phase = .sending then
        some ({ s with phase :=
          if ec = .success ∧ s.messageCount < maxMessageCount then .waiting else .finished }, [])
      else none
  | s, .timeout ec =>
      if s.phase = .waiting then
        some (if ec = .success then s.doSend else ({ s with phase := .finished }, []))
      else none

/-- A sender that may send has not sent all. -/
def MaySend (s : Sender) : Prop :=
  s.phase = .created ∨ s.phase = .waiting → s.messageCount < maxMessageCount

lemma maySend_start : MaySend start := fun _ => by decide

lemma maySend_step {s s' : Sender} {event : Event} {os : List (List UInt8)} (h : s.MaySend)
    (hstep : step s event = some (s', os)) :
    s'.MaySend ∧ ∀ payload ∈ os, ∃ k < maxMessageCount, payload = text k := by
  have hdoSend : s.messageCount < maxMessageCount → s.doSend.1.MaySend ∧
      ∀ payload ∈ s.doSend.2, ∃ k < maxMessageCount, payload = text k := by
    refine fun hlt => ⟨fun hphase => ?_, fun payload hmem => ⟨_, hlt, List.mem_singleton.mp hmem⟩⟩
    rcases hphase with hphase | hphase <;> cases hphase
  cases event with
  | construct =>
    obtain ⟨hphase, hsome⟩ := Option.ite_none_right_eq_some.mp hstep
    obtain ⟨rfl, rfl⟩ := Prod.mk.inj (Option.some.inj hsome)
    exact hdoSend (h (Or.inl hphase))
  | sent ec =>
    obtain ⟨-, hsome⟩ := Option.ite_none_right_eq_some.mp hstep
    obtain ⟨rfl, rfl⟩ := Prod.mk.inj (Option.some.inj hsome)
    refine ⟨fun hphase => ?_, fun payload hmem => absurd hmem List.not_mem_nil⟩
    by_cases hmore : ec = .success ∧ s.messageCount < maxMessageCount
    · exact hmore.2
    · rw [if_neg hmore] at hphase
      rcases hphase with hphase | hphase <;> cases hphase
  | timeout ec =>
    obtain ⟨hphase, hsome⟩ := Option.ite_none_right_eq_some.mp hstep
    have hresult := Option.some.inj hsome
    split at hresult
    · obtain ⟨rfl, rfl⟩ := Prod.mk.inj hresult
      exact hdoSend (h (Or.inr hphase))
    · obtain ⟨rfl, rfl⟩ := Prod.mk.inj hresult
      refine ⟨fun hphase => ?_, fun payload hmem => absurd hmem List.not_mem_nil⟩
      rcases hphase with hphase | hphase <;> cases hphase

/-- No message of a sender is as long as a `Discover`. -/
lemma length_text_lt {k : ℕ} (h : k < maxMessageCount) : (text k).length < sizeofDiscover := by
  have hall : ∀ k < maxMessageCount, (text k).length < sizeofDiscover := by decide
  exact hall k h

end Sender

/-! ## The group -/

/-- A datagram. -/
structure Datagram (E : Type) where
  source : E
  destination : E
  payload : List UInt8

/-- The arguments a daemon is started with, and what its constructor finds in memory. -/
structure Organization where
  memory : List.Vector UInt8 32
  ip : Int32
  name : List UInt8
  name_ne_zero : ∀ b ∈ name, b ≠ 0

/-- Its handler. -/
def Organization.handler (o : Organization) : FindOrganization := .new o.memory o.ip o.name

/-- A multicast group: the endpoints of its daemons and of the senders, and the daemons whose
`SetMessageHandler` is called. -/
structure Group (E ι κ : Type) where
  multicast : E
  daemon : ι → E
  sender : κ → E
  organization : ι → Option Organization

/-- The daemons, the senders, and all that was ever sent. -/
structure Network (E ι κ : Type) where
  daemons : ι → MSocket E
  senders : κ → Sender
  soup : List (Datagram E)

/-- No child of a daemon is known to it. -/
lemma Organization.waitOrganizationExit_handler (o : Organization) (pid : Int32) :
    o.handler.waitOrganizationExit pid = o.handler := by
  rw [FindOrganization.waitOrganizationExit]
  split <;> rfl

namespace Network

variable {E ι κ : Type}

/-- What happens in a network: the `k`-th datagram is delivered to a daemon, where it is written
into memory that is or is not `inUse`, and whose handler finds `discover` and `memory`; a receive
fails; something happens to a sender; a datagram comes from elsewhere; a child of a daemon exits. -/
inductive Event (E ι κ : Type) where
  | deliver (i : ι) (k : ℕ) (inUse : Bool) (discover memory : Discover)
  | fail (i : ι) (ec : ErrorCode)
  | sender (j : κ) (event : Sender.Event)
  | inject (q : Datagram E)
  | exited (i : ι) (pid : Int32)

/-- What comes of it. -/
inductive Happening (E ι κ : Type) where
  | delivered (i : ι) (q : Datagram E)
  | replied (i : ι) (q : Datagram E)
  | fault (i : ι)
  | corrupted (i : ι)
  | announced (j : κ) (q : Datagram E)
  | injected (q : Datagram E)

variable (g : Group E ι κ)

/-- All daemons receive. -/
def start : Network E ι κ where
  daemons i := ⟨g.multicast, (g.organization i).map Organization.handler, true⟩
  senders _ := .start
  soup := []

/-- What a daemon does, in the network. -/
def happening (i : ι) : MSocket.Effect E → Happening E ι κ
  | .asyncSendTo destination discover =>
      .replied i ⟨g.daemon i, destination, Discover.layout.pack discover⟩
  | .fault => .fault i
  | .corruption => .corrupted i

/-- The datagram that is sent. -/
def Happening.datagram : Happening E ι κ → Option (Datagram E)
  | .replied _ q | .announced _ q | .injected q => some q
  | _ => none

/-- What happens changes a part of the network, and what is sent is there then. -/
def after (σ : Network E ι κ) (out : List (Happening E ι κ)) :
    Network E ι κ × List (Happening E ι κ) :=
  ({ σ with soup := σ.soup ++ out.filterMap Happening.datagram }, out)

/-! ## What has happened -/

/-- The datagrams that came to the daemons. -/
def deliveredOf (os : List (Happening E ι κ)) : List (ι × Datagram E) :=
  os.filterMap fun o => match o with
    | .delivered i q => some (i, q)
    | _ => none

/-- The datagrams that the daemons have sent. -/
def repliedOf (os : List (Happening E ι κ)) : List (ι × Datagram E) :=
  os.filterMap fun o => match o with
    | .replied i q => some (i, q)
    | _ => none

lemma deliveredOf_append (os os' : List (Happening E ι κ)) :
    deliveredOf (os ++ os') = deliveredOf os ++ deliveredOf os' := List.filterMap_append

lemma repliedOf_append (os os' : List (Happening E ι κ)) :
    repliedOf (os ++ os') = repliedOf os ++ repliedOf os' := List.filterMap_append

/-- The datagram asks for an answer. -/
def IsQuery (payload : List UInt8) : Prop :=
  sizeofDiscover ≤ payload.length ∧
    0 ≤ (Discover.layout.unpack (payload.take sizeofDiscover)).magic

instance (payload : List UInt8) : Decidable (IsQuery payload) :=
  inferInstanceAs (Decidable (_ ∧ _))

/-- What came to the daemons that have a handler and asks for an answer. -/
def queries (os : List (Happening E ι κ)) : List (ι × Datagram E) :=
  (deliveredOf os).filter fun x => (g.organization x.1).isSome ∧ IsQuery x.2.payload

/-- A datagram answers another: it goes back from the daemon to where that came from, and says who
the daemon is, with as much of the name as there is room for. -/
def Answers (x y : ι × Datagram E) : Prop :=
  y.1 = x.1 ∧ y.2.source = g.daemon x.1 ∧ y.2.destination = x.2.source ∧
    ∃ o ∈ g.organization x.1, ∃ reply : Discover, y.2.payload = Discover.layout.pack reply ∧
      reply.magic = -1 ∧ reply.ip = o.ip ∧ reply.port = 0 ∧
        o.name.take 25 <+: cString reply.name.toList ∧
          (o.name.length < 25 → cString reply.name.toList = o.name)

/-- The datagram overwrites nothing that is in use. -/
def Harmless (_ : Network E ι κ) : Event E ι κ → Prop
  | .deliver _ _ inUse _ _ => inUse = false
  | _ => True

/-- It is still there when the handler of the receive runs. -/
def Finds (σ : Network E ι κ) : Event E ι κ → Prop
  | .deliver _ k _ discover _ => ∀ q ∈ σ.soup[k]?, sizeofDiscover ≤ q.payload.length →
      Discover.layout.pack discover = q.payload.take sizeofDiscover
  | _ => True

/-- A datagram can be written into the local of a `DoReceive` that has returned, and read there. -/
def Meets (σ : Network E ι κ) (event : Event E ι κ) : Prop := Harmless σ event ∧ Finds σ event

instance (σ : Network E ι κ) (event : Event E ι κ) : Decidable (Harmless σ event) :=
  match event with
  | .deliver _ _ inUse _ _ => inferInstanceAs (Decidable (inUse = false))
  | .fail _ _ | .sender _ _ | .inject _ | .exited _ _ => inferInstanceAs (Decidable True)

instance (σ : Network E ι κ) (event : Event E ι κ) : Decidable (Finds σ event) :=
  match event with
  | .deliver _ k _ discover _ => inferInstanceAs (Decidable (∀ q ∈ σ.soup[k]?,
      sizeofDiscover ≤ q.payload.length →
        Discover.layout.pack discover = q.payload.take sizeofDiscover))
  | .fail _ _ | .sender _ _ | .inject _ | .exited _ _ => inferInstanceAs (Decidable True)

instance (σ : Network E ι κ) (event : Event E ι κ) : Decidable (Meets σ event) :=
  inferInstanceAs (Decidable (_ ∧ _))

/-- No answer asks for one. -/
lemma not_isQuery_pack {reply : Discover} (h : reply.magic = -1) :
    ¬IsQuery (Discover.layout.pack reply) := by
  rintro ⟨-, hmagic⟩
  have htake : (Discover.layout.pack reply).take sizeofDiscover = Discover.layout.pack reply :=
    List.take_of_length_le (Discover.layout.length_pack reply).le
  rw [htake, Discover.layout.unpack_pack, h] at hmagic
  exact absurd hmagic (by decide)

/-! ## The daemons and the senders -/

/-- What a daemon does with a datagram that overwrites nothing. -/
def reaction (i : ι) (q : Datagram E) (discover memory : Discover) : List (Happening E ι κ) :=
  if q.payload.length < sizeofDiscover then []
  else
    match g.organization i with
    | none => [.fault i]
    | some o =>
        if discover.magic < 0 then []
        else [.replied i ⟨g.daemon i, q.source,
          Discover.layout.pack (o.handler.response memory)⟩]

/-- The daemons have the handlers they were started with, and the senders are where they may be. -/
structure Ready (σ : Network E ι κ) : Prop where
  handler_eq : ∀ i, (σ.daemons i).mMessageHandler = (g.organization i).map Organization.handler
  maySend : ∀ j, (σ.senders j).MaySend

section Ready

variable {g} {σ : Network E ι κ}

lemma ready_start : Ready g (start g) := ⟨fun _ => rfl, fun _ => Sender.maySend_start⟩

/-- One daemon changes, and has the handler it had. -/
lemma Ready.update_daemon [DecidableEq ι] (h : Ready g σ) {i : ι} {s : MSocket E}
    (hs : s.mMessageHandler = (g.organization i).map Organization.handler) :
    Ready g { σ with daemons := Function.update σ.daemons i s } := by
  refine ⟨fun i' => ?_, h.maySend⟩
  by_cases hi : i' = i
  · subst hi
    dsimp only
    rw [Function.update_self, hs]
  · dsimp only
    rw [Function.update_of_ne hi]
    exact h.handler_eq i'

lemma Ready.after (h : Ready g σ) {out : List (Happening E ι κ)} : Ready g (σ.after out).1 :=
  ⟨h.handler_eq, h.maySend⟩

/-- What the socket of a daemon does. -/
lemma Ready.map_onReceived (h : Ready g σ) (i : ι) (q : Datagram E) (discover memory : Discover) :
    (((σ.daemons i).onReceived .success q.source (min q.payload.length sizeofDiscover) false
      discover memory).2.map (happening g i) : List (Happening E ι κ)) =
        reaction g i q discover memory := by
  rw [reaction]
  rcases Nat.lt_or_ge q.payload.length sizeofDiscover with hlt | hle
  · rw [MSocket.onReceived_of_lt _ _ hlt, if_pos hlt]
    rfl
  · rw [MSocket.onReceived_of_le _ _ hle, if_neg (Nat.not_lt.mpr hle), h.handler_eq i]
    cases g.organization i with
    | none => rfl
    | some o =>
      by_cases hmagic : discover.magic < 0
      · simp [Organization.handler, FindOrganization.filtOut, hmagic]
      · have honMessage : o.handler.onMessage memory discover =
            some (o.handler.response memory) := rfl
        simp [FindOrganization.filtOut, hmagic, honMessage, happening]

/-- A daemon that finds what a datagram holds answers it just when it asks for an answer. -/
lemma repliedOf_reaction {i : ι} {q : Datagram E} {discover : Discover} (memory : Discover)
    (hfound : sizeofDiscover ≤ q.payload.length →
      Discover.layout.pack discover = q.payload.take sizeofDiscover) :
    if (g.organization i).isSome ∧ IsQuery q.payload then
      ∃ o ∈ g.organization i, repliedOf (reaction g i q discover memory : List (Happening E ι κ)) =
        [(i, ⟨g.daemon i, q.source, Discover.layout.pack (o.handler.response memory)⟩)]
    else repliedOf (reaction g i q discover memory : List (Happening E ι κ)) = [] := by
  rw [reaction]
  rcases Nat.lt_or_ge q.payload.length sizeofDiscover with hlt | hle
  · rw [if_neg fun h => absurd h.2.1 (Nat.not_le.mpr hlt), if_pos hlt]
    rfl
  · have hmagic : (Discover.layout.unpack (q.payload.take sizeofDiscover)).magic =
        discover.magic := by rw [← hfound hle, Discover.layout.unpack_pack]
    simp only [IsQuery, hmagic, hle, true_and, if_neg (Nat.not_lt.mpr hle)]
    cases g.organization i with
    | none => exact rfl
    | some o =>
      by_cases hneg : discover.magic < 0
      · rw [if_neg fun h => Int32.not_le.mpr hneg h.2]
        simp [hneg, repliedOf]
      · rw [if_pos ⟨rfl, Int32.not_lt.mp hneg⟩]
        exact ⟨o, rfl, by simp [hneg, repliedOf]⟩

/-- What a daemon sends is an answer. -/
lemma not_isQuery_reaction {i : ι} {q : Datagram E} {discover memory : Discover} :
    ∀ q' ∈ (reaction g i q discover memory : List (Happening E ι κ)).filterMap Happening.datagram,
      ¬IsQuery q'.payload := by
  rw [reaction]
  split
  · exact fun q' hq' => absurd hq' List.not_mem_nil
  · split
    · exact fun q' hq' => absurd hq' List.not_mem_nil
    · split
      · exact fun q' hq' => absurd hq' List.not_mem_nil
      · intro q' hq'
        obtain rfl := List.mem_singleton.mp hq'
        exact not_isQuery_pack rfl

/-- The answer of a daemon says who it is. -/
lemma answers_response {i : ι} {q : Datagram E} {o : Organization} (ho : o ∈ g.organization i)
    (memory : Discover) : Answers g (i, q)
      (i, ⟨g.daemon i, q.source, Discover.layout.pack (o.handler.response memory)⟩) := by
  obtain ⟨hbegins, hname⟩ :=
    FindOrganization.cString_name_response o.memory o.ip o.name_ne_zero memory
  exact ⟨rfl, rfl, rfl, o, ho, _, rfl, rfl, rfl, rfl, hbegins, hname⟩

end Ready

/-! ## Queries and answers -/

/-- Every datagram that asks for an answer has come from elsewhere, and each that came to a daemon
with a handler was answered, once and in order. -/
structure Orderly (σ : Network E ι κ) (os : List (Happening E ι κ)) : Prop where
  soup : ∀ q ∈ σ.soup, .injected q ∈ os ∨ ¬IsQuery q.payload
  asked : ∀ x ∈ queries g os, .injected x.2 ∈ os
  answered : List.Forall₂ (Answers g) (queries g os) (repliedOf os)

section Answering

variable {g} {σ σ' : Network E ι κ} {os out : List (Happening E ι κ)}

lemma queries_append (os os' : List (Happening E ι κ)) :
    queries g (os ++ os') = queries g os ++ queries g os' := by
  rw [queries, deliveredOf_append, List.filter_append]
  rfl

lemma deliveredOf_reaction (i : ι) (q : Datagram E) (discover memory : Discover) :
    deliveredOf (reaction g i q discover memory : List (Happening E ι κ)) = [] := by
  rw [reaction]
  split
  · rfl
  · split
    · rfl
    · split <;> rfl

/-- What one delivery adds to the queries and the answers. -/
lemma Orderly.deliver (h : Orderly g σ os) {i : ι} {q : Datagram E} {discover memory : Discover}
    (hq : q ∈ σ.soup) (hfound : sizeofDiscover ≤ q.payload.length →
      Discover.layout.pack discover = q.payload.take sizeofDiscover)
    (hout : out = .delivered i q :: reaction g i q discover memory)
    (hsoup : σ'.soup = σ.soup ++ out.filterMap Happening.datagram) :
    Orderly g σ' (os ++ out) := by
  obtain ⟨hinjected, hasked, hanswered⟩ := h
  have hkeeps : ∀ q' : Datagram E, .injected q' ∈ os → .injected q' ∈ os ++ out :=
    fun q' hmem => List.mem_append_left _ hmem
  have hqueries : queries g out =
      if (g.organization i).isSome ∧ IsQuery q.payload then [(i, q)] else [] := by
    rw [hout, queries, ← List.singleton_append, deliveredOf_append, deliveredOf_reaction,
      List.append_nil, show deliveredOf [Happening.delivered (κ := κ) i q] = [(i, q)] from rfl,
      List.filter_singleton]
    simp
  have hreplied : repliedOf out = repliedOf (reaction g i q discover memory) := by
    rw [hout]
    rfl
  have hreaction := repliedOf_reaction (g := g) (κ := κ) (i := i) memory hfound
  refine ⟨fun q' hq' => ?_, fun x hx => ?_, ?_⟩
  · rw [hsoup, List.mem_append] at hq'
    rcases hq' with hq' | hq'
    · exact (hinjected q' hq').imp (hkeeps q') id
    · rw [hout] at hq'
      exact Or.inr (not_isQuery_reaction q' hq')
  · rw [queries_append, List.mem_append, hqueries] at hx
    rcases hx with hx | hx
    · exact hkeeps x.2 (hasked x hx)
    · split at hx
      · next hquery =>
        obtain rfl := List.mem_singleton.mp hx
        exact hkeeps q ((hinjected q hq).resolve_right fun hnot => hnot hquery.2)
      · cases hx
  · rw [queries_append, repliedOf_append, hqueries, hreplied]
    by_cases hquery : (g.organization i).isSome ∧ IsQuery q.payload
    · rw [if_pos hquery] at hreaction ⊢
      obtain ⟨o, ho, heq⟩ := hreaction
      rw [heq]
      exact List.rel_append hanswered (.cons (answers_response ho memory) .nil)
    · rw [if_neg hquery] at hreaction ⊢
      rwa [hreaction, List.append_nil, List.append_nil]

/-- What else happens asks for nothing. -/
lemma Orderly.other (h : Orderly g σ os)
    (hout : ∀ o ∈ out, (∃ q, o = .injected q) ∨
      ∃ j q, o = .announced j q ∧ q.payload.length < sizeofDiscover)
    (hsoup : σ'.soup = σ.soup ++ out.filterMap Happening.datagram) :
    Orderly g σ' (os ++ out) := by
  obtain ⟨hinjected, hasked, hanswered⟩ := h
  have hdelivered : deliveredOf out = [] := by
    refine List.filterMap_eq_nil_iff.mpr fun o ho => ?_
    obtain ⟨q, rfl⟩ | ⟨j, q, rfl, -⟩ := hout o ho <;> rfl
  have hreplied : repliedOf out = [] := by
    refine List.filterMap_eq_nil_iff.mpr fun o ho => ?_
    obtain ⟨q, rfl⟩ | ⟨j, q, rfl, -⟩ := hout o ho <;> rfl
  have hqueries : queries g (os ++ out) = queries g os := by
    rw [queries, deliveredOf_append, hdelivered, List.append_nil, queries]
  refine ⟨fun q hq => ?_, fun x hx => ?_, ?_⟩
  · rw [hsoup, List.mem_append, List.mem_filterMap] at hq
    rcases hq with hq | ⟨o, ho, hdatagram⟩
    · exact (hinjected q hq).imp (List.mem_append_left _) id
    · obtain ⟨q', rfl⟩ | ⟨j, q', rfl, hlt⟩ := hout o ho
      · obtain rfl := Option.some.inj hdatagram
        exact Or.inl (List.mem_append_right _ ho)
      · obtain rfl := Option.some.inj hdatagram
        exact Or.inr fun hquery => absurd hquery.1 (Nat.not_le.mpr hlt)
  · rw [hqueries] at hx
    exact List.mem_append_left _ (hasked x hx)
  · rwa [hqueries, repliedOf_append, hreplied, List.append_nil]

end Answering

/-! ## Daemons that are not heard -/

/-- Just the daemons fail that have no handler and have got something as long as a `Discover`. -/
def FailsUnhandled (os : List (Happening E ι κ)) : Prop :=
  ∀ i, .fault i ∈ os ↔ g.organization i = none ∧
    ∃ q, .delivered i q ∈ os ∧ sizeofDiscover ≤ q.payload.length

/-- No datagram is as long as a `Discover`, and there is no answer. -/
structure Unheard (σ : Network E ι κ) (os : List (Happening E ι κ)) : Prop where
  soup : ∀ q ∈ σ.soup, q.payload.length < sizeofDiscover
  delivered : ∀ i q, .delivered i q ∈ os → q.payload.length < sizeofDiscover
  replied : repliedOf os = []

section Reaction

variable {g} {i i' : ι} {q q' : Datagram E} {discover memory : Discover}

lemma fault_mem_reaction_iff :
    (.fault i' : Happening E ι κ) ∈ reaction g i q discover memory ↔
      i' = i ∧ g.organization i = none ∧ sizeofDiscover ≤ q.payload.length := by
  rw [reaction]
  split
  · next hlt => simp [Nat.not_le.mpr hlt]
  · next hle =>
    split
    · next hnone => simp [hnone, Nat.not_lt.mp hle]
    · next o ho => split <;> simp [ho]

lemma not_delivered_mem_reaction :
    ¬(.delivered i' q' : Happening E ι κ) ∈ reaction g i q discover memory := by
  rw [reaction]
  split
  · exact List.not_mem_nil
  · split
    · simp
    · split <;> simp

end Reaction

/-! ## Every step -/

variable [DecidableEq E] [DecidableEq ι] [DecidableEq κ]

/-- The handler of a receive has run. -/
def receiving (σ : Network E ι κ) (i : ι) (q : Datagram E)
    (result : MSocket E × List (MSocket.Effect E)) : Network E ι κ × List (Happening E ι κ) :=
  { σ with daemons := Function.update σ.daemons i result.1 }.after
    (.delivered i q :: result.2.map (happening g i))

/-- The network. -/
def step : Machine (Network E ι κ) (Event E ι κ) (Happening E ι κ)
  | σ, .deliver i k inUse discover memory =>
      match σ.soup[k]? with
      | none => none
      | some q =>
          if (σ.daemons i).receiving ∧
              (q.destination = g.daemon i ∨ q.destination = g.multicast) then
            -- what does not fit into the buffer is cut off
            some (receiving g σ i q ((σ.daemons i).onReceived .success q.source
              (min q.payload.length sizeofDiscover) inUse discover memory))
          else none
  | σ, .fail i ec =>
      if (σ.daemons i).receiving ∧ ec ≠ .success then
        some ({ σ with
          daemons := Function.update σ.daemons i { σ.daemons i with receiving := false } }, [])
      else none
  | σ, .sender j event =>
      match (σ.senders j).step event with
      | none => none
      | some (s, payloads) =>
          some ({ σ with senders := Function.update σ.senders j s }.after
            (payloads.map fun payload => .announced j ⟨g.sender j, g.multicast, payload⟩))
  | σ, .inject q => some (σ.after [.injected q])
  | σ, .exited i pid =>
      let s := { σ.daemons i with mMessageHandler :=
        (σ.daemons i).mMessageHandler.map (·.waitOrganizationExit pid) }
      some ({ σ with daemons := Function.update σ.daemons i s }, [])

section Steps

variable {g} {σ σ' : Network E ι κ} {event : Event E ι κ} {os out : List (Happening E ι κ)}

lemma Ready.step (h : Ready g σ) (hstep : Network.step g σ event = some (σ', out)) :
    Ready g σ' := by
  cases event with
  | deliver i k inUse discover memory =>
    rw [Network.step] at hstep
    split at hstep
    · cases hstep
    · obtain ⟨-, hsome⟩ := Option.ite_none_right_eq_some.mp hstep
      obtain rfl : _ = σ' := congrArg Prod.fst (Option.some.inj hsome)
      have hhandler := MSocket.mMessageHandler_onReceived (σ.daemons i)
      exact (h.update_daemon ((hhandler _ _ _ _ _ _).trans (h.handler_eq i))).after
  | fail i ec =>
    obtain ⟨-, hsome⟩ := Option.ite_none_right_eq_some.mp hstep
    obtain ⟨rfl, -⟩ := Prod.mk.inj (Option.some.inj hsome)
    exact h.update_daemon (h.handler_eq i)
  | sender j event =>
    rw [Network.step] at hstep
    split at hstep
    · cases hstep
    · next s payloads hsender =>
      obtain ⟨rfl, -⟩ := Prod.mk.inj (Option.some.inj hstep)
      refine ⟨h.handler_eq, fun j' => ?_⟩
      by_cases hj : j' = j
      · subst hj
        simp only [Function.update_self]
        exact (Sender.maySend_step (h.maySend j') hsender).1
      · simp only [Function.update_of_ne hj]
        exact h.maySend j'
  | inject q =>
    obtain ⟨rfl, -⟩ := Prod.mk.inj (Option.some.inj hstep)
    exact ⟨h.handler_eq, h.maySend⟩
  | exited i pid =>
    obtain ⟨rfl, -⟩ := Prod.mk.inj (Option.some.inj hstep)
    refine h.update_daemon ?_
    dsimp only
    rw [h.handler_eq i, Option.map_map]
    exact congrArg (fun f => (g.organization i).map f)
      (funext fun o => o.waitOrganizationExit_handler pid)

/-- A step that overwrites nothing delivers a datagram that is there, or nothing comes to the
daemons; and what is sent is there afterwards. -/
lemma Ready.step_cases (h : Ready g σ) (hharmless : Harmless σ event)
    (hstep : Network.step g σ event = some (σ', out)) :
    σ'.soup = σ.soup ++ out.filterMap Happening.datagram ∧
      ((∃ i k discover memory q, event = .deliver i k false discover memory ∧ σ.soup[k]? = some q ∧
          out = .delivered i q :: reaction g i q discover memory) ∨
        ∀ o ∈ out, (∃ q, o = .injected q) ∨
          ∃ j q, o = .announced j q ∧ q.payload.length < sizeofDiscover) := by
  cases event with
  | deliver i k inUse discover memory =>
    obtain rfl : inUse = false := hharmless
    rw [Network.step] at hstep
    split at hstep
    · cases hstep
    · next q hq =>
      obtain ⟨-, hsome⟩ := Option.ite_none_right_eq_some.mp hstep
      have hresult := Option.some.inj hsome
      obtain rfl : _ = σ' := congrArg Prod.fst hresult
      obtain rfl : _ = out := congrArg Prod.snd hresult
      refine ⟨rfl, Or.inl ⟨i, k, discover, memory, q, rfl, hq, ?_⟩⟩
      exact congrArg (Happening.delivered i q :: ·) (h.map_onReceived i q discover memory)
  | fail i ec =>
    obtain ⟨-, hsome⟩ := Option.ite_none_right_eq_some.mp hstep
    obtain ⟨rfl, rfl⟩ := Prod.mk.inj (Option.some.inj hsome)
    exact ⟨(List.append_nil _).symm, Or.inr fun o ho => absurd ho List.not_mem_nil⟩
  | sender j event =>
    rw [Network.step] at hstep
    split at hstep
    · cases hstep
    · next s payloads hsender =>
      obtain ⟨rfl, rfl⟩ := Prod.mk.inj (Option.some.inj hstep)
      refine ⟨rfl, Or.inr fun o ho => ?_⟩
      obtain ⟨payload, hpayload, rfl⟩ := List.mem_map.mp ho
      obtain ⟨k, hk, rfl⟩ := (Sender.maySend_step (h.maySend j) hsender).2 payload hpayload
      exact Or.inr ⟨j, _, rfl, Sender.length_text_lt hk⟩
  | inject q =>
    obtain ⟨rfl, rfl⟩ := Prod.mk.inj (Option.some.inj hstep)
    exact ⟨rfl, Or.inr fun o ho => Or.inl ⟨q, List.mem_singleton.mp ho⟩⟩
  | exited i pid =>
    obtain ⟨rfl, rfl⟩ := Prod.mk.inj (Option.some.inj hstep)
    exact ⟨(List.append_nil _).symm, Or.inr fun o ho => absurd ho List.not_mem_nil⟩

end Steps

/-! ## Runs -/

section Runs

variable {g} {σ σ' : Network E ι κ} {event : Event E ι κ} {os out : List (Happening E ι κ)}

lemma Orderly.step (h : Orderly g σ os) (hready : Ready g σ) (hmeets : Meets σ event)
    (hstep : Network.step g σ event = some (σ', out)) : Orderly g σ' (os ++ out) := by
  obtain ⟨hsoup, ⟨i, k, discover, memory, q, rfl, hq, hout⟩ | hout⟩ :=
    hready.step_cases hmeets.1 hstep
  · exact h.deliver (List.mem_of_getElem? hq) (hmeets.2 q hq) hout hsoup
  · exact h.other hout hsoup

/-- In every run in which the datagrams overwrite nothing and the handlers of the receives find what
they hold, whatever comes from elsewhere, is lost, comes again or in another order: a daemon answers
just the datagrams that have come to it from elsewhere with a `Discover` whose magic is not
negative, each once, and to where it came from.  No answer is answered. -/
theorem answers_queries {es : List (Event E ι κ)}
    (hrun : Machine.Run (Network.step g) (start g) es σ os)
    (halong : Machine.Along (Network.step g) Meets (start g) es) :
    (∀ x ∈ queries g os, .injected x.2 ∈ os) ∧
      List.Forall₂ (Answers g) (queries g os) (repliedOf os) := by
  have hinv : Ready g σ ∧ Orderly g σ os := hrun.invariant_of_along
    (I := fun σ os => Ready g σ ∧ Orderly g σ os)
    ⟨ready_start, fun _ hq => absurd hq List.not_mem_nil, fun _ hx => absurd hx List.not_mem_nil,
      .nil⟩
    (fun _ _ _ _ _ hinv hmeets hstep =>
      ⟨hinv.1.step hstep, hinv.2.step hinv.1 hmeets hstep⟩) halong
  exact ⟨hinv.2.asked, hinv.2.answered⟩

/-- A daemon with the name `a`. -/
def organizationA : Organization where
  memory := List.Vector.replicate 32 0xff
  ip := 0x0a000001
  name := [97]
  name_ne_zero := List.forall_mem_singleton.mpr (by decide)

/-- A group of one daemon. -/
def oneDaemon (o : Option Organization) : Group ℕ Unit Unit where
  multicast := 0
  daemon _ := 1
  sender _ := 2
  organization _ := o

/-- Its daemon with a handler, and without. -/
def answering : Group ℕ Unit Unit := oneDaemon (some organizationA)

@[inherit_doc answering]
def unanswering : Group ℕ Unit Unit := oneDaemon none

/-- A `Discover` that asks for an answer. -/
def askAll : Discover := ⟨0, 0, 0, List.Vector.replicate 32 0⟩

/-- A message of a sender comes, a query under the address of the daemon itself, and then the answer
to that. -/
def askedForItself : List (Event ℕ Unit Unit) :=
  [.sender () .construct, .deliver () 0 false askAll askAll,
    .inject ⟨1, 0, Discover.layout.pack askAll⟩, .deliver () 1 false askAll askAll,
    .deliver () 2 false (organizationA.handler.response askAll) askAll]

/-- There is one answer. -/
theorem answers_queries_askedForItself : ∃ (σ : Network ℕ Unit Unit) (os : _),
    Machine.Run (Network.step answering) (start answering) askedForItself σ os ∧
      ((∀ x ∈ queries answering os, .injected x.2 ∈ os) ∧
        List.Forall₂ (Answers answering) (queries answering os) (repliedOf os)) ∧
      (deliveredOf os).length = 3 ∧ (repliedOf os).length = 1 := by
  have hend : (Machine.exec (Network.step answering) (start answering)
      askedForItself).map (fun r => ((deliveredOf r.2).length, (repliedOf r.2).length)) =
        some (3, 1) := by decide +kernel
  obtain ⟨⟨σ, os⟩, hexec, hlengths⟩ := Option.map_eq_some_iff.mp hend
  obtain ⟨hdelivered, hreplied⟩ := Prod.mk.inj hlengths
  exact ⟨σ, os, Machine.run_iff_exec.mpr hexec,
    answers_queries (Machine.run_iff_exec.mpr hexec) (by decide +kernel), hdelivered, hreplied⟩

lemma FailsUnhandled.step (h : FailsUnhandled g os) (hready : Ready g σ)
    (hharmless : Harmless σ event) (hstep : Network.step g σ event = some (σ', out)) :
    FailsUnhandled g (os ++ out) := by
  intro i
  simp only [List.mem_append, h i]
  obtain ⟨-, ⟨i', k, discover, memory, q, rfl, -, rfl⟩ | hout⟩ :=
    hready.step_cases hharmless hstep
  · simp only [List.mem_cons, fault_mem_reaction_iff, not_delivered_mem_reaction,
      Happening.delivered.injEq, reduceCtorEq, false_or, or_false]
    constructor
    · rintro (⟨hnone, q', hq', hlong⟩ | ⟨rfl, hnone, hlong⟩)
      · exact ⟨hnone, q', Or.inl hq', hlong⟩
      · exact ⟨hnone, q, Or.inr ⟨rfl, rfl⟩, hlong⟩
    · rintro ⟨hnone, q', hq' | ⟨rfl, rfl⟩, hlong⟩
      · exact Or.inl ⟨hnone, q', hq', hlong⟩
      · exact Or.inr ⟨rfl, hnone, hlong⟩
  · have hfault : .fault i ∉ out := fun hmem => by
      obtain ⟨q, hq⟩ | ⟨j, q, hq, -⟩ := hout _ hmem <;> cases hq
    have hdelivered : ∀ q, .delivered i q ∉ out := fun q hmem => by
      obtain ⟨q, hq⟩ | ⟨j, q, hq, -⟩ := hout _ hmem <;> cases hq
    simp only [hfault, hdelivered, or_false]

lemma Unheard.step (h : Unheard σ os) (hready : Ready g σ) (hharmless : Harmless σ event)
    (hnone : ∀ q, .injected q ∉ os ++ out)
    (hstep : Network.step g σ event = some (σ', out)) : Unheard σ' (os ++ out) := by
  obtain ⟨hsoup, hshort, hreplied⟩ := h
  obtain ⟨hgrows, ⟨i, k, discover, memory, q, rfl, hq, rfl⟩ | hout⟩ :=
    hready.step_cases hharmless hstep
  · have hlt := hsoup q (List.mem_of_getElem? hq)
    rw [reaction, if_pos hlt] at hgrows ⊢
    refine ⟨fun q' hq' => ?_, fun i' q' hq' => ?_, ?_⟩
    · rw [hgrows] at hq'
      exact hsoup q' (by simpa [Happening.datagram] using hq')
    · rcases List.mem_append.mp hq' with hq' | hq'
      · exact hshort i' q' hq'
      · obtain ⟨-, rfl⟩ := Happening.delivered.inj (List.mem_singleton.mp hq')
        exact hlt
    · rw [repliedOf_append, hreplied]
      rfl
  · refine ⟨fun q hq => ?_, fun i q hq => ?_, ?_⟩
    · rw [hgrows, List.mem_append, List.mem_filterMap] at hq
      rcases hq with hq | ⟨o, ho, hdatagram⟩
      · exact hsoup q hq
      · obtain ⟨q', rfl⟩ | ⟨j, q', rfl, hlt⟩ := hout o ho
        · exact absurd (List.mem_append_right os ho) (hnone q')
        · obtain rfl := Option.some.inj hdatagram
          exact hlt
    · rcases List.mem_append.mp hq with hq | hq
      · exact hshort i q hq
      · obtain ⟨q', hq'⟩ | ⟨j, q', hq', -⟩ := hout _ hq <;> cases hq'
    · rw [repliedOf_append, hreplied, List.nil_append]
      refine List.filterMap_eq_nil_iff.mpr fun o ho => ?_
      obtain ⟨q, rfl⟩ | ⟨j, q, rfl, -⟩ := hout o ho <;> rfl

lemma fault_mem_iff {es : List (Event E ι κ)}
    (hrun : Machine.Run (Network.step g) (start g) es σ os)
    (halong : Machine.Along (Network.step g) Harmless (start g) es) (i : ι) :
    .fault i ∈ os ↔ g.organization i = none ∧
      ∃ q, .delivered i q ∈ os ∧ sizeofDiscover ≤ q.payload.length := by
  have hinv : Ready g σ ∧ FailsUnhandled g os := hrun.invariant_of_along
    (I := fun σ os => Ready g σ ∧ FailsUnhandled g os)
    ⟨ready_start, fun i => ⟨fun hi => absurd hi List.not_mem_nil,
      fun ⟨_, _, hq, _⟩ => absurd hq List.not_mem_nil⟩⟩
    (fun _ _ _ _ _ hinv hharmless hstep =>
      ⟨hinv.1.step hstep, hinv.2.step hinv.1 hharmless hstep⟩) halong
  exact hinv.2 i

/-- As long as nothing comes from elsewhere, all datagrams are messages of the senders. -/
lemma unheard_of_run {es : List (Event E ι κ)}
    (hrun : Machine.Run (Network.step g) (start g) es σ os)
    (halong : Machine.Along (Network.step g) Harmless (start g) es)
    (hnone : ∀ q, .injected q ∉ os) : Unheard σ os := by
  have hinv : Ready g σ ∧ ((∀ q, .injected q ∉ os) → Unheard σ os) := hrun.invariant_of_along
    (I := fun σ os => Ready g σ ∧ ((∀ q, .injected q ∉ os) → Unheard σ os))
    ⟨ready_start, fun _ => ⟨fun _ hq => absurd hq List.not_mem_nil,
      fun _ _ hq => absurd hq List.not_mem_nil, rfl⟩⟩
    (fun _ _ _ _ _ hinv hharmless hstep => ⟨hinv.1.step hstep, fun hnone =>
      (hinv.2 fun q hq => hnone q (List.mem_append_left _ hq)).step hinv.1 hharmless hnone hstep⟩)
    halong
  exact hinv.2 hnone

/-- In every run in which the datagrams overwrite nothing, a daemon fails just when its handler is
not set and something as long as a `Discover` has come to it; and as long as only the senders send,
no daemon fails and none answers, with or without a handler: what a sender sends is dropped by its
length. -/
theorem senders_unheard {es : List (Event E ι κ)}
    (hrun : Machine.Run (Network.step g) (start g) es σ os)
    (halong : Machine.Along (Network.step g) Harmless (start g) es) :
    (∀ i, .fault i ∈ os ↔ g.organization i = none ∧
      ∃ q, .delivered i q ∈ os ∧ sizeofDiscover ≤ q.payload.length) ∧
    ((∀ q, .injected q ∉ os) → (∀ i, .fault i ∉ os) ∧ repliedOf os = []) := by
  refine ⟨fault_mem_iff hrun halong, fun hnone => ?_⟩
  obtain ⟨-, hshort, hreplied⟩ := unheard_of_run hrun halong hnone
  refine ⟨fun i hfault => ?_, hreplied⟩
  obtain ⟨-, q, hq, hlong⟩ := (fault_mem_iff hrun halong i).mp hfault
  exact absurd (hshort i q hq) (Nat.not_lt.mpr hlong)

/-- A message of a sender comes to a daemon without a handler. -/
theorem senders_unheard_oneDaemon : ∃ (σ : Network ℕ Unit Unit) (os : _),
    Machine.Run (Network.step unanswering) (start unanswering)
      [.sender () .construct, .deliver () 0 false askAll askAll] σ os ∧
    ((∀ i, .fault i ∈ os ↔ unanswering.organization i = none ∧
        ∃ q, .delivered i q ∈ os ∧ sizeofDiscover ≤ q.payload.length) ∧
      ((∀ q, .injected q ∉ os) → (∀ i, .fault i ∉ os) ∧ repliedOf os = [])) ∧
    (deliveredOf os).length = 1 := by
  have hend : (Machine.exec (Network.step unanswering) (start unanswering)
      [.sender () .construct, .deliver () 0 false askAll askAll]).map
        (fun r => (deliveredOf r.2).length) = some 1 := by decide +kernel
  obtain ⟨⟨σ, os⟩, hexec, hdelivered⟩ := Option.map_eq_some_iff.mp hend
  exact ⟨σ, os, Machine.run_iff_exec.mpr hexec,
    senders_unheard (Machine.run_iff_exec.mpr hexec) (by decide +kernel), hdelivered⟩

end Runs

end Network

end OldPart
