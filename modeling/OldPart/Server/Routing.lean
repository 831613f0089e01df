import OldPart.Server.Lifetime
import OldPart.Socket.WriteOrder

/-!
# What a server sends to its peers

A message goes to the connection that was accepted first under the name of the peer.  A task waits
for it there on the `io_context` of the socket, and hands it to `async_write`.
-/

namespace OldPart

namespace Lifetime

variable {e : Endpoint} (findInMapping : UInt32 → UInt16 → String)

/-! ## What is meant by the events -/

/-- A signal comes. -/
def Event.isSignal : Event → Bool
  | .signal => true
  | _ => false

/-- The name of the peer whose connection has come. -/
def Event.peer : Event → Option String
  | .accept ec remote =>
      if ec = .success then remote.map fun (address, port) => findInMapping address port else none
  | _ => none

/-- The names of the peers whose connections have been accepted, in order. -/
def peers : List Event → List String
  | [] => []
  | event :: es => if event.isSignal then [] else (event.peer findInMapping).toList ++ peers es

/-- The connection that was accepted first under a name. -/
def firstOf (es : List Event) (peer : String) : Option ℕ :=
  (peers findInMapping es).findIdx? fun name => name = peer

/-- The message for a connection: one that is sent to the peer whose first connection it is. -/
def messageFor (i : ℕ) (pre : List Event) : Event → List OMessage
  | .send peer pMessage => if firstOf findInMapping pre peer = some i then [pMessage] else []
  | _ => []

/-- What `TServer::Send` returns: whether a connection has ever been accepted under the name. -/
def resultOf (pre : List Event) : Event → List Bool
  | .send peer _ => [(firstOf findInMapping pre peer).isSome]
  | _ => []

/-! ## What is done -/

/-- The effects of a socket. -/
def effectsOf (i : ℕ) (os : List Output) : List Effect :=
  os.filterMap fun o => match o with
    | .socket j effect => if j = i then some effect else none
    | .server _ | .threw _ => none

/-- What the calls of `TServer::Send` have returned. -/
def returned (os : List Output) : List Bool :=
  os.filterMap fun o => match o with
    | .server (.returned result) => some result
    | _ => none

/-- The messages of the tasks that are posted for a socket. -/
def postedOn (σ : Lifetime e) (i : ℕ) : List OMessage :=
  (σ.accepted[i]?.map PooledSocket.posted).getD []

section Histories

variable {findInMapping} {es es' : List Event} {event : Event} {os os' : List Output} {i j : ℕ}

/-- After a signal no connection is accepted. -/
lemma peers_concat : peers findInMapping (es ++ [event]) = peers findInMapping es ++
    if es.any Event.isSignal then [] else (event.peer findInMapping).toList := by
  induction es with
  | nil =>
    rw [List.nil_append, peers, peers, peers, List.append_nil, List.nil_append]
    cases event <;> rfl
  | cons first es ih =>
    rw [List.cons_append, peers, ih, peers, List.any_cons]
    cases first.isSignal with
    | true => rfl
    | false => exact (List.append_assoc _ _ _).symm

lemma peers_concat_of_none (h : event.peer findInMapping = none) :
    peers findInMapping (es ++ [event]) = peers findInMapping es := by
  rw [peers_concat, h]
  split <;> exact List.append_nil _

lemma effectsOf_append : effectsOf i (os ++ os') = effectsOf i os ++ effectsOf i os' :=
  List.filterMap_append

lemma returned_append : returned (os ++ os') = returned os ++ returned os' :=
  List.filterMap_append

lemma effectsOf_socket (effects : List Effect) :
    effectsOf i (effects.map (.socket j)) = if j = i then effects else [] := by
  rw [effectsOf, List.filterMap_map]
  split
  · next h => simp [h]
  · next h => simp [h]

lemma returned_socket (effects : List Effect) : returned (effects.map (.socket j)) = [] := by
  rw [returned, List.filterMap_map]
  exact List.filterMap_eq_nil_iff.mpr fun _ _ => rfl

end Histories

/-! ## Runs -/

/-- Each message has been handed to `async_write` of the connection it is meant for, or waits there
behind those that have. -/
structure Routed (es : List Event) (σ : Lifetime e) (os : List Output) : Prop where
  isOpen_eq : σ.server.isOpen = !es.any Event.isSignal
  length_eq : σ.accepted.length = (peers findInMapping es).length
  clients_eq : ∀ peer, σ.server.mClients peer = firstOf findInMapping es peer
  in_order : ∀ i, Outbox.handed (effectsOf i os) ++ σ.postedOn i =
    Machine.meaning (messageFor findInMapping i) [] es
  returned_eq : returned os = Machine.meaning (resultOf findInMapping) [] es

section Routed

variable {findInMapping} {σ σ' : Lifetime e} {es : List Event} {event : Event}
  {os out : List Output}

lemma routed_start {owned : Bool} {pool : IOContextPool} (hstart : start owned pool = .ok σ) :
    Routed findInMapping [] σ [] := by
  obtain ⟨-, rfl⟩ := start_eq_ok_iff.mp hstart
  exact ⟨rfl, rfl, fun _ => rfl, fun _ => rfl, rfl⟩

/-- Nothing but a signal closes the server. -/
lemma Routed.isOpen_concat (h : Routed findInMapping es σ os) (hsignal : event.isSignal = false) :
    σ.server.isOpen = !(es ++ [event]).any Event.isSignal := by
  rw [List.any_append, h.isOpen_eq, List.any_cons, hsignal, List.any_nil, Bool.or_false,
    Bool.or_false]

/-- An event that no connection and no message comes with. -/
lemma Routed.silent (h : Routed findInMapping es σ os)
    (hsend : ∀ peer pMessage, event ≠ .send peer pMessage)
    (hpeers : peers findInMapping (es ++ [event]) = peers findInMapping es)
    (hopen : σ'.server.isOpen = !(es ++ [event]).any Event.isSignal)
    (hlength : σ'.accepted.length = σ.accepted.length)
    (hclients : σ'.server.mClients = σ.server.mClients)
    (hposted : ∀ i, Outbox.handed (effectsOf i out) ++ σ'.postedOn i = σ.postedOn i)
    (hreturned : returned out = []) : Routed findInMapping (es ++ [event]) σ' (os ++ out) := by
  have hmessage : ∀ i, messageFor findInMapping i es event = [] := by
    cases event with
    | send peer pMessage => exact (hsend peer pMessage rfl).elim
    | _ => exact fun _ => rfl
  have hresult : resultOf findInMapping es event = [] := by
    cases event with
    | send peer pMessage => exact (hsend peer pMessage rfl).elim
    | _ => rfl
  refine ⟨hopen, ?_, fun peer => ?_, fun i => ?_, ?_⟩
  · rw [hlength, hpeers, h.length_eq]
  · rw [hclients, firstOf, hpeers]
    exact h.clients_eq peer
  · rw [Machine.meaning_concat, List.nil_append, hmessage, List.append_nil, effectsOf_append,
      Outbox.handed_append, List.append_assoc, hposted, h.in_order]
  · rw [Machine.meaning_concat, List.nil_append, hresult, returned_append, hreturned, h.returned_eq]

/-- A connection is accepted. -/
lemma Routed.accept (hkept : Kept σ) (h : Routed findInMapping es σ os)
    (hopen : σ.server.isOpen = true) (address : UInt32) (port : UInt16) (context : ℕ) :
    Routed findInMapping (es ++ [.accept .success (some (address, port))]) (accepting { σ with
      server := σ.server.onAccept (findInMapping address port)
      accepted := σ.accepted ++ [⟨context, .start, [], true⟩] }) os := by
  have hnone : es.any Event.isSignal = false := by
    simpa [h.isOpen_eq] using hopen
  have hpeers : peers findInMapping (es ++ [.accept .success (some (address, port))]) =
      peers findInMapping es ++ [findInMapping address port] := by
    rw [peers_concat, hnone]
    rfl
  refine ⟨?_, ?_, fun peer => ?_, fun i => ?_, ?_⟩
  · rw [List.any_append, hnone]
    exact hopen
  · rw [hpeers, List.length_append, ← h.length_eq]
    exact List.length_append
  · have hsockets : σ.server.sockets.length = (peers findInMapping es).length :=
      hkept.length_eq.symm.trans h.length_eq
    refine (Table.insert_snd peer).trans ?_
    rw [h.clients_eq, firstOf, firstOf, hpeers, List.findIdx?_append, hsockets,
      List.findIdx?_singleton]
    by_cases hpeer : findInMapping address port = peer
    · simp [hpeer]
    · simp [hpeer, Ne.symm hpeer]
  · have hnone : messageFor findInMapping i es (.accept .success (some (address, port))) = [] :=
      rfl
    rw [Machine.meaning_concat, List.nil_append, hnone, List.append_nil, ← h.in_order i]
    refine congrArg _ ?_
    rw [postedOn, postedOn, accepting, List.getElem?_append, List.getElem?_singleton]
    split
    · rfl
    · next hlt =>
      rw [List.getElem?_eq_none (Nat.le_of_not_lt hlt)]
      split <;> rfl
  · rw [Machine.meaning_concat, ← h.returned_eq]
    exact (List.append_nil _).symm

/-- A message is posted for the first connection of its peer. -/
lemma Routed.sent (h : Routed findInMapping es σ os) {peer : String} {pMessage : OMessage} {i : ℕ}
    (hclient : σ.server.mClients peer = some i) :
    Routed findInMapping (es ++ [.send peer pMessage])
      { σ with accepted :=
          σ.accepted.modify i fun a => { a with posted := a.posted ++ [pMessage] } }
      (os ++ [.server (.socketSend i pMessage), .server (.returned true)]) := by
  have hpeers : peers findInMapping (es ++ [.send peer pMessage]) = peers findInMapping es :=
    peers_concat_of_none rfl
  have hfirst : firstOf findInMapping es peer = some i := (h.clients_eq peer).symm.trans hclient
  refine ⟨h.isOpen_concat rfl, ?_, fun peer' => ?_, fun j => ?_, ?_⟩
  · rw [hpeers, ← h.length_eq]
    exact List.length_modify _ _ _
  · rw [firstOf, hpeers]
    exact h.clients_eq peer'
  · have hnone : effectsOf j [.server (.socketSend i pMessage), .server (.returned true)] = [] :=
      rfl
    rw [Machine.meaning_concat, List.nil_append, effectsOf_append, hnone, List.append_nil,
      messageFor, ← h.in_order j, List.append_assoc, hfirst]
    refine congrArg _ ?_
    obtain ⟨hi, -⟩ := List.findIdx?_eq_some_iff_getElem.mp hfirst
    rw [← h.length_eq] at hi
    rw [postedOn, postedOn, List.getElem?_modify]
    by_cases hij : i = j
    · subst hij
      simp only [List.getElem?_eq_getElem hi, if_true]
      rfl
    · have hne : some i ≠ some j := fun heq => hij (Option.some.inj heq)
      simp only [if_neg hij, if_neg hne, List.append_nil, id_map']
  · rw [Machine.meaning_concat, List.nil_append, returned_append, h.returned_eq, resultOf, hfirst]
    rfl

/-- A message is for a peer that is not known. -/
lemma Routed.unknown (h : Routed findInMapping es σ os) {peer : String} {pMessage : OMessage}
    (hclient : σ.server.mClients peer = none) :
    Routed findInMapping (es ++ [.send peer pMessage]) σ (os ++ [.server (.returned false)]) := by
  have hpeers : peers findInMapping (es ++ [.send peer pMessage]) = peers findInMapping es :=
    peers_concat_of_none rfl
  have hfirst : firstOf findInMapping es peer = none := (h.clients_eq peer).symm.trans hclient
  refine ⟨h.isOpen_concat rfl, ?_, fun peer' => ?_, fun j => ?_, ?_⟩
  · rw [hpeers, h.length_eq]
  · rw [firstOf, hpeers]
    exact h.clients_eq peer'
  · have hnone : effectsOf j [.server (.returned false)] = [] := rfl
    have hno : none ≠ some j := (Option.some_ne_none j).symm
    rw [Machine.meaning_concat, List.nil_append, effectsOf_append, hnone, List.append_nil,
      messageFor, hfirst, if_neg hno, List.append_nil]
    exact h.in_order j
  · rw [Machine.meaning_concat, List.nil_append, returned_append, h.returned_eq, resultOf, hfirst]
    rfl

/-- The receiving side of a socket writes nothing. -/
lemma handed_of_receiver {r r' : Receiver e} {event : Receiver.Event} {effects : List Effect}
    (hstep : r.step event = some (r', effects)) : Outbox.handed effects = [] := by
  have herror : ∀ (r : Receiver e) ec, Outbox.handed (r.onError ec).2 = [] := by
    intro r ec
    rw [Receiver.onError]
    dsimp only
    split <;> rfl
  cases event with
  | head ec m handled =>
    obtain ⟨-, hresult⟩ := Receiver.step_head.mp hstep
    obtain rfl : _ = effects := congrArg Prod.snd hresult
    split
    · unfold Receiver.onHead
      dsimp only
      split_ifs <;> rfl
    · exact herror r ec
  | body ec bytes residue handled =>
    obtain ⟨m, -, hresult⟩ := Receiver.step_body.mp hstep
    split at hresult
    · obtain ⟨-, hbody⟩ := hresult
      obtain rfl : _ = effects := congrArg Prod.snd hbody
      unfold Receiver.onBody
      dsimp only
      split_ifs
      · rfl
      · rfl
      · split
        · rfl
        · next locals os hreassemble =>
          obtain ⟨l, -, hreassemble⟩ := exists_of_bind_eq_ok hreassemble
          dsimp only at hreassemble ⊢
          split at hreassemble
          · obtain ⟨-, rfl⟩ := Prod.mk.inj (Except.ok.inj hreassemble)
            rfl
          · obtain ⟨-, rfl⟩ := Prod.mk.inj (Except.ok.inj hreassemble)
            rfl
    · obtain rfl : _ = effects := congrArg Prod.snd hresult
      exact herror r ec

/-- No operation that completes starts a write. -/
lemma handed_of_complete {i : ℕ} {a : PooledSocket e} {event : TSocket.Event}
    {result : TSocket e × List Effect} (hpending : a.socket.1.mPendingMessages = [])
    (hcan : σ.CanComplete i a event) (hstep : TSocket.step a.socket event = some result) :
    Outbox.handed result.2 = [] := by
  cases event with
  | inl event =>
    obtain ⟨⟨outbox, effects⟩, hone, rfl⟩ := Option.map_eq_some_iff.mp hstep
    cases event with
    | send m => exact hcan.elim
    | written j ec => exact (Outbox.written_of_pending_eq_nil hpending hone).2
  | inr event =>
    obtain ⟨⟨receiver, effects⟩, hone, rfl⟩ := Option.map_eq_some_iff.mp hstep
    exact handed_of_receiver hone

lemma postedOn_set {i : ℕ} {a b : PooledSocket e} (ha : σ.accepted[i]? = some a)
    (server : TServer) (terminated : Bool) (k : ℕ) :
    postedOn { σ with server, accepted := σ.accepted.set i b, terminated } k =
      if i = k then b.posted else σ.postedOn k := by
  obtain ⟨hlt, -⟩ := List.getElem?_eq_some_iff.mp ha
  rw [postedOn, List.getElem?_set, if_pos hlt]
  split <;> rfl

lemma Routed.step (hkept : Kept σ) (h : Routed findInMapping es σ os)
    (hstep : Lifetime.step findInMapping σ event = some (σ', out)) :
    Routed findInMapping (es ++ [event]) σ' (os ++ out) := by
  cases happens_of_step hkept.owned hstep with
  | @accepted address port context hwaiting hopen =>
    rw [List.append_nil]
    exact h.accept hkept hopen address port context
  | failed hopen hfailed =>
    exact h.silent (fun _ _ => Event.noConfusion) (peers_concat_of_none (if_neg hfailed))
      (h.isOpen_concat rfl) rfl rfl (fun _ => rfl) rfl
  | threw =>
    exact h.silent (fun _ _ => Event.noConfusion) (peers_concat_of_none rfl)
      (h.isOpen_concat rfl) rfl rfl (fun _ => rfl) rfl
  | @ended ec remote context hwaiting hclosed =>
    have hsignal : es.any Event.isSignal = true := by
      simpa [h.isOpen_eq] using hclosed
    have hpeers : peers findInMapping (es ++ [.accept ec remote]) =
        peers findInMapping es := by
      rw [peers_concat, if_pos hsignal, List.append_nil]
    exact h.silent (fun _ _ => Event.noConfusion) hpeers (h.isOpen_concat rfl) rfl rfl
      (fun _ => rfl) rfl
  | signal =>
    have hsignal : [Event.signal].any Event.isSignal = true := rfl
    refine h.silent (fun _ _ => Event.noConfusion) (peers_concat_of_none rfl) ?_ rfl rfl
      (fun _ => rfl) rfl
    rw [List.any_append, hsignal, Bool.or_true]
    rfl
  | unknown hclient => exact h.unknown hclient
  | sent hclient => exact h.sent hclient
  | @task i a m rest ha hposted =>
    rw [Outbox.send_of_pending_eq_nil (hkept.pending_eq a (List.mem_of_getElem? ha))]
    refine h.silent (fun _ _ => Event.noConfusion) (peers_concat_of_none rfl)
      (h.isOpen_concat rfl) (List.length_set ..) rfl (fun k => ?_) rfl
    rw [effectsOf_socket, postedOn_set ha σ.server σ.terminated k]
    split
    · next heq =>
      subst heq
      rw [postedOn, ha]
      exact hposted.symm
    · rfl
  | @complete i a event result ha hcan hone =>
    have hnone : Outbox.handed result.2 = [] :=
      handed_of_complete (hkept.pending_eq a (List.mem_of_getElem? ha)) hcan hone
    have hserver : (σ.handling i a event.isRight result).1.server.isOpen = σ.server.isOpen ∧
        (σ.handling i a event.isRight result).1.server.mClients = σ.server.mClients := by
      rw [handling]
      dsimp only
      split <;> exact ⟨rfl, rfl⟩
    refine h.silent (fun _ _ => Event.noConfusion) (peers_concat_of_none rfl)
      (hserver.1.trans (h.isOpen_concat rfl)) (List.length_set ..) hserver.2 (fun k => ?_)
      (returned_socket _)
    rw [handling, effectsOf_socket, postedOn_set ha _ _ k]
    split
    · next heq =>
      subst heq
      rw [hnone, postedOn, ha]
      rfl
    · rfl
  | getIOContext | stop =>
    exact h.silent (fun _ _ => Event.noConfusion) (peers_concat_of_none rfl)
      (h.isOpen_concat rfl) rfl rfl (fun _ => rfl) rfl

/-- Whatever happens to a server that could be constructed, each message given to `TServer::Send`
is handed to `async_write` on the connection that was accepted first under the name of the peer, or
waits there behind those that have been; in order, once each, and no other message is written
anywhere.  `Send` returns whether a connection has been accepted under the name. -/
theorem writes_in_order {owned : Bool} {pool : IOContextPool} {σ₀ : Lifetime e}
    (hstart : start owned pool = .ok σ₀)
    (hrun : Machine.Run (Lifetime.step findInMapping) σ₀ es σ os) :
    (∀ i, Outbox.handed (effectsOf i os) ++ σ.postedOn i =
      Machine.meaning (messageFor findInMapping i) [] es) ∧
    returned os = Machine.meaning (resultOf findInMapping) [] es := by
  have hinv := hrun.invariant (I := fun es σ os => Kept σ ∧ Routed findInMapping es σ os)
    ⟨kept_start hstart, routed_start hstart⟩
    fun es σ os event σ' out hinv hstep => ⟨hinv.1.step hstep, hinv.2.step hinv.1 hstep⟩
  exact ⟨hinv.2.in_order, hinv.2.returned_eq⟩

/-- A peer that is accepted twice and gets two messages, one that is not known, and one that has
gone when it is accepted. -/
def acceptedTwice : List Event :=
  [.accept .success (some (0x0a000001, 4000)), .accept .success (some (0x0a000001, 4001)),
    .send "a" (makeMessage ⟨1, SerializeMethod.none, 0⟩ 1 1 ⟨⟨[], 0⟩, 0, 0, true⟩),
    .send "b" (makeMessage ⟨2, SerializeMethod.none, 0⟩ 1 1 ⟨⟨[], 0⟩, 0, 0, true⟩),
    .send "a" (makeMessage ⟨3, SerializeMethod.none, 0⟩ 1 1 ⟨⟨[], 0⟩, 0, 0, true⟩), .task 0,
    .accept .success none]

/-- Both go to its first connection, and one of them waits there. -/
theorem writes_in_order_acceptedTwice : ∃ (σ : Lifetime TSocket.bare) (os : _),
    Machine.Run (Lifetime.step fun _ _ => "a") onTwoContexts acceptedTwice σ os ∧
      ((∀ i, Outbox.handed (effectsOf i os) ++ σ.postedOn i =
          Machine.meaning (messageFor (fun _ _ => "a") i) [] acceptedTwice) ∧
        returned os = Machine.meaning (resultOf fun _ _ => "a") [] acceptedTwice) ∧
      (Outbox.handed (effectsOf 0 os)).map OMessage.messageId = [1] ∧
      (σ.postedOn 0).map OMessage.messageId = [3] ∧ returned os = [true, false, true] := by
  have hend : (Machine.exec (Lifetime.step fun _ _ => "a") onTwoContexts acceptedTwice).map
      (fun r => ((Outbox.handed (effectsOf 0 r.2)).map OMessage.messageId,
        (r.1.postedOn 0).map OMessage.messageId, returned r.2)) =
      some ([1], [3], [true, false, true]) := by decide +kernel
  obtain ⟨⟨σ, os⟩, hexec, hresult⟩ := Option.map_eq_some_iff.mp hend
  obtain ⟨hhanded, hrest⟩ := Prod.mk.inj hresult
  obtain ⟨hposted, hreturned⟩ := Prod.mk.inj hrest
  have hrun := Machine.run_iff_exec.mpr hexec
  exact ⟨σ, os, hrun, writes_in_order start_twoContexts hrun, hhanded, hposted, hreturned⟩

end Routed

end Lifetime

end OldPart
