import OldPart.Lib.Turns
import OldPart.Server.TServer
import OldPart.Socket.StopCause

/-!
# A server from its start to its end

A server takes the contexts for its sockets from an `IOContextPool`, in turn.  A signal closes its
acceptor and its connections, and then the operations that are outstanding have still to finish.

The contexts run on a thread each, and nothing guards the tables that their handlers share.  Here
the handlers and the calls of `TServer::Send` come one at a time, as if something did; and the
server and its manager are kept until all handlers have run.
-/

namespace OldPart

/-! ## The pool -/

/-- `IOContextPool`.  The contexts are known by their places in `io_contexts_`, and `work` has those
with a guard in `work_`, which nothing resets. -/
structure IOContextPool where
  poolSize : ℕ
  work : List ℕ
  nextIOContext : ℕ
  stopped : Bool
  next_lt : nextIOContext < poolSize
  guarded : ∀ i < poolSize, i ∈ work

namespace IOContextPool

/-- The constructor, which throws when the size is 0. -/
def new (poolSize : ℕ) : Option IOContextPool :=
  if h : 0 < poolSize then
    some ⟨poolSize, List.range poolSize, 0, false, h, fun _ => List.mem_range.mpr⟩
  else none

def getIOContext (p : IOContextPool) : ℕ × IOContextPool :=
  (p.nextIOContext,
    if h : p.nextIOContext + 1 = p.poolSize then
      { p with nextIOContext := 0, next_lt := by omega }
    else
      { p with
        nextIOContext := p.nextIOContext + 1
        next_lt := Nat.lt_of_le_of_ne p.next_lt h })

def stop (p : IOContextPool) : IOContextPool := { p with stopped := true }

/-- `io_context::run()` of a context returns: it was stopped, or there is no work, of a guard or of
the operations that are `outstanding` there. -/
def RunReturns (p : IOContextPool) (i outstanding : ℕ) : Prop :=
  p.stopped = true ∨ i ∉ p.work ∧ outstanding = 0

/-- `IOContextPool::Run` returns: each of its threads does. -/
def Returns (p : IOContextPool) (outstanding : ℕ → ℕ) : Prop :=
  ∀ i < p.poolSize, p.RunReturns i (outstanding i)

lemma poolSize_getIOContext (p : IOContextPool) : p.getIOContext.2.poolSize = p.poolSize := by
  unfold getIOContext
  split <;> rfl

lemma nextIOContext_getIOContext (p : IOContextPool) :
    p.getIOContext.2.nextIOContext = (p.nextIOContext + 1) % p.poolSize := by
  unfold getIOContext
  split
  · next h => rw [h, Nat.mod_self]
  · next h => exact (Nat.mod_eq_of_lt (Nat.lt_of_le_of_ne p.next_lt h)).symm

/-- The guards keep every context running until it is stopped. -/
lemma returns_iff_stopped (p : IOContextPool) (outstanding : ℕ → ℕ) :
    p.Returns outstanding ↔ p.stopped = true := by
  refine ⟨fun hreturns => ?_, fun hstopped _ _ => Or.inl hstopped⟩
  exact (hreturns _ p.next_lt).resolve_right fun hidle => hidle.1 (p.guarded _ p.next_lt)

end IOContextPool

/-! ## The server and its sockets -/

variable {e : Endpoint}

/-- A `TSocket` that a server has accepted, and its `io_context`.  `posted` are the tasks of `Send`
that have still to run there, and the read that is outstanding is `fresh` when the socket was open
as it was started. -/
structure PooledSocket (e : Endpoint) where
  context : ℕ
  socket : TSocket e
  posted : List OMessage
  fresh : Bool

/-- The handlers of reads that have still to run for a socket that is closed.  A read that was
started while it was open can still succeed, and then one more is started. -/
def Reading.work (fresh : Bool) : Reading → ℕ
  | .none => 0
  | .head | .body _ => if fresh then 2 else 1

/-- The tasks and handlers that have still to run for a socket that is closed. -/
def PooledSocket.work (a : PooledSocket e) : ℕ :=
  2 * a.posted.length + a.socket.1.writing.length + a.socket.2.reading.work a.fresh

/-- Whether something is left to do does not depend on what is fresh. -/
lemma Reading.work_eq_zero_iff {fresh : Bool} {reading : Reading} :
    reading.work fresh = 0 ↔ reading.work false = 0 := by
  cases reading <;> cases fresh <;> simp [Reading.work]

/-- What a server can throw. -/
inductive ServerException where
  /-- `std::bad_weak_ptr`, from `shared_from_this()`. -/
  | badWeakPtr
  /-- What comes from `remote_endpoint()` when the peer has gone, or from `to_v4()`. -/
  | noAddress

/-- A server, the sockets it has accepted, and the context of the one that waits in
`async_accept`.  `owned` is whether `shared_from_this()` finds an owner, and the program is
`terminated` when a handler has thrown or failed. -/
structure Lifetime (e : Endpoint) where
  owned : Bool
  pool : IOContextPool
  server : TServer
  accepted : List (PooledSocket e)
  waiting : Option ℕ
  terminated : Bool

namespace Lifetime

/-- The socket is started and not closed. -/
def IsOpen (σ : Lifetime e) (i : ℕ) : Prop := σ.server.sockets[i]? = some .started

instance (σ : Lifetime e) (i : ℕ) : Decidable (σ.IsOpen i) :=
  inferInstanceAs (Decidable (σ.server.sockets[i]? = some .started))

/-- `shared_from_this()` of the server. -/
def sharedFromThis (σ : Lifetime e) : Except ServerException Unit :=
  if σ.owned then .ok () else .error .badWeakPtr

/-- A socket waits in `async_accept`. -/
def accepting (σ : Lifetime e) : Lifetime e :=
  { σ with pool := σ.pool.getIOContext.2, waiting := some σ.pool.getIOContext.1 }

def doAccept (σ : Lifetime e) : Except ServerException (Lifetime e) := do
  σ.sharedFromThis
  pure σ.accepting

lemma doAccept_of_owned {σ : Lifetime e} (h : σ.owned = true) : σ.doAccept = .ok σ.accepting := by
  rw [doAccept, sharedFromThis, if_pos h]
  rfl

def waitStop (σ : Lifetime e) : Except ServerException Unit := σ.sharedFromThis

/-- A server before `DoAccept`: `mSignals`, `mAcceptor` and `resolver` take contexts. -/
def opened (owned : Bool) (pool : IOContextPool) : Lifetime e :=
  let pool := pool.getIOContext.2
  let pool := pool.getIOContext.2
  let pool := pool.getIOContext.2
  ⟨owned, pool, .new, [], none, false⟩

/-- The constructor of `TServer`, at an address where it can listen.  `TServer` derives privately
from `enable_shared_from_this`, and is not constructed yet: what it calls finds no owner.  With
`owned` it would. -/
def start (owned : Bool) (pool : IOContextPool) : Except ServerException (Lifetime e) := do
  (opened owned pool : Lifetime e).waitStop
  (opened owned pool).doAccept

/-- There is no server without an owner. -/
lemma start_eq_ok_iff {owned : Bool} {pool : IOContextPool} {σ : Lifetime e} :
    start owned pool = .ok σ ↔ owned = true ∧ σ = (opened true pool).accepting := by
  cases owned with
  | true => exact ⟨fun h => ⟨rfl, (Except.ok.inj h).symm⟩, fun h => congrArg _ h.2.symm⟩
  | false =>
    have hthrows : start false pool = (.error .badWeakPtr : Except _ (Lifetime e)) := rfl
    simp [hthrows]

/-- What happens to a server: `async_accept` completes, and `remote` is the address and the port of
the remote endpoint, if `remote_endpoint()` has one of IPv4; a signal comes; `TServer::Send` is
called; the next task posted for a socket runs; an operation of a socket completes; someone else
takes a context of the pool, or stops it. -/
inductive Event where
  | accept (ec : ErrorCode) (remote : Option (UInt32 × UInt16))
  | signal
  | send (peer : String) (pMessage : OMessage)
  | task (i : ℕ)
  | complete (i : ℕ) (event : TSocket.Event)
  | getIOContext
  | stop

/-- A handler runs on a context of the pool. -/
def Event.isHandler : Event → Bool
  | .accept _ _ | .signal | .task _ | .complete _ _ => true
  | .send _ _ | .getIOContext | .stop => false

/-- What comes of it. -/
inductive Output where
  | server (o : TServer.Output)
  | socket (i : ℕ) (o : Effect)
  /-- What leaves `io_context::run()` and ends the program. -/
  | threw (x : ServerException)

/-- `IConnectionManager::Stop` is called. -/
def isStop : Effect → Bool
  | .stop => true
  | _ => false

/-- A handler fails. -/
def isFault : Effect → Bool
  | .fault _ => true
  | _ => false

/-- An operation that was started on a closed socket cannot succeed. -/
def CanComplete (σ : Lifetime e) (i : ℕ) (a : PooledSocket e) : TSocket.Event → Prop
  | .inl (.send _) => False
  | .inl (.written _ _) => True
  | .inr (.head ec _ _) | .inr (.body ec _ _ _) => ec = .success → σ.IsOpen i ∨ a.fresh = true

instance (σ : Lifetime e) (i : ℕ) (a : PooledSocket e) (event : TSocket.Event) :
    Decidable (σ.CanComplete i a event) :=
  match event with
  | .inl (.send _) => inferInstanceAs (Decidable False)
  | .inl (.written _ _) => inferInstanceAs (Decidable True)
  | .inr (.head ec _ _) | .inr (.body ec _ _ _) =>
      inferInstanceAs (Decidable (ec = .success → σ.IsOpen i ∨ a.fresh = true))

/-- A handler of a socket has run, for a read or not. -/
def handling (σ : Lifetime e) (i : ℕ) (a : PooledSocket e) (isRead : Bool)
    (result : TSocket e × List Effect) : Lifetime e × List Output :=
  ({ σ with
      server := if result.2.any isStop then ConnectionManager.stop σ.server i else σ.server
      accepted := σ.accepted.set i { a with
        socket := result.1, fresh := if isRead then σ.IsOpen i else a.fresh }
      terminated := σ.terminated || result.2.any isFault },
    result.2.map (.socket i))

/-- A handler of the server has run. -/
def returning (σ : Lifetime e) : Except ServerException (Lifetime e) → Lifetime e × List Output
  | .ok σ' => (σ', [])
  | .error x => ({ σ with terminated := true }, [.threw x])

variable (findInMapping : UInt32 → UInt16 → String)

/-- The handler of `async_accept`, in which a socket on `context` has waited. -/
def onAccept (σ : Lifetime e) (context : ℕ) (ec : ErrorCode) (remote : Option (UInt32 × UInt16)) :
    Except ServerException (Lifetime e) :=
  if σ.server.isOpen then
    if ec = .success then
      match remote with
      | none => .error .noAddress
      | some (address, port) =>
          doAccept { σ with
            server := σ.server.onAccept (findInMapping address port)
            accepted := σ.accepted ++ [⟨context, .start, [], true⟩] }
    else σ.doAccept
  else .ok { σ with waiting := none }

/-- What an event does in a program that has not ended. -/
def next (σ : Lifetime e) : Event → Option (Lifetime e × List Output)
  | .accept ec remote =>
      σ.waiting.map fun context => σ.returning (σ.onAccept findInMapping context ec remote)
  | .signal =>
      (TServer.step findInMapping σ.server .signal).map fun result =>
        ({ σ with server := result.1 }, [])
  | .send peer pMessage =>
      let accepted :=
        match σ.server.mClients peer with
        | none => σ.accepted
        | some i => σ.accepted.modify i fun a => { a with posted := a.posted ++ [pMessage] }
      some ({ σ with accepted }, (σ.server.send peer pMessage).map .server)
  | .task i =>
      match σ.accepted[i]? with
      | none => none
      | some a =>
          match a.posted with
          | [] => none
          | pMessage :: posted =>
              let result := a.socket.1.send pMessage
              some ({ σ with accepted :=
                  σ.accepted.set i { a with socket := (result.1, a.socket.2), posted := posted } },
                result.2.map (.socket i))
  | .complete i event =>
      match σ.accepted[i]? with
      | none => none
      | some a =>
          if σ.CanComplete i a event then
            (a.socket.step event).map (σ.handling i a event.isRight)
          else none
  | .getIOContext => some ({ σ with pool := σ.pool.getIOContext.2 }, [])
  | .stop => some ({ σ with pool := σ.pool.stop }, [])

/-- A server with its sockets.  No handler runs on a pool that was stopped. -/
def step : Machine (Lifetime e) Event Output := fun σ event =>
  if σ.terminated ∨ σ.pool.stopped ∧ event.isHandler then none else σ.next findInMapping event

/-! ## What can happen -/

/-- What a step does, case by case. -/
inductive Happens (σ : Lifetime e) : Event → Lifetime e → List Output → Prop
  | accepted {address : UInt32} {port : UInt16} {context : ℕ}
      (waiting : σ.waiting = some context) (isOpen : σ.server.isOpen = true) :
      Happens σ (.accept .success (some (address, port)))
        (accepting { σ with
          server := σ.server.onAccept (findInMapping address port)
          accepted := σ.accepted ++ [⟨context, .start, [], true⟩] }) []
  | failed {ec : ErrorCode} {remote : Option (UInt32 × UInt16)}
      (isOpen : σ.server.isOpen = true) (failed : ec ≠ .success) :
      Happens σ (.accept ec remote) σ.accepting []
  | threw (isOpen : σ.server.isOpen = true) :
      Happens σ (.accept .success none) { σ with terminated := true } [.threw .noAddress]
  | ended {ec : ErrorCode} {remote : Option (UInt32 × UInt16)} {context : ℕ}
      (waiting : σ.waiting = some context) (closed : σ.server.isOpen = false) :
      Happens σ (.accept ec remote) { σ with waiting := none } []
  | signal (isOpen : σ.server.isOpen = true) :
      Happens σ .signal
        { σ with server := ConnectionManager.stopAll { σ.server with isOpen := false } } []
  | unknown {peer : String} {pMessage : OMessage} (client : σ.server.mClients peer = none) :
      Happens σ (.send peer pMessage) σ [.server (.returned false)]
  | sent {peer : String} {pMessage : OMessage} {i : ℕ}
      (client : σ.server.mClients peer = some i) :
      Happens σ (.send peer pMessage)
        { σ with accepted :=
            σ.accepted.modify i fun a => { a with posted := a.posted ++ [pMessage] } }
        [.server (.socketSend i pMessage), .server (.returned true)]
  | task {i : ℕ} {a : PooledSocket e} {pMessage : OMessage} {rest : List OMessage}
      (accepted : σ.accepted[i]? = some a) (posted : a.posted = pMessage :: rest) :
      Happens σ (.task i)
        { σ with accepted := σ.accepted.set i { a with
            socket := ((a.socket.1.send pMessage).1, a.socket.2), posted := rest } }
        ((a.socket.1.send pMessage).2.map (.socket i))
  | complete {i : ℕ} {a : PooledSocket e} {event : TSocket.Event}
      {result : TSocket e × List Effect} (accepted : σ.accepted[i]? = some a)
      (can : σ.CanComplete i a event) (step : TSocket.step a.socket event = some result) :
      Happens σ (.complete i event) (σ.handling i a event.isRight result).1
        (σ.handling i a event.isRight result).2
  | getIOContext : Happens σ .getIOContext { σ with pool := σ.pool.getIOContext.2 } []
  | stop : Happens σ .stop { σ with pool := σ.pool.stop } []

variable {findInMapping} in
lemma happens_of_next {σ σ' : Lifetime e} {event : Event} {os : List Output}
    (howned : σ.owned = true) (hnext : σ.next findInMapping event = some (σ', os)) :
    Happens findInMapping σ event σ' os := by
  cases event with
  | accept ec remote =>
    obtain ⟨context, hwaiting, hresult⟩ := Option.map_eq_some_iff.mp hnext
    unfold onAccept at hresult
    cases hopen : σ.server.isOpen with
    | true =>
      by_cases hec : ec = .success
      · subst hec
        cases remote with
        | none =>
          rw [if_pos hopen, if_pos rfl] at hresult
          obtain ⟨rfl, rfl⟩ := Prod.mk.inj hresult
          exact .threw hopen
        | some remote =>
          obtain ⟨address, port⟩ := remote
          rw [if_pos hopen, if_pos rfl] at hresult
          dsimp only at hresult
          rw [doAccept_of_owned (by exact howned)] at hresult
          obtain ⟨rfl, rfl⟩ := Prod.mk.inj hresult
          exact .accepted hwaiting hopen
      · rw [if_pos hopen, if_neg hec, doAccept_of_owned howned] at hresult
        obtain ⟨rfl, rfl⟩ := Prod.mk.inj hresult
        exact .failed hopen hec
    | false =>
      have hclosed : ¬σ.server.isOpen = true := by simp [hopen]
      rw [if_neg hclosed] at hresult
      obtain ⟨rfl, rfl⟩ := Prod.mk.inj hresult
      exact .ended hwaiting hopen
  | signal =>
    obtain ⟨⟨server, outputs⟩, hone, hsame⟩ := Option.map_eq_some_iff.mp hnext
    obtain ⟨rfl, rfl⟩ := Prod.mk.inj hsame
    obtain ⟨hopen, hsome⟩ := Option.ite_none_right_eq_some.mp hone
    obtain ⟨rfl, -⟩ := Prod.mk.inj (Option.some.inj hsome)
    exact .signal hopen
  | send peer m =>
    obtain ⟨rfl, rfl⟩ := Prod.mk.inj (Option.some.inj hnext)
    cases hclient : σ.server.mClients peer with
    | none => simpa [TServer.send, hclient] using Happens.unknown hclient
    | some i => simpa [TServer.send, hclient] using Happens.sent hclient
  | task i =>
    rw [next] at hnext
    split at hnext
    · cases hnext
    · next a ha =>
      split at hnext
      · cases hnext
      · next m posted hposted =>
        obtain ⟨rfl, rfl⟩ := Prod.mk.inj (Option.some.inj hnext)
        exact .task ha hposted
  | complete i event =>
    rw [next] at hnext
    split at hnext
    · cases hnext
    · next a ha =>
      obtain ⟨hcan, hsome⟩ := Option.ite_none_right_eq_some.mp hnext
      obtain ⟨result, hone, hsame⟩ := Option.map_eq_some_iff.mp hsome
      obtain rfl : _ = σ' := congrArg Prod.fst hsame
      obtain rfl : _ = os := congrArg Prod.snd hsame
      exact .complete ha hcan hone
  | getIOContext =>
    obtain ⟨rfl, rfl⟩ := Prod.mk.inj (Option.some.inj hnext)
    exact .getIOContext
  | stop =>
    obtain ⟨rfl, rfl⟩ := Prod.mk.inj (Option.some.inj hnext)
    exact .stop

variable {findInMapping} in
lemma happens_of_step {σ σ' : Lifetime e} {event : Event} {os : List Output}
    (howned : σ.owned = true) (hstep : Lifetime.step findInMapping σ event = some (σ', os)) :
    Happens findInMapping σ event σ' os :=
  happens_of_next howned (Option.ite_none_left_eq_some.mp hstep).2

/-! ## What every run keeps -/

/-- The server has an owner and is as its connections are, each has a socket on which no message is
pending, and none is open when the server is not. -/
structure Kept (σ : Lifetime e) : Prop where
  owned : σ.owned = true
  serves : ∃ c, Serves σ.server c
  length_eq : σ.accepted.length = σ.server.sockets.length
  pending_eq : ∀ a ∈ σ.accepted, a.socket.1.mPendingMessages = []
  closed : σ.server.isOpen = false → ∀ i, ¬σ.IsOpen i

section Kept

variable {findInMapping} {σ σ' : Lifetime e} {event : Event} {os : List Output}

lemma kept_start {owned : Bool} {pool : IOContextPool} (hstart : start owned pool = .ok σ) :
    Kept σ := by
  obtain ⟨-, rfl⟩ := start_eq_ok_iff.mp hstart
  exact ⟨rfl, ⟨_, Serves.new⟩, rfl, fun _ ha => absurd ha List.not_mem_nil,
    fun _ _ hopen => (nomatch hopen)⟩

/-- Neither the server nor a socket changes. -/
lemma Kept.of_eq (h : Kept σ) (howned : σ'.owned = σ.owned) (hserver : σ'.server = σ.server)
    (haccepted : σ'.accepted = σ.accepted) : Kept σ' := by
  constructor
  · rw [howned, h.owned]
  · rw [hserver]
    exact h.serves
  · rw [haccepted, hserver]
    exact h.length_eq
  · rw [haccepted]
    exact h.pending_eq
  · unfold IsOpen
    rw [hserver]
    exact h.closed

/-- One of the sockets changes, and no other thing. -/
lemma Kept.set (h : Kept σ) {i : ℕ} {a : PooledSocket e} (ha : a.socket.1.mPendingMessages = []) :
    Kept { σ with accepted := σ.accepted.set i a } := by
  refine ⟨h.owned, h.serves, ?_, fun b hb => ?_, h.closed⟩
  · dsimp only
    rw [List.length_set]
    exact h.length_eq
  · rcases List.mem_or_eq_of_mem_set hb with hb | rfl
    · exact h.pending_eq b hb
    · exact ha

/-- A connection is stopped. -/
lemma Kept.stop (h : Kept σ) (i : ℕ) :
    Kept { σ with server := ConnectionManager.stop σ.server i } := by
  obtain ⟨c, hserves⟩ := h.serves
  refine ⟨h.owned, ⟨_, hserves.stop i⟩, ?_, h.pending_eq, fun hclosed j hopen => ?_⟩
  · simp only [ConnectionManager.stop, List.length_set]
    exact h.length_eq
  · refine h.closed hclosed j ?_
    simp only [IsOpen, ConnectionManager.stop, List.getElem?_set] at hopen ⊢
    split at hopen
    · split at hopen <;> cases hopen
    · exact hopen

/-- No socket is open after the signal. -/
lemma Kept.signal (h : Kept σ) : Kept { σ with
    server := ConnectionManager.stopAll { σ.server with isOpen := false } } := by
  obtain ⟨c, hserves⟩ := h.serves
  have hall := hserves.stopAll
  refine ⟨h.owned, ⟨_, hall⟩, ?_, h.pending_eq, fun _ j hopen => ?_⟩
  · simp only [ConnectionManager.stopAll, List.length_mapIdx]
    exact h.length_eq
  · rw [IsOpen, hall.sockets_eq, List.map_map, List.getElem?_map] at hopen
    cases hj : c.accepted[j]? with
    | none => rw [hj] at hopen; cases hopen
    | some x => rw [hj] at hopen; cases hopen

/-- A connection is accepted. -/
lemma Kept.accept (h : Kept σ) (hopen : σ.server.isOpen = true) (clientName : String)
    (context : ℕ) : Kept { σ with
      server := σ.server.onAccept clientName
      accepted := σ.accepted ++ [⟨context, .start, [], true⟩] } := by
  obtain ⟨c, hserves⟩ := h.serves
  refine ⟨h.owned, ⟨_, hserves.onAccept clientName⟩, ?_, fun a ha => ?_, fun hclosed => ?_⟩
  · simp only [TServer.onAccept, ConnectionManager.start, List.length_set, List.length_append,
      h.length_eq, List.length_singleton]
  · rcases List.mem_append.mp ha with ha | ha
    · exact h.pending_eq a ha
    · obtain rfl := List.mem_singleton.mp ha
      rfl
  · exact (Bool.false_ne_true (hclosed.symm.trans hopen)).elim

/-- Nothing is pending on a socket after one of its operations. -/
lemma pending_eq_of_step {τ τ' : TSocket e} {event : TSocket.Event} {effects : List Effect}
    (h : τ.1.mPendingMessages = []) (hwritten : ∀ m, event ≠ .inl (.send m))
    (hstep : TSocket.step τ event = some (τ', effects)) :
    τ'.1.mPendingMessages = [] := by
  cases event with
  | inl event =>
    obtain ⟨⟨outbox, os⟩, hone, hsame⟩ := Option.map_eq_some_iff.mp hstep
    obtain ⟨rfl, rfl⟩ := Prod.mk.inj hsame
    cases event with
    | send m => exact (hwritten m rfl).elim
    | written j ec => exact (Outbox.written_of_pending_eq_nil h hone).1
  | inr event =>
    obtain ⟨⟨receiver, os⟩, -, hsame⟩ := Option.map_eq_some_iff.mp hstep
    obtain ⟨rfl, rfl⟩ := Prod.mk.inj hsame
    exact h

lemma ne_send_of_canComplete {i : ℕ} {a : PooledSocket e} {event : TSocket.Event}
    (h : σ.CanComplete i a event) (m : OMessage) : event ≠ .inl (.send m) := by
  rintro rfl
  exact h

lemma Kept.handling (h : Kept σ) {i : ℕ} {a : PooledSocket e} {isRead : Bool}
    {result : TSocket e × List Effect} (ha : result.1.1.mPendingMessages = []) :
    Kept (σ.handling i a isRead result).1 := by
  have hset := h.set (i := i) (a := { a with
    socket := result.1, fresh := if isRead then σ.IsOpen i else a.fresh }) ha
  rw [Lifetime.handling]
  by_cases hstop : result.2.any isStop = true
  · simp only [if_pos hstop]
    exact (hset.stop i).of_eq rfl rfl rfl
  · simp only [if_neg hstop]
    exact hset.of_eq rfl rfl rfl

lemma Kept.step (h : Kept σ) (hstep : Lifetime.step findInMapping σ event = some (σ', os)) :
    Kept σ' := by
  cases happens_of_step h.owned hstep with
  | accepted hwaiting hopen => exact (h.accept hopen _ _).of_eq rfl rfl rfl
  | failed | threw | ended => exact h.of_eq rfl rfl rfl
  | signal => exact h.signal
  | unknown => exact h
  | @sent peer m i =>
    refine ⟨h.owned, h.serves, ?_, fun b hb => ?_, h.closed⟩
    · dsimp only
      rw [List.length_modify]
      exact h.length_eq
    · obtain ⟨j, hj⟩ := List.mem_iff_getElem?.mp hb
      rw [List.getElem?_modify] at hj
      obtain ⟨b', hb', rfl⟩ := Option.map_eq_some_iff.mp hj
      split <;> exact h.pending_eq b' (List.mem_of_getElem? hb')
  | task ha hposted =>
    have hpending := h.pending_eq _ (List.mem_of_getElem? ha)
    refine h.set ?_
    dsimp only
    rw [Outbox.send_of_pending_eq_nil hpending]
    exact hpending
  | complete ha hcan hone =>
    exact h.handling (pending_eq_of_step (h.pending_eq _ (List.mem_of_getElem? ha))
      (ne_send_of_canComplete hcan) hone)
  | getIOContext | stop => exact h.of_eq rfl rfl rfl

end Kept

/-! ## What is left to do -/

/-- The handlers that have still to run when the server is closed. -/
def work (σ : Lifetime e) : ℕ :=
  (if σ.waiting.isSome then 1 else 0) + (σ.accepted.map PooledSocket.work).sum

/-- `TServer::Send` is called. -/
def Event.isSend : Event → Bool
  | .send _ _ => true
  | _ => false

section Work

variable {findInMapping} {σ σ' : Lifetime e} {event : Event} {os : List Output}

/-- What changes in one place changes the sum by as much. -/
lemma sum_map_set {α : Type*} {f : α → ℕ} {l : List α} {i : ℕ} {a : α} (h : l[i]? = some a)
    (b : α) : ((l.set i b).map f).sum + f a = (l.map f).sum + f b := by
  induction l generalizing i with
  | nil => cases h
  | cons x l ih =>
    cases i with
    | zero =>
      obtain rfl := Option.some.inj h
      simp only [List.set_cons_zero, List.map_cons, List.sum_cons]
      omega
    | succ i =>
      have hrest := ih h
      simp only [List.set_cons_succ, List.map_cons, List.sum_cons]
      omega

/-- What one socket has less to do, the server has. -/
lemma work_set_lt (server : TServer) (terminated : Bool) {i : ℕ} {a b : PooledSocket e}
    (ha : σ.accepted[i]? = some a) (hlt : b.work < a.work) :
    work { σ with server, accepted := σ.accepted.set i b, terminated } < σ.work := by
  have hsum := sum_map_set (f := PooledSocket.work) ha b
  simp only [work]
  omega

/-- A read that is not fresh fails on a closed socket, and no other is fresh. -/
lemma work_read_lt {r r' : Receiver e} {event : Receiver.Event} {effects : List Effect}
    {fresh : Bool} (hfresh : ∀ ec, TSocket.Event.errorCode (.inr event) = some ec →
      ec = .success → fresh = true)
    (hstep : r.step event = some (r', effects)) :
    r'.reading.work false < r.reading.work fresh := by
  have hle : r'.reading.work false ≤ 1 := by
    cases r'.reading <;> simp [Reading.work]
  have herror : ∀ ec, (r.onError ec).1.reading.work false = 0 := fun ec => rfl
  cases event with
  | head ec m handled =>
    obtain ⟨hreading, hresult⟩ := Receiver.step_head.mp hstep
    rw [hreading]
    by_cases hec : ec = .success
    · rw [hfresh ec rfl hec]
      exact Nat.lt_succ_of_le hle
    · rw [if_neg hec] at hresult
      obtain rfl : _ = r' := congrArg Prod.fst hresult
      rw [herror]
      cases fresh <;> simp [Reading.work]
  | body ec bytes residue handled =>
    obtain ⟨m, hreading, hresult⟩ := Receiver.step_body.mp hstep
    rw [hreading]
    by_cases hec : ec = .success
    · rw [hfresh ec rfl hec]
      exact Nat.lt_succ_of_le hle
    · rw [if_neg hec] at hresult
      obtain rfl : _ = r' := congrArg Prod.fst hresult
      rw [herror]
      cases fresh <;> simp [Reading.work]

/-- A write that completes is one less. -/
lemma length_writing_lt {w w' : Outbox} {j : ℕ} {ec : ErrorCode} {effects : List Effect}
    (hpending : w.mPendingMessages = []) (hstep : w.step (.written j ec) = some (w', effects)) :
    w'.writing.length < w.writing.length := by
  obtain ⟨hlt, hwritten⟩ := Option.ite_none_right_eq_some.mp hstep
  obtain rfl : _ = w' := congrArg Prod.fst (Option.some.inj hwritten)
  have herase := List.length_eraseIdx_of_lt hlt
  cases ec <;> simp [Outbox.onWritten, Outbox.writeNext, hpending] <;> omega

/-- An operation of a closed socket that completes. -/
lemma work_complete_lt {i : ℕ} {a : PooledSocket e} {event : TSocket.Event}
    {result : TSocket e × List Effect} (hclosed : ¬σ.IsOpen i) (hcan : σ.CanComplete i a event)
    (hpending : a.socket.1.mPendingMessages = [])
    (hstep : TSocket.step a.socket event = some result) :
    PooledSocket.work { a with
      socket := result.1
      fresh := if event.isRight then σ.IsOpen i else a.fresh } < a.work := by
  obtain ⟨context, ⟨w, r⟩, posted, fresh⟩ := a
  cases event with
  | inl event =>
    obtain ⟨⟨outbox, os⟩, hone, rfl⟩ := Option.map_eq_some_iff.mp hstep
    cases event with
    | send m => exact hcan.elim
    | written j ec =>
      have hlt : outbox.writing.length < w.writing.length := length_writing_lt hpending hone
      simp only [PooledSocket.work, Sum.isRight_inl, Bool.false_eq_true, if_false]
      omega
  | inr event =>
    obtain ⟨⟨receiver, os⟩, hone, rfl⟩ := Option.map_eq_some_iff.mp hstep
    have hlt : receiver.reading.work false < r.reading.work fresh :=
      work_read_lt (fun ec hec hsuccess => ?_) hone
    · simp only [PooledSocket.work, Sum.isRight_inr, if_true, hclosed, decide_false]
      omega
    · cases event with
      | head ec' m handled =>
        obtain rfl : ec' = ec := Option.some.inj hec
        exact (hcan hsuccess).resolve_left hclosed
      | body ec' bytes residue handled =>
        obtain rfl : ec' = ec := Option.some.inj hec
        exact (hcan hsuccess).resolve_left hclosed

/-- After the signal, every handler leaves less to do, and only a call of `Send` adds to it. -/
lemma work_step (h : Kept σ) (hclosed : σ.server.isOpen = false)
    (hstep : Lifetime.step findInMapping σ event = some (σ', os)) :
    σ'.server.isOpen = false ∧
      if event.isHandler then σ'.work < σ.work
      else σ'.work ≤ σ.work + if event.isSend then 2 else 0 := by
  cases happens_of_step h.owned hstep with
  | accepted hwaiting hopen => exact (Bool.false_ne_true (hclosed.symm.trans hopen)).elim
  | failed hopen => exact (Bool.false_ne_true (hclosed.symm.trans hopen)).elim
  | threw hopen => exact (Bool.false_ne_true (hclosed.symm.trans hopen)).elim
  | ended hwaiting =>
    refine ⟨hclosed, ?_⟩
    simp only [Event.isHandler, work, hwaiting, Option.isSome_none, Option.isSome_some, if_true,
      Bool.false_eq_true, if_false]
    omega
  | signal hopen => exact (Bool.false_ne_true (hclosed.symm.trans hopen)).elim
  | unknown => exact ⟨hclosed, Nat.le_add_right _ 2⟩
  | @sent peer m i hclient =>
    refine ⟨hclosed, ?_⟩
    simp only [Event.isHandler, Event.isSend, Bool.false_eq_true, if_false, if_true]
    cases ha : σ.accepted[i]? with
    | none =>
      have hlen := List.getElem?_eq_none_iff.mp ha
      simp only [work, List.modify_eq_self hlen]
      omega
    | some a =>
      have hset : σ.accepted.modify i (fun a => { a with posted := a.posted ++ [m] }) =
          σ.accepted.set i { a with posted := a.posted ++ [m] } := by
        rw [List.modify_eq_set_getElem?, ha]
        rfl
      have hsum := sum_map_set (f := PooledSocket.work) ha { a with posted := a.posted ++ [m] }
      simp only [work, hset]
      simp only [PooledSocket.work, List.length_append, List.length_singleton] at hsum ⊢
      omega
  | task ha hposted =>
    refine ⟨hclosed, work_set_lt σ.server σ.terminated ha ?_⟩
    rw [Outbox.send_of_pending_eq_nil (h.pending_eq _ (List.mem_of_getElem? ha))]
    simp only [PooledSocket.work, Outbox.doWrite, hposted, List.length_append, List.length_cons,
      List.length_nil]
    omega
  | @complete i a event result ha hcan hone =>
    refine ⟨?_, work_set_lt _ _ ha (work_complete_lt (h.closed hclosed i) hcan
      (h.pending_eq a (List.mem_of_getElem? ha)) hone)⟩
    rw [handling]
    dsimp only
    split <;> exact hclosed
  | getIOContext | stop => exact ⟨hclosed, Nat.le_refl _⟩

/-- What can happen in a program that goes on, on a pool that was not stopped, is a step. -/
lemma step_eq_next (hgoesOn : σ.terminated = false) (hruns : σ.pool.stopped = false) :
    Lifetime.step findInMapping σ event = σ.next findInMapping event := by
  rw [Lifetime.step, if_neg]
  simp [hgoesOn, hruns]

lemma isSome_next_complete {i : ℕ} {a : PooledSocket e} {event : TSocket.Event}
    (ha : σ.accepted[i]? = some a) (hcan : σ.CanComplete i a event)
    (hone : (TSocket.step a.socket event).isSome) :
    (σ.next findInMapping (.complete i event)).isSome := by
  rw [next, ha]
  dsimp only
  rwa [if_pos hcan, Option.isSome_map]

/-- The outstanding operations of a socket can be aborted. -/
lemma exists_step_of_outstanding {τ : TSocket e}
    (h : τ.1.writing ≠ [] ∨ τ.2.reading.work false ≠ 0) :
    ∃ event, (∀ i a, σ.CanComplete i a event) ∧ (TSocket.step τ event).isSome := by
  obtain ⟨w, r⟩ := τ
  have hfails : ErrorCode.operationAborted ≠ .success := by decide
  by_cases hwriting : w.writing = []
  · have hreading := h.resolve_left fun hne => hne hwriting
    cases hr : r.reading with
    | none => exact (hreading (by rw [hr]; rfl)).elim
    | head =>
      let m := makeMessage ⟨1, SerializeMethod.none, 0⟩ 1 1 ⟨⟨[], 0⟩, 0, 0, true⟩
      have hone : r.step (.head .operationAborted m false) = some _ :=
        Receiver.step_head.mpr ⟨hr, rfl⟩
      refine ⟨.inr (.head .operationAborted m false), fun _ _ hec => (hfails hec).elim, ?_⟩
      rw [TSocket.step, Machine.interleave, Option.isSome_map, hone]
      rfl
    | body m =>
      have hone : r.step (.body .operationAborted [] .cleared false) = some _ :=
        Receiver.step_body.mpr ⟨m, hr, rfl⟩
      refine ⟨.inr (.body .operationAborted [] .cleared false), fun _ _ hec => (hfails hec).elim,
        ?_⟩
      rw [TSocket.step, Machine.interleave, Option.isSome_map, hone]
      rfl
  · have hone : w.step (.written 0 .operationAborted) = some _ :=
      if_pos (List.length_pos_of_ne_nil hwriting)
    refine ⟨.inl (.written 0 .operationAborted), fun _ _ => trivial, ?_⟩
    rw [TSocket.step, Machine.interleave, Option.isSome_map, hone]
    rfl

/-- While something is left to do, a handler of it can run. -/
lemma exists_next_of_work_ne_zero (hwork : σ.work ≠ 0) :
    ∃ event, event.isHandler = true ∧ (σ.next findInMapping event).isSome := by
  cases hwaiting : σ.waiting with
  | some context =>
    refine ⟨.accept .operationAborted none, rfl, ?_⟩
    rw [next, hwaiting]
    rfl
  | none =>
    have hsum : (σ.accepted.map PooledSocket.work).sum ≠ 0 := by
      simpa [work, hwaiting] using hwork
    obtain ⟨a, ha, hne⟩ : ∃ a ∈ σ.accepted, a.work ≠ 0 := by
      by_contra hall
      push Not at hall
      exact hsum (List.sum_eq_zero (by simpa using hall))
    obtain ⟨i, hi⟩ := List.mem_iff_getElem?.mp ha
    cases hposted : a.posted with
    | cons m posted =>
      refine ⟨.task i, rfl, ?_⟩
      rw [next, hi]
      dsimp only
      rw [hposted]
      rfl
    | nil =>
      obtain ⟨event, hcan, hone⟩ := exists_step_of_outstanding (σ := σ) (τ := a.socket) (by
        by_contra hidle
        push Not at hidle
        refine hne ?_
        rw [PooledSocket.work, hposted, hidle.1, Reading.work_eq_zero_iff.mpr hidle.2]
        rfl)
      exact ⟨.complete i event, rfl, isSome_next_complete hi (hcan i a) hone⟩

lemma isOpen_eq_false_of_step (hclosed : σ.server.isOpen = false ∨ event = .signal)
    (h : Kept σ) (hstep : Lifetime.step findInMapping σ event = some (σ', os)) :
    σ'.server.isOpen = false := by
  rcases hclosed with hclosed | rfl
  · exact (work_step h hclosed hstep).1
  · cases happens_of_step h.owned hstep with
    | signal => rfl

lemma kept_of_run {owned : Bool} {pool : IOContextPool} {σ₀ : Lifetime e}
    (hstart : start owned pool = .ok σ₀) {es : List Event}
    (hrun : Machine.Run (Lifetime.step findInMapping) σ₀ es σ os) :
    Kept σ ∧ (.signal ∈ es → σ.server.isOpen = false) := by
  refine hrun.invariant (I := fun es σ _ => Kept σ ∧ (.signal ∈ es → σ.server.isOpen = false))
    ⟨kept_start hstart, fun hmem => absurd hmem List.not_mem_nil⟩
    fun es σ os event σ' os' hinv hstep => ⟨hinv.1.step hstep, fun hmem => ?_⟩
  refine isOpen_eq_false_of_step ?_ hinv.1 hstep
  rw [List.mem_append, List.mem_singleton] at hmem
  exact hmem.imp hinv.2 Eq.symm

/-- When a signal has come to a server that could be constructed, every connection is closed, and
the handlers come to their end: whatever happens then, at most as many of them run as are left, with
two more for each call of `TServer::Send`; and as long as some are left, no handler has failed and
the pool was not stopped, one can run.  But `IOContextPool::Run` does not return by itself, when all
of them have run: the guards keep it until `IOContextPool::Stop`. -/
theorem shutdown_drains {owned : Bool} {pool : IOContextPool} {σ₀ : Lifetime e}
    (hstart : start owned pool = .ok σ₀) {es : List Event}
    (hrun : Machine.Run (Lifetime.step findInMapping) σ₀ es σ os) (hsignal : .signal ∈ es) :
    (∀ i, ¬σ.IsOpen i) ∧
      (∀ es' σ' os', Machine.Run (Lifetime.step findInMapping) σ es' σ' os' →
        es'.countP Event.isHandler + σ'.work ≤ σ.work + 2 * es'.countP Event.isSend) ∧
      (σ.work ≠ 0 → σ.terminated = false → σ.pool.stopped = false →
        ∃ event, event.isHandler = true ∧ (Lifetime.step findInMapping σ event).isSome) ∧
      ∀ outstanding, σ.pool.Returns outstanding ↔ σ.pool.stopped = true := by
  obtain ⟨hkept, hclosed⟩ := kept_of_run hstart hrun
  refine ⟨hkept.closed (hclosed hsignal), fun es' σ' os' hrest => ?_, fun hwork hgoesOn hruns => ?_,
    σ.pool.returns_iff_stopped⟩
  · refine (hrest.countP_add_le (I := fun σ => Kept σ ∧ σ.server.isOpen = false)
      (fun σ event σ' os hinv hstep => ?_) ⟨hkept, hclosed hsignal⟩).2
    obtain ⟨hopen, hwork⟩ := work_step hinv.1 hinv.2 hstep
    exact ⟨⟨hinv.1.step hstep, hopen⟩, hwork⟩
  · obtain ⟨event, hhandler, hnext⟩ := exists_next_of_work_ne_zero hwork
    refine ⟨event, hhandler, ?_⟩
    rwa [step_eq_next hgoesOn hruns]

/-- A pool of two contexts. -/
def twoContexts : IOContextPool := (IOContextPool.new 2).get rfl

/-- A server on it. -/
def onTwoContexts : Lifetime TSocket.bare := (opened true twoContexts).accepting

lemma start_twoContexts : start true twoContexts = .ok onTwoContexts := rfl

/-- A connection is accepted, a message is handed to `async_write` there, and a signal comes. -/
def oneConnection : List Event :=
  [.accept .success (some (0x0a000001, 4000)),
    .send "a" (makeMessage ⟨1, SerializeMethod.none, 0⟩ 1 1 ⟨⟨[], 0⟩, 0, 0, true⟩), .task 0,
    .signal]

/-- The accept, the write and the read that are outstanding make four handlers at most. -/
theorem shutdown_drains_oneConnection : ∃ (σ : Lifetime TSocket.bare) (os : _),
    Machine.Run (Lifetime.step fun _ _ => "a") onTwoContexts oneConnection σ os ∧
      ((∀ i, ¬σ.IsOpen i) ∧
        (∀ es' σ' os', Machine.Run (Lifetime.step fun _ _ => "a") σ es' σ' os' →
          es'.countP Event.isHandler + σ'.work ≤ σ.work + 2 * es'.countP Event.isSend) ∧
        (σ.work ≠ 0 → σ.terminated = false → σ.pool.stopped = false →
          ∃ event, event.isHandler = true ∧ (Lifetime.step (fun _ _ => "a") σ event).isSome) ∧
        ∀ outstanding, σ.pool.Returns outstanding ↔ σ.pool.stopped = true) ∧
      σ.work = 4 ∧ σ.terminated = false ∧ σ.pool.stopped = false := by
  have hend : (Machine.exec (Lifetime.step fun _ _ => "a") onTwoContexts oneConnection).map
      (fun r => (r.1.work, r.1.terminated, r.1.pool.stopped)) = some (4, false, false) := by
    decide +kernel
  obtain ⟨⟨σ, os⟩, hexec, hresult⟩ := Option.map_eq_some_iff.mp hend
  obtain ⟨hwork, hrest⟩ := Prod.mk.inj hresult
  obtain ⟨hterminated, hstopped⟩ := Prod.mk.inj hrest
  have hrun := Machine.run_iff_exec.mpr hexec
  exact ⟨σ, os, hrun, shutdown_drains start_twoContexts hrun (by simp [oneConnection]), hwork,
    hterminated, hstopped⟩

end Work

/-! ## Contexts -/

/-- No accept fails, and nobody else takes a context of the pool. -/
def AcceptSucceeds (_ : Lifetime e) : Event → Prop
  | .accept ec _ => ec = .success
  | .getIOContext => False
  | _ => True

instance (σ : Lifetime e) (event : Event) : Decidable (σ.AcceptSucceeds event) :=
  match event with
  | .accept ec _ => inferInstanceAs (Decidable (ec = .success))
  | .getIOContext => inferInstanceAs (Decidable False)
  | .signal | .send _ _ | .task _ | .complete _ _ | .stop => inferInstanceAs (Decidable True)

/-- The sockets have got the contexts of a pool of `n` in turn, from the `s`-th on, and the one that
waits has got the next. -/
structure InTurn (n s : ℕ) (σ : Lifetime e) : Prop where
  contexts : σ.accepted.map PooledSocket.context = turns n s σ.accepted.length
  next : σ.server.isOpen = true → σ.pool.poolSize = n ∧
    σ.waiting = some ((s + σ.accepted.length) % n) ∧
    σ.pool.nextIOContext = (s + σ.accepted.length + 1) % n

section Contexts

variable {findInMapping} {σ σ' : Lifetime e} {event : Event} {os : List Output} {n s : ℕ}

lemma inTurn_accepting
    (hcontexts : σ.accepted.map PooledSocket.context = turns n s σ.accepted.length)
    (hsize : σ.pool.poolSize = n)
    (hnext : σ.pool.nextIOContext = (s + σ.accepted.length) % n) : InTurn n s σ.accepting := by
  refine ⟨hcontexts, fun _ => ⟨?_, congrArg some hnext, ?_⟩⟩
  · exact (IOContextPool.poolSize_getIOContext _).trans hsize
  · refine (IOContextPool.nextIOContext_getIOContext _).trans ?_
    rw [hnext, hsize, Nat.mod_add_mod]
    rfl

/-- Nothing else changes the contexts. -/
lemma InTurn.of_eq (h : InTurn n s σ)
    (hcontexts : σ'.accepted.map PooledSocket.context = σ.accepted.map PooledSocket.context)
    (hsize : σ'.pool.poolSize = σ.pool.poolSize)
    (hturn : σ'.pool.nextIOContext = σ.pool.nextIOContext) (hwaiting : σ'.waiting = σ.waiting)
    (hopen : σ'.server.isOpen = true → σ.server.isOpen = true) : InTurn n s σ' := by
  have hlength : σ'.accepted.length = σ.accepted.length := by
    simpa using congrArg List.length hcontexts
  refine ⟨by rw [hcontexts, hlength, h.contexts], fun hopen' => ?_⟩
  rw [hsize, hturn, hwaiting, hlength]
  exact h.next (hopen hopen')

lemma map_context_set {i : ℕ} {a b : PooledSocket e} (ha : σ.accepted[i]? = some a)
    (hcontext : b.context = a.context) :
    (σ.accepted.set i b).map PooledSocket.context = σ.accepted.map PooledSocket.context := by
  obtain ⟨hlt, rfl⟩ := List.getElem?_eq_some_iff.mp ha
  have hlt' : i < (σ.accepted.map PooledSocket.context).length := by rwa [List.length_map]
  rw [List.map_set, hcontext, ← List.getElem_map PooledSocket.context (h := hlt')]
  exact List.set_getElem_self hlt'

lemma InTurn.step (h : InTurn n s σ) (howned : σ.owned = true)
    (hsucceeds : σ.AcceptSucceeds event)
    (hstep : Lifetime.step findInMapping σ event = some (σ', os)) : InTurn n s σ' := by
  cases happens_of_step howned hstep with
  | @accepted address port context hwaiting hopen =>
    obtain ⟨hsize, hnow, hnext⟩ := h.next hopen
    obtain rfl : context = (s + σ.accepted.length) % n :=
      Option.some.inj (hwaiting.symm.trans hnow)
    refine inTurn_accepting ?_ hsize ?_
    · dsimp only
      rw [List.map_append, h.contexts, List.length_append, List.length_singleton, turns_succ]
      rfl
    · dsimp only
      rw [hnext, List.length_append, List.length_singleton, Nat.add_assoc]
  | failed hopen hfailed => exact (hfailed hsucceeds).elim
  | threw => exact h.of_eq rfl rfl rfl rfl id
  | ended hwaiting hclosed =>
    exact ⟨h.contexts, fun hopen => (Bool.false_ne_true (hclosed.symm.trans hopen)).elim⟩
  | signal hopen => exact h.of_eq rfl rfl rfl rfl fun _ => hopen
  | unknown => exact h
  | @sent peer m i hclient =>
    refine h.of_eq (List.ext_getElem? fun j => ?_) rfl rfl rfl id
    rw [List.getElem?_map, List.getElem?_map, List.getElem?_modify, Option.map_eq_map,
      Option.map_map]
    refine congrArg (fun f => Option.map f σ.accepted[j]?) (funext fun a => ?_)
    dsimp only [Function.comp]
    split <;> rfl
  | task ha hposted => exact h.of_eq (map_context_set ha rfl) rfl rfl rfl id
  | complete ha =>
    refine h.of_eq (map_context_set ha rfl) rfl rfl rfl fun hopen => ?_
    rw [handling] at hopen
    dsimp only at hopen
    split at hopen <;> exact hopen
  | getIOContext => exact hsucceeds.elim
  | stop => exact h.of_eq rfl rfl rfl rfl id

/-- In every run of a server that could be constructed in which no accept fails and nobody else
takes a context, whatever else happens, the connections are spread evenly over the contexts of the
pool. -/
theorem contexts_even {owned : Bool} {pool : IOContextPool} {σ₀ : Lifetime e}
    (hstart : start owned pool = .ok σ₀) {es : List Event}
    (hrun : Machine.Run (Lifetime.step findInMapping) σ₀ es σ os)
    (halong : Machine.Along (Lifetime.step findInMapping) AcceptSucceeds σ₀ es)
    {i i' : ℕ} (hi : i < pool.poolSize) (hi' : i' < pool.poolSize) :
    (σ.accepted.map PooledSocket.context).count i ≤
      (σ.accepted.map PooledSocket.context).count i' + 1 := by
  let q := pool.getIOContext.2.getIOContext.2.getIOContext.2
  have hsize : q.poolSize = pool.poolSize := by simp only [q, IOContextPool.poolSize_getIOContext]
  have hnext : q.nextIOContext = q.nextIOContext % pool.poolSize := by
    rw [← hsize, Nat.mod_eq_of_lt q.next_lt]
  have hkept := kept_start hstart
  have hinTurn : InTurn pool.poolSize q.nextIOContext σ₀ := by
    obtain ⟨-, rfl⟩ := start_eq_ok_iff.mp hstart
    exact inTurn_accepting (σ := opened true pool) rfl hsize hnext
  have hinv := hrun.invariant_of_along
    (I := fun σ _ => Kept σ ∧ InTurn pool.poolSize q.nextIOContext σ) ⟨hkept, hinTurn⟩
    (fun _ _ _ _ _ hinv hsucceeds hstep =>
      ⟨hinv.1.step hstep, hinv.2.step hinv.1.owned hsucceeds hstep⟩) halong
  rw [hinv.2.contexts]
  exact count_turns_le hi hi'

/-- Three connections on a pool of two. -/
def threeConnections : List Event :=
  [.accept .success (some (0x0a000001, 4000)), .accept .success (some (0x0a000001, 4001)),
    .accept .success (some (0x0a000001, 4002))]

/-- One context has got two of them, and the other one. -/
theorem contexts_even_threeConnections : ∃ (σ : Lifetime TSocket.bare) (os : _),
    Machine.Run (Lifetime.step fun _ _ => "a") onTwoContexts threeConnections σ os ∧
      (σ.accepted.map PooledSocket.context).count 1 ≤
        (σ.accepted.map PooledSocket.context).count 0 + 1 ∧
      σ.accepted.map PooledSocket.context = [1, 0, 1] := by
  have hend : (Machine.exec (Lifetime.step fun _ _ => "a") onTwoContexts threeConnections).map
      (fun r => r.1.accepted.map PooledSocket.context) = some [1, 0, 1] := by decide +kernel
  obtain ⟨⟨σ, os⟩, hexec, hcontexts⟩ := Option.map_eq_some_iff.mp hend
  have hrun := Machine.run_iff_exec.mpr hexec
  exact ⟨σ, os, hrun, contexts_even start_twoContexts hrun (by decide +kernel) (by decide)
    (by decide), hcontexts⟩

end Contexts

end Lifetime

end OldPart
