import OldPart.Lib.Table
import OldPart.Socket.TSocket
import Mathlib.Data.Finset.Basic
import Mathlib.Data.List.Basic

/-!
# `TServer`

A server accepts connections, files each under the name of its peer, and gives it to the
`ConnectionManager`, which starts it and stops it when a read or a write fails.  `Send` looks a
peer up in the server's own table.
-/

namespace OldPart

/-! ## The server -/

/-- A `TSocket` that was accepted. -/
inductive SocketState where
  | accepted
  | started
  | stopped
deriving DecidableEq, Repr

/-- A `TServer` with its `ConnectionManager`.  Sockets are known by the order in which they were
accepted, and `sockets` is what became of each. -/
structure TServer where
  /-- `mAcceptor.is_open()`. -/
  isOpen : Bool
  mClients : Table String ℕ
  mConnections : Finset ℕ
  sockets : List SocketState

namespace ConnectionManager

def start (w : TServer) (pSocket : ℕ) : TServer :=
  { w with
    mConnections := insert pSocket w.mConnections
    sockets := w.sockets.set pSocket .started }

def stop (w : TServer) (pSocket : ℕ) : TServer :=
  { w with
    mConnections := w.mConnections.erase pSocket
    sockets := w.sockets.set pSocket .stopped }

def stopAll (w : TServer) : TServer :=
  { w with
    mConnections := ∅
    sockets := w.sockets.mapIdx fun i s => if i ∈ w.mConnections then .stopped else s }

end ConnectionManager

namespace TServer

/-- A new server. -/
def new : TServer := ⟨true, .empty, ∅, []⟩

/-- What happens to a server. -/
inductive Event where
  /-- `async_accept` completes, with the address and the port of the remote endpoint. -/
  | accept (ec : ErrorCode) (address : UInt32) (port : UInt16)
  /-- A handler of a socket calls `ConnectionManager::Stop`. -/
  | stop (pSocket : ℕ)
  /-- One of `mSignals`. -/
  | signal
  | send (peer : String) (pMessage : OMessage)

/-- What a server does. -/
inductive Output where
  /-- `TSocket::Send(pMessage)` of a socket. -/
  | socketSend (pSocket : ℕ) (pMessage : OMessage)
  /-- What `TServer::Send` returns. -/
  | returned (result : Bool)

/-- The part of `DoAccept`'s handler for a connection. -/
def onAccept (w : TServer) (clientName : String) : TServer :=
  let pClient := w.sockets.length
  let w := { w with sockets := w.sockets ++ [SocketState.accepted] }
  let w := { w with mClients := (w.mClients.insert clientName pClient).2 }
  ConnectionManager.start w pClient

def send (w : TServer) (peer : String) (pMessage : OMessage) : List Output :=
  match w.mClients peer with
  | none => [.returned false]
  | some pSocket => [.socketSend pSocket pMessage, .returned true]

variable (findInMapping : UInt32 → UInt16 → String)

/-- A server whose manager knows the names of the peers. -/
def step : Machine TServer Event Output
  | w, .accept ec address port =>
      some (if w.isOpen ∧ ec = .success then w.onAccept (findInMapping address port) else w, [])
  | w, .stop pSocket =>
      if pSocket < w.sockets.length then some (ConnectionManager.stop w pSocket, []) else none
  | w, .signal =>
      if w.isOpen then some (ConnectionManager.stopAll { w with isOpen := false }, []) else none
  | w, .send peer pMessage => some (w, w.send peer pMessage)

end TServer

/-! ## Connections -/

/-- A connection that was accepted: the name of the peer, and whether it is started and has not
been stopped since. -/
structure Connection where
  peer : String
  live : Bool
deriving DecidableEq, Repr

/-- What there is to know about a server: whether it accepts connections, and those it has
accepted. -/
structure Connections where
  accepting : Bool
  accepted : List Connection

namespace Connections

variable (findInMapping : UInt32 → UInt16 → String)

/-- What an event changes. -/
def next (c : Connections) : TServer.Event → Connections
  | .accept ec address port =>
      if c.accepting ∧ ec = .success then
        { c with accepted := c.accepted ++ [⟨findInMapping address port, true⟩] }
      else c
  | .stop i => { c with accepted := c.accepted.modify i fun x => { x with live := false } }
  | .signal => ⟨false, c.accepted.map fun x => { x with live := false }⟩
  | .send _ _ => c

/-- The connections after some events. -/
def after (is : List TServer.Event) : Connections := is.foldl (next findInMapping) ⟨true, []⟩

/-- The `i`-th connection is live. -/
def Live (c : Connections) (i : ℕ) : Prop := ∃ x ∈ c.accepted[i]?, x.live = true

/-- The `i`-th connection is live, and was accepted under the name `peer`. -/
def LiveAs (c : Connections) (peer : String) (i : ℕ) : Prop :=
  ∃ x ∈ c.accepted[i]?, x.peer = peer ∧ x.live = true

/-- The connection that was accepted first under a name, if there is one, is live. -/
def FirstLive (c : Connections) (peer : String) : Prop :=
  ∀ x, c.accepted.find? (fun x => x.peer = peer) = some x → x.live = true

end Connections

/-! ## The server and its connections -/

/-- A server is as its connections are. -/
structure Serves (w : TServer) (c : Connections) : Prop where
  isOpen_eq : w.isOpen = c.accepting
  clients_eq : ∀ peer, w.mClients peer = c.accepted.findIdx? fun x => x.peer = peer
  mem_connections : ∀ i, i ∈ w.mConnections ↔ c.Live i
  sockets_eq : w.sockets = c.accepted.map fun x => if x.live then .started else .stopped

namespace Serves

variable {w : TServer} {c : Connections}

lemma length_sockets (h : Serves w c) : w.sockets.length = c.accepted.length := by
  rw [h.sockets_eq, List.length_map]

lemma new : Serves TServer.new ⟨true, []⟩ :=
  ⟨rfl, fun _ => rfl, fun i => by simp [TServer.new, Connections.Live], rfl⟩

lemma onAccept (h : Serves w c) (peer : String) :
    Serves (w.onAccept peer) { c with accepted := c.accepted ++ [⟨peer, true⟩] } := by
  have hlen := h.length_sockets
  constructor
  · exact h.isOpen_eq
  · intro peer'
    simp only [TServer.onAccept, ConnectionManager.start, Table.insert_snd, h.clients_eq,
      List.findIdx?_append, hlen]
    by_cases hpeer : peer' = peer
    · simp [List.findIdx?_cons, hpeer]
    · simp [List.findIdx?_cons, hpeer, Ne.symm hpeer]
  · intro i
    simp only [TServer.onAccept, ConnectionManager.start, Finset.mem_insert, h.mem_connections,
      hlen, Connections.Live]
    rcases lt_trichotomy i c.accepted.length with hi | rfl | hi
    · simp [List.getElem?_append_left hi, hi.ne]
    · simp
    · simp [hi.ne', List.getElem?_eq_none hi.le, List.getElem?_append_right hi.le,
        List.getElem?_eq_none (l := [(⟨peer, true⟩ : Connection)]) (i := i - c.accepted.length)
          (by simp; omega)]
  · simp only [TServer.onAccept, ConnectionManager.start]
    simp [h.sockets_eq]

lemma stop (h : Serves w c) (i : ℕ) : Serves (ConnectionManager.stop w i)
    { c with accepted := c.accepted.modify i fun x => { x with live := false } } := by
  constructor
  · exact h.isOpen_eq
  · intro peer
    have hmap : (c.accepted.modify i fun x => { x with live := false }).map Connection.peer =
        c.accepted.map Connection.peer :=
      List.ext_getElem (by simp) fun j _ _ => by
        simp only [List.getElem_map, List.getElem_modify]
        split <;> rfl
    have hfind := congrArg (List.findIdx? fun x => x = peer) hmap
    simp only [List.findIdx?_map] at hfind
    exact (h.clients_eq peer).trans hfind.symm
  · intro j
    simp only [ConnectionManager.stop, Finset.mem_erase, h.mem_connections, Connections.Live,
      List.getElem?_modify]
    by_cases hj : j = i
    · subst hj
      simp
    · simp [hj, Ne.symm hj]
  · simp only [ConnectionManager.stop, h.sockets_eq]
    refine List.ext_getElem (by simp) fun j _ _ => ?_
    simp only [List.getElem_set, List.getElem_map, List.getElem_modify]
    split <;> rfl

lemma stopAll (h : Serves w c) : Serves (ConnectionManager.stopAll { w with isOpen := false })
    ⟨false, c.accepted.map fun x => { x with live := false }⟩ := by
  constructor
  · rfl
  · intro peer
    rw [ConnectionManager.stopAll, h.clients_eq, List.findIdx?_map]
    rfl
  · intro i
    simp [ConnectionManager.stopAll, Connections.Live]
  · simp only [ConnectionManager.stopAll, h.sockets_eq, List.map_map]
    refine List.ext_getElem (by simp) fun i hi _ => ?_
    have hlt : i < c.accepted.length := by simpa using hi
    cases hlive : c.accepted[i].live <;>
      simp [h.mem_connections, Connections.Live, List.getElem?_eq_getElem hlt, hlive]

variable {findInMapping : UInt32 → UInt16 → String}

/-- What an event does to a server, it does to its connections. -/
lemma step {w' : TServer} {i : TServer.Event} {os : List TServer.Output} (h : Serves w c)
    (hstep : TServer.step findInMapping w i = some (w', os)) :
    Serves w' (c.next findInMapping i) := by
  cases i with
  | accept ec address port =>
    obtain ⟨rfl, -⟩ := Prod.mk.inj (Option.some.inj hstep)
    simp only [Connections.next, h.isOpen_eq]
    split
    · exact h.onAccept _
    · exact h
  | stop i =>
    rw [TServer.step] at hstep
    split at hstep
    · obtain ⟨rfl, -⟩ := Prod.mk.inj (Option.some.inj hstep)
      exact h.stop i
    · cases hstep
  | signal =>
    rw [TServer.step] at hstep
    split at hstep
    · obtain ⟨rfl, -⟩ := Prod.mk.inj (Option.some.inj hstep)
      exact h.stopAll
    · cases hstep
  | send peer pMessage =>
    obtain ⟨rfl, -⟩ := Prod.mk.inj (Option.some.inj hstep)
    exact h

/-- In every run a server is as its connections are. -/
lemma run {is : List TServer.Event} {os : List TServer.Output}
    (hrun : Machine.Run (TServer.step findInMapping) TServer.new is w os) :
    Serves w (Connections.after findInMapping is) := by
  refine hrun.invariant (I := fun is w _ => Serves w (Connections.after findInMapping is)) new
    fun is w os i w' os' hinv hstep => ?_
  rw [Connections.after, List.foldl_append]
  exact hinv.step hstep

end Serves

/-! ## Routing -/

/-- What `Send` should do: pass the message to a live connection of the peer and return `true`
when there is one, and else return `false`. -/
def Routes (c : Connections) (peer : String) (pMessage : OMessage) (os : List TServer.Output) :
    Prop :=
  (∃ i, c.LiveAs peer i ∧ os = [.socketSend i pMessage, .returned true]) ∨
    (¬∃ i, c.LiveAs peer i) ∧ os = [.returned false]

/-- What `Send` does is that exactly when the first connection of the peer is live. -/
lemma Serves.routes_iff {w : TServer} {c : Connections} (h : Serves w c) (peer : String)
    (pMessage : OMessage) : Routes c peer pMessage (w.send peer pMessage) ↔ c.FirstLive peer := by
  have hclient := h.clients_eq peer
  cases hfind : c.accepted.findIdx? (fun x => x.peer = peer) with
  | none =>
    have hnone := List.findIdx?_eq_none_iff.mp hfind
    have hdead : ¬∃ i, c.LiveAs peer i := by
      rintro ⟨i, x, hx, hpeer, -⟩
      simpa [hpeer] using hnone x (List.mem_of_getElem? hx)
    have hfirst : c.FirstLive peer := by
      intro x hx
      simpa [hnone x (List.mem_of_find?_eq_some hx)] using List.find?_some hx
    rw [TServer.send, hclient, hfind]
    exact iff_of_true (Or.inr ⟨hdead, rfl⟩) hfirst
  | some i =>
    obtain ⟨hi, hpeer, -⟩ := List.findIdx?_eq_some_iff_getElem.mp hfind
    have hx : c.accepted[i]? = some c.accepted[i] := List.getElem?_eq_getElem hi
    have hfirst : c.FirstLive peer ↔ c.accepted[i].live = true := by
      rw [Connections.FirstLive, List.find?_eq_bind_findIdx?_getElem?, hfind, Option.bind_some, hx]
      simp
    have hlive : c.LiveAs peer i ↔ c.accepted[i].live = true := by
      simpa [Connections.LiveAs, hx] using fun _ => hpeer
    rw [TServer.send, hclient, hfind, hfirst, ← hlive, Routes]
    simp [eq_comm]

variable (findInMapping : UInt32 → UInt16 → String)

/-- In a run with these events, every `Send` does what it should. -/
def RoutesToLive (is : List TServer.Event) : Prop :=
  Machine.Every (TServer.step findInMapping) TServer.new is fun pre i os =>
    ∀ peer pMessage, i = .send peer pMessage →
      Routes (Connections.after findInMapping pre) peer pMessage os

/-- Whenever something is sent to a peer, its first connection is live, if it has had one. -/
def SendsToFirst (is : List TServer.Event) : Prop :=
  Machine.Every (TServer.step findInMapping) TServer.new is fun pre i _ =>
    ∀ peer pMessage, i = .send peer pMessage →
      (Connections.after findInMapping pre).FirstLive peer

/-- `Send` routes to live connections exactly as long as nothing is sent to a peer whose first
connection was stopped. -/
theorem routesToLive_iff_sendsToFirst (is : List TServer.Event) :
    RoutesToLive findInMapping is ↔ SendsToFirst findInMapping is := by
  refine forall₅_congr fun pre i post _ w => forall₄_congr fun os w' os' hrun =>
    forall₄_congr fun hstep peer pMessage hsend => ?_
  subst hsend
  obtain ⟨-, rfl⟩ := Prod.mk.inj (Option.some.inj hstep)
  exact (Serves.run hrun).routes_iff peer pMessage

/-- A peer that has connected again: `Send` still takes the connection that was stopped. -/
theorem not_routesToLive_reconnect :
    ¬RoutesToLive (fun _ _ => "a") [.accept .success 0x0a000001 4000, .stop 0,
      .accept .success 0x0a000001 4001,
      .send "a" (makeMessage ⟨1, SerializeMethod.none, 0⟩ 1 1 ⟨⟨[], 0⟩, 0, 0, true⟩)] := by
  intro h
  have hroutes := h [.accept .success 0x0a000001 4000, .stop 0, .accept .success 0x0a000001 4001]
    _ [] rfl _ _ _ _ (Machine.run_iff_exec.mpr rfl) rfl _ _ rfl
  have hafter : (Connections.after (fun _ _ => "a") [.accept .success 0x0a000001 4000, .stop 0,
      .accept .success 0x0a000001 4001]).accepted = [⟨"a", false⟩, ⟨"a", true⟩] := rfl
  rcases hroutes with ⟨i, ⟨x, hx, -, hlive⟩, hos⟩ | ⟨-, hos⟩
  · obtain rfl : 0 = i := (TServer.Output.socketSend.inj (List.head_eq_of_cons_eq hos)).1
    rw [hafter] at hx
    obtain rfl := Option.some.inj hx
    cases hlive
  · cases hos

end OldPart
