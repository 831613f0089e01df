import OldPart.Lib.Machine
import OldPart.Serializer.Numbering
import OldPart.Serializer.RoundTrip

/-!
# The streams of one serializer

`Serialize` returns a coroutine that stands at its first message; each further pull resumes it
until the next.  The coroutines of one `OSerializer` take their sequence ids from one counter,
and whoever holds them may resume them in any order.  So the serializer is a machine whose
events are the calls and the pulls as they come.
-/

namespace OldPart

/-! ## The calls -/

/-- The four overloads of `Serialize`. -/
inductive Overload where
  | plain
  | compress (compressLevel : Int8)
  | encrypt (key : AesKey)
  | compressEncrypt (compressLevel : Int8) (key : AesKey)

/-- What `MakeMessageFromBuf` is called with. -/
def Overload.stamp (messageId : Int32) : Overload → Stamp
  | plain => ⟨messageId, SerializeMethod.none, 0⟩
  | compress compressLevel => ⟨messageId, SerializeMethod.compress, compressLevel⟩
  | encrypt _ => ⟨messageId, SerializeMethod.encrypt, 0⟩
  | compressEncrypt compressLevel _ =>
      ⟨messageId, SerializeMethod.compress ||| SerializeMethod.encrypt, compressLevel⟩

/-- A call of `Serialize`. -/
structure SerializeCall where
  messageId : Int32
  schema : Schema
  obj : schema.Val
  overload : Overload

namespace SerializeCall

variable (u : Setup) (call : SerializeCall)

/-- The same of a call. -/
def stamp : Stamp := call.overload.stamp call.messageId

/-- What `bufFunc` yields. -/
def bodies : Except Fault (List BufT) :=
  match call.overload with
  | .plain => serializeObject u.env call.schema call.obj
  | .compress compressLevel => do
      compressBuf u compressLevel (← serializeObject u.env call.schema call.obj)
  | .encrypt key => do
      encryptBuf u.env u.crypto key (← serializeObject u.env call.schema call.obj)
  | .compressEncrypt compressLevel key => do
      let bodies ← compressBuf u compressLevel (← serializeObject u.env call.schema call.obj)
      encryptBuf u.env u.crypto key bodies

/-- All messages of the call, when it takes the numbers `fetch` from the counter. -/
def messages (fetch : ℕ → Int32) : Except Fault (List OMessage) :=
  match call.overload with
  | .plain => serialize u fetch call.messageId call.obj
  | .compress compressLevel => serializeCompress u fetch call.messageId call.obj compressLevel
  | .encrypt key => serializeEncrypt u fetch call.messageId call.obj key
  | .compressEncrypt compressLevel key =>
      serializeCompressEncrypt u fetch call.messageId call.obj compressLevel key

variable {u call}

lemma messages_of_bodies {bodies : List BufT} (h : call.bodies u = .ok bodies)
    (fetch : ℕ → Int32) :
    call.messages u fetch = .ok (makeMessageFromBuf call.stamp fetch bodies) := by
  obtain ⟨messageId, schema, obj, overload⟩ := call
  cases overload with
  | plain =>
    simp only [SerializeCall.bodies] at h
    simp only [messages, serialize, h, ok_bind]
    rfl
  | compress level =>
    obtain ⟨raw, hraw, h⟩ := exists_of_bind_eq_ok h
    simp only [messages, serializeCompress, hraw, h, ok_bind]
    rfl
  | encrypt key =>
    obtain ⟨raw, hraw, h⟩ := exists_of_bind_eq_ok h
    simp only [messages, serializeEncrypt, hraw, h, ok_bind]
    rfl
  | compressEncrypt level key =>
    obtain ⟨raw, hraw, h⟩ := exists_of_bind_eq_ok h
    obtain ⟨compressed, hcompress, h⟩ := exists_of_bind_eq_ok h
    simp only [messages, serializeCompressEncrypt, hraw, hcompress, h, ok_bind]
    rfl

/-- The writer, the compressor and the encryptor each mark the last body and no other. -/
lemma marksLast_bodies {bodies : List BufT} (h : call.bodies u = .ok bodies) :
    ∃ n, MarksLast n bodies := by
  obtain ⟨messageId, schema, obj, overload⟩ := call
  cases overload with
  | plain =>
    obtain ⟨front, t, rfl, ht, hfront, -⟩ := serializeObject_marksLast h
    exact ⟨_, hfront.marksLast ht⟩
  | compress level =>
    obtain ⟨raw, hraw, h⟩ := exists_of_bind_eq_ok h
    exact compressBuf_serializeObject_marksLast hraw h
  | encrypt key =>
    obtain ⟨raw, hraw, h⟩ := exists_of_bind_eq_ok h
    obtain ⟨front, t, rfl, ht, hfront, -⟩ := serializeObject_marksLast hraw
    exact ⟨_, (hfront.marksLast ht).encryptBodies h⟩
  | compressEncrypt level key =>
    obtain ⟨raw, hraw, h⟩ := exists_of_bind_eq_ok h
    obtain ⟨compressed, hcompress, hencrypt⟩ := exists_of_bind_eq_ok h
    obtain ⟨n, hmarks⟩ := compressBuf_serializeObject_marksLast hraw hcompress
    exact ⟨n, hmarks.encryptBodies hencrypt⟩

end SerializeCall

/-! ## The machine -/

/-- How far a coroutine is. -/
inductive StreamStatus where
  /-- It stands at a message. -/
  | suspended
  /-- It has returned: the stream is drained. -/
  | returned
  /-- It has thrown. -/
  | failed (e : Fault)
deriving DecidableEq

/-- The coroutine of `MakeMessageFromBuf`: the bodies it still pulls and what happens behind
them, its local `messageSequenceId`, and the messages it has yielded. -/
structure Stream where
  call : SerializeCall
  rest : List BufT
  failure : Option Fault
  messageSequenceId : Int32
  yielded : List OMessage
  status : StreamStatus

/-- The coroutine before it is entered.  A `bufFunc` that fails may have yielded bodies before:
any, as far as it matters here. -/
def Stream.new (u : Setup) (call : SerializeCall) (before : List BufT) : Stream :=
  match call.bodies u with
  | .ok bodies => ⟨call, bodies, none, 1, [], .suspended⟩
  | .error e => ⟨call, before, some e, 1, [], .suspended⟩

/-- Run the coroutine to its next message.  `next` is what `mMessageSequenceId` holds. -/
def Stream.resume (next : Int32) (t : Stream) : Stream × Int32 × List OMessage :=
  match t.rest with
  | body :: rest =>
      let pMessage := makeMessage t.call.stamp next t.messageSequenceId body
      ({ t with
          rest := rest
          messageSequenceId := t.messageSequenceId + 1
          yielded := t.yielded ++ [pMessage] },
        next + 1, [pMessage])
  | [] => ({ t with status := t.failure.elim .returned .failed }, next, [])

/-- `OSerializer`, as far as `Serialize` works on it, and the coroutines it has returned. -/
structure Streams where
  mMessageSequenceId : Int32
  streams : List Stream

namespace Streams

/-- A new serializer. -/
def start : Streams := ⟨1, []⟩

/-- What happens to a serializer: a call, or a pull on the `i`-th of its coroutines. -/
inductive Event where
  | serialize (call : SerializeCall) (before : List BufT)
  | pull (i : ℕ)

/-- The serializer and its coroutines.  The constructor of `pull_type` enters the coroutine. -/
def step (u : Setup) : Machine Streams Event OMessage
  | σ, .serialize call before =>
      let (t, next, messages) := (Stream.new u call before).resume σ.mMessageSequenceId
      some (⟨next, σ.streams ++ [t]⟩, messages)
  | σ, .pull i =>
      match σ.streams[i]? with
      | none => none
      | some t =>
          if t.status = .suspended then
            let (t, next, messages) := t.resume σ.mMessageSequenceId
            some (⟨next, σ.streams.set i t⟩, messages)
          else none

end Streams

/-! ## One coroutine -/

/-- The coroutine has made messages of the bodies `done`, with the numbers `fetch`. -/
structure Stream.Follows (u : Setup) (t : Stream) (fetch : ℕ → Int32) (done : List BufT) :
    Prop where
  bodies_eq : t.failure = none → t.call.bodies u = .ok (done ++ t.rest)
  yielded_eq : t.yielded = makeMessageFromBuf t.call.stamp fetch done
  messageSequenceId_eq : t.messageSequenceId = .ofNat (done.length + 1)
  drained : t.status = .returned → t.failure = none ∧ t.rest = []

namespace Stream

variable {u : Setup} {t : Stream} {fetch : ℕ → Int32} {done : List BufT}

lemma new_spec (u : Setup) (call : SerializeCall) (before : List BufT) (fetch : ℕ → Int32) :
    (new u call before).Follows u fetch [] ∧ (new u call before).yielded = [] ∧
      (new u call before).status = .suspended := by
  unfold new
  split
  · next bodies h => exact ⟨⟨fun _ => h, rfl, rfl, fun h => by cases h⟩, rfl, rfl⟩
  · exact ⟨⟨fun h => (Option.some_ne_none _ h).elim, rfl, rfl, fun h => by cases h⟩, rfl, rfl⟩

/-- A coroutine that is resumed takes a number and makes a message with it, or neither. -/
lemma resume_spec (next : Int32) (t : Stream) :
    (t.resume next).1.yielded = t.yielded ++ (t.resume next).2.2 ∧
      ((t.resume next).2 = (next, []) ∨
        ∃ m, m.sequenceId = next ∧ (t.resume next).2 = (next + 1, [m])) := by
  unfold resume
  split
  · exact ⟨rfl, Or.inr ⟨_, rfl, rfl⟩⟩
  · exact ⟨(List.append_nil _).symm, Or.inl rfl⟩

lemma Follows.resume (h : t.Follows u fetch done) (hsuspended : t.status = .suspended)
    (next : Int32) : ∃ fetch' done', (t.resume next).1.Follows u fetch' done' := by
  cases hrest : t.rest with
  | nil =>
    refine ⟨fetch, done, ?_⟩
    simp only [Stream.resume, hrest]
    refine ⟨fun hnone => ?_, h.yielded_eq, h.messageSequenceId_eq, fun hreturned => ?_⟩
    · simpa [hrest] using h.bodies_eq hnone
    · refine ⟨?_, rfl⟩
      dsimp only at hreturned ⊢
      cases hfailure : t.failure with
      | none => rfl
      | some e =>
        rw [hfailure] at hreturned
        cases hreturned
  | cons body rest =>
    refine ⟨fun i => if i = done.length then next else fetch i, done ++ [body], ?_⟩
    simp only [Stream.resume, hrest]
    refine ⟨fun hnone => ?_, ?_, ?_, fun hreturned => ?_⟩
    · have hbodies := h.bodies_eq hnone
      rw [hrest] at hbodies
      rwa [List.append_assoc, List.singleton_append]
    · dsimp only
      rw [makeMessageFromBuf_concat, if_pos rfl, h.yielded_eq, h.messageSequenceId_eq]
      congr 1
      exact makeMessageFromBuf_congr fun i hi => (if_neg hi.ne).symm
    · dsimp only
      rw [h.messageSequenceId_eq, List.length_append, List.length_singleton]
      exact (Int32.ofNat_add _ 1).symm
    · rw [hsuspended] at hreturned
      cases hreturned

/-- What a drained coroutine has yielded are the messages of its call. -/
lemma Follows.of_drained (h : t.Follows u fetch done) (hreturned : t.status = .returned) :
    t.call.bodies u = .ok done ∧ t.call.messages u fetch = .ok t.yielded := by
  obtain ⟨hfailure, hrest⟩ := h.drained hreturned
  have hbodies := h.bodies_eq hfailure
  rw [hrest, List.append_nil] at hbodies
  exact ⟨hbodies, by rw [SerializeCall.messages_of_bodies hbodies, h.yielded_eq]⟩

end Stream

/-! ## All of them -/

/-- What holds when the messages `os` have been made, in this order. -/
structure Streams.Counts (u : Setup) (σ : Streams) (os : List OMessage) : Prop where
  next_eq : σ.mMessageSequenceId = .ofNat (os.length + 1)
  ids_eq : os.map OMessage.sequenceId = (List.range os.length).map fun k => .ofNat (k + 1)
  follows : ∀ t ∈ σ.streams, ∃ fetch done, t.Follows u fetch done
  sublist : ∀ t ∈ σ.streams, t.yielded.Sublist os
  perm : (σ.streams.flatMap Stream.yielded).Perm os

namespace Streams

variable {u : Setup} {σ σ' : Streams} {os os' : List OMessage}

lemma counts_start (u : Setup) : start.Counts u [] :=
  ⟨rfl, rfl, by simp [start], by simp [start], by simp [start]⟩

/-- A coroutine that is not entered yet has no part in it. -/
lemma Counts.add (h : σ.Counts u os) (call : SerializeCall) (before : List BufT) :
    (⟨σ.mMessageSequenceId, σ.streams ++ [.new u call before]⟩ : Streams).Counts u os := by
  obtain ⟨hfollows, hyielded, -⟩ := Stream.new_spec u call before fun _ => 0
  refine ⟨h.next_eq, h.ids_eq, fun t ht => ?_, fun t ht => ?_, ?_⟩
  · rcases List.mem_append.mp ht with ht | ht
    · exact h.follows t ht
    · rw [List.mem_singleton.mp ht]
      exact ⟨_, _, hfollows⟩
  · rcases List.mem_append.mp ht with ht | ht
    · exact h.sublist t ht
    · rw [List.mem_singleton.mp ht, hyielded]
      exact List.nil_sublist os
  · rw [List.flatMap_append, List.flatMap_singleton, hyielded, List.append_nil]
    exact h.perm

lemma Counts.resume {pre post : List Stream} {t : Stream} {next : Int32}
    (h : (⟨next, pre ++ t :: post⟩ : Streams).Counts u os) (hsuspended : t.status = .suspended) :
    (⟨(t.resume next).2.1, pre ++ (t.resume next).1 :: post⟩ : Streams).Counts u
      (os ++ (t.resume next).2.2) := by
  obtain ⟨hyielded, hresult⟩ := t.resume_spec next
  have hnext : next = .ofNat (os.length + 1) := h.next_eq
  have hmem : ∀ {x : Stream}, x ∈ pre ++ (t.resume next).1 :: post →
      x = (t.resume next).1 ∨ x ∈ pre ++ t :: post := by
    intro x hx
    simp only [List.mem_append, List.mem_cons] at hx ⊢
    tauto
  have ht : t ∈ pre ++ t :: post := by simp
  refine ⟨?_, ?_, fun x hx => ?_, fun x hx => ?_, ?_⟩
  · rcases hresult with hresult | ⟨m, -, hresult⟩
    · simpa [hresult] using hnext
    · rw [hresult, List.length_append, List.length_singleton, hnext]
      exact (Int32.ofNat_add _ 1).symm
  · rcases hresult with hresult | ⟨m, hm, hresult⟩
    · simpa [hresult] using h.ids_eq
    · rw [hresult, List.map_append, List.length_append, List.length_singleton, List.range_succ,
        List.map_append, h.ids_eq, List.map_singleton, List.map_singleton, hm, hnext]
  · rcases hmem hx with rfl | hx
    · obtain ⟨fetch, done, hfollows⟩ := h.follows t ht
      exact hfollows.resume hsuspended next
    · exact h.follows x hx
  · rcases hmem hx with rfl | hx
    · rw [hyielded]
      exact (h.sublist t ht).append_right _
    · exact (h.sublist x hx).trans (List.sublist_append_left _ _)
  · have hperm := h.perm
    simp only [List.flatMap_append, List.flatMap_cons] at hperm ⊢
    rw [hyielded]
    refine List.Perm.trans ?_ (hperm.append_right _)
    simp only [List.append_assoc]
    exact (List.perm_append_comm.append_left _).append_left _

/-- One event. -/
lemma Counts.step {e : Event} (h : σ.Counts u os) (hstep : step u σ e = some (σ', os')) :
    σ'.Counts u (os ++ os') := by
  cases e with
  | serialize call before =>
    obtain ⟨-, -, hsuspended⟩ := Stream.new_spec u call before fun _ => 0
    obtain ⟨rfl, rfl⟩ := Prod.mk.inj (Option.some.inj hstep)
    exact (h.add call before).resume hsuspended
  | pull i =>
    rw [Streams.step] at hstep
    cases hget : σ.streams[i]? with
    | none =>
      rw [hget] at hstep
      cases hstep
    | some t =>
      rw [hget] at hstep
      dsimp only at hstep
      split at hstep
      · next hsuspended =>
        obtain ⟨rfl, rfl⟩ := Prod.mk.inj (Option.some.inj hstep)
        obtain ⟨hi, rfl⟩ := List.getElem?_eq_some_iff.mp hget
        have hsplit : σ.streams = σ.streams.take i ++ σ.streams[i] :: σ.streams.drop (i + 1) := by
          rw [← List.drop_eq_getElem_cons hi, List.take_append_drop]
        rw [List.set_eq_take_append_cons_drop, if_pos hi]
        refine Counts.resume ?_ hsuspended
        rwa [← hsplit]
      · cases hstep

lemma counts_of_run {es : List Event} (hrun : Machine.Run (Streams.step u) start es σ os) :
    σ.Counts u os :=
  hrun.invariant (I := fun _ σ os => σ.Counts u os) (counts_start u)
    fun _ _ _ _ _ _ h hstep => h.step hstep

/-- The ids in the order in which they were taken. -/
lemma Counts.pairwise (h : σ.Counts u os) (hfew : os.length < 2 ^ 31) :
    os.Pairwise fun m m' => m.sequenceId < m'.sequenceId := by
  rw [← List.pairwise_map, h.ids_eq, List.pairwise_map]
  refine List.pairwise_lt_range.imp_of_mem fun {i j} hi hj hlt => ?_
  rw [List.mem_range] at hi hj
  rw [Int32.lt_iff_toInt_lt, Int32.toInt_ofNat_of_lt (by omega), Int32.toInt_ofNat_of_lt (by omega)]
  omega

end Streams

/-! ## The frames of a drained stream -/

/-- The messages are those of the call, they are numbered `1`, `2` and so on up to the last,
whose number is negative, and they are stamped alike. -/
structure Framed (u : Setup) (call : SerializeCall) (ms : List OMessage) : Prop where
  messages : ∃ fetch, call.messages u fetch = .ok ms
  numbers : ∃ n, ms.map (fun m => m.messageSequenceId.toInt) =
      (List.range n).map (fun k : ℕ => (k : ℤ) + 1) ++ [-((n : ℤ) + 1)] ∧
    ms.map OMessage.isLast = List.replicate n false ++ [true]
  stamped : ∀ m ∈ ms, m.messageId = call.messageId ∧
    m.bodySerializeMethod = call.stamp.serializeMethod.toInt16 ∧
    m.compressLevel = call.stamp.compressLevel

lemma map_toInt_numbersFrom {k n : ℕ} (h : k + n < 2 ^ 31) :
    (numbersFrom k n).map Int32.toInt =
      (List.range n).map (fun j : ℕ => (j : ℤ) + k) ++ [-((n : ℤ) + k)] := by
  induction n generalizing k with
  | zero =>
    have hk : (Int32.ofNat k).toInt = k := Int32.toInt_ofNat_of_lt (by omega)
    rw [numbersFrom, List.map_singleton, Int32.toInt_neg, hk, Int.bmod_def]
    simp only [List.range_zero, List.map_nil, List.nil_append, Nat.cast_zero, zero_add,
      List.cons.injEq, and_true]
    split <;> omega
  | succ n ih =>
    have hk : (Int32.ofNat k).toInt = k := Int32.toInt_ofNat_of_lt (by omega)
    rw [numbersFrom, List.map_cons, hk, ih (by omega), List.range_succ_eq_map, List.map_cons,
      List.map_map, List.cons_append]
    congr 1
    · simp
    · congr 1
      · refine List.map_congr_left fun j _ => ?_
        simp only [Function.comp_apply, Nat.succ_eq_add_one]
        push_cast
        ring
      · push_cast
        congr 1
        ring

lemma map_neg_numbersFrom {k n : ℕ} (hpos : 0 < k) (h : k + n < 2 ^ 31) :
    (numbersFrom k n).map (fun i => decide (i < 0)) = List.replicate n false ++ [true] := by
  induction n generalizing k with
  | zero => simp [numbersFrom, number_neg (k := k) hpos (by omega)]
  | succ n ih =>
    have hk := number_nonneg (k := k) (by omega)
    rw [numbersFrom, List.map_cons, ih (by omega) (by omega), decide_eq_false hk,
      List.replicate_succ, List.cons_append]

lemma Stream.Follows.framed {u : Setup} {t : Stream} {fetch : ℕ → Int32} {done : List BufT}
    (h : t.Follows u fetch done) (hreturned : t.status = .returned)
    (hfew : t.yielded.length < 2 ^ 31) : Framed u t.call t.yielded := by
  obtain ⟨hbodies, hmessages⟩ := h.of_drained hreturned
  obtain ⟨n, hmarks⟩ := SerializeCall.marksLast_bodies hbodies
  have hnumbers : t.yielded.map OMessage.messageSequenceId = numbersFrom 1 n := by
    rw [h.yielded_eq]
    exact makeMessages_numbers hmarks t.call.stamp fetch 0 1
  have hlen : n + 1 < 2 ^ 31 := by
    rwa [← length_numbersFrom 1 n, ← hnumbers, List.length_map]
  refine ⟨⟨fetch, hmessages⟩, ⟨n, ?_, ?_⟩, fun m hm => ?_⟩
  · have hints := map_toInt_numbersFrom (k := 1) (n := n) (by omega)
    rwa [← hnumbers, List.map_map] at hints
  · have hlast := map_neg_numbersFrom (k := 1) (n := n) Nat.one_pos (by omega)
    rwa [← hnumbers, List.map_map] at hlast
  · rw [h.yielded_eq] at hm
    obtain ⟨hid, hmethod, hlevel⟩ := stamp_of_mem hm
    refine ⟨?_, hmethod, hlevel⟩
    rw [hid]
    obtain ⟨messageId, schema, obj, overload⟩ := t.call
    cases overload <;> rfl

/-- In every run of a serializer in which fewer than `2 ^ 31` messages are made, each drained
stream is framed, and the sequence ids increase in each stream and differ between all of them. -/
theorem streams_framed (u : Setup) {es : List Streams.Event} {σ : Streams} {os : List OMessage}
    (hrun : Machine.Run (Streams.step u) .start es σ os) (hfew : os.length < 2 ^ 31) :
    (∀ t ∈ σ.streams, t.status = .returned → Framed u t.call t.yielded) ∧
      (∀ t ∈ σ.streams, (t.yielded.map OMessage.sequenceId).Pairwise (· < ·)) ∧
      ((σ.streams.flatMap Stream.yielded).map OMessage.sequenceId).Nodup := by
  have hcounts := Streams.counts_of_run hrun
  have hpairwise := hcounts.pairwise hfew
  refine ⟨fun t ht hreturned => ?_, fun t ht => ?_, ?_⟩
  · obtain ⟨fetch, done, hfollows⟩ := hcounts.follows t ht
    exact hfollows.framed hreturned ((hcounts.sublist t ht).length_le.trans_lt hfew)
  · rw [List.pairwise_map]
    exact hpairwise.sublist (hcounts.sublist t ht)
  · refine ((hcounts.perm.map OMessage.sequenceId).nodup_iff).mpr ?_
    rw [List.Nodup, List.pairwise_map]
    exact hpairwise.imp fun hlt heq => by
      rw [heq] at hlt
      exact absurd hlt (by simp)

/-! ## Two streams in turn -/

/-- A call with an object of eight bytes. -/
def twoInts : SerializeCall where
  messageId := 1
  schema := .field Schema.fourBytes Schema.fourBytes
  obj := (⟨[2, 3, 5, 7], rfl⟩, ⟨[5, 6, 7, 8], rfl⟩)
  overload := .plain

/-- Two calls, and their coroutines drained in turn. -/
def inTurn : List Streams.Event :=
  [.serialize twoInts [], .serialize twoInts [], .pull 0, .pull 1, .pull 1, .pull 0]

/-- In bodies of four bytes there are two messages of each, with the ids one and three, and two
and four. -/
lemma exec_inTurn : ∃ σ os,
    Machine.exec (Streams.step (Setup.plain 4 (by decide))) .start inTurn = some (σ, os) ∧
      os.length = 4 ∧ σ.streams.map Stream.status = [.returned, .returned] ∧
      σ.streams.map (fun t => t.yielded.map OMessage.sequenceId) = [[1, 3], [2, 4]] :=
  ⟨_, _, rfl, rfl, rfl, rfl⟩

theorem streams_framed_inTurn :
    ∃ σ os, Machine.Run (Streams.step (Setup.plain 4 (by decide))) .start inTurn σ os ∧
      σ.streams.map (fun t => t.yielded.map OMessage.sequenceId) = [[1, 3], [2, 4]] ∧
      (∀ t ∈ σ.streams, Framed (Setup.plain 4 (by decide)) t.call t.yielded) ∧
      ((σ.streams.flatMap Stream.yielded).map OMessage.sequenceId).Nodup := by
  obtain ⟨σ, os, hexec, hlen, hstatus, hids⟩ := exec_inTurn
  have hrun := Machine.run_iff_exec.mpr hexec
  obtain ⟨hframed, -, hnodup⟩ :=
    streams_framed (Setup.plain 4 (by decide)) hrun (by rw [hlen]; decide)
  refine ⟨σ, os, hrun, hids, fun t ht => hframed t ht ?_, hnodup⟩
  have hmem := List.mem_map_of_mem (f := Stream.status) ht
  rw [hstatus] at hmem
  simpa using hmem

end OldPart
