import Mathlib.Data.List.Induction
import OldPart.Socket.TSocket

/-!
# The order of writes

`Send` looks at the queue to decide whether a write is going on, but the message that is
being written is not in the queue.  So nothing ever enters the queue, and every message goes
out as soon as its task runs: in order and once each, and on top of whatever write is still
outstanding.
-/

namespace OldPart

namespace Outbox

/-! ## What the events and the effects say about messages -/

/-- The message of a `Send` task. -/
def Event.sent : Event → Option OMessage
  | .send pMessage => some pMessage
  | .written _ _ => none

/-- The messages of the `Send` tasks that ran, in order. -/
def sent (es : List Event) : List OMessage := es.filterMap Event.sent

/-- The messages handed to `DoWrite`, in order. -/
def handed (os : List Effect) : List OMessage :=
  os.filterMap fun o => match o with
    | .asyncWrite pMessage => some pMessage
    | _ => none

/-- How many writes have completed. -/
def completions (es : List Event) : ℕ := es.countP fun e => e.sent.isNone

/-- Every write that completed succeeded. -/
def Successful (es : List Event) : Prop := ∀ i ec, .written i ec ∈ es → ec = .success

/-- What should hold after the events `es` of a new socket: one write at most is outstanding,
every message sent so far has been handed to `DoWrite` or waits behind those that have, and
none waits while nothing is being written. -/
structure Serialized (es : List Event) (w : Outbox) (os : List Effect) : Prop where
  one : w.writing.length ≤ 1
  in_order : handed os ++ w.mPendingMessages = sent es
  drained : w.writing = [] → w.mPendingMessages = []

/-- It does at every point of a run. -/
def SerializesWrites (es : List Event) : Prop :=
  ∀ pre, pre <+: es → ∀ w os, Machine.Run step start pre w os → Serialized pre w os

/-- Whenever a `Send` task runs, the writes of all tasks before it have completed. -/
def Spaced (es : List Event) : Prop :=
  ∀ pre m post, es = pre ++ .send m :: post → completions pre = (sent pre).length

@[simp] lemma sent_append (es es' : List Event) : sent (es ++ es') = sent es ++ sent es' :=
  List.filterMap_append

@[simp] lemma sent_send (m : OMessage) : sent [.send m] = [m] := rfl

@[simp] lemma sent_written (i : ℕ) (ec : ErrorCode) : sent [.written i ec] = [] := rfl

@[simp] lemma handed_append (os os' : List Effect) : handed (os ++ os') = handed os ++ handed os' :=
  List.filterMap_append

@[simp] lemma completions_append (es es' : List Event) :
    completions (es ++ es') = completions es + completions es' := List.countP_append

@[simp] lemma completions_send (m : OMessage) : completions [.send m] = 0 := rfl

@[simp] lemma completions_written (i : ℕ) (ec : ErrorCode) : completions [.written i ec] = 1 := rfl

lemma Successful.of_append {es es' : List Event} (h : Successful (es ++ es')) : Successful es :=
  fun i ec he => h i ec (List.mem_append_left _ he)

/-! ## The queue stays empty -/

/-- While no message waits, a task hands its message to `DoWrite` at once. -/
lemma send_of_pending_eq_nil {w : Outbox} (h : w.mPendingMessages = []) (m : OMessage) :
    w.send m = w.doWrite m := by
  rw [send, h]
  rfl

/-- And a handler of `DoWrite` has nothing to hand on. -/
lemma written_of_pending_eq_nil {w : Outbox} (h : w.mPendingMessages = []) {i : ℕ}
    {ec : ErrorCode} {result : Outbox × List Effect}
    (hstep : step w (.written i ec) = some result) :
    result.1.mPendingMessages = [] ∧ handed result.2 = [] := by
  obtain ⟨-, hwritten⟩ := Option.ite_none_right_eq_some.mp hstep
  obtain rfl := Option.some.inj hwritten
  cases ec <;> simp [onWritten, writeNext, h, handed]

/-- What holds after the events `es` of a new socket whose writes succeed. -/
structure Immediate (es : List Event) (w : Outbox) (os : List Effect) : Prop where
  pending_eq : w.mPendingMessages = []
  handed_eq : handed os = sent es
  writing_eq : w.writing.length + completions es = (sent es).length

lemma immediate_start : Immediate [] start [] := ⟨rfl, rfl, rfl⟩

/-- One event keeps it so. -/
lemma Immediate.step {es : List Event} {w w' : Outbox} {os os' : List Effect} {e : Event}
    (h : Immediate es w os) (hok : Successful (es ++ [e]))
    (hstep : Outbox.step w e = some (w', os')) : Immediate (es ++ [e]) w' (os ++ os') := by
  obtain ⟨hpending, hhanded, hwriting⟩ := h
  cases e with
  | send m =>
    simp only [Outbox.step, send, hpending, List.isEmpty_nil, if_true, doWrite,
      Option.some.injEq, Prod.mk.injEq] at hstep
    obtain ⟨rfl, rfl⟩ := hstep
    refine ⟨rfl, ?_, ?_⟩
    · rw [handed_append, hhanded, sent_append]
      rfl
    · simp only [List.length_append, List.length_singleton, completions_append, completions_send,
        sent_append, sent_send]
      omega
  | written i ec =>
    obtain rfl := hok i ec (by simp)
    simp only [Outbox.step, Option.ite_none_right_eq_some] at hstep
    obtain ⟨hi, hstep⟩ := hstep
    simp only [onWritten, writeNext, hpending, if_true, Option.some.injEq, Prod.mk.injEq] at hstep
    obtain ⟨rfl, rfl⟩ := hstep
    refine ⟨rfl, ?_, ?_⟩
    · rw [handed_append, hhanded, sent_append, sent_written]
      rfl
    · simp only [List.length_eraseIdx_of_lt hi, completions_append, completions_written,
        sent_append, sent_written, List.append_nil]
      omega

lemma immediate_of_run {es : List Event} {w : Outbox} {os : List Effect}
    (hrun : Machine.Run Outbox.step start es w os) (hok : Successful es) : Immediate es w os := by
  refine hrun.invariant (I := fun es w os => Successful es → Immediate es w os)
    (fun _ => immediate_start) (fun es w os e w' os' hinv hstep hok => ?_) hok
  exact (hinv hok.of_append).step hok hstep

/-! ## When the writes are serialised -/

/-- One write at most is outstanding at every point of a run exactly when the sends are
spaced; the rest holds in any case. -/
lemma serialized_iff {es : List Event} {w : Outbox} {os : List Effect} (h : Immediate es w os) :
    Serialized es w os ↔ w.writing.length ≤ 1 := by
  obtain ⟨hpending, hhanded, -⟩ := h
  exact ⟨Serialized.one, fun hone => ⟨hone, by rw [hhanded, hpending, List.append_nil],
    fun _ => hpending⟩⟩

/-- A run whose sends are spaced has one write at most outstanding. -/
lemma Spaced.writing_le {es : List Event} (h : Spaced es) (hok : Successful es) {w : Outbox}
    {os : List Effect} (hrun : Machine.Run Outbox.step start es w os) : w.writing.length ≤ 1 := by
  induction es using List.reverseRecOn generalizing w os with
  | nil =>
    obtain ⟨rfl, -⟩ := Machine.run_nil_iff.mp hrun
    exact Nat.zero_le _
  | append_singleton es e ih =>
    have hwriting := (immediate_of_run hrun hok).writing_eq
    cases e with
    | send m =>
      have hspaced := h es m [] rfl
      simp only [completions_append, completions_send, sent_append, sent_send,
        List.length_append, List.length_singleton] at hwriting
      omega
    | written i ec =>
      obtain ⟨w₁, os₁, -, hfirst, -, -⟩ := hrun.of_append
      have hbefore := ih (fun pre m post hes => h pre m (post ++ [.written i ec]) (by simp [hes]))
        hok.of_append hfirst
      have hwriting₁ := (immediate_of_run hfirst hok.of_append).writing_eq
      simp only [completions_append, completions_written, sent_append, sent_written,
        List.append_nil] at hwriting
      omega

/-- In a run of sends and successful completions, the writes are serialised exactly when each
`Send` task runs after the writes of all tasks before it have completed. -/
theorem serializesWrites_iff_spaced (es : List Event) (w : Outbox) (os : List Effect)
    (hrun : Machine.Run step start es w os) (hok : Successful es) :
    SerializesWrites es ↔ Spaced es := by
  constructor
  · rintro h pre m post rfl
    rw [List.append_cons] at hrun hok
    obtain ⟨w₁, os₁, -, hpre, -, -⟩ := hrun.of_append
    have hok' : Successful (pre ++ [.send m]) := hok.of_append
    have hone := (h (pre ++ [.send m]) ⟨post, by simp⟩ w₁ os₁ hpre).one
    have hwriting := (immediate_of_run hpre hok').writing_eq
    obtain ⟨w₀, os₀, -, hfirst, -, -⟩ := hpre.of_append
    have hwriting₀ := (immediate_of_run hfirst hok'.of_append).writing_eq
    simp only [completions_append, completions_send, sent_append, sent_send, List.length_append,
      List.length_singleton] at hwriting
    omega
  · rintro h pre ⟨post, rfl⟩ w₁ os₁ hpre
    have hok' : Successful pre := hok.of_append
    refine (serialized_iff (immediate_of_run hpre hok')).mpr ?_
    exact Spaced.writing_le (fun front m rest hes => h front m (rest ++ post) (by simp [hes]))
      hok' hpre

/-- A frame without a body. -/
def emptyMessage : OMessage := makeMessage ⟨1, SerializeMethod.none, 0⟩ 1 1 ⟨⟨[], 0⟩, 0, 0, true⟩

/-- Two sends in a row start two writes. -/
theorem not_serializesWrites_two_sends :
    Successful [.send emptyMessage, .send emptyMessage] ∧
      Machine.Run step start [.send emptyMessage, .send emptyMessage]
        ⟨[], true, [emptyMessage, emptyMessage]⟩
        [.asyncWrite emptyMessage, .asyncWrite emptyMessage] ∧
      ¬SerializesWrites [.send emptyMessage, .send emptyMessage] := by
  have hrun : Machine.Run step start [.send emptyMessage, .send emptyMessage]
      ⟨[], true, [emptyMessage, emptyMessage]⟩
      [.asyncWrite emptyMessage, .asyncWrite emptyMessage] :=
    Machine.run_iff_exec.mpr rfl
  refine ⟨by simp [Successful], hrun, fun h => ?_⟩
  have := (h _ (List.prefix_refl _) _ _ hrun).one
  simp at this

/-- A send after the write before it has completed. -/
theorem serializesWrites_one_at_a_time :
    SerializesWrites [.send emptyMessage, .written 0 .success, .send emptyMessage] := by
  refine (serializesWrites_iff_spaced _ ⟨[], true, [emptyMessage]⟩
    [.asyncWrite emptyMessage, .stop, .asyncWrite emptyMessage]
    (Machine.run_iff_exec.mpr rfl) (by simp [Successful])).mpr ?_
  generalize emptyMessage = message
  intro pre m post hes
  rcases pre with _ | ⟨_, _ | ⟨_, pre⟩⟩
  · rfl
  · simp at hes
  · obtain ⟨rfl, rfl, hpost⟩ := by simpa using hes
    cases pre with
    | nil => rfl
    | cons e pre => simp at hpost

end Outbox

end OldPart
