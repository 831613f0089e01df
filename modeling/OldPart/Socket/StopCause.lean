import OldPart.Serializer.RoundTrip
import OldPart.Socket.WriteOrder

/-!
# What a connection is stopped for

`DoRead` stops the connection on a completion with an error other than `operation_aborted`.
`DoWrite` asks only whether the code is `operation_aborted`, in an `if` of its own, so a write
that succeeds stops the connection too.
-/

namespace OldPart

namespace TSocket

variable {e : Endpoint}

/-- The completion an event brings. -/
def Event.errorCode : Event → Option ErrorCode
  | .inl (.send _) => none
  | .inl (.written _ ec) => some ec
  | .inr (.head ec _ _) => some ec
  | .inr (.body ec _ _ _) => some ec

/-- The connection is stopped in a run only on a completion whose code is set and is not
`operation_aborted`. -/
def StopsForCause (e : Endpoint) (es : List Event) : Prop :=
  Machine.Every (step (e := e)) start es fun _ event os =>
    Effect.stop ∈ os → event.errorCode = some .other

/-- No write completes successfully. -/
def NoWriteSucceeds (es : List Event) : Prop := ∀ i, .inl (.written i .success) ∉ es

/-! ## One step -/

/-- The handler of a write stops the connection unless the code is `operation_aborted`. -/
lemma stop_mem_onWritten (w : Outbox) (ec : ErrorCode) :
    Effect.stop ∈ (w.onWritten ec).2 ↔ ec ≠ .operationAborted := by
  have hnext : Effect.stop ∉ w.writeNext.2 := by
    unfold Outbox.writeNext
    split
    · simp [Outbox.doWrite]
    · simp
  cases ec <;> simp [Outbox.onWritten, hnext]

lemma stop_not_mem_send (w : Outbox) (m : OMessage) : Effect.stop ∉ (w.send m).2 := by
  unfold Outbox.send
  split
  · simp [Outbox.doWrite]
  · simp

/-- Reassembling a frame does nothing but hand on the object it completes. -/
lemma stop_not_mem_reassemble {l l' : Locals e.setup.zlib} {m : OMessage} {os : List Effect}
    (h : l.reassemble e m = .ok (l', os)) : Effect.stop ∉ os := by
  unfold Locals.reassemble at h
  generalize Locals.push e _ m = pushed at h
  cases pushed with
  | error f => cases h
  | ok l₁ =>
    rw [ok_bind] at h
    split at h
    · cases h
      simp
    · cases h
      simp

lemma stop_not_mem_onHead (r : Receiver e) (m : OMessage) (handled : Bool) :
    Effect.stop ∉ (r.onHead m handled).2 := by
  unfold Receiver.onHead
  split
  · dsimp only
    split
    · simp [Receiver.fail]
    · split <;> simp
  · split <;> simp [Receiver.fail]

lemma stop_not_mem_onBody (r : Receiver e) (m : OMessage) (residue : Residue) (handled : Bool) :
    Effect.stop ∉ (r.onBody m residue handled).2 := by
  unfold Receiver.onBody
  dsimp only
  split
  · simp
  · split
    · simp [Receiver.fail]
    · split
      · simp [Receiver.fail]
      · rename_i h
        exact stop_not_mem_reassemble h

/-- Of the errors, `operation_aborted` is handled without a stop. -/
lemma stop_mem_onError (r : Receiver e) {ec : ErrorCode} (hne : ec ≠ .success) :
    Effect.stop ∈ (r.onError ec).2 ↔ ec = .other := by
  cases ec with
  | success => exact (hne rfl).elim
  | operationAborted => simp [Receiver.onError]
  | other => simp [Receiver.onError]

/-- A handler of `DoRead` stops the connection on an error other than `operation_aborted`. -/
lemma stop_mem_receiver_step {r r' : Receiver e} {event : Receiver.Event} {os : List Effect}
    (h : r.step event = some (r', os)) :
    Effect.stop ∈ os ↔ Event.errorCode (.inr event) = some .other := by
  cases event with
  | head ec m handled =>
    obtain ⟨-, h⟩ := Receiver.step_head.mp h
    by_cases hec : ec = .success
    · rw [if_pos hec] at h
      obtain rfl := congrArg Prod.snd h
      simpa [Event.errorCode, hec] using stop_not_mem_onHead r _ handled
    · rw [if_neg hec] at h
      obtain rfl := congrArg Prod.snd h
      rw [stop_mem_onError r hec]
      exact Option.some_inj.symm
  | body ec bytes residue handled =>
    obtain ⟨m, -, h⟩ := Receiver.step_body.mp h
    by_cases hec : ec = .success
    · rw [if_pos hec] at h
      obtain rfl := congrArg Prod.snd h.2
      simpa [Event.errorCode, hec] using stop_not_mem_onBody r _ residue handled
    · rw [if_neg hec] at h
      obtain rfl := congrArg Prod.snd h
      rw [stop_mem_onError r hec]
      exact Option.some_inj.symm

/-- What a socket is stopped on: an error other than `operation_aborted`, and the success of a
write. -/
lemma stop_mem_step {t t' : TSocket e} {event : Event} {os : List Effect}
    (h : step t event = some (t', os)) :
    Effect.stop ∈ os ↔
      event.errorCode = some .other ∨ ∃ i, event = .inl (.written i .success) := by
  obtain ⟨w, r⟩ := t
  cases event with
  | inl event =>
    obtain ⟨⟨w', os'⟩, hstep, heq⟩ := Option.map_eq_some_iff.mp h
    obtain rfl : os' = os := (Prod.mk.inj heq).2
    cases event with
    | send m =>
      obtain rfl : (w.send m).2 = os' := (Prod.mk.inj (Option.some.inj hstep)).2
      simpa [Event.errorCode] using stop_not_mem_send w m
    | written i ec =>
      simp only [Outbox.step, Option.ite_none_right_eq_some, Option.some.injEq] at hstep
      obtain rfl : _ = os' := congrArg Prod.snd hstep.2
      rw [stop_mem_onWritten]
      cases ec <;> simp [Event.errorCode]
  | inr event =>
    obtain ⟨⟨r', os'⟩, hstep, heq⟩ := Option.map_eq_some_iff.mp h
    obtain rfl : os' = os := (Prod.mk.inj heq).2
    simpa using stop_mem_receiver_step hstep

/-! ## Runs -/

/-- In a run of a socket, over sends and completions in any order, the connection is stopped
for cause only exactly when no write succeeds. -/
theorem stopsForCause_iff_noWriteSucceeds (e : Endpoint) (es : List Event) (t : TSocket e)
    (os : List Effect) (hrun : Machine.Run step start es t os) :
    StopsForCause e es ↔ NoWriteSucceeds es := by
  constructor
  · intro h i hmem
    obtain ⟨pre, post, rfl⟩ := List.append_of_mem hmem
    obtain ⟨t₁, os₁, os₂, hpre, hrest, -⟩ := hrun.of_append
    cases hrest with
    | cons hstep _ =>
      have hstop := (stop_mem_step hstep).mpr (Or.inr ⟨i, rfl⟩)
      cases h pre _ post rfl t₁ os₁ _ _ hpre hstep hstop
  · rintro h pre event post rfl t₁ os₁ t₂ os₂ - hstep hstop
    refine ((stop_mem_step hstep).mp hstop).resolve_right ?_
    rintro ⟨i, rfl⟩
    exact h i (by simp)

/-- An endpoint at which no creators are registered. -/
def bare : Endpoint := ⟨Setup.plain 16 sixteen_lt, .empty, 0, zeroKey⟩

/-- One message that is written. -/
theorem not_stopsForCause_one_write :
    ¬StopsForCause bare [.inl (.send Outbox.emptyMessage), .inl (.written 0 .success)] := by
  intro h
  have hsend : Machine.Run (step (e := bare)) start [.inl (.send Outbox.emptyMessage)]
      (⟨[], true, [Outbox.emptyMessage]⟩, Receiver.start) [.asyncWrite Outbox.emptyMessage] :=
    Machine.run_iff_exec.mpr rfl
  cases h [.inl (.send Outbox.emptyMessage)] _ [] rfl _ _ _ _ hsend rfl (by simp)

/-- A write that is aborted, and a read that ends with an error. -/
theorem stopsForCause_errors :
    StopsForCause bare [.inl (.send Outbox.emptyMessage), .inl (.written 0 .operationAborted),
      .inr (.head .other Outbox.emptyMessage false)] :=
  (stopsForCause_iff_noWriteSucceeds bare _ (⟨[], true, []⟩, ⟨.none, .null _⟩)
    [.asyncWrite Outbox.emptyMessage, .stop] (Machine.run_iff_exec.mpr rfl)).mpr
    (by simp [NoWriteSucceeds])

end TSocket

end OldPart
