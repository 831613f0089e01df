import OldPart.Common.SPSCSteps

/-!
# Fewer than 2³¹ pushes

As long as the positions stay in `int32_t`, each specialization does what the queue does.
-/

namespace OldPart

namespace Fifo

variable {α : Type} {capacity : ℕ} {q q' : Fifo α}

/-- Nothing that has been pushed is forgotten. -/
lemma length_pushed_le {op : SPSCArray.Op α} {answers : List (SPSCArray.Answer α)}
    (h : q.step capacity op = some (q', answers)) : q.pushed.length ≤ q'.pushed.length := by
  obtain ⟨xs, k, answer, rfl, -⟩ := exists_of_step h
  rw [pushed_take, pushed_push, List.length_append]
  exact Nat.le_add_right _ _

/-- A step that does not lead beyond the positions of `int32_t`. -/
def StaysBelow (capacity : ℕ) (q : Fifo α) (op : SPSCArray.Op α) : Prop :=
  ∀ r ∈ q.step capacity op, r.1.pushed.length < 2 ^ 31

/-- It writes to positions in the slots. -/
lemma StaysBelow.staysInSlots {op : SPSCArray.Op α} {answers : List (SPSCArray.Answer α)}
    (h : q.StaysBelow capacity op) (hstep : q.step capacity op = some (q', answers)) :
    q.StaysInSlots capacity op := by
  have hlt : q'.pushed.length < 2 ^ 31 := h _ hstep
  have hle := length_pushed_le hstep
  cases op with
  | push data => exact inSlots_of_lt capacity (by omega)
  | consumeAll cb =>
    obtain ⟨rfl, rfl⟩ := Prod.mk.inj (Option.some.inj hstep)
    rw [pushed_take, pushed_push, List.length_append] at hlt
    refine ⟨?_, fun i hi => inSlots_of_lt capacity (by omega)⟩
    obtain hread | hunread := Nat.lt_or_ge q.taken q.pushed.length
    · right
      rw [wrap32_natCast (by omega), wrap32_natCast (by omega)]
      omega
    · exact Or.inl (List.drop_of_length_le hunread)
  | first | firstAt | valid | pop | skip | size | empty => exact trivial

lemma along_staysBelow {ops : List (SPSCArray.Op α)} {answers : List (SPSCArray.Answer α)}
    (h : Machine.Run (step capacity) q ops q' answers) (hlt : q'.pushed.length < 2 ^ 31) :
    q.pushed.length < 2 ^ 31 ∧ Machine.Along (step capacity) (StaysBelow capacity) q ops := by
  induction h with
  | nil q => exact ⟨hlt, trivial⟩
  | cons hstep _ ih =>
    obtain ⟨hnext, halong⟩ := ih hlt
    refine ⟨Nat.lt_of_le_of_lt (length_pushed_le hstep) hnext, fun r hr => ?_, fun r hr => ?_⟩
    · obtain rfl := Option.some.inj (hstep.symm.trans hr)
      exact hnext
    · obtain rfl := Option.some.inj (hstep.symm.trans hr)
      exact halong

end Fifo

namespace SPSCArray

/-- Whatever is done to the queue with fewer than 2³¹ pushes, each specialization answers as the
queue does, and holds what is unread in it. -/
theorem run_refines_fifo {α : Type} (prior : ℕ → α) {capacity : Int32} (hcapacity : 0 < capacity)
    {ops : List (Op α)} {q : Fifo α} {answers : List (Answer α)}
    (hrun : Machine.Run (Fifo.step capacity.toNatClampNeg) .empty ops q answers)
    (hpushes : q.pushed.length < 2 ^ 31) :
    ∀ c ∈ [Specialization.plain, .atomicWrite, .atomicRead],
      ∃ a, Machine.Run (step c) (init prior capacity) ops a answers ∧
        Represents capacity.toNatClampNeg a q := by
  intro c _
  refine hrun.lockstep ?_ (represents_init prior hcapacity)
    (Fifo.along_staysBelow hrun hpushes).2
  intro a q op q' answers h hbelow hstep
  exact step_represents h (hbelow.staysInSlots hstep) hstep (Or.inr (hbelow _ hstep))

/-- Two elements, the second pushed while the first is consumed. -/
theorem run_refines_fifo_two :
    ∃ a, Machine.Run (step .atomicWrite) (init (fun _ => 0) 2)
        [.push 5, .consumeAll fun _ => [6], .valid 0, .first, .pop, .empty] a
        [.nothing, .visited [5], .bool true, .elem 6, .nothing, .bool true] ∧
      Represents 2 a (⟨[5, 6], 2⟩ : Fifo ℕ) :=
  run_refines_fifo (fun _ => 0) (by decide) (Machine.run_iff_exec.mpr rfl) (by decide)
    .atomicWrite (List.mem_cons_of_mem _ List.mem_cons_self)

/-- `Valid(-1)` holds of an empty array. -/
theorem not_valid_iff_live :
    ¬∃ c ∈ [Specialization.plain, .atomicWrite, .atomicRead],
      ((init (fun _ => 0) 1).valid c (-1) = some true ↔ (Fifo.empty : Fifo ℕ).Live (-1)) := by
  decide

end SPSCArray

end OldPart
