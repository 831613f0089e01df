import OldPart.Common.SPSCSteps

/-!
# Positions that wrap

Sizes are differences of positions, and survive the wrap.  Slots are remainders, and do not: a
position that is negative has one only where it is a multiple of the capacity.  Nor does the order
of two positions, which ends the loop of `consume_all`.
-/

namespace OldPart

namespace SPSCArray

variable {α : Type}

/-- One answer for each operation. -/
lemma length_of_step {c : Specialization} {a a' : SPSCArray α} {op : Op α}
    {answers : List (Answer α)} (h : a.step c op = some (a', answers)) : answers.length = 1 := by
  cases op with
  | push | first | firstAt | valid | pop | skip | size | empty | consumeAll =>
    obtain ⟨x, -, hx⟩ := Option.map_eq_some_iff.mp h
    rw [← (Prod.mk.inj hx).2, List.length_singleton]

/-- A step beyond the slots has no result, and one that visits from behind visits nothing. -/
lemma step_ne_of_not_staysInSlots {c : Specialization} (hc : c.wraps = true) {capacity : ℕ}
    {a a' : SPSCArray α} {q q' : Fifo α} {op : Op α} {answers : List (Answer α)}
    (h : Represents capacity a q) (hnot : ¬q.StaysInSlots capacity op)
    (hstep : q.step capacity op = some (q', answers)) : a.step c op ≠ some (a', answers) := by
  cases op with
  | push data =>
    obtain ⟨hroom, -⟩ := Option.ite_none_right_eq_some.mp hstep
    rw [step, (push_yields h (Or.inl hc) hroom data).none_of hnot]
    exact (Option.some_ne_none _).symm
  | consumeAll cb =>
    obtain ⟨rfl, rfl⟩ := Prod.mk.inj (Option.some.inj hstep)
    by_cases horder : q.unread = [] ∨ wrap32 q.taken < wrap32 q.pushed.length
    · rw [step, (consumeAll_yields cb h horder (Or.inl hc)).none_of fun hall => hnot ⟨horder, hall⟩]
      exact (Option.some_ne_none _).symm
    · obtain ⟨hne, hle⟩ := not_or.mp horder
      rw [step, consumeAll_of_le cb h hle]
      intro heq
      obtain ⟨-, hvisited⟩ := Prod.mk.inj (Option.some.inj heq)
      obtain ⟨hvisited, -⟩ := List.cons.inj hvisited
      exact hne (Answer.visited.inj hvisited).symm
  | first | firstAt | valid | pop | skip | size | empty => exact (hnot trivial).elim

/-- The array does what the queue does along a run exactly when each step stays in the slots. -/
lemma run_iff_along {c : Specialization} (hc : c.wraps = true) (prior : ℕ → α) {capacity : Int32}
    (hcapacity : 0 < capacity) {ops : List (Op α)} {q : Fifo α} {answers : List (Answer α)}
    (hrun : Machine.Run (Fifo.step capacity.toNatClampNeg) .empty ops q answers) :
    (∃ a, Machine.Run (step c) (init prior capacity) ops a answers) ↔
      Machine.Along (Fifo.step capacity.toNatClampNeg)
        (Fifo.StaysInSlots capacity.toNatClampNeg) .empty ops := by
  have hinit := represents_init prior hcapacity
  have hlockstep : ∀ (a : SPSCArray α) (q : Fifo α) (op : Op α) (q' : Fifo α)
      (answers : List (Answer α)), Represents capacity.toNatClampNeg a q →
      q.StaysInSlots capacity.toNatClampNeg op →
      q.step capacity.toNatClampNeg op = some (q', answers) →
      ∃ a', a.step c op = some (a', answers) ∧ Represents capacity.toNatClampNeg a' q' :=
    fun a q op q' answers h hstays hstep => step_represents h hstays hstep (Or.inl hc)
  constructor
  · rintro ⟨a, harray⟩
    refine Machine.Run.along_of_lockstep hlockstep ?_ ?_ hinit hrun harray
    · intro a q op q' answers a' h hnot hstep
      exact step_ne_of_not_staysInSlots hc h hnot hstep
    · intro a q op q' answers a' answers' hstep hstep'
      obtain ⟨xs, k, answer, -, rfl⟩ := Fifo.exists_of_step hstep
      rw [length_of_step hstep', List.length_singleton]
  · intro halong
    obtain ⟨a, harray, -⟩ := hrun.lockstep hlockstep hinit halong
    exact ⟨a, harray⟩

lemma wraps_of_mem {c : Specialization}
    (hc : c ∈ [Specialization.atomicWrite.wrapping, Specialization.atomicRead.wrapping]) :
    c.wraps = true := by
  obtain rfl | rfl := List.mem_pair.mp hc
  · rfl
  · rfl

/-- With positions that wrap, every index is in the array, and every operation answers as it does
for the queue, exactly when no step leaves the slots. -/
theorem run_wraps_iff (prior : ℕ → α) {capacity : Int32} (hcapacity : 0 < capacity)
    {ops : List (Op α)} {q : Fifo α} {answers : List (Answer α)}
    (hrun : Machine.Run (Fifo.step capacity.toNatClampNeg) .empty ops q answers) :
    ∀ c ∈ [Specialization.atomicWrite.wrapping, Specialization.atomicRead.wrapping],
      (∃ a, Machine.Run (step c) (init prior capacity) ops a answers) ↔
        Machine.Along (Fifo.step capacity.toNatClampNeg)
          (Fifo.StaysInSlots capacity.toNatClampNeg) .empty ops := by
  intro c hc
  exact run_iff_along (wraps_of_mem hc) prior hcapacity hrun

/-- An element through an array of one. -/
theorem run_wraps_one :
    (∃ a, Machine.Run (step Specialization.atomicWrite.wrapping) (init (fun _ => 0) 1)
        [.push 5, .first, .pop] a [.nothing, .elem 5, .nothing]) ↔
      Machine.Along (Fifo.step 1) (Fifo.StaysInSlots 1) (.empty : Fifo ℕ)
        [.push 5, .first, .pop] :=
  run_wraps_iff (fun _ => 0) (by decide) (Machine.run_iff_exec.mpr rfl)
    Specialization.atomicWrite.wrapping List.mem_cons_self

/-! ## A capacity of three -/

/-- As many elements as are asked for, each popped before the next is pushed. -/
def pushPops : (k : ℕ) → List (Op ℕ)
  | 0 => []
  | k + 1 => pushPops k ++ [.push 0, .pop]

lemma run_pushPops {capacity : ℕ} (hcapacity : 0 < capacity) (k : ℕ) :
    ∃ answers, Machine.Run (Fifo.step capacity) .empty (pushPops k) ⟨List.replicate k 0, k⟩
      answers := by
  induction k with
  | zero => exact ⟨[], Machine.Run.nil _⟩
  | succ k ih =>
    obtain ⟨answers, hrun⟩ := ih
    have hunread : (⟨List.replicate k 0, k⟩ : Fifo ℕ).unread = [] :=
      List.drop_of_length_le (by rw [List.length_replicate])
    have hunread' : (⟨List.replicate (k + 1) 0, k⟩ : Fifo ℕ).unread ≠ [] := by
      rw [← List.length_pos_iff, Fifo.length_unread, List.length_replicate]
      show 0 < k + 1 - k
      omega
    have hpush : Fifo.step capacity ⟨List.replicate k 0, k⟩ (.push 0) =
        some (⟨List.replicate (k + 1) 0, k⟩, [.nothing]) := by
      rw [Fifo.step, hunread, List.length_nil, if_pos hcapacity, Fifo.push, List.replicate_succ']
    have hpop : Fifo.step capacity ⟨List.replicate (k + 1) 0, k⟩ .pop =
        some (⟨List.replicate (k + 1) 0, k + 1⟩, [.nothing]) := by
      rw [Fifo.step, if_pos hunread', Fifo.take]
    exact ⟨_, hrun.append (Machine.Run.cons hpush (Machine.Run.single hpop))⟩

/-- A push behind them at a position without a slot has no result. -/
lemma not_run_pushPops (k : ℕ) (hk : ¬InSlots 3 k) :
    ∃ q answers, Machine.Run (Fifo.step 3) .empty (pushPops k ++ [.push 0]) q answers ∧
      ∀ c ∈ [Specialization.atomicWrite.wrapping, Specialization.atomicRead.wrapping],
        ¬∃ a, Machine.Run (step c) (init (fun _ => 0) 3) (pushPops k ++ [.push 0]) a answers := by
  obtain ⟨answers, hrun⟩ := run_pushPops (by decide : 0 < 3) k
  have hunread : (⟨List.replicate k 0, k⟩ : Fifo ℕ).unread = [] :=
    List.drop_of_length_le (by rw [List.length_replicate])
  have hpush : Fifo.step 3 ⟨List.replicate k 0, k⟩ (.push 0) =
      some (Fifo.push ⟨List.replicate k 0, k⟩ [0], [.nothing]) := by
    rw [Fifo.step, hunread, List.length_nil, if_pos (by decide)]
  have hall := hrun.append (Machine.Run.single hpush)
  refine ⟨_, _, hall, fun c hc hruns => ?_⟩
  have halong := (run_iff_along (wraps_of_mem hc) (fun _ => 0) (by decide : (0 : Int32) < 3)
    hall).mp hruns
  have hlast : InSlots 3 (List.replicate k 0).length := (halong.of_append hrun).1
  rw [List.length_replicate] at hlast
  exact hk hlast

/-- The push at position 2³¹ has no slot. -/
theorem not_run_wraps_three :
    ∃ q answers, Machine.Run (Fifo.step 3) .empty (pushPops (2 ^ 31) ++ [.push 0]) q answers ∧
      ∀ c ∈ [Specialization.atomicWrite.wrapping, Specialization.atomicRead.wrapping],
        ¬∃ a, Machine.Run (step c) (init (fun _ => 0) 3) (pushPops (2 ^ 31) ++ [.push 0]) a
          answers :=
  not_run_pushPops (2 ^ 31) (by decide)

end SPSCArray

end OldPart
