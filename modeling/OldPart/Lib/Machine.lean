import Mathlib.Data.List.Basic
import Mathlib.Algebra.BigOperators.Group.List.Basic

/-!
# Machines that react to events

A machine is a step function: a state and an event give a next state and what the machine
does, or nothing when the event cannot happen in that state.  A run feeds it a list of
events; what holds of runs is derived from what one step does.
-/

namespace OldPart

/-- What one event leads to, and `none` when it cannot happen. -/
abbrev Machine (σ ι ο : Type*) := σ → ι → Option (σ × List ο)

namespace Machine

variable {σ ι ο : Type*} (step : Machine σ ι ο)

/-- `step` gets from `s` to `s'` on a list of events, and does `os` on the way. -/
inductive Run : σ → List ι → σ → List ο → Prop
  | nil (s : σ) : Run s [] s []
  | cons {s s₁ s' : σ} {i : ι} {is : List ι} {os₁ os : List ο} :
      step s i = some (s₁, os₁) → Run s₁ is s' os → Run s (i :: is) s' (os₁ ++ os)

variable {step}

lemma Run.append {s s₁ s' : σ} {is js : List ι} {os₁ os : List ο} (h : Run step s is s₁ os₁)
    (h' : Run step s₁ js s' os) : Run step s (is ++ js) s' (os₁ ++ os) := by
  induction h with
  | nil s => exact h'
  | cons hstep _ ih =>
    rw [List.append_assoc]
    exact Run.cons hstep (ih h')

lemma Run.single {s s' : σ} {i : ι} {os : List ο} (h : step s i = some (s', os)) :
    Run step s [i] s' os := by
  have hnil : Run step s' [] s' [] := Run.nil s'
  have hrun := Run.cons h hnil
  rwa [List.append_nil] at hrun

/-- A run on one list after another passes a state in between. -/
lemma Run.of_append {s s' : σ} {is js : List ι} {os : List ο} (h : Run step s (is ++ js) s' os) :
    ∃ s₁ os₁ os₂, Run step s is s₁ os₁ ∧ Run step s₁ js s' os₂ ∧ os = os₁ ++ os₂ := by
  induction is generalizing s os with
  | nil => exact ⟨s, [], os, Run.nil s, h, rfl⟩
  | cons i is ih =>
    cases h with
    | cons hstep hrest =>
      obtain ⟨s₁, os₁, os₂, hfirst, hsecond, rfl⟩ := ih hrest
      exact ⟨s₁, _, os₂, Run.cons hstep hfirst, hsecond, by rw [List.append_assoc]⟩

lemma run_nil_iff {s s' : σ} {os : List ο} : Run step s [] s' os ↔ s' = s ∧ os = [] := by
  constructor
  · intro h
    cases h
    exact ⟨rfl, rfl⟩
  · rintro ⟨rfl, rfl⟩
    exact Run.nil s'

lemma run_singleton_iff {s s' : σ} {i : ι} {os : List ο} :
    Run step s [i] s' os ↔ step s i = some (s', os) := by
  constructor
  · intro h
    cases h with
    | cons hstep hrest =>
      obtain ⟨rfl, rfl⟩ := run_nil_iff.mp hrest
      rwa [List.append_nil]
  · exact Run.single

/-- The state a list of events leads to, and what is done on the way, are determined. -/
lemma Run.unique {s s' s'' : σ} {is : List ι} {os os' : List ο} (h : Run step s is s' os)
    (h' : Run step s is s'' os') : s' = s'' ∧ os = os' := by
  induction h generalizing s'' os' with
  | nil s =>
    obtain ⟨rfl, rfl⟩ := run_nil_iff.mp h'
    exact ⟨rfl, rfl⟩
  | cons hstep _ ih =>
    cases h' with
    | cons hstep' hrest' =>
      rw [hstep] at hstep'
      obtain ⟨rfl, rfl⟩ := Prod.mk.inj (Option.some.inj hstep')
      obtain ⟨rfl, rfl⟩ := ih hrest'
      exact ⟨rfl, rfl⟩

/-- The run, computed. -/
def exec (step : Machine σ ι ο) (s : σ) : List ι → Option (σ × List ο)
  | [] => some (s, [])
  | i :: is =>
      match step s i with
      | none => none
      | some (s₁, os₁) => (exec step s₁ is).map fun (s', os) => (s', os₁ ++ os)

lemma run_iff_exec {s s' : σ} {is : List ι} {os : List ο} :
    Run step s is s' os ↔ exec step s is = some (s', os) := by
  induction is generalizing s os with
  | nil =>
    rw [run_nil_iff, exec, Option.some.injEq, Prod.mk.injEq]
    exact and_congr eq_comm eq_comm
  | cons i is ih =>
    rw [exec]
    constructor
    · intro h
      cases h with
      | cons hstep hrest =>
        rw [hstep]
        simp [ih.mp hrest]
    · intro h
      cases hstep : step s i with
      | none => simp [hstep] at h
      | some result =>
        obtain ⟨s₁, os₁⟩ := result
        rw [hstep] at h
        obtain ⟨⟨t, os₂⟩, hrest, heq⟩ := Option.map_eq_some_iff.mp h
        obtain ⟨rfl, rfl⟩ := Prod.mk.inj heq
        exact Run.cons hstep (ih.mpr hrest)

/-- What holds at the start and is kept by every step holds at the end of every run.  The
invariant may speak of the events so far and of what was done on them. -/
lemma Run.invariant {I : List ι → σ → List ο → Prop} {s : σ} (hstart : I [] s [])
    (hstep : ∀ is s os i s' os', I is s os → step s i = some (s', os') →
      I (is ++ [i]) s' (os ++ os'))
    {is : List ι} {s' : σ} {os : List ο} (h : Run step s is s' os) : I is s' os := by
  suffices hgen : ∀ pre s os₀, I pre s os₀ → ∀ is s' os, Run step s is s' os →
      I (pre ++ is) s' (os₀ ++ os) from hgen [] s [] hstart is s' os h
  intro pre s os₀ hinv is s' os hrun
  induction hrun generalizing pre os₀ with
  | nil s => simpa using hinv
  | cons hone _ ih =>
    have := ih _ _ (hstep _ _ _ _ _ _ hinv hone)
    rwa [List.append_assoc, List.singleton_append, List.append_assoc] at this

/-! ## Every step of a run -/

variable (step)

/-- Every step on the way through a list of events meets `P`, which is told the events before
it, the event, and what is done on it. -/
def Every (s : σ) (is : List ι) (P : List ι → ι → List ο → Prop) : Prop :=
  ∀ pre i post, is = pre ++ i :: post → ∀ s₁ os₁ s₂ os₂,
    Run step s pre s₁ os₁ → step s₁ i = some (s₂, os₂) → P pre i os₂

/-- Every step of the run on a list of events, as far as it gets, meets `P`, which is told the
state and the event. -/
def Along (P : σ → ι → Prop) : σ → List ι → Prop
  | _, [] => True
  | s, i :: is => P s i ∧ ∀ r ∈ step s i, Along P r.1 is

instance Along.decidable (P : σ → ι → Prop) [∀ s i, Decidable (P s i)] :
    (s : σ) → (is : List ι) → Decidable (Along step P s is)
  | _, [] => inferInstanceAs (Decidable True)
  | s, i :: is =>
      have (r : σ × List ο) : Decidable (Along step P r.1 is) := Along.decidable P r.1 is
      inferInstanceAs (Decidable (P s i ∧ ∀ r ∈ step s i, Along step P r.1 is))

variable {step}

/-- What holds at the start and is kept by every step that meets `P` holds at the end of every
run along which `P` is met. -/
lemma Run.invariant_of_along {P : σ → ι → Prop} {I : σ → List ο → Prop} {s : σ}
    (hstart : I s [])
    (hstep : ∀ s os i s' os', I s os → P s i → step s i = some (s', os') → I s' (os ++ os'))
    {is : List ι} {s' : σ} {os : List ο} (h : Run step s is s' os)
    (halong : Along step P s is) : I s' os := by
  suffices hgen : ∀ s os₀, I s os₀ → ∀ is s' os, Run step s is s' os → Along step P s is →
      I s' (os₀ ++ os) from hgen s [] hstart is s' os h halong
  intro s os₀ hinv is s' os hrun halong
  induction hrun generalizing os₀ with
  | nil s => simpa using hinv
  | cons hone _ ih =>
    obtain ⟨hmeets, hrest⟩ := halong
    rw [← List.append_assoc]
    exact ih _ (hstep _ _ _ _ _ hinv hmeets hone) (hrest _ hone)

/-- What is met along two lists of events is met along the second behind the first. -/
lemma Along.of_append {P : σ → ι → Prop} {s s' : σ} {is js : List ι} {os : List ο}
    (h : Along step P s (is ++ js)) (hrun : Run step s is s' os) : Along step P s' js := by
  induction hrun with
  | nil s => exact h
  | cons hone _ ih => exact ih (h.2 _ hone)

/-! ## One machine in step with another -/

section Lockstep

variable {τ : Type*} {f : Machine τ ι ο} {g : Machine σ ι ο} {R : σ → τ → Prop}
  {P : τ → ι → Prop}

/-- A machine that does what another does in every step that meets `P`, and stays related to it,
does what the other does in every run along which `P` is met. -/
lemma Run.lockstep
    (hstep : ∀ s t i t' os, R s t → P t i → f t i = some (t', os) →
      ∃ s', g s i = some (s', os) ∧ R s' t')
    {s : σ} {t t' : τ} {is : List ι} {os : List ο} (hrel : R s t) (h : Run f t is t' os)
    (halong : Along f P t is) : ∃ s', Run g s is s' os ∧ R s' t' := by
  induction h generalizing s with
  | nil t => exact ⟨s, Run.nil s, hrel⟩
  | cons hone _ ih =>
    obtain ⟨hmeets, hrest⟩ := halong
    obtain ⟨s₁, hone', hrel'⟩ := hstep _ _ _ _ _ hrel hmeets hone
    obtain ⟨s', hrun, hend⟩ := ih hrel' (hrest _ hone)
    exact ⟨s', Run.cons hone' hrun, hend⟩

/-- When it does as much, and something else, in every step that does not meet `P`, then `P` is met
along every run in which it does what the other does. -/
lemma Run.along_of_lockstep
    (hstep : ∀ s t i t' os, R s t → P t i → f t i = some (t', os) →
      ∃ s', g s i = some (s', os) ∧ R s' t')
    (hother : ∀ s t i t' os s', R s t → ¬P t i → f t i = some (t', os) → g s i ≠ some (s', os))
    (hlength : ∀ s t i t' os s' os', f t i = some (t', os) → g s i = some (s', os') →
      os.length = os'.length)
    {s s' : σ} {t t' : τ} {is : List ι} {os : List ο} (hrel : R s t) (h : Run f t is t' os)
    (hrun : Run g s is s' os) : Along f P t is := by
  induction h generalizing s with
  | nil t => exact trivial
  | @cons t t₁ t' i is os₁ os hone _ ih =>
    generalize hos : os₁ ++ os = all at hrun
    cases hrun with
    | cons hone' hrest =>
      obtain ⟨rfl, rfl⟩ := List.append_inj hos (hlength _ _ _ _ _ _ _ hone hone')
      by_cases hmeets : P t i
      · refine ⟨hmeets, fun r hr => ?_⟩
        obtain ⟨s₁, hsame, hrel'⟩ := hstep _ _ _ _ _ hrel hmeets hone
        obtain rfl := congrArg Prod.fst (Option.some.inj (hone'.symm.trans hsame))
        obtain rfl : (t₁, os₁) = r := Option.some.inj (hone.symm.trans hr)
        exact ih hrel' hrest
      · exact (hother _ _ _ _ _ _ hrel hmeets hone hone').elim

end Lockstep

/-! ## What events mean -/

section Meaning

variable {α : Type*} {f : List ι → ι → List α} {pre is : List ι} {i : ι}

/-- What each of some events means, when that depends on the events before it. -/
def meaning (f : List ι → ι → List α) : (pre is : List ι) → List α
  | _, [] => []
  | pre, i :: is => f pre i ++ meaning f (pre ++ [i]) is

/-- One event more. -/
lemma meaning_concat : meaning f pre (is ++ [i]) = meaning f pre is ++ f (pre ++ is) i := by
  induction is generalizing pre with
  | nil => rw [List.nil_append, meaning, meaning, meaning, List.append_nil, List.append_nil,
      List.nil_append]
  | cons j is ih =>
    rw [List.cons_append, meaning, ih, meaning, List.append_assoc, List.append_assoc,
      List.singleton_append]

end Meaning

/-! ## Runs that end -/

/-- When some events make less of what is left to do, some add `c` at most and the others add
nothing, the first are no more than there was to do and was added. -/
lemma Run.countP_add_le {I : σ → Prop} {work : σ → ℕ} {takes adds : ι → Bool} {c : ℕ}
    (hstep : ∀ s i s' os, I s → step s i = some (s', os) →
      I s' ∧ if takes i then work s' < work s
        else work s' ≤ work s + if adds i then c else 0)
    {s s' : σ} {is : List ι} {os : List ο} (h : Run step s is s' os) (hs : I s) :
    I s' ∧ is.countP takes + work s' ≤ work s + c * is.countP adds := by
  induction h with
  | nil s => exact ⟨hs, by simp⟩
  | @cons s s₁ s' i is _ _ hone _ ih =>
    obtain ⟨hs₁, hwork⟩ := hstep _ _ _ _ hs hone
    obtain ⟨hs', hle⟩ := ih hs₁
    refine ⟨hs', ?_⟩
    rw [List.countP_cons, List.countP_cons, Nat.mul_add]
    cases htakes : takes i with
    | true =>
      rw [htakes, if_pos rfl] at hwork
      simp only [if_true]
      omega
    | false =>
      rw [htakes, if_neg Bool.false_ne_true] at hwork
      cases hadds : adds i <;> simp only [hadds, Bool.false_eq_true, if_false, if_true,
        Nat.mul_one, Nat.mul_zero] at hwork ⊢ <;> omega

/-- When every event that meets `P` makes less of what is left to do, a run along which `P` is met
has no more events than there was to do. -/
lemma Run.length_add_le {P : σ → ι → Prop} {I : σ → List ο → Prop} {work : σ → ℕ}
    (hstep : ∀ s os i s' os', I s os → P s i → step s i = some (s', os') →
      I s' (os ++ os') ∧ work s' < work s)
    {s s' : σ} {is : List ι} {os₀ os : List ο} (hs : I s os₀) (h : Run step s is s' os)
    (halong : Along step P s is) : I s' (os₀ ++ os) ∧ is.length + work s' ≤ work s := by
  induction h generalizing os₀ with
  | nil s =>
    rw [List.append_nil]
    exact ⟨hs, by simp⟩
  | cons hone _ ih =>
    obtain ⟨hmeets, hrest⟩ := halong
    obtain ⟨hs₁, hwork⟩ := hstep _ _ _ _ _ hs hmeets hone
    obtain ⟨hs', hle⟩ := ih hs₁ (hrest _ hone)
    rw [← List.append_assoc, List.length_cons]
    exact ⟨hs', by omega⟩

/-! ## A part of a machine -/

section Part

variable {τ κ π : Type*} {f : Machine σ ι ο} {g : Machine τ κ π} {p : σ → τ}
  {outs : List ο → List π} {P : σ → ι → Prop} {Q : τ → κ → Prop}

/-- When every step of a machine that meets `P` leaves a part of the state as it is, or is a step
of that part that meets `Q`, then every run along which `P` is met is, for the part, a run along
which `Q` is met. -/
lemma Run.restrict (hnil : outs [] = [])
    (happend : ∀ os os', outs (os ++ os') = outs os ++ outs os')
    (hstep : ∀ s i s' os, P s i → f s i = some (s', os) →
      p s' = p s ∧ outs os = [] ∨
        ∃ k, Q (p s) k ∧ g (p s) k = some (p s', outs os))
    {s s' : σ} {is : List ι} {os : List ο} (h : Run f s is s' os) (halong : Along f P s is) :
    ∃ ks, Run g (p s) ks (p s') (outs os) ∧ Along g Q (p s) ks := by
  induction h with
  | nil s =>
    rw [hnil]
    exact ⟨[], Run.nil _, trivial⟩
  | cons hone _ ih =>
    obtain ⟨hmeets, hrest⟩ := halong
    obtain ⟨ks, hrun, hmet⟩ := ih (hrest _ hone)
    rw [happend]
    rcases hstep _ _ _ _ hmeets hone with ⟨hsame, hnone⟩ | ⟨k, hk, hgone⟩
    · rw [hnone, ← hsame]
      exact ⟨ks, hrun, hmet⟩
    · refine ⟨k :: ks, Run.cons hgone hrun, hk, fun r hr => ?_⟩
      obtain rfl := Option.some.inj (hgone.symm.trans hr)
      exact hmet

end Part

/-! ## Two machines side by side -/

/-- Two machines that share no state. -/
def interleave {σ' ι' : Type*} (f : Machine σ ι ο) (g : Machine σ' ι' ο) :
    Machine (σ × σ') (ι ⊕ ι') ο
  | (s, t), .inl i => (f s i).map fun (s, os) => ((s, t), os)
  | (s, t), .inr i => (g t i).map fun (t, os) => ((s, t), os)

end Machine

end OldPart
