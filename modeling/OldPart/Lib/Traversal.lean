import Mathlib.Data.List.Flatten
import Mathlib.Data.List.Nodup
import Mathlib.Logic.Relation

/-!
# Traversals of trees

A tree is given by the children of each node.  Of the nodes below a root, those that are kept, and
to which the way down goes through nodes that are kept, have one order in which a node comes before
what is below it and siblings come in theirs.  A recursive traversal lists them in it.
-/

namespace OldPart

namespace Traversal

open scoped List

variable {α : Type*} (children : α → List α) (keep : α → Bool)

/-- A node is met below another. -/
def Below : α → α → Prop := Relation.TransGen fun p q => q ∈ children p

/-- A node is another, or is met below it. -/
def Within : α → α → Prop := Relation.ReflTransGen fun p q => q ∈ children p

/-- Each child is there once, nothing is below itself, and two children have nothing in common. -/
structure IsTree : Prop where
  nodup : ∀ p, (children p).Nodup
  not_below_self : ∀ p, ¬Below children p p
  eq_of_within : ∀ {p q r a}, q ∈ children p → r ∈ children p → Within children q a →
    Within children r a → q = r

/-- A child that is kept. -/
def Keeps (p q : α) : Prop := q ∈ children p ∧ keep q = true

/-- A node that is kept, with what is listed of what is below it. -/
def branch (below : α → List α) (q : α) : List α := if keep q then q :: below q else []

/-- What is kept below a root, to a number of levels. -/
def preorder : (levels : ℕ) → (root : α) → List α
  | 0, _ => []
  | levels + 1, root => (children root).flatMap (branch keep (preorder levels))

/-- A list of the nodes below a root that are kept with everything on the way down to them: each is
there once, before what is below it, and siblings are there in their order, with what is below
them. -/
structure InPreorder (root : α) (l : List α) : Prop where
  mem_iff : ∀ a, a ∈ l ↔ Below children root a ∧
    ∀ b, Below children root b → Within children b a → keep b = true
  nodup : l.Nodup
  below : ∀ {a b}, a ∈ l → b ∈ l → Below children a b → [a, b] <+ l
  siblings : ∀ {p q r a b}, Within children root p → [q, r] <+ children p →
    Within children q a → Within children r b → a ∈ l → b ∈ l → [a, b] <+ l

variable {children keep}

/-! ## What is kept -/

lemma mem_branch {below : α → List α} {q a : α} :
    a ∈ branch keep below q ↔ keep q = true ∧ (a = q ∨ a ∈ below q) := by
  rw [branch]
  split
  · rename_i hkeep
    rw [List.mem_cons]
    exact ⟨fun h => ⟨hkeep, h⟩, fun h => h.2⟩
  · rename_i hskip
    exact ⟨fun h => (List.not_mem_nil h).elim, fun h => (hskip h.1).elim⟩

/-- What is listed is kept, and so is everything on the way. -/
lemma keeps_of_mem {levels : ℕ} {root a : α} (h : a ∈ preorder children keep levels root) :
    Relation.TransGen (Keeps children keep) root a := by
  induction levels generalizing root with
  | zero => cases h
  | succ levels ih =>
    obtain ⟨q, hq, ha⟩ := List.mem_flatMap.mp h
    obtain ⟨hkeep, rfl | hbelow⟩ := mem_branch.mp ha
    · exact .single ⟨hq, hkeep⟩
    · exact .head ⟨hq, hkeep⟩ (ih hbelow)

lemma below_of_keeps {p a : α} (h : Relation.TransGen (Keeps children keep) p a) :
    Below children p a :=
  Relation.TransGen.mono (fun _ _ hkeeps => hkeeps.1) p a h

lemma below_of_mem {levels : ℕ} {root a : α} (h : a ∈ preorder children keep levels root) :
    Below children root a :=
  below_of_keeps (keeps_of_mem h)

lemma within_of_mem_branch {levels : ℕ} {q a : α}
    (h : a ∈ branch keep (preorder children keep levels) q) : Within children q a := by
  obtain ⟨-, rfl | hbelow⟩ := mem_branch.mp h
  · exact .refl
  · exact (below_of_mem hbelow).to_reflTransGen

lemma preorder_of_childless {root : α} (h : children root = []) (levels : ℕ) :
    preorder children keep levels root = [] := by
  cases levels with
  | zero => rfl
  | succ levels => rw [preorder, h, List.flatMap_nil]

/-- The nodes of a list stand in one of two orders. -/
lemma pair_sublist_or {l : List α} {a b : α} (ha : a ∈ l) (hb : b ∈ l) (hne : a ≠ b) :
    [a, b] <+ l ∨ [b, a] <+ l := by
  induction l with
  | nil => cases ha
  | cons x l ih =>
    obtain rfl | hal := List.mem_cons.mp ha
    · obtain rfl | hbl := List.mem_cons.mp hb
      · exact absurd rfl hne
      · exact Or.inl ((List.singleton_sublist.mpr hbl).cons_cons a)
    · obtain rfl | hbl := List.mem_cons.mp hb
      · exact Or.inr ((List.singleton_sublist.mpr hal).cons_cons b)
      · exact (ih hal hbl).imp (List.Sublist.cons x) (List.Sublist.cons x)

/-- In a list without duplicates they do not stand in both. -/
lemma pair_sublist_asymm {l : List α} (hnodup : l.Nodup) {a b : α} (hab : [a, b] <+ l) :
    ¬[b, a] <+ l := by
  intro hba
  induction l with
  | nil => cases hab
  | cons x l ih =>
    obtain ⟨hx, hl⟩ := List.nodup_cons.mp hnodup
    cases hab with
    | cons _ hab =>
      cases hba with
      | cons _ hba => exact ih hl hab hba
      | cons_cons => exact hx (hab.subset (List.mem_cons_of_mem a List.mem_cons_self))
    | cons_cons _ hb =>
      cases hba with
      | cons _ hba => exact hx (hba.subset (List.mem_cons_of_mem b List.mem_cons_self))
      | cons_cons => exact hx (hb.subset List.mem_cons_self)

section IsTree

variable (h : IsTree children)
include h

/-- A node of which everything on the way down is kept is what a traversal comes to. -/
lemma IsTree.keeps_iff {root a : α} :
    Relation.TransGen (Keeps children keep) root a ↔ Below children root a ∧
      ∀ b, Below children root b → Within children b a → keep b = true := by
  constructor
  · intro hkeeps
    refine ⟨below_of_keeps hkeeps, ?_⟩
    induction hkeeps using Relation.TransGen.head_induction_on with
    | @single root hchild =>
      intro b hb hba
      obtain ⟨c, hc, hcb⟩ := Relation.TransGen.head'_iff.mp hb
      obtain rfl := h.eq_of_within hc hchild.1 (hcb.trans hba) .refl
      -- nothing is between a node and itself
      obtain rfl | hbelow := Relation.reflTransGen_iff_eq_or_transGen.mp hcb
      · exact hchild.2
      · exact absurd (hbelow.trans_left hba) (h.not_below_self _)
    | @head root q hchild hrest ih =>
      intro b hb hba
      obtain ⟨c, hc, hcb⟩ := Relation.TransGen.head'_iff.mp hb
      have hqa : Within children q a := (below_of_keeps hrest).to_reflTransGen
      obtain rfl := h.eq_of_within hc hchild.1 (hcb.trans hba) hqa
      obtain rfl | hbelow := Relation.reflTransGen_iff_eq_or_transGen.mp hcb
      · exact hchild.2
      · exact ih b hbelow hba
  · rintro ⟨hbelow, hall⟩
    induction hbelow using Relation.TransGen.head_induction_on with
    | single hchild => exact .single ⟨hchild, hall a (.single hchild) .refl⟩
    | @head root q hchild hrest ih =>
      have hkeep : keep q = true := hall q (.single hchild) hrest.to_reflTransGen
      exact .head ⟨hchild, hkeep⟩ (ih fun b hb => hall b (.head hchild hb))

/-- What is listed within a child is listed in its branch. -/
lemma IsTree.mem_branch_of_within {levels : ℕ} {root q a : α}
    (ha : a ∈ preorder children keep (levels + 1) root) (hq : q ∈ children root)
    (hwithin : Within children q a) : a ∈ branch keep (preorder children keep levels) q := by
  obtain ⟨c, hc, hmem⟩ := List.mem_flatMap.mp ha
  obtain rfl := h.eq_of_within hc hq (within_of_mem_branch hmem) hwithin
  exact hmem

/-- What is listed in a branch below its node is listed behind it. -/
lemma IsTree.mem_of_below {levels : ℕ} {q a : α}
    (ha : a ∈ branch keep (preorder children keep levels) q) (hbelow : Below children q a) :
    a ∈ preorder children keep levels q := by
  obtain ⟨-, rfl | hmem⟩ := mem_branch.mp ha
  · exact absurd hbelow (h.not_below_self a)
  · exact hmem

/-! ## The order of a traversal -/

omit h in
lemma branch_sublist {levels : ℕ} {root q : α} (hq : q ∈ children root) :
    branch keep (preorder children keep levels) q <+ preorder children keep (levels + 1) root := by
  have hsub := (List.singleton_sublist.mpr hq).flatMap (branch keep (preorder children keep levels))
  rwa [List.flatMap_singleton] at hsub

omit h in
lemma sublist_branch {levels : ℕ} {q : α} (hkeep : keep q = true) :
    preorder children keep levels q <+ branch keep (preorder children keep levels) q := by
  rw [branch, if_pos hkeep]
  exact List.sublist_cons_self q _

lemma IsTree.nodup_branch {levels : ℕ} (hnodup : ∀ q, (preorder children keep levels q).Nodup)
    (q : α) : (branch keep (preorder children keep levels) q).Nodup := by
  rw [branch]
  split
  · refine List.nodup_cons.mpr ⟨fun hmem => ?_, hnodup q⟩
    exact h.not_below_self q (below_of_mem hmem)
  · exact List.nodup_nil

lemma IsTree.nodup_preorder (levels : ℕ) (root : α) :
    (preorder children keep levels root).Nodup := by
  induction levels generalizing root with
  | zero => exact List.nodup_nil
  | succ levels ih =>
    refine List.nodup_flatMap.mpr ⟨fun q _ => h.nodup_branch ih q, ?_⟩
    refine (h.nodup root).imp_of_mem fun {q r} hq hr hne a haq har => hne ?_
    exact h.eq_of_within hq hr (within_of_mem_branch haq) (within_of_mem_branch har)

/-- A node stands before what is below it. -/
lemma IsTree.below_preorder {levels : ℕ} {root a b : α}
    (ha : a ∈ preorder children keep levels root) (hb : b ∈ preorder children keep levels root)
    (hab : Below children a b) : [a, b] <+ preorder children keep levels root := by
  induction levels generalizing root with
  | zero => cases ha
  | succ levels ih =>
    obtain ⟨q, hq, haq⟩ := List.mem_flatMap.mp ha
    have hqb : Below children q b := 
      Relation.TransGen.trans_right (within_of_mem_branch haq) hab
    have hbq := h.mem_of_below (h.mem_branch_of_within hb hq hqb.to_reflTransGen) hqb
    refine List.Sublist.trans ?_ (branch_sublist hq)
    obtain ⟨hkeep, rfl | hmem⟩ := mem_branch.mp haq
    · rw [branch, if_pos hkeep]
      exact (List.singleton_sublist.mpr hbq).cons_cons a
    · exact (ih hmem hbq).trans (sublist_branch hkeep)

/-- Siblings stand in their order, with what is below them. -/
lemma IsTree.siblings_preorder {levels : ℕ} {root p q r a b : α} (hp : Within children root p)
    (hqr : [q, r] <+ children p) (hqa : Within children q a) (hrb : Within children r b)
    (ha : a ∈ preorder children keep levels root) (hb : b ∈ preorder children keep levels root) :
    [a, b] <+ preorder children keep levels root := by
  have hq : q ∈ children p := hqr.subset List.mem_cons_self
  have hr : r ∈ children p := hqr.subset (List.mem_cons_of_mem q List.mem_cons_self)
  induction levels generalizing root with
  | zero => cases ha
  | succ levels ih =>
    obtain rfl | hfurther := Relation.ReflTransGen.cases_head hp
    · have haq := h.mem_branch_of_within ha hq hqa
      have hbr := h.mem_branch_of_within hb hr hrb
      have hpair := (List.singleton_sublist.mpr haq).append (List.singleton_sublist.mpr hbr)
      have hsub := hqr.flatMap (branch keep (preorder children keep levels))
      rw [List.flatMap_cons, List.flatMap_singleton] at hsub
      exact hpair.trans hsub
    · -- both are below the child through which the way down to `p` goes
      obtain ⟨c, hc, hcp⟩ := hfurther
      have hca : Below children c a := Relation.TransGen.trans_right hcp (.head' hq hqa)
      have hcb : Below children c b := Relation.TransGen.trans_right hcp (.head' hr hrb)
      have hac := h.mem_branch_of_within ha hc hca.to_reflTransGen
      have hbc := h.mem_branch_of_within hb hc hcb.to_reflTransGen
      have hsub := ih hcp (h.mem_of_below hac hca) (h.mem_of_below hbc hcb)
      exact (hsub.trans (sublist_branch (mem_branch.mp hac).1)).trans (branch_sublist hc)

/-- A traversal that leaves nothing out is in preorder. -/
theorem IsTree.inPreorder {levels : ℕ} {root : α}
    (hall : ∀ a, Relation.TransGen (Keeps children keep) root a →
      a ∈ preorder children keep levels root) :
    InPreorder children keep root (preorder children keep levels root) where
  mem_iff a := ⟨fun ha => h.keeps_iff.mp (keeps_of_mem ha), fun ha => hall a (h.keeps_iff.mpr ha)⟩
  nodup := h.nodup_preorder levels root
  below := h.below_preorder
  siblings := h.siblings_preorder

end IsTree

/-! ## The one order -/

/-- A node is above another, or on the side of an earlier sibling. -/
def Before (children : α → List α) (root a b : α) : Prop :=
  Below children a b ∨ ∃ p q r, Within children root p ∧ [q, r] <+ children p ∧
    Within children q a ∧ Within children r b

lemma before_or_before {root a b : α} (ha : Within children root a) (hb : Within children root b)
    (hne : a ≠ b) : Before children root a b ∨ Before children root b a := by
  induction ha using Relation.ReflTransGen.head_induction_on with
  | refl =>
    obtain rfl | hbelow := Relation.reflTransGen_iff_eq_or_transGen.mp hb
    · exact absurd rfl hne
    · exact Or.inl (Or.inl hbelow)
  | @head root c hc hca ih =>
    obtain rfl | ⟨d, hd, hdb⟩ := Relation.ReflTransGen.cases_head hb
    · exact Or.inr (Or.inl (.head' hc hca))
    · by_cases hcd : c = d
      · subst hcd
        have hdown : ∀ {x y}, Before children c x y → Before children root x y := by
          rintro x y (hxy | ⟨p, q, r, hp, hrest⟩)
          · exact Or.inl hxy
          · exact Or.inr ⟨p, q, r, .head hc hp, hrest⟩
        exact (ih hdb).imp hdown hdown
      · obtain horder | horder := pair_sublist_or hc hd hcd
        · exact Or.inl (Or.inr ⟨root, c, d, .refl, horder, hca, hdb⟩)
        · exact Or.inr (Or.inr ⟨root, d, c, .refl, horder, hdb, hca⟩)

namespace InPreorder

variable {root : α} {l l' : List α}

lemma within (h : InPreorder children keep root l) {a : α} (ha : a ∈ l) : Within children root a :=
  ((h.mem_iff a).mp ha).1.to_reflTransGen

lemma pair_sublist (h : InPreorder children keep root l) {a b : α} (ha : a ∈ l) (hb : b ∈ l)
    (hab : Before children root a b) : [a, b] <+ l := by
  obtain hbelow | ⟨p, q, r, hp, hqr, hqa, hrb⟩ := hab
  · exact h.below ha hb hbelow
  · exact h.siblings hp hqr hqa hrb ha hb

/-- Everything stands before what comes behind it. -/
lemma pairwise (h : InPreorder children keep root l) : l.Pairwise (Before children root) := by
  refine List.pairwise_iff_forall_sublist.mpr fun {a b} hab => ?_
  have ha : a ∈ l := hab.subset List.mem_cons_self
  have hb : b ∈ l := hab.subset (List.mem_cons_of_mem a List.mem_cons_self)
  have hne : a ≠ b := by
    rintro rfl
    exact pair_sublist_asymm h.nodup hab hab
  obtain hbefore | hbehind := before_or_before (h.within ha) (h.within hb) hne
  · exact hbefore
  · exact absurd (h.pair_sublist hb ha hbehind) (pair_sublist_asymm h.nodup hab)

/-- There is one such list. -/
theorem unique (h : InPreorder children keep root l) (h' : InPreorder children keep root l') :
    l = l' := by
  have hperm : l ~ l' := (List.perm_ext_iff_of_nodup h.nodup h'.nodup).mpr fun a =>
    (h.mem_iff a).trans (h'.mem_iff a).symm
  refine hperm.eq_of_pairwise (fun a b ha hb hab hba => ?_) h.pairwise h'.pairwise
  have hb : b ∈ l := hperm.mem_iff.mpr hb
  exact absurd (h.pair_sublist hb ha hba) (pair_sublist_asymm h.nodup (h.pair_sublist ha hb hab))

end InPreorder

end Traversal

end OldPart
