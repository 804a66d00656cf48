import GreenAgent.Mpf.Steps

namespace GreenAgent.Mpf
open Radix (Fan Splits child mem_child)

variable {hash : Bytes → Digest}

theorem child_of_digit (e : Entry) (member : e ∈ s) : e ∈ child digit s split (digit e.1 split) :=
  mem_child.mpr ⟨member,rfl⟩

theorem child_large (large : 16 ≤ nib) : child digit s split nib = ∅ := by
  ext e
  simp only [mem_child,Finset.notMem_empty,iff_false,not_and]
  intro _ equal
  have small := digit_lt e.1 split
  omega

theorem own_child_filled {s : Finset Entry} (splits : Splits digit s cursor split)
    (sparse : ∀ ix, ix ≠ own → ix ≠ nib → child digit s split ix = ∅) : child digit s split own ≠ ∅ := by
  intro empty
  obtain ⟨e,he,e',he',apart⟩ := splits.apart
  have side : ∀ f ∈ s, digit f.1 split = nib := by
    intro f hf
    have inside : f ∈ child digit s split (digit f.1 split) := child_of_digit f hf
    by_contra off
    by_cases here : digit f.1 split = own
    · rw [here,empty] at inside; simp at inside
    · rw [sparse _ here off] at inside; simp at inside
  exact apart ((side e he).trans (side e' he').symm)

def others (branch : Nat) (children : Nat → List Leaf) : List Nat :=
  (List.range 16).filter (fun ix => decide (ix ≠ branch) && !(children ix).isEmpty)

theorem mem_others : nib ∈ others branch (group leaves split) ↔
    nib ≠ branch ∧ child digit (entries leaves) split nib ≠ ∅ := by
  unfold others
  rw [List.mem_filter,List.mem_range,Bool.and_eq_true,decide_eq_true_eq,Bool.not_eq_true',Bool.eq_false_iff,
    Ne.eq_def ((group leaves split nib).isEmpty),group_empty_iff]
  constructor
  · rintro ⟨_,other,some⟩; exact ⟨other,some⟩
  · rintro ⟨other,some⟩
    refine ⟨?_,other,some⟩
    by_contra large
    exact some (child_large (by omega))

theorem others_cases (splits : Splits digit (entries leaves) cursor split) :
    (∃ nib, others branch (group leaves split) = [nib]) ∨
    (∃ i j, i ≠ j ∧ i ∈ others branch (group leaves split) ∧ j ∈ others branch (group leaves split)) := by
  have nodup : (others branch (group leaves split)).Nodup := List.nodup_range.filter _
  match equal : others branch (group leaves split) with
  | [] =>
    obtain ⟨e,he,e',he',apart⟩ := splits.apart
    have none : ∀ nib, nib ∉ others branch (group leaves split) := by simp [equal]
    have here : ∀ f ∈ entries leaves, digit f.1 split = branch := by
      intro f hf
      by_contra other
      exact none _ (mem_others.mpr ⟨other,Finset.ne_empty_of_mem (child_of_digit f hf)⟩)
    exact absurd ((here e he).trans (here e' he').symm) apart
  | [nib] => exact .inl ⟨nib,rfl⟩
  | i :: j :: rest =>
    rw [equal] at nodup
    refine .inr ⟨i,j,?_,by simp,by simp⟩
    intro same
    subst j
    simp at nodup

-- What the generator's step is for: it opens the node at the split for every
-- root of the path's own child, and when it is sparse and stands last, it
-- names the one other child.
@[grind cases eager] structure Opens (hash : Bytes → Digest) (s : Finset Entry) (path : Digest) (cursor split : Nat)
    (step : ProofStep) : Prop where
  reach : cursor+step.skip = split
  bound : split < 64
  fits : StepFits path split step
  top : ∀ below, stepTop hash path split step below =
    merkle16Roots hash (Function.update (treeChildren hash s split) (digit path split) below)
  shape : (step.isBranch = true ∧ ∃ i j, i ≠ j ∧ (i ≠ digit path split ∧ child digit s split i ≠ ∅) ∧
      (j ≠ digit path split ∧ child digit s split j ≠ ∅)) ∨
    (step.isBranch = false ∧ ∃ nib, nib ≠ digit path split ∧
      (∀ ix, ix ≠ digit path split → ix ≠ nib → child digit s split ix = ∅) ∧
      ((∀ e ∈ s, ∀ ix < split, digit path ix = digit e.1 ix) →
        excluding hash path cursor [step] = .ok (treeRoot hash (child digit s split nib) cursor)))

theorem Opens.root (opens : Opens hash s path cursor split step) (below : Digest) :
    stepRoot hash path cursor step below = .ok (combine hash (digits path cursor split)
      (merkle16Roots hash (Function.update (treeChildren hash s split) (digit path split) below)).bytes) := by
  rw [stepRoot_ok_iff,opens.reach,opens.top]
  exact ⟨opens.bound,opens.fits,rfl⟩

theorem sparse_children (equal : others branch (group leaves split) = [nib]) :
    nib ≠ branch ∧ nib < 16 ∧ child digit (entries leaves) split nib ≠ ∅ ∧
      ∀ ix, ix ≠ branch → ix ≠ nib → child digit (entries leaves) split ix = ∅ := by
  have here : nib ∈ others branch (group leaves split) := by simp [equal]
  obtain ⟨other,some⟩ := mem_others.mp here
  refine ⟨other,?_,some,?_⟩
  · by_contra large
    exact some (child_large (by omega))
  · intro ix own its
    by_contra filled
    have member : ix ∈ others branch (group leaves split) := mem_others.mpr ⟨own,filled⟩
    rw [equal] at member
    exact its (by simpa using member)

theorem leaf_opens (lower : cursor ≤ split) (below : split < 64) (small : nib < 16) (other : nib ≠ digit path split)
    (sparse : ∀ ix, ix ≠ digit path split → ix ≠ nib → child digit s split ix = ∅)
    (only : child digit s split nib = {(key,value)}) :
    Opens hash s path cursor split (.leaf (split-cursor) key value) := by
  have back : cursor+(split-cursor) = split := by omega
  have digitKey : digit key split = nib := by
    have member : (key,value) ∈ child digit s split nib := by simp [only]
    exact (mem_child.mp member).2
  refine ⟨back,below,?_,?_,.inr ⟨rfl,nib,other,sparse,?_⟩⟩
  · rw [StepFits,digitKey]
    exact Ne.symm other
  · intro root
    rw [stepTop,leafSide,digitKey]
    congr 1
    apply forkRoots_eq small other
    · intro ix own its
      simp [treeChildren,sparse ix own its]
    · simp [treeChildren,only]
  · intro _
    rw [excluding_last_leaf,only,treeRoot_single]
    exact ⟨by omega,rfl⟩

theorem fork_opens (fan : Fan digit 64 s cursor) (splits : Splits digit s cursor split) (small : nib < 16)
    (other : nib ≠ digit path split)
    (sparse : ∀ ix, ix ≠ digit path split → ix ≠ nib → child digit s split ix = ∅)
    (inner : Splits digit (child digit s split nib) (split+1) deeper) (member : e ∈ child digit s split nib) :
    Opens hash s path cursor split (.fork (split-cursor) ⟨UInt8.ofNat nib,digits e.1 (split+1) deeper,
      merkle16Roots hash (treeChildren hash (child digit s split nib) deeper)⟩) := by
  have lower := splits.lower
  have below := splits.below fan
  have innerLower := inner.lower
  have innerBelow := inner.below (splits.child_fan fan)
  have back : cursor+(split-cursor) = split := by omega
  refine ⟨back,below,?_,?_,.inr ⟨rfl,nib,other,sparse,?_⟩⟩
  · rw [StepFits,ofNat_toNat small]
    exact ⟨Ne.symm other,ofNat_not_high small⟩
  · intro root
    rw [stepTop]
    congr 1
    apply forkRoots_eq small other
    · intro ix own its
      simp [treeChildren,sparse ix own its]
    · rw [treeChildren,treeRoot_split inner member]
  · intro follows
    have outer : Splits digit (child digit s split nib) cursor deeper :=
      ⟨by omega,inner.agree,inner.apart⟩
    have path' : digits e.1 cursor deeper = digits e.1 cursor split ++ UInt8.ofNat nib :: digits e.1 (split+1) deeper := by
      rw [← digits_append lower (show split ≤ deeper by omega),digits_cons (show split < deeper by omega),
        (mem_child.mp member).2]
    have shared : digits path cursor split = digits e.1 cursor split :=
      digits_congr (fun ix _ upper => follows e (mem_child.mp member).1 ix upper)
    rw [excluding_last_fork,back]
    refine ⟨Nat.le_of_lt below,ofNat_not_high small,?_⟩
    rw [treeRoot_split outer member,path',shared]

theorem sparseNeighborStep_opens (bundle : Bundle leaves cursor) (splits : Splits digit (entries leaves) cursor split)
    (enough : 65 ≤ fuel+split+1) (sparse : others (digit path split) (group leaves split) = [nib]) :
    ∃ step, sparseNeighborStep hash fuel (split-cursor) (split+1) nib (group leaves split nib) = .ok step ∧
      Opens hash (entries leaves) path cursor split step := by
  obtain ⟨other,small,some,empty⟩ := sparse_children sparse
  have below := splits.below bundle.fan
  have inner : Bundle (group leaves split nib) (split+1) := bundle.group splits
  match equal : group leaves split nib with
  | [] =>
    rw [← entries_group,equal] at some
    exact absurd rfl some
  | [leaf] =>
    refine ⟨_,rfl,leaf_opens splits.lower below small other empty ?_⟩
    rw [← entries_group,equal]
    rfl
  | first :: second :: rest =>
    rw [equal] at inner
    obtain ⟨deeper,innerSplits⟩ := inner.splits
    have innerLower := innerSplits.lower
    have innerBelow := innerSplits.below inner.fan
    refine ⟨.fork (split-cursor) ⟨UInt8.ofNat nib,digits first.path (split+1) deeper,
      merkle16Roots hash (treeChildren hash (entries (first :: second :: rest)) deeper)⟩,?_,?_⟩
    · simp only [sparseNeighborStep,commonSplit_ok inner innerSplits,childGroups_ok innerBelow,propagate,bind,Except.bind,
        childRoots_ok inner innerSplits (show 65 ≤ fuel+deeper+1 by omega),nibbles_ok innerLower (Nat.le_of_lt innerBelow)]
      rfl
    · have same : entries (first :: second :: rest) = child digit (entries leaves) split nib := by
        rw [← entries_group,equal]
      rw [same] at innerSplits ⊢
      have member := entry_mem (List.mem_cons_self : first ∈ first :: second :: rest)
      rw [same] at member
      exact fork_opens (e := first.entry) bundle.fan splits small other empty innerSplits member

theorem step_generated (hash : Bytes → Digest) (bundle : Bundle leaves cursor) (splits : Splits digit (entries leaves) cursor split)
    (enough : 65 ≤ fuel+split+1) (path : Digest) :
    ∃ step, proofStepForBranch hash fuel path cursor split (digit path split) (group leaves split) = .ok step ∧
      Opens hash (entries leaves) path cursor split step := by
  have lower := splits.lower
  have below := splits.below bundle.fan
  rcases @others_cases _ _ _ (digit path split) splits with ⟨nib,sparse⟩ | ⟨i,j,apart,first,second⟩
  · have here := sparse
    unfold others at here
    rw [proofStepForBranch,here]
    exact sparseNeighborStep_opens bundle splits enough sparse
  · refine ⟨.branch (split-cursor) (branchNeighbors hash (digit path split) (treeChildren hash (entries leaves) split)),?_,?_⟩
    · unfold proofStepForBranch
      split
      · rename_i nib equal
        rw [others,equal] at first second
        exact absurd ((List.mem_singleton.mp first).trans (List.mem_singleton.mp second).symm) apart
      · rw [childRoots_ok bundle splits enough,nibble_ok below]
        rfl
    · exact ⟨by simp only [ProofStep.skip]; omega,below,(siblings_packed (digit_lt path split)).1,stepTop_branch _,
        .inl ⟨rfl,i,j,apart,mem_others.mp first,mem_others.mp second⟩⟩

end GreenAgent.Mpf
