import GreenAgent.Mpf.Tree

namespace GreenAgent.Mpf
open Radix (Fan Splits child mem_child)

theorem bind_ok {x : Except ε α} {f : α → Except ε β} : x >>= f = .ok r ↔ ∃ a, x = .ok a ∧ f a = .ok r := by
  cases x with
  | error e => simp [bind,Except.bind]
  | ok a => simp [bind,Except.bind]

def ProofStep.skip : ProofStep → Nat
  | .branch skip _ => skip
  | .fork skip _ => skip
  | .leaf skip _ _ => skip

section
variable (hash : Bytes → Digest)

-- What one proof step makes of the root below it. Both verifiers are this, step
-- by step, except for a last `Fork` or `Leaf` step of an exclusion proof.
def stepRoot (path : Digest) (cursor : Nat) (step : ProofStep) (root : Digest) : Except MpfError Digest :=
  match step with
  | .branch skip neighbors => branchRoot hash path cursor (cursor+skip) root neighbors
  | .fork skip neighbor => forkRoot hash path cursor (cursor+skip) root neighbor
  | .leaf skip key value => do
    forkRoot hash path cursor (cursor+skip) root (← leafNeighbor key value (cursor+skip))

def node (left right : Digest) : Digest := combine hash left.bytes right.bytes

def unpack (neighbors : Bytes) : List Digest :=
  [digestAt neighbors 0,digestAt neighbors 32,digestAt neighbors 64,digestAt neighbors 96]

def leafSide (key value : Digest) (next : Nat) : Neighbor := ⟨UInt8.ofNat (digit key next),suffixBytes key (next+1),value⟩

def forkRoots (path : Digest) (next : Nat) (root : Digest) (neighbor : Neighbor) : Nat → Digest :=
  Function.update (Function.update (fun _ => emptyRoot) (digit path next) root) neighbor.nibble.toNat
    (combine hash neighbor.prefixNibbles neighbor.root.bytes)

-- The Merkle root over the sixteen children that a step at depth `next` claims.
def stepTop (path : Digest) (next : Nat) (step : ProofStep) (root : Digest) : Digest :=
  match step with
  | .branch _ neighbors => Merkle.recompute (node hash) 4 (unpack neighbors) (digit path next) root
  | .fork _ neighbor => merkle16Roots hash (forkRoots hash path next root neighbor)
  | .leaf _ key value => merkle16Roots hash (forkRoots hash path next root (leafSide key value next))

end

def StepFits (path : Digest) (next : Nat) : ProofStep → Prop
  | .branch _ neighbors => neighbors.length = 128
  | .fork _ neighbor => digit path next ≠ neighbor.nibble.toNat ∧ ¬neighbor.nibble > 15
  | .leaf _ key _ => digit path next ≠ digit key next

variable {hash : Bytes → Digest}

theorem validateNeighbors_ok : validateNeighbors neighbors = .ok () ↔ neighbors.length = 128 := by
  simp [validateNeighbors]

theorem ensureCursor_ok_iff : ensureCursor cursor = .ok () ↔ cursor ≤ 64 := by
  simp [ensureCursor]

theorem including_bound (accepted : including hash path value cursor steps = .ok root) : cursor ≤ 64 := by
  cases steps with
  | nil =>
    obtain ⟨_,bound,_⟩ := bind_ok.mp accepted
    exact ensureCursor_ok_iff.mp bound
  | cons step steps =>
    cases step <;> (obtain ⟨_,bound,_⟩ := bind_ok.mp accepted; exact ensureCursor_ok_iff.mp bound)

theorem excluding_bound (accepted : excluding hash path cursor steps = .ok root) : cursor ≤ 64 := by
  unfold excluding at accepted
  split at accepted <;> (obtain ⟨_,bound,_⟩ := bind_ok.mp accepted; exact ensureCursor_ok_iff.mp bound)

theorem branchRoot_valid (accepted : branchRoot hash path cursor next root neighbors = .ok result) :
    validateNeighbors neighbors = .ok () := by
  obtain ⟨_,valid,_⟩ := bind_ok.mp accepted
  exact valid

theorem including_cons : including hash path value cursor (step :: steps) = .ok root ↔
    ∃ inner, including hash path value (cursor+step.skip+1) steps = .ok inner ∧
      stepRoot hash path cursor step inner = .ok root := by
  constructor
  · intro accepted
    cases step with
    | branch skip neighbors =>
      simp only [including,bind_ok] at accepted
      obtain ⟨_,_,_,_,_,_,inner,below,here⟩ := accepted
      exact ⟨inner,below,here⟩
    | fork skip neighbor =>
      simp only [including,bind_ok] at accepted
      obtain ⟨_,_,_,_,inner,below,here⟩ := accepted
      exact ⟨inner,below,here⟩
    | leaf skip key value =>
      simp only [including,bind_ok] at accepted
      obtain ⟨_,_,_,_,inner,below,here⟩ := accepted
      exact ⟨inner,below,bind_ok.mpr here⟩
  · rintro ⟨inner,below,here⟩
    have bound := including_bound below
    have first : ensureCursor cursor = .ok () := ensureCursor_ok (by omega)
    have second : ensureCursor (cursor+step.skip) = .ok () := ensureCursor_ok (by omega)
    cases step with
    | branch skip neighbors =>
      simp only [including,bind_ok]
      exact ⟨_,first,_,branchRoot_valid here,_,second,inner,below,here⟩
    | fork skip neighbor =>
      simp only [including,bind_ok]
      exact ⟨_,first,_,second,inner,below,here⟩
    | leaf skip key value =>
      simp only [including,bind_ok]
      exact ⟨_,first,_,second,inner,below,bind_ok.mp here⟩

def ProofStep.isBranch : ProofStep → Bool
  | .branch .. => true
  | _ => false

theorem excluding_cons (more : step.isBranch = true ∨ steps ≠ []) :
    excluding hash path cursor (step :: steps) = .ok root ↔
    ∃ inner, excluding hash path (cursor+step.skip+1) steps = .ok inner ∧
      stepRoot hash path cursor step inner = .ok root := by
  constructor
  · intro accepted
    cases step with
    | branch skip neighbors =>
      simp only [excluding,bind_ok] at accepted
      obtain ⟨_,_,_,_,_,_,inner,below,here⟩ := accepted
      exact ⟨inner,below,here⟩
    | fork skip neighbor =>
      cases steps with
      | nil => simp [ProofStep.isBranch] at more
      | cons =>
        simp only [excluding,bind_ok] at accepted
        obtain ⟨_,_,_,_,inner,below,here⟩ := accepted
        exact ⟨inner,below,here⟩
    | leaf skip key value =>
      cases steps with
      | nil => simp [ProofStep.isBranch] at more
      | cons =>
        simp only [excluding,bind_ok] at accepted
        obtain ⟨_,_,_,_,inner,below,here⟩ := accepted
        exact ⟨inner,below,bind_ok.mpr here⟩
  · rintro ⟨inner,below,here⟩
    have bound := excluding_bound below
    have first : ensureCursor cursor = .ok () := ensureCursor_ok (by omega)
    have second : ensureCursor (cursor+step.skip) = .ok () := ensureCursor_ok (by omega)
    cases step with
    | branch skip neighbors =>
      simp only [excluding,bind_ok]
      exact ⟨_,first,_,branchRoot_valid here,_,second,inner,below,here⟩
    | fork skip neighbor =>
      cases steps with
      | nil => simp [ProofStep.isBranch] at more
      | cons =>
        simp only [excluding,bind_ok]
        exact ⟨_,first,_,second,inner,below,here⟩
    | leaf skip key value =>
      cases steps with
      | nil => simp [ProofStep.isBranch] at more
      | cons =>
        simp only [excluding,bind_ok]
        exact ⟨_,first,_,second,inner,below,bind_ok.mp here⟩

theorem excluding_last_fork : excluding hash path cursor [.fork skip neighbor] = .ok root ↔
    cursor+skip ≤ 64 ∧ ¬neighbor.nibble > 15 ∧ root = combine hash
      (digits path cursor (cursor+skip) ++ neighbor.nibble :: neighbor.prefixNibbles) neighbor.root.bytes := by
  simp only [excluding]
  by_cases bound : cursor ≤ 64
  · rw [ensureCursor_ok bound]
    simp only [bind,Except.bind]
    by_cases high : neighbor.nibble > 15
    · simp [high]
    · rw [if_neg high]
      by_cases zero : skip > 0
      · rw [if_pos zero]
        by_cases inside : cursor+skip ≤ 64
        · rw [nibbles_ok (by omega) inside]
          simp [inside,high,pure,Except.pure,eq_comm]
        · rw [nibbles_exhausted (by omega)]
          simp [inside]
      · have none : skip = 0 := by omega
        subst none
        simp [high,bound,digits_self,pure,Except.pure,eq_comm]
  · rw [ensureCursor_exhausted (by omega)]
    simp only [bind,Except.bind]
    constructor
    · intro impossible; cases impossible
    · intro inside; omega

theorem excluding_last_leaf : excluding hash path cursor [.leaf skip key value] = .ok root ↔
    cursor ≤ 64 ∧ root = combine hash (suffixBytes key cursor) value.bytes := by
  simp only [excluding]
  by_cases bound : cursor ≤ 64
  · rw [ensureCursor_ok bound,suffix_ok bound]
    simp [bound,bind,Except.bind,pure,Except.pure,eq_comm]
  · rw [ensureCursor_exhausted (by omega)]
    simp [bound,bind,Except.bind]

theorem merkle16Roots_eq (roots : Nat → Digest) : merkle16Roots hash roots = Merkle.root (node hash) 4 roots := rfl

def pack (siblings : List Digest) : Bytes := siblings.flatMap Digest.bytes

theorem digestAt_bytes (bound : offset+32 ≤ neighbors.length) :
    (digestAt neighbors offset).bytes = (neighbors.drop offset).take 32 := by
  unfold digestAt
  rw [dif_pos (by simp only [List.length_take,List.length_drop]; omega)]

theorem pack_unpack (size : neighbors.length = 128) : pack (unpack neighbors) = neighbors := by
  simp only [pack,unpack,List.flatMap_cons,List.flatMap_nil,List.append_nil]
  rw [digestAt_bytes (by omega),digestAt_bytes (by omega),digestAt_bytes (by omega),digestAt_bytes (by omega)]
  have last : ((neighbors.drop 96).take 32) = neighbors.drop 96 := List.take_of_length_le (by simp [size])
  rw [last]
  have join : ∀ at', (neighbors.drop at').take 32 ++ neighbors.drop (at'+32) = neighbors.drop at' := by
    intro at'
    rw [← List.drop_drop,List.take_append_drop]
  rw [join 64,join 32,join 0,List.drop_zero]

theorem digestAt_part (before : first.length = offset) (digest : Digest) :
    digestAt (first ++ (digest.bytes ++ rest)) offset = digest := by
  apply digest_eq
  rw [digestAt_bytes (by simp [digest.size,before])]
  rw [List.drop_append_of_le_length (by omega),List.drop_eq_nil_of_le (by omega),List.nil_append,
    List.take_append_of_le_length (by rw [digest.size]),List.take_of_length_le (by rw [digest.size])]

theorem unpack_pack (a b c d : Digest) : unpack (pack [a,b,c,d]) = [a,b,c,d] := by
  have all : pack [a,b,c,d] = a.bytes ++ (b.bytes ++ (c.bytes ++ (d.bytes ++ []))) := by simp [pack]
  have first : digestAt (pack [a,b,c,d]) 0 = a := by
    rw [all]; exact digestAt_part List.length_nil a
  have second : digestAt (pack [a,b,c,d]) 32 = b := by
    rw [all]; exact digestAt_part a.size b
  have third : digestAt (pack [a,b,c,d]) 64 = c := by
    rw [all,← List.append_assoc]; exact digestAt_part (by simp [a.size,b.size]) c
  have fourth : digestAt (pack [a,b,c,d]) 96 = d := by
    rw [all,← List.append_assoc,← List.append_assoc]; exact digestAt_part (by simp [a.size,b.size,c.size]) d
  rw [unpack,first,second,third,fourth]

theorem pack_length (a b c d : Digest) : (pack [a,b,c,d]).length = 128 := by
  simp [pack,a.size,b.size,c.size,d.size]

theorem branchNeighbors_eq (bound : branch < 16) :
    branchNeighbors hash branch roots = pack (Merkle.siblings (node hash) 4 roots branch) := by
  have four : ∀ a b c d : Digest, a.bytes ++ b.bytes ++ c.bytes ++ d.bytes = pack [a,b,c,d] := by
    intro a b c d; simp [pack]
  unfold branchNeighbors
  dsimp only
  rw [four]
  congr 1
  interval_cases branch <;> rfl

theorem merkle16_eq (bound : branch < 16) (size : neighbors.length = 128) :
    merkle16 hash branch root neighbors = .ok (Merkle.recompute (node hash) 4 (unpack neighbors) branch root) := by
  unfold merkle16
  rw [validateNeighbors_ok.mpr size]
  interval_cases branch <;> rfl

theorem siblings_packed (bound : branch < 16) : (branchNeighbors hash branch roots).length = 128 ∧
    unpack (branchNeighbors hash branch roots) = Merkle.siblings (node hash) 4 roots branch := by
  rw [branchNeighbors_eq bound]
  have size : (Merkle.siblings (node hash) 4 roots branch).length = 4 := Merkle.siblings_length ..
  match Merkle.siblings (node hash) 4 roots branch,size with
  | [a,b,c,d],_ => exact ⟨pack_length a b c d,unpack_pack a b c d⟩

theorem stepTop_branch (skip : Nat) (root : Digest) :
    stepTop hash path next (.branch skip (branchNeighbors hash (digit path next) roots)) root =
      merkle16Roots hash (Function.update roots (digit path next) root) := by
  rw [stepTop,(siblings_packed (digit_lt path next)).2,merkle16Roots_eq,
    Merkle.recompute_siblings (digit_lt path next)]

theorem ofNat_toNat (small : nib < 16) : (UInt8.ofNat nib).toNat = nib := by
  simp only [UInt8.toNat_ofNat']
  omega

theorem ofNat_not_high (small : nib < 16) : ¬UInt8.ofNat nib > 15 := by
  intro high
  have nat := UInt8.lt_iff_toNat_lt.mp high
  rw [ofNat_toNat small] at nat
  change 15 < nib at nat
  omega

theorem forkRoots_eq (small : nib < 16) (other : nib ≠ digit path next)
    (sparse : ∀ ix, ix ≠ digit path next → ix ≠ nib → roots ix = emptyRoot)
    (neighbor : combine hash shared value.bytes = roots nib) :
    forkRoots hash path next root ⟨UInt8.ofNat nib,shared,value⟩ = Function.update roots (digit path next) root := by
  simp only [forkRoots,ofNat_toNat small,neighbor]
  funext ix
  by_cases own : ix = digit path next
  · subst ix; simp [Function.update_of_ne (Ne.symm other)]
  · by_cases its : ix = nib
    · subst ix; simp [Function.update_of_ne own]
    · simp [Function.update_of_ne own,Function.update_of_ne its,sparse ix own its]

theorem branchRoot_ok_iff : branchRoot hash path cursor (cursor+skip) root neighbors = .ok result ↔
    cursor+skip < 64 ∧ neighbors.length = 128 ∧ result = combine hash (digits path cursor (cursor+skip))
      (Merkle.recompute (node hash) 4 (unpack neighbors) (digit path (cursor+skip)) root).bytes := by
  unfold branchRoot
  by_cases size : neighbors.length = 128
  · rw [validateNeighbors_ok.mpr size]
    by_cases bound : cursor+skip < 64
    · simp [nibble_ok bound,nibbles_ok (Nat.le_add_right cursor skip) (Nat.le_of_lt bound),bind,Except.bind,
        merkle16_eq (digit_lt path (cursor+skip)) size,bound,size,pure,Except.pure,eq_comm]
    · simp [nibble_exhausted (Nat.not_lt.mp bound),bind,Except.bind,bound]
  · simp [validateNeighbors,size,bind,Except.bind]

theorem forkRoot_ok_iff : forkRoot hash path cursor (cursor+skip) root neighbor = .ok result ↔
    cursor+skip < 64 ∧ (digit path (cursor+skip) ≠ neighbor.nibble.toNat ∧ ¬neighbor.nibble > 15) ∧
      result = combine hash (digits path cursor (cursor+skip))
        (merkle16Roots hash (forkRoots hash path (cursor+skip) root neighbor)).bytes := by
  unfold forkRoot
  by_cases bound : cursor+skip < 64
  · rw [nibble_ok bound]
    by_cases clash : digit path (cursor+skip) = neighbor.nibble.toNat ∨ neighbor.nibble > 15
    · simp only [bind,Except.bind,if_pos clash]
      constructor
      · intro impossible; cases impossible
      · rintro ⟨_,⟨apart,low⟩,_⟩; exact absurd clash (not_or.mpr ⟨apart,low⟩)
    · simp [bind,Except.bind,not_or.mp clash,nibbles_ok (Nat.le_add_right cursor skip) (Nat.le_of_lt bound),
        bound,pure,Except.pure,forkRoots,sparseMerkle16,eq_comm]
  · simp [nibble_exhausted (Nat.not_lt.mp bound),bind,Except.bind,bound]

theorem leafNeighbor_ok (bound : next < 64) : leafNeighbor key value next = .ok (leafSide key value next) := by
  rw [leafNeighbor,suffix_ok (by omega),nibble_ok bound]
  rfl

theorem leafNeighbor_exhausted (bound : 64 ≤ next) : leafNeighbor key value next = .error .pathExhausted := by
  rw [leafNeighbor,suffix_exhausted (by omega)]
  rfl

theorem stepRoot_ok_iff : stepRoot hash path cursor step root = .ok result ↔
    cursor+step.skip < 64 ∧ StepFits path (cursor+step.skip) step ∧
      result = combine hash (digits path cursor (cursor+step.skip)) (stepTop hash path (cursor+step.skip) step root).bytes := by
  cases step with
  | branch skip neighbors => exact branchRoot_ok_iff
  | fork skip neighbor => exact forkRoot_ok_iff
  | leaf skip key value =>
    simp only [stepRoot,ProofStep.skip,StepFits,stepTop]
    by_cases bound : cursor+skip < 64
    · rw [leafNeighbor_ok bound]
      refine forkRoot_ok_iff.trans ?_
      simp [leafSide,ofNat_toNat (digit_lt key (cursor+skip)),ofNat_not_high (digit_lt key (cursor+skip))]
    · simp [leafNeighbor_exhausted (Nat.not_lt.mp bound),bind,Except.bind,bound]

theorem including_hashed (accepted : including hash path value cursor steps = .ok root) : ∃ s, root = hash s := by
  cases steps with
  | nil =>
    obtain ⟨_,_,accepted⟩ := bind_ok.mp accepted
    obtain ⟨shared,_,done⟩ := bind_ok.mp accepted
    cases done
    exact ⟨_,rfl⟩
  | cons step steps =>
    obtain ⟨inner,_,here⟩ := including_cons.mp accepted
    obtain ⟨_,_,rfl⟩ := stepRoot_ok_iff.mp here
    exact ⟨_,rfl⟩

theorem including_any (accepted : including hash path value cursor steps = .ok root) (other : Digest) :
    ∃ root', including hash path other cursor steps = .ok root' := by
  induction steps generalizing cursor root with
  | nil =>
    obtain ⟨_,bound,accepted⟩ := bind_ok.mp accepted
    obtain ⟨rest,below,_⟩ := bind_ok.mp accepted
    exact ⟨_,bind_ok.mpr ⟨_,bound,bind_ok.mpr ⟨rest,below,rfl⟩⟩⟩
  | cons step steps ih =>
    obtain ⟨inner,below,here⟩ := including_cons.mp accepted
    obtain ⟨inner',below'⟩ := ih below
    obtain ⟨bound,fits,_⟩ := stepRoot_ok_iff.mp here
    exact ⟨_,including_cons.mpr ⟨inner',below',stepRoot_ok_iff.mpr ⟨bound,fits,rfl⟩⟩⟩

theorem has_update (shown : has hash root key value proof = true) (new : Bytes) : ∃ root', update hash root key proof value new = .ok root' := by
  have accepted := of_decide_eq_true shown
  obtain ⟨root',accepted'⟩ := including_any accepted (hash new)
  refine ⟨root',bind_ok.mpr ⟨root,accepted,?_⟩⟩
  rw [if_neg (not_not_intro rfl)]
  exact accepted'

end GreenAgent.Mpf
