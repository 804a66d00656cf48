import GreenAgent.Mpf.Present

namespace GreenAgent.Mpf
open Radix (Fan Splits child mem_child)

-- The byte strings each computation feeds to the hash. Collision freedom is
-- asked for on these strings only; no hash into 32 bytes is injective on all.
section
variable (hash : Bytes → Digest)

def pairString (pair : Digest × Digest) : Bytes := pair.1.bytes ++ pair.2.bytes

def merkleStrings (roots : Nat → Digest) : List Bytes := (Merkle.nodes (node hash) 4 roots).map pairString

def rootStrings : Nat → List Leaf → Nat → List Bytes
  | 0,_,_ => []
  | _+1,[],_ => []
  | _+1,[leaf],cursor => [suffixBytes leaf.path cursor ++ leaf.valueHash.bytes]
  | fuel+1,first :: second :: rest,cursor =>
    match commonSplit (first :: second :: rest) cursor with
    | .error _ => []
    | .ok split =>
      let children := group (first :: second :: rest) split
      match collectRoots (fun nib => rootFor hash fuel (children nib) (split+1)) with
      | .error _ => []
      | .ok roots =>
        (digits first.path cursor split ++ (merkle16Roots hash roots).bytes) :: merkleStrings hash roots ++
          (List.range 16).flatMap (fun nib => rootStrings fuel (children nib) (split+1))

def forkStrings (path : Digest) (next : Nat) (root : Digest) (neighbor : Neighbor) : List Bytes :=
  (neighbor.prefixNibbles ++ neighbor.root.bytes) :: merkleStrings hash (forkRoots hash path next root neighbor)

def stepStrings (path : Digest) (cursor : Nat) (step : ProofStep) (root : Digest) : List Bytes :=
  let next := cursor+step.skip
  (digits path cursor next ++ (stepTop hash path next step root).bytes) ::
    match step with
    | .branch _ neighbors =>
      (Merkle.pathNodes (node hash) 4 (unpack neighbors) (digit path next) root).map pairString
    | .fork _ neighbor => forkStrings hash path next root neighbor
    | .leaf _ key value => forkStrings hash path next root (leafSide key value next)

def includingStrings (path value : Digest) : Nat → List ProofStep → List Bytes
  | cursor,[] => [suffixBytes path cursor ++ value.bytes]
  | cursor,step :: steps =>
    match including hash path value (cursor+step.skip+1) steps with
    | .error _ => includingStrings path value (cursor+step.skip+1) steps
    | .ok root => stepStrings hash path cursor step root ++ includingStrings path value (cursor+step.skip+1) steps

def excludingStrings (path : Digest) : Nat → List ProofStep → List Bytes
  | _,[] => []
  | cursor,[.fork skip neighbor] =>
    [digits path cursor (cursor+skip) ++ neighbor.nibble :: neighbor.prefixNibbles ++ neighbor.root.bytes]
  | cursor,[.leaf _ key value] => [suffixBytes key cursor ++ value.bytes]
  | cursor,step :: steps =>
    match excluding hash path (cursor+step.skip+1) steps with
    | .error _ => excludingStrings path (cursor+step.skip+1) steps
    | .ok root => stepStrings hash path cursor step root ++ excludingStrings path (cursor+step.skip+1) steps

-- A verification that ends in an error stops early; it is listed as hashing nothing.
def inclusionStrings (path value : Digest) (proof : List ProofStep) : List Bytes :=
  match including hash path value 0 proof with
  | .error _ => []
  | .ok _ => includingStrings hash path value 0 proof

def exclusionStrings (path : Digest) (proof : List ProofStep) : List Bytes :=
  match excluding hash path 0 proof with
  | .error _ => []
  | .ok _ => excludingStrings hash path 0 proof

def Trie.strings (trie : Trie) : List Bytes :=
  trie.leaves.toList.flatMap (fun entry => [entry.1,entry.2]) ++ rootStrings hash 65 (trie.mpfLeaves hash) 0

end

variable {hash : Bytes → Digest}

theorem append_digest_inj {a b : Bytes} {x y : Digest} (same : a ++ x.bytes = b ++ y.bytes) : a = b ∧ x = y := by
  have parts := List.append_inj' same (by rw [x.size,y.size])
  exact ⟨parts.1,digest_eq parts.2⟩

theorem pairString_inj (same : pairString x = pairString y) : x = y := by
  have parts := List.append_inj same (by rw [x.1.size,y.1.size])
  exact Prod.ext (digest_eq parts.1) (digest_eq parts.2)

theorem Collisionless.separates (free : Collisionless hash strings)
    (inside : ∀ x, seen x → pairString x ∈ strings) : Merkle.Separates (node hash) seen :=
  fun x y hx hy same => pairString_inj (free (inside x hx) (inside y hy) same)

theorem rootStrings_split (bundle : Bundle (first :: second :: rest) cursor) (enough : 65 ≤ fuel+1+cursor)
    (splits : Splits digit (entries (first :: second :: rest)) cursor split) :
    rootStrings hash (fuel+1) (first :: second :: rest) cursor =
      (digits first.path cursor split ++
        (merkle16Roots hash (treeChildren hash (entries (first :: second :: rest)) split)).bytes) ::
      merkleStrings hash (treeChildren hash (entries (first :: second :: rest)) split) ++
      (List.range 16).flatMap (fun nib => rootStrings hash fuel (group (first :: second :: rest) split nib) (split+1)) := by
  have lower := splits.lower
  have roots : childRoots hash fuel (group (first :: second :: rest) split) (split+1) = _ :=
    childRoots_ok bundle splits (by omega)
  unfold childRoots at roots
  rw [rootStrings]
  simp only [commonSplit_ok bundle splits,roots]

theorem rootStrings_node (hash : Bytes → Digest) (bundle : Bundle leaves cursor) (enough : 65 ≤ fuel+cursor)
    (splits : Splits digit (entries leaves) cursor split) :
    (∀ x ∈ merkleStrings hash (treeChildren hash (entries leaves) split), x ∈ rootStrings hash fuel leaves cursor) ∧
    ∃ less, 65 ≤ less+(split+1) ∧ ∀ nib < 16, ∀ x ∈ rootStrings hash less (group leaves split nib) (split+1),
      x ∈ rootStrings hash fuel leaves cursor := by
  have two := splits.two
  have lower := splits.lower
  rw [entries_card bundle] at two
  match fuel,leaves with
  | 0,_ => have bound := bundle.fan.bound; omega
  | _,[] => simp at two
  | _,[_] => simp at two
  | fuel+1,first :: second :: rest =>
    rw [rootStrings_split bundle enough splits]
    refine ⟨fun x inside => by simp [inside],fuel,by omega,?_⟩
    intro nib small x inside
    exact List.mem_append_right _ (List.mem_flatMap.mpr ⟨nib,List.mem_range.mpr small,inside⟩)

theorem excludingStrings_cons (more : step.isBranch = true ∨ steps ≠ [])
    (below : excluding hash path (cursor+step.skip+1) steps = .ok root) :
    excludingStrings hash path cursor (step :: steps) =
      stepStrings hash path cursor step root ++ excludingStrings hash path (cursor+step.skip+1) steps := by
  cases step with
  | branch => simp only [excludingStrings,below]
  | fork | leaf =>
    cases steps with
    | nil => simp [ProofStep.isBranch] at more
    | cons => simp only [excludingStrings,below]

-- A step accepted against a node of the tree agrees with it: same digits, and
-- the same Merkle root over the children.
theorem step_binds (free : Collisionless hash strings) (splits : Splits digit s cursor split) (member : e ∈ s)
    (stored : digits e.1 cursor split ++ (merkle16Roots hash (treeChildren hash s split)).bytes ∈ strings)
    (hashed : ∀ x ∈ stepStrings hash path cursor step root, x ∈ strings)
    (accepted : stepRoot hash path cursor step root = .ok (treeRoot hash s cursor)) :
    digits path cursor (cursor+step.skip) = digits e.1 cursor split ∧
      stepTop hash path (cursor+step.skip) step root = merkle16Roots hash (treeChildren hash s split) := by
  obtain ⟨_,_,equal⟩ := stepRoot_ok_iff.mp accepted
  rw [treeRoot_split splits member] at equal
  exact append_digest_inj (free (hashed _ (by simp [stepStrings])) stored equal.symm)

-- A sparse neighbour that tells the truth about a node's children, and a step
-- that does.
@[grind cases eager] structure SideOf (hash : Bytes → Digest) (path : Digest) (next : Nat) (roots : Nat → Digest) (neighbor : Neighbor) : Prop where
  other : digit path next ≠ neighbor.nibble.toNat
  low : ¬neighbor.nibble > 15
  root : combine hash neighbor.prefixNibbles neighbor.root.bytes = roots neighbor.nibble.toNat
  sparse : ∀ ix < 16, ix ≠ digit path next → ix ≠ neighbor.nibble.toNat → roots ix = emptyRoot

def StepOf (hash : Bytes → Digest) (path : Digest) (next : Nat) (roots : Nat → Digest) : ProofStep → Prop
  | .branch _ neighbors => neighbors = branchNeighbors hash (digit path next) roots
  | .fork _ neighbor => SideOf hash path next roots neighbor
  | .leaf _ key value => SideOf hash path next roots (leafSide key value next)

theorem SideOf.top (side : SideOf hash path next roots neighbor) :
    merkle16Roots hash (forkRoots hash path next (roots (digit path next)) neighbor) = merkle16Roots hash roots := by
  rw [merkle16Roots_eq,merkle16Roots_eq]
  apply Merkle.root_congr
  intro ix bound
  by_cases its : ix = neighbor.nibble.toNat
  · subst ix; simp [forkRoots,side.root]
  · by_cases own : ix = digit path next
    · subst ix; simp [forkRoots,Function.update_of_ne its]
    · simp [forkRoots,Function.update_of_ne its,Function.update_of_ne own,side.sparse ix bound own its]

theorem forkRoots_binds (free : Collisionless hash strings) (other : digit path next ≠ neighbor.nibble.toNat)
    (low : ¬neighbor.nibble > 15) (hashed : ∀ x ∈ forkStrings hash path next root neighbor, x ∈ strings)
    (stored : ∀ x ∈ merkleStrings hash roots, x ∈ strings)
    (same : merkle16Roots hash (forkRoots hash path next root neighbor) = merkle16Roots hash roots) :
    SideOf hash path next roots neighbor ∧ root = roots (digit path next) := by
  have every : ∀ ix < 16, forkRoots hash path next root neighbor ix = roots ix := by
    refine Merkle.root_binds (n := 4) (free.separates ?_) same
    rintro x (left | right)
    · exact hashed _ (List.mem_cons_of_mem _ (List.mem_map_of_mem left))
    · exact stored _ (List.mem_map_of_mem right)
  have small : neighbor.nibble.toNat < 16 := by
    by_contra large
    exact low (UInt8.lt_iff_toNat_lt.mpr (by change 15 < _; omega))
  refine ⟨⟨other,low,?_,?_⟩,?_⟩
  · simpa [forkRoots] using every _ small
  · intro ix bound own its
    simpa [forkRoots,Function.update_of_ne its,Function.update_of_ne own] using (every ix bound).symm
  · simpa [forkRoots,Function.update_of_ne other] using every _ (digit_lt path next)

theorem stepTop_of (truthful : StepOf hash path next roots step) : StepFits path next step ∧
    stepTop hash path next step (roots (digit path next)) = merkle16Roots hash roots := by
  cases step with
  | branch skip neighbors =>
    cases truthful
    refine ⟨(siblings_packed (digit_lt path next)).1,?_⟩
    rw [stepTop_branch,Function.update_eq_self]
  | fork skip neighbor => exact ⟨⟨truthful.other,truthful.low⟩,SideOf.top truthful⟩
  | leaf skip key value =>
    refine ⟨?_,SideOf.top truthful⟩
    have other := SideOf.other truthful
    rwa [leafSide,ofNat_toNat (digit_lt key next)] at other

theorem stepTop_binds (free : Collisionless hash strings) (fits : StepFits path next step) (reach : cursor+step.skip = next)
    (hashed : ∀ x ∈ stepStrings hash path cursor step root, x ∈ strings)
    (stored : ∀ x ∈ merkleStrings hash roots, x ∈ strings)
    (same : stepTop hash path next step root = merkle16Roots hash roots) :
    StepOf hash path next roots step ∧ root = roots (digit path next) := by
  subst reach
  cases step with
  | branch skip neighbors =>
    have separated : Merkle.Separates (node hash) (fun x => x ∈ Merkle.nodes (node hash) 4 roots ∨
        x ∈ Merkle.pathNodes (node hash) 4 (unpack neighbors) (digit path (cursor+skip)) root) := by
      apply free.separates
      rintro x (left | right)
      · exact stored _ (List.mem_map_of_mem left)
      · exact hashed _ (List.mem_cons_of_mem _ (List.mem_map_of_mem right))
    obtain ⟨siblings,entry⟩ := Merkle.recompute_binds (n := 4) (digit_lt path (cursor+skip)) rfl separated same
    refine ⟨?_,entry⟩
    rw [StepOf,branchNeighbors_eq (digit_lt path _),ProofStep.skip,← siblings,pack_unpack fits]
  | fork skip neighbor =>
    exact forkRoots_binds free fits.1 fits.2 (fun x hx => hashed x (List.mem_cons_of_mem _ hx)) stored same
  | leaf skip key value =>
    refine forkRoots_binds free ?_ (ofNat_not_high (digit_lt key _)) (fun x hx => hashed x (List.mem_cons_of_mem _ hx))
      stored same
    rw [leafSide,ofNat_toNat (digit_lt key _)]
    exact fits

theorem Trie.mem_strings {trie : Trie} (stored : key ∈ trie.leaves) : key ∈ trie.strings hash := by
  obtain ⟨value,found⟩ := Option.isSome_iff_exists.mp (Std.ExtTreeMap.mem_iff_isSome_getElem?.mp stored)
  refine List.mem_append.mpr (.inl (List.mem_flatMap.mpr ⟨(key,value),?_,by simp⟩))
  rwa [Std.ExtTreeMap.mem_toList_iff_getElem?_eq_some]

theorem Trie.separated_of_strings {trie : Trie} (free : Collisionless hash (trie.strings hash)) : trie.Separated hash :=
  fun _ ha _ hb same => free (Trie.mem_strings ha) (Trie.mem_strings hb) same

end GreenAgent.Mpf
