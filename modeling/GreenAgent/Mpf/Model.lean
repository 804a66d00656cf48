import Mathlib

namespace GreenAgent.Mpf

abbrev Bytes := List UInt8

-- `[u8; 32]`: the length is part of the type in the source as it is here.
structure Digest where
  bytes : Bytes
  size : bytes.length = 32
deriving DecidableEq

def emptyRoot : Digest := ⟨List.replicate 32 0,rfl⟩

structure Neighbor where
  nibble : UInt8
  prefixNibbles : Bytes
  root : Digest
deriving DecidableEq

inductive ProofStep where
  | branch (skip : Nat) (neighbors : Bytes)
  | fork (skip : Nat) (neighbor : Neighbor)
  | leaf (skip : Nat) (key value : Digest)
deriving DecidableEq

inductive MpfError where
  | invalidBranchNeighbors (actual : Nat)
  | invalidProof
  | existingKey
  | missingKey
  | pathExhausted
deriving DecidableEq

-- A Rust call that does not return a value either returns an error or panics
-- in an `expect`; the two are kept apart.
inductive Fault where
  | err (error : MpfError)
  | panic (message : String)
deriving DecidableEq

def propagate : Except MpfError α → Except Fault α
  | .ok value => .ok value
  | .error error => .error (.err error)

def expect (message : String) : Except MpfError α → Except Fault α
  | .ok value => .ok value
  | .error _ => .error (.panic message)

structure Leaf where
  key : Bytes
  path : Digest
  value : Bytes
  valueHash : Digest
deriving DecidableEq

structure Trie where
  leaves : Std.ExtTreeMap Bytes Bytes

def ensureCursor (cursor : Nat) : Except MpfError Unit :=
  if cursor > 64 then .error .pathExhausted else .ok ()

def nibble (path : Digest) (index : Nat) : Except MpfError Nat :=
  if index ≥ 64 then .error .pathExhausted
  else
    let byte := path.bytes.getD (index/2) 0
    if index % 2 = 0 then .ok (byte/16).toNat else .ok (byte%16).toNat

def nibbles (path : Digest) (start stop : Nat) : Except MpfError Bytes :=
  if start > stop ∨ stop > 64 then .error .pathExhausted
  else (List.range' start (stop-start)).mapM (fun ix => do return UInt8.ofNat (← nibble path ix))

def suffix (path : Digest) (cursor : Nat) : Except MpfError Bytes := do
  ensureCursor cursor
  if cursor % 2 = 0 then return 0xff :: path.bytes.drop (cursor/2)
  else return 0 :: UInt8.ofNat (← nibble path cursor) :: path.bytes.drop ((cursor+1)/2)

def validateNeighbors (neighbors : Bytes) : Except MpfError Unit :=
  if neighbors.length ≠ 128 then .error (.invalidBranchNeighbors neighbors.length) else .ok ()

-- `neighbors[at..at+32].try_into().unwrap()`, read only after validation.
def digestAt (neighbors : Bytes) (offset : Nat) : Digest :=
  let part := (neighbors.drop offset).take 32
  if size : part.length = 32 then ⟨part,size⟩ else emptyRoot

-- A slice of an array of roots. Arrays of sixteen are indexed by Nat and read
-- below sixteen only.
def slice (roots : Nat → Digest) (base : Nat) : Nat → Digest := fun ix => roots (ix+base)

def commonSplitLoop (first : Leaf) (leaves : List Leaf) : List Nat → Except MpfError Nat
  | [] => .error .pathExhausted
  | ix :: rest => do
    let nib ← nibble first.path ix
    if leaves.any (fun leaf => decide (nibble leaf.path ix ≠ .ok nib)) then return ix
    else commonSplitLoop first leaves rest

def commonSplit (leaves : List Leaf) (cursor : Nat) : Except MpfError Nat :=
  match leaves with
  | [] => .error .invalidProof
  | first :: _ => commonSplitLoop first leaves (List.range' cursor (64-cursor))

def firstDivergence (lhs rhs : Digest) (cursor : Nat) : Except MpfError Nat :=
  match (List.range' cursor (64-cursor)).find? (fun ix => decide (nibble lhs ix ≠ nibble rhs ix)) with
  | some ix => .ok ix
  | none => .error .pathExhausted

def childGroups (leaves : List Leaf) (split : Nat) : Except MpfError (Nat → List Leaf) :=
  leaves.foldlM (fun children leaf => do
    let nib ← nibble leaf.path split
    return Function.update children nib (children nib ++ [leaf])) (fun _ => [])

section
variable (hash : Bytes → Digest)

def combine (left right : Bytes) : Digest := hash (left ++ right)

def merkle2Roots (roots : Nat → Digest) : Digest :=
  combine hash (roots 0).bytes (roots 1).bytes

def merkle4Roots (roots : Nat → Digest) : Digest :=
  combine hash (merkle2Roots hash roots).bytes (merkle2Roots hash (slice roots 2)).bytes

def merkle8Roots (roots : Nat → Digest) : Digest :=
  combine hash (merkle4Roots hash roots).bytes (merkle4Roots hash (slice roots 4)).bytes

def merkle16Roots (roots : Nat → Digest) : Digest :=
  combine hash (merkle8Roots hash roots).bytes (merkle8Roots hash (slice roots 8)).bytes

def merkle16 (branch : Nat) (root : Digest) (neighbors : Bytes) : Except MpfError Digest := do
  validateNeighbors neighbors
  let neighbor8 := digestAt neighbors 0
  let neighbor4 := digestAt neighbors 32
  let neighbor2 := digestAt neighbors 64
  let neighbor1 := digestAt neighbors 96
  let pair := if branch % 2 = 0 then combine hash root.bytes neighbor1.bytes
    else combine hash neighbor1.bytes root.bytes
  let group4 := if branch % 4 < 2 then combine hash pair.bytes neighbor2.bytes
    else combine hash neighbor2.bytes pair.bytes
  let group8 := if branch % 8 < 4 then combine hash group4.bytes neighbor4.bytes
    else combine hash neighbor4.bytes group4.bytes
  if branch < 8 then return combine hash group8.bytes neighbor8.bytes
  else return combine hash neighbor8.bytes group8.bytes

def sparseMerkle16 (me : Nat) (meHash : Digest) (neighbor : Nat) (neighborHash : Digest) : Digest :=
  merkle16Roots hash (Function.update (Function.update (fun _ => emptyRoot) me meHash) neighbor neighborHash)

def branchNeighbors (branch : Nat) (roots : Nat → Digest) : Bytes :=
  let neighbor8 := if branch < 8 then merkle8Roots hash (slice roots 8) else merkle8Roots hash (slice roots 0)
  let group8Base := branch/8*8
  let neighbor4Base := group8Base + if branch % 8 < 4 then 4 else 0
  let neighbor4 := merkle4Roots hash (slice roots neighbor4Base)
  let group4Base := branch/4*4
  let neighbor2Base := group4Base + if branch % 4 < 2 then 2 else 0
  let neighbor2 := merkle2Roots hash (slice roots neighbor2Base)
  let neighbor1 := roots (branch ^^^ 1)
  neighbor8.bytes ++ neighbor4.bytes ++ neighbor2.bytes ++ neighbor1.bytes

def branchRoot (path : Digest) (cursor nextCursor : Nat) (root : Digest) (neighbors : Bytes) :
    Except MpfError Digest := do
  validateNeighbors neighbors
  let branch ← nibble path nextCursor
  let shared ← nibbles path cursor nextCursor
  return combine hash shared (← merkle16 hash branch root neighbors).bytes

def forkRoot (path : Digest) (cursor nextCursor : Nat) (root : Digest) (neighbor : Neighbor) :
    Except MpfError Digest := do
  let branch ← nibble path nextCursor
  if branch = neighbor.nibble.toNat ∨ neighbor.nibble > 15 then .error .invalidProof
  else
    let shared ← nibbles path cursor nextCursor
    let neighborRoot := combine hash neighbor.prefixNibbles neighbor.root.bytes
    return combine hash shared (sparseMerkle16 hash branch root neighbor.nibble.toNat neighborRoot).bytes

-- The neighbour a `Leaf` step stands for.
def leafNeighbor (key value : Digest) (nextCursor : Nat) : Except MpfError Neighbor := do
  let shared ← suffix key (nextCursor+1)
  let nib ← nibble key nextCursor
  return ⟨UInt8.ofNat nib,shared,value⟩

-- `cursor.checked_add(skip)` fails only above 2^64, where `ensureCursor` on the
-- unbounded sum raises the same error.
def including (path valueHash : Digest) : Nat → List ProofStep → Except MpfError Digest
  | cursor,[] => do
    ensureCursor cursor
    return combine hash (← suffix path cursor) valueHash.bytes
  | cursor,.branch skip neighbors :: steps => do
    ensureCursor cursor
    validateNeighbors neighbors
    ensureCursor (cursor+skip)
    let root ← including path valueHash (cursor+skip+1) steps
    branchRoot hash path cursor (cursor+skip) root neighbors
  | cursor,.fork skip neighbor :: steps => do
    ensureCursor cursor
    ensureCursor (cursor+skip)
    let root ← including path valueHash (cursor+skip+1) steps
    forkRoot hash path cursor (cursor+skip) root neighbor
  | cursor,.leaf skip key value :: steps => do
    ensureCursor cursor
    ensureCursor (cursor+skip)
    let root ← including path valueHash (cursor+skip+1) steps
    forkRoot hash path cursor (cursor+skip) root (← leafNeighbor key value (cursor+skip))

def excluding (path : Digest) : Nat → List ProofStep → Except MpfError Digest
  | cursor,[] => do
    ensureCursor cursor
    return emptyRoot
  | cursor,.branch skip neighbors :: steps => do
    ensureCursor cursor
    validateNeighbors neighbors
    ensureCursor (cursor+skip)
    let root ← excluding path (cursor+skip+1) steps
    branchRoot hash path cursor (cursor+skip) root neighbors
  | cursor,[.fork skip neighbor] => do
    ensureCursor cursor
    if neighbor.nibble > 15 then .error .invalidProof
    else
      let shared ← if skip > 0 then nibbles path cursor (cursor+skip) else pure []
      return combine hash (shared ++ neighbor.nibble :: neighbor.prefixNibbles) neighbor.root.bytes
  | cursor,.fork skip neighbor :: steps => do
    ensureCursor cursor
    ensureCursor (cursor+skip)
    let root ← excluding path (cursor+skip+1) steps
    forkRoot hash path cursor (cursor+skip) root neighbor
  | cursor,[.leaf _ key value] => do
    ensureCursor cursor
    return combine hash (← suffix key cursor) value.bytes
  | cursor,.leaf skip key value :: steps => do
    ensureCursor cursor
    ensureCursor (cursor+skip)
    let root ← excluding path (cursor+skip+1) steps
    forkRoot hash path cursor (cursor+skip) root (← leafNeighbor key value (cursor+skip))

def collectRoots (roots : Nat → Except Fault Digest) : Except Fault (Nat → Digest) :=
  match (List.range 16).filterMap (fun ix => match roots ix with | .ok _ => none | .error fault => some fault) with
  | fault :: _ => .error fault
  | [] => .ok (fun ix => match roots ix with | .ok root => root | .error _ => emptyRoot)

-- Every recursive call moves the cursor past a nibble, so 65 levels suffice;
-- `rootFor_eq` shows that the last case is never reached.
def rootFor : Nat → List Leaf → Nat → Except Fault Digest
  | 0,_,_ => .error (.panic "unreachable")
  | _+1,[],_ => .ok emptyRoot
  | _+1,[leaf],cursor => do
    return combine hash (← expect "valid MPF leaf cursor" (suffix leaf.path cursor)) leaf.valueHash.bytes
  | fuel+1,first :: second :: rest,cursor => do
    let leaves := first :: second :: rest
    let split ← expect "multiple MPF leaves must diverge before path end" (commonSplit leaves cursor)
    let children ← expect "valid MPF split" (childGroups leaves split)
    let roots ← collectRoots (fun ix => rootFor fuel (children ix) (split+1))
    let shared ← expect "valid MPF prefix" (nibbles first.path cursor split)
    return combine hash shared (merkle16Roots hash roots).bytes

def childRoots (fuel : Nat) (children : Nat → List Leaf) (cursor : Nat) : Except Fault (Nat → Digest) :=
  collectRoots (fun ix => rootFor hash fuel (children ix) cursor)

def sparseNeighborStep (fuel skip cursor nib : Nat) : List Leaf → Except Fault ProofStep
  | [leaf] => .ok (.leaf skip leaf.path leaf.valueHash)
  | leaves => do
    let split ← propagate (commonSplit leaves cursor)
    let children ← propagate (childGroups leaves split)
    let roots ← childRoots hash fuel children (split+1)
    match leaves with
    | [] => .error (.panic "index out of bounds")
    | first :: _ =>
      let shared ← propagate (nibbles first.path cursor split)
      return .fork skip ⟨UInt8.ofNat nib,shared,merkle16Roots hash roots⟩

def proofStepForBranch (fuel : Nat) (path : Digest) (cursor split branch : Nat) (children : Nat → List Leaf) :
    Except Fault ProofStep :=
  match (List.range 16).filter (fun ix => decide (ix ≠ branch) && !(children ix).isEmpty) with
  | [nib] => sparseNeighborStep hash fuel (split-cursor) (split+1) nib (children nib)
  | _ => do
    let roots ← childRoots hash fuel children (split+1)
    let nib ← propagate (nibble path split)
    return .branch (split-cursor) (branchNeighbors hash nib roots)

def proofForPath (path : Digest) : Nat → List Leaf → Nat → Except Fault (List ProofStep)
  | 0,_,_ => .error (.panic "unreachable")
  | _+1,[],_ => .ok []
  | _+1,[leaf],cursor =>
    if leaf.path = path then .ok []
    else do
      let split ← propagate (firstDivergence path leaf.path cursor)
      return [.leaf (split-cursor) leaf.path leaf.valueHash]
  | fuel+1,first :: second :: rest,cursor => do
    let leaves := first :: second :: rest
    let split ← propagate (commonSplit leaves cursor)
    let branch ← propagate (nibble path split)
    let children ← propagate (childGroups leaves split)
    let step ← proofStepForBranch hash fuel path cursor split branch children
    if (children branch).isEmpty then return [step]
    else return step :: (← proofForPath path fuel (children branch) (split+1))

def Trie.mpfLeaves (trie : Trie) : List Leaf :=
  trie.leaves.toList.map (fun entry => ⟨entry.1,hash entry.1,entry.2,hash entry.2⟩)

def Trie.root (trie : Trie) : Except Fault Digest := rootFor hash 65 (trie.mpfLeaves hash) 0

def Trie.insert (trie : Trie) (key value : Bytes) : Except Fault (Trie × Digest) := do
  if trie.leaves.contains key then .error (.err .existingKey)
  else
    let next : Trie := ⟨trie.leaves.insert key value⟩
    return (next,← next.root hash)

def Trie.update (trie : Trie) (key value : Bytes) : Except Fault (Trie × Digest) := do
  if trie.leaves.contains key then
    let next : Trie := ⟨trie.leaves.insert key value⟩
    return (next,← next.root hash)
  else .error (.err .missingKey)

def Trie.delete (trie : Trie) (key : Bytes) : Except Fault (Trie × Digest) := do
  if trie.leaves.contains key then
    let next : Trie := ⟨trie.leaves.erase key⟩
    return (next,← next.root hash)
  else .error (.err .missingKey)

def Trie.proofForMissing (trie : Trie) (key : Bytes) : Except Fault (List ProofStep) :=
  if trie.leaves.contains key then .error (.err .existingKey)
  else proofForPath hash (hash key) 65 (trie.mpfLeaves hash) 0

def Trie.proofForPresent (trie : Trie) (key : Bytes) : Except Fault (List ProofStep) :=
  if !trie.leaves.contains key then .error (.err .missingKey)
  else proofForPath hash (hash key) 65 (trie.mpfLeaves hash) 0

def has (root : Digest) (key value : Bytes) (proof : List ProofStep) : Bool :=
  decide (including hash (hash key) (hash value) 0 proof = .ok root)

def miss (root : Digest) (key : Bytes) (proof : List ProofStep) : Bool :=
  decide (excluding hash (hash key) 0 proof = .ok root)

def insert (root : Digest) (key value : Bytes) (proof : List ProofStep) : Except MpfError Digest := do
  let path := hash key
  if (← excluding hash path 0 proof) ≠ root then .error .invalidProof
  else including hash path (hash value) 0 proof

def update (root : Digest) (key : Bytes) (proof : List ProofStep) (oldValue newValue : Bytes) :
    Except MpfError Digest := do
  let path := hash key
  if (← including hash path (hash oldValue) 0 proof) ≠ root then .error .invalidProof
  else including hash path (hash newValue) 0 proof

def delete (root : Digest) (key value : Bytes) (proof : List ProofStep) : Except MpfError Digest := do
  let path := hash key
  if (← including hash path (hash value) 0 proof) ≠ root then .error .invalidProof
  else excluding hash path 0 proof

end
end GreenAgent.Mpf
