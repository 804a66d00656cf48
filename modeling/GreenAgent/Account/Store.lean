import GreenAgent.Account.Types

namespace GreenAgent.Account
open Mpf (Bytes Digest Trie Fault MpfError emptyRoot)

inductive StoredIntentStatus where
  | pending
  | completed
deriving DecidableEq

structure StoredIntentLeaf where
  canonicalOrderId : GreenOrderId
  intent : AlephIntention
  digest : Digest
  status : StoredIntentStatus
deriving DecidableEq

structure AccountStore where
  root : Digest
  leaves : Std.ExtTreeMap Bytes StoredIntentLeaf

structure StoredIntentLeafSnapshot where
  key : Bytes
  canonicalOrderId : GreenOrderId
  intent : AlephIntention
  digest : Digest
  status : StoredIntentStatus
deriving DecidableEq

structure MpfDelta where
  oldRoot : Digest
  newRoot : Digest
  proof : Bytes
deriving DecidableEq

structure MpfCompletion where
  root : Digest
  proof : Bytes
deriving DecidableEq

inductive GreenStorePlanningError where
  | missingAccount
  | missingStore
  | rootMismatch (expected actual : Digest)
  | existingPendingIntent
  | missingPendingIntent
  | digestMismatch
  | unsupported
deriving DecidableEq

-- A store call returns an error to its caller or panics inside the trie code.
inductive Failure where
  | error (error : GreenStorePlanningError)
  | panic (message : String)
deriving DecidableEq

theorem AccountStore.ext_leaves {a b : AccountStore} (root : a.root = b.root)
    (leaves : a.leaves.toList = b.leaves.toList) : a = b := by
  cases a
  cases b
  cases root
  cases Std.ExtTreeMap.toList_inj.mp leaves
  rfl

instance : DecidableEq AccountStore := fun a b =>
  decidable_of_iff (a.root = b.root ∧ a.leaves.toList = b.leaves.toList)
    ⟨fun same => AccountStore.ext_leaves same.1 same.2,fun same => same ▸ ⟨rfl,rfl⟩⟩

-- `From<MpfError> for GreenStorePlanningError` forgets which error it was.
def unsupported : Except MpfError α → Except Failure α
  | .ok value => .ok value
  | .error _ => .error (.error .unsupported)

def fromFault : Except Fault α → Except Failure α
  | .ok value => .ok value
  | .error (.err _) => .error (.error .unsupported)
  | .error (.panic message) => .error (.panic message)

def trieFromLeaves (leaves : Std.ExtTreeMap Bytes StoredIntentLeaf) : Trie := ⟨leaves.map (fun _ leaf => leaf.digest.bytes)⟩

namespace AccountStore

def empty : AccountStore := ⟨emptyRoot,∅⟩

def fromObservedRoot (root : Digest) : Option AccountStore := if root = emptyRoot then some empty else none

def snapshotLeaves (store : AccountStore) : List StoredIntentLeafSnapshot :=
  store.leaves.toList.map (fun (key,leaf) => ⟨key,leaf.canonicalOrderId,leaf.intent,leaf.digest,leaf.status⟩)

section
variable {O : Type} (ext : Externals O)

def fromSnapshot (root : Digest) (leaves : List StoredIntentLeafSnapshot) : Except Failure AccountStore := do
  let leaves := leaves.foldl (fun map leaf =>
    map.insert leaf.key ⟨leaf.canonicalOrderId,leaf.intent,leaf.digest,leaf.status⟩) (∅ : Std.ExtTreeMap Bytes StoredIntentLeaf)
  let calculatedRoot ← fromFault ((trieFromLeaves leaves).root ext.blake2b256)
  if calculatedRoot ≠ root then .error (.error (.rootMismatch calculatedRoot root))
  else return ⟨root,leaves⟩

def insertRemaining (store : AccountStore) (key : Bytes) (canonicalOrderId : GreenOrderId) (intent : AlephIntention) :
    Except Failure (AccountStore × MpfDelta) := do
  if store.leaves.contains key then .error (.error .existingPendingIntent)
  else
    let oldRoot := store.root
    let digest := intent.digest ext
    let trie := trieFromLeaves store.leaves
    let proof ← fromFault (trie.proofForMissing ext.blake2b256 key)
    let newRoot ← unsupported (Mpf.insert ext.blake2b256 oldRoot key digest.bytes proof)
    return (⟨newRoot,store.leaves.insert key ⟨canonicalOrderId,intent,digest,.pending⟩⟩,
      ⟨oldRoot,newRoot,ext.proofToCbor proof⟩)

-- The leaf a Path order works on: pending, and with the digest the order has.
def pendingLeafWith (store : AccountStore) (key : Bytes) (oldDigest : Digest) : Except Failure StoredIntentLeaf :=
  match store.leaves[key]? with
  | none => .error (.error .missingPendingIntent)
  | some leaf =>
    if leaf.status ≠ .pending then .error (.error .missingPendingIntent)
    else if leaf.digest ≠ oldDigest then .error (.error .digestMismatch)
    else .ok leaf

def updateRemaining (store : AccountStore) (key : Bytes) (oldDigest : Digest) (newIntent : AlephIntention) :
    Except Failure (AccountStore × MpfDelta) := do
  let oldRoot := store.root
  let trie := trieFromLeaves store.leaves
  let proof ← fromFault (trie.proofForPresent ext.blake2b256 key)
  let leaf ← store.pendingLeafWith key oldDigest
  let newDigest := newIntent.digest ext
  let newRoot ← unsupported (Mpf.update ext.blake2b256 oldRoot key proof oldDigest.bytes newDigest.bytes)
  return (⟨newRoot,store.leaves.insert key {leaf with intent:=newIntent,digest:=newDigest}⟩,
    ⟨oldRoot,newRoot,ext.proofToCbor proof⟩)

def markCompleted (store : AccountStore) (key : Bytes) (oldDigest : Digest) :
    Except Failure (AccountStore × MpfCompletion) := do
  let trie := trieFromLeaves store.leaves
  let proof ← fromFault (trie.proofForPresent ext.blake2b256 key)
  let leaf ← store.pendingLeafWith key oldDigest
  if !Mpf.has ext.blake2b256 store.root key oldDigest.bytes proof then
    let expected ← fromFault (trie.root ext.blake2b256)
    .error (.error (.rootMismatch expected store.root))
  else return (⟨store.root,store.leaves.insert key {leaf with status:=.completed}⟩,
    ⟨store.root,ext.proofToCbor proof⟩)

end
end AccountStore
end GreenAgent.Account
