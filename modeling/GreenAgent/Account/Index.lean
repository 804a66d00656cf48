import GreenAgent.Lib.HashMap
import GreenAgent.Account.Store

namespace GreenAgent.Account
open Mpf (Bytes Digest)

structure IndexedAccount (O : Type) where
  utxo : FinalizedTxOut O
  store : AccountStore
deriving DecidableEq

structure PersistedAccountStore where
  accountId : AccountId
  outputRef : OutputRef
  root : Digest
  leaves : List StoredIntentLeafSnapshot

structure PersistedPendingStore where
  snapshotId : Nat
  accountId : AccountId
  oldRef : OutputRef
  root : Digest
  leaves : List StoredIntentLeafSnapshot

structure PersistedAccountStores where
  stores : List PersistedAccountStore
  pending : List PersistedPendingStore
  nextSnapshotId : Nat

-- `persistence` is the path together with what the file at that path holds:
-- no path, a path without a file yet, or the last snapshot written there.
structure AccountIndex (O : Type) where
  byAccountId : HashMap AccountId (IndexedAccount O)
  byOutputRef : HashMap OutputRef AccountId
  predictedByOutputRef : HashMap OutputRef (AccountId × O)
  unboundByOutputRef : HashMap OutputRef (AlephAccountUtxo O)
  persistedByOutputRef : HashMap OutputRef (AccountId × AccountStore)
  pendingByAccountId : Finset AccountId
  rollbackBySpentRef : HashMap OutputRef (AccountId × IndexedAccount O)
  pendingStoreBySnapshotId : HashMap Nat (AccountId × OutputRef × AccountStore)
  pendingSnapshotByOutputRef : HashMap OutputRef Nat
  persistence : Option (Option PersistedAccountStores)
  nextSnapshotId : Nat

inductive AccountBindingError where
  | alreadyBound
  | outputAlreadyBound
  | outputNotObserved
  | nonEmptyUnplannedRoot
deriving DecidableEq

structure PlannedStoreDelta where
  oldRoot : Digest
  newRoot : Digest
  proof : Bytes
  predictedSnapshotId : Nat
deriving DecidableEq

structure PlannedStoreCompletion where
  root : Digest
  proof : Bytes
  predictedSnapshotId : Nat
deriving DecidableEq

def plannedDelta (delta : MpfDelta) (snapshotId : Nat) : PlannedStoreDelta :=
  ⟨delta.oldRoot,delta.newRoot,delta.proof,snapshotId⟩

def plannedCompletion (completion : MpfCompletion) (snapshotId : Nat) : PlannedStoreCompletion :=
  ⟨completion.root,completion.proof,snapshotId⟩

def PersistedAccountStore.fromParts (accountId : AccountId) (outputRef : OutputRef) (store : AccountStore) :
    PersistedAccountStore := ⟨accountId,outputRef,store.root,store.snapshotLeaves⟩

def PersistedPendingStore.fromPending (snapshotId : Nat) (accountId : AccountId) (oldRef : OutputRef) (store : AccountStore) :
    PersistedPendingStore := ⟨snapshotId,accountId,oldRef,store.root,store.snapshotLeaves⟩

namespace AccountIndex
variable {O : Type}

def default : AccountIndex O := ⟨∅,∅,∅,∅,∅,∅,∅,∅,∅,none,0⟩

def current (index : AccountIndex O) (accountId : AccountId) : Option (FinalizedTxOut O) :=
  (index.byAccountId.lookup accountId).map IndexedAccount.utxo

def pendingBases (index : AccountIndex O) (accountId : AccountId) : List (FinalizedTxOut O) :=
  ((HashMap.values index.pendingStoreBySnapshotId).filter (fun pending => decide (pending.1 = accountId))).filterMap
    (fun pending => (index.rollbackBySpentRef.lookup pending.2.1).map (fun spent => spent.2.utxo))

-- `.next()` takes whichever candidate the hash map iterates over first.
def currentOrPendingBase (index : AccountIndex O) (accountId : AccountId) : Option (FinalizedTxOut O) :=
  (index.current accountId).or
    (if accountId ∈ index.pendingByAccountId then (index.pendingBases accountId).head? else none)

def persisted (index : AccountIndex O) : PersistedAccountStores where
  stores := index.byAccountId.entries.map (fun e => .fromParts e.1 e.2.utxo.reference e.2.store) ++
    index.persistedByOutputRef.entries.map (fun e => .fromParts e.2.1 e.1 e.2.2)
  pending := index.pendingStoreBySnapshotId.entries.map (fun e => .fromPending e.1 e.2.1 e.2.2.1 e.2.2.2)
  nextSnapshotId := index.nextSnapshotId

def persistAccountStores (index : AccountIndex O) : AccountIndex O :=
  match index.persistence with
  | none => index
  | some _ => {index with persistence:=some (some index.persisted)}

def removeBoundOutput (index : AccountIndex O) (outputRef : OutputRef) : AccountIndex O × Option AccountId :=
  ({index with byOutputRef:=index.byOutputRef.erase outputRef},index.byOutputRef.lookup outputRef)

def bindIndexed (index : AccountIndex O) (accountId : AccountId) (indexed : IndexedAccount O) : AccountIndex O :=
  let outputRef := indexed.utxo.reference
  let cleared := match index.byAccountId.lookup accountId with
    | some previous => index.byOutputRef.erase previous.utxo.reference
    | none => index.byOutputRef
  persistAccountStores {index with
    byOutputRef:=cleared.insert outputRef accountId,
    byAccountId:=(index.byAccountId.erase accountId).insert accountId indexed,
    pendingByAccountId:=index.pendingByAccountId.erase accountId,
    unboundByOutputRef:=index.unboundByOutputRef.erase outputRef}

def storeForPlanning (index : AccountIndex O) (accountId : AccountId) (oldRef : OutputRef) : Option AccountStore :=
  match index.byAccountId.lookup accountId with
  | some account => if account.utxo.reference ≠ oldRef then none else some account.store
  | none =>
    if accountId ∉ index.pendingByAccountId ∨ (index.rollbackBySpentRef.lookup oldRef).isNone then none
    else if (HashMap.values index.pendingStoreBySnapshotId).any (fun pending =>
        decide (pending.1 = accountId ∧ pending.2.1 = oldRef)) then
      (index.rollbackBySpentRef.lookup oldRef).map (fun spent => spent.2.store)
    else none

def removePendingSnapshotsFor (index : AccountIndex O) (accountId : AccountId) (oldRef : OutputRef) : AccountIndex O :=
  let removed := (index.pendingStoreBySnapshotId.entries.filter
    (fun e => decide (e.2.1 = accountId ∧ e.2.2.1 = oldRef))).map (fun e => e.1)
  if removed.isEmpty then index
  else {index with
    pendingStoreBySnapshotId:=HashMap.retain (fun snapshotId _ => decide (snapshotId ∉ removed)) index.pendingStoreBySnapshotId,
    pendingSnapshotByOutputRef:=HashMap.retain (fun _ snapshotId => decide (snapshotId ∉ removed)) index.pendingSnapshotByOutputRef}

def reservePredictedStoreSnapshot (index : AccountIndex O) (accountId : AccountId) (oldRef : OutputRef)
    (predictedStore : AccountStore) : AccountIndex O × Nat :=
  let snapshotId := index.nextSnapshotId
  let index := {index with nextSnapshotId:=index.nextSnapshotId+1}
  let index := (index.removeBoundOutput oldRef).1
  let index := match index.byAccountId.lookup accountId with
    | some output => {index with
        byAccountId:=index.byAccountId.erase accountId,
        rollbackBySpentRef:=index.rollbackBySpentRef.insert oldRef (accountId,output)}
    | none => index
  (persistAccountStores {index with
    pendingByAccountId:=Insert.insert accountId index.pendingByAccountId,
    pendingStoreBySnapshotId:=index.pendingStoreBySnapshotId.insert snapshotId (accountId,oldRef,predictedStore)},snapshotId)

-- The three planners differ in the store operation only.
def planWith (index : AccountIndex O) (accountId : AccountId) (oldRef : OutputRef)
    (change : AccountStore → Except Failure (AccountStore × α)) : Except Failure (AccountIndex O × α × Nat) := do
  let baseStore ← match index.storeForPlanning accountId oldRef with
    | some store => .ok store
    | none => .error (.error .missingAccount)
  let (predicted,delta) ← change baseStore
  let index := index.removePendingSnapshotsFor accountId oldRef
  let (index,snapshotId) := index.reservePredictedStoreSnapshot accountId oldRef predicted
  return (index,delta,snapshotId)

def planSigInsert (ext : Externals O) (index : AccountIndex O) (accountId : AccountId) (oldRef : OutputRef)
    (canonicalOrderId : GreenOrderId) (key : Bytes) (updatedIntent : AlephIntention) :
    Except Failure (AccountIndex O × PlannedStoreDelta) := do
  let (index,delta,snapshotId) ← index.planWith accountId oldRef
    (fun store => store.insertRemaining ext key canonicalOrderId updatedIntent)
  return (index,plannedDelta delta snapshotId)

def planPathUpdate (ext : Externals O) (index : AccountIndex O) (accountId : AccountId) (oldRef : OutputRef)
    (key : Bytes) (oldDigest : Digest) (updatedIntent : AlephIntention) :
    Except Failure (AccountIndex O × PlannedStoreDelta) := do
  let (index,delta,snapshotId) ← index.planWith accountId oldRef
    (fun store => store.updateRemaining ext key oldDigest updatedIntent)
  return (index,plannedDelta delta snapshotId)

def planPathCompletion (ext : Externals O) (index : AccountIndex O) (accountId : AccountId) (oldRef : OutputRef)
    (key : Bytes) (oldDigest : Digest) : Except Failure (AccountIndex O × PlannedStoreCompletion) := do
  let (index,completion,snapshotId) ← index.planWith accountId oldRef
    (fun store => store.markCompleted ext key oldDigest)
  return (index,plannedCompletion completion snapshotId)

end AccountIndex
end GreenAgent.Account
