import GreenAgent.Account.Index

namespace GreenAgent.Account
open Mpf (Bytes Digest)

namespace AccountIndex
variable {O : Type}

def observeConsumed (index : AccountIndex O) (outputRef : OutputRef) : AccountIndex O :=
  let (index,bound) := index.removeBoundOutput outputRef
  let index := match bound with
    | some accountId =>
      let index := match index.byAccountId.lookup accountId with
        | some output => {index with
            byAccountId:=index.byAccountId.erase accountId,
            rollbackBySpentRef:=index.rollbackBySpentRef.insert outputRef (accountId,output)}
        | none => index
      {index with pendingByAccountId:=Insert.insert accountId index.pendingByAccountId}
    | none => index
  persistAccountStores {index with
    predictedByOutputRef:=index.predictedByOutputRef.erase outputRef,
    unboundByOutputRef:=index.unboundByOutputRef.erase outputRef}

def observeRollbackConsumed (index : AccountIndex O) (outputRef : OutputRef) : AccountIndex O :=
  let index := match index.rollbackBySpentRef.lookup outputRef with
    | some (accountId,indexed) =>
      bindIndexed {index with rollbackBySpentRef:=index.rollbackBySpentRef.erase outputRef} accountId indexed
    | none => index
  let pending := HashMap.retain (fun _ entry => decide (entry.2.1 ≠ outputRef)) index.pendingStoreBySnapshotId
  persistAccountStores {index with
    pendingStoreBySnapshotId:=pending,
    pendingSnapshotByOutputRef:=HashMap.retain (fun _ snapshotId => (pending.lookup snapshotId).isSome)
      index.pendingSnapshotByOutputRef}

def observeRemovedOutput (index : AccountIndex O) (outputRef : OutputRef) : AccountIndex O :=
  let (index,bound) := index.removeBoundOutput outputRef
  let index := match bound with
    | some accountId => {index with
        byAccountId:=index.byAccountId.erase accountId,
        pendingByAccountId:=Insert.insert accountId index.pendingByAccountId}
    | none => index
  persistAccountStores {index with
    predictedByOutputRef:=index.predictedByOutputRef.erase outputRef,
    unboundByOutputRef:=index.unboundByOutputRef.erase outputRef}

def bindObserved (index : AccountIndex O) (accountId : AccountId) (account : AlephAccountUtxo O) : AccountIndex O :=
  match AccountStore.fromObservedRoot account.state.storeRoot with
  | none => {index with unboundByOutputRef:=index.unboundByOutputRef.insert account.outputRef account}
  | some store => index.bindIndexed accountId ⟨account.finalizedOutput,store⟩

def bindConfirmedPredictedStore (index : AccountIndex O) (predictedOutputRef : OutputRef) (account : AlephAccountUtxo O) :
    Except GreenStorePlanningError (AccountIndex O) :=
  match index.pendingSnapshotByOutputRef.lookup predictedOutputRef with
  | none => .error .missingStore
  | some snapshotId =>
    match index.pendingStoreBySnapshotId.lookup snapshotId with
    | none => .error .missingStore
    | some (accountId,_,store) =>
      if account.state.storeRoot ≠ store.root then .error (.rootMismatch store.root account.state.storeRoot)
      else
        let index := {index with
          pendingStoreBySnapshotId:=index.pendingStoreBySnapshotId.erase snapshotId,
          pendingSnapshotByOutputRef:=index.pendingSnapshotByOutputRef.erase predictedOutputRef}
        .ok (persistAccountStores (index.bindIndexed accountId ⟨account.finalizedOutput,store⟩))

def bindConfirmedStoreForConsumedRefs (index : AccountIndex O) (consumedRefs : List OutputRef)
    (account : AlephAccountUtxo O) : Except GreenStorePlanningError (AccountIndex O) :=
  let matching := index.pendingStoreBySnapshotId.entries.filter (fun e =>
    decide (e.2.2.1 ∈ consumedRefs ∧ e.2.2.2.root = account.state.storeRoot))
  match matching with
  | [] => .error .missingStore
  | first :: _ =>
    let accountId := first.2.1
    let store := first.2.2.2
    if matching.any (fun e => decide (e.2.1 ≠ accountId ∨ e.2.2.2 ≠ store)) then .error .missingStore
    else
      let matchingSnapshotIds := matching.map (fun e => e.1)
      let index := {index with
        pendingStoreBySnapshotId:=HashMap.retain (fun snapshotId _ => decide (snapshotId ∉ matchingSnapshotIds))
          index.pendingStoreBySnapshotId,
        pendingSnapshotByOutputRef:=HashMap.retain (fun _ snapshotId => decide (snapshotId ∉ matchingSnapshotIds))
          index.pendingSnapshotByOutputRef}
      .ok (persistAccountStores (index.bindIndexed accountId ⟨account.finalizedOutput,store⟩))

def bindEmptySuccessorForConsumedAccount (index : AccountIndex O) (consumedAccountIds : List AccountId)
    (account : AlephAccountUtxo O) : Option (AccountIndex O) :=
  match consumedAccountIds with
  | [accountId] =>
    match AccountStore.fromObservedRoot account.state.storeRoot with
    | none => none
    | some store =>
      if accountId ∉ index.pendingByAccountId then none
      else some (index.bindIndexed accountId ⟨account.finalizedOutput,store⟩)
  | _ => none

def observeCreatedOrUpdated (index : AccountIndex O) (account : AlephAccountUtxo O) : AccountIndex O :=
  let outputRef := account.outputRef
  match index.predictedByOutputRef.lookup outputRef with
  | some (accountId,_) =>
    let index := {index with predictedByOutputRef:=index.predictedByOutputRef.erase outputRef}
    match index.bindConfirmedPredictedStore outputRef account with
    | .ok bound => bound
    | .error _ => index.bindObserved accountId account
  | none =>
    if (index.pendingSnapshotByOutputRef.lookup outputRef).isSome then
      match index.bindConfirmedPredictedStore outputRef account with
      | .ok bound => bound
      | .error _ => index
    else
      match index.persistedByOutputRef.lookup outputRef with
      | some (accountId,store) =>
        if store.root = account.state.storeRoot then
          bindIndexed {index with persistedByOutputRef:=index.persistedByOutputRef.erase outputRef} accountId
            ⟨account.finalizedOutput,store⟩
        else {index with unboundByOutputRef:=index.unboundByOutputRef.insert outputRef account}
      | none => {index with unboundByOutputRef:=index.unboundByOutputRef.insert outputRef account}

def observeProduced (consumedRefs : List OutputRef) (consumedAccountIds : List AccountId) (index : AccountIndex O)
    (account : AlephAccountUtxo O) : AccountIndex O :=
  match index.bindConfirmedStoreForConsumedRefs consumedRefs account with
  | .ok bound => bound
  | .error _ =>
    match index.bindEmptySuccessorForConsumedAccount consumedAccountIds account with
    | some bound => bound
    | none => index.observeCreatedOrUpdated account

-- The two hash sets keep the order of the transaction's inputs here.
def observeTransaction (index : AccountIndex O) (consumedRefs : List OutputRef)
    (producedAccounts : List (AlephAccountUtxo O)) : AccountIndex O :=
  let consumedRefs := consumedRefs.dedup
  let consumedAccountIds := (consumedRefs.filterMap index.byOutputRef.lookup).dedup
  producedAccounts.foldl (observeProduced consumedRefs consumedAccountIds) (consumedRefs.foldl observeConsumed index)

def bindExternalAccountIdOnce (index : AccountIndex O) (accountId : AccountId) (outputRef : OutputRef) :
    AccountIndex O × Except AccountBindingError (FinalizedTxOut O) :=
  if (index.byAccountId.lookup accountId).isSome ∨ accountId ∈ index.pendingByAccountId ∨
      (HashMap.values index.persistedByOutputRef).any (fun persisted => decide (persisted.1 = accountId)) then
    (index,.error .alreadyBound)
  else if (index.byOutputRef.lookup outputRef).isSome ∨ (index.persistedByOutputRef.lookup outputRef).isSome then
    (index,.error .outputAlreadyBound)
  else
    match index.unboundByOutputRef.lookup outputRef with
    | none => (index,.error .outputNotObserved)
    | some account =>
      let index := {index with unboundByOutputRef:=index.unboundByOutputRef.erase outputRef}
      match AccountStore.fromObservedRoot account.state.storeRoot with
      | none => ({index with unboundByOutputRef:=index.unboundByOutputRef.insert outputRef account},
          .error .nonEmptyUnplannedRoot)
      | some store =>
        let index := index.bindIndexed accountId ⟨account.finalizedOutput,store⟩
        (index,match index.current accountId with
          | some utxo => .ok utxo
          | none => .error .outputNotObserved)

end AccountIndex

structure LoadedPersistedState where
  stores : List (AccountId × OutputRef × AccountStore)
  pending : List (Nat × AccountId × OutputRef × AccountStore)
  nextSnapshotId : Nat

def loadPersistedStores (ext : Externals O) : Option PersistedAccountStores → Except Failure LoadedPersistedState
  | none => .ok ⟨[],[],0⟩
  | some file => do
    let stores ← file.stores.mapM (fun entry => do
      return (entry.accountId,entry.outputRef,← AccountStore.fromSnapshot ext entry.root entry.leaves))
    let pending ← file.pending.mapM (fun entry => do
      return (entry.snapshotId,entry.accountId,entry.oldRef,← AccountStore.fromSnapshot ext entry.root entry.leaves))
    return ⟨stores,pending,file.nextSnapshotId⟩

-- A file that does not load is logged and ignored.
def AccountIndex.withPersistencePath (ext : Externals O) (file : Option PersistedAccountStores) :
    Except Failure (AccountIndex O) :=
  let index : AccountIndex O := {AccountIndex.default with persistence:=some file}
  match loadPersistedStores ext file with
  | .error (.panic message) => .error (.panic message)
  | .error (.error _) => .ok index
  | .ok state => .ok {index with
      persistedByOutputRef:=state.stores.foldl (fun map store => map.insert store.2.1 (store.1,store.2.2)) ∅,
      pendingStoreBySnapshotId:=state.pending.foldl (fun map entry => map.insert entry.1 entry.2) ∅,
      nextSnapshotId:=max state.nextSnapshotId ((state.pending.map (fun entry => entry.1+1)).foldl max 0)}

inductive AccountEvent (O : Type) where
  | consumed (outputRef : OutputRef)
  | produced (account : AlephAccountUtxo O)

-- `TxViewMut`, the fields that account scanning reads.
structure TxView (O : Type) where
  hash : Digest
  inputs : List OutputRef
  outputs : List (UInt64 × O)
deriving DecidableEq

def scanAccountEvents (ext : Externals O) (tx : TxView O) : List (AccountEvent O) :=
  tx.inputs.map .consumed ++
    tx.outputs.filterMap (fun (index,output) => (AlephAccountUtxo.tryParse ext ⟨tx.hash,index⟩ output).map .produced)

def AccountEvent.consumedRef? : AccountEvent O → Option OutputRef
  | .consumed outputRef => some outputRef
  | .produced _ => none

def AccountEvent.producedAccount? : AccountEvent O → Option (AlephAccountUtxo O)
  | .consumed _ => none
  | .produced account => some account

def applyAccountEvents (index : AccountIndex O) (events : List (AccountEvent O)) : AccountIndex O :=
  index.observeTransaction (events.filterMap AccountEvent.consumedRef?) (events.filterMap AccountEvent.producedAccount?)

def revertAccountEvent (index : AccountIndex O) : AccountEvent O → AccountIndex O
  | .produced account => index.observeRemovedOutput account.outputRef
  | .consumed outputRef => index.observeRollbackConsumed outputRef

def revertAccountEvents (index : AccountIndex O) (events : List (AccountEvent O)) : AccountIndex O :=
  events.foldl revertAccountEvent index

end GreenAgent.Account
