import GreenAgent.Lib.Traverse
import GreenAgent.Tx.Spends
import GreenAgent.Account.Stock
import GreenAgent.Account.Integrity
import GreenAgent.Green.Fee

namespace GreenAgent.Account
open Mpf (Bytes Digest bind_ok)

namespace AccountStore
variable {O : Type} (ext : Externals O)

def pendingLeaves (store : AccountStore) : List (Bytes × StoredIntentLeaf) := store.leaves.toList.filter (fun entry => decide (entry.2.status = .pending))

def pathProof (store : AccountStore) (key : Bytes) : Except Failure Bytes :=
  match store.leaves[key]? with
  | none => .error (.error .missingPendingIntent)
  | some leaf =>
    if leaf.status ≠ .pending then .error (.error .missingPendingIntent)
    else do
      let trie := trieFromLeaves store.leaves
      let proof ← fromFault (trie.proofForPresent ext.blake2b256 key)
      if !Mpf.has ext.blake2b256 store.root key leaf.digest.bytes proof then
        let expected ← fromFault (trie.root ext.blake2b256)
        .error (.error (.rootMismatch expected store.root))
      else return ext.proofToCbor proof

-- Every leaf is under the key of the intent it stores.
def Keyed (store : AccountStore) : Prop :=
  ∀ (key : Bytes) (leaf : StoredIntentLeaf), store.leaves[key]? = some leaf → leaf.intent.intentKey = key

end AccountStore

section Stores
variable {O : Type} {ext : Externals O} {store p : AccountStore}

theorem mem_pendingLeaves : (key,leaf) ∈ store.pendingLeaves ↔ store.leaves[key]? = some leaf ∧ leaf.status = .pending := by
  unfold AccountStore.pendingLeaves
  rw [List.mem_filter,Std.ExtTreeMap.mem_toList_iff_getElem?_eq_some,decide_eq_true_iff]

theorem pathProof_ok (found : store.leaves[key]? = some leaf) (proved : store.pathProof ext key = .ok bytes) :
    leaf.status = .pending ∧ ∃ proof, (trieFromLeaves store.leaves).proofForPresent ext.blake2b256 key = .ok proof ∧
      Mpf.has ext.blake2b256 store.root key leaf.digest.bytes proof = true ∧ bytes = ext.proofToCbor proof := by
  unfold AccountStore.pathProof at proved
  rw [found] at proved
  dsimp only at proved
  split at proved
  · cases proved
  · rename_i pending
    refine ⟨not_not.mp pending,?_⟩
    obtain ⟨proof,made,proved⟩ := bind_ok.mp proved
    split at proved
    · obtain ⟨_,_,impossible⟩ := bind_ok.mp proved
      cases impossible
    · rename_i shown
      cases proved
      exact ⟨proof,fromFault_ok.mp made,by simpa using shown,rfl⟩

theorem Keyed.insert (keyed : store.Keyed) (own : leaf.intent.intentKey = key) (root : Digest) :
    AccountStore.Keyed ⟨root,store.leaves.insert key leaf⟩ := by
  intro k other found
  rw [Std.ExtTreeMap.getElem?_insert] at found
  split at found
  · rename_i same
    cases found
    exact own.trans (Std.LawfulEqCmp.eq_of_compare same)
  · exact keyed k other found

theorem predict_keyed {call : PlanCall} (keyed : store.Keyed) (own : Tx.OwnKey call) (predicted : call.predict ext store = .ok p) : p.Keyed := by
  cases call with
  | sigInsert orderId key intent =>
    have own : intent.intentKey = key := own
    obtain ⟨⟨_,_⟩,changed,rfl⟩ := map_ok.mp predicted
    unfold AccountStore.insertRemaining at changed
    split at changed
    · cases changed
    · obtain ⟨proof,_,changed⟩ := bind_ok.mp changed
      obtain ⟨root,_,changed⟩ := bind_ok.mp changed
      cases changed
      refine Keyed.insert keyed ?_ _
      exact own
  | pathUpdate key oldDigest intent =>
    have own : intent.intentKey = key := own
    obtain ⟨⟨_,_⟩,changed,rfl⟩ := map_ok.mp predicted
    obtain ⟨proof,_,changed⟩ := bind_ok.mp changed
    obtain ⟨leaf,_,changed⟩ := bind_ok.mp changed
    obtain ⟨root,_,changed⟩ := bind_ok.mp changed
    cases changed
    refine Keyed.insert keyed ?_ _
    exact own
  | pathCompletion key oldDigest =>
    obtain ⟨⟨_,_⟩,changed,rfl⟩ := map_ok.mp predicted
    obtain ⟨proof,_,changed⟩ := bind_ok.mp changed
    obtain ⟨leaf,found,changed⟩ := bind_ok.mp changed
    split at changed
    · obtain ⟨_,_,impossible⟩ := bind_ok.mp changed
      cases impossible
    · cases changed
      refine Keyed.insert keyed ?_ _
      exact keyed key leaf (pendingLeafWith_ok found).1

theorem pendingLeafWith_of (found : store.leaves[key]? = some leaf) (pending : leaf.status = .pending) :
    store.pendingLeafWith key leaf.digest = .ok leaf := by
  unfold AccountStore.pendingLeafWith
  simp [found,pending]

theorem pathProof_updates (found : store.leaves[key]? = some leaf) (proved : store.pathProof ext key = .ok bytes) (updated : AlephIntention) :
    ∃ answer, store.updateRemaining ext key leaf.digest updated = .ok answer := by
  obtain ⟨pending,proof,made,shown,_⟩ := pathProof_ok found proved
  obtain ⟨root,replaced⟩ := Mpf.has_update shown (updated.digest ext).bytes
  have replaced : unsupported (Mpf.update ext.blake2b256 store.root key proof leaf.digest.bytes (updated.digest ext).bytes) = .ok root := by
    rw [replaced]
    rfl
  exact ⟨_,bind_ok.mpr ⟨proof,fromFault_ok.mpr made,bind_ok.mpr ⟨leaf,pendingLeafWith_of found pending,bind_ok.mpr ⟨root,replaced,rfl⟩⟩⟩⟩

theorem pathProof_completes (found : store.leaves[key]? = some leaf) (proved : store.pathProof ext key = .ok bytes) :
    ∃ answer, store.markCompleted ext key leaf.digest = .ok answer := by
  obtain ⟨pending,proof,made,shown,_⟩ := pathProof_ok found proved
  have rest : (if !Mpf.has ext.blake2b256 store.root key leaf.digest.bytes proof then do
      let expected ← fromFault ((trieFromLeaves store.leaves).root ext.blake2b256)
      .error (.error (.rootMismatch expected store.root))
    else return (⟨store.root,store.leaves.insert key {leaf with status:=.completed}⟩,⟨store.root,ext.proofToCbor proof⟩) :
      Except Failure (AccountStore × MpfCompletion)) = .ok (⟨store.root,store.leaves.insert key {leaf with status:=.completed}⟩,⟨store.root,ext.proofToCbor proof⟩) := by
    rw [shown]
    rfl
  exact ⟨_,bind_ok.mpr ⟨proof,fromFault_ok.mpr made,bind_ok.mpr ⟨leaf,pendingLeafWith_of found pending,rest⟩⟩⟩

end Stores

theorem planWith_returns {index : AccountIndex O} (change : AccountStore → Except Failure (AccountStore × α))
    (based : index.storeForPlanning a r = some store) (changed : change store = .ok answer) : ∃ planned, index.planWith a r change = .ok planned := by
  unfold AccountIndex.planWith
  rw [based]
  exact ⟨_,bind_ok.mpr ⟨store,rfl,bind_ok.mpr ⟨answer,changed,rfl⟩⟩⟩

end GreenAgent.Account

namespace GreenAgent.Green
open Mpf (Bytes Digest bind_ok)
open Account (AccountId AccountIndex IndexedAccount StoredIntentLeaf FinalizedTxOut Externals Failure)
open Engine (Bundled)

section
variable {O : Type} (ext : Externals O)

-- A leaf without a proof is passed over.
def continuationOf (a : AccountId) (account : IndexedAccount O) (entry : Bytes × StoredIntentLeaf) :
    Except Failure (Option (Bundled GreenOrder (FinalizedTxOut O))) :=
  match account.store.pathProof ext entry.1 with
  | .ok proof => .ok (some ⟨continuation entry.2.canonicalOrderId a proof entry.2.intent,account.utxo⟩)
  | .error (.error _) => .ok none
  | .error (.panic message) => .error (.panic message)

def pendingContinuations (index : AccountIndex O) : Except Failure (List (Bundled GreenOrder (FinalizedTxOut O))) := do
  let orders ← index.byAccountId.entries.mapM (fun entry => entry.2.store.pendingLeaves.mapM (continuationOf ext entry.1 entry.2))
  return orders.flatten.reduceOption

-- The order made of a pending leaf of a bound account.
inductive Emitted (index : AccountIndex O) : AccountId → Bytes → StoredIntentLeaf → Bundled GreenOrder (FinalizedTxOut O) → Prop where
  | leaf (bound : index.byAccountId.lookup a = some account) (pending : (key,leaf) ∈ account.store.pendingLeaves)
      (proved : account.store.pathProof ext key = .ok proof) :
      Emitted index a key leaf ⟨continuation leaf.canonicalOrderId a proof leaf.intent,account.utxo⟩

variable {ext} {index : AccountIndex O}

theorem continuationOf_some {account : IndexedAccount O} : continuationOf ext a account (key,leaf) = .ok (some bundled) ↔
    ∃ proof, account.store.pathProof ext key = .ok proof ∧ bundled = ⟨continuation leaf.canonicalOrderId a proof leaf.intent,account.utxo⟩ := by
  unfold continuationOf
  dsimp only
  cases proved : account.store.pathProof ext key with
  | ok proof => simp [eq_comm]
  | error fault => cases fault <;> simp

theorem mem_pendingContinuations (continued : pendingContinuations ext index = .ok orders) :
    bundled ∈ orders ↔ ∃ a key leaf, Emitted ext index a key leaf bundled := by
  obtain ⟨rows,mapped,same⟩ := bind_ok.mp continued
  cases same
  have each := Traverse.mapM_forall₂.mp mapped
  rw [List.reduceOption_mem_iff,List.mem_flatten]
  constructor
  · rintro ⟨row,inside,member⟩
    obtain ⟨⟨a,account⟩,entry,made⟩ := Traverse.forall₂_right each inside
    obtain ⟨⟨key,leaf⟩,pending,made⟩ := Traverse.forall₂_right (Traverse.mapM_forall₂.mp made) member
    obtain ⟨proof,proved,rfl⟩ := continuationOf_some.mp made
    exact ⟨a,key,leaf,.leaf (HashMap.mem_entries.mp entry) pending proved⟩
  · rintro ⟨a,key,leaf,emitted⟩
    cases emitted with
    | leaf bound pending proved =>
      obtain ⟨row,inside,made⟩ := Traverse.forall₂_left each (HashMap.mem_entries.mpr bound)
      obtain ⟨order,member,made⟩ := Traverse.forall₂_left (Traverse.mapM_forall₂.mp made) pending
      have same := made.symm.trans (continuationOf_some.mpr ⟨_,proved,rfl⟩)
      cases same
      exact ⟨row,inside,member⟩

end
end GreenAgent.Green

namespace GreenAgent.Tx
open Mpf (Bytes Digest bind_ok)
open Account (OutputRef AccountId AlephIntention AlephAccountState AccountIndex AlephAccountUtxo AccountStore StoredIntentLeaf Externals FinalizedTxOut PlanCall TxView
  Reached Fits Consistent Stock)
open Cardano (TransactionOutput)
open Green (GreenOrder GreenAuth Emitted pendingContinuations continuation)
open Engine (Bundled)

section
variable {D : Type} {ext : Externals (TransactionOutput D)} {txs : Digest → TxView (TransactionOutput D)}

-- The runs of the index in which orders are the only ones that plan.
inductive ExecRun (ext : Externals (TransactionOutput D)) (txs : Digest → TxView (TransactionOutput D)) :
    AccountIndex (TransactionOutput D) → List (TxView (TransactionOutput D)) → Prop where
  | fresh (persistence : Option Unit) (consistent : Consistent txs chain) :
      ExecRun ext txs {AccountIndex.default with persistence:=persistence.map (fun _ => none)} chain
  | bind (prior : ExecRun ext txs index chain) (a : AccountId) (r : OutputRef) : ExecRun ext txs (index.bindExternalAccountIdOnce a r).1 chain
  | exec (prior : ExecRun ext txs index chain) (order : GreenOrder) (account : AlephAccountUtxo (TransactionOutput D))
      (authorised : authorise ext order account {order.alephIntention with abi:=account.state.abi} amounts remainder index = some (root,auth,next)) :
      ExecRun ext txs next chain
  | apply (prior : ExecRun ext txs index chain) (fits : Fits txs chain tx) :
      ExecRun ext txs (Account.applyAccountEvents index (Account.scanAccountEvents ext tx)) (tx :: chain)
  | revert (prior : ExecRun ext txs index (tx :: chain)) :
      ExecRun ext txs (Account.revertAccountEvents index (Account.scanAccountEvents ext tx)) chain
  | restart (prior : ExecRun ext txs index chain) (file : index.persistence = some saved)
      (loaded : AccountIndex.withPersistencePath ext saved = .ok next) (k : Nat) : ExecRun ext txs next (chain.drop k)

theorem ExecRun.reached (run : ExecRun ext txs index chain) : Reached ext txs index chain := by
  induction run with
  | fresh persistence consistent => exact .fresh persistence consistent
  | bind _ a r ih => exact .bind ih a r
  | exec _ order account authorised ih => exact (authorise_planned authorised).reached ih
  | apply _ fits ih => exact .apply ih fits
  | revert _ ih => exact .revert ih
  | restart _ file loaded k ih => exact .restart ih file loaded k

-- Every leaf was stored by a planner, under its key and with its digest.
@[grind cases eager] structure Genuine (ext : Externals (TransactionOutput D)) (store : AccountStore) : Prop where
  digested : store.Digested ext
  keyed : store.Keyed

theorem empty_genuine : Genuine ext .empty :=
  ⟨fun key leaf found => by simp [AccountStore.empty] at found,fun key leaf found => by simp [AccountStore.empty] at found⟩

theorem ExecRun.stock (run : ExecRun ext txs index chain) : Stock (Genuine ext) index := by
  induction run with
  | fresh persistence _ => exact Stock.blank _ persistence
  | bind _ a r ih => exact ih.external empty_genuine a r
  | exec _ order account authorised ih =>
    cases authorise_planned authorised with
    | none => exact ih
    | call call own ran =>
      obtain ⟨base,p,done,_⟩ := call.run_ok ran
      have genuine := ih.stocked.base done.from_base
      exact ih.plan done ⟨Account.predict_digested genuine.digested done.predicted,Account.predict_keyed genuine.keyed own done.predicted⟩
  | apply _ _ ih => exact ih.apply empty_genuine _
  | revert _ ih => exact ih.revert _
  | restart _ file loaded k ih => exact ih.restart file loaded

-- The intention `exec` computes for an order of an account with the given state.
def execIntention (order : GreenOrder) (state : AlephAccountState) : AlephIntention := {order.alephIntention with abi:=state.abi}

-- The order can be executed on the output it comes with.
@[grind cases eager] structure ContinuationRuns (ext : Externals (TransactionOutput D)) (index : AccountIndex (TransactionOutput D)) (key : Bytes)
    (leaf : StoredIntentLeaf) (bundled : Bundled GreenOrder (FinalizedTxOut (TransactionOutput D))) (state : AlephAccountState) : Prop where
  shown : ∃ proof, bundled.entity.auth = .path (ext.proofToCbor proof) ∧ Mpf.has ext.blake2b256 state.storeRoot key leaf.digest.bytes proof = true
  key : (execIntention bundled.entity state).intentKey = key
  digest : (execIntention bundled.entity state).digest ext = leaf.digest
  updates : ∀ updated, ∃ answer, index.planPathUpdate ext bundled.entity.accountId bundled.bearer.reference
    (execIntention bundled.entity state).intentKey ((execIntention bundled.entity state).digest ext) updated = .ok answer
  completes : ∃ answer, index.planPathCompletion ext bundled.entity.accountId bundled.bearer.reference
    (execIntention bundled.entity state).intentKey ((execIntention bundled.entity state).digest ext) = .ok answer

theorem continuation_intention (id : Account.GreenOrderId) (a : AccountId) (proof : Bytes) (intent : AlephIntention) (state : AlephAccountState) :
    execIntention (continuation id a proof intent) state = {intent with abi:=state.abi} := rfl

theorem abi_of_key {intent : AlephIntention} {abi : Account.AlephAccountAbi} (same : AlephIntention.intentKey {intent with abi:=abi} = intent.intentKey) :
    intent.abi = abi := by
  unfold AlephIntention.intentKey at same
  cases abi <;> cases stored : intent.abi <;> rw [stored] at same
  · exact absurd (congrArg (· ++ []) same.symm) (Account.keys_apart _ _ _ [] [])
  · exact absurd (congrArg (· ++ []) same) (Account.keys_apart _ _ _ [] [])

theorem continuations_executable_iff (run : ExecRun ext txs index chain) (continued : pendingContinuations ext index = .ok orders) :
    (∀ bundled ∈ orders, ∃ a key leaf, Emitted ext index a key leaf bundled) ∧
    ∀ a key leaf bundled, Emitted ext index a key leaf bundled → bundled ∈ orders ∧
      ∃ state, ext.accountState bundled.bearer.output = some state ∧ (ContinuationRuns ext index key leaf bundled state ↔ leaf.intent.abi = state.abi) := by
  refine ⟨fun bundled member => (Green.mem_pendingContinuations continued).mp member,?_⟩
  intro a key leaf bundled emitted
  refine ⟨(Green.mem_pendingContinuations continued).mpr ⟨a,key,leaf,emitted⟩,?_⟩
  cases emitted with
  | @leaf account _ _ proof bound pending proved =>
    obtain ⟨found,_⟩ := Account.mem_pendingLeaves.mp pending
    have here : index.view.bound a = some account := bound
    obtain ⟨_,state,parsed,root⟩ := run.reached.sound.2.bound_carries here
    have genuine := run.stock.stocked.bound here
    refine ⟨state,parsed,?_,?_⟩
    · intro runs
      have same := runs.key
      rw [continuation_intention,← genuine.keyed key leaf found] at same
      exact abi_of_key same
    · intro abi
      have intent : execIntention (continuation leaf.canonicalOrderId a proof leaf.intent) state = leaf.intent := by
        rw [continuation_intention,← abi]
      have own : leaf.intent.intentKey = key := genuine.keyed key leaf found
      have digest : leaf.intent.digest ext = leaf.digest := (genuine.digested key leaf found).symm
      have based : index.storeForPlanning a account.utxo.reference = some account.store := Account.storeForPlanning_some.mpr (.bound here rfl)
      refine ⟨?_,?_,?_,?_,?_⟩
      · obtain ⟨_,steps,_,shown,same⟩ := Account.pathProof_ok found proved
        exact ⟨steps,congrArg GreenAuth.path same,root ▸ shown⟩
      · rw [intent,own]
      · rw [intent,digest]
      · intro updated
        rw [intent,own,digest]
        obtain ⟨answer,changed⟩ := Account.pathProof_updates found proved updated
        obtain ⟨planned,done⟩ := Account.planWith_returns (fun store => store.updateRemaining ext key leaf.digest updated) based changed
        exact ⟨_,bind_ok.mpr ⟨planned,done,rfl⟩⟩
      · rw [intent,own,digest]
        obtain ⟨answer,changed⟩ := Account.pathProof_completes found proved
        obtain ⟨planned,done⟩ := Account.planWith_returns (fun store => store.markCompleted ext key leaf.digest) based changed
        exact ⟨_,bind_ok.mpr ⟨planned,done,rfl⟩⟩

end

-- The owner's order is filled to one half, and a transaction with the planned
-- root spends the account.
section Sample
open Account (AlephAccountAbi)

-- BLAKE2b-256 on the strings that the plan hashes.
def halfRecords : List KnownHash.Record := [
  ⟨80,0xd8799f9f0001ff9f4040ff18329f581c010101010101010101010101010101010101010101010101010101014141ff1405581c00000000000000000000000000000000000000000000000000000000ff,
    0x125c4f3957944eea4d4e4c79ca1f938de6cae0021f324466e259fee25df0cc0f⟩,
  ⟨4,0x9f0001ff,0x14144ad05bcd7db6c44364bc588ba5fdffe8df4a162f1a600fc5dda95eb23115⟩,
  ⟨32,0x125c4f3957944eea4d4e4c79ca1f938de6cae0021f324466e259fee25df0cc0f,
    0x455aa9fc5af16c8db5131a0290fdced718469d7112cae6a0d5367500ad4ca9a4⟩,
  ⟨65,0xff14144ad05bcd7db6c44364bc588ba5fdffe8df4a162f1a600fc5dda95eb23115455aa9fc5af16c8db5131a0290fdced718469d7112cae6a0d5367500ad4ca9a4,
    0x534af66059b2385efd837a500c51f8fb031a3587efebb13cbee45486f8b230cb⟩]

def halfHash (s : Bytes) : Digest := Mpf.digestOf (KnownHash.digestNumber halfRecords 1 s)

def halfExternals : Externals (TransactionOutput AlephAccountState) := Green.walletDatums.externals halfHash (fun _ => [0x9f,0xff])

def halfKey : Bytes := Green.halfIntent.intentKey

def halfStore : AccountStore :=
  (((PlanCall.sigInsert (ownerOrder 10).id halfKey Green.halfIntent).predict halfExternals .empty).toOption).getD .empty

def halfLeaf : StoredIntentLeaf := ⟨(ownerOrder 10).id,Green.halfIntent,Green.halfIntent.digest halfExternals,.pending⟩

def halfState (abi : AlephAccountAbi) : AlephAccountState := {Green.walletState with abi:=abi,nonce:=[1],storeRoot:=halfStore.root}

def halfTx (abi : AlephAccountAbi) : TxView (TransactionOutput AlephAccountState) :=
  ⟨Mpf.digestOf 6,[⟨Mpf.digestOf 5,0⟩],[(0,⟨[0x70],⟨4999950,AList.insert ownerToken 30 ∅⟩,some (halfState abi)⟩)]⟩

def halfTxs (abi : AlephAccountAbi) (h : Digest) : TxView (TransactionOutput AlephAccountState) :=
  if h = Mpf.digestOf 5 then ownerTx else if h = Mpf.digestOf 6 then halfTx abi else ⟨h,[],[]⟩

def halfAuthorised : Option (Digest × GreenAuth × AccountIndex (TransactionOutput AlephAccountState)) :=
  authorise halfExternals (ownerOrder 10) Green.walletUtxo {(ownerOrder 10).alephIntention with abi:=.current} ⟨50,30,0,0⟩ 50 ownerIndex

def halfPlanned : AccountIndex (TransactionOutput AlephAccountState) := (halfAuthorised.map (fun done => done.2.2)).getD ownerIndex

def halfIndex (abi : AlephAccountAbi) : AccountIndex (TransactionOutput AlephAccountState) :=
  Account.applyAccountEvents halfPlanned (Account.scanAccountEvents halfExternals (halfTx abi))

theorem half_run (abi : AlephAccountAbi) : ExecRun halfExternals (halfTxs abi) (halfIndex abi) [halfTx abi,ownerTx] := by
  have scanned : Account.scanAccountEvents Green.walletExternals ownerTx = Account.scanAccountEvents halfExternals ownerTx := by
    have same : Green.walletExternals.accountState = halfExternals.accountState := Eq.trans (b := Green.walletDatums.accountState) rfl rfl
    unfold Account.scanAccountEvents AlephAccountUtxo.tryParse
    rw [same]
  have opened : ExecRun halfExternals (halfTxs abi) ownerIndex [ownerTx] := by
    unfold ownerIndex
    rw [scanned]
    exact .bind (.apply (.fresh none .nil) ⟨rfl,by decide,by decide,by decide,by decide⟩) _ _
  have planned : ExecRun halfExternals (halfTxs abi) halfPlanned [ownerTx] := by
    have some_plan : halfAuthorised.isSome = true := by decide
    obtain ⟨⟨root,auth,next⟩,authorised⟩ := Option.isSome_iff_exists.mp some_plan
    have same : halfPlanned = next := by
      unfold halfPlanned
      rw [authorised]
      rfl
    rw [same]
    exact .exec opened (ownerOrder 10) Green.walletUtxo authorised
  refine .apply planned ?_
  cases abi <;> exact ⟨rfl,by decide,by decide,by decide,by decide⟩

theorem half_continued (abi : AlephAccountAbi) : ∃ orders, pendingContinuations halfExternals (halfIndex abi) = .ok orders := by
  have some_orders : (pendingContinuations halfExternals (halfIndex abi)).toOption.isSome = true := by cases abi <;> decide +kernel
  obtain ⟨orders,found⟩ := Option.isSome_iff_exists.mp some_orders
  exact ⟨orders,toOption_some.mp found⟩

theorem half_emitted (abi : AlephAccountAbi) : ∃ bundled, Emitted halfExternals (halfIndex abi) ⟨Mpf.digestOf 1⟩ halfKey halfLeaf bundled ∧
    bundled.entity.intention = (continuation (ownerOrder 10).id ⟨Mpf.digestOf 1⟩ [] Green.halfIntent).intention ∧
    halfExternals.accountState bundled.bearer.output = some (halfState abi) := by
  have stored : ((halfIndex abi).byAccountId.lookup ⟨Mpf.digestOf 1⟩).map
      (fun account => (account.store,halfExternals.accountState account.utxo.output)) = some (halfStore,some (halfState abi)) := by
    cases abi <;> decide +kernel
  obtain ⟨account,bound,same⟩ := Option.map_eq_some_iff.mp stored
  obtain ⟨store,state⟩ := Prod.mk.inj same
  have pending : (halfKey,halfLeaf) ∈ halfStore.pendingLeaves := by
    refine Account.mem_pendingLeaves.mpr ⟨?_,rfl⟩
    decide +kernel
  have some_proof : (halfStore.pathProof halfExternals halfKey).toOption.isSome = true := by decide +kernel
  obtain ⟨proof,proved⟩ := Option.isSome_iff_exists.mp some_proof
  rw [← store] at pending proved
  exact ⟨_,.leaf bound pending (toOption_some.mp proved),rfl,state⟩

theorem continuation_runs_half : ∃ bundled, Emitted halfExternals (halfIndex .current) ⟨Mpf.digestOf 1⟩ halfKey halfLeaf bundled ∧
    ContinuationRuns halfExternals (halfIndex .current) halfKey halfLeaf bundled (halfState .current) := by
  obtain ⟨orders,continued⟩ := half_continued .current
  obtain ⟨bundled,emitted,_,parsed⟩ := half_emitted .current
  obtain ⟨_,state,parsed',runs⟩ := (continuations_executable_iff (half_run .current) continued).2 _ _ _ _ emitted
  cases parsed.symm.trans parsed'
  exact ⟨bundled,emitted,runs.mpr rfl⟩

-- The transaction is the owner's, and its datum is of the old ABI.
theorem continuation_stuck : ExecRun halfExternals (halfTxs .legacy) (halfIndex .legacy) [halfTx .legacy,ownerTx] ∧
    ∃ orders bundled, pendingContinuations halfExternals (halfIndex .legacy) = .ok orders ∧ bundled ∈ orders ∧
      Emitted halfExternals (halfIndex .legacy) ⟨Mpf.digestOf 1⟩ halfKey halfLeaf bundled ∧
      halfExternals.accountState bundled.bearer.output = some (halfState .legacy) ∧
      ¬ContinuationRuns halfExternals (halfIndex .legacy) halfKey halfLeaf bundled (halfState .legacy) := by
  obtain ⟨orders,continued⟩ := half_continued .legacy
  obtain ⟨bundled,emitted,intention,parsed⟩ := half_emitted .legacy
  refine ⟨half_run .legacy,orders,bundled,continued,(Green.mem_pendingContinuations continued).mpr ⟨_,_,_,emitted⟩,emitted,parsed,?_⟩
  intro runs
  have key := runs.key
  unfold execIntention GreenOrder.alephIntention at key
  rw [intention] at key
  exact absurd key (by decide)

end Sample
end GreenAgent.Tx
