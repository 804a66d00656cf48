import GreenAgent.Account.Batch
import GreenAgent.Account.Intact

namespace GreenAgent.Account
open Mpf (Bytes Digest bind_ok)

-- The store calls as the source writes them, on a store that is changed in
-- place: what was written before an error stays written.
abbrev StoreM := EStateM Failure AccountStore

namespace StoreM
variable {O : Type} (ext : Externals O)

def insertRemaining (key : Bytes) (canonicalOrderId : GreenOrderId) (intent : AlephIntention) : StoreM MpfDelta := do
  let store ← get
  if store.leaves.contains key then throw (.error .existingPendingIntent)
  else
    let oldRoot := store.root
    let digest := intent.digest ext
    let trie := trieFromLeaves store.leaves
    let proof ← MonadExcept.ofExcept (fromFault (trie.proofForMissing ext.blake2b256 key))
    let newRoot ← MonadExcept.ofExcept (unsupported (Mpf.insert ext.blake2b256 oldRoot key digest.bytes proof))
    modify (fun store => {store with leaves:=store.leaves.insert key ⟨canonicalOrderId,intent,digest,.pending⟩})
    modify (fun store => {store with root:=newRoot})
    return ⟨oldRoot,newRoot,ext.proofToCbor proof⟩

def updateRemaining (key : Bytes) (oldDigest : Digest) (newIntent : AlephIntention) : StoreM MpfDelta := do
  let store ← get
  let oldRoot := store.root
  let trie := trieFromLeaves store.leaves
  let proof ← MonadExcept.ofExcept (fromFault (trie.proofForPresent ext.blake2b256 key))
  let leaf ← MonadExcept.ofExcept (store.pendingLeafWith key oldDigest)
  let newDigest := newIntent.digest ext
  let newRoot ← MonadExcept.ofExcept (unsupported (Mpf.update ext.blake2b256 oldRoot key proof oldDigest.bytes newDigest.bytes))
  modify (fun store => {store with leaves:=store.leaves.insert key {leaf with intent:=newIntent,digest:=newDigest}})
  modify (fun store => {store with root:=newRoot})
  return ⟨oldRoot,(← get).root,ext.proofToCbor proof⟩

def markCompleted (key : Bytes) (oldDigest : Digest) : StoreM MpfCompletion := do
  let store ← get
  let trie := trieFromLeaves store.leaves
  let proof ← MonadExcept.ofExcept (fromFault (trie.proofForPresent ext.blake2b256 key))
  let leaf ← MonadExcept.ofExcept (store.pendingLeafWith key oldDigest)
  if !Mpf.has ext.blake2b256 store.root key oldDigest.bytes proof then
    let expected ← MonadExcept.ofExcept (fromFault (trie.root ext.blake2b256))
    throw (.error (.rootMismatch expected store.root))
  else
    modify (fun store => {store with leaves:=store.leaves.insert key {leaf with status:=.completed}})
    return ⟨(← get).root,ext.proofToCbor proof⟩

end StoreM

-- What a call that works on a copy says about the call in place.
def AccountStore.written (store : AccountStore) : Except Failure (AccountStore × α) → EStateM.Result Failure AccountStore α
  | .ok (after,reply) => .ok reply after
  | .error fault => .error fault store

section
variable {O : Type} {ext : Externals O} {store : AccountStore}

theorem run_bind {f : α → StoreM β} {g : α → Except Failure (AccountStore × β)} (x : Except Failure α)
    (same : ∀ value, (f value).run store = store.written (g value)) :
    (MonadExcept.ofExcept x >>= f).run store = store.written (x >>= g) := by
  cases x with
  | error fault => rfl
  | ok value => exact same value

theorem insertRemaining_run (key : Bytes) (orderId : GreenOrderId) (intent : AlephIntention) :
    (StoreM.insertRemaining ext key orderId intent).run store = store.written (store.insertRemaining ext key orderId intent) := by
  unfold StoreM.insertRemaining AccountStore.insertRemaining
  change EStateM.run (if store.leaves.contains key then _ else _) store = _
  split
  · rfl
  · exact run_bind _ (fun _ => run_bind _ (fun _ => rfl))

theorem updateRemaining_run (key : Bytes) (oldDigest : Digest) (intent : AlephIntention) :
    (StoreM.updateRemaining ext key oldDigest intent).run store = store.written (store.updateRemaining ext key oldDigest intent) :=
  run_bind _ (fun _ => run_bind _ (fun _ => run_bind _ (fun _ => rfl)))

theorem markCompleted_run (key : Bytes) (oldDigest : Digest) :
    (StoreM.markCompleted ext key oldDigest).run store = store.written (store.markCompleted ext key oldDigest) := by
  unfold StoreM.markCompleted AccountStore.markCompleted
  refine run_bind _ (fun _ => run_bind _ (fun _ => ?_))
  split
  · exact run_bind _ (fun _ => rfl)
  · rfl

theorem written_ok {x : Except Failure (AccountStore × α)} (done : store.written x = .ok reply after) : x = .ok (after,reply) := by
  cases x with
  | error fault => cases done
  | ok result =>
    cases done
    rfl

theorem written_error {x : Except Failure (AccountStore × α)} (refused : store.written x = .error fault after) : after = store := by
  cases x with
  | error fault =>
    cases refused
    rfl
  | ok result => cases refused

end

-- A call with any arguments: what it answers, and the store it leaves.
def PlanCall.perform (ext : Externals O) : PlanCall → StoreM (MpfDelta ⊕ MpfCompletion)
  | .sigInsert orderId key intent => .inl <$> StoreM.insertRemaining ext key orderId intent
  | .pathUpdate key oldDigest intent => .inl <$> StoreM.updateRemaining ext key oldDigest intent
  | .pathCompletion key oldDigest => .inr <$> StoreM.markCompleted ext key oldDigest

-- The stores that calls make out of the empty one. `hashed` are the strings
-- that the calls which return hash.
inductive Built (ext : Externals O) (hashed : Set Bytes) : AccountStore → Prop where
  | empty : Built ext hashed .empty
  | returned (prior : Built ext hashed store) (call : PlanCall) (inside : ∀ s ∈ call.strings ext store, s ∈ hashed)
      (done : (call.perform ext).run store = .ok reply after) : Built ext hashed after
  | refused (prior : Built ext hashed store) (call : PlanCall) (failed : (call.perform ext).run store = .error fault after) :
      Built ext hashed after

-- Every leaf has the digest of the intent it stores.
def AccountStore.Digested (ext : Externals O) (store : AccountStore) : Prop :=
  ∀ (key : Bytes) (leaf : StoredIntentLeaf), store.leaves[key]? = some leaf → leaf.digest = leaf.intent.digest ext

section
variable {O : Type} {ext : Externals O} {store p : AccountStore}

theorem map_run_ok {x : StoreM α} {f : α → β} (done : (f <$> x).run store = .ok reply after) :
    ∃ answer, x.run store = .ok answer after ∧ f answer = reply := by
  change EStateM.map f x store = _ at done
  unfold EStateM.map at done
  split at done
  · rename_i answer middle ran
    cases done
    exact ⟨answer,ran,rfl⟩
  · cases done

theorem map_run_error {x : StoreM α} {f : α → β} (failed : (f <$> x).run store = .error fault after) :
    x.run store = .error fault after := by
  change EStateM.map f x store = _ at failed
  unfold EStateM.map at failed
  split at failed
  · cases failed
  · rename_i ran
    cases failed
    exact ran

theorem map_run {x : StoreM α} (f : α → β) (ran : x.run store = .ok answer after) : (f <$> x).run store = .ok (f answer) after := by
  change EStateM.map f x store = _
  unfold EStateM.map
  change x store = _ at ran
  rw [ran]

theorem perform_iff {call : PlanCall} : (∃ reply, (call.perform ext).run store = .ok reply after) ↔ call.predict ext store = .ok after := by
  constructor
  · rintro ⟨reply,done⟩
    cases call with
    | sigInsert orderId key intent =>
      obtain ⟨delta,ran,_⟩ := map_run_ok done
      exact map_ok.mpr ⟨_,written_ok ((insertRemaining_run key orderId intent).symm.trans ran),rfl⟩
    | pathUpdate key oldDigest intent =>
      obtain ⟨delta,ran,_⟩ := map_run_ok done
      exact map_ok.mpr ⟨_,written_ok ((updateRemaining_run key oldDigest intent).symm.trans ran),rfl⟩
    | pathCompletion key oldDigest =>
      obtain ⟨completion,ran,_⟩ := map_run_ok done
      exact map_ok.mpr ⟨_,written_ok ((markCompleted_run key oldDigest).symm.trans ran),rfl⟩
  · intro predicted
    cases call with
    | sigInsert orderId key intent =>
      obtain ⟨⟨_,delta⟩,changed,rfl⟩ := map_ok.mp predicted
      exact ⟨_,map_run Sum.inl ((insertRemaining_run key orderId intent).trans (by rw [changed]; rfl))⟩
    | pathUpdate key oldDigest intent =>
      obtain ⟨⟨_,delta⟩,changed,rfl⟩ := map_ok.mp predicted
      exact ⟨_,map_run Sum.inl ((updateRemaining_run key oldDigest intent).trans (by rw [changed]; rfl))⟩
    | pathCompletion key oldDigest =>
      obtain ⟨⟨_,completion⟩,changed,rfl⟩ := map_ok.mp predicted
      exact ⟨_,map_run Sum.inr ((markCompleted_run key oldDigest).trans (by rw [changed]; rfl))⟩

theorem perform_error {call : PlanCall} (failed : (call.perform ext).run store = .error fault after) : after = store := by
  cases call with
  | sigInsert orderId key intent => exact written_error ((insertRemaining_run key orderId intent).symm.trans (map_run_error failed))
  | pathUpdate key oldDigest intent => exact written_error ((updateRemaining_run key oldDigest intent).symm.trans (map_run_error failed))
  | pathCompletion key oldDigest => exact written_error ((markCompleted_run key oldDigest).symm.trans (map_run_error failed))

theorem Digested.insert (digested : store.Digested ext) (own : leaf.digest = leaf.intent.digest ext) (root : Digest) (key : Bytes) :
    AccountStore.Digested ext ⟨root,store.leaves.insert key leaf⟩ := by
  intro k other found
  rw [Std.ExtTreeMap.getElem?_insert] at found
  split at found
  · cases found
    exact own
  · exact digested k other found

theorem predict_digested {call : PlanCall} (digested : store.Digested ext) (predicted : call.predict ext store = .ok p) : p.Digested ext := by
  cases call with
  | sigInsert orderId key intent =>
    obtain ⟨⟨_,_⟩,changed,rfl⟩ := map_ok.mp predicted
    unfold AccountStore.insertRemaining at changed
    split at changed
    · cases changed
    · obtain ⟨proof,_,changed⟩ := bind_ok.mp changed
      obtain ⟨root,_,changed⟩ := bind_ok.mp changed
      cases changed
      exact Digested.insert digested rfl _ _
  | pathUpdate key oldDigest intent =>
    obtain ⟨⟨_,_⟩,changed,rfl⟩ := map_ok.mp predicted
    obtain ⟨proof,_,changed⟩ := bind_ok.mp changed
    obtain ⟨leaf,_,changed⟩ := bind_ok.mp changed
    obtain ⟨root,_,changed⟩ := bind_ok.mp changed
    cases changed
    exact Digested.insert digested rfl _ _
  | pathCompletion key oldDigest =>
    obtain ⟨⟨_,_⟩,changed,rfl⟩ := map_ok.mp predicted
    obtain ⟨proof,_,changed⟩ := bind_ok.mp changed
    obtain ⟨leaf,found,changed⟩ := bind_ok.mp changed
    split at changed
    · obtain ⟨_,_,impossible⟩ := bind_ok.mp changed
      cases impossible
    · cases changed
      refine Digested.insert digested ?_ _ _
      exact digested key leaf (pendingLeafWith_ok found).1

theorem Built.integral (free : Set.InjOn ext.blake2b256 hashed) (built : Built ext hashed store) : store.Intact ext ∧ store.Digested ext := by
  induction built with
  | empty => exact ⟨empty_intact,fun key leaf found => by simp [AccountStore.empty] at found⟩
  | returned _ call inside done ih =>
    have predicted := perform_iff.mp ⟨_,done⟩
    exact ⟨predict_intact (fun x hx y hy same => free (inside x hx) (inside y hy) same) ih.1 predicted,predict_digested ih.2 predicted⟩
  | refused _ call failed ih =>
    rw [perform_error failed]
    exact ih

theorem insertRemaining_oldRoot (changed : AccountStore.insertRemaining ext store key orderId intent = .ok (p,delta)) :
    delta.oldRoot = store.root := by
  unfold AccountStore.insertRemaining at changed
  split at changed
  · cases changed
  · obtain ⟨proof,_,changed⟩ := bind_ok.mp changed
    obtain ⟨root,_,changed⟩ := bind_ok.mp changed
    cases changed
    rfl

theorem updateRemaining_oldRoot (changed : AccountStore.updateRemaining ext store key oldDigest intent = .ok (p,delta)) :
    delta.oldRoot = store.root := by
  obtain ⟨proof,_,changed⟩ := bind_ok.mp changed
  obtain ⟨leaf,_,changed⟩ := bind_ok.mp changed
  obtain ⟨root,_,changed⟩ := bind_ok.mp changed
  cases changed
  rfl

-- The roots a call answers with are those before and after it.
def Spans (before after : AccountStore) : MpfDelta ⊕ MpfCompletion → Prop
  | .inl delta => delta.oldRoot = before.root ∧ delta.newRoot = after.root
  | .inr completion => completion.root = before.root ∧ before.root = after.root

theorem perform_spans {call : PlanCall} (done : (call.perform ext).run store = .ok reply after) : Spans store after reply := by
  cases call with
  | sigInsert orderId key intent =>
    obtain ⟨delta,ran,rfl⟩ := map_run_ok done
    have changed := written_ok ((insertRemaining_run key orderId intent).symm.trans ran)
    exact ⟨insertRemaining_oldRoot changed,insertRemaining_root changed⟩
  | pathUpdate key oldDigest intent =>
    obtain ⟨delta,ran,rfl⟩ := map_run_ok done
    have changed := written_ok ((updateRemaining_run key oldDigest intent).symm.trans ran)
    exact ⟨updateRemaining_oldRoot changed,updateRemaining_root changed⟩
  | pathCompletion key oldDigest =>
    obtain ⟨completion,ran,rfl⟩ := map_run_ok done
    have changed := written_ok ((markCompleted_run key oldDigest).symm.trans ran)
    obtain ⟨proof,_,changed⟩ := bind_ok.mp changed
    obtain ⟨leaf,_,changed⟩ := bind_ok.mp changed
    split at changed
    · obtain ⟨_,_,impossible⟩ := bind_ok.mp changed
      cases impossible
    · cases changed
      exact ⟨rfl,rfl⟩

theorem store_integrity (free : Set.InjOn ext.blake2b256 hashed) (built : Built ext hashed store) :
    (trieFromLeaves store.leaves).root ext.blake2b256 = .ok store.root ∧
      (∀ (key : Bytes) (leaf : StoredIntentLeaf), store.leaves[key]? = some leaf → leaf.digest = leaf.intent.digest ext) ∧
      (∀ (call : PlanCall) fault after, (call.perform ext).run store = .error fault after → after = store) ∧
      (∀ (call : PlanCall) reply after, (call.perform ext).run store = .ok reply after → Spans store after reply) ∧
      AccountStore.fromSnapshot ext store.root store.snapshotLeaves = .ok store := by
  obtain ⟨intact,digested⟩ := built.integral free
  exact ⟨intact,digested,fun _ _ _ failed => perform_error failed,fun _ _ _ done => perform_spans done,fromSnapshot_snapshotLeaves intact⟩

end

theorem sampleStore_predicted (done : ((samplePlan key leaving).predict sampleExternals .empty).toOption.isSome) :
    (samplePlan key leaving).predict sampleExternals .empty = .ok (sampleStore key leaving) := by
  unfold sampleStore
  cases predicted : (samplePlan key leaving).predict sampleExternals .empty with
  | error fault => tauto
  | ok after => rfl

-- The store of the sample account after its first partial fill.
theorem store_integrity_filled : ∃ hashed, Set.InjOn sampleExternals.blake2b256 hashed ∧ Built sampleExternals hashed (sampleStore 1 10) ∧
    AccountStore.fromSnapshot sampleExternals (sampleStore 1 10).root (sampleStore 1 10).snapshotLeaves = .ok (sampleStore 1 10) := by
  have free : Set.InjOn sampleExternals.blake2b256 {s | s ∈ (samplePlan 1 10).strings sampleExternals .empty} :=
    Mpf.recorded_collisionless (by decide +kernel)
  have predicted : (samplePlan 1 10).predict sampleExternals .empty = .ok (sampleStore 1 10) := sampleStore_predicted (by decide +kernel)
  obtain ⟨reply,done⟩ := perform_iff.mpr predicted
  have built := Built.empty.returned (samplePlan 1 10) (fun _ => id) done
  exact ⟨_,free,built,(store_integrity free built).2.2.2.2⟩

end GreenAgent.Account
