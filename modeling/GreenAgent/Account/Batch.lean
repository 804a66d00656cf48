import GreenAgent.Account.Plans
import GreenAgent.Account.Matching
import GreenAgent.Account.Identity

namespace GreenAgent.Account
open Mpf (Bytes Digest emptyRoot digestOf)

-- One account of a batch: the output that is spent, the store it is to have
-- afterwards, and the output that takes its place.
structure BatchItem (O : Type) where
  account : AccountId
  reference : OutputRef
  store : AccountStore
  successor : AlephAccountUtxo O

-- The executor fills the orders of a batch one by one. A Sig full fill leaves
-- the store root alone; every other fill goes through a planner, and the root
-- it returns is written into the next datum.
inductive Fills (ext : Externals O) : AccountIndex O → List (BatchItem O) → AccountIndex O → Prop where
  | nil : Fills ext index [] index
  | full (bound : index.byAccountId.lookup item.account = some i) (here : i.utxo.reference = item.reference)
      (same : item.store = i.store) (state : ext.accountState i.utxo.output = some old)
      (root : item.successor.state.storeRoot = old.storeRoot) (rest : Fills ext index items final) :
      Fills ext index (item :: items) final
  | plan (bound : index.byAccountId.lookup item.account = some i) (here : i.utxo.reference = item.reference) (call : PlanCall)
      (planned : call.run ext index item.account item.reference = .ok (next,root,n))
      (store : next.pendingStoreBySnapshotId.lookup n = some (item.account,item.reference,item.store))
      (written : item.successor.state.storeRoot = root) (rest : Fills ext next items final) :
      Fills ext index (item :: items) final

section
variable {O : Type} {ext : Externals O} {txs : Digest → TxView O} {index final : AccountIndex O} {items : List (BatchItem O)}

theorem Fills.reached (fills : Fills ext index items final) (reached : Reached ext txs index chain) : Reached ext txs final chain := by
  induction fills with
  | nil => exact reached
  | full _ _ _ _ _ _ ih => exact ih reached
  | plan _ _ call planned _ _ _ ih => exact ih (.plan reached call planned)

-- Where an account of the batch stands when the transaction is observed: still
-- bound at its output, or taken by its plan.
@[grind cases eager] structure Stands (v : View O) (item : BatchItem O) : Prop where
  root : item.successor.state.storeRoot = item.store.root
  place : (∃ i, v.bound item.account = some i ∧ i.utxo.reference = item.reference) ∨ v.bound item.account = none

theorem plan_stored {v : View O} (found : (v.plan a r p).snapshots v.next = some (b,r',s)) : s = p := by
  have entry := (View.plan_snapshots ..).mp found
  rw [if_pos rfl] at entry
  cases entry
  rfl

theorem Fills.bound_kept (fills : Fills ext index items final) (reached : Reached ext txs index chain)
    (apart : ∀ item ∈ items, item.account ≠ a) : final.view.bound a = index.view.bound a := by
  induction fills with
  | nil => rfl
  | full _ _ _ _ _ _ ih => exact ih reached (fun item member => apart item (List.mem_cons_of_mem _ member))
  | plan _ _ call planned _ _ _ ih =>
    obtain ⟨base,p,done,_⟩ := call.run_ok planned
    rw [ih (.plan reached call planned) (fun item member => apart item (List.mem_cons_of_mem _ member)),done.view.1,
      View.plan_bound,if_neg (apart _ List.mem_cons_self).symm]

theorem Fills.stands (fills : Fills ext index items final) (reached : Reached ext txs index chain)
    (distinct : (items.map BatchItem.account).Nodup) (member : item ∈ items) : Stands final.view item := by
  induction fills with
  | nil => cases member
  | full bound here same state root rest ih =>
    rw [List.map_cons,List.nodup_cons] at distinct
    rcases List.mem_cons.mp member with rfl | later
    · obtain ⟨_,state',parsed,carried⟩ := reached.sound.2.bound_carries bound
      cases state.symm.trans parsed
      refine ⟨by rw [root,carried,same],.inl ⟨_,?_,here⟩⟩
      rw [rest.bound_kept reached (fun other inside same => distinct.1 (List.mem_map.mpr ⟨other,inside,same⟩))]
      exact bound
    · exact ih reached distinct.2 later
  | plan bound here call planned store written rest ih =>
    rw [List.map_cons,List.nodup_cons] at distinct
    rcases List.mem_cons.mp member with rfl | later
    · obtain ⟨base,p,done,root_eq⟩ := call.run_ok planned
      have found : (AccountIndex.view _).snapshots _ = some _ := store
      rw [done.view.1,done.view.2] at found
      refine ⟨by rw [written,root_eq,plan_stored found],.inr ?_⟩
      rw [rest.bound_kept (.plan reached call planned)
        (fun other inside same => distinct.1 (List.mem_map.mpr ⟨other,inside,same⟩)),done.view.1,View.plan_bound,if_pos rfl]
    · exact ih (.plan reached call planned) distinct.2 later

-- Every account of the batch is at its own successor with the store meant for it.
def Followed (ext : Externals O) (index : AccountIndex O) (tx : TxView O) (items : List (BatchItem O)) : Prop :=
  ∀ item ∈ items, (applyAccountEvents index (scanAccountEvents ext tx)).byAccountId.lookup item.account =
    some ⟨item.successor.finalizedOutput,item.store⟩

-- What the index must hold for one account of the batch when the transaction
-- is observed.
def Expected (v : View O) (spent : List OutputRef) (item : BatchItem O) : Prop :=
  v.Agrees spent item.store.root item.account item.store ∨ (item.store = .empty ∧ v.SoleSpent spent item.account)

-- The situation in which a batch transaction is observed.
@[grind cases eager] structure Awaits (v : View O) (spent : List OutputRef) (accounts : List (AlephAccountUtxo O)) (items : List (BatchItem O)) : Prop where
  rooted : ∀ {root a s}, v.Offers spent root a s → root ≠ emptyRoot
  stands : ∀ item ∈ items, Stands v item
  distinct : (items.map BatchItem.account).Nodup
  produces : accounts.Perm (items.map BatchItem.successor)
  apart : (accounts.map AlephAccountUtxo.outputRef).Nodup
  fresh : ∀ u ∈ accounts, v.persisted u.outputRef = none

theorem Awaits.successor_of {v : View O} (awaits : Awaits v spent accounts items) (member : u ∈ accounts) : ∃ item ∈ items, item.successor = u :=
  List.mem_map.mp (awaits.produces.mem_iff.mp member)

theorem Awaits.same_item {v : View O} (awaits : Awaits v spent accounts items) (one : item ∈ items) (two : item' ∈ items)
    (same : item'.account = item.account) : item' = item :=
  List.inj_on_of_nodup_map awaits.distinct two one same

theorem Awaits.own_claim {v : View O} (awaits : Awaits v spent accounts items) (expected : ∀ item ∈ items, Expected v spent item)
    (member : item ∈ items) (claim : View.Claim v spent earlier held item.successor b t) : b = item.account := by
  have root := (awaits.stands item member).root
  cases claim with
  | confirmed here =>
    have agrees := here.agrees
    rw [root] at agrees
    rcases expected item member with own | ⟨empty,_⟩
    · exact (own.unique agrees).1
    · exact absurd (by rw [empty]; rfl) (awaits.rooted agrees.1)
  | empty _ sole none _ =>
    rcases expected item member with own | ⟨_,alone⟩
    · exact absurd (root.symm.trans none) (awaits.rooted own.1)
    · obtain ⟨⟨r,inside,owner⟩,_⟩ := sole
      exact alone.2 r inside b owner
  | resumed _ _ found _ => grind

theorem Awaits.follows {v : View O} (awaits : Awaits v spent accounts items) (expected : ∀ item ∈ items, Expected v spent item)
    (member : item ∈ items) : v.Ends spent accounts.reverse item.account item.successor item.store := by
  have inside := awaits.produces.mem_iff.mpr (List.mem_map.mpr ⟨item,member,rfl⟩)
  have root := (awaits.stands item member).root
  obtain ⟨later,earlier,split⟩ := List.append_of_mem (List.mem_reverse.mpr inside)
  have nodup : (later ++ item.successor :: earlier).Nodup := by
    rw [← split,List.nodup_reverse]
    exact List.Nodup.of_map _ awaits.apart
  -- every other output is the successor of another account
  have other : ∀ e ∈ later ++ earlier, ∃ item' ∈ items, item'.successor = e ∧ item' ≠ item := by
    intro e listed
    have somewhere : e ∈ accounts.reverse := by grind
    grind
  have passed : ∀ e ∈ later ++ earlier, ∀ E held t, ¬View.Claim v spent E held e item.account t := by
    intro e listed E held t claim
    obtain ⟨item',member',rfl,differ⟩ := other e listed
    exact differ (awaits.same_item member member' (awaits.own_claim expected member' claim).symm)
  rw [split]
  refine View.Claim.ends ?_ (fun e listed => passed e (List.mem_append_left _ listed))
  rcases expected item member with agrees | ⟨empty,sole⟩
  · refine .confirmed ⟨root ▸ agrees,?_⟩
    intro e listed same
    obtain ⟨item',member',rfl,differ⟩ := other e (List.mem_append_right _ listed)
    have root' := (awaits.stands item' member').root
    rw [root,root'] at same
    rcases expected item' member' with agrees' | ⟨empty',_⟩
    · rw [same] at agrees'
      exact differ (awaits.same_item member member' (agrees.unique agrees').1)
    · exact awaits.rooted agrees.1 (by rw [← same,empty']; rfl)
  · have none : item.successor.state.storeRoot = emptyRoot := by rw [root,empty]; rfl
    rw [empty]
    refine .empty (fun b t here => awaits.rooted here.agrees.1 none) sole none ?_
    intro held
    obtain ⟨e,listed,E,t,claim⟩ := held.claim
    grind

theorem batch_followed_iff (nonzero : ∀ s, ext.blake2b256 s ≠ emptyRoot) (reached : Reached ext txs index chain)
    (distinct : (items.map BatchItem.account).Nodup) (fills : Fills ext index items final) (fits : Fits txs chain tx)
    (spends : ∀ item ∈ items, item.reference ∈ tx.inputs)
    (produces : (tx.accounts ext).Perm (items.map BatchItem.successor))
    (fresh : ∀ r ∈ tx.refs, final.persistedByOutputRef.lookup r = none) :
    Followed ext final tx items ↔ ∀ item ∈ items, Expected final.view tx.inputs item := by
  have planned := fills.reached reached
  have progress := apply_progress ext planned.sound.1 fits
  have awaits : Awaits final.view tx.inputs (tx.accounts ext) items := {
    rooted := fun ⟨n,_,found,_,same⟩ => same ▸ (planned.rooted nonzero).pending n _ found
    stands := fun item member => fills.stands reached distinct member
    distinct := distinct
    produces := produces
    apart := accounts_nodup fits.refs_nodup
    fresh := fun u member => fresh _ (mem_accounts member).1 }
  constructor
  · intro followed item member
    have inside := produces.mem_iff.mpr (List.mem_map.mpr ⟨item,member,rfl⟩)
    have stands := awaits.stands item member
    have bound : (applyAccountEvents final (scanAccountEvents ext tx)).view.bound item.account =
        some ⟨item.successor.finalizedOutput,item.store⟩ := followed item member
    rcases progress.bound item.account with ⟨u,s,ends,at_u⟩ | ⟨_,still⟩
    · have same := Option.some.inj (at_u.symm.trans bound)
      have here := List.inj_on_of_nodup_map awaits.apart (List.mem_reverse.mp ends.mem) inside
        (congrArg (fun i : IndexedAccount O => i.utxo.reference) same)
      have stored : s = item.store := congrArg IndexedAccount.store same
      subst here
      obtain ⟨_,_,_,claim⟩ := ends.claim
      cases claim with
      | confirmed confirmed => exact .inl (stands.root ▸ stored ▸ confirmed.agrees)
      | empty _ sole _ _ => exact .inr ⟨stored.symm,sole⟩
      | resumed _ _ found _ => cases (awaits.fresh _ inside).symm.trans found
    · rw [still,View.consumes_bound] at bound
      split at bound
      · cases bound
      · rcases stands.place with ⟨i,before,at_ref⟩ | gone
        · have same := Option.some.inj (before.symm.trans bound)
          have unmoved : item.successor.outputRef = item.reference := by rw [← at_ref,same]; rfl
          exact absurd (unmoved ▸ (mem_accounts inside).1) (input_not_ref fits (spends item member))
        · cases gone.symm.trans bound
  · intro expected item member
    have ends := awaits.follows expected member
    rcases progress.bound item.account with ⟨u,s,ends',at_u⟩ | ⟨free,_⟩
    · obtain ⟨rfl,rfl⟩ := ends.unique ends'
      exact at_u
    · exact absurd ends.held free

end

def sampleIntent (leaving : UInt64) : AlephIntention :=
  ⟨.current,0,1,.native,leaving,.token ⟨.filled 1,[0x41]⟩,20,2,.filled 0⟩

def samplePlan (key : UInt8) (leaving : UInt64) : PlanCall :=
  .sigInsert ⟨sampleAccount 1,0,1,digestOf 10⟩ [key] (sampleIntent leaving)

-- The store after the first partial fill of an account whose store was empty.
def sampleStore (key : UInt8) (leaving : UInt64) : AccountStore :=
  (((samplePlan key leaving).predict sampleExternals .empty).toOption).getD .empty

def samplePlanned (index : AccountIndex AlephAccountState) (key : UInt8) (leaving : UInt64) :
    AccountIndex AlephAccountState × Digest × Nat :=
  (((samplePlan key leaving).run sampleExternals index (sampleAccount 1) ⟨digestOf 1,0⟩).toOption).getD (index,emptyRoot,0)

theorem samplePlanned_run (done : (((samplePlan key leaving).run sampleExternals index (sampleAccount 1) ⟨digestOf 1,0⟩).toOption).isSome) :
    (samplePlan key leaving).run sampleExternals index (sampleAccount 1) ⟨digestOf 1,0⟩ = .ok (samplePlanned index key leaving) := by
  unfold samplePlanned
  cases ran : (samplePlan key leaving).run sampleExternals index (sampleAccount 1) ⟨digestOf 1,0⟩ with
  | error e => rw [ran] at done; cases done
  | ok result => rfl

def plannedTx (key : UInt8) (leaving : UInt64) : TxView AlephAccountState :=
  ⟨digestOf (4+leaving.toNat),[⟨digestOf 1,0⟩],[(0,sampleState 1 1 (sampleStore key leaving).root)]⟩

def plannedItem (key : UInt8) (leaving : UInt64) : BatchItem AlephAccountState :=
  ⟨sampleAccount 1,⟨digestOf 1,0⟩,sampleStore key leaving,
    ⟨⟨digestOf (4+leaving.toNat),0⟩,sampleState 1 1 (sampleStore key leaving).root,
      sampleState 1 1 (sampleStore key leaving).root⟩⟩

theorem sample_nonzero (s : Bytes) : sampleExternals.blake2b256 s ≠ emptyRoot := Mpf.blake2b256_ne_empty s

theorem planned_fits : Fits (sampleTxs [openingTx,plannedTx 1 10]) [openingTx] (plannedTx 1 10) :=
  ⟨by decide +kernel,by decide,by decide,by decide,by decide⟩

theorem batch_followed_planned : Followed sampleExternals (samplePlanned registeredIndex 1 10).1 (plannedTx 1 10) [plannedItem 1 10] := by
  have fills : Fills sampleExternals registeredIndex [plannedItem 1 10] (samplePlanned registeredIndex 1 10).1 :=
    .plan (i := ⟨⟨sampleState 1 0 emptyRoot,⟨digestOf 1,0⟩⟩,.empty⟩) (by decide) (by decide) (samplePlan 1 10)
      (samplePlanned_run (by decide +kernel)) (by decide +kernel) (by decide +kernel) .nil
  refine (batch_followed_iff sample_nonzero (registered_reached _) (by decide) fills planned_fits (by decide)
    (List.Perm.of_eq (by decide +kernel)) (by decide +kernel)).mpr ?_
  intro item member
  obtain rfl := List.mem_singleton.mp member
  refine .inl ⟨⟨0,⟨digestOf 1,0⟩,by decide +kernel,by decide +kernel,rfl⟩,?_⟩
  rintro a s ⟨n,r,found,_,_⟩
  have only : (samplePlanned registeredIndex 1 10).1.pendingStoreBySnapshotId.entries.all
      (fun e => decide (e.2.1 = sampleAccount 1 ∧ e.2.2.2 = sampleStore 1 10)) = true := by decide +kernel
  exact of_decide_eq_true (List.all_eq_true.mp only _ (HashMap.mem_entries.mpr found))

-- Both accounts are registered.
def bothIndex : AccountIndex AlephAccountState := (registeredIndex.bindExternalAccountIdOnce (sampleAccount 2) ⟨digestOf 1,1⟩).1

def fullFills : List (BatchItem AlephAccountState) := [
  ⟨sampleAccount 1,⟨digestOf 1,0⟩,.empty,⟨⟨digestOf 2,1⟩,sampleState 1 1 emptyRoot,sampleState 1 1 emptyRoot⟩⟩,
  ⟨sampleAccount 2,⟨digestOf 1,1⟩,.empty,⟨⟨digestOf 2,0⟩,sampleState 2 1 emptyRoot,sampleState 2 1 emptyRoot⟩⟩]

-- Two Sig full fills in one transaction leave both accounts unbound.
theorem full_fills_lost : Reached sampleExternals (sampleTxs [openingTx,swappedTx]) bothIndex [openingTx] ∧
    (fullFills.map BatchItem.account).Nodup ∧ Fills sampleExternals bothIndex fullFills bothIndex ∧
    Fits (sampleTxs [openingTx,swappedTx]) [openingTx] swappedTx ∧ swappedTx.inputs = fullFills.map BatchItem.reference ∧
    (swappedTx.accounts sampleExternals).Perm (fullFills.map BatchItem.successor) ∧
    (∀ r ∈ swappedTx.refs, bothIndex.persistedByOutputRef.lookup r = none) ∧
    ¬Followed sampleExternals bothIndex swappedTx fullFills := by
  refine ⟨.bind (registered_reached _) _ _,by decide,?_,⟨by decide,by decide,by decide,by decide,by decide⟩,by decide,?_,
    by decide,?_⟩
  · exact .full (i := ⟨⟨sampleState 1 0 emptyRoot,⟨digestOf 1,0⟩⟩,.empty⟩) (by decide) rfl rfl rfl rfl
      (.full (i := ⟨⟨sampleState 2 0 emptyRoot,⟨digestOf 1,1⟩⟩,.empty⟩) (by decide) rfl rfl rfl rfl .nil)
  · exact List.Perm.swap _ _ _
  · intro followed
    have lost : (applyAccountEvents bothIndex (scanAccountEvents sampleExternals swappedTx)).byAccountId.lookup (sampleAccount 1) =
        none := by decide
    cases lost.symm.trans (followed _ List.mem_cons_self)

end GreenAgent.Account
