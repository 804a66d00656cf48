import GreenAgent.Account.Persistence
import GreenAgent.Account.Batch

namespace GreenAgent.Account
open Mpf (Bytes Digest emptyRoot digestOf bind_ok)

-- A process with a persistence path, from its first start on. `hashed` are the
-- strings its planner calls hash.
inductive Run (ext : Externals O) (txs : Digest → TxView O) (hashed : Set Bytes) : AccountIndex O → List (TxView O) → Prop where
  | fresh (consistent : Consistent txs chain) : Run ext txs hashed {AccountIndex.default with persistence:=some none} chain
  | bind (prior : Run ext txs hashed index chain) (a : AccountId) (r : OutputRef) :
      Run ext txs hashed (index.bindExternalAccountIdOnce a r).1 chain
  | plan (prior : Run ext txs hashed index chain) (call : PlanCall) (base : index.storeForPlanning a r = some store)
      (inside : ∀ s ∈ call.strings ext store, s ∈ hashed) (planned : call.run ext index a r = .ok (next,root,n)) :
      Run ext txs hashed next chain
  | apply (prior : Run ext txs hashed index chain) (fits : Fits txs chain tx) :
      Run ext txs hashed (applyAccountEvents index (scanAccountEvents ext tx)) (tx :: chain)
  | revert (prior : Run ext txs hashed index (tx :: chain)) :
      Run ext txs hashed (revertAccountEvents index (scanAccountEvents ext tx)) chain

-- The points at which the process can stop: between two operations, and inside
-- a transaction that the ledger has already applied or taken back.
inductive Stopped (ext : Externals O) (txs : Digest → TxView O) (hashed : Set Bytes) : AccountIndex O → List (TxView O) → Prop where
  | between (run : Run ext txs hashed index chain) : Stopped ext txs hashed index chain
  | spending (run : Run ext txs hashed index chain) (fits : Fits txs chain tx) (part : done <+: tx.inputs.dedup) :
      Stopped ext txs hashed (done.foldl AccountIndex.observeConsumed index) (tx :: chain)
  | producing (run : Run ext txs hashed index chain) (fits : Fits txs chain tx) (part : done <+: tx.accounts ext) :
      Stopped ext txs hashed (done.foldl (AccountIndex.observeProduced tx.inputs.dedup
          (tx.inputs.dedup.filterMap index.byOutputRef.lookup).dedup) (tx.inputs.dedup.foldl AccountIndex.observeConsumed index))
        (tx :: chain)
  | unspending (run : Run ext txs hashed index (tx :: chain)) (part : done <+: tx.inputs) :
      Stopped ext txs hashed (done.foldl AccountIndex.observeRollbackConsumed index) chain
  -- the first of the two writes of `observe_rollback_consumed`
  | rebinding (run : Run ext txs hashed index (tx :: chain)) (part : done ++ [r] <+: tx.inputs)
      (taken : (done.foldl AccountIndex.observeRollbackConsumed index).rollbackBySpentRef.lookup r = some (a,i)) :
      Stopped ext txs hashed (AccountIndex.bindIndexed {done.foldl AccountIndex.observeRollbackConsumed index with
        rollbackBySpentRef:=(done.foldl AccountIndex.observeRollbackConsumed index).rollbackBySpentRef.erase r} a i) chain
  | withdrawing (run : Run ext txs hashed index (tx :: chain)) (part : done <+: (tx.accounts ext).map AlephAccountUtxo.outputRef) :
      Stopped ext txs hashed (done.foldl AccountIndex.observeRemovedOutput
        (tx.inputs.foldl AccountIndex.observeRollbackConsumed index)) chain

-- A new process on the file, which sees the creation of the given outputs.
def restart (ext : Externals O) (file : Option PersistedAccountStores) (again : List (AlephAccountUtxo O)) :
    Except Failure (AccountIndex O) := do
  let index ← AccountIndex.withPersistencePath ext file
  return again.foldl AccountIndex.observeCreatedOrUpdated index

-- The account outputs that are unspent now, in any order.
@[grind cases eager] structure Unspent (ext : Externals O) (txs : Digest → TxView O) (chain : List (TxView O)) (again : List (AlephAccountUtxo O)) : Prop where
  all : ∀ u, u ∈ again ↔ Live chain u.outputRef ∧ Observed ext txs u
  apart : (again.map AlephAccountUtxo.outputRef).Nodup

-- The output and store an account has: it is bound there, or a plan starts there.
inductive Confirmed (index : AccountIndex O) (a : AccountId) : IndexedAccount O → Prop where
  | bound (found : index.byAccountId.lookup a = some i) : Confirmed index a i
  | planned (unbound : index.byAccountId.lookup a = none) (waits : a ∈ index.pendingByAccountId)
      (plan : index.pendingStoreBySnapshotId.lookup n = some (a,r,s)) (base : index.rollbackBySpentRef.lookup r = some (b,i)) :
      Confirmed index a i

def Durable (ext : Externals O) (index : AccountIndex O) (again : List (AlephAccountUtxo O)) : Prop :=
  ∃ file after, index.persistence = some file ∧ restart ext file again = .ok after ∧
    ∀ a i, Confirmed index a i → after.byAccountId.lookup a = some i

-- Nobody waits for a plan, and the bound accounts have an unspent output each.
@[grind cases eager] structure Settled (index : AccountIndex O) (chain : List (TxView O)) : Prop where
  unplanned : ∀ n a r s, index.pendingStoreBySnapshotId.lookup n = some (a,r,s) → a ∈ index.pendingByAccountId →
    index.byAccountId.lookup a = none → index.rollbackBySpentRef.lookup r = none
  unspent : ∀ a i, index.byAccountId.lookup a = some i → Live chain i.utxo.reference
  apart : ∀ a b i j, index.byAccountId.lookup a = some i → index.byAccountId.lookup b = some j →
    i.utxo.reference = j.utxo.reference → a = b

section
variable {O : Type} {ext : Externals O} {txs : Digest → TxView O} {hashed : Set Bytes} {index : AccountIndex O}

theorem Kept.consumes (kept : Kept ext txs index) (refs : List OutputRef) : Kept ext txs (refs.foldl AccountIndex.observeConsumed index) :=
  kept.fold (fun kept r _ => kept.consumed r)

theorem Kept.unconsumes (kept : Kept ext txs index) (refs : List OutputRef) :
    Kept ext txs (refs.foldl AccountIndex.observeRollbackConsumed index) := kept.fold (fun kept r _ => kept.unconsumed r)

theorem Kept.removes (kept : Kept ext txs index) (refs : List OutputRef) :
    Kept ext txs (refs.foldl AccountIndex.observeRemovedOutput index) := kept.fold (fun kept r _ => kept.removed r)

theorem Kept.produces {us : List (AlephAccountUtxo O)} (kept : Kept ext txs index) (fits : Fits txs chain tx) (listed : ∀ u ∈ us, u ∈ tx.accounts ext)
    (spent : List OutputRef) (ids : List AccountId) : Kept ext txs (us.foldl (AccountIndex.observeProduced spent ids) index) :=
  kept.fold (fun kept _ member => kept.produced spent ids (observed_accounts fits (listed _ member)))

theorem Run.kept (free : Set.InjOn ext.blake2b256 hashed) (run : Run ext txs hashed index chain) : Kept ext txs index := by
  induction run with
  | fresh _ =>
    have restarted : Restarted (AccountIndex.view {AccountIndex.default (O := O) with persistence:=some none}) :=
      ⟨rfl,rfl,rfl,rfl,nofun⟩
    refine ⟨⟨rfl,rfl⟩,restarted.sound ..,?_,.inr ⟨rfl,rfl,rfl⟩⟩
    · refine ⟨?_,?_,?_,fun _ => rfl⟩
      · intro a i found
        cases found
      · intro r a i found
        cases found
      · intro n e found
        cases found
  | bind _ a r ih => exact ih.external a r
  | plan _ call base inside planned ih =>
    obtain ⟨store,p,done,_⟩ := call.run_ok planned
    cases base.symm.trans (storeForPlanning_some.mpr done.from_base)
    exact ih.plan done (fun x hx y hy same => free (inside x hx) (inside y hy) same)
  | apply _ fits ih =>
    rw [applyAccountEvents_scan]
    exact (ih.consumes _).produces fits (fun _ => id) _ _
  | revert _ ih =>
    rw [revertAccountEvents_scan]
    exact (ih.unconsumes _).removes _

theorem Stopped.kept (free : Set.InjOn ext.blake2b256 hashed) (stopped : Stopped ext txs hashed index chain) : Kept ext txs index := by
  cases stopped with
  | between run => exact run.kept free
  | spending run _ _ => exact (run.kept free).consumes _
  | producing run fits part => exact ((run.kept free).consumes _).produces fits (fun _ member => part.subset member) _ _
  | unspending run _ => exact (run.kept free).unconsumes _
  | rebinding run _ taken => exact ((run.kept free).unconsumes _).rebound taken
  | withdrawing run _ => exact ((run.kept free).unconsumes _).removes _

theorem mapM_map_ok {f : α → Except ε β} {write : γ → α} {read : γ → β} {list : List γ}
    (each : ∀ x ∈ list, f (write x) = .ok (read x)) : (list.map write).mapM f = .ok (list.map read) := by
  induction list with
  | nil => rfl
  | cons x list ih =>
    rw [List.map_cons,List.mapM_cons,each x List.mem_cons_self]
    exact bind_ok.mpr ⟨_,rfl,bind_ok.mpr ⟨_,ih (fun y member => each y (List.mem_cons_of_mem _ member)),rfl⟩⟩

-- What a start from the file knows: the bound accounts, by their outputs.
@[grind cases eager] structure Loaded (ext : Externals O) (index : AccountIndex O) (file : Option PersistedAccountStores) (start : AccountIndex O) : Prop where
  started : AccountIndex.withPersistencePath ext file = .ok start
  only : ∀ {r a s}, start.view.persisted r = some (a,s) → ∃ i, index.view.bound a = some i ∧ i.utxo.reference = r ∧ i.store = s
  every : ∀ {a i}, index.view.bound a = some i → (start.view.persisted i.utxo.reference).isSome = true

theorem Kept.saved_stores (kept : Kept ext txs index) : index.persisted.stores =
    index.byAccountId.entries.map (fun e => PersistedAccountStore.fromParts e.1 e.2.utxo.reference e.2.store) := by
  have none : index.persistedByOutputRef.entries = [] := by
    apply List.eq_nil_iff_forall_not_mem.mpr
    rintro ⟨r,entry⟩ member
    cases (kept.stores.unloaded r).symm.trans (HashMap.mem_entries.mp member)
  simp only [AccountIndex.persisted,none,List.map_nil,List.append_nil]

theorem Kept.loadPersistedStores (kept : Kept ext txs index) : Account.loadPersistedStores ext (some index.persisted) = .ok
    ⟨index.byAccountId.entries.map (fun e => (e.1,e.2.utxo.reference,e.2.store)),
      index.pendingStoreBySnapshotId.entries.map (fun e => (e.1,e.2)),index.nextSnapshotId⟩ := by
  refine bind_ok.mpr ⟨_,?_,bind_ok.mpr ⟨_,?_,rfl⟩⟩
  · rw [kept.saved_stores]
    apply mapM_map_ok
    rintro ⟨a,i⟩ member
    have intact := kept.stores.bound (HashMap.mem_entries.mp member)
    exact bind_ok.mpr ⟨i.store,fromSnapshot_snapshotLeaves intact,rfl⟩
  · apply mapM_map_ok
    rintro ⟨n,a,r,s⟩ member
    have intact := kept.stores.planned (HashMap.mem_entries.mp member)
    exact bind_ok.mpr ⟨s,fromSnapshot_snapshotLeaves intact,rfl⟩

theorem Kept.started (kept : Kept ext txs index) : ∃ start, AccountIndex.withPersistencePath ext (some index.persisted) = .ok start ∧
    start.persistedByOutputRef = (index.byAccountId.entries.map (fun e => (e.1,e.2.utxo.reference,e.2.store))).foldl
      (fun map store => map.insert store.2.1 (store.1,store.2.2)) ∅ := by
  unfold AccountIndex.withPersistencePath
  rw [kept.loadPersistedStores]
  exact ⟨_,rfl,rfl⟩

theorem Kept.loaded (kept : Kept ext txs index) : ∃ file start, index.persistence = some file ∧ Loaded ext index file start := by
  rcases kept.synced with written | ⟨unwritten,no_stores,_⟩
  · obtain ⟨start,started,collected⟩ := kept.started
    refine ⟨_,start,written,started,?_,?_⟩
    · intro r a s found
      have found : start.persistedByOutputRef.lookup r = some (a,s) := found
      rw [collected] at found
      rcases HashMap.lookup_collect found with absent | ⟨e,member,here,entry⟩
      · cases absent
      · obtain ⟨⟨b,i⟩,inside,rfl⟩ := List.mem_map.mp member
        cases entry
        exact ⟨i,HashMap.mem_entries.mp inside,here,rfl⟩
    · intro a i bound
      have inside : (a,i.utxo.reference,i.store) ∈ index.byAccountId.entries.map (fun e => (e.1,e.2.utxo.reference,e.2.store)) :=
        List.mem_map.mpr ⟨⟨a,i⟩,HashMap.mem_entries.mpr bound,rfl⟩
      change (start.persistedByOutputRef.lookup i.utxo.reference).isSome = true
      rw [collected]
      exact HashMap.collect_found (fun e => e.2.1) (fun e => (e.1,e.2.2)) ∅ inside
  · refine ⟨none,_,unwritten,rfl,?_,?_⟩
    · intro r a s found
      cases found
    · intro a i bound
      rw [kept.saved_stores] at no_stores
      have empty := List.map_eq_nil_iff.mp no_stores
      have inside := HashMap.mem_entries.mpr bound
      rw [empty] at inside
      cases inside

section Again
variable {start : AccountIndex O} {us : List (AlephAccountUtxo O)}

theorem create_persisted {v w : View O} (step : View.Create v u w) (found : w.persisted r = some x) : v.persisted r = some x := by
  cases step with
  | resume _ _ =>
    simp only [View.resume,View.bind_persisted,Function.update_apply] at found
    grind
  | unbound _ => exact found

theorem create_other {v w : View O} (step : View.Create v u w) (other : r ≠ u.outputRef) : w.persisted r = v.persisted r := by
  cases step with
  | resume _ _ => simp only [View.resume,View.bind_persisted,Function.update_apply,if_neg other]
  | unbound _ => rfl

theorem again_only (plain : start.Plain) (found : (us.foldl AccountIndex.observeCreatedOrUpdated start).view.bound a = some i) :
    start.view.bound a = some i ∨ ∃ u ∈ us, i.utxo = u.finalizedOutput ∧ start.view.persisted u.outputRef = some (a,i.store) := by
  induction us generalizing start with
  | nil => exact .inl found
  | cons u us ih =>
    obtain ⟨step,plain'⟩ := observeCreatedOrUpdated_view plain u
    rcases ih plain' found with here | ⟨u',member,same,saved⟩
    · generalize (start.observeCreatedOrUpdated u).view = middle at step here
      cases step with
      | resume saved root =>
        rw [View.resume,View.bind_bound] at here
        grind
      | unbound _ => exact .inl here
    · exact .inr ⟨u',List.mem_cons_of_mem _ member,same,create_persisted step saved⟩

theorem again_keeps (plain : start.Plain) (bound : start.view.bound a = some i)
    (others : ∀ u ∈ us, ∀ s, start.view.persisted u.outputRef ≠ some (a,s)) :
    (us.foldl AccountIndex.observeCreatedOrUpdated start).view.bound a = some i := by
  induction us generalizing start with
  | nil => exact bound
  | cons u us ih =>
    obtain ⟨step,plain'⟩ := observeCreatedOrUpdated_view plain u
    refine ih plain' ?_ (fun u' member s saved => others u' (List.mem_cons_of_mem _ member) s (create_persisted step saved))
    generalize (start.observeCreatedOrUpdated u).view = middle at step
    cases step with
    | @resume b s saved _ =>
      rw [View.resume,View.bind_bound,if_neg]
      · exact bound
      grind
    | unbound _ => exact bound

theorem again_binds (plain : start.Plain) (distinct : (us.map AlephAccountUtxo.outputRef).Nodup) (member : u ∈ us)
    (saved : start.view.persisted u.outputRef = some (a,s)) (root : s.root = u.state.storeRoot)
    (single : ∀ u' ∈ us, ∀ t, start.view.persisted u'.outputRef = some (a,t) → u'.outputRef = u.outputRef) :
    (us.foldl AccountIndex.observeCreatedOrUpdated start).view.bound a = some ⟨u.finalizedOutput,s⟩ := by
  induction us generalizing start with
  | nil => cases member
  | cons first us ih =>
    obtain ⟨step,plain'⟩ := observeCreatedOrUpdated_view plain first
    rw [List.map_cons,List.nodup_cons] at distinct
    have later : ∀ u' ∈ us, u'.outputRef ≠ first.outputRef := fun u' inside same => distinct.1 (List.mem_map.mpr ⟨u',inside,same⟩)
    rcases List.mem_cons.mp member with rfl | inside
    · apply again_keeps plain'
      · generalize (start.observeCreatedOrUpdated u).view = middle at step
        cases step with
        | resume saved' _ =>
          cases saved.symm.trans saved'
          rw [View.resume,View.bind_bound,if_pos rfl]
        | unbound absent => exact absurd root (absent a s saved)
      · intro u' inside t entry
        exact later u' inside (single u' (List.mem_cons_of_mem _ inside) t (create_persisted step entry))
    · apply ih plain' distinct.2 inside
      · rw [create_other step (later u inside)]
        exact saved
      · intro u' inside' t entry
        exact single u' (List.mem_cons_of_mem _ inside') t (create_persisted step entry)

end Again

theorem Carries.observed (carries : Carries ext txs i) :
    ∃ u, u.finalizedOutput = i.utxo ∧ Observed ext txs u ∧ u.state.storeRoot = i.store.root := by
  obtain ⟨named,state,parsed,root⟩ := carries
  exact ⟨⟨i.utxo.reference,i.utxo.output,state⟩,rfl,⟨named,parsed⟩,root⟩

theorem durable_iff_settled (free : Set.InjOn ext.blake2b256 hashed) (stopped : Stopped ext txs hashed index chain)
    (unspent : Unspent ext txs chain again) : Durable ext index again ↔ Settled index chain := by
  have kept := stopped.kept free
  obtain ⟨file,start,written,loaded⟩ := kept.loaded
  obtain ⟨restarted,plain⟩ := withPersistencePath_restarted loaded.started
  -- whatever the new process binds comes from the file and is unspent
  have only : ∀ {a i}, (again.foldl AccountIndex.observeCreatedOrUpdated start).view.bound a = some i →
      Live chain i.utxo.reference ∧ start.view.persisted i.utxo.reference = some (a,i.store) := by
    intro a i found
    rcases again_only plain found with before | ⟨u,member,same,saved⟩
    · rw [restarted.bound] at before
      cases before
    · rw [same]
      exact ⟨((unspent.all u).mp member).1,saved⟩
  constructor
  · rintro ⟨file',after,written',started,back⟩
    cases written.symm.trans written'
    obtain ⟨start',opened,done⟩ := bind_ok.mp started
    cases loaded.started.symm.trans opened
    cases done
    refine ⟨?_,?_,?_⟩
    · intro n a r s plan waits unbound
      cases base : index.rollbackBySpentRef.lookup r with
      | none => rfl
      | some entry =>
        obtain ⟨b,i⟩ := entry
        obtain ⟨j,bound,_⟩ := loaded.only (only (back a i (.planned unbound waits plan base))).2
        cases unbound.symm.trans bound
    · intro a i bound
      exact (only (back a i (.bound bound))).1
    · intro a b i j bound bound' same
      have one := (only (back a i (.bound bound))).2
      have two := (only (back b j (.bound bound'))).2
      rw [same,two] at one
      exact congrArg Prod.fst (Option.some.inj one).symm
  · intro settled
    refine ⟨file,_,written,bind_ok.mpr ⟨start,loaded.started,rfl⟩,?_⟩
    intro a i confirmed
    cases confirmed with
    | planned unbound waits plan base => cases (settled.unplanned _ _ _ _ plan waits unbound).symm.trans base
    | bound found =>
      obtain ⟨u,same,seen,root⟩ := (kept.sound.bound_carries found).observed
      have at_ref : u.outputRef = i.utxo.reference := congrArg FinalizedTxOut.reference same
      have member : u ∈ again := (unspent.all u).mpr ⟨at_ref ▸ settled.unspent a i found,seen⟩
      have saved : start.view.persisted u.outputRef = some (a,i.store) := by
        obtain ⟨⟨b,t⟩,entry⟩ := Option.isSome_iff_exists.mp (loaded.every found)
        obtain ⟨j,bound,here,rfl⟩ := loaded.only entry
        obtain rfl := settled.apart a b i j found bound here.symm
        cases bound.symm.trans found
        rw [at_ref,entry]
      have bound := again_binds plain unspent.apart member saved root.symm ?_
      · rw [same] at bound
        exact bound
      · intro u' _ t entry
        obtain ⟨j,bound,here,_⟩ := loaded.only entry
        cases bound.symm.trans found
        exact here.symm.trans at_ref.symm

end

-- The sample account again, in a process that has a file.
def savedIndex : AccountIndex AlephAccountState :=
  ((applyAccountEvents {AccountIndex.default with persistence:=some none} (scanAccountEvents sampleExternals openingTx)
    ).bindExternalAccountIdOnce (sampleAccount 1) ⟨digestOf 1,0⟩).1

def openingAccounts : List (AlephAccountUtxo AlephAccountState) :=
  [⟨⟨digestOf 1,0⟩,sampleState 1 0 emptyRoot,sampleState 1 0 emptyRoot⟩,⟨⟨digestOf 1,1⟩,sampleState 2 0 emptyRoot,sampleState 2 0 emptyRoot⟩]

theorem saved_run (hashed : Set Bytes) : Run sampleExternals (sampleTxs [openingTx]) hashed savedIndex [openingTx] :=
  .bind (.apply (.fresh .nil) ⟨by simp [sampleTxs],by decide,by decide,by decide,by decide⟩) _ _

theorem opening_unspent : Unspent sampleExternals (sampleTxs [openingTx]) [openingTx] openingAccounts := by
  refine ⟨?_,by decide⟩
  intro u
  constructor
  · intro member
    rcases List.mem_cons.mp member with rfl | later
    · exact ⟨by decide,rfl,rfl⟩
    · obtain rfl := List.mem_singleton.mp later
      exact ⟨by decide,rfl,rfl⟩
  · rintro ⟨live,named,parsed⟩
    obtain ⟨r,o,state⟩ := u
    obtain ⟨produced,_⟩ := live
    cases parsed
    have created : r ∈ openingTx.refs := by simpa [Account.produced] using produced
    rcases List.mem_cons.mp created with rfl | later
    · cases named
      exact List.mem_cons_self
    · obtain rfl := List.mem_singleton.mp later
      cases named
      tauto

theorem durable_registered : Durable sampleExternals savedIndex openingAccounts := by
  have bound : savedIndex.byAccountId.entries.all (fun e => decide (e.1 = sampleAccount 1 ∧ e.2.utxo.reference = ⟨digestOf 1,0⟩)) = true := by
    decide
  have only : ∀ {a i}, savedIndex.byAccountId.lookup a = some i → a = sampleAccount 1 ∧ i.utxo.reference = ⟨digestOf 1,0⟩ := by
    intro a i found
    exact of_decide_eq_true (List.all_eq_true.mp bound _ (HashMap.mem_entries.mpr found))
  refine (durable_iff_settled (Set.injOn_empty _) (.between (saved_run _)) opening_unspent).mpr ⟨?_,?_,?_⟩
  · intro n a r s found
    have none : savedIndex.pendingStoreBySnapshotId.entries = [] := by decide
    have member := HashMap.mem_entries.mpr found
    rw [none] at member
    cases member
  · intro a i found
    rw [(only found).2]
    decide
  · intro a b i j found found' _
    exact (only found).1.trans (only found').1.symm

-- A plan is made, nothing is spent, and the process stops: the account is not
-- bound again.
theorem plan_not_durable : ∃ hashed, Set.InjOn sampleExternals.blake2b256 hashed ∧
    Stopped sampleExternals (sampleTxs [openingTx]) hashed (samplePlanned savedIndex 1 10).1 [openingTx] ∧
    Unspent sampleExternals (sampleTxs [openingTx]) [openingTx] openingAccounts ∧
    ¬Durable sampleExternals (samplePlanned savedIndex 1 10).1 openingAccounts := by
  refine ⟨{s | s ∈ (samplePlan 1 10).strings sampleExternals .empty},Mpf.recorded_collisionless (by decide +kernel),?_,opening_unspent,?_⟩
  · exact .between (.plan (saved_run _) (samplePlan 1 10)
      (show savedIndex.storeForPlanning (sampleAccount 1) ⟨digestOf 1,0⟩ = some .empty by decide) (fun _ => id)
      (samplePlanned_run (by decide)))
  · rintro ⟨file,after,written,started,back⟩
    have base : (samplePlanned savedIndex 1 10).1.rollbackBySpentRef.lookup ⟨digestOf 1,0⟩ =
        some (sampleAccount 1,⟨⟨sampleState 1 0 emptyRoot,⟨digestOf 1,0⟩⟩,.empty⟩) := by decide
    have bound := back (sampleAccount 1) _ (.planned (by decide) (by decide)
      (show (samplePlanned savedIndex 1 10).1.pendingStoreBySnapshotId.lookup 0 = some (sampleAccount 1,⟨digestOf 1,0⟩,sampleStore 1 10) by
        decide +kernel) base)
    have lost : ((samplePlanned savedIndex 1 10).1.persistence.map (fun file =>
        ((restart sampleExternals file openingAccounts).toOption.map (fun after => (after.byAccountId.lookup (sampleAccount 1)).isSome)))) =
        some (some false) := by decide +kernel
    rw [written,Option.map_some,started] at lost
    simp only [Except.toOption,Option.map_some,bound] at lost
    cases lost

end GreenAgent.Account
