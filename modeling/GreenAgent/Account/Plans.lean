import GreenAgent.Account.Invariant
import GreenAgent.Account.Written

namespace GreenAgent.Account
open Mpf (Digest emptyRoot bind_ok)

-- Every plan, in memory or in the file the index writes, starts from an output
-- and leads to a root that the predicate allows.
@[grind cases eager] structure AccountIndex.Plans (P : OutputRef → Digest → Prop) (index : AccountIndex O) : Prop where
  pending : ∀ n e, index.pendingStoreBySnapshotId.lookup n = some e → P e.2.1 e.2.2.root
  saved : ∀ file, index.persistence = some (some file) → ∀ e ∈ file.pending, P e.oldRef e.root

section
variable {O : Type} {ext : Externals O} {index : AccountIndex O} {P : OutputRef → Digest → Prop}

theorem AccountIndex.Plans.wrote {after : AccountIndex O} (plans : index.Plans P) (wrote : index.Wrote after)
    (fewer : ∀ n e, after.view.snapshots n = some e → index.view.snapshots n = some e) : after.Plans P := by
  have pending : ∀ n e, after.pendingStoreBySnapshotId.lookup n = some e → P e.2.1 e.2.2.root :=
    fun n e found => plans.pending n e (fewer n e found)
  refine ⟨pending,?_⟩
  intro file saved
  rcases wrote with written | ⟨same,_⟩
  · rw [written] at saved
    obtain ⟨_,_,same⟩ := Option.map_eq_some_iff.mp saved
    cases same
    intro e member
    obtain ⟨⟨n,a,r,s⟩,inside,rfl⟩ := List.mem_map.mp member
    exact pending n (a,r,s) (HashMap.mem_entries.mp inside)
  grind

theorem dropSnapshots_fewer {v : View O} {gone : AccountId × OutputRef × AccountStore → Prop} [DecidablePred gone] (n : Nat)
    (e : AccountId × OutputRef × AccountStore) (found : (v.dropSnapshots gone).snapshots n = some e) : v.snapshots n = some e :=
  (Option.filter_eq_some_iff.mp found).1

theorem observeConsumed_plans (plans : index.Plans P) (r : OutputRef) : (index.observeConsumed r).Plans P := by
  refine plans.wrote (observeConsumed_wrote index r) ?_
  intro n e found
  rw [observeConsumed_view,View.consume_snapshots] at found
  exact found

theorem observeRemovedOutput_plans (plans : index.Plans P) (r : OutputRef) : (index.observeRemovedOutput r).Plans P := by
  refine plans.wrote (observeRemovedOutput_wrote index r) ?_
  intro n e found
  rw [observeRemovedOutput_view,View.remove_snapshots] at found
  exact found

theorem unconsume_fewer {v : View O} (r : OutputRef) (n : Nat) (e : AccountId × OutputRef × AccountStore)
    (found : (v.unconsume r).snapshots n = some e) : v.snapshots n = some e := by
  have kept := dropSnapshots_fewer n e found
  cases spent : v.rollback r with
  | none =>
    rw [spent] at kept
    exact kept
  | some entry =>
    rw [spent] at kept
    exact kept

theorem observeRollbackConsumed_plans (plans : index.Plans P) (r : OutputRef) : (index.observeRollbackConsumed r).Plans P := by
  refine plans.wrote (observeRollbackConsumed_wrote index r) ?_
  rw [observeRollbackConsumed_view]
  exact unconsume_fewer r

theorem produce_fewer {v w : View O} (step : View.Produce spent ids v u w) (n : Nat) (e : AccountId × OutputRef × AccountStore)
    (found : w.snapshots n = some e) : v.snapshots n = some e := by
  cases step with
  | confirm _ => exact dropSnapshots_fewer n e found
  | empty _ _ => exact found
  | create _ _ created => cases created <;> exact found

theorem observeProduced_plans (plans : index.Plans P) (plain : index.Plain) (spent : List OutputRef) (ids : List AccountId)
    (u : AlephAccountUtxo O) : (AccountIndex.observeProduced spent ids index u).Plans P :=
  plans.wrote (observeProduced_wrote plain spent ids u) (produce_fewer (observeProduced_view plain spent ids u).1)

theorem bindExternalAccountIdOnce_plans (plans : index.Plans P) (plain : index.Plain) (a : AccountId) (r : OutputRef) :
    (index.bindExternalAccountIdOnce a r).1.Plans P := by
  refine plans.wrote (bindExternalAccountIdOnce_wrote index a r) ?_
  intro n e found
  obtain ⟨same | ⟨u,_,_,_,_,bound⟩,_⟩ := bindExternalAccountIdOnce_view plain a r
  · rw [same] at found
    exact found
  · rw [bound] at found
    exact found

theorem PlanCall.Done.plans {call : PlanCall} (done : call.Done ext index a r after n base p) (allowed : P r p.root) (plans : index.Plans P) : after.Plans P := by
  have pending : ∀ m e, after.pendingStoreBySnapshotId.lookup m = some e → P e.2.1 e.2.2.root := by
    intro m e found
    have found : after.view.snapshots m = some e := found
    rw [done.view.1] at found
    have entry := (View.plan_snapshots ..).mp found
    split at entry
    · rw [entry]
      exact allowed
    · exact plans.pending m e entry.1
  refine ⟨pending,?_⟩
  intro file saved
  rw [done.wrote] at saved
  obtain ⟨_,_,same⟩ := Option.map_eq_some_iff.mp saved
  cases same
  intro e member
  obtain ⟨⟨m,b,r',s⟩,inside,rfl⟩ := List.mem_map.mp member
  exact pending m (b,r',s) (HashMap.mem_entries.mp inside)

theorem fold_plans {step : AccountIndex O → OutputRef → AccountIndex O} (keeps : ∀ {index}, index.Plans P → ∀ r, (step index r).Plans P)
    (plans : index.Plans P) (refs : List OutputRef) : (refs.foldl step index).Plans P := by
  induction refs generalizing index with
  | nil => exact plans
  | cons r refs ih => exact ih (keeps plans r)

theorem observeTransaction_plans (plans : index.Plans P) (plain : index.Plain) (spent : List OutputRef)
    (us : List (AlephAccountUtxo O)) : (index.observeTransaction spent us).Plans P := by
  unfold AccountIndex.observeTransaction
  dsimp only
  have consumed_plans := fold_plans observeConsumed_plans plans spent.dedup
  have consumed_plain := (fold_view observeConsumed_view observeConsumed_plain plain spent.dedup).2
  revert consumed_plans consumed_plain
  generalize spent.dedup.foldl AccountIndex.observeConsumed index = middle
  intro consumed_plans consumed_plain
  induction us generalizing middle with
  | nil => exact consumed_plans
  | cons u us ih =>
    exact ih _ (observeProduced_plans consumed_plans consumed_plain _ _ u) (observeProduced_view consumed_plain _ _ u).2

theorem mapM_mem {f : α → Except ε β} {list : List α} (done : list.mapM f = .ok ys) (member : y ∈ ys) : ∃ x ∈ list, f x = .ok y := by
  induction list generalizing ys with
  | nil =>
    cases done
    cases member
  | cons first rest ih =>
    rw [List.mapM_cons] at done
    obtain ⟨z,head,done⟩ := bind_ok.mp done
    obtain ⟨zs,tail,done⟩ := bind_ok.mp done
    cases done
    grind

theorem fromSnapshot_root (loaded : AccountStore.fromSnapshot ext root leaves = .ok store) : store.root = root := by
  unfold AccountStore.fromSnapshot at loaded
  obtain ⟨calculated,_,loaded⟩ := bind_ok.mp loaded
  split at loaded
  · cases loaded
  · cases loaded
    rfl

theorem loadPersistedStores_pending (loaded : loadPersistedStores ext saved = .ok state) (member : e ∈ state.pending) :
    ∃ file, saved = some file ∧ ∃ entry ∈ file.pending, e.2.2.1 = entry.oldRef ∧ e.2.2.2.root = entry.root := by
  cases saved with
  | none =>
    cases loaded
    cases member
  | some file =>
    obtain ⟨stores,_,loaded⟩ := bind_ok.mp loaded
    obtain ⟨pending,read,loaded⟩ := bind_ok.mp loaded
    cases loaded
    obtain ⟨entry,inside,found⟩ := mapM_mem read member
    obtain ⟨store,restored,found⟩ := bind_ok.mp found
    cases found
    exact ⟨file,rfl,entry,inside,rfl,fromSnapshot_root restored⟩

theorem withPersistencePath_plans (plans : ∀ file, saved = some file → ∀ e ∈ file.pending, P e.oldRef e.root)
    (loaded : AccountIndex.withPersistencePath ext saved = .ok index) : index.Plans P := by
  unfold AccountIndex.withPersistencePath at loaded
  dsimp only at loaded
  split at loaded
  · cases loaded
  · cases loaded
    exact ⟨nofun,fun file written => plans file (Option.some.inj written)⟩
  · rename_i state read
    cases loaded
    refine ⟨?_,fun file written => plans file (Option.some.inj written)⟩
    intro n e found
    rcases HashMap.lookup_collect found with absent | ⟨entry,member,_,rfl⟩
    · cases absent
    · obtain ⟨file,rfl,origin,inside,old,root⟩ := loadPersistedStores_pending read member
      grind

theorem Reached.plans {txs : Digest → TxView O} (allowed : ∀ {call : PlanCall} {index after : AccountIndex O} {chain a r n base p},
    Reached ext txs index chain → call.Done ext index a r after n base p → P r p.root) (reached : Reached ext txs index chain) :
    index.Plans P := by
  induction reached with
  | fresh persistence _ =>
    refine ⟨nofun,?_⟩
    simp_all
  | bind prior a r ih => exact bindExternalAccountIdOnce_plans ih prior.sound.1 a r
  | plan prior call planned ih =>
    obtain ⟨base,p,done,_⟩ := call.run_ok planned
    exact done.plans (allowed prior done) ih
  | apply prior fits ih =>
    rw [applyAccountEvents_scan]
    exact observeTransaction_plans ih prior.sound.1 _ _
  | revert prior ih =>
    rw [revertAccountEvents_scan]
    exact fold_plans observeRemovedOutput_plans (fold_plans observeRollbackConsumed_plans ih _) _
  | restart _ file loaded k ih =>
    refine withPersistencePath_plans ?_ loaded
    grind

theorem Reached.rooted {txs : Digest → TxView O} (nonzero : ∀ s, ext.blake2b256 s ≠ emptyRoot) (reached : Reached ext txs index chain) :
    index.Plans (fun _ root => root ≠ emptyRoot) := by
  refine reached.plans ?_
  intro call index after chain a r n base p _ done
  obtain ⟨s,root⟩ := predict_hashed done.predicted
  exact root ▸ nonzero s

theorem Sound.base_accountRef {txs : Digest → TxView O} {v : View O} (sound : Sound ext txs v known spent) (base : v.Base a r s) :
    AccountRef ext txs r := by
  cases base with
  | bound bound at_ref => exact at_ref ▸ (sound.bound_carries bound).accountRef
  | replan _ _ taken _ =>
    obtain ⟨rfl,carries⟩ := sound.taken_carries taken
    exact carries.accountRef

theorem Reached.plans_accounts {txs : Digest → TxView O} (reached : Reached ext txs index chain) :
    index.Plans (fun r _ => AccountRef ext txs r) :=
  reached.plans (fun prior done => prior.sound.2.base_accountRef done.from_base)

end
end GreenAgent.Account
