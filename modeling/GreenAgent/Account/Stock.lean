import GreenAgent.Account.Persistence
import GreenAgent.Account.Plans

namespace GreenAgent.Account
open Mpf (Bytes Digest bind_ok)

-- Every store in the file was written from a store with the property.
@[grind cases eager] structure FileBacked (Q : AccountStore → Prop) (file : PersistedAccountStores) : Prop where
  stores : ∀ e ∈ file.stores, ∃ s, Q s ∧ e.root = s.root ∧ e.leaves = s.snapshotLeaves
  pending : ∀ e ∈ file.pending, ∃ s, Q s ∧ e.root = s.root ∧ e.leaves = s.snapshotLeaves

-- All stores of the index and of its file have the property.
@[grind cases eager] structure Stock (Q : AccountStore → Prop) (index : AccountIndex O) : Prop where
  plain : index.Plain
  stocked : index.view.Stocked Q
  saved : ∀ file, index.persistence = some (some file) → FileBacked Q file

section
variable {O : Type} {ext : Externals O} {Q : AccountStore → Prop} {index after : AccountIndex O}

theorem View.Stocked.backed (stocked : index.view.Stocked Q) : FileBacked Q index.persisted where
  stores := by
    intro e member
    rcases List.mem_append.mp member with bound | loaded
    · obtain ⟨⟨a,i⟩,inside,rfl⟩ := List.mem_map.mp bound
      exact ⟨i.store,stocked.bound (HashMap.mem_entries.mp inside),rfl,rfl⟩
    · obtain ⟨⟨r,a,s⟩,inside,rfl⟩ := List.mem_map.mp loaded
      exact ⟨s,stocked.loaded (HashMap.mem_entries.mp inside),rfl,rfl⟩
  pending := by
    intro e member
    obtain ⟨⟨n,a,r,s⟩,inside,rfl⟩ := List.mem_map.mp member
    exact ⟨s,stocked.planned (HashMap.mem_entries.mp inside),rfl,rfl⟩

theorem fromSnapshot_same {store : AccountStore} (loaded : AccountStore.fromSnapshot ext store.root store.snapshotLeaves = .ok s) : s = store := by
  obtain ⟨calculated,_,loaded⟩ := bind_ok.mp loaded
  split at loaded
  · cases loaded
  · cases loaded
    refine AccountStore.ext_leaves rfl ?_
    unfold AccountStore.snapshotLeaves
    rw [List.foldl_map]
    exact congrArg Std.ExtTreeMap.toList (collect_toList store.leaves)

namespace Stock

theorem step (stock : Stock Q index) (plain : after.Plain) (stocked : after.view.Stocked Q) (wrote : index.Wrote after) : Stock Q after := by
  refine ⟨plain,stocked,?_⟩
  intro file saved
  rcases wrote with written | ⟨same,_⟩
  · rw [written] at saved
    obtain ⟨_,_,same⟩ := Option.map_eq_some_iff.mp saved
    cases same
    exact stocked.backed
  grind

theorem consumed (stock : Stock Q index) (r : OutputRef) : Stock Q (index.observeConsumed r) := by
  refine stock.step (observeConsumed_plain stock.plain r) ?_ (observeConsumed_wrote index r)
  rw [observeConsumed_view]
  exact stock.stocked.consume r

theorem removed (stock : Stock Q index) (r : OutputRef) : Stock Q (index.observeRemovedOutput r) := by
  refine stock.step (observeRemovedOutput_plain stock.plain r) ?_ (observeRemovedOutput_wrote index r)
  rw [observeRemovedOutput_view]
  exact stock.stocked.remove r

theorem unconsumed (stock : Stock Q index) (r : OutputRef) : Stock Q (index.observeRollbackConsumed r) := by
  refine stock.step (observeRollbackConsumed_plain stock.plain r) ?_ (observeRollbackConsumed_wrote index r)
  rw [observeRollbackConsumed_view]
  exact stock.stocked.unconsume r

theorem produced (stock : Stock Q index) (empty : Q .empty) (spent : List OutputRef) (ids : List AccountId) (u : AlephAccountUtxo O) :
    Stock Q (AccountIndex.observeProduced spent ids index u) := by
  obtain ⟨step,plain⟩ := observeProduced_view stock.plain spent ids u
  exact stock.step plain (stock.stocked.produce empty step) (observeProduced_wrote stock.plain spent ids u)

theorem external (stock : Stock Q index) (empty : Q .empty) (a : AccountId) (r : OutputRef) :
    Stock Q (index.bindExternalAccountIdOnce a r).1 := by
  obtain ⟨_,plain⟩ := bindExternalAccountIdOnce_view stock.plain a r
  exact stock.step plain (stock.stocked.external empty stock.plain a r) (bindExternalAccountIdOnce_wrote index a r)

theorem plan {call : PlanCall} (stock : Stock Q index) (done : call.Done ext index a r after n base p) (holds : Q p) : Stock Q after := by
  have stocked : after.view.Stocked Q := by
    rw [done.view.1]
    exact stock.stocked.plan a r p holds
  refine ⟨done.plain stock.plain,stocked,?_⟩
  intro file saved
  rw [done.wrote] at saved
  obtain ⟨_,_,same⟩ := Option.map_eq_some_iff.mp saved
  cases same
  exact stocked.backed

theorem fold {step : AccountIndex O → α → AccountIndex O} (keeps : ∀ {index}, Stock Q index → ∀ x, Stock Q (step index x))
    (stock : Stock Q index) (list : List α) : Stock Q (list.foldl step index) := by
  induction list generalizing index with
  | nil => exact stock
  | cons x list ih => exact ih (keeps stock x)

theorem apply (stock : Stock Q index) (empty : Q .empty) (tx : TxView O) : Stock Q (applyAccountEvents index (scanAccountEvents ext tx)) := by
  rw [applyAccountEvents_scan]
  exact (stock.fold consumed _).fold (fun stock u => stock.produced empty _ _ u) _

theorem revert (stock : Stock Q index) (tx : TxView O) : Stock Q (revertAccountEvents index (scanAccountEvents ext tx)) := by
  rw [revertAccountEvents_scan]
  exact (stock.fold unconsumed _).fold removed _

theorem blank (Q : AccountStore → Prop) (persistence : Option Unit) :
    Stock Q {AccountIndex.default (O := O) with persistence:=persistence.map (fun _ => none)} := by
  refine ⟨⟨rfl,rfl⟩,⟨nofun,nofun,nofun,nofun⟩,?_⟩
  intro file saved
  cases persistence <;> cases saved

theorem restart (stock : Stock Q index) (file : index.persistence = some disk) (loaded : AccountIndex.withPersistencePath ext disk = .ok after) :
    Stock Q after := by
  obtain ⟨_,plain⟩ := withPersistencePath_restarted loaded
  have backed : ∀ held, disk = some held → FileBacked Q held := fun held same => stock.saved held (same ▸ file)
  unfold AccountIndex.withPersistencePath at loaded
  dsimp only at loaded
  split at loaded
  · cases loaded
  · cases loaded
    exact ⟨plain,⟨nofun,nofun,nofun,nofun⟩,fun held same => backed held (Option.some.inj same)⟩
  · rename_i state read
    cases loaded
    refine ⟨plain,⟨nofun,nofun,?_,?_⟩,fun held same => backed held (Option.some.inj same)⟩
    · intro n e found
      rcases HashMap.lookup_collect found with absent | ⟨entry,member,_,rfl⟩
      · cases absent
      cases disk with
      | none =>
        cases read
        cases member
      | some held =>
        obtain ⟨stores,_,read⟩ := bind_ok.mp read
        obtain ⟨pending,each,read⟩ := bind_ok.mp read
        cases read
        obtain ⟨origin,inside,made⟩ := mapM_mem each member
        obtain ⟨s,restored,made⟩ := bind_ok.mp made
        cases made
        obtain ⟨store,holds,root,leaves⟩ := (backed held rfl).pending origin inside
        rw [root,leaves] at restored
        exact fromSnapshot_same restored ▸ holds
    · intro r a s found
      rcases HashMap.lookup_collect found with absent | ⟨entry,member,_,same⟩
      · cases absent
      cases same
      cases disk with
      | none =>
        cases read
        cases member
      | some held =>
        obtain ⟨stores,each,read⟩ := bind_ok.mp read
        obtain ⟨pending,_,read⟩ := bind_ok.mp read
        cases read
        obtain ⟨origin,inside,made⟩ := mapM_mem each member
        obtain ⟨s,restored,made⟩ := bind_ok.mp made
        cases made
        obtain ⟨store,holds,root,leaves⟩ := (backed held rfl).stores origin inside
        rw [root,leaves] at restored
        exact fromSnapshot_same restored ▸ holds

end Stock
end
end GreenAgent.Account
