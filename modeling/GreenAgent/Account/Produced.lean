import GreenAgent.Account.View

namespace GreenAgent.Account
open Mpf (Bytes Digest emptyRoot)

namespace View
variable {O : Type}

-- A pending snapshot on a spent output that plans the given root.
def Offers (v : View O) (spent : List OutputRef) (root : Digest) (a : AccountId) (s : AccountStore) : Prop :=
  ∃ n r, v.snapshots n = some (a,r,s) ∧ r ∈ spent ∧ s.root = root

-- The snapshots on spent outputs with this root name one account and one store.
def Agrees (v : View O) (spent : List OutputRef) (root : Digest) (a : AccountId) (s : AccountStore) : Prop :=
  v.Offers spent root a s ∧ ∀ a' s', v.Offers spent root a' s' → a' = a ∧ s' = s

theorem Agrees.unique {v : View O} (one : v.Agrees spent root a s) (two : v.Agrees spent root a' s') : a' = a ∧ s' = s :=
  one.2 a' s' two.1

def Sole (v : View O) (ids : List AccountId) (root : Digest) (a : AccountId) : Prop :=
  ids = [a] ∧ root = emptyRoot ∧ a ∈ v.pending

def confirm (v : View O) (spent : List OutputRef) (u : AlephAccountUtxo O) (a : AccountId) (s : AccountStore) : View O :=
  (v.dropSnapshots (fun entry => entry.2.1 ∈ spent ∧ entry.2.2.root = u.state.storeRoot)).bind a ⟨u.finalizedOutput,s⟩

def resume (v : View O) (u : AlephAccountUtxo O) (a : AccountId) (s : AccountStore) : View O :=
  View.bind {v with persisted:=Function.update v.persisted u.outputRef none} a ⟨u.finalizedOutput,s⟩

def leaveUnbound (v : View O) (u : AlephAccountUtxo O) : View O :=
  {v with unbound:=Function.update v.unbound u.outputRef (some u)}

-- What an observed account output does when no snapshot and no spent account
-- claims it.
inductive Create (v : View O) (u : AlephAccountUtxo O) : View O → Prop where
  | resume (found : v.persisted u.outputRef = some (a,s)) (root : s.root = u.state.storeRoot) : Create v u (v.resume u a s)
  | unbound (absent : ∀ a s, v.persisted u.outputRef = some (a,s) → s.root ≠ u.state.storeRoot) : Create v u (v.leaveUnbound u)

-- The rules for one produced account output, in the order they are tried.
inductive Produce (spent : List OutputRef) (ids : List AccountId) (v : View O) (u : AlephAccountUtxo O) : View O → Prop where
  | confirm (agrees : v.Agrees spent u.state.storeRoot a s) : Produce spent ids v u (v.confirm spent u a s)
  | empty (disagree : ∀ a s, ¬v.Agrees spent u.state.storeRoot a s) (sole : v.Sole ids u.state.storeRoot a) :
      Produce spent ids v u (v.bind a ⟨u.finalizedOutput,.empty⟩)
  | create (disagree : ∀ a s, ¬v.Agrees spent u.state.storeRoot a s) (several : ∀ a, ¬v.Sole ids u.state.storeRoot a)
      {after : View O} (created : Create v u after) : Produce spent ids v u after

inductive Produces (spent : List OutputRef) (ids : List AccountId) : View O → List (AlephAccountUtxo O) → View O → Prop where
  | nil : Produces spent ids v [] v
  | cons (first : Produce spent ids v u middle) (rest : Produces spent ids middle us after) : Produces spent ids v (u :: us) after

-- The accounts that a set of spent outputs belongs to.
def spentIds (v : View O) (spent : List OutputRef) : List AccountId := (spent.filterMap v.owner).dedup

end View

section
variable {O : Type} {index : AccountIndex O}

theorem fromObservedRoot_some : AccountStore.fromObservedRoot root = some s ↔ root = emptyRoot ∧ s = .empty := by
  unfold AccountStore.fromObservedRoot
  split
  · grind
  grind

theorem offers_iff (index : AccountIndex O) : index.view.Offers spent root a s ↔
    ∃ e ∈ index.pendingStoreBySnapshotId.entries.filter (fun e =>
      decide (e.2.2.1 ∈ spent ∧ e.2.2.2.root = root)), e.2.1 = a ∧ e.2.2.2 = s := by
  constructor
  · rintro ⟨n,r,found,inside,same⟩
    exact ⟨⟨n,(a,r,s)⟩,List.mem_filter.mpr ⟨HashMap.mem_entries.mpr found,decide_eq_true ⟨inside,same⟩⟩,rfl,rfl⟩
  · rintro ⟨⟨n,a,r,s⟩,member,rfl,rfl⟩
    obtain ⟨entry,picked⟩ := List.mem_filter.mp member
    obtain ⟨inside,same⟩ := of_decide_eq_true picked
    exact ⟨n,r,HashMap.mem_entries.mp entry,inside,same⟩

theorem bindConfirmedStoreForConsumedRefs_ok (agrees : index.view.Agrees spent u.state.storeRoot a s) (plain : index.Plain) :
    ∃ bound, index.bindConfirmedStoreForConsumedRefs spent u = .ok bound ∧ bound.view = index.view.confirm spent u a s ∧
      bound.Plain := by
  unfold AccountIndex.bindConfirmedStoreForConsumedRefs
  have offered := (offers_iff index).mp agrees.1
  have agreed : ∀ e ∈ index.pendingStoreBySnapshotId.entries.filter (fun e =>
      decide (e.2.2.1 ∈ spent ∧ e.2.2.2.root = u.state.storeRoot)), e.2.1 = a ∧ e.2.2.2 = s :=
    fun e member => agrees.2 _ _ ((offers_iff index).mpr ⟨e,member,rfl,rfl⟩)
  dsimp only
  split
  · grind
  · rename_i first rest found
    obtain ⟨rfl,rfl⟩ := agreed first (found ▸ List.mem_cons_self)
    rw [if_neg]
    · have collected := retain_collected index.pendingStoreBySnapshotId
        (fun entry => decide (entry.2.1 ∈ spent ∧ entry.2.2.root = u.state.storeRoot))
      refine ⟨_,rfl,?_,?_⟩
      · rw [persist_view,bindIndexed_view]
        unfold View.confirm
        congr 1
        simp only [View.dropSnapshots,AccountIndex.view,collected,HashMap.lookup_retain]
        simp only [decide_not]
      · apply persist_plain
        apply bindIndexed_plain
        exact ⟨plain.predicted,by simp only [plain.attached]; rfl⟩
    grind

theorem bindConfirmedStoreForConsumedRefs_error (disagree : ∀ a s, ¬index.view.Agrees spent u.state.storeRoot a s) :
    index.bindConfirmedStoreForConsumedRefs spent u = .error .missingStore := by
  unfold AccountIndex.bindConfirmedStoreForConsumedRefs
  dsimp only
  split
  · rfl
  · rename_i first rest found
    rw [if_pos]
    by_contra same
    refine disagree first.2.1 first.2.2.2 ⟨(offers_iff index).mpr ⟨first,found ▸ List.mem_cons_self,rfl,rfl⟩,?_⟩
    intro a s offered
    obtain ⟨e,member,rfl,rfl⟩ := (offers_iff index).mp offered
    grind

theorem bindEmptySuccessor_some (sole : index.view.Sole ids u.state.storeRoot a) :
    index.bindEmptySuccessorForConsumedAccount ids u = some (index.bindIndexed a ⟨u.finalizedOutput,.empty⟩) := by
  obtain ⟨rfl,root,waits⟩ := sole
  have waits : a ∈ index.pendingByAccountId := waits
  simp [AccountIndex.bindEmptySuccessorForConsumedAccount,fromObservedRoot_some.mpr ⟨root,rfl⟩,waits]

theorem bindEmptySuccessor_none (several : ∀ a, ¬index.view.Sole ids u.state.storeRoot a) :
    index.bindEmptySuccessorForConsumedAccount ids u = none := by
  unfold AccountIndex.bindEmptySuccessorForConsumedAccount
  split
  · split
    · rfl
    · rename_i a _ store observed
      rw [if_pos]
      intro waits
      exact several a ⟨rfl,(fromObservedRoot_some.mp observed).1,waits⟩
  · rfl

theorem observeCreatedOrUpdated_view (plain : index.Plain) (u : AlephAccountUtxo O) :
    View.Create index.view u (index.observeCreatedOrUpdated u).view ∧ (index.observeCreatedOrUpdated u).Plain := by
  unfold AccountIndex.observeCreatedOrUpdated
  have predicted : index.predictedByOutputRef.lookup u.outputRef = none := by rw [plain.predicted]; rfl
  have attached : index.pendingSnapshotByOutputRef.lookup u.outputRef = none := by rw [plain.attached]; rfl
  simp only [predicted,attached,Option.isSome_none,Bool.false_eq_true,if_false]
  have unbound : (AccountIndex.view {index with unboundByOutputRef:=index.unboundByOutputRef.insert u.outputRef u}) =
      index.view.leaveUnbound u := by
    simp only [AccountIndex.view,View.leaveUnbound,lookup_insert_fun]
  split
  · rename_i a s found
    split
    · rename_i root
      refine ⟨?_,bindIndexed_plain (by exact ⟨plain.predicted,plain.attached⟩) _ _⟩
      rw [bindIndexed_view]
      have resumed : (AccountIndex.view {index with persistedByOutputRef:=index.persistedByOutputRef.erase u.outputRef}).bind a
          ⟨u.finalizedOutput,s⟩ = index.view.resume u a s := by
        simp only [AccountIndex.view,View.resume,lookup_erase_fun]
      rw [resumed]
      exact .resume found root
    · rename_i other
      refine ⟨?_,⟨plain.predicted,plain.attached⟩⟩
      rw [unbound]
      refine .unbound fun a' s' found' => ?_
      have same : some (a,s) = some (a',s') := found.symm.trans found'
      cases same
      exact other
  · rename_i absent
    refine ⟨?_,⟨plain.predicted,plain.attached⟩⟩
    rw [unbound]
    refine .unbound fun a' s' found' => ?_
    cases absent.symm.trans found'

theorem observeProduced_view (plain : index.Plain) (spent : List OutputRef) (ids : List AccountId) (u : AlephAccountUtxo O) :
    View.Produce spent ids index.view u (AccountIndex.observeProduced spent ids index u).view ∧
      (AccountIndex.observeProduced spent ids index u).Plain := by
  unfold AccountIndex.observeProduced
  by_cases agree : ∃ a s, index.view.Agrees spent u.state.storeRoot a s
  · obtain ⟨a,s,agrees⟩ := agree
    obtain ⟨bound,ok,view,bound_plain⟩ := bindConfirmedStoreForConsumedRefs_ok agrees plain
    rw [ok]
    exact ⟨view ▸ .confirm agrees,bound_plain⟩
  · have disagree : ∀ a s, ¬index.view.Agrees spent u.state.storeRoot a s := fun a s agrees => agree ⟨a,s,agrees⟩
    rw [bindConfirmedStoreForConsumedRefs_error disagree]
    by_cases only : ∃ a, index.view.Sole ids u.state.storeRoot a
    · obtain ⟨a,sole⟩ := only
      simp only [bindEmptySuccessor_some sole]
      refine ⟨?_,bindIndexed_plain plain _ _⟩
      rw [bindIndexed_view]
      exact .empty disagree sole
    · have several : ∀ a, ¬index.view.Sole ids u.state.storeRoot a := fun a sole => only ⟨a,sole⟩
      simp only [bindEmptySuccessor_none several]
      obtain ⟨created,plain⟩ := observeCreatedOrUpdated_view plain u
      tauto

theorem fold_view {step : AccountIndex O → OutputRef → AccountIndex O} {change : View O → OutputRef → View O}
    (view : ∀ index r, (step index r).view = change index.view r) (keeps : ∀ {index}, index.Plain → ∀ r, (step index r).Plain)
    (plain : index.Plain) (refs : List OutputRef) :
    (refs.foldl step index).view = refs.foldl change index.view ∧ (refs.foldl step index).Plain := by
  induction refs generalizing index with
  | nil => exact ⟨rfl,plain⟩
  | cons r refs ih => grind

theorem observeProduced_fold (plain : index.Plain) (spent : List OutputRef) (ids : List AccountId)
    (us : List (AlephAccountUtxo O)) :
    View.Produces spent ids index.view us (us.foldl (AccountIndex.observeProduced spent ids) index).view ∧
      (us.foldl (AccountIndex.observeProduced spent ids) index).Plain := by
  induction us generalizing index with
  | nil => exact ⟨.nil,plain⟩
  | cons u us ih =>
    obtain ⟨first,middle⟩ := observeProduced_view plain spent ids u
    obtain ⟨rest,after⟩ := ih middle
    exact ⟨.cons first rest,after⟩

theorem observeTransaction_view (plain : index.Plain) (nodup : spent.Nodup) (us : List (AlephAccountUtxo O)) :
    View.Produces spent (index.view.spentIds spent) (spent.foldl View.consume index.view) us
      (index.observeTransaction spent us).view ∧ (index.observeTransaction spent us).Plain := by
  obtain ⟨view,middle⟩ := fold_view observeConsumed_view observeConsumed_plain plain spent
  obtain ⟨produces,after⟩ := observeProduced_fold middle spent (index.view.spentIds spent) us
  unfold AccountIndex.observeTransaction
  rw [nodup.dedup]
  exact ⟨view ▸ produces,after⟩

theorem bindExternalAccountIdOnce_view (plain : index.Plain) (a : AccountId) (r : OutputRef) :
    ((index.bindExternalAccountIdOnce a r).1.view = index.view ∨
      ∃ u, index.view.bound a = none ∧ index.view.owner r = none ∧ index.view.unbound r = some u ∧
        u.state.storeRoot = emptyRoot ∧ (index.bindExternalAccountIdOnce a r).1.view =
          View.bind {index.view with unbound:=Function.update index.view.unbound r none} a ⟨u.finalizedOutput,.empty⟩) ∧
      (index.bindExternalAccountIdOnce a r).1.Plain := by
  unfold AccountIndex.bindExternalAccountIdOnce
  split
  · exact ⟨.inl rfl,plain⟩
  · rename_i unregistered
    split
    · exact ⟨.inl rfl,plain⟩
    · rename_i unowned
      split
      · exact ⟨.inl rfl,plain⟩
      · rename_i u observed
        have erased : (AccountIndex.view {index with unboundByOutputRef:=index.unboundByOutputRef.erase r}) =
            {index.view with unbound:=Function.update index.view.unbound r none} := by
          simp only [AccountIndex.view,lookup_erase_fun]
        dsimp only
        split
        · refine ⟨.inl ?_,⟨plain.predicted,plain.attached⟩⟩
          have back : Function.update (Function.update (fun r => index.unboundByOutputRef.lookup r) r none) r (some u) =
              fun r => index.unboundByOutputRef.lookup r := by grind
          simp only [AccountIndex.view,lookup_insert_fun,lookup_erase_fun,back]
        · rename_i store root
          obtain ⟨empty,rfl⟩ := fromObservedRoot_some.mp root
          refine ⟨.inr ⟨u,?_,?_,observed,empty,?_⟩,bindIndexed_plain (by exact ⟨plain.predicted,plain.attached⟩) _ _⟩
          · exact Option.not_isSome_iff_eq_none.mp (fun bound => unregistered (.inl bound))
          · exact Option.not_isSome_iff_eq_none.mp (fun owner => unowned (.inl owner))
          · rw [bindIndexed_view,erased]

end
end GreenAgent.Account
