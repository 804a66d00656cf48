import GreenAgent.Account.Observe

namespace GreenAgent.Account
open Mpf (Bytes Digest emptyRoot)

-- The index as the partial functions its maps stand for. Iteration order and
-- the persisted file are gone; the two maps that only the output-prediction
-- calls fill are left out and required to be empty.
@[ext] structure View (O : Type) where
  bound : AccountId → Option (IndexedAccount O)
  owner : OutputRef → Option AccountId
  unbound : OutputRef → Option (AlephAccountUtxo O)
  persisted : OutputRef → Option (AccountId × AccountStore)
  pending : Finset AccountId
  rollback : OutputRef → Option (AccountId × IndexedAccount O)
  snapshots : Nat → Option (AccountId × OutputRef × AccountStore)
  next : Nat

@[grind cases eager] structure AccountIndex.Plain (index : AccountIndex O) : Prop where
  predicted : index.predictedByOutputRef = ∅
  attached : index.pendingSnapshotByOutputRef = ∅

def AccountIndex.view (index : AccountIndex O) : View O where
  bound := fun a => index.byAccountId.lookup a
  owner := fun r => index.byOutputRef.lookup r
  unbound := fun r => index.unboundByOutputRef.lookup r
  persisted := fun r => index.persistedByOutputRef.lookup r
  pending := index.pendingByAccountId
  rollback := fun r => index.rollbackBySpentRef.lookup r
  snapshots := fun n => index.pendingStoreBySnapshotId.lookup n
  next := index.nextSnapshotId

namespace View
variable {O : Type}

def bind (v : View O) (a : AccountId) (i : IndexedAccount O) : View O := {v with
  bound:=Function.update v.bound a (some i),
  owner:=Function.update (match v.bound a with
    | some previous => Function.update v.owner previous.utxo.reference none
    | none => v.owner) i.utxo.reference (some a),
  pending:=v.pending.erase a,
  unbound:=Function.update v.unbound i.utxo.reference none}

def remove (v : View O) (r : OutputRef) : View O :=
  match v.owner r with
  | none => {v with unbound:=Function.update v.unbound r none}
  | some a => {v with
      owner:=Function.update v.owner r none,
      bound:=Function.update v.bound a none,
      pending:=Insert.insert a v.pending,
      unbound:=Function.update v.unbound r none}

-- Who is bound at an output, with the record kept for it.
def holder (v : View O) (r : OutputRef) : Option (AccountId × IndexedAccount O) :=
  (v.owner r).bind (fun a => (v.bound a).map (fun i => (a,i)))

def consume (v : View O) (r : OutputRef) : View O :=
  {v.remove r with rollback:=Function.update v.rollback r ((v.holder r).or (v.rollback r))}

def dropSnapshots (v : View O) (gone : AccountId × OutputRef × AccountStore → Prop) [DecidablePred gone] : View O :=
  {v with snapshots:=fun n => (v.snapshots n).filter (fun entry => decide (¬gone entry))}

def unconsume (v : View O) (r : OutputRef) : View O :=
  (match v.rollback r with
    | some (a,i) => bind {v with rollback:=Function.update v.rollback r none} a i
    | none => v).dropSnapshots (fun entry => entry.2.1 = r)

def reserve (v : View O) (a : AccountId) (r : OutputRef) (store : AccountStore) : View O := {v with
  owner:=Function.update v.owner r none,
  bound:=Function.update v.bound a none,
  rollback:=match v.bound a with
    | some i => Function.update v.rollback r (some (a,i))
    | none => v.rollback,
  pending:=Insert.insert a v.pending,
  snapshots:=Function.update v.snapshots v.next (some (a,r,store)),
  next:=v.next+1}

section Fields
variable (v : View O) (r r' : OutputRef) (a b : AccountId) (i : IndexedAccount O)

@[simp, grind =] theorem bind_bound : (v.bind a i).bound b = if b = a then some i else v.bound b := by
  simp only [bind,Function.update_apply]

@[simp, grind =] theorem bind_unbound : (v.bind a i).unbound r = if r = i.utxo.reference then none else v.unbound r := by
  simp only [bind,Function.update_apply]

@[simp, grind =] theorem bind_pending : b ∈ (v.bind a i).pending ↔ b ≠ a ∧ b ∈ v.pending := by
  simp only [bind,Finset.mem_erase]

@[simp, grind =] theorem bind_persisted : (v.bind a i).persisted = v.persisted := rfl
@[simp, grind =] theorem bind_rollback : (v.bind a i).rollback = v.rollback := rfl
@[simp, grind =] theorem bind_snapshots : (v.bind a i).snapshots = v.snapshots := rfl
@[simp, grind =] theorem bind_next : (v.bind a i).next = v.next := rfl

@[simp, grind =] theorem remove_owner : (v.remove r).owner r' = if r' = r then none else v.owner r' := by
  unfold remove
  cases found : v.owner r with
  | none => grind
  | some a => simp only [Function.update_apply]

@[simp, grind =] theorem remove_bound : (v.remove r).bound b = if v.owner r = some b then none else v.bound b := by
  unfold remove
  cases v.owner r with
  | none => simp
  | some a => simp only [Function.update_apply,Option.some.injEq,eq_comm]

@[simp, grind =] theorem remove_unbound : (v.remove r).unbound r' = if r' = r then none else v.unbound r' := by
  unfold remove
  cases v.owner r <;> simp only [Function.update_apply]

@[simp, grind =] theorem remove_pending : b ∈ (v.remove r).pending ↔ v.owner r = some b ∨ b ∈ v.pending := by
  unfold remove
  cases v.owner r with
  | none => simp
  | some a => simp only [Finset.mem_insert,Option.some.injEq,eq_comm]

@[simp, grind =] theorem remove_persisted : (v.remove r).persisted = v.persisted := by
  unfold remove; cases v.owner r <;> rfl

@[simp, grind =] theorem remove_rollback : (v.remove r).rollback = v.rollback := by
  unfold remove; cases v.owner r <;> rfl

@[simp, grind =] theorem remove_snapshots : (v.remove r).snapshots = v.snapshots := by
  unfold remove; cases v.owner r <;> rfl

@[simp, grind =] theorem remove_next : (v.remove r).next = v.next := by
  unfold remove; cases v.owner r <;> rfl

@[simp, grind =] theorem consume_owner : (v.consume r).owner r' = if r' = r then none else v.owner r' := remove_owner ..
@[simp, grind =] theorem consume_bound : (v.consume r).bound b = if v.owner r = some b then none else v.bound b := remove_bound ..
@[simp, grind =] theorem consume_unbound : (v.consume r).unbound r' = if r' = r then none else v.unbound r' := remove_unbound ..
@[simp, grind =] theorem consume_pending : b ∈ (v.consume r).pending ↔ v.owner r = some b ∨ b ∈ v.pending := remove_pending ..
@[simp, grind =] theorem consume_persisted : (v.consume r).persisted = v.persisted := remove_persisted ..
@[simp, grind =] theorem consume_snapshots : (v.consume r).snapshots = v.snapshots := remove_snapshots ..
@[simp, grind =] theorem consume_next : (v.consume r).next = v.next := remove_next ..

@[simp, grind =] theorem consume_rollback :
    (v.consume r).rollback r' = if r' = r then (v.holder r).or (v.rollback r) else v.rollback r' := by
  simp only [consume,Function.update_apply]

end Fields
end View

section
variable {O : Type} {index : AccountIndex O}

theorem persist_view (index : AccountIndex O) : index.persistAccountStores.view = index.view := by
  unfold AccountIndex.persistAccountStores
  split <;> rfl

theorem persist_plain (plain : index.Plain) : index.persistAccountStores.Plain := by
  unfold AccountIndex.persistAccountStores
  split
  · exact plain
  · exact ⟨plain.predicted,plain.attached⟩

theorem lookup_erase_fun (m : HashMap K V) [DecidableEq K] (k : K) :
    (fun key => (AList.erase k m).lookup key) = Function.update (fun key => m.lookup key) k none := by
  funext key
  rw [HashMap.lookup_erase,Function.update_apply]

theorem lookup_insert_fun (m : HashMap K V) [DecidableEq K] (k : K) (v : V) :
    (fun key => (AList.insert k v m).lookup key) = Function.update (fun key => m.lookup key) k (some v) := by
  funext key
  rw [HashMap.lookup_insert,Function.update_apply]

theorem bindIndexed_view (index : AccountIndex O) (a : AccountId) (i : IndexedAccount O) :
    (index.bindIndexed a i).view = index.view.bind a i := by
  unfold AccountIndex.bindIndexed
  rw [persist_view]
  simp only [AccountIndex.view,View.bind,lookup_insert_fun,lookup_erase_fun]
  cases index.byAccountId.lookup a with
  | none => simp
  | some previous => simp [lookup_erase_fun]

theorem update_none_self [DecidableEq α] (f : α → Option β) (absent : f a = none) : Function.update f a none = f := by
  rw [← absent,Function.update_eq_self]

theorem observeConsumed_view (index : AccountIndex O) (r : OutputRef) :
    (index.observeConsumed r).view = index.view.consume r := by
  unfold AccountIndex.observeConsumed AccountIndex.removeBoundOutput
  rw [persist_view]
  simp only [View.consume,View.remove,View.holder]
  cases owner : index.byOutputRef.lookup r with
  | none =>
    have absent : Function.update (fun r => index.byOutputRef.lookup r) r none = fun r => index.byOutputRef.lookup r :=
      update_none_self _ owner
    simp [AccountIndex.view,lookup_erase_fun,owner,absent]
  | some a =>
    cases bound : index.byAccountId.lookup a with
    | none =>
      have absent : Function.update (fun a => index.byAccountId.lookup a) a none = fun a => index.byAccountId.lookup a :=
        update_none_self _ bound
      simp [AccountIndex.view,lookup_erase_fun,owner,bound,absent]
    | some i => simp [AccountIndex.view,lookup_erase_fun,lookup_insert_fun,owner,bound]

theorem observeRemovedOutput_view (index : AccountIndex O) (r : OutputRef) :
    (index.observeRemovedOutput r).view = index.view.remove r := by
  unfold AccountIndex.observeRemovedOutput AccountIndex.removeBoundOutput
  rw [persist_view]
  simp only [View.remove]
  cases owner : index.byOutputRef.lookup r with
  | none =>
    have absent : Function.update (fun r => index.byOutputRef.lookup r) r none = fun r => index.byOutputRef.lookup r :=
      update_none_self _ owner
    simp only [AccountIndex.view,lookup_erase_fun,owner,absent]
  | some a => simp only [AccountIndex.view,lookup_erase_fun,owner]

theorem retain_view (index : AccountIndex O) (r : OutputRef) (attached : HashMap OutputRef Nat) :
    AccountIndex.view {index with
      pendingStoreBySnapshotId:=HashMap.retain (fun _ entry => decide (entry.2.1 ≠ r)) index.pendingStoreBySnapshotId,
      pendingSnapshotByOutputRef:=attached} = index.view.dropSnapshots (fun entry => entry.2.1 = r) := by
  simp only [View.dropSnapshots,AccountIndex.view,HashMap.lookup_retain,ne_eq]

theorem observeRollbackConsumed_view (index : AccountIndex O) (r : OutputRef) :
    (index.observeRollbackConsumed r).view = index.view.unconsume r := by
  unfold AccountIndex.observeRollbackConsumed View.unconsume
  rw [persist_view]
  refine (retain_view _ r _).trans ?_
  congr 1
  cases spent : index.rollbackBySpentRef.lookup r with
  | none => simp only [AccountIndex.view,spent]
  | some entry =>
    obtain ⟨a,i⟩ := entry
    simp only [bindIndexed_view]
    simp only [AccountIndex.view,lookup_erase_fun,spent]

theorem reserve_view (index : AccountIndex O) (a : AccountId) (r : OutputRef) (store : AccountStore) :
    (index.reservePredictedStoreSnapshot a r store).1.view = index.view.reserve a r store := by
  unfold AccountIndex.reservePredictedStoreSnapshot AccountIndex.removeBoundOutput
  simp only [persist_view,View.reserve]
  cases bound : index.byAccountId.lookup a with
  | none =>
    have absent : Function.update (fun a => index.byAccountId.lookup a) a none = fun a => index.byAccountId.lookup a :=
      update_none_self _ bound
    simp only [AccountIndex.view,lookup_erase_fun,lookup_insert_fun,bound,absent]
  | some i => simp only [AccountIndex.view,lookup_erase_fun,lookup_insert_fun,bound]

-- Snapshot ids are the keys of one map, so removing by id removes just the
-- entries the ids were collected from.
theorem retain_collected (m : HashMap Nat V) (chosen : V → Bool) :
    HashMap.retain (fun n _ => decide (n ∉ (m.entries.filter (fun e => chosen e.2)).map (fun e => e.1))) m =
      HashMap.retain (fun _ entry => !chosen entry) m := by
  apply AList.ext
  apply List.filter_congr
  rintro ⟨n,entry⟩ member
  have found := HashMap.mem_entries.mp member
  by_cases pick : chosen entry = true
  · simp only [pick,Bool.not_true,decide_eq_false_iff_not,not_not]
    exact List.mem_map.mpr ⟨⟨n,entry⟩,List.mem_filter.mpr ⟨member,pick⟩,rfl⟩
  · simp only [Bool.not_eq_true] at pick
    simp only [pick,Bool.not_false,decide_eq_true_eq]
    intro listed
    obtain ⟨⟨n',entry'⟩,inside,rfl⟩ := List.mem_map.mp listed
    obtain ⟨member',pick'⟩ := List.mem_filter.mp inside
    have found' := HashMap.mem_entries.mp member'
    grind

theorem removePendingSnapshotsFor_view (index : AccountIndex O) (a : AccountId) (r : OutputRef) :
    (index.removePendingSnapshotsFor a r).view = index.view.dropSnapshots (fun entry => entry.1 = a ∧ entry.2.1 = r) := by
  unfold AccountIndex.removePendingSnapshotsFor
  dsimp only
  split
  · rename_i none
    simp only [View.dropSnapshots,AccountIndex.view]
    congr 1
    funext n
    cases found : index.pendingStoreBySnapshotId.lookup n with
    | none => rfl
    | some entry =>
      have away : ¬(entry.1 = a ∧ entry.2.1 = r) := by
        intro hit
        have listed : n ∈ (index.pendingStoreBySnapshotId.entries.filter
            (fun e => decide (e.2.1 = a ∧ e.2.2.1 = r))).map (fun e => e.1) :=
          List.mem_map.mpr ⟨⟨n,entry⟩,List.mem_filter.mpr ⟨HashMap.mem_entries.mpr found,by simpa using hit⟩,rfl⟩
        grind
      grind
  · have collected := retain_collected index.pendingStoreBySnapshotId
      (fun entry => decide (entry.1 = a ∧ entry.2.1 = r))
    simp only [View.dropSnapshots,AccountIndex.view,collected,HashMap.lookup_retain]
    simp only [decide_not]

theorem erase_empty [DecidableEq K] (k : K) : AList.erase k (∅ : HashMap K V) = ∅ := rfl

theorem bindIndexed_plain (plain : index.Plain) (a : AccountId) (i : IndexedAccount O) : (index.bindIndexed a i).Plain :=
  persist_plain ⟨plain.predicted,plain.attached⟩

theorem observeConsumed_plain (plain : index.Plain) (r : OutputRef) : (index.observeConsumed r).Plain := by
  unfold AccountIndex.observeConsumed AccountIndex.removeBoundOutput
  apply persist_plain
  cases owner : index.byOutputRef.lookup r with
  | none => exact ⟨by simp only [plain.predicted,erase_empty],plain.attached⟩
  | some a =>
    cases bound : index.byAccountId.lookup a <;>
      exact ⟨by simp only [bound,plain.predicted,erase_empty],by simp only [bound,plain.attached]⟩

theorem observeRemovedOutput_plain (plain : index.Plain) (r : OutputRef) : (index.observeRemovedOutput r).Plain := by
  unfold AccountIndex.observeRemovedOutput AccountIndex.removeBoundOutput
  apply persist_plain
  cases owner : index.byOutputRef.lookup r <;> exact ⟨by simp only [plain.predicted,erase_empty],plain.attached⟩

theorem observeRollbackConsumed_plain (plain : index.Plain) (r : OutputRef) : (index.observeRollbackConsumed r).Plain := by
  unfold AccountIndex.observeRollbackConsumed
  apply persist_plain
  cases spent : index.rollbackBySpentRef.lookup r with
  | none => exact ⟨plain.predicted,by simp only [plain.attached]; rfl⟩
  | some entry =>
    have erased : AccountIndex.Plain {index with rollbackBySpentRef:=index.rollbackBySpentRef.erase r} :=
      ⟨plain.predicted,plain.attached⟩
    have bound := bindIndexed_plain erased entry.1 entry.2
    exact ⟨bound.predicted,by simp only [bound.attached]; rfl⟩

theorem reserve_plain (plain : index.Plain) (a : AccountId) (r : OutputRef) (store : AccountStore) :
    (index.reservePredictedStoreSnapshot a r store).1.Plain := by
  unfold AccountIndex.reservePredictedStoreSnapshot AccountIndex.removeBoundOutput
  apply persist_plain
  dsimp only
  cases index.byAccountId.lookup a <;> exact ⟨plain.predicted,plain.attached⟩

theorem removePendingSnapshotsFor_plain (plain : index.Plain) (a : AccountId) (r : OutputRef) :
    (index.removePendingSnapshotsFor a r).Plain := by
  unfold AccountIndex.removePendingSnapshotsFor
  dsimp only
  split
  · exact plain
  · exact ⟨plain.predicted,by simp only [plain.attached]; rfl⟩

end
end GreenAgent.Account
