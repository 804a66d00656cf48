import GreenAgent.Account.View
import GreenAgent.Mpf.Steps

namespace GreenAgent.Account
open Mpf (Bytes Digest emptyRoot bind_ok)

-- The three planner calls an executor can make for an order: a Sig partial
-- fill, a Path partial fill, and a Path completion.
inductive PlanCall where
  | sigInsert (orderId : GreenOrderId) (key : Bytes) (intent : AlephIntention)
  | pathUpdate (key : Bytes) (oldDigest : Digest) (intent : AlephIntention)
  | pathCompletion (key : Bytes) (oldDigest : Digest)

section
variable {O : Type} (ext : Externals O)

-- The call on the index, with the store root the executor writes into the next
-- account datum and the id of the reserved snapshot.
def PlanCall.run (index : AccountIndex O) (a : AccountId) (r : OutputRef) : PlanCall → Except Failure (AccountIndex O × Digest × Nat)
  | .sigInsert orderId key intent => do
    let (index,planned) ← index.planSigInsert ext a r orderId key intent
    return (index,planned.newRoot,planned.predictedSnapshotId)
  | .pathUpdate key oldDigest intent => do
    let (index,planned) ← index.planPathUpdate ext a r key oldDigest intent
    return (index,planned.newRoot,planned.predictedSnapshotId)
  | .pathCompletion key oldDigest => do
    let (index,planned) ← index.planPathCompletion ext a r key oldDigest
    return (index,planned.root,planned.predictedSnapshotId)

def PlanCall.predict (store : AccountStore) : PlanCall → Except Failure AccountStore
  | .sigInsert orderId key intent => (store.insertRemaining ext key orderId intent).map Prod.fst
  | .pathUpdate key oldDigest intent => (store.updateRemaining ext key oldDigest intent).map Prod.fst
  | .pathCompletion key oldDigest => (store.markCompleted ext key oldDigest).map Prod.fst

end

namespace View
variable {O : Type}

-- The stores a plan may start from: that of the bound account, or that of the
-- output an unconfirmed plan has already taken.
inductive Base (v : View O) (a : AccountId) (r : OutputRef) : AccountStore → Prop where
  | bound (bound : v.bound a = some i) (at_ref : i.utxo.reference = r) : Base v a r i.store
  | replan (unbound : v.bound a = none) (waits : a ∈ v.pending) (taken : v.rollback r = some (b,i))
      (pending : v.snapshots n = some (a,r,s)) : Base v a r i.store

def plan (v : View O) (a : AccountId) (r : OutputRef) (p : AccountStore) : View O :=
  (v.dropSnapshots (fun entry => entry.1 = a ∧ entry.2.1 = r)).reserve a r p

section Fields
variable (v : View O) (a b : AccountId) (r r' : OutputRef) (p : AccountStore)

@[simp, grind =] theorem plan_bound : (v.plan a r p).bound b = if b = a then none else v.bound b := by
  simp only [plan,reserve,dropSnapshots,Function.update_apply]

@[simp, grind =] theorem plan_owner : (v.plan a r p).owner r' = if r' = r then none else v.owner r' := by
  simp only [plan,reserve,dropSnapshots,Function.update_apply]

@[simp, grind =] theorem plan_unbound : (v.plan a r p).unbound = v.unbound := rfl
@[simp, grind =] theorem plan_persisted : (v.plan a r p).persisted = v.persisted := rfl
@[simp, grind =] theorem plan_next : (v.plan a r p).next = v.next+1 := rfl

@[simp, grind =] theorem plan_pending : b ∈ (v.plan a r p).pending ↔ b = a ∨ b ∈ v.pending := by
  simp only [plan,reserve,dropSnapshots,Finset.mem_insert]

@[simp, grind =] theorem plan_rollback : (v.plan a r p).rollback r' =
    if r' = r then ((v.bound a).map (fun i => (a,i))).or (v.rollback r) else v.rollback r' := by
  simp only [plan,reserve,dropSnapshots]
  cases v.bound a with
  | none =>
    by_cases same : r' = r
    · subst r'; simp
    · simp [same]
  | some i => simp only [Function.update_apply,Option.map_some,Option.some_or]

theorem plan_snapshots {n : Nat} {e : AccountId × OutputRef × AccountStore} :
    (v.plan a r p).snapshots n = some e ↔ if n = v.next then e = (a,r,p) else v.snapshots n = some e ∧ ¬(e.1 = a ∧ e.2.1 = r) := by
  simp only [plan,reserve,dropSnapshots,Function.update_apply]
  split
  · exact ⟨fun found => (Option.some.inj found).symm,fun same => same ▸ rfl⟩
  · rw [Option.filter_eq_some_iff]
    simp only [decide_eq_true_eq]

end Fields
end View

section
variable {O : Type} {ext : Externals O} {index : AccountIndex O}

theorem storeForPlanning_some : index.storeForPlanning a r = some base ↔ index.view.Base a r base := by
  unfold AccountIndex.storeForPlanning
  constructor
  · intro found
    split at found
    · rename_i i bound
      split at found
      · cases found
      · rename_i at_ref
        cases found
        exact .bound bound (not_not.mp at_ref)
    · rename_i unbound
      split at found
      · cases found
      · rename_i ready
        obtain ⟨waits,taken⟩ := not_or.mp ready
        split at found
        · rename_i pending
          obtain ⟨⟨a',r',s⟩,member,same⟩ := List.any_eq_true.mp pending
          obtain ⟨rfl,rfl⟩ := of_decide_eq_true same
          obtain ⟨n,entry⟩ := HashMap.mem_values.mp member
          obtain ⟨⟨b,i⟩,spent,rfl⟩ := Option.map_eq_some_iff.mp found
          exact .replan unbound (not_not.mp waits) spent entry
        · cases found
  · intro from_base
    cases from_base with
    | bound bound at_ref =>
      have bound : index.byAccountId.lookup a = some _ := bound
      simp [bound,at_ref]
    | @replan b i n s unbound waits taken pending =>
      have unbound : index.byAccountId.lookup a = none := unbound
      have waits : a ∈ index.pendingByAccountId := waits
      have taken : index.rollbackBySpentRef.lookup r = some (b,i) := taken
      have pending : (HashMap.values index.pendingStoreBySnapshotId).any
          (fun pending => decide (pending.1 = a ∧ pending.2.1 = r)) = true :=
        List.any_eq_true.mpr ⟨(a,r,s),HashMap.mem_values.mpr ⟨n,pending⟩,decide_eq_true ⟨rfl,rfl⟩⟩
      simp only [unbound,taken,pending,waits,not_true,Option.isNone_some,Bool.false_eq_true,or_self,if_false,if_true,
        Option.map_some]

theorem planWith_ok {change : AccountStore → Except Failure (AccountStore × α)}
    (planned : index.planWith a r change = .ok (after,x,n)) :
    ∃ base p, index.view.Base a r base ∧ change base = .ok (p,x) ∧
      (index.removePendingSnapshotsFor a r).reservePredictedStoreSnapshot a r p = (after,n) := by
  unfold AccountIndex.planWith at planned
  dsimp only at planned
  split at planned
  case h_2 =>
    obtain ⟨_,impossible,_⟩ := bind_ok.mp planned
    cases impossible
  rename_i base stored
  obtain ⟨_,found,planned⟩ := bind_ok.mp planned
  cases found
  obtain ⟨⟨p,y⟩,changed,planned⟩ := bind_ok.mp planned
  cases planned
  exact ⟨base,p,storeForPlanning_some.mp stored,changed,rfl⟩

theorem insertRemaining_root (changed : AccountStore.insertRemaining ext store key orderId intent = .ok (p,delta)) :
    delta.newRoot = p.root := by
  unfold AccountStore.insertRemaining at changed
  split at changed
  · cases changed
  · obtain ⟨proof,_,changed⟩ := bind_ok.mp changed
    obtain ⟨root,_,changed⟩ := bind_ok.mp changed
    cases changed
    rfl

theorem updateRemaining_root (changed : AccountStore.updateRemaining ext store key oldDigest intent = .ok (p,delta)) :
    delta.newRoot = p.root := by
  unfold AccountStore.updateRemaining at changed
  obtain ⟨proof,_,changed⟩ := bind_ok.mp changed
  obtain ⟨leaf,_,changed⟩ := bind_ok.mp changed
  obtain ⟨root,_,changed⟩ := bind_ok.mp changed
  cases changed
  rfl

theorem markCompleted_root (changed : AccountStore.markCompleted ext store key oldDigest = .ok (p,completion)) :
    completion.root = p.root := by
  unfold AccountStore.markCompleted at changed
  obtain ⟨proof,_,changed⟩ := bind_ok.mp changed
  obtain ⟨leaf,_,changed⟩ := bind_ok.mp changed
  split at changed
  · obtain ⟨_,_,impossible⟩ := bind_ok.mp changed
    cases impossible
  · cases changed
    rfl

theorem unsupported_ok {x : Except Mpf.MpfError α} : unsupported x = .ok y ↔ x = .ok y := by
  cases x <;> simp [unsupported]

theorem map_ok {x : Except ε α} {f : α → β} : x.map f = .ok y ↔ ∃ a, x = .ok a ∧ f a = y := by
  cases x <;> simp [Except.map]

theorem predict_hashed {call : PlanCall} (predicted : call.predict ext base = .ok p) : ∃ s, p.root = ext.blake2b256 s := by
  cases call with
  | sigInsert orderId key intent =>
    obtain ⟨⟨_,_⟩,changed,rfl⟩ := map_ok.mp predicted
    unfold AccountStore.insertRemaining at changed
    split at changed
    · cases changed
    · obtain ⟨proof,_,changed⟩ := bind_ok.mp changed
      obtain ⟨root,inserted,changed⟩ := bind_ok.mp changed
      cases changed
      obtain ⟨old,_,inserted⟩ := bind_ok.mp (unsupported_ok.mp inserted)
      split at inserted
      · cases inserted
      · exact Mpf.including_hashed inserted
  | pathUpdate key oldDigest intent =>
    obtain ⟨⟨_,_⟩,changed,rfl⟩ := map_ok.mp predicted
    unfold AccountStore.updateRemaining at changed
    obtain ⟨proof,_,changed⟩ := bind_ok.mp changed
    obtain ⟨leaf,_,changed⟩ := bind_ok.mp changed
    obtain ⟨root,updated,changed⟩ := bind_ok.mp changed
    cases changed
    obtain ⟨old,_,updated⟩ := bind_ok.mp (unsupported_ok.mp updated)
    split at updated
    · cases updated
    · exact Mpf.including_hashed updated
  | pathCompletion key oldDigest =>
    obtain ⟨⟨_,_⟩,changed,rfl⟩ := map_ok.mp predicted
    unfold AccountStore.markCompleted at changed
    obtain ⟨proof,_,changed⟩ := bind_ok.mp changed
    obtain ⟨leaf,_,changed⟩ := bind_ok.mp changed
    split at changed
    · obtain ⟨_,_,impossible⟩ := bind_ok.mp changed
      cases impossible
    · rename_i held
      cases changed
      simp only [Bool.not_eq_true,Bool.not_eq_false',Mpf.has,decide_eq_true_eq] at held
      exact Mpf.including_hashed held

-- What a planner call that returns has done to the index.
@[grind cases eager] structure PlanCall.Done (ext : Externals O) (call : PlanCall) (index : AccountIndex O) (a : AccountId) (r : OutputRef)
    (after : AccountIndex O) (n : Nat) (base p : AccountStore) : Prop where
  from_base : index.view.Base a r base
  predicted : call.predict ext base = .ok p
  reserved : (index.removePendingSnapshotsFor a r).reservePredictedStoreSnapshot a r p = (after,n)

theorem PlanCall.Done.view {call : PlanCall} (done : call.Done ext index a r after n base p) :
    after.view = index.view.plan a r p ∧ n = index.view.next := by
  have same : ((index.removePendingSnapshotsFor a r).reservePredictedStoreSnapshot a r p).1.view = index.view.plan a r p := by
    rw [reserve_view,removePendingSnapshotsFor_view]
    rfl
  have next : (index.removePendingSnapshotsFor a r).view.next = index.view.next := by
    rw [removePendingSnapshotsFor_view]
    rfl
  have id : (index.removePendingSnapshotsFor a r).view.next =
      ((index.removePendingSnapshotsFor a r).reservePredictedStoreSnapshot a r p).2 := rfl
  rw [done.reserved] at same id
  exact ⟨same,id.symm.trans next⟩

theorem PlanCall.Done.plain {call : PlanCall} (done : call.Done ext index a r after n base p) (plain : index.Plain) : after.Plain := by
  have kept := reserve_plain (removePendingSnapshotsFor_plain plain a r) a r p
  rw [done.reserved] at kept
  exact kept

theorem PlanCall.run_ok (call : PlanCall) (planned : call.run ext index a r = .ok (after,root,n)) :
    ∃ base p, call.Done ext index a r after n base p ∧ root = p.root := by
  cases call with
  | sigInsert orderId key intent =>
    obtain ⟨⟨_,delta⟩,returned,done⟩ := bind_ok.mp planned
    cases done
    obtain ⟨⟨_,change,m⟩,inner,done⟩ := bind_ok.mp returned
    cases done
    obtain ⟨base,p,from_base,changed,reserved⟩ := planWith_ok inner
    refine ⟨base,p,⟨from_base,?_,reserved⟩,insertRemaining_root changed⟩
    simp only [PlanCall.predict,changed]
    rfl
  | pathUpdate key oldDigest intent =>
    obtain ⟨⟨_,delta⟩,returned,done⟩ := bind_ok.mp planned
    cases done
    obtain ⟨⟨_,change,m⟩,inner,done⟩ := bind_ok.mp returned
    cases done
    obtain ⟨base,p,from_base,changed,reserved⟩ := planWith_ok inner
    refine ⟨base,p,⟨from_base,?_,reserved⟩,updateRemaining_root changed⟩
    simp only [PlanCall.predict,changed]
    rfl
  | pathCompletion key oldDigest =>
    obtain ⟨⟨_,completion⟩,returned,done⟩ := bind_ok.mp planned
    cases done
    obtain ⟨⟨_,change,m⟩,inner,done⟩ := bind_ok.mp returned
    cases done
    obtain ⟨base,p,from_base,changed,reserved⟩ := planWith_ok inner
    refine ⟨base,p,⟨from_base,?_,reserved⟩,markCompleted_root changed⟩
    simp only [PlanCall.predict,changed]
    rfl

end
end GreenAgent.Account
