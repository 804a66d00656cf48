import GreenAgent.Account.Concurrency

namespace GreenAgent.Account
open Mpf (Bytes Digest emptyRoot digestOf bind_ok)

-- What a planner call answers, the id of the reserved snapshot apart.
inductive PlanAnswer where
  | delta (oldRoot newRoot : Digest) (proof : Bytes)
  | completion (root : Digest) (proof : Bytes)
deriving DecidableEq

section
variable {O : Type} (ext : Externals O)

def PlanCall.plan (call : PlanCall) (index : AccountIndex O) (a : AccountId) (r : OutputRef) : Except Failure (AccountIndex O × PlanAnswer) :=
  match call with
  | .sigInsert orderId key intent => do
    let (index,planned) ← index.planSigInsert ext a r orderId key intent
    return (index,.delta planned.oldRoot planned.newRoot planned.proof)
  | .pathUpdate key oldDigest intent => do
    let (index,planned) ← index.planPathUpdate ext a r key oldDigest intent
    return (index,.delta planned.oldRoot planned.newRoot planned.proof)
  | .pathCompletion key oldDigest => do
    let (index,planned) ← index.planPathCompletion ext a r key oldDigest
    return (index,.completion planned.root planned.proof)

-- A call that fails has changed nothing.
def PlanCall.once (call : PlanCall) (index : AccountIndex O) (a : AccountId) (r : OutputRef) : AccountIndex O × Except Failure PlanAnswer :=
  match call.plan ext index a r with
  | .ok (after,answer) => (after,.ok answer)
  | .error fault => (index,.error fault)

def PlanCall.repeated (call : PlanCall) (index : AccountIndex O) (a : AccountId) (r : OutputRef) :
    Nat → AccountIndex O × List (Except Failure PlanAnswer)
  | 0 => (index,[])
  | n+1 =>
    let (middle,answers) := call.repeated index a r n
    let (after,answer) := call.once ext middle a r
    (after,answer :: answers)

-- The store operation of a call, with the answer made of it.
def PlanCall.answer (store : AccountStore) : PlanCall → Except Failure (AccountStore × PlanAnswer)
  | .sigInsert orderId key intent => (store.insertRemaining ext key orderId intent).map
      (fun (after,delta) => (after,.delta delta.oldRoot delta.newRoot delta.proof))
  | .pathUpdate key oldDigest intent => (store.updateRemaining ext key oldDigest intent).map
      (fun (after,delta) => (after,.delta delta.oldRoot delta.newRoot delta.proof))
  | .pathCompletion key oldDigest => (store.markCompleted ext key oldDigest).map
      (fun (after,completion) => (after,.completion completion.root completion.proof))

end

-- All that the index holds and says about one account.
@[grind cases eager] structure Untouched (b : AccountId) (before after : AccountIndex O) : Prop where
  bound : after.byAccountId.lookup b = before.byAccountId.lookup b
  outputs : ∀ r, after.byOutputRef.lookup r = some b ↔ before.byOutputRef.lookup r = some b
  waits : b ∈ after.pendingByAccountId ↔ b ∈ before.pendingByAccountId
  plans : ∀ n r s, after.pendingStoreBySnapshotId.lookup n = some (b,r,s) ↔ before.pendingStoreBySnapshotId.lookup n = some (b,r,s)
  records : ∀ r i, after.rollbackBySpentRef.lookup r = some (b,i) ↔ before.rollbackBySpentRef.lookup r = some (b,i)
  saved : ∀ r s, after.persistedByOutputRef.lookup r = some (b,s) ↔ before.persistedByOutputRef.lookup r = some (b,s)
  base : ∀ r, after.storeForPlanning b r = before.storeForPlanning b r
  candidates : ∀ u, after.Candidate b u ↔ before.Candidate b u

-- Repeating the call changes nothing that its first run has not changed.
@[grind cases eager] structure PlansIdempotently (ext : Externals O) (call : PlanCall) (index : AccountIndex O) (a : AccountId) (i : IndexedAccount O)
    (p : AccountStore) (answer : PlanAnswer) : Prop where
  answers : ∀ n, (call.repeated ext index a i.utxo.reference n).2 = List.replicate n (.ok answer)
  single : ∀ n, ∃ k, ∀ m s, (call.repeated ext index a i.utxo.reference (n+1)).1.pendingStoreBySnapshotId.lookup m =
    some (a,i.utxo.reference,s) ↔ m = k ∧ s = p
  base : ∀ n u, (call.repeated ext index a i.utxo.reference n).1.Candidate a u ↔ u = i.utxo
  others : ∀ n b, b ≠ a → Untouched b index (call.repeated ext index a i.utxo.reference n).1

-- Nobody else has to do with the output, and the account has no other plan that
-- an output is kept for.
@[grind cases eager] structure Alone (index : AccountIndex O) (a : AccountId) (i : IndexedAccount O) : Prop where
  elsewhere : ∀ n r s, index.pendingStoreBySnapshotId.lookup n = some (a,r,s) → r ≠ i.utxo.reference → index.rollbackBySpentRef.lookup r = none
  owner : ∀ b, index.byOutputRef.lookup i.utxo.reference = some b → b = a
  record : ∀ b j, index.rollbackBySpentRef.lookup i.utxo.reference = some (b,j) → b = a
  waiting : ∀ n b s, index.pendingStoreBySnapshotId.lookup n = some (b,i.utxo.reference,s) → b ≠ a → b ∈ index.pendingByAccountId →
    index.byAccountId.lookup b = none → ∃ j, index.rollbackBySpentRef.lookup i.utxo.reference = some (a,j) ∧ j.store = i.store

section
variable {O : Type} {ext : Externals O} {txs : Digest → TxView O} {index : AccountIndex O} {i : IndexedAccount O}

theorem planWith_based {change : AccountStore → Except Failure (AccountStore × α)} (based : index.storeForPlanning a r = some base) :
    index.planWith a r change = (change base).map (fun (p,x) =>
      (((index.removePendingSnapshotsFor a r).reservePredictedStoreSnapshot a r p).1,x,
        ((index.removePendingSnapshotsFor a r).reservePredictedStoreSnapshot a r p).2)) := by
  unfold AccountIndex.planWith
  rw [based]
  tauto

theorem plan_based (call : PlanCall) (based : index.storeForPlanning a r = some base) : call.plan ext index a r =
    (call.answer ext base).map (fun (p,answer) =>
      (((index.removePendingSnapshotsFor a r).reservePredictedStoreSnapshot a r p).1,answer)) := by
  cases call with
  | sigInsert orderId key intent =>
    unfold PlanCall.plan AccountIndex.planSigInsert
    simp only [planWith_based based,PlanCall.answer]
    cases base.insertRemaining ext key orderId intent <;> rfl
  | pathUpdate key oldDigest intent =>
    unfold PlanCall.plan AccountIndex.planPathUpdate
    simp only [planWith_based based,PlanCall.answer]
    cases base.updateRemaining ext key oldDigest intent <;> rfl
  | pathCompletion key oldDigest =>
    unfold PlanCall.plan AccountIndex.planPathCompletion
    simp only [planWith_based based,PlanCall.answer]
    cases base.markCompleted ext key oldDigest <;> rfl

theorem once_failed {call : PlanCall} (based : index.storeForPlanning a r = some base) (failed : call.answer ext base = .error fault) :
    call.once ext index a r = (index,.error fault) := by
  unfold PlanCall.once
  rw [plan_based call based,failed]
  rfl

theorem once_planned {call : PlanCall} (based : index.storeForPlanning a r = some base) (answered : call.answer ext base = .ok (p,answer)) :
    (call.once ext index a r).1.view = index.view.plan a r p ∧ (call.once ext index a r).2 = .ok answer := by
  unfold PlanCall.once
  rw [plan_based call based,answered]
  refine ⟨?_,rfl⟩
  change ((index.removePendingSnapshotsFor a r).reservePredictedStoreSnapshot a r p).1.view = _
  rw [reserve_view,removePendingSnapshotsFor_view]
  rfl

-- The index after one or more runs of the call: the account is taken out, its
-- output is kept for it, and snapshot `k` is its only plan from there.
@[grind cases eager] structure Replanned (v : View O) (a : AccountId) (i : IndexedAccount O) (p : AccountStore) (k : Nat) (w : View O) : Prop where
  bound : ∀ b, w.bound b = if b = a then none else v.bound b
  owner : ∀ r, w.owner r = if r = i.utxo.reference then none else v.owner r
  persisted : w.persisted = v.persisted
  pending : ∀ b, b ∈ w.pending ↔ b = a ∨ b ∈ v.pending
  rollback : ∀ r, w.rollback r = if r = i.utxo.reference then some (a,i) else v.rollback r
  snapshots : ∀ n e, w.snapshots n = some e ↔
    if n = k then e = (a,i.utxo.reference,p) else v.snapshots n = some e ∧ ¬(e.1 = a ∧ e.2.1 = i.utxo.reference)
  next : w.next = k+1
  later : v.next ≤ k

theorem Replanned.first {v : View O} (bound : v.bound a = some i) (p : AccountStore) : Replanned v a i p v.next (v.plan a i.utxo.reference p) where
  bound := fun b => View.plan_bound ..
  owner := fun r => View.plan_owner ..
  persisted := rfl
  pending := fun b => View.plan_pending ..
  rollback := by grind
  snapshots := fun n e => View.plan_snapshots ..
  next := rfl
  later := le_rfl

theorem Replanned.again {v w : View O} (fresh : ∀ {n e}, v.snapshots n = some e → n < v.next) (done : Replanned v a i p k w) :
    Replanned v a i p (k+1) (w.plan a i.utxo.reference p) where
  bound := by grind
  owner := by grind
  persisted := done.persisted
  pending := by grind
  rollback := by grind
  snapshots := by
    intro n e
    rw [View.plan_snapshots,done.next]
    grind
  next := by rw [View.plan_next,done.next]
  later := Nat.le_succ_of_le done.later

theorem Replanned.base {v w : View O} (done : Replanned v a i p k w) : w.Base a i.utxo.reference i.store := by
  have gone : w.bound a = none := by rw [done.bound,if_pos rfl]
  have kept : w.rollback i.utxo.reference = some (a,i) := by rw [done.rollback,if_pos rfl]
  exact .replan gone ((done.pending a).mpr (.inl rfl)) kept ((done.snapshots k (a,i.utxo.reference,p)).mpr (by rw [if_pos rfl]))

theorem repeated_planned {call : PlanCall} (fresh : ∀ {n e}, index.view.snapshots n = some e → n < index.view.next)
    (bound : index.view.bound a = some i) (answered : call.answer ext i.store = .ok (p,answer)) (n : Nat) :
    Replanned index.view a i p (index.view.next+n) (call.repeated ext index a i.utxo.reference (n+1)).1.view ∧
      (call.repeated ext index a i.utxo.reference (n+1)).2 = List.replicate (n+1) (.ok answer) := by
  induction n with
  | zero =>
    have based : index.storeForPlanning a i.utxo.reference = some i.store := storeForPlanning_some.mpr (.bound bound rfl)
    obtain ⟨planned,replied⟩ := once_planned based answered
    refine ⟨?_,?_⟩
    · change Replanned _ _ _ _ _ (call.once ext index a i.utxo.reference).1.view
      rw [planned]
      exact .first bound p
    · change (call.once ext index a i.utxo.reference).2 :: [] = _
      rw [replied]
      rfl
  | succ n ih =>
    obtain ⟨done,replies⟩ := ih
    have based := storeForPlanning_some.mpr done.base
    obtain ⟨planned,replied⟩ := once_planned based answered
    refine ⟨?_,?_⟩
    · change Replanned _ _ _ _ _ (call.once ext (call.repeated ext index a i.utxo.reference (n+1)).1 a i.utxo.reference).1.view
      rw [planned]
      exact done.again fresh
    · change (call.once ext (call.repeated ext index a i.utxo.reference (n+1)).1 a i.utxo.reference).2 ::
        (call.repeated ext index a i.utxo.reference (n+1)).2 = _
      rw [replied,replies]
      rfl

theorem repeated_failed {call : PlanCall} (bound : index.view.bound a = some i) (failed : call.answer ext i.store = .error fault) (n : Nat) :
    call.repeated ext index a i.utxo.reference n = (index,List.replicate n (.error fault)) := by
  have based : index.storeForPlanning a i.utxo.reference = some i.store := storeForPlanning_some.mpr (.bound bound rfl)
  induction n with
  | zero => rfl
  | succ n ih =>
    unfold PlanCall.repeated
    rw [ih]
    dsimp only
    rw [once_failed based failed]
    rfl

theorem mem_pendingBases {u : FinalizedTxOut O} : u ∈ index.pendingBases a ↔
    ∃ n r s b j, index.view.snapshots n = some (a,r,s) ∧ index.view.rollback r = some (b,j) ∧ j.utxo = u := by
  unfold AccountIndex.pendingBases
  simp only [List.mem_filterMap,List.mem_filter,decide_eq_true_eq,HashMap.mem_values,Option.map_eq_some_iff]
  constructor
  · rintro ⟨⟨a',r,s⟩,⟨⟨n,found⟩,rfl⟩,⟨b,j⟩,taken,same⟩
    exact ⟨n,r,s,b,j,found,taken,same⟩
  tauto

-- An output kept in a rollback record that an account waits on.
def View.KeptFor (v : View O) (a : AccountId) (u : FinalizedTxOut O) : Prop :=
  a ∈ v.pending ∧ ∃ n r s b j, v.snapshots n = some (a,r,s) ∧ v.rollback r = some (b,j) ∧ j.utxo = u

theorem candidate_bound {u : FinalizedTxOut O} (bound : index.view.bound a = some i) : index.Candidate a u ↔ u = i.utxo := by
  have current : index.current a = some i.utxo := by
    change (index.view.bound a).map IndexedAccount.utxo = _
    rw [bound]
    rfl
  unfold AccountIndex.Candidate
  grind

theorem candidate_unbound {u : FinalizedTxOut O} (unbound : index.view.bound a = none) : index.Candidate a u ↔ index.view.KeptFor a u := by
  have current : index.current a = none := by
    change (index.view.bound a).map IndexedAccount.utxo = _
    rw [unbound]
    rfl
  unfold AccountIndex.Candidate
  simp only [current,reduceCtorEq,false_or,true_and,mem_pendingBases]
  exact Iff.rfl

theorem Sound.same_output {v : View O} (sound : Sound ext txs v known spent) (bound : v.bound a = some i)
    (taken : v.rollback i.utxo.reference = some (b,j)) : j.utxo = i.utxo := by
  obtain ⟨at_ref,carries⟩ := sound.taken_carries taken
  have named := carries.named
  rw [at_ref,(sound.bound_carries bound).named] at named
  obtain ⟨⟨o,r⟩,_⟩ := j
  obtain ⟨⟨o',r'⟩,_⟩ := i
  cases at_ref
  cases named
  rfl

section Others
variable {after : AccountIndex O} (done : Replanned index.view a i p k after.view) (fresh : ∀ {n e}, index.view.snapshots n = some e → n < index.view.next)
  (other : b ≠ a)

include done other

theorem Replanned.other_bound : after.view.bound b = index.view.bound b := by rw [done.bound,if_neg other]

theorem Replanned.other_waits : b ∈ after.view.pending ↔ b ∈ index.view.pending := by
  rw [done.pending]
  exact or_iff_right other

include fresh

theorem Replanned.other_plans (n : Nat) (r : OutputRef) (s : AccountStore) :
    after.view.snapshots n = some (b,r,s) ↔ index.view.snapshots n = some (b,r,s) := by
  rw [done.snapshots]
  constructor
  · grind
  grind

theorem Replanned.other_base (alone : Alone index a i) (r : OutputRef) (s : AccountStore) :
    after.view.Base b r s ↔ index.view.Base b r s := by
  constructor
  · intro base
    cases base with
    | bound bound at_ref => exact .bound ((done.other_bound other).symm.trans bound) at_ref
    | replan unbound waits taken pending =>
      have unbound := (done.other_bound other).symm.trans unbound
      have waits := (done.other_waits other).mp waits
      have pending := (done.other_plans fresh other _ _ _).mp pending
      rw [done.rollback] at taken
      split at taken
      · rename_i here
        subst here
        cases taken
        obtain ⟨j,record,same⟩ := alone.waiting _ b _ pending other waits unbound
        exact same ▸ .replan unbound waits record pending
      · exact .replan unbound waits taken pending
  · intro base
    cases base with
    | bound bound at_ref => exact .bound ((done.other_bound other).trans bound) at_ref
    | @replan c j n t unbound waits taken pending =>
      have unbound' := (done.other_bound other).trans unbound
      have waits' := (done.other_waits other).mpr waits
      have pending' := (done.other_plans fresh other _ _ _).mpr pending
      by_cases here : r = i.utxo.reference
      · subst here
        obtain ⟨j',record,same⟩ := alone.waiting _ b _ pending other waits unbound
        cases record.symm.trans taken
        exact same ▸ .replan unbound' waits' (by rw [done.rollback,if_pos rfl]) pending'
      · exact .replan unbound' waits' (by rw [done.rollback,if_neg here]; exact taken) pending'

theorem Replanned.other_kept (sound : Sound ext txs index.view known spent) (bound : index.view.bound a = some i) (alone : Alone index a i)
    (unbound : index.view.bound b = none) (u : FinalizedTxOut O) : after.view.KeptFor b u ↔ index.view.KeptFor b u := by
  constructor
  · rintro ⟨waits,n,r,s,c,j,pending,taken,rfl⟩
    have waits := (done.other_waits other).mp waits
    have pending := (done.other_plans fresh other _ _ _).mp pending
    rw [done.rollback] at taken
    split at taken
    · rename_i here
      subst here
      cases taken
      obtain ⟨j,record,_⟩ := alone.waiting _ b _ pending other waits unbound
      exact ⟨waits,n,_,s,_,j,pending,record,sound.same_output bound record⟩
    · exact ⟨waits,n,r,s,c,j,pending,taken,rfl⟩
  · rintro ⟨waits,n,r,s,c,j,pending,taken,rfl⟩
    refine ⟨(done.other_waits other).mpr waits,n,r,s,?_⟩
    have pending' := (done.other_plans fresh other _ _ _).mpr pending
    by_cases here : r = i.utxo.reference
    · subst here
      exact ⟨a,i,pending',by rw [done.rollback,if_pos rfl],(sound.same_output bound taken).symm⟩
    grind

theorem Replanned.untouched (sound : Sound ext txs index.view known spent) (bound : index.view.bound a = some i) (alone : Alone index a i) :
    Untouched b index after where
  bound := done.other_bound other
  outputs := by
    intro r
    have owner := done.owner r
    change after.byOutputRef.lookup r = if r = i.utxo.reference then none else index.byOutputRef.lookup r at owner
    grind
  waits := done.other_waits other
  plans := done.other_plans fresh other
  records := by
    intro r j
    have kept := done.rollback r
    change after.rollbackBySpentRef.lookup r = if r = i.utxo.reference then some (a,i) else index.rollbackBySpentRef.lookup r at kept
    grind
  saved := by
    intro r s
    have same := congrFun done.persisted r
    change after.persistedByOutputRef.lookup r = index.persistedByOutputRef.lookup r at same
    rw [same]
  base := by
    intro r
    apply Option.ext
    intro s
    rw [storeForPlanning_some,storeForPlanning_some]
    exact done.other_base fresh other alone r s
  candidates := by
    intro u
    cases found : index.view.bound b with
    | some j => rw [candidate_bound found,candidate_bound ((done.other_bound other).trans found)]
    | none =>
      rw [candidate_unbound found,candidate_unbound ((done.other_bound other).trans found)]
      exact done.other_kept fresh other sound bound alone found u

end Others

theorem Untouched.refl (b : AccountId) (index : AccountIndex O) : Untouched b index index :=
  ⟨rfl,fun _ => Iff.rfl,Iff.rfl,fun _ _ _ => Iff.rfl,fun _ _ => Iff.rfl,fun _ _ => Iff.rfl,fun _ => rfl,fun _ => Iff.rfl⟩

theorem Replanned.candidate {after : AccountIndex O} (done : Replanned index.view a i p k after.view) (alone : Alone index a i)
    (u : FinalizedTxOut O) : after.Candidate a u ↔ u = i.utxo := by
  have gone : after.view.bound a = none := by rw [done.bound,if_pos rfl]
  rw [candidate_unbound gone]
  constructor
  · rintro ⟨_,n,r,s,b,j,pending,taken,rfl⟩
    rw [done.rollback] at taken
    split at taken
    · cases taken
      rfl
    · rename_i away
      rw [done.snapshots] at pending
      split at pending
      · grind
      · cases (alone.elsewhere n r s pending.1 away).symm.trans taken
  · rintro rfl
    refine ⟨(done.pending a).mpr (.inl rfl),k,i.utxo.reference,p,a,i,?_,by rw [done.rollback,if_pos rfl],rfl⟩
    rw [done.snapshots,if_pos rfl]

theorem Alone.idempotent {call : PlanCall} (sound : Sound ext txs index.view known spent) (bound : index.view.bound a = some i)
    (answered : call.answer ext i.store = .ok (p,answer)) (alone : Alone index a i) : PlansIdempotently ext call index a i p answer where
  answers := by
    intro n
    cases n with
    | zero => rfl
    | succ n => exact (repeated_planned sound.fresh bound answered n).2
  single := by
    intro n
    have done := (repeated_planned sound.fresh bound answered n).1
    refine ⟨index.view.next+n,?_⟩
    intro m s
    refine (done.snapshots m _).trans ?_
    grind
  base := by
    intro n u
    cases n with
    | zero => exact candidate_bound bound
    | succ n => exact (repeated_planned sound.fresh bound answered n).1.candidate alone u
  others := by
    intro n b other
    cases n with
    | zero => exact .refl b index
    | succ n => exact (repeated_planned sound.fresh bound answered n).1.untouched sound.fresh other sound bound alone

theorem PlansIdempotently.alone {call : PlanCall} (sound : Sound ext txs index.view known spent) (bound : index.view.bound a = some i)
    (answered : call.answer ext i.store = .ok (p,answer)) (idempotent : PlansIdempotently ext call index a i p answer) : Alone index a i := by
  -- one run of the call is enough
  have done := (repeated_planned sound.fresh bound answered 0).1
  have base := idempotent.base 1
  have others := idempotent.others 1
  revert done base others
  generalize (call.repeated ext index a i.utxo.reference 1).1 = after
  intro done base others
  have gone : after.view.bound a = none := by rw [done.bound,if_pos rfl]
  have record : ∀ b j, index.rollbackBySpentRef.lookup i.utxo.reference = some (b,j) → b = a := by
    intro b j taken
    by_contra other
    have still : after.view.rollback i.utxo.reference = some (b,j) := ((others b other).records _ j).mpr taken
    grind
  refine ⟨?_,?_,record,?_⟩
  · intro n r s pending away
    cases taken : index.rollbackBySpentRef.lookup r with
    | none => rfl
    | some entry =>
      obtain ⟨b,j⟩ := entry
      have taken : index.view.rollback r = some (b,j) := taken
      have pending : index.view.snapshots n = some (a,r,s) := pending
      have early : n ≠ index.view.next+0 := Nat.ne_of_lt (sound.fresh pending)
      have candidate : after.Candidate a j.utxo := by
        rw [candidate_unbound gone]
        refine ⟨(done.pending a).mpr (.inl rfl),n,r,s,b,j,?_,by rw [done.rollback,if_neg away]; exact taken,rfl⟩
        grind
      grind
  · intro b owned
    by_contra other
    have still : after.view.owner i.utxo.reference = some b := ((others b other).outputs _).mpr owned
    grind
  · intro n b s pending other waits unbound
    have untouched := others b other
    have base : after.view.Base b i.utxo.reference i.store :=
      .replan (untouched.bound.trans unbound) (untouched.waits.mpr waits) (by rw [done.rollback,if_pos rfl])
        ((untouched.plans n _ s).mpr pending)
    have before := (untouched.base _).symm.trans (storeForPlanning_some.mpr base)
    generalize store : i.store = held at before
    cases storeForPlanning_some.mp before with
    | bound bound _ => cases unbound.symm.trans bound
    | @replan c j _ _ _ _ taken _ =>
      obtain rfl := record c j taken
      exact ⟨j,taken,rfl⟩

theorem replanning_idempotent_iff (call : PlanCall) (reached : Reached ext txs index chain) (bound : index.byAccountId.lookup a = some i) :
    match call.answer ext i.store with
    | .error fault => ∀ n, call.repeated ext index a i.utxo.reference n = (index,List.replicate n (.error fault))
    | .ok (p,answer) => PlansIdempotently ext call index a i p answer ↔ Alone index a i := by
  have sound := reached.sound.2
  cases answered : call.answer ext i.store with
  | error fault => exact repeated_failed bound answered
  | ok result => exact ⟨fun idempotent => idempotent.alone sound bound answered,fun alone => alone.idempotent sound bound answered⟩

end
theorem registered_bound : registeredIndex.byAccountId.lookup (sampleAccount 1) =
    some ⟨⟨sampleState 1 0 emptyRoot,⟨digestOf 1,0⟩⟩,.empty⟩ := by decide

-- The first plan of the sample account, made as often as the builder likes.
theorem replanning_registered : ∃ p answer, PlansIdempotently sampleExternals (samplePlan 1 10) registeredIndex (sampleAccount 1)
    ⟨⟨sampleState 1 0 emptyRoot,⟨digestOf 1,0⟩⟩,.empty⟩ p answer := by
  have answered : ((samplePlan 1 10).answer sampleExternals .empty).toOption.isSome = true := by decide
  have result := replanning_idempotent_iff (samplePlan 1 10) (registered_reached []) registered_bound
  cases made : (samplePlan 1 10).answer sampleExternals .empty with
  | error fault =>
    rw [made] at answered
    cases answered
  | ok pair =>
    simp only [made] at result
    refine ⟨pair.1,pair.2,result.mpr ⟨?_,?_,?_,?_⟩⟩
    · intro n r s found
      cases found
    · intro b owned
      have owner : registeredIndex.byOutputRef.lookup ⟨digestOf 1,0⟩ = some (sampleAccount 1) := by decide
      exact (Option.some.inj (owner.symm.trans owned)).symm
    · intro b j record
      have none : registeredIndex.rollbackBySpentRef.lookup ⟨digestOf 1,0⟩ = none := by decide
      cases none.symm.trans record
    · intro n b s found
      cases found

-- The account moves on, a plan is made from its new output, and the move is
-- taken back: the account is bound to its old output again, and the plan from the
-- output that is gone is still there.
def movedIndex : AccountIndex AlephAccountState := applyAccountEvents registeredIndex (scanAccountEvents sampleExternals aloneTx)

def stalePlanned : AccountIndex AlephAccountState :=
  ((((samplePlan 1 10).run sampleExternals movedIndex (sampleAccount 1) ⟨digestOf 3,0⟩).toOption).getD (movedIndex,emptyRoot,0)).1

def staleIndex : AccountIndex AlephAccountState := revertAccountEvents stalePlanned (scanAccountEvents sampleExternals aloneTx)

theorem stale_reached : Reached sampleExternals (sampleTxs [openingTx,aloneTx]) staleIndex [openingTx] := by
  have moved : Reached sampleExternals (sampleTxs [openingTx,aloneTx]) movedIndex [aloneTx,openingTx] :=
    .apply (registered_reached _) ⟨by decide,by decide,by decide,by decide,by decide⟩
  have made : ((samplePlan 1 10).run sampleExternals movedIndex (sampleAccount 1) ⟨digestOf 3,0⟩).toOption.isSome = true := by decide
  have planned : Reached sampleExternals (sampleTxs [openingTx,aloneTx]) stalePlanned [aloneTx,openingTx] := by
    unfold stalePlanned
    cases ran : (samplePlan 1 10).run sampleExternals movedIndex (sampleAccount 1) ⟨digestOf 3,0⟩ with
    | error fault =>
      rw [ran] at made
      cases made
    | ok result => exact .plan moved (samplePlan 1 10) ran
  exact .revert planned

-- A second look finds the output that is no longer there.
theorem replanning_disturbed : Reached sampleExternals (sampleTxs [openingTx,aloneTx]) staleIndex [openingTx] ∧
    staleIndex.byAccountId.lookup (sampleAccount 1) = some ⟨⟨sampleState 1 0 emptyRoot,⟨digestOf 1,0⟩⟩,.empty⟩ ∧
    (((samplePlan 1 10).answer sampleExternals .empty).toOption.isSome = true) ∧
    ∀ p answer, ¬PlansIdempotently sampleExternals (samplePlan 1 10) staleIndex (sampleAccount 1)
      ⟨⟨sampleState 1 0 emptyRoot,⟨digestOf 1,0⟩⟩,.empty⟩ p answer := by
  refine ⟨stale_reached,by decide,by decide,?_⟩
  intro p answer idempotent
  have found : ((samplePlan 1 10).repeated sampleExternals staleIndex (sampleAccount 1) ⟨digestOf 1,0⟩ 1).1.Candidate (sampleAccount 1)
      ⟨sampleState 1 1 emptyRoot,⟨digestOf 3,0⟩⟩ := .inr ⟨by decide,by decide,by decide⟩
  have same := (idempotent.base 1 _).mp found
  exact absurd (congrArg FinalizedTxOut.reference same) (by decide)

end GreenAgent.Account
