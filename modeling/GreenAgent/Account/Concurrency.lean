import GreenAgent.Account.Batch

namespace GreenAgent.Account
open Mpf (Digest emptyRoot digestOf)

-- The two pairs the account has an order on, each with its own executor.
inductive Executor where
  | first
  | second
deriving DecidableEq

-- A planner call that returned: who made it, the output it starts from and the
-- store it planned.
structure Attempt where
  executor : Executor
  reference : OutputRef
  store : AccountStore
deriving DecidableEq

-- The outputs `current_or_pending_base` may answer with: the hash map decides
-- which pending plan it comes across first.
def AccountIndex.Candidate (index : AccountIndex O) (a : AccountId) (u : FinalizedTxOut O) : Prop :=
  index.current a = some u ∨ (index.current a = none ∧ a ∈ index.pendingByAccountId ∧ u ∈ index.pendingBases a)

theorem AccountIndex.currentOrPendingBase_candidate {index : AccountIndex O} (found : index.currentOrPendingBase a = some u) :
    index.Candidate a u := by
  unfold AccountIndex.currentOrPendingBase at found
  cases bound : index.current a with
  | some v =>
    rw [bound,Option.some_or] at found
    exact .inl (bound.trans found)
  | none =>
    rw [bound,Option.none_or] at found
    split at found
    · rename_i waits
      exact .inr ⟨bound,waits,List.mem_of_mem_head? found⟩
    · cases found

-- Both executors hold the index's lock for one call at a time. An executor plans
-- from the output its last lookup gave; a call that fails changes nothing.
inductive Session (ext : Externals O) (a : AccountId) (start : AccountIndex O) :
    AccountIndex O → (Executor → Option OutputRef) → List Attempt → Prop where
  | begin : Session ext a start start (fun _ => none) []
  | lookup (prior : Session ext a start index seen done) (e : Executor) (candidate : index.Candidate a u) :
      Session ext a start index (Function.update seen e (some u.reference)) done
  | plan (prior : Session ext a start index seen done) (call : PlanCall) (base : seen e = some r)
      (planned : call.run ext index a r = .ok (next,root,n)) (store : next.pendingStoreBySnapshotId.lookup n = some (a,r,p)) :
      Session ext a start next seen (⟨e,r,p⟩ :: done)

-- The transaction built from a plan: it spends the output the plan starts from,
-- and the planned root goes into its one account output.
@[grind cases eager] structure BuiltFrom (ext : Externals O) (txs : Digest → TxView O) (tx : TxView O) (attempt : Attempt) (u : AlephAccountUtxo O) : Prop where
  spends : attempt.reference ∈ tx.inputs
  others : ∀ r ∈ tx.inputs, r = attempt.reference ∨ ¬AccountRef ext txs r
  produces : tx.accounts ext = [u]
  root : u.state.storeRoot = attempt.store.root

-- The last plan an executor made, and the last one made from an output.
def lastBy (done : List Attempt) (e : Executor) : Option Attempt := done.find? (fun attempt => decide (attempt.executor = e))

def lastFrom (done : List Attempt) (r : OutputRef) : Option Attempt := done.find? (fun attempt => decide (attempt.reference = r))

section
variable {O : Type} {ext : Externals O} {txs : Digest → TxView O} {start index : AccountIndex O} {done : List Attempt}

theorem Session.reached (session : Session ext a start index seen done) (reached : Reached ext txs start chain) :
    Reached ext txs index chain := by
  induction session with
  | begin => exact reached
  | lookup _ _ _ ih => exact ih
  | plan _ call _ planned _ ih => exact .plan ih call planned

theorem lastFrom_cons : lastFrom (attempt :: done) r = if attempt.reference = r then some attempt else lastFrom done r := by
  unfold lastFrom
  rw [List.find?_cons]
  grind

theorem View.plan_held {v : View O} (fresh : ∀ {n e}, v.snapshots n = some e → n < v.next) :
    (∃ n, (v.plan a r p).snapshots n = some (b,r',s)) ↔
      (b = a ∧ r' = r ∧ s = p) ∨ (¬(b = a ∧ r' = r) ∧ ∃ n, v.snapshots n = some (b,r',s)) := by
  constructor
  · rintro ⟨n,found⟩
    have entry := (View.plan_snapshots ..).mp found
    grind
  · rintro (⟨rfl,rfl,rfl⟩ | ⟨other,n,found⟩)
    · exact ⟨v.next,(View.plan_snapshots ..).mpr (by rw [if_pos rfl])⟩
    · refine ⟨n,(View.plan_snapshots ..).mpr ?_⟩
      grind

-- What a session leaves on an output: the last plan from it, and whatever other
-- accounts had there before.
theorem Session.held (session : Session ext a start index seen done) (reached : Reached ext txs start chain) :
    (∃ n, index.view.snapshots n = some (b,r,s)) ↔
      match lastFrom done r with
      | some attempt => (b = a ∧ s = attempt.store) ∨ (b ≠ a ∧ ∃ n, start.view.snapshots n = some (b,r,s))
      | none => ∃ n, start.view.snapshots n = some (b,r,s) := by
  induction session with
  | begin => rfl
  | lookup _ _ _ ih => exact ih
  | @plan index seen done e r' next root n p prior call base planned store ih =>
    obtain ⟨_,p',finished,_⟩ := call.run_ok planned
    have found : next.view.snapshots n = some (a,r',p) := store
    rw [finished.view.1,finished.view.2] at found
    obtain rfl := plan_stored found
    rw [finished.view.1,View.plan_held (prior.reached reached).sound.2.fresh,ih,lastFrom_cons]
    grind

theorem Session.persisted (session : Session ext a start index seen done) : index.view.persisted = start.view.persisted := by
  induction session with
  | begin => rfl
  | lookup _ _ _ ih => exact ih
  | plan _ call _ planned _ ih =>
    obtain ⟨_,_,finished,_⟩ := call.run_ok planned
    rw [finished.view.1,View.plan_persisted,ih]

theorem Session.planned (session : Session ext a start index seen done) (reached : Reached ext txs start chain)
    (nonzero : ∀ s, ext.blake2b256 s ≠ emptyRoot) (member : attempt ∈ done) :
    index.view.bound a = none ∧ attempt.store.root ≠ emptyRoot := by
  induction session with
  | begin => cases member
  | lookup _ _ _ ih => exact ih member
  | @plan index seen done e r next root n p prior call base planned store ih =>
    have after := (Reached.plan (prior.reached reached) call planned).rooted nonzero
    obtain ⟨_,_,finished,_⟩ := call.run_ok planned
    refine ⟨by rw [finished.view.1,View.plan_bound,if_pos rfl],?_⟩
    grind

-- The confirmed transaction binds the account when the plan it was built from is
-- the only one with its root among the plans from the spent output.
theorem BuiltFrom.confirmed_iff {chain : List (TxView O)} (reached : Reached ext txs index chain) (fits : Fits txs chain tx)
    (built : BuiltFrom ext txs tx attempt u) (unbound : index.view.bound a = none) (planned : attempt.store.root ≠ emptyRoot)
    (fresh : ∀ r ∈ tx.refs, index.view.persisted r = none) :
    (applyAccountEvents index (scanAccountEvents ext tx)).byAccountId.lookup a = some ⟨u.finalizedOutput,attempt.store⟩ ↔
      index.view.Agrees tx.inputs attempt.store.root a attempt.store := by
  have progress := apply_progress ext reached.sound.1 fits
  rw [built.produces] at progress
  change (applyAccountEvents index (scanAccountEvents ext tx)).view.bound a = _ ↔ _
  constructor
  · intro bound
    rcases progress.bound a with ⟨u',s,ends,at_u⟩ | ⟨_,still⟩
    · have stored : s = attempt.store := congrArg IndexedAccount.store (Option.some.inj (at_u.symm.trans bound))
      obtain rfl := List.mem_singleton.mp ends.mem
      obtain ⟨_,_,_,claim⟩ := ends.claim
      cases claim with
      | confirmed here => grind
      | empty _ _ root _ => exact absurd (built.root.symm.trans root) planned
      | resumed _ _ found _ =>
        have created := (mem_accounts (built.produces ▸ List.mem_singleton_self u')).1
        grind
    · rw [still,View.consumes_bound,unbound,ite_self] at bound
      cases bound
  · intro agrees
    have ends : index.view.Ends tx.inputs [u] a u attempt.store := .here (.confirmed ⟨built.root ▸ agrees,nofun⟩)
    rcases progress.bound a with ⟨u',s,ends',at_u⟩ | ⟨free,_⟩
    · obtain ⟨rfl,rfl⟩ := ends.unique ends'
      exact at_u
    · exact absurd ends.held free

theorem lastFrom_of_mem (member : attempt ∈ done) : ∃ last, lastFrom done attempt.reference = some last :=
  Option.isSome_iff_exists.mp (List.find?_isSome.mpr ⟨attempt,member,decide_eq_true rfl⟩)

theorem concurrent_plan_bound_iff (nonzero : ∀ s, ext.blake2b256 s ≠ emptyRoot) (reached : Reached ext txs start chain)
    (session : Session ext a start index seen done) (last : lastBy done e = some attempt) (fits : Fits txs chain tx)
    (built : BuiltFrom ext txs tx attempt u) (fresh : ∀ r ∈ tx.refs, start.persistedByOutputRef.lookup r = none) :
    (applyAccountEvents index (scanAccountEvents ext tx)).byAccountId.lookup a = some ⟨u.finalizedOutput,attempt.store⟩ ↔
      (lastFrom done attempt.reference).map Attempt.store = some attempt.store ∧
        ∀ n b s, start.pendingStoreBySnapshotId.lookup n = some (b,attempt.reference,s) → s.root = attempt.store.root → b = a := by
  have member : attempt ∈ done := List.mem_of_find?_eq_some last
  have now := session.reached reached
  obtain ⟨unbound,planned⟩ := session.planned reached nonzero member
  rw [built.confirmed_iff now fits unbound planned (fun r created => by rw [session.persisted]; exact fresh r created)]
  obtain ⟨final,found⟩ := lastFrom_of_mem member
  have held : ∀ b s, (∃ n, index.view.snapshots n = some (b,attempt.reference,s)) ↔
      (b = a ∧ s = final.store) ∨ (b ≠ a ∧ ∃ n, start.view.snapshots n = some (b,attempt.reference,s)) := by
    intro b s
    rw [session.held reached,found]
  -- the other inputs are no account outputs, so no plan starts from them
  have only : ∀ {n b r s}, index.view.snapshots n = some (b,r,s) → r ∈ tx.inputs → r = attempt.reference := by
    intro n b r s entry input
    exact (built.others r input).resolve_right (not_not_intro (now.plans_accounts.pending n _ entry))
  rw [found,Option.map_some,Option.some_inj]
  constructor
  · rintro ⟨⟨n,r,entry,input,_⟩,unique⟩
    obtain rfl := only entry input
    refine ⟨?_,?_⟩
    · rcases (held a attempt.store).mp ⟨n,entry⟩ with ⟨_,same⟩ | ⟨other,_⟩
      · exact same.symm
      · exact absurd rfl other
    · intro m b s before root
      by_contra other
      obtain ⟨k,entry'⟩ := (held b s).mpr (.inr ⟨other,m,before⟩)
      exact other (unique b s ⟨k,_,entry',input,root⟩).1
  · rintro ⟨same,alone⟩
    obtain ⟨n,entry⟩ := (held a attempt.store).mpr (.inl ⟨rfl,same.symm⟩)
    refine ⟨⟨n,_,entry,built.spends,rfl⟩,?_⟩
    rintro b s ⟨m,r,entry',input,root⟩
    obtain rfl := only entry' input
    rcases (held b s).mp ⟨m,entry'⟩ with ⟨own,stored⟩ | ⟨other,k,before⟩
    · exact ⟨own,stored.trans same⟩
    · exact absurd (alone k b s before root) other

end

-- Both executors plan from the account's one output, one after the other.
def racedIndex : AccountIndex AlephAccountState := (samplePlanned (samplePlanned registeredIndex 1 10).1 3 11).1

def racedPlans : List Attempt := [⟨.second,⟨digestOf 1,0⟩,sampleStore 3 11⟩,⟨.first,⟨digestOf 1,0⟩,sampleStore 1 10⟩]

theorem raced_session : ∃ seen, Session sampleExternals (sampleAccount 1) registeredIndex racedIndex seen racedPlans := by
  have one : Session sampleExternals (sampleAccount 1) registeredIndex (samplePlanned registeredIndex 1 10).1 _
      [⟨.first,⟨digestOf 1,0⟩,sampleStore 1 10⟩] :=
    .plan (.lookup .begin .first (u := ⟨sampleState 1 0 emptyRoot,⟨digestOf 1,0⟩⟩) (.inl (by decide))) (samplePlan 1 10)
      (Function.update_self ..) (samplePlanned_run (by decide +kernel)) (by decide +kernel)
  exact ⟨_,.plan (.lookup one .second (u := ⟨sampleState 1 0 emptyRoot,⟨digestOf 1,0⟩⟩)
      (.inr ⟨by decide,by decide,by decide⟩)) (samplePlan 3 11)
    (Function.update_self ..) (samplePlanned_run (by decide +kernel)) (by decide +kernel)⟩

theorem raced_built (executor : Executor) (key : UInt8) (leaving : UInt64) :
    BuiltFrom sampleExternals (sampleTxs [openingTx,plannedTx key leaving]) (plannedTx key leaving)
      ⟨executor,⟨digestOf 1,0⟩,sampleStore key leaving⟩ (plannedItem key leaving).successor :=
  ⟨List.mem_cons_self,fun _ input => .inl (List.mem_singleton.mp input),rfl,rfl⟩

-- The one who planned last gets the account bound.
theorem concurrent_plan_second : (applyAccountEvents racedIndex (scanAccountEvents sampleExternals (plannedTx 3 11))).byAccountId.lookup
    (sampleAccount 1) = some ⟨(plannedItem 3 11).successor.finalizedOutput,sampleStore 3 11⟩ := by
  obtain ⟨seen,session⟩ := raced_session
  exact (concurrent_plan_bound_iff sample_nonzero (registered_reached [plannedTx 3 11]) session (e := .second) rfl
    ⟨by decide +kernel,by decide,by decide,by decide,by decide⟩ (raced_built .second 3 11) (by decide +kernel)).mpr
      ⟨rfl,fun n b s found => nomatch found⟩

-- The one who planned first has its transaction confirmed, and the account is
-- bound nowhere.
theorem concurrent_plan_lost : Reached sampleExternals (sampleTxs [openingTx,plannedTx 1 10]) registeredIndex [openingTx] ∧
    (registeredIndex.current (sampleAccount 1)).isSome ∧
    (∃ seen, Session sampleExternals (sampleAccount 1) registeredIndex racedIndex seen racedPlans) ∧
    lastBy racedPlans .first = some ⟨.first,⟨digestOf 1,0⟩,sampleStore 1 10⟩ ∧
    Fits (sampleTxs [openingTx,plannedTx 1 10]) [openingTx] (plannedTx 1 10) ∧
    BuiltFrom sampleExternals (sampleTxs [openingTx,plannedTx 1 10]) (plannedTx 1 10) ⟨.first,⟨digestOf 1,0⟩,sampleStore 1 10⟩
      (plannedItem 1 10).successor ∧
    (applyAccountEvents racedIndex (scanAccountEvents sampleExternals (plannedTx 1 10))).byAccountId.lookup (sampleAccount 1) = none :=
  ⟨registered_reached _,by decide +kernel,raced_session,rfl,planned_fits,raced_built .first 1 10,by decide +kernel⟩

end GreenAgent.Account
