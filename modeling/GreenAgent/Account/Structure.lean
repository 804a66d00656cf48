import GreenAgent.Account.Persistence
import GreenAgent.Account.Plans
import GreenAgent.Account.Batch

namespace GreenAgent.Account
open Mpf (Bytes Digest emptyRoot digestOf bind_ok)

-- The relations between the maps of the index.
@[grind cases eager] structure Structured (ext : Externals O) (index : AccountIndex O) : Prop where
  inverse : ∀ a r, (∃ i, index.byAccountId.lookup a = some i ∧ i.utxo.reference = r) ↔ index.byOutputRef.lookup r = some a
  unlocked : ∀ a i, index.byAccountId.lookup a = some i → a ∉ index.pendingByAccountId
  apart : ∀ r a, index.byOutputRef.lookup r = some a → index.unboundByOutputRef.lookup r = none
  single : ∀ n m a r s t, index.pendingStoreBySnapshotId.lookup n = some (a,r,s) → index.pendingStoreBySnapshotId.lookup m = some (a,r,t) → n = m
  rooted : ∀ a i, index.byAccountId.lookup a = some i → ∃ state, ext.accountState i.utxo.output = some state ∧ state.storeRoot = i.store.root

-- What the steps keep, on top of what holds in every reached index.
@[grind cases eager] structure Tidy (v : View O) : Prop where
  linked : ∀ {a i}, v.bound a = some i → v.owner i.utxo.reference = some a
  unlocked : ∀ {a i}, v.bound a = some i → a ∉ v.pending
  apart : ∀ {r a}, v.owner r = some a → v.unbound r = none
  single : ∀ {n m a r s t}, v.snapshots n = some (a,r,s) → v.snapshots m = some (a,r,t) → n = m

-- A plan for an account that is not bound starts from an output that nobody
-- is bound to.
def Unclaimed (index : AccountIndex O) (a : AccountId) (r : OutputRef) : Prop :=
  index.byAccountId.lookup a = none → index.byOutputRef.lookup r = none

-- Runs of the index with the snapshot ids its plans hand out, newest first.
-- `hashed` are the strings that the plans hash.
inductive Operated (ext : Externals O) (txs : Digest → TxView O) (hashed : Set Bytes) :
    AccountIndex O → List (TxView O) → List Nat → Prop where
  | fresh (persistence : Option Unit) (consistent : Consistent txs chain) :
      Operated ext txs hashed {AccountIndex.default with persistence:=persistence.map (fun _ => none)} chain []
  | bind (prior : Operated ext txs hashed index chain issued) (a : AccountId) (r : OutputRef) :
      Operated ext txs hashed (index.bindExternalAccountIdOnce a r).1 chain issued
  | plan (prior : Operated ext txs hashed index chain issued) (call : PlanCall) (base : index.storeForPlanning a r = some store)
      (inside : ∀ s ∈ call.strings ext store, s ∈ hashed) (planned : call.run ext index a r = .ok (next,root,n))
      (unclaimed : Unclaimed index a r) : Operated ext txs hashed next chain (n :: issued)
  | apply (prior : Operated ext txs hashed index chain issued) (fits : Fits txs chain tx) :
      Operated ext txs hashed (applyAccountEvents index (scanAccountEvents ext tx)) (tx :: chain) issued
  | revert (prior : Operated ext txs hashed index (tx :: chain) issued) :
      Operated ext txs hashed (revertAccountEvents index (scanAccountEvents ext tx)) chain issued
  | restart (prior : Operated ext txs hashed index chain issued) (file : index.persistence = some saved)
      (loaded : AccountIndex.withPersistencePath ext saved = .ok next) (k : Nat) : Operated ext txs hashed next (chain.drop k) issued

section
variable {O : Type} {ext : Externals O} {txs : Digest → TxView O} {v : View O} {known spent : OutputRef → Prop}

theorem Operated.reached (run : Operated ext txs hashed index chain issued) : Reached ext txs index chain := by
  induction run with
  | fresh persistence consistent => exact .fresh persistence consistent
  | bind _ a r ih => exact .bind ih a r
  | plan _ call _ _ planned _ ih => exact .plan ih call planned
  | apply _ fits ih => exact .apply ih fits
  | revert _ ih => exact .revert ih
  | restart _ file loaded k ih => exact .restart ih file loaded k

theorem Tidy.structured {index : AccountIndex O} (tidy : Tidy index.view) (sound : Sound ext txs index.view known spent) :
    Structured ext index where
  inverse := by
    intro a r
    constructor
    · rintro ⟨i,bound,rfl⟩
      exact tidy.linked bound
    · exact sound.owned
  unlocked := fun _ _ bound => tidy.unlocked bound
  apart := fun _ _ owner => tidy.apart owner
  single := fun _ _ _ _ _ _ one two => tidy.single one two
  rooted := fun _ _ bound => (sound.bound_carries bound).root

theorem Tidy.bind (tidy : Tidy v) (sound : Sound ext txs v known spent) (a : AccountId) (i : IndexedAccount O)
    (free : ∀ b, v.owner i.utxo.reference = some b → b = a) : Tidy (v.bind a i) where
  linked := by
    intro b j found
    rw [View.bind_bound] at found
    simp only [View.bind,Function.update_apply]
    split at found
    · grind
    · rename_i other
      have linked := tidy.linked found
      have away : j.utxo.reference ≠ i.utxo.reference := fun same => other (free b (same ▸ linked))
      rw [if_neg away]
      cases bound : v.bound a with
      | none => exact linked
      | some previous => grind
  unlocked := by grind
  apart := by
    intro r b found
    rw [View.bind_unbound]
    split
    · rfl
    · rename_i away
      rcases sound.bind_owner found with ⟨here,_⟩ | ⟨_,before⟩
      · exact absurd here away
      · exact tidy.apart before
  single := tidy.single

theorem Tidy.drop (tidy : Tidy v) (gone : AccountId × OutputRef × AccountStore → Prop) [DecidablePred gone] : Tidy (v.dropSnapshots gone) :=
  ⟨tidy.linked,tidy.unlocked,tidy.apart,fun one two => tidy.single (dropSnapshots_fewer _ _ one) (dropSnapshots_fewer _ _ two)⟩

theorem Tidy.remove (tidy : Tidy v) (r : OutputRef) : Tidy (v.remove r) where
  linked := by grind
  unlocked := by grind
  apart := by grind
  single := by
    rw [View.remove_snapshots]
    exact tidy.single

theorem Tidy.consume (tidy : Tidy v) (r : OutputRef) : Tidy (v.consume r) :=
  have removed := tidy.remove r
  ⟨removed.linked,removed.unlocked,removed.apart,removed.single⟩

theorem Tidy.unconsume (tidy : Tidy v) (sound : Sound ext txs v known spent) (r : OutputRef) (gone : ¬known r) : Tidy (v.unconsume r) := by
  unfold View.unconsume
  cases taken : v.rollback r with
  | none => exact tidy.drop _
  | some entry =>
    obtain ⟨a,i⟩ := entry
    obtain ⟨at_ref,_⟩ := sound.taken_carries taken
    have forgotten : Tidy {v with rollback:=Function.update v.rollback r none} := ⟨tidy.linked,tidy.unlocked,tidy.apart,tidy.single⟩
    refine (forgotten.bind (sound.forget r) a i ?_).drop _
    grind

theorem Tidy.produce {u : AlephAccountUtxo O} (tidy : Tidy v) (sound : Sound ext txs v known spent) (step : View.Produce refs ids v u after)
    (new : v.owner u.outputRef = none) : Tidy after := by
  have free : ∀ a b, v.owner u.outputRef = some b → b = a := fun a b owner => nomatch new.symm.trans owner
  cases step with
  | @confirm a s _ =>
    have dropped : Sound ext txs (v.dropSnapshots (fun entry => entry.2.1 ∈ refs ∧ entry.2.2.root = u.state.storeRoot)) known (fun _ => True) :=
      (sound.widen (fun _ => id) (fun _ _ => trivial)).drop _ (fun _ _ => .inl trivial)
    exact (tidy.drop _).bind dropped a _ (free a)
  | empty _ _ => exact tidy.bind sound _ _ (free _)
  | create _ _ created =>
    cases created with
    | resume _ _ =>
      have rest : Tidy {v with persisted:=Function.update v.persisted u.outputRef none} := ⟨tidy.linked,tidy.unlocked,tidy.apart,tidy.single⟩
      exact rest.bind (sound.unload u.outputRef) _ _ (free _)
    | unbound _ =>
      refine ⟨tidy.linked,tidy.unlocked,?_,tidy.single⟩
      intro r a owner
      simp only [View.leaveUnbound,Function.update_apply]
      rw [if_neg]
      · exact tidy.apart owner
      · rintro rfl
        cases new.symm.trans owner

theorem Tidy.plan (tidy : Tidy v) (base : v.Base a r s) (p : AccountStore)
    (unclaimed : v.bound a = none → v.owner r = none) : Tidy (v.plan a r p) where
  linked := by
    intro b i found
    rw [View.plan_bound] at found
    split at found
    · cases found
    · rename_i other
      have linked := tidy.linked found
      rw [View.plan_owner,if_neg]
      · exact linked
      · intro same
        cases base with
        | bound bound at_ref => grind
        | replan unbound _ _ _ => grind
  unlocked := by grind
  apart := by grind
  single := by
    intro n m b r' s t one two
    have one := (View.plan_snapshots ..).mp one
    have two := (View.plan_snapshots ..).mp two
    grind

theorem Tidy.external {index : AccountIndex O} (plain : index.Plain) (sound : Sound ext txs index.view known spent) (tidy : Tidy index.view)
    (a : AccountId) (r : OutputRef) : Tidy (index.bindExternalAccountIdOnce a r).1.view := by
  obtain ⟨same | ⟨u,_,unowned,observed,_,bound⟩,_⟩ := bindExternalAccountIdOnce_view plain a r
  · rw [same]
    exact tidy
  · rw [bound]
    obtain ⟨_,rfl,_⟩ := sound.unbound_known observed
    have cleared : Tidy {index.view with unbound:=Function.update index.view.unbound u.outputRef none} := by
      refine ⟨tidy.linked,tidy.unlocked,?_,tidy.single⟩
      grind
    exact cleared.bind (sound.unlist u.outputRef) a _ (fun b owner => nomatch unowned.symm.trans owner)

theorem Tidy.consumes (tidy : Tidy v) (refs : List OutputRef) : Tidy (refs.foldl View.consume v) := by
  induction refs generalizing v with
  | nil => exact tidy
  | cons r refs ih => exact ih (tidy.consume r)

theorem Tidy.removes (tidy : Tidy v) (refs : List OutputRef) : Tidy (refs.foldl View.remove v) := by
  induction refs generalizing v with
  | nil => exact tidy
  | cons r refs ih => exact ih (tidy.remove r)

theorem Tidy.unconsumes (tidy : Tidy v) (sound : Sound ext txs v known spent) {refs : List OutputRef} (distinct : refs.Nodup)
    (gone : ∀ r ∈ refs, ¬known r) : Tidy (refs.foldl View.unconsume v) := by
  induction refs generalizing v known spent with
  | nil => exact tidy
  | cons r refs ih =>
    rw [List.nodup_cons] at distinct
    refine ih (tidy.unconsume sound r (gone r List.mem_cons_self)) (sound.unconsume r) distinct.2 ?_
    grind

theorem Tidy.produces {us : List (AlephAccountUtxo O)} (tidy : Tidy v) (sound : Sound ext txs v known spent)
    (run : View.Produces refs ids v us after) (gone : ∀ r ∈ refs, spent r) (new : ∀ u ∈ us, ¬known u.outputRef)
    (distinct : (us.map AlephAccountUtxo.outputRef).Nodup) (seen : ∀ u ∈ us, Observed ext txs u) : Tidy after := by
  induction run generalizing known with
  | nil => exact tidy
  | @cons v u middle us after first rest ih =>
    rw [List.map_cons,List.nodup_cons] at distinct
    have unowned : v.owner u.outputRef = none := by
      cases owner : v.owner u.outputRef with
      | none => rfl
      | some b => exact absurd (sound.owner_known owner) (new u List.mem_cons_self)
    have wider : Sound ext txs v (fun r => known r ∨ r = u.outputRef) spent := sound.widen (fun _ => Or.inl) (fun _ => id)
    refine ih (tidy.produce sound first unowned) (wider.produce first gone (.inr rfl) (seen u List.mem_cons_self)) ?_ distinct.2
      (fun u' member => seen u' (List.mem_cons_of_mem _ member))
    grind

theorem Tidy.apply {index : AccountIndex O} (plain : index.Plain) (tidy : Tidy index.view)
    (sound : Sound ext txs index.view (Live chain) (fun r => r ∈ consumed chain)) (fits : Fits txs chain tx) :
    Tidy (applyAccountEvents index (scanAccountEvents ext tx)).view := by
  refine (tidy.consumes tx.inputs).produces (sound.consumes tx.inputs) (apply_view ext plain fits.inputs_nodup).1
    (fun r here => .inr here) ?_ (accounts_nodup fits.refs_nodup) (fun u member => observed_accounts fits member)
  rintro u member ⟨live,_⟩
  exact fits.refs_new _ (mem_accounts member).1 live.1

theorem Tidy.revert {index : AccountIndex O} (plain : index.Plain) (tidy : Tidy index.view)
    (sound : Sound ext txs index.view (Live (tx :: chain)) (fun r => r ∈ consumed (tx :: chain))) (consistent : Consistent txs (tx :: chain)) :
    Tidy (revertAccountEvents index (scanAccountEvents ext tx)).view := by
  rw [(revert_view ext plain tx).1]
  refine (tidy.unconsumes sound consistent.tail.2.inputs_nodup ?_).removes _
  rintro r input ⟨_,unspent⟩
  exact unspent (List.mem_append_left _ input)

theorem fromSnapshot_intact (loaded : AccountStore.fromSnapshot ext root leaves = .ok store) : store.Intact ext := by
  obtain ⟨calculated,made,loaded⟩ := bind_ok.mp loaded
  split at loaded
  · cases loaded
  · rename_i same
    cases loaded
    cases not_not.mp same
    exact fromFault_ok.mp made

end

-- A file that a new process can read, and from which it hands out new ids.
@[grind cases eager] structure Filed (ext : Externals O) (issued : List Nat) (file : PersistedAccountStores) : Prop where
  stores : ∀ e ∈ file.stores, ∃ s, AccountStore.fromSnapshot ext e.root e.leaves = .ok s
  pending : ∀ e ∈ file.pending, ∃ s, AccountStore.fromSnapshot ext e.root e.leaves = .ok s
  single : ∀ e ∈ file.pending, ∀ e' ∈ file.pending, e.accountId = e'.accountId → e.oldRef = e'.oldRef → e.snapshotId = e'.snapshotId
  later : ∀ n ∈ issued, n < file.nextSnapshotId

def Saves (ext : Externals O) (issued : List Nat) (index : AccountIndex O) : Prop :=
  ∀ saved, index.persistence = some saved → (saved = none ∧ issued = []) ∨ ∃ file, saved = some file ∧ Filed ext issued file

-- What every call on the index keeps for the next process.
@[grind cases eager] structure Careful (ext : Externals O) (issued : List Nat) (index : AccountIndex O) : Prop where
  plain : index.Plain
  stocked : index.view.Stocked (AccountStore.Intact ext)
  single : ∀ {n m a r s t}, index.view.snapshots n = some (a,r,s) → index.view.snapshots m = some (a,r,t) → n = m
  later : ∀ n ∈ issued, n < index.view.next
  saves : Saves ext issued index

namespace Careful
variable {O : Type} {ext : Externals O} {txs : Digest → TxView O} {index after : AccountIndex O} {issued : List Nat}

theorem filed (stocked : index.view.Stocked (AccountStore.Intact ext))
    (single : ∀ {n m a r s t}, index.view.snapshots n = some (a,r,s) → index.view.snapshots m = some (a,r,t) → n = m)
    (later : ∀ n ∈ issued, n < index.view.next) : Filed ext issued index.persisted where
  stores := by
    intro e member
    rcases List.mem_append.mp member with bound | loaded
    · obtain ⟨⟨a,i⟩,inside,rfl⟩ := List.mem_map.mp bound
      exact ⟨i.store,fromSnapshot_snapshotLeaves (stocked.bound (HashMap.mem_entries.mp inside))⟩
    · obtain ⟨⟨r,a,s⟩,inside,rfl⟩ := List.mem_map.mp loaded
      exact ⟨s,fromSnapshot_snapshotLeaves (stocked.loaded (HashMap.mem_entries.mp inside))⟩
  pending := by
    intro e member
    obtain ⟨⟨n,a,r,s⟩,inside,rfl⟩ := List.mem_map.mp member
    exact ⟨s,fromSnapshot_snapshotLeaves (stocked.planned (HashMap.mem_entries.mp inside))⟩
  single := by
    intro e one e' two account output
    obtain ⟨⟨n,a,r,s⟩,inside,rfl⟩ := List.mem_map.mp one
    obtain ⟨⟨m,b,r',t⟩,inside',rfl⟩ := List.mem_map.mp two
    change a = b at account
    change r = r' at output
    subst account
    subst output
    exact single (HashMap.mem_entries.mp inside) (HashMap.mem_entries.mp inside')
  later := later

theorem step (careful : Careful ext issued index) (plain : after.Plain) (stocked : after.view.Stocked (AccountStore.Intact ext))
    (fewer : ∀ n e, after.view.snapshots n = some e → index.view.snapshots n = some e) (next : after.view.next = index.view.next)
    (wrote : index.Wrote after) : Careful ext issued after := by
  have single : ∀ {n m a r s t}, after.view.snapshots n = some (a,r,s) → after.view.snapshots m = some (a,r,t) → n = m :=
    fun one two => careful.single (fewer _ _ one) (fewer _ _ two)
  have later : ∀ n ∈ issued, n < after.view.next := fun n member => next ▸ careful.later n member
  refine ⟨plain,stocked,single,later,?_⟩
  intro saved file
  rcases wrote with written | ⟨same,_⟩
  · rw [written] at file
    obtain ⟨_,_,rfl⟩ := Option.map_eq_some_iff.mp file
    exact .inr ⟨_,rfl,filed stocked single later⟩
  · exact careful.saves saved (same ▸ file)

theorem consumed (careful : Careful ext issued index) (r : OutputRef) : Careful ext issued (index.observeConsumed r) := by
  refine careful.step (observeConsumed_plain careful.plain r) ?_ ?_ ?_ (observeConsumed_wrote index r)
  · rw [observeConsumed_view]
    exact careful.stocked.consume r
  · rw [observeConsumed_view,View.consume_snapshots]
    exact fun _ _ => id
  · rw [observeConsumed_view,View.consume_next]

theorem removed (careful : Careful ext issued index) (r : OutputRef) : Careful ext issued (index.observeRemovedOutput r) := by
  refine careful.step (observeRemovedOutput_plain careful.plain r) ?_ ?_ ?_ (observeRemovedOutput_wrote index r)
  · rw [observeRemovedOutput_view]
    exact careful.stocked.remove r
  · rw [observeRemovedOutput_view,View.remove_snapshots]
    exact fun _ _ => id
  · rw [observeRemovedOutput_view,View.remove_next]

theorem unconsumed (careful : Careful ext issued index) (r : OutputRef) : Careful ext issued (index.observeRollbackConsumed r) := by
  refine careful.step (observeRollbackConsumed_plain careful.plain r) ?_ ?_ ?_ (observeRollbackConsumed_wrote index r)
  · rw [observeRollbackConsumed_view]
    exact careful.stocked.unconsume r
  · rw [observeRollbackConsumed_view]
    exact unconsume_fewer r
  · rw [observeRollbackConsumed_view]
    unfold View.unconsume
    cases index.view.rollback r <;> rfl

theorem produced (careful : Careful ext issued index) (spent : List OutputRef) (ids : List AccountId) (u : AlephAccountUtxo O) :
    Careful ext issued (AccountIndex.observeProduced spent ids index u) := by
  obtain ⟨step,plain⟩ := observeProduced_view careful.plain spent ids u
  refine careful.step plain (careful.stocked.produce empty_intact step) (produce_fewer step) ?_ (observeProduced_wrote careful.plain spent ids u)
  generalize (AccountIndex.observeProduced spent ids index u).view = middle at step
  cases step with
  | confirm _ => rfl
  | empty _ _ => rfl
  | create _ _ created => cases created <;> rfl

theorem external (careful : Careful ext issued index) (a : AccountId) (r : OutputRef) :
    Careful ext issued (index.bindExternalAccountIdOnce a r).1 := by
  obtain ⟨changed,plain⟩ := bindExternalAccountIdOnce_view careful.plain a r
  refine careful.step plain (careful.stocked.external empty_intact careful.plain a r) ?_ ?_ (bindExternalAccountIdOnce_wrote index a r)
  · grind
  grind

theorem plan {call : PlanCall} (careful : Careful ext issued index) (tidy : Tidy after.view) (done : call.Done ext index a r after n base p)
    (free : Set.InjOn ext.blake2b256 {s | s ∈ call.strings ext base}) : Careful ext (n :: issued) after := by
  have intact := predict_intact free (careful.stocked.base done.from_base) done.predicted
  have stocked : after.view.Stocked (AccountStore.Intact ext) := by
    rw [done.view.1]
    exact careful.stocked.plan a r p intact
  have later : ∀ m ∈ n :: issued, m < after.view.next := by
    rw [done.view.1,View.plan_next,done.view.2]
    grind
  refine ⟨done.plain careful.plain,stocked,tidy.single,later,?_⟩
  intro saved file
  rw [done.wrote] at file
  obtain ⟨_,_,rfl⟩ := Option.map_eq_some_iff.mp file
  exact .inr ⟨_,rfl,filed stocked tidy.single later⟩

theorem fold {step : AccountIndex O → α → AccountIndex O} (keeps : ∀ {index}, Careful ext issued index → ∀ x, Careful ext issued (step index x))
    (careful : Careful ext issued index) (list : List α) : Careful ext issued (list.foldl step index) := by
  induction list generalizing index with
  | nil => exact careful
  | cons x list ih => exact ih (keeps careful x)

end Careful

section
variable {O : Type} {ext : Externals O} {txs : Digest → TxView O} {index : AccountIndex O}

theorem mapM_ok {f : α → Except ε β} {list : List α} (each : ∀ x ∈ list, ∃ y, f x = .ok y) : ∃ ys, list.mapM f = .ok ys := by
  induction list with
  | nil => exact ⟨[],rfl⟩
  | cons x list ih =>
    obtain ⟨y,head⟩ := each x List.mem_cons_self
    obtain ⟨ys,tail⟩ := ih (fun z member => each z (List.mem_cons_of_mem _ member))
    rw [List.mapM_cons]
    exact ⟨y :: ys,bind_ok.mpr ⟨y,head,bind_ok.mpr ⟨ys,tail,rfl⟩⟩⟩

theorem Filed.loads {file : PersistedAccountStores} (filed : Filed ext issued file) : ∃ state, loadPersistedStores ext (some file) = .ok state ∧
    (∀ e ∈ state.stores, e.2.2.Intact ext) ∧
    (∀ e ∈ state.pending, e.2.2.2.Intact ext ∧ ∃ entry ∈ file.pending, entry.snapshotId = e.1 ∧ entry.accountId = e.2.1 ∧ entry.oldRef = e.2.2.1) ∧
    state.nextSnapshotId = file.nextSnapshotId := by
  obtain ⟨stores,read⟩ := mapM_ok (f := fun entry : PersistedAccountStore => do
      return (entry.accountId,entry.outputRef,← AccountStore.fromSnapshot ext entry.root entry.leaves)) (fun e member => by
    obtain ⟨s,loaded⟩ := filed.stores e member
    exact ⟨_,bind_ok.mpr ⟨s,loaded,rfl⟩⟩)
  obtain ⟨pending,read'⟩ := mapM_ok (f := fun entry : PersistedPendingStore => do
      return (entry.snapshotId,entry.accountId,entry.oldRef,← AccountStore.fromSnapshot ext entry.root entry.leaves)) (fun e member => by
    obtain ⟨s,loaded⟩ := filed.pending e member
    exact ⟨_,bind_ok.mpr ⟨s,loaded,rfl⟩⟩)
  refine ⟨⟨stores,pending,file.nextSnapshotId⟩,bind_ok.mpr ⟨stores,read,bind_ok.mpr ⟨pending,read',rfl⟩⟩,?_,?_,rfl⟩
  · intro e member
    obtain ⟨entry,_,made⟩ := mapM_mem read member
    obtain ⟨s,loaded,made⟩ := bind_ok.mp made
    cases made
    exact fromSnapshot_intact loaded
  · intro e member
    obtain ⟨entry,inside,made⟩ := mapM_mem read' member
    obtain ⟨s,loaded,made⟩ := bind_ok.mp made
    cases made
    exact ⟨fromSnapshot_intact loaded,entry,inside,rfl,rfl,rfl⟩

theorem Filed.restarted {file : PersistedAccountStores} (filed : Filed ext issued file)
    (loaded : AccountIndex.withPersistencePath ext (some file) = .ok index) : Careful ext issued index := by
  obtain ⟨_,plain⟩ := withPersistencePath_restarted loaded
  obtain ⟨state,read,stores,pending,next⟩ := filed.loads
  unfold AccountIndex.withPersistencePath at loaded
  rw [read] at loaded
  cases loaded
  have found_pending : ∀ {n e}, (state.pending.foldl (fun map entry => map.insert entry.1 entry.2)
      (∅ : HashMap Nat (AccountId × OutputRef × AccountStore))).lookup n = some e → (n,e) ∈ state.pending := by
    intro n e found
    rcases HashMap.lookup_collect found with absent | ⟨entry,member,rfl,rfl⟩
    · cases absent
    · exact member
  refine ⟨plain,⟨?_,?_,?_,?_⟩,?_,?_,?_⟩
  · intro a i found
    cases found
  · intro r a i found
    cases found
  · intro n e found
    exact (pending _ (found_pending found)).1
  · intro r a s found
    rcases HashMap.lookup_collect found with absent | ⟨entry,member,_,same⟩
    · cases absent
    grind
  · intro n m a r s t one two
    obtain ⟨_,entry,inside,rfl,account,output⟩ := pending _ (found_pending one)
    obtain ⟨_,entry',inside',rfl,account',output'⟩ := pending _ (found_pending two)
    grind
  · intro n member
    exact lt_of_lt_of_le (filed.later n member) (next ▸ le_max_left _ _)
  · intro saved same
    grind

theorem blank_tidy (persistence : Option (Option PersistedAccountStores)) : Tidy (AccountIndex.view {AccountIndex.default (O := O) with persistence:=persistence}) := by
  refine ⟨?_,?_,?_,?_⟩
  · intro a i found
    cases found
  · intro a i found
    cases found
  · intro r a found
    cases found
  tauto

theorem blank_careful (persistence : Option Unit) :
    Careful ext [] {AccountIndex.default (O := O) with persistence:=persistence.map (fun _ => none)} := by
  refine ⟨⟨rfl,rfl⟩,⟨?_,?_,?_,?_⟩,(blank_tidy _).single,nofun,?_⟩
  · intro a i found
    cases found
  · intro r a i found
    cases found
  · intro n e found
    cases found
  · intro r a s found
    cases found
  · intro saved file
    simp_all

theorem Careful.restart (careful : Careful ext issued index) (file : index.persistence = some saved)
    (loaded : AccountIndex.withPersistencePath ext saved = .ok next) : Tidy next.view ∧ Careful ext issued next := by
  have again : Careful ext issued next := by
    rcases careful.saves saved file with ⟨rfl,rfl⟩ | ⟨written,rfl,filed⟩
    · cases loaded
      exact blank_careful (some ())
    · exact filed.restarted loaded
  obtain ⟨restarted,_⟩ := withPersistencePath_restarted loaded
  refine ⟨⟨?_,?_,?_,again.single⟩,again⟩
  · grind
  · grind
  grind

theorem Operated.kept (free : Set.InjOn ext.blake2b256 hashed) (run : Operated ext txs hashed index chain issued) :
    Tidy index.view ∧ Careful ext issued index := by
  induction run with
  | fresh persistence _ => exact ⟨blank_tidy _,blank_careful persistence⟩
  | bind prior a r ih => exact ⟨ih.1.external ih.2.plain prior.reached.sound.2 a r,ih.2.external a r⟩
  | plan prior call base inside planned unclaimed ih =>
    obtain ⟨store,p,done,_⟩ := call.run_ok planned
    cases base.symm.trans (storeForPlanning_some.mpr done.from_base)
    have tidy := ih.1.plan done.from_base p unclaimed
    rw [← done.view.1] at tidy
    exact ⟨tidy,ih.2.plan tidy done (fun x hx y hy same => free (inside x hx) (inside y hy) same)⟩
  | apply prior fits ih =>
    refine ⟨ih.1.apply ih.2.plain prior.reached.sound.2 fits,?_⟩
    rw [applyAccountEvents_scan]
    exact (ih.2.fold Careful.consumed _).fold (fun careful u => careful.produced _ _ u) _
  | revert prior ih =>
    refine ⟨ih.1.revert ih.2.plain prior.reached.sound.2 prior.reached.consistent,?_⟩
    rw [revertAccountEvents_scan]
    exact (ih.2.fold Careful.unconsumed _).fold Careful.removed _
  | restart prior file loaded k ih => exact ih.2.restart file loaded

theorem Operated.issued_nodup (free : Set.InjOn ext.blake2b256 hashed) (run : Operated ext txs hashed index chain issued) : issued.Nodup := by
  induction run with
  | fresh _ _ => exact List.nodup_nil
  | bind _ _ _ ih => exact ih
  | plan prior call _ _ planned _ ih =>
    obtain ⟨_,_,done,_⟩ := call.run_ok planned
    refine List.nodup_cons.mpr ⟨?_,ih⟩
    intro reused
    exact absurd ((prior.kept free).2.later _ reused) (by rw [done.view.2]; exact lt_irrefl _)
  | apply _ _ ih => exact ih
  | revert _ ih => exact ih
  | restart _ _ _ _ ih => exact ih

-- A plan that takes an output from the account bound to it leaves that account
-- bound with no way back from its output.
theorem plan_claimed {call : PlanCall} (sound : Sound ext txs index.view known spent) (done : call.Done ext index a r next n base p)
    (structured : Structured ext next) : Unclaimed index a r := by
  intro unbound
  cases owner : index.byOutputRef.lookup r with
  | none => rfl
  | some b =>
    have owner : index.view.owner r = some b := owner
    obtain ⟨i,bound,at_ref⟩ := sound.owned owner
    have other : b ≠ a := by
      rintro rfl
      cases bound.symm.trans unbound
    have still : next.view.bound b = some i := by rw [done.view.1,View.plan_bound,if_neg other,bound]
    have linked : next.view.owner r = some b := (structured.inverse b r).mp ⟨i,still,at_ref⟩
    rw [done.view.1,View.plan_owner,if_pos rfl] at linked
    cases linked

theorem structured_iff_unclaimed (free : Set.InjOn ext.blake2b256 hashed) (run : Operated ext txs hashed index chain issued) :
    Structured ext index ∧ issued.Nodup ∧
      ∀ (call : PlanCall) a r next root n, call.run ext index a r = .ok (next,root,n) → n ∉ issued ∧ (Structured ext next ↔ Unclaimed index a r) := by
  obtain ⟨tidy,careful⟩ := run.kept free
  have sound := run.reached.sound.2
  refine ⟨tidy.structured sound,run.issued_nodup free,?_⟩
  intro call a r next root n planned
  obtain ⟨base,p,done,_⟩ := call.run_ok planned
  refine ⟨?_,plan_claimed sound done,?_⟩
  · intro reused
    exact absurd (careful.later n reused) (by rw [done.view.2]; exact lt_irrefl _)
  · intro unclaimed
    have after := tidy.plan done.from_base p unclaimed
    have after_sound := sound.plan done.from_base p
    rw [← done.view.1] at after after_sound
    exact after.structured after_sound

end

-- The sample account with a plan.
theorem structured_planned : ∃ hashed, Set.InjOn sampleExternals.blake2b256 hashed ∧
    Operated sampleExternals (sampleTxs [openingTx]) hashed (samplePlanned registeredIndex 1 10).1 [openingTx] [(samplePlanned registeredIndex 1 10).2.2] ∧
    Structured sampleExternals (samplePlanned registeredIndex 1 10).1 := by
  have free : Set.InjOn sampleExternals.blake2b256 {s | s ∈ (samplePlan 1 10).strings sampleExternals .empty} :=
    Mpf.recorded_collisionless (by decide +kernel)
  have registered : Operated sampleExternals (sampleTxs [openingTx]) {s | s ∈ (samplePlan 1 10).strings sampleExternals .empty}
      registeredIndex [openingTx] [] := .bind (.apply (.fresh none .nil) ⟨by simp [sampleTxs],by decide,by decide,by decide,by decide⟩) _ _
  have ran : (samplePlan 1 10).run sampleExternals registeredIndex (sampleAccount 1) ⟨digestOf 1,0⟩ =
      .ok ((samplePlanned registeredIndex 1 10).1,(samplePlanned registeredIndex 1 10).2.1,(samplePlanned registeredIndex 1 10).2.2) :=
    samplePlanned_run (by decide)
  have run := registered.plan (samplePlan 1 10)
    (show registeredIndex.storeForPlanning (sampleAccount 1) ⟨digestOf 1,0⟩ = some .empty by decide) (fun _ => id) ran
    (fun unbound => absurd unbound (by decide))
  exact ⟨_,free,run,(structured_iff_unclaimed free run).1⟩

-- The transaction that created the account's output is taken back after a plan
-- and applied again; another account registers the output.
def reclaimedIndex : AccountIndex AlephAccountState :=
  ((applyAccountEvents (revertAccountEvents (samplePlanned registeredIndex 1 10).1 (scanAccountEvents sampleExternals openingTx))
    (scanAccountEvents sampleExternals openingTx)).bindExternalAccountIdOnce (sampleAccount 3) ⟨digestOf 1,0⟩).1

theorem reclaimed_reached : Reached sampleExternals (sampleTxs [openingTx]) reclaimedIndex [openingTx] := by
  have planned : Reached sampleExternals (sampleTxs [openingTx]) (samplePlanned registeredIndex 1 10).1 [openingTx] :=
    .plan (registered_reached []) (samplePlan 1 10) (samplePlanned_run (by decide))
  exact .bind (.apply (.revert planned) ⟨by simp [sampleTxs],by decide,by decide,by decide,by decide⟩) _ _

-- The first account plans again, from the output the other one is bound to.
theorem structure_broken : Reached sampleExternals (sampleTxs [openingTx]) (samplePlanned reclaimedIndex 1 10).1 [openingTx] ∧
    ¬Structured sampleExternals (samplePlanned reclaimedIndex 1 10).1 := by
  refine ⟨.plan reclaimed_reached (samplePlan 1 10) (samplePlanned_run (by decide)),?_⟩
  intro structured
  have bound : (samplePlanned reclaimedIndex 1 10).1.byAccountId.lookup (sampleAccount 3) =
      some ⟨⟨sampleState 1 0 emptyRoot,⟨digestOf 1,0⟩⟩,.empty⟩ := by decide
  have unlinked : (samplePlanned reclaimedIndex 1 10).1.byOutputRef.lookup ⟨digestOf 1,0⟩ = none := by decide
  cases unlinked.symm.trans ((structured.inverse (sampleAccount 3) ⟨digestOf 1,0⟩).mp ⟨_,bound,rfl⟩)

end GreenAgent.Account
