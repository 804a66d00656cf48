import GreenAgent.Account.Rollback
import GreenAgent.Account.Batch

namespace GreenAgent.Account
open Mpf (Digest emptyRoot digestOf)

-- An account of the transaction that nothing was planned for.
@[grind cases eager] structure Tracked (index : AccountIndex O) (item : BatchItem O) : Prop where
  owner : index.byOutputRef.lookup item.reference = some item.account
  store : ∃ i, index.byAccountId.lookup item.account = some i ∧ i.store = item.store

-- A planned account is unbound, with the output it left as the base of the plan.
-- It is bound there again after a rollback, and after a restart only the plan
-- is left.
@[grind cases eager] structure Planned (index : AccountIndex O) (item : BatchItem O) : Prop where
  snapshot : ∃ n, index.pendingStoreBySnapshotId.lookup n = some (item.account,item.reference,item.store)
  base : index.byOutputRef.lookup item.reference = some item.account ∨
    (index.byOutputRef.lookup item.reference = none ∧ (index.rollbackBySpentRef.lookup item.reference = none ∨
      (index.byAccountId.lookup item.account = none ∧
        ∃ i, index.rollbackBySpentRef.lookup item.reference = some (item.account,i))))

-- A transaction of the agent, at least one account of which is planned. Its
-- other inputs are no account outputs.
structure AgentBuilt (ext : Externals O) (txs : Digest → TxView O) (index : AccountIndex O) (tx : TxView O) (items : List (BatchItem O)) :
    Prop where
  each : ∀ item ∈ items, Tracked index item ∨ Planned index item
  planned : ∃ item ∈ items, Planned index item
  distinct : (items.map BatchItem.account).Nodup
  spends : ∀ item ∈ items, item.reference ∈ tx.inputs
  others : ∀ r ∈ tx.inputs, (∃ item ∈ items, item.reference = r) ∨ ¬AccountRef ext txs r
  produces : (tx.accounts ext).Perm (items.map BatchItem.successor)
  written : ∀ item ∈ items, item.successor.state.storeRoot = item.store.root

-- Applying the transaction again after a rollback gives what applying it gave.
def Idempotent (ext : Externals O) (index : AccountIndex O) (tx : TxView O) : Prop :=
  ∀ a, (applyAccountEvents (undo ext index tx) (scanAccountEvents ext tx)).byAccountId.lookup a =
    (applyAccountEvents index (scanAccountEvents ext tx)).byAccountId.lookup a

-- The plans confirm no output of the transaction, and the rule for a single
-- spent account does not apply while an input waits for a plan.
@[grind cases eager] structure Unmatched (ext : Externals O) (v : View O) (tx : TxView O) : Prop where
  disagree : ∀ u ∈ tx.accounts ext, ∀ a s, ¬v.Agrees tx.inputs u.state.storeRoot a s
  settled : ∀ a, v.SoleSpent tx.inputs a → ∀ u ∈ tx.accounts ext, u.state.storeRoot = emptyRoot →
    ∀ r ∈ tx.inputs, v.owner r = none → v.rollback r = none

namespace View
variable {O : Type} {spent : List OutputRef}

-- Outputs that neither a plan nor a loaded store speaks for.
def Quiet (v : View O) (spent : List OutputRef) (handled : List (AlephAccountUtxo O)) : Prop :=
  ∀ u ∈ handled, (∀ a s, ¬v.Agrees spent u.state.storeRoot a s) ∧ v.persisted u.outputRef = none

theorem Claim.sole_iff {v : View O} (disagree : ∀ a s, ¬v.Agrees spent u.state.storeRoot a s) (fresh : v.persisted u.outputRef = none) :
    Claim v spent earlier held u a s ↔ v.SoleSpent spent a ∧ u.state.storeRoot = emptyRoot ∧ ¬held a ∧ s = .empty := by
  constructor
  · intro claim
    cases claim with
    | confirmed here => exact absurd here.agrees (disagree a s)
    | empty _ sole root waits => exact ⟨sole,root,waits,rfl⟩
    | resumed _ _ found _ => cases fresh.symm.trans found
  · rintro ⟨sole,root,waits,rfl⟩
    exact .empty (fun b t here => disagree b t here.agrees) sole root waits

theorem Quiet.held {v : View O} (quiet : v.Quiet spent handled) (held : v.Held spent handled a) :
    v.SoleSpent spent a ∧ ∃ u ∈ handled, u.state.storeRoot = emptyRoot := by
  obtain ⟨u,member,earlier,s,claim⟩ := held.claim
  obtain ⟨sole,root,_⟩ := (Claim.sole_iff (quiet u member).1 (quiet u member).2).mp claim
  exact ⟨sole,u,member,root⟩

theorem SoleSpent.held {v : View O} (sole : v.SoleSpent spent a) (quiet : v.Quiet spent handled)
    (produced : ∃ u ∈ handled, u.state.storeRoot = emptyRoot) : v.Held spent handled a := by
  induction handled with
  | nil =>
    obtain ⟨_,impossible,_⟩ := produced
    cases impossible
  | cons u earlier ih =>
    by_cases before : v.Held spent earlier a
    · exact .inr before
    · obtain ⟨u',member,root⟩ := produced
      rcases List.mem_cons.mp member with rfl | later
      · have alone := quiet u' List.mem_cons_self
        exact .inl ⟨.empty,(Claim.sole_iff alone.1 alone.2).mpr ⟨sole,root,before,rfl⟩⟩
      · exact absurd (ih (fun e member => quiet e (List.mem_cons_of_mem _ member)) ⟨u',later,root⟩) before

theorem Quiet.ends {v v' : View O} (quiet : v.Quiet spent handled) (quiet' : v'.Quiet spent handled)
    (same : ∀ u ∈ handled, u.state.storeRoot = emptyRoot → ∀ a, v.SoleSpent spent a ↔ v'.SoleSpent spent a) :
    v.Held spent handled = v'.Held spent handled ∧ ∀ {a u s}, v.Ends spent handled a u s → v'.Ends spent handled a u s := by
  induction handled with
  | nil => exact ⟨rfl,fun ends => by cases ends⟩
  | cons u earlier ih =>
    obtain ⟨held,ends⟩ := ih (fun e member => quiet e (List.mem_cons_of_mem _ member))
      (fun e member => quiet' e (List.mem_cons_of_mem _ member)) (fun e member => same e (List.mem_cons_of_mem _ member))
    have claims : ∀ a s, Claim v spent earlier (v.Held spent earlier) u a s ↔ Claim v' spent earlier (v'.Held spent earlier) u a s := by
      intro a s
      obtain ⟨disagree,fresh⟩ := quiet u List.mem_cons_self
      obtain ⟨disagree',fresh'⟩ := quiet' u List.mem_cons_self
      rw [Claim.sole_iff disagree fresh,Claim.sole_iff disagree' fresh',held]
      constructor
      · rintro ⟨sole,root,rest⟩
        exact ⟨(same u List.mem_cons_self root a).mp sole,root,rest⟩
      · rintro ⟨sole,root,rest⟩
        exact ⟨(same u List.mem_cons_self root a).mpr sole,root,rest⟩
    refine ⟨?_,?_⟩
    · funext a
      exact propext (or_congr (exists_congr (claims a)) (iff_of_eq (congrFun held a)))
    · intro a u' s ended
      cases ended with
      | here claim => exact .here ((claims a s).mp claim)
      | before passed rest => exact .before (fun t claim => passed t ((claims a t).mpr claim)) (ends rest)

end View

section
variable {O : Type} {ext : Externals O} {txs : Digest → TxView O} {index : AccountIndex O} {items : List (BatchItem O)} {tx : TxView O}

theorem Sound.owner_accountRef {v : View O} (sound : Sound ext txs v known spent) (owner : v.owner r = some a) : AccountRef ext txs r := by
  obtain ⟨i,bound,rfl⟩ := sound.owned owner
  exact (sound.bound_carries bound).accountRef

theorem AgentBuilt.same_item (built : AgentBuilt ext txs index tx items) (one : item ∈ items) (two : item' ∈ items)
    (same : item'.account = item.account) : item' = item :=
  List.inj_on_of_nodup_map built.distinct two one same

theorem AgentBuilt.owner_item (built : AgentBuilt ext txs index tx items) (before : Sound ext txs index.view known spent)
    (input : r ∈ tx.inputs) (owner : index.view.owner r = some b) : ∃ item ∈ items, item.reference = r ∧ item.account = b := by
  rcases built.others r input with ⟨item,member,rfl⟩ | foreign
  · refine ⟨item,member,rfl,?_⟩
    rcases built.each item member with tracked | planned
    · exact Option.some.inj (tracked.owner.symm.trans owner)
    · rcases planned.base with here | ⟨unowned,_⟩
      · exact Option.some.inj (here.symm.trans owner)
      · cases unowned.symm.trans owner
  · exact absurd (before.owner_accountRef owner) foreign

theorem AgentBuilt.base_item (built : AgentBuilt ext txs index tx items) (before : Sound ext txs index.view known spent)
    (input : r ∈ tx.inputs) (unowned : index.view.owner r = none) (taken : index.view.rollback r = some (b,i)) :
    ∃ item ∈ items, item.reference = r ∧ item.account = b ∧ index.view.bound b = none := by
  rcases built.others r input with ⟨item,member,rfl⟩ | foreign
  · rcases built.each item member with tracked | planned
    · cases tracked.owner.symm.trans unowned
    · rcases planned.base with here | ⟨_,absent | ⟨unbound,j,record⟩⟩
      · cases here.symm.trans unowned
      · cases absent.symm.trans taken
      · cases record.symm.trans taken
        exact ⟨item,member,rfl,rfl,unbound⟩
  · obtain ⟨rfl,carries⟩ := before.taken_carries taken
    exact absurd carries.accountRef foreign

-- The index after the transaction, after its rollback and after its return.
@[grind cases eager] structure Twice (ext : Externals O) (txs : Digest → TxView O) (index : AccountIndex O) (chain : List (TxView O)) (tx : TxView O) : Prop where
  once : Applied ext txs index chain tx
  again : Applied ext txs (undo ext index tx) chain tx
  fresh : ∀ r ∈ tx.refs, index.view.persisted r = none

theorem Reached.twice (reached : Reached ext txs index chain) (fits : Fits txs chain tx)
    (fresh : ∀ r ∈ tx.refs, index.persistedByOutputRef.lookup r = none) : Twice ext txs index chain tx :=
  ⟨reached.applied fits,(Reached.revert (reached.apply fits)).applied fits,fresh⟩

theorem Twice.quiet (twice : Twice ext txs index chain tx) : (undo ext index tx).view.Quiet tx.inputs (tx.accounts ext).reverse := by
  intro u member
  have listed := List.mem_reverse.mp member
  rw [undo_view twice.once]
  refine ⟨?_,?_⟩
  · rintro a s ⟨⟨n,r,found,input,_⟩,_⟩
    rw [View.fold_keeps View.remove_snapshots] at found
    exact (View.unconsumes_snapshots found).2 input
  · rw [View.fold_keeps View.remove_persisted,View.unconsumes_persisted]
    cases kept : (applyAccountEvents index (scanAccountEvents ext tx)).view.persisted u.outputRef with
    | none => rfl
    | some entry => cases (twice.fresh _ (mem_accounts listed).1).symm.trans (twice.once.progress.loaded _ _ kept)

theorem Twice.owner (twice : Twice ext txs index chain tx) (input : r ∈ tx.inputs) : (undo ext index tx).view.owner r =
    (tx.inputs.foldl View.unconsume (applyAccountEvents index (scanAccountEvents ext tx)).view).owner r := by
  rw [undo_view twice.once,View.fold_clears View.remove_owner,if_neg]
  intro member
  obtain ⟨u,account,rfl⟩ := List.mem_map.mp member
  exact input_not_ref twice.once.fits input (mem_accounts account).1

-- The records that the rollback of an agent's transaction goes by.
@[grind cases eager] structure AgentBuilt.Record (ext : Externals O) (index : AccountIndex O) (tx : TxView O) (items : List (BatchItem O)) (r : OutputRef)
    (c : AccountId) : Prop where
  listed : ∃ item ∈ items, item.reference = r ∧ item.account = c
  unbound : (tx.inputs.foldl View.consume index.view).bound c = none
  cause : index.view.owner r = some c ∨ (index.view.owner r = none ∧ ∃ i, index.view.rollback r = some (c,i))

theorem AgentBuilt.record (built : AgentBuilt ext txs index tx items) (once : Applied ext txs index chain tx) (input : r ∈ tx.inputs)
    (taken : (applyAccountEvents index (scanAccountEvents ext tx)).view.rollback r = some (c,i)) :
    AgentBuilt.Record ext index tx items r c := by
  rw [once.rollback input] at taken
  cases owner : index.view.owner r with
  | some b =>
    obtain ⟨j,held⟩ := once.before.holder_owner owner
    rw [held] at taken
    cases taken
    exact ⟨built.owner_item once.before input owner,by rw [View.consumes_bound,if_pos ⟨r,input,owner⟩],.inl owner⟩
  | none =>
    have unheld : index.view.holder r = none := by simp only [View.holder,owner,Option.bind_none]
    rw [unheld,Option.none_or] at taken
    obtain ⟨item,member,here,account,unbound⟩ := built.base_item once.before input owner taken
    exact ⟨⟨item,member,here,account⟩,by rw [View.consumes_bound,unbound,ite_self],.inr ⟨owner,i,taken⟩⟩

theorem AgentBuilt.owner_record (once : Applied ext txs index chain tx) (input : r ∈ tx.inputs) (owner : index.view.owner r = some c) :
    ∃ i, (applyAccountEvents index (scanAccountEvents ext tx)).view.rollback r = some (c,i) := by
  obtain ⟨i,held⟩ := once.before.holder_owner owner
  exact ⟨i,by rw [once.rollback input,held]; rfl⟩

theorem AgentBuilt.base_record (once : Applied ext txs index chain tx) (input : r ∈ tx.inputs) (unowned : index.view.owner r = none)
    (taken : index.view.rollback r = some (c,i)) :
    (applyAccountEvents index (scanAccountEvents ext tx)).view.rollback r = some (c,i) := by
  rw [once.rollback input]
  simp only [View.holder,unowned,Option.bind_none,Option.none_or,taken]

theorem AgentBuilt.record_single (built : AgentBuilt ext txs index tx items) (once : Applied ext txs index chain tx)
    (input : r ∈ tx.inputs) (taken : (applyAccountEvents index (scanAccountEvents ext tx)).view.rollback r = some (c,i))
    (input' : r' ∈ tx.inputs) (taken' : (applyAccountEvents index (scanAccountEvents ext tx)).view.rollback r' = some (c,j)) : r' = r := by
  obtain ⟨item,member,rfl,account⟩ := (built.record once input taken).listed
  obtain ⟨item',member',rfl,account'⟩ := (built.record once input' taken').listed
  rw [built.same_item member member' (account'.trans account.symm)]

theorem AgentBuilt.record_bound (built : AgentBuilt ext txs index tx items) (once : Applied ext txs index chain tx)
    (input : r ∈ tx.inputs) (taken : (applyAccountEvents index (scanAccountEvents ext tx)).view.rollback r = some (c,i))
    (bound : (applyAccountEvents index (scanAccountEvents ext tx)).view.bound c = some k) :
    ∃ u s, index.view.Ends tx.inputs (tx.accounts ext).reverse c u s ∧ k = ⟨u.finalizedOutput,s⟩ := by
  rcases once.progress.bound c with ⟨u,s,ends,at_u⟩ | ⟨_,still⟩
  · exact ⟨u,s,ends,Option.some.inj (bound.symm.trans at_u)⟩
  · rw [still,(built.record once input taken).unbound] at bound
    cases bound

theorem AgentBuilt.record_owner (built : AgentBuilt ext txs index tx items) (twice : Twice ext txs index chain tx)
    (input : r ∈ tx.inputs) (taken : (applyAccountEvents index (scanAccountEvents ext tx)).view.rollback r = some (c,i)) :
    (undo ext index tx).view.owner r = some c := by
  rw [twice.owner input]
  refine twice.once.after.unconsumes_owner_self twice.once.fits.inputs_nodup input taken ?_ ?_
  · intro r' input' j taken'
    exact built.record_single twice.once input taken input' taken'
  · intro r' input' b j taken' k bound same
    obtain ⟨u,s,ends,rfl⟩ := built.record_bound twice.once input' taken' bound
    exact input_not_ref twice.once.fits input (same ▸ (mem_accounts (List.mem_reverse.mp ends.mem)).1)

theorem Twice.owner_record (twice : Twice ext txs index chain tx) (input : r ∈ tx.inputs)
    (owner : (undo ext index tx).view.owner r = some c) :
    (∃ r' ∈ tx.inputs, ∃ i, (applyAccountEvents index (scanAccountEvents ext tx)).view.rollback r' = some (c,i)) ∨
      index.view.Held tx.inputs (tx.accounts ext).reverse c := by
  rw [twice.owner input] at owner
  rcases twice.once.after.unconsumes_owner_or twice.once.fits.inputs_nodup owner with record | kept
  · exact .inl record
  · rcases twice.once.progress.owner r c kept with held | before
    · exact .inr held
    · rw [View.consumes_owner,if_pos input] at before
      cases before

theorem Twice.unclaimed (twice : Twice ext txs index chain tx) (free : ¬(undo ext index tx).view.Held tx.inputs (tx.accounts ext).reverse a) :
    (applyAccountEvents (undo ext index tx) (scanAccountEvents ext tx)).view.bound a =
      if ∃ r ∈ tx.inputs, (undo ext index tx).view.owner r = some a then none else (undo ext index tx).view.bound a := by
  rcases twice.again.progress.bound a with ⟨_,_,ends,_⟩ | ⟨_,still⟩
  · exact absurd ends.held free
  · rw [still,View.consumes_bound]

section
variable {chain : List (TxView O)} (built : AgentBuilt ext txs index tx items) (twice : Twice ext txs index chain tx)
  (rooted : ∀ n e, index.view.snapshots n = some e → e.2.2.root ≠ emptyRoot)
include built twice rooted

theorem AgentBuilt.sole_iff (unmatched : Unmatched ext index.view tx) (quiet : index.view.Quiet tx.inputs (tx.accounts ext).reverse)
    (produced : u ∈ tx.accounts ext) (root : u.state.storeRoot = emptyRoot) (a : AccountId) :
    index.view.SoleSpent tx.inputs a ↔ (undo ext index tx).view.SoleSpent tx.inputs a := by
  have restored : ∀ r ∈ tx.inputs, ∀ b, index.view.owner r = some b → (undo ext index tx).view.owner r = some b := by
    intro r input b owner
    obtain ⟨i,taken⟩ := AgentBuilt.owner_record twice.once input owner
    exact built.record_owner twice input taken
  constructor
  · rintro ⟨⟨r,input,owner⟩,only⟩
    refine ⟨⟨r,input,restored r input a owner⟩,?_⟩
    intro r' input' b owner'
    rcases twice.owner_record input' owner' with ⟨r'',input'',i,taken⟩ | held
    · rcases (built.record twice.once input'' taken).cause with here | ⟨unowned,j,base⟩
      · exact only r'' input'' b here
      · cases (unmatched.settled a ⟨⟨r,input,owner⟩,only⟩ u produced root r'' input'' unowned).symm.trans base
    · obtain ⟨⟨r'',input'',here⟩,_⟩ := (quiet.held held).1
      exact only r'' input'' b here
  · rintro ⟨_,only⟩
    -- the output with the empty root belongs to an account that is not planned
    obtain ⟨item,member,rfl⟩ := List.mem_map.mp (built.produces.mem_iff.mp produced)
    have empty : item.store.root = emptyRoot := (built.written item member).symm.trans root
    rcases built.each item member with tracked | planned
    · have owner : index.view.owner item.reference = some item.account := tracked.owner
      have input := built.spends item member
      have this := only _ input _ (restored _ input _ owner)
      subst this
      exact ⟨⟨_,input,owner⟩,fun r' input' b owner' => only r' input' b (restored r' input' b owner')⟩
    · obtain ⟨n,found⟩ := planned.snapshot
      exact absurd empty (rooted n _ found)

theorem AgentBuilt.idempotent (unmatched : Unmatched ext index.view tx) : Idempotent ext index tx := by
  have quiet : index.view.Quiet tx.inputs (tx.accounts ext).reverse := fun u member =>
    have listed := List.mem_reverse.mp member
    ⟨unmatched.disagree u listed,twice.fresh _ (mem_accounts listed).1⟩
  obtain ⟨same,ends_same⟩ := quiet.ends twice.quiet
    (fun u member root => built.sole_iff twice rooted unmatched quiet (List.mem_reverse.mp member) root)
  intro a
  change (applyAccountEvents (undo ext index tx) (scanAccountEvents ext tx)).view.bound a =
    (applyAccountEvents index (scanAccountEvents ext tx)).view.bound a
  rcases twice.once.progress.bound a with ⟨u,s,ends,at_u⟩ | ⟨free,still⟩
  · rcases twice.again.progress.bound a with ⟨u',s',ends',at_u'⟩ | ⟨free',_⟩
    · obtain ⟨rfl,rfl⟩ := (ends_same ends).unique ends'
      rw [at_u,at_u']
    · exact absurd (same ▸ ends.held) free'
  · rw [twice.unclaimed (same ▸ free)]
    split
    · rename_i spent
      obtain ⟨r,input,owner⟩ := spent
      rcases twice.owner_record input owner with ⟨r',input',i,taken⟩ | held
      · rw [still,(built.record twice.once input' taken).unbound]
      · exact absurd held free
    · rename_i unspent
      rw [undo_view twice.once,View.removes_bound,if_neg]
      · apply View.unconsumes_bound twice.once.fits.inputs_nodup
        · intro r input i taken
          exact absurd ⟨r,input,built.record_owner twice input taken⟩ unspent
        · exact .inl rfl
      · rintro ⟨r,member,owner⟩
        obtain ⟨u,account,rfl⟩ := List.mem_map.mp member
        exact free (twice.once.leftover (mem_accounts account).1 owner).1

theorem AgentBuilt.disagree (idempotent : Idempotent ext index tx) (produced : u ∈ tx.accounts ext) (a : AccountId) (s : AccountStore) :
    ¬index.view.Agrees tx.inputs u.state.storeRoot a s := by
  intro agrees
  obtain ⟨c,last,t,ends,⟨⟨n,_,found,_,root⟩,_⟩,owner⟩ := twice.once.progress.last
    (fun e member => twice.fresh _ (mem_accounts (List.mem_reverse.mp member)).1) ⟨u,List.mem_reverse.mpr produced,a,s,agrees⟩
  have full : last.state.storeRoot ≠ emptyRoot := root ▸ rooted n _ found
  have account := List.mem_reverse.mp ends.mem
  have created := (mem_accounts account).1
  have outside : last.outputRef ∉ tx.inputs := fun input => input_not_ref twice.once.fits input created
  obtain ⟨k,first,at_last⟩ := twice.once.after.owned owner
  have second : (applyAccountEvents (undo ext index tx) (scanAccountEvents ext tx)).view.bound c = some k := (idempotent c).trans first
  have apart : ((tx.accounts ext).map AlephAccountUtxo.outputRef).Nodup := accounts_nodup twice.once.fits.refs_nodup
  rcases twice.again.progress.bound c with ⟨u',s',ends',at_u'⟩ | ⟨free,_⟩
  · have here := Option.some.inj (second.symm.trans at_u')
    have same := List.inj_on_of_nodup_map apart account (List.mem_reverse.mp ends'.mem)
      (at_last.symm.trans (congrArg (fun i : IndexedAccount O => i.utxo.reference) here))
    obtain ⟨_,_,_,claim⟩ := ends'.claim
    have alone := twice.quiet u' ends'.mem
    exact full (same ▸ ((View.Claim.sole_iff alone.1 alone.2).mp claim).2.1)
  · rw [twice.unclaimed free] at second
    split at second
    · cases second
    · rw [undo_view twice.once,View.removes_bound] at second
      split at second
      · cases second
      · rename_i unremoved
        by_cases recorded : ∃ r ∈ tx.inputs, ∃ i, (applyAccountEvents index (scanAccountEvents ext tx)).view.rollback r = some (c,i)
        · obtain ⟨r,input,i,taken⟩ := recorded
          have back : (tx.inputs.foldl View.unconsume (applyAccountEvents index (scanAccountEvents ext tx)).view).bound c = some i := by
            refine View.unconsumes_bound twice.once.fits.inputs_nodup ?_ (.inr ⟨r,input,i,taken⟩)
            intro r' input' j taken'
            obtain rfl := built.record_single twice.once input taken input' taken'
            cases taken.symm.trans taken'
            rfl
          cases back.symm.trans second
          exact outside (at_last ▸ (twice.once.after.taken_carries taken).1 ▸ input)
        · refine unremoved ⟨_,List.mem_map.mpr ⟨last,account,rfl⟩,?_⟩
          refine twice.once.after.unconsumes_owner_keep twice.once.fits.inputs_nodup owner outside ?_
          intro r input b i taken
          have other : b ≠ c := by
            rintro rfl
            exact recorded ⟨r,input,i,taken⟩
          refine ⟨other,?_⟩
          intro j bound same
          obtain ⟨u',s',ends',rfl⟩ := built.record_bound twice.once input taken bound
          have here := List.inj_on_of_nodup_map apart (List.mem_reverse.mp ends'.mem) account same
          exact other (ends.same_output (here ▸ ends') (List.nodup_reverse.mpr (List.Nodup.of_map _ apart)))

omit rooted in
-- Nor does the only bound account of the transaction, once the base of a plan is
-- bound again besides it.
theorem AgentBuilt.settled (idempotent : Idempotent ext index tx) (quiet : index.view.Quiet tx.inputs (tx.accounts ext).reverse)
    (sole : index.view.SoleSpent tx.inputs a) (produced : u ∈ tx.accounts ext) (root : u.state.storeRoot = emptyRoot)
    (input : r ∈ tx.inputs) (unowned : index.view.owner r = none) : index.view.rollback r = none := by
  cases base : index.view.rollback r with
  | none => rfl
  | some entry =>
    exfalso
    obtain ⟨c,i⟩ := entry
    obtain ⟨⟨r',input',owner⟩,only⟩ := sole
    obtain ⟨j,taken⟩ := AgentBuilt.owner_record twice.once input' owner
    have back := built.record_owner twice input' taken
    have waiting := built.record_owner twice input (AgentBuilt.base_record twice.once input unowned base)
    have other : c ≠ a := by
      rintro rfl
      obtain rfl := built.record_single twice.once input' taken input (AgentBuilt.base_record twice.once input unowned base)
      cases owner.symm.trans unowned
    have held := View.SoleSpent.held ⟨⟨r',input',owner⟩,only⟩ quiet ⟨u,List.mem_reverse.mpr produced,root⟩
    have free : ¬(undo ext index tx).view.Held tx.inputs (tx.accounts ext).reverse a := by
      intro again
      exact other ((twice.quiet.held again).1.2 r input c waiting)
    rcases twice.once.progress.bound a with ⟨u',s,_,first⟩ | ⟨absent,_⟩
    · have second : (applyAccountEvents (undo ext index tx) (scanAccountEvents ext tx)).view.bound a = some _ :=
        (idempotent a).trans first
      rw [twice.unclaimed free,if_pos ⟨r',input',back⟩] at second
      cases second
    · exact absent held

end

theorem reorg_idempotent_iff (nonzero : ∀ s, ext.blake2b256 s ≠ emptyRoot) (reached : Reached ext txs index chain) (fits : Fits txs chain tx)
    (built : AgentBuilt ext txs index tx items) (fresh : ∀ r ∈ tx.refs, index.persistedByOutputRef.lookup r = none) :
    Idempotent ext index tx ↔ Unmatched ext index.view tx := by
  have twice := reached.twice fits fresh
  have rooted := (reached.rooted nonzero).pending
  constructor
  · intro idempotent
    have disagree := fun u produced => built.disagree twice rooted idempotent (u := u) produced
    have quiet : index.view.Quiet tx.inputs (tx.accounts ext).reverse := fun u member =>
      have listed := List.mem_reverse.mp member
      ⟨disagree u listed,twice.fresh _ (mem_accounts listed).1⟩
    exact ⟨disagree,fun a sole u produced root r input unowned =>
      built.settled twice idempotent quiet sole produced root input unowned⟩
  · exact built.idempotent twice rooted

end
-- Both accounts insert the same intent into an empty store, so that their plans
-- have the same root.
def twinPlan : PlanCall := .sigInsert ⟨sampleAccount 2,0,1,digestOf 10⟩ [1] (sampleIntent 10)

def twinStore : AccountStore := ((twinPlan.predict sampleExternals .empty).toOption).getD .empty

def twinPlanned : AccountIndex AlephAccountState × Digest × Nat :=
  ((twinPlan.run sampleExternals (samplePlanned bothIndex 1 10).1 (sampleAccount 2) ⟨digestOf 1,1⟩).toOption).getD (bothIndex,emptyRoot,0)

theorem twinPlanned_run : twinPlan.run sampleExternals (samplePlanned bothIndex 1 10).1 (sampleAccount 2) ⟨digestOf 1,1⟩ =
    .ok twinPlanned := by
  unfold twinPlanned
  cases ran : twinPlan.run sampleExternals (samplePlanned bothIndex 1 10).1 (sampleAccount 2) ⟨digestOf 1,1⟩ with
  | error e =>
    have done : (twinPlan.run sampleExternals (samplePlanned bothIndex 1 10).1 (sampleAccount 2) ⟨digestOf 1,1⟩).toOption.isSome = true := by
      decide
    rw [ran] at done
    cases done
  | ok result => rfl

def twinTx : TxView AlephAccountState := ⟨digestOf 15,[⟨digestOf 1,0⟩,⟨digestOf 1,1⟩],
  [(0,sampleState 1 1 twinStore.root),(1,sampleState 2 1 twinStore.root)]⟩

def twinItems : List (BatchItem AlephAccountState) := [
  ⟨sampleAccount 1,⟨digestOf 1,0⟩,sampleStore 1 10,
    ⟨⟨digestOf 15,0⟩,sampleState 1 1 twinStore.root,sampleState 1 1 twinStore.root⟩⟩,
  ⟨sampleAccount 2,⟨digestOf 1,1⟩,twinStore,
    ⟨⟨digestOf 15,1⟩,sampleState 2 1 twinStore.root,sampleState 2 1 twinStore.root⟩⟩]

theorem twin_built : AgentBuilt sampleExternals (sampleTxs [openingTx,twinTx]) twinPlanned.1 twinTx twinItems := by
  have first : Planned twinPlanned.1 (twinItems.head (by decide)) :=
    ⟨⟨0,by decide +kernel⟩,.inr ⟨by decide +kernel,.inr ⟨by decide +kernel,
      ⟨⟨sampleState 1 0 emptyRoot,⟨digestOf 1,0⟩⟩,.empty⟩,by decide⟩⟩⟩
  have second : Planned twinPlanned.1 (twinItems.getLast (by decide)) :=
    ⟨⟨1,by decide +kernel⟩,.inr ⟨by decide +kernel,.inr ⟨by decide +kernel,
      ⟨⟨sampleState 2 0 emptyRoot,⟨digestOf 1,1⟩⟩,.empty⟩,by decide⟩⟩⟩
  refine ⟨?_,⟨_,List.mem_cons_self,first⟩,by decide,?_,?_,List.Perm.of_eq (by decide +kernel),?_⟩
  · intro item member
    rcases List.mem_cons.mp member with rfl | later
    · exact .inr first
    · obtain rfl := List.mem_singleton.mp later
      exact .inr second
  · intro item member
    rcases List.mem_cons.mp member with rfl | later
    · exact List.mem_cons_self
    · obtain rfl := List.mem_singleton.mp later
      exact List.mem_cons_of_mem _ List.mem_cons_self
  · intro r input
    rcases List.mem_cons.mp input with rfl | later
    · exact .inl ⟨_,List.mem_cons_self,rfl⟩
    · obtain rfl := List.mem_singleton.mp later
      exact .inl ⟨_,List.mem_cons_of_mem _ List.mem_cons_self,rfl⟩
  · intro item member
    rcases List.mem_cons.mp member with rfl | later
    · decide +kernel
    · obtain rfl := List.mem_singleton.mp later
      rfl

-- Neither account gets its output, the first time or the second.
theorem reorg_idempotent_twins : Idempotent sampleExternals twinPlanned.1 twinTx := by
  refine (reorg_idempotent_iff sample_nonzero (.plan (.plan (.bind (registered_reached [twinTx]) (sampleAccount 2) ⟨digestOf 1,1⟩)
    (samplePlan 1 10) (samplePlanned_run (by decide))) twinPlan twinPlanned_run)
    ⟨by decide +kernel,by decide +kernel,by decide,by decide,by decide⟩ twin_built (by decide +kernel)).mpr ⟨?_,?_⟩
  · intro u produced a s agrees
    have root : u.state.storeRoot = twinStore.root := by
      have all : (twinTx.accounts sampleExternals).all (fun u => decide (u.state.storeRoot = twinStore.root)) = true := by decide +kernel
      exact of_decide_eq_true (List.all_eq_true.mp all u produced)
    rw [root] at agrees
    have one := agrees.2 (sampleAccount 1) (sampleStore 1 10) ⟨0,⟨digestOf 1,0⟩,by decide +kernel,by decide,by decide +kernel⟩
    have two := agrees.2 (sampleAccount 2) twinStore ⟨1,⟨digestOf 1,1⟩,by decide +kernel,by decide,rfl⟩
    exact absurd (one.1.trans two.1.symm) (by decide)
  · rintro a ⟨⟨r,input,owner⟩,_⟩
    have none : twinTx.inputs.all (fun r => decide (twinPlanned.1.byOutputRef.lookup r = Option.none)) = true := by decide
    cases (of_decide_eq_true (List.all_eq_true.mp none r input)).symm.trans owner

-- One planned account is bound by the transaction, and left unbound when the
-- transaction comes back after a rollback.
theorem reorg_loses_plan : Reached sampleExternals (sampleTxs [openingTx,plannedTx 1 10]) (samplePlanned registeredIndex 1 10).1 [openingTx] ∧
    Fits (sampleTxs [openingTx,plannedTx 1 10]) [openingTx] (plannedTx 1 10) ∧
    AgentBuilt sampleExternals (sampleTxs [openingTx,plannedTx 1 10]) (samplePlanned registeredIndex 1 10).1 (plannedTx 1 10) [plannedItem 1 10] ∧
    ¬Idempotent sampleExternals (samplePlanned registeredIndex 1 10).1 (plannedTx 1 10) := by
  have planned : Planned (samplePlanned registeredIndex 1 10).1 (plannedItem 1 10) :=
    ⟨⟨0,by decide +kernel⟩,.inr ⟨by decide +kernel,.inr ⟨by decide +kernel,
      ⟨⟨sampleState 1 0 emptyRoot,⟨digestOf 1,0⟩⟩,.empty⟩,by decide⟩⟩⟩
  refine ⟨.plan (registered_reached _) (samplePlan 1 10) (samplePlanned_run (by decide)),planned_fits,?_,?_⟩
  · refine ⟨?_,⟨_,List.mem_cons_self,planned⟩,by decide,?_,?_,List.Perm.of_eq (by decide +kernel),?_⟩
    · intro item member
      obtain rfl := List.mem_singleton.mp member
      exact .inr planned
    · intro item member
      obtain rfl := List.mem_singleton.mp member
      exact List.mem_cons_self
    · intro r input
      obtain rfl := List.mem_singleton.mp input
      exact .inl ⟨_,List.mem_cons_self,rfl⟩
    · intro item member
      obtain rfl := List.mem_singleton.mp member
      rfl
  · intro idempotent
    have once : ((applyAccountEvents (samplePlanned registeredIndex 1 10).1 (scanAccountEvents sampleExternals (plannedTx 1 10))
      ).byAccountId.lookup (sampleAccount 1)).isSome = true := by decide +kernel
    have again : ((applyAccountEvents (undo sampleExternals (samplePlanned registeredIndex 1 10).1 (plannedTx 1 10))
      (scanAccountEvents sampleExternals (plannedTx 1 10))).byAccountId.lookup (sampleAccount 1)).isSome = false := by decide +kernel
    rw [idempotent] at again
    cases once.symm.trans again

end GreenAgent.Account
