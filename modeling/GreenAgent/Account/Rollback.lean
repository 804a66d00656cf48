import GreenAgent.Account.Identity

namespace GreenAgent.Account
open Mpf (Digest emptyRoot digestOf)

namespace View
variable {O : Type} {refs : List OutputRef}

section Fields
variable (v : View O) (r r' : OutputRef)

@[simp, grind =] theorem unconsume_rollback : (v.unconsume r).rollback r' = if r' = r then none else v.rollback r' := by
  unfold unconsume
  cases taken : v.rollback r with
  | none =>
    by_cases same : r' = r
    · subst r'; simp [dropSnapshots,taken]
    · simp [dropSnapshots,same]
  | some entry => simp only [dropSnapshots,bind_rollback,Function.update_apply]

@[simp, grind =] theorem unconsume_persisted : (v.unconsume r).persisted = v.persisted := by
  unfold unconsume; cases v.rollback r <;> rfl

theorem unconsume_bound (b : AccountId) : (v.unconsume r).bound b =
    match v.rollback r with
    | some (a,i) => if b = a then some i else v.bound b
    | none => v.bound b := by
  unfold unconsume
  cases v.rollback r with
  | none => rfl
  | some entry => simp only [dropSnapshots,bind_bound]

theorem unconsume_snapshots {n : Nat} {e : AccountId × OutputRef × AccountStore} :
    (v.unconsume r).snapshots n = some e ↔ v.snapshots n = some e ∧ e.2.1 ≠ r := by
  unfold unconsume
  cases v.rollback r <;> simp only [dropSnapshots,bind_snapshots,Option.filter_eq_some_iff,decide_eq_true_eq,ne_eq]

end Fields

theorem unconsume_owner_here {v : View O} (taken : v.rollback r = some (a,i)) (here : i.utxo.reference = r) :
    (v.unconsume r).owner r = some a := by
  simp only [unconsume,taken,dropSnapshots,bind,Function.update_apply,here,if_true]

theorem unconsumes_bound {w : View O} {target : Option (IndexedAccount O)} (nodup : refs.Nodup)
    (same : ∀ r ∈ refs, ∀ i, w.rollback r = some (a,i) → target = some i)
    (start : w.bound a = target ∨ ∃ r ∈ refs, ∃ i, w.rollback r = some (a,i)) :
    (refs.foldl unconsume w).bound a = target := by
  induction refs generalizing w with
  | nil => grind
  | cons r refs ih =>
    obtain ⟨absent,nodup⟩ := List.nodup_cons.mp nodup
    have later : ∀ r' ∈ refs, (w.unconsume r).rollback r' = w.rollback r' := by grind
    apply ih nodup
    · grind
    · rw [unconsume_bound]
      grind

theorem unconsumes_persisted (w : View O) (refs : List OutputRef) : (refs.foldl unconsume w).persisted = w.persisted :=
  fold_keeps unconsume_persisted w refs

theorem unconsumes_snapshots {w : View O} (found : (refs.foldl unconsume w).snapshots n = some e) :
    w.snapshots n = some e ∧ e.2.1 ∉ refs := by
  induction refs generalizing w with
  | nil => exact ⟨found,List.not_mem_nil⟩
  | cons r refs ih =>
    obtain ⟨before,absent⟩ := ih found
    obtain ⟨before,other⟩ := (unconsume_snapshots ..).mp before
    grind

end View

section
variable {O : Type} {ext : Externals O} {txs : Digest → TxView O} {known spent : OutputRef → Prop} {refs : List OutputRef}

theorem Sound.unconsume_owner {w : View O} (sound : Sound ext txs w known spent) (found : (w.unconsume r).owner r' = some b) :
    (r' = r ∧ ∃ i, w.rollback r = some (b,i)) ∨ ((∀ i, w.rollback r ≠ some (b,i)) ∧ w.owner r' = some b) := by
  unfold View.unconsume at found
  cases taken : w.rollback r with
  | none =>
    simp only [taken] at found
    exact .inr ⟨by rintro _ ⟨⟩,found⟩
  | some entry =>
    obtain ⟨a,i⟩ := entry
    simp only [taken] at found
    rcases (sound.forget r).bind_owner found with ⟨here,rfl⟩ | ⟨other,before⟩
    · grind
    grind

theorem Sound.unconsumes_owner {w : View O} (sound : Sound ext txs w known spent) (nodup : refs.Nodup) (outside : r ∉ refs)
    (found : (refs.foldl View.unconsume w).owner r = some b) :
    (∀ r' ∈ refs, ∀ i, w.rollback r' ≠ some (b,i)) ∧ w.owner r = some b := by
  induction refs generalizing w known spent with
  | nil => exact ⟨nofun,found⟩
  | cons first refs ih =>
    obtain ⟨absent,nodup⟩ := List.nodup_cons.mp nodup
    obtain ⟨apart,outside⟩ := not_or.mp (fun member => outside (List.mem_cons.mpr member))
    obtain ⟨free,middle⟩ := ih (sound.unconsume first) nodup outside found
    rcases sound.unconsume_owner middle with ⟨here,_⟩ | ⟨none_first,before⟩
    · exact absurd here apart
    grind

theorem Sound.unconsumes_owner_or {w : View O} (sound : Sound ext txs w known spent) (nodup : refs.Nodup)
    (found : (refs.foldl View.unconsume w).owner r = some b) :
    (∃ r' ∈ refs, ∃ i, w.rollback r' = some (b,i)) ∨ w.owner r = some b := by
  induction refs generalizing w known spent with
  | nil => exact .inr found
  | cons first refs ih =>
    obtain ⟨absent,nodup⟩ := List.nodup_cons.mp nodup
    rcases ih (sound.unconsume first) nodup found with ⟨r',member,i,record⟩ | middle
    · grind
    · rcases sound.unconsume_owner middle with ⟨_,i,record⟩ | ⟨_,before⟩
      · grind
      · exact .inr before

theorem Sound.unconsumes_owner_keep {w : View O} (sound : Sound ext txs w known spent) (nodup : refs.Nodup) (owner : w.owner r = some c)
    (outside : r ∉ refs) (apart : ∀ r' ∈ refs, ∀ b i, w.rollback r' = some (b,i) → b ≠ c ∧ ∀ j, w.bound b = some j → j.utxo.reference ≠ r)
    : (refs.foldl View.unconsume w).owner r = some c := by
  induction refs generalizing w known spent with
  | nil => exact owner
  | cons first refs ih =>
    obtain ⟨absent,nodup⟩ := List.nodup_cons.mp nodup
    obtain ⟨other,outside⟩ := not_or.mp (fun member => outside (List.mem_cons.mpr member))
    refine ih (sound.unconsume first) nodup ?_ outside ?_
    · unfold View.unconsume
      cases taken : w.rollback first with
      | none => exact owner
      | some entry =>
        obtain ⟨a,i⟩ := entry
        have here := (sound.taken_carries taken).1
        have away := (apart first List.mem_cons_self a i taken).2
        simp only [View.dropSnapshots,View.bind,Function.update_apply,here,if_neg other]
        cases bound : w.bound a with
        | none => exact owner
        | some j => simp only [Function.update_apply,if_neg (away j bound).symm,owner]
    · intro r' member b i record
      rw [View.unconsume_rollback] at record
      split at record
      · cases record
      · obtain ⟨differ,away⟩ := apart r' (List.mem_cons_of_mem _ member) b i record
        refine ⟨differ,?_⟩
        intro j bound
        rw [View.unconsume_bound] at bound
        grind

theorem Sound.unconsumes_bound_or {w : View O} (sound : Sound ext txs w known spent)
    (found : (refs.foldl View.unconsume w).bound b = some j) : w.bound b = some j ∨ j.utxo.reference ∈ refs := by
  induction refs generalizing w known spent with
  | nil => exact .inl found
  | cons first refs ih =>
    rcases ih (sound.unconsume first) found with middle | later
    · rw [View.unconsume_bound] at middle
      grind
    grind

theorem Sound.unconsumes_owner_self {w : View O} (sound : Sound ext txs w known spent) (nodup : refs.Nodup) (inside : r ∈ refs)
    (record : w.rollback r = some (c,i)) (single : ∀ r' ∈ refs, ∀ j, w.rollback r' = some (c,j) → r' = r)
    (away : ∀ r' ∈ refs, ∀ b j, w.rollback r' = some (b,j) → ∀ k, w.bound b = some k → k.utxo.reference ≠ r) :
    (refs.foldl View.unconsume w).owner r = some c := by
  obtain ⟨before,after,rfl⟩ := List.append_of_mem inside
  obtain ⟨_,nodup_after,disjoint⟩ := List.nodup_append.mp nodup
  obtain ⟨not_after,nodup_after⟩ := List.nodup_cons.mp nodup_after
  have not_before : r ∉ before := fun member => disjoint r member r List.mem_cons_self rfl
  have middle := sound.unconsumes before
  have kept : ∀ r', r' ∉ before → (before.foldl View.unconsume w).rollback r' = w.rollback r' := by
    intro r' outside
    have cleared := View.fold_clears View.unconsume_rollback w before r'
    rwa [if_neg outside] at cleared
  have record' := (kept r not_before).trans record
  rw [List.foldl_append,List.foldl_cons]
  refine (middle.unconsume r).unconsumes_owner_keep nodup_after ?_ not_after ?_
  · exact View.unconsume_owner_here record' (sound.taken_carries record).1
  · intro r' member b j taken
    have outside : r' ∉ before := fun earlier => disjoint r' earlier r' (List.mem_cons_of_mem _ member) rfl
    have apart : r' ≠ r := fun same => not_after (same ▸ member)
    rw [View.unconsume_rollback,if_neg apart,kept r' outside] at taken
    have listed : r' ∈ before ++ r :: after := List.mem_append_right _ (List.mem_cons_of_mem _ member)
    have other : b ≠ c := by grind
    refine ⟨other,?_⟩
    intro k bound
    rw [View.unconsume_bound,record'] at bound
    simp only [if_neg other] at bound
    rcases sound.unconsumes_bound_or bound with start | moved
    · exact away r' listed b j taken k start
    grind

theorem Sound.unconsumes_unbound {w : View O} (sound : Sound ext txs w known spent) (empty : ∀ r ∈ refs, w.unbound r = none) :
    (refs.foldl View.unconsume w).unbound r = w.unbound r := by
  induction refs generalizing w known spent with
  | nil => rfl
  | cons first refs ih =>
    have step : ∀ r', (w.unconsume first).unbound r' = w.unbound r' := by
      intro r'
      unfold View.unconsume
      cases taken : w.rollback first with
      | none => rfl
      | some entry =>
        have here := (sound.taken_carries taken).1
        simp only [View.dropSnapshots,View.bind_unbound,here]
        grind
    rw [List.foldl_cons,ih (sound.unconsume first),step]
    grind

theorem View.holder_some {v : View O} : v.holder r = some (a,i) ↔ v.owner r = some a ∧ v.bound a = some i := by
  unfold View.holder
  rw [Option.bind_eq_some_iff]
  simp_all

theorem Sound.holder_owner {v : View O} (sound : Sound ext txs v known spent) (owner : v.owner r = some a) :
    ∃ i, v.holder r = some (a,i) := by
  obtain ⟨i,bound,_⟩ := sound.owned owner
  exact ⟨i,View.holder_some.mpr ⟨owner,bound⟩⟩

theorem Sound.consumes_rollback {v : View O} (sound : Sound ext txs v known spent) (nodup : refs.Nodup) :
    (refs.foldl View.consume v).rollback r = if r ∈ refs then (v.holder r).or (v.rollback r) else v.rollback r := by
  induction refs generalizing v known spent with
  | nil => simp
  | cons first refs ih =>
    obtain ⟨absent,nodup⟩ := List.nodup_cons.mp nodup
    rw [List.foldl_cons,ih (sound.consume first) nodup,View.consume_rollback]
    by_cases here : r = first
    · grind
    · have same : (v.consume first).holder r = v.holder r := by
        apply Option.ext
        rintro ⟨a,i⟩
        rw [View.holder_some,View.holder_some,View.consume_owner,if_neg here,View.consume_bound]
        refine and_congr_right fun owner => ?_
        rw [if_neg]
        intro gone
        obtain ⟨i,bound,at_ref⟩ := sound.owned owner
        obtain ⟨j,bound',at_first⟩ := sound.owned gone
        cases bound.symm.trans bound'
        exact here (at_ref.symm.trans at_first)
      grind

-- With nothing planned and nothing loaded, an output can only go to an account
-- the transaction spends.
theorem View.Held.owned {v : View O} (unplanned : ∀ n, v.snapshots n = none) (fresh : ∀ u ∈ handled, v.persisted u.outputRef = none)
    (held : v.Held refs handled a) : ∃ r ∈ refs, v.owner r = some a := by
  induction handled with
  | nil => exact held.elim
  | cons u earlier ih =>
    rcases held with ⟨s,claim⟩ | before
    · cases claim with
      | confirmed here =>
        obtain ⟨n,_,found,_⟩ := here.agrees.1
        cases (unplanned n).symm.trans found
      | empty _ sole _ _ => exact sole.1
      | resumed _ _ found _ => cases (fresh u List.mem_cons_self).symm.trans found
    grind

def undo (ext : Externals O) (index : AccountIndex O) (tx : TxView O) : AccountIndex O :=
  revertAccountEvents (applyAccountEvents index (scanAccountEvents ext tx)) (scanAccountEvents ext tx)

-- Every account is where it was, with the store it had, and the outputs waiting
-- for a registration are the same.
def Undone (ext : Externals O) (index : AccountIndex O) (tx : TxView O) : Prop :=
  (∀ a, (undo ext index tx).byAccountId.lookup a = index.byAccountId.lookup a) ∧
    ∀ r, (undo ext index tx).unboundByOutputRef.lookup r = index.unboundByOutputRef.lookup r

-- An applied transaction, with what is known before and after it.
@[grind cases eager] structure Applied (ext : Externals O) (txs : Digest → TxView O) (index : AccountIndex O) (chain : List (TxView O)) (tx : TxView O) : Prop where
  before : Sound ext txs index.view (Live chain) (fun r => r ∈ consumed chain)
  fits : Fits txs chain tx
  plain : (applyAccountEvents index (scanAccountEvents ext tx)).Plain
  after : Sound ext txs (applyAccountEvents index (scanAccountEvents ext tx)).view (Live (tx :: chain))
    (fun r => r ∈ consumed (tx :: chain))
  progress : View.Progress index.view tx.inputs (tx.accounts ext).reverse (applyAccountEvents index (scanAccountEvents ext tx)).view

theorem Reached.applied {index : AccountIndex O} (reached : Reached ext txs index chain) (fits : Fits txs chain tx) :
    Applied ext txs index chain tx := by
  obtain ⟨plain,sound⟩ := reached.sound
  obtain ⟨plain',sound'⟩ := (reached.apply fits).sound
  exact ⟨sound,fits,plain',sound',apply_progress ext plain fits⟩

theorem Sound.unspent {v : View O} (sound : Sound ext txs v (Live chain) (fun r => r ∈ consumed chain)) (live : Live chain r)
    (unplanned : ∀ n b s, v.snapshots n ≠ some (b,r,s)) : v.rollback r = none := by
  cases taken : v.rollback r with
  | none => rfl
  | some entry =>
    rcases sound.taken_cause taken with gone | ⟨n,b,s,found⟩
    · exact absurd gone live.2
    · exact absurd found (unplanned n b s)

theorem undo_view {index : AccountIndex O} (applied : Applied ext txs index chain tx) : (undo ext index tx).view =
    ((tx.accounts ext).map AlephAccountUtxo.outputRef).foldl View.remove
      (tx.inputs.foldl View.unconsume (applyAccountEvents index (scanAccountEvents ext tx)).view) :=
  (revert_view ext applied.plain tx).1

theorem Applied.rollback {index : AccountIndex O} (applied : Applied ext txs index chain tx) (input : r ∈ tx.inputs) :
    (applyAccountEvents index (scanAccountEvents ext tx)).view.rollback r = (index.view.holder r).or (index.view.rollback r) := by
  rw [applied.progress.rollback,applied.before.consumes_rollback applied.fits.inputs_nodup,if_pos input]

-- An output of the transaction that is still somebody's after the un-spending
-- went to an account that no input gives back.
theorem Applied.leftover {index : AccountIndex O} (applied : Applied ext txs index chain tx) (member : r ∈ tx.refs)
    (owner : (tx.inputs.foldl View.unconsume (applyAccountEvents index (scanAccountEvents ext tx)).view).owner r = some b) :
    index.view.Held tx.inputs (tx.accounts ext).reverse b ∧
      ∀ r' ∈ tx.inputs, ∀ i, (applyAccountEvents index (scanAccountEvents ext tx)).view.rollback r' ≠ some (b,i) := by
  have outside : r ∉ tx.inputs := fun input => input_not_ref applied.fits input member
  obtain ⟨free,before⟩ := applied.after.unconsumes_owner applied.fits.inputs_nodup outside owner
  refine ⟨?_,free⟩
  rcases applied.progress.owner r b before with held | old
  · exact held
  · rw [View.consumes_owner,if_neg outside] at old
    exact absurd (applied.before.owner_known old).1 (applied.fits.refs_new r member)

theorem Applied.undo_unbound {index : AccountIndex O} (applied : Applied ext txs index chain tx) (r : OutputRef) :
    (undo ext index tx).view.unbound r = if r ∈ tx.inputs then none else index.view.unbound r := by
  have before : ∀ r, (∀ u ∈ tx.accounts ext, u.outputRef ≠ r) →
      (applyAccountEvents index (scanAccountEvents ext tx)).view.unbound r =
        if r ∈ tx.inputs then none else index.view.unbound r := by
    intro r others
    rw [applied.progress.unbound r (fun u member => others u (List.mem_reverse.mp member)),View.consumes_unbound]
  rw [undo_view applied,View.removes_unbound,applied.after.unconsumes_unbound]
  · split
    · rename_i member
      obtain ⟨u,account,rfl⟩ := List.mem_map.mp member
      have created := (mem_accounts account).1
      rw [if_neg (fun input => input_not_ref applied.fits input created)]
      cases observed : index.view.unbound u.outputRef with
      | none => rfl
      | some _ => exact absurd (applied.before.unbound_known observed).1.1 (applied.fits.refs_new _ created)
    grind
  · intro r input
    rw [before r (fun u account same => input_not_ref applied.fits input (same ▸ (mem_accounts account).1)),if_pos input]

-- When every input gives back the account that was bound there, and the outputs
-- went to such accounts only, all accounts are back.
theorem Applied.undo_bound {index : AccountIndex O} (applied : Applied ext txs index chain tx)
    (record : ∀ r ∈ tx.inputs, (applyAccountEvents index (scanAccountEvents ext tx)).view.rollback r = index.view.holder r)
    (owned : ∀ b, index.view.Held tx.inputs (tx.accounts ext).reverse b → ∃ r ∈ tx.inputs, index.view.owner r = some b)
    (a : AccountId) : (undo ext index tx).view.bound a = index.view.bound a := by
  have restored : (tx.inputs.foldl View.unconsume (applyAccountEvents index (scanAccountEvents ext tx)).view).bound a =
      index.view.bound a := by
    apply View.unconsumes_bound applied.fits.inputs_nodup
    · intro r input i taken
      rw [record r input] at taken
      exact (View.holder_some.mp taken).2
    · by_cases spent : ∃ r ∈ tx.inputs, index.view.owner r = some a
      · obtain ⟨r,input,owner⟩ := spent
        obtain ⟨i,held⟩ := applied.before.holder_owner owner
        grind
      · rcases applied.progress.bound a with ⟨u,s,ends,_⟩ | ⟨_,still⟩
        · exact absurd (owned a ends.held) spent
        · rw [View.consumes_bound,if_neg spent] at still
          exact .inl still
  rw [undo_view applied,View.removes_bound,if_neg,restored]
  rintro ⟨r,member,owner⟩
  obtain ⟨u,account,rfl⟩ := List.mem_map.mp member
  obtain ⟨held,free⟩ := applied.leftover (mem_accounts account).1 owner
  obtain ⟨r,input,owner⟩ := owned a held
  obtain ⟨i,holder⟩ := applied.before.holder_owner owner
  grind

theorem rollback_undoes_iff {index : AccountIndex O} (reached : Reached ext txs index chain) (fits : Fits txs chain tx)
    (unplanned : index.pendingStoreBySnapshotId = ∅) (fresh : ∀ r ∈ tx.refs, index.persistedByOutputRef.lookup r = none) :
    Undone ext index tx ↔ ∀ r ∈ tx.inputs, index.unboundByOutputRef.lookup r = none := by
  have applied := reached.applied fits
  have no_snapshot : ∀ n, index.view.snapshots n = none := by
    intro n
    simp only [AccountIndex.view,unplanned]
    rfl
  have bound := applied.undo_bound (fun r input => by
      have unspent := applied.before.unspent (fits.inputs_live r input)
        (fun n b s found => by cases (no_snapshot n).symm.trans found)
      rw [applied.rollback input,unspent,Option.or_none])
    (fun b held => held.owned no_snapshot (fun u member => fresh _ (mem_accounts (List.mem_reverse.mp member)).1))
  constructor
  · rintro ⟨_,same⟩ r input
    have gone := applied.undo_unbound r
    rw [if_pos input] at gone
    exact (same r).symm.trans gone
  · intro none_spent
    refine ⟨bound,fun r => (applied.undo_unbound r).trans ?_⟩
    split
    · rename_i input
      exact (none_spent r input).symm
    · rfl

end

-- Nothing observed and unregistered is spent when the first account moves alone.
theorem rollback_undoes_alone : Undone sampleExternals registeredIndex aloneTx :=
  (rollback_undoes_iff (registered_reached [aloneTx]) ⟨by decide,by decide,by decide,by decide,by decide⟩ rfl
    (by decide)).mpr (by decide)

-- The second account can no longer be registered at its output once a
-- transaction that spends it has been applied and taken back.
theorem rollback_loses_unbound : Reached sampleExternals (sampleTxs [openingTx,swappedTx]) registeredIndex [openingTx] ∧
    Fits (sampleTxs [openingTx,swappedTx]) [openingTx] swappedTx ∧ registeredIndex.pendingStoreBySnapshotId = ∅ ∧
    (∀ r ∈ swappedTx.refs, registeredIndex.persistedByOutputRef.lookup r = none) ∧
    ¬Undone sampleExternals registeredIndex swappedTx := by
  refine ⟨registered_reached _,⟨by decide,by decide,by decide,by decide,by decide⟩,rfl,by decide,?_⟩
  rintro ⟨_,same⟩
  have before : (registeredIndex.unboundByOutputRef.lookup ⟨digestOf 1,1⟩).isSome = true := by decide
  have after : (undo sampleExternals registeredIndex swappedTx).unboundByOutputRef.lookup ⟨digestOf 1,1⟩ = none := by
    decide
  rw [← same,after] at before
  cases before

end GreenAgent.Account
