import GreenAgent.Account.Steady

namespace GreenAgent.Account
open Mpf (Bytes Digest emptyRoot digestOf bind_ok)

-- The block replay of a new process, and a reorganisation that takes the last
-- transactions back. Both lists are newest first.
def replay (ext : Externals O) (index : AccountIndex O) (seen : List (TxView O)) : AccountIndex O :=
  seen.foldr (fun tx index => applyAccountEvents index (scanAccountEvents ext tx)) index

def unwind (ext : Externals O) (index : AccountIndex O) (last : List (TxView O)) : AccountIndex O :=
  last.foldl (fun index tx => revertAccountEvents index (scanAccountEvents ext tx)) index

def RollsBack (ext : Externals O) (middle final : AccountIndex O) (before last : List (TxView O)) : Prop :=
  ∃ file start, final.persistence = some file ∧ AccountIndex.withPersistencePath ext file = .ok start ∧
    ∀ a i, middle.byAccountId.lookup a = some i →
      (unwind ext (replay ext start (last ++ before)) last).byAccountId.lookup a = some i

section
variable {O : Type} {ext : Externals O} {txs : Digest → TxView O} {hashed : Set Bytes} {index : AccountIndex O} {v all : View O}

-- A replay towards the bound accounts `all` of the process that wrote the file:
-- it binds them one by one and keeps no record of what it spends.
@[grind cases eager] structure Restoring (all v : View O) : Prop where
  unplanned : ∀ n, v.snapshots n = none
  untaken : ∀ r, v.rollback r = none
  saved : ∀ {r a s}, v.persisted r = some (a,s) → ∃ i, all.bound a = some i ∧ i.utxo.reference = r ∧ i.store = s
  owned : ∀ {r a}, v.owner r = some a → ∃ i, all.bound a = some i ∧ i.utxo.reference = r
  bound : ∀ {a i}, v.bound a = some i → all.bound a = some i
  every : ∀ {a i}, all.bound a = some i → v.bound a = some i ∨ v.persisted i.utxo.reference = some (a,i.store)

theorem Restoring.unowned (restoring : Restoring all v) (kept : ∀ a i, all.bound a = some i → i.utxo.reference ≠ r) : v.owner r = none := by
  apply Option.eq_none_iff_forall_ne_some.mpr
  intro a owner
  grind

theorem Restoring.consume (restoring : Restoring all v) (kept : ∀ a i, all.bound a = some i → i.utxo.reference ≠ r) :
    Restoring all (v.consume r) where
  unplanned := by
    rw [View.consume_snapshots]
    exact restoring.unplanned
  untaken := by
    intro r'
    rw [View.consume_rollback]
    split
    · rw [View.holder,restoring.unowned kept,Option.bind_none,Option.none_or]
      exact restoring.untaken r
    · exact restoring.untaken r'
  saved := by
    rw [View.consume_persisted]
    exact restoring.saved
  owned := by grind
  bound := by grind
  every := by grind

theorem Restoring.consumes {refs : List OutputRef} (restoring : Restoring all v) (kept : ∀ a i, all.bound a = some i → i.utxo.reference ∉ refs) :
    Restoring all (refs.foldl View.consume v) := by
  induction refs generalizing v with
  | nil => exact restoring
  | cons r refs ih =>
    refine ih (restoring.consume ?_) ?_
    · grind
    grind

theorem Restoring.entry {u : AlephAccountUtxo O} (restoring : Restoring all v) (carries : ∀ {a i}, all.bound a = some i → Carries ext txs i)
    (seen : Observed ext txs u) (found : v.persisted u.outputRef = some (a,s)) :
    all.bound a = some ⟨u.finalizedOutput,s⟩ ∧ s.root = u.state.storeRoot := by
  obtain ⟨⟨⟨o,r⟩,s⟩,bound,rfl,rfl⟩ := restoring.saved found
  obtain ⟨named,state,parsed,root⟩ := carries bound
  cases Option.some.inj (named.symm.trans seen.named)
  cases Option.some.inj (parsed.symm.trans seen.parsed)
  exact ⟨bound,root.symm⟩

theorem Restoring.resume {u : AlephAccountUtxo O} (restoring : Restoring all v) (steady : Steady all)
    (bound : all.bound a = some ⟨u.finalizedOutput,s⟩) : Restoring all (v.resume u a s) where
  unplanned := restoring.unplanned
  untaken := restoring.untaken
  saved := by
    intro r b t found
    simp only [View.resume,View.bind_persisted,Function.update_apply] at found
    grind
  owned := by
    intro r b found
    by_cases here : r = u.outputRef
    · rcases View.bind_owner_or found with rfl | before
      · exact ⟨_,bound,here.symm⟩
      · exact restoring.owned before
    · exact restoring.owned (bind_owner_elsewhere (i := ⟨u.finalizedOutput,s⟩) here found)
  bound := by
    intro b j found
    rw [View.resume,View.bind_bound] at found
    grind
  every := by
    intro b j found
    rw [View.resume,View.bind_bound]
    by_cases same : b = a
    · grind
    · rw [if_neg same]
      refine (restoring.every found).imp_right (fun entry => ?_)
      simp only [View.bind_persisted,Function.update_apply]
      rw [if_neg]
      · exact entry
      · intro here
        have one := steady.linked found
        have two : all.owner u.outputRef = some a := steady.linked bound
        grind

theorem Restoring.produce {u : AlephAccountUtxo O} (restoring : Restoring all v) (steady : Steady all)
    (carries : ∀ {a i}, all.bound a = some i → Carries ext txs i) (seen : Observed ext txs u) (step : View.Produce refs [] v u after) :
    Restoring all after ∧ after.persisted u.outputRef = none ∧ ∀ r, v.persisted r = none → after.persisted r = none := by
  cases step with
  | confirm agrees =>
    obtain ⟨⟨n,r,found,_⟩,_⟩ := agrees
    grind
  | empty _ sole => cases sole.1
  | create _ _ created =>
    cases created with
    | resume found root =>
      refine ⟨restoring.resume steady (restoring.entry carries seen found).1,?_,?_⟩
      · simp only [View.resume,View.bind_persisted,Function.update_self]
      · intro r absent
        simp only [View.resume,View.bind_persisted,Function.update_apply,absent,ite_self]
    | unbound absent =>
      have none : v.persisted u.outputRef = none := by
        apply Option.eq_none_iff_forall_ne_some.mpr
        grind
      exact ⟨⟨restoring.unplanned,restoring.untaken,restoring.saved,restoring.owned,restoring.bound,restoring.every⟩,none,fun _ => id⟩

theorem Restoring.produces {us : List (AlephAccountUtxo O)} (restoring : Restoring all v) (steady : Steady all)
    (carries : ∀ {a i}, all.bound a = some i → Carries ext txs i) (seen : ∀ u ∈ us, Observed ext txs u) (run : View.Produces refs [] v us after) :
    Restoring all after ∧ (∀ u ∈ us, after.persisted u.outputRef = none) ∧ ∀ r, v.persisted r = none → after.persisted r = none := by
  induction run with
  | nil => exact ⟨restoring,nofun,fun _ => id⟩
  | @cons v u middle us after first rest ih =>
    obtain ⟨step,here,gone⟩ := restoring.produce steady carries (seen u List.mem_cons_self) first
    grind

theorem Restoring.apply {tx : TxView O} {chain : List (TxView O)} (plain : index.Plain) (restoring : Restoring all index.view) (steady : Steady all)
    (carries : ∀ {a i}, all.bound a = some i → Carries ext txs i) (fits : Fits txs chain tx)
    (kept : ∀ a i, all.bound a = some i → i.utxo.reference ∉ tx.inputs) :
    Restoring all (applyAccountEvents index (scanAccountEvents ext tx)).view ∧
      (∀ r ∈ tx.refs, (applyAccountEvents index (scanAccountEvents ext tx)).view.persisted r = none) ∧
      ∀ r, index.view.persisted r = none → (applyAccountEvents index (scanAccountEvents ext tx)).view.persisted r = none := by
  have nobody : index.view.spentIds tx.inputs = [] := by
    apply List.eq_nil_iff_forall_not_mem.mpr
    intro a listed
    obtain ⟨r,input,owner⟩ := List.mem_filterMap.mp (List.mem_dedup.mp listed)
    grind
  have run := (apply_view ext plain fits.inputs_nodup).1
  rw [nobody] at run
  obtain ⟨after,handled,gone⟩ := (restoring.consumes kept).produces steady carries (fun u => observed_accounts fits) run
  refine ⟨after,?_,?_⟩
  · intro r made
    apply Option.eq_none_iff_forall_ne_some.mpr
    rintro ⟨a,s⟩ found
    obtain ⟨i,bound,rfl,_⟩ := after.saved found
    obtain ⟨o,state,named,parsed⟩ := (carries bound).accountRef
    cases (handled _ (account_of_ref fits.named made named parsed)).symm.trans found
  · intro r absent
    apply gone
    rw [View.consumes_persisted]
    exact absent

theorem Restoring.replay {chain seen : List (TxView O)} {start : AccountIndex O} (plain : start.Plain) (restoring : Restoring all start.view)
    (steady : Steady all) (carries : ∀ {a i}, all.bound a = some i → Carries ext txs i) (consistent : Consistent txs (seen ++ chain))
    (kept : ∀ a i, all.bound a = some i → i.utxo.reference ∉ consumed seen) :
    (Account.replay ext start seen).Plain ∧ Restoring all (Account.replay ext start seen).view ∧
      ∀ r ∈ produced seen, (Account.replay ext start seen).view.persisted r = none := by
  induction seen with
  | nil => exact ⟨plain,restoring,nofun⟩
  | cons tx seen ih =>
    obtain ⟨prior,fits⟩ := consistent.tail
    obtain ⟨plain',restored,handled⟩ := ih prior (fun a i bound spent => kept a i bound (List.mem_append_right _ spent))
    obtain ⟨after,here,gone⟩ := restored.apply plain' steady carries fits (fun a i bound spent => kept a i bound (List.mem_append_left _ spent))
    refine ⟨(apply_view ext plain' fits.inputs_nodup).2,after,?_⟩
    intro r made
    rcases List.mem_append.mp made with own | before
    · exact here r own
    · exact gone r (handled r before)

-- Nothing was recorded, so taking transactions back only unbinds.
@[grind cases eager] structure Unrecorded (v : View O) : Prop where
  unplanned : ∀ n, v.snapshots n = none
  untaken : ∀ r, v.rollback r = none

theorem Unrecorded.unconsume (unrecorded : Unrecorded v) (r : OutputRef) : v.unconsume r = v := by
  have none : v.snapshots = fun _ => Option.none := funext unrecorded.unplanned
  simp only [View.unconsume,unrecorded.untaken r,View.dropSnapshots,none,Option.filter_none]
  rw [← none]

theorem Unrecorded.unconsumes (unrecorded : Unrecorded v) (refs : List OutputRef) : refs.foldl View.unconsume v = v := by
  induction refs with
  | nil => rfl
  | cons r refs ih => rw [List.foldl_cons,unrecorded.unconsume,ih]

theorem Unrecorded.revert (ext : Externals O) (tx : TxView O) (plain : index.Plain) (unrecorded : Unrecorded index.view) :
    (revertAccountEvents index (scanAccountEvents ext tx)).view =
      ((tx.accounts ext).map AlephAccountUtxo.outputRef).foldl View.remove index.view := by
  rw [(revert_view ext plain tx).1,unrecorded.unconsumes]

theorem Unrecorded.removes (unrecorded : Unrecorded v) (refs : List OutputRef) : Unrecorded (refs.foldl View.remove v) := by
  have snapshots : (refs.foldl View.remove v).snapshots = v.snapshots := View.fold_keeps View.remove_snapshots v refs
  have rollback : (refs.foldl View.remove v).rollback = v.rollback := View.fold_keeps View.remove_rollback v refs
  exact ⟨snapshots ▸ unrecorded.unplanned,rollback ▸ unrecorded.untaken⟩

theorem removes_owner (v : View O) (refs : List OutputRef) (r : OutputRef) :
    (refs.foldl View.remove v).owner r = if r ∈ refs then none else v.owner r := View.fold_clears View.remove_owner v refs r

theorem unwind_only {last : List (TxView O)} (plain : index.Plain) (unrecorded : Unrecorded index.view)
    (found : (unwind ext index last).view.bound a = some i) : index.view.bound a = some i := by
  induction last generalizing index with
  | nil => exact found
  | cons tx last ih =>
    have same := unrecorded.revert ext tx plain
    have step := ih (revert_view ext plain tx).2 (same ▸ unrecorded.removes _) found
    rw [same,View.removes_bound] at step
    simp_all

theorem unwind_keeps {last : List (TxView O)} (plain : index.Plain) (unrecorded : Unrecorded index.view) (bound : index.view.bound a = some i)
    (owner : ∀ r, index.view.owner r = some a → r = i.utxo.reference) (older : i.utxo.reference ∉ produced last) :
    (unwind ext index last).view.bound a = some i := by
  induction last generalizing index with
  | nil => exact bound
  | cons tx last ih =>
    have same := unrecorded.revert ext tx plain
    refine ih (revert_view ext plain tx).2 (same ▸ unrecorded.removes _) ?_ ?_ (fun made => older (List.mem_append_right _ made))
    · rw [same,View.removes_bound,if_neg]
      · exact bound
      · rintro ⟨r,removed,own⟩
        obtain ⟨u,member,rfl⟩ := List.mem_map.mp removed
        have made := (mem_accounts member).1
        rw [owner _ own] at made
        exact older (List.mem_append_left _ made)
    · intro r own
      rw [same,removes_owner] at own
      grind

theorem Consistent.produced_apart {last rest : List (TxView O)} (consistent : Consistent txs (last ++ rest)) (made : r ∈ produced last) :
    r ∉ produced rest := by
  induction last with
  | nil => cases made
  | cons tx last ih =>
    obtain ⟨prior,fits⟩ := consistent.tail
    rcases List.mem_append.mp made with here | before
    · intro again
      have older : r ∈ produced (last ++ rest) := by
        rw [produced_append]
        exact List.mem_append_right _ again
      exact fits.refs_new r here older
    · exact ih prior before

theorem Kept.loaded_unplanned (kept : Kept ext txs index) (no_plan : index.pendingStoreBySnapshotId = ∅) (written : index.persistence = some file)
    (started : AccountIndex.withPersistencePath ext file = .ok start) (n : Nat) : start.view.snapshots n = none := by
  have plans : start.Plans (fun _ _ => False) := by
    refine withPersistencePath_plans ?_ started
    rintro saved rfl e member
    rcases kept.synced with synced | ⟨unwritten,_⟩
    · cases written.symm.trans synced
      simp only [AccountIndex.persisted,no_plan] at member
      cases member
    · cases written.symm.trans unwritten
  apply Option.eq_none_iff_forall_ne_some.mpr
  intro e found
  exact plans.pending n e found

theorem Loaded.restoring {seen : List (TxView O)} {start : AccountIndex O} (loaded : Loaded ext index file start) (settling : Settling ext txs index seen)
    (unplanned : ∀ n, start.view.snapshots n = none) : Restoring index.view start.view := by
  obtain ⟨restarted,_⟩ := withPersistencePath_restarted loaded.started
  refine ⟨unplanned,fun r => congrFun restarted.rollback r,loaded.only,?_,?_,?_⟩
  · grind
  · grind
  · intro a i found
    obtain ⟨⟨b,t⟩,entry⟩ := Option.isSome_iff_exists.mp (loaded.every found)
    grind

theorem rollback_after_restart_iff {before last chain : List (TxView O)} (free : Set.InjOn ext.blake2b256 hashed) (consistent : Consistent txs chain)
    (early : Follows ext txs hashed chain {AccountIndex.default with persistence:=some none} before middle)
    (late : Follows ext txs hashed (before ++ chain) middle last final) (no_plan : final.pendingStoreBySnapshotId = ∅) :
    RollsBack ext middle final before last ↔ ∀ a i, middle.byAccountId.lookup a = some i → i.utxo.reference ∉ consumed last := by
  have follows := early.append late
  have run := follows.run (.fresh consistent)
  have settling := follows.settling consistent
  have kept := run.kept free
  obtain ⟨file,start,written,loaded⟩ := kept.loaded
  have live : ∀ {a i}, final.view.bound a = some i → Live (last ++ before) i.utxo.reference :=
    fun bound => settling.sound.owner_known (settling.steady.linked bound)
  obtain ⟨plain,restored,handled⟩ := (loaded.restoring settling (kept.loaded_unplanned no_plan written loaded.started)).replay
    (withPersistencePath_restarted loaded.started).2 settling.steady settling.sound.bound_carries run.consistent (fun a i bound => (live bound).2)
  have unrecorded : Unrecorded (replay ext start (last ++ before)).view := ⟨restored.unplanned,restored.untaken⟩
  constructor
  · rintro ⟨file',start',written',started,back⟩ a i bound spent
    cases written.symm.trans written'
    cases loaded.started.symm.trans started
    -- what the replay binds is unspent at the end of the history
    have again := restored.bound (unwind_only plain unrecorded (back a i bound))
    apply (live again).2
    rw [consumed_append]
    exact List.mem_append_left _ spent
  · intro unspent
    refine ⟨file,start,written,loaded.started,?_⟩
    intro a i bound
    have final_bound : final.view.bound a = some i := by
      cases Keeps.follows consistent early late (.bound bound) (unspent a i bound) with
      | bound found => exact found
      | planned plan =>
        have none : final.pendingStoreBySnapshotId.lookup _ = some _ := plan
        rw [no_plan] at none
        cases none
    have again : (replay ext start (last ++ before)).view.bound a = some i := by
      rcases restored.every final_bound with found | saved
      · exact found
      · cases (handled _ (live final_bound).1).symm.trans saved
    refine unwind_keeps plain unrecorded again ?_ ?_
    · intro r owner
      obtain ⟨j,bound',here⟩ := restored.owned owner
      cases bound'.symm.trans final_bound
      exact here.symm
    · have earlier := early.settling consistent
      have made := (earlier.sound.owner_known (earlier.steady.linked bound)).1
      intro later
      have ordered := run.consistent
      rw [List.append_assoc] at ordered
      apply ordered.produced_apart later
      rw [produced_append]
      exact List.mem_append_left _ made

end

-- A transaction that leaves the registered sample account alone.
def otherTx : TxView AlephAccountState := ⟨digestOf 4,[⟨digestOf 1,1⟩],[(0,sampleState 2 1 emptyRoot)]⟩

theorem saved_follows (tx : TxView AlephAccountState) (hashed : Set Bytes) :
    Follows sampleExternals (sampleTxs [openingTx,tx]) hashed [] {AccountIndex.default with persistence:=some none} [openingTx] savedIndex :=
  .bind (.apply .start ⟨by simp [sampleTxs],by decide,by decide,by decide,by decide⟩) _ _

theorem rollback_after_restart_untouched : RollsBack sampleExternals savedIndex
    (applyAccountEvents savedIndex (scanAccountEvents sampleExternals otherTx)) [openingTx] [otherTx] := by
  have bound : savedIndex.byAccountId.entries.all (fun e => decide (e.2.utxo.reference ∉ consumed [otherTx])) = true := by decide
  have late : Follows sampleExternals (sampleTxs [openingTx,otherTx]) ∅ [openingTx] savedIndex [otherTx]
      (applyAccountEvents savedIndex (scanAccountEvents sampleExternals otherTx)) :=
    .apply .start ⟨by decide,by decide,by decide,by decide,by decide⟩
  refine (rollback_after_restart_iff (Set.injOn_empty _) .nil (saved_follows otherTx ∅) late ?_).mpr ?_
  · exact AList.ext (by decide)
  · intro a i found
    exact of_decide_eq_true (List.all_eq_true.mp bound _ (HashMap.mem_entries.mpr found))

-- The account moved in the last transaction. The replay binds it where the file
-- has it, and taking the transaction back leaves it nowhere.
theorem rollback_after_restart_loses : ∃ final,
    Follows sampleExternals (sampleTxs [openingTx,aloneTx]) ∅ [] {AccountIndex.default with persistence:=some none} [openingTx] savedIndex ∧
    Follows sampleExternals (sampleTxs [openingTx,aloneTx]) ∅ [openingTx] savedIndex [aloneTx] final ∧
    final.pendingStoreBySnapshotId = ∅ ∧ ¬RollsBack sampleExternals savedIndex final [openingTx] [aloneTx] := by
  refine ⟨applyAccountEvents savedIndex (scanAccountEvents sampleExternals aloneTx),saved_follows aloneTx ∅,
    .apply .start ⟨by decide,by decide,by decide,by decide,by decide⟩,AList.ext (by decide),?_⟩
  rintro ⟨file,start,written,started,back⟩
  have bound : savedIndex.byAccountId.lookup (sampleAccount 1) =
      some ⟨⟨sampleState 1 0 emptyRoot,⟨digestOf 1,0⟩⟩,.empty⟩ := by decide
  have lost : ((applyAccountEvents savedIndex (scanAccountEvents sampleExternals aloneTx)).persistence.map (fun file =>
      (AccountIndex.withPersistencePath sampleExternals file).toOption.map (fun start =>
        ((unwind sampleExternals (replay sampleExternals start [aloneTx,openingTx]) [aloneTx]).byAccountId.lookup (sampleAccount 1)).isSome))) =
      some (some false) := by decide
  rw [written,Option.map_some,started] at lost
  have again := back (sampleAccount 1) _ bound
  rw [List.singleton_append] at again
  simp only [Except.toOption,Option.map_some,again] at lost
  cases lost

end GreenAgent.Account
