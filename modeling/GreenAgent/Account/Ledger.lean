import GreenAgent.Account.Planning
import GreenAgent.Account.Produced

namespace GreenAgent.Account
open Mpf (Bytes Digest)

section
variable {O : Type}

def TxView.refs (tx : TxView O) : List OutputRef := tx.outputs.map (fun output => ⟨tx.hash,output.1⟩)

def TxView.accounts (ext : Externals O) (tx : TxView O) : List (AlephAccountUtxo O) :=
  tx.outputs.filterMap (fun output => AlephAccountUtxo.tryParse ext ⟨tx.hash,output.1⟩ output.2)

-- A chain is the list of its transactions, newest first.
def produced (chain : List (TxView O)) : List OutputRef := chain.flatMap TxView.refs

def consumed (chain : List (TxView O)) : List OutputRef := chain.flatMap TxView.inputs

def Live (chain : List (TxView O)) (r : OutputRef) : Prop := r ∈ produced chain ∧ r ∉ consumed chain

instance (chain : List (TxView O)) (r : OutputRef) : Decidable (Live chain r) := inferInstanceAs (Decidable (_ ∧ _))

theorem produced_append (later earlier : List (TxView O)) : produced (later ++ earlier) = produced later ++ produced earlier :=
  List.flatMap_append

theorem consumed_append (later earlier : List (TxView O)) : consumed (later ++ earlier) = consumed later ++ consumed earlier :=
  List.flatMap_append

-- The output a reference names, whether or not its transaction is on the chain
-- now: a hash names one transaction only.
def outputAt (txs : Digest → TxView O) (r : OutputRef) : Option O :=
  ((txs r.txHash).outputs.find? (fun output => decide (output.1 = r.index))).map Prod.snd

-- The ledger's rules for one more transaction: inputs are a set of unspent
-- outputs, outputs get references nothing had before.
@[grind cases eager] structure Fits (txs : Digest → TxView O) (chain : List (TxView O)) (tx : TxView O) : Prop where
  named : txs tx.hash = tx
  inputs_live : ∀ r ∈ tx.inputs, Live chain r
  inputs_nodup : tx.inputs.Nodup
  refs_new : ∀ r ∈ tx.refs, r ∉ produced chain
  refs_nodup : tx.refs.Nodup

inductive Consistent (txs : Digest → TxView O) : List (TxView O) → Prop where
  | nil : Consistent txs []
  | cons (prior : Consistent txs chain) (fits : Fits txs chain tx) : Consistent txs (tx :: chain)

variable {txs : Digest → TxView O}

theorem Consistent.consumed_produced {chain : List (TxView O)} (consistent : Consistent txs chain) (spent : r ∈ consumed chain) :
    r ∈ produced chain := by
  induction consistent with
  | nil => cases spent
  | cons prior fits ih =>
    simp only [consumed,produced,List.flatMap_cons,List.mem_append] at spent ⊢
    rcases spent with here | before
    · exact .inr (fits.inputs_live r here).1
    · exact .inr (ih before)

theorem Consistent.tail {chain : List (TxView O)} (consistent : Consistent txs (tx :: chain)) : Consistent txs chain ∧ Fits txs chain tx := by
  cases consistent with
  | cons prior fits => exact ⟨prior,fits⟩

theorem Consistent.drop {chain : List (TxView O)} (consistent : Consistent txs chain) (k : Nat) : Consistent txs (chain.drop k) := by
  induction k generalizing chain with
  | zero => exact consistent
  | succ k ih =>
    cases consistent with
    | nil => exact .nil
    | cons prior fits => exact ih prior

theorem live_cons {chain : List (TxView O)} (consistent : Consistent txs chain) (fits : Fits txs chain tx) :
    Live (tx :: chain) r ↔ (Live chain r ∧ r ∉ tx.inputs) ∨ r ∈ tx.refs := by
  have fresh : r ∈ tx.refs → r ∉ tx.inputs ∧ r ∉ consumed chain := fun here =>
    ⟨fun input => fits.refs_new r here (fits.inputs_live r input).1,
      fun spent => fits.refs_new r here (consistent.consumed_produced spent)⟩
  simp only [Live,produced,consumed,List.flatMap_cons,List.mem_append] at *
  tauto

theorem input_not_ref {chain : List (TxView O)} (fits : Fits txs chain tx) (input : r ∈ tx.inputs) : r ∉ tx.refs :=
  fun here => fits.refs_new r here (fits.inputs_live r input).1

theorem consumedRef_scan (ext : Externals O) (tx : TxView O) :
    (scanAccountEvents ext tx).filterMap AccountEvent.consumedRef? = tx.inputs := by
  have refs : (tx.inputs.map (AccountEvent.consumed (O := O))).filterMap AccountEvent.consumedRef? = tx.inputs := by
    simp [List.filterMap_map,Function.comp_def,AccountEvent.consumedRef?]
  unfold scanAccountEvents
  rw [List.filterMap_append,refs,List.filterMap_filterMap,List.append_right_eq_self]
  apply List.filterMap_eq_nil_iff.mpr
  rintro ⟨i,output⟩ _
  cases parsed : AlephAccountUtxo.tryParse ext ⟨tx.hash,i⟩ output <;> simp [parsed,AccountEvent.consumedRef?]

theorem producedAccount_scan (ext : Externals O) (tx : TxView O) :
    (scanAccountEvents ext tx).filterMap AccountEvent.producedAccount? = tx.accounts ext := by
  have noAccounts : (tx.inputs.map (AccountEvent.consumed (O := O))).filterMap AccountEvent.producedAccount? = [] := by
    simp [List.filterMap_map,Function.comp_def,AccountEvent.producedAccount?]
  unfold scanAccountEvents TxView.accounts
  rw [List.filterMap_append,noAccounts,List.nil_append,List.filterMap_filterMap]
  congr 1
  funext entry
  obtain ⟨i,output⟩ := entry
  cases parsed : AlephAccountUtxo.tryParse ext ⟨tx.hash,i⟩ output <;> simp [parsed,AccountEvent.producedAccount?]

theorem applyAccountEvents_scan (ext : Externals O) (index : AccountIndex O) (tx : TxView O) :
    applyAccountEvents index (scanAccountEvents ext tx) = index.observeTransaction tx.inputs (tx.accounts ext) := by
  unfold applyAccountEvents
  rw [consumedRef_scan,producedAccount_scan]

theorem revertAccountEvents_scan (ext : Externals O) (index : AccountIndex O) (tx : TxView O) :
    revertAccountEvents index (scanAccountEvents ext tx) =
      ((tx.accounts ext).map AlephAccountUtxo.outputRef).foldl AccountIndex.observeRemovedOutput
        (tx.inputs.foldl AccountIndex.observeRollbackConsumed index) := by
  unfold revertAccountEvents scanAccountEvents TxView.accounts
  rw [List.foldl_append,List.foldl_map]
  change List.foldl revertAccountEvent (List.foldl AccountIndex.observeRollbackConsumed index tx.inputs) _ = _
  generalize List.foldl AccountIndex.observeRollbackConsumed index tx.inputs = middle
  induction tx.outputs generalizing middle with
  | nil => rfl
  | cons output rest ih =>
    obtain ⟨i,output⟩ := output
    simp only [List.filterMap_cons]
    cases AlephAccountUtxo.tryParse ext ⟨tx.hash,i⟩ output with
    | none => exact ih middle
    | some account => exact ih _

theorem apply_view (ext : Externals O) {index : AccountIndex O} (plain : index.Plain) {tx : TxView O} (nodup : tx.inputs.Nodup) :
    View.Produces tx.inputs (index.view.spentIds tx.inputs) (tx.inputs.foldl View.consume index.view) (tx.accounts ext)
      (applyAccountEvents index (scanAccountEvents ext tx)).view ∧
      (applyAccountEvents index (scanAccountEvents ext tx)).Plain := by
  rw [applyAccountEvents_scan]
  exact observeTransaction_view plain nodup (tx.accounts ext)

theorem revert_view (ext : Externals O) {index : AccountIndex O} (plain : index.Plain) (tx : TxView O) :
    (revertAccountEvents index (scanAccountEvents ext tx)).view =
      ((tx.accounts ext).map AlephAccountUtxo.outputRef).foldl View.remove (tx.inputs.foldl View.unconsume index.view) ∧
      (revertAccountEvents index (scanAccountEvents ext tx)).Plain := by
  rw [revertAccountEvents_scan]
  obtain ⟨restored,middle⟩ := fold_view observeRollbackConsumed_view observeRollbackConsumed_plain plain tx.inputs
  obtain ⟨removed,after⟩ := fold_view observeRemovedOutput_view observeRemovedOutput_plain middle
    ((tx.accounts ext).map AlephAccountUtxo.outputRef)
  grind

theorem mem_accounts {ext : Externals O} {tx : TxView O} (member : u ∈ tx.accounts ext) :
    u.outputRef ∈ tx.refs ∧ ext.accountState u.output = some u.state := by
  obtain ⟨⟨i,output⟩,inside,parsed⟩ := List.mem_filterMap.mp member
  simp only [AlephAccountUtxo.tryParse,Option.map_eq_some_iff] at parsed
  obtain ⟨state,read,rfl⟩ := parsed
  exact ⟨List.mem_map.mpr ⟨(i,output),inside,rfl⟩,read⟩

theorem find_output {h : Digest} {outputs : List (UInt64 × O)}
    (nodup : (outputs.map (fun output => (⟨h,output.1⟩ : OutputRef))).Nodup) (inside : (i,o) ∈ outputs) :
    outputs.find? (fun other => decide (other.1 = i)) = some (i,o) := by
  induction outputs with
  | nil => cases inside
  | cons first rest ih => grind

theorem outputAt_account {ext : Externals O} {tx : TxView O} (named : txs tx.hash = tx) (nodup : tx.refs.Nodup)
    (member : u ∈ tx.accounts ext) : outputAt txs u.outputRef = some u.output := by
  obtain ⟨⟨i,output⟩,inside,parsed⟩ := List.mem_filterMap.mp member
  simp only [AlephAccountUtxo.tryParse,Option.map_eq_some_iff] at parsed
  obtain ⟨state,read,rfl⟩ := parsed
  have found := find_output nodup inside
  simp only [outputAt,named,found,Option.map_some]

theorem account_of_ref {ext : Externals O} {tx : TxView O} (named : txs tx.hash = tx) (inside : r ∈ tx.refs)
    (output : outputAt txs r = some o) (parsed : ext.accountState o = some state) : ⟨r,o,state⟩ ∈ tx.accounts ext := by
  obtain ⟨⟨i,o'⟩,member,rfl⟩ := List.mem_map.mp inside
  simp only [outputAt,named,Option.map_eq_some_iff] at output
  obtain ⟨⟨j,o''⟩,found,rfl⟩ := output
  have same : j = i := by simpa using List.find?_some found
  subst same
  exact List.mem_filterMap.mpr ⟨_,List.mem_of_find?_eq_some found,by simp [AlephAccountUtxo.tryParse,parsed]⟩

theorem accounts_nodup {ext : Externals O} {tx : TxView O} (nodup : tx.refs.Nodup) :
    ((tx.accounts ext).map AlephAccountUtxo.outputRef).Nodup := by
  refine List.Nodup.sublist ?_ nodup
  unfold TxView.accounts TxView.refs
  induction tx.outputs with
  | nil => exact List.Sublist.slnil
  | cons output rest ih =>
    obtain ⟨i,output⟩ := output
    simp only [List.filterMap_cons,List.map_cons]
    cases parsed : AlephAccountUtxo.tryParse ext ⟨tx.hash,i⟩ output with
    | none => exact ih.cons _
    | some account =>
      simp only [AlephAccountUtxo.tryParse,Option.map_eq_some_iff] at parsed
      grind

-- Every state the agent's index and the ledger can be in together. A chain can
-- have any length before the index starts to follow it, and after a restart the
-- chain is followed again from some earlier point.
inductive Reached (ext : Externals O) (txs : Digest → TxView O) : AccountIndex O → List (TxView O) → Prop where
  | fresh (persistence : Option Unit) (consistent : Consistent txs chain) :
      Reached ext txs {AccountIndex.default with persistence:=persistence.map (fun _ => none)} chain
  | bind (prior : Reached ext txs index chain) (a : AccountId) (r : OutputRef) :
      Reached ext txs (index.bindExternalAccountIdOnce a r).1 chain
  | plan (prior : Reached ext txs index chain) (call : PlanCall) (planned : call.run ext index a r = .ok (next,root,n)) :
      Reached ext txs next chain
  | apply (prior : Reached ext txs index chain) (fits : Fits txs chain tx) :
      Reached ext txs (applyAccountEvents index (scanAccountEvents ext tx)) (tx :: chain)
  | revert (prior : Reached ext txs index (tx :: chain)) :
      Reached ext txs (revertAccountEvents index (scanAccountEvents ext tx)) chain
  | restart (prior : Reached ext txs index chain) (file : index.persistence = some saved)
      (loaded : AccountIndex.withPersistencePath ext saved = .ok next) (k : Nat) : Reached ext txs next (chain.drop k)

theorem Reached.consistent {ext : Externals O} (reached : Reached ext txs index chain) : Consistent txs chain := by
  induction reached with
  | fresh _ consistent => exact consistent
  | bind _ _ _ ih => exact ih
  | plan _ _ _ ih => exact ih
  | apply _ fits ih => exact .cons ih fits
  | revert _ ih => exact ih.tail.1
  | restart _ _ _ k ih => exact ih.drop k

end
end GreenAgent.Account
