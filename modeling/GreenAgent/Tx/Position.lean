import GreenAgent.Tx.Blueprint

namespace GreenAgent.Tx
open Mpf (Bytes)
open Account (OutputRef Hash28 FinalizedTxOut)
open Cardano (TransactionOutput)
open Green (ExUnits)
open Sorting (sortBy positions)

section Sorted
variable {D : Type} {force : Bool} {accounts : Finset OutputRef}

def Entry.place (entry : Entry D) : WithBot OutputRef :=
  match entry.reference with
  | some reference => reference
  | none => ⊥

def Entry.key (force : Bool) (accounts : Finset OutputRef) (entry : Entry D) : Nat ×ₗ WithBot OutputRef :=
  toLex (entry.rank force accounts,entry.place)

theorem Entry.reference_none (force : Bool) (accounts : Finset OutputRef) (entry : Entry D) :
    entry.reference = none ↔ entry.rank force accounts = if force then 3 else 0 := by
  cases entry with
  | script spent output =>
    simp only [Entry.reference,Entry.spent,Entry.rank,Option.map_some,reduceCtorEq,false_iff]
    grind
  | operator funding output =>
    cases funding with
    | none => simp [Entry.reference,Entry.spent,Entry.rank]
    | some funding =>
      simp only [Entry.reference,Entry.spent,Entry.rank,Option.map_some,reduceCtorEq,false_iff]
      split <;> omega

theorem Entry.cmp_isLE (a b : Entry D) :
    (Entry.cmp force accounts a b).isLE = true ↔ a.key force accounts ≤ b.key force accounts := by
  rw [Entry.key,Entry.key,Prod.Lex.toLex_le_toLex,Entry.cmp]
  rcases lt_trichotomy (a.rank force accounts) (b.rank force accounts) with below | same | above
  · simp [Nat.compare_eq_lt.mpr below,below]
  · have both : a.reference = none ↔ b.reference = none := by
      rw [Entry.reference_none force accounts a,Entry.reference_none force accounts b,same]
    cases ofA : a.reference with
    | none =>
      have ofB : b.reference = none := both.mp ofA
      simp [Entry.place,same,ofA,ofB]
    | some refA =>
      cases ofB : b.reference with
      | none => exact absurd (both.mpr ofB) (by rw [ofA]; exact Option.some_ne_none refA)
      | some refB =>
        simp [Entry.place,same,ofA,ofB,Ordering.isLE_iff_ne_gt,compare_gt_iff_gt]
  · simp [Nat.compare_eq_gt.mpr above]
    omega

end Sorted

section Fold
variable {D : Type} {rules : BuilderRules D} {ordering : TxInputsOrdering} {entry : Entry D} {entries : List (Entry D)}
  {txb after : TransactionBuilder D}

def Entry.redeemed (ordering : TxInputsOrdering) : Entry D → Option (OutputRef × Redeemer D)
  | .script spent _ => (spent.redeemer ordering).map (fun redeemer => (spent.reference,redeemer))
  | .operator _ _ => none

def Entry.charged (ordering : TxInputsOrdering) : Entry D → Option (Nat × ExUnits)
  | .script spent _ => (ordering.indexOf spent.reference).map (fun index => (index,spent.script.cost index))
  | .operator _ _ => none

def Entry.Accepted (rules : BuilderRules D) (ordering : TxInputsOrdering) : Entry D → Prop
  | .script spent output => (spent.redeemer ordering).isSome = true ∧ (ordering.indexOf spent.reference).isSome = true ∧
      rules.scriptInput spent.script.hash spent.utxo = true ∧ rules.output output = true
  | .operator funding output => (∀ consumed ∈ funding,rules.keyInput consumed.output = true) ∧ rules.output output = true

def TransactionBuilder.with (txb : TransactionBuilder D) (ordering : TxInputsOrdering) (entries : List (Entry D)) :
    TransactionBuilder D :=
  {txb with
    inputs:=txb.inputs ++ entries.filterMap Entry.spent
    outputs:=txb.outputs ++ entries.map Entry.output
    redeemers:=txb.redeemers ++ entries.filterMap (Entry.redeemed ordering)
    exUnits:=txb.exUnits ++ entries.filterMap (Entry.charged ordering)}

theorem TransactionBuilder.addEntry_eq (accepted : entry.Accepted rules ordering) :
    txb.addEntry rules ordering entry = some (txb.with ordering [entry]) := by
  cases entry with
  | script spent output =>
    obtain ⟨answers,placed,input,paid⟩ := accepted
    obtain ⟨redeemer,redeems⟩ := Option.isSome_iff_exists.mp answers
    obtain ⟨index,at_index⟩ := Option.isSome_iff_exists.mp placed
    simp [TransactionBuilder.addEntry,TransactionBuilder.with,Entry.spent,Entry.output,Entry.redeemed,Entry.charged,
      redeems,at_index,input,paid]
  | operator funding output =>
    obtain ⟨keys,paid⟩ := accepted
    rw [TransactionBuilder.addEntry,if_pos ⟨keys,paid⟩]
    cases funding <;> simp [TransactionBuilder.with,Entry.spent,Entry.output,Entry.redeemed,Entry.charged]

theorem TransactionBuilder.addEntry_accepted (added : txb.addEntry rules ordering entry = some after) :
    entry.Accepted rules ordering := by
  cases entry with
  | script spent output =>
    simp only [TransactionBuilder.addEntry,Option.bind_eq_bind,Option.bind_eq_some_iff,Option.ite_none_right_eq_some] at added
    obtain ⟨redeemer,redeems,index,at_index,⟨input,paid⟩,_⟩ := added
    exact ⟨by rw [redeems]; rfl,by rw [at_index]; rfl,input,paid⟩
  | operator funding output =>
    simp only [TransactionBuilder.addEntry,Option.ite_none_right_eq_some] at added
    exact added.1

theorem TransactionBuilder.with_nil : txb.with ordering [] = txb := by
  simp [TransactionBuilder.with]

theorem TransactionBuilder.with_cons : (txb.with ordering [entry]).with ordering entries = txb.with ordering (entry :: entries) := by
  simp only [TransactionBuilder.with,List.append_assoc,← List.filterMap_append,← List.map_append,List.singleton_append]

theorem TransactionBuilder.addEntries_iff :
    entries.foldlM (TransactionBuilder.addEntry rules ordering) txb = some after ↔
      (∀ entry ∈ entries,entry.Accepted rules ordering) ∧ after = txb.with ordering entries := by
  induction entries generalizing txb with
  | nil => simp [TransactionBuilder.with_nil,eq_comm]
  | cons entry entries ih =>
    rw [List.foldlM_cons,Option.bind_eq_bind,Option.bind_eq_some_iff]
    constructor
    · rintro ⟨middle,added,rest⟩
      have accepted := TransactionBuilder.addEntry_accepted added
      rw [TransactionBuilder.addEntry_eq accepted] at added
      cases added
      obtain ⟨later,result⟩ := ih.mp rest
      exact ⟨List.forall_mem_cons.mpr ⟨accepted,later⟩,result.trans TransactionBuilder.with_cons⟩
    · rintro ⟨all,rfl⟩
      obtain ⟨accepted,later⟩ := List.forall_mem_cons.mp all
      exact ⟨_,TransactionBuilder.addEntry_eq accepted,ih.mpr ⟨later,TransactionBuilder.with_cons.symm⟩⟩

end Fold

-- The accounts of a batch, each with what is spent, what is produced and what
-- its owner authorised. The only caller of the two account operations makes
-- them together.
structure AccountTake (D : Type) where
  spent : ScriptInputBlueprint D
  output : TransactionOutput D
  intention : AlephAuthorizedIntention

namespace AccountTake
variable {D : Type}

def reference (take : AccountTake D) : OutputRef := take.spent.reference
def finalized (take : AccountTake D) : FinalizedTxOut (TransactionOutput D) := take.spent.finalized
def io (take : AccountTake D) : ScriptInputBlueprint D × TransactionOutput D := (take.spent,take.output)
def authorized (take : AccountTake D) : OutputRef × AlephAuthorizedIntention := (take.reference,take.intention)

end AccountTake

inductive Assembled {D : Type} : List (AccountTake D) → TxBlueprint D → Prop
  | new : Assembled [] .new
  | addIo : Assembled takes blueprint → Assembled takes (blueprint.addIo spent output)
  | take : Assembled takes blueprint →
      (blueprint.addAccountIo added.spent added.output).addAlephBatchIntention witness added.reference added.intention = some after →
      Assembled (takes ++ [added]) after

section Assembly
variable {D : Type} {takes : List (AccountTake D)} {blueprint : TxBlueprint D}

def TxBlueprint.references (blueprint : TxBlueprint D) : List OutputRef := blueprint.scriptIo.map (fun io => io.1.reference)

def TxBlueprint.accountIo (blueprint : TxBlueprint D) : List (ScriptInputBlueprint D × TransactionOutput D) :=
  blueprint.scriptIo.filter (fun io => io.1.reference ∈ blueprint.accountScriptRefs)

def TxBlueprint.otherIo (blueprint : TxBlueprint D) : List (ScriptInputBlueprint D × TransactionOutput D) :=
  blueprint.scriptIo.filter (fun io => io.1.reference ∉ blueprint.accountScriptRefs)

theorem TxBlueprint.addAlephBatchIntention_some {witness : DeployedValidatorErased} {after : TxBlueprint D}
    (added : blueprint.addAlephBatchIntention witness reference intention = some after) :
    ∃ existing,after =
      {blueprint with alephBatchWitness:=some (existing,blueprint.alephBatchWitness.elim [] Prod.snd ++ [(reference,intention)])} := by
  rw [addAlephBatchIntention] at added
  split at added
  · grind
  grind

theorem Assembled.intentions (assembled : Assembled takes blueprint) :
    blueprint.alephBatchWitness.elim [] Prod.snd = takes.map AccountTake.authorized := by
  induction assembled with
  | new => rfl
  | addIo _ ih => exact ih
  | take _ added ih =>
    obtain ⟨existing,rfl⟩ := TxBlueprint.addAlephBatchIntention_some added
    simp only [Option.elim_some,List.map_append,List.map_cons,List.map_nil]
    rw [← ih]
    rfl

theorem Assembled.accountRefs (assembled : Assembled takes blueprint) (reference : OutputRef) :
    reference ∈ blueprint.accountScriptRefs ↔ reference ∈ takes.map AccountTake.reference := by
  induction assembled with
  | new => simp [TxBlueprint.new]
  | addIo _ ih => exact ih
  | take _ added ih =>
    obtain ⟨existing,rfl⟩ := TxBlueprint.addAlephBatchIntention_some added
    simp only [TxBlueprint.addAccountIo,Finset.mem_insert,ih,List.map_append,List.mem_append,List.map_cons,List.map_nil,
      List.mem_singleton]
    exact or_comm

theorem Assembled.taken (assembled : Assembled takes blueprint) : (takes.map AccountTake.io).Sublist blueprint.scriptIo := by
  induction assembled with
  | new => exact List.Sublist.refl _
  | addIo _ ih => exact ih.trans (List.sublist_append_left _ _)
  | take _ added ih =>
    obtain ⟨existing,rfl⟩ := TxBlueprint.addAlephBatchIntention_some added
    rw [List.map_append]
    exact ih.append (List.Sublist.refl _)

theorem Assembled.accountIo (assembled : Assembled takes blueprint) (distinct : blueprint.references.Nodup) :
    blueprint.accountIo = takes.map AccountTake.io := by
  have kept : (takes.map AccountTake.io).filter (fun io => io.1.reference ∈ blueprint.accountScriptRefs) =
      takes.map AccountTake.io := by
    apply List.filter_eq_self.mpr
    intro io member
    obtain ⟨take,inside,rfl⟩ := List.mem_map.mp member
    exact decide_eq_true ((assembled.accountRefs _).mpr (List.mem_map_of_mem inside))
  have sub : (takes.map AccountTake.io).Sublist blueprint.accountIo := by
    rw [← kept]
    exact assembled.taken.filter _
  have refs : (blueprint.accountIo.map (fun io => io.1.reference)).Nodup := distinct.sublist (List.filter_sublist.map _)
  have covered : blueprint.accountIo.map (fun io => io.1.reference) ⊆ takes.map AccountTake.reference := by
    intro reference member
    obtain ⟨io,inside,rfl⟩ := List.mem_map.mp member
    exact (assembled.accountRefs _).mp (of_decide_eq_true (List.mem_filter.mp inside).2)
  have few := (refs.subperm covered).length_le
  grind

end Assembly

section Layout
variable {D : Type} {takes : List (AccountTake D)} {blueprint : TxBlueprint D} {operator rewards : List (Entry D)}
  {funding : FinalizedTxOut (TransactionOutput D)} {produced : TransactionOutput D}

def Entry.ofIo (io : ScriptInputBlueprint D × TransactionOutput D) : Entry D := .script io.1 io.2

theorem TxBlueprint.allIo_eq (blueprint : TxBlueprint D) (operator : List (Entry D)) :
    blueprint.allIo operator = sortBy (Entry.key blueprint.forcesOperatorFundingInput blueprint.accountScriptRefs)
      (blueprint.scriptIo.map Entry.ofIo ++ operator) :=
  Sorting.insertionSort_eq_sortBy Entry.cmp_isLE _

theorem TxBlueprint.allIo_perm (blueprint : TxBlueprint D) (operator : List (Entry D)) :
    (blueprint.allIo operator).Perm (blueprint.scriptIo.map Entry.ofIo ++ operator) := by
  rw [allIo_eq]
  exact Sorting.sortBy_perm _ _

def rowKey (io : ScriptInputBlueprint D × TransactionOutput D) : OutputRef := io.1.reference

-- Accounts, the funding input, the other scripts, the reward.
def TxBlueprint.layout (blueprint : TxBlueprint D) (funding : Entry D) (rewards : List (Entry D)) : List (Entry D) :=
  (sortBy rowKey blueprint.accountIo).map Entry.ofIo ++ funding :: ((sortBy rowKey blueprint.otherIo).map Entry.ofIo ++ rewards)

theorem TxBlueprint.layout_perm (blueprint : TxBlueprint D) (entry : Entry D) (rewards : List (Entry D)) :
    (blueprint.layout entry rewards).Perm (blueprint.scriptIo.map Entry.ofIo ++ entry :: rewards) := by
  have split : (blueprint.accountIo ++ blueprint.otherIo).Perm blueprint.scriptIo := by
    have parts := List.filter_append_perm (fun io : ScriptInputBlueprint D × TransactionOutput D =>
      decide (io.1.reference ∈ blueprint.accountScriptRefs)) blueprint.scriptIo
    simpa only [accountIo,otherIo,decide_not] using parts
  have sorted : (sortBy rowKey blueprint.accountIo ++ sortBy rowKey blueprint.otherIo).Perm blueprint.scriptIo :=
    ((Sorting.sortBy_perm _ _).append (Sorting.sortBy_perm _ _)).trans split
  have mapped := (sorted.map Entry.ofIo).append_right (entry :: rewards)
  rw [List.map_append,List.append_assoc] at mapped
  exact ((List.perm_middle.symm).append_left _).trans mapped

section Ranks
variable {accounts : Finset OutputRef} {a b : Entry D} {io : ScriptInputBlueprint D × TransactionOutput D}
  {rows : List (ScriptInputBlueprint D × TransactionOutput D)}

def Entry.Below (accounts : Finset OutputRef) (a b : Entry D) : Prop := a.key true accounts ≤ b.key true accounts

theorem Entry.below_of_rank (below : a.rank true accounts < b.rank true accounts) : Entry.Below accounts a b :=
  Prod.Lex.toLex_le_toLex.mpr (.inl below)

theorem Entry.below_of_place (same : a.rank true accounts = b.rank true accounts) (below : a.place ≤ b.place) :
    Entry.Below accounts a b :=
  Prod.Lex.toLex_le_toLex.mpr (.inr ⟨same,below⟩)

theorem account_rank (account : io ∈ sortBy rowKey blueprint.accountIo) :
    (Entry.ofIo io).rank true blueprint.accountScriptRefs = 0 := by
  have kept := (List.mem_filter.mp ((Sorting.sortBy_perm _ _).mem_iff.mp account)).2
  simp [Entry.ofIo,Entry.rank,of_decide_eq_true kept]

theorem other_rank (other : io ∈ sortBy rowKey blueprint.otherIo) :
    (Entry.ofIo io).rank true blueprint.accountScriptRefs = 2 := by
  have kept := (List.mem_filter.mp ((Sorting.sortBy_perm _ _).mem_iff.mp other)).2
  simp [Entry.ofIo,Entry.rank,of_decide_eq_true kept]

theorem block_sorted (rank : Nat) (ranked : ∀ io ∈ sortBy rowKey rows,(Entry.ofIo io).rank true accounts = rank) :
    ((sortBy rowKey rows).map Entry.ofIo).Pairwise (Entry.Below accounts) := by
  apply List.pairwise_map.mpr
  apply (Sorting.sortBy_sorted rowKey rows).imp_of_mem
  intro a b insideA insideB below
  exact Entry.below_of_place ((ranked a insideA).trans (ranked b insideB).symm) (WithBot.coe_le_coe.mpr below)

def rewardEntries (reward : Option (TransactionOutput D)) : List (Entry D) := reward.toList.map (Entry.operator none)

theorem layout_sorted (blueprint : TxBlueprint D) (funding : FinalizedTxOut (TransactionOutput D))
    (produced : TransactionOutput D) (reward : Option (TransactionOutput D)) :
    (blueprint.layout (.operator (some funding) produced) (rewardEntries reward)).Pairwise
      (Entry.Below blueprint.accountScriptRefs) := by
  have rewardSorted : (rewardEntries reward).Pairwise (Entry.Below blueprint.accountScriptRefs) := by
    cases reward <;> simp [rewardEntries]
  have late : ∀ e ∈ (sortBy rowKey blueprint.otherIo).map Entry.ofIo ++ rewardEntries reward,
      2 ≤ e.rank true blueprint.accountScriptRefs := by
    intro e member
    rcases List.mem_append.mp member with other | reward
    · obtain ⟨io,inside,rfl⟩ := List.mem_map.mp other
      exact (other_rank inside).ge
    · obtain ⟨output,_,rfl⟩ := List.mem_map.mp reward
      exact Nat.le_succ 2
  refine List.pairwise_append.mpr ⟨block_sorted 0 (fun io inside => account_rank inside),?_,?_⟩
  · refine List.pairwise_cons.mpr ⟨fun e member => Entry.below_of_rank (late e member),?_⟩
    refine List.pairwise_append.mpr ⟨block_sorted 2 (fun io inside => other_rank inside),rewardSorted,?_⟩
    intro a insideA b insideB
    obtain ⟨io,other,rfl⟩ := List.mem_map.mp insideA
    obtain ⟨output,_,rfl⟩ := List.mem_map.mp insideB
    apply Entry.below_of_rank
    rw [other_rank other]
    exact Nat.lt_succ_self 2
  · intro a insideA b insideB
    obtain ⟨io,account,rfl⟩ := List.mem_map.mp insideA
    apply Entry.below_of_rank
    rw [account_rank account]
    rcases List.mem_cons.mp insideB with rfl | later
    · exact Nat.zero_lt_one
    grind

theorem places_nodup (distinct : blueprint.references.Nodup) (apart : funding.reference ∉ blueprint.references)
    (produced : TransactionOutput D) (reward : Option (TransactionOutput D)) :
    ((blueprint.scriptIo.map Entry.ofIo ++ Entry.operator (some funding) produced :: rewardEntries reward).map Entry.place).Nodup := by
  have scripts : (blueprint.scriptIo.map Entry.ofIo).map Entry.place = blueprint.references.map WithBot.some := by
    rw [List.map_map,TxBlueprint.references,List.map_map]
    rfl
  have rest : (rewardEntries reward).map Entry.place = reward.toList.map (fun _ => ⊥) := by
    rw [rewardEntries,List.map_map]
    rfl
  rw [List.map_append,scripts,List.map_cons,rest]
  refine List.Nodup.append (distinct.map WithBot.coe_injective) ?_ ?_
  · cases reward <;> simp [Entry.place,Entry.reference,Entry.spent]
  · intro place inScripts inOperator
    obtain ⟨reference,member,rfl⟩ := List.mem_map.mp inScripts
    rcases List.mem_cons.mp inOperator with same | other
    · exact apart (WithBot.coe_injective same ▸ member)
    simp_all

theorem allIo_layout (witnessed : blueprint.alephBatchWitness.isSome = true) (distinct : blueprint.references.Nodup)
    (apart : funding.reference ∉ blueprint.references) (produced : TransactionOutput D) (reward : Option (TransactionOutput D)) :
    blueprint.allIo (.operator (some funding) produced :: rewardEntries reward) =
      blueprint.layout (.operator (some funding) produced) (rewardEntries reward) := by
  rw [TxBlueprint.allIo_eq,TxBlueprint.forcesOperatorFundingInput,witnessed]
  refine Sorting.sortBy_eq (blueprint.layout_perm _ _) (layout_sorted blueprint funding produced reward) ?_
  intro a insideA b insideB same
  exact List.inj_on_of_nodup_map (places_nodup distinct apart produced reward) insideA insideB
    (congrArg (fun key => (ofLex key).2) same)

def fundingOutput (funding : FinalizedTxOut (TransactionOutput D)) (interest reserve : UInt64) : TransactionOutput D :=
  let reserved : TransactionOutput D :=
    if 0 < reserve then {funding.output with value:=funding.output.value.subUnsafe .native reserve} else funding.output
  if 0 < interest ∧ interest < minSafeLovelaceValue then {reserved with value:=reserved.value.addUnsafe .native interest}
  else reserved

def rewardOutput (rewardAddress : Bytes) (interest : UInt64) : Option (TransactionOutput D) :=
  if minSafeLovelaceValue ≤ interest then some ⟨rewardAddress,.lovelace interest,none⟩ else none

theorem operatorIo_forced (rewardAddress : Bytes) (funding : FinalizedTxOut (TransactionOutput D)) (interest reserve : UInt64) :
    operatorIo true rewardAddress funding interest reserve =
      (.operator (some funding) (fundingOutput funding interest reserve) :: rewardEntries (rewardOutput rewardAddress interest),
        .replaced funding (fundingOutput funding interest reserve)) := by
  simp only [operatorIo,fundingOutput,rewardOutput,Bool.true_eq_false,and_false,if_false,if_true]
  by_cases paid : 0 < interest
  · by_cases large : minSafeLovelaceValue ≤ interest
    · simp only [paid,large,UInt64.not_lt.mpr large,if_true,and_false,if_false]
      rfl
    · simp only [paid,large,UInt64.not_le.mp large,if_true,and_self,if_false]
      rfl
  · have small : ¬minSafeLovelaceValue ≤ interest := fun large => paid (UInt64.lt_of_lt_of_le (by decide) large)
    simp only [paid,small,if_false,false_and]
    rfl

end Ranks

end Layout

section Ledger
variable {D : Type} {rules : BuilderRules D} {takes : List (AccountTake D)} {blueprint : TxBlueprint D}
  {funding : FinalizedTxOut (TransactionOutput D)} {entries : List (Entry D)}

def spentRefs (entries : List (Entry D)) : List OutputRef :=
  sortBy (fun reference => reference) (entries.filterMap Entry.reference)

theorem ledgerInputs_refs {txb : TransactionBuilder D} (inputs : txb.inputs = entries.filterMap Entry.spent) :
    txb.ledgerInputs.map FinalizedTxOut.reference = spentRefs entries := by
  have refs : entries.filterMap Entry.reference = (entries.filterMap Entry.spent).map FinalizedTxOut.reference := by
    rw [List.map_filterMap]
    rfl
  rw [TransactionBuilder.ledgerInputs,inputs,spentRefs,refs]
  exact Sorting.sortBy_map (fun reference => reference) FinalizedTxOut.reference _

theorem spentRefs_sorted (distinct : (entries.filterMap Entry.reference).Nodup) : (spentRefs entries).Pairwise (· < ·) := by
  have keys : ((entries.filterMap Entry.reference).map (fun reference => reference)).Nodup := by grind
  have strict := Sorting.sortBy_strict keys
  rw [List.map_id'] at strict
  exact strict

theorem indexOf_iff (distinct : (entries.filterMap Entry.reference).Nodup) :
    (TxBlueprint.inputsOrdering entries).indexOf reference = some index ↔ (spentRefs entries)[index]? = some reference :=
  Sorting.positions_lookup (spentRefs_sorted distinct).nodup

theorem mapM_some {f : α → Option β} {g : α → β} {list : List α} (each : ∀ x ∈ list,f x = some (g x)) :
    list.mapM f = some (list.map g) := by
  induction list with
  | nil => rfl
  | cons x list ih => grind

theorem sortIntentions_eq (distinct : (entries.filterMap Entry.reference).Nodup) (apart : (takes.map AccountTake.reference).Nodup)
    (spent : ∀ take ∈ takes,take.reference ∈ entries.filterMap Entry.reference) :
    sortIntentions (TxBlueprint.inputsOrdering entries) (takes.map AccountTake.authorized) =
      some ((sortBy AccountTake.reference takes).map AccountTake.authorized) := by
  have placed : ∀ take ∈ takes,(spentRefs entries)[(spentRefs entries).idxOf take.reference]? = some take.reference :=
    fun take member => List.getElem?_idxOf ((Sorting.sortBy_perm _ _).mem_iff.mpr (spent take member))
  rw [sortIntentions,List.length_map]
  split
  · rename_i few
    have same : sortBy AccountTake.reference takes = takes :=
      match takes,few with
      | [],_ => rfl
      | [_],_ => rfl
    rw [same]
  · have keyed : (takes.map AccountTake.authorized).mapM
        (fun entry => ((TxBlueprint.inputsOrdering entries).indexOf entry.1).map (fun index => (index,entry))) =
        some (takes.map (fun take => ((spentRefs entries).idxOf take.reference,take.authorized))) := by
      rw [List.mapM_map]
      apply mapM_some
      intro take member
      have found := (indexOf_iff distinct).mpr (placed take member)
      change ((TxBlueprint.inputsOrdering entries).indexOf take.reference).map _ = _
      rw [found]
      rfl
    rw [keyed,Option.map_some,← Sorting.sortBy_map Prod.fst,List.map_map]
    congr 2
    refine Sorting.sortBy_eq (Sorting.sortBy_perm _ _) ?_ ?_
    · apply (Sorting.sortBy_sorted AccountTake.reference takes).imp_of_mem
      intro a b insideA insideB below
      have placedA := placed a ((Sorting.sortBy_perm _ _).mem_iff.mp insideA)
      have placedB := placed b ((Sorting.sortBy_perm _ _).mem_iff.mp insideB)
      exact (Sorting.positions_le (spentRefs_sorted distinct) placedA placedB).mpr below
    · intro a insideA b insideB same
      have same : (spentRefs entries).idxOf a.reference = (spentRefs entries).idxOf b.reference := same
      have reference : some a.reference = some b.reference := by
        rw [← placed a insideA,← placed b insideB,same]
      exact List.inj_on_of_nodup_map apart insideA insideB (Option.some.inj reference)

end Ledger

-- The projected transaction next to the blueprint: `rows` are the takes in the
-- ledger's order of their accounts.
@[grind cases eager] structure Positioned (blueprint : TxBlueprint D) (takes rows : List (AccountTake D)) (funding : FinalizedTxOut (TransactionOutput D))
    (produced : TransactionOutput D) (rewards : List (TransactionOutput D)) (txb : TransactionBuilder D) : Prop where
  rows_perm : rows.Perm takes
  ledger_sorted : (txb.ledgerInputs.map FinalizedTxOut.reference).Pairwise (· < ·)
  accounts : txb.ledgerInputs.filter (fun spent => spent.reference ∈ blueprint.accountScriptRefs) =
    rows.map AccountTake.finalized
  intentions : txb.batch.map (fun batch => batch.2.1) = some (rows.map AccountTake.intention)
  account_outputs : rows.map AccountTake.output ++ [produced] <+: txb.outputs
  inputs_perm : txb.ledgerInputs.Perm (funding :: blueprint.scriptIo.map (fun io => io.1.finalized))
  outputs_perm : txb.outputs.Perm (produced :: rewards ++ blueprint.scriptIo.map Prod.snd)
  spend : ∀ io ∈ blueprint.scriptIo,∃ index,
    txb.ledgerInputs[index]? = some io.1.finalized ∧ (index,io.1.script.cost index) ∈ txb.exUnits ∧
      (io.1.redeemer = poolRedeemer io.1.reference →
        ∀ redeemer,(io.1.reference,redeemer) ∈ txb.redeemers ↔ redeemer = .swap index)
  exUnits : ∀ index units,(index,units) ∈ txb.exUnits → ∃ io ∈ blueprint.scriptIo,
    txb.ledgerInputs[index]? = some io.1.finalized ∧ units = io.1.script.cost index

section Projection
variable {D : Type} {rules : BuilderRules D} {takes : List (AccountTake D)} {blueprint : TxBlueprint D}
  {funding : FinalizedTxOut (TransactionOutput D)} {rewardAddress : Bytes} {interest reserve : UInt64}
  {txb : TransactionBuilder D} {fundingIo : FundingIo D}

theorem projectOntoBuilder_iff (rules : BuilderRules D) (blueprint : TxBlueprint D) (rewardAddress : Bytes)
    (funding : FinalizedTxOut (TransactionOutput D)) (interest reserve : UInt64) (txb : TransactionBuilder D) (fundingIo : FundingIo D) :
    blueprint.projectOntoBuilder rules rewardAddress funding interest reserve = some (txb,fundingIo) ↔
      let operator := operatorIo blueprint.forcesOperatorFundingInput rewardAddress funding interest reserve
      let allIo := blueprint.allIo operator.1
      ∃ batch,blueprint.alephBatch (TxBlueprint.inputsOrdering allIo) = some batch ∧
        (∀ entry ∈ allIo,entry.Accepted rules (TxBlueprint.inputsOrdering allIo)) ∧
        txb = (TransactionBuilder.start (blueprint.requiredSigners allIo) batch).with (TxBlueprint.inputsOrdering allIo) allIo ∧
        fundingIo = operator.2 := by
  simp only [TxBlueprint.projectOntoBuilder,Option.bind_eq_bind,Option.bind_eq_some_iff]
  constructor
  · rintro ⟨batch,sorted,txb,added,same⟩
    cases same
    obtain ⟨accepted,rfl⟩ := TransactionBuilder.addEntries_iff.mp added
    grind
  · rintro ⟨batch,sorted,accepted,rfl,rfl⟩
    exact ⟨batch,sorted,_,TransactionBuilder.addEntries_iff.mpr ⟨accepted,rfl⟩,rfl⟩

-- From here on the blueprint has a batch and its inputs differ, also from the
-- funding input.
structure Spendable (takes : List (AccountTake D)) (blueprint : TxBlueprint D) (funding : FinalizedTxOut (TransactionOutput D)) :
    Prop where
  assembled : Assembled takes blueprint
  witnessed : blueprint.alephBatchWitness.isSome = true
  distinct : blueprint.references.Nodup
  apart : funding.reference ∉ blueprint.references

namespace Spendable

theorem takes_distinct (spendable : Spendable takes blueprint funding) : (takes.map AccountTake.reference).Nodup := by
  have sub := spendable.assembled.taken.map (fun io => io.1.reference)
  rw [List.map_map] at sub
  exact spendable.distinct.sublist sub

theorem accountIo_sorted (spendable : Spendable takes blueprint funding) :
    sortBy rowKey blueprint.accountIo = (sortBy AccountTake.reference takes).map AccountTake.io := by
  rw [spendable.assembled.accountIo spendable.distinct]
  exact (Sorting.sortBy_map rowKey AccountTake.io takes).symm

theorem batch_eq (spendable : Spendable takes blueprint funding) :
    ∃ witness,blueprint.alephBatchWitness = some (witness,takes.map AccountTake.authorized) := by
  obtain ⟨⟨witness,intentions⟩,held⟩ := Option.isSome_iff_exists.mp spendable.witnessed
  have same := spendable.assembled.intentions
  grind

-- The entries in the order they are added.
def entries (blueprint : TxBlueprint D) (funding : FinalizedTxOut (TransactionOutput D)) (rewardAddress : Bytes)
    (interest reserve : UInt64) : List (Entry D) :=
  blueprint.layout (.operator (some funding) (fundingOutput funding interest reserve))
    (rewardEntries (rewardOutput rewardAddress interest))

theorem entries_perm (blueprint : TxBlueprint D) (funding : FinalizedTxOut (TransactionOutput D)) (rewardAddress : Bytes)
    (interest reserve : UInt64) : (entries blueprint funding rewardAddress interest reserve).Perm
      (blueprint.scriptIo.map Entry.ofIo ++ .operator (some funding) (fundingOutput funding interest reserve) ::
        rewardEntries (rewardOutput rewardAddress interest)) := blueprint.layout_perm _ _

theorem mem_entries {entry : Entry D} : entry ∈ entries blueprint funding rewardAddress interest reserve ↔
    (∃ io ∈ blueprint.scriptIo,Entry.ofIo io = entry) ∨ entry = .operator (some funding) (fundingOutput funding interest reserve) ∨
      ∃ reward ∈ rewardOutput rewardAddress interest,.operator none reward = entry := by
  rw [(entries_perm _ _ _ _ _).mem_iff,List.mem_append,List.mem_cons,List.mem_map]
  simp [rewardEntries]

theorem inputs_perm (blueprint : TxBlueprint D) (funding : FinalizedTxOut (TransactionOutput D)) (rewardAddress : Bytes)
    (interest reserve : UInt64) : ((entries blueprint funding rewardAddress interest reserve).filterMap Entry.spent).Perm
    (funding :: blueprint.scriptIo.map (fun io => io.1.finalized)) := by
  have perm := (entries_perm blueprint funding rewardAddress interest reserve).filterMap Entry.spent
  have scripts : (blueprint.scriptIo.map Entry.ofIo).filterMap Entry.spent =
      blueprint.scriptIo.map (fun io => io.1.finalized) := by
    rw [List.filterMap_map,← List.filterMap_eq_map]
    rfl
  have operator : (Entry.operator (some funding) (fundingOutput funding interest reserve) ::
      rewardEntries (rewardOutput rewardAddress interest)).filterMap Entry.spent = [funding] := by
    simp [Entry.spent,rewardEntries]
  rw [List.filterMap_append,scripts,operator] at perm
  exact perm.trans List.perm_append_comm

theorem references_distinct (spendable : Spendable takes blueprint funding) :
    ((entries blueprint funding rewardAddress interest reserve).filterMap Entry.reference).Nodup := by
  have perm := (inputs_perm blueprint funding rewardAddress interest reserve).map FinalizedTxOut.reference
  rw [List.map_filterMap,List.map_cons,List.map_map] at perm
  exact perm.nodup_iff.mpr (List.nodup_cons.mpr ⟨spendable.apart,spendable.distinct⟩)

theorem alephBatch_eq (spendable : Spendable takes blueprint funding) (rewardAddress : Bytes) (interest reserve : UInt64) :
    ∃ witness : DeployedValidatorErased,
      blueprint.alephBatch (TxBlueprint.inputsOrdering (entries blueprint funding rewardAddress interest reserve)) =
        some (some (witness.hash,(sortBy AccountTake.reference takes).map AccountTake.intention,validatorCost witness takes.length)) := by
  obtain ⟨witness,held⟩ := spendable.batch_eq
  have spent : ∀ take ∈ takes,
      take.reference ∈ (entries blueprint funding rewardAddress interest reserve).filterMap Entry.reference := by
    intro take member
    have io : take.io ∈ blueprint.scriptIo := spendable.assembled.taken.subset (List.mem_map_of_mem member)
    exact List.mem_filterMap.mpr ⟨Entry.ofIo take.io,mem_entries.mpr (.inl ⟨take.io,io,rfl⟩),rfl⟩
  have sorted := sortIntentions_eq spendable.references_distinct spendable.takes_distinct spent
  refine ⟨witness,?_⟩
  simp only [TxBlueprint.alephBatch,held,sorted,Option.map_some,List.map_map,List.length_map,(Sorting.sortBy_perm _ _).length_eq]
  rfl

def projected (takes : List (AccountTake D)) (blueprint : TxBlueprint D) (funding : FinalizedTxOut (TransactionOutput D))
    (witness : DeployedValidatorErased) (rewardAddress : Bytes) (interest reserve : UInt64) : TransactionBuilder D :=
  let added := entries blueprint funding rewardAddress interest reserve
  (TransactionBuilder.start (blueprint.requiredSigners added)
    (some (witness.hash,(sortBy AccountTake.reference takes).map AccountTake.intention,validatorCost witness takes.length))).with
      (TxBlueprint.inputsOrdering added) added

theorem project_iff (spendable : Spendable takes blueprint funding) (rules : BuilderRules D) (rewardAddress : Bytes)
    (interest reserve : UInt64) : ∃ witness : DeployedValidatorErased,∀ txb fundingIo,
    blueprint.projectOntoBuilder rules rewardAddress funding interest reserve = some (txb,fundingIo) ↔
      (∀ entry ∈ entries blueprint funding rewardAddress interest reserve,
        entry.Accepted rules (TxBlueprint.inputsOrdering (entries blueprint funding rewardAddress interest reserve))) ∧
        txb = projected takes blueprint funding witness rewardAddress interest reserve ∧
        fundingIo = .replaced funding (fundingOutput funding interest reserve) := by
  obtain ⟨witness,batch⟩ := spendable.alephBatch_eq rewardAddress interest reserve
  refine ⟨witness,fun txb fundingIo => ?_⟩
  have force : blueprint.forcesOperatorFundingInput = true := spendable.witnessed
  have laid : blueprint.allIo (.operator (some funding) (fundingOutput funding interest reserve) ::
      rewardEntries (rewardOutput rewardAddress interest)) = entries blueprint funding rewardAddress interest reserve :=
    allIo_layout spendable.witnessed spendable.distinct spendable.apart _ _
  rw [projectOntoBuilder_iff,force,operatorIo_forced]
  simp only [laid,batch,Option.some.injEq,exists_eq_left',projected]

section Places
variable {txb : TransactionBuilder D} {io : ScriptInputBlueprint D × TransactionOutput D}

theorem placed (spendable : Spendable takes blueprint funding)
    (inputs : txb.inputs = (entries blueprint funding rewardAddress interest reserve).filterMap Entry.spent)
    (member : io ∈ blueprint.scriptIo) : ∃ index,txb.ledgerInputs[index]? = some io.1.finalized ∧
      (TxBlueprint.inputsOrdering (entries blueprint funding rewardAddress interest reserve)).indexOf io.1.reference = some index := by
  have spent : io.1.finalized ∈ txb.ledgerInputs := by
    rw [TransactionBuilder.ledgerInputs,(Sorting.sortBy_perm _ _).mem_iff,inputs]
    exact List.mem_filterMap.mpr ⟨Entry.ofIo io,mem_entries.mpr (.inl ⟨io,member,rfl⟩),rfl⟩
  obtain ⟨index,at_index⟩ := List.mem_iff_getElem?.mp spent
  refine ⟨index,at_index,(indexOf_iff spendable.references_distinct).mpr ?_⟩
  rw [← ledgerInputs_refs inputs,List.getElem?_map,at_index]
  rfl

theorem ledger_accounts (spendable : Spendable takes blueprint funding)
    (inputs : txb.inputs = (entries blueprint funding rewardAddress interest reserve).filterMap Entry.spent) :
    txb.ledgerInputs.filter (fun spent => spent.reference ∈ blueprint.accountScriptRefs) =
      (sortBy AccountTake.reference takes).map AccountTake.finalized := by
  have outside : funding.reference ∉ blueprint.accountScriptRefs := by
    intro account
    obtain ⟨take,member,same⟩ := List.mem_map.mp ((spendable.assembled.accountRefs _).mp account)
    have io := spendable.assembled.taken.subset (List.mem_map_of_mem member)
    exact spendable.apart (same ▸ List.mem_map_of_mem io)
  have perm : (txb.ledgerInputs.filter (fun spent => spent.reference ∈ blueprint.accountScriptRefs)).Perm
      (takes.map AccountTake.finalized) := by
    have sorted : txb.ledgerInputs.Perm txb.inputs := Sorting.sortBy_perm _ _
    rw [inputs] at sorted
    have kept := (sorted.trans (inputs_perm _ _ _ _ _)).filter (fun spent => spent.reference ∈ blueprint.accountScriptRefs)
    rw [List.filter_cons_of_neg (by simp [outside]),List.filter_map] at kept
    have accounts : blueprint.accountIo.map (fun io => io.1.finalized) = takes.map AccountTake.finalized := by
      rw [spendable.assembled.accountIo spendable.distinct,List.map_map]
      rfl
    rw [← accounts]
    exact kept
  have sorted := (Sorting.sortBy_sorted FinalizedTxOut.reference txb.inputs).filter
    (fun spent => spent.reference ∈ blueprint.accountScriptRefs)
  have apart : ∀ a ∈ takes.map AccountTake.finalized,
      ∀ b ∈ takes.map AccountTake.finalized,
        a.reference = b.reference → a = b := by
    intro a insideA b insideB same
    obtain ⟨takeA,memberA,rfl⟩ := List.mem_map.mp insideA
    obtain ⟨takeB,memberB,rfl⟩ := List.mem_map.mp insideB
    rw [List.inj_on_of_nodup_map spendable.takes_distinct memberA memberB same]
  rw [← Sorting.sortBy_eq perm sorted apart]
  exact (Sorting.sortBy_map FinalizedTxOut.reference AccountTake.finalized takes).symm

end Places


theorem outputs_perm (blueprint : TxBlueprint D) (funding : FinalizedTxOut (TransactionOutput D)) (rewardAddress : Bytes)
    (interest reserve : UInt64) : ((entries blueprint funding rewardAddress interest reserve).map Entry.output).Perm
      (fundingOutput funding interest reserve :: (rewardOutput rewardAddress interest).toList ++ blueprint.scriptIo.map Prod.snd) := by
  have perm := (entries_perm blueprint funding rewardAddress interest reserve).map Entry.output
  have scripts : (blueprint.scriptIo.map Entry.ofIo).map Entry.output = blueprint.scriptIo.map Prod.snd := by
    rw [List.map_map]
    rfl
  have rewards : (rewardEntries (rewardOutput rewardAddress interest)).map Entry.output =
      ((rewardOutput rewardAddress interest).toList : List (TransactionOutput D)) := by
    rw [rewardEntries,List.map_map]
    exact List.map_id _
  rw [List.map_append,scripts,List.map_cons,rewards] at perm
  exact perm.trans List.perm_append_comm

theorem mem_charged {ordering : TxInputsOrdering} {index : Nat} {units : ExUnits}
    (charged : (index,units) ∈ (entries blueprint funding rewardAddress interest reserve).filterMap (Entry.charged ordering)) :
    ∃ io ∈ blueprint.scriptIo,ordering.indexOf io.1.reference = some index ∧ units = io.1.script.cost index := by
  obtain ⟨entry,member,charge⟩ := List.mem_filterMap.mp charged
  rcases mem_entries.mp member with ⟨io,inside,rfl⟩ | rfl | ⟨reward,_,rfl⟩
  · obtain ⟨place,found,same⟩ := Option.map_eq_some_iff.mp charge
    grind
  · cases charge
  · cases charge

theorem mem_redeemed (spendable : Spendable takes blueprint funding) {ordering : TxInputsOrdering}
    {io : ScriptInputBlueprint D × TransactionOutput D} {redeemer : Redeemer D} (member : io ∈ blueprint.scriptIo) :
    (io.1.reference,redeemer) ∈ (entries blueprint funding rewardAddress interest reserve).filterMap (Entry.redeemed ordering) ↔
      io.1.redeemer ordering = some redeemer := by
  constructor
  · intro redeemed
    obtain ⟨entry,inside,redeems⟩ := List.mem_filterMap.mp redeemed
    rcases mem_entries.mp inside with ⟨other,listed,rfl⟩ | rfl | ⟨reward,_,rfl⟩
    · obtain ⟨answer,answered,same⟩ := Option.map_eq_some_iff.mp redeems
      obtain ⟨reference,rfl⟩ := Prod.mk.inj same
      have one : other = io := List.inj_on_of_nodup_map spendable.distinct listed member reference
      exact one ▸ answered
    · cases redeems
    · cases redeems
  · intro answered
    refine List.mem_filterMap.mpr ⟨Entry.ofIo io,mem_entries.mpr (.inl ⟨io,member,rfl⟩),?_⟩
    change (io.1.redeemer ordering).map _ = _
    rw [answered]
    rfl

theorem positioned (spendable : Spendable takes blueprint funding) (witness : DeployedValidatorErased)
    (rewardAddress : Bytes) (interest reserve : UInt64) :
    Positioned blueprint takes (sortBy AccountTake.reference takes) funding (fundingOutput funding interest reserve)
      (rewardOutput rewardAddress interest).toList (projected takes blueprint funding witness rewardAddress interest reserve) := by
  have inputs : (projected takes blueprint funding witness rewardAddress interest reserve).inputs =
      (entries blueprint funding rewardAddress interest reserve).filterMap Entry.spent := List.nil_append _
  constructor
  case rows_perm => exact Sorting.sortBy_perm _ _
  case ledger_sorted =>
    rw [ledgerInputs_refs inputs]
    exact spentRefs_sorted spendable.references_distinct
  case accounts => exact spendable.ledger_accounts inputs
  case intentions => rfl
  case account_outputs =>
    refine ⟨((sortBy rowKey blueprint.otherIo).map Entry.ofIo ++ rewardEntries (rewardOutput rewardAddress interest)).map Entry.output,?_⟩
    change _ = [] ++ (entries blueprint funding rewardAddress interest reserve).map Entry.output
    simp only [entries,TxBlueprint.layout,spendable.accountIo_sorted,List.map_append,List.map_cons,List.map_map,List.nil_append,
      List.append_assoc]
    rfl
  case inputs_perm => exact (Sorting.sortBy_perm _ _).trans (inputs_perm blueprint funding rewardAddress interest reserve)
  case outputs_perm => exact outputs_perm blueprint funding rewardAddress interest reserve
  case spend =>
    intro io member
    obtain ⟨index,at_index,found⟩ := spendable.placed inputs member
    refine ⟨index,at_index,?_,?_⟩
    · refine List.mem_filterMap.mpr ⟨Entry.ofIo io,mem_entries.mpr (.inl ⟨io,member,rfl⟩),?_⟩
      change Option.map _ (TxInputsOrdering.indexOf _ io.1.reference) = _
      rw [found]
      rfl
    · intro pool redeemer
      refine (spendable.mem_redeemed member).trans ?_
      rw [pool,poolRedeemer,found,Option.map_some,Option.some.injEq,eq_comm]
  case exUnits =>
    intro index units charged
    obtain ⟨io,member,found,rfl⟩ := mem_charged charged
    obtain ⟨place,at_place,same⟩ := spendable.placed inputs member
    grind

end Spendable

-- The inputs and outputs the builder takes. A redeemer is computed from the
-- positions of the inputs, its own among them.
@[grind cases eager] structure Buildable (rules : BuilderRules D) (blueprint : TxBlueprint D) (funding : FinalizedTxOut (TransactionOutput D))
    (operator : List (TransactionOutput D)) : Prop where
  scripts : ∀ io ∈ blueprint.scriptIo,rules.scriptInput io.1.script.hash io.1.utxo = true ∧ rules.output io.2 = true
  redeemers : ∀ io ∈ blueprint.scriptIo,∀ ordering : TxInputsOrdering,
    (ordering.indexOf io.1.reference).isSome = true → (io.1.redeemer ordering).isSome = true
  funding : rules.keyInput funding.output = true
  operator : ∀ output ∈ operator,rules.output output = true

theorem batch_positions (rules : BuilderRules D) (rewardAddress : Bytes) (interest reserve : UInt64)
    (assembled : Assembled takes blueprint) (witnessed : blueprint.alephBatchWitness.isSome = true)
    (distinct : blueprint.references.Nodup) (apart : funding.reference ∉ blueprint.references) :
    (∀ txb fundingIo,blueprint.projectOntoBuilder rules rewardAddress funding interest reserve = some (txb,fundingIo) →
      ∃ rows produced rewards,fundingIo = .replaced funding produced ∧
        Positioned blueprint takes rows funding produced rewards txb) ∧
    (Buildable rules blueprint funding ((operatorIo true rewardAddress funding interest reserve).1.map Entry.output) →
      (blueprint.projectOntoBuilder rules rewardAddress funding interest reserve).isSome = true) := by
  have spendable : Spendable takes blueprint funding := ⟨assembled,witnessed,distinct,apart⟩
  obtain ⟨witness,projects⟩ := spendable.project_iff rules rewardAddress interest reserve
  constructor
  · intro txb fundingIo projected
    obtain ⟨_,rfl,rfl⟩ := (projects txb fundingIo).mp projected
    exact ⟨_,_,_,rfl,spendable.positioned _ _ _ _⟩
  · intro buildable
    rw [operatorIo_forced] at buildable
    have accepted : ∀ entry ∈ Spendable.entries blueprint funding rewardAddress interest reserve,
        entry.Accepted rules (TxBlueprint.inputsOrdering (Spendable.entries blueprint funding rewardAddress interest reserve)) := by
      intro entry member
      rcases Spendable.mem_entries.mp member with ⟨io,inside,rfl⟩ | rfl | ⟨reward,paid,rfl⟩
      · have place := (indexOf_iff spendable.references_distinct).mpr (List.getElem?_idxOf ((Sorting.sortBy_perm _ _).mem_iff.mpr
          (List.mem_filterMap.mpr ⟨Entry.ofIo io,member,rfl⟩)))
        have answers := Option.isSome_iff_exists.mpr ⟨_,place⟩
        obtain ⟨input,paid⟩ := buildable.scripts io inside
        exact ⟨buildable.redeemers io inside _ answers,answers,input,paid⟩
      · refine ⟨?_,buildable.operator _ List.mem_cons_self⟩
        intro consumed same
        cases same
        exact buildable.funding
      · refine ⟨fun consumed absent => (nomatch absent),buildable.operator _ (List.mem_cons_of_mem _ ?_)⟩
        exact List.mem_map.mpr ⟨.operator none reward,List.mem_map_of_mem (Option.mem_toList.mpr paid),rfl⟩
    exact Option.isSome_iff_exists.mpr ⟨_,(projects _ _).mpr ⟨accepted,rfl,rfl⟩⟩

end Projection

-- Two accounts around a pool, added against the order of their references.
def mixedRef (index : UInt64) : OutputRef := ⟨Mpf.emptyRoot,index⟩

def mixedSpend (index : UInt64) (redeemer : DelayedRedeemer Unit) : ScriptInputBlueprint Unit :=
  ⟨mixedRef index,⟨[],.lovelace 3000000,some ()⟩,⟨.filled 1,fun place => ⟨place,0⟩⟩,redeemer,[]⟩

def mixedTake (index : UInt64) : AccountTake Unit where
  spent := mixedSpend index (readyRedeemer (.account (.delegate 0)))
  output := ⟨[],.lovelace (2000000 + index),some ()⟩
  intention := ⟨⟨.current,0,index,.native,1,.native,1,0,.filled 2⟩,0,.path []⟩

def mixedWitness : DeployedValidatorErased := ⟨.filled 3,⟨0,0⟩,⟨0,0⟩⟩

def mixedBlueprint : TxBlueprint Unit where
  scriptIo := [(mixedTake 2).io,(mixedSpend 1 (poolRedeemer (mixedRef 1)),⟨[],.lovelace 4000000,some ()⟩),(mixedTake 0).io]
  accountScriptRefs := {mixedRef 0,mixedRef 2}
  alephBatchWitness := some (mixedWitness,[(mixedTake 2).authorized,(mixedTake 0).authorized])

def mixedFunding : FinalizedTxOut (TransactionOutput Unit) := ⟨⟨[],.lovelace 9000000,none⟩,mixedRef 3⟩

def mixedRules : BuilderRules Unit := ⟨fun _ _ => true,fun _ => true,fun _ => true⟩

theorem mixedBlueprint_assembled : Assembled [mixedTake 2,mixedTake 0] mixedBlueprint := by
  have first : Assembled [mixedTake 2] (⟨[(mixedTake 2).io],{mixedRef 2},some (mixedWitness,[(mixedTake 2).authorized])⟩ : TxBlueprint Unit) :=
    .take .new (rfl : TxBlueprint.addAlephBatchIntention _ mixedWitness _ _ = _)
  exact .take (.addIo first) (rfl : TxBlueprint.addAlephBatchIntention _ mixedWitness _ _ = _)

theorem batch_positions_mixed : ∃ txb fundingIo,
    mixedBlueprint.projectOntoBuilder mixedRules [] mixedFunding 1000 170000 = some (txb,fundingIo) ∧
    ∃ rows produced rewards,fundingIo = .replaced mixedFunding produced ∧
      Positioned mixedBlueprint [mixedTake 2,mixedTake 0] rows mixedFunding produced rewards txb := by
  obtain ⟨places,builds⟩ := batch_positions mixedRules [] 1000 170000 mixedBlueprint_assembled rfl
    (by decide : mixedBlueprint.references.Nodup) (by decide : mixedFunding.reference ∉ mixedBlueprint.references)
  have buildable : Buildable mixedRules mixedBlueprint mixedFunding
      ((operatorIo true [] mixedFunding 1000 170000).1.map Entry.output) := by
    refine ⟨fun _ _ => ⟨rfl,rfl⟩,?_,rfl,fun _ _ => rfl⟩
    intro io member ordering found
    simp only [mixedBlueprint,List.mem_cons,List.not_mem_nil,or_false] at member
    rcases member with rfl | rfl | rfl
    · rfl
    · exact Option.isSome_map.trans found
    · rfl
  obtain ⟨⟨txb,fundingIo⟩,projected⟩ := Option.isSome_iff_exists.mp (builds buildable)
  exact ⟨txb,fundingIo,projected,places txb fundingIo projected⟩

end GreenAgent.Tx
