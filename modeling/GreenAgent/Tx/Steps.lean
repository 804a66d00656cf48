import GreenAgent.Tx.Exec
import GreenAgent.Cardano.Quantity

namespace GreenAgent.Tx
open Mpf (Bytes Digest)
open Account (OutputRef AccountId AlephIntention AccountIndex AlephAccountUtxo Externals AssetClass PlanCall)
open Cardano (TransactionOutput)
open Green (GreenOrder)

-- An intention is stored under its own key.
def OwnKey : PlanCall → Prop
  | .sigInsert _ key intent => intent.intentKey = key
  | .pathUpdate key _ intent => intent.intentKey = key
  | .pathCompletion _ _ => True

theorem remainingAfterFill_key {intent updated : AlephIntention} (left : Green.remainingAfterFill intent consumed added = some updated) :
    updated.intentKey = intent.intentKey := by
  obtain ⟨remainder,_,left⟩ := Option.bind_eq_some_iff.mp left
  split at left
  · cases left
  · obtain ⟨product,_,left⟩ := Option.bind_eq_some_iff.mp left
    obtain ⟨fee,_,left⟩ := Option.bind_eq_some_iff.mp left
    obtain ⟨expected,_,left⟩ := Option.bind_eq_some_iff.mp left
    cases left
    rfl

-- Executing a take leaves the index alone or makes one call to a planner, from
-- the account's output.
inductive Planned (ext : Externals O) (a : AccountId) (r : OutputRef) (index : AccountIndex O) : AccountIndex O → Prop where
  | none : Planned ext a r index index
  | call (call : PlanCall) (own : OwnKey call) (ran : call.run ext index a r = .ok (next,root,n)) : Planned ext a r index next

theorem toOption_some {result : Except ε α} : result.toOption = some value ↔ result = .ok value := by
  cases result <;> simp [Except.toOption]

theorem authorise_planned {ext : Externals (TransactionOutput D)} {order : GreenOrder} {account : AlephAccountUtxo (TransactionOutput D)}
    {intent : AlephIntention} {amounts : TakeAmounts} {remainder : UInt64} {index next : AccountIndex (TransactionOutput D)}
    (authorised : authorise ext order account intent amounts remainder index = some (root,auth,next)) :
    Planned ext order.accountId account.outputRef index next := by
  unfold authorise at authorised
  split at authorised
  · obtain ⟨updated,left,authorised⟩ := Option.bind_eq_some_iff.mp authorised
    split at authorised
    · obtain ⟨⟨_,planned⟩,called,same⟩ := Option.bind_eq_some_iff.mp authorised
      cases same
      have ran : (PlanCall.sigInsert order.id intent.intentKey updated).run ext index order.accountId account.outputRef = .ok (next,planned.newRoot,planned.predictedSnapshotId) := by
        rw [PlanCall.run,toOption_some.mp called]
        rfl
      exact .call (.sigInsert order.id intent.intentKey updated) (remainingAfterFill_key left) ran
    · obtain ⟨⟨_,planned⟩,called,same⟩ := Option.bind_eq_some_iff.mp authorised
      cases same
      have ran : (PlanCall.pathUpdate intent.intentKey (intent.digest ext) updated).run ext index order.accountId account.outputRef = .ok (next,planned.newRoot,planned.predictedSnapshotId) := by
        rw [PlanCall.run,toOption_some.mp called]
        rfl
      exact .call (.pathUpdate intent.intentKey (intent.digest ext) updated) (remainingAfterFill_key left) ran
  · split at authorised
    · cases authorised
      exact .none
    · obtain ⟨⟨_,planned⟩,called,same⟩ := Option.bind_eq_some_iff.mp authorised
      cases same
      have ran : (PlanCall.pathCompletion intent.intentKey (intent.digest ext)).run ext index order.accountId account.outputRef = .ok (next,planned.root,planned.predictedSnapshotId) := by
        rw [PlanCall.run,toOption_some.mp called]
        rfl
      exact .call (.pathCompletion intent.intentKey (intent.digest ext)) trivial ran

section Runs
variable {D : Type} {ctx : ExecContext D}

-- A whole execution, with the rows it adds to the blueprint.
inductive Steps (ctx : ExecContext D) :
    List (Instruction D) → Progress D → List (ScriptInputBlueprint D × TransactionOutput D) → Progress D → Prop where
  | done : Steps ctx [] before [] before
  | take (took : Took ctx take amounts account row before middle) (rest : Steps ctx instructions middle rows after) :
      Steps ctx (.inl take :: instructions) before (row.io :: rows) after
  | make (made : Made make io before middle) (rest : Steps ctx instructions middle rows after) :
      Steps ctx (.inr make :: instructions) before (io :: rows) after

theorem execute_steps {instructions : List (Instruction D)} {before after : Progress D}
    (executed : instructions.foldlM (execInstruction ctx) before = some after) : ∃ rows,Steps ctx instructions before rows after := by
  induction instructions generalizing before with
  | nil =>
    cases executed
    exact ⟨[],.done⟩
  | cons instruction instructions ih =>
    obtain ⟨middle,first,rest⟩ := Option.bind_eq_some_iff.mp executed
    obtain ⟨rows,steps⟩ := ih rest
    cases instruction with
    | inl take =>
      obtain ⟨amounts,account,row,took⟩ := execInstruction_take first
      exact ⟨row.io :: rows,.take took steps⟩
    | inr make =>
      obtain ⟨io,made⟩ := execInstruction_make first
      exact ⟨io :: rows,.make made steps⟩

theorem Took.scriptIo {take : Take D} {row : AccountTake D} {before after : Progress D} (took : Took ctx take amounts account row before after) :
    after.state.txBlueprint.scriptIo = before.state.txBlueprint.scriptIo ++ [row.io] := by
  obtain ⟨existing,same⟩ := TxBlueprint.addAlephBatchIntention_some took.blueprint
  rw [same]
  rfl

namespace Steps
variable {instructions : List (Instruction D)} {before after : Progress D} {rows : List (ScriptInputBlueprint D × TransactionOutput D)}

theorem scriptIo (steps : Steps ctx instructions before rows after) :
    after.state.txBlueprint.scriptIo = before.state.txBlueprint.scriptIo ++ rows := by
  induction steps with
  | done => exact (List.append_nil _).symm
  | take took _ ih =>
    rw [ih,took.scriptIo,List.append_assoc]
    rfl
  | make made _ ih =>
    rw [ih,made.state]
    exact List.append_assoc _ _ _

end Steps

def EffectPreview.order : EffectPreview D → Option GreenOrder
  | .eliminated consumed => consumed.entity.getLeft?
  | .updated consumed _ => consumed.entity.getLeft?

-- The inputs and outputs of an account: those whose effect is on an order of it.
def Progress.rowsOf (progress : Progress D) (a : AccountId) : List (ScriptInputBlueprint D × TransactionOutput D) :=
  (progress.effects.zip progress.state.txBlueprint.scriptIo).filterMap
    (fun entry => if entry.1.order.map GreenOrder.accountId = some a then some entry.2 else none)

def takeOf (a : AccountId) : Instruction D → Option (Take D)
  | .inl take => if take.target.entity.accountId = a then some take else none
  | .inr _ => none

def takesOf (a : AccountId) (instructions : List (Instruction D)) : List (Take D) := instructions.filterMap (takeOf a)

theorem takesOf_mine {take : Take D} (mine : take.target.entity.accountId = a) (instructions : List (Instruction D)) :
    takesOf a (.inl take :: instructions) = take :: takesOf a instructions := by
  simp [takesOf,takeOf,mine]

theorem takesOf_other {take : Take D} (other : take.target.entity.accountId ≠ a) (instructions : List (Instruction D)) :
    takesOf a (.inl take :: instructions) = takesOf a instructions := by
  simp [takesOf,takeOf,other]

def RowOf (ctx : ExecContext D) (take : Take D) (io : ScriptInputBlueprint D × TransactionOutput D) : Prop :=
  ∃ amounts account row before after,Took ctx take amounts account row before after ∧ row.io = io

-- As many effects as rows.
def Progress.Even (progress : Progress D) : Prop := progress.effects.length = progress.state.txBlueprint.scriptIo.length

section Accounts
variable {before after : Progress D}

theorem Progress.rowsOf_append (a : AccountId) {effect : EffectPreview D} {io : ScriptInputBlueprint D × TransactionOutput D} (even : before.Even)
    (effects : after.effects = before.effects ++ [effect])
    (scripts : after.state.txBlueprint.scriptIo = before.state.txBlueprint.scriptIo ++ [io]) :
    after.Even ∧ after.rowsOf a = before.rowsOf a ++ if effect.order.map GreenOrder.accountId = some a then [io] else [] := by
  constructor
  · rw [Progress.Even,effects,scripts,List.length_append,List.length_append,even]
    rfl
  · rw [Progress.rowsOf,effects,scripts,List.zip_append even,List.filterMap_append]
    congr 1
    grind

theorem Steps.rowsOf {instructions : List (Instruction D)} {rows : List (ScriptInputBlueprint D × TransactionOutput D)}
    (steps : Steps ctx instructions before rows after) (even : before.Even) (a : AccountId) :
    ∃ own,after.rowsOf a = before.rowsOf a ++ own ∧ List.Forall₂ (RowOf ctx) (takesOf a instructions) own := by
  induction steps with
  | done => exact ⟨[],(List.append_nil _).symm,.nil⟩
  | @take take amounts account row before middle instructions rows after took rest ih =>
    obtain ⟨level,first⟩ := Progress.rowsOf_append a even took.effects took.scriptIo
    obtain ⟨own,later,each⟩ := ih level
    have order : (EffectPreview.eliminated ⟨.inl take.target.entity,account.finalizedOutput⟩ : EffectPreview D).order.map GreenOrder.accountId =
      some take.target.entity.accountId := rfl
    rw [order] at first
    by_cases mine : take.target.entity.accountId = a
    · rw [if_pos (congrArg some mine)] at first
      refine ⟨row.io :: own,by rw [later,first,List.append_assoc]; rfl,?_⟩
      rw [takesOf_mine mine]
      exact .cons ⟨amounts,account,row,before,middle,took,rfl⟩ each
    · rw [if_neg (fun same => mine (Option.some.inj same)),List.append_nil] at first
      refine ⟨own,by rw [later,first],?_⟩
      rw [takesOf_other mine]
      exact each
  | @make make io before middle instructions rows after made rest ih =>
    obtain ⟨produced,effects⟩ := made.effects
    have scripts : middle.state.txBlueprint.scriptIo = before.state.txBlueprint.scriptIo ++ [io] := by
      rw [made.state]
      rfl
    obtain ⟨level,first⟩ := Progress.rowsOf_append a even effects scripts
    obtain ⟨own,later,each⟩ := ih level
    refine ⟨own,?_,each⟩
    rw [later,first]
    exact congrArg (· ++ own) (List.append_nil _)

end Accounts
end Runs
end GreenAgent.Tx
