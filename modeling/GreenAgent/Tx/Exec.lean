import GreenAgent.Tx.Position
import GreenAgent.Account.Encoding
import GreenAgent.Account.Planning
import GreenAgent.Pools.Royalty
import GreenAgent.Engine.Executor

namespace GreenAgent.Account

-- `None` when the nonce of the slot does not allow the value. A legacy account
-- has one slot and counts by one.
def AlephAccountState.withSigFullFillNonce (state : AlephAccountState) (targetNonceIndex : UInt16) (targetNonceValue : UInt64) :
    Option AlephAccountState :=
  match state.abi with
  | .legacy =>
    if targetNonceIndex ≠ 0 then none
    else state.nonce[0]?.bind (fun nonce =>
      if nonce ≠ targetNonceValue.toInt64 ∨ nonce = Int64.maxValue then none
      else some {state with nonce:=state.nonce.set 0 (nonce + 1)})
  | .current => state.nonce[targetNonceIndex.toNat]?.bind (fun nonce =>
      if targetNonceValue.toInt64 < nonce then none
      else some {state with nonce:=state.nonce.set targetNonceIndex.toNat targetNonceValue.toInt64})

end GreenAgent.Account

namespace GreenAgent.Tx
open Mpf (Bytes Digest ProofStep)
open Account (OutputRef Hash28 FinalizedTxOut AlephIntention AccountIndex AlephAccountState AlephAccountUtxo Externals AssetClass)
open Cardano (TransactionOutput Datums)
open Green (GreenAuth GreenOrder remainingAfterFill)
open Pools (RoyaltyPool)
open Engine (Bundled Execution)
open Book (Trans Next Side TerminalTake TakeInProgress MakeInProgress MarketTaker MarketMaker AbsoluteReserves)

structure ExecutionState (D : Type) where
  txBlueprint : TxBlueprint D
  reservedTxFee : UInt64
  operatorInterest : UInt64

def ExecutionState.new : ExecutionState D := ⟨.new,0,0⟩

-- What the execution of a recipe is given besides the index of accounts.
-- `poolDatum` writes the state of a pool into the datum of its output.
structure ExecContext (D : Type) where
  datums : Datums D
  blake2b256 : Bytes → Digest
  proofToCbor : List ProofStep → Bytes
  operator : Hash28
  allowGreenPartial : Bool
  accountValidator : DeployedValidatorErased
  batchWitness : DeployedValidatorErased
  poolValidator : RoyaltyPool → DeployedValidatorErased
  poolDatum : RoyaltyPool → D → Option D

def ExecContext.externals (ctx : ExecContext D) : Externals (TransactionOutput D) :=
  ctx.datums.externals ctx.blake2b256 ctx.proofToCbor

abbrev Bearer (D : Type) := FinalizedTxOut (TransactionOutput D)
abbrev Take (D : Type) := Trans (Bundled GreenOrder (Bearer D)) GreenOrder TerminalTake
abbrev Make (D : Type) := Trans (Bundled RoyaltyPool (Bearer D)) RoyaltyPool Empty
abbrev Instruction (D : Type) := Execution GreenOrder RoyaltyPool (Bearer D)

inductive EffectPreview (D : Type) where
  | updated (consumed : Bundled (GreenOrder ⊕ RoyaltyPool) (Bearer D)) (produced : Bundled (GreenOrder ⊕ RoyaltyPool) (TransactionOutput D))
  | eliminated (consumed : Bundled (GreenOrder ⊕ RoyaltyPool) (Bearer D))

structure TakeAmounts where
  removedInput : UInt64
  addedOutput : UInt64
  consumedFee : UInt64
  consumedBudget : UInt64

def remainingBudget (take : TakeInProgress GreenOrder) : Nat :=
  match take.result with
  | .succ next => MarketTaker.budget next
  | .term term => term.remainingBudget

-- Input, fee and budget cannot increase, output cannot decrease.
def takeAmounts (take : TakeInProgress GreenOrder) : Option TakeAmounts :=
  if take.remainingInput ≤ MarketTaker.input take.target ∧ MarketTaker.output take.target ≤ take.accumulatedOutput ∧
      take.remainingFee ≤ MarketTaker.fee take.target ∧ remainingBudget take ≤ MarketTaker.budget take.target then
    some ⟨.ofNat take.removedInput,.ofNat take.addedOutput,.ofNat take.consumedFee,
      .ofNat (MarketTaker.budget take.target - remainingBudget take)⟩
  else none

def leavingRemainder (take : TakeInProgress GreenOrder) : UInt64 :=
  match take.result with
  | .term _ => 0
  | .succ next => next.currentRemainder

-- The checks before the account is looked up.
@[grind cases eager] structure Executable (ctx : ExecContext D) (order : GreenOrder) (amounts : TakeAmounts) (remainder : UInt64) : Prop where
  budget : amounts.consumedBudget = 0
  ada : order.intention.inputAsset = .native
  operator : order.intention.operatorKeyHash = ctx.operator
  bounded : amounts.removedInput ≤ order.intention.leavingAmount
  filled : remainder = 0 → order.intention.expectedArrivingAmount ≤ amounts.addedOutput
  policy : 0 < remainder → ctx.allowGreenPartial = true

instance (ctx : ExecContext D) (order : GreenOrder) (amounts : TakeAmounts) (remainder : UInt64) :
    Decidable (Executable ctx order amounts remainder) :=
  decidable_of_iff (amounts.consumedBudget = 0 ∧ order.intention.inputAsset = .native ∧ order.intention.operatorKeyHash = ctx.operator ∧
      amounts.removedInput ≤ order.intention.leavingAmount ∧
      (remainder = 0 → order.intention.expectedArrivingAmount ≤ amounts.addedOutput) ∧ (0 < remainder → ctx.allowGreenPartial = true))
    ⟨fun ⟨a,b,c,d,e,f⟩ => ⟨a,b,c,d,e,f⟩,fun ⟨a,b,c,d,e,f⟩ => ⟨a,b,c,d,e,f⟩⟩

def delegateIndex (allowlist : List Hash28) (witnessHash : Hash28) : Option Nat := allowlist.findIdx? (fun hash => decide (hash = witnessHash))

-- The store root the account ends with and the proof its intention is sent
-- with. A full fill with a signature leaves the store alone.
def authorise (ext : Externals (TransactionOutput D)) (order : GreenOrder) (account : AlephAccountUtxo (TransactionOutput D))
    (intent : AlephIntention) (amounts : TakeAmounts) (remainder : UInt64) (index : AccountIndex (TransactionOutput D)) :
    Option (Digest × GreenAuth × AccountIndex (TransactionOutput D)) :=
  if 0 < remainder then do
    let updated ← remainingAfterFill intent amounts.removedInput amounts.addedOutput
    match order.auth with
    | .sig prefixBytes postfixBytes signature _ => do
      let (index,planned) ← (index.planSigInsert ext order.accountId account.outputRef order.id intent.intentKey updated).toOption
      some (planned.newRoot,.sig prefixBytes postfixBytes signature planned.proof,index)
    | .path _ => do
      let (index,planned) ← (index.planPathUpdate ext order.accountId account.outputRef intent.intentKey (intent.digest ext) updated).toOption
      some (planned.newRoot,.path planned.proof,index)
  else match order.auth with
    | .sig .. => some (account.state.storeRoot,order.auth,index)
    | .path _ => do
      let (index,planned) ← (index.planPathCompletion ext order.accountId account.outputRef intent.intentKey (intent.digest ext)).toOption
      some (planned.root,.path planned.proof,index)

-- `removed_input + consumed_fee` wraps around.
def applyFullFillToAccountOutput (output : TransactionOutput D) (order : GreenOrder) (amounts : TakeAmounts) : Option (TransactionOutput D) := do
  let output ← output.subAsset .native (amounts.removedInput + amounts.consumedFee)
  if order.intention.outputAsset = .native then
    output.addAsset .native (← U64.checkedSub amounts.addedOutput amounts.consumedFee)
  else output.addAsset order.intention.outputAsset amounts.addedOutput

-- The account after its nonce is used. Orders that go on from the store have
-- used it before.
def signedState (order : GreenOrder) (state : AlephAccountState) : Option AlephAccountState :=
  match order.auth with
  | .sig .. => state.withSigFullFillNonce order.intention.targetNonceSlot order.intention.targetNonceValue
  | .path _ => some state

def accountAction (ctx : ExecContext D) (state : AlephAccountState) : Option AlephAccountAction :=
  match state.abi with
  | .current => (delegateIndex state.allowlist ctx.batchWitness.hash).map .delegate
  | .legacy => some .direct

-- The input of the account, the output that replaces it, and its intention for
-- the batch.
def accountRow (ctx : ExecContext D) (account : AlephAccountUtxo (TransactionOutput D)) (action : AlephAccountAction)
    (next : AlephAccountState) (output : TransactionOutput D) (authorized : AlephAuthorizedIntention) : AccountTake D where
  spent := ⟨account.outputRef,account.output,⟨ctx.accountValidator.hash,validatorCost ctx.accountValidator⟩,
    readyRedeemer (.account action),[ctx.operator]⟩
  output := {output with datum:=some (ctx.datums.intoPd next)}
  intention := authorized

namespace Take

def inProgress (take : Take D) : TakeInProgress GreenOrder := ⟨take.target.entity,take.result⟩

-- The part of `exec` that works on the account.
def spend (ctx : ExecContext D) (take : Take D) (amounts : TakeAmounts) (account : AlephAccountUtxo (TransactionOutput D))
    (state : ExecutionState D) (index : AccountIndex (TransactionOutput D)) :
    Option (ExecutionState D × EffectPreview D × AccountIndex (TransactionOutput D)) := do
  let order := take.target.entity
  let remainder := leavingRemainder take.inProgress
  let intent := {order.alephIntention with abi:=account.state.abi}
  let signed ← signedState order account.state
  let action ← accountAction ctx account.state
  let (storeRoot,auth,index) ← authorise ctx.externals order account intent amounts remainder index
  let output ← applyFullFillToAccountOutput account.output order amounts
  let _ ← output.datum
  let row := accountRow ctx account action {signed with storeRoot:=storeRoot} output ⟨intent,remainder,auth⟩
  let blueprint ← (state.txBlueprint.addAccountIo row.spent row.output).addAlephBatchIntention ctx.batchWitness account.outputRef row.intention
  some (⟨blueprint,state.reservedTxFee + amounts.consumedBudget,state.operatorInterest + amounts.consumedFee⟩,
    .eliminated ⟨.inl order,account.finalizedOutput⟩,index)

def exec (ctx : ExecContext D) (take : Take D) (state : ExecutionState D) (index : AccountIndex (TransactionOutput D)) :
    Option (ExecutionState D × EffectPreview D × AccountIndex (TransactionOutput D)) := do
  let amounts ← takeAmounts take.inProgress
  if Executable ctx take.target.entity amounts (leavingRemainder take.inProgress) then
    let bearer ← index.currentOrPendingBase take.target.entity.accountId
    let account ← AlephAccountUtxo.tryParse ctx.externals bearer.reference bearer.output
    take.spend ctx amounts account state index
  else none

end Take

-- The asset to deduct from and the one to add to.
def assetMapping (pool : RoyaltyPool) : Side → AssetClass × AssetClass
  | .bid => if pool.base = pool.assetX then (pool.assetX,pool.assetY) else (pool.assetY,pool.assetX)
  | .ask => if pool.base = pool.assetX then (pool.assetY,pool.assetX) else (pool.assetX,pool.assetY)

-- An output without a datum stays without one.
def poolDatumAfter (ctx : ExecContext D) (pool : RoyaltyPool) : Option D → Option (Option D)
  | some data => (ctx.poolDatum pool data).map some
  | none => some none

namespace Make

def successor (make : Make D) : RoyaltyPool :=
  match make.result with
  | .succ next => next
  | .term void => void.elim

def tradeSide (make : Make D) : Option Side :=
  let next := make.successor.reserves
  let init := make.target.entity.reserves
  if next.base < init.base ∧ init.quote < next.quote then some .bid
  else if init.base < next.base ∧ next.quote < init.quote then some .ask
  else none

def loss (make : Make D) : Option Nat :=
  let next := make.successor.reserves
  let init := make.target.entity.reserves
  (Book.checkedSub init.base next.base).or (Book.checkedSub init.quote next.quote)

def gain (make : Make D) : Option Nat :=
  let next := make.successor.reserves
  let init := make.target.entity.reserves
  (Book.checkedSub next.base init.base).or (Book.checkedSub next.quote init.quote)

def exec (ctx : ExecContext D) (make : Make D) (state : ExecutionState D) : Option (ExecutionState D × EffectPreview D) := do
  let pool := make.target.entity
  let consumed := make.target.bearer
  let side ← make.tradeSide
  let removedLiquidity ← make.loss
  let addedLiquidity ← make.gain
  let produced ← consumed.output.subAsset (assetMapping pool side).1 (.ofNat removedLiquidity)
  let produced ← produced.addAsset (assetMapping pool side).2 (.ofNat addedLiquidity)
  let datum ← poolDatumAfter ctx make.successor produced.datum
  let produced := {produced with datum:=datum}
  let validator := ctx.poolValidator pool
  let spent : ScriptInputBlueprint D :=
    ⟨consumed.reference,consumed.output,⟨validator.hash,validatorCost validator⟩,poolRedeemer consumed.reference,[]⟩
  some ({state with txBlueprint:=state.txBlueprint.addIo spent produced},.updated ⟨.inr pool,consumed⟩ ⟨.inr make.successor,produced⟩)

end Make

-- The state of an execution: what is built, the effects so far, and the index
-- that the planners change.
structure Progress (D : Type) where
  state : ExecutionState D
  effects : List (EffectPreview D)
  index : AccountIndex (TransactionOutput D)

def execInstruction (ctx : ExecContext D) (progress : Progress D) : Instruction D → Option (Progress D)
  | .inl take => do
    let (state,effect,index) ← Take.exec ctx take progress.state progress.index
    some ⟨state,progress.effects ++ [effect],index⟩
  | .inr make => do
    let (state,effect) ← Make.exec ctx make progress.state
    some {progress with state:=state,effects:=progress.effects ++ [effect]}

def execute (ctx : ExecContext D) (instructions : List (Instruction D)) (index : AccountIndex (TransactionOutput D)) : Option (Progress D) :=
  instructions.foldlM (execInstruction ctx) ⟨.new,[],index⟩

section Steps
variable {D : Type} {ctx : ExecContext D}

-- What a take that is executed leaves: a row of the blueprint for the account
-- that the index gives for the order.
@[grind cases eager] structure Took (ctx : ExecContext D) (take : Take D) (amounts : TakeAmounts) (account : AlephAccountUtxo (TransactionOutput D))
    (row : AccountTake D) (before after : Progress D) : Prop where
  measured : takeAmounts take.inProgress = some amounts
  executable : Executable ctx take.target.entity amounts (leavingRemainder take.inProgress)
  base : before.index.currentOrPendingBase take.target.entity.accountId = some account.finalizedOutput
  parsed : ctx.externals.accountState account.output = some account.state
  authorised : ∃ root, authorise ctx.externals take.target.entity account {take.target.entity.alephIntention with abi:=account.state.abi} amounts
    (leavingRemainder take.inProgress) before.index = some (root,row.intention.auth,after.index)
  spent : row.spent.finalized = account.finalizedOutput
  filled : ∃ output, applyFullFillToAccountOutput account.output take.target.entity amounts = some output ∧ row.output.value = output.value
  blueprint : (before.state.txBlueprint.addAccountIo row.spent row.output).addAlephBatchIntention ctx.batchWitness row.reference row.intention =
    some after.state.txBlueprint
  reserved : after.state.reservedTxFee = before.state.reservedTxFee
  interest : after.state.operatorInterest = before.state.operatorInterest + amounts.consumedFee
  effects : after.effects = before.effects ++ [.eliminated ⟨.inl take.target.entity,account.finalizedOutput⟩]

theorem execInstruction_take {take : Take D} {before after : Progress D} (done : execInstruction ctx before (.inl take) = some after) :
    ∃ amounts account row, Took ctx take amounts account row before after := by
  obtain ⟨⟨state,effect,index⟩,exec,same⟩ := Option.bind_eq_some_iff.mp done
  cases same
  obtain ⟨amounts,measured,exec⟩ := Option.bind_eq_some_iff.mp exec
  obtain ⟨executable,exec⟩ := Option.ite_none_right_eq_some.mp exec
  obtain ⟨bearer,base,exec⟩ := Option.bind_eq_some_iff.mp exec
  obtain ⟨account,parsed,exec⟩ := Option.bind_eq_some_iff.mp exec
  obtain ⟨state,read,rfl⟩ := Option.map_eq_some_iff.mp parsed
  obtain ⟨signed,_,exec⟩ := Option.bind_eq_some_iff.mp exec
  obtain ⟨action,_,exec⟩ := Option.bind_eq_some_iff.mp exec
  obtain ⟨⟨root,auth,planned⟩,authorised,exec⟩ := Option.bind_eq_some_iff.mp exec
  obtain ⟨output,filled,exec⟩ := Option.bind_eq_some_iff.mp exec
  obtain ⟨_,_,exec⟩ := Option.bind_eq_some_iff.mp exec
  obtain ⟨blueprint,added,exec⟩ := Option.bind_eq_some_iff.mp exec
  cases exec
  refine ⟨amounts,⟨bearer.reference,bearer.output,state⟩,accountRow ctx _ action {signed with storeRoot:=root} output ⟨_,_,auth⟩,measured,
    executable,base,read,⟨root,authorised⟩,rfl,⟨output,filled,rfl⟩,added,?_,rfl,rfl⟩
  grind

-- What a make leaves: a row for the output of its pool.
@[grind cases eager] structure Made (make : Make D) (io : ScriptInputBlueprint D × TransactionOutput D) (before after : Progress D) : Prop where
  spent : io.1.finalized = make.target.bearer
  redeemer : io.1.redeemer = poolRedeemer io.1.reference
  moved : ∃ side lost gained middle output,make.tradeSide = some side ∧ make.loss = some lost ∧ make.gain = some gained ∧
    make.target.bearer.output.subAsset (assetMapping make.target.entity side).1 (.ofNat lost) = some middle ∧
    middle.addAsset (assetMapping make.target.entity side).2 (.ofNat gained) = some output ∧ io.2.value = output.value
  state : after.state = {before.state with txBlueprint:=before.state.txBlueprint.addIo io.1 io.2}
  index : after.index = before.index
  effects : ∃ produced,after.effects = before.effects ++ [.updated ⟨.inr make.target.entity,make.target.bearer⟩ produced]

theorem execInstruction_make {make : Make D} {before after : Progress D} (done : execInstruction ctx before (.inr make) = some after) :
    ∃ io,Made make io before after := by
  obtain ⟨⟨state,effect⟩,exec,same⟩ := Option.bind_eq_some_iff.mp done
  cases same
  obtain ⟨side,sided,exec⟩ := Option.bind_eq_some_iff.mp exec
  obtain ⟨lost,loses,exec⟩ := Option.bind_eq_some_iff.mp exec
  obtain ⟨gained,gains,exec⟩ := Option.bind_eq_some_iff.mp exec
  obtain ⟨middle,taken,exec⟩ := Option.bind_eq_some_iff.mp exec
  obtain ⟨output,added,exec⟩ := Option.bind_eq_some_iff.mp exec
  obtain ⟨datum,_,exec⟩ := Option.bind_eq_some_iff.mp exec
  cases exec
  refine ⟨(⟨make.target.bearer.reference,make.target.bearer.output,_,_,_⟩,{output with datum:=datum}),rfl,?_,
    ⟨side,lost,gained,middle,output,sided,loses,gains,taken,added,rfl⟩,rfl,rfl,⟨_,rfl⟩⟩
  rfl

end Steps

end GreenAgent.Tx
