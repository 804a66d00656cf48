import GreenAgent.Lib.Loop
import GreenAgent.Tx.Exec

namespace GreenAgent.Tx
open Mpf (Bytes)
open Account (AccountIndex)
open Cardano (TransactionOutput)
open Green (GreenOrder)
open Pools (RoyaltyPool)
open Engine (Bundled Execution)
open Book (Trans Next TerminalTake MarketTaker TakerBehaviour)
open Loop (Turn)

-- How takes and makes are executed: `none` where the source panics.
structure BatchExec (T M D C F : Type) where
  take : Trans (Bundled T (Bearer D)) T TerminalTake → ExecutionState D → C → Option (ExecutionState D × F × C)
  make : Trans (Bundled M (Bearer D)) M Empty → ExecutionState D → C → Option (ExecutionState D × F × C)

namespace BatchExec
variable {T M D C F : Type}

def execInstruction (exec : BatchExec T M D C F) (progress : ExecutionState D × List F × C) (instruction : Execution T M (Bearer D)) :
    Option (ExecutionState D × List F × C) := do
  let (state,effect,ctx) ← match instruction with
    | .inl take => exec.take take progress.1 progress.2.2
    | .inr make => exec.make make progress.1 progress.2.2
  some (state,progress.2.1 ++ [effect],ctx)

def execute (exec : BatchExec T M D C F) (instructions : List (Execution T M (Bearer D))) (ctx : C) :
    Option (ExecutionState D × List F × C) :=
  instructions.foldlM exec.execInstruction (.new,[],ctx)

end BatchExec

section Budgets
variable {T M B U : Type} [MarketTaker T U] [TakerBehaviour T]

structure FeeRatio where
  numer : UInt64
  denom : UInt64

-- `Ratio::new` reduces the fraction. A zero denominator is a panic.
def FeeRatio.new (numer denom : UInt64) : Option FeeRatio :=
  if denom = 0 then none
  else
    let common := Nat.gcd numer.toNat denom.toNat
    some ⟨.ofNat (numer.toNat / common),.ofNat (denom.toNat / common)⟩

def budgetLeft : Next T TerminalTake → Nat
  | .succ next => MarketTaker.budget next
  | .term term => term.remainingBudget

-- A budget that increased is a panic.
def consumedBudget (take : Trans (Bundled T B) T TerminalTake) : Option Nat :=
  Book.checkedSub (MarketTaker.budget take.target.entity) (budgetLeft take.result)

def withBudgetCorrected (delta : Int64) : Next T TerminalTake → Int64 × Next T TerminalTake
  | .succ next =>
    let corrected := TakerBehaviour.withBudgetCorrected next delta.toInt
    (.ofInt corrected.1,.succ corrected.2)
  | .term term =>
    let corrected := term.withBudgetCorrected delta.toInt
    (.ofInt corrected.1,.term corrected.2)

def correctConsumedBudget (delta : Int64) (take : Trans (Bundled T B) T TerminalTake) : Int64 × Trans (Bundled T B) T TerminalTake :=
  let corrected := withBudgetCorrected (-delta) take.result
  (-corrected.1,{take with result:=corrected.2})

-- The product wraps around.
def scaleConsumedBudget (scale : FeeRatio) (take : Trans (Bundled T B) T TerminalTake) :
    Option (Int64 × Trans (Bundled T B) T TerminalTake) := do
  let consumed ← consumedBudget take
  let old : UInt64 := .ofNat consumed
  let new := old * scale.numer / scale.denom
  some (correctConsumedBudget (new.toInt64 - old.toInt64) take)

def scaleBudgets (scale : FeeRatio) : Int64 → List (Execution T M B) → Option (Int64 × List (Execution T M B))
  | mismatch,[] => some (mismatch,[])
  | mismatch,.inl take :: rest => do
    let (delta,take) ← scaleConsumedBudget scale take
    let (mismatch,rest) ← scaleBudgets scale (mismatch + delta) rest
    some (mismatch,.inl take :: rest)
  | mismatch,.inr make :: rest => do
    let (mismatch,rest) ← scaleBudgets scale mismatch rest
    some (mismatch,.inr make :: rest)

def correctBudgets : Int64 → List (Execution T M B) → List (Execution T M B)
  | _,[] => []
  | mismatch,.inl take :: rest =>
    if mismatch ≠ 0 then
      let corrected := correctConsumedBudget (-mismatch) take
      .inl corrected.2 :: correctBudgets (mismatch + corrected.1) rest
    else .inl take :: rest
  | mismatch,.inr make :: rest => .inr make :: correctBudgets mismatch rest

def balanceFee (mismatch : Int64) (scale : FeeRatio) (instructions : List (Execution T M B)) : Option (List (Execution T M B)) :=
  (scaleBudgets scale mismatch instructions).map (fun scaled => correctBudgets scaled.1 scaled.2)

structure FeeBalance where
  isTerminal : Bool
  consumed : Nat
  remaining : Nat
deriving DecidableEq

def takeBalance (take : Trans (Bundled T B) T TerminalTake) : Option FeeBalance :=
  (consumedBudget take).map (fun consumed => ⟨match take.result with | .succ _ => false | .term _ => true,consumed,budgetLeft take.result⟩)

def feeBalanceState (instructions : List (Execution T M B)) : Option (List FeeBalance) :=
  (instructions.filterMap Sum.getLeft?).mapM takeBalance

end Budgets

def additionalFee : UInt64 := 40000
def maxFeeCorrectionAttempts : UInt8 := 24

inductive FeeCorrection where
  | rebuildSameRecipe (takeResidualFee : Bool) (updatedAccumulatedResidue : UInt64)
  | rebuildRebalancedRecipe (takeResidualFee : Bool) (accumulatedResidue : UInt64)
  | complete

def unsignedAbs (value : Int64) : UInt64 := if value < 0 then (-value).toUInt64 else value.toUInt64

def decideFeeCorrection (takeResidualFee : Bool) (feeMismatch : Int64) (reservedTxFee accumulatedResidue : UInt64) : FeeCorrection :=
  if feeMismatch = 0 then .complete
  else if reservedTxFee = 0 then .complete
  else if takeResidualFee ∧ 0 < feeMismatch then .rebuildSameRecipe true (accumulatedResidue + unsignedAbs feeMismatch)
  else if feeMismatch < 0 ∧ 0 < accumulatedResidue then
    .rebuildSameRecipe takeResidualFee (accumulatedResidue - min (unsignedAbs feeMismatch) accumulatedResidue)
  else .rebuildRebalancedRecipe false accumulatedResidue

def operatorPayoutAfterNetworkFee (reservedTxFee grossOperatorInterest feePaid : UInt64) : UInt64 :=
  if reservedTxFee = 0 then U64.saturatingSub grossOperatorInterest feePaid else grossOperatorInterest

inductive ExecuteRecipeError where
  | feeEstimationFailed (message : String)
  | retryLimitExceeded (attempt : UInt8) (estimatedFee reservedTxFee updatedTxFee accumulatedResidue : UInt64) (feeMismatch : Int64)
  | noProgress (estimatedFee reservedTxFee updatedTxFee accumulatedResidue : UInt64) (feeMismatch : Int64)

-- What stays the same from one call to the next. `minFee` is the estimate of
-- the builder for a transaction with its scripts.
structure RecipeContext (T M D C F : Type) where
  exec : BatchExec T M D C F
  rules : BuilderRules D
  rewardAddress : Bytes
  minFee : TransactionBuilder D → Except String UInt64
  funding : Bearer D

structure RecipeArgs (T M D C : Type) where
  takeResidualFee : Bool
  ctx : C
  instructions : List (Execution T M (Bearer D))
  accumulatedResidue : UInt64
  operatorFeePaidFromInterest : UInt64
  operatorFundingFeeReserve : UInt64
  attempt : UInt8

def RecipeArgs.start (takeResidualFee : Bool) (ctx : C) (instructions : List (Execution T M (Bearer D))) : RecipeArgs T M D C :=
  ⟨takeResidualFee,ctx,instructions,0,0,0,0⟩

structure Executed (D C F : Type) where
  builder : TransactionBuilder D
  effects : List F
  fundingIo : FundingIo D
  ctx : C

-- A transaction that is built, with the state it is built from.
structure Build (D C F : Type) where
  state : ExecutionState D
  grossOperatorInterest : UInt64
  executed : Executed D C F

namespace RecipeContext
variable {T M D C F U : Type}

def build (env : RecipeContext T M D C F) (args : RecipeArgs T M D C) : Option (Build D C F) := do
  let (state,effects,ctx) ← env.exec.execute args.instructions args.ctx
  let gross := state.operatorInterest + args.accumulatedResidue
  let projected := operatorPayoutAfterNetworkFee state.reservedTxFee gross args.operatorFeePaidFromInterest
  let (builder,fundingIo) ← state.txBlueprint.projectOntoBuilder env.rules env.rewardAddress env.funding projected args.operatorFundingFeeReserve
  some ⟨state,gross,builder,effects,fundingIo,ctx⟩

end RecipeContext

namespace Build
variable {T M D C F U : Type}

def expectedFeePaid (built : Build D C F) (estimatedFee : UInt64) : UInt64 :=
  if built.state.reservedTxFee = 0 then min estimatedFee built.grossOperatorInterest else 0

def desiredReserve (built : Build D C F) (estimatedFee updatedTxFee feePaid : UInt64) : UInt64 :=
  if built.state.txBlueprint.forcesOperatorFundingInput then U64.saturatingSub (U64.saturatingSub estimatedFee updatedTxFee) feePaid else 0

variable [MarketTaker T U] [TakerBehaviour T]

-- The same fees with budgets that sum up to another fee, if they can change.
def rebalance (built : Build D C F) (estimatedFee updatedTxFee : UInt64) (feeMismatch : Int64) (args : RecipeArgs T M D C) :
    Option (Turn (RecipeArgs T M D C) (Except ExecuteRecipeError (Executed D C F))) := do
  let originalState ← feeBalanceState args.instructions
  let feeRescaleFactor ← FeeRatio.new estimatedFee built.state.reservedTxFee
  let instructions ← balanceFee feeMismatch feeRescaleFactor args.instructions
  let correctedState ← feeBalanceState instructions
  if correctedState = originalState then
    some (.stop (.error (.noProgress estimatedFee built.state.reservedTxFee updatedTxFee args.accumulatedResidue feeMismatch)))
  else some (.again {args with instructions:=instructions,attempt:=args.attempt + 1})

-- The end of a call whose fee is paid and reserved as it should be.
def conclude (built : Build D C F) (estimatedFee : UInt64) (args : RecipeArgs T M D C) :
    Option (Turn (RecipeArgs T M D C) (Except ExecuteRecipeError (Executed D C F))) :=
  let reservedTxFee := built.state.reservedTxFee
  let updatedTxFee := reservedTxFee - args.accumulatedResidue
  let feeMismatch := updatedTxFee.toInt64 - estimatedFee.toInt64
  if feeMismatch ≠ 0 ∧ maxFeeCorrectionAttempts ≤ args.attempt then
    some (.stop (.error (.retryLimitExceeded args.attempt estimatedFee reservedTxFee updatedTxFee args.accumulatedResidue feeMismatch)))
  else
    match decideFeeCorrection args.takeResidualFee feeMismatch reservedTxFee args.accumulatedResidue with
    | .complete => some (.stop (.ok built.executed))
    | .rebuildSameRecipe takeResidualFee residue =>
      some (.again {args with takeResidualFee:=takeResidualFee,accumulatedResidue:=residue,attempt:=args.attempt + 1})
    | .rebuildRebalancedRecipe takeResidualFee residue =>
      built.rebalance estimatedFee updatedTxFee feeMismatch {args with takeResidualFee:=takeResidualFee,accumulatedResidue:=residue}

def correct (built : Build D C F) (estimatedFee : UInt64) (args : RecipeArgs T M D C) :
    Option (Turn (RecipeArgs T M D C) (Except ExecuteRecipeError (Executed D C F))) :=
  let updatedTxFee := built.state.reservedTxFee - args.accumulatedResidue
  let expectedFeePaid := built.expectedFeePaid estimatedFee
  let desiredReserve := built.desiredReserve estimatedFee updatedTxFee args.operatorFeePaidFromInterest
  if expectedFeePaid ≠ args.operatorFeePaidFromInterest then
    some (.again {args with operatorFeePaidFromInterest:=expectedFeePaid,attempt:=args.attempt + 1})
  else if desiredReserve ≠ args.operatorFundingFeeReserve then
    some (.again {args with operatorFundingFeeReserve:=desiredReserve,attempt:=args.attempt + 1})
  else built.conclude estimatedFee args

end Build

namespace RecipeContext
variable {T M D C F U : Type} [MarketTaker T U] [TakerBehaviour T]

-- One call of `execute_recipe`, up to the call it makes of itself. The counter
-- of attempts wraps around.
def executeRecipe (env : RecipeContext T M D C F) (args : RecipeArgs T M D C) :
    Option (Turn (RecipeArgs T M D C) (Except ExecuteRecipeError (Executed D C F))) := do
  let built ← env.build args
  match env.minFee built.executed.builder with
  | .error message => some (.stop (.error (.feeEstimationFailed message)))
  | .ok fee => built.correct (fee + additionalFee) {args with ctx:=built.executed.ctx}

end RecipeContext

section Green
variable {D : Type}

-- Orders of accounts and pools. The context that changes is the index.
def greenExec (ctx : ExecContext D) : BatchExec GreenOrder RoyaltyPool D (AccountIndex (TransactionOutput D)) (EffectPreview D) where
  take := Take.exec ctx
  make make state index := (Make.exec ctx make state).map (fun made => (made.1,made.2,index))

theorem greenExec_instruction (ctx : ExecContext D) (progress : Progress D) (instruction : Instruction D) :
    (greenExec ctx).execInstruction (progress.state,progress.effects,progress.index) instruction =
      (execInstruction ctx progress instruction).map (fun after => (after.state,after.effects,after.index)) := by
  cases instruction with
  | inl take =>
    change (Take.exec ctx take progress.state progress.index).bind _ = Option.map _ ((Take.exec ctx take progress.state progress.index).bind _)
    grind
  | inr make =>
    change ((Make.exec ctx make progress.state).map _).bind _ = Option.map _ ((Make.exec ctx make progress.state).bind _)
    grind

theorem greenExec_execute (ctx : ExecContext D) (instructions : List (Instruction D)) (index : AccountIndex (TransactionOutput D)) :
    (greenExec ctx).execute instructions index =
      (execute ctx instructions index).map (fun progress => (progress.state,progress.effects,progress.index)) := by
  have loop : ∀ progress : Progress D,instructions.foldlM (greenExec ctx).execInstruction (progress.state,progress.effects,progress.index) =
      (instructions.foldlM (execInstruction ctx) progress).map (fun after => (after.state,after.effects,after.index)) := by
    induction instructions with
    | nil => exact fun _ => rfl
    | cons instruction rest ih =>
      intro progress
      rw [List.foldlM_cons,List.foldlM_cons,greenExec_instruction]
      grind
  exact loop ⟨.new,[],index⟩

end Green

end GreenAgent.Tx
