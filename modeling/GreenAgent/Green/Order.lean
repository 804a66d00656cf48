import GreenAgent.Lib.U64
import GreenAgent.Account.Types
import GreenAgent.Book.Types

namespace GreenAgent.Green
open Mpf (Bytes Digest)
open Account (AccountId AssetClass Token Hash28 AlephAccountAbi AlephIntention GreenOrderId)
open Book (Side Next TerminalTake TimeBounds AbsolutePrice)

inductive GreenAuth where
  | sig (prefixBytes postfixBytes signature updateProof : Bytes)
  | path (proof : Bytes)
deriving DecidableEq

structure GreenIntention where
  inputAsset : AssetClass
  outputAsset : AssetClass
  leavingAmount : UInt64
  expectedArrivingAmount : UInt64
  feeLovelace : UInt64
  targetNonceSlot : UInt16
  targetNonceValue : UInt64
  operatorKeyHash : Hash28
deriving DecidableEq

structure GreenOrder where
  id : GreenOrderId
  accountId : AccountId
  intention : GreenIntention
  accumulatedOutput : UInt64
  currentRemainder : UInt64
  auth : GreenAuth
deriving DecidableEq

-- The derived orders: policy bytes, then the length of the asset name, then its
-- bytes; `Native` comes before every token.
def compareToken (a b : Token) : Ordering :=
  (compare a.policy.bytes b.policy.bytes).then
    ((compare a.assetName.length b.assetName.length).then (compare a.assetName b.assetName))

def compareAsset : AssetClass → AssetClass → Ordering
  | .native,.native => .eq
  | .native,.token _ => .lt
  | .token _,.native => .gt
  | .token a,.token b => compareToken a b

def compareOrderId (a b : GreenOrderId) : Ordering :=
  (compare a.accountId.bytes.bytes b.accountId.bytes.bytes).then
    ((compare a.targetNonceSlot b.targetNonceSlot).then
      ((compare a.targetNonceValue b.targetNonceValue).then
        (compare a.originalIntentDigest.bytes b.originalIntentDigest.bytes)))

def orderCanonical (x y : AssetClass) : AssetClass × AssetClass := if compareAsset x y = .gt then (y,x) else (x,y)

def sideOf (input output : AssetClass) : Side := if (orderCanonical input output).1 = input then .ask else .bid

-- `Ratio::new` panics on a zero denominator.
def relativePrice (numer denom : UInt64) : Option ℚ := AbsolutePrice.new numer.toNat denom.toNat

-- `price.pow(-1)` panics on zero.
def fromPrice : Side → ℚ → Option AbsolutePrice
  | .bid,price => if price = 0 then none else some price⁻¹
  | .ask,price => some price

namespace GreenOrder

def alephIntention (order : GreenOrder) : AlephIntention where
  abi := .current
  targetNonceIndex := order.intention.targetNonceSlot
  targetNonceValue := order.intention.targetNonceValue
  leavingAsset := order.intention.inputAsset
  leavingAmount := order.intention.leavingAmount
  arrivingAsset := order.intention.outputAsset
  expectedArrivingAmount := order.intention.expectedArrivingAmount
  feeLovelace := order.intention.feeLovelace
  operator := order.intention.operatorKeyHash

def side (order : GreenOrder) : Side := sideOf order.intention.inputAsset order.intention.outputAsset

-- `none` where the source panics.
def price (order : GreenOrder) : Option AbsolutePrice :=
  (relativePrice order.intention.expectedArrivingAmount order.intention.leavingAmount).bind (fromPrice order.side)

def operatorFee (order : GreenOrder) (inputConsumed : UInt64) : UInt64 :=
  (U64.checkedDiv (U64.saturatingMul order.intention.feeLovelace inputConsumed) order.intention.leavingAmount).getD 0

def tryTerminate (order : GreenOrder) : Next GreenOrder TerminalTake :=
  if order.currentRemainder = 0 then
    .term {
      remainingInput:=0,
      accumulatedOutput:=order.accumulatedOutput.toNat,
      remainingFee:=order.intention.feeLovelace.toNat,
      remainingBudget:=0}
  else .succ order

-- The two saturating updates of `with_applied_trade` and `with_output_added`.
def withOutputAdded (order : GreenOrder) (addedOutput : Nat) : GreenOrder :=
  {order with accumulatedOutput:=.ofNat (min (order.accumulatedOutput.toNat + addedOutput) U64.max)}

def withInputRemoved (order : GreenOrder) (removedInput : Nat) : GreenOrder :=
  {order with currentRemainder:=.ofNat (order.currentRemainder.toNat - removedInput)}

def withAppliedTrade (order : GreenOrder) (removedInput addedOutput : Nat) : Next GreenOrder TerminalTake :=
  ((order.withInputRemoved removedInput).withOutputAdded addedOutput).tryTerminate

end GreenOrder

structure ExUnits where
  mem : Nat
  steps : Nat
deriving DecidableEq

instance : Zero ExUnits := ⟨⟨0,0⟩⟩
instance : Add ExUnits := ⟨fun a b => ⟨a.mem+b.mem,a.steps+b.steps⟩⟩
instance : LT ExUnits := ⟨fun a b => a.mem < b.mem ∨ a.mem = b.mem ∧ a.steps < b.steps⟩
instance : DecidableLT ExUnits := fun a b => inferInstanceAs (Decidable (a.mem < b.mem ∨ a.mem = b.mem ∧ a.steps < b.steps))

instance : Ord GreenOrder := ⟨fun a b => compareOrderId a.id b.id⟩

instance : Book.MarketTaker GreenOrder ExUnits where
  side := GreenOrder.side
  input order := order.currentRemainder.toNat
  output order := order.accumulatedOutput.toNat
  price order := order.price.getD 0
  operatorFee order inputConsumed := (order.operatorFee (.ofNat inputConsumed)).toNat
  fee order := order.intention.feeLovelace.toNat
  budget _ := 0
  consumableBudget order := order.intention.feeLovelace.toNat
  marginalCostHint _ := ⟨0,0⟩
  minMarginalOutput _ := 1
  timeBounds _ := .none

instance : Book.TakerBehaviour GreenOrder where
  withUpdatedTime order _ := .succ order
  withAppliedTrade := GreenOrder.withAppliedTrade
  withBudgetCorrected order _ := (0,order)
  withFeeCharged order _ := order
  withOutputAdded := GreenOrder.withOutputAdded
  tryTerminate := GreenOrder.tryTerminate

-- `AlephIntention::remaining_after_fill`.
def remainingAfterFill (intent : AlephIntention) (consumedLeavingWithoutFee addedArrivingWithoutFee : UInt64) : Option AlephIntention := do
  let leavingRemainder ← U64.checkedSub intent.leavingAmount consumedLeavingWithoutFee
  if leavingRemainder = 0 then none
  else
    let feeRemainder ← U64.checkedDiv (← U64.checkedMul leavingRemainder intent.feeLovelace) intent.leavingAmount
    return {intent with
      leavingAmount:=leavingRemainder,
      expectedArrivingAmount:=← U64.checkedSub intent.expectedArrivingAmount addedArrivingWithoutFee,
      feeLovelace:=feeRemainder}

end GreenAgent.Green
