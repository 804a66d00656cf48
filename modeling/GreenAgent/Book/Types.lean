import Mathlib
import GreenAgent.Lib.HashMap

namespace GreenAgent.Book

inductive Side where
  | bid
  | ask
deriving DecidableEq

def Side.not : Side → Side
  | .bid => .ask
  | .ask => .bid

inductive OnSide (α : Type) where
  | bid (value : α)
  | ask (value : α)
deriving DecidableEq

def Side.wrap : Side → α → OnSide α
  | .bid,value => .bid value
  | .ask,value => .ask value

def OnSide.unwrap : OnSide α → α
  | .bid value => value
  | .ask value => value

-- `Ratio<u128>` in units of the quote asset per unit of the base asset. Prices
-- are exact: the comparisons of `Ratio` are, and its products are taken not to
-- overflow.
abbrev AbsolutePrice := ℚ

def AbsolutePrice.new (numer denom : Nat) : Option AbsolutePrice :=
  if denom ≠ 0 then some ((numer : ℚ) / (denom : ℚ)) else none

def OnSide.overlaps : OnSide AbsolutePrice → AbsolutePrice → Bool
  | .bid this,that => decide (that ≤ this)
  | .ask this,that => decide (this ≤ that)

def OnSide.betterThan : OnSide AbsolutePrice → AbsolutePrice → Bool
  | .bid this,that => decide (that ≤ this)
  | .ask this,that => decide (this ≤ that)

inductive TimeBounds where
  | until (time : Nat)
  | after (time : Nat)
  | within (lower upper : Nat)
  | none
deriving DecidableEq

def TimeBounds.lowerBound : TimeBounds → Option Nat
  | .until _ => Option.none
  | .after time => some time
  | .within lower _ => some lower
  | .none => Option.none

structure TerminalTake where
  remainingInput : Nat
  accumulatedOutput : Nat
  remainingBudget : Nat
  remainingFee : Nat
deriving DecidableEq

def TerminalTake.withBudgetCorrected (take : TerminalTake) (delta : Int) : Int × TerminalTake :=
  let updated := max ((take.remainingBudget : Int) + delta) 0
  (updated - take.remainingBudget,{take with remainingBudget:=updated.toNat})

def TerminalTake.withOutputAdded (take : TerminalTake) (addedOutput : Nat) : TerminalTake :=
  {take with accumulatedOutput:=take.accumulatedOutput+addedOutput}

def TerminalTake.withFeeCharged (take : TerminalTake) (fee : Nat) : TerminalTake :=
  {take with remainingFee:=take.remainingFee-fee}

inductive Next (S T : Type) where
  | succ (state : S)
  | term (terminal : T)
deriving DecidableEq

structure Trans (I C E : Type) where
  target : I
  result : Next C E
deriving DecidableEq

def Trans.combine (first second : Trans I C E) : Trans I C E := ⟨first.target,second.result⟩

abbrev TakeInProgress (T : Type) := Trans T T TerminalTake

-- A maker never terminates: its terminal type is `Void`.
abbrev MakeInProgress (M : Type) := Trans M M Empty

structure AbsoluteReserves where
  base : Nat
  quote : Nat
deriving DecidableEq

structure AvailableLiquidity where
  input : Nat
  output : Nat
deriving DecidableEq

class Stable (α : Type) (K : outParam Type) where
  stableId : α → K

export Stable (stableId)

class MarketTaker (T : Type) (U : outParam Type) where
  side : T → Side
  input : T → Nat
  output : T → Nat
  price : T → AbsolutePrice
  operatorFee : T → Nat → Nat
  fee : T → Nat
  budget : T → Nat
  consumableBudget : T → Nat
  marginalCostHint : T → U
  minMarginalOutput : T → Nat
  timeBounds : T → TimeBounds

class TakerBehaviour (T : Type) where
  withUpdatedTime : T → Nat → Next T Unit
  withAppliedTrade : T → Nat → Nat → Next T TerminalTake
  withBudgetCorrected : T → Int → Int × T
  withFeeCharged : T → Nat → T
  withOutputAdded : T → Nat → T
  tryTerminate : T → Next T TerminalTake

-- `T` is the taker type of the generic methods.
class MarketMaker (M T : Type) (U : outParam Type) where
  staticPrice : M → AbsolutePrice
  realPrice : M → OnSide Nat → Option AbsolutePrice
  effectivePrice : M → T → OnSide Nat → Option AbsolutePrice
  quality : M → Nat
  marginalCostHint : M → U
  liquidity : M → AbsoluteReserves
  availableLiquidityOnSide : M → OnSide AbsolutePrice → Option AvailableLiquidity
  isActive : M → Bool

class MakerBehavior (M T : Type) where
  swap : M → OnSide Nat → Next M Empty
  preservePreviewMetadata : M → M → M → M
  swapWithTaker : M → T → OnSide Nat → TakeInProgress T × MakeInProgress M

structure ExecutionCap (U : Type) where
  soft : U
  hard : U

structure ExecutionConfig (U : Type) where
  executionCap : ExecutionCap U
  o2oAllowed : Bool
  baseStepBudget : Nat

section Takes
variable {T : Type} [MarketTaker T U]
open MarketTaker

def TakeInProgress.remainingInput (take : TakeInProgress T) : Nat :=
  match take.result with
  | .succ next => input next
  | .term term => term.remainingInput

def TakeInProgress.accumulatedOutput (take : TakeInProgress T) : Nat :=
  match take.result with
  | .succ next => output next
  | .term term => term.accumulatedOutput

def TakeInProgress.remainingFee (take : TakeInProgress T) : Nat :=
  match take.result with
  | .succ next => fee next
  | .term term => term.remainingFee

def TakeInProgress.removedInput (take : TakeInProgress T) : Nat := input take.target - take.remainingInput

def TakeInProgress.addedOutput (take : TakeInProgress T) : Nat := take.accumulatedOutput - output take.target

-- `Take::consumed_fee`; the bearer bundled with the target plays no part in it.
def TakeInProgress.consumedFee (take : TakeInProgress T) : Nat := fee take.target - take.remainingFee

end Takes
end GreenAgent.Book
