import GreenAgent.Book.State

namespace GreenAgent.Book
open MarketTaker TakerBehaviour

-- How the hash maps of one call iterate. Each iteration sees the entries in
-- some order, which can differ from one iteration to the next.
structure HashOrder where
  reorder : {α : Type} → Nat → List α → List α
  perm : ∀ {α : Type} (moment : Nat) (list : List α), (reorder moment list).Perm list

structure MatchmakingAttempt (T K M L U : Type) where
  takes : HashMap K (TakeInProgress T)
  makes : HashMap L (MakeInProgress M)
  ordering : List K
  executionUnitsConsumed : U
  numAggregatedMakes : Nat

structure FinalRecipe (T K M L : Type) where
  takes : List (K × TakeInProgress T)
  makes : List (L × MakeInProgress M)
  ordering : List K

structure MatchmakingRecipe (T M : Type) where
  instructions : List (TakeInProgress T ⊕ MakeInProgress M)
deriving DecidableEq

structure Excess where
  base : Nat
  quote : Nat
deriving DecidableEq

-- Why an attempt gives no recipe: it is not complete, some takers get too
-- little, or it is too expensive for the fees it earns.
inductive Rejection (T : Type) where
  | failed
  | unsatisfied (takers : List T)
  | downgradeNeeded

section Makes
variable {T M U : Type} [MarketMaker M T U] [MakerBehavior M T]

-- The next state of a maker.
def Trans.successor (make : MakeInProgress M) : M :=
  match make.result with
  | .succ next => next
  | .term void => void.elim

variable (T)

def tradeSide (make : MakeInProgress M) : Option Side :=
  let next := MarketMaker.liquidity T make.successor
  let init := MarketMaker.liquidity T make.target
  if next.base < init.base ∧ init.quote < next.quote then some .bid
  else if init.base < next.base ∧ next.quote < init.quote then some .ask
  else none

def isZero (make : MakeInProgress M) : Bool := (tradeSide T make).isNone

def checkedSub (a b : Nat) : Option Nat := if b ≤ a then some (a-b) else none

def loss (make : MakeInProgress M) : Option (OnSide Nat) :=
  let next := MarketMaker.liquidity T make.successor
  let init := MarketMaker.liquidity T make.target
  ((checkedSub init.base next.base).map .bid).or ((checkedSub init.quote next.quote).map .ask)

def tradeOutput (make : MakeInProgress M) : Nat := ((loss T make).map OnSide.unwrap).getD 0

-- The swap of the net input, and what it leaves of the reserves the single
-- swaps ended with.
def rebalance (make : MakeInProgress M) (input : OnSide Nat) : M :=
  MakerBehavior.preservePreviewMetadata T make.target make.successor
    (Trans.successor ⟨make.target,MakerBehavior.swap T make.target input⟩)

def finalizeMake (make : MakeInProgress M) : Option (MakeInProgress M × Excess) :=
  let target := MarketMaker.liquidity T make.target
  let next := MarketMaker.liquidity T make.successor
  match checkedSub next.base target.base with
  | some tradeInput =>
    let rebalanced := rebalance T make (.ask tradeInput)
    (checkedSub next.quote (MarketMaker.liquidity T rebalanced).quote).map
      (fun excess => (⟨make.target,.succ rebalanced⟩,⟨0,excess⟩))
  | none =>
    (checkedSub next.quote target.quote).bind (fun tradeInput =>
      let rebalanced := rebalance T make (.bid tradeInput)
      (checkedSub next.base (MarketMaker.liquidity T rebalanced).base).map
        (fun excess => (⟨make.target,.succ rebalanced⟩,⟨excess,0⟩)))

end Makes

def defaultSwapWithTaker {T M U V : Type} [MarketTaker T U] [TakerBehaviour T] [MarketMaker M T V] [MakerBehavior M T] (maker : M)
    (taker : T) (input : OnSide Nat) : TakeInProgress T × MakeInProgress M :=
  let make : MakeInProgress M := ⟨maker,MakerBehavior.swap T maker input⟩
  (⟨taker,withAppliedTrade taker input.unwrap (tradeOutput T make)⟩,make)

section Takes
variable {T U : Type} [MarketTaker T U] [TakerBehaviour T]

def finalizeTake (take : TakeInProgress T) (excess : Nat) : TakeInProgress T :=
  let fee := operatorFee take.target take.removedInput
  let budget : Int := consumableBudget take.target
  ⟨take.target,match take.result with
    | .succ next => tryTerminate (withBudgetCorrected (withFeeCharged (withOutputAdded next excess) fee) (-budget)).2
    | .term term => .term (((term.withOutputAdded excess).withFeeCharged fee).withBudgetCorrected (-budget)).2⟩

-- The takes one after another: the first of a side gets all that is left over
-- of the asset it receives.
def finalizeTakes : Excess → List (K × TakeInProgress T) → List (K × TakeInProgress T) × Excess
  | excess,[] => ([],excess)
  | excess,(id,take) :: rest =>
    let (share,excess) := match side take.target with
      | .bid => (excess.base,{excess with base:=0})
      | .ask => (excess.quote,{excess with quote:=0})
    let (takes,excess) := finalizeTakes excess rest
    ((id,finalizeTake take share) :: takes,excess)

end Takes

section Attempt
variable {T K M L U : Type} [DecidableEq K] [DecidableEq L] [Stable T K] [Stable M L] [MarketTaker T U] [TakerBehaviour T] [MarketMaker M T U]
  [MakerBehavior M T] [Add U] [Zero U]

def finalizeMakes (T : Type) [MarketMaker M T U] [MakerBehavior M T] : List (L × MakeInProgress M) → Option (List (L × MakeInProgress M) × Excess)
  | [] => some ([],⟨0,0⟩)
  | (id,make) :: rest => do
    let (make,excess) ← finalizeMake T make
    let (makes,total) ← finalizeMakes T rest
    return ((id,make) :: makes,⟨excess.base+total.base,excess.quote+total.quote⟩)

def entriesOf {K V : Type} (m : HashMap K V) : List (K × V) := m.entries.map (fun e => (e.1,e.2))

namespace MatchmakingAttempt

def empty : MatchmakingAttempt T K M L U := ⟨∅,∅,[],0,0⟩

def isComplete (attempt : MatchmakingAttempt T K M L U) : Bool :=
  decide (1 < attempt.takes.entries.length ∨ attempt.takes.entries.length = 1 ∧ 0 < attempt.makes.entries.length)

def numTakes (attempt : MatchmakingAttempt T K M L U) : Nat := attempt.takes.entries.length

def addTake (attempt : MatchmakingAttempt T K M L U) (take : TakeInProgress T) : MatchmakingAttempt T K M L U :=
  let sid := stableId take.target
  match attempt.takes.lookup sid with
  | none => {attempt with
      executionUnitsConsumed:=attempt.executionUnitsConsumed + marginalCostHint take.target,
      ordering:=attempt.ordering ++ [sid],
      takes:=AList.insert sid take (attempt.takes.erase sid)}
  | some existing => {attempt with takes:=AList.insert sid (existing.combine take) (attempt.takes.erase sid)}

def addMake (attempt : MatchmakingAttempt T K M L U) (make : MakeInProgress M) : MatchmakingAttempt T K M L U :=
  let sid := stableId make.target
  match attempt.makes.lookup sid with
  | none => {attempt with
      executionUnitsConsumed:=attempt.executionUnitsConsumed + MarketMaker.marginalCostHint T make.target,
      makes:=AList.insert sid make (attempt.makes.erase sid)}
  | some existing => {attempt with
      numAggregatedMakes:=attempt.numAggregatedMakes+1,
      makes:=AList.insert sid (existing.combine make) (attempt.makes.erase sid)}

def finalized (order : HashOrder) (attempt : MatchmakingAttempt T K M L U) : Option (FinalRecipe T K M L) := do
  let (makes,excess) ← finalizeMakes T (order.reorder 0 (entriesOf attempt.makes))
  let (takes,left) := finalizeTakes excess (order.reorder 1 (entriesOf attempt.takes))
  if left.base = 0 ∧ left.quote = 0 then some ⟨takes,makes,attempt.ordering⟩ else none

end MatchmakingAttempt

def FinalRecipe.unsatisfiedFragments (order : HashOrder) (recipe : FinalRecipe T K M L) : List T :=
  (order.reorder 2 recipe.takes).filterMap (fun entry =>
    if entry.2.addedOutput < minMarginalOutput entry.2.target then some entry.2.target else none)

-- `takes / makes * budget / base_budget` against one half, in integers.
def checkRecipeComplexity (baseStepBudget : Nat) (recipe : FinalRecipe T K M L) : Bool :=
  if 0 < recipe.makes.length then
    let baseBudget := max baseStepBudget 1
    let totalBudget := (recipe.takes.map (fun entry => consumableBudget entry.2.target)).sum
    decide ((1 : ℚ) / 2 ≤ (recipe.takes.length / recipe.makes.length) * (totalBudget / baseBudget))
  else true

def MatchmakingRecipe.tryFrom (order : HashOrder) (baseStepBudget : Nat) (attempt : MatchmakingAttempt T K M L U) :
    Except (Rejection T) (MatchmakingRecipe T M) :=
  if attempt.isComplete then
    match attempt.finalized order with
    | none => .error .failed
    | some recipe =>
      let unsatisfied := recipe.unsatisfiedFragments order
      if unsatisfied.isEmpty then
        -- the takes come in the order they were added, one for each id
        let takes := recipe.ordering.filterMap (fun id => (recipe.takes.find? (fun entry => decide (entry.1 = id))).map Prod.snd)
        let makes := (order.reorder 3 recipe.makes).map Prod.snd
        if makes.any (isZero T) then .error .failed
        else if checkRecipeComplexity baseStepBudget recipe then .ok ⟨takes.map .inl ++ makes.map .inr⟩
        else .error .downgradeNeeded
      else .error (.unsatisfied unsatisfied)
  else .error .failed

end Attempt
end GreenAgent.Book
