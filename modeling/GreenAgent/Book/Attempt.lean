import GreenAgent.Book.Core

namespace GreenAgent.Book
open MarketTaker TakerBehaviour

-- `max_by_key` gives the last of several maxima, `min_by_key` the first minimum.
def lastMax [LE β] [DecidableLE β] (key : α → β) (list : List α) : Option α :=
  list.foldl (fun best x => match best with
    | none => some x
    | some b => if key b ≤ key x then some x else some b) none

def firstMin [LT β] [DecidableLT β] (key : α → β) (list : List α) : Option α :=
  list.foldl (fun best x => match best with
    | none => some x
    | some b => if key x < key b then some x else some b) none

structure FillPreview where
  price : AbsolutePrice
  input : Nat

structure Outcome (T M L : Type) where
  recipe : Option (MatchmakingRecipe T M)
  state : TLBState T L M
  -- passes of the outer loop
  rounds : Nat

section
variable {T K M L U : Type} [DecidableEq K] [DecidableEq L] [Ord T] [Stable T K] [Stable M L] [MarketTaker T U] [TakerBehaviour T]
  [MarketMaker M T U] [MakerBehavior M T]

def dummySwap (taker : T) (demand : Nat) (side : Side) (maker : M) : Option (L × FillPreview) :=
  (MarketMaker.effectivePrice maker taker (side.wrap demand)).map (fun price => (stableId maker,⟨price,demand⟩))

-- The binary search for the largest chunk, on `u64`s that wrap. The result is
-- `none` when the search is not over after `fuel` passes.
def searchChunk (taker : T) (price : AbsolutePrice) (side : Side) (maker : M) :
    Nat → Nat → Nat → Option (Nat × AbsolutePrice) → Option (Option (Nat × AbsolutePrice))
  | 0,low,high,best => if low < high then none else some best
  | fuel+1,low,high,best =>
    if low < high then
      let candidate := low + ((high - low + 1) % 2^64) / 2
      match (MarketMaker.effectivePrice maker taker (side.wrap candidate)).filter (fun p => (side.wrap price).overlaps p) with
      | some p => searchChunk taker price side maker fuel candidate high (some (candidate,p))
      | none => searchChunk taker price side maker fuel low ((candidate + (2^64 - 1)) % 2^64) best
    else some best

def tryOptimizedSwap (fuel : Nat) (taker : T) (price : AbsolutePrice) (demand : Nat) (side : Side) (maker : M) :
    Option (Option (L × FillPreview)) :=
  match MarketMaker.availableLiquidityOnSide T maker (side.wrap price) with
  | none => some none
  | some ⟨input,output⟩ =>
    match (MarketMaker.effectivePrice maker taker (side.wrap input)).or (match side with
      | .bid => AbsolutePrice.new input output
      | .ask => AbsolutePrice.new output input) with
    | none => some none
    | some absolutePrice =>
      let offer := fun (chunk : Nat × AbsolutePrice) =>
        if 0 < chunk.1 ∧ chunk.1 ≤ demand ∧ (side.wrap price).overlaps chunk.2 = true then some (stableId maker,⟨chunk.2,chunk.1⟩)
        else none
      if 0 < input ∧ input ≤ demand ∧ (side.wrap price).overlaps absolutePrice = false then
        (searchChunk taker price side maker fuel 0 input none).map (fun best => best.bind offer)
      else some (offer (input,absolutePrice))

def preselectMarketMaker (fuel : Nat) (pools : List M) (price : AbsolutePrice) (demand : Nat) (side : Side) (optimized : Bool) (taker : T) :
    Option (Option (L × FillPreview)) := do
  let previews ← (pools.filter (MarketMaker.isActive T)).mapM (fun maker =>
    if optimized then (tryOptimizedSwap fuel taker price demand side maker).map (fun offer => offer.or (dummySwap taker demand side maker))
    else some (dummySwap taker demand side maker))
  let offers := (previews.filterMap id).filter (fun offer => (side.wrap price).overlaps offer.2.price)
  return match side with
    | .bid => firstMin (fun offer => offer.2.price) offers
    | .ask => lastMax (fun offer => offer.2.price) offers

def clamp (value low high : ℚ) : ℚ := if low ≤ value ∧ value ≤ high then value else if value < low then low else high

def maxBiasPercent : ℚ := 3

def settlePrice (ask bid : T) (indexPrice : AbsolutePrice) : AbsolutePrice :=
  let pivotal := clamp indexPrice (price ask) (price bid)
  let feeAsk : Int := fee ask
  let feeBid : Int := fee bid
  let biasPercent := if feeAsk < feeBid then (-feeAsk * 100).tdiv feeBid else if feeAsk = 0 then 0 else (feeBid * 100).tdiv feeAsk
  let deviation := pivotal * (maxBiasPercent / 100) * (biasPercent / 100)
  clamp (pivotal + deviation) (price ask) (price bid)

def linearOutput (input : Nat) : OnSide AbsolutePrice → Nat
  | .bid price => ⌊(input : ℚ) / price⌋₊
  | .ask price => ⌊(input : ℚ) * price⌋₊

-- The trade of an ask with a bid at a price: the smaller one is filled whole.
def crossTakers (ask bid : T) (price : AbsolutePrice) : TakeInProgress T × TakeInProgress T :=
  let quoteInput := input bid
  let demandBase := linearOutput quoteInput (.bid price)
  let supplyBase := input ask
  let (quote,base) := if supplyBase < demandBase then (linearOutput supplyBase (.ask price),supplyBase) else (quoteInput,demandBase)
  (⟨ask,withAppliedTrade ask base quote⟩,⟨bid,withAppliedTrade bid quote base⟩)

def executeWithTaker (target counter : T) (matchmaker : T → T → AbsolutePrice) : TakeInProgress T × TakeInProgress T :=
  match side target with
  | .ask => crossTakers target counter (matchmaker target counter)
  | .bid => crossTakers counter target (matchmaker counter target)

def onTake (state : TLBState T L M) : Next T TerminalTake → TLBState T L M
  | .succ next => state.preAddTaker next
  | .term _ => state

def onMake (state : TLBState T L M) : Next M Empty → TLBState T L M
  | .succ next => state.preAddMaker next
  | .term _ => state

variable [Add U] [Zero U]

-- A pass of the filling loop goes on to the next pass or ends the loop.
inductive Pass (T K M L U : Type) where
  | next (state : TLBState T L M) (batch : MatchmakingAttempt T K M L U)
  | stop (state : TLBState T L M) (batch : MatchmakingAttempt T K M L U)

-- The taker picked meets the maker selected for it, or goes back.
def matchMaker (taker : T) (maker : Option (L × FillPreview)) (state : TLBState T L M) (batch : MatchmakingAttempt T K M L U) : Pass T K M L U :=
  match maker with
  | some (id,preview) =>
    if ((side taker).wrap (price taker)).overlaps preview.price then
      match state.pickMakerById id with
      | (some maker,state) =>
        let (take,make) := MakerBehavior.swapWithTaker maker taker ((side taker).wrap preview.input)
        .next (onMake (onTake state take.result) make.result) ((batch.addMake make).addTake take)
      | (none,state) => .stop state batch
    else .stop (state.preAddTaker taker) batch
  | none => .stop (state.preAddTaker taker) batch

-- A counter taker at a better price comes first.
def matchTaker (o2oAllowed : Bool) (spot : AbsolutePrice) (taker : T) (maker : Option (L × FillPreview)) (state : TLBState T L M)
    (batch : MatchmakingAttempt T K M L U) : Pass T K M L U :=
  match state.bestTakerPrice (side taker).not with
  | some counter =>
    if o2oAllowed ∧ ((side taker).wrap (price taker)).overlaps counter.unwrap ∧ (maker.map (fun m => counter.betterThan m.2.price)).getD false then
      match state.pickActiveTaker (tryPickTaker (side taker).not) with
      | (some counterTaker,state) =>
        let (first,second) := executeWithTaker taker counterTaker (fun ask bid => settlePrice ask bid spot)
        .next (onTake (onTake state first.result) second.result) ((batch.addTake first).addTake second)
      | (none,state) => .stop state batch
    else matchMaker taker maker state batch
  | none => matchMaker taker maker state batch

def fillStep (fuel : Nat) (o2oAllowed optimized : Bool) (order : HashOrder) (moment : Nat) (state : TLBState T L M)
    (batch : MatchmakingAttempt T K M L U) : Option (Pass T K M L U) :=
  let pools := (order.reorder moment (entriesOf state.pools)).map Prod.snd
  match lastMax (MarketMaker.quality T) pools with
  | none => some (.stop state batch)
  | some best =>
    let spot := MarketMaker.staticPrice T best
    match state.pickActiveTaker (maxByDistanceToSpot spot state.allowedPriceRange) with
    | (none,state) => some (.stop state batch)
    | (some taker,state) =>
      (preselectMarketMaker fuel pools (price taker) (input taker) (side taker) optimized taker).map (fun maker =>
        matchTaker o2oAllowed spot taker maker state batch)

variable [LT U] [DecidableLT U]

-- At most 15 takers take part in one recipe.
def fillLoop (steps : Nat) (conf : ExecutionConfig U) (optimized : Bool) (order : HashOrder) :
    Nat → Nat → TLBState T L M → MatchmakingAttempt T K M L U → Option (TLBState T L M × MatchmakingAttempt T K M L U)
  | 0,_,_,_ => none
  | fuel+1,moment,state,batch =>
    if batch.executionUnitsConsumed < conf.executionCap.soft ∧ batch.numTakes < 15 then
      match fillStep steps conf.o2oAllowed optimized order moment state batch with
      | none => none
      | some (.next state batch) => fillLoop steps conf optimized order fuel (moment+1) state batch
      | some (.stop state batch) => some (state,batch)
    else some (state,batch)

def attemptLoop (steps : Nat) (conf : ExecutionConfig U) (orders : Nat → HashOrder) :
    Nat → Nat → Bool → TLBState T L M → Option (Outcome T M L)
  | 0,_,_,_ => none
  | fuel+1,round,optimized,state =>
    match fillLoop steps conf optimized (orders round) steps 4 state (.empty : MatchmakingAttempt T K M L U) with
    | none => none
    | some (state,batch) =>
      match MatchmakingRecipe.tryFrom (orders round) conf.baseStepBudget batch with
      | .ok recipe => some ⟨some recipe,state,round+1⟩
      | .error .failed => some ⟨none,state.rollback .unstash,round+1⟩
      | .error (.unsatisfied takers) => attemptLoop steps conf orders fuel (round+1) optimized (state.rollback (.stash takers))
      | .error .downgradeNeeded => attemptLoop steps conf orders fuel (round+1) false (state.rollback (.stash []))

-- `TLB::attempt` with at most `fuel` passes of each of its loops; `none` when
-- one of them is not over by then.
def attempt (fuel : Nat) (conf : ExecutionConfig U) (orders : Nat → HashOrder) (state : TLBState T L M) : Option (Outcome T M L) :=
  attemptLoop fuel conf orders fuel 0 true state

end
end GreenAgent.Book
