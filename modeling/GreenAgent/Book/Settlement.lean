import GreenAgent.Book.Run

namespace GreenAgent.Book
open MarketTaker TakerBehaviour

-- `U256::as_u64` panics above `u64`.
def asU64 (amount : Nat) : Option Nat := if amount < 2^64 then some amount else none

-- `linear_output_unsafe` with its panics. At a price of zero the bid's output is
-- a division by zero.
def linearOutputUnsafe (input : Nat) : OnSide AbsolutePrice → Option Nat
  | .bid price => if price = 0 then none else asU64 (linearOutput input (.bid price))
  | .ask price => asU64 (linearOutput input (.ask price))

section Amounts
variable {amount out : Nat} {p : AbsolutePrice}

theorem asU64_eq_some : asU64 amount = some out ↔ amount = out ∧ amount < 2^64 := by
  unfold asU64
  rw [Option.ite_none_right_eq_some,Option.some.injEq]
  exact and_comm

theorem linearOutput_ask_iff (positive : 0 < p) : out ≤ linearOutput amount (.ask p) ↔ (out : ℚ) ≤ p * amount := by
  have bounded : (0 : ℚ) ≤ amount * p := mul_nonneg (Nat.cast_nonneg _) positive.le
  rw [mul_comm]
  exact Nat.le_floor_iff bounded

theorem linearOutput_bid_iff (positive : 0 < p) : out ≤ linearOutput amount (.bid p) ↔ p * out ≤ (amount : ℚ) := by
  have bounded : (0 : ℚ) ≤ amount / p := div_nonneg (Nat.cast_nonneg _) positive.le
  refine (Nat.le_floor_iff bounded).trans ?_
  rw [le_div_iff₀ positive,mul_comm]

theorem linearOutputUnsafe_eq {trade : OnSide AbsolutePrice} (returned : linearOutputUnsafe amount trade = some out) :
    linearOutput amount trade = out := by
  cases trade with
  | bid p => exact (asU64_eq_some.mp (Option.ite_none_left_eq_some.mp returned).2).1
  | ask p => exact (asU64_eq_some.mp returned).1

theorem linearOutputUnsafe_bid (unsigned : 0 ≤ p) :
    linearOutputUnsafe amount (.bid p) = some out ↔ 0 < p ∧ (amount : ℚ) < p * 2^64 ∧ linearOutput amount (.bid p) = out := by
  change (if p = 0 then none else asU64 (linearOutput amount (.bid p))) = some out ↔ _
  by_cases zero : p = 0
  · simp [zero]
  · have positive : 0 < p := lt_of_le_of_ne unsigned (Ne.symm zero)
    have small : linearOutput amount (.bid p) < 2^64 ↔ (amount : ℚ) < p * 2^64 := by
      rw [← not_le,← not_le,linearOutput_bid_iff positive]
      norm_num
    rw [if_neg zero,asU64_eq_some,small]
    grind

theorem room_iff {floor : Nat} {below : Nat → Prop} (above : Nat → Prop) (exact' : ∀ n, n ≤ floor ↔ below n) (up : ∀ m n, m ≤ n → above m → above n) :
    above floor ↔ ∃ n, above n ∧ below n := by
  constructor
  · grind
  grind

end Amounts

section
variable {T U : Type} [MarketTaker T U]

-- What an ask and a bid exchange at a price, quote first.
def settledAmounts (ask bid : T) (price : AbsolutePrice) : Option (Nat × Nat) := do
  let quoteInput := input bid
  let demandBase ← linearOutputUnsafe quoteInput (.bid price)
  let supplyBase := input ask
  if supplyBase < demandBase then
    let quoteExecuted ← linearOutputUnsafe supplyBase (.ask price)
    return (quoteExecuted,supplyBase)
  else return (quoteInput,demandBase)

-- The spot price moved into the limits, then by at most three percent towards
-- the side with the higher fee, and into the limits again.
def biasedSpot (low high spot : AbsolutePrice) (feeAsk feeBid : Nat) : AbsolutePrice :=
  let pivot := max low (min high spot)
  let percent : Int := if feeAsk < feeBid then -((100 * feeAsk / feeBid : Nat) : Int) else (100 * feeBid / feeAsk : Nat)
  max low (min high (pivot + pivot * (3 / 100) * (percent / 100)))

theorem clamp_eq {value low high : ℚ} (ordered : low ≤ high) : clamp value low high = max low (min high value) := by
  unfold clamp
  split
  · grind
  grind

theorem settlePrice_eq {ask bid : T} (spot : AbsolutePrice) (overlap : price ask ≤ price bid) :
    settlePrice ask bid spot = biasedSpot (price ask) (price bid) spot (fee ask) (fee bid) := by
  have percent : (if ((fee ask : Nat) : Int) < (fee bid : Nat) then (-((fee ask : Nat) : Int) * 100).tdiv (fee bid : Nat)
      else if ((fee ask : Nat) : Int) = 0 then 0 else (((fee bid : Nat) : Int) * 100).tdiv (fee ask : Nat)) =
      if fee ask < fee bid then -((100 * fee ask / fee bid : Nat) : Int) else (100 * fee bid / fee ask : Nat) := by
    by_cases less : fee ask < fee bid
    · have cast : ((fee ask : Nat) : Int) < (fee bid : Nat) := by exact_mod_cast less
      rw [if_pos less,if_pos cast,Int.neg_mul,Int.neg_tdiv,mul_comm]
      rfl
    grind
  unfold settlePrice biasedSpot
  simp only [clamp_eq overlap,percent,maxBiasPercent]

theorem biasedSpot_bounds {low high : AbsolutePrice} (spot : AbsolutePrice) (feeAsk feeBid : Nat) (ordered : low ≤ high) :
    low ≤ biasedSpot low high spot feeAsk feeBid ∧ biasedSpot low high spot feeAsk feeBid ≤ high :=
  ⟨le_max_left _ _,max_le ordered (min_le_left _ _)⟩

-- `p` is the price of the trade. If the ask is the scarce side, a whole amount of
-- quote lies between what it asks for and what it is worth; otherwise a whole
-- amount of base lies between what the bid demands and what it can buy.
def RoomToRound (supply quoteInput : Nat) (askPrice bidPrice p : AbsolutePrice) : Prop :=
  0 < p ∧ (quoteInput : ℚ) < p * 2^64 ∧
    if p * ((supply + 1 : Nat) : ℚ) ≤ quoteInput then ∃ n : Nat, askPrice * supply ≤ n ∧ (n : ℚ) ≤ p * supply
    else ∃ n : Nat, (quoteInput : ℚ) ≤ bidPrice * n ∧ p * n ≤ quoteInput

@[grind cases eager] structure WithinLimits (ask bid : T) (base quote : Nat) : Prop where
  supplied : base ≤ input ask
  paid : quote ≤ input bid
  askLimit : price ask * base ≤ quote
  bidLimit : (quote : ℚ) ≤ price bid * base
  exhausted : base = input ask ∨ quote = input bid

section Settled
variable {ask bid : T} {p : AbsolutePrice} {quote base : Nat} (typed : input bid < 2^64)
include typed

theorem settledAmounts_eq (unsigned : 0 ≤ p) : settledAmounts ask bid p = some (quote,base) ↔
    0 < p ∧ (input bid : ℚ) < p * 2^64 ∧
      if p * ((input ask + 1 : Nat) : ℚ) ≤ input bid then base = input ask ∧ quote = linearOutput (input ask) (.ask p)
      else base = linearOutput (input bid) (.bid p) ∧ quote = input bid := by
  have scarce : 0 < p → (input ask < linearOutput (input bid) (.bid p) ↔ p * ((input ask + 1 : Nat) : ℚ) ≤ input bid) :=
    fun positive => linearOutput_bid_iff positive
  constructor
  · intro settled
    obtain ⟨demand,bought,settled⟩ := Option.bind_eq_some_iff.mp settled
    obtain ⟨positive,small,rfl⟩ := (linearOutputUnsafe_bid unsigned).mp bought
    refine ⟨positive,small,?_⟩
    simp only [scarce positive] at settled
    split
    · rename_i less
      rw [if_pos less] at settled
      obtain ⟨executed,sold,made⟩ := Option.bind_eq_some_iff.mp settled
      cases made
      exact ⟨rfl,(asU64_eq_some.mp sold).1.symm⟩
    grind
  · rintro ⟨positive,small,amounts⟩
    refine Option.bind_eq_some_iff.mpr ⟨_,(linearOutputUnsafe_bid unsigned).mpr ⟨positive,small,rfl⟩,?_⟩
    simp only [scarce positive]
    split at amounts
    · rename_i less
      obtain ⟨rfl,rfl⟩ := amounts
      have sold : linearOutput (input ask) (.ask p) < 2^64 := lt_of_le_of_lt (linearOutput_covered ((scarce positive).mpr less)) typed
      rw [if_pos less]
      exact Option.bind_eq_some_iff.mpr ⟨_,asU64_eq_some.mpr ⟨rfl,sold⟩,rfl⟩
    grind

theorem settledAmounts_limits (unsigned : 0 ≤ price ask) (lower : price ask ≤ p) (upper : p ≤ price bid) :
    (∃ quote base, settledAmounts ask bid p = some (quote,base) ∧ WithinLimits ask bid base quote) ↔
      RoomToRound (input ask) (input bid) (price ask) (price bid) p := by
  have amounts : ∀ quote base, settledAmounts ask bid p = some (quote,base) ↔ _ := fun _ _ => settledAmounts_eq typed (le_trans unsigned lower)
  simp only [amounts]
  unfold RoomToRound
  by_cases positive : 0 < p
  · by_cases scarce : p * ((input ask + 1 : Nat) : ℚ) ≤ input bid
    · have sold : ((linearOutput (input ask) (.ask p) : Nat) : ℚ) ≤ p * input ask := (linearOutput_ask_iff positive).mp le_rfl
      have room : price ask * input ask ≤ linearOutput (input ask) (.ask p) ↔
          ∃ n : Nat, price ask * input ask ≤ n ∧ (n : ℚ) ≤ p * input ask :=
        room_iff (fun n => price ask * input ask ≤ (n : ℚ)) (fun n => linearOutput_ask_iff positive)
          (fun m n order bounded => le_trans bounded (by exact_mod_cast order))
      simp only [if_pos scarce]
      rw [← room]
      constructor
      · grind
      · rintro ⟨_,small,bounded⟩
        refine ⟨_,_,⟨positive,small,rfl,rfl⟩,le_rfl,linearOutput_covered ((linearOutput_bid_iff positive).mpr scarce),bounded,?_,.inl rfl⟩
        exact le_trans sold (mul_le_mul_of_nonneg_right upper (Nat.cast_nonneg _))
    · have bought : p * (linearOutput (input bid) (.bid p) : Nat) ≤ input bid := (linearOutput_bid_iff positive).mp le_rfl
      have room : (input bid : ℚ) ≤ price bid * (linearOutput (input bid) (.bid p) : Nat) ↔
          ∃ n : Nat, (input bid : ℚ) ≤ price bid * n ∧ p * n ≤ input bid :=
        room_iff (fun n => (input bid : ℚ) ≤ price bid * n) (fun n => linearOutput_bid_iff positive)
          (fun m n order bounded => le_trans bounded
            (mul_le_mul_of_nonneg_left (by exact_mod_cast order) (le_trans positive.le upper)))
      simp only [if_neg scarce]
      rw [← room]
      constructor
      · grind
      · rintro ⟨_,small,bounded⟩
        refine ⟨_,_,⟨positive,small,rfl,rfl⟩,?_,le_rfl,?_,bounded,.inr rfl⟩
        · by_contra more
          exact scarce ((linearOutput_bid_iff positive).mp (not_le.mp more))
        · exact le_trans (mul_le_mul_of_nonneg_right lower (Nat.cast_nonneg _)) bought
  · simp [positive]

end Settled

variable [TakerBehaviour T]

def tryExecuteWithTaker (target counter : T) (matchmaker : T → T → AbsolutePrice) : Option (TakeInProgress T × TakeInProgress T) :=
  let (ask,bid) := match side target with
    | .ask => (target,counter)
    | .bid => (counter,target)
  (settledAmounts ask bid (matchmaker ask bid)).map (fun (quote,base) =>
    (⟨ask,withAppliedTrade ask base quote⟩,⟨bid,withAppliedTrade bid quote base⟩))

theorem crossTakers_settled {ask bid : T} (settled : settledAmounts ask bid p = some (quote,base)) :
    crossTakers ask bid p = (⟨ask,withAppliedTrade ask base quote⟩,⟨bid,withAppliedTrade bid quote base⟩) := by
  obtain ⟨demand,bought,settled⟩ := Option.bind_eq_some_iff.mp settled
  obtain rfl := linearOutputUnsafe_eq bought
  unfold crossTakers
  simp only at settled ⊢
  split at settled
  · rename_i less
    obtain ⟨executed,sold,made⟩ := Option.bind_eq_some_iff.mp settled
    cases made
    rw [if_pos less,linearOutputUnsafe_eq sold]
  grind

theorem tryExecuteWithTaker_eq {target counter : T} (executed : tryExecuteWithTaker target counter matchmaker = some result) :
    executeWithTaker target counter matchmaker = result := by
  unfold tryExecuteWithTaker at executed
  unfold executeWithTaker
  cases market : side target with
  | ask =>
    rw [market] at executed
    obtain ⟨⟨quote,base⟩,settled,rfl⟩ := Option.map_eq_some_iff.mp executed
    exact crossTakers_settled settled
  | bid =>
    rw [market] at executed
    obtain ⟨⟨quote,base⟩,settled,rfl⟩ := Option.map_eq_some_iff.mp executed
    exact crossTakers_settled settled

@[grind cases eager] structure Settles (ask bid target counter : T) (spot : AbsolutePrice) (base quote : Nat) : Prop where
  amounts : settledAmounts ask bid (settlePrice ask bid spot) = some (quote,base)
  executed : tryExecuteWithTaker target counter (fun ask bid => settlePrice ask bid spot) =
    some (⟨ask,withAppliedTrade ask base quote⟩,⟨bid,withAppliedTrade bid quote base⟩)

theorem Settles.of_amounts {ask bid target counter : T} (asks : side ask = .ask) (bids : side bid = .bid)
    (pair : target = ask ∧ counter = bid ∨ target = bid ∧ counter = ask)
    (amounts : settledAmounts ask bid (settlePrice ask bid spot) = some (quote,base)) : Settles ask bid target counter spot base quote := by
  refine ⟨amounts,?_⟩
  unfold tryExecuteWithTaker
  grind

theorem settlement_limits_iff {ask bid target counter : T} (spot : AbsolutePrice) (asks : side ask = .ask) (bids : side bid = .bid)
    (pair : target = ask ∧ counter = bid ∨ target = bid ∧ counter = ask) (typed : input bid < 2^64)
    (unsigned : 0 ≤ price ask) (overlap : price ask ≤ price bid) :
    (∃ base quote, Settles ask bid target counter spot base quote ∧ WithinLimits ask bid base quote) ↔
      RoomToRound (input ask) (input bid) (price ask) (price bid) (biasedSpot (price ask) (price bid) spot (fee ask) (fee bid)) := by
  obtain ⟨lower,upper⟩ := biasedSpot_bounds spot (fee ask) (fee bid) overlap
  rw [← settledAmounts_limits typed unsigned lower upper,← settlePrice_eq spot overlap]
  constructor
  · rintro ⟨base,quote,settles,within⟩
    exact ⟨quote,base,settles.amounts,within⟩
  · rintro ⟨quote,base,amounts,within⟩
    exact ⟨base,quote,.of_amounts asks bids pair amounts,within⟩

end

-- An order with a side, an input and a limit, and no fee.
structure LimitOrder where
  market : Side
  amount : Nat
  limit : AbsolutePrice

instance : MarketTaker LimitOrder Unit where
  side := LimitOrder.market
  input := LimitOrder.amount
  output _ := 0
  price := LimitOrder.limit
  operatorFee _ _ := 0
  fee _ := 0
  budget _ := 0
  consumableBudget _ := 0
  marginalCostHint _ := ()
  minMarginalOutput _ := 0
  timeBounds _ := .none

instance : TakerBehaviour LimitOrder where
  withUpdatedTime order _ := .succ order
  withAppliedTrade order removed _ := .succ {order with amount:=order.amount-removed}
  withBudgetCorrected order _ := (0,order)
  withFeeCharged order _ := order
  withOutputAdded order _ := order
  tryTerminate order := .succ order

def smallAsk : LimitOrder := ⟨.ask,1,1/2⟩
def largeAsk : LimitOrder := ⟨.ask,4,1/2⟩
def openBid : LimitOrder := ⟨.bid,10,1⟩

-- One unit of base, asked for at 1/2 and settled at 1/2, is sold for nothing.
theorem settlement_rounds_down : 0 < input smallAsk ∧ 0 < input openBid ∧ price smallAsk ≤ price openBid ∧
    settledAmounts smallAsk openBid (settlePrice smallAsk openBid (1/2)) = some (0,1) ∧
    ¬∃ base quote, Settles smallAsk openBid smallAsk openBid (1/2) base quote ∧ WithinLimits smallAsk openBid base quote := by
  have settled : settledAmounts smallAsk openBid (settlePrice smallAsk openBid (1/2)) = some (0,1) := by decide +kernel
  refine ⟨by decide,by decide,by decide +kernel,settled,?_⟩
  rintro ⟨base,quote,settles,within⟩
  cases settled.symm.trans settles.amounts
  have limit := within.askLimit
  change (1/2 : ℚ) * ((1 : Nat) : ℚ) ≤ ((0 : Nat) : ℚ) at limit
  norm_num at limit

theorem settlement_with_room : ∃ base quote,
    Settles largeAsk openBid openBid largeAsk (3/4) base quote ∧ WithinLimits largeAsk openBid base quote := by
  refine (settlement_limits_iff (3/4) rfl rfl (.inr ⟨rfl,rfl⟩) (by decide) (by decide +kernel) (by decide +kernel)).mpr ?_
  have settled : biasedSpot (price largeAsk) (price openBid) (3/4) (fee largeAsk) (fee openBid) = 3/4 := by decide +kernel
  rw [settled]
  refine ⟨by norm_num,by decide +kernel,?_⟩
  rw [if_pos (by decide +kernel)]
  exact ⟨3,by decide +kernel,by decide +kernel⟩

end GreenAgent.Book
