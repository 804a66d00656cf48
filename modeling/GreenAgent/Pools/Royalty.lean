import GreenAgent.Green.Lawful

namespace GreenAgent.Pools
open Account (AssetClass Token)
open Green (orderCanonical ExUnits GreenOrder)
open Book (Side OnSide Next AbsolutePrice AbsoluteReserves AvailableLiquidity MarketMaker MakerBehavior TakeInProgress MakeInProgress TakerBehaviour
  tradeOutput loss checkedSub)

def feeDen : Nat := 100000

def untouchableLovelaceAmount : Nat := 3000000

-- What a pool holds of one asset, and which part of it belongs to the treasury
-- and to the royalty. No pool is read from the ledger that does not cover both.
structure Leg where
  reserves : Nat
  treasury : Nat
  royalty : Nat
  covered : treasury + royalty ≤ reserves
deriving DecidableEq

def Leg.tradable (leg : Leg) : Nat := leg.reserves - leg.treasury - leg.royalty

-- `RoyaltyV1PoolOnly`: the pool has one royalty, the second one of the type is
-- zero. Fee numerators are over `feeDen`.
structure RoyaltyPool where
  id : Token
  assetX : AssetClass
  assetY : AssetClass
  x : Leg
  y : Leg
  lpFeeNum : Nat
  treasuryFeeNum : Nat
  royaltyFeeNum : Nat
  liquidity : Nat
  lqLowerBound : Nat
  minN2tLovelace : Nat
  marginalCost : ExUnits
  distinct : assetX ≠ assetY
  fees : treasuryFeeNum + royaltyFeeNum ≤ lpFeeNum
  sharesOut : treasuryFeeNum + royaltyFeeNum ≤ feeDen
deriving DecidableEq

-- Amounts do not overflow; reducing the fee ratio changes nothing in the quotient.
def classicCfmmOutputAmount (assetX assetY : AssetClass) (reservesX reservesY : Nat) (baseAsset : AssetClass) (baseAmount poolFee : Nat) : Nat :=
  let quoteAmount :=
    if baseAsset = assetX then reservesY * baseAmount * poolFee / (reservesX * feeDen + baseAmount * poolFee)
    else reservesX * baseAmount * poolFee / (reservesY * feeDen + baseAmount * poolFee)
  let (outputAsset,liquidity) := if baseAsset = assetX then (assetY,reservesY) else (assetX,reservesX)
  if outputAsset = .native then
    if liquidity - quoteAmount < untouchableLovelaceAmount then liquidity - untouchableLovelaceAmount else quoteAmount
  else quoteAmount

theorem quotient_le (reserves amount fee other : Nat) : reserves * amount * fee / (other + amount * fee) ≤ reserves := by
  apply Nat.div_le_of_le_mul
  rw [Nat.add_mul,Nat.mul_assoc,Nat.mul_comm reserves]
  exact Nat.le_add_left _ _

theorem classicCfmmOutputAmount_le_y (assetX assetY : AssetClass) (reservesX reservesY baseAmount poolFee : Nat) :
    classicCfmmOutputAmount assetX assetY reservesX reservesY assetX baseAmount poolFee ≤ reservesY := by
  have bounded := quotient_le reservesY baseAmount poolFee (reservesX * feeDen)
  unfold classicCfmmOutputAmount
  simp only [if_true]
  split_ifs <;> omega

theorem classicCfmmOutputAmount_le_x {assetX baseAsset : AssetClass} (other : baseAsset ≠ assetX) (assetY : AssetClass)
    (reservesX reservesY baseAmount poolFee : Nat) :
    classicCfmmOutputAmount assetX assetY reservesX reservesY baseAsset baseAmount poolFee ≤ reservesX := by
  have bounded := quotient_le reservesX baseAmount poolFee (reservesY * feeDen)
  unfold classicCfmmOutputAmount
  simp only [other,if_false]
  split_ifs <;> omega

namespace Leg

theorem shares_covered (leg : Leg) {amount treasuryFee royaltyFee : Nat} (shares : treasuryFee + royaltyFee ≤ feeDen) :
    leg.treasury + amount * treasuryFee % 2^64 / feeDen + (leg.royalty + amount * royaltyFee % 2^64 / feeDen) ≤ leg.reserves + amount := by
  have covered := leg.covered
  have both : amount * treasuryFee % 2^64 / feeDen + amount * royaltyFee % 2^64 / feeDen ≤ amount := by
    calc amount * treasuryFee % 2^64 / feeDen + amount * royaltyFee % 2^64 / feeDen
        ≤ (amount * treasuryFee % 2^64 + amount * royaltyFee % 2^64) / feeDen := Nat.div_add_div_le_add_div ..
      _ ≤ (amount * treasuryFee + amount * royaltyFee) / feeDen := Nat.div_le_div_right (Nat.add_le_add (Nat.mod_le _ _) (Nat.mod_le _ _))
      _ ≤ amount * feeDen / feeDen := Nat.div_le_div_right (by rw [← Nat.mul_add]; exact Nat.mul_le_mul_left _ shares)
      _ = amount := Nat.mul_div_cancel _ (by decide)
  omega

-- The products with the fee numerators are `u64`s.
def receive (leg : Leg) (amount treasuryFee royaltyFee : Nat) (shares : treasuryFee + royaltyFee ≤ feeDen) : Leg where
  reserves := leg.reserves + amount
  treasury := leg.treasury + amount * treasuryFee % 2^64 / feeDen
  royalty := leg.royalty + amount * royaltyFee % 2^64 / feeDen
  covered := leg.shares_covered shares

def pay (leg : Leg) (amount : Nat) (bounded : amount ≤ leg.tradable) : Leg where
  reserves := leg.reserves - amount
  treasury := leg.treasury
  royalty := leg.royalty
  covered := by
    have covered := leg.covered
    unfold tradable at bounded
    omega

end Leg

namespace RoyaltyPool

def base (pool : RoyaltyPool) : AssetClass := (orderCanonical pool.assetX pool.assetY).1

def quote (pool : RoyaltyPool) : AssetClass := (orderCanonical pool.assetX pool.assetY).2

theorem canonical (pool : RoyaltyPool) : pool.base = pool.assetX ∧ pool.quote = pool.assetY ∨ pool.base = pool.assetY ∧ pool.quote = pool.assetX := by
  unfold base quote orderCanonical
  split
  · exact .inr ⟨rfl,rfl⟩
  · exact .inl ⟨rfl,rfl⟩

def outputAmount (pool : RoyaltyPool) (baseAsset : AssetClass) (baseAmount : Nat) : Nat :=
  classicCfmmOutputAmount pool.assetX pool.assetY pool.x.tradable pool.y.tradable baseAsset baseAmount
    (pool.lpFeeNum - pool.treasuryFeeNum - pool.royaltyFeeNum)

def inputAsset (pool : RoyaltyPool) : Side → AssetClass
  | .bid => pool.quote
  | .ask => pool.base

theorem output_le_y (pool : RoyaltyPool) {asset : AssetClass} (same : asset = pool.assetX) (amount : Nat) :
    pool.outputAmount asset amount ≤ pool.y.tradable := same ▸ classicCfmmOutputAmount_le_y ..

theorem output_le_x (pool : RoyaltyPool) {asset : AssetClass} (other : asset ≠ pool.assetX) (amount : Nat) :
    pool.outputAmount asset amount ≤ pool.x.tradable := classicCfmmOutputAmount_le_x other ..

-- The asset given goes to its own leg, the output leaves the other.
def trade (pool : RoyaltyPool) (asset : AssetClass) (amount : Nat) : RoyaltyPool :=
  if same : asset = pool.assetX then
    {pool with
      x:=pool.x.receive amount pool.treasuryFeeNum pool.royaltyFeeNum pool.sharesOut,
      y:=pool.y.pay (pool.outputAmount asset amount) (pool.output_le_y same amount)}
  else
    {pool with
      y:=pool.y.receive amount pool.treasuryFeeNum pool.royaltyFeeNum pool.sharesOut,
      x:=pool.x.pay (pool.outputAmount asset amount) (pool.output_le_x same amount)}

def swap (pool : RoyaltyPool) : OnSide Nat → RoyaltyPool
  | .bid amount => pool.trade pool.quote amount
  | .ask amount => pool.trade pool.base amount

def staticPrice (pool : RoyaltyPool) : AbsolutePrice :=
  if pool.x.tradable = pool.y.tradable then 1
  else if pool.assetX = pool.base then (pool.y.tradable : ℚ) / pool.x.tradable
  else (pool.x.tradable : ℚ) / pool.y.tradable

def realPrice (pool : RoyaltyPool) : OnSide Nat → Option AbsolutePrice
  | .bid amount => AbsolutePrice.new amount (pool.outputAmount pool.quote amount)
  | .ask amount => AbsolutePrice.new (pool.outputAmount pool.base amount) amount

def isActive (pool : RoyaltyPool) : Bool :=
  decide (pool.lqLowerBound ≤ pool.x.reserves * 2) &&
    (if pool.assetX = .native then decide (pool.minN2tLovelace ≤ pool.x.reserves)
    else if pool.assetY = .native then decide (pool.minN2tLovelace ≤ pool.y.reserves)
    else true)

def reserves (pool : RoyaltyPool) : AbsoluteReserves :=
  if pool.base = pool.assetX then ⟨pool.x.reserves,pool.y.reserves⟩ else ⟨pool.y.reserves,pool.x.reserves⟩

end RoyaltyPool

-- `available_liquidity_on_side` computes with floating point numbers; here it is
-- any function.
class Estimates where
  availableLiquidityOnSide : RoyaltyPool → OnSide AbsolutePrice → Option AvailableLiquidity

namespace NoEstimates
scoped instance : Estimates := ⟨fun _ _ => none⟩
end NoEstimates

instance : Book.Stable RoyaltyPool Token := ⟨RoyaltyPool.id⟩

instance [Estimates] : MarketMaker RoyaltyPool GreenOrder ExUnits where
  staticPrice := RoyaltyPool.staticPrice
  realPrice := RoyaltyPool.realPrice
  effectivePrice pool _ := pool.realPrice
  quality := RoyaltyPool.liquidity
  marginalCostHint := RoyaltyPool.marginalCost
  liquidity := RoyaltyPool.reserves
  availableLiquidityOnSide := Estimates.availableLiquidityOnSide
  isActive := RoyaltyPool.isActive

instance [Estimates] : MakerBehavior RoyaltyPool GreenOrder where
  swap pool input := .succ (pool.swap input)
  preservePreviewMetadata _ _ rebalanced := rebalanced
  swapWithTaker pool taker input :=
    let make : MakeInProgress RoyaltyPool := ⟨pool,.succ (pool.swap input)⟩
    (⟨taker,TakerBehaviour.withAppliedTrade taker input.unwrap (tradeOutput GreenOrder make)⟩,make)

namespace RoyaltyPool

def leg (pool : RoyaltyPool) (asset : AssetClass) : Leg := if asset = pool.assetX then pool.x else pool.y

theorem reserves_of (pool : RoyaltyPool) (s : Side) : pool.reserves.of s = (pool.leg (pool.inputAsset s)).reserves := by
  have distinct := pool.distinct
  unfold reserves leg
  rcases pool.canonical with ⟨base,quote⟩ | ⟨base,quote⟩
  · cases s <;> simp [AbsoluteReserves.of,inputAsset,base,quote,distinct.symm]
  · cases s <;> simp [AbsoluteReserves.of,inputAsset,base,quote,distinct.symm]

theorem inputAsset_not (pool : RoyaltyPool) (s : Side) : pool.inputAsset s.not ≠ pool.inputAsset s := by
  have distinct := pool.distinct
  rcases pool.canonical with ⟨base,quote⟩ | ⟨base,quote⟩
  · cases s <;> simp [Side.not,inputAsset,base,quote,distinct,distinct.symm]
  · cases s <;> simp [Side.not,inputAsset,base,quote,distinct,distinct.symm]

theorem output_le (pool : RoyaltyPool) (s : Side) (amount : Nat) :
    pool.outputAmount (pool.inputAsset s) amount ≤ (pool.leg (pool.inputAsset s.not)).reserves := by
  have within : ∀ leg : Leg, leg.tradable ≤ leg.reserves := fun leg => le_trans (Nat.sub_le _ _) (Nat.sub_le _ _)
  have other := pool.inputAsset_not s
  by_cases same : pool.inputAsset s = pool.assetX
  · have leg : pool.leg (pool.inputAsset s.not) = pool.y := if_neg (same ▸ other)
    rw [leg]
    exact le_trans (pool.output_le_y same amount) (within _)
  · have leg : pool.leg (pool.inputAsset s.not) = pool.x := by
      refine if_pos ?_
      rcases pool.canonical with ⟨base,quote⟩ | ⟨base,quote⟩ <;> cases s <;> simp_all [inputAsset,Side.not]
    rw [leg]
    exact le_trans (pool.output_le_x same amount) (within _)

theorem trade_inputAsset (pool : RoyaltyPool) (asset : AssetClass) (amount : Nat) (s : Side) :
    (pool.trade asset amount).inputAsset s = pool.inputAsset s := by
  unfold trade
  split <;> rfl

theorem trade_id (pool : RoyaltyPool) (asset : AssetClass) (amount : Nat) : (pool.trade asset amount).id = pool.id := by
  unfold trade
  split <;> rfl

theorem swap_wrap (pool : RoyaltyPool) (s : Side) (amount : Nat) : pool.swap (s.wrap amount) = pool.trade (pool.inputAsset s) amount := by
  cases s <;> rfl

theorem trade_given (pool : RoyaltyPool) (asset : AssetClass) (amount : Nat) :
    ((pool.trade asset amount).leg asset).reserves = (pool.leg asset).reserves + amount := by
  unfold trade leg
  split <;> simp_all [Leg.receive]

theorem trade_paid (pool : RoyaltyPool) (s : Side) (amount : Nat) :
    ((pool.trade (pool.inputAsset s) amount).leg (pool.inputAsset s.not)).reserves =
      (pool.leg (pool.inputAsset s.not)).reserves - pool.outputAmount (pool.inputAsset s) amount := by
  have other := pool.inputAsset_not s
  have either : pool.inputAsset s = pool.assetX ∨ pool.inputAsset s.not = pool.assetX := by
    rcases pool.canonical with ⟨base,quote⟩ | ⟨base,quote⟩ <;> cases s <;> simp_all [inputAsset,Side.not]
  unfold trade leg
  split
  · rename_i same
    rw [if_neg (same ▸ other),if_neg (same ▸ other)]
    rfl
  · rename_i different
    rw [if_pos (either.resolve_left different),if_pos (either.resolve_left different)]
    rfl

theorem swap_gains (pool : RoyaltyPool) (s : Side) (amount : Nat) : (pool.swap (s.wrap amount)).reserves.of s = pool.reserves.of s + amount := by
  rw [swap_wrap,reserves_of,reserves_of,trade_inputAsset]
  exact pool.trade_given _ amount

theorem swap_pays (pool : RoyaltyPool) (s : Side) (amount : Nat) :
    (pool.swap (s.wrap amount)).reserves.of s.not + pool.outputAmount (pool.inputAsset s) amount = pool.reserves.of s.not := by
  have bounded := pool.output_le s amount
  rw [swap_wrap,reserves_of,reserves_of,trade_inputAsset,trade_paid]
  omega

theorem outputAmount_zero (pool : RoyaltyPool) (asset : AssetClass) : pool.outputAmount asset 0 = 0 := by
  unfold outputAmount classicCfmmOutputAmount
  simp only [Nat.mul_zero,Nat.zero_mul,Nat.zero_div,ite_self,Nat.sub_zero]
  split_ifs <;> omega

end RoyaltyPool

theorem tradeOutput_bid [MarketMaker M T U] {make : MakeInProgress M}
    (pays : (MarketMaker.liquidity T make.successor).base + paid = (MarketMaker.liquidity T make.target).base) : tradeOutput T make = paid := by
  unfold tradeOutput loss checkedSub
  simp only
  rw [if_pos (by omega)]
  exact Nat.sub_eq_of_eq_add' pays.symm

theorem tradeOutput_ask [MarketMaker M T U] {make : MakeInProgress M}
    (gains : (MarketMaker.liquidity T make.successor).base = (MarketMaker.liquidity T make.target).base + amount)
    (pays : (MarketMaker.liquidity T make.successor).quote + paid = (MarketMaker.liquidity T make.target).quote)
    (nothing : amount = 0 → paid = 0) : tradeOutput T make = paid := by
  unfold tradeOutput loss checkedSub
  simp only
  rcases Nat.eq_zero_or_pos amount with zero | positive
  · rw [if_pos (by omega),nothing zero]
    change _ - _ = 0
    omega
  · rw [if_neg (by omega),if_pos (by omega)]
    exact Nat.sub_eq_of_eq_add' pays.symm

theorem RoyaltyPool.swap_output [Estimates] (pool : RoyaltyPool) (s : Side) (amount : Nat) :
    tradeOutput GreenOrder (⟨pool,.succ (pool.swap (s.wrap amount))⟩ : MakeInProgress RoyaltyPool) = pool.outputAmount (pool.inputAsset s) amount := by
  cases s with
  | bid => exact tradeOutput_bid (pool.swap_pays .bid amount)
  | ask => exact tradeOutput_ask (pool.swap_gains .ask amount) (pool.swap_pays .ask amount) (fun zero => by rw [zero]; exact pool.outputAmount_zero _)

instance [Estimates] : Book.LawfulMaker RoyaltyPool GreenOrder where
  gains := RoyaltyPool.swap_gains
  pays pool s amount := by
    have paid := pool.swap_output s amount
    change (pool.swap (s.wrap amount)).reserves.of s.not + tradeOutput GreenOrder (⟨pool,.succ (pool.swap (s.wrap amount))⟩ : MakeInProgress RoyaltyPool) =
      pool.reserves.of s.not
    rw [paid]
    exact pool.swap_pays s amount
  same pool input := by
    cases input with
    | bid amount => exact pool.trade_id pool.quote amount
    | ask amount => exact pool.trade_id pool.base amount
  preserves _ _ _ := rfl
  deals _ _ _ := rfl

end GreenAgent.Pools
