import GreenAgent.Lib.Tracked
import GreenAgent.Pools.Royalty

namespace GreenAgent.Pools.Machine
open Mpf (Bytes)
open Account (AssetClass Token Hash28)
open Green (orderCanonical ExUnits)
open Book (OnSide AbsolutePrice)

-- `Ratio<u64>`.
structure Ratio where
  numer : Nat
  denom : Nat
deriving DecidableEq

namespace Ratio

-- `Ratio::new` reduces and panics on a zero denominator.
def new (numer denom : Nat) : Tracked Ratio := ⟨⟨numer / numer.gcd denom,denom / numer.gcd denom⟩,decide (denom ≠ 0)⟩

def lcm (a b : Nat) : Tracked Nat := Tracked.mul 64 a (b / a.gcd b)

def sub (a b : Ratio) : Tracked Ratio :=
  if a.denom = b.denom then do
    let numer ← Tracked.sub 64 a.numer b.numer
    new numer b.denom
  else do
    let common ← lcm a.denom b.denom
    let left ← Tracked.mul 64 a.numer (common / a.denom)
    let right ← Tracked.mul 64 b.numer (common / b.denom)
    let numer ← Tracked.sub 64 left right
    new numer common

def val (ratio : Ratio) : ℚ := (ratio.numer : ℚ) / ratio.denom

end Ratio

-- What a pool holds of one asset.
structure Holding where
  reserves : Nat
  treasury : Nat
  firstRoyalty : Nat
  secondRoyalty : Nat
deriving DecidableEq

inductive RoyaltyPoolVer where
  | v1
  | v1LedgerFixed
  | v2
deriving DecidableEq

structure PoolValidation where
  minN2tLovelace : Nat
  minT2tLovelace : Nat
deriving DecidableEq

structure RoyaltyPool where
  id : Token
  x : Holding
  y : Holding
  liquidity : Nat
  assetX : AssetClass
  assetY : AssetClass
  assetLq : AssetClass
  lpFee : Ratio
  treasuryFee : Ratio
  firstRoyaltyFee : Ratio
  secondRoyaltyFee : Ratio
  lqLowerBound : Nat
  adminAddress : Hash28
  treasuryAddress : Hash28
  firstRoyaltyPubKey : Bytes
  secondRoyaltyPubKey : Bytes
  ver : RoyaltyPoolVer
  marginalCost : ExUnits
  bounds : PoolValidation
  nonce : Nat
  stakePartScriptHash : Option Hash28
deriving DecidableEq

-- Reserves less what belongs to the treasury and to the royalties.
def Holding.tradable (holding : Holding) : Tracked Nat := do
  let left ← Tracked.sub 64 holding.reserves holding.treasury
  let left ← Tracked.sub 64 left holding.firstRoyalty
  Tracked.sub 64 left holding.secondRoyalty

def quoteAmount (given paid amount : Nat) (fee : Ratio) : Tracked Nat := do
  let product ← Tracked.mul 128 paid amount
  let numer ← Tracked.mul 128 product fee.numer
  let reserves ← Tracked.mul 128 given fee.denom
  let added ← Tracked.mul 128 amount fee.numer
  let denom ← Tracked.add 128 reserves added
  Tracked.div numer denom

-- Some lovelace always stays in the pool.
def cappedQuote (untouchable : Nat) (native : Bool) (liquidity quote : Nat) : Tracked Nat :=
  if native then do
    let amountLeft ← Tracked.sub 64 liquidity (quote % 2^64)
    if amountLeft < untouchable then Tracked.sub 64 liquidity untouchable else pure (quote % 2^64)
  else pure (quote % 2^64)

def classicCfmmOutputAmount (assetX assetY : AssetClass) (reservesX reservesY : Nat) (baseAsset : AssetClass) (baseAmount : Nat)
    (poolFeeX poolFeeY : Ratio) : Tracked Nat :=
  if baseAsset = assetX then do
    let quote ← quoteAmount reservesX reservesY baseAmount poolFeeX
    cappedQuote untouchableLovelaceAmount (decide (assetY = .native)) reservesY quote
  else do
    let quote ← quoteAmount reservesY reservesX baseAmount poolFeeY
    cappedQuote untouchableLovelaceAmount (decide (assetX = .native)) reservesX quote

namespace RoyaltyPool

def base (pool : RoyaltyPool) : AssetClass := (orderCanonical pool.assetX pool.assetY).1

def quote (pool : RoyaltyPool) : AssetClass := (orderCanonical pool.assetX pool.assetY).2

def poolFee (pool : RoyaltyPool) : Tracked Ratio := do
  let fee ← pool.lpFee.sub pool.treasuryFee
  let fee ← fee.sub pool.firstRoyaltyFee
  fee.sub pool.secondRoyaltyFee

def outputAmount (pool : RoyaltyPool) (baseAsset : AssetClass) (baseAmount : Nat) : Tracked Nat := do
  let reservesX ← pool.x.tradable
  let reservesY ← pool.y.tradable
  let feeX ← pool.poolFee
  let feeY ← pool.poolFee
  classicCfmmOutputAmount pool.assetX pool.assetY reservesX reservesY baseAsset baseAmount feeX feeY

-- The share of the input that a fee takes.
def share (fee : Ratio) (amount : Nat) : Tracked Nat := do
  let product ← Tracked.mul 64 amount fee.numer
  Tracked.div product fee.denom

def receive (pool : RoyaltyPool) (holding : Holding) (amount : Nat) : Tracked Holding := do
  let reserves ← Tracked.add 64 holding.reserves amount
  let treasury ← Tracked.add 64 holding.treasury (← share pool.treasuryFee amount)
  let firstRoyalty ← Tracked.add 64 holding.firstRoyalty (← share pool.firstRoyaltyFee amount)
  let secondRoyalty ← Tracked.add 64 holding.secondRoyalty (← share pool.secondRoyaltyFee amount)
  return ⟨reserves,treasury,firstRoyalty,secondRoyalty⟩

def pay (holding : Holding) (amount : Nat) : Tracked Holding := do
  let reserves ← Tracked.sub 64 holding.reserves amount
  return {holding with reserves:=reserves}

def intoX (pool : RoyaltyPool) (input output : Nat) : Tracked RoyaltyPool := do
  let x ← pool.receive pool.x input
  let y ← pay pool.y output
  return {pool with x:=x,y:=y}

def intoY (pool : RoyaltyPool) (input output : Nat) : Tracked RoyaltyPool := do
  let y ← pool.receive pool.y input
  let x ← pay pool.x output
  return {pool with x:=x,y:=y}

def swap (pool : RoyaltyPool) : OnSide Nat → Tracked RoyaltyPool
  | .bid input => do
    let output ← pool.outputAmount pool.quote input
    if pool.assetX = pool.base then pool.intoY input output else pool.intoX input output
  | .ask input => do
    let output ← pool.outputAmount pool.base input
    if pool.assetX = pool.base then pool.intoX input output else pool.intoY input output

def staticPrice (pool : RoyaltyPool) : Tracked AbsolutePrice := do
  let x ← pool.x.tradable
  let y ← pool.y.tradable
  return if x = y then 1 else if pool.assetX = pool.base then (y : ℚ) / x else (x : ℚ) / y

def realPrice (pool : RoyaltyPool) : OnSide Nat → Tracked (Option AbsolutePrice)
  | .bid input => do
    let base ← pool.outputAmount pool.quote input
    return AbsolutePrice.new input base
  | .ask input => do
    let quote ← pool.outputAmount pool.base input
    return AbsolutePrice.new quote input

end RoyaltyPool
end GreenAgent.Pools.Machine
