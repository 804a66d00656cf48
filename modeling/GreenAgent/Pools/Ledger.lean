import GreenAgent.Pools.Machine
import GreenAgent.Cardano.Output
import GreenAgent.Cardano.PlutusData

namespace GreenAgent.Pools.Machine
open Mpf (Bytes)
open Account (AssetClass Token Hash28)
open Green (ExUnits)
open Book (Side AbsoluteReserves checkedSub)
open Cardano (PlutusData PlutusCredential TransactionOutput assetFromPd hashFromRawBytes)

def maxLqCap : Nat := 2^63 - 1

structure DeployedScriptInfo where
  scriptHash : Hash28
  marginalCost : ExUnits

-- What the parser is given besides the output. An address is taken apart by
-- the library: the script hashes of its payment and of its staking part.
structure PoolContext where
  v1 : DeployedScriptInfo
  v1LedgerFixed : DeployedScriptInfo
  bounds : PoolValidation
  paymentScript : Bytes → Option Hash28
  stakingScript : Bytes → Option Hash28

structure RoyaltyPoolConfig where
  poolNft : AssetClass
  assetX : AssetClass
  assetY : AssetClass
  assetLq : AssetClass
  lpFeeNum : Nat
  treasuryFeeNum : Nat
  royaltyFeeNum : Nat
  treasuryX : Nat
  treasuryY : Nat
  royaltyX : Nat
  royaltyY : Nat
  adminAddress : Hash28
  treasuryAddress : Bytes
  royaltyPubKey : Bytes
  nonce : Nat

-- The positions of the datum's fields.
namespace Mapping

def poolNft : Nat := 0
def assetX : Nat := 1
def assetY : Nat := 2
def assetLq : Nat := 3
def lpFeeNum : Nat := 4
def treasuryFeeNum : Nat := 5
def royaltyFeeNum : Nat := 6
def treasuryX : Nat := 7
def treasuryY : Nat := 8
def royaltyX : Nat := 9
def royaltyY : Nat := 10
def adminAddress : Nat := 11
def treasuryAddress : Nat := 12
def royaltyPubKey : Nat := 13
def royaltyNonce : Nat := 14

end Mapping

def takeField (fields : List PlutusData) (index : Nat) (read : PlutusData → Option α) : Option α := fields[index]?.bind read

-- The first of the credentials, all of which must be readable.
def adminFromPd (data : PlutusData) : Option Hash28 := do
  let credentials ← (← data.intoVec).mapM PlutusCredential.tryFromInlinePd
  (← credentials.head?).scriptHash

namespace RoyaltyPoolConfig

def tryFromPd (data : PlutusData) : Option RoyaltyPoolConfig := do
  let (_,fields) ← data.intoConstrPd
  let adminAddress ← takeField fields Mapping.adminAddress adminFromPd
  let poolNft ← takeField fields Mapping.poolNft assetFromPd
  let assetX ← takeField fields Mapping.assetX assetFromPd
  let assetY ← takeField fields Mapping.assetY assetFromPd
  let assetLq ← takeField fields Mapping.assetLq assetFromPd
  let lpFeeNum ← takeField fields Mapping.lpFeeNum PlutusData.intoU64
  let treasuryFeeNum ← takeField fields Mapping.treasuryFeeNum PlutusData.intoU64
  let royaltyFeeNum ← takeField fields Mapping.royaltyFeeNum PlutusData.intoU64
  let treasuryX ← takeField fields Mapping.treasuryX PlutusData.intoU64
  let treasuryY ← takeField fields Mapping.treasuryY PlutusData.intoU64
  let royaltyX ← takeField fields Mapping.royaltyX PlutusData.intoU64
  let royaltyY ← takeField fields Mapping.royaltyY PlutusData.intoU64
  let treasuryAddress ← takeField fields Mapping.treasuryAddress PlutusData.intoBytes
  let royaltyPubKey ← takeField fields Mapping.royaltyPubKey PlutusData.intoBytes
  let nonce ← takeField fields Mapping.royaltyNonce PlutusData.intoU64
  return ⟨poolNft,assetX,assetY,assetLq,lpFeeNum,treasuryFeeNum,royaltyFeeNum,treasuryX,treasuryY,royaltyX,royaltyY,adminAddress,treasuryAddress,
    royaltyPubKey,nonce⟩

-- What the fields of a datum say.
@[grind cases eager] structure Reads (fields : List PlutusData) (conf : RoyaltyPoolConfig) : Prop where
  poolNft : takeField fields Mapping.poolNft assetFromPd = some conf.poolNft
  assetX : takeField fields Mapping.assetX assetFromPd = some conf.assetX
  assetY : takeField fields Mapping.assetY assetFromPd = some conf.assetY
  assetLq : takeField fields Mapping.assetLq assetFromPd = some conf.assetLq
  lpFeeNum : takeField fields Mapping.lpFeeNum PlutusData.intoU64 = some conf.lpFeeNum
  treasuryFeeNum : takeField fields Mapping.treasuryFeeNum PlutusData.intoU64 = some conf.treasuryFeeNum
  royaltyFeeNum : takeField fields Mapping.royaltyFeeNum PlutusData.intoU64 = some conf.royaltyFeeNum
  treasuryX : takeField fields Mapping.treasuryX PlutusData.intoU64 = some conf.treasuryX
  treasuryY : takeField fields Mapping.treasuryY PlutusData.intoU64 = some conf.treasuryY
  royaltyX : takeField fields Mapping.royaltyX PlutusData.intoU64 = some conf.royaltyX
  royaltyY : takeField fields Mapping.royaltyY PlutusData.intoU64 = some conf.royaltyY
  adminAddress : takeField fields Mapping.adminAddress adminFromPd = some conf.adminAddress
  treasuryAddress : takeField fields Mapping.treasuryAddress PlutusData.intoBytes = some conf.treasuryAddress
  royaltyPubKey : takeField fields Mapping.royaltyPubKey PlutusData.intoBytes = some conf.royaltyPubKey
  nonce : takeField fields Mapping.royaltyNonce PlutusData.intoU64 = some conf.nonce

theorem tryFromPd_reads {data : PlutusData} {conf : RoyaltyPoolConfig} :
    tryFromPd data = some conf ↔ ∃ alternative fields,data = .constr alternative fields ∧ Reads fields conf := by
  constructor
  · intro parsed
    obtain ⟨⟨alternative,fields⟩,constr,parsed⟩ := Option.bind_eq_some_iff.mp parsed
    obtain ⟨admin,adminRead,parsed⟩ := Option.bind_eq_some_iff.mp parsed
    obtain ⟨nft,nftRead,parsed⟩ := Option.bind_eq_some_iff.mp parsed
    obtain ⟨x,xRead,parsed⟩ := Option.bind_eq_some_iff.mp parsed
    obtain ⟨y,yRead,parsed⟩ := Option.bind_eq_some_iff.mp parsed
    obtain ⟨lq,lqRead,parsed⟩ := Option.bind_eq_some_iff.mp parsed
    obtain ⟨lp,lpRead,parsed⟩ := Option.bind_eq_some_iff.mp parsed
    obtain ⟨treasury,treasuryRead,parsed⟩ := Option.bind_eq_some_iff.mp parsed
    obtain ⟨royalty,royaltyRead,parsed⟩ := Option.bind_eq_some_iff.mp parsed
    obtain ⟨treasuryX,treasuryXRead,parsed⟩ := Option.bind_eq_some_iff.mp parsed
    obtain ⟨treasuryY,treasuryYRead,parsed⟩ := Option.bind_eq_some_iff.mp parsed
    obtain ⟨royaltyX,royaltyXRead,parsed⟩ := Option.bind_eq_some_iff.mp parsed
    obtain ⟨royaltyY,royaltyYRead,parsed⟩ := Option.bind_eq_some_iff.mp parsed
    obtain ⟨address,addressRead,parsed⟩ := Option.bind_eq_some_iff.mp parsed
    obtain ⟨key,keyRead,parsed⟩ := Option.bind_eq_some_iff.mp parsed
    obtain ⟨nonce,nonceRead,parsed⟩ := Option.bind_eq_some_iff.mp parsed
    cases parsed
    exact ⟨alternative,fields,PlutusData.intoConstrPd_some constr,nftRead,xRead,yRead,lqRead,lpRead,treasuryRead,royaltyRead,treasuryXRead,
      treasuryYRead,royaltyXRead,royaltyYRead,adminRead,addressRead,keyRead,nonceRead⟩
  · rintro ⟨alternative,fields,rfl,reads⟩
    refine Option.bind_eq_some_iff.mpr ⟨_,reads.adminAddress,?_⟩
    refine Option.bind_eq_some_iff.mpr ⟨_,reads.poolNft,?_⟩
    refine Option.bind_eq_some_iff.mpr ⟨_,reads.assetX,?_⟩
    refine Option.bind_eq_some_iff.mpr ⟨_,reads.assetY,?_⟩
    refine Option.bind_eq_some_iff.mpr ⟨_,reads.assetLq,?_⟩
    refine Option.bind_eq_some_iff.mpr ⟨_,reads.lpFeeNum,?_⟩
    refine Option.bind_eq_some_iff.mpr ⟨_,reads.treasuryFeeNum,?_⟩
    refine Option.bind_eq_some_iff.mpr ⟨_,reads.royaltyFeeNum,?_⟩
    refine Option.bind_eq_some_iff.mpr ⟨_,reads.treasuryX,?_⟩
    refine Option.bind_eq_some_iff.mpr ⟨_,reads.treasuryY,?_⟩
    refine Option.bind_eq_some_iff.mpr ⟨_,reads.royaltyX,?_⟩
    refine Option.bind_eq_some_iff.mpr ⟨_,reads.royaltyY,?_⟩
    refine Option.bind_eq_some_iff.mpr ⟨_,reads.treasuryAddress,?_⟩
    refine Option.bind_eq_some_iff.mpr ⟨_,reads.royaltyPubKey,?_⟩
    refine Option.bind_eq_some_iff.mpr ⟨_,reads.nonce,?_⟩
    rfl

end RoyaltyPoolConfig

def PoolContext.tryPoolVerFromAddress (ctx : PoolContext) (address : Bytes) : Option RoyaltyPoolVer := do
  let hash ← ctx.paymentScript address
  if ctx.v1.scriptHash = hash then some .v1
  else if ctx.v1LedgerFixed.scriptHash = hash then some .v1LedgerFixed
  else none

def PoolContext.marginalCost (ctx : PoolContext) : RoyaltyPoolVer → Option ExUnits
  | .v1 => some ctx.v1.marginalCost
  | .v1LedgerFixed => some ctx.v1LedgerFixed.marginalCost
  | .v2 => none

def PoolContext.sufficientLovelace (ctx : PoolContext) (conf : RoyaltyPoolConfig) (lovelace : Nat) : Bool :=
  decide (conf.assetX = .native ∨ conf.assetY = .native ∨ ctx.bounds.minT2tLovelace ≤ lovelace)

def intoToken : AssetClass → Option Token
  | .token token => some token
  | .native => none

-- The pool a datum describes, with what the output and the context add to it.
def RoyaltyPoolConfig.pool (conf : RoyaltyPoolConfig) (ctx : PoolContext) (address : Bytes) (ver : RoyaltyPoolVer) (reservesX reservesY liquidity : Nat)
    (marginalCost : ExUnits) (id : Token) (treasuryAddress : Hash28) : RoyaltyPool where
  id := id
  x := ⟨reservesX,conf.treasuryX,conf.royaltyX,0⟩
  y := ⟨reservesY,conf.treasuryY,conf.royaltyY,0⟩
  liquidity := liquidity
  assetX := conf.assetX
  assetY := conf.assetY
  assetLq := conf.assetLq
  lpFee := ⟨conf.lpFeeNum,feeDen⟩
  treasuryFee := ⟨conf.treasuryFeeNum,feeDen⟩
  firstRoyaltyFee := ⟨conf.royaltyFeeNum,feeDen⟩
  secondRoyaltyFee := ⟨0,100⟩
  lqLowerBound := 0
  adminAddress := conf.adminAddress
  treasuryAddress := treasuryAddress
  firstRoyaltyPubKey := conf.royaltyPubKey
  secondRoyaltyPubKey := List.replicate 32 0
  ver := ver
  marginalCost := marginalCost
  bounds := ctx.bounds
  nonce := conf.nonce
  stakePartScriptHash := ctx.stakingScript address

namespace RoyaltyPool

-- The last part of the parser, once the amounts are known. The sums and the
-- difference are those of the source, wrapped around where they overflow.
def tryFromConfig (ctx : PoolContext) (address : Bytes) (ver : RoyaltyPoolVer) (conf : RoyaltyPoolConfig) (reservesX reservesY lovelace : Nat)
    (dueX dueY liquidity : Tracked Nat) : Option (Tracked RoyaltyPool) := do
  let marginalCost ← ctx.marginalCost ver
  let pureReservesX ← checkedSub reservesX dueX.value
  let pureReservesY ← checkedSub reservesY dueY.value
  if pureReservesX = 0 ∨ pureReservesY = 0 ∨ ¬ctx.sufficientLovelace conf lovelace then none
  else do
    let id ← intoToken conf.poolNft
    let treasuryAddress ← hashFromRawBytes conf.treasuryAddress
    if conf.royaltyPubKey.length = 32 then
      some ⟨conf.pool ctx address ver reservesX reservesY liquidity.value marginalCost id treasuryAddress,dueX.fits && dueY.fits && liquidity.fits⟩
    else none

-- What the parser demands of a pool's config and amounts.
@[grind cases eager] structure Admits (ctx : PoolContext) (ver : RoyaltyPoolVer) (conf : RoyaltyPoolConfig) (reservesX reservesY lovelace dueX dueY : Nat)
    (marginalCost : ExUnits) (id : Token) (treasuryAddress : Hash28) : Prop where
  cost : ctx.marginalCost ver = some marginalCost
  pureX : dueX < reservesX
  pureY : dueY < reservesY
  sufficientLovelace : ctx.sufficientLovelace conf lovelace = true
  nft : conf.poolNft = .token id
  address : hashFromRawBytes conf.treasuryAddress = some treasuryAddress
  key : conf.royaltyPubKey.length = 32

theorem checkedSub_pos {a b left : Nat} : checkedSub a b = some left ∧ left ≠ 0 ↔ b < a ∧ left = a - b := by
  unfold checkedSub
  split
  · simp only [Option.some.injEq]
    omega
  · simp only [reduceCtorEq,false_and,false_iff]
    omega

theorem intoToken_some {asset : AssetClass} {token : Token} : intoToken asset = some token ↔ asset = .token token := by
  cases asset <;> simp [intoToken]

theorem tryFromConfig_some {ctx : PoolContext} {address : Bytes} {ver : RoyaltyPoolVer} {conf : RoyaltyPoolConfig} {reservesX reservesY lovelace : Nat}
    {dueX dueY liquidity : Tracked Nat} {parsed : Tracked RoyaltyPool} :
    tryFromConfig ctx address ver conf reservesX reservesY lovelace dueX dueY liquidity = some parsed ↔
      ∃ marginalCost id treasuryAddress,Admits ctx ver conf reservesX reservesY lovelace dueX.value dueY.value marginalCost id treasuryAddress ∧
        parsed = ⟨conf.pool ctx address ver reservesX reservesY liquidity.value marginalCost id treasuryAddress,
          dueX.fits && dueY.fits && liquidity.fits⟩ := by
  constructor
  · intro accepted
    obtain ⟨cost,costIs,accepted⟩ := Option.bind_eq_some_iff.mp accepted
    obtain ⟨pureX,pureXIs,accepted⟩ := Option.bind_eq_some_iff.mp accepted
    obtain ⟨pureY,pureYIs,accepted⟩ := Option.bind_eq_some_iff.mp accepted
    split at accepted
    case isTrue => cases accepted
    case isFalse enough =>
      simp only [not_or,not_not] at enough
      obtain ⟨id,idIs,accepted⟩ := Option.bind_eq_some_iff.mp accepted
      obtain ⟨hash,hashIs,accepted⟩ := Option.bind_eq_some_iff.mp accepted
      split at accepted
      case isTrue key =>
        cases accepted
        exact ⟨cost,id,hash,⟨costIs,(checkedSub_pos.mp ⟨pureXIs,enough.1⟩).1,(checkedSub_pos.mp ⟨pureYIs,enough.2.1⟩).1,enough.2.2,
          intoToken_some.mp idIs,hashIs,key⟩,rfl⟩
      case isFalse => cases accepted
  · rintro ⟨cost,id,hash,admits,rfl⟩
    obtain ⟨pureX,leftX⟩ := checkedSub_pos.mpr ⟨admits.pureX,rfl⟩
    obtain ⟨pureY,leftY⟩ := checkedSub_pos.mpr ⟨admits.pureY,rfl⟩
    refine Option.bind_eq_some_iff.mpr ⟨cost,admits.cost,Option.bind_eq_some_iff.mpr ⟨_,pureX,Option.bind_eq_some_iff.mpr ⟨_,pureY,?_⟩⟩⟩
    rw [if_neg (by simp only [not_or,not_not]; exact ⟨leftX,leftY,admits.sufficientLovelace⟩)]
    refine Option.bind_eq_some_iff.mpr ⟨id,intoToken_some.mpr admits.nft,Option.bind_eq_some_iff.mpr ⟨hash,admits.address,?_⟩⟩
    exact if_pos admits.key

-- `RoyaltyV1PoolOnly::try_from_ledger`.
def tryFromLedger (ctx : PoolContext) (output : TransactionOutput PlutusData) : Option (Tracked RoyaltyPool) := do
  let ver ← ctx.tryPoolVerFromAddress output.address
  let data ← output.datum
  let conf ← RoyaltyPoolConfig.tryFromPd data
  let liquidityNeg ← output.value.amountOf conf.assetLq
  let lovelace ← output.value.amountOf .native
  let reservesX ← output.value.amountOf conf.assetX
  let reservesY ← output.value.amountOf conf.assetY
  tryFromConfig ctx output.address ver conf reservesX.toNat reservesY.toNat lovelace.toNat (Tracked.add 64 conf.treasuryX conf.royaltyX)
    (Tracked.add 64 conf.treasuryY conf.royaltyY) (Tracked.sub 64 maxLqCap liquidityNeg.toNat)

theorem tryFromLedger_some {ctx : PoolContext} {output : TransactionOutput PlutusData} {parsed : Tracked RoyaltyPool} :
    tryFromLedger ctx output = some parsed ↔ ∃ ver alternative fields conf liquidityNeg lovelace reservesX reservesY,
      ctx.tryPoolVerFromAddress output.address = some ver ∧ output.datum = some (.constr alternative fields) ∧ conf.Reads fields ∧
      output.value.amountOf conf.assetLq = some liquidityNeg ∧ output.value.amountOf .native = some lovelace ∧
      output.value.amountOf conf.assetX = some reservesX ∧ output.value.amountOf conf.assetY = some reservesY ∧
      tryFromConfig ctx output.address ver conf reservesX.toNat reservesY.toNat lovelace.toNat (Tracked.add 64 conf.treasuryX conf.royaltyX)
        (Tracked.add 64 conf.treasuryY conf.royaltyY) (Tracked.sub 64 maxLqCap liquidityNeg.toNat) = some parsed := by
  constructor
  · intro accepted
    obtain ⟨ver,verIs,accepted⟩ := Option.bind_eq_some_iff.mp accepted
    obtain ⟨data,dataIs,accepted⟩ := Option.bind_eq_some_iff.mp accepted
    obtain ⟨conf,confIs,accepted⟩ := Option.bind_eq_some_iff.mp accepted
    obtain ⟨liquidityNeg,liquidityIs,accepted⟩ := Option.bind_eq_some_iff.mp accepted
    obtain ⟨lovelace,lovelaceIs,accepted⟩ := Option.bind_eq_some_iff.mp accepted
    obtain ⟨reservesX,xIs,accepted⟩ := Option.bind_eq_some_iff.mp accepted
    obtain ⟨reservesY,yIs,accepted⟩ := Option.bind_eq_some_iff.mp accepted
    obtain ⟨alternative,fields,constr,reads⟩ := RoyaltyPoolConfig.tryFromPd_reads.mp confIs
    exact ⟨ver,alternative,fields,conf,liquidityNeg,lovelace,reservesX,reservesY,verIs,constr ▸ dataIs,reads,liquidityIs,lovelaceIs,xIs,yIs,accepted⟩
  · rintro ⟨ver,alternative,fields,conf,liquidityNeg,lovelace,reservesX,reservesY,verIs,dataIs,reads,liquidityIs,lovelaceIs,xIs,yIs,accepted⟩
    refine Option.bind_eq_some_iff.mpr ⟨ver,verIs,Option.bind_eq_some_iff.mpr ⟨_,dataIs,?_⟩⟩
    refine Option.bind_eq_some_iff.mpr ⟨conf,RoyaltyPoolConfig.tryFromPd_reads.mpr ⟨alternative,fields,rfl,reads⟩,?_⟩
    refine Option.bind_eq_some_iff.mpr ⟨liquidityNeg,liquidityIs,Option.bind_eq_some_iff.mpr ⟨lovelace,lovelaceIs,?_⟩⟩
    exact Option.bind_eq_some_iff.mpr ⟨reservesX,xIs,Option.bind_eq_some_iff.mpr ⟨reservesY,yIs,accepted⟩⟩

-- `liquidity`.
def reserves (pool : RoyaltyPool) : AbsoluteReserves :=
  if pool.assetX = pool.base then ⟨pool.x.reserves,pool.y.reserves⟩ else ⟨pool.y.reserves,pool.x.reserves⟩

-- The asset to deduct from and the one to add to.
def assetMapping (pool : RoyaltyPool) : Side → AssetClass × AssetClass
  | .bid => if pool.base = pool.assetX then (pool.assetX,pool.assetY) else (pool.assetY,pool.assetX)
  | .ask => if pool.base = pool.assetX then (pool.assetY,pool.assetX) else (pool.assetX,pool.assetY)

-- `unsafe_update_pd_royalty`: the fields it writes, in its order.
def datumUpdates (pool : RoyaltyPool) : List (Nat × PlutusData) :=
  [(Mapping.lpFeeNum,.ofU64 pool.lpFee.numer),(Mapping.treasuryFeeNum,.ofU64 pool.treasuryFee.numer),(Mapping.royaltyFeeNum,.ofU64 pool.firstRoyaltyFee.numer),
    (Mapping.treasuryX,.ofU64 pool.x.treasury),(Mapping.treasuryY,.ofU64 pool.y.treasury),(Mapping.royaltyX,.ofU64 pool.x.firstRoyalty),
    (Mapping.royaltyY,.ofU64 pool.y.firstRoyalty),(Mapping.adminAddress,.list [PlutusCredential.intoInlinePd (.script pool.adminAddress)]),
    (Mapping.treasuryAddress,.bytes pool.treasuryAddress.bytes),(Mapping.royaltyNonce,.ofU64 pool.nonce)]

def setFields (fields : List PlutusData) (updates : List (Nat × PlutusData)) : Option (List PlutusData) :=
  updates.foldlM (fun fields update => PlutusData.setField fields update.1 update.2) fields

def unsafeDatumUpdate (pool : RoyaltyPool) (data : PlutusData) : Option PlutusData := do
  let (alternative,fields) ← data.intoConstrPd
  return .constr alternative (← setFields fields pool.datumUpdates)

end RoyaltyPool

-- `Make<RoyaltyV1PoolOnly>`: the pool as it was and as the swaps left it.
structure PoolMake where
  target : RoyaltyPool
  result : RoyaltyPool

namespace PoolMake

def tradeSide (make : PoolMake) : Option Side :=
  let next := make.result.reserves
  let init := make.target.reserves
  if next.base < init.base ∧ init.quote < next.quote then some .bid
  else if init.base < next.base ∧ next.quote < init.quote then some .ask
  else none

def loss (make : PoolMake) : Option Nat :=
  (checkedSub make.target.reserves.base make.result.reserves.base).or (checkedSub make.target.reserves.quote make.result.reserves.quote)

def gain (make : PoolMake) : Option Nat :=
  (checkedSub make.result.reserves.base make.target.reserves.base).or (checkedSub make.result.reserves.quote make.target.reserves.quote)

def updateDatum (make : PoolMake) (produced : TransactionOutput PlutusData) : Option (TransactionOutput PlutusData) :=
  match produced.datum with
  | none => some produced
  | some data => (make.result.unsafeDatumUpdate data).map (fun updated => {produced with datum:=some updated})

-- The output the pool's UTxO is replaced by, `none` where `exec` panics.
def exec (make : PoolMake) (consumed : TransactionOutput PlutusData) : Option (TransactionOutput PlutusData) := do
  let side ← make.tradeSide
  let removedLiquidity ← make.loss
  let addedLiquidity ← make.gain
  let (assetToDeductFrom,assetToAddTo) := make.target.assetMapping side
  let produced ← consumed.subAsset assetToDeductFrom (.ofNat removedLiquidity)
  let produced ← produced.addAsset assetToAddTo (.ofNat addedLiquidity)
  make.updateDatum produced

end PoolMake
end GreenAgent.Pools.Machine
