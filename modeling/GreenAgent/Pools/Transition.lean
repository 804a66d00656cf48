import GreenAgent.Pools.Safety

namespace GreenAgent.Pools.Machine
open Account (AssetClass)
open Book (Side OnSide checkedSub)
open Cardano (PlutusData PlutusCredential TransactionOutput hashFromRawBytes)

theorem setFields_get {updates : List (Nat × PlutusData)} {fields : List PlutusData} (inside : ∀ update ∈ updates,update.1 < fields.length)
    (nodup : (updates.map Prod.fst).Nodup) :
    ∃ after,RoyaltyPool.setFields fields updates = some after ∧ after.length = fields.length ∧ (∀ update ∈ updates,after[update.1]? = some update.2) ∧
      ∀ index,index ∉ updates.map Prod.fst → after[index]? = fields[index]? := by
  induction updates generalizing fields with
  | nil => exact ⟨fields,rfl,rfl,nofun,fun _ _ => rfl⟩
  | cons update rest ih =>
    have first : update.1 < fields.length := inside update List.mem_cons_self
    obtain ⟨fresh,nodup⟩ := List.nodup_cons.mp nodup
    have within : ∀ later ∈ rest,later.1 < (fields.set update.1 update.2).length := by
      intro later member
      rw [List.length_set]
      exact inside later (List.mem_cons_of_mem _ member)
    obtain ⟨after,made,length,written,kept⟩ := ih within nodup
    refine ⟨after,?_,length.trans (List.length_set ..),?_,?_⟩
    · change (PlutusData.setField fields update.1 update.2).bind _ = _
      rw [PlutusData.setField,if_pos first]
      exact made
    · intro later member
      rcases List.mem_cons.mp member with rfl | member
      · rw [kept _ fresh,List.getElem?_set_self first]
      · exact written later member
    · intro index absent
      simp only [List.map_cons,List.mem_cons,not_or] at absent
      obtain ⟨other,absent⟩ := absent
      rw [kept index absent,List.getElem?_set_ne (Ne.symm other)]

-- What is left of a holding once an amount is paid out of it.
def Holding.without (holding : Holding) (amount : Nat) : Holding := {holding with reserves:=holding.reserves - amount}

namespace RoyaltyPool

def withHoldings (pool : RoyaltyPool) (x y : Holding) : RoyaltyPool := {pool with x:=x,y:=y}

-- What a holding is once an input is booked on it.
@[grind cases eager] structure Received (pool : RoyaltyPool) (before : Holding) (amount : Nat) (after : Holding) : Prop where
  reserves : after.reserves = before.reserves + amount ∧ after.reserves < 2^64
  treasury : after.treasury = before.treasury + amount * pool.treasuryFee.numer / pool.treasuryFee.denom ∧ after.treasury < 2^64
  firstRoyalty : after.firstRoyalty = before.firstRoyalty + amount * pool.firstRoyaltyFee.numer / pool.firstRoyaltyFee.denom ∧ after.firstRoyalty < 2^64
  secondRoyalty : after.secondRoyalty = before.secondRoyalty + amount * pool.secondRoyaltyFee.numer / pool.secondRoyaltyFee.denom

theorem share_pure {fee : Ratio} {amount result : Nat} (made : share fee amount = pure result) : result = amount * fee.numer / fee.denom := by
  obtain ⟨product,productMade,made⟩ := Tracked.bind_eq_pure.mp made
  obtain ⟨_,rfl⟩ := Tracked.mul_pure productMade
  exact (Tracked.div_pure made).2

theorem receive_pure {pool : RoyaltyPool} {before after : Holding} {amount : Nat} (made : pool.receive before amount = pure after) :
    pool.Received before amount after := by
  obtain ⟨reserves,reservesMade,made⟩ := Tracked.bind_eq_pure.mp made
  obtain ⟨toTreasury,toTreasuryMade,made⟩ := Tracked.bind_eq_pure.mp made
  obtain ⟨treasury,treasuryMade,made⟩ := Tracked.bind_eq_pure.mp made
  obtain ⟨toFirst,toFirstMade,made⟩ := Tracked.bind_eq_pure.mp made
  obtain ⟨first,firstMade,made⟩ := Tracked.bind_eq_pure.mp made
  obtain ⟨toSecond,toSecondMade,made⟩ := Tracked.bind_eq_pure.mp made
  obtain ⟨second,secondMade,made⟩ := Tracked.bind_eq_pure.mp made
  obtain ⟨fits,rfl⟩ := Tracked.add_pure reservesMade
  obtain ⟨treasuryFits,rfl⟩ := Tracked.add_pure treasuryMade
  obtain ⟨firstFits,rfl⟩ := Tracked.add_pure firstMade
  obtain ⟨_,rfl⟩ := Tracked.add_pure secondMade
  cases Tracked.pure_inj made
  cases share_pure toTreasuryMade
  cases share_pure toFirstMade
  cases share_pure toSecondMade
  exact ⟨⟨rfl,fits⟩,⟨rfl,treasuryFits⟩,⟨rfl,firstFits⟩,rfl⟩

theorem pay_pure {before after : Holding} {amount : Nat} (small : before.reserves < 2^64) (made : pay before amount = pure after) :
    amount ≤ before.reserves ∧ after = before.without amount := by
  obtain ⟨reserves,reservesMade,made⟩ := Tracked.bind_eq_pure.mp made
  obtain ⟨enough,rfl⟩ := Tracked.sub_pure small reservesMade
  exact ⟨enough,(Tracked.pure_inj made).symm⟩

theorem tradable_pure {holding : Holding} {left : Nat} (small : holding.reserves < 2^64) (made : holding.tradable = pure left) :
    holding.treasury + holding.firstRoyalty + holding.secondRoyalty ≤ holding.reserves := by
  obtain ⟨first,firstMade,made⟩ := Tracked.bind_eq_pure.mp made
  obtain ⟨second,secondMade,made⟩ := Tracked.bind_eq_pure.mp made
  obtain ⟨enough1,rfl⟩ := Tracked.sub_pure small firstMade
  obtain ⟨enough2,rfl⟩ := Tracked.sub_pure (by omega) secondMade
  obtain ⟨enough3,_⟩ := Tracked.sub_pure (by omega) made
  omega

theorem quoteAmount_pure {given paid amount quote : Nat} {fee : Ratio} (made : quoteAmount given paid amount fee = pure quote) :
    given * fee.denom + amount * fee.numer ≠ 0 ∧ quote = paid * amount * fee.numer / (given * fee.denom + amount * fee.numer) := by
  obtain ⟨product,productMade,made⟩ := Tracked.bind_eq_pure.mp made
  obtain ⟨numer,numerMade,made⟩ := Tracked.bind_eq_pure.mp made
  obtain ⟨reserves,reservesMade,made⟩ := Tracked.bind_eq_pure.mp made
  obtain ⟨added,addedMade,made⟩ := Tracked.bind_eq_pure.mp made
  obtain ⟨denom,denomMade,made⟩ := Tracked.bind_eq_pure.mp made
  obtain ⟨_,rfl⟩ := Tracked.mul_pure productMade
  obtain ⟨_,rfl⟩ := Tracked.mul_pure numerMade
  obtain ⟨_,rfl⟩ := Tracked.mul_pure reservesMade
  obtain ⟨_,rfl⟩ := Tracked.mul_pure addedMade
  obtain ⟨_,rfl⟩ := Tracked.add_pure denomMade
  exact Tracked.div_pure made

theorem cappedQuote_lt {untouchable liquidity quote output : Nat} {native : Bool} (stays : 0 < untouchable) (small : liquidity < 2^64)
    (less : quote < liquidity) (made : cappedQuote untouchable native liquidity quote = pure output) : output < liquidity := by
  have word : quote % 2^64 = quote := Nat.mod_eq_of_lt (less.trans small)
  unfold cappedQuote at made
  rw [word] at made
  cases native with
  | false => exact Tracked.pure_inj made ▸ less
  | true =>
    rw [if_pos rfl,Tracked.sub_eq small less.le,Tracked.pure_bind] at made
    split at made
    case isTrue =>
      obtain ⟨enough,rfl⟩ := Tracked.sub_pure small made
      omega
    case isFalse => exact Tracked.pure_inj made ▸ less

theorem outputAmount_lt {pool : RoyaltyPool} (fees : pool.V1Fees) (x : pool.x.Solvent) (y : pool.y.Solvent) {input : OnSide Nat} {output : Nat}
    (made : pool.outputAmount (pool.given input) input.unwrap = pure output) : output < (pool.legs input).2.free := by
  obtain ⟨given,paid⟩ := legs_solvent x y input
  have parts := made
  unfold outputAmount at parts
  rw [Holding.tradable_eq x.small x.covered,Tracked.pure_bind,Holding.tradable_eq y.small y.covered,Tracked.pure_bind] at parts
  obtain ⟨fee,feeMade,_⟩ := Tracked.bind_eq_pure.mp parts
  have feeIs := fees.poolFee_eq (fees.shares_of_poolFee feeMade)
  rw [outputAmount_legs x y feeIs] at made
  obtain ⟨quote,quoted,capped⟩ := Tracked.bind_eq_pure.mp made
  have less := quote_lt given.positive paid.positive fees.traded_proper input.unwrap
  rw [← (quoteAmount_pure quoted).2] at less
  exact cappedQuote_lt (by decide) (Nat.lt_of_le_of_lt (Nat.sub_le _ _) paid.small) less capped

end RoyaltyPool

namespace PoolMake

-- The output with one amount moved out and another one in, and the new datum.
def moved (make : PoolMake) (consumed : TransactionOutput PlutusData) (deducted added : AssetClass) (lost gained : Nat) :
    Option (TransactionOutput PlutusData) := do
  let produced ← consumed.subAsset deducted (.ofNat lost)
  let produced ← produced.addAsset added (.ofNat gained)
  make.updateDatum produced

section Exec
variable {make : PoolMake} {gained lost : Nat}

theorem asked (base : make.result.reserves.base = make.target.reserves.base + gained) (quote : make.target.reserves.quote = make.result.reserves.quote + lost)
    (gains : 0 < gained) (loses : 0 < lost) : make.tradeSide = some .ask ∧ make.loss = some lost ∧ make.gain = some gained := by
  unfold tradeSide loss gain checkedSub
  refine ⟨?_,?_,?_⟩
  · rw [if_neg (by omega),if_pos (by omega)]
  · rw [if_neg (by omega),if_pos (by omega),Option.none_or]
    exact congrArg some (by omega)
  · rw [if_pos (by omega),Option.some_or]
    exact congrArg some (by omega)

theorem bidden (quote : make.result.reserves.quote = make.target.reserves.quote + gained) (base : make.target.reserves.base = make.result.reserves.base + lost)
    (gains : 0 < gained) (loses : 0 < lost) : make.tradeSide = some .bid ∧ make.loss = some lost ∧ make.gain = some gained := by
  unfold tradeSide loss gain checkedSub
  refine ⟨?_,?_,?_⟩
  · rw [if_pos (by omega)]
  · rw [if_pos (by omega),Option.some_or]
    exact congrArg some (by omega)
  · rw [if_neg (by omega),if_pos (by omega),Option.none_or]
    exact congrArg some (by omega)

theorem exec_moved {side : Side} (known : make.tradeSide = some side ∧ make.loss = some lost ∧ make.gain = some gained) {deducted added : AssetClass}
    (mapped : make.target.assetMapping side = (deducted,added)) (consumed : TransactionOutput PlutusData) :
    make.exec consumed = make.moved consumed deducted added lost gained := by
  unfold exec
  rw [known.1,known.2.1,known.2.2]
  simp only [Option.bind_eq_bind,Option.bind_some,mapped]
  rfl

variable (consumed : TransactionOutput PlutusData) (assetX : make.result.assetX = make.target.assetX) (assetY : make.result.assetY = make.target.assetY)
include assetX assetY

theorem result_reserves : make.result.reserves =
    if make.target.assetX = make.target.base then ⟨make.result.x.reserves,make.result.y.reserves⟩ else ⟨make.result.y.reserves,make.result.x.reserves⟩ := by
  unfold RoyaltyPool.reserves RoyaltyPool.base
  rw [assetX,assetY]

theorem exec_intoX (x : make.result.x.reserves = make.target.x.reserves + gained) (y : make.target.y.reserves = make.result.y.reserves + lost)
    (gains : 0 < gained) (loses : 0 < lost) : make.exec consumed = make.moved consumed make.target.assetY make.target.assetX lost gained := by
  have result := result_reserves assetX assetY
  by_cases first : make.target.assetX = make.target.base
  · have target : make.target.reserves = ⟨make.target.x.reserves,make.target.y.reserves⟩ := if_pos first
    rw [if_pos first] at result
    exact exec_moved (asked (by rw [result,target]; exact x) (by rw [result,target]; exact y) gains loses) (if_pos first.symm) consumed
  · have target : make.target.reserves = ⟨make.target.y.reserves,make.target.x.reserves⟩ := if_neg first
    rw [if_neg first] at result
    exact exec_moved (bidden (by rw [result,target]; exact x) (by rw [result,target]; exact y) gains loses) (if_neg (Ne.symm first)) consumed

theorem exec_intoY (y : make.result.y.reserves = make.target.y.reserves + gained) (x : make.target.x.reserves = make.result.x.reserves + lost)
    (gains : 0 < gained) (loses : 0 < lost) : make.exec consumed = make.moved consumed make.target.assetX make.target.assetY lost gained := by
  have result := result_reserves assetX assetY
  by_cases first : make.target.assetX = make.target.base
  · have target : make.target.reserves = ⟨make.target.x.reserves,make.target.y.reserves⟩ := if_pos first
    rw [if_pos first] at result
    exact exec_moved (bidden (by rw [result,target]; exact y) (by rw [result,target]; exact x) gains loses) (if_pos first.symm) consumed
  · have target : make.target.reserves = ⟨make.target.y.reserves,make.target.x.reserves⟩ := if_neg first
    rw [if_neg first] at result
    exact exec_moved (asked (by rw [result,target]; exact y) (by rw [result,target]; exact x) gains loses) (if_neg (Ne.symm first)) consumed

end Exec
theorem moved_some (make : PoolMake) {consumed : TransactionOutput PlutusData} {deducted added : AssetClass} {lost gained alternative : Nat}
    {heldDeducted heldAdded : UInt64} {fields after : List PlutusData} (other : added ≠ deducted)
    (deductedIs : consumed.value.amountOf deducted = some heldDeducted) (addedIs : consumed.value.amountOf added = some heldAdded)
    (less : lost < heldDeducted.toNat) (room : heldAdded.toNat + gained < 2^64) (datum : consumed.datum = some (.constr alternative fields))
    (written : RoyaltyPool.setFields fields make.result.datumUpdates = some after) :
    ∃ value,make.moved consumed deducted added lost gained = some ⟨consumed.address,value,some (.constr alternative after)⟩ ∧
      (∃ left,value.amountOf deducted = some left ∧ left.toNat = heldDeducted.toNat - lost) ∧
      (∃ sum,value.amountOf added = some sum ∧ sum.toNat = heldAdded.toNat + gained) ∧
      ∀ asset,asset ≠ deducted → asset ≠ added → value.amountOf asset = consumed.value.amountOf asset := by
  have lostIs : (UInt64.ofNat lost).toNat = lost := UInt64.toNat_ofNat_of_lt' (less.trans heldDeducted.toNat_lt)
  have gainedIs : (UInt64.ofNat gained).toNat = gained := UInt64.toNat_ofNat_of_lt' ((Nat.le_add_left _ _).trans_lt room)
  obtain ⟨first,taken,left,kept⟩ := Cardano.Value.checkedSub_amountOf deductedIs (lostIs.trans_lt less)
  rw [← kept added other] at addedIs
  obtain ⟨value,put,sum,same⟩ := Cardano.Value.checkedAdd_amountOf addedIs ((congrArg _ gainedIs).trans_lt room)
  refine ⟨value,?_,⟨_,(same deducted (Ne.symm other)).trans left,?_⟩,⟨_,sum,?_⟩,?_⟩
  · unfold moved
    rw [TransactionOutput.subAsset,taken]
    simp only [Option.map_some,Option.bind_eq_bind,Option.bind_some,TransactionOutput.addAsset,put,updateDatum,datum,RoyaltyPool.unsafeDatumUpdate,
      PlutusData.intoConstrPd,written,Option.pure_def]
  · rw [UInt64.toNat_sub_of_le _ _ (UInt64.le_iff_toNat_le.mpr (lostIs.trans_le less.le)),lostIs]
  · rw [UInt64.toNat_add,gainedIs,Nat.mod_eq_of_lt room]
  · intro asset notDeducted notAdded
    rw [same asset notAdded,kept asset notDeducted]

end PoolMake

theorem takeField_ofU64 {fields : List PlutusData} {index value : Nat} (read : takeField fields index PlutusData.intoU64 = some value) :
    fields[index]? = some (.ofU64 value) := by
  obtain ⟨data,found,parsed⟩ := Option.bind_eq_some_iff.mp read
  rw [found,(PlutusData.intoU64_some parsed).1]

theorem takeField_lt {fields : List PlutusData} {index : Nat} {read : PlutusData → Option α} {value : α} (taken : takeField fields index read = some value) :
    index < fields.length := by
  obtain ⟨data,found,_⟩ := Option.bind_eq_some_iff.mp taken
  exact (List.getElem?_eq_some_iff.mp found).1

theorem adminFromPd_script (hash : Account.Hash28) : adminFromPd (.list [PlutusCredential.intoInlinePd (.script hash)]) = some hash := by
  simp [adminFromPd,PlutusData.intoVec,PlutusCredential.tryFromInlinePd_script,PlutusCredential.scriptHash]

namespace RoyaltyPoolConfig

-- The config that the datum of a traded pool holds.
def traded (conf : RoyaltyPoolConfig) (x y : Holding) : RoyaltyPoolConfig :=
  {conf with treasuryX:=x.treasury,treasuryY:=y.treasury,royaltyX:=x.firstRoyalty,royaltyY:=y.firstRoyalty}

section Traded
variable {conf : RoyaltyPoolConfig} {fields after : List PlutusData} {pool : RoyaltyPool} {x y : Holding}

-- The fees, addresses and the nonce of a pool are those of the datum it was read from.
@[grind cases eager] structure Kept (conf : RoyaltyPoolConfig) (pool : RoyaltyPool) : Prop where
  lpFee : pool.lpFee.numer = conf.lpFeeNum
  treasuryFee : pool.treasuryFee.numer = conf.treasuryFeeNum
  royaltyFee : pool.firstRoyaltyFee.numer = conf.royaltyFeeNum
  admin : pool.adminAddress = conf.adminAddress
  treasuryAddress : pool.treasuryAddress.bytes = conf.treasuryAddress
  nonce : pool.nonce = conf.nonce

theorem datumUpdates_keys (pool : RoyaltyPool) : pool.datumUpdates.map Prod.fst = [4,5,6,7,8,9,10,11,12,14] := rfl

theorem datumUpdates_inside (reads : conf.Reads fields) : ∀ update ∈ pool.datumUpdates,update.1 < fields.length := by
  intro update member
  have key : update.1 ∈ pool.datumUpdates.map Prod.fst := List.mem_map_of_mem member
  have bound : ∀ index ∈ [4,5,6,7,8,9,10,11,12,14],index ≤ 14 := by decide
  rw [datumUpdates_keys] at key
  exact (bound _ key).trans_lt (takeField_lt reads.nonce)

theorem datumUpdates_nodup (pool : RoyaltyPool) : (pool.datumUpdates.map Prod.fst).Nodup := by
  rw [datumUpdates_keys]
  decide

theorem reads_traded (reads : conf.Reads fields) (kept : Kept conf pool) (treasuryX : pool.x.treasury < 2^64) (treasuryY : pool.y.treasury < 2^64)
    (royaltyX : pool.x.firstRoyalty < 2^64) (royaltyY : pool.y.firstRoyalty < 2^64)
    (written : ∀ update ∈ pool.datumUpdates,after[update.1]? = some update.2)
    (untouched : ∀ index,index ∉ pool.datumUpdates.map Prod.fst → after[index]? = fields[index]?) : (conf.traded pool.x pool.y).Reads after := by
  have same {α : Type} {index : Nat} {read : PlutusData → Option α} {value : α} (taken : takeField fields index read = some value)
      (absent : index ∉ pool.datumUpdates.map Prod.fst) : takeField after index read = some value := by
    unfold takeField
    rw [untouched index absent]
    exact taken
  have number {index value : Nat} (member : (index,PlutusData.ofU64 value) ∈ pool.datumUpdates) (small : value < 2^64) :
      takeField after index PlutusData.intoU64 = some value := by
    unfold takeField
    rw [written _ member,Option.bind_some]
    exact PlutusData.intoU64_ofU64 small
  have admin : takeField after Mapping.adminAddress adminFromPd = some pool.adminAddress := by
    unfold takeField
    rw [written (Mapping.adminAddress,.list [PlutusCredential.intoInlinePd (.script pool.adminAddress)]) (by simp [RoyaltyPool.datumUpdates]),Option.bind_some]
    exact adminFromPd_script _
  have address : takeField after Mapping.treasuryAddress PlutusData.intoBytes = some pool.treasuryAddress.bytes := by
    unfold takeField
    rw [written (Mapping.treasuryAddress,.bytes pool.treasuryAddress.bytes) (by simp [RoyaltyPool.datumUpdates]),Option.bind_some]
    rfl
  have fees : pool.lpFee.numer < 2^64 ∧ pool.treasuryFee.numer < 2^64 ∧ pool.firstRoyaltyFee.numer < 2^64 ∧ pool.nonce < 2^64 := by
    rw [kept.lpFee,kept.treasuryFee,kept.royaltyFee,kept.nonce]
    exact ⟨RoyaltyPool.takeField_u64 reads.lpFeeNum,RoyaltyPool.takeField_u64 reads.treasuryFeeNum,RoyaltyPool.takeField_u64 reads.royaltyFeeNum,
      RoyaltyPool.takeField_u64 reads.nonce⟩
  rw [datumUpdates_keys] at same
  refine ⟨same reads.poolNft (by decide),same reads.assetX (by decide),same reads.assetY (by decide),same reads.assetLq (by decide),?_,?_,?_,
    number ?_ treasuryX,number ?_ treasuryY,number ?_ royaltyX,number ?_ royaltyY,?_,?_,same reads.royaltyPubKey (by decide),?_⟩
  · exact kept.lpFee ▸ number (by simp [RoyaltyPool.datumUpdates]) fees.1
  · exact kept.treasuryFee ▸ number (by simp [RoyaltyPool.datumUpdates]) fees.2.1
  · exact kept.royaltyFee ▸ number (by simp [RoyaltyPool.datumUpdates]) fees.2.2.1
  · simp [RoyaltyPool.datumUpdates,traded]
  · simp [RoyaltyPool.datumUpdates,traded]
  · simp [RoyaltyPool.datumUpdates,traded]
  · simp [RoyaltyPool.datumUpdates,traded]
  · exact kept.admin ▸ admin
  · exact kept.treasuryAddress ▸ address
  · exact kept.nonce ▸ number (by simp [RoyaltyPool.datumUpdates]) fees.2.2.2

theorem traded_pool (xNone : x.secondRoyalty = 0) (yNone : y.secondRoyalty = 0) (ctx : PoolContext) (address : Mpf.Bytes) (ver : RoyaltyPoolVer)
    (reservesX reservesY liquidity : Nat) (cost : Green.ExUnits) (id : Account.Token) (treasury : Account.Hash28) :
    (conf.traded x y).pool ctx address ver x.reserves y.reserves liquidity cost id treasury =
      (conf.pool ctx address ver reservesX reservesY liquidity cost id treasury).withHoldings x y := by
  cases x
  cases y
  cases xNone
  cases yNone
  rfl

end Traded
end RoyaltyPoolConfig

namespace RoyaltyPool

-- Everything the parser has read from an output.
structure Origin (ctx : PoolContext) (output : TransactionOutput PlutusData) where
  ver : RoyaltyPoolVer
  alternative : Nat
  fields : List PlutusData
  conf : RoyaltyPoolConfig
  liquidityNeg : UInt64
  lovelace : UInt64
  reservesX : UInt64
  reservesY : UInt64
  cost : Green.ExUnits
  id : Account.Token
  treasury : Account.Hash28
  verIs : ctx.tryPoolVerFromAddress output.address = some ver
  datum : output.datum = some (.constr alternative fields)
  reads : conf.Reads fields
  liquidityIs : output.value.amountOf conf.assetLq = some liquidityNeg
  lovelaceIs : output.value.amountOf .native = some lovelace
  xIs : output.value.amountOf conf.assetX = some reservesX
  yIs : output.value.amountOf conf.assetY = some reservesY
  admits : Admits ctx ver conf reservesX.toNat reservesY.toNat lovelace.toNat (Tracked.add 64 conf.treasuryX conf.royaltyX).value
    (Tracked.add 64 conf.treasuryY conf.royaltyY).value cost id treasury

def Origin.pool {ctx : PoolContext} {output : TransactionOutput PlutusData} (origin : Origin ctx output) : RoyaltyPool :=
  origin.conf.pool ctx output.address origin.ver origin.reservesX.toNat origin.reservesY.toNat
    (Tracked.sub 64 maxLqCap origin.liquidityNeg.toNat).value origin.cost origin.id origin.treasury

theorem origin_of {ctx : PoolContext} {output : TransactionOutput PlutusData} {pool : RoyaltyPool} :
    (tryFromLedger ctx output).map Tracked.value = some pool ↔ ∃ origin : Origin ctx output,pool = origin.pool := by
  constructor
  · intro mapped
    obtain ⟨parsed,accepted,rfl⟩ := Option.map_eq_some_iff.mp mapped
    obtain ⟨ver,alternative,fields,conf,liquidityNeg,lovelace,reservesX,reservesY,verIs,datum,reads,liquidityIs,lovelaceIs,xIs,yIs,built⟩ :=
      tryFromLedger_some.mp accepted
    obtain ⟨cost,id,treasury,admits,rfl⟩ := tryFromConfig_some.mp built
    exact ⟨⟨ver,alternative,fields,conf,liquidityNeg,lovelace,reservesX,reservesY,cost,id,treasury,verIs,datum,reads,liquidityIs,lovelaceIs,xIs,yIs,
      admits⟩,rfl⟩
  · rintro ⟨origin,rfl⟩
    refine Option.map_eq_some_iff.mpr ⟨_,tryFromLedger_some.mpr ⟨origin.ver,origin.alternative,origin.fields,origin.conf,origin.liquidityNeg,
      origin.lovelace,origin.reservesX,origin.reservesY,origin.verIs,origin.datum,origin.reads,origin.liquidityIs,origin.lovelaceIs,origin.xIs,origin.yIs,
      tryFromConfig_some.mpr ⟨origin.cost,origin.id,origin.treasury,origin.admits,rfl⟩⟩,rfl⟩

-- The parts of an output that no swap may change. `due` are the positions of
-- the treasury and of the royalty of the asset given.
@[grind cases eager] structure OnlyTraded (pool : RoyaltyPool) (due : List Nat) (before after : TransactionOutput PlutusData) : Prop where
  address : after.address = before.address
  value : ∀ asset,asset ≠ pool.assetX → asset ≠ pool.assetY → after.value.amountOf asset = before.value.amountOf asset
  datum : ∃ alternative fields fields',before.datum = some (.constr alternative fields) ∧ after.datum = some (.constr alternative fields') ∧
    fields'.length = fields.length ∧ ∀ index,index ∉ due → fields'[index]? = fields[index]?

-- The datum lists one administrator, and nothing else beside the script's hash.
def CanonicalAdmin (pool : RoyaltyPool) (output : TransactionOutput PlutusData) : Prop :=
  ∃ alternative fields,output.datum = some (.constr alternative fields) ∧
    fields[Mapping.adminAddress]? = some (.list [PlutusCredential.intoInlinePd (.script pool.adminAddress)])

section Produced
variable {ctx : PoolContext} {before : TransactionOutput PlutusData} (origin : Origin ctx before)

theorem Origin.kept : origin.conf.Kept origin.pool := ⟨rfl,rfl,rfl,rfl,(Cardano.hashFromRawBytes_some origin.admits.address).symm,rfl⟩

theorem Origin.written {update : Nat × PlutusData} (member : update ∈ origin.pool.datumUpdates) (other : update.1 ≠ Mapping.adminAddress) :
    origin.fields[update.1]? = some update.2 := by
  have reads := origin.reads
  have address : origin.fields[Mapping.treasuryAddress]? = some (.bytes origin.treasury.bytes) := by
    obtain ⟨data,found,parsed⟩ := Option.bind_eq_some_iff.mp reads.treasuryAddress
    rw [found,PlutusData.intoBytes_some parsed,Cardano.hashFromRawBytes_some origin.admits.address]
  unfold datumUpdates at member
  simp only [List.mem_cons,List.not_mem_nil,or_false] at member
  rcases member with rfl | rfl | rfl | rfl | rfl | rfl | rfl | rfl | rfl | rfl
  · exact takeField_ofU64 reads.lpFeeNum
  · exact takeField_ofU64 reads.treasuryFeeNum
  · exact takeField_ofU64 reads.royaltyFeeNum
  · exact takeField_ofU64 reads.treasuryX
  · exact takeField_ofU64 reads.treasuryY
  · exact takeField_ofU64 reads.royaltyX
  · exact takeField_ofU64 reads.royaltyY
  · exact absurd rfl other
  · exact address
  · exact takeField_ofU64 reads.nonce

variable {x y : Holding} {value : Cardano.Value} {fields : List PlutusData}

theorem Origin.parse_traded (xNone : x.secondRoyalty = 0) (yNone : y.secondRoyalty = 0) (distinct : origin.conf.assetX ≠ origin.conf.assetLq ∧
    origin.conf.assetY ≠ origin.conf.assetLq) (reads : (origin.conf.traded x y).Reads fields)
    (xHeld : ∃ amount,value.amountOf origin.conf.assetX = some amount ∧ amount.toNat = x.reserves)
    (yHeld : ∃ amount,value.amountOf origin.conf.assetY = some amount ∧ amount.toNat = y.reserves)
    (others : ∀ asset,asset ≠ origin.conf.assetX → asset ≠ origin.conf.assetY → value.amountOf asset = before.value.amountOf asset) :
    (tryFromLedger ctx ⟨before.address,value,some (.constr origin.alternative fields)⟩).map Tracked.value = some (origin.pool.withHoldings x y) ↔
      (Tracked.add 64 x.treasury x.firstRoyalty).value < x.reserves ∧ (Tracked.add 64 y.treasury y.firstRoyalty).value < y.reserves := by
  rw [origin_of]
  constructor
  · rintro ⟨later,same⟩
    have xIs : x = ⟨later.reservesX.toNat,later.conf.treasuryX,later.conf.royaltyX,0⟩ := congrArg RoyaltyPool.x same
    have yIs : y = ⟨later.reservesY.toNat,later.conf.treasuryY,later.conf.royaltyY,0⟩ := congrArg RoyaltyPool.y same
    rw [xIs,yIs]
    exact ⟨later.admits.pureX,later.admits.pureY⟩
  · rintro ⟨pureX,pureY⟩
    obtain ⟨amountX,xIs,xAmount⟩ := xHeld
    obtain ⟨amountY,yIs,yAmount⟩ := yHeld
    have admits := origin.admits
    have lovelace : ctx.sufficientLovelace (origin.conf.traded x y) value.coin.toNat = true := by
      have enough := of_decide_eq_true admits.sufficientLovelace
      refine decide_eq_true ?_
      change origin.conf.assetX = .native ∨ origin.conf.assetY = .native ∨ ctx.bounds.minT2tLovelace ≤ value.coin.toNat
      by_cases nativeX : origin.conf.assetX = .native
      · exact .inl nativeX
      by_cases nativeY : origin.conf.assetY = .native
      · exact .inr (.inl nativeY)
      have same := others .native (Ne.symm nativeX) (Ne.symm nativeY)
      have coin : value.coin = origin.lovelace := Option.some.inj (same.trans origin.lovelaceIs)
      rw [coin]
      exact enough
    refine ⟨⟨origin.ver,origin.alternative,fields,origin.conf.traded x y,origin.liquidityNeg,value.coin,amountX,amountY,origin.cost,origin.id,
      origin.treasury,origin.verIs,rfl,reads,?_,rfl,xIs,yIs,⟨admits.cost,xAmount ▸ pureX,yAmount ▸ pureY,lovelace,admits.nft,admits.address,
      admits.key⟩⟩,?_⟩
    · exact (others _ (Ne.symm distinct.1) (Ne.symm distinct.2)).trans origin.liquidityIs
    · change _ = (origin.conf.traded x y).pool ctx before.address origin.ver amountX.toNat amountY.toNat
        (Tracked.sub 64 maxLqCap origin.liquidityNeg.toNat).value origin.cost origin.id origin.treasury
      rw [xAmount,yAmount]
      exact (RoyaltyPoolConfig.traded_pool xNone yNone ..).symm

theorem Origin.only_traded {after : RoyaltyPool} {due : List Nat} (adminIs : after.adminAddress = origin.pool.adminAddress)
    (admin : Mapping.adminAddress ∉ due) (length : fields.length = origin.fields.length)
    (written : ∀ update ∈ after.datumUpdates,fields[update.1]? = some update.2)
    (untouched : ∀ index,index ∉ after.datumUpdates.map Prod.fst → fields[index]? = origin.fields[index]?)
    (unmoved : ∀ update ∈ after.datumUpdates,update.1 ∉ due → update ∈ origin.pool.datumUpdates)
    (others : ∀ asset,asset ≠ origin.conf.assetX → asset ≠ origin.conf.assetY → value.amountOf asset = before.value.amountOf asset) :
    OnlyTraded origin.pool due before ⟨before.address,value,some (.constr origin.alternative fields)⟩ ↔ CanonicalAdmin origin.pool before := by
  have list := written (Mapping.adminAddress,.list [PlutusCredential.intoInlinePd (.script after.adminAddress)]) (by simp [datumUpdates])
  rw [adminIs] at list
  constructor
  · intro only
    obtain ⟨alternative,fields',after',beforeIs,afterIs,_,same⟩ := only.datum
    cases afterIs
    exact ⟨_,fields',beforeIs,(same _ admin).symm.trans list⟩
  · rintro ⟨alternative,fields',beforeIs,canonical⟩
    cases Option.some.inj (beforeIs.symm.trans origin.datum)
    refine ⟨rfl,others,_,_,fields,origin.datum,rfl,length,?_⟩
    intro index outside
    by_cases key : index ∈ after.datumUpdates.map Prod.fst
    · obtain ⟨update,member,rfl⟩ := List.mem_map.mp key
      by_cases isAdmin : update.1 = Mapping.adminAddress
      · rw [isAdmin]
        exact list.trans canonical.symm
      · rw [written update member,origin.written (unmoved update member outside) isAdmin]
    · exact untouched index key

-- The value an output must have for its pool to be read with these holdings.
@[grind cases eager] structure Origin.Holds (x y : Holding) (value : Cardano.Value) : Prop where
  x : ∃ amount,value.amountOf origin.conf.assetX = some amount ∧ amount.toNat = x.reserves
  y : ∃ amount,value.amountOf origin.conf.assetY = some amount ∧ amount.toNat = y.reserves
  others : ∀ asset,asset ≠ origin.conf.assetX → asset ≠ origin.conf.assetY → value.amountOf asset = before.value.amountOf asset

@[grind cases eager] structure DueSmall (holding : Holding) : Prop where
  treasury : holding.treasury < 2^64
  royalty : holding.firstRoyalty < 2^64
  none : holding.secondRoyalty = 0

theorem DueSmall.without {holding : Holding} (small : DueSmall holding) (amount : Nat) : DueSmall (holding.without amount) :=
  ⟨small.treasury,small.royalty,small.none⟩

theorem Origin.exec_exact (distinct : origin.conf.assetX ≠ origin.conf.assetLq ∧ origin.conf.assetY ≠ origin.conf.assetLq) (xSmall : DueSmall x)
    (ySmall : DueSmall y) {due : List Nat} (admin : Mapping.adminAddress ∉ due)
    (unmoved : ∀ update ∈ (origin.pool.withHoldings x y).datumUpdates,update.1 ∉ due → update ∈ origin.pool.datumUpdates)
    (exec : ∀ fields,setFields origin.fields (origin.pool.withHoldings x y).datumUpdates = some fields → ∃ value,
      (PoolMake.mk origin.pool (origin.pool.withHoldings x y)).exec before = some ⟨before.address,value,some (.constr origin.alternative fields)⟩ ∧
      origin.Holds x y value) :
    (∃ produced,(PoolMake.mk origin.pool (origin.pool.withHoldings x y)).exec before = some produced ∧
      (tryFromLedger ctx produced).map Tracked.value = some (origin.pool.withHoldings x y) ∧ OnlyTraded origin.pool due before produced) ↔
    CanonicalAdmin origin.pool before ∧ (Tracked.add 64 x.treasury x.firstRoyalty).value < x.reserves ∧
      (Tracked.add 64 y.treasury y.firstRoyalty).value < y.reserves := by
  obtain ⟨fields,made,length,written,untouched⟩ := setFields_get (RoyaltyPoolConfig.datumUpdates_inside origin.reads)
    (RoyaltyPoolConfig.datumUpdates_nodup (origin.pool.withHoldings x y))
  have kept : origin.conf.Kept (origin.pool.withHoldings x y) := ⟨rfl,rfl,rfl,rfl,origin.kept.treasuryAddress,rfl⟩
  have reads : (origin.conf.traded x y).Reads fields :=
    RoyaltyPoolConfig.reads_traded origin.reads kept xSmall.treasury ySmall.treasury xSmall.royalty ySmall.royalty written untouched
  obtain ⟨value,ran,holds⟩ := exec fields made
  have parse := origin.parse_traded xSmall.none ySmall.none distinct reads holds.x holds.y holds.others
  have adminIs : (origin.pool.withHoldings x y).adminAddress = origin.pool.adminAddress := rfl
  have only := origin.only_traded adminIs admin length written untouched unmoved holds.others
  constructor
  · rintro ⟨produced,same,parsed,traded⟩
    cases Option.some.inj (same.symm.trans ran)
    exact ⟨only.mp traded,parse.mp parsed⟩
  · rintro ⟨canonical,sums⟩
    exact ⟨_,ran,parse.mpr sums,only.mpr canonical⟩

end Produced

@[grind cases eager] structure DistinctAssets (pool : RoyaltyPool) : Prop where
  xy : pool.assetX ≠ pool.assetY
  xLq : pool.assetX ≠ pool.assetLq
  yLq : pool.assetY ≠ pool.assetLq
  xNft : pool.assetX ≠ .token pool.id
  yNft : pool.assetY ≠ .token pool.id
  lqNft : pool.assetLq ≠ .token pool.id

-- The positions of what an input adds to.
def dueFields (pool : RoyaltyPool) (input : OnSide Nat) : List Nat :=
  if pool.given input = pool.assetX then [Mapping.treasuryX,Mapping.royaltyX] else [Mapping.treasuryY,Mapping.royaltyY]

-- What the treasury and the royalty of the asset given come to is less than its
-- reserves, in the `u64` sum that the parser makes of the two.
def SharesCovered (pool : RoyaltyPool) (input : OnSide Nat) : Prop :=
  ((pool.legs input).1.treasury + input.unwrap * pool.treasuryFee.numer / pool.treasuryFee.denom +
    ((pool.legs input).1.firstRoyalty + input.unwrap * pool.firstRoyaltyFee.numer / pool.firstRoyaltyFee.denom)) % 2^64 <
      (pool.legs input).1.reserves + input.unwrap

section Swapped
variable {ctx : PoolContext} {before : TransactionOutput PlutusData} (origin : Origin ctx before)

theorem Origin.fees : origin.pool.V1Fees := reads_fees origin.reads ..

theorem Origin.solvent {asset : AssetClass} {amount : Nat} {output : Nat} (made : origin.pool.outputAmount asset amount = pure output) :
    origin.pool.x.Solvent ∧ origin.pool.y.Solvent := by
  obtain ⟨leftX,xMade,made⟩ := Tracked.bind_eq_pure.mp made
  obtain ⟨leftY,yMade,_⟩ := Tracked.bind_eq_pure.mp made
  have coveredX := tradable_pure origin.reservesX.toNat_lt xMade
  have coveredY := tradable_pure origin.reservesY.toNat_lt yMade
  have pureX := origin.admits.pureX
  have pureY := origin.admits.pureY
  have boundX := origin.reservesX.toNat_lt
  have boundY := origin.reservesY.toNat_lt
  change origin.conf.treasuryX + origin.conf.royaltyX + 0 ≤ origin.reservesX.toNat at coveredX
  change origin.conf.treasuryY + origin.conf.royaltyY + 0 ≤ origin.reservesY.toNat at coveredY
  rw [add_value_of_lt (by omega)] at pureX pureY
  refine ⟨⟨boundX,coveredX,?_⟩,⟨boundY,coveredY,?_⟩⟩
  · change 0 < origin.reservesX.toNat - (origin.conf.treasuryX + origin.conf.royaltyX + 0)
    omega
  · change 0 < origin.reservesY.toNat - (origin.conf.treasuryY + origin.conf.royaltyY + 0)
    omega

theorem paid_covered {holding : Holding} {output : Nat} (solvent : holding.Solvent) (none : holding.secondRoyalty = 0) (less : output < holding.free) :
    (Tracked.add 64 holding.treasury holding.firstRoyalty).value < holding.reserves - output := by
  have small := solvent.small
  have covered := solvent.covered
  unfold Holding.free at less
  rw [add_value_of_lt (by omega)]
  omega

theorem intoX_pure {pool after : RoyaltyPool} {input output : Nat} (small : pool.y.reserves < 2^64) (made : pool.intoX input output = pure after) :
    ∃ x,pool.Received pool.x input x ∧ output ≤ pool.y.reserves ∧ after = pool.withHoldings x (pool.y.without output) := by
  obtain ⟨x,received,made⟩ := Tracked.bind_eq_pure.mp made
  obtain ⟨y,payed,made⟩ := Tracked.bind_eq_pure.mp made
  obtain ⟨enough,rfl⟩ := pay_pure small payed
  exact ⟨x,receive_pure received,enough,(Tracked.pure_inj made).symm⟩

theorem intoY_pure {pool after : RoyaltyPool} {input output : Nat} (small : pool.x.reserves < 2^64) (made : pool.intoY input output = pure after) :
    ∃ y,pool.Received pool.y input y ∧ output ≤ pool.x.reserves ∧ after = pool.withHoldings (pool.x.without output) y := by
  obtain ⟨y,received,made⟩ := Tracked.bind_eq_pure.mp made
  obtain ⟨x,payed,made⟩ := Tracked.bind_eq_pure.mp made
  obtain ⟨enough,rfl⟩ := pay_pure small payed
  exact ⟨y,receive_pure received,enough,(Tracked.pure_inj made).symm⟩

theorem received_small {pool : RoyaltyPool} (fees : pool.V1Fees) {before after : Holding} {amount : Nat} (received : pool.Received before amount after)
    (none : before.secondRoyalty = 0) : DueSmall after := by
  refine ⟨received.treasury.2,received.firstRoyalty.2,?_⟩
  rw [received.secondRoyalty,none,fees.second]
  simp

theorem received_covered {pool : RoyaltyPool} {before after : Holding} {amount : Nat} (received : pool.Received before amount after) :
    (Tracked.add 64 after.treasury after.firstRoyalty).value < after.reserves ↔
      (before.treasury + amount * pool.treasuryFee.numer / pool.treasuryFee.denom +
        (before.firstRoyalty + amount * pool.firstRoyaltyFee.numer / pool.firstRoyaltyFee.denom)) % 2^64 < before.reserves + amount := by
  rw [Tracked.add_value,received.reserves.1,received.treasury.1,received.firstRoyalty.1]

theorem Origin.dueSmall : DueSmall origin.pool.x ∧ DueSmall origin.pool.y :=
  ⟨⟨takeField_u64 origin.reads.treasuryX,takeField_u64 origin.reads.royaltyX,rfl⟩,⟨takeField_u64 origin.reads.treasuryY,takeField_u64 origin.reads.royaltyY,rfl⟩⟩

theorem unmoved_y {pool : RoyaltyPool} {x y : Holding} (treasury : y.treasury = pool.y.treasury) (royalty : y.firstRoyalty = pool.y.firstRoyalty)
    {update : Nat × PlutusData} (member : update ∈ (pool.withHoldings x y).datumUpdates) (outside : update.1 ∉ [Mapping.treasuryX,Mapping.royaltyX]) :
    update ∈ pool.datumUpdates := by
  unfold datumUpdates withHoldings at member
  simp only [List.mem_cons,List.not_mem_nil,or_false,treasury,royalty] at member
  rcases member with rfl | rfl | rfl | rfl | rfl | rfl | rfl | rfl | rfl | rfl
  all_goals simp [datumUpdates] at outside ⊢

theorem unmoved_x {pool : RoyaltyPool} {x y : Holding} (treasury : x.treasury = pool.x.treasury) (royalty : x.firstRoyalty = pool.x.firstRoyalty)
    {update : Nat × PlutusData} (member : update ∈ (pool.withHoldings x y).datumUpdates) (outside : update.1 ∉ [Mapping.treasuryY,Mapping.royaltyY]) :
    update ∈ pool.datumUpdates := by
  unfold datumUpdates withHoldings at member
  simp only [List.mem_cons,List.not_mem_nil,or_false,treasury,royalty] at member
  rcases member with rfl | rfl | rfl | rfl | rfl | rfl | rfl | rfl | rfl | rfl
  all_goals simp [datumUpdates] at outside ⊢

theorem Origin.swap_exact {after : RoyaltyPool} {input : OnSide Nat} (distinct : origin.pool.DistinctAssets) (positive : 0 < input.unwrap)
    (swapped : origin.pool.swap input = pure after) (paid : 0 < (origin.pool.outputAmount (origin.pool.given input) input.unwrap).value) :
    (∃ produced,(PoolMake.mk origin.pool after).exec before = some produced ∧ (tryFromLedger ctx produced).map Tracked.value = some after ∧
      OnlyTraded origin.pool (origin.pool.dueFields input) before produced) ↔ CanonicalAdmin origin.pool before ∧ origin.pool.SharesCovered input := by
  rw [swap_booked (.inl distinct.xy)] at swapped
  obtain ⟨output,quoted,booked⟩ := Tracked.bind_eq_pure.mp swapped
  obtain ⟨x,y⟩ := origin.solvent quoted
  have less := outputAmount_lt origin.fees x y quoted
  obtain ⟨dueX,dueY⟩ := origin.dueSmall
  rw [quoted,Tracked.pure_value] at paid
  unfold dueFields SharesCovered
  unfold legs at less ⊢
  split at booked
  case isTrue same =>
    rw [if_pos same] at less ⊢
    rw [if_pos same]
    obtain ⟨x',received,enough,rfl⟩ := intoX_pure y.small booked
    rw [origin.exec_exact ⟨distinct.xLq,distinct.yLq⟩ (received_small origin.fees received dueX.none) (dueY.without output) (by decide)
      (fun _ => unmoved_y rfl rfl),received_covered received]
    · exact and_congr_right fun _ => and_iff_left (paid_covered y dueY.none less)
    · intro fields written
      have room : origin.reservesX.toNat + input.unwrap < 2^64 := received.reserves.1 ▸ received.reserves.2
      obtain ⟨value,ran,left,sum,others⟩ := PoolMake.moved_some ⟨origin.pool,_⟩ distinct.xy origin.yIs origin.xIs
        (less.trans_le (Nat.sub_le _ _)) room origin.datum written
      rw [PoolMake.exec_intoX before rfl rfl received.reserves.1 (Nat.sub_add_cancel enough).symm positive paid]
      exact ⟨value,ran,⟨sum.imp fun _ found => ⟨found.1,found.2.trans received.reserves.1.symm⟩,left,fun asset notX notY => others asset notY notX⟩⟩
  case isFalse other =>
    rw [if_neg other] at less ⊢
    rw [if_neg other]
    obtain ⟨y',received,enough,rfl⟩ := intoY_pure x.small booked
    rw [origin.exec_exact ⟨distinct.xLq,distinct.yLq⟩ (dueX.without output) (received_small origin.fees received dueY.none) (by decide)
      (fun _ => unmoved_x rfl rfl),received_covered received]
    · exact and_congr_right fun _ => and_iff_right (paid_covered x dueX.none less)
    · intro fields written
      have room : origin.reservesY.toNat + input.unwrap < 2^64 := received.reserves.1 ▸ received.reserves.2
      obtain ⟨value,ran,left,sum,others⟩ := PoolMake.moved_some ⟨origin.pool,_⟩ distinct.xy.symm origin.xIs origin.yIs
        (less.trans_le (Nat.sub_le _ _)) room origin.datum written
      rw [PoolMake.exec_intoY before rfl rfl received.reserves.1 (Nat.sub_add_cancel enough).symm positive paid]
      exact ⟨value,ran,⟨left,sum.imp fun _ found => ⟨found.1,found.2.trans received.reserves.1.symm⟩,others⟩⟩

end Swapped

theorem make_exec_exact_iff {ctx : PoolContext} {before : TransactionOutput PlutusData} {pool after : RoyaltyPool} {input : OnSide Nat}
    (accepted : (tryFromLedger ctx before).map Tracked.value = some pool) (distinct : pool.DistinctAssets) (positive : 0 < input.unwrap)
    (swapped : pool.swap input = pure after) (paid : 0 < (pool.outputAmount (pool.given input) input.unwrap).value) :
    (∃ produced,(PoolMake.mk pool after).exec before = some produced ∧ (tryFromLedger ctx produced).map Tracked.value = some after ∧
      OnlyTraded pool (pool.dueFields input) before produced) ↔ CanonicalAdmin pool before ∧ pool.SharesCovered input := by
  obtain ⟨origin,rfl⟩ := origin_of.mp accepted
  exact origin.swap_exact distinct positive swapped paid

-- A swap of one ada against the pool of the sample, with one administrator and with two.
section Sample

def crowdedOutput : TransactionOutput PlutusData := sampleOutput 100 [sampleAdmin 1,sampleAdmin 5]

theorem crowdedOutput_accepted : (tryFromLedger sampleContext crowdedOutput).isSome = true := by decide +kernel

def crowdedPool : RoyaltyPool := ((tryFromLedger sampleContext crowdedOutput).get crowdedOutput_accepted).value

theorem parsed_value {ctx : PoolContext} {output : TransactionOutput PlutusData} (accepted : (tryFromLedger ctx output).isSome = true) :
    (tryFromLedger ctx output).map Tracked.value = some ((tryFromLedger ctx output).get accepted).value :=
  Option.map_eq_some_iff.mpr ⟨_,(Option.some_get accepted).symm,rfl⟩

theorem make_exec_exact_sample : ∃ produced,
    (PoolMake.mk parsedSample.value (parsedSample.value.swap (.ask 1000000)).value).exec (sampleOutput 100 [sampleAdmin 1]) = some produced ∧
    (tryFromLedger sampleContext produced).map Tracked.value = some (parsedSample.value.swap (.ask 1000000)).value ∧
    OnlyTraded parsedSample.value (parsedSample.value.dueFields (.ask 1000000)) (sampleOutput 100 [sampleAdmin 1]) produced := by
  refine (make_exec_exact_iff (parsed_value (sampleOutput_accepted 100 (by decide)))
    ⟨by decide +kernel,by decide +kernel,by decide +kernel,by decide +kernel,by decide +kernel,by decide +kernel⟩ (by decide +kernel)
    (Tracked.eq_pure (by decide +kernel)) (by decide +kernel)).mpr ⟨⟨0,_,rfl,?_⟩,?_⟩
  · have admin : parsedSample.value.adminAddress = .filled 1 := by decide +kernel
    change _ = some (PlutusData.list [PlutusCredential.intoInlinePd (.script parsedSample.value.adminAddress)])
    rw [admin]
    rfl
  · unfold SharesCovered
    decide +kernel

-- The second administrator is lost.
theorem administrator_lost : (tryFromLedger sampleContext crowdedOutput).map Tracked.value = some crowdedPool ∧ crowdedPool.DistinctAssets ∧
    crowdedPool.swap (.ask 1000000) = pure (crowdedPool.swap (.ask 1000000)).value ∧
    0 < (crowdedPool.outputAmount (crowdedPool.given (.ask 1000000)) 1000000).value ∧
    ¬∃ produced,(PoolMake.mk crowdedPool (crowdedPool.swap (.ask 1000000)).value).exec crowdedOutput = some produced ∧
      (tryFromLedger sampleContext produced).map Tracked.value = some (crowdedPool.swap (.ask 1000000)).value ∧
      OnlyTraded crowdedPool (crowdedPool.dueFields (.ask 1000000)) crowdedOutput produced := by
  have accepted : (tryFromLedger sampleContext crowdedOutput).map Tracked.value = some crowdedPool := parsed_value crowdedOutput_accepted
  have distinct : crowdedPool.DistinctAssets :=
    ⟨by decide +kernel,by decide +kernel,by decide +kernel,by decide +kernel,by decide +kernel,by decide +kernel⟩
  have swapped : crowdedPool.swap (.ask 1000000) = pure (crowdedPool.swap (.ask 1000000)).value := Tracked.eq_pure (by decide +kernel)
  have paid : 0 < (crowdedPool.outputAmount (crowdedPool.given (.ask 1000000)) 1000000).value := by decide +kernel
  refine ⟨accepted,distinct,swapped,paid,?_⟩
  intro exact
  obtain ⟨origin,same⟩ := origin_of.mp accepted
  rw [same] at exact distinct swapped paid
  obtain ⟨⟨alternative,fields,datum,canonical⟩,_⟩ := (origin.swap_exact distinct (by decide) swapped paid).mp exact
  cases datum
  have lengths : some 2 = some 1 := congrArg (fun field => (field.bind PlutusData.intoVec).map List.length) canonical
  cases lengths

end Sample

end RoyaltyPool

end GreenAgent.Pools.Machine
