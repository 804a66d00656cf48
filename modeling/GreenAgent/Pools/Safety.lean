import GreenAgent.Pools.Solvency
import GreenAgent.Pools.Ledger

namespace GreenAgent.Pools.Machine
open Account (AssetClass)
open Book (OnSide)
open Cardano (PlutusData TransactionOutput)

namespace Ratio

-- The ratio over `feeDen` in lowest terms.
def reduced (numer : Nat) : Ratio := ⟨numer / numer.gcd feeDen,feeDen / numer.gcd feeDen⟩

theorem new_feeDen (numer : Nat) : new numer feeDen = pure (reduced numer) := rfl

section Reduced
variable (numer : Nat)

theorem gcd_pos : 0 < numer.gcd feeDen := Nat.gcd_pos_of_pos_right _ (by decide)

theorem reduced_denom_pos : 0 < (reduced numer).denom := Nat.div_pos (Nat.gcd_le_right _ (by decide)) (gcd_pos numer)

theorem reduced_numer_le : (reduced numer).numer ≤ numer := Nat.div_le_self _ _

theorem reduced_denom_dvd : (reduced numer).denom ∣ feeDen := Nat.div_dvd_of_dvd (Nat.gcd_dvd_right _ _)

theorem reduced_coprime : (reduced numer).numer.Coprime (reduced numer).denom := Nat.coprime_div_gcd_div_gcd (gcd_pos numer)

theorem reduced_expand : (reduced numer).numer * (feeDen / (reduced numer).denom) = numer := by
  have back : feeDen / (feeDen / numer.gcd feeDen) = numer.gcd feeDen := Nat.div_div_self (Nat.gcd_dvd_right _ _) (by decide)
  change numer / numer.gcd feeDen * (feeDen / (feeDen / numer.gcd feeDen)) = numer
  rw [back]
  exact Nat.div_mul_cancel (Nat.gcd_dvd_left _ _)

end Reduced

theorem sub_feeDen (a b : Nat) : sub ⟨a,feeDen⟩ ⟨b,feeDen⟩ = (do let numer ← Tracked.sub 64 a b; new numer feeDen) := if_pos rfl

theorem reduced_sub {a b : Nat} (left : a < 2^64) (right : b < 2^64) :
    (reduced a).sub ⟨b,feeDen⟩ = (do let numer ← Tracked.sub 64 a b; new numer feeDen) := by
  have expand := reduced_expand a
  have common : (reduced a).denom.lcm feeDen = feeDen := Nat.lcm_eq_right (reduced_denom_dvd a)
  unfold sub
  split
  case isTrue same =>
    rw [same,Nat.div_self (by decide),Nat.mul_one] at expand
    rw [expand]
  case isFalse =>
    have own : b * (feeDen / feeDen) = b := by rw [Nat.div_self (by decide),Nat.mul_one]
    have commonFits : (reduced a).denom.lcm feeDen < 2^64 := common.trans_lt (by decide)
    dsimp only
    rw [lcm_eq commonFits,common,Tracked.pure_bind,Tracked.mul_eq (expand.trans_lt left),expand,Tracked.pure_bind,Tracked.mul_eq (own.trans_lt right),own,
      Tracked.pure_bind]

theorem new_coprime {a b scale : Nat} (coprime : a.Coprime b) (positive : 0 < b) (scaled : 0 < scale) : new (a * scale) (b * scale) = pure ⟨a,b⟩ := by
  have common : (a * scale).gcd (b * scale) = scale := by rw [Nat.gcd_mul_right,coprime,Nat.one_mul]
  have nonzero : b * scale ≠ 0 := (Nat.mul_pos positive scaled).ne'
  unfold new
  rw [common,Nat.mul_div_cancel _ scaled,Nat.mul_div_cancel _ scaled,decide_eq_true nonzero]
  rfl

theorem reduced_sub_zero {a : Nat} (small : a < 2^64) : (reduced a).sub ⟨0,100⟩ = pure (reduced a) := by
  have positive := reduced_denom_pos a
  have numer : (reduced a).numer < 2^64 := (reduced_numer_le a).trans_lt small
  have whole := new_coprime (reduced_coprime a) positive Nat.one_pos
  rw [Nat.mul_one,Nat.mul_one] at whole
  unfold sub
  split
  case isTrue same =>
    rw [Tracked.sub_eq numer (Nat.zero_le _),Tracked.pure_bind,Nat.sub_zero,← same,whole]
  case isFalse =>
    have divides : (reduced a).denom.lcm 100 ∣ feeDen := Nat.lcm_dvd (reduced_denom_dvd a) (by decide)
    have common : (reduced a).denom.lcm 100 ≤ feeDen := Nat.le_of_dvd (by decide) divides
    have product : (reduced a).denom * ((reduced a).denom.lcm 100 / (reduced a).denom) = (reduced a).denom.lcm 100 :=
      Nat.mul_div_cancel' (Nat.dvd_lcm_left ..)
    have scaled : 0 < (reduced a).denom.lcm 100 / (reduced a).denom :=
      Nat.div_pos (Nat.le_of_dvd (Nat.lcm_pos positive (by decide)) (Nat.dvd_lcm_left ..)) positive
    have fits : (reduced a).numer * ((reduced a).denom.lcm 100 / (reduced a).denom) < 2^64 := by
      calc (reduced a).numer * ((reduced a).denom.lcm 100 / (reduced a).denom)
          ≤ (reduced a).numer * (feeDen / (reduced a).denom) := Nat.mul_le_mul_left _ (Nat.div_le_div_right common)
        _ = a := reduced_expand a
        _ < 2^64 := small
    have zero : 0 * ((reduced a).denom.lcm 100 / 100) < 2^64 := by simp
    have last := new_coprime (reduced_coprime a) positive scaled
    rw [product] at last
    rw [lcm_eq (common.trans_lt (by decide)),Tracked.pure_bind,Tracked.mul_eq fits,Tracked.pure_bind,Tracked.mul_eq zero,Tracked.pure_bind,Nat.zero_mul,
      Tracked.sub_eq fits (Nat.zero_le _),Tracked.pure_bind,Nat.sub_zero,last]

end Ratio

-- The largest input a swap is asked for: all the lovelace there is.
def maxInput : Nat := 45 * 10^15

-- What the parser leaves known of the amounts of one asset.
@[grind cases eager] structure Holding.Read (holding : Holding) : Prop where
  second : holding.secondRoyalty = 0
  small : holding.reserves < 2^63
  covered : holding.treasury + holding.firstRoyalty < 2^64 → holding.treasury + holding.firstRoyalty < holding.reserves

theorem Holding.Read.solvent {holding : Holding} (read : holding.Read) (due : holding.treasury + holding.firstRoyalty < 2^64) : holding.Solvent := by
  have covered := read.covered due
  have small := read.small
  have second := read.second
  refine ⟨by omega,by omega,?_⟩
  unfold Holding.free
  omega

theorem Holding.Read.free_lt {holding : Holding} (read : holding.Read) : holding.free < 2^63 := Nat.lt_of_le_of_lt (Nat.sub_le _ _) read.small

namespace RoyaltyPool

@[grind cases eager] structure V1Fees (pool : RoyaltyPool) : Prop where
  lp : pool.lpFee.denom = feeDen ∧ pool.lpFee.numer < 2^64
  treasury : pool.treasuryFee.denom = feeDen ∧ pool.treasuryFee.numer < 2^64
  royalty : pool.firstRoyaltyFee.denom = feeDen ∧ pool.firstRoyaltyFee.numer < 2^64
  second : pool.secondRoyaltyFee = ⟨0,100⟩

-- What the parser leaves known of a pool.
@[grind cases eager] structure Parsed (pool : RoyaltyPool) : Prop extends V1Fees pool where
  x : pool.x.Read
  y : pool.y.Read
  oneAsset : pool.assetX = pool.assetY → pool.x.reserves = pool.y.reserves

theorem takeField_u64 {fields : List PlutusData} {index value : Nat} (read : takeField fields index PlutusData.intoU64 = some value) : value < 2^64 := by
  obtain ⟨data,_,parsed⟩ := Option.bind_eq_some_iff.mp read
  exact (PlutusData.intoU64_some parsed).2

theorem add_value_of_lt {a b : Nat} (fits : a + b < 2^64) : (Tracked.add 64 a b).value = a + b := congrArg Tracked.value (Tracked.add_eq fits)

theorem reads_fees {fields : List PlutusData} {conf : RoyaltyPoolConfig} (reads : conf.Reads fields) (ctx : PoolContext)
    (address : Mpf.Bytes) (ver : RoyaltyPoolVer) (reservesX reservesY liquidity : Nat) (cost : Green.ExUnits) (id : Account.Token)
    (treasury : Account.Hash28) : (conf.pool ctx address ver reservesX reservesY liquidity cost id treasury).V1Fees :=
  ⟨⟨rfl,takeField_u64 reads.lpFeeNum⟩,⟨rfl,takeField_u64 reads.treasuryFeeNum⟩,⟨rfl,takeField_u64 reads.royaltyFeeNum⟩,rfl⟩

theorem tryFromLedger_parsed {ctx : PoolContext} {output : TransactionOutput PlutusData} {parsed : Tracked RoyaltyPool}
    (accepted : tryFromLedger ctx output = some parsed) (amounts : ∀ asset,output.value.quantity asset ≤ 2^63 - 1) :
    parsed.value.Parsed ∧ (parsed.fits = true ↔ parsed.value.x.treasury + parsed.value.x.firstRoyalty < 2^64 ∧
      parsed.value.y.treasury + parsed.value.y.firstRoyalty < 2^64) := by
  obtain ⟨ver,alternative,fields,conf,liquidityNeg,lovelace,reservesX,reservesY,-,-,reads,liquidityIs,-,xIs,yIs,built⟩ := tryFromLedger_some.mp accepted
  obtain ⟨cost,id,hash,admits,rfl⟩ := tryFromConfig_some.mp built
  have held {asset : AssetClass} {amount : UInt64} (found : output.value.amountOf asset = some amount) : amount.toNat ≤ 2^63 - 1 := by
    have bound := amounts asset
    rw [Cardano.Value.quantity,found] at bound
    exact bound
  have smallX := held xIs
  have smallY := held yIs
  have smallLq : (Tracked.sub 64 maxLqCap liquidityNeg.toNat).fits = true := Tracked.sub_fits.mpr (held liquidityIs)
  refine ⟨⟨reads_fees reads ..,⟨rfl,?_,?_⟩,⟨rfl,?_,?_⟩,?_⟩,?_⟩
  · change reservesX.toNat < 2^63
    omega
  · exact fun fits => add_value_of_lt fits ▸ admits.pureX
  · change reservesY.toNat < 2^63
    omega
  · exact fun fits => add_value_of_lt fits ▸ admits.pureY
  · intro same
    have one : conf.assetX = conf.assetY := same
    rw [one,yIs] at xIs
    exact congrArg UInt64.toNat (Option.some.inj xIs).symm
  · simp only [Bool.and_eq_true,smallLq,and_true,Tracked.add_fits]
    rfl

section Parsed
variable {pool : RoyaltyPool}

theorem V1Fees.over (parsed : pool.V1Fees) : pool.lpFee = ⟨pool.lpFee.numer,feeDen⟩ ∧ pool.treasuryFee = ⟨pool.treasuryFee.numer,feeDen⟩ ∧
    pool.firstRoyaltyFee = ⟨pool.firstRoyaltyFee.numer,feeDen⟩ := by
  refine ⟨?_,?_,?_⟩
  · rw [← parsed.lp.1]
  · rw [← parsed.treasury.1]
  · rw [← parsed.royalty.1]

-- The numerator of what remains of the fee once the shares are taken off.
def tradedNumer (pool : RoyaltyPool) : Nat := pool.lpFee.numer - pool.treasuryFee.numer - pool.firstRoyaltyFee.numer

theorem V1Fees.poolFee_eq (parsed : pool.V1Fees) (shares : pool.treasuryFee.numer + pool.firstRoyaltyFee.numer ≤ pool.lpFee.numer) :
    pool.poolFee = pure (Ratio.reduced pool.tradedNumer) := by
  have small := parsed.lp.2
  obtain ⟨lp,treasury,royalty⟩ := parsed.over
  unfold poolFee
  rw [lp,treasury,royalty,parsed.second,Ratio.sub_feeDen,Tracked.sub_eq small (by omega),Tracked.pure_bind,Ratio.new_feeDen,Tracked.pure_bind,
    Ratio.reduced_sub (by omega) parsed.royalty.2,Tracked.sub_eq (by omega) (by omega),Tracked.pure_bind,Ratio.new_feeDen,Tracked.pure_bind,
    Ratio.reduced_sub_zero (by omega)]
  rfl

theorem V1Fees.shares_of_poolFee (parsed : pool.V1Fees) {fee : Ratio} (made : pool.poolFee = pure fee) :
    pool.treasuryFee.numer + pool.firstRoyaltyFee.numer ≤ pool.lpFee.numer := by
  have small := parsed.lp.2
  obtain ⟨lp,treasury,royalty⟩ := parsed.over
  unfold poolFee at made
  rw [lp,treasury,royalty,Ratio.sub_feeDen] at made
  obtain ⟨first,firstMade,made⟩ := Tracked.bind_eq_pure.mp made
  obtain ⟨left,leftMade,firstMade⟩ := Tracked.bind_eq_pure.mp firstMade
  obtain ⟨enough,rfl⟩ := Tracked.sub_pure small leftMade
  rw [Ratio.new_feeDen] at firstMade
  obtain ⟨second,secondMade,_⟩ := Tracked.bind_eq_pure.mp made
  rw [← Tracked.pure_inj firstMade,Ratio.reduced_sub (by omega) parsed.royalty.2] at secondMade
  obtain ⟨rest,restMade,_⟩ := Tracked.bind_eq_pure.mp secondMade
  obtain ⟨more,_⟩ := Tracked.sub_pure (by omega) restMade
  omega

end Parsed

section Quotes
variable {given paid amount : Nat} {fee : Ratio}

theorem quoteProducts_of (givenSmall : given < 2^63) (paidSmall : paid < 2^63) (bounded : amount ≤ maxInput) (denom : fee.denom ≤ feeDen)
    (numer : fee.numer < 2^64) (product : paid * amount * fee.numer < 2^128) : QuoteProducts given paid amount fee := by
  have amounts : amount < 2^56 := bounded.trans_lt (by decide)
  have first : paid * amount < 2^63 * 2^56 := Nat.mul_lt_mul'' paidSmall amounts
  have reserves : given * fee.denom ≤ 2^63 * feeDen := Nat.mul_le_mul givenSmall.le denom
  have added : amount * fee.numer < 2^56 * 2^64 := Nat.mul_lt_mul'' amounts numer
  have room : 2^63 * feeDen + 2^56 * 2^64 < 2^128 := by decide
  exact ⟨first.trans (by decide),product,by omega,by omega,by omega⟩

theorem quoteFor_product {native : Bool} (fits : (quoteFor given paid native amount fee).fits = true) : paid * amount * fee.numer < 2^128 := by
  obtain ⟨quote,quoted,_⟩ := Tracked.bind_fits.mp fits
  obtain ⟨product,productMade,quoted⟩ := Tracked.bind_eq_pure.mp quoted
  obtain ⟨numer,numerMade,_⟩ := Tracked.bind_eq_pure.mp quoted
  obtain ⟨_,rfl⟩ := Tracked.mul_pure productMade
  exact (Tracked.mul_pure numerMade).1

theorem quoteFor_native (givenSmall : given < 2^63) (paidSmall : paid < 2^63) (positive : 0 < given) (denom : 0 < fee.denom ∧ fee.denom ≤ feeDen)
    (numer : fee.numer < 2^64) (fits : (quoteFor given paid true 0 fee).fits = true) : untouchableLovelaceAmount ≤ paid := by
  have products : QuoteProducts given paid 0 fee := quoteProducts_of givenSmall paidSmall (Nat.zero_le _) denom.2 numer (by simp)
  have divisor : given * fee.denom + 0 * fee.numer ≠ 0 := by
    have := Nat.mul_pos positive denom.1
    omega
  have zero : paid * 0 * fee.numer / (given * fee.denom + 0 * fee.numer) = 0 := by simp
  have small : paid < 2^64 := paidSmall.trans (by decide)
  unfold quoteFor at fits
  rw [quoteAmount_eq products divisor,Tracked.pure_bind,zero] at fits
  unfold cappedQuote at fits
  generalize untouchableLovelaceAmount = untouchable at fits ⊢
  rw [if_pos rfl,Nat.zero_mod,Tracked.sub_eq small (Nat.zero_le _),Tracked.pure_bind,Nat.sub_zero] at fits
  by_contra short
  rw [if_pos (Nat.lt_of_not_le short)] at fits
  exact short (Tracked.sub_fits.mp fits)

theorem quoteFor_bounded {native : Bool} (products : QuoteProducts given paid amount fee) (positive : 0 < given) (liquid : 0 < paid)
    (proper : fee.Proper) (small : paid < 2^64) (reserve : native = true → untouchableLovelaceAmount ≤ paid) :
    ∃ output,quoteFor given paid native amount fee = pure output ∧ output ≤ paid := by
  have below := quote_lt positive liquid proper amount
  have divisor : given * fee.denom + amount * fee.numer ≠ 0 := by
    have := Nat.mul_pos positive proper.positive
    omega
  obtain ⟨output,capped,bounded,_⟩ := cappedQuote_bounded small below.le reserve
  refine ⟨output,?_,bounded.trans below.le⟩
  unfold quoteFor
  rw [quoteAmount_eq products divisor,Tracked.pure_bind,capped]

end Quotes

section Trades
variable {pool : RoyaltyPool}

-- The asset a swap pays out, as `output_amount` sees it.
def paidAsset (pool : RoyaltyPool) (input : OnSide Nat) : AssetClass := if pool.given input = pool.assetX then pool.assetY else pool.assetX

@[grind cases eager] structure Bounded (pool : RoyaltyPool) : Prop where
  dueX : pool.x.treasury + pool.x.firstRoyalty < 2^64
  dueY : pool.y.treasury + pool.y.firstRoyalty < 2^64
  shares : pool.treasuryFee.numer + pool.firstRoyaltyFee.numer ≤ pool.lpFee.numer
  treasury : maxInput * pool.treasuryFee.numer < 2^64
  royalty : maxInput * pool.firstRoyaltyFee.numer < 2^64
  quote : ∀ input,(pool.legs input).2.free * maxInput * (Ratio.reduced pool.tradedNumer).numer < 2^128
  native : ∀ input,pool.paidAsset input = .native → untouchableLovelaceAmount ≤ (pool.legs input).2.free

-- Parsing, pricing and swapping stay within their widths, and no more is quoted than is there.
@[grind cases eager] structure SafeToTrade (parsed : Tracked RoyaltyPool) : Prop where
  parse : parsed.fits = true
  staticPrice : parsed.value.staticPrice.fits = true
  realPrice : ∀ input,input.unwrap ≤ maxInput → (parsed.value.realPrice input).fits = true
  swap : ∀ input,input.unwrap ≤ maxInput → (parsed.value.swap input).fits = true
  quoted : ∀ input,input.unwrap ≤ maxInput →
    (parsed.value.outputAmount (parsed.value.given input) input.unwrap).value ≤ (parsed.value.legs input).2.tradable.value

theorem V1Fees.traded_small (parsed : pool.V1Fees) : (Ratio.reduced pool.tradedNumer).numer < 2^64 := by
  have small := parsed.lp.2
  have least := Ratio.reduced_numer_le pool.tradedNumer
  unfold tradedNumer at least ⊢
  omega

theorem V1Fees.traded_proper (parsed : pool.V1Fees) : (Ratio.reduced pool.tradedNumer).Proper := ⟨Ratio.reduced_denom_pos _,parsed.traded_small⟩

theorem reduced_denom_le (numer : Nat) : (Ratio.reduced numer).denom ≤ feeDen := Nat.le_of_dvd (by decide) (Ratio.reduced_denom_dvd numer)

theorem legs_read (parsed : pool.Parsed) (input : OnSide Nat) : (pool.legs input).1.Read ∧ (pool.legs input).2.Read := by
  unfold legs
  split
  · exact ⟨parsed.x,parsed.y⟩
  · exact ⟨parsed.y,parsed.x⟩

theorem legs_solvent (x : pool.x.Solvent) (y : pool.y.Solvent) (input : OnSide Nat) : (pool.legs input).1.Solvent ∧ (pool.legs input).2.Solvent := by
  unfold legs
  split
  · exact ⟨x,y⟩
  · exact ⟨y,x⟩

theorem outputAmount_legs {fee : Ratio} (x : pool.x.Solvent) (y : pool.y.Solvent) (made : pool.poolFee = pure fee) (input : OnSide Nat) (amount : Nat) :
    pool.outputAmount (pool.given input) amount =
      quoteFor (pool.legs input).1.free (pool.legs input).2.free (decide (pool.paidAsset input = .native)) amount fee := by
  rw [outputAmount_eq x y made]
  unfold legs paidAsset
  split <;> rfl

theorem outputAmount_bounded (parsed : pool.Parsed) (bounded : pool.Bounded) (x : pool.x.Solvent) (y : pool.y.Solvent) {input : OnSide Nat}
    (small : input.unwrap ≤ maxInput) :
    ∃ output,pool.outputAmount (pool.given input) input.unwrap = pure output ∧ output ≤ (pool.legs input).2.free := by
  obtain ⟨given,paid⟩ := legs_read parsed input
  obtain ⟨givenSolvent,paidSolvent⟩ := legs_solvent x y input
  have product : (pool.legs input).2.free * input.unwrap * (Ratio.reduced pool.tradedNumer).numer < 2^128 :=
    (Nat.mul_le_mul_right _ (Nat.mul_le_mul_left _ small)).trans_lt (bounded.quote input)
  have products := quoteProducts_of given.free_lt paid.free_lt small (reduced_denom_le _) parsed.traded_small product
  rw [outputAmount_legs x y (parsed.poolFee_eq bounded.shares)]
  exact quoteFor_bounded products givenSolvent.positive paidSolvent.positive parsed.traded_proper (paid.free_lt.trans (by decide))
    (fun native => bounded.native input (of_decide_eq_true native))

theorem share_small {amount numer : Nat} (fits : amount * numer < 2^64) : amount * numer / feeDen < 2^62 :=
  Nat.div_lt_of_lt_mul (fits.trans (by decide))

theorem receive_eq (parsed : pool.Parsed) {holding : Holding} (read : holding.Read) (due : holding.treasury + holding.firstRoyalty < 2^64) {amount : Nat}
    (small : amount ≤ maxInput) (treasury : amount * pool.treasuryFee.numer < 2^64) (royalty : amount * pool.firstRoyaltyFee.numer < 2^64) :
    ∃ after,pool.receive holding amount = pure after := by
  have covered := read.covered due
  have reserves := read.small
  have amounts : amount < 2^56 := small.trans_lt (by decide)
  have proper {fee : Ratio} (known : fee.denom = feeDen ∧ fee.numer < 2^64) : fee.Proper := ⟨known.1 ▸ by decide,known.2⟩
  have toTreasury := share_eq (proper parsed.treasury) treasury
  have toRoyalty := share_eq (proper parsed.royalty) royalty
  have none : share pool.secondRoyaltyFee amount = pure 0 := by
    rw [parsed.second,share_eq ⟨by decide,by decide⟩ (by simp)]
    simp
  have treasuryShare := share_small treasury
  have royaltyShare := share_small royalty
  rw [parsed.treasury.1] at toTreasury
  rw [parsed.royalty.1] at toRoyalty
  unfold receive
  rw [Tracked.add_eq (by omega),Tracked.pure_bind,toTreasury,Tracked.pure_bind,Tracked.add_eq (by omega),Tracked.pure_bind,toRoyalty,Tracked.pure_bind,
    Tracked.add_eq (by omega),Tracked.pure_bind,none,Tracked.pure_bind,read.second,Tracked.add_eq (by decide),Tracked.pure_bind]
  exact ⟨_,rfl⟩

theorem receive_products {holding : Holding} {amount : Nat} (fits : (pool.receive holding amount).fits = true) :
    amount * pool.treasuryFee.numer < 2^64 ∧ amount * pool.firstRoyaltyFee.numer < 2^64 := by
  obtain ⟨_,_,fits⟩ := Tracked.bind_fits.mp fits
  obtain ⟨_,treasury,fits⟩ := Tracked.bind_fits.mp fits
  obtain ⟨_,_,fits⟩ := Tracked.bind_fits.mp fits
  obtain ⟨_,royalty,_⟩ := Tracked.bind_fits.mp fits
  obtain ⟨_,treasury,_⟩ := Tracked.bind_eq_pure.mp treasury
  obtain ⟨_,royalty,_⟩ := Tracked.bind_eq_pure.mp royalty
  exact ⟨(Tracked.mul_pure treasury).1,(Tracked.mul_pure royalty).1⟩

theorem pay_eq {holding : Holding} {amount : Nat} (read : holding.Read) (bounded : amount ≤ holding.reserves) :
    pay holding amount = pure {holding with reserves:=holding.reserves - amount} := by
  unfold pay
  rw [Tracked.sub_eq (read.small.trans (by decide)) bounded,Tracked.pure_bind]

section Bounded
variable {amount output : Nat} (parsed : pool.Parsed) (bounded : pool.Bounded) (small : amount ≤ maxInput)
include parsed bounded small

theorem intoX_fits (enough : output ≤ pool.y.reserves) : (pool.intoX amount output).fits = true := by
  obtain ⟨after,received⟩ := receive_eq parsed parsed.x bounded.dueX small ((Nat.mul_le_mul_right _ small).trans_lt bounded.treasury)
    ((Nat.mul_le_mul_right _ small).trans_lt bounded.royalty)
  unfold intoX
  rw [received,Tracked.pure_bind,pay_eq parsed.y enough,Tracked.pure_bind]
  exact Tracked.pure_fits _

theorem intoY_fits (enough : output ≤ pool.x.reserves) : (pool.intoY amount output).fits = true := by
  obtain ⟨after,received⟩ := receive_eq parsed parsed.y bounded.dueY small ((Nat.mul_le_mul_right _ small).trans_lt bounded.treasury)
    ((Nat.mul_le_mul_right _ small).trans_lt bounded.royalty)
  unfold intoY
  rw [received,Tracked.pure_bind,pay_eq parsed.x enough,Tracked.pure_bind]
  exact Tracked.pure_fits _

end Bounded

theorem swap_fits (parsed : pool.Parsed) (bounded : pool.Bounded) {input : OnSide Nat} (small : input.unwrap ≤ maxInput) :
    (pool.swap input).fits = true := by
  obtain ⟨output,made,enough⟩ := outputAmount_bounded parsed bounded (parsed.x.solvent bounded.dueX) (parsed.y.solvent bounded.dueY) small
  have enough : output ≤ (pool.legs input).2.reserves := enough.trans (Nat.sub_le _ _)
  by_cases sides : pool.assetX ≠ pool.assetY ∨ input = .ask input.unwrap
  · rw [swap_booked sides,made,Tracked.pure_bind]
    unfold legs at enough
    split
    case isTrue same =>
      rw [if_pos same] at enough
      exact intoX_fits parsed bounded small enough
    case isFalse other =>
      rw [if_neg other] at enough
      exact intoY_fits parsed bounded small enough
  · -- the quotation and the booking disagree, but the two reserves are the same amount
    obtain ⟨one,side⟩ := not_or.mp sides
    have same : pool.x.reserves = pool.y.reserves := parsed.oneAsset (not_not.mp one)
    have both : output ≤ pool.x.reserves ∧ output ≤ pool.y.reserves := by
      unfold legs at enough
      split at enough
      · exact ⟨enough.trans_eq same.symm,enough⟩
      · exact ⟨enough,enough.trans_eq same⟩
    cases input with
    | ask amount => exact absurd rfl side
    | bid amount =>
      change (pool.outputAmount (pool.given (.bid amount)) (OnSide.bid amount).unwrap >>= _).fits = true
      rw [made,Tracked.pure_bind]
      split
      · exact intoY_fits parsed bounded small both.1
      · exact intoX_fits parsed bounded small both.2

theorem realPrice_fits {input : OnSide Nat} {output : Nat} (made : pool.outputAmount (pool.given input) input.unwrap = pure output) :
    (pool.realPrice input).fits = true := by
  cases input with
  | bid amount =>
    change (pool.outputAmount (pool.given (.bid amount)) (OnSide.bid amount).unwrap >>= _).fits = true
    rw [made,Tracked.pure_bind]
    exact Tracked.pure_fits _
  | ask amount =>
    change (pool.outputAmount (pool.given (.ask amount)) (OnSide.ask amount).unwrap >>= _).fits = true
    rw [made,Tracked.pure_bind]
    exact Tracked.pure_fits _

theorem staticPrice_fits (x : pool.x.Solvent) (y : pool.y.Solvent) : pool.staticPrice.fits = true := by
  unfold staticPrice
  rw [Holding.tradable_eq x.small x.covered,Tracked.pure_bind,Holding.tradable_eq y.small y.covered,Tracked.pure_bind]
  exact Tracked.pure_fits _

theorem swap_parts {input : OnSide Nat} (fits : (pool.swap input).fits = true) :
    (pool.outputAmount (pool.given input) input.unwrap).fits = true ∧ ∃ holding,(pool.receive holding input.unwrap).fits = true := by
  have booked {output : Nat} {side : Prop} [Decidable side] {amount : Nat}
      (fits : (if side then pool.intoX amount output else pool.intoY amount output).fits = true) : ∃ holding,(pool.receive holding amount).fits = true := by
    split at fits
    · obtain ⟨_,made,_⟩ := Tracked.bind_fits.mp fits
      exact ⟨_,Tracked.fits_iff.mpr ⟨_,made⟩⟩
    · obtain ⟨_,made,_⟩ := Tracked.bind_fits.mp fits
      exact ⟨_,Tracked.fits_iff.mpr ⟨_,made⟩⟩
  cases input with
  | bid amount =>
    obtain ⟨output,made,fits⟩ := Tracked.bind_fits.mp fits
    rw [← ite_not] at fits
    exact ⟨Tracked.fits_iff.mpr ⟨_,made⟩,booked fits⟩
  | ask amount =>
    obtain ⟨output,made,fits⟩ := Tracked.bind_fits.mp fits
    exact ⟨Tracked.fits_iff.mpr ⟨_,made⟩,booked fits⟩

theorem safe_of_bounded {parsed : Tracked RoyaltyPool} (known : parsed.value.Parsed) (fits : parsed.fits = true) (bounded : parsed.value.Bounded) :
    SafeToTrade parsed := by
  have x := known.x.solvent bounded.dueX
  have y := known.y.solvent bounded.dueY
  refine ⟨fits,staticPrice_fits x y,?_,fun input small => swap_fits known bounded small,?_⟩
  · intro input small
    obtain ⟨output,made,_⟩ := outputAmount_bounded known bounded x y small
    exact realPrice_fits made
  · intro input small
    obtain ⟨output,made,enough⟩ := outputAmount_bounded known bounded x y small
    have paid := (legs_solvent x y input).2
    rw [made,Holding.tradable_eq paid.small paid.covered]
    exact enough

theorem bounded_of_safe {parsed : Tracked RoyaltyPool} (known : parsed.value.Parsed)
    (due : parsed.value.x.treasury + parsed.value.x.firstRoyalty < 2^64 ∧ parsed.value.y.treasury + parsed.value.y.firstRoyalty < 2^64)
    (safe : SafeToTrade parsed) : parsed.value.Bounded := by
  have x := known.x.solvent due.1
  have y := known.y.solvent due.2
  have quoted (input : OnSide Nat) (small : input.unwrap ≤ maxInput) :
      (parsed.value.outputAmount (parsed.value.given input) input.unwrap).fits = true := (swap_parts (safe.swap input small)).1
  have shares : parsed.value.treasuryFee.numer + parsed.value.firstRoyaltyFee.numer ≤ parsed.value.lpFee.numer := by
    have fits := quoted (.ask maxInput) le_rfl
    unfold outputAmount at fits
    rw [Holding.tradable_eq x.small x.covered,Tracked.pure_bind,Holding.tradable_eq y.small y.covered,Tracked.pure_bind] at fits
    obtain ⟨fee,made,_⟩ := Tracked.bind_fits.mp fits
    exact known.shares_of_poolFee made
  have made := known.poolFee_eq shares
  obtain ⟨_,_,received⟩ := swap_parts (safe.swap (.ask maxInput) le_rfl)
  obtain ⟨treasury,royalty⟩ := receive_products received
  refine ⟨due.1,due.2,shares,treasury,royalty,?_,?_⟩
  · intro input
    have atMost : (parsed.value.outputAmount (parsed.value.given input) maxInput).fits = true := by
      cases input with
      | bid _ => exact quoted (.bid maxInput) le_rfl
      | ask _ => exact quoted (.ask maxInput) le_rfl
    rw [outputAmount_legs x y made] at atMost
    exact quoteFor_product atMost
  · intro input native
    have atZero : (parsed.value.outputAmount (parsed.value.given input) 0).fits = true := by
      cases input with
      | bid _ => exact quoted (.bid 0) (Nat.zero_le _)
      | ask _ => exact quoted (.ask 0) (Nat.zero_le _)
    rw [outputAmount_legs x y made,native] at atZero
    obtain ⟨given,paid⟩ := legs_read known input
    exact quoteFor_native given.free_lt paid.free_lt (legs_solvent x y input).1.positive ⟨Ratio.reduced_denom_pos _,reduced_denom_le _⟩ known.traded_small
      atZero

theorem parsed_pool_safe_iff {ctx : PoolContext} {output : TransactionOutput PlutusData} {parsed : Tracked RoyaltyPool}
    (accepted : tryFromLedger ctx output = some parsed) (amounts : ∀ asset,output.value.quantity asset ≤ 2^63 - 1) :
    SafeToTrade parsed ↔ parsed.value.Bounded := by
  obtain ⟨known,fits⟩ := tryFromLedger_parsed accepted amounts
  constructor
  · intro safe
    exact bounded_of_safe known (fits.mp safe.parse) safe
  · intro bounded
    exact safe_of_bounded known (fits.mpr ⟨bounded.dueX,bounded.dueY⟩) bounded

end Trades

-- One pool of ada against a token as it stands on the ledger.
section Sample
open Cardano (Value hashFromRawBytes PlutusCredential)

def sampleContext : PoolContext where
  v1 := ⟨.filled 9,⟨100,100⟩⟩
  v1LedgerFixed := ⟨.filled 10,⟨100,100⟩⟩
  bounds := ⟨0,0⟩
  paymentScript := fun address => hashFromRawBytes (address.tail.take 28)
  stakingScript := fun _ => none

def assetPd : AssetClass → PlutusData
  | .native => .constr 0 [.bytes [],.bytes []]
  | .token token => .constr 0 [.bytes token.policy.bytes,.bytes token.assetName]

def sampleAdmin (byte : UInt8) : PlutusData := PlutusCredential.intoInlinePd (.script (.filled byte))

def sampleDatum (nft : UInt8) (treasuryFee : Nat) (admins : List PlutusData) : PlutusData :=
  .constr 0 [assetPd (.token (sampleToken nft)),assetPd .native,assetPd (.token (sampleToken 2)),assetPd (.token (sampleToken 0x4c)),
    .ofU64 99700,.ofU64 treasuryFee,.ofU64 100,.ofU64 0,.ofU64 0,.ofU64 0,.ofU64 0,.list admins,.bytes (List.replicate 28 2),
    .bytes (List.replicate 32 3),.ofU64 0]

def sampleValue : Value where
  coin := 1000000000
  multiasset := AList.insert (sampleToken 2) 600000000 (AList.insert (sampleToken 0x4c) 9223372036154775807 (AList.insert (sampleToken 0x50) 1 ∅))

-- A script's payment part and a key's staking part.
def sampleAddress : Mpf.Bytes := 0x11 :: List.replicate 28 9 ++ List.replicate 28 4

def sampleOutput (treasuryFee : Nat) (admins : List PlutusData) : TransactionOutput PlutusData :=
  ⟨sampleAddress,sampleValue,some (sampleDatum 0x50 treasuryFee admins)⟩

theorem quantity_le {value : Value} {bound : Nat} (coin : value.coin.toNat ≤ bound) (tokens : ∀ entry ∈ value.multiasset.entries,entry.2.toNat ≤ bound)
    (asset : AssetClass) : value.quantity asset ≤ bound := by
  cases asset with
  | native => exact coin
  | token token =>
    change ((AList.lookup token value.multiasset).getD 0).toNat ≤ bound
    cases found : AList.lookup token value.multiasset with
    | none => exact Nat.zero_le _
    | some amount => exact tokens _ (HashMap.mem_entries.mpr found)

theorem sampleOutput_accepted : ∀ fee ∈ [100,500],(tryFromLedger sampleContext (sampleOutput fee [sampleAdmin 1])).isSome = true := by decide +kernel

theorem sampleOutput_amounts (treasuryFee : Nat) (admins : List PlutusData) (asset : AssetClass) :
    (sampleOutput treasuryFee admins).value.quantity asset ≤ 2^63 - 1 :=
  show sampleValue.quantity asset ≤ 2^63 - 1 from quantity_le (by decide) (by decide) asset

def parsedSample : Tracked RoyaltyPool := (tryFromLedger sampleContext (sampleOutput 100 [sampleAdmin 1])).get (sampleOutput_accepted 100 (by decide))

theorem parsedSample_bounded : parsedSample.value.Bounded := by
  refine ⟨by decide +kernel,by decide +kernel,by decide +kernel,by decide +kernel,by decide +kernel,?_,?_⟩
  · rintro (amount | amount)
    · exact (by decide +kernel : (parsedSample.value.legs (.bid 0)).2.free * maxInput * (Ratio.reduced parsedSample.value.tradedNumer).numer < 2^128)
    · exact (by decide +kernel : (parsedSample.value.legs (.ask 0)).2.free * maxInput * (Ratio.reduced parsedSample.value.tradedNumer).numer < 2^128)
  · rintro (amount | amount)
    · exact (by decide +kernel : parsedSample.value.paidAsset (.bid 0) = .native → untouchableLovelaceAmount ≤ (parsedSample.value.legs (.bid 0)).2.free)
    · exact (by decide +kernel : parsedSample.value.paidAsset (.ask 0) = .native → untouchableLovelaceAmount ≤ (parsedSample.value.legs (.ask 0)).2.free)

theorem parsed_pool_safe_sample : tryFromLedger sampleContext (sampleOutput 100 [sampleAdmin 1]) = some parsedSample ∧ SafeToTrade parsedSample :=
  ⟨(Option.some_get _).symm,(parsed_pool_safe_iff (Option.some_get _).symm (sampleOutput_amounts 100 _)).mpr parsedSample_bounded⟩

def overflowingSample : Tracked RoyaltyPool :=
  (tryFromLedger sampleContext (sampleOutput 500 [sampleAdmin 1])).get (sampleOutput_accepted 500 (by decide))

-- A treasury fee of half a percent is enough for the product with the largest input to pass `u64`.
theorem treasury_share_overflows : tryFromLedger sampleContext (sampleOutput 500 [sampleAdmin 1]) = some overflowingSample ∧
    (∀ asset,(sampleOutput 500 [sampleAdmin 1]).value.quantity asset ≤ 2^63 - 1) ∧ ¬SafeToTrade overflowingSample := by
  refine ⟨(Option.some_get _).symm,sampleOutput_amounts 500 _,?_⟩
  intro safe
  have fits := safe.swap (.ask maxInput) le_rfl
  exact absurd fits (by decide +kernel)

end Sample

end RoyaltyPool

end GreenAgent.Pools.Machine
