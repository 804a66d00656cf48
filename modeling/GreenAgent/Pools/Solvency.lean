import GreenAgent.Pools.Machine

namespace GreenAgent.Pools.Machine
open Account (AssetClass)
open Book (Side OnSide)
open Green (orderCanonical)

namespace Ratio

@[grind cases eager] structure Proper (ratio : Ratio) : Prop where
  positive : 0 < ratio.denom
  small : ratio.numer < 2^64

theorem val_nonneg (ratio : Ratio) : 0 ≤ ratio.val := div_nonneg (Nat.cast_nonneg _) (Nat.cast_nonneg _)

theorem new_proper {numer denom : Nat} (positive : 0 < denom) (small : numer < 2^64) :
    ∃ ratio,new numer denom = pure ratio ∧ ratio.Proper ∧ ratio.val = (numer : ℚ) / denom := by
  have common : 0 < numer.gcd denom := Nat.gcd_pos_of_pos_right _ positive
  have nonzero : ((numer.gcd denom : Nat) : ℚ) ≠ 0 := by exact_mod_cast common.ne'
  refine ⟨_,Tracked.eq_pure (decide_eq_true positive.ne'),⟨?_,?_⟩,?_⟩
  · exact Nat.div_pos (Nat.gcd_le_right _ positive) common
  · exact Nat.lt_of_le_of_lt (Nat.div_le_self _ _) small
  · simp only [val,new,Nat.cast_div (Nat.gcd_dvd_left numer denom) nonzero,Nat.cast_div (Nat.gcd_dvd_right numer denom) nonzero]
    exact div_div_div_cancel_right₀ nonzero _ _

-- The products `Ratio::sub` makes: none over a common denominator.
def SubProducts (a b : Ratio) : Prop :=
  a.denom ≠ b.denom → a.denom.lcm b.denom < 2^64 ∧
    a.numer * (a.denom.lcm b.denom / a.denom) < 2^64 ∧ b.numer * (a.denom.lcm b.denom / b.denom) < 2^64

theorem lcm_eq {a b : Nat} (fits : a.lcm b < 2^64) : lcm a b = pure (a.lcm b) := by
  have same : a * (b / a.gcd b) = a.lcm b := (Nat.mul_div_assoc a (Nat.gcd_dvd_right a b)).symm
  unfold lcm
  rw [Tracked.mul_eq (same ▸ fits),same]

theorem val_over {ratio : Ratio} {common : Nat} (positive : 0 < common) (multiple : ratio.denom ∣ common) :
    ratio.val = ((ratio.numer * (common / ratio.denom) : Nat) : ℚ) / common := by
  obtain ⟨factor,rfl⟩ := multiple
  have denom : 0 < ratio.denom := Nat.pos_of_mul_pos_right positive
  have factors : (factor : ℚ) ≠ 0 := by exact_mod_cast (Nat.pos_of_mul_pos_left positive).ne'
  rw [Nat.mul_div_cancel_left _ denom]
  push_cast
  exact (mul_div_mul_right _ _ factors).symm

theorem le_of_div_le {a b common : Nat} (positive : 0 < common) (ordered : (b : ℚ) / common ≤ (a : ℚ) / common) : b ≤ a := by
  have scale : (0 : ℚ) < common := by exact_mod_cast positive
  exact_mod_cast (div_le_div_iff_of_pos_right scale).mp ordered

theorem sub_proper {a b : Ratio} (left : a.Proper) (right : b.Proper) (products : SubProducts a b) (ordered : b.val ≤ a.val) :
    ∃ ratio,a.sub b = pure ratio ∧ ratio.Proper ∧ ratio.val = a.val - b.val := by
  unfold sub
  split
  case isTrue same =>
    have shared : a.val = (a.numer : ℚ) / b.denom := by rw [val,same]
    rw [shared] at ordered ⊢
    have below : b.numer ≤ a.numer := le_of_div_le right.positive ordered
    obtain ⟨ratio,made,proper,value⟩ := new_proper right.positive (Nat.lt_of_le_of_lt (Nat.sub_le a.numer b.numer) left.small)
    rw [Nat.cast_sub below,sub_div] at value
    exact ⟨ratio,by rw [Tracked.sub_eq left.small below,Tracked.pure_bind,made],proper,value⟩
  case isFalse different =>
    obtain ⟨commonFits,leftFits,rightFits⟩ := products different
    have positive : 0 < a.denom.lcm b.denom := Nat.lcm_pos left.positive right.positive
    rw [val_over positive (Nat.dvd_lcm_left ..),val_over positive (Nat.dvd_lcm_right a.denom b.denom)] at ordered ⊢
    have below := le_of_div_le positive ordered
    obtain ⟨ratio,made,proper,value⟩ := new_proper positive (Nat.lt_of_le_of_lt (Nat.sub_le _ _) leftFits)
    rw [Nat.cast_sub below,sub_div] at value
    refine ⟨ratio,?_,proper,value⟩
    rw [lcm_eq commonFits,Tracked.pure_bind,Tracked.mul_eq leftFits,Tracked.pure_bind,Tracked.mul_eq rightFits,Tracked.pure_bind,
      Tracked.sub_eq leftFits below,Tracked.pure_bind,made]

end Ratio

namespace Holding

def free (holding : Holding) : Nat := holding.reserves - (holding.treasury + holding.firstRoyalty + holding.secondRoyalty)

-- The treasury and the royalties are covered by the reserves and leave something to trade.
@[grind cases eager] structure Solvent (holding : Holding) : Prop where
  small : holding.reserves < 2^64
  covered : holding.treasury + holding.firstRoyalty + holding.secondRoyalty ≤ holding.reserves
  positive : 0 < holding.free

theorem tradable_eq {holding : Holding} (small : holding.reserves < 2^64)
    (covered : holding.treasury + holding.firstRoyalty + holding.secondRoyalty ≤ holding.reserves) : holding.tradable = pure holding.free := by
  have rest : holding.reserves - holding.treasury - holding.firstRoyalty - holding.secondRoyalty = holding.free := by
    unfold free
    omega
  unfold tradable
  rw [Tracked.sub_eq small (by omega),Tracked.pure_bind,Tracked.sub_eq (by omega) (by omega),Tracked.pure_bind,
    Tracked.sub_eq (by omega) (by omega),rest]

end Holding

namespace RoyaltyPool

-- Of an input the pool counts no more than a share of `lpFee` as traded, and gives
-- away no more than that to the treasury and the royalties.
@[grind cases eager] structure Fees (pool : RoyaltyPool) : Prop where
  lp : pool.lpFee.Proper
  treasury : pool.treasuryFee.Proper
  firstRoyalty : pool.firstRoyaltyFee.Proper
  secondRoyalty : pool.secondRoyaltyFee.Proper
  shares : pool.treasuryFee.val + pool.firstRoyaltyFee.val + pool.secondRoyaltyFee.val ≤ pool.lpFee.val
  whole : pool.lpFee.val ≤ 1

theorem Fees.with_holdings {pool : RoyaltyPool} (fees : pool.Fees) (x y : Holding) : ({pool with x:=x,y:=y} : RoyaltyPool).Fees :=
  ⟨fees.lp,fees.treasury,fees.firstRoyalty,fees.secondRoyalty,fees.shares,fees.whole⟩

-- The products of the fee's own computation.
@[grind cases eager] structure FeeProducts (pool : RoyaltyPool) : Prop where
  treasury : Ratio.SubProducts pool.lpFee pool.treasuryFee
  firstRoyalty : Ratio.SubProducts (pool.lpFee.sub pool.treasuryFee).value pool.firstRoyaltyFee
  secondRoyalty : Ratio.SubProducts ((pool.lpFee.sub pool.treasuryFee).value.sub pool.firstRoyaltyFee).value pool.secondRoyaltyFee

theorem poolFee_proper {pool : RoyaltyPool} (fees : pool.Fees) (products : pool.FeeProducts) :
    ∃ fee,pool.poolFee = pure fee ∧ fee.Proper ∧
      fee.val = pool.lpFee.val - pool.treasuryFee.val - pool.firstRoyaltyFee.val - pool.secondRoyaltyFee.val := by
  have shares := fees.shares
  have treasury := pool.treasuryFee.val_nonneg
  have first := pool.firstRoyaltyFee.val_nonneg
  have second := pool.secondRoyaltyFee.val_nonneg
  have laterProducts := products.firstRoyalty
  have lastProducts := products.secondRoyalty
  obtain ⟨fee1,made1,proper1,value1⟩ := Ratio.sub_proper fees.lp fees.treasury products.treasury (by linarith)
  rw [made1] at laterProducts lastProducts
  obtain ⟨fee2,made2,proper2,value2⟩ := Ratio.sub_proper proper1 fees.firstRoyalty laterProducts (by rw [value1]; linarith)
  rw [Tracked.pure_value,made2] at lastProducts
  obtain ⟨fee3,made3,proper3,value3⟩ := Ratio.sub_proper proper2 fees.secondRoyalty lastProducts (by rw [value2,value1]; linarith)
  rw [value2,value1] at value3
  refine ⟨fee3,?_,proper3,value3⟩
  unfold poolFee
  rw [made1,Tracked.pure_bind,made2,Tracked.pure_bind,made3]

end RoyaltyPool

theorem quote_keeps {given : Nat} {fee : Ratio} (positive : 0 < given) (proper : fee.Proper) (paid amount : Nat) :
    (given : ℚ) * paid ≤ (given + amount * fee.val) * (paid - (paid * amount * fee.numer / (given * fee.denom + amount * fee.numer) : Nat)) := by
  have denom : (0 : ℚ) < fee.denom := by exact_mod_cast proper.positive
  have reserves : (0 : ℚ) < given := by exact_mod_cast positive
  have taken : 0 ≤ (amount : ℚ) * fee.val := mul_nonneg (Nat.cast_nonneg _) fee.val_nonneg
  have scaled : (given : ℚ) * fee.denom + amount * fee.numer = (given + amount * fee.val) * fee.denom := by
    unfold Ratio.val
    field_simp
  have quoted : ((paid * amount * fee.numer / (given * fee.denom + amount * fee.numer) : Nat) : ℚ) ≤
      paid * (amount * fee.val) / (given + amount * fee.val) := by
    refine (Nat.cast_div_le ..).trans_eq ?_
    push_cast
    rw [scaled,← mul_div_mul_right (c := (fee.denom : ℚ)) _ _ denom.ne']
    unfold Ratio.val
    field_simp
  have whole : 0 < (given : ℚ) + amount * fee.val := by linarith
  calc (given : ℚ) * paid = (given + amount * fee.val) * (paid - paid * (amount * fee.val) / (given + amount * fee.val)) := by
        field_simp
        ring
    _ ≤ _ := mul_le_mul_of_nonneg_left (by linarith) whole.le

theorem quote_lt {given paid : Nat} {fee : Ratio} (reserves : 0 < given) (liquid : 0 < paid) (proper : fee.Proper) (amount : Nat) :
    paid * amount * fee.numer / (given * fee.denom + amount * fee.numer) < paid := by
  have base : 0 < given * fee.denom := Nat.mul_pos reserves proper.positive
  apply Nat.div_lt_of_lt_mul
  have extra : 0 < given * fee.denom * paid := Nat.mul_pos base liquid
  calc paid * amount * fee.numer < given * fee.denom * paid + paid * amount * fee.numer := by omega
    _ = (given * fee.denom + amount * fee.numer) * paid := by ring

-- The products of one quotation.
@[grind cases eager] structure QuoteProducts (given paid amount : Nat) (fee : Ratio) : Prop where
  product : paid * amount < 2^128
  numer : paid * amount * fee.numer < 2^128
  reserves : given * fee.denom < 2^128
  added : amount * fee.numer < 2^128
  denom : given * fee.denom + amount * fee.numer < 2^128

theorem quoteAmount_eq {given paid amount : Nat} {fee : Ratio} (products : QuoteProducts given paid amount fee)
    (positive : given * fee.denom + amount * fee.numer ≠ 0) :
    quoteAmount given paid amount fee = pure (paid * amount * fee.numer / (given * fee.denom + amount * fee.numer)) := by
  unfold quoteAmount
  rw [Tracked.mul_eq products.product,Tracked.pure_bind,Tracked.mul_eq products.numer,Tracked.pure_bind,Tracked.mul_eq products.reserves,
    Tracked.pure_bind,Tracked.mul_eq products.added,Tracked.pure_bind,Tracked.add_eq products.denom,Tracked.pure_bind,Tracked.div_eq positive]

theorem cappedQuote_bounded {untouchable liquidity quote : Nat} {native : Bool} (small : liquidity < 2^64) (bounded : quote ≤ liquidity)
    (reserve : native = true → untouchable ≤ liquidity) :
    ∃ output,cappedQuote untouchable native liquidity quote = pure output ∧ output ≤ quote ∧
      (native = true → untouchable ≤ liquidity - output) := by
  have word : quote % 2^64 = quote := Nat.mod_eq_of_lt (bounded.trans_lt small)
  unfold cappedQuote
  rw [word]
  cases native with
  | false => exact ⟨quote,rfl,le_refl _,nofun⟩
  | true =>
    have enough := reserve rfl
    rw [if_pos rfl,Tracked.sub_eq small bounded,Tracked.pure_bind,Tracked.sub_eq small enough]
    split
    case isTrue short => exact ⟨_,rfl,by omega,fun _ => by omega⟩
    case isFalse rest => exact ⟨_,rfl,le_refl _,fun _ => Nat.le_of_not_lt rest⟩

namespace RoyaltyPool

-- The products of an input with the fees it pays.
@[grind cases eager] structure ShareProducts (pool : RoyaltyPool) (amount : Nat) : Prop where
  treasury : amount * pool.treasuryFee.numer < 2^64
  firstRoyalty : amount * pool.firstRoyaltyFee.numer < 2^64
  secondRoyalty : amount * pool.secondRoyaltyFee.numer < 2^64

theorem share_eq {fee : Ratio} {amount : Nat} (proper : fee.Proper) (fits : amount * fee.numer < 2^64) :
    share fee amount = pure (amount * fee.numer / fee.denom) := by
  unfold share
  rw [Tracked.mul_eq fits,Tracked.pure_bind,Tracked.div_eq proper.positive.ne']

theorem share_le (fee : Ratio) (amount : Nat) : ((amount * fee.numer / fee.denom : Nat) : ℚ) ≤ amount * fee.val := by
  refine (Nat.cast_div_le ..).trans_eq ?_
  push_cast
  exact mul_div_assoc _ _ _

theorem receive_keeps {pool : RoyaltyPool} (fees : pool.Fees) {holding : Holding} {amount : Nat} (solvent : holding.Solvent)
    (room : holding.reserves + amount < 2^64) (products : pool.ShareProducts amount) :
    ∃ after,pool.receive holding amount = pure after ∧ after.Solvent ∧
      (holding.free : ℚ) + amount * (pool.lpFee.val - pool.treasuryFee.val - pool.firstRoyaltyFee.val - pool.secondRoyaltyFee.val) ≤ after.free := by
  have treasury := share_le pool.treasuryFee amount
  have first := share_le pool.firstRoyaltyFee amount
  have second := share_le pool.secondRoyaltyFee amount
  have treasuryEq := share_eq fees.treasury products.treasury
  have firstEq := share_eq fees.firstRoyalty products.firstRoyalty
  have secondEq := share_eq fees.secondRoyalty products.secondRoyalty
  generalize amount * pool.treasuryFee.numer / pool.treasuryFee.denom = toTreasury at treasury treasuryEq
  generalize amount * pool.firstRoyaltyFee.numer / pool.firstRoyaltyFee.denom = toFirst at first firstEq
  generalize amount * pool.secondRoyaltyFee.numer / pool.secondRoyaltyFee.denom = toSecond at second secondEq
  have amounts : (0 : ℚ) ≤ amount := Nat.cast_nonneg _
  have given := mul_le_mul_of_nonneg_left fees.shares amounts
  have counted := mul_le_mul_of_nonneg_left fees.whole amounts
  have within : toTreasury + toFirst + toSecond ≤ amount := by
    have : ((toTreasury + toFirst + toSecond : Nat) : ℚ) ≤ amount := by
      push_cast
      linarith
    exact_mod_cast this
  have covered := solvent.covered
  have positive := solvent.positive
  let after : Holding :=
    ⟨holding.reserves + amount,holding.treasury + toTreasury,holding.firstRoyalty + toFirst,holding.secondRoyalty + toSecond⟩
  have left : after.free + (toTreasury + toFirst + toSecond) = holding.free + amount := by
    simp only [Holding.free,after]
    omega
  refine ⟨after,?_,⟨room,?_,?_⟩,?_⟩
  · unfold receive
    rw [Tracked.add_eq room,Tracked.pure_bind,treasuryEq,Tracked.pure_bind,Tracked.add_eq (by omega),Tracked.pure_bind,firstEq,Tracked.pure_bind,
      Tracked.add_eq (by omega),Tracked.pure_bind,secondEq,Tracked.pure_bind,Tracked.add_eq (by omega),Tracked.pure_bind]
  · simp only [after]
    omega
  · omega
  · have exact : (after.free : ℚ) + (toTreasury + toFirst + toSecond) = holding.free + amount := by exact_mod_cast left
    linarith

theorem pay_keeps {holding : Holding} {output : Nat} (solvent : holding.Solvent) (bounded : output < holding.free) :
    ∃ after,pay holding output = pure after ∧ after.Solvent ∧ after.free = holding.free - output := by
  have small := solvent.small
  have covered := solvent.covered
  have left : ({holding with reserves:=holding.reserves - output} : Holding).free = holding.free - output := by
    simp only [Holding.free]
    omega
  unfold Holding.free at bounded
  refine ⟨{holding with reserves:=holding.reserves - output},?_,⟨?_,?_,?_⟩,left⟩
  · unfold pay
    rw [Tracked.sub_eq small (by omega),Tracked.pure_bind]
  · exact Nat.lt_of_le_of_lt (Nat.sub_le _ _) small
  · dsimp only
    omega
  · rw [left]
    unfold Holding.free
    omega

-- The quotation against the two holdings, as both branches of `classic_cfmm_output_amount` make it.
def quoteFor (given paid : Nat) (native : Bool) (amount : Nat) (fee : Ratio) : Tracked Nat := do
  let quote ← quoteAmount given paid amount fee
  cappedQuote untouchableLovelaceAmount native paid quote

theorem exchange_keeps {pool : RoyaltyPool} (fees : pool.Fees) {given paid : Holding} {native : Bool} {amount : Nat} {fee : Ratio}
    (given_solvent : given.Solvent) (paid_solvent : paid.Solvent) (reserve : native = true → untouchableLovelaceAmount ≤ paid.free)
    (room : given.reserves + amount < 2^64) (shares : pool.ShareProducts amount) (proper : fee.Proper)
    (rate : fee.val = pool.lpFee.val - pool.treasuryFee.val - pool.firstRoyaltyFee.val - pool.secondRoyaltyFee.val)
    (products : QuoteProducts given.free paid.free amount fee) :
    ∃ output given' paid',quoteFor given.free paid.free native amount fee = pure output ∧ pool.receive given amount = pure given' ∧
      pay paid output = pure paid' ∧ given'.Solvent ∧ paid'.Solvent ∧ given.free ≤ given'.free ∧
      (native = true → untouchableLovelaceAmount ≤ paid'.free) ∧ given.free * paid.free ≤ given'.free * paid'.free := by
  have below := quote_lt given_solvent.positive paid_solvent.positive proper amount
  have keeps := quote_keeps given_solvent.positive proper paid.free amount
  have divisor : given.free * fee.denom + amount * fee.numer ≠ 0 := by
    have := Nat.mul_pos given_solvent.positive proper.positive
    omega
  have quoted := quoteAmount_eq products divisor
  generalize paid.free * amount * fee.numer / (given.free * fee.denom + amount * fee.numer) = quote at below keeps quoted
  have small : paid.free < 2^64 := Nat.lt_of_le_of_lt (Nat.sub_le _ _) paid_solvent.small
  obtain ⟨output,capped,bounded,left⟩ := cappedQuote_bounded small below.le reserve
  obtain ⟨given',received,givenSolvent,gained⟩ := receive_keeps fees given_solvent room shares
  obtain ⟨paid',payed,paidSolvent,rest⟩ := pay_keeps paid_solvent (bounded.trans_lt below)
  rw [← rate] at gained
  have taken : 0 ≤ (amount : ℚ) * fee.val := mul_nonneg (Nat.cast_nonneg _) fee.val_nonneg
  have grown : (given.free : ℚ) ≤ given'.free := by linarith
  have kept : (paid.free : ℚ) - quote ≤ paid'.free := by
    rw [rest,Nat.cast_sub (bounded.trans below.le)]
    have : (output : ℚ) ≤ quote := by exact_mod_cast bounded
    linarith
  have positive : (0 : ℚ) ≤ paid.free - quote := by
    have : (quote : ℚ) ≤ paid.free := by exact_mod_cast below.le
    linarith
  have product : (given.free : ℚ) * paid.free ≤ given'.free * paid'.free :=
    keeps.trans (mul_le_mul gained kept positive (Nat.cast_nonneg _))
  refine ⟨output,given',paid',?_,received,payed,givenSolvent,paidSolvent,by exact_mod_cast grown,fun isNative => rest ▸ left isNative,
    by exact_mod_cast product⟩
  unfold quoteFor
  rw [quoted,Tracked.pure_bind,capped]

-- The asset a swap gives to the pool.
def given (pool : RoyaltyPool) : OnSide Nat → AssetClass
  | .bid _ => pool.quote
  | .ask _ => pool.base

-- The holdings `output_amount` trades against each other: the one of the asset given and the other.
def legs (pool : RoyaltyPool) (input : OnSide Nat) : Holding × Holding := if pool.given input = pool.assetX then (pool.x,pool.y) else (pool.y,pool.x)

-- No `u64` or `u128` product of the swap overflows.
@[grind cases eager] structure ProductsFit (pool : RoyaltyPool) (input : OnSide Nat) : Prop where
  fee : pool.FeeProducts
  quote : QuoteProducts (pool.legs input).1.free (pool.legs input).2.free input.unwrap pool.poolFee.value
  shares : pool.ShareProducts input.unwrap

@[grind cases eager] structure Solvent (pool : RoyaltyPool) : Prop where
  fees : pool.Fees
  x : pool.x.Solvent
  y : pool.y.Solvent
  nativeX : pool.assetX = .native → untouchableLovelaceAmount ≤ pool.x.free
  nativeY : pool.assetY = .native → untouchableLovelaceAmount ≤ pool.y.free

-- The reserves have room for the input, and it is booked on the holding it was
-- quoted against: `swap` tells the two holdings of a pool of one asset apart by
-- its side, `output_amount` by the asset.
@[grind cases eager] structure Orderly (pool : RoyaltyPool) (input : OnSide Nat) : Prop where
  sides : pool.assetX ≠ pool.assetY ∨ input = .ask input.unwrap
  room : (pool.legs input).1.reserves + input.unwrap < 2^64

theorem canonical (pool : RoyaltyPool) : pool.base = pool.assetX ∧ pool.quote = pool.assetY ∨ pool.base = pool.assetY ∧ pool.quote = pool.assetX := by
  unfold base quote orderCanonical
  split
  · exact .inr ⟨rfl,rfl⟩
  · exact .inl ⟨rfl,rfl⟩

theorem swap_booked {pool : RoyaltyPool} {input : OnSide Nat} (sides : pool.assetX ≠ pool.assetY ∨ input = .ask input.unwrap) :
    pool.swap input = (do
      let output ← pool.outputAmount (pool.given input) input.unwrap
      if pool.given input = pool.assetX then pool.intoX input.unwrap output else pool.intoY input.unwrap output) := by
  cases input with
  | bid amount =>
    have distinct : pool.assetX ≠ pool.assetY := sides.resolve_right nofun
    obtain ⟨base,quote⟩ | ⟨base,quote⟩ := pool.canonical
    · simp only [swap,given,OnSide.unwrap,base,quote,distinct.symm,if_true,if_false]
    · simp only [swap,given,OnSide.unwrap,base,quote,distinct,if_true,if_false]
  | ask amount =>
    simp only [swap,given,OnSide.unwrap]
    obtain ⟨base,-⟩ | ⟨base,-⟩ := pool.canonical
    · simp only [base,if_true]
    · simp only [base,eq_comm]

theorem outputAmount_eq {pool : RoyaltyPool} {fee : Ratio} (x : pool.x.Solvent) (y : pool.y.Solvent) (made : pool.poolFee = pure fee)
    (asset : AssetClass) (amount : Nat) :
    pool.outputAmount asset amount = if asset = pool.assetX then quoteFor pool.x.free pool.y.free (decide (pool.assetY = .native)) amount fee
      else quoteFor pool.y.free pool.x.free (decide (pool.assetX = .native)) amount fee := by
  unfold outputAmount classicCfmmOutputAmount quoteFor
  rw [Holding.tradable_eq x.small x.covered,Tracked.pure_bind,Holding.tradable_eq y.small y.covered,Tracked.pure_bind,made,Tracked.pure_bind,
    Tracked.pure_bind]

-- What a swap must keep of a solvent pool.
@[grind cases eager] structure Keeps (before after : RoyaltyPool) : Prop where
  coveredX : after.x.treasury + after.x.firstRoyalty + after.x.secondRoyalty ≤ after.x.reserves
  coveredY : after.y.treasury + after.y.firstRoyalty + after.y.secondRoyalty ≤ after.y.reserves
  positiveX : 0 < after.x.free
  positiveY : 0 < after.y.free
  product : before.x.free * before.y.free ≤ after.x.free * after.y.free

theorem Solvent.keeps {before after : RoyaltyPool} (solvent : after.Solvent)
    (product : before.x.free * before.y.free ≤ after.x.free * after.y.free) : Keeps before after :=
  ⟨solvent.x.covered,solvent.y.covered,solvent.x.positive,solvent.y.positive,product⟩

theorem swap_keeps {pool : RoyaltyPool} {input : OnSide Nat} (solvent : pool.Solvent) (fits : pool.ProductsFit input) (orderly : pool.Orderly input) :
    ∃ after,pool.swap input = pure after ∧ after.Solvent ∧ Keeps pool after := by
  obtain ⟨fee,made,proper,rate⟩ := poolFee_proper solvent.fees fits.fee
  have products := fits.quote
  have room := orderly.room
  rw [made,Tracked.pure_value] at products
  rw [swap_booked orderly.sides,outputAmount_eq solvent.x solvent.y made]
  unfold legs at products room
  split at products
  case isTrue same =>
    rw [if_pos same] at room ⊢
    obtain ⟨output,x,y,quoted,received,payed,xSolvent,ySolvent,grown,reserve,product⟩ :=
      exchange_keeps solvent.fees solvent.x solvent.y (fun isNative => solvent.nativeY (of_decide_eq_true isNative)) room fits.shares proper rate products
    let after : RoyaltyPool := {pool with x:=x,y:=y}
    have keeps : after.Solvent := ⟨solvent.fees.with_holdings x y,xSolvent,ySolvent,fun isNative => (solvent.nativeX isNative).trans grown,
      fun isNative => reserve (decide_eq_true isNative)⟩
    refine ⟨after,?_,keeps,keeps.keeps product⟩
    rw [quoted,Tracked.pure_bind,if_pos same]
    unfold intoX
    rw [received,Tracked.pure_bind,payed,Tracked.pure_bind]
  case isFalse other =>
    rw [if_neg other] at room ⊢
    obtain ⟨output,y,x,quoted,received,payed,ySolvent,xSolvent,grown,reserve,product⟩ :=
      exchange_keeps solvent.fees solvent.y solvent.x (fun isNative => solvent.nativeX (of_decide_eq_true isNative)) room fits.shares proper rate products
    let after : RoyaltyPool := {pool with x:=x,y:=y}
    have keeps : after.Solvent := ⟨solvent.fees.with_holdings x y,xSolvent,ySolvent,fun isNative => reserve (decide_eq_true isNative),
      fun isNative => (solvent.nativeY isNative).trans grown⟩
    refine ⟨after,?_,keeps,keeps.keeps ?_⟩
    · rw [quoted,Tracked.pure_bind,if_neg other]
      unfold intoY
      rw [received,Tracked.pure_bind,payed,Tracked.pure_bind]
    · rw [Nat.mul_comm pool.x.free,Nat.mul_comm after.x.free]
      exact product

-- The pools that swaps lead to from `start`.
inductive Reached (start : RoyaltyPool) : RoyaltyPool → Prop where
  | refl : Reached start start
  | swap : Reached start pool → pool.ProductsFit input → pool.Orderly input → Reached start (pool.swap input).value

theorem Reached.solvent {start pool : RoyaltyPool} (solvent : start.Solvent) (run : Reached start pool) : pool.Solvent := by
  induction run with
  | refl => exact solvent
  | swap _ fits orderly before =>
    obtain ⟨after,made,kept,_⟩ := swap_keeps before fits orderly
    rw [made]
    exact kept

section Sample

def sampleToken (name : UInt8) : Account.Token := ⟨.filled 7,[name]⟩

-- A thousand of the first asset against ten thousand of the second.
def samplePool (nameX nameY : UInt8) : RoyaltyPool where
  id := sampleToken 0x50
  x := ⟨1000,0,0,0⟩
  y := ⟨10000,0,0,0⟩
  liquidity := 3000
  assetX := .token (sampleToken nameX)
  assetY := .token (sampleToken nameY)
  assetLq := .token (sampleToken 0x4c)
  lpFee := ⟨99700,100000⟩
  treasuryFee := ⟨100,100000⟩
  firstRoyaltyFee := ⟨100,100000⟩
  secondRoyaltyFee := ⟨0,100⟩
  lqLowerBound := 0
  adminAddress := .filled 1
  treasuryAddress := .filled 2
  firstRoyaltyPubKey := List.replicate 32 3
  secondRoyaltyPubKey := List.replicate 32 3
  ver := .v1
  marginalCost := ⟨100,100⟩
  bounds := ⟨0,0⟩
  nonce := 0
  stakePartScriptHash := none

theorem samplePool_solvent (nameX nameY : UInt8) : (samplePool nameX nameY).Solvent where
  fees := by
    refine ⟨⟨?_,?_⟩,⟨?_,?_⟩,⟨?_,?_⟩,⟨?_,?_⟩,?_,?_⟩
    all_goals norm_num [samplePool,Ratio.val]
  x := by constructor <;> norm_num [samplePool,Holding.free]
  y := by constructor <;> norm_num [samplePool,Holding.free]
  nativeX := nofun
  nativeY := nofun

def twoAssets : RoyaltyPool := samplePool 1 2

def oneAsset : RoyaltyPool := samplePool 1 1

theorem twoAssets_fits : twoAssets.ProductsFit (.ask 100) where
  fee := ⟨by unfold Ratio.SubProducts; decide +kernel,by unfold Ratio.SubProducts; decide +kernel,by unfold Ratio.SubProducts; decide +kernel⟩
  quote := ⟨by decide +kernel,by decide +kernel,by decide +kernel,by decide +kernel,by decide +kernel⟩
  shares := ⟨by decide,by decide,by decide⟩

-- Quoted against ten thousand, paid out of the thousand.

end Sample

end RoyaltyPool

end GreenAgent.Pools.Machine
