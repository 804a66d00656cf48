import GreenAgent.Lib.Curve
import GreenAgent.Book.Finalize
import GreenAgent.Pools.Transition

namespace GreenAgent.Pools.Machine
open Account (AssetClass Token)
open Book (Side OnSide Next Excess AbsolutePrice AbsoluteReserves AvailableLiquidity MarketTaker TakerBehaviour MarketMaker MakerBehavior
  TakeInProgress MakeInProgress MatchmakingAttempt HashOrder checkedSub)
open Green (ExUnits)

theorem Ratio.sub_pure {a b ratio : Ratio} (left : a.Proper) (right : b.Proper) (made : a.sub b = pure ratio) :
    ratio.Proper ∧ ratio.val = a.val - b.val := by
  have parts := made
  have facts : Ratio.SubProducts a b ∧ b.val ≤ a.val := by
    unfold sub at parts
    split at parts
    case isTrue same =>
      obtain ⟨numer,subtracted,_⟩ := Tracked.bind_eq_pure.mp parts
      obtain ⟨below,_⟩ := Tracked.sub_pure left.small subtracted
      refine ⟨fun different => absurd same different,?_⟩
      rw [val,val,same]
      have order : (b.numer : ℚ) ≤ a.numer := by exact_mod_cast below
      gcongr
    case isFalse different =>
      obtain ⟨common,commonMade,parts⟩ := Tracked.bind_eq_pure.mp parts
      obtain ⟨scaledA,scaledMadeA,parts⟩ := Tracked.bind_eq_pure.mp parts
      obtain ⟨scaledB,scaledMadeB,parts⟩ := Tracked.bind_eq_pure.mp parts
      obtain ⟨numer,subtracted,_⟩ := Tracked.bind_eq_pure.mp parts
      obtain ⟨commonFits,rfl⟩ := Tracked.mul_pure commonMade
      obtain ⟨fitsA,rfl⟩ := Tracked.mul_pure scaledMadeA
      obtain ⟨fitsB,rfl⟩ := Tracked.mul_pure scaledMadeB
      obtain ⟨below,_⟩ := Tracked.sub_pure fitsA subtracted
      have same : a.denom * (b.denom / a.denom.gcd b.denom) = a.denom.lcm b.denom := (Nat.mul_div_assoc _ (Nat.gcd_dvd_right ..)).symm
      rw [same] at commonFits fitsA fitsB below
      have positive : 0 < a.denom.lcm b.denom := Nat.lcm_pos left.positive right.positive
      refine ⟨fun _ => ⟨commonFits,fitsA,fitsB⟩,?_⟩
      rw [val_over positive (Nat.dvd_lcm_left ..),val_over positive (Nat.dvd_lcm_right a.denom b.denom)]
      have order : ((b.numer * (a.denom.lcm b.denom / b.denom) : Nat) : ℚ) ≤ (a.numer * (a.denom.lcm b.denom / a.denom) : Nat) := by
        exact_mod_cast below
      gcongr
  obtain ⟨result,again,proper,value⟩ := sub_proper left right facts.1 facts.2
  cases Tracked.pure_inj (made.symm.trans again)
  exact ⟨proper,value⟩

-- What the constant product gives, less what a reserve of lovelace keeps back.
def exactQuote (given paid : Nat) (native : Bool) (amount : Nat) (fee : Ratio) : Nat :=
  let quote := paid * amount * fee.numer / (given * fee.denom + amount * fee.numer)
  if native then min quote (paid - untouchableLovelaceAmount) else quote

theorem quoteFor_pure {given paid amount output : Nat} {native : Bool} {fee : Ratio} (small : paid < 2^64)
    (reserve : native = true → untouchableLovelaceAmount ≤ paid) (made : RoyaltyPool.quoteFor given paid native amount fee = pure output) :
    given * fee.denom + amount * fee.numer ≠ 0 ∧ output = exactQuote given paid native amount fee := by
  obtain ⟨quote,quoted,capped⟩ := Tracked.bind_eq_pure.mp made
  obtain ⟨divisor,exact'⟩ := RoyaltyPool.quoteAmount_pure quoted
  refine ⟨divisor,?_⟩
  have bounded : quote ≤ paid := exact' ▸ quotient_le paid amount fee.numer (given * fee.denom)
  have word : quote % 2^64 = quote := Nat.mod_eq_of_lt (bounded.trans_lt small)
  unfold exactQuote
  rw [← exact']
  unfold cappedQuote at capped
  rw [word] at capped
  cases native with
  | false => exact (Tracked.pure_inj capped).symm
  | true =>
    rw [if_pos rfl,Tracked.sub_eq small bounded,Tracked.pure_bind,Tracked.sub_eq small (reserve rfl)] at capped
    rw [if_pos rfl]
    split at capped
    case isTrue short =>
      rw [← Tracked.pure_inj capped]
      omega
    case isFalse rest =>
      rw [← Tracked.pure_inj capped]
      omega

theorem exactQuote_le (given paid : Nat) (native : Bool) (amount : Nat) (fee : Ratio) : exactQuote given paid native amount fee ≤ paid := by
  have bounded := quotient_le paid amount fee.numer (given * fee.denom)
  unfold exactQuote
  split
  · exact (min_le_left _ _).trans bounded
  · exact bounded

namespace RoyaltyPool

def traded (pool : RoyaltyPool) : ℚ := pool.lpFee.val - pool.treasuryFee.val - pool.firstRoyaltyFee.val - pool.secondRoyaltyFee.val

theorem poolFee_pure {pool : RoyaltyPool} {fee : Ratio} (fees : pool.Fees) (made : pool.poolFee = pure fee) : fee.Proper ∧ fee.val = pool.traded := by
  obtain ⟨first,firstMade,made⟩ := Tracked.bind_eq_pure.mp made
  obtain ⟨second,secondMade,made⟩ := Tracked.bind_eq_pure.mp made
  obtain ⟨firstProper,firstVal⟩ := Ratio.sub_pure fees.lp fees.treasury firstMade
  obtain ⟨secondProper,secondVal⟩ := Ratio.sub_pure firstProper fees.firstRoyalty secondMade
  obtain ⟨proper,val⟩ := Ratio.sub_pure secondProper fees.secondRoyalty made
  refine ⟨proper,?_⟩
  rw [val,secondVal,firstVal]
  rfl

-- A pool with fees that leave something to trade, its reserves `u64`s, and no
-- less lovelace to trade than may never be taken.
@[grind cases eager] structure Ready (pool : RoyaltyPool) : Prop where
  fees : pool.Fees
  smallX : pool.x.reserves < 2^64
  smallY : pool.y.reserves < 2^64
  nativeX : pool.assetX = .native → untouchableLovelaceAmount ≤ pool.x.free
  nativeY : pool.assetY = .native → untouchableLovelaceAmount ≤ pool.y.free

-- The asset a swap brings to the pool, as `output_amount` sees it.
def givenAsset (pool : RoyaltyPool) (input : OnSide Nat) : AssetClass := if pool.given input = pool.assetX then pool.assetX else pool.assetY

variable {pool after : RoyaltyPool} {input : OnSide Nat}

theorem ready_iff (input : OnSide Nat) : pool.Ready ↔ pool.Fees ∧
    ((pool.legs input).1.reserves < 2^64 ∧ (pool.givenAsset input = .native → untouchableLovelaceAmount ≤ (pool.legs input).1.free)) ∧
    ((pool.legs input).2.reserves < 2^64 ∧ (pool.paidAsset input = .native → untouchableLovelaceAmount ≤ (pool.legs input).2.free)) := by
  unfold legs givenAsset paidAsset
  constructor
  · intro ready
    split
    · exact ⟨ready.fees,⟨ready.smallX,ready.nativeX⟩,⟨ready.smallY,ready.nativeY⟩⟩
    · exact ⟨ready.fees,⟨ready.smallY,ready.nativeY⟩,⟨ready.smallX,ready.nativeX⟩⟩
  · split
    · rintro ⟨fees,⟨smallX,nativeX⟩,⟨smallY,nativeY⟩⟩
      exact ⟨fees,smallX,smallY,nativeX,nativeY⟩
    · rintro ⟨fees,⟨smallY,nativeY⟩,⟨smallX,nativeX⟩⟩
      exact ⟨fees,smallX,smallY,nativeX,nativeY⟩

theorem outputAmount_pure {output : Nat} (ready : pool.Ready) (made : pool.outputAmount (pool.given input) input.unwrap = pure output) :
    ((pool.legs input).1.treasury + (pool.legs input).1.firstRoyalty + (pool.legs input).1.secondRoyalty ≤ (pool.legs input).1.reserves) ∧
    ((pool.legs input).2.treasury + (pool.legs input).2.firstRoyalty + (pool.legs input).2.secondRoyalty ≤ (pool.legs input).2.reserves) ∧
    ∃ fee, pool.poolFee = pure fee ∧ (pool.legs input).1.free * fee.denom + input.unwrap * fee.numer ≠ 0 ∧
      output = exactQuote (pool.legs input).1.free (pool.legs input).2.free (decide (pool.paidAsset input = .native)) input.unwrap fee := by
  obtain ⟨x,xMade,made⟩ := Tracked.bind_eq_pure.mp made
  obtain ⟨y,yMade,made⟩ := Tracked.bind_eq_pure.mp made
  obtain ⟨fee,feeMade,made⟩ := Tracked.bind_eq_pure.mp made
  rw [feeMade,Tracked.pure_bind] at made
  have coveredX := tradable_pure ready.smallX xMade
  have coveredY := tradable_pure ready.smallY yMade
  rw [Holding.tradable_eq ready.smallX coveredX] at xMade
  rw [Holding.tradable_eq ready.smallY coveredY] at yMade
  cases Tracked.pure_inj xMade
  cases Tracked.pure_inj yMade
  obtain ⟨_,_,small,native⟩ := (ready_iff input).mp ready
  have smallFree : (pool.legs input).2.free < 2^64 := (Nat.sub_le _ _).trans_lt small
  have quoted : quoteFor (pool.legs input).1.free (pool.legs input).2.free (decide (pool.paidAsset input = .native)) input.unwrap fee = pure output := by
    unfold classicCfmmOutputAmount at made
    unfold legs paidAsset
    split
    · rename_i same
      rw [if_pos same] at made
      exact made
    · rename_i other
      rw [if_neg other] at made
      exact made
  refine ⟨?_,?_,fee,feeMade,quoteFor_pure smallFree (fun isNative => native (of_decide_eq_true isNative)) quoted⟩
  · unfold legs
    split
    · exact coveredX
    · exact coveredY
  · unfold legs
    split
    · exact coveredY
    · exact coveredX

-- What a swap without overflow does to the two holdings.
@[grind cases eager] structure Moved (pool : RoyaltyPool) (input : OnSide Nat) (output : Nat) (after : RoyaltyPool) : Prop where
  received : pool.Received (pool.legs input).1 input.unwrap (after.legs input).1
  payable : output ≤ (pool.legs input).2.reserves
  payed : (after.legs input).2 = (pool.legs input).2.without output
  same : ∃ x y, after = pool.withHoldings x y

theorem swap_moved (ready : pool.Ready) (sides : pool.assetX ≠ pool.assetY ∨ input = .ask input.unwrap) (made : pool.swap input = pure after) :
    ∃ output, pool.outputAmount (pool.given input) input.unwrap = pure output ∧ pool.Moved input output after := by
  rw [swap_booked sides] at made
  obtain ⟨output,quoted,made⟩ := Tracked.bind_eq_pure.mp made
  refine ⟨output,quoted,?_⟩
  have unmoved : ∀ x y, (pool.withHoldings x y).legs input = if pool.given input = pool.assetX then (x,y) else (y,x) := by
    intro x y
    cases input with
    | bid amount => rfl
    | ask amount => rfl
  split at made
  · rename_i same
    obtain ⟨x,received,payable,rfl⟩ := intoX_pure ready.smallY made
    have before : pool.legs input = (pool.x,pool.y) := if_pos same
    refine ⟨?_,?_,?_,x,_,rfl⟩
    · rw [unmoved,if_pos same,before]
      exact received
    · rw [before]
      exact payable
    · rw [unmoved,if_pos same,before]
  · rename_i other
    obtain ⟨y,received,payable,rfl⟩ := intoY_pure ready.smallX made
    have before : pool.legs input = (pool.y,pool.x) := if_neg other
    refine ⟨?_,?_,?_,_,y,rfl⟩
    · rw [unmoved,if_neg other,before]
      exact received
    · rw [before]
      exact payable
    · rw [unmoved,if_neg other,before]

theorem received_free (fees : pool.Fees) {before after : Holding} {amount : Nat} (received : pool.Received before amount after)
    (covered : before.treasury + before.firstRoyalty + before.secondRoyalty ≤ before.reserves) :
    (before.free : ℚ) + amount * pool.traded ≤ after.free := by
  have treasury := share_le pool.treasuryFee amount
  have first := share_le pool.firstRoyaltyFee amount
  have second := share_le pool.secondRoyaltyFee amount
  have exact' : after.free = before.reserves + amount - (before.treasury + amount * pool.treasuryFee.numer / pool.treasuryFee.denom +
      (before.firstRoyalty + amount * pool.firstRoyaltyFee.numer / pool.firstRoyaltyFee.denom) +
      (before.secondRoyalty + amount * pool.secondRoyaltyFee.numer / pool.secondRoyaltyFee.denom)) := by
    rw [Holding.free,received.reserves.1,received.treasury.1,received.firstRoyalty.1,received.secondRoyalty]
  generalize amount * pool.treasuryFee.numer / pool.treasuryFee.denom = toTreasury at treasury exact'
  generalize amount * pool.firstRoyaltyFee.numer / pool.firstRoyaltyFee.denom = toFirst at first exact'
  generalize amount * pool.secondRoyaltyFee.numer / pool.secondRoyaltyFee.denom = toSecond at second exact'
  have counted := mul_le_mul_of_nonneg_left fees.whole (Nat.cast_nonneg amount : (0 : ℚ) ≤ amount)
  have spent : (amount : ℚ) + before.free ≤ after.free + toTreasury + toFirst + toSecond := by
    have whole : amount + before.free ≤ after.free + toTreasury + toFirst + toSecond := by
      rw [exact']
      unfold Holding.free
      omega
    exact_mod_cast whole
  unfold traded
  linarith

theorem traded_nonneg (fees : pool.Fees) : 0 ≤ pool.traded := by
  have shares := fees.shares
  unfold traded
  linarith

@[grind cases eager] structure Step (pool : RoyaltyPool) (input : OnSide Nat) (output : Nat) (after : RoyaltyPool) : Prop where
  received : (after.legs input).1.reserves = (pool.legs input).1.reserves + input.unwrap
  payed : (after.legs input).2.reserves + output = (pool.legs input).2.reserves
  left : (after.legs input).2.free + output = (pool.legs input).2.free
  grown : ((pool.legs input).1.free : ℚ) + input.unwrap * pool.traded ≤ (after.legs input).1.free
  kept : ((pool.legs input).1.free : ℚ) * (pool.legs input).2.free ≤
    ((pool.legs input).1.free + input.unwrap * pool.traded) * (after.legs input).2.free
  ready : after.Ready
  same : ∃ x y, after = pool.withHoldings x y

theorem exactQuote_keeps {fee : Ratio} (proper : fee.Proper) (given paid : Nat) (native : Bool) (amount : Nat) :
    (given : ℚ) * paid ≤ (given + amount * fee.val) * (paid - exactQuote given paid native amount fee) := by
  have counted : 0 ≤ (given : ℚ) + amount * fee.val :=
    add_nonneg (Nat.cast_nonneg _) (mul_nonneg (Nat.cast_nonneg _) fee.val_nonneg)
  rcases Nat.eq_zero_or_pos given with rfl | positive
  · have bounded : (exactQuote 0 paid native amount fee : ℚ) ≤ paid := by exact_mod_cast exactQuote_le 0 paid native amount fee
    rw [Nat.cast_zero,zero_mul]
    exact mul_nonneg (by simpa using counted) (sub_nonneg.mpr bounded)
  · refine (quote_keeps positive proper paid amount).trans (mul_le_mul_of_nonneg_left ?_ counted)
    have capped : exactQuote given paid native amount fee ≤ paid * amount * fee.numer / (given * fee.denom + amount * fee.numer) := by
      unfold exactQuote
      split
      · exact min_le_left _ _
      · exact le_rfl
    have order : (exactQuote given paid native amount fee : ℚ) ≤
        (paid * amount * fee.numer / (given * fee.denom + amount * fee.numer) : Nat) := by exact_mod_cast capped
    linarith

theorem le_quote {given paid amount output : Nat} {fee : Ratio} (proper : fee.Proper) (divisor : given * fee.denom + amount * fee.numer ≠ 0)
    (kept : (given : ℚ) * paid ≤ (given + amount * fee.val) * (paid - output)) :
    output ≤ paid * amount * fee.numer / (given * fee.denom + amount * fee.numer) := by
  have denom : (0 : ℚ) ≤ fee.denom := Nat.cast_nonneg _
  have scaled : (fee.denom : ℚ) * fee.val = fee.numer := mul_div_cancel₀ _ (by exact_mod_cast proper.positive.ne')
  have product : (output : ℚ) * (given * fee.denom + amount * fee.numer) ≤ paid * amount * fee.numer := by
    have more := mul_le_mul_of_nonneg_left kept denom
    rw [← scaled]
    linarith
  rw [Nat.le_div_iff_mul_le (Nat.pos_of_ne_zero divisor)]
  exact_mod_cast product

theorem exactQuote_reserve {given paid amount : Nat} {fee : Ratio} (enough : untouchableLovelaceAmount ≤ paid) :
    untouchableLovelaceAmount ≤ paid - exactQuote given paid true amount fee := by
  have capped : exactQuote given paid true amount fee ≤ paid - untouchableLovelaceAmount := by
    unfold exactQuote
    rw [if_pos rfl]
    exact min_le_right _ _
  omega

theorem swap_step (ready : pool.Ready) (sides : pool.assetX ≠ pool.assetY ∨ input = .ask input.unwrap)
    (quoted : pool.outputAmount (pool.given input) input.unwrap = pure output) (made : pool.swap input = pure after) :
    pool.Step input output after := by
  obtain ⟨output',quoted',moved⟩ := swap_moved ready sides made
  obtain rfl := Tracked.pure_inj (quoted.symm.trans quoted')
  obtain ⟨coveredGiven,coveredPaid,fee,feeMade,_,exact'⟩ := outputAmount_pure ready quoted
  obtain ⟨proper,value⟩ := poolFee_pure ready.fees feeMade
  have grown := received_free ready.fees moved.received coveredGiven
  have bounded : output ≤ (pool.legs input).2.free := exact' ▸ exactQuote_le ..
  have left : (after.legs input).2.free = (pool.legs input).2.free - output := by
    rw [moved.payed]
    unfold Holding.free Holding.without
    dsimp only
    omega
  have kept := exactQuote_keeps proper (pool.legs input).1.free (pool.legs input).2.free (decide (pool.paidAsset input = .native)) input.unwrap
  rw [← exact',value,← Nat.cast_sub bounded,← left] at kept
  obtain ⟨x,y,same⟩ := moved.same
  have assets : after.givenAsset input = pool.givenAsset input ∧ after.paidAsset input = pool.paidAsset input := by
    rw [same]
    cases input with
    | bid amount => exact ⟨rfl,rfl⟩
    | ask amount => exact ⟨rfl,rfl⟩
  obtain ⟨fees,⟨_,nativeGiven⟩,⟨smallPaid,nativePaid⟩⟩ := (ready_iff input).mp ready
  have payed : (after.legs input).2.reserves = (pool.legs input).2.reserves - output := by rw [moved.payed,Holding.without]
  refine ⟨moved.received.reserves.1,?_,by omega,grown,kept,?_,x,y,same⟩
  · have := moved.payable
    omega
  · refine (ready_iff input).mpr ⟨?_,⟨moved.received.reserves.2,fun isNative => ?_⟩,⟨by omega,fun isNative => ?_⟩⟩
    · rw [same]
      exact fees.with_holdings x y
    · refine (nativeGiven (assets.1 ▸ isNative)).trans ?_
      have more : (0 : ℚ) ≤ input.unwrap * pool.traded := mul_nonneg (Nat.cast_nonneg _) (traded_nonneg ready.fees)
      have order : ((pool.legs input).1.free : ℚ) ≤ (after.legs input).1.free := by linarith
      exact_mod_cast order
    · have native : pool.paidAsset input = .native := assets.2 ▸ isNative
      rw [left,exact',decide_eq_true native]
      exact exactQuote_reserve (nativePaid native)

section Runs
variable {s : Side} {last : RoyaltyPool} {inputs outputs : List Nat}

-- Inputs of one side swapped one after another, none with an overflow.
inductive Swaps (s : Side) : RoyaltyPool → List Nat → List Nat → RoyaltyPool → Prop where
  | nil : Swaps s current [] [] current
  | cons {current next ended : RoyaltyPool} {i o : Nat} {is os : List Nat}
      (quoted : current.outputAmount (current.given (s.wrap i)) i = pure o) (swapped : current.swap (s.wrap i) = pure next)
      (rest : Swaps s next is os ended) : Swaps s current (i :: is) (o :: os) ended

-- The holding of the asset the side gives, and the other.
def sides (pool : RoyaltyPool) (s : Side) : Holding × Holding := pool.legs (s.wrap 0)

theorem legs_wrap (pool : RoyaltyPool) (s : Side) (i : Nat) : pool.legs (s.wrap i) = pool.sides s := by
  cases s with
  | bid => rfl
  | ask => rfl

theorem unwrap_wrap (s : Side) (i : Nat) : (s.wrap i).unwrap = i := by
  cases s with
  | bid => rfl
  | ask => rfl

@[grind cases eager] structure Total (s : Side) (pool : RoyaltyPool) (inputs outputs : List Nat) (last : RoyaltyPool) : Prop where
  received : (last.sides s).1.reserves = (pool.sides s).1.reserves + inputs.sum
  payed : (last.sides s).2.reserves + outputs.sum = (pool.sides s).2.reserves
  left : (last.sides s).2.free + outputs.sum = (pool.sides s).2.free
  trades : Curve.Trades ((pool.sides s).1.free : ℚ) (pool.sides s).2.free (inputs.map (fun i : Nat => (i : ℚ) * pool.traded)) (last.sides s).2.free
  ready : last.Ready
  same : ∃ x y, last = pool.withHoldings x y

theorem Swaps.total (run : Swaps s pool inputs outputs last) (ready : pool.Ready) (distinct : pool.assetX ≠ pool.assetY ∨ s = .ask) :
    Total s pool inputs outputs last := by
  induction run with
  | nil => exact ⟨rfl,rfl,rfl,.nil,ready,_,_,rfl⟩
  | @cons pool next last i o inputs outputs quoted swapped rest ih =>
    have booked : pool.assetX ≠ pool.assetY ∨ s.wrap i = .ask (s.wrap i).unwrap := distinct.imp_right (fun asks => by rw [asks]; rfl)
    have step : pool.Step (s.wrap i) o next := swap_step ready booked (by rw [unwrap_wrap]; exact quoted) swapped
    obtain ⟨x,y,same⟩ := step.same
    have total := ih step.ready (by rw [same]; exact distinct)
    obtain ⟨x',y',same'⟩ := total.same
    have received := step.received
    have payed := step.payed
    have left := step.left
    have grown := step.grown
    have kept := step.kept
    rw [legs_wrap,legs_wrap] at received payed left grown kept
    rw [unwrap_wrap] at received grown kept
    have traded : next.traded = pool.traded := by rw [same]; rfl
    have trades := total.trades
    rw [traded] at trades
    refine ⟨?_,?_,?_,.cons grown kept trades,total.ready,x',y',?_⟩
    · rw [total.received,received,List.sum_cons]
      omega
    · rw [List.sum_cons,← payed,← total.payed]
      omega
    · rw [List.sum_cons,← left,← total.left]
      omega
    · rw [same',same]
      rfl

theorem Total.outputs_le (total : Total s pool inputs outputs last) (ready : pool.Ready)
    (quoted : pool.outputAmount (pool.given (s.wrap inputs.sum)) inputs.sum = pure output) : outputs.sum ≤ output := by
  have offered : pool.outputAmount (pool.given (s.wrap inputs.sum)) (s.wrap inputs.sum).unwrap = pure output := by rw [unwrap_wrap]; exact quoted
  obtain ⟨_,_,fee,feeMade,divisor,exact'⟩ := outputAmount_pure ready offered
  obtain ⟨proper,value⟩ := poolFee_pure ready.fees feeMade
  rw [unwrap_wrap,legs_wrap] at exact' divisor
  have left := total.left
  have within : outputs.sum ≤ (pool.sides s).2.free * inputs.sum * fee.numer / ((pool.sides s).1.free * fee.denom + inputs.sum * fee.numer) := by
    have whole := total.trades.together (Nat.cast_nonneg _) ?_ (Nat.cast_nonneg _)
    · have parts : (inputs.map (fun i : Nat => (i : ℚ) * pool.traded)).sum = inputs.sum * fee.val := by
        rw [value,List.sum_map_mul_right,Nat.cast_list_sum]
      have ended : ((last.sides s).2.free : ℚ) = (pool.sides s).2.free - outputs.sum := by
        rw [← left]
        push_cast
        ring
      rw [parts,ended] at whole
      exact le_quote proper divisor whole
    · intro part member
      obtain ⟨i,_,rfl⟩ := List.mem_map.mp member
      exact mul_nonneg (Nat.cast_nonneg _) (traded_nonneg ready.fees)
  rw [exact']
  unfold exactQuote
  split
  · rename_i isNative
    have reserve : untouchableLovelaceAmount ≤ (last.sides s).2.free := by
      obtain ⟨_,_,_,native⟩ := (ready_iff (s.wrap 0)).mp total.ready
      obtain ⟨x,y,same⟩ := total.same
      refine native ?_
      have assets : last.paidAsset (s.wrap 0) = pool.paidAsset (s.wrap inputs.sum) := by
        rw [same]
        cases s with
        | bid => rfl
        | ask => rfl
      rw [assets]
      exact of_decide_eq_true isNative
    refine le_min within ?_
    omega
  · exact within

theorem reserves_ask (pool : RoyaltyPool) : pool.reserves = ⟨(pool.sides .ask).1.reserves,(pool.sides .ask).2.reserves⟩ := by
  unfold reserves sides legs
  change _ = AbsoluteReserves.mk (if pool.base = pool.assetX then (pool.x,pool.y) else (pool.y,pool.x)).1.reserves
    (if pool.base = pool.assetX then (pool.x,pool.y) else (pool.y,pool.x)).2.reserves
  by_cases same : pool.base = pool.assetX
  · rw [if_pos same,if_pos same.symm]
  · rw [if_neg same,if_neg (Ne.symm same)]

theorem reserves_bid (distinct : pool.assetX ≠ pool.assetY) : pool.reserves = ⟨(pool.sides .bid).2.reserves,(pool.sides .bid).1.reserves⟩ := by
  unfold reserves sides legs
  change _ = AbsoluteReserves.mk (if pool.quote = pool.assetX then (pool.x,pool.y) else (pool.y,pool.x)).2.reserves
    (if pool.quote = pool.assetX then (pool.x,pool.y) else (pool.y,pool.x)).1.reserves
  obtain ⟨base,quote⟩ | ⟨base,quote⟩ := pool.canonical
  · rw [base,quote,if_pos rfl,if_neg distinct.symm]
  · rw [base,quote,if_neg distinct,if_pos rfl]

theorem Swaps.told_by_reserves (run : Swaps s pool inputs outputs last) (ready : pool.Ready) (distinct : pool.assetX ≠ pool.assetY ∨ s = .ask) :
    (s = .ask ∨ last.reserves.quote = pool.reserves.quote ∨ last.reserves.base < pool.reserves.base) ↔
      (s = .ask ∨ inputs.sum = 0 ∨ 0 < outputs.sum) := by
  have total := run.total ready distinct
  have received := total.received
  have payed := total.payed
  obtain ⟨x,y,same⟩ := total.same
  cases s with
  | ask => simp
  | bid =>
    have apart : pool.assetX ≠ pool.assetY := distinct.resolve_right nofun
    have apartLast : last.assetX ≠ last.assetY := by rw [same]; exact apart
    rw [reserves_bid apart,reserves_bid apartLast]
    simp only [reduceCtorEq,false_or]
    omega

theorem checkedSub_add (a b : Nat) : checkedSub (a + b) a = some b := by
  unfold checkedSub
  rw [if_pos (Nat.le_add_right a b),Nat.add_sub_cancel_left]

theorem whole_swap (ready : pool.Ready) (distinct : pool.assetX ≠ pool.assetY ∨ s = .ask) {amount : Nat} (fits : (pool.swap (s.wrap amount)).fits = true) :
    ∃ output after, pool.outputAmount (pool.given (s.wrap amount)) amount = pure output ∧ pool.swap (s.wrap amount) = pure after ∧
      (after.sides s).2.reserves + output = (pool.sides s).2.reserves ∧ ∃ x y, after = pool.withHoldings x y := by
  obtain ⟨after,made⟩ := Tracked.fits_iff.mp fits
  have booked : pool.assetX ≠ pool.assetY ∨ s.wrap amount = .ask (s.wrap amount).unwrap := distinct.imp_right (fun asks => by rw [asks]; rfl)
  obtain ⟨output,quoted,moved⟩ := swap_moved ready booked made
  have step := swap_step ready booked quoted made
  have payed := step.payed
  rw [legs_wrap,legs_wrap] at payed
  rw [unwrap_wrap] at quoted
  exact ⟨output,after,quoted,made,payed,moved.same⟩

theorem exactQuote_zero (given paid : Nat) (native : Bool) (fee : Ratio) : exactQuote given paid native 0 fee = 0 := by
  unfold exactQuote
  simp

theorem outputAmount_zero (ready : pool.Ready) {output : Nat} (quoted : pool.outputAmount (pool.given (s.wrap 0)) 0 = pure output) : output = 0 := by
  have offered : pool.outputAmount (pool.given (s.wrap 0)) (s.wrap 0).unwrap = pure output := by rw [unwrap_wrap]; exact quoted
  obtain ⟨_,_,fee,_,_,exact'⟩ := outputAmount_pure ready offered
  rw [exact',unwrap_wrap,exactQuote_zero]

end Runs

end RoyaltyPool

-- `available_liquidity_on_side` is any function, as for the book's own pools.
class Estimates where
  availableLiquidityOnSide : RoyaltyPool → OnSide AbsolutePrice → Option AvailableLiquidity

section Book
variable {T U : Type} [Estimates]

instance : Book.Stable RoyaltyPool Token := ⟨RoyaltyPool.id⟩

def RoyaltyPool.isActive (pool : RoyaltyPool) : Bool :=
  decide (pool.lqLowerBound ≤ pool.x.reserves * 2 % 2^64) &&
    (if pool.assetX = .native then decide (pool.bounds.minN2tLovelace ≤ pool.x.reserves)
    else if pool.assetY = .native then decide (pool.bounds.minN2tLovelace ≤ pool.y.reserves)
    else true)

-- What the release build computes: overflows wrap around.
instance : MarketMaker RoyaltyPool T ExUnits where
  staticPrice pool := pool.staticPrice.value
  realPrice pool input := (pool.realPrice input).value
  effectivePrice pool _ input := (pool.realPrice input).value
  quality := RoyaltyPool.liquidity
  marginalCostHint := RoyaltyPool.marginalCost
  liquidity := RoyaltyPool.reserves
  availableLiquidityOnSide := Estimates.availableLiquidityOnSide
  isActive := RoyaltyPool.isActive

instance [TakerBehaviour T] : MakerBehavior RoyaltyPool T where
  swap pool input := .succ (pool.swap input).value
  preservePreviewMetadata _ _ rebalanced := rebalanced
  swapWithTaker pool taker input :=
    let make : MakeInProgress RoyaltyPool := ⟨pool,.succ (pool.swap input).value⟩
    (⟨taker,TakerBehaviour.withAppliedTrade taker input.unwrap (Book.tradeOutput T make)⟩,make)

end Book

namespace RoyaltyPool

-- The input of the one swap that finalising a transition makes.
def netInput (before after : RoyaltyPool) : Option (OnSide Nat) :=
  match checkedSub after.reserves.base before.reserves.base with
  | some amount => some (.ask amount)
  | none => (checkedSub after.reserves.quote before.reserves.quote).map .bid

section Finalizing
variable {T : Type} [Estimates] [TakerBehaviour T] {pool last : RoyaltyPool} {s : Side} {inputs outputs : List Nat}

variable {after : RoyaltyPool} {amount excess : Nat}

theorem finalizeMake_ask (net : netInput pool last = some (.ask amount)) (made : pool.swap (.ask amount) = pure after)
    (enough : checkedSub last.reserves.quote after.reserves.quote = some excess) :
    Book.finalizeMake T (⟨pool,.succ last⟩ : MakeInProgress RoyaltyPool) = some (⟨pool,.succ after⟩,⟨0,excess⟩) := by
  unfold netInput at net
  unfold Book.finalizeMake
  simp only [Book.Trans.successor,MarketMaker.liquidity]
  split at net
  · rename_i found
    cases net
    have rebalanced : Book.rebalance T (⟨pool,.succ last⟩ : MakeInProgress RoyaltyPool) (.ask amount) = after := congrArg Tracked.value made
    simp only [found,rebalanced,enough,Option.map_some]
  · obtain ⟨_,_,absurd⟩ := Option.map_eq_some_iff.mp net
    cases absurd

theorem finalizeMake_bid (net : netInput pool last = some (.bid amount)) (made : pool.swap (.bid amount) = pure after)
    (enough : checkedSub last.reserves.base after.reserves.base = some excess) :
    Book.finalizeMake T (⟨pool,.succ last⟩ : MakeInProgress RoyaltyPool) = some (⟨pool,.succ after⟩,⟨excess,0⟩) := by
  unfold netInput at net
  unfold Book.finalizeMake
  simp only [Book.Trans.successor,MarketMaker.liquidity]
  split at net
  · cases net
  · rename_i absent
    obtain ⟨amount',found,same⟩ := Option.map_eq_some_iff.mp net
    cases same
    have rebalanced : Book.rebalance T (⟨pool,.succ last⟩ : MakeInProgress RoyaltyPool) (.bid amount) = after := congrArg Tracked.value made
    simp only [absent,found,rebalanced,enough,Option.bind_some,Option.map_some]

variable (run : Swaps s pool inputs outputs last) (ready : pool.Ready) (distinct : pool.assetX ≠ pool.assetY ∨ s = .ask)
  (whole : ∀ input, netInput pool last = some input → (pool.swap input).fits = true)
include run ready distinct whole

theorem Swaps.finalized : outputs.sum ≤ (pool.outputAmount (pool.given (s.wrap inputs.sum)) inputs.sum).value ∧
    ∃ final excess, Book.finalizeMake T (⟨pool,.succ last⟩ : MakeInProgress RoyaltyPool) = some (final,excess) ∧
      (excess.taken s.not = ⟨0,0⟩ ↔ s = .ask ∨ inputs.sum = 0 ∨ 0 < outputs.sum) := by
  have total := run.total ready distinct
  obtain ⟨x,y,same⟩ := total.same
  have received := total.received
  have payed := total.payed
  cases s with
  | ask =>
    have net : netInput pool last = some (.ask inputs.sum) := by
      unfold netInput
      rw [pool.reserves_ask,last.reserves_ask,received,checkedSub_add]
    obtain ⟨output,after,quoted,made,left,_⟩ := whole_swap (s := .ask) ready distinct (whole _ net)
    have more := total.outputs_le ready quoted
    refine ⟨by rw [quoted]; exact more,?_⟩
    have enough : checkedSub last.reserves.quote after.reserves.quote = some (output - outputs.sum) := by
      rw [last.reserves_ask,after.reserves_ask]
      have split : (last.sides .ask).2.reserves = (after.sides .ask).2.reserves + (output - outputs.sum) := by omega
      rw [split]
      exact checkedSub_add ..
    exact ⟨_,_,finalizeMake_ask net made enough,by simp [Side.not,Excess.taken]⟩
  | bid =>
    have apart : pool.assetX ≠ pool.assetY := distinct.resolve_right (by rintro ⟨⟩)
    have apartLast : last.assetX ≠ last.assetY := by rw [same]; exact apart
    by_cases none : outputs.sum = 0
    · -- nothing was bought: the transition looks like an ask of zero
      refine ⟨by rw [none]; exact Nat.zero_le _,?_⟩
      have net : netInput pool last = some (.ask 0) := by
        unfold netInput
        rw [reserves_bid apart,reserves_bid apartLast]
        have unchanged : (last.sides .bid).2.reserves = (pool.sides .bid).2.reserves + 0 := by omega
        rw [unchanged,checkedSub_add]
      obtain ⟨output,after,quoted,made,left,x',y',same'⟩ := whole_swap (s := .ask) ready (.inr rfl) (whole _ net)
      have zero : output = 0 := outputAmount_zero ready quoted
      have enough : checkedSub last.reserves.quote after.reserves.quote = some inputs.sum := by
        have untouched : after.reserves.quote = pool.reserves.quote := by
          rw [after.reserves_ask,pool.reserves_ask]
          dsimp only
          omega
        rw [untouched,reserves_bid apart,reserves_bid apartLast,received]
        exact checkedSub_add ..
      exact ⟨_,_,finalizeMake_ask net made enough,by simp [Side.not,Excess.taken,none]⟩
    · have net : netInput pool last = some (.bid inputs.sum) := by
        unfold netInput
        rw [reserves_bid apart,reserves_bid apartLast]
        have less : checkedSub (last.sides .bid).2.reserves (pool.sides .bid).2.reserves = Option.none := if_neg (by omega)
        simp only [less,received,checkedSub_add,Option.map_some]
      obtain ⟨output,after,quoted,made,left,x',y',same'⟩ := whole_swap (s := .bid) ready distinct (whole _ net)
      have apartAfter : after.assetX ≠ after.assetY := by rw [same']; exact apart
      have more := total.outputs_le ready quoted
      refine ⟨by rw [quoted]; exact more,?_⟩
      have enough : checkedSub last.reserves.base after.reserves.base = some (output - outputs.sum) := by
        rw [reserves_bid apartLast,reserves_bid apartAfter]
        have split : (last.sides .bid).2.reserves = (after.sides .bid).2.reserves + (output - outputs.sum) := by omega
        rw [split]
        exact checkedSub_add ..
      exact ⟨_,_,finalizeMake_bid net made enough,by simp [Side.not,Excess.taken,Nat.pos_of_ne_zero none]⟩

end Finalizing

end RoyaltyPool

section Attempts
variable {T K : Type} [MarketTaker T ExUnits] [TakerBehaviour T] {s : Side}

theorem finalizeTakes_left {entries : List (K × TakeInProgress T)} {excess : Excess} (some : entries ≠ [])
    (sided : ∀ entry ∈ entries, MarketTaker.side entry.2.target = s) : (Book.finalizeTakes excess entries).2 = excess.taken s.not := by
  induction entries generalizing excess with
  | nil => exact absurd rfl some
  | cons first rest ih =>
    obtain ⟨key,take⟩ := first
    obtain ⟨own,others⟩ := List.forall_mem_cons.mp sided
    have stepped : (Book.finalizeTakes excess ((key,take) :: rest)).2 = (Book.finalizeTakes (excess.taken s.not) rest).2 := by
      rw [Book.finalizeTakes,own]
      cases s with
      | bid => rfl
      | ask => rfl
    rw [stepped]
    cases rest with
    | nil => rfl
    | cons second later =>
      rw [ih (List.cons_ne_nil _ _) others]
      cases s with
      | bid => rfl
      | ask => rfl

variable [Estimates]

-- Takers of one side, and the one pool they were swapped against.
@[grind cases eager] structure OneSided (s : Side) (make : MakeInProgress RoyaltyPool) (attempt : MatchmakingAttempt T K RoyaltyPool Token ExUnits) : Prop where
  makes : ∃ id, Book.entriesOf attempt.makes = [(id,make)]
  takes : Book.entriesOf attempt.takes ≠ []
  sided : ∀ entry ∈ Book.entriesOf attempt.takes, MarketTaker.side entry.2.target = s

theorem OneSided.finalized_iff {make final : MakeInProgress RoyaltyPool} {excess : Excess} {attempt : MatchmakingAttempt T K RoyaltyPool Token ExUnits}
    (one : OneSided s make attempt) (finalized : Book.finalizeMake T make = some (final,excess)) (order : HashOrder) :
    (∃ recipe, attempt.finalized order = some recipe) ↔ excess.taken s.not = ⟨0,0⟩ := by
  obtain ⟨key,listed⟩ := one.makes
  have makes : order.reorder 0 (Book.entriesOf attempt.makes) = [(key,make)] := by
    rw [listed]
    exact List.perm_singleton.mp (order.perm 0 _)
  have takes := order.perm 1 (Book.entriesOf attempt.takes)
  have left : (Book.finalizeTakes excess (order.reorder 1 (Book.entriesOf attempt.takes))).2 = excess.taken s.not := by
    refine finalizeTakes_left (fun empty => one.takes ?_) (fun entry member => one.sided entry (takes.mem_iff.mp member))
    rw [empty] at takes
    exact takes.symm.eq_nil
  have total : Book.finalizeMakes T [(key,make)] = some ([(key,final)],excess) := by
    simp [Book.finalizeMakes,finalized]
  unfold MatchmakingAttempt.finalized
  rw [makes,total]
  simp only [Option.bind_eq_bind,Option.bind_some,left]
  have zero : excess.taken s.not = ⟨0,0⟩ ↔ (excess.taken s.not).base = 0 ∧ (excess.taken s.not).quote = 0 := by
    cases excess.taken s.not
    simp
  rw [zero]
  constructor
  · rintro ⟨recipe,made⟩
    exact (Option.ite_none_right_eq_some.mp made).1
  · intro nothing
    exact ⟨_,if_pos nothing⟩

variable (T K) in
@[grind cases eager] structure NotShortChanged (s : Side) (pool : RoyaltyPool) (inputs outputs : List Nat) (last : RoyaltyPool) : Prop where
  atLeast : outputs.sum ≤ (pool.outputAmount (pool.given (s.wrap inputs.sum)) inputs.sum).value
  finalizes : ∃ final excess, Book.finalizeMake T (⟨pool,.succ last⟩ : MakeInProgress RoyaltyPool) = some (final,excess)
  accepted : ∀ (order : HashOrder) (attempt : MatchmakingAttempt T K RoyaltyPool Token ExUnits),
    OneSided s ⟨pool,.succ last⟩ attempt → ∃ recipe, attempt.finalized order = some recipe

section Fair
variable {pool last : RoyaltyPool} {inputs outputs : List Nat} (ready : pool.Ready) (distinct : pool.assetX ≠ pool.assetY ∨ s = .ask)
  (run : RoyaltyPool.Swaps s pool inputs outputs last)
  (whole : ∀ input, RoyaltyPool.netInput pool last = some input → (pool.swap input).fits = true)
include ready distinct run whole

theorem notShortChanged_iff (taker : T) (key : K) (sided : MarketTaker.side taker = s) :
    NotShortChanged T K s pool inputs outputs last ↔ s = .ask ∨ inputs.sum = 0 ∨ 0 < outputs.sum := by
  obtain ⟨atLeast,final,excess,finalized,left⟩ := run.finalized (T := T) ready distinct whole
  rw [← left]
  constructor
  · intro fair
    let attempt : MatchmakingAttempt T K RoyaltyPool Token ExUnits :=
      ⟨AList.singleton key ⟨taker,.succ taker⟩,AList.singleton pool.id ⟨pool,.succ last⟩,[key],0,0⟩
    have one : OneSided s ⟨pool,.succ last⟩ attempt := by
      refine ⟨⟨pool.id,rfl⟩,List.cons_ne_nil _ _,fun entry member => ?_⟩
      cases List.mem_singleton.mp member
      exact sided
    exact (one.finalized_iff finalized ⟨fun _ list => list,fun _ _ => .refl _⟩).mp (fair.accepted _ attempt one)
  · intro nothing
    exact ⟨atLeast,⟨final,excess,finalized⟩,fun order attempt one => (one.finalized_iff finalized order).mpr nothing⟩

theorem aggregated_swaps_iff (taker : T) (key : K) (sided : MarketTaker.side taker = s) : NotShortChanged T K s pool inputs outputs last ↔
    s = .ask ∨ last.reserves.quote = pool.reserves.quote ∨ last.reserves.base < pool.reserves.base := by
  rw [run.told_by_reserves ready distinct]
  exact notShortChanged_iff ready distinct run whole taker key sided

end Fair

end Attempts

namespace Unestimated
scoped instance : Estimates := ⟨fun _ _ => none⟩
end Unestimated

section Sample
open Unestimated

-- Buys a base asset.
structure BuyOrder where
  amount : Nat

instance : MarketTaker BuyOrder ExUnits where
  side _ := .bid
  input := BuyOrder.amount
  output _ := 0
  price _ := 1
  operatorFee _ _ := 0
  fee _ := 0
  budget _ := 0
  consumableBudget _ := 0
  marginalCostHint _ := ⟨0,0⟩
  minMarginalOutput _ := 0
  timeBounds _ := .none

instance : TakerBehaviour BuyOrder where
  withUpdatedTime order _ := .succ order
  withAppliedTrade order removed _ := .succ ⟨order.amount - removed⟩
  withBudgetCorrected order _ := (0,order)
  withFeeCharged order _ := order
  withOutputAdded order _ := order
  tryTerminate order := .succ order

-- Ten ada against so many tokens that one of them buys no lovelace.
def thinPool : RoyaltyPool :=
  {RoyaltyPool.samplePool 1 2 with assetX:=.native,x:=⟨10000000,0,0,0⟩,y:=⟨1000000000000,0,0,0⟩}

theorem thinPool_ready : thinPool.Ready where
  fees :=
    have fees := (RoyaltyPool.samplePool_solvent 1 2).fees
    ⟨fees.lp,fees.treasury,fees.firstRoyalty,fees.secondRoyalty,fees.shares,fees.whole⟩
  smallX := by decide
  smallY := by decide
  nativeX _ := by decide
  nativeY := nofun

theorem thin_bid : RoyaltyPool.Swaps .bid thinPool [1] [0] (thinPool.swap (.bid 1)).value :=
  .cons (by decide +kernel) (Tracked.eq_pure (by decide +kernel)) .nil

theorem twoAssets_bids : RoyaltyPool.Swaps .bid RoyaltyPool.twoAssets [100,200] [9,19]
    ((RoyaltyPool.twoAssets.swap (.bid 100)).value.swap (.bid 200)).value :=
  .cons (by decide +kernel) (Tracked.eq_pure (by decide +kernel)) (.cons (by decide +kernel) (Tracked.eq_pure (by decide +kernel)) .nil)

-- The token is paid in, nothing is paid out, and the batch of the bid is refused.
theorem bid_for_nothing_fails : thinPool.Ready ∧ RoyaltyPool.Swaps .bid thinPool [1] [0] (thinPool.swap (.bid 1)).value ∧
    ¬NotShortChanged BuyOrder Unit .bid thinPool [1] [0] (thinPool.swap (.bid 1)).value := by
  refine ⟨thinPool_ready,thin_bid,fun fair => ?_⟩
  have net : RoyaltyPool.netInput thinPool (thinPool.swap (.bid 1)).value = some (.ask 0) := by decide +kernel
  have fits : ∀ input, RoyaltyPool.netInput thinPool (thinPool.swap (.bid 1)).value = some input → (thinPool.swap input).fits = true := by
    intro input same
    cases net.symm.trans same
    decide +kernel
  have condition := (notShortChanged_iff thinPool_ready (.inl (by decide)) thin_bid fits (⟨1⟩ : BuyOrder) () rfl).mp fair
  simp at condition

theorem bids_together : NotShortChanged BuyOrder Unit .bid RoyaltyPool.twoAssets [100,200] [9,19]
    ((RoyaltyPool.twoAssets.swap (.bid 100)).value.swap (.bid 200)).value := by
  have solvent := RoyaltyPool.samplePool_solvent 1 2
  have net : RoyaltyPool.netInput RoyaltyPool.twoAssets ((RoyaltyPool.twoAssets.swap (.bid 100)).value.swap (.bid 200)).value = some (.bid 300) := by
    decide +kernel
  refine (aggregated_swaps_iff ⟨solvent.fees,solvent.x.small,solvent.y.small,solvent.nativeX,solvent.nativeY⟩ (.inl (by decide)) twoAssets_bids ?_
    (⟨300⟩ : BuyOrder) () rfl).mpr (.inr (.inr (by decide +kernel)))
  intro input same
  cases net.symm.trans same
  decide +kernel

end Sample

end GreenAgent.Pools.Machine
