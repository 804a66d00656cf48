import GreenAgent.Pools.Royalty
import GreenAgent.Book.Conservation
import GreenAgent.Green.Fee

namespace GreenAgent.Green
open Account (Token AssetClass)
open Book (Side OnSide Next TakeInProgress MakeInProgress TLBState ExecutionConfig MatchmakingAttempt MatchmakingRecipe AbsolutePrice Sound Deals Linked Lasting
  Progress stableId finalizeTake tradeOutput)
open Book.MarketTaker (input output price side)
open Book.TakerBehaviour (withAppliedTrade)
open Pools (RoyaltyPool Estimates)

-- The source panics when it is asked the price of an order that leaves nothing.
@[grind cases eager] structure AdaLeaving (order : GreenOrder) : Prop where
  asset : order.intention.inputAsset = .native
  leaving : order.intention.leavingAmount ≠ 0

theorem native_first (asset : AssetClass) : sideOf .native asset = .ask := by
  cases asset <;> rfl

theorem AdaLeaving.side {order : GreenOrder} (leaving : AdaLeaving order) : side order = Side.ask := by
  change sideOf order.intention.inputAsset order.intention.outputAsset = .ask
  rw [leaving.asset]
  exact native_first _

theorem AdaLeaving.price {order : GreenOrder} (leaving : AdaLeaving order) :
    price order = (order.intention.expectedArrivingAmount.toNat : ℚ) / order.intention.leavingAmount.toNat := by
  have asks : order.side = .ask := leaving.side
  have positive : order.intention.leavingAmount.toNat ≠ 0 := Nat.ne_of_gt (U64.toNat_pos leaving.leaving)
  change order.price.getD 0 = _
  unfold GreenOrder.price relativePrice AbsolutePrice.new
  rw [if_pos positive,Option.bind_some,asks]
  rfl

theorem adaLeaving_lasting : Lasting AdaLeaving := by
  intro order removed added next _ traded leaving
  obtain ⟨same,_⟩ := withAppliedTrade_succ traded
  exact ⟨same ▸ leaving.asset,same ▸ leaving.leaving⟩

-- The limit price of an order, for what a take of it gives and receives.
def Honoured (order : GreenOrder) (removed added : Nat) : Prop :=
  order.intention.expectedArrivingAmount.toNat * removed ≤ added * order.intention.leavingAmount.toNat

-- A take that keeps the terms of its order and its limit price.
@[grind cases eager] structure Filled (take : TakeInProgress GreenOrder) : Prop where
  leaving : take.target.intention.leavingAmount ≠ 0
  terms : ∀ next, take.result = .succ next → next.intention = take.target.intention
  honoured : take.accumulatedOutput < U64.max → Honoured take.target take.removedInput take.addedOutput

theorem filled_once {order : GreenOrder} [TokenHash] (leaving : AdaLeaving order) (bounded : removed ≤ input order) (honoured : Honoured order removed added) :
    Filled ⟨order,withAppliedTrade order removed added⟩ where
  leaving := leaving.leaving
  terms := fun next traded => (withAppliedTrade_succ traded).1
  honoured := by
    intro small
    have output_value := Book.LawfulTaker.trade_output order removed added
    have input_value := Book.LawfulTaker.trade_input order removed added bounded
    have removed_all : TakeInProgress.removedInput (⟨order,withAppliedTrade order removed added⟩ : TakeInProgress GreenOrder) = removed := by
      unfold TakeInProgress.removedInput
      rw [input_value]
      simp only
      omega
    have added_all : TakeInProgress.addedOutput (⟨order,withAppliedTrade order removed added⟩ : TakeInProgress GreenOrder) = added := by
      unfold TakeInProgress.addedOutput
      rw [output_value] at small ⊢
      simp only
      omega
    rw [removed_all,added_all]
    exact honoured

theorem Filled.combine {existing take : TakeInProgress GreenOrder} (filled : Filled existing) (again : Filled take)
    (last : existing.result = .succ take.target) (less : existing.remainingInput ≤ input existing.target)
    (more : output existing.target ≤ existing.accumulatedOutput) (less' : take.remainingInput ≤ input take.target)
    (more' : output take.target ≤ take.accumulatedOutput) : Filled (existing.combine take) where
  leaving := filled.leaving
  terms := fun next result => (again.terms next result).trans (filled.terms _ last)
  honoured := by
    intro small
    have input_same := Book.result_remainingInput last
    have output_same := Book.result_accumulatedOutput last
    have first := filled.honoured (lt_of_le_of_lt (output_same ▸ more') small)
    have second := again.honoured small
    have same := filled.terms _ last
    unfold Honoured at first second ⊢
    rw [same] at second
    have removed_sum : TakeInProgress.removedInput (existing.combine take) = existing.removedInput + take.removedInput := by
      unfold TakeInProgress.removedInput
      change input existing.target - take.remainingInput = _
      omega
    have added_sum : TakeInProgress.addedOutput (existing.combine take) = existing.addedOutput + take.addedOutput := by
      unfold TakeInProgress.addedOutput
      change take.accumulatedOutput - output existing.target = _
      omega
    rw [removed_sum,added_sum,Nat.mul_add,Nat.add_mul]
    exact Nat.add_le_add first second

theorem Filled.finalize [TokenHash] {take : TakeInProgress GreenOrder} (filled : Filled take)
    (small : (finalizeTake take extra).accumulatedOutput < U64.max) :
    Honoured (finalizeTake take extra).target (finalizeTake take extra).removedInput (finalizeTake take extra).addedOutput := by
  have grown : (finalizeTake take extra).accumulatedOutput = take.accumulatedOutput + extra := by
    rcases Book.finalizeTake_output take extra with grown | ⟨saturated,_⟩
    · exact grown
    · omega
  have before := filled.honoured (by omega)
  have removed_same : (finalizeTake take extra).removedInput = take.removedInput := by
    unfold TakeInProgress.removedInput
    rw [Book.finalizeTake_input]
    rfl
  have added_more : take.addedOutput ≤ (finalizeTake take extra).addedOutput := by
    unfold TakeInProgress.addedOutput
    rw [grown]
    exact Nat.sub_le_sub_right (Nat.le_add_right _ _) _
  unfold Honoured at before ⊢
  rw [removed_same]
  exact le_trans before (Nat.mul_le_mul_right _ added_more)

section Runs
variable [Estimates] {state : TLBState GreenOrder Token RoyaltyPool} {batch : MatchmakingAttempt GreenOrder Token RoyaltyPool Token ExUnits}

theorem offer_honoured {order : GreenOrder} {pool : RoyaltyPool} {preview : Book.FillPreview} (leaving : AdaLeaving order)
    (offered : Book.Offered order (input order) (side order) pool preview)
    (overlaps : ((side order).wrap (price order)).overlaps preview.price = true) :
    Honoured order preview.input
      (tradeOutput GreenOrder (⟨pool,.succ (pool.swap ((side order).wrap preview.input))⟩ : MakeInProgress RoyaltyPool)) := by
  rw [leaving.side] at offered overlaps ⊢
  rw [pool.swap_output .ask preview.input]
  have limit : price order ≤ preview.price := of_decide_eq_true overlaps
  have priced : ∀ amount quoted, pool.realPrice (.ask amount) = some quoted →
      amount ≠ 0 ∧ quoted = (pool.outputAmount pool.base amount : ℚ) / amount := by
    intro amount quoted real
    change AbsolutePrice.new _ amount = some quoted at real
    unfold AbsolutePrice.new at real
    split at real
    · rename_i nonzero
      exact ⟨nonzero,(Option.some.inj real).symm⟩
    · cases real
  have real : preview.input ≠ 0 ∧ preview.price = (pool.outputAmount pool.base preview.input : ℚ) / preview.input := by
    cases offered with
    | whole found => exact priced _ _ found
    | chunk _ _ found => exact priced _ _ found
    | @estimate amount quoted positive _ unpriced =>
      change AbsolutePrice.new _ amount = none at unpriced
      unfold AbsolutePrice.new at unpriced
      rw [if_pos (Nat.ne_of_gt positive)] at unpriced
      cases unpriced
  obtain ⟨nonzero,value⟩ := real
  rw [leaving.price,value] at limit
  have leaving_positive : (0 : ℚ) < order.intention.leavingAmount.toNat := Nat.cast_pos.mpr (U64.toNat_pos leaving.leaving)
  have input_positive : (0 : ℚ) < preview.input := Nat.cast_pos.mpr (Nat.pos_of_ne_zero nonzero)
  rw [div_le_div_iff₀ leaving_positive input_positive] at limit
  exact_mod_cast limit

variable [TokenHash]

@[grind cases eager] structure Honouring (state : TLBState GreenOrder Token RoyaltyPool) (batch : MatchmakingAttempt GreenOrder Token RoyaltyPool Token ExUnits) : Prop where
  linked : Linked state.activeFragments.all state.pools batch
  filled : ∀ key take, batch.takes.lookup key = some take → Filled take

theorem Honouring.deals (honouring : Honouring state batch) (deals : Deals false AdaLeaving state batch next batch') : Honouring next batch' := by
  refine ⟨honouring.linked.deals deals,?_⟩
  cases deals with
  | cross allowed => cases allowed
  | @pool order free pool preview make take next holds split found offered overlaps swapped traded active pools =>
    obtain ⟨_,leaving,_⟩ := Book.orderly_cons.mp holds
    have once : Filled take := by
      subst swapped traded
      exact filled_once leaving offered.bounded (offer_honoured leaving offered overlaps)
    have target : take.target = order := by rw [traded]
    have own : Progress (stableId order) take := traded ▸ Book.trade_progress offered.bounded
    intro key existing present
    rw [MatchmakingAttempt.addTake_takes,HashMap.lookup_insert] at present
    split at present
    · cases present
      unfold MatchmakingAttempt.merged
      rw [MatchmakingAttempt.addMake_takes,target]
      cases before : batch.takes.lookup (stableId order) with
      | none => exact once
      | some earlier =>
        have last := honouring.linked.last order (split.mem_iff.mpr List.mem_cons_self) earlier before
        have progress := honouring.linked.progress _ earlier before
        exact (honouring.filled _ earlier before).combine once (target ▸ last) progress.less progress.more own.less own.more
    · rw [MatchmakingAttempt.addMake_takes] at present
      exact honouring.filled key existing present

end Runs

section Sample
open Recorded Pools.NoEstimates Book

end Sample
end GreenAgent.Green
