import GreenAgent.Lib.U64
import GreenAgent.Book.Passes

namespace GreenAgent.Book
open MarketTaker TakerBehaviour

-- Takers that give what is taken from them and keep what they are given, up to
-- the largest amount there is.
class LawfulTaker (T : Type) {K U : outParam Type} [Stable T K] [MarketTaker T U] [TakerBehaviour T] : Prop where
  trade_input : ∀ (t : T) (removed added : Nat), removed ≤ input t →
    TakeInProgress.remainingInput ⟨t,withAppliedTrade t removed added⟩ = input t - removed
  trade_output : ∀ (t : T) (removed added : Nat),
    TakeInProgress.accumulatedOutput ⟨t,withAppliedTrade t removed added⟩ = min (output t + added) U64.max
  output_small : ∀ t : T, output t ≤ U64.max
  trade_same : ∀ (t next : T) (removed added : Nat), withAppliedTrade t removed added = .succ next →
    stableId next = stableId t ∧ side next = side t
  added_input : ∀ (t : T) (added : Nat), input (withOutputAdded t added) = input t
  added_output : ∀ (t : T) (added : Nat), output (withOutputAdded t added) = min (output t + added) U64.max
  charged : ∀ (t : T) (fee : Nat), input (withFeeCharged t fee) = input t ∧ output (withFeeCharged t fee) = output t
  corrected : ∀ (t : T) (delta : Int), input (withBudgetCorrected t delta).2 = input t ∧ output (withBudgetCorrected t delta).2 = output t
  ended : ∀ t target : T, TakeInProgress.remainingInput ⟨target,tryTerminate t⟩ = input t ∧
    TakeInProgress.accumulatedOutput ⟨target,tryTerminate t⟩ = output t

-- The reserve of the asset that takers of the side bring.
def AbsoluteReserves.of (reserves : AbsoluteReserves) : Side → Nat
  | .ask => reserves.base
  | .bid => reserves.quote

-- Makers that grow by what they are given and shrink by what they give.
class LawfulMaker (M T : Type) {L U V : outParam Type} [Stable M L] [MarketTaker T V] [TakerBehaviour T] [MarketMaker M T U] [MakerBehavior M T] :
    Prop where
  gains : ∀ (maker : M) (s : Side) (amount : Nat),
    (MarketMaker.liquidity T (Trans.successor ⟨maker,MakerBehavior.swap T maker (s.wrap amount)⟩)).of s =
      (MarketMaker.liquidity T maker).of s + amount
  pays : ∀ (maker : M) (s : Side) (amount : Nat),
    (MarketMaker.liquidity T (Trans.successor ⟨maker,MakerBehavior.swap T maker (s.wrap amount)⟩)).of s.not +
      tradeOutput T ⟨maker,MakerBehavior.swap T maker (s.wrap amount)⟩ = (MarketMaker.liquidity T maker).of s.not
  same : ∀ (maker : M) (amount : OnSide Nat), stableId (Trans.successor ⟨maker,MakerBehavior.swap T maker amount⟩) = stableId maker
  preserves : ∀ target previewed rebalanced : M,
    MarketMaker.liquidity T (MakerBehavior.preservePreviewMetadata T target previewed rebalanced) = MarketMaker.liquidity T rebalanced
  deals : ∀ (maker : M) (taker : T) (amount : OnSide Nat), MakerBehavior.swapWithTaker maker taker amount = defaultSwapWithTaker maker taker amount

-- A property of takers that trading does not end.
def Lasting [MarketTaker T U] [TakerBehaviour T] (P : T → Prop) : Prop :=
  ∀ t removed added next, removed ≤ input t → withAppliedTrade t removed added = .succ next → P t → P next

def Next.successors : Next S E → List S
  | .succ state => [state]
  | .term _ => []

section Updates
variable {T K M L U : Type} [DecidableEq L] [Ord T] [Stable T K] [Stable M L] [MarketTaker T U] {P : T → Prop} {state : TLBState T L M}

omit [DecidableEq L] [Stable M L] in
theorem onTake_active (state : TLBState T L M) (result : Next T TerminalTake) :
    (onTake state result).activeFragments.all.Subperm (result.successors ++ state.activeFragments.all) := by
  cases result with
  | succ next => exact preAddTaker_active state next
  | term _ => exact .refl _

omit [DecidableEq L] [Stable M L] in
theorem onTake_pools (state : TLBState T L M) (result : Next T TerminalTake) : (onTake state result).pools = state.pools := by
  cases result with
  | succ next => exact preAddTaker_pools state next
  | term _ => rfl

theorem Sound.onTake (sound : Sound P state) {result : Next T TerminalTake} (fits : Orderly P (result.successors ++ state.activeFragments.all)) :
    Sound P (onTake state result) := by
  cases result with
  | succ next => exact sound.addTaker fits
  | term _ => exact sound

theorem onMake_active (state : TLBState T L M) (result : Next M Empty) : (onMake state result).activeFragments = state.activeFragments := by
  cases result with
  | succ next => exact preAddMaker_active state next
  | term void => cases void

theorem onMake_pools (state : TLBState T L M) (make : MakeInProgress M) :
    (onMake state make.result).pools = AList.insert (stableId make.successor) make.successor state.pools := by
  obtain ⟨target,result⟩ := make
  cases result with
  | succ next => exact preAddMaker_pools state next
  | term void => cases void

theorem Sound.onMake (sound : Sound P state) (result : Next M Empty) : Sound P (onMake state result) := by
  cases result with
  | succ next => exact sound.addMaker next
  | term void => cases void

variable [TakerBehaviour T] [LawfulTaker T]

omit [Ord T] in
theorem Orderly.traded {rest : List T} (orderly : Orderly P (t :: rest)) (lasting : Lasting P) (bounded : removed ≤ input t) :
    Orderly P ((withAppliedTrade t removed added).successors ++ rest) := by
  obtain ⟨apart,holds,others⟩ := orderly_cons.mp orderly
  cases traded : withAppliedTrade t removed added with
  | term _ => exact others
  | succ next =>
    obtain ⟨same,_⟩ := LawfulTaker.trade_same t next removed added traded
    exact orderly_cons.mpr ⟨fun x member => same ▸ apart x member,lasting t removed added next bounded traded holds,others⟩

end Updates

section
variable {T K M L U : Type} [DecidableEq K] [DecidableEq L] [Ord T] [Stable T K] [Stable M L] [MarketTaker T U] [TakerBehaviour T]
  [MarketMaker M T U] [MakerBehavior M T] [Add U]

-- What a pass that goes on has done, with the new state and batch.
inductive Deals (o2oAllowed : Bool) (P : T → Prop) (state : TLBState T L M) (batch : MatchmakingAttempt T K M L U) :
    TLBState T L M → MatchmakingAttempt T K M L U → Prop where
  | pool (holds : Orderly P (taker :: free)) (split : state.activeFragments.all.Perm (taker :: free))
      (found : state.pools.lookup (stableId maker) = some maker)
      (offered : Offered taker (input taker) (side taker) maker preview)
      (overlaps : ((side taker).wrap (price taker)).overlaps preview.price = true)
      (swapped : make = ⟨maker,MakerBehavior.swap T maker ((side taker).wrap preview.input)⟩)
      (traded : take = ⟨taker,withAppliedTrade taker preview.input (tradeOutput T make)⟩)
      (active : next.activeFragments.all.Subperm (take.result.successors ++ free))
      (pools : ∀ key, next.pools.lookup key = if key = stableId maker then some make.successor else state.pools.lookup key) :
      Deals o2oAllowed P state batch next ((batch.addMake make).addTake take)
  | cross (allowed : o2oAllowed = true) (holds : Orderly P (ask :: bid :: free)) (split : state.activeFragments.all.Perm (ask :: bid :: free))
      (asks : side ask = .ask) (bids : side bid = .bid) (supplied : base ≤ input ask) (paid : quote ≤ input bid)
      (active : next.activeFragments.all.Subperm
        ((withAppliedTrade bid quote base).successors ++ ((withAppliedTrade ask base quote).successors ++ free)))
      (pools : next.pools = state.pools) :
      Deals o2oAllowed P state batch next
        ((batch.addTake ⟨ask,withAppliedTrade ask base quote⟩).addTake ⟨bid,withAppliedTrade bid quote base⟩)

theorem linearOutput_covered {supply quoteInput : Nat} {settled : AbsolutePrice} (less : supply < linearOutput quoteInput (.bid settled)) :
    linearOutput supply (.ask settled) ≤ quoteInput := by
  unfold linearOutput at *
  have demanded : ((supply : ℚ) + 1) ≤ quoteInput / settled := by
    have enough : supply + 1 ≤ ⌊(quoteInput : ℚ) / settled⌋₊ := less
    exact_mod_cast (Nat.le_floor_iff' (Nat.succ_ne_zero supply)).mp enough
  have positive : 0 < settled := by
    by_contra negative
    have none : (quoteInput : ℚ) / settled ≤ 0 := div_nonpos_of_nonneg_of_nonpos (Nat.cast_nonneg _) (not_lt.mp negative)
    grind
  have covered : ((supply : ℚ) + 1) * settled ≤ quoteInput := (le_div_iff₀ positive).mp demanded
  refine Nat.floor_le_of_le ?_
  linarith

theorem crossTakers_cases {ask bid : T} (crossed : crossTakers ask bid settled = (first,second)) :
    ∃ base quote, base ≤ input ask ∧ quote ≤ input bid ∧ first = ⟨ask,withAppliedTrade ask base quote⟩ ∧
      second = ⟨bid,withAppliedTrade bid quote base⟩ := by
  unfold crossTakers at crossed
  simp only at crossed
  split at crossed
  · rename_i less
    obtain ⟨rfl,rfl⟩ := Prod.mk.inj crossed
    exact ⟨_,_,le_rfl,linearOutput_covered less,rfl,rfl⟩
  grind

theorem executeWithTaker_cases {target counter : T} (sides : side counter = (side target).not)
    (executed : executeWithTaker target counter matchmaker = (first,second)) :
    ∃ ask bid base quote, (ask = target ∧ bid = counter ∨ ask = counter ∧ bid = target) ∧ side ask = .ask ∧ side bid = .bid ∧
      base ≤ input ask ∧ quote ≤ input bid ∧ first = ⟨ask,withAppliedTrade ask base quote⟩ ∧ second = ⟨bid,withAppliedTrade bid quote base⟩ := by
  unfold executeWithTaker at executed
  cases target_side : side target with
  | ask =>
    rw [target_side] at sides executed
    obtain ⟨base,quote,facts⟩ := crossTakers_cases executed
    exact ⟨target,counter,base,quote,.inl ⟨rfl,rfl⟩,target_side,sides,facts⟩
  | bid =>
    rw [target_side] at sides executed
    obtain ⟨base,quote,facts⟩ := crossTakers_cases executed
    exact ⟨counter,target,base,quote,.inr ⟨rfl,rfl⟩,sides,target_side,facts⟩

variable [Zero U] [LawfulTaker T] [LawfulMaker M T] {P : T → Prop} {state : TLBState T L M} {batch : MatchmakingAttempt T K M L U}

theorem Passes.deals (sound : Sound P state) (lasting : Lasting P) (passes : Passes o2oAllowed P state batch (.next next batch')) :
    Sound P next ∧ Deals o2oAllowed P state batch next batch' := by
  cases passes with
  | @pool taker free key maker preview take make freed found offered overlaps swapped =>
    obtain rfl : stableId maker = key := sound.keyed key maker found
    rw [LawfulMaker.deals] at swapped
    obtain ⟨traded,made⟩ := Prod.mk.inj swapped
    have orderly := freed.orderly sound
    have amount : ((side taker).wrap preview.input).unwrap = preview.input := by cases side taker <;> rfl
    rw [amount] at traded
    subst made traded
    refine ⟨?_,.pool orderly freed.split found offered overlaps rfl rfl ?_ ?_⟩
    · refine Sound.onMake (Sound.onTake (freed.sound.takeMaker _) ?_) _
      rw [pickMakerById_active]
      exact orderly.traded lasting offered.bounded
    · rw [onMake_active]
      have active := onTake_active (free.pickMakerById (stableId maker)).2
        (withAppliedTrade taker preview.input (tradeOutput T ⟨maker,MakerBehavior.swap T maker ((side taker).wrap preview.input)⟩))
      rwa [pickMakerById_active] at active
    · intro key
      rw [onMake_pools,HashMap.lookup_insert,onTake_pools,pickMakerById_pools,HashMap.lookup_erase,freed.pools,LawfulMaker.same]
      split <;> rfl
  | @cross taker free counter rest first second matchmaker allowed freed freedCounter sides executed =>
    obtain ⟨ask,bid,base,quote,pair,asks,bids,supplied,paid,rfl,rfl⟩ := executeWithTaker_cases sides executed
    have split : state.activeFragments.all.Perm (ask :: bid :: rest.activeFragments.all) := by
      have both := freed.split.trans (freedCounter.split.cons taker)
      rcases pair with ⟨rfl,rfl⟩ | ⟨rfl,rfl⟩
      · exact both
      · exact both.trans (List.Perm.swap ..)
    have orderly := sound.active.perm split
    have one := onTake_active rest (withAppliedTrade ask base quote)
    have two := onTake_active (onTake rest (withAppliedTrade ask base quote)) (withAppliedTrade bid quote base)
    have after_ask : Orderly P (bid :: ((withAppliedTrade ask base quote).successors ++ rest.activeFragments.all)) :=
      (orderly.traded lasting supplied).perm List.perm_middle
    refine ⟨?_,.cross allowed orderly split asks bids supplied paid (two.trans ((List.subperm_append_left _).mpr one)) ?_⟩
    · refine Sound.onTake (Sound.onTake freedCounter.sound (orderly_cons.mp after_ask).2.2) ?_
      exact (after_ask.traded lasting paid).mono ((List.subperm_append_left _).mpr one)
    · rw [onTake_pools,onTake_pools,freedCounter.pools,freed.pools]

theorem fillStep_deals [Std.ReflOrd T] (sound : Sound P state) (lasting : Lasting P)
    (step : fillStep fuel o2oAllowed optimized order moment state batch = some (.next next batch')) :
    Sound P next ∧ Deals o2oAllowed P state batch next batch' := (fillStep_passes sound step).deals sound lasting

theorem fillStep_stops [Std.ReflOrd T] (sound : Sound P state)
    (step : fillStep fuel o2oAllowed optimized order moment state batch = some (.stop final batch')) : Sound P final ∧ batch' = batch := by
  cases fillStep_passes sound step with
  | rest sound => exact ⟨sound,rfl⟩

variable [LT U] [DecidableLT U] [Std.ReflOrd T] {Inv : TLBState T L M → MatchmakingAttempt T K M L U → Prop}

theorem fillLoop_keeps (lasting : Lasting P) {conf : ExecutionConfig U}
    (kept : ∀ state batch next batch', Sound P state → Inv state batch → Deals conf.o2oAllowed P state batch next batch' → Inv next batch')
    (sound : Sound P state) (holds : Inv state batch)
    (filled : fillLoop steps conf optimized order fuel moment state batch = some (final,result)) :
    Sound P final ∧ ∃ last, Inv last result := by
  induction fuel generalizing moment state batch with
  | zero => cases filled
  | succ fuel ih =>
    unfold fillLoop at filled
    split at filled
    · split at filled
      · cases filled
      · rename_i next batch' step
        obtain ⟨sound',deals⟩ := fillStep_deals sound lasting step
        grind
      · rename_i stopped batch' step
        obtain ⟨sound',rfl⟩ := fillStep_stops sound step
        grind
    grind

theorem attempt_recipe (lasting : Lasting P) {conf : ExecutionConfig U} (start : ∀ state, Sound P state → Inv state .empty)
    (kept : ∀ state batch next batch', Sound P state → Inv state batch → Deals conf.o2oAllowed P state batch next batch' → Inv next batch')
    (sound : Sound P state) (ran : attempt (K := K) fuel conf orders state = some outcome) (found : outcome.recipe = some recipe) :
    ∃ order last batch, Inv last batch ∧ MatchmakingRecipe.tryFrom order conf.baseStepBudget batch = .ok recipe := by
  have general : ∀ steps fuel round optimized (state : TLBState T L M), Sound P state →
      attemptLoop (K := K) steps conf orders fuel round optimized state = some outcome →
      ∃ order last batch, Inv last batch ∧ MatchmakingRecipe.tryFrom order conf.baseStepBudget batch = .ok recipe := by
    intro steps fuel
    induction fuel with
    | zero => tauto
    | succ fuel ih =>
      intro round optimized state sound ran
      unfold attemptLoop at ran
      split at ran
      · cases ran
      · rename_i final batch filled
        obtain ⟨sound',last,holds⟩ := fillLoop_keeps lasting kept sound (start state sound) filled
        split at ran
        · grind
        · cases ran
          cases found
        · exact ih _ _ _ (sound'.rollback _) ran
        · exact ih _ _ _ (sound'.rollback _) ran
  exact general fuel fuel 0 true state sound ran

end
end GreenAgent.Book
