import GreenAgent.Book.Finalize
import GreenAgent.Green.Fee
import GreenAgent.Pools.Royalty

namespace GreenAgent.Book
open MarketTaker TakerBehaviour HashMap

-- What a take brings of the asset that takers of side `s` give: it gives some on
-- that side and receives some on the other.
def TakeInProgress.net [MarketTaker T U] (s : Side) (take : TakeInProgress T) : Int :=
  if side take.target = s then (take.remainingInput : Int) - input take.target
  else (take.accumulatedOutput : Int) - output take.target

def netMake (T : Type) [MarketMaker M T U] (s : Side) (make : MakeInProgress M) : Int :=
  ((MarketMaker.liquidity T make.successor).of s : Int) - (MarketMaker.liquidity T make.target).of s

def Balanced [MarketTaker T U] [MarketMaker M T V] (batch : MatchmakingAttempt T K M L W) : Prop :=
  ∀ s, total (TakeInProgress.net s) batch.takes + total (netMake T s) batch.makes = 0

-- No amount has been cut off.
def Unsaturated [DecidableEq K] [MarketTaker T U] (batch : MatchmakingAttempt T K M L W) : Prop :=
  ∀ key take, batch.takes.lookup key = some take → take.accumulatedOutput < U64.max

theorem net_combine [MarketTaker T U] {existing take : TakeInProgress T} (last : existing.result = .succ take.target)
    (sides : side take.target = side existing.target) (s : Side) :
    TakeInProgress.net s (existing.combine take) = TakeInProgress.net s existing + TakeInProgress.net s take := by
  have input_same := result_remainingInput last
  have output_same := result_accumulatedOutput last
  unfold TakeInProgress.net
  rw [sides,input_same,output_same]
  change (if side existing.target = s then (take.remainingInput : Int) - input existing.target
    else (take.accumulatedOutput : Int) - output existing.target) = _
  split <;> omega

theorem addMake_net [DecidableEq L] [Stable M L] [MarketMaker M T U] [Add U] {batch : MatchmakingAttempt T K M L U} {make : MakeInProgress M}
    (standing : ∀ existing, batch.makes.lookup (stableId make.target) = some existing → existing.successor = make.target) (s : Side) :
    total (netMake T s) (batch.addMake make).makes = total (netMake T s) batch.makes + netMake T s make := by
  rw [MatchmakingAttempt.addMake_makes]
  unfold MatchmakingAttempt.mergedMake
  cases found : batch.makes.lookup (stableId make.target) with
  | none => exact total_add _ _ found
  | some existing =>
    have replaced := total_replace (netMake T s) (existing.combine make) found
    have combined : netMake T s (existing.combine make) = netMake T s existing + netMake T s make := by
      unfold netMake
      rw [standing existing found]
      change ((MarketMaker.liquidity T make.successor).of s : Int) - (MarketMaker.liquidity T existing.target).of s = _
      omega
    grind

section Takes
variable {T K M L U : Type} [DecidableEq K] [Stable T K] [MarketTaker T U] [Add U] {batch : MatchmakingAttempt T K M L U}

theorem addTake_net {take : TakeInProgress T}
    (last : ∀ existing, batch.takes.lookup (stableId take.target) = some existing → existing.result = .succ take.target)
    (progress : ∀ key take, batch.takes.lookup key = some take → Progress key take) (s : Side) :
    total (TakeInProgress.net s) (batch.addTake take).takes = total (TakeInProgress.net s) batch.takes + TakeInProgress.net s take := by
  rw [MatchmakingAttempt.addTake_takes]
  unfold MatchmakingAttempt.merged
  cases found : batch.takes.lookup (stableId take.target) with
  | none => exact total_add _ _ found
  | some existing =>
    have replaced := total_replace (TakeInProgress.net s) (existing.combine take) found
    rw [net_combine (last existing found) ((progress _ existing found).side _ (last existing found))] at replaced
    grind

theorem Unsaturated.before {take : TakeInProgress T} (unsaturated : Unsaturated (batch.addTake take))
    (last : ∀ existing, batch.takes.lookup (stableId take.target) = some existing → existing.result = .succ take.target)
    (own : Progress (stableId take.target) take) : Unsaturated batch ∧ take.accumulatedOutput < U64.max := by
  have merged : (batch.merged take).accumulatedOutput < U64.max :=
    unsaturated (stableId take.target) _ (by rw [MatchmakingAttempt.addTake_takes,lookup_insert,if_pos rfl])
  have small : take.accumulatedOutput < U64.max := by
    unfold TakeInProgress.accumulatedOutput at merged ⊢
    rwa [merged_result] at merged
  refine ⟨fun key existing found => ?_,small⟩
  by_cases same : key = stableId take.target
  · subst same
    rw [result_accumulatedOutput (last existing found)]
    exact lt_of_le_of_lt own.more small
  · exact unsaturated key existing (by rw [MatchmakingAttempt.addTake_takes,lookup_insert,if_neg same]; exact found)

end Takes

theorem trade_net [Stable T K] [MarketTaker T U] [TakerBehaviour T] [LawfulTaker T] {t : T} (bounded : removed ≤ input t)
    (small : TakeInProgress.accumulatedOutput (⟨t,withAppliedTrade t removed added⟩ : TakeInProgress T) < U64.max) (s : Side) :
    TakeInProgress.net s ⟨t,withAppliedTrade t removed added⟩ = if side t = s then -(removed : Int) else added := by
  have output_value := LawfulTaker.trade_output t removed added
  have input_value := LawfulTaker.trade_input t removed added bounded
  unfold TakeInProgress.net
  grind

theorem swap_net {T M : Type} [Stable M L] [MarketTaker T V] [TakerBehaviour T] [MarketMaker M T U] [MakerBehavior M T] [LawfulMaker M T] (maker : M) (s given : Side) (amount : Nat) :
    netMake T s ⟨maker,MakerBehavior.swap T maker (given.wrap amount)⟩ =
      if given = s then (amount : Int) else -(tradeOutput T (⟨maker,MakerBehavior.swap T maker (given.wrap amount)⟩ : MakeInProgress M) : Int) := by
  have gains := LawfulMaker.gains (T := T) maker given amount
  have pays := LawfulMaker.pays (T := T) maker given amount
  unfold netMake
  split
  · grind
  · rename_i other
    have opposite : s = given.not := by cases s <;> cases given <;> first | rfl | exact absurd rfl other
    rw [opposite]
    simp only
    omega

section Steps
variable {T K M L U : Type} [DecidableEq K] [DecidableEq L] [Stable T K] [Stable M L] [MarketTaker T U] [TakerBehaviour T] [LawfulTaker T]
  [MarketMaker M T U] [MakerBehavior M T] [LawfulMaker M T] [Add U] {P : T → Prop} {state : TLBState T L M} {batch : MatchmakingAttempt T K M L U}

theorem Balanced.deals (linked : Linked state.activeFragments.all state.pools batch) (balanced : Unsaturated batch → Balanced batch)
    (deals : Deals o2oAllowed P state batch next batch') (unsaturated : Unsaturated batch') : Balanced batch' := by
  cases deals with
  | @pool taker free maker preview make take next holds split found offered overlaps swapped traded active pools =>
    have target : make.target = maker := by rw [swapped]
    rw [← target] at pools
    have made := (linked.mono (fun t member => split.mem_iff.mpr member)).addMake pools
    have last := made.last taker List.mem_cons_self
    have own : Progress (stableId taker) take := traded ▸ trade_progress offered.bounded
    have take_target : take.target = taker := by rw [traded]
    rw [← take_target] at last own
    obtain ⟨earlier,small⟩ := unsaturated.before last own
    have standing : ∀ existing, batch.makes.lookup (stableId make.target) = some existing → existing.successor = make.target :=
      fun existing present => target ▸ linked.standing _ existing maker present (target ▸ found)
    intro s
    rw [addTake_net last made.progress,MatchmakingAttempt.addTake_makes,addMake_net standing,MatchmakingAttempt.addMake_takes]
    have before := balanced (by rwa [Unsaturated,MatchmakingAttempt.addMake_takes] at earlier) s
    have taken : TakeInProgress.net s take = if side taker = s then -(preview.input : Int) else tradeOutput T make := by
      subst traded
      exact trade_net offered.bounded small s
    have given : netMake T s make = if side taker = s then (preview.input : Int) else -(tradeOutput T make : Int) := by
      subst swapped
      exact swap_net maker s (side taker) preview.input
    rw [taken,given]
    split <;> omega
  | @cross ask bid free base quote next allowed holds split asks bids supplied paid active pools =>
    obtain ⟨again,apart⟩ := linked.crossed holds split supplied
    obtain ⟨middle,bid_small⟩ := unsaturated.before (again.last bid List.mem_cons_self) (trade_progress paid)
    have ask_last := linked.last ask (split.mem_iff.mpr List.mem_cons_self)
    obtain ⟨earlier,ask_small⟩ := middle.before ask_last (trade_progress supplied)
    intro s
    rw [addTake_net (again.last bid List.mem_cons_self) again.progress,addTake_net ask_last linked.progress,
      MatchmakingAttempt.addTake_makes,MatchmakingAttempt.addTake_makes,trade_net supplied ask_small,trade_net paid bid_small,asks,bids]
    have before := balanced earlier s
    cases s with
    | ask => grind
    | bid => grind

end Steps

theorem checkedSub_some : checkedSub a b = some c ↔ b ≤ a ∧ c = a - b := by
  unfold checkedSub
  split
  · grind
  grind

section Makes
variable {T M L U V : Type} [Stable M L] [MarketTaker T V] [TakerBehaviour T] [MarketMaker M T U] [MakerBehavior M T] [lawful : LawfulMaker M T]

include lawful in
theorem rebalance_given (make : MakeInProgress M) (s : Side) (amount : Nat) :
    (MarketMaker.liquidity T (rebalance T make (s.wrap amount))).of s = (MarketMaker.liquidity T make.target).of s + amount := by
  unfold rebalance
  rw [LawfulMaker.preserves]
  exact LawfulMaker.gains make.target s amount

omit [Stable M L] [MarketTaker T V] [TakerBehaviour T] lawful in
-- The maker swaps the net input of one side, and hands over what it keeps less
-- than before of the other.
theorem finalizeMake_cases {make after : MakeInProgress M} (finalized : finalizeMake T make = some (after,excess)) :
    ∃ given amount, after = ⟨make.target,.succ (rebalance T make (given.wrap amount))⟩ ∧
      (MarketMaker.liquidity T make.target).of given + amount = (MarketMaker.liquidity T make.successor).of given ∧
      (MarketMaker.liquidity T (rebalance T make (given.wrap amount))).of given.not + excess.of given.not =
        (MarketMaker.liquidity T make.successor).of given.not ∧ excess.of given = 0 := by
  unfold finalizeMake at finalized
  simp only at finalized
  split at finalized
  · rename_i amount sub
    obtain ⟨left,sub',made⟩ := Option.map_eq_some_iff.mp finalized
    cases made
    obtain ⟨more,value⟩ := checkedSub_some.mp sub
    obtain ⟨more',value'⟩ := checkedSub_some.mp sub'
    exact ⟨.ask,amount,rfl,value ▸ Nat.add_sub_cancel' more,value' ▸ Nat.add_sub_cancel' more',rfl⟩
  · obtain ⟨amount,sub,finalized⟩ := Option.bind_eq_some_iff.mp finalized
    obtain ⟨left,sub',made⟩ := Option.map_eq_some_iff.mp finalized
    cases made
    obtain ⟨more,value⟩ := checkedSub_some.mp sub
    obtain ⟨more',value'⟩ := checkedSub_some.mp sub'
    exact ⟨.bid,amount,rfl,value ▸ Nat.add_sub_cancel' more,value' ▸ Nat.add_sub_cancel' more',rfl⟩

include lawful in
theorem finalizeMake_net {make after : MakeInProgress M} (finalized : finalizeMake T make = some (after,excess)) (s : Side) :
    netMake T s after + excess.of s = netMake T s make := by
  obtain ⟨given,amount,rfl,grown,handed,nothing⟩ := finalizeMake_cases finalized
  have rebalanced := rebalance_given (T := T) make given amount
  have side_cases : s = given ∨ s = given.not := by cases s <;> cases given <;> simp [Side.not]
  change ((MarketMaker.liquidity T (rebalance T make (given.wrap amount))).of s : Int) - (MarketMaker.liquidity T make.target).of s + excess.of s =
    (MarketMaker.liquidity T make.successor).of s - (MarketMaker.liquidity T make.target).of s
  rcases side_cases with rfl | rfl <;> omega

include lawful in
theorem finalizeMakes_net {swaps rebalanced : List (L × MakeInProgress M)} (finalized : finalizeMakes T swaps = some (rebalanced,excess)) (s : Side) :
    (rebalanced.map (fun e => netMake T s e.2)).sum + excess.of s = (swaps.map (fun e => netMake T s e.2)).sum := by
  induction swaps generalizing rebalanced excess with
  | nil =>
    cases finalized
    cases s <;> rfl
  | cons first rest ih =>
    obtain ⟨key,make⟩ := first
    obtain ⟨⟨after,one⟩,finalizedOne,finalized⟩ := Option.bind_eq_some_iff.mp finalized
    obtain ⟨⟨makes,others⟩,finalizedRest,finalized⟩ := Option.bind_eq_some_iff.mp finalized
    cases finalized
    have step := finalizeMake_net finalizedOne s
    have later := ih finalizedRest
    have sum : (Excess.of ⟨one.base+others.base,one.quote+others.quote⟩ s : Int) = one.of s + others.of s := by cases s <;> rfl
    simp only [List.map_cons,List.sum_cons]
    rw [sum]
    omega

end Makes

section Takes
variable {T K U : Type} [Stable T K] [MarketTaker T U] [TakerBehaviour T] [lawful : LawfulTaker T]

include lawful in
theorem finalizeTake_net (take : TakeInProgress T) (share : Nat) (small : (finalizeTake take share).accumulatedOutput < U64.max) (s : Side) :
    TakeInProgress.net s (finalizeTake take share) = TakeInProgress.net s take + if side take.target = s then 0 else (share : Int) := by
  have grown : (finalizeTake take share).accumulatedOutput = take.accumulatedOutput + share := by
    rcases finalizeTake_output take share with grown | ⟨saturated,_⟩
    · exact grown
    · omega
  unfold TakeInProgress.net
  rw [finalizeTake_input,grown,finalizeTake_target]
  split <;> omega

include lawful in
theorem Finalizes.net {entries done : List (K × TakeInProgress T)} (finalizes : Finalizes excess entries done left)
    (small : ∀ e ∈ done, e.2.accumulatedOutput < U64.max) (s : Side) :
    (done.map (fun e => TakeInProgress.net s e.2)).sum + left.of s = (entries.map (fun e => TakeInProgress.net s e.2)).sum + excess.of s := by
  induction finalizes with
  | nil => rfl
  | @cons entries done left excess key take rest ih =>
    have later := ih (fun e member => small e (List.mem_cons_of_mem _ member))
    have own := finalizeTake_net take (excess.of (side take.target).not) (small _ List.mem_cons_self) s
    simp only [List.map_cons,List.sum_cons]
    rw [own]
    have remaining : ((excess.taken (side take.target).not).of s : Int) =
        excess.of s - if side take.target = s then 0 else (excess.of (side take.target).not : Int) := by
      cases s <;> cases side take.target <;> simp [Excess.taken,Excess.of,Side.not]
    omega

end Takes

-- The amounts of the asset that takers of side `s` give, as the recipe states
-- them for takers and makers.
def TakeInProgress.given [MarketTaker T U] (s : Side) (take : TakeInProgress T) : Nat := if side take.target = s then take.removedInput else 0

def TakeInProgress.received [MarketTaker T U] (s : Side) (take : TakeInProgress T) : Nat := if side take.target = s then 0 else take.addedOutput

def decrease (T : Type) [MarketMaker M T U] (s : Side) (make : MakeInProgress M) : Nat :=
  (MarketMaker.liquidity T make.target).of s - (MarketMaker.liquidity T make.successor).of s

def increase (T : Type) [MarketMaker M T U] (s : Side) (make : MakeInProgress M) : Nat :=
  (MarketMaker.liquidity T make.successor).of s - (MarketMaker.liquidity T make.target).of s

def Conserved [MarketTaker T U] [MarketMaker M T V] (s : Side) (recipe : MatchmakingRecipe T M) : Prop :=
  (recipe.takes.map (TakeInProgress.given s)).sum + (recipe.makes.map (decrease T s)).sum =
    (recipe.takes.map (TakeInProgress.received s)).sum + (recipe.makes.map (increase T s)).sum

theorem received_given [MarketTaker T U] {takes : List (TakeInProgress T)}
    (progress : ∀ take ∈ takes, take.remainingInput ≤ input take.target ∧ output take.target ≤ take.accumulatedOutput) (s : Side) :
    ((takes.map (TakeInProgress.received s)).sum : Int) - (takes.map (TakeInProgress.given s)).sum = (takes.map (TakeInProgress.net s)).sum := by
  induction takes with
  | nil => rfl
  | cons take takes ih =>
    obtain ⟨less,more⟩ := progress take List.mem_cons_self
    have later := ih (fun t member => progress t (List.mem_cons_of_mem _ member))
    simp only [List.map_cons,List.sum_cons]
    have own : (TakeInProgress.received s take : Int) - TakeInProgress.given s take = TakeInProgress.net s take := by
      unfold TakeInProgress.received TakeInProgress.given TakeInProgress.net TakeInProgress.removedInput TakeInProgress.addedOutput
      split <;> omega
    omega

theorem increase_decrease (T : Type) [MarketMaker M T U] (makes : List (MakeInProgress M)) (s : Side) :
    ((makes.map (increase T s)).sum : Int) - (makes.map (decrease T s)).sum = (makes.map (netMake T s)).sum := by
  induction makes with
  | nil => rfl
  | cons make makes ih =>
    simp only [List.map_cons,List.sum_cons]
    have own : (increase T s make : Int) - decrease T s make = netMake T s make := by
      unfold increase decrease netMake
      omega
    omega

section Recipes
variable {T K M L U : Type} [DecidableEq K] [Stable T K] [MarketTaker T U] [TakerBehaviour T] [LawfulTaker T]
  [MarketMaker M T U] [MakerBehavior M T] {batch : MatchmakingAttempt T K M L U}

theorem accepted_progress (accepted : Accepted batch recipe entries done swaps rebalanced excess)
    (progress : ∀ key take, batch.takes.lookup key = some take → Progress key take) (member : take ∈ recipe.takes) :
    take.remainingInput ≤ input take.target ∧ output take.target ≤ take.accumulatedOutput := by
  obtain ⟨⟨key,_⟩,inside,rfl⟩ := List.mem_map.mp (accepted.takes.mem_iff.mp member)
  obtain ⟨before,share,entry,rfl⟩ := accepted.finalizes.member inside
  have own := progress key before (mem_entriesOf.mp (accepted.entries_perm.mem_iff.mp entry))
  change (finalizeTake before share).remainingInput ≤ _ ∧ _ ≤ (finalizeTake before share).accumulatedOutput
  rw [finalizeTake_input]
  refine ⟨own.less,le_trans own.more ?_⟩
  rcases finalizeTake_output before share with grown | ⟨saturated,small⟩ <;> omega

theorem accepted_unsaturated (accepted : Accepted batch recipe entries done swaps rebalanced excess)
    (small : ∀ take ∈ recipe.takes, take.accumulatedOutput < U64.max) : Unsaturated batch := by
  intro key take found
  obtain ⟨share,inside⟩ := accepted.finalizes.each (accepted.entries_perm.mem_iff.mpr (mem_entriesOf.mpr found))
  have final : (finalizeTake take share).accumulatedOutput < U64.max := small _ (accepted.takes.mem_iff.mpr (List.mem_map_of_mem inside))
  rcases finalizeTake_output take share with grown | ⟨saturated,_⟩ <;> omega

variable [DecidableEq L] [Stable M L] [LawfulMaker M T]

omit [DecidableEq L] in
theorem accepted_conserved (accepted : Accepted batch recipe entries done swaps rebalanced excess)
    (progress : ∀ key take, batch.takes.lookup key = some take → Progress key take) (balanced : Unsaturated batch → Balanced batch)
    (small : ∀ take ∈ recipe.takes, take.accumulatedOutput < U64.max) (s : Side) : Conserved s recipe := by
  have before := balanced (accepted_unsaturated accepted small) s
  have takes_before : (entries.map (fun e => TakeInProgress.net s e.2)).sum = total (TakeInProgress.net s) batch.takes := by
    rw [(accepted.entries_perm.map _).sum_eq]
    unfold entriesOf total
    rw [List.map_map]
    rfl
  have makes_before : (swaps.map (fun e => netMake T s e.2)).sum = total (netMake T s) batch.makes := by
    rw [(accepted.swaps_perm.map _).sum_eq]
    unfold entriesOf total
    rw [List.map_map]
    rfl
  have takes_after : (recipe.takes.map (TakeInProgress.net s)).sum = (done.map (fun e => TakeInProgress.net s e.2)).sum := by
    rw [(accepted.takes.map _).sum_eq,List.map_map]
    rfl
  have makes_after : (recipe.makes.map (netMake T s)).sum = (rebalanced.map (fun e => netMake T s e.2)).sum := by
    rw [(accepted.makes.map _).sum_eq,List.map_map]
    rfl
  have small_done : ∀ e ∈ done, e.2.accumulatedOutput < U64.max :=
    fun e member => small e.2 (accepted.takes.mem_iff.mpr (List.mem_map_of_mem member))
  have takes_net := accepted.finalizes.net small_done s
  have makes_net := finalizeMakes_net accepted.rebalances s
  have nothing : Excess.of ⟨0,0⟩ s = 0 := by cases s <;> rfl
  have taken := received_given (fun take member => accepted_progress accepted progress member) s
  have made := increase_decrease T recipe.makes s
  unfold Conserved
  omega

@[grind cases eager] structure Tallied (state : TLBState T L M) (batch : MatchmakingAttempt T K M L U) : Prop where
  linked : Linked state.activeFragments.all state.pools batch
  balanced : Unsaturated batch → Balanced batch

-- For the base asset (`s` is ask) and for the quote asset (`s` is bid), what
-- takers and makers give is what they receive.
theorem recipe_conserved [Ord T] [Std.ReflOrd T] [Add U] [Zero U] [LT U] [DecidableLT U] {state : TLBState T L M} {conf : ExecutionConfig U}
    (sound : Sound (fun _ : T => True) state) (ran : attempt (K := K) fuel conf orders state = some outcome)
    (found : outcome.recipe = some recipe) (small : ∀ take ∈ recipe.takes, take.accumulatedOutput < U64.max) (s : Side) : Conserved s recipe := by
  have lasting : Lasting (fun _ : T => True) := fun _ _ _ _ _ _ _ => trivial
  have start : ∀ state : TLBState T L M, Sound (fun _ : T => True) state → Tallied state (.empty : MatchmakingAttempt T K M L U) :=
    fun state _ => ⟨.empty _ _,fun _ _ => rfl⟩
  have kept : ∀ (state : TLBState T L M) (batch : MatchmakingAttempt T K M L U) next batch', Sound (fun _ : T => True) state → Tallied state batch →
      Deals conf.o2oAllowed (fun _ : T => True) state batch next batch' → Tallied next batch' :=
    fun _ _ _ _ _ tallied deals => ⟨tallied.linked.deals deals,Balanced.deals tallied.linked tallied.balanced deals⟩
  obtain ⟨order,last,batch,⟨linked,balanced⟩,made⟩ := attempt_recipe lasting start kept sound ran found
  obtain ⟨entries,done,swaps,rebalanced,excess,accepted⟩ := tryFrom_accepted linked.ordered made
  exact accepted_conserved accepted linked.progress balanced small s

end Recipes

-- One order of 100 lovelace and one pool of ada against the token it asks for.
section Sample
open Green Green.Recorded Pools Pools.NoEstimates

def adaPool : RoyaltyPool where
  id := ⟨.filled 2,[0x50]⟩
  assetX := .native
  assetY := sampleOrder.intention.outputAsset
  x := ⟨1000000000,0,0,by decide⟩
  y := ⟨600000000,0,0,by decide⟩
  lpFeeNum := 99700
  treasuryFeeNum := 100
  royaltyFeeNum := 100
  liquidity := 700000000
  lqLowerBound := 0
  minN2tLovelace := 0
  marginalCost := ⟨100,100⟩
  distinct := by decide
  fees := by decide
  sharesOut := by decide

def inPlace : HashOrder := ⟨fun _ list => list,fun _ list => .refl list⟩

def adaResting : IdleState GreenOrder Account.Token RoyaltyPool := ⟨⟨0,⟨[sampleOrder],[]⟩,∅⟩,AList.insert adaPool.id adaPool ∅⟩

def adaBook : TLBState GreenOrder Account.Token RoyaltyPool := .idle adaResting

def adaConf : ExecutionConfig ExUnits := ⟨⟨⟨1000,1000⟩,⟨2000,2000⟩⟩,false,10⟩

def adaRecipe : MatchmakingRecipe GreenOrder RoyaltyPool := ⟨[.inl (sampleTake sampleOrder 100 59),.inr ⟨adaPool,.succ (adaPool.swap (.ask 100))⟩]⟩

theorem adaBook_sound (holds : P sampleOrder) : Sound P adaBook := by
  refine sound_idle ⟨by decide,by decide⟩ ⟨List.pairwise_singleton _ _,?_⟩ ?_
  · intro order member
    obtain rfl := List.mem_singleton.mp member
    exact holds
  · intro id pool found
    have only : pool = adaPool ∧ id = adaPool.id := by
      unfold adaResting at found
      rw [HashMap.lookup_insert] at found
      simp_all
    rw [only.1,only.2]
    rfl

theorem adaBook_matched : (attempt (K := Account.Token) 5 adaConf (fun _ => inPlace) adaBook).bind Outcome.recipe = some adaRecipe := by decide +kernel

theorem recipe_conserved_ada : Conserved .ask adaRecipe ∧ Conserved .bid adaRecipe := by
  obtain ⟨outcome,ran,found⟩ := Option.bind_eq_some_iff.mp adaBook_matched
  have small : ∀ take ∈ adaRecipe.takes, take.accumulatedOutput < U64.max := by decide
  exact ⟨recipe_conserved (adaBook_sound trivial) ran found small .ask,recipe_conserved (adaBook_sound trivial) ran found small .bid⟩

end Sample
end GreenAgent.Book
