import GreenAgent.Lib.Totals
import GreenAgent.Book.Run

namespace GreenAgent.Book
open MarketTaker TakerBehaviour

-- A take of the batch has only ever given input and received output.
@[grind cases eager] structure Progress [Stable T K] [MarketTaker T U] (key : K) (take : TakeInProgress T) : Prop where
  key : stableId take.target = key
  less : take.remainingInput ≤ input take.target
  more : output take.target ≤ take.accumulatedOutput
  side : ∀ next, take.result = .succ next → side next = side take.target

-- The batch ends where the book begins: a taker or a maker that is still there
-- is the last state of its take or make.
@[grind cases eager] structure Linked [DecidableEq K] [DecidableEq L] [Stable T K] [MarketTaker T U] (active : List T) (pools : MarketMakers L M)
    (batch : MatchmakingAttempt T K M L V) : Prop where
  last : ∀ t ∈ active, ∀ take, batch.takes.lookup (stableId t) = some take → take.result = .succ t
  standing : ∀ key make maker, batch.makes.lookup key = some make → pools.lookup key = some maker → make.successor = maker
  progress : ∀ key take, batch.takes.lookup key = some take → Progress key take
  ordered : batch.ordering.Perm batch.takes.keys

namespace MatchmakingAttempt
variable {T K M L U : Type}

section Takes
variable [DecidableEq K] [Stable T K] [MarketTaker T U] [Add U] (batch : MatchmakingAttempt T K M L U)

-- The take that stands for `take` in the batch once it is added.
def merged (take : TakeInProgress T) : TakeInProgress T :=
  ((batch.takes.lookup (stableId take.target)).map (fun existing => existing.combine take)).getD take

theorem addTake_takes (take : TakeInProgress T) :
    (batch.addTake take).takes = AList.insert (stableId take.target) (batch.merged take) batch.takes := by
  unfold addTake merged
  cases found : batch.takes.lookup (stableId take.target) with
  | none =>
    simp only [found]
    exact HashMap.insert_erased ..
  | some existing =>
    simp only [found]
    exact HashMap.insert_erased ..

theorem addTake_makes (take : TakeInProgress T) : (batch.addTake take).makes = batch.makes := by
  unfold addTake
  simp only
  split <;> rfl

theorem addTake_ordered {batch : MatchmakingAttempt T K M L U} (ordered : batch.ordering.Perm batch.takes.keys) (take : TakeInProgress T) :
    (batch.addTake take).ordering.Perm (batch.addTake take).takes.keys := by
  rw [addTake_takes,AList.keys_insert]
  unfold addTake
  cases found : batch.takes.lookup (stableId take.target) with
  | none =>
    have absent : stableId take.target ∉ batch.takes.keys := AList.lookup_eq_none.mp found
    grind
  | some existing =>
    have present : stableId take.target ∈ batch.takes.keys := AList.lookup_isSome.mp (by rw [found]; rfl)
    grind

end Takes

section Makes
variable [DecidableEq L] [Stable M L] [MarketMaker M T U] [Add U] (batch : MatchmakingAttempt T K M L U)

def mergedMake (make : MakeInProgress M) : MakeInProgress M :=
  ((batch.makes.lookup (stableId make.target)).map (fun existing => existing.combine make)).getD make

theorem addMake_makes (make : MakeInProgress M) :
    (batch.addMake make).makes = AList.insert (stableId make.target) (batch.mergedMake make) batch.makes := by
  unfold addMake mergedMake
  cases found : batch.makes.lookup (stableId make.target) with
  | none =>
    simp only [found]
    exact HashMap.insert_erased ..
  | some existing =>
    simp only [found]
    exact HashMap.insert_erased ..

theorem addMake_takes (make : MakeInProgress M) : (batch.addMake make).takes = batch.takes := by
  unfold addMake
  simp only
  split <;> rfl

theorem addMake_ordering (make : MakeInProgress M) : (batch.addMake make).ordering = batch.ordering := by
  unfold addMake
  simp only
  split <;> rfl

end Makes
end MatchmakingAttempt

section Takes
variable {T K M L U : Type} [DecidableEq K] [Stable T K] {batch : MatchmakingAttempt T K M L U}

theorem merged_result (batch : MatchmakingAttempt T K M L U) (take : TakeInProgress T) : (batch.merged take).result = take.result := by
  unfold MatchmakingAttempt.merged
  cases batch.takes.lookup (stableId take.target) <;> rfl

variable [MarketTaker T U]

theorem result_remainingInput {take : TakeInProgress T} (result : take.result = .succ next) : take.remainingInput = input next := by
  unfold TakeInProgress.remainingInput
  rw [result]

theorem result_accumulatedOutput {take : TakeInProgress T} (result : take.result = .succ next) : take.accumulatedOutput = output next := by
  unfold TakeInProgress.accumulatedOutput
  rw [result]

theorem merged_progress {take : TakeInProgress T} (own : Progress (stableId take.target) take)
    (last : ∀ existing, batch.takes.lookup (stableId take.target) = some existing → existing.result = .succ take.target)
    (progress : ∀ key take, batch.takes.lookup key = some take → Progress key take) : Progress (stableId take.target) (batch.merged take) := by
  unfold MatchmakingAttempt.merged
  cases found : batch.takes.lookup (stableId take.target) with
  | none => exact own
  | some existing =>
    have before := progress _ existing found
    have same := last existing found
    refine ⟨before.key,?_,?_,fun next result => ?_⟩
    · exact le_trans (result_remainingInput same ▸ own.less) before.less
    · exact le_trans before.more (result_accumulatedOutput same ▸ own.more)
    · exact (own.side next result).trans (before.side _ same)

end Takes

section Trades
variable {T K U : Type} [Stable T K] [MarketTaker T U] [TakerBehaviour T] [lawful : LawfulTaker T]

theorem trade_progress {t : T} (bounded : removed ≤ input t) : Progress (stableId t) ⟨t,withAppliedTrade t removed added⟩ where
  key := rfl
  less := by
    rw [LawfulTaker.trade_input t removed added bounded]
    exact Nat.sub_le _ _
  more := by
    rw [LawfulTaker.trade_output]
    exact le_min (Nat.le_add_right _ _) (LawfulTaker.output_small t)
  side := fun next traded => (LawfulTaker.trade_same t next removed added traded).2

include lawful in
theorem successors_same {t : T} (member : x ∈ (withAppliedTrade t removed added).successors) : stableId x = stableId t := by
  cases traded : withAppliedTrade t removed added with
  | term _ =>
    rw [traded] at member
    cases member
  | succ next =>
    rw [traded] at member
    obtain rfl := List.mem_singleton.mp member
    exact (LawfulTaker.trade_same t x removed added traded).1

end Trades

namespace Linked
variable {T K M L U : Type} [DecidableEq K] [DecidableEq L] [Stable T K] [MarketTaker T U] {active free : List T} {pools : MarketMakers L M}
  {batch : MatchmakingAttempt T K M L U}

theorem empty [Zero V] (active : List T) (pools : MarketMakers L M) : Linked active pools (.empty : MatchmakingAttempt T K M L V) where
  last := by tauto
  standing := by tauto
  progress := by tauto
  ordered := .refl _

theorem mono (linked : Linked active pools batch) (part : ∀ t ∈ free, t ∈ active) : Linked free pools batch :=
  {linked with last := fun t member => linked.last t (part t member)}

variable [Add U]

theorem addTake [TakerBehaviour T] [LawfulTaker T] {t : T} (linked : Linked (t :: free) pools batch) (apart : ∀ x ∈ free, stableId t ≠ stableId x)
    (bounded : removed ≤ input t) :
    Linked ((withAppliedTrade t removed added).successors ++ free) pools (batch.addTake ⟨t,withAppliedTrade t removed added⟩) where
  last := by
    intro x member take found
    rw [MatchmakingAttempt.addTake_takes,HashMap.lookup_insert] at found
    cases traded : withAppliedTrade t removed added with
    | term done =>
      rw [traded] at member found
      rw [if_neg (fun same => apart x member same.symm)] at found
      exact linked.last x (List.mem_cons_of_mem _ member) take found
    | succ next =>
      rw [traded] at member found
      obtain ⟨same,_⟩ := LawfulTaker.trade_same t next removed added traded
      rcases List.mem_cons.mp member with rfl | other
      · rw [if_pos same] at found
        cases found
        exact merged_result ..
      · rw [if_neg (fun same => apart x other same.symm)] at found
        exact linked.last x (List.mem_cons_of_mem _ other) take found
  standing := by
    rw [MatchmakingAttempt.addTake_makes]
    exact linked.standing
  progress := by
    intro key take found
    rw [MatchmakingAttempt.addTake_takes,HashMap.lookup_insert] at found
    split at found
    · rename_i same
      cases found
      rw [same]
      exact merged_progress (trade_progress bounded) (linked.last t List.mem_cons_self) linked.progress
    · exact linked.progress key take found
  ordered := MatchmakingAttempt.addTake_ordered linked.ordered _

theorem addMake [Stable M L] [MarketMaker M T U] {make : MakeInProgress M} {after : MarketMakers L M} (linked : Linked active pools batch)
    (moved : ∀ key, after.lookup key = if key = stableId make.target then some make.successor else pools.lookup key) :
    Linked active after (batch.addMake make) where
  last := by
    rw [MatchmakingAttempt.addMake_takes]
    exact linked.last
  standing := by
    intro key existing maker found present
    rw [moved] at present
    rw [MatchmakingAttempt.addMake_makes,HashMap.lookup_insert] at found
    split at found
    · rename_i same
      rw [if_pos same] at present
      cases found
      cases present
      unfold MatchmakingAttempt.mergedMake
      cases batch.makes.lookup (stableId make.target) <;> rfl
    grind
  progress := by
    rw [MatchmakingAttempt.addMake_takes]
    exact linked.progress
  ordered := by
    rw [MatchmakingAttempt.addMake_takes,MatchmakingAttempt.addMake_ordering]
    exact linked.ordered

end Linked

section
variable {T K M L U : Type} [DecidableEq K] [DecidableEq L] [Stable T K] [Stable M L] [MarketTaker T U] [TakerBehaviour T]
  [MarketMaker M T U] [MakerBehavior M T] [Add U] [LawfulTaker T] {P : T → Prop} {state : TLBState T L M} {batch : MatchmakingAttempt T K M L U}

theorem Linked.crossed {active : List T} {pools : MarketMakers L M} (linked : Linked active pools batch) (holds : Orderly P (ask :: bid :: free))
    (split : active.Perm (ask :: bid :: free)) (supplied : base ≤ input ask) :
    Linked (bid :: ((withAppliedTrade ask base quote).successors ++ free)) pools (batch.addTake ⟨ask,withAppliedTrade ask base quote⟩) ∧
      ∀ x ∈ (withAppliedTrade ask base quote).successors ++ free, stableId bid ≠ stableId x := by
  obtain ⟨ask_apart,_,others⟩ := orderly_cons.mp holds
  obtain ⟨bid_apart,_,_⟩ := orderly_cons.mp others
  have one : Linked ((withAppliedTrade ask base quote).successors ++ bid :: free) pools
      (batch.addTake ⟨ask,withAppliedTrade ask base quote⟩) :=
    (linked.mono (fun t member => split.mem_iff.mpr member)).addTake ask_apart supplied
  refine ⟨one.mono (fun t member => List.perm_middle.mem_iff.mpr member),?_⟩
  intro x member
  rcases List.mem_append.mp member with successor | other
  · rw [successors_same successor]
    grind
  · exact bid_apart x other

theorem Linked.deals (linked : Linked state.activeFragments.all state.pools batch) (deals : Deals o2oAllowed P state batch next batch') :
    Linked next.activeFragments.all next.pools batch' := by
  cases deals with
  | @pool taker free maker preview make take next holds split found offered overlaps swapped traded active pools =>
    have target : make.target = maker := by rw [swapped]
    rw [← target] at pools
    subst traded
    have made := (linked.mono (fun t member => split.mem_iff.mpr member)).addMake pools
    exact (made.addTake (orderly_cons.mp holds).1 offered.bounded).mono (fun t member => active.subset member)
  | @cross ask bid free base quote next allowed holds split asks bids supplied paid active pools =>
    obtain ⟨again,apart⟩ := linked.crossed holds split supplied
    rw [pools]
    exact (again.addTake apart paid).mono (fun t member => active.subset member)

end
end GreenAgent.Book
