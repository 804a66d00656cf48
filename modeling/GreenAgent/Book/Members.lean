import GreenAgent.Book.Commit

namespace GreenAgent.Book
open MarketTaker TakerBehaviour

-- The batch keeps takes and makes under the ids of what they start from, and
-- its takers are takers of the book.
@[grind cases eager] structure Listed [Stable T K] [Stable M L] [DecidableEq K] [DecidableEq L] (P : T → Prop) (batch : MatchmakingAttempt T K M L U) : Prop where
  ordered : batch.ordering.Perm batch.takes.keys
  takes : ∀ key take, batch.takes.lookup key = some take → stableId take.target = key ∧ P take.target
  makes : ∀ key make, batch.makes.lookup key = some make → stableId make.target = key

section Batches
variable {T K M L U : Type} [DecidableEq K] [DecidableEq L] [Stable T K] [Stable M L] [MarketTaker T U] [MarketMaker M T U] [Add U]
  {P : T → Prop} {batch : MatchmakingAttempt T K M L U}

omit [MarketMaker M T U] in
theorem Listed.addTake (listed : Listed P batch) (take : TakeInProgress T) (holds : P take.target) : Listed P (batch.addTake take) where
  ordered := MatchmakingAttempt.addTake_ordered listed.ordered take
  takes := by
    intro key found present
    rw [MatchmakingAttempt.addTake_takes,HashMap.lookup_insert] at present
    split at present
    · rename_i same
      cases present
      unfold MatchmakingAttempt.merged
      cases before : batch.takes.lookup (stableId take.target) with
      | none => exact ⟨same.symm,holds⟩
      | some existing => exact ⟨(listed.takes _ existing before).1.trans same.symm,(listed.takes _ existing before).2⟩
    · exact listed.takes key found present
  makes := by
    rw [MatchmakingAttempt.addTake_makes]
    exact listed.makes

omit [MarketTaker T U] in
theorem Listed.addMake (listed : Listed P batch) (make : MakeInProgress M) : Listed P (batch.addMake make) where
  ordered := by
    rw [MatchmakingAttempt.addMake_ordering,MatchmakingAttempt.addMake_takes]
    exact listed.ordered
  takes := by
    rw [MatchmakingAttempt.addMake_takes]
    exact listed.takes
  makes := by
    intro key found present
    rw [MatchmakingAttempt.addMake_makes,HashMap.lookup_insert] at present
    split at present
    · rename_i same
      cases present
      unfold MatchmakingAttempt.mergedMake
      cases before : batch.makes.lookup (stableId make.target) with
      | none => exact same.symm
      | some existing => exact (listed.makes _ existing before).trans same.symm
    · exact listed.makes key found present

theorem Listed.deals [Ord T] [TakerBehaviour T] [MakerBehavior M T] {state next : TLBState T L M} {batch' : MatchmakingAttempt T K M L U}
    (listed : Listed P batch) (deals : Deals o2oAllowed P state batch next batch') : Listed P batch' := by
  cases deals with
  | pool holds _ _ _ _ _ traded =>
    obtain ⟨_,holds,_⟩ := orderly_cons.mp holds
    exact (listed.addMake _).addTake _ (traded ▸ holds)
  | cross _ holds =>
    obtain ⟨_,ask,rest⟩ := orderly_cons.mp holds
    obtain ⟨_,bid,_⟩ := orderly_cons.mp rest
    exact (listed.addTake _ ask).addTake _ bid

end Batches

section Makes
variable {T M L U : Type} [MarketMaker M T U] [MakerBehavior M T]

theorem finalizeMake_target {make after : MakeInProgress M} (finalized : finalizeMake T make = some (after,excess)) : after.target = make.target := by
  unfold finalizeMake at finalized
  simp only at finalized
  split at finalized
  · obtain ⟨_,_,same⟩ := Option.map_eq_some_iff.mp finalized
    cases same
    rfl
  · obtain ⟨_,_,finalized⟩ := Option.bind_eq_some_iff.mp finalized
    obtain ⟨_,_,same⟩ := Option.map_eq_some_iff.mp finalized
    cases same
    rfl

theorem finalizeMakes_targets {swaps rebalanced : List (L × MakeInProgress M)} (finalized : finalizeMakes T swaps = some (rebalanced,excess)) :
    rebalanced.map (fun entry => (entry.1,entry.2.target)) = swaps.map (fun entry => (entry.1,entry.2.target)) := by
  induction swaps generalizing rebalanced excess with
  | nil =>
    cases finalized
    rfl
  | cons first rest ih =>
    obtain ⟨key,make⟩ := first
    obtain ⟨⟨after,one⟩,finalizedOne,finalized⟩ := Option.bind_eq_some_iff.mp finalized
    obtain ⟨⟨makes,others⟩,finalizedRest,finalized⟩ := Option.bind_eq_some_iff.mp finalized
    cases finalized
    rw [List.map_cons,List.map_cons,ih finalizedRest,finalizeMake_target finalizedOne]

end Makes

section Recipes
variable {T K M L U : Type} [DecidableEq K] [DecidableEq L] [Stable T K] [Stable M L] [MarketTaker T U] [TakerBehaviour T]
  [MarketMaker M T U] [MakerBehavior M T] {P : T → Prop} {batch : MatchmakingAttempt T K M L U}

theorem Accepted.makes_apart (accepted : Accepted batch recipe entries done swaps rebalanced excess) (listed : Listed P batch) :
    (recipe.makes.map (fun make => stableId make.target)).Nodup := by
  have targets := finalizeMakes_targets accepted.rebalances
  have ids : rebalanced.map (fun entry => stableId entry.2.target) = swaps.map (fun entry => stableId entry.2.target) := by
    have both := congrArg (List.map (fun entry : L × M => stableId entry.2)) targets
    rwa [List.map_map,List.map_map] at both
  have keyed : (entriesOf batch.makes).map (fun entry => stableId entry.2.target) = batch.makes.keys := by
    unfold entriesOf AList.keys
    rw [List.map_map]
    refine List.map_congr_left ?_
    intro entry member
    exact listed.makes entry.1 entry.2 (AList.mem_lookup_iff.mpr member)
  have perm : (recipe.makes.map (fun make => stableId make.target)).Perm batch.makes.keys := by
    refine (accepted.makes.map _).trans ?_
    rw [List.map_map]
    exact (List.Perm.of_eq ids).trans ((accepted.swaps_perm.map _).trans (.of_eq keyed))
  exact perm.nodup_iff.mpr batch.makes.keys_nodup

theorem Accepted.takers (accepted : Accepted batch recipe entries done swaps rebalanced excess) (listed : Listed P batch)
    (member : take ∈ recipe.takes) : P take.target := by
  obtain ⟨⟨key,_⟩,inside,rfl⟩ := List.mem_map.mp (accepted.takes.mem_iff.mp member)
  obtain ⟨before,share,entry,rfl⟩ := accepted.finalizes.member inside
  exact (listed.takes key before (mem_entriesOf.mp (accepted.entries_perm.mem_iff.mp entry))).2

theorem recipe_members [Ord T] [Std.ReflOrd T] [Add U] [Zero U] [LT U] [DecidableLT U] [LawfulTaker T] [LawfulMaker M T] {state : TLBState T L M}
    {conf : ExecutionConfig U} (lasting : Lasting P) (sound : Sound P state) (ran : attempt (K := K) fuel conf orders state = some outcome)
    (found : outcome.recipe = some recipe) :
    (∀ take ∈ recipe.takes, P take.target) ∧ (recipe.makes.map (fun make => stableId make.target)).Nodup := by
  have kept : ∀ (state : TLBState T L M) (batch : MatchmakingAttempt T K M L U) next batch', Sound P state → Listed P batch →
      Deals conf.o2oAllowed P state batch next batch' → Listed P batch' := fun _ _ _ _ _ listed deals => listed.deals deals
  obtain ⟨order,last,batch,listed,made⟩ := attempt_recipe lasting
    (fun _ _ => ⟨.refl _,fun _ _ present => (nomatch present),fun _ _ present => (nomatch present)⟩) kept sound ran found
  obtain ⟨entries,done,swaps,rebalanced,excess,accepted⟩ := tryFrom_accepted listed.ordered made
  exact ⟨fun take member => accepted.takers listed member,accepted.makes_apart listed⟩

end Recipes
end GreenAgent.Book
