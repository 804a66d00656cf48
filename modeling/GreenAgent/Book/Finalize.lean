import GreenAgent.Book.Linked

namespace GreenAgent.Book
open MarketTaker TakerBehaviour

def MatchmakingRecipe.takes (recipe : MatchmakingRecipe T M) : List (TakeInProgress T) := recipe.instructions.filterMap Sum.getLeft?

def MatchmakingRecipe.makes (recipe : MatchmakingRecipe T M) : List (MakeInProgress M) := recipe.instructions.filterMap Sum.getRight?

theorem takes_listed (takes : List (TakeInProgress T)) (makes : List (MakeInProgress M)) :
    MatchmakingRecipe.takes ⟨takes.map .inl ++ makes.map .inr⟩ = takes := by
  simp [MatchmakingRecipe.takes,List.filterMap_append,List.filterMap_map,Function.comp_def]

theorem makes_listed (takes : List (TakeInProgress T)) (makes : List (MakeInProgress M)) :
    MatchmakingRecipe.makes ⟨takes.map .inl ++ makes.map .inr⟩ = makes := by
  simp [MatchmakingRecipe.makes,List.filterMap_append,List.filterMap_map,Function.comp_def]

theorem find_listed [DecidableEq K] {entries : List (K × V)} (distinct : (entries.map Prod.fst).Nodup) (member : entry ∈ entries) :
    entries.find? (fun e => decide (e.1 = entry.1)) = some entry := by
  induction entries with
  | nil => cases member
  | cons first rest ih => grind

theorem listed_perm [DecidableEq K] {entries : List (K × V)} {ordering : List K} (distinct : (entries.map Prod.fst).Nodup)
    (ordered : ordering.Perm (entries.map Prod.fst)) :
    (ordering.filterMap (fun key => (entries.find? (fun e => decide (e.1 = key))).map Prod.snd)).Perm (entries.map Prod.snd) := by
  have all : (entries.map Prod.fst).filterMap (fun key => (entries.find? (fun e => decide (e.1 = key))).map Prod.snd) = entries.map Prod.snd := by
    rw [List.filterMap_map,← List.filterMap_eq_map]
    refine List.filterMap_congr (fun entry member => ?_)
    simp only [Function.comp_apply,find_listed distinct member,Option.map_some]
  exact all ▸ ordered.filterMap _

-- What is left over of the asset that takers of the side give.
def Excess.of (excess : Excess) : Side → Nat
  | .ask => excess.base
  | .bid => excess.quote

def Excess.taken (excess : Excess) : Side → Excess
  | .ask => {excess with base:=0}
  | .bid => {excess with quote:=0}

section Takes
variable {T K U : Type} [MarketTaker T U] [TakerBehaviour T]

-- The takes are finalised one by one, each with all there is of what it receives.
inductive Finalizes : Excess → List (K × TakeInProgress T) → List (K × TakeInProgress T) → Excess → Prop where
  | nil : Finalizes excess [] [] excess
  | cons (rest : Finalizes (excess.taken (side take.target).not) entries done left) :
      Finalizes excess ((key,take) :: entries) ((key,finalizeTake take (excess.of (side take.target).not)) :: done) left

theorem finalizeTakes_finalizes (excess : Excess) (entries : List (K × TakeInProgress T)) :
    Finalizes excess entries (finalizeTakes excess entries).1 (finalizeTakes excess entries).2 := by
  induction entries generalizing excess with
  | nil => exact .nil
  | cons first rest ih =>
    obtain ⟨key,take⟩ := first
    have made : Finalizes excess ((key,take) :: rest)
        ((key,finalizeTake take (excess.of (side take.target).not)) :: (finalizeTakes (excess.taken (side take.target).not) rest).1)
        (finalizeTakes (excess.taken (side take.target).not) rest).2 := .cons (ih _)
    unfold finalizeTakes
    cases sided : side take.target with
    | bid =>
      rw [sided] at made
      exact made
    | ask =>
      rw [sided] at made
      exact made

theorem Finalizes.keys {entries done : List (K × TakeInProgress T)} (finalizes : Finalizes excess entries done left) : done.map Prod.fst = entries.map Prod.fst := by
  induction finalizes with
  | nil => rfl
  | cons rest ih => rw [List.map_cons,List.map_cons,ih]

theorem Finalizes.member {entries done : List (K × TakeInProgress T)} (finalizes : Finalizes excess entries done left) (member : (key,take) ∈ done) :
    ∃ before share, (key,before) ∈ entries ∧ take = finalizeTake before share := by
  induction finalizes with
  | nil => cases member
  | cons rest ih => grind

theorem Finalizes.each {entries done : List (K × TakeInProgress T)} (finalizes : Finalizes excess entries done left) (member : (key,take) ∈ entries) :
    ∃ share, (key,finalizeTake take share) ∈ done := by
  induction finalizes with
  | nil => cases member
  | cons rest ih => grind

theorem mem_entriesOf [DecidableEq A] {m : HashMap A B} : (key,value) ∈ entriesOf m ↔ m.lookup key = some value := by
  unfold entriesOf
  rw [List.mem_map,← HashMap.mem_entries]
  grind

theorem finalizeTake_target (take : TakeInProgress T) (share : Nat) : (finalizeTake take share).target = take.target := rfl

end Takes

section Laws
variable {T K U : Type} [Stable T K] [MarketTaker T U] [TakerBehaviour T] [lawful : LawfulTaker T]

include lawful in
theorem finalizeTake_input (take : TakeInProgress T) (share : Nat) : (finalizeTake take share).remainingInput = take.remainingInput := by
  obtain ⟨target,result⟩ := take
  cases result with
  | term done => rfl
  | succ next =>
    refine (LawfulTaker.ended _ target).1.trans ?_
    rw [(LawfulTaker.corrected _ _).1,(LawfulTaker.charged _ _).1,LawfulTaker.added_input]
    rfl

include lawful in
theorem finalizeTake_output (take : TakeInProgress T) (share : Nat) :
    (finalizeTake take share).accumulatedOutput = take.accumulatedOutput + share ∨
      (finalizeTake take share).accumulatedOutput = U64.max ∧ take.accumulatedOutput ≤ U64.max := by
  obtain ⟨target,result⟩ := take
  cases result with
  | term done => exact .inl rfl
  | succ next =>
    have value : (finalizeTake ⟨target,.succ next⟩ share).accumulatedOutput = min (output next + share) U64.max := by
      refine (LawfulTaker.ended _ target).2.trans ?_
      rw [(LawfulTaker.corrected _ _).2,(LawfulTaker.charged _ _).2,LawfulTaker.added_output]
    rw [value]
    rcases le_total (output next + share) U64.max with small | large
    · exact .inl (min_eq_left small)
    · exact .inr ⟨min_eq_right large,LawfulTaker.output_small next⟩

end Laws

section Recipes
variable {T K M L U : Type} [MarketTaker T U]

theorem satisfied_all {final : FinalRecipe T K M L} (none_left : (final.unsatisfiedFragments order).isEmpty = true) (member : entry ∈ final.takes) :
    minMarginalOutput entry.2.target ≤ entry.2.addedOutput := by
  by_contra short
  have unsatisfied := List.isEmpty_iff.mp none_left
  rw [FinalRecipe.unsatisfiedFragments,List.filterMap_eq_nil_iff] at unsatisfied
  have none_here := unsatisfied entry ((order.perm 2 _).mem_iff.mpr member)
  grind

variable [TakerBehaviour T] [MarketMaker M T U] [MakerBehavior M T] {batch : MatchmakingAttempt T K M L U}

-- What an accepted recipe is made of: the takes and makes of the batch,
-- finalised, with nothing left over.
@[grind cases eager] structure Accepted (batch : MatchmakingAttempt T K M L U) (recipe : MatchmakingRecipe T M) (entries done : List (K × TakeInProgress T))
    (swaps rebalanced : List (L × MakeInProgress M)) (excess : Excess) : Prop where
  entries_perm : entries.Perm (entriesOf batch.takes)
  swaps_perm : swaps.Perm (entriesOf batch.makes)
  rebalances : finalizeMakes T swaps = some (rebalanced,excess)
  finalizes : Finalizes excess entries done ⟨0,0⟩
  takes : recipe.takes.Perm (done.map Prod.snd)
  makes : recipe.makes.Perm (rebalanced.map Prod.snd)
  satisfied : ∀ take ∈ recipe.takes, minMarginalOutput take.target ≤ take.addedOutput

theorem finalized_parts (finalized : batch.finalized order = some final) :
    ∃ excess, finalizeMakes T (order.reorder 0 (entriesOf batch.makes)) = some (final.makes,excess) ∧
      Finalizes excess (order.reorder 1 (entriesOf batch.takes)) final.takes ⟨0,0⟩ ∧ final.ordering = batch.ordering := by
  obtain ⟨⟨rebalanced,excess⟩,rebalances,finalized⟩ := Option.bind_eq_some_iff.mp finalized
  simp only at finalized
  have finalizes := finalizeTakes_finalizes excess (order.reorder 1 (entriesOf batch.takes))
  split at finalized
  · rename_i nothing_left
    cases finalized
    have left : (finalizeTakes excess (order.reorder 1 (entriesOf batch.takes))).2 = ⟨0,0⟩ := by
      cases rest : (finalizeTakes excess (order.reorder 1 (entriesOf batch.takes))).2 with
      | mk base quote => grind
    grind
  · cases finalized

theorem tryFrom_accepted [DecidableEq K] (ordered : batch.ordering.Perm batch.takes.keys)
    (made : MatchmakingRecipe.tryFrom order baseStepBudget batch = .ok recipe) :
    ∃ entries done swaps rebalanced excess, Accepted batch recipe entries done swaps rebalanced excess := by
  unfold MatchmakingRecipe.tryFrom at made
  split at made
  · split at made
    · cases made
    · rename_i final finalized
      obtain ⟨excess,rebalances,finalizes,same_ordering⟩ := finalized_parts finalized
      simp only at made
      split at made
      · rename_i all_satisfied
        split at made
        · cases made
        · split at made
          · cases made
            have entries_perm := order.perm 1 (entriesOf batch.takes)
            have keys_perm : final.ordering.Perm (final.takes.map Prod.fst) := by
              rw [finalizes.keys,same_ordering]
              refine ordered.trans ((entries_perm.map Prod.fst).trans (.of_eq ?_)).symm
              unfold entriesOf AList.keys
              rw [List.map_map]
              rfl
            have distinct : (final.takes.map Prod.fst).Nodup :=
              keys_perm.nodup_iff.mp (same_ordering ▸ ordered.nodup_iff.mpr batch.takes.keys_nodup)
            have takes_perm := listed_perm distinct keys_perm
            refine ⟨_,final.takes,_,final.makes,excess,entries_perm,order.perm 0 _,rebalances,finalizes,?_,?_,?_⟩
            · rw [takes_listed]
              exact takes_perm
            · rw [makes_listed]
              exact (order.perm 3 final.makes).map Prod.snd
            · intro take member
              rw [takes_listed] at member
              obtain ⟨entry,inside,rfl⟩ := List.mem_map.mp (takes_perm.mem_iff.mp member)
              exact satisfied_all all_satisfied inside
          · cases made
      · cases made
  · cases made

end Recipes
end GreenAgent.Book
