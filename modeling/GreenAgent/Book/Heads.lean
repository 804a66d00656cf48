import GreenAgent.Book.Retry
import GreenAgent.Book.Finalize

namespace GreenAgent.Book
open MarketTaker TakerBehaviour

section Sets
variable {T U : Type} [Ord T]

-- A `BTreeSet` as it is stored.
def Ascending (set : List T) : Prop := set.Pairwise (fun a b => compare a b = .lt)

theorem compare_gt [Std.OrientedOrd T] {a b : T} (less : compare a b = .lt) : compare b a = .gt := Std.OrientedCmp.gt_of_lt less

theorem BTreeSet.insert_remove [Std.OrientedOrd T] {set : List T} (ascending : Ascending set) (member : t ∈ set) :
    BTreeSet.insert t (BTreeSet.remove t set) = set := by
  induction set with
  | nil => cases member
  | cons first rest ih =>
    obtain ⟨least,ascending'⟩ := List.pairwise_cons.mp ascending
    rcases List.mem_cons.mp member with rfl | later
    · have same : compare t t = .eq := Std.ReflCmp.compare_self
      unfold BTreeSet.remove
      rw [same]
      simp only
      cases rest with
      | nil => rfl
      | cons second others =>
        unfold BTreeSet.insert
        rw [least second List.mem_cons_self]
    · have after := compare_gt (least t later)
      unfold BTreeSet.remove
      rw [after]
      simp only
      unfold BTreeSet.insert
      rw [after]
      simp only
      rw [ih ascending' later]

theorem BTreeSet.remove_length [Std.OrientedOrd T] {set : List T} (ascending : Ascending set) (member : t ∈ set) :
    (BTreeSet.remove t set).length + 1 = set.length := by
  induction set with
  | nil => cases member
  | cons first rest ih =>
    obtain ⟨least,ascending'⟩ := List.pairwise_cons.mp ascending
    rcases List.mem_cons.mp member with rfl | later
    · have same : compare t t = .eq := Std.ReflCmp.compare_self
      unfold BTreeSet.remove
      rw [same]
      rfl
    · unfold BTreeSet.remove
      rw [compare_gt (least t later)]
      tauto

@[grind cases eager] structure MarketTakers.Sorted (takers : MarketTakers T) : Prop where
  asks : Ascending takers.asks
  bids : Ascending takers.bids

variable [MarketTaker T U] {takers : MarketTakers T}

namespace MarketTakers

theorem Sorted.remove (sorted : takers.Sorted) (t : T) : (takers.remove t).Sorted := by
  unfold MarketTakers.remove
  split
  · exact ⟨sorted.asks,sorted.bids.sublist (BTreeSet.remove_sublist t _)⟩
  · exact ⟨sorted.asks.sublist (BTreeSet.remove_sublist t _),sorted.bids⟩

theorem Sorted.removeAll (sorted : takers.Sorted) (removed : List T) : (removed.foldl MarketTakers.remove takers).Sorted := by
  induction removed generalizing takers with
  | nil => exact sorted
  | cons t removed ih => exact ih (sorted.remove t)

omit [Ord T] in
theorem Sided.member_ask (sided : takers.Sided) (member : t ∈ takers.all) (ask : side t = .ask) : t ∈ takers.asks := by
  rcases List.mem_append.mp member with here | there
  · exact here
  grind

omit [Ord T] in
theorem Sided.member_bid (sided : takers.Sided) (member : t ∈ takers.all) (bid : side t = .bid) : t ∈ takers.bids := by
  rcases List.mem_append.mp member with there | here
  · grind
  · exact here

variable [Std.OrientedOrd T]

theorem insert_remove (sorted : takers.Sorted) (sided : takers.Sided) (member : t ∈ takers.all) : (takers.remove t).insert t = takers := by
  cases at_side : side t with
  | bid =>
    have restored := BTreeSet.insert_remove sorted.bids (sided.member_bid member at_side)
    simp only [MarketTakers.remove,MarketTakers.insert,at_side,restored]
  | ask =>
    have restored := BTreeSet.insert_remove sorted.asks (sided.member_ask member at_side)
    simp only [MarketTakers.remove,MarketTakers.insert,at_side,restored]

theorem remove_less (sorted : takers.Sorted) (sided : takers.Sided) (member : t ∈ takers.all) : (takers.remove t).all.length < takers.all.length := by
  unfold MarketTakers.all
  rw [List.length_append,List.length_append]
  cases at_side : side t with
  | bid =>
    have less := BTreeSet.remove_length sorted.bids (sided.member_bid member at_side)
    simp only [MarketTakers.remove,at_side]
    omega
  | ask =>
    have less := BTreeSet.remove_length sorted.asks (sided.member_ask member at_side)
    simp only [MarketTakers.remove,at_side]
    omega

theorem removeAll_less {removed : List T} (sorted : takers.Sorted) (sided : takers.Sided) (nonempty : removed ≠ []) (members : ∀ t ∈ removed, t ∈ takers.all) :
    (removed.foldl MarketTakers.remove takers).all.length < takers.all.length := by
  cases removed with
  | nil => exact absurd rfl nonempty
  | cons t removed =>
    have first := remove_less sorted sided (members t List.mem_cons_self)
    exact lt_of_le_of_lt (removeAll_sublist removed (takers.remove t)).length_le first

end MarketTakers

-- What the loop picks can be put back as if nothing had happened.
def Restores (f : MarketTakers T → Option T × MarketTakers T) : Prop :=
  ∀ takers t rest, takers.Sorted → takers.Sided → f takers = (some t,rest) → rest.insert t = takers

theorem maxByDistanceToSpot_restores [Std.OrientedOrd T] (spot : AbsolutePrice) (range : AllowedPriceRange) :
    Restores (maxByDistanceToSpot spot range : MarketTakers T → _) := by
  intro takers t rest sorted sided picked
  have without := maxByDistanceToSpot_picks spot range takers sided
  rw [picked] at without
  have member : t ∈ takers.all := without.split.mem_iff.mpr List.mem_cons_self
  unfold maxByDistanceToSpot at picked
  simp only at picked
  split at picked
  · obtain ⟨same,rfl⟩ := Prod.mk.inj picked
    obtain rfl := Option.some.inj same
    exact MarketTakers.insert_remove sorted sided member
  · cases picked

end Sets

-- What a rollback goes back to: the takers and the makers before the attempt,
-- and the takers stashed.
structure Ground (T L M : Type) where
  takers : Chronology T
  stashed : List T
  makers : MarketMakers L M

section Grounds
variable {T M L U : Type} [Ord T] [MarketTaker T U]

def TLBState.ground : TLBState T L M → Ground T L M
  | .idle state => ⟨state.takers,[],state.makers⟩
  | .partialPreview state => ⟨state.takersIntact,state.stashedActiveTakers,state.makersIntact⟩
  | .preview state => ⟨state.takersIntact,state.stashedActiveTakers,state.makersIntact⟩

-- The state a retry starts from.
def Ground.head (ground : Ground T L M) : TLBState T L M :=
  if ground.stashed.isEmpty then .idle ⟨ground.takers,ground.makers⟩
  else .partialPreview ⟨ground.takers,[],ground.stashed,ground.makers,ground.makers⟩

def Ground.stash (ground : Ground T L M) (removed : List T) : Ground T L M where
  takers := {ground.takers with active:=removed.foldl MarketTakers.remove ground.takers.active}
  stashed := ground.stashed ++ removed
  makers := ground.makers

theorem head_ground (ground : Ground T L M) : ground.head.ground = ground := by
  unfold Ground.head
  split
  · rename_i empty
    obtain ⟨takers,stashed,makers⟩ := ground
    obtain rfl := List.isEmpty_iff.mp empty
    rfl
  · rfl

omit [Ord T] in
theorem head_active (ground : Ground T L M) : ground.head.activeFragments = ground.takers.active := by
  unfold Ground.head
  split <;> rfl

theorem preview_rollback (shown : PreviewState T L M) (removed : List T) :
    (TLBState.preview shown).rollback (.stash removed) = ((TLBState.preview shown).ground.stash removed).head := rfl

theorem moveIntoPreview_ground (state : TLBState T L M) : (TLBState.preview state.moveIntoPreview).ground = state.ground := by
  cases state <;> rfl

theorem preAddTaker_ground (state : TLBState T L M) (t : T) : (state.preAddTaker t).ground = state.ground := by
  rw [← moveIntoPreview_ground state]
  rcases preAddTaker_cases state t with ⟨_,added⟩ | added
  · rw [added]
    rfl
  · rw [added]
    rfl

theorem preAddMaker_ground [DecidableEq L] [Stable M L] (state : TLBState T L M) (maker : M) : (state.preAddMaker maker).ground = state.ground := by
  rw [← moveIntoPreview_ground state]
  rfl

theorem pickMakerById_ground [DecidableEq L] (state : TLBState T L M) (id : L) : (state.pickMakerById id).2.ground = state.ground := by
  cases state <;> rfl

-- In a preview the takers before the attempt are kept apart.
def TLBState.Settled (state : TLBState T L M) : Prop := state.activeFragments.Sorted ∨ ∃ shown, state = .preview shown

theorem pickActiveTaker_ground {f : MarketTakers T → Option T × MarketTakers T} {state : TLBState T L M} (restores : Restores f)
    (settled : state.Settled) (sided : state.activeFragments.Sided) (picked : state.pickActiveTaker f = (some t,free)) : free.ground = state.ground := by
  rcases settled with sorted | ⟨shown,rfl⟩
  · cases state with
    | idle resting =>
      simp only [TLBState.pickActiveTaker] at picked
      cases chosen : f resting.takers.active with
      | mk choice rest =>
        rw [chosen] at picked
        cases choice with
        | none => cases picked
        | some taker =>
          obtain ⟨_,rfl⟩ := Prod.mk.inj picked
          have restored := restores _ _ _ sorted sided chosen
          change Ground.mk {resting.takers with active:=rest.insert taker} [] resting.makers = _
          rw [restored]
          rfl
    | partialPreview busy =>
      simp only [TLBState.pickActiveTaker] at picked
      cases chosen : f busy.takersPreview.active with
      | mk choice rest =>
        rw [chosen] at picked
        cases choice with
        | none => cases picked
        | some taker =>
          obtain ⟨_,rfl⟩ := Prod.mk.inj picked
          have restored := restores _ _ _ sorted sided chosen
          have last : (busy.consumedActiveTakers ++ [taker]).reverse = taker :: busy.consumedActiveTakers.reverse := List.reverse_concat
          change Ground.mk {busy.takersPreview with active:=(busy.consumedActiveTakers ++ [taker]).reverse.foldl MarketTakers.insert rest}
            busy.stashedActiveTakers busy.makersIntact = _
          rw [last,List.foldl_cons,restored]
          rfl
    | preview shown =>
      simp only [TLBState.pickActiveTaker] at picked
      obtain ⟨_,rfl⟩ := Prod.mk.inj picked
      rfl
  · simp only [TLBState.pickActiveTaker] at picked
    obtain ⟨_,rfl⟩ := Prod.mk.inj picked
    rfl

@[grind cases eager] structure Ground.Good [Stable T K] [Stable M L] [DecidableEq L] (ground : Ground T L M) : Prop where
  sorted : ground.takers.active.Sorted
  sided : ground.takers.active.Sided
  orderly : Orderly (fun _ => True) ground.takers.active.all
  keyed : Keyed ground.makers

variable {ground : Ground T L M}

theorem Ground.Good.sound [Stable T K] [Stable M L] [DecidableEq L] (good : ground.Good) : Sound (fun _ => True) ground.head := by
  unfold Ground.head
  split
  · exact sound_idle good.sided good.orderly good.keyed
  · exact ⟨good.sided,good.sided,good.orderly,good.orderly,good.keyed,good.keyed⟩

theorem Ground.Good.stash [Stable T K] [Stable M L] [DecidableEq L] (good : ground.Good) (removed : List T) : (ground.stash removed).Good where
  sorted := good.sorted.removeAll removed
  sided := good.sided.removeAll removed
  orderly := good.orderly.mono (MarketTakers.removeAll_sublist removed _).subperm
  keyed := good.keyed

theorem stash_nothing (ground : Ground T L M) : ground.stash [] = ground := by
  unfold Ground.stash
  rw [List.append_nil]
  rfl

end Grounds

-- Takers whose amounts are `u64`s and that are over when nothing is left.
class EndingTaker (T : Type) {U : outParam Type} [MarketTaker T U] [TakerBehaviour T] : Prop where
  small : ∀ t : T, input t ≤ U64.max
  ending : ∀ (t next : T) (removed added : Nat), withAppliedTrade t removed added = .succ next → 0 < input next

-- Makers that trade by `default_swap_with_taker`.
class DefaultSwaps (M T : Type) {U V : outParam Type} [MarketTaker T V] [TakerBehaviour T] [MarketMaker M T U] [MakerBehavior M T] : Prop where
  deals : ∀ (maker : M) (taker : T) (amount : OnSide Nat), MakerBehavior.swapWithTaker maker taker amount = defaultSwapWithTaker maker taker amount

section Rounds
variable {T K M L U : Type} [DecidableEq K] [DecidableEq L] [Ord T] [Stable T K] [Stable M L] [MarketTaker T U] [TakerBehaviour T]
  [MarketMaker M T U] [MakerBehavior M T] [Add U]

-- A pass that goes on lets one taker trade some of what it has.
inductive Advances (state : TLBState T L M) (batch : MatchmakingAttempt T K M L U) : TLBState T L M → MatchmakingAttempt T K M L U → Prop where
  | trade {taker : T} {free : List T} {amount added : Nat} {make : MakeInProgress M} {next : TLBState T L M} (split : state.activeFragments.all.Perm (taker :: free)) (bounded : amount ≤ input taker) (positive : 0 < input taker → 0 < amount)
      (active : next.activeFragments.all.Subperm ((withAppliedTrade taker amount added).successors ++ free)) :
      Advances state batch next ((batch.addMake make).addTake ⟨taker,withAppliedTrade taker amount added⟩)

variable {state : TLBState T L M} {batch : MatchmakingAttempt T K M L U}

theorem matchTaker_off (spot : AbsolutePrice) (taker : T) (maker : Option (L × FillPreview)) :
    matchTaker false spot taker maker state batch = matchMaker taker maker state batch := by
  unfold matchTaker
  split
  · grind
  · rfl

-- The pass leaves what a rollback goes back to, and a preview stays one.
@[grind cases eager] structure Stays (state next : TLBState T L M) : Prop where
  ground : next.ground = state.ground
  shown : (∃ shown, state = .preview shown) → ∃ shown, next = .preview shown

inductive Grounded (state : TLBState T L M) (batch : MatchmakingAttempt T K M L U) : Pass T K M L U → Prop where
  | next (stays : Stays state (.preview shown)) : Grounded state batch (.next (.preview shown) batch')
  | stop (stays : Stays state final) : Grounded state batch (.stop final batch)

omit [TakerBehaviour T] in
theorem matchMaker_grounded (stays : Stays state free) : Grounded state batch (matchMaker taker maker free batch) := by
  have back : Stays state (free.preAddTaker taker) := by
    refine ⟨(preAddTaker_ground free taker).trans stays.ground,fun _ => ?_⟩
    rcases preAddTaker_cases free taker with ⟨_,added⟩ | added
    · exact ⟨_,added⟩
    · exact ⟨_,added⟩
  unfold matchMaker
  split
  · rename_i key preview
    split
    · cases picked : free.pickMakerById key with
      | mk choice taken =>
        have ground : taken.ground = state.ground := by
          have same := pickMakerById_ground free key
          grind
        have shown : (∃ shown, state = .preview shown) → ∃ shown, taken = .preview shown := by
          intro before
          obtain ⟨shown,rfl⟩ := stays.shown before
          cases picked
          exact ⟨_,rfl⟩
        cases choice with
        | none => exact .stop ⟨ground,shown⟩
        | some maker =>
          cases swapped : MakerBehavior.swapWithTaker maker taker ((side taker).wrap preview.input) with
          | mk take make =>
            have took : (onTake taken take.result).ground = state.ground := by
              cases take.result with
              | succ next => exact (preAddTaker_ground taken next).trans ground
              | term _ => exact ground
            simp only [swapped]
            obtain ⟨target,result⟩ := make
            cases result with
            | term void => cases void
            | succ next => exact .next ⟨(preAddMaker_ground _ next).trans took,fun _ => ⟨_,rfl⟩⟩
    · exact .stop back
  · exact .stop back

variable [Std.OrientedOrd T]

theorem fillStep_grounded (settled : state.Settled) (sound : Sound P state)
    (step : fillStep steps false optimized order moment state batch = some result) : Grounded state batch result := by
  unfold fillStep at step
  simp only at step
  split at step
  · cases step
    exact .stop ⟨rfl,id⟩
  · rename_i best highest
    split at step
    · rename_i rest picked
      cases step
      rw [sound.pick_none (maxByDistanceToSpot_picks _ _) picked]
      exact .stop ⟨rfl,id⟩
    · rename_i taker free picked
      obtain ⟨maker,selected,rfl⟩ := Option.map_eq_some_iff.mp step
      rw [matchTaker_off]
      refine matchMaker_grounded ⟨pickActiveTaker_ground (maxByDistanceToSpot_restores _ _) settled sound.sided picked,?_⟩
      rintro ⟨shown,rfl⟩
      simp only [TLBState.pickActiveTaker] at picked
      grind

variable [LawfulTaker T] [DefaultSwaps M T] [Zero U]

theorem fillStep_advances (sound : Sound (fun _ => True) state) (step : fillStep steps false optimized order moment state batch = some (.next next batch')) :
    Sound (fun _ => True) next ∧ Advances state batch next batch' := by
  have passes := fillStep_passes sound step
  cases passes with
  | cross allowed => cases allowed
  | @pool taker free key maker preview take make freed found offered overlaps swapped =>
    rw [DefaultSwaps.deals] at swapped
    obtain ⟨traded,made⟩ := Prod.mk.inj swapped
    have amount : ((side taker).wrap preview.input).unwrap = preview.input := by cases side taker <;> rfl
    have lasting : Lasting (fun _ : T => True) := fun _ _ _ _ _ _ _ => trivial
    rw [amount] at traded
    subst traded
    refine ⟨?_,.trade freed.split offered.bounded offered.positive ?_⟩
    · refine Sound.onMake (Sound.onTake (freed.sound.takeMaker _) ?_) _
      rw [pickMakerById_active]
      exact (freed.orderly sound).traded lasting offered.bounded
    · rw [onMake_active]
      have active := onTake_active (free.pickMakerById key).2
        (withAppliedTrade taker preview.input (tradeOutput T ⟨maker,MakerBehavior.swap T maker ((side taker).wrap preview.input)⟩))
      rwa [pickMakerById_active] at active

-- What holds at every pass of a filling loop that started from `ground`.
@[grind cases eager] structure Kept (ground : Ground T L M) (state : TLBState T L M) (batch : MatchmakingAttempt T K M L U) : Prop where
  sound : Sound (fun _ => True) state
  settled : state.Settled
  same : state.ground = ground
  entered : (∃ shown, state = .preview shown) ∨ batch = .empty
  origin : ∀ t ∈ state.activeFragments.all, t ∈ ground.takers.active.all ∨ ∃ take, batch.takes.lookup (stableId t) = some take
  targets : ∀ key take, batch.takes.lookup key = some take → take.target ∈ ground.takers.active.all

-- What is left of it when the loop is over.
@[grind cases eager] structure Rooted (ground : Ground T L M) (state : TLBState T L M) (batch : MatchmakingAttempt T K M L U) : Prop where
  same : state.ground = ground
  entered : (∃ shown, state = .preview shown) ∨ batch = .empty
  targets : ∀ key take, batch.takes.lookup key = some take → take.target ∈ ground.takers.active.all

variable {ground : Ground T L M}

omit [TakerBehaviour T] [MakerBehavior M T] [MarketMaker M T U] [LawfulTaker T] [DefaultSwaps M T] [Add U] [Std.OrientedOrd T] in
theorem Ground.Good.kept (good : ground.Good) : Kept ground ground.head (.empty : MatchmakingAttempt T K M L U) where
  sound := good.sound
  settled := .inl (head_active ground ▸ good.sorted)
  same := head_ground ground
  entered := .inr rfl
  origin := fun t member => .inl (head_active ground ▸ member)
  targets := fun key take found => by cases found

theorem Kept.step (kept : Kept ground state batch) (step : fillStep steps false optimized order moment state batch = some (.next next batch')) :
    Kept ground next batch' := by
  obtain ⟨sound,advances⟩ := fillStep_advances kept.sound step
  have grounded := fillStep_grounded kept.settled kept.sound step
  cases grounded with
  | @next shown _ stays =>
    cases advances with
    | @trade taker free amount added make _ split bounded positive active =>
      have lookup : ∀ key, ((batch.addMake make).addTake ⟨taker,withAppliedTrade taker amount added⟩).takes.lookup key =
          if key = stableId taker then some ((batch.addMake make).merged ⟨taker,withAppliedTrade taker amount added⟩) else batch.takes.lookup key := by
        intro key
        rw [MatchmakingAttempt.addTake_takes,HashMap.lookup_insert,MatchmakingAttempt.addMake_takes]
      refine ⟨sound,.inr ⟨shown,rfl⟩,stays.ground.trans kept.same,.inl ⟨shown,rfl⟩,?_,?_⟩
      · intro t member
        simp only [lookup]
        by_cases same : stableId t = stableId taker
        · simp_all
        · rw [if_neg same]
          rcases List.mem_append.mp (active.subset member) with successor | other
          · cases traded : withAppliedTrade taker amount added with
            | term _ =>
              rw [traded] at successor
              cases successor
            | succ next =>
              rw [traded] at successor
              obtain rfl := List.mem_singleton.mp successor
              exact absurd (LawfulTaker.trade_same taker t amount added traded).1 same
          grind
      · intro key take found
        rw [lookup] at found
        split at found
        · cases found
          unfold MatchmakingAttempt.merged
          rw [MatchmakingAttempt.addMake_takes]
          rcases kept.origin taker (split.mem_iff.mpr List.mem_cons_self) with here | ⟨existing,before⟩
          · cases before : batch.takes.lookup (stableId taker) with
            | none => exact here
            | some existing => exact kept.targets _ existing before
          · rw [before]
            exact kept.targets _ existing before
        · exact kept.targets key take found

variable [LT U] [DecidableLT U]

theorem Kept.filled {conf : ExecutionConfig U} (off : conf.o2oAllowed = false) (kept : Kept ground state batch)
    (filled : fillLoop steps conf optimized order fuel moment state batch = some (final,result)) : Rooted ground final result := by
  induction fuel generalizing moment state batch with
  | zero => cases filled
  | succ fuel ih =>
    unfold fillLoop at filled
    rw [off] at filled
    split at filled
    · split at filled
      · cases filled
      · rename_i next batch' step
        exact ih (kept.step step) filled
      · rename_i stopped batch' step
        cases filled
        have grounded := fillStep_grounded kept.settled kept.sound step
        cases grounded with
        | stop stays => exact ⟨stays.ground.trans kept.same,kept.entered.imp_left stays.shown,kept.targets⟩
    · cases filled
      exact ⟨kept.same,kept.entered,kept.targets⟩

end Rounds

section Refusals
variable {T K M L U : Type} [DecidableEq K] [MarketTaker T U] [TakerBehaviour T] [MarketMaker M T U] [MakerBehavior M T]
  {batch : MatchmakingAttempt T K M L U}

theorem unsatisfied_targets (refused : MatchmakingRecipe.tryFrom order baseStepBudget batch = .error (.unsatisfied takers)) :
    takers ≠ [] ∧ ∀ t ∈ takers, ∃ key take, batch.takes.lookup key = some take ∧ take.target = t := by
  unfold MatchmakingRecipe.tryFrom at refused
  split at refused
  · split at refused
    · cases refused
    · rename_i final finalized
      obtain ⟨excess,_,finalizes,_⟩ := finalized_parts finalized
      simp only at refused
      split at refused
      · grind
      · rename_i some_left
        cases refused
        refine ⟨fun nothing => some_left (List.isEmpty_iff.mpr nothing),fun t member => ?_⟩
        obtain ⟨⟨key,take⟩,inside,chosen⟩ := List.mem_filterMap.mp member
        obtain ⟨before,share,entry,rfl⟩ := finalizes.member ((order.perm 2 _).mem_iff.mp inside)
        simp only at chosen
        split at chosen
        · cases chosen
          exact ⟨key,before,mem_entriesOf.mp ((order.perm 1 _).mem_iff.mp entry),rfl⟩
        · cases chosen
  · cases refused

theorem tryFrom_empty [Zero U] : MatchmakingRecipe.tryFrom order baseStepBudget (.empty : MatchmakingAttempt T K M L U) = .error .failed := rfl

theorem refused_complete [Zero U] (refused : MatchmakingRecipe.tryFrom order baseStepBudget batch = .error reason) (other : reason ≠ .failed) : batch ≠ .empty := by
  rintro rfl
  rw [tryFrom_empty] at refused
  grind

end Refusals
end GreenAgent.Book
