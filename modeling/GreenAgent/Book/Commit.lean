import GreenAgent.Book.Trace

namespace GreenAgent.Book
open MarketTaker TakerBehaviour

-- What a recipe does to a taker at its end leaves the id of the taker.
class SteadyTaker (T : Type) {K U : outParam Type} [Stable T K] [MarketTaker T U] [TakerBehaviour T] : Prop where
  finalized : ∀ (target next final : T) (share : Nat), (finalizeTake ⟨target,.succ next⟩ share).result = .succ final → stableId final = stableId next

section Sets
variable {T K U : Type} [Ord T] [Stable T K] [IdentifiedOrd T] [MarketTaker T U] {takers : MarketTakers T} {t : T}

theorem MarketTakers.mem_insert (fresh : ∀ y ∈ takers.all, stableId t = stableId y → t = y) : x ∈ (takers.insert t).all ↔ x = t ∨ x ∈ takers.all := by
  have within : ∀ set : List T, (∀ y ∈ set, y ∈ takers.all) → ∀ y ∈ set, compare t y = .eq → t = y :=
    fun set inside y member alike => fresh y (inside y member) (IdentifiedOrd.same t y alike)
  unfold MarketTakers.insert
  split
  · have bids := BTreeSet.mem_insert (x := x) (within takers.bids (fun y member => List.mem_append_right _ member))
    simp only [MarketTakers.all,List.mem_append,bids]
    exact or_left_comm
  · have asks := BTreeSet.mem_insert (x := x) (within takers.asks (fun y member => List.mem_append_left _ member))
    simp only [MarketTakers.all,List.mem_append,asks]
    exact or_assoc

theorem MarketTakers.mem_insertAll {added : List T} (one : ∀ t ∈ added, ∀ y, y ∈ added ∨ y ∈ takers.all → stableId t = stableId y → t = y) :
    x ∈ (added.foldl MarketTakers.insert takers).all ↔ x ∈ added ∨ x ∈ takers.all := by
  induction added generalizing takers with
  | nil => simp
  | cons t added ih =>
    have first : ∀ x, x ∈ (takers.insert t).all ↔ x = t ∨ x ∈ takers.all :=
      fun x => MarketTakers.mem_insert (fun y member => one t List.mem_cons_self y (.inr member))
    grind

end Sets

section Books
variable {T K M L U : Type}

-- The takers that are not active yet.
def Waits (inactive : HashMap Nat (MarketTakers T)) (x : T) : Prop := ∃ time slot, inactive.lookup time = some slot ∧ x ∈ slot.all

def Chronology.Has (takers : Chronology T) (x : T) : Prop := x ∈ takers.active.all ∨ Waits takers.inactive x

-- Every taker of the book has an id of its own.
@[grind cases eager] structure Chronology.Distinct [Stable T K] (takers : Chronology T) : Prop where
  active : Orderly (fun _ => True) takers.active.all
  apart : ∀ x ∈ takers.active.all, ∀ y, Waits takers.inactive y → stableId x ≠ stableId y

variable [Ord T] [Stable T K] [MarketTaker T U] [IdentifiedOrd T] {inactive : HashMap Nat (MarketTakers T)} {state : TLBState T L M}

theorem addInactive_waits (fresh : ∀ y, Waits inactive y → stableId t = stableId y → t = y) :
    Waits (Chronology.addInactive inactive time t) x ↔ x = t ∨ Waits inactive x := by
  have slot : ∀ y, y ∈ ((inactive.lookup time).getD .new).all → ∃ slot, inactive.lookup time = some slot ∧ y ∈ slot.all := by
    intro y member
    cases found : inactive.lookup time with
    | none =>
      rw [found] at member
      cases member
    | some slot => grind
  have inserted : x ∈ (((inactive.lookup time).getD .new).insert t).all ↔ x = t ∨ x ∈ ((inactive.lookup time).getD .new).all := by
    refine MarketTakers.mem_insert (fun y member => fresh y ?_)
    tauto
  constructor
  · rintro ⟨moment,there,found,member⟩
    rw [Chronology.addInactive,HashMap.lookup_insert] at found
    split at found
    · cases found
      tauto
    · exact .inr ⟨moment,there,found,member⟩
  · have lookup : ∀ moment, (Chronology.addInactive inactive time t).lookup moment =
        if moment = time then some (((inactive.lookup time).getD .new).insert t) else inactive.lookup moment := fun moment => HashMap.lookup_insert ..
    have here := (lookup time).trans (if_pos rfl)
    rintro (same | ⟨moment,there,found,member⟩)
    · exact ⟨time,_,here,inserted.mpr (.inl same)⟩
    · by_cases now : moment = time
      · rw [now] at found
        refine ⟨time,_,here,inserted.mpr (.inr ?_)⟩
        rw [found]
        exact member
      · exact ⟨moment,there,(lookup moment).trans ((if_neg now).trans found),member⟩

theorem addAllInactive_waits {changes : List (Nat × T)}
    (one : ∀ t ∈ changes.map Prod.snd, ∀ y, y ∈ changes.map Prod.snd ∨ Waits inactive y → stableId t = stableId y → t = y) :
    Waits (changes.foldl (fun map entry => Chronology.addInactive map entry.1 entry.2) inactive) x ↔ x ∈ changes.map Prod.snd ∨ Waits inactive x := by
  induction changes generalizing inactive with
  | nil => simp
  | cons change changes ih =>
    have first : ∀ x, Waits (Chronology.addInactive inactive change.1 change.2) x ↔ x = change.2 ∨ Waits inactive x :=
      fun x => addInactive_waits (fun y member => one change.2 List.mem_cons_self y (.inr member))
    grind

-- The stash that a commit puts back.
def TLBState.carried : TLBState T L M → List T
  | .preview shown => shown.stashedActiveTakers
  | _ => []

theorem commit_has (one : ∀ t y, t ∈ state.carried ∨ t ∈ state.present → y ∈ state.carried ∨ y ∈ state.present ∨ Waits state.ground.takers.inactive y →
      stableId t = stableId y → t = y) :
    ∃ resting, state.commit = .idle resting ∧
      ∀ x, resting.takers.Has x ↔ x ∈ state.carried ∨ x ∈ state.present ∨ Waits state.ground.takers.inactive x := by
  cases state with
  | idle resting => exact ⟨resting,rfl,fun x => by simp [Chronology.Has,TLBState.carried,TLBState.present,TLBState.postponed,TLBState.activeFragments,TLBState.ground]⟩
  | partialPreview busy =>
    refine ⟨_,rfl,fun x => ?_⟩
    simp [Chronology.Has,TLBState.carried,TLBState.present,TLBState.postponed,TLBState.activeFragments,TLBState.ground,PartialPreviewState.commit,
      PartialPreviewState.takersIntact]
  | preview shown =>
    refine ⟨_,rfl,fun x => ?_⟩
    have active : x ∈ (shown.stashedActiveTakers.foldl MarketTakers.insert shown.activeTakersPreview).all ↔
        x ∈ shown.stashedActiveTakers ∨ x ∈ shown.activeTakersPreview.all :=
      MarketTakers.mem_insertAll (fun t member y other => one t y (.inl member) (other.imp_right (fun inside => .inl (List.mem_append_left _ inside))))
    have reversed : ∀ y, y ∈ shown.inactiveTakersChangeset.reverse.map Prod.snd ↔ y ∈ shown.inactiveTakersChangeset.map Prod.snd := by simp_all
    have waits : Waits (shown.inactiveTakersChangeset.reverse.foldl (fun map entry => Chronology.addInactive map entry.1 entry.2)
        shown.takersIntact.inactive) x ↔ x ∈ shown.inactiveTakersChangeset.map Prod.snd ∨ Waits shown.takersIntact.inactive x := by
      rw [addAllInactive_waits,reversed]
      intro t member y other
      rw [reversed] at member other
      exact one t y (.inr (List.mem_append_right _ member)) (.inr (other.imp_left (List.mem_append_right _)))
    change x ∈ _ ∨ Waits _ x ↔ x ∈ shown.stashedActiveTakers ∨ x ∈ shown.activeTakersPreview.all ++ shown.inactiveTakersChangeset.map Prod.snd ∨ _
    simp only [PreviewState.commit,active,waits,List.mem_append,or_assoc]
    rfl

end Books

section Recipes
variable {T K M L U : Type} [DecidableEq K] [Stable T K] [MarketTaker T U] [TakerBehaviour T] {batch : MatchmakingAttempt T K M L U}
  {recipe : MatchmakingRecipe T M}

-- The takes of the recipe are those of the batch, finalised.
@[grind cases eager] structure Finalised (batch : MatchmakingAttempt T K M L U) (recipe : MatchmakingRecipe T M) : Prop where
  each : ∀ take ∈ recipe.takes, ∃ before share, batch.takes.lookup (stableId take.target) = some before ∧ take = finalizeTake before share
  every : ∀ key before, batch.takes.lookup key = some before → ∃ take ∈ recipe.takes, ∃ share, take = finalizeTake before share
  once : ∀ a ∈ recipe.takes, ∀ b ∈ recipe.takes, stableId a.target = stableId b.target → a = b

theorem Accepted.finalised [MarketMaker M T U] [MakerBehavior M T] (accepted : Accepted batch recipe entries done swaps rebalanced excess)
    (keyed : ∀ key take, batch.takes.lookup key = some take → stableId take.target = key) : Finalised batch recipe := by
  have inside : ∀ key take, (key,take) ∈ done → ∃ before share, batch.takes.lookup key = some before ∧ take = finalizeTake before share ∧
      stableId take.target = key := by
    intro key take member
    obtain ⟨before,share,entry,rfl⟩ := accepted.finalizes.member member
    have found := mem_entriesOf.mp (accepted.entries_perm.mem_iff.mp entry)
    exact ⟨before,share,found,rfl,keyed key before found⟩
  have listed : ∀ take ∈ recipe.takes, (stableId take.target,take) ∈ done := by grind
  have nodup : (done.map Prod.fst).Nodup := by
    rw [accepted.finalizes.keys]
    refine (accepted.entries_perm.map Prod.fst).nodup_iff.mpr ?_
    have keys := batch.takes.keys_nodup
    unfold AList.keys at keys
    unfold entriesOf
    rw [List.map_map]
    exact keys
  refine ⟨?_,?_,?_⟩
  · grind
  · intro key before found
    obtain ⟨share,entry⟩ := accepted.finalizes.each (accepted.entries_perm.mem_iff.mpr (mem_entriesOf.mpr found))
    grind
  · intro a one b two same
    have first := find_listed nodup (listed a one)
    have second := find_listed nodup (listed b two)
    grind

-- The stash is carried through the commit, and finalising leaves what becomes
-- of a taker as it was previewed.
@[grind cases eager] structure Carries (batch : MatchmakingAttempt T K M L U) (recipe : MatchmakingRecipe T M) (state : TLBState T L M) : Prop where
  stash : ∀ busy, state = .partialPreview busy → busy.stashedActiveTakers = []
  previewed : ∀ take ∈ recipe.takes, ∀ before, batch.takes.lookup (stableId take.target) = some before →
    take.result.successors = before.result.successors

-- The book after the commit: the takers in no take as they were, and what the
-- recipe makes of the others.
def Committed (start : IdleState T L M) (recipe : MatchmakingRecipe T M) (state : TLBState T L M) : Prop :=
  ∃ resting, state = .idle resting ∧ ∀ x, resting.takers.Has x ↔
    start.takers.Has x ∧ (∀ take ∈ recipe.takes, take.target ≠ x) ∨ ∃ take ∈ recipe.takes, take.result = .succ x

end Recipes

section Rounds
variable {T K M L U : Type} [Ord T] [Stable T K] [MarketTaker T U] {start : IdleState T L M} {ground : Ground T L M} {state : TLBState T L M}

omit [Stable T K] [MarketTaker T U] in
theorem Ground.Of.mem_active (of : ground.Of start) : x ∈ ground.takers.active.all ↔ x ∈ start.takers.active.all ∧ x ∉ ground.stashed := by
  unfold MarketTakers.all
  rw [List.mem_append,List.mem_append,of.left.asks.members,of.left.bids.members,or_and_right]

variable [DecidableEq K] {batch : MatchmakingAttempt T K M L U}

omit [Ord T] [MarketTaker T U] in
theorem Traced.origin {started present : List T} (traced : Traced started present batch) (member : x ∈ present) : ∃ t ∈ started, stableId t = stableId x := by
  rcases (traced.members x).mp member with ⟨here,_⟩ | ⟨take,found,_⟩
  · exact ⟨x,here,rfl⟩
  grind

-- A round has ended with this state and batch.
@[grind cases eager] structure Ended (start : IdleState T L M) (ground : Ground T L M) (state : TLBState T L M) (batch : MatchmakingAttempt T K M L U) : Prop where
  distinct : start.takers.Distinct
  of : ground.Of start
  same : state.ground = ground
  traced : Traced ground.takers.active.all state.present batch

namespace Ended

theorem waits (ended : Ended start ground state batch) : Waits state.ground.takers.inactive x ↔ Waits start.takers.inactive x := by
  rw [ended.same,ended.of.takers]

theorem present_apart (ended : Ended start ground state batch) (member : x ∈ state.present) :
    (∀ y ∈ ground.stashed, stableId x ≠ stableId y) ∧ ∀ y, Waits start.takers.inactive y → stableId x ≠ stableId y := by
  obtain ⟨t,here,same⟩ := ended.traced.origin member
  obtain ⟨first,free⟩ := ended.of.mem_active.mp here
  refine ⟨fun y stashed alike => free ?_,fun y waiting alike => ?_⟩
  · rw [ended.distinct.active.unique first (ended.of.members y stashed) (same.trans alike)]
    exact stashed
  grind

theorem carried_stashed (ended : Ended start ground state batch) (member : x ∈ state.carried) : x ∈ ground.stashed := by
  rw [← ended.same]
  cases state with
  | preview shown => exact member
  | idle resting => cases member
  | partialPreview busy => cases member

theorem one (ended : Ended start ground state batch) (t y : T) (mine : t ∈ state.carried ∨ t ∈ state.present)
    (other : y ∈ state.carried ∨ y ∈ state.present ∨ Waits state.ground.takers.inactive y) (alike : stableId t = stableId y) : t = y := by
  rw [ended.waits] at other
  rcases mine with carried | present
  · have stashed := ended.carried_stashed carried
    rcases other with carried' | present' | waiting
    · exact ended.distinct.active.unique (ended.of.members t stashed) (ended.of.members y (ended.carried_stashed carried')) alike
    · exact absurd alike.symm ((ended.present_apart present').1 t stashed)
    grind
  · rcases other with carried | present' | waiting
    · exact absurd alike ((ended.present_apart present).1 y (ended.carried_stashed carried))
    · exact ended.traced.orderly.unique present present' alike
    · exact absurd alike ((ended.present_apart present).2 y waiting)

theorem take_apart (ended : Ended start ground state batch) (found : batch.takes.lookup (stableId x) = some before) :
    x ∉ ground.stashed ∧ ¬Waits start.takers.inactive x := by
  have same := ended.traced.key _ before found
  obtain ⟨first,free⟩ := ended.of.mem_active.mp (ended.traced.target _ before found)
  refine ⟨fun stashed => free ?_,fun waiting => ended.distinct.apart _ first x waiting same⟩
  rw [ended.distinct.active.unique first (ended.of.members x stashed) same]
  exact stashed

variable [TakerBehaviour T] {recipe : MatchmakingRecipe T M}

theorem untouched (ended : Ended start ground state batch) (finalised : Finalised batch recipe) :
    start.takers.Has x ∧ (∀ take ∈ recipe.takes, take.target ≠ x) ↔
      x ∈ ground.takers.active.all ∧ batch.takes.lookup (stableId x) = none ∨ x ∈ ground.stashed ∨ Waits start.takers.inactive x := by
  have targets : ∀ take ∈ recipe.takes, ∃ before, batch.takes.lookup (stableId take.target) = some before := by grind
  constructor
  · rintro ⟨active | waiting,not_target⟩
    · by_cases stashed : x ∈ ground.stashed
      · exact .inr (.inl stashed)
      · have here := ended.of.mem_active.mpr ⟨active,stashed⟩
        refine .inl ⟨here,?_⟩
        cases found : batch.takes.lookup (stableId x) with
        | none => rfl
        | some before =>
          obtain ⟨take,member,share,rfl⟩ := finalised.every _ before found
          have first := (ended.of.mem_active.mp (ended.traced.target _ before found)).1
          exact absurd (ended.distinct.active.unique first active (ended.traced.key _ before found)) (not_target (finalizeTake before share) member)
    · exact .inr (.inr waiting)
  · rintro (⟨here,absent⟩ | stashed | waiting)
    · refine ⟨.inl (ended.of.mem_active.mp here).1,?_⟩
      grind
    · refine ⟨.inl (ended.of.members x stashed),?_⟩
      rintro take member rfl
      obtain ⟨before,found⟩ := targets take member
      exact (ended.take_apart found).1 stashed
    · refine ⟨.inr waiting,?_⟩
      rintro take member rfl
      obtain ⟨before,found⟩ := targets take member
      exact (ended.take_apart found).2 waiting

theorem recipe_next [SteadyTaker T] (ended : Ended start ground state batch) (finalised : Finalised batch recipe) (member : take ∈ recipe.takes)
    (became : take.result = .succ x) : stableId x = stableId take.target := by
  obtain ⟨⟨target,result⟩,share,found,rfl⟩ := finalised.each take member
  cases result with
  | term done => cases became
  | succ next => exact (SteadyTaker.finalized target next x share became).trans (ended.traced.next _ _ next found rfl)

omit [TakerBehaviour T] in
theorem carried_all (ended : Ended start ground state batch) (carries : Carries batch recipe state) : x ∈ state.carried ↔ x ∈ ground.stashed := by
  refine ⟨ended.carried_stashed,?_⟩
  rw [← ended.same]
  cases state with
  | preview shown => exact id
  | idle resting => exact id
  | partialPreview busy =>
    intro stashed
    have none_stashed := carries.stash busy rfl
    change x ∈ busy.stashedActiveTakers at stashed
    grind

theorem recipe_previewed (ended : Ended start ground state batch) (finalised : Finalised batch recipe) (carries : Carries batch recipe state) :
    (∃ before, batch.takes.lookup (stableId x) = some before ∧ before.result = .succ x) ↔ ∃ take ∈ recipe.takes, take.result = .succ x := by
  constructor
  · rintro ⟨before,found,became⟩
    obtain ⟨take,member,share,rfl⟩ := finalised.every _ before found
    have key := ended.traced.key _ before found
    have same := carries.previewed _ member before (key.symm ▸ found)
    refine ⟨_,member,mem_successors.mp ?_⟩
    rw [same]
    exact mem_successors.mpr became
  · rintro ⟨take,member,became⟩
    obtain ⟨before,share,found,_⟩ := finalised.each take member
    have same := carries.previewed take member before found
    have next : before.result = .succ x := mem_successors.mp (same ▸ mem_successors.mpr became)
    grind

theorem carries_committed [IdentifiedOrd T] (ended : Ended start ground state batch) (finalised : Finalised batch recipe) (carries : Carries batch recipe state) :
    Committed start recipe state.commit := by
  obtain ⟨resting,committed,has⟩ := commit_has ended.one
  refine ⟨resting,committed,fun x => ?_⟩
  rw [has,ended.untouched finalised,ended.carried_all carries,ended.waits,ended.traced.members,ended.recipe_previewed finalised carries]
  simp only [or_assoc,or_comm]

theorem committed_carries [IdentifiedOrd T] [SteadyTaker T] (ended : Ended start ground state batch) (finalised : Finalised batch recipe)
    (committed : Committed start recipe state.commit) : Carries batch recipe state := by
  obtain ⟨resting,idle,has⟩ := commit_has ended.one
  obtain ⟨resting',idle',takers⟩ := committed
  obtain rfl := TLBState.idle.inj (idle'.symm.trans idle)
  have book : ∀ x, x ∈ state.carried ∨ x ∈ state.present ∨ Waits start.takers.inactive x ↔
      (x ∈ ground.takers.active.all ∧ batch.takes.lookup (stableId x) = none ∨ x ∈ ground.stashed ∨ Waits start.takers.inactive x) ∨
        ∃ take ∈ recipe.takes, take.result = .succ x := by
    intro x
    rw [← ended.untouched finalised,← takers,has,ended.waits]
  refine ⟨?_,fun take member before found => ?_⟩
  · rintro busy rfl
    refine List.eq_nil_iff_forall_not_mem.mpr (fun x inside => ?_)
    have stashed : x ∈ ground.stashed := ended.same ▸ inside
    rcases (book x).mpr (.inl (.inr (.inl stashed))) with carried | present | waiting
    · cases carried
    · exact (ended.present_apart present).1 x stashed rfl
    grind
  · have forward : ∀ x, take.result = .succ x → before.result = .succ x := by
      intro x became
      have here : batch.takes.lookup (stableId x) = some before := by
        rw [ended.recipe_next finalised member became]
        exact found
      obtain ⟨not_stashed,not_waiting⟩ := ended.take_apart here
      rcases (book x).mpr (.inr ⟨take,member,became⟩) with carried | present | waiting
      · exact absurd (ended.carried_stashed carried) not_stashed
      · grind
      · exact absurd waiting not_waiting
    have backward : ∀ x, before.result = .succ x → take.result = .succ x := by
      intro x became
      have key := ended.traced.next _ before x found became
      have here : batch.takes.lookup (stableId x) = some before := by
        rw [key]
        exact found
      obtain ⟨not_stashed,not_waiting⟩ := ended.take_apart here
      have present := (ended.traced.members x).mpr (.inr ⟨before,here,became⟩)
      rcases (book x).mp (.inr (.inl present)) with (⟨_,absent⟩ | stashed | waiting) | ⟨other,inside,same⟩
      · cases absent.symm.trans here
      · exact absurd stashed not_stashed
      · exact absurd waiting not_waiting
      · rw [finalised.once take member other inside (key.symm.trans (ended.recipe_next finalised inside same))]
        exact same
    cases result : take.result with
    | succ x => rw [forward x result]
    | term done =>
      cases previewed : before.result with
      | term _ => rfl
      | succ x => cases result.symm.trans (backward x previewed)

end Ended
end Rounds

section Attempts
variable {T K M L U : Type} [DecidableEq K] [DecidableEq L] [Ord T] [Stable T K] [Stable M L] [MarketTaker T U] [TakerBehaviour T]
  [MarketMaker M T U] [MakerBehavior M T] [Add U] [Zero U] [LT U] [DecidableLT U] {conf : ExecutionConfig U}

-- The batch of the round whose recipe an attempt returns.
def acceptedBatch (steps : Nat) (conf : ExecutionConfig U) (orders : Nat → HashOrder) :
    Nat → Nat → Bool → TLBState T L M → Option (MatchmakingAttempt T K M L U)
  | 0,_,_,_ => none
  | fuel+1,round,optimized,state =>
    match fillLoop steps conf optimized (orders round) steps 4 state (.empty : MatchmakingAttempt T K M L U) with
    | none => none
    | some (state,batch) =>
      match MatchmakingRecipe.tryFrom (orders round) conf.baseStepBudget batch with
      | .ok _ => some batch
      | .error .failed => none
      | .error (.unsatisfied takers) => acceptedBatch steps conf orders fuel (round+1) optimized (state.rollback (.stash takers))
      | .error .downgradeNeeded => acceptedBatch steps conf orders fuel (round+1) false (state.rollback (.stash []))

variable [IdentifiedOrd T] [Std.TransOrd T] [LawfulTaker T] [SteadyTaker T] [DefaultSwaps M T] {start : IdleState T L M} {ground : Ground T L M}

theorem attemptLoop_commits {round : Nat} (distinct : start.takers.Distinct) (initial : (TLBState.idle start).ground.Good) (of : ground.Of start)
    (good : ground.Good) (ran : attemptLoop (K := K) steps conf orders fuel round optimized ground.head = some outcome) (found : outcome.recipe = some recipe) :
    ∃ batch, acceptedBatch (K := K) steps conf orders fuel round optimized ground.head = some batch ∧
      (Committed start recipe outcome.state.commit ↔ Carries batch recipe outcome.state) := by
  induction fuel generalizing round optimized ground with
  | zero => cases ran
  | succ fuel ih =>
    unfold attemptLoop at ran
    unfold acceptedBatch
    cases filled : fillLoop steps conf optimized (orders round) steps 4 ground.head (.empty : MatchmakingAttempt T K M L U) with
    | none => grind
    | some result =>
      obtain ⟨final,batch⟩ := result
      have tied := fillLoop_tied ⟨of.anchored initial.sided,.inr rfl⟩ filled
      have first : Accounts ground.takers.active.all ground.head (.empty : MatchmakingAttempt T K M L U) :=
        ⟨good.sound,by rw [head_present]; exact .start good.orderly⟩
      have traced := (fillLoop_accounts first filled).traced
      rw [filled] at ran
      simp only at ran ⊢
      cases made : MatchmakingRecipe.tryFrom (orders round) conf.baseStepBudget batch with
      | ok accepted =>
        rw [made] at ran
        cases ran
        cases found
        obtain ⟨_,_,_,_,_,parts⟩ := tryFrom_accepted traced.ordered made
        have ended : Ended start ground final batch := ⟨distinct,of,tied.anchored.same,traced⟩
        have finalised := parts.finalised traced.key
        exact ⟨batch,rfl,ended.committed_carries finalised,ended.carries_committed finalised⟩
      | error rejection =>
        have entered : rejection ≠ .failed → final.Entered := fun other => tied.entered.resolve_right (refused_complete made other)
        rw [made] at ran
        cases rejection with
        | failed => grind
        | unsatisfied takers =>
          simp only [rollback_stash (entered (by rintro ⟨⟩)) takers,tied.anchored.same] at ran ⊢
          refine ih (of.stash initial.sorted initial.sided (fun t member => ?_)) (good.stash takers) ran
          obtain ⟨key,take,inside,rfl⟩ := (unsatisfied_targets made).2 t member
          exact (of.mem_active.mp (traced.target key take inside)).1
        | downgradeNeeded =>
          simp only [rollback_stash (entered (by rintro ⟨⟩)) [],tied.anchored.same] at ran ⊢
          exact ih (of.stash initial.sorted initial.sided (fun t member => by cases member)) (good.stash []) ran

-- Committing a recipe keeps every taker exactly if the stash is carried over
-- and finalising changes no taker that goes on.

end Attempts

section Sample
open Green Green.Recorded Pools Pools.NoEstimates

instance [TokenHash] : IdentifiedOrd GreenOrder := ⟨fun _ _ alike => congrArg (stableToken TokenHash.blake2b224) (compareOrderId_eq alike)⟩

instance [TokenHash] : SteadyTaker GreenOrder where
  finalized target next final share made := by
    obtain rfl := tryTerminate_same made
    rfl

theorem crossed_distinct : crossedResting.takers.Distinct := by
  refine ⟨⟨?_,fun _ _ => trivial⟩,?_⟩
  · have ids : crossedResting.takers.active.all = [crumb,seller,buyer] := rfl
    rw [ids]
    decide +kernel
  · rintro x _ y ⟨time,slot,found,_⟩
    cases found

theorem crossed_keyed : Keyed crossedResting.makers := by
  have none_there : Keyed (∅ : MarketMakers Account.Token RoyaltyPool) := fun id pool found => by cases found
  exact none_there.insert evenPool

-- The takers that a partial preview has stashed.
def stashShown : TLBState GreenOrder Account.Token RoyaltyPool → List GreenOrder
  | .partialPreview busy => busy.stashedActiveTakers
  | _ => []

-- The crumb is stashed by the first round. The second one crosses the two other
-- orders, which both end, and the crumb is gone with the commit.

end Sample
end GreenAgent.Book
