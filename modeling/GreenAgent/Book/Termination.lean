import GreenAgent.Book.Heads

namespace GreenAgent.Book
open MarketTaker TakerBehaviour

section Weights
variable {T U : Type} [MarketTaker T U]

-- What the takers still have to give, and one for each of them.
def weight (takers : List T) : Nat := (takers.map (fun t => input t + 1)).sum

theorem weight_cons (t : T) (rest : List T) : weight (t :: rest) = input t + 1 + weight rest := by
  unfold weight
  rw [List.map_cons,List.sum_cons]

theorem weight_perm {takers rest : List T} (perm : takers.Perm rest) : weight takers = weight rest := (perm.map _).sum_eq

theorem weight_sublist {takers rest : List T} (sublist : takers.Sublist rest) : weight takers ≤ weight rest := by
  induction sublist with
  | slnil => exact le_rfl
  | cons t _ ih =>
    rw [weight_cons]
    omega
  | cons_cons t _ ih =>
    rw [weight_cons,weight_cons]
    omega

theorem weight_subperm {takers rest : List T} (subperm : takers.Subperm rest) : weight takers ≤ weight rest := by
  obtain ⟨middle,perm,sublist⟩ := subperm
  exact (weight_perm perm) ▸ weight_sublist sublist

end Weights

section Progress
variable {T K M L U : Type} [DecidableEq K] [DecidableEq L] [Stable T K] [Stable M L] [MarketTaker T U] [TakerBehaviour T] [MarketMaker M T U]
  [Add U] [LawfulTaker T] [EndingTaker T]

theorem Advances.lighter {state next : TLBState T L M} {batch batch' : MatchmakingAttempt T K M L U} (advances : Advances state batch next batch') :
    weight next.activeFragments.all < weight state.activeFragments.all := by
  cases advances with
  | @trade taker free amount added make _ split bounded positive active =>
    refine lt_of_le_of_lt (weight_subperm active) ?_
    rw [weight_perm split,weight_cons]
    cases traded : withAppliedTrade taker amount added with
    | term _ =>
      change weight free < _
      omega
    | succ left =>
      change weight (left :: free) < _
      have gave := LawfulTaker.trade_input taker amount added bounded
      rw [traded] at gave
      change input left = input taker - amount at gave
      have remains := EndingTaker.ending taker left amount added traded
      have taken := positive (by omega)
      rw [weight_cons]
      omega

end Progress

section
variable {T K M L U : Type} [DecidableEq K] [DecidableEq L] [Ord T] [Stable T K] [Stable M L] [MarketTaker T U] [TakerBehaviour T]
  [MarketMaker M T U] [MakerBehavior M T] [Add U] [Zero U] [LT U] [DecidableLT U]

-- The heads of the outer loop that a call of `attempt` can come to, whatever the
-- hash maps iterate like.
inductive Retried (conf : ExecutionConfig U) (book : TLBState T L M) : Bool → TLBState T L M → Prop where
  | first : Retried conf book true book
  | stashed {batch : MatchmakingAttempt T K M L U} (earlier : Retried conf book optimized head)
      (filled : Filled conf optimized order head final batch)
      (refused : MatchmakingRecipe.tryFrom order conf.baseStepBudget batch = .error (.unsatisfied takers)) :
      Retried conf book optimized (final.rollback (.stash takers))
  | downgraded {batch : MatchmakingAttempt T K M L U} (earlier : Retried conf book optimized head)
      (filled : Filled conf optimized order head final batch)
      (refused : MatchmakingRecipe.tryFrom order conf.baseStepBudget batch = .error .downgradeNeeded) :
      Retried conf book false (final.rollback (.stash []))

variable {conf : ExecutionConfig U} {book head final : TLBState T L M} {batch : MatchmakingAttempt T K M L U} {ground : Ground T L M}

section Grounded
variable [Std.OrientedOrd T] [LawfulTaker T] [DefaultSwaps M T]

theorem Filled.rollback (off : conf.o2oAllowed = false) (good : ground.Good) (filled : Filled conf optimized order ground.head final batch)
    (complete : batch ≠ .empty) (removed : List T) : final.rollback (.stash removed) = (ground.stash removed).head := by
  obtain ⟨steps,fuel,run⟩ := filled
  have rooted := (good.kept (K := K) (U := U)).filled off run
  obtain ⟨shown,rfl⟩ := rooted.entered.resolve_right complete
  rw [preview_rollback,rooted.same]

theorem Filled.downgraded (off : conf.o2oAllowed = false) (good : ground.Good) (filled : Filled conf optimized order ground.head final batch)
    (refused : MatchmakingRecipe.tryFrom order conf.baseStepBudget batch = .error .downgradeNeeded) :
    final.rollback (.stash []) = ground.head := by
  rw [filled.rollback off good (refused_complete refused nofun),stash_nothing]

theorem Filled.stashed (off : conf.o2oAllowed = false) (good : ground.Good) (filled : Filled conf optimized order ground.head final batch)
    (refused : MatchmakingRecipe.tryFrom order conf.baseStepBudget batch = .error (.unsatisfied takers)) :
    final.rollback (.stash takers) = (ground.stash takers).head ∧
      (ground.stash takers).takers.active.all.length < ground.takers.active.all.length := by
  refine ⟨filled.rollback off good (refused_complete refused nofun) takers,?_⟩
  obtain ⟨steps,fuel,run⟩ := filled
  obtain ⟨nonempty,targets⟩ := unsatisfied_targets refused
  refine MarketTakers.removeAll_less good.sorted good.sided nonempty (fun t member => ?_)
  obtain ⟨key,take,found,rfl⟩ := targets t member
  exact ((good.kept (K := K) (U := U)).filled off run).targets key take found

theorem Retried.grounded (off : conf.o2oAllowed = false) (good : ground.Good) (retried : Retried (K := K) conf ground.head optimized head) :
    ∃ ground' : Ground T L M, ground'.Good ∧ head = ground'.head := by
  induction retried with
  | first => exact ⟨ground,good,rfl⟩
  | stashed earlier filled refused ih =>
    obtain ⟨ground',good',rfl⟩ := ih
    exact ⟨_,good'.stash _,(filled.stashed off good' refused).1⟩
  | downgraded earlier filled refused ih =>
    obtain ⟨ground',good',rfl⟩ := ih
    exact ⟨ground',good',filled.downgraded off good' refused⟩

end Grounded

-- A call that returns has been at the head, in a round with a number of its own
-- and with certain iteration orders before it.
def Leads (K : Type) [DecidableEq K] [Stable T K] (conf : ExecutionConfig U) (book : TLBState T L M) (optimized : Bool) (head : TLBState T L M) : Prop :=
  ∃ (round : Nat) (path : Nat → HashOrder), ∀ orders : Nat → HashOrder, (∀ i < round, orders i = path i) → ∀ steps fuel outcome,
    attemptLoop (K := K) steps conf orders fuel 0 true book = some outcome →
    ∃ fuel', attemptLoop (K := K) steps conf orders fuel' round optimized head = some outcome

theorem attemptLoop_filled {round : Nat} (filled : Filled conf optimized (orders round) head final batch)
    (ran : attemptLoop (K := K) steps conf orders fuel round optimized head = some outcome) :
    ∃ fuel', fuel = fuel' + 1 ∧ fillLoop steps conf optimized (orders round) steps 4 head (.empty : MatchmakingAttempt T K M L U) = some (final,batch) := by
  cases fuel with
  | zero => cases ran
  | succ fuel =>
    refine ⟨fuel,rfl,?_⟩
    unfold attemptLoop at ran
    cases run : fillLoop steps conf optimized (orders round) steps 4 head (.empty : MatchmakingAttempt T K M L U) with
    | none =>
      rw [run] at ran
      cases ran
    | some result =>
      obtain ⟨rfl,rfl⟩ := filled.unique run
      rfl

theorem Leads.next (leads : Leads K conf book optimized head) (filled : Filled conf optimized order head final batch)
    (goes : ∀ (orders : Nat → HashOrder) steps fuel round, orders round = order →
      fillLoop steps conf optimized (orders round) steps 4 head (.empty : MatchmakingAttempt T K M L U) = some (final,batch) →
      attemptLoop (K := K) steps conf orders (fuel+1) round optimized head = attemptLoop (K := K) steps conf orders fuel (round+1) optimized' head') :
    Leads K conf book optimized' head' := by
  obtain ⟨round,path,reach⟩ := leads
  refine ⟨round+1,Function.update path round order,fun orders same steps fuel outcome ran => ?_⟩
  have before : ∀ i < round, orders i = path i := by grind
  have here : orders round = order := by rw [same round (by omega),Function.update_self]
  obtain ⟨fuel,ran⟩ := reach orders before steps fuel outcome ran
  obtain ⟨fuel',rfl,run⟩ := attemptLoop_filled (here ▸ filled) ran
  grind

theorem Retried.leads (retried : Retried (K := K) conf book optimized head) : Leads K conf book optimized head := by
  induction retried with
  | first => exact ⟨0,fun _ => ⟨fun _ list => list,fun _ list => .refl list⟩,fun _ _ _ fuel _ ran => ⟨fuel,ran⟩⟩
  | stashed earlier filled refused ih =>
    refine ih.next filled (fun orders steps fuel round here run => ?_)
    rw [attemptLoop]
    simp only [run]
    rw [here,refused]
  | downgraded earlier filled refused ih =>
    refine ih.next filled (fun orders steps fuel round here run => ?_)
    rw [attemptLoop]
    simp only [run]
    rw [here,refused]

theorem Leads.frozen (leads : Leads K conf book optimized head) (order : HashOrder)
    (stuck : ∀ (orders : Nat → HashOrder) round, (∀ i, round ≤ i → orders i = order) → ∀ steps fuel,
      attemptLoop (K := K) steps conf orders fuel round optimized head = none) :
    ∃ orders, ∀ fuel, attempt (K := K) fuel conf orders book = none := by
  obtain ⟨round,path,reach⟩ := leads
  refine ⟨fun i => if i < round then path i else order,fun fuel => ?_⟩
  cases ran : attempt (K := K) fuel conf (fun i => if i < round then path i else order) book with
  | none => rfl
  | some outcome =>
    obtain ⟨fuel',again⟩ := reach _ (fun i less => if_pos less) fuel fuel outcome ran
    grind

theorem endless_search (retried : Retried (K := K) conf book true head) (filling : Filling conf true order head moment state batch)
    (room : batch.HasRoom conf) (stalls : Stalls order moment state) : ∃ orders, ∀ fuel, attempt (K := K) fuel conf orders book = none := by
  refine retried.leads.frozen order (fun orders round frozen steps fuel => ?_)
  cases fuel with
  | zero => rfl
  | succ fuel =>
    unfold attemptLoop
    rw [frozen round le_rfl,filling.endless room stalls]

variable [Std.OrientedOrd T] [LawfulTaker T] [DefaultSwaps M T]

theorem endless_retry (off : conf.o2oAllowed = false) (good : ground.Good) (retried : Retried (K := K) conf ground.head false head)
    (filled : Filled conf false order head final batch)
    (refused : MatchmakingRecipe.tryFrom order conf.baseStepBudget batch = .error .downgradeNeeded) :
    ∃ orders, ∀ fuel, attempt (K := K) fuel conf orders ground.head = none := by
  obtain ⟨ground',good',rfl⟩ := retried.grounded off good
  have back := filled.downgraded off good' refused
  refine retried.leads.frozen order (fun orders round frozen steps fuel => ?_)
  induction fuel generalizing round with
  | zero => rfl
  | succ fuel ih =>
    unfold attemptLoop
    cases run : fillLoop steps conf false (orders round) steps 4 ground'.head (.empty : MatchmakingAttempt T K M L U) with
    | none => rfl
    | some result =>
      have same := frozen round le_rfl
      rw [same] at run
      obtain ⟨rfl,rfl⟩ := filled.unique run
      grind

variable [EndingTaker T]

-- Rounds that may still follow without an optimised search: one, or two.
def allowance (optimized : Bool) : Nat := if optimized then 2 else 1

theorem attemptLoop_ends {round : Nat} (off : conf.o2oAllowed = false)
    (affordable : ∀ head order final (batch : MatchmakingAttempt T K M L U), Retried (K := K) conf book false head →
      Filled conf false order head final batch → MatchmakingRecipe.tryFrom order conf.baseStepBudget batch ≠ .error .downgradeNeeded)
    (searchable : ∀ head order moment state (batch : MatchmakingAttempt T K M L U), Retried (K := K) conf book true head →
      Filling conf true order head moment state batch → batch.HasRoom conf → ¬Stalls order moment state)
    (good : ground.Good) (retried : Retried (K := K) conf book optimized ground.head) (enough : U64.max ≤ steps)
    (long : weight ground.takers.active.all < steps) (passes : ground.takers.active.all.length + allowance optimized ≤ fuel) :
    ∃ outcome, attemptLoop (K := K) steps conf orders fuel round optimized ground.head = some outcome ∧
      outcome.rounds ≤ round + (ground.takers.active.all.length + allowance optimized) := by
  have some_allowance : 0 < allowance optimized := by cases optimized <;> decide
  induction fuel generalizing round optimized ground with
  | zero => omega
  | succ fuel ih =>
    have kept : ∀ steps moment (state : TLBState T L M) (batch : MatchmakingAttempt T K M L U) next batch', Sound (fun _ => True) state →
        fillStep steps conf.o2oAllowed optimized (orders round) moment state batch = some (.next next batch') →
        Sound (fun _ => True) next ∧ weight next.activeFragments.all < weight state.activeFragments.all := by
      intro steps moment state batch next batch' sound step
      rw [off] at step
      obtain ⟨sound',advances⟩ := fillStep_advances sound step
      exact ⟨sound',advances.lighter⟩
    have ended : ∃ result, fillLoop steps conf optimized (orders round) steps 4 ground.head (.empty : MatchmakingAttempt T K M L U) = some result := by
      refine fillLoop_ends EndingTaker.small kept (fun moment state batch filling room searching => ?_) enough good.sound .start
        (by rw [head_active]; exact long)
      grind
    obtain ⟨⟨final,batch⟩,run⟩ := ended
    have filled : Filled conf optimized (orders round) ground.head final batch := ⟨steps,steps,run⟩
    unfold attemptLoop
    simp only [run]
    cases made : MatchmakingRecipe.tryFrom (orders round) conf.baseStepBudget batch with
    | ok recipe => exact ⟨_,rfl,by simp only; omega⟩
    | error reason =>
      cases reason with
      | failed => exact ⟨_,rfl,by simp only; omega⟩
      | unsatisfied takers =>
        obtain ⟨back,fewer⟩ := filled.stashed off good made
        have again := Retried.stashed retried filled made
        rw [back] at again
        simp only [back]
        have lighter := weight_sublist (MarketTakers.removeAll_sublist takers ground.takers.active)
        have rest : ∃ outcome, attemptLoop (K := K) steps conf orders fuel (round+1) optimized (ground.stash takers).head = some outcome ∧
            outcome.rounds ≤ round + 1 + ((ground.stash takers).takers.active.all.length + allowance optimized) :=
          ih (good.stash takers) again (lt_of_le_of_lt lighter long) (by omega) some_allowance
        grind
      | downgradeNeeded =>
        cases optimized with
        | false => exact absurd made (affordable _ _ _ _ retried filled)
        | true =>
          have back := filled.downgraded off good made
          have again := Retried.downgraded retried filled made
          rw [back] at again
          simp only [back]
          have less : allowance false + 1 = allowance true := rfl
          have rest : ∃ outcome, attemptLoop (K := K) steps conf orders fuel (round+1) false ground.head = some outcome ∧
              outcome.rounds ≤ round + 1 + (ground.takers.active.all.length + allowance false) := ih good again long (by omega) (by decide)
          grind

end
end GreenAgent.Book
