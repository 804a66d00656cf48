import GreenAgent.Tx.Interpreter
import GreenAgent.Tx.Spends

namespace GreenAgent.Tx
open Loop (Turn Returns Reaches)
open Engine (Execution)
open Book (MarketTaker TakerBehaviour)
open Account (AlephAccountState AccountIndex)
open Cardano (TransactionOutput)
open Green (GreenOrder)
open Pools (RoyaltyPool)

section Turns
variable {T M D C F U : Type} [MarketTaker T U] [TakerBehaviour T] {env : RecipeContext T M D C F} {args next reached : RecipeArgs T M D C}
  {built : Build D C F} {estimated : UInt64}

def Build.feeMismatch (built : Build D C F) (estimated residue : UInt64) : Int64 :=
  (built.state.reservedTxFee - residue).toInt64 - estimated.toInt64

-- What a call changes for the next one.
inductive Corrected (built : Build D C F) (estimated : UInt64) (args : RecipeArgs T M D C) : RecipeArgs T M D C → Prop where
  | paid (fee : UInt64) : Corrected built estimated args {args with operatorFeePaidFromInterest:=fee,attempt:=args.attempt + 1}
  | reserve (fee : UInt64) : Corrected built estimated args {args with operatorFundingFeeReserve:=fee,attempt:=args.attempt + 1}
  | same (decided : decideFeeCorrection args.takeResidualFee (built.feeMismatch estimated args.accumulatedResidue) built.state.reservedTxFee
        args.accumulatedResidue = .rebuildSameRecipe takeResidual residue) :
      Corrected built estimated args {args with takeResidualFee:=takeResidual,accumulatedResidue:=residue,attempt:=args.attempt + 1}
  | rebalanced (decided : decideFeeCorrection args.takeResidualFee (built.feeMismatch estimated args.accumulatedResidue)
        built.state.reservedTxFee args.accumulatedResidue = .rebuildRebalancedRecipe takeResidual residue) :
      Corrected built estimated args {args with
        takeResidualFee:=takeResidual,accumulatedResidue:=residue,instructions:=balanced,attempt:=args.attempt + 1}

theorem Build.rebalance_again {updated : UInt64} {mismatch : Int64} (again : built.rebalance estimated updated mismatch args = some (.again next)) :
    ∃ balanced,next = {args with instructions:=balanced,attempt:=args.attempt + 1} := by
  obtain ⟨original,_,rest⟩ := Option.bind_eq_some_iff.mp again
  obtain ⟨factor,_,rest⟩ := Option.bind_eq_some_iff.mp rest
  obtain ⟨instructions,_,rest⟩ := Option.bind_eq_some_iff.mp rest
  obtain ⟨corrected,_,rest⟩ := Option.bind_eq_some_iff.mp rest
  grind

theorem Build.conclude_again (again : built.conclude estimated args = some (.again next)) : Corrected built estimated args next := by
  unfold Build.conclude at again
  dsimp only at again
  split at again
  · cases again
  · split at again
    · cases again
    · rename_i decided
      cases again
      exact .same decided
    · rename_i decided
      obtain ⟨balanced,rfl⟩ := Build.rebalance_again again
      exact .rebalanced decided

theorem Build.correct_again (again : built.correct estimated args = some (.again next)) : Corrected built estimated args next := by
  unfold Build.correct at again
  dsimp only at again
  split at again
  · cases again
    exact .paid _
  · split at again
    · cases again
      exact .reserve _
    · exact Build.conclude_again again

-- The fee is split between the interest and the funding as the estimate asks.
@[grind cases eager] structure Settled (built : Build D C F) (estimated : UInt64) (args : RecipeArgs T M D C) : Prop where
  paid : built.expectedFeePaid estimated = args.operatorFeePaidFromInterest
  reserve : built.desiredReserve estimated (built.state.reservedTxFee - args.accumulatedResidue) args.operatorFeePaidFromInterest =
    args.operatorFundingFeeReserve

theorem Build.correct_settled (settled : Settled built estimated args) : built.correct estimated args = built.conclude estimated args := by
  unfold Build.correct
  dsimp only
  grind

theorem executeRecipe_of_build (builds : env.build args = some built) (estimates : env.minFee built.executed.builder = .ok fee) :
    env.executeRecipe args = built.correct (fee + additionalFee) {args with ctx:=built.executed.ctx} := by
  unfold RecipeContext.executeRecipe
  rw [builds,Option.bind_eq_bind,Option.bind_some,estimates]

theorem executeRecipe_again (again : env.executeRecipe args = some (.again next)) :
    ∃ built fee,env.build args = some built ∧ env.minFee built.executed.builder = .ok fee ∧
      Corrected built (fee + additionalFee) {args with ctx:=built.executed.ctx} next := by
  obtain ⟨built,builds,rest⟩ := Option.bind_eq_some_iff.mp again
  split at rest
  · cases rest
  · rename_i fee estimates
    exact ⟨built,fee,builds,estimates,Build.correct_again rest⟩

theorem executeRecipe_attempt (again : env.executeRecipe args = some (.again next)) : next.attempt = args.attempt + 1 := by
  obtain ⟨built,fee,_,_,corrected⟩ := executeRecipe_again again
  cases corrected <;> rfl

theorem reached_attempt (path : Reaches env.executeRecipe args n reached) : reached.attempt = args.attempt + .ofNat n := by
  induction path with
  | start => exact (UInt8.add_zero _).symm
  | again _ turn ih => rw [executeRecipe_attempt turn,ih,UInt8.add_assoc,UInt8.ofNat_add]; rfl

@[grind cases eager] structure Bounded (env : RecipeContext T M D C F) (args : RecipeArgs T M D C) : Prop where
  returns : ∃ rebuilds result,rebuilds ≤ maxFeeCorrectionAttempts.toNat + 1 ∧ Returns env.executeRecipe args rebuilds result
  counter : ∀ n reached next,Reaches env.executeRecipe args n reached → env.executeRecipe reached = some (.again next) →
    reached.attempt.toNat + 1 < UInt8.size

theorem Bounded.of_returns (fresh : args.attempt = 0) (few : rebuilds ≤ maxFeeCorrectionAttempts.toNat + 1)
    (returns : Returns env.executeRecipe args rebuilds result) : Bounded env args := by
  refine ⟨⟨rebuilds,result,few,returns⟩,?_⟩
  intro n reached next path turn
  have early := returns.before path turn
  rw [reached_attempt path,fresh,UInt8.zero_add]
  change n % 2^8 + 1 < 256
  change rebuilds ≤ 25 at few
  omega

end Turns

section Attempts
variable {T M D C : Type}

def attemptsLeft (args : RecipeArgs T M D C) : Nat := maxFeeCorrectionAttempts.toNat - args.attempt.toNat

theorem attempt_below {attempt : UInt8} (below : ¬maxFeeCorrectionAttempts ≤ attempt) :
    attempt + 1 ≤ maxFeeCorrectionAttempts ∧ (attempt + 1).toNat = attempt.toNat + 1 := by
  have small := UInt8.lt_iff_toNat_lt.mp (UInt8.not_le.mp below)
  change attempt.toNat < 24 at small
  have value : (attempt + 1).toNat = attempt.toNat + 1 := by
    rw [UInt8.toNat_add]
    grind
  grind

theorem attemptsLeft_lt {args next : RecipeArgs T M D C} (below : ¬maxFeeCorrectionAttempts ≤ args.attempt)
    (counted : next.attempt = args.attempt + 1) : attemptsLeft next < attemptsLeft args := by
  have small := UInt8.lt_iff_toNat_lt.mp (UInt8.not_le.mp below)
  unfold attemptsLeft
  rw [counted,(attempt_below below).2]
  omega

end Attempts

section Budgets
variable {T M D C F U : Type} [MarketTaker T U] [TakerBehaviour T] {env : RecipeContext T M D C F}
  {held : List (Execution T M (Bearer D)) → C → Prop}

-- Takers with a budget and no account: the fee is reserved by the takers, and
-- nothing panics. `held` are the recipes that occur.
@[grind cases eager] structure Budgeted (env : RecipeContext T M D C F) (held : List (Execution T M (Bearer D)) → C → Prop) : Prop where
  builds : held instructions ctx → ∃ state effects after,env.exec.execute instructions ctx = some (state,effects,after) ∧
    held instructions after ∧ state.reservedTxFee ≠ 0 ∧ state.txBlueprint.forcesOperatorFundingInput = false ∧
    ∀ interest,(state.txBlueprint.projectOntoBuilder env.rules env.rewardAddress env.funding interest 0).isSome = true
  balances : held instructions ctx → ∀ mismatch factor,∃ original balanced corrected,feeBalanceState instructions = some original ∧
    balanceFee mismatch factor instructions = some balanced ∧ feeBalanceState balanced = some corrected ∧ held balanced ctx

@[grind cases eager] structure Budgeted.Inv (held : List (Execution T M (Bearer D)) → C → Prop) (args : RecipeArgs T M D C) : Prop where
  recipe : held args.instructions args.ctx
  paid : args.operatorFeePaidFromInterest = 0
  reserve : args.operatorFundingFeeReserve = 0
  attempt : args.attempt ≤ maxFeeCorrectionAttempts

theorem decide_rebuilds (rebuilds : decideFeeCorrection takeResidual mismatch reserved residue ≠ .complete) : mismatch ≠ 0 :=
  fun settled => rebuilds (if_pos settled)

theorem Budgeted.conclude (budgeted : Budgeted env held) {args : RecipeArgs T M D C} {built : Build D C F} (inv : Budgeted.Inv held args)
    (reserves : built.state.reservedTxFee ≠ 0) (estimated : UInt64) :
    (∃ result,built.conclude estimated args = some (.stop result)) ∨
      ∃ next,built.conclude estimated args = some (.again next) ∧ Budgeted.Inv held next ∧ attemptsLeft next < attemptsLeft args := by
  unfold Build.conclude
  dsimp only
  split
  · exact .inl ⟨_,rfl⟩
  · rename_i early
    split
    · exact .inl ⟨_,rfl⟩
    · rename_i decided
      have below := not_and.mp early (decide_rebuilds (by rw [decided]; exact nofun))
      exact .inr ⟨_,rfl,⟨inv.recipe,inv.paid,inv.reserve,(attempt_below below).1⟩,attemptsLeft_lt below rfl⟩
    · rename_i decided
      have below := not_and.mp early (decide_rebuilds (by rw [decided]; exact nofun))
      have factored : ∃ factor,FeeRatio.new estimated built.state.reservedTxFee = some factor := ⟨_,if_neg reserves⟩
      obtain ⟨factor,factors⟩ := factored
      obtain ⟨original,balanced,corrected,first,balances,second,kept⟩ := budgeted.balances inv.recipe
        ((built.state.reservedTxFee - args.accumulatedResidue).toInt64 - estimated.toInt64) factor
      unfold Build.rebalance
      simp only [first,factors,balances,second,Option.bind_eq_bind,Option.bind_some]
      split
      · exact .inl ⟨_,rfl⟩
      · exact .inr ⟨_,rfl,⟨kept,inv.paid,inv.reserve,(attempt_below below).1⟩,attemptsLeft_lt below rfl⟩

theorem Budgeted.turn (budgeted : Budgeted env held) {args : RecipeArgs T M D C} (inv : Budgeted.Inv held args) :
    (∃ result,env.executeRecipe args = some (.stop result)) ∨
      ∃ next,env.executeRecipe args = some (.again next) ∧ Budgeted.Inv held next ∧ attemptsLeft next < attemptsLeft args := by
  obtain ⟨state,effects,after,executes,kept,reserves,unforced,projects⟩ := budgeted.builds inv.recipe
  obtain ⟨⟨builder,fundingIo⟩,projected⟩ := Option.isSome_iff_exists.mp
    (projects (operatorPayoutAfterNetworkFee state.reservedTxFee (state.operatorInterest + args.accumulatedResidue) 0))
  let built : Build D C F := ⟨state,state.operatorInterest + args.accumulatedResidue,builder,effects,fundingIo,after⟩
  have builds : env.build args = some built := by
    simp only [RecipeContext.build,executes,inv.paid,inv.reserve,projected,Option.bind_eq_bind,Option.bind_some,built]
  cases estimates : env.minFee built.executed.builder with
  | error message =>
    refine .inl ⟨.error (.feeEstimationFailed message),?_⟩
    unfold RecipeContext.executeRecipe
    grind
  | ok fee =>
    have settled : Settled built (fee + additionalFee) {args with ctx:=after} := by
      refine ⟨(if_neg reserves).trans inv.paid.symm,?_⟩
      exact (if_neg (by rw [unforced]; exact Bool.false_ne_true)).trans inv.reserve.symm
    have next : Budgeted.Inv held {args with ctx:=after} := ⟨kept,inv.paid,inv.reserve,inv.attempt⟩
    rw [executeRecipe_of_build builds estimates,Build.correct_settled settled]
    exact budgeted.conclude next reserves _

theorem Budgeted.bounded (budgeted : Budgeted env held) (recipe : held instructions ctx) (residual : Bool) :
    Bounded env (.start residual ctx instructions) := by
  have inv : Budgeted.Inv held (.start residual ctx instructions) := ⟨recipe,rfl,rfl,UInt8.zero_le⟩
  obtain ⟨rebuilds,result,few,returns⟩ := Loop.returns_within (Budgeted.Inv held) attemptsLeft (fun _ => budgeted.turn) inv
  exact Bounded.of_returns rfl (Nat.le_succ_of_le few) returns

end Budgets

section Shapes
variable {T M D C F U : Type} [MarketTaker T U] [TakerBehaviour T] {env : RecipeContext T M D C F} {held : C → Prop} {force : Bool}
  {instructions : List (Execution T M (Bearer D))} {gross rewarded plain paid : UInt64} {args : RecipeArgs T M D C}

-- The estimate for an interest: with the output of a reward, or without it.
def shapeFee (rewarded plain interest : UInt64) : UInt64 := if minSafeLovelaceValue ≤ interest then rewarded else plain

def payments (gross rewarded plain : UInt64) : List UInt64 := [0,min rewarded gross,min plain gross]
def reserves (gross rewarded plain : UInt64) : List UInt64 := [0,U64.saturatingSub rewarded gross,U64.saturatingSub plain gross]

-- Takers without a budget, and an estimate that tells transactions with the
-- output of a reward from those without it, and no others. `held` are the
-- contexts that occur.
@[grind cases eager] structure Shaped (env : RecipeContext T M D C F) (instructions : List (Execution T M (Bearer D))) (held : C → Prop) (force : Bool)
    (gross rewarded plain : UInt64) : Prop where
  builds : held ctx → ∃ state effects after,env.exec.execute instructions ctx = some (state,effects,after) ∧ held after ∧
    state.reservedTxFee = 0 ∧ state.operatorInterest = gross ∧ state.txBlueprint.forcesOperatorFundingInput = force ∧
    ∀ paid ∈ payments gross rewarded plain,∀ reserve ∈ reserves gross rewarded plain,∃ builder fundingIo fee,
      state.txBlueprint.projectOntoBuilder env.rules env.rewardAddress env.funding (gross - paid) reserve = some (builder,fundingIo) ∧
      env.minFee builder = .ok fee ∧ fee + additionalFee = shapeFee rewarded plain (gross - paid)

-- What the next attempt pays from the interest.
def nextPaid (gross rewarded plain paid : UInt64) : UInt64 := min (shapeFee rewarded plain (gross - paid)) gross

def reserveOf (force : Bool) (gross rewarded plain paid : UInt64) : UInt64 :=
  if force then U64.saturatingSub (shapeFee rewarded plain (gross - paid)) gross else 0

@[grind cases eager] structure Shaped.Inv (instructions : List (Execution T M (Bearer D))) (held : C → Prop) (gross rewarded plain : UInt64)
    (args : RecipeArgs T M D C) : Prop where
  recipe : args.instructions = instructions
  context : held args.ctx
  residue : args.accumulatedResidue = 0
  paid : args.operatorFeePaidFromInterest ∈ payments gross rewarded plain
  reserve : args.operatorFundingFeeReserve ∈ reserves gross rewarded plain

theorem nextPaid_mem : nextPaid gross rewarded plain paid ∈ payments gross rewarded plain := by
  unfold nextPaid shapeFee payments
  split <;> simp

theorem reserveOf_mem : reserveOf force gross rewarded plain paid ∈ reserves gross rewarded plain := by
  unfold reserveOf shapeFee reserves
  split
  · split <;> simp
  · simp

theorem payments_le (member : paid ∈ payments gross rewarded plain) : paid ≤ gross := by
  simp only [payments,List.mem_cons,List.not_mem_nil,or_false] at member
  rcases member with rfl | rfl | rfl
  · exact UInt64.zero_le
  · exact Std.min_le_right
  · exact Std.min_le_right

theorem saturatingSub_min (a b : UInt64) : U64.saturatingSub a (min a b) = U64.saturatingSub a b := by
  apply UInt64.toNat_inj.mp
  rw [U64.toNat_saturatingSub,U64.toNat_saturatingSub,UInt64.toNat_min]
  omega

-- What a call asks of the next one: another payment, then another reserve.
def demand (force : Bool) (gross rewarded plain paid reserve : UInt64) : Option (UInt64 × UInt64) :=
  if nextPaid gross rewarded plain paid ≠ paid then some (nextPaid gross rewarded plain paid,reserve)
  else if reserveOf force gross rewarded plain paid ≠ reserve then some (paid,reserveOf force gross rewarded plain paid)
  else none

theorem Shaped.turn (shaped : Shaped env instructions held force gross rewarded plain)
    (inv : Shaped.Inv instructions held gross rewarded plain args) :
    ∃ after,held after ∧
      match demand force gross rewarded plain args.operatorFeePaidFromInterest args.operatorFundingFeeReserve with
      | some (paid,reserve) => env.executeRecipe args = some (.again {args with
          ctx:=after,operatorFeePaidFromInterest:=paid,operatorFundingFeeReserve:=reserve,attempt:=args.attempt + 1})
      | none => ∃ result,env.executeRecipe args = some (.stop result) := by
  obtain ⟨state,effects,after,executes,kept,free,interest,forces,estimates⟩ := shaped.builds inv.context
  obtain ⟨builder,fundingIo,fee,projects,estimate,shape⟩ := estimates _ inv.paid _ inv.reserve
  let built : Build D C F := ⟨state,gross,builder,effects,fundingIo,after⟩
  have payout : operatorPayoutAfterNetworkFee state.reservedTxFee gross args.operatorFeePaidFromInterest =
      gross - args.operatorFeePaidFromInterest := (if_pos free).trans (if_pos (payments_le inv.paid))
  have builds : env.build args = some built := by
    simp only [RecipeContext.build,inv.recipe,executes,inv.residue,interest,UInt64.add_zero,payout,projects,Option.bind_eq_bind,
      Option.bind_some,built]
  have turn := executeRecipe_of_build builds estimate
  rw [shape] at turn
  have asks : built.expectedFeePaid (shapeFee rewarded plain (gross - args.operatorFeePaidFromInterest)) =
      nextPaid gross rewarded plain args.operatorFeePaidFromInterest := if_pos free
  have wants : ∀ estimated,min estimated gross = args.operatorFeePaidFromInterest →
      built.desiredReserve estimated (built.state.reservedTxFee - args.accumulatedResidue) args.operatorFeePaidFromInterest =
        if force then U64.saturatingSub estimated gross else 0 := by
    intro estimated settled
    have whole : U64.saturatingSub estimated 0 = estimated := (if_pos UInt64.zero_le).trans (UInt64.sub_zero _)
    rw [Build.desiredReserve,inv.residue,← settled]
    change (if state.txBlueprint.forcesOperatorFundingInput = true then
      U64.saturatingSub (U64.saturatingSub estimated (state.reservedTxFee - 0)) (min estimated gross) else 0) = _
    rw [forces,free,UInt64.sub_zero,whole,saturatingSub_min]
  have complete : ∀ residual mismatch residue,decideFeeCorrection residual mismatch built.state.reservedTxFee residue = .complete := by
    intro residual mismatch residue
    unfold decideFeeCorrection
    rw [if_pos free]
    exact ite_self _
  refine ⟨after,kept,?_⟩
  unfold demand
  by_cases settled : nextPaid gross rewarded plain args.operatorFeePaidFromInterest = args.operatorFeePaidFromInterest
  · have reserve := wants _ settled
    rw [if_neg (not_not.mpr settled)]
    by_cases same : reserveOf force gross rewarded plain args.operatorFeePaidFromInterest = args.operatorFundingFeeReserve
    · rw [if_neg (not_not.mpr same)]
      have settles : Settled built _ {args with ctx:=after} := ⟨asks.trans settled,reserve.trans same⟩
      rw [turn,Build.correct_settled settles]
      unfold Build.conclude
      dsimp only
      rw [complete]
      split
      · exact ⟨_,rfl⟩
      · exact ⟨_,rfl⟩
    · rw [if_pos same]
      rw [turn,Build.correct]
      dsimp only
      rw [asks,if_neg (not_not.mpr settled),reserve]
      exact if_pos same
  · rw [if_pos settled]
    rw [turn,Build.correct]
    grind

theorem Shaped.pays (shaped : Shaped env instructions held force gross rewarded plain)
    (inv : Shaped.Inv instructions held gross rewarded plain args)
    (moves : nextPaid gross rewarded plain args.operatorFeePaidFromInterest ≠ args.operatorFeePaidFromInterest) :
    ∃ next,env.executeRecipe args = some (.again next) ∧ Shaped.Inv instructions held gross rewarded plain next ∧
      next.operatorFeePaidFromInterest = nextPaid gross rewarded plain args.operatorFeePaidFromInterest := by
  obtain ⟨after,kept,turn⟩ := shaped.turn inv
  rw [demand,if_pos moves] at turn
  exact ⟨_,turn,⟨inv.recipe,kept,inv.residue,nextPaid_mem,inv.reserve⟩,rfl⟩

theorem Shaped.settles (shaped : Shaped env instructions held force gross rewarded plain)
    (inv : Shaped.Inv instructions held gross rewarded plain args)
    (settled : nextPaid gross rewarded plain args.operatorFeePaidFromInterest = args.operatorFeePaidFromInterest) :
    ∃ rebuilds result,rebuilds ≤ 1 ∧ Returns env.executeRecipe args rebuilds result := by
  obtain ⟨after,kept,turn⟩ := shaped.turn inv
  rw [demand,if_neg (not_not.mpr settled)] at turn
  by_cases same : reserveOf force gross rewarded plain args.operatorFeePaidFromInterest = args.operatorFundingFeeReserve
  · rw [if_neg (not_not.mpr same)] at turn
    obtain ⟨result,stops⟩ := turn
    exact ⟨0,result,Nat.zero_le 1,.stop stops⟩
  · rw [if_pos same] at turn
    have later : Shaped.Inv instructions held gross rewarded plain {args with
        ctx:=after,operatorFundingFeeReserve:=reserveOf force gross rewarded plain args.operatorFeePaidFromInterest,
        attempt:=args.attempt + 1} := ⟨inv.recipe,kept,inv.residue,inv.paid,reserveOf_mem⟩
    obtain ⟨_,_,last⟩ := shaped.turn later
    rw [demand,if_neg (not_not.mpr settled),if_neg (not_not.mpr rfl)] at last
    obtain ⟨result,stops⟩ := last
    exact ⟨1,result,Nat.le_refl 1,.again turn (.stop stops)⟩

theorem Shaped.advance (shaped : Shaped env instructions held force gross rewarded plain)
    (inv : Shaped.Inv instructions held gross rewarded plain args)
    (rest : ∀ next : RecipeArgs T M D C,Shaped.Inv instructions held gross rewarded plain next →
      next.operatorFeePaidFromInterest = nextPaid gross rewarded plain args.operatorFeePaidFromInterest →
      ∃ rebuilds result,rebuilds ≤ k ∧ Returns env.executeRecipe next rebuilds result) :
    ∃ rebuilds result,rebuilds ≤ k+1 ∧ Returns env.executeRecipe args rebuilds result := by
  by_cases settled : nextPaid gross rewarded plain args.operatorFeePaidFromInterest = args.operatorFeePaidFromInterest
  · grind
  · obtain ⟨next,turn,kept,paid⟩ := shaped.pays inv settled
    obtain ⟨rebuilds,result,few,returns⟩ := rest next kept paid
    exact ⟨rebuilds+1,result,Nat.succ_le_succ few,.again turn returns⟩

end Shapes

section Threshold
variable {gross rewarded plain paid : UInt64}

-- The reward is paid out before the fee of its own output is taken from it, and
-- is too small for an output after.
@[grind cases eager] structure Oscillates (gross rewarded plain : UInt64) : Prop where
  without : U64.saturatingSub gross rewarded < minSafeLovelaceValue
  with_reward : minSafeLovelaceValue ≤ U64.saturatingSub gross plain

theorem sub_min (gross fee : UInt64) : gross - min fee gross = U64.saturatingSub gross fee := by
  apply UInt64.toNat_inj.mp
  rw [UInt64.toNat_sub_of_le _ _ Std.min_le_right,U64.toNat_saturatingSub,UInt64.toNat_min]
  omega

theorem nextPaid_min (fee : UInt64) : nextPaid gross rewarded plain (min fee gross) =
    min (shapeFee rewarded plain (U64.saturatingSub gross fee)) gross := by
  rw [nextPaid,sub_min]

theorem nextPaid_either : nextPaid gross rewarded plain paid = min rewarded gross ∨ nextPaid gross rewarded plain paid = min plain gross := by
  unfold nextPaid shapeFee
  split
  · exact .inl rfl
  · exact .inr rfl

theorem nextPaid_settles (calm : ¬Oscillates gross rewarded plain) (fee : paid = min rewarded gross ∨ paid = min plain gross) :
    nextPaid gross rewarded plain (nextPaid gross rewarded plain paid) = nextPaid gross rewarded plain paid := by
  have ofRewarded := @nextPaid_min gross rewarded plain rewarded
  have ofPlain := @nextPaid_min gross rewarded plain plain
  unfold shapeFee at ofRewarded ofPlain
  by_cases above : minSafeLovelaceValue ≤ U64.saturatingSub gross rewarded
  · grind
  · rw [if_neg above] at ofRewarded
    have low : ¬minSafeLovelaceValue ≤ U64.saturatingSub gross plain := fun high => calm ⟨UInt64.not_le.mp above,high⟩
    grind

theorem Oscillates.moves (swings : Oscillates gross rewarded plain) (member : paid ∈ payments gross rewarded plain) :
    nextPaid gross rewarded plain paid ≠ paid := by
  have differ : min rewarded gross ≠ min plain gross := by
    intro same
    have below := swings.without
    rw [← sub_min,same,sub_min] at below
    grind
  simp only [payments,List.mem_cons,List.not_mem_nil,or_false] at member
  rcases member with rfl | rfl | rfl
  · have above : minSafeLovelaceValue ≤ gross - 0 := by
      have high := UInt64.le_iff_toNat_le.mp swings.with_reward
      rw [U64.toNat_saturatingSub] at high
      rw [UInt64.sub_zero]
      exact UInt64.le_iff_toNat_le.mpr (Nat.le_trans high (Nat.sub_le _ _))
    rw [nextPaid,shapeFee,if_pos above]
    intro none
    have below := swings.without
    rw [← sub_min,none] at below
    exact UInt64.not_lt.mpr above below
  · rw [nextPaid_min,shapeFee,if_neg (UInt64.not_le.mpr swings.without)]
    exact differ.symm
  · rw [nextPaid_min,shapeFee,if_pos swings.with_reward]
    exact differ

end Threshold

theorem Shaped.Inv.start {T M D C : Type} {instructions : List (Execution T M (Bearer D))} {gross rewarded plain : UInt64} {ctx : C}
    (held : C → Prop) (holds : held ctx) (residual : Bool) :
    Shaped.Inv instructions held gross rewarded plain (.start residual ctx instructions : RecipeArgs T M D C) :=
  ⟨rfl,holds,rfl,List.mem_cons_self,List.mem_cons_self⟩

section Outcome
variable {T M D C F U : Type} [MarketTaker T U] [TakerBehaviour T] {env : RecipeContext T M D C F} {held : C → Prop} {force : Bool}
  {instructions : List (Execution T M (Bearer D))} {gross rewarded plain : UInt64} {ctx : C}

theorem Shaped.bounded (shaped : Shaped env instructions held force gross rewarded plain) (holds : held ctx)
    (calm : ¬Oscillates gross rewarded plain) (residual : Bool) : Bounded env (.start residual ctx instructions) := by
  obtain ⟨rebuilds,result,few,returns⟩ := shaped.advance (k := 2) (Shaped.Inv.start held holds residual) (by
    intro first inv paid
    apply shaped.advance inv
    intro second kept again
    refine shaped.settles kept ?_
    rw [again]
    refine nextPaid_settles calm ?_
    rw [paid]
    exact nextPaid_either)
  refine Bounded.of_returns rfl (Nat.le_trans few ?_) returns
  decide

theorem Shaped.swings (shaped : Shaped env instructions held force gross rewarded plain) (swings : Oscillates gross rewarded plain)
    (args : RecipeArgs T M D C) (inv : Shaped.Inv instructions held gross rewarded plain args) :
    ∃ next,env.executeRecipe args = some (.again next) ∧ Shaped.Inv instructions held gross rewarded plain next := by
  obtain ⟨next,turn,kept,_⟩ := shaped.pays inv (swings.moves inv.paid)
  exact ⟨next,turn,kept⟩

end Outcome

section Sample

def feeOrder (fee : UInt64) : GreenOrder :=
  Green.RawGreenIntent.order {ownerRaw 10 with intention:={(ownerRaw 10).intention with feeLovelace:=fee}}

def feeRecipe (fee : UInt64) : List (Instruction AlephAccountState) := ownerLinked [Green.sampleTake (feeOrder fee) 100 59] 100

-- 44 lovelace a byte, 65 bytes an output.
def sizedFee (txb : TransactionBuilder AlephAccountState) : Except String UInt64 :=
  .ok (.ofNat (155381 + 44 * (300 + 65 * txb.outputs.length)))

def feeContext : RecipeContext GreenOrder RoyaltyPool AlephAccountState (AccountIndex (TransactionOutput AlephAccountState))
    (EffectPreview AlephAccountState) where
  exec := greenExec ownerContext
  rules := ⟨fun _ _ => true,fun _ => true,fun _ => true⟩
  rewardAddress := [0x61]
  minFee := sizedFee
  funding := ⟨⟨[0x61],⟨10000000,∅⟩,none⟩,⟨Mpf.digestOf 5,2⟩⟩

def sampleEstimate (blueprint : TxBlueprint AlephAccountState) (interest reserve : UInt64) : Option UInt64 :=
  (blueprint.projectOntoBuilder feeContext.rules feeContext.rewardAddress feeContext.funding interest reserve).bind
    (fun projected => (sizedFee projected.1).toOption.map (· + additionalFee))

@[grind cases eager] structure SampleBuild (fee : UInt64) : Prop where
  index : (execute ownerContext (feeRecipe fee) ownerIndex).map Progress.index = some ownerIndex
  fees : (execute ownerContext (feeRecipe fee) ownerIndex).map (fun progress =>
    (progress.state.reservedTxFee,progress.state.operatorInterest,progress.state.txBlueprint.forcesOperatorFundingInput)) = some (0,fee,true)
  estimates : (payments fee 220021 217161).map (fun paid => (reserves fee 220021 217161).map (fun reserve =>
      (execute ownerContext (feeRecipe fee) ownerIndex).bind (fun progress => sampleEstimate progress.state.txBlueprint (fee - paid) reserve))) =
    (payments fee 220021 217161).map (fun paid => (reserves fee 220021 217161).map (fun _ => some (shapeFee 220021 217161 (fee - paid))))

theorem SampleBuild.shaped (sample : SampleBuild fee) :
    Shaped feeContext (feeRecipe fee) (· = ownerIndex) true fee 220021 217161 := by
  refine ⟨?_⟩
  rintro _ rfl
  obtain ⟨progress,executed,same⟩ := Option.map_eq_some_iff.mp sample.index
  have fees := sample.fees
  rw [executed] at fees
  obtain ⟨reserved,rest⟩ := Prod.mk.inj (Option.some.inj fees)
  obtain ⟨interest,forces⟩ := Prod.mk.inj rest
  refine ⟨progress.state,progress.effects,progress.index,?_,same,reserved,interest,forces,?_⟩
  · change (greenExec ownerContext).execute _ _ = _
    rw [greenExec_execute,executed]
    rfl
  · intro paid paidMember reserve reserveMember
    have estimate := List.map_inj_left.mp (List.map_inj_left.mp sample.estimates paid paidMember) reserve reserveMember
    rw [executed,Option.bind_some] at estimate
    obtain ⟨⟨builder,fundingIo⟩,projected,estimated⟩ := Option.bind_eq_some_iff.mp estimate
    exact ⟨builder,fundingIo,_,projected,rfl,Option.some.inj estimated⟩

theorem swinging_build : SampleBuild 1218000 := ⟨rfl,by decide,by decide⟩

theorem swinging : Oscillates 1218000 220021 217161 := ⟨by decide,by decide⟩

-- Interest at the threshold of the reward: the attempts swing between two
-- payments and the counter overflows.

theorem settling_build : SampleBuild 10 := ⟨rfl,by decide,by decide⟩

-- A taker that reserves the fee of the transaction.
def budgetContext : RecipeContext GreenOrder RoyaltyPool AlephAccountState Unit Unit where
  exec := ⟨fun _ state ctx => some ({state with reservedTxFee:=state.reservedTxFee + 300000},(),ctx),fun _ state ctx => some (state,(),ctx)⟩
  rules := feeContext.rules
  rewardAddress := feeContext.rewardAddress
  minFee := sizedFee
  funding := feeContext.funding

def budgetRecipe : List (Instruction AlephAccountState) := [.inl ⟨⟨feeOrder 10,Green.walletUtxo.finalizedOutput⟩,.succ (feeOrder 10)⟩]

theorem budget_operator (member : entry ∈ (operatorIo (D := D) false rewardAddress funding interest reserve).1) :
    ∃ spent output,entry = .operator spent output := by
  unfold operatorIo at member
  dsimp only at member
  grind

theorem budget_projects (interest : UInt64) :
    ((TxBlueprint.new : TxBlueprint AlephAccountState).projectOntoBuilder budgetContext.rules budgetContext.rewardAddress
      budgetContext.funding interest 0).isSome = true := by
  refine Option.isSome_iff_exists.mpr ⟨(_,_),(projectOntoBuilder_iff _ _ _ _ _ _ _ _).mpr ⟨none,rfl,?_,rfl,rfl⟩⟩
  intro entry member
  obtain ⟨spent,output,rfl⟩ := budget_operator ((TxBlueprint.allIo_perm _ _).mem_iff.mp member)
  exact ⟨fun _ _ => rfl,rfl⟩

theorem budget_held : Budgeted budgetContext (fun instructions _ => instructions = budgetRecipe) := by
  refine ⟨?_,?_⟩
  · rintro _ _ rfl
    refine ⟨_,_,_,rfl,rfl,?_,rfl,budget_projects⟩
    change (0 : UInt64) + 300000 ≠ 0
    decide
  · rintro _ _ rfl mismatch factor
    have same : balanceFee mismatch factor budgetRecipe = some budgetRecipe := by
      change some (correctBudgets _ budgetRecipe) = some budgetRecipe
      unfold budgetRecipe correctBudgets
      split <;> rfl
    exact ⟨_,_,_,rfl,same,rfl,rfl⟩

end Sample

end GreenAgent.Tx
