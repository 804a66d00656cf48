import GreenAgent.Tx.FeeCorrection
import GreenAgent.Tx.Budgets

namespace GreenAgent.Tx
open Engine (Bundled Execution)
open Book (Trans TerminalTake MarketTaker TakerBehaviour)
open Cardano (TransactionOutput)

section Reserved
variable {T M D C F U : Type} [MarketTaker T U] {exec : BatchExec T M D C F} {instructions : List (Execution T M (Bearer D))}

-- `add_tx_fee` of the budgets that the takes consume. The sum wraps around.
def reservedFee : List (Execution T M (Bearer D)) → UInt64
  | [] => 0
  | .inl take :: rest => .ofNat ((consumedBudget take).getD 0) + reservedFee rest
  | .inr _ :: rest => reservedFee rest

-- What every order type does: a take reserves the budget it consumes, a make
-- reserves nothing.
@[grind cases eager] structure ReservesBudget (exec : BatchExec T M D C F) : Prop where
  take : ∀ trade state ctx next effect after,exec.take trade state ctx = some (next,effect,after) →
    next.reservedTxFee = state.reservedTxFee + .ofNat ((consumedBudget trade).getD 0)
  make : ∀ trade state ctx next effect after,exec.make trade state ctx = some (next,effect,after) → next.reservedTxFee = state.reservedTxFee

theorem ReservesBudget.fold (reserves : ReservesBudget exec) {before after : ExecutionState D × List F × C}
    (ran : instructions.foldlM exec.execInstruction before = some after) :
    after.1.reservedTxFee = before.1.reservedTxFee + reservedFee instructions := by
  induction instructions generalizing before with
  | nil =>
    cases ran
    exact (UInt64.add_zero _).symm
  | cons instruction rest ih =>
    obtain ⟨middle,first,ran⟩ := Option.bind_eq_some_iff.mp ran
    rw [ih ran]
    cases instruction with
    | inl trade =>
      obtain ⟨⟨state,effect,ctx⟩,executes,same⟩ := Option.bind_eq_some_iff.mp first
      cases same
      rw [reserves.take _ _ _ _ _ _ executes,UInt64.add_assoc]
      rfl
    | inr trade =>
      obtain ⟨⟨state,effect,ctx⟩,executes,same⟩ := Option.bind_eq_some_iff.mp first
      cases same
      rw [reserves.make _ _ _ _ _ _ executes]
      rfl

theorem ReservesBudget.execute (reserves : ReservesBudget exec) (ran : exec.execute instructions ctx = some (state,effects,after)) :
    state.reservedTxFee = reservedFee instructions := by
  have sum := reserves.fold ran
  rw [sum]
  exact UInt64.zero_add _

end Reserved

section Decisions
variable {takeResidual rebuilt : Bool} {mismatch : Int64} {reserved residue after : UInt64}

theorem decide_same (decided : decideFeeCorrection takeResidual mismatch reserved residue = .rebuildSameRecipe rebuilt after) :
    0 < mismatch ∧ rebuilt = true ∧ after = residue + unsignedAbs mismatch ∨
      0 < residue ∧ rebuilt = takeResidual ∧ after = residue - min (unsignedAbs mismatch) residue := by
  unfold decideFeeCorrection at decided
  split at decided
  · cases decided
  grind

theorem decide_rebalanced (decided : decideFeeCorrection takeResidual mismatch reserved residue = .rebuildRebalancedRecipe rebuilt after) :
    (takeResidual = false ∨ residue = 0) ∧ after = residue := by
  unfold decideFeeCorrection at decided
  split at decided
  · cases decided
  · rename_i differs
    split at decided
    · cases decided
    grind

-- With an estimate below half the range a mismatch is positive only if the fee
-- that is left covers the estimate.
theorem residue_grows {estimated : UInt64} (covered : residue ≤ reserved) (small : estimated.toNat < 2^63)
    (positive : 0 < (reserved - residue).toInt64 - estimated.toInt64) :
    residue + unsignedAbs ((reserved - residue).toInt64 - estimated.toInt64) ≤ reserved := by
  rw [← UInt64.toInt64_sub] at positive ⊢
  have half : 2 * (reserved - residue - estimated).toNat < 2^64 := by
    have above := Int64.lt_iff_toInt_lt.mp positive
    change (0 : Int) < (reserved - residue - estimated).toBitVec.toInt at above
    rw [BitVec.toInt_eq_toNat_cond] at above
    split at above
    · rename_i half
      exact half
    omega
  have magnitude : unsignedAbs (reserved - residue - estimated).toInt64 = reserved - residue - estimated := by
    unfold unsignedAbs
    rw [if_neg (fun negative => absurd (Int64.lt_iff_toInt_lt.mp negative) (Int.not_lt.mpr (Int.le_of_lt (Int64.lt_iff_toInt_lt.mp positive))))]
    exact UInt64.toUInt64_toInt64 _
  rw [magnitude]
  have left := UInt64.toNat_sub_of_le _ _ covered
  have bounded := UInt64.le_iff_toNat_le.mp covered
  have sum : (reserved - residue - estimated).toNat + estimated.toNat = reserved.toNat - residue.toNat := by
    have whole : reserved - residue - estimated + estimated = reserved - residue := UInt64.sub_add_cancel _ _
    have value := congrArg UInt64.toNat whole
    rw [UInt64.toNat_add,Nat.mod_eq_of_lt (by omega),left] at value
    exact value
  apply UInt64.le_iff_toNat_le.mpr
  have top := reserved.toNat_lt
  rw [UInt64.toNat_add,Nat.mod_eq_of_lt (by omega)]
  omega

theorem residue_shrinks (covered : residue ≤ reserved) (amount : UInt64) : residue - min amount residue ≤ reserved := by
  refine UInt64.le_trans (UInt64.le_iff_toNat_le.mpr ?_) covered
  rw [UInt64.toNat_sub_of_le _ _ Std.min_le_right]
  exact Nat.sub_le _ _

end Decisions

section Attempts
variable {T M D C F U : Type} [MarketTaker T U] {env : RecipeContext T M D C F} {args next : RecipeArgs T M D C} {built : Build D C F}

@[grind cases eager] structure Residue (args : RecipeArgs T M D C) : Prop where
  off : args.takeResidualFee = false → args.accumulatedResidue = 0
  covered : args.accumulatedResidue ≤ reservedFee args.instructions

theorem build_reserved (reserves : ReservesBudget env.exec) (builds : env.build args = some built) :
    built.state.reservedTxFee = reservedFee args.instructions := by
  obtain ⟨⟨state,effects,ctx⟩,executes,rest⟩ := Option.bind_eq_some_iff.mp builds
  obtain ⟨⟨builder,fundingIo⟩,_,same⟩ := Option.bind_eq_some_iff.mp rest
  cases same
  exact reserves.execute executes

theorem Residue.corrected {estimated : UInt64} (residue : Residue args) (reserved : built.state.reservedTxFee = reservedFee args.instructions)
    (small : estimated.toNat < 2^63) (corrected : Corrected built estimated args next) : Residue next := by
  cases corrected with
  | paid fee => exact ⟨residue.off,residue.covered⟩
  | reserve fee => exact ⟨residue.off,residue.covered⟩
  | same decided =>
    rcases decide_same decided with ⟨positive,rfl,rfl⟩ | ⟨some,rfl,rfl⟩
    · refine ⟨nofun,?_⟩
      unfold Build.feeMismatch at positive ⊢
      rw [reserved] at positive ⊢
      exact residue_grows residue.covered small positive
    · refine ⟨?_,residue_shrinks residue.covered _⟩
      grind
  | rebalanced decided =>
    obtain ⟨cause,rfl⟩ := decide_rebalanced decided
    have none : args.accumulatedResidue = 0 := cause.elim residue.off id
    refine ⟨fun _ => none,?_⟩
    grind

variable [TakerBehaviour T]

-- The estimates of a run need not come from one function of the transaction.
inductive Attempted (env : RecipeContext T M D C F) : RecipeArgs T M D C → Prop where
  | start : Attempted env (.start takeResidual ctx instructions)
  | again (minFee : TransactionBuilder D → Except String UInt64)
      (small : ∀ builder fee,minFee builder = .ok fee → (fee + additionalFee).toNat < 2^63) : Attempted env current →
      RecipeContext.executeRecipe {env with minFee:=minFee} current = some (.again following) → Attempted env following

theorem Attempted.residue (reserves : ReservesBudget env.exec) (attempted : Attempted env args) : Residue args := by
  induction attempted with
  | start => exact ⟨fun _ => rfl,UInt64.zero_le⟩
  | @again current _ minFee small _ turn ih =>
    obtain ⟨built,fee,builds,estimates,corrected⟩ := executeRecipe_again turn
    have reserved := build_reserved reserves builds
    have kept : Residue {current with ctx:=built.executed.ctx} := ⟨ih.off,ih.covered⟩
    exact kept.corrected reserved (small _ _ estimates) corrected

theorem residue_within_reserved (reserves : ReservesBudget env.exec) (attempted : Attempted env args) :
    (∀ built,env.build args = some built → args.accumulatedResidue ≤ built.state.reservedTxFee) ∧
    (args.takeResidualFee = false → args.accumulatedResidue = 0) ∧
    ∀ built estimated takeResidual residue,env.build args = some built →
      decideFeeCorrection args.takeResidualFee (built.feeMismatch estimated args.accumulatedResidue) built.state.reservedTxFee
        args.accumulatedResidue = .rebuildRebalancedRecipe takeResidual residue → args.accumulatedResidue = 0 ∧ residue = 0 := by
  have residue := attempted.residue reserves
  refine ⟨?_,residue.off,?_⟩
  · intro built builds
    rw [build_reserved reserves builds]
    exact residue.covered
  · intro built estimated takeResidual carried builds decided
    obtain ⟨cause,same⟩ := decide_rebalanced decided
    have none := cause.elim residue.off id
    exact ⟨none,same.trans none⟩

end Attempts

section Sample

def residueContext : RecipeContext BudgetOrder Unit Unit Unit Unit where
  exec := ⟨fun trade state ctx => some ({state with reservedTxFee:=state.reservedTxFee + .ofNat (consumedOf trade)},(),ctx),
    fun _ state ctx => some (state,(),ctx)⟩
  rules := ⟨fun _ _ => true,fun _ => true,fun _ => true⟩
  rewardAddress := [0x61]
  minFee := fun _ => .ok 168581
  funding := ⟨⟨[0x61],⟨10000000,∅⟩,none⟩,⟨Mpf.digestOf 5,2⟩⟩

def residueRecipe : List (Execution BudgetOrder Unit (Bearer Unit)) := [.inl ⟨⟨⟨500000⟩,residueContext.funding⟩,.term ⟨0,0,200000,0⟩⟩]

theorem residue_reserves : ReservesBudget residueContext.exec where
  take _ _ _ _ _ _ executes := by
    cases executes
    rfl
  make _ _ _ _ _ _ executes := by
    cases executes
    rfl

-- Of 300000 reserved 208581 are needed: the rest is kept as residue.
theorem residue_kept : ∃ args : RecipeArgs BudgetOrder Unit Unit Unit,Attempted residueContext args ∧ args.accumulatedResidue = 91419 ∧
    ∀ built,residueContext.build args = some built → args.accumulatedResidue ≤ built.state.reservedTxFee := by
  have turn : ∃ next,residueContext.executeRecipe (.start true () residueRecipe) = some (.again next) ∧ next.accumulatedResidue = 91419 := by
    refine ⟨_,rfl,?_⟩
    decide +kernel
  obtain ⟨next,again,kept⟩ := turn
  have small : ∀ builder fee,residueContext.minFee builder = .ok fee → (fee + additionalFee).toNat < 2^63 := by
    intro _ _ same
    cases same
    decide
  have attempted : Attempted residueContext next := .again residueContext.minFee small .start again
  exact ⟨next,attempted,kept,(residue_within_reserved residue_reserves attempted).1⟩

end Sample

end GreenAgent.Tx
