import GreenAgent.Mpf.Recorded
import GreenAgent.Book.Core
import GreenAgent.Green.Order

namespace GreenAgent.Green
open Mpf (Bytes)
open Account (AccountId AlephAccountAbi AlephIntention GreenOrderId)
open Book (Next TerminalTake TakeInProgress finalizeTake)

-- What the filling loop can make of an order: one trade or several.
inductive Traded (order : GreenOrder) : Next GreenOrder TerminalTake → Prop where
  | once (removed added : Nat) : Traded order (order.withAppliedTrade removed added)
  | again (prior : Traded order (.succ next)) (removed added : Nat) : Traded order (next.withAppliedTrade removed added)

@[grind cases eager] structure Executed (order : GreenOrder) (take : TakeInProgress GreenOrder) : Prop where
  traded : ∃ result excess, Traded order result ∧ take = finalizeTake ⟨order,result⟩ excess

-- The order the continuation scanner emits for a pending leaf.
def continuation (id : GreenOrderId) (accountId : AccountId) (proof : Bytes) (intent : AlephIntention) : GreenOrder where
  id := id
  accountId := accountId
  currentRemainder := intent.leavingAmount
  accumulatedOutput := 0
  intention := {
    inputAsset:=intent.leavingAsset,
    outputAsset:=intent.arrivingAsset,
    leavingAmount:=intent.leavingAmount,
    expectedArrivingAmount:=intent.expectedArrivingAmount,
    feeLovelace:=intent.feeLovelace,
    targetNonceSlot:=intent.targetNonceIndex,
    targetNonceValue:=intent.targetNonceValue,
    operatorKeyHash:=intent.operator}
  auth := .path proof

-- A sequence of executed takes that ends in a full fill. Each partial fill
-- leaves what `remaining_after_fill` computes, as a new order.
inductive Fills : GreenOrder → List (TakeInProgress GreenOrder) → Prop where
  | full (executed : Executed order take) (filled : take.result = .term terminal) : Fills order [take]
  | part (executed : Executed order take) (unfilled : take.result = .succ next) (abi : AlephAccountAbi)
      (remaining : remainingAfterFill {order.alephIntention with abi:=abi} (.ofNat take.removedInput) (.ofNat take.addedOutput) = some intent)
      (rest : Fills (continuation order.id order.accountId proof intent) takes) : Fills order (take :: takes)

def feeTaken (takes : List (TakeInProgress GreenOrder)) : Nat := (takes.map TakeInProgress.consumedFee).sum

-- The part of a fee that belongs to the amounts filled before the last one,
-- rounded up at every fill.
def feeShare (fee leaving : Nat) : List Nat → Nat
  | [] => 0
  | consumed :: rest =>
    let kept := (leaving - consumed) * fee / leaving
    fee - kept + feeShare kept (leaving - consumed) rest

def filledBefore (takes : List (TakeInProgress GreenOrder)) : List Nat := takes.dropLast.map TakeInProgress.removedInput

@[grind cases eager] structure FeeConserved (order : GreenOrder) (takes : List (TakeInProgress GreenOrder)) : Prop where
  enough : order.intention.feeLovelace.toNat ≤ feeTaken takes + takes.length
  not_more : feeTaken takes ≤ order.intention.feeLovelace.toNat + takes.length
  single : takes.length = 1 → feeTaken takes = order.intention.feeLovelace.toNat

theorem withOutputAdded_intention (order : GreenOrder) (added : Nat) : (order.withOutputAdded added).intention = order.intention := rfl

theorem tryTerminate_succ {order next : GreenOrder} : order.tryTerminate = .succ next ↔ order.currentRemainder ≠ 0 ∧ next = order := by
  unfold GreenOrder.tryTerminate
  split
  · grind
  grind

theorem tryTerminate_term {order : GreenOrder} : order.tryTerminate = .term terminal ↔ order.currentRemainder = 0 ∧
    terminal = ⟨0,order.accumulatedOutput.toNat,0,order.intention.feeLovelace.toNat⟩ := by
  unfold GreenOrder.tryTerminate
  split
  · grind
  grind

theorem withAppliedTrade_succ {order next : GreenOrder} (traded : order.withAppliedTrade removed added = .succ next) :
    next.intention = order.intention ∧ next.currentRemainder ≠ 0 := by
  obtain ⟨left,rfl⟩ := tryTerminate_succ.mp traded
  exact ⟨rfl,left⟩

theorem withAppliedTrade_term {order : GreenOrder} (traded : order.withAppliedTrade removed added = .term terminal) :
    terminal.remainingInput = 0 ∧ terminal.remainingFee = order.intention.feeLovelace.toNat := by
  obtain ⟨_,rfl⟩ := tryTerminate_term.mp traded
  exact ⟨rfl,rfl⟩

theorem Traded.succ {order next : GreenOrder} (traded : Traded order result) (left : result = .succ next) :
    next.intention = order.intention ∧ next.currentRemainder ≠ 0 := by
  induction traded generalizing next with
  | once removed added => exact withAppliedTrade_succ left
  | again _ removed added ih =>
    obtain ⟨same,nonzero⟩ := withAppliedTrade_succ left
    grind

theorem Traded.term {order : GreenOrder} (traded : Traded order result) (done : result = .term terminal) :
    terminal.remainingInput = 0 ∧ terminal.remainingFee = order.intention.feeLovelace.toNat := by
  cases traded with
  | once removed added => exact withAppliedTrade_term done
  | again prior removed added =>
    obtain ⟨input,fee⟩ := withAppliedTrade_term done
    exact ⟨input,fee.trans (by rw [(prior.succ rfl).1])⟩

theorem Executed.unfilled_fee {order next : GreenOrder} {take : TakeInProgress GreenOrder} (executed : Executed order take)
    (unfilled : take.result = .succ next) : take.target = order ∧ take.consumedFee = 0 := by
  obtain ⟨result,excess,traded,rfl⟩ := executed.traded
  refine ⟨rfl,?_⟩
  cases result with
  | term terminal => cases unfilled
  | succ middle =>
    obtain ⟨same,_⟩ := traded.succ rfl
    obtain ⟨_,rfl⟩ := tryTerminate_succ.mp unfilled
    have fee : (finalizeTake ⟨order,.succ middle⟩ excess).remainingFee = order.intention.feeLovelace.toNat := by
      unfold TakeInProgress.remainingFee
      rw [unfilled]
      exact congrArg (fun intention => intention.feeLovelace.toNat) same
    unfold TakeInProgress.consumedFee
    rw [fee]
    exact Nat.sub_self _

theorem operatorFee_toNat (order : GreenOrder) (consumed : UInt64) (positive : order.intention.leavingAmount.toNat ≠ 0) :
    (order.operatorFee consumed).toNat =
      min (order.intention.feeLovelace.toNat * consumed.toNat) U64.max / order.intention.leavingAmount.toNat := by
  unfold GreenOrder.operatorFee U64.checkedDiv
  rw [if_neg positive,Option.getD_some,UInt64.toNat_div,U64.toNat_saturatingMul]

theorem Executed.filled_fee {order : GreenOrder} {take : TakeInProgress GreenOrder} (executed : Executed order take)
    (filled : take.result = .term terminal) (fresh : order.currentRemainder = order.intention.leavingAmount)
    (positive : order.intention.leavingAmount.toNat ≠ 0) : take.consumedFee =
      min (order.intention.feeLovelace.toNat * order.intention.leavingAmount.toNat) U64.max / order.intention.leavingAmount.toNat := by
  obtain ⟨result,excess,traded,rfl⟩ := executed.traded
  cases result with
  | succ middle =>
    obtain ⟨_,left⟩ := traded.succ rfl
    exact absurd (tryTerminate_term.mp filled).1 left
  | term done =>
    obtain ⟨input,fee⟩ := traded.term rfl
    have removed : TakeInProgress.removedInput (⟨order,.term done⟩ : TakeInProgress GreenOrder) = order.currentRemainder.toNat := by
      change order.currentRemainder.toNat - done.remainingInput = _
      rw [input]
      exact Nat.sub_zero _
    have charged := operatorFee_toNat order (.ofNat order.currentRemainder.toNat) positive
    rw [UInt64.ofNat_toNat,fresh] at charged
    have bounded : min (order.intention.feeLovelace.toNat * order.intention.leavingAmount.toNat) U64.max / order.intention.leavingAmount.toNat
        ≤ order.intention.feeLovelace.toNat :=
      Nat.div_le_of_le_mul (Nat.mul_comm _ _ ▸ Nat.min_le_left ..)
    change order.intention.feeLovelace.toNat - (done.remainingFee - (order.operatorFee (.ofNat _)).toNat) = _
    rw [removed,fresh,UInt64.ofNat_toNat,fee,charged]
    omega

theorem remainingAfterFill_fee {intent next : AlephIntention} {consumed : UInt64}
    (remaining : remainingAfterFill intent consumed added = some next) :
    next.leavingAmount.toNat = intent.leavingAmount.toNat - consumed.toNat ∧ next.leavingAmount.toNat ≠ 0 ∧
      next.feeLovelace.toNat = next.leavingAmount.toNat * intent.feeLovelace.toNat / intent.leavingAmount.toNat ∧
      next.feeLovelace.toNat ≤ intent.feeLovelace.toNat ∧ next.feeLovelace.toNat * next.leavingAmount.toNat ≤ U64.max := by
  obtain ⟨left,subtracted,remaining⟩ := Option.bind_eq_some_iff.mp remaining
  obtain ⟨_,value⟩ := U64.checkedSub_some.mp subtracted
  split at remaining
  · cases remaining
  · rename_i nonzero
    obtain ⟨product,multiplied,remaining⟩ := Option.bind_eq_some_iff.mp remaining
    obtain ⟨fee,divided,remaining⟩ := Option.bind_eq_some_iff.mp remaining
    obtain ⟨expected,_,remaining⟩ := Option.bind_eq_some_iff.mp remaining
    cases remaining
    have product_value := U64.checkedMul_some.mp multiplied
    obtain ⟨_,fee_value⟩ := U64.checkedDiv_some.mp divided
    rw [product_value] at fee_value
    have smaller : fee.toNat ≤ intent.feeLovelace.toNat := by
      rw [fee_value]
      exact Nat.div_le_of_le_mul (Nat.mul_le_mul_right _ (by omega))
    refine ⟨value,?_,fee_value,smaller,?_⟩
    · intro zero
      exact nonzero (UInt64.toNat_inj.mp zero)
    · calc fee.toNat * left.toNat ≤ intent.feeLovelace.toNat * left.toNat := Nat.mul_le_mul_right _ smaller
        _ = product.toNat := by rw [product_value,Nat.mul_comm]
        _ ≤ U64.max := U64.le_max product

-- What a partial fill leaves is defined exactly if the fee of the rest can be
-- computed in 64 bits and the fill brought no more than was asked for.
theorem remainingAfterFill_some {intent : AlephIntention} {consumed added : UInt64} (part : consumed.toNat < intent.leavingAmount.toNat) :
    (remainingAfterFill intent consumed added).isSome = true ↔
      (intent.leavingAmount.toNat - consumed.toNat) * intent.feeLovelace.toNat ≤ U64.max ∧ added.toNat ≤ intent.expectedArrivingAmount.toNat := by
  have subtracted : U64.checkedSub intent.leavingAmount consumed = some (intent.leavingAmount - consumed) := if_pos part.le
  have value := (U64.checkedSub_some.mp subtracted).2
  have nonzero : ¬intent.leavingAmount - consumed = 0 := by grind
  have positive : ¬intent.leavingAmount.toNat = 0 := by omega
  unfold remainingAfterFill
  rw [subtracted]
  simp only [Option.bind_eq_bind,Option.bind_some,if_neg nonzero]
  unfold U64.checkedMul U64.checkedDiv U64.checkedSub
  grind

-- A fill that respects the limit.
@[grind cases eager] structure Limited (intent : AlephIntention) (consumed added : UInt64) : Prop where
  some_consumed : 0 < consumed.toNat
  part : consumed.toNat < intent.leavingAmount.toNat
  limit : intent.expectedArrivingAmount.toNat * consumed.toNat ≤ added.toNat * intent.leavingAmount.toNat

theorem remainder_iff {intent : AlephIntention} {consumed added : UInt64} (limited : Limited intent consumed added) :
    (∃ rest,remainingAfterFill intent consumed added = some rest ∧ rest.leavingAmount.toNat = intent.leavingAmount.toNat - consumed.toNat ∧
      intent.expectedArrivingAmount.toNat ≤ added.toNat + rest.expectedArrivingAmount.toNat) ↔
    (intent.leavingAmount.toNat - consumed.toNat) * intent.feeLovelace.toNat ≤ U64.max ∧ added.toNat ≤ intent.expectedArrivingAmount.toNat := by
  rw [← remainingAfterFill_some limited.part,Option.isSome_iff_exists]
  constructor
  · rintro ⟨rest,found,_⟩
    exact ⟨rest,found⟩
  · rintro ⟨rest,found⟩
    refine ⟨rest,found,(remainingAfterFill_fee found).1,?_⟩
    obtain ⟨left,_,found⟩ := Option.bind_eq_some_iff.mp found
    split at found
    · cases found
    · obtain ⟨product,_,found⟩ := Option.bind_eq_some_iff.mp found
      obtain ⟨fee,_,found⟩ := Option.bind_eq_some_iff.mp found
      obtain ⟨expected,less,found⟩ := Option.bind_eq_some_iff.mp found
      cases found
      obtain ⟨_,value⟩ := U64.checkedSub_some.mp less
      change _ ≤ added.toNat + expected.toNat
      omega

theorem Fills.nonempty (fills : Fills order takes) : takes ≠ [] := by
  cases fills <;> exact List.cons_ne_nil _ _

theorem Executed.removed_small {order : GreenOrder} {take : TakeInProgress GreenOrder} (executed : Executed order take) :
    (UInt64.ofNat take.removedInput).toNat = take.removedInput := by
  obtain ⟨result,excess,_,rfl⟩ := executed.traded
  refine U64.toNat_ofNat _ (le_trans ?_ (U64.le_max order.currentRemainder))
  cases result <;> exact Nat.sub_le _ _

theorem Fills.fee {order : GreenOrder} (fills : Fills order takes) (fresh : order.currentRemainder = order.intention.leavingAmount)
    (positive : order.intention.leavingAmount.toNat ≠ 0)
    (small : takes.length = 1 → order.intention.feeLovelace.toNat * order.intention.leavingAmount.toNat ≤ U64.max) :
    feeTaken takes + feeShare order.intention.feeLovelace.toNat order.intention.leavingAmount.toNat (filledBefore takes) =
      order.intention.feeLovelace.toNat := by
  induction fills with
  | full executed filled =>
    have taken := executed.filled_fee filled fresh positive
    rw [Nat.min_eq_left (small rfl),Nat.mul_div_cancel _ (Nat.pos_of_ne_zero positive)] at taken
    tauto
  | @part order take next intent proof takes executed unfilled abi remaining rest ih =>
    obtain ⟨left,nonzero,kept,smaller,product⟩ := remainingAfterFill_fee remaining
    rw [executed.removed_small] at left
    have later := ih rfl nonzero (fun _ => product)
    change feeTaken takes + feeShare intent.feeLovelace.toNat intent.leavingAmount.toNat (filledBefore takes) = intent.feeLovelace.toNat at later
    have before : filledBefore (take :: takes) = take.removedInput :: filledBefore takes := by
      unfold filledBefore
      rw [List.dropLast_cons_of_ne_nil rest.nonempty,List.map_cons]
    have first : feeTaken (take :: takes) = feeTaken takes := by
      simp only [feeTaken,List.map_cons,List.sum_cons,(executed.unfilled_fee unfilled).2,Nat.zero_add]
    change intent.leavingAmount.toNat = order.intention.leavingAmount.toNat - take.removedInput at left
    change intent.feeLovelace.toNat = intent.leavingAmount.toNat * order.intention.feeLovelace.toNat / order.intention.leavingAmount.toNat at kept
    change intent.feeLovelace.toNat ≤ order.intention.feeLovelace.toNat at smaller
    rw [first,before]
    unfold feeShare
    grind

theorem saturated_fee_exact (fee : Nat) {leaving : Nat} (positive : leaving ≠ 0) :
    min (fee * leaving) U64.max / leaving = fee ↔ fee * leaving ≤ U64.max := by
  constructor
  · intro whole
    by_contra large
    rw [Nat.min_eq_right (by omega)] at whole
    have short : U64.max / leaving < fee := Nat.div_lt_of_lt_mul (by rw [Nat.mul_comm]; omega)
    omega
  simp_all

theorem Fills.single_small {order : GreenOrder} (fills : Fills order takes) (fresh : order.currentRemainder = order.intention.leavingAmount)
    (positive : order.intention.leavingAmount.toNat ≠ 0) (single : takes.length = 1)
    (whole : feeTaken takes = order.intention.feeLovelace.toNat) :
    order.intention.feeLovelace.toNat * order.intention.leavingAmount.toNat ≤ U64.max := by
  cases fills with
  | full executed filled =>
    simp only [feeTaken,List.map_cons,List.map_nil,List.sum_cons,List.sum_nil,Nat.add_zero] at whole
    exact (saturated_fee_exact _ positive).mp ((executed.filled_fee filled fresh positive).symm.trans whole)
  | part executed unfilled abi remaining rest =>
    exact absurd (List.length_eq_zero_iff.mp (Nat.succ.inj single)) rest.nonempty

theorem fee_conserved_iff {order : GreenOrder} (fresh : order.currentRemainder = order.intention.leavingAmount)
    (positive : 0 < order.intention.leavingAmount.toNat) (fills : Fills order takes) :
    FeeConserved order takes ↔
      (takes.length = 1 → order.intention.feeLovelace.toNat * order.intention.leavingAmount.toNat ≤ U64.max) ∧
      feeShare order.intention.feeLovelace.toNat order.intention.leavingAmount.toNat (filledBefore takes) ≤ takes.length := by
  have nonzero : order.intention.leavingAmount.toNat ≠ 0 := Nat.ne_of_gt positive
  constructor
  · intro conserved
    have small : takes.length = 1 → order.intention.feeLovelace.toNat * order.intention.leavingAmount.toNat ≤ U64.max :=
      fun single => fills.single_small fresh nonzero single (conserved.single single)
    have total := fills.fee fresh nonzero small
    have enough := conserved.enough
    exact ⟨small,by omega⟩
  · rintro ⟨small,shares⟩
    have total := fills.fee fresh nonzero small
    refine ⟨by omega,by omega,fun single => ?_⟩
    have none_before : filledBefore takes = [] := by
      unfold filledBefore
      rw [List.map_eq_nil_iff,← List.length_eq_zero_iff,List.length_dropLast]
      omega
    rw [none_before] at total
    exact total

-- 100 lovelace against 50 tokens, for a fee of 10.
def sampleOrder : GreenOrder :=
  continuation ⟨⟨Mpf.digestOf 1⟩,0,1,Mpf.digestOf 10⟩ ⟨Mpf.digestOf 1⟩ []
    ⟨.current,0,1,.native,100,.token ⟨.filled 1,[0x41]⟩,50,10,.filled 0⟩

def sampleTake (order : GreenOrder) (removed added : Nat) : TakeInProgress GreenOrder :=
  finalizeTake ⟨order,order.withAppliedTrade removed added⟩ 0

theorem sampleTake_executed (order : GreenOrder) (removed added : Nat) : Executed order (sampleTake order removed added) :=
  ⟨_,0,.once removed added,rfl⟩

theorem sampleOrder_filled : (sampleTake sampleOrder 100 60).result = .term ⟨0,60,0,0⟩ := by decide

theorem fee_conserved_at_once : FeeConserved sampleOrder [sampleTake sampleOrder 100 60] :=
  (fee_conserved_iff rfl (by decide) (.full (sampleTake_executed _ _ _) sampleOrder_filled)).mpr ⟨by decide,by decide⟩

-- What a fill of one half leaves.
def halfIntent : AlephIntention :=
  {sampleOrder.alephIntention with leavingAmount:=50,expectedArrivingAmount:=20,feeLovelace:=5}

def halfOrder : GreenOrder := continuation sampleOrder.id sampleOrder.accountId [] halfIntent

theorem fee_lost_on_halves : Fills sampleOrder [sampleTake sampleOrder 50 30,sampleTake halfOrder 50 30] ∧
    ¬FeeConserved sampleOrder [sampleTake sampleOrder 50 30,sampleTake halfOrder 50 30] := by
  constructor
  · have left : remainingAfterFill sampleOrder.alephIntention 50 30 = some halfIntent := by decide
    have filled : (sampleTake halfOrder 50 30).result = .term ⟨0,30,0,0⟩ := by decide
    exact .part (sampleTake_executed _ _ _) rfl .current left (.full (sampleTake_executed _ _ _) filled)
  · intro conserved
    have enough := conserved.enough
    revert enough
    decide

theorem remainder_half : ∃ rest,remainingAfterFill sampleOrder.alephIntention 50 30 = some rest ∧
    rest.leavingAmount.toNat = sampleOrder.alephIntention.leavingAmount.toNat - (50 : UInt64).toNat ∧
    sampleOrder.alephIntention.expectedArrivingAmount.toNat ≤ (30 : UInt64).toNat + rest.expectedArrivingAmount.toNat :=
  (remainder_iff ⟨by decide,by decide,by decide⟩).mpr ⟨by decide,by decide⟩

def expensiveIntent : AlephIntention := {sampleOrder.alephIntention with leavingAmount:=10000000000,feeLovelace:=4000000000}

-- More than the whole expected amount for a part of the input, and a fee whose
-- product with the rest passes 64 bits.
theorem remainder_missing :
    (Limited sampleOrder.alephIntention 99 51 ∧ remainingAfterFill sampleOrder.alephIntention 99 51 = none) ∧
    Limited expensiveIntent 1000000000 50 ∧ remainingAfterFill expensiveIntent 1000000000 50 = none :=
  ⟨⟨⟨by decide,by decide,by decide⟩,by decide⟩,⟨by decide,by decide,by decide⟩,by decide⟩

end GreenAgent.Green
