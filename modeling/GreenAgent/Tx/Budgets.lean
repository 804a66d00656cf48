import GreenAgent.Tx.Interpreter

namespace GreenAgent.Tx
open Engine (Bundled Execution)
open Book (Trans Next TerminalTake TakeInProgress MarketTaker TakerBehaviour)

section Takes
variable {T M B U : Type} [MarketTaker T U] {trade : Trans (Bundled T B) T TerminalTake}

-- The budget that is left is cut off at zero, what is reported is what changed,
-- and nothing else changes.
@[grind cases eager] structure Clamps (T : Type) [MarketTaker T U] [TakerBehaviour T] : Prop where
  budget : ∀ (next : T) (delta : Int),
    (MarketTaker.budget (TakerBehaviour.withBudgetCorrected next delta).2 : Int) = max (MarketTaker.budget next + delta) 0
  reported : ∀ (next : T) (delta : Int),(TakerBehaviour.withBudgetCorrected next delta).1 =
    MarketTaker.budget (TakerBehaviour.withBudgetCorrected next delta).2 - MarketTaker.budget next
  input : ∀ (next : T) (delta : Int),MarketTaker.input (TakerBehaviour.withBudgetCorrected next delta).2 = MarketTaker.input next
  output : ∀ (next : T) (delta : Int),MarketTaker.output (TakerBehaviour.withBudgetCorrected next delta).2 = MarketTaker.output next
  fee : ∀ (next : T) (delta : Int),MarketTaker.fee (TakerBehaviour.withBudgetCorrected next delta).2 = MarketTaker.fee next

def unlinked (trade : Trans (Bundled T B) T TerminalTake) : TakeInProgress T := ⟨trade.target.entity,trade.result⟩

def budgetOf (trade : Trans (Bundled T B) T TerminalTake) : Nat := MarketTaker.budget trade.target.entity

def consumedOf (trade : Trans (Bundled T B) T TerminalTake) : Nat := (consumedBudget trade).getD 0

-- The same trade with another budget left, at most the one it began with.
@[grind cases eager] structure SameTrade (before after : Trans (Bundled T B) T TerminalTake) : Prop where
  target : after.target = before.target
  input : (unlinked after).remainingInput = (unlinked before).remainingInput
  output : (unlinked after).accumulatedOutput = (unlinked before).accumulatedOutput
  fee : (unlinked after).remainingFee = (unlinked before).remainingFee
  within : budgetLeft after.result ≤ budgetOf after

theorem consumedOf_within (within : budgetLeft trade.result ≤ budgetOf trade) : consumedOf trade + budgetLeft trade.result = budgetOf trade := by
  have value : consumedOf trade = budgetOf trade - budgetLeft trade.result := by
    unfold consumedOf consumedBudget Book.checkedSub
    rw [show MarketTaker.budget trade.target.entity = budgetOf trade from rfl,if_pos within]
    rfl
  omega

-- Going from one instruction to the next one only budgets change.
inductive Rebudgeted : Execution T M B → Execution T M B → Prop where
  | take : SameTrade before after → Rebudgeted (.inl before) (.inl after)
  | make : Rebudgeted (.inr make) (.inr make)

def trades (instructions : List (Execution T M B)) : List (Trans (Bundled T B) T TerminalTake) := instructions.filterMap Sum.getLeft?

def totalConsumed (instructions : List (Execution T M B)) : Nat := ((trades instructions).map consumedOf).sum

def totalBudget (instructions : List (Execution T M B)) : Nat := ((trades instructions).map budgetOf).sum

def Within (instructions : List (Execution T M B)) : Prop := ∀ trade ∈ trades instructions,budgetLeft trade.result ≤ budgetOf trade

theorem Within.same {instructions : List (Execution T M B)} (within : Within instructions) : List.Forall₂ Rebudgeted instructions instructions := by
  induction instructions with
  | nil => exact .nil
  | cons instruction rest ih =>
    cases instruction with
    | inl trade =>
      obtain ⟨own,later⟩ := List.forall_mem_cons.mp within
      exact .cons (.take ⟨rfl,rfl,rfl,rfl,own⟩) (ih later)
    | inr make => exact .cons .make (ih within)

theorem Within.total {instructions : List (Execution T M B)} (within : Within instructions) : totalConsumed instructions ≤ totalBudget instructions := by
  refine List.sum_le_sum (fun trade member => ?_)
  have split := consumedOf_within (within trade member)
  omega

variable [TakerBehaviour T]

theorem withBudgetCorrected_left (clamps : Clamps T) (result : Next T TerminalTake) (delta : Int64) :
    (budgetLeft (withBudgetCorrected delta result).2 : Int) = max (budgetLeft result + delta.toInt) 0 ∧
      (withBudgetCorrected delta result).1 = .ofInt (budgetLeft (withBudgetCorrected delta result).2 - budgetLeft result) := by
  cases result with
  | succ next => exact ⟨clamps.budget next _,congrArg Int64.ofInt (clamps.reported next _)⟩
  | term term =>
    have cut : ((max ((term.remainingBudget : Int) + delta.toInt) 0).toNat : Int) = max (term.remainingBudget + delta.toInt) 0 :=
      Int.toNat_of_nonneg (le_max_right _ _)
    refine ⟨cut,?_⟩
    change Int64.ofInt (max ((term.remainingBudget : Int) + delta.toInt) 0 - term.remainingBudget) =
      Int64.ofInt (((max ((term.remainingBudget : Int) + delta.toInt) 0).toNat : Int) - term.remainingBudget)
    rw [cut]

theorem correctConsumedBudget_trade (clamps : Clamps T) (delta : Int64)
    (within : budgetLeft (correctConsumedBudget delta trade).2.result ≤ budgetOf trade) : SameTrade trade (correctConsumedBudget delta trade).2 := by
  obtain ⟨target,result⟩ := trade
  cases result with
  | succ next => exact ⟨rfl,clamps.input next _,clamps.output next _,clamps.fee next _,within⟩
  | term term => exact ⟨rfl,rfl,rfl,rfl,within⟩

theorem correctConsumedBudget_moves (clamps : Clamps T) (within : budgetLeft trade.result ≤ budgetOf trade) {delta : Int64} {change : Int}
    (exact_change : (-delta).toInt = -change) (enough : 0 ≤ consumedOf trade + change) :
    SameTrade trade (correctConsumedBudget delta trade).2 ∧
      (consumedOf (correctConsumedBudget delta trade).2 : Int) = min (consumedOf trade + change) (budgetOf trade) ∧
      (correctConsumedBudget delta trade).1 = .ofInt (consumedOf (correctConsumedBudget delta trade).2 - consumedOf trade) := by
  obtain ⟨left,reported⟩ := withBudgetCorrected_left clamps trade.result (-delta)
  have before := consumedOf_within within
  rw [exact_change] at left
  have still : budgetLeft (correctConsumedBudget delta trade).2.result ≤ budgetOf (correctConsumedBudget delta trade).2 := by
    change budgetLeft (withBudgetCorrected (-delta) trade.result).2 ≤ budgetOf trade
    omega
  have after := consumedOf_within still
  change _ + budgetLeft (withBudgetCorrected (-delta) trade.result).2 = budgetOf trade at after
  refine ⟨correctConsumedBudget_trade clamps delta still,?_,?_⟩
  · omega
  · change -(withBudgetCorrected (-delta) trade.result).1 = _
    rw [reported,← Int64.ofInt_neg]
    congr 1
    omega

def scaledBy (scale : FeeRatio) (trade : Trans (Bundled T B) T TerminalTake) : Nat :=
  consumedOf trade * scale.numer.toNat / scale.denom.toNat

-- What scaling needs of a take: products of `u64`, differences of `i64`.
@[grind cases eager] structure Scalable (scale : FeeRatio) (trade : Trans (Bundled T B) T TerminalTake) : Prop where
  within : budgetLeft trade.result ≤ budgetOf trade
  budget : budgetOf trade < 2^64
  product : consumedOf trade * scale.numer.toNat < 2^64
  lower : -2^63 ≤ (consumedOf trade : Int) - scaledBy scale trade
  upper : (consumedOf trade : Int) - scaledBy scale trade < 2^63

theorem scaleConsumedBudget_moves (clamps : Clamps T) {scale : FeeRatio} (scalable : Scalable scale trade) :
    ∃ delta after,scaleConsumedBudget scale trade = some (delta,after) ∧ SameTrade trade after ∧
      consumedOf after = min (scaledBy scale trade) (budgetOf trade) ∧ delta = .ofInt (consumedOf after - consumedOf trade) := by
  have split := consumedOf_within scalable.within
  have found : consumedBudget trade = some (consumedOf trade) := by
    unfold consumedOf consumedBudget Book.checkedSub
    rw [show MarketTaker.budget trade.target.entity = budgetOf trade from rfl,if_pos scalable.within]
    rfl
  have size := scalable.budget
  have old : (UInt64.ofNat (consumedOf trade)).toNat = consumedOf trade := UInt64.toNat_ofNat_of_lt' (show consumedOf trade < 2^64 by omega)
  have new : UInt64.ofNat (consumedOf trade) * scale.numer / scale.denom = .ofNat (scaledBy scale trade) := by
    apply UInt64.toNat_inj.mp
    have product := scalable.product
    have small : scaledBy scale trade < 2^64 := Nat.lt_of_le_of_lt (Nat.div_le_self _ _) product
    rw [UInt64.toNat_div,UInt64.toNat_mul,old,Nat.mod_eq_of_lt product,UInt64.toNat_ofNat_of_lt' small]
    rfl
  have signed : ∀ n : Nat,(UInt64.ofNat n).toInt64 = .ofInt n := fun n => UInt64.toInt64_ofNat'
  have change : (-(Int64.ofInt (scaledBy scale trade : Int) - Int64.ofInt (consumedOf trade : Int))).toInt =
      -((scaledBy scale trade : Int) - consumedOf trade) := by
    rw [← Int64.ofInt_sub,← Int64.ofInt_neg]
    have lower := scalable.lower
    have upper := scalable.upper
    exact Int64.toInt_ofInt_of_le (by omega) (by omega)
  obtain ⟨same,consumed,reported⟩ := correctConsumedBudget_moves clamps scalable.within change (by omega)
  refine ⟨_,_,?_,same,by omega,reported⟩
  unfold scaleConsumedBudget
  grind

theorem scaleBudgets_moves (clamps : Clamps T) {scale : FeeRatio} {instructions : List (Execution T M B)}
    (scalable : ∀ trade ∈ trades instructions,Scalable scale trade) (mismatch : Int64) :
    ∃ scaled,scaleBudgets scale mismatch instructions =
        some (mismatch + .ofInt (totalConsumed scaled - totalConsumed instructions),scaled) ∧
      List.Forall₂ Rebudgeted instructions scaled ∧
      totalConsumed scaled = ((trades instructions).map (fun trade => min (scaledBy scale trade) (budgetOf trade))).sum := by
  induction instructions generalizing mismatch with
  | nil => exact ⟨[],congrArg (fun m => some (m,[])) (Int64.add_zero mismatch).symm,.nil,rfl⟩
  | cons instruction rest ih =>
    cases instruction with
    | inl trade =>
      obtain ⟨own,later⟩ := List.forall_mem_cons.mp scalable
      obtain ⟨delta,after,scales,same,consumed,rfl⟩ := scaleConsumedBudget_moves clamps own
      obtain ⟨scaled,folds,related,total⟩ := ih later (mismatch + .ofInt (consumedOf after - consumedOf trade))
      refine ⟨.inl after :: scaled,?_,.cons (.take same) related,?_⟩
      · rw [scaleBudgets,scales]
        simp only [Option.bind_eq_bind,Option.bind_some]
        rw [folds]
        simp only [Option.bind_some]
        have sums : ((totalConsumed (.inl after :: scaled) : Nat) : Int) - (totalConsumed (.inl trade :: rest) : Nat) =
            (consumedOf after - consumedOf trade) + (totalConsumed scaled - totalConsumed rest) := by
          have one : totalConsumed (.inl after :: scaled) = consumedOf after + totalConsumed scaled := rfl
          have two : totalConsumed (.inl trade :: rest) = consumedOf trade + totalConsumed rest := rfl
          omega
        rw [sums,Int64.ofInt_add,Int64.add_assoc]
      · change consumedOf after + totalConsumed scaled = min (scaledBy scale trade) (budgetOf trade) + _
        rw [consumed,total]
        rfl
    | inr make =>
      obtain ⟨scaled,folds,related,total⟩ := ih scalable mismatch
      refine ⟨.inr make :: scaled,?_,.cons .make related,total⟩
      rw [scaleBudgets,folds]
      rfl

-- The second pass raises budgets one take after the other until nothing is
-- missing.
theorem correctBudgets_moves (clamps : Clamps T) {instructions : List (Execution T M B)} (within : Within instructions) (missing : Nat)
    (small : missing ≤ 2^63) :
    List.Forall₂ Rebudgeted instructions (correctBudgets (.ofInt (-missing)) instructions) ∧
      totalConsumed (correctBudgets (.ofInt (-missing)) instructions) = min (totalConsumed instructions + missing) (totalBudget instructions) := by
  induction instructions generalizing missing with
  | nil => exact ⟨.nil,(Nat.min_zero _).symm⟩
  | cons instruction rest ih =>
    cases instruction with
    | inl trade =>
      obtain ⟨own,later⟩ := List.forall_mem_cons.mp within
      have bounded := Within.total later
      have split := consumedOf_within own
      have consumed : ∀ (trade : Trans (Bundled T B) T TerminalTake) (rest : List (Execution T M B)),
        totalConsumed (.inl trade :: rest) = consumedOf trade + totalConsumed rest := fun _ _ => rfl
      have budget : totalBudget (.inl trade :: rest) = budgetOf trade + totalBudget rest := rfl
      have value : (Int64.ofInt (-(missing : Int))).toInt = -(missing : Int) := Int64.toInt_ofInt_of_le (by omega) (by omega)
      unfold correctBudgets
      by_cases none : missing = 0
      · subst none
        have settled : Int64.ofInt (-((0 : Nat) : Int)) = 0 := rfl
        rw [if_neg (not_not.mpr settled),consumed,budget]
        refine ⟨Within.same within,?_⟩
        omega
      · have differs : Int64.ofInt (-(missing : Int)) ≠ 0 := by
          intro zero
          rw [zero] at value
          change (0 : Int) = _ at value
          omega
        rw [if_pos differs]
        have change : (- -Int64.ofInt (-(missing : Int))).toInt = -(missing : Int) := by rw [Int64.neg_neg,value]
        obtain ⟨same,moved,reported⟩ := correctConsumedBudget_moves clamps own change (by omega)
        dsimp only
        rw [reported,← Int64.ofInt_add]
        generalize (correctConsumedBudget (-Int64.ofInt (-(missing : Int))) trade).2 = after at same moved
        have left : -(missing : Int) + (consumedOf after - consumedOf trade) =
            -((missing - (consumedOf after - consumedOf trade) : Nat) : Int) := by omega
        rw [left]
        obtain ⟨related,total⟩ := ih later (missing - (consumedOf after - consumedOf trade)) (by omega)
        refine ⟨.cons (.take same) related,?_⟩
        grind
    | inr make =>
      obtain ⟨related,total⟩ := ih within missing small
      exact ⟨.cons .make related,total⟩

end Takes

section Ratios
variable {numer denom consumed reserved estimated : Nat}

theorem scaled_bounds (consumed : Nat) (same : numer * reserved = denom * estimated) (positive : 0 < denom) :
    consumed * numer / denom * reserved ≤ consumed * estimated ∧
      (0 < reserved → consumed * estimated < (consumed * numer / denom + 1) * reserved) := by
  have below := Nat.div_mul_le_self (consumed * numer) denom
  have above := Nat.lt_div_mul_add (a := consumed * numer) positive
  have product : consumed * numer * reserved = denom * (consumed * estimated) := by grind
  constructor
  · apply Nat.le_of_mul_le_mul_left _ positive
    calc denom * (consumed * numer / denom * reserved) = consumed * numer / denom * denom * reserved := by ring
      _ ≤ consumed * numer * reserved := Nat.mul_le_mul_right _ below
      _ = denom * (consumed * estimated) := product
  · intro some
    apply Nat.lt_of_mul_lt_mul_left (a := denom)
    calc denom * (consumed * estimated) = consumed * numer * reserved := product.symm
      _ < (consumed * numer / denom * denom + denom) * reserved := Nat.mul_lt_mul_of_pos_right above some
      _ = denom * ((consumed * numer / denom + 1) * reserved) := by ring

theorem scaled_change (same : numer * reserved = denom * estimated) (positive : 0 < denom) (part : consumed ≤ reserved) :
    min 0 ((reserved : Int) - estimated) ≤ (consumed : Int) - (consumed * numer / denom : Nat) ∧
      (consumed : Int) - (consumed * numer / denom : Nat) ≤ max 0 ((reserved : Int) - estimated) := by
  rcases Nat.eq_zero_or_pos reserved with none | some
  · simp_all
  obtain ⟨below,above⟩ := scaled_bounds consumed same positive
  have above := above some
  generalize consumed * numer / denom = scaled at below above
  have belowInt : (scaled : Int) * reserved ≤ consumed * estimated := by exact_mod_cast below
  have aboveInt : (consumed : Int) * estimated < (scaled + 1) * reserved := by exact_mod_cast above
  have someInt : (0 : Int) < reserved := by exact_mod_cast some
  have partInt : (consumed : Int) ≤ reserved := by exact_mod_cast part
  have nonneg : (0 : Int) ≤ consumed := Int.natCast_nonneg _
  rcases le_total (reserved : Int) estimated with grows | shrinks
  · have gap := mul_nonneg (sub_nonneg.mpr grows) (sub_nonneg.mpr partInt)
    have raised := mul_le_mul_of_nonneg_left grows nonneg
    constructor
    · refine le_trans (min_le_right _ _) ?_
      by_contra beyond
      nlinarith
    · refine le_trans ?_ (le_max_left _ _)
      by_contra beyond
      nlinarith
  · have gap := mul_nonneg (sub_nonneg.mpr shrinks) (sub_nonneg.mpr partInt)
    have lowered := mul_le_mul_of_nonneg_left shrinks nonneg
    constructor
    · refine le_trans (min_le_left _ _) ?_
      by_contra beyond
      nlinarith
    · refine le_trans ?_ (le_max_right _ _)
      by_contra beyond
      nlinarith

theorem feeRatio_new {estimated reserved : UInt64} {factor : FeeRatio} (made : FeeRatio.new estimated reserved = some factor) :
    factor.numer.toNat * reserved.toNat = factor.denom.toNat * estimated.toNat ∧ 0 < factor.denom.toNat := by
  unfold FeeRatio.new at made
  split at made
  · cases made
  · rename_i some
    cases made
    have positive : 0 < reserved.toNat := U64.toNat_pos some
    have common := Nat.gcd_pos_of_pos_right estimated.toNat positive
    have small : ∀ n : UInt64,(UInt64.ofNat (n.toNat / Nat.gcd estimated.toNat reserved.toNat)).toNat =
        n.toNat / Nat.gcd estimated.toNat reserved.toNat :=
      fun n => UInt64.toNat_ofNat_of_lt' (Nat.lt_of_le_of_lt (Nat.div_le_self _ _) n.toNat_lt)
    change (UInt64.ofNat _).toNat * _ = (UInt64.ofNat _).toNat * _ ∧ 0 < (UInt64.ofNat _).toNat
    rw [small,small]
    refine ⟨?_,Nat.div_pos (Nat.gcd_le_right _ positive) common⟩
    obtain ⟨e,divides⟩ := Nat.gcd_dvd_left estimated.toNat reserved.toNat
    obtain ⟨r,divides'⟩ := Nat.gcd_dvd_right estimated.toNat reserved.toNat
    have numer : estimated.toNat / Nat.gcd estimated.toNat reserved.toNat = e := Nat.div_eq_of_eq_mul_right common divides
    have denom : reserved.toNat / Nat.gcd estimated.toNat reserved.toNat = r := Nat.div_eq_of_eq_mul_right common divides'
    grind

end Ratios

section Balance
variable {T M B U : Type} [MarketTaker T U] {instructions : List (Execution T M B)} {factor : FeeRatio} {reserved estimated : Nat}

theorem scaled_total (list : List (Trans (Bundled T B) T TerminalTake)) (same : factor.numer.toNat * reserved = factor.denom.toNat * estimated) (positive : 0 < factor.denom.toNat)
    (some : 0 < reserved) :
    (list.map (scaledBy factor)).sum * reserved ≤ (list.map consumedOf).sum * estimated ∧
      (list.map consumedOf).sum * estimated ≤ ((list.map (scaledBy factor)).sum + list.length) * reserved := by
  induction list with
  | nil => simp
  | cons trade rest ih =>
    obtain ⟨below,above⟩ := scaled_bounds (consumedOf trade) same positive
    have above := above some
    have one : scaledBy factor trade = consumedOf trade * factor.numer.toNat / factor.denom.toNat := rfl
    rw [← one] at below above
    simp only [List.map_cons,List.sum_cons,List.length_cons]
    grind

def cappedBy (factor : FeeRatio) (trade : Trans (Bundled T B) T TerminalTake) : Nat := min (scaledBy factor trade) (budgetOf trade)

-- What is missing after the first pass: nothing is over, and not more is
-- missing than the budgets cut off and the quotients rounded off.
theorem capped_total (same : factor.numer.toNat * reserved = factor.denom.toNat * estimated) (positive : 0 < factor.denom.toNat)
    (total : totalConsumed instructions = reserved) (some : 0 < reserved) (within : Within instructions) :
    ((trades instructions).map (cappedBy factor)).sum ≤ estimated ∧
      (estimated ≤ ((trades instructions).map (cappedBy factor)).sum + (estimated - reserved) ∨
        estimated ≤ ((trades instructions).map (cappedBy factor)).sum + (trades instructions).length) := by
  obtain ⟨below,above⟩ := scaled_total (trades instructions) same positive some
  have total' : ((trades instructions).map consumedOf).sum = reserved := total
  rw [total',Nat.mul_comm reserved] at below above
  have most := Nat.le_of_mul_le_mul_right below some
  have least := Nat.le_of_mul_le_mul_right above some
  have part : ∀ trade ∈ trades instructions,consumedOf trade ≤ reserved := by
    intro trade member
    rw [← total']
    exact List.single_le_sum (fun _ _ => Nat.zero_le _) _ (List.mem_map_of_mem member)
  have capped : ((trades instructions).map (cappedBy factor)).sum ≤ ((trades instructions).map (scaledBy factor)).sum :=
    List.sum_le_sum (fun trade _ => Nat.min_le_left _ _)
  refine ⟨Nat.le_trans capped most,?_⟩
  rcases Nat.le_total reserved estimated with grows | shrinks
  · have kept : ((trades instructions).map consumedOf).sum ≤ ((trades instructions).map (cappedBy factor)).sum := by
      refine List.sum_le_sum (fun trade member => ?_)
      obtain ⟨_,change⟩ := scaled_change same positive (part trade member)
      have split := consumedOf_within (within trade member)
      have scaled : scaledBy factor trade = consumedOf trade * factor.numer.toNat / factor.denom.toNat := rfl
      unfold cappedBy
      omega
    rw [total'] at kept
    left
    omega
  · have whole : ((trades instructions).map (cappedBy factor)).sum = ((trades instructions).map (scaledBy factor)).sum := by
      congr 1
      refine List.map_congr_left (fun trade member => ?_)
      obtain ⟨change,_⟩ := scaled_change same positive (part trade member)
      have split := consumedOf_within (within trade member)
      have scaled : scaledBy factor trade = consumedOf trade * factor.numer.toNat / factor.denom.toNat := rfl
      unfold cappedBy
      omega
    right
    omega

theorem Rebudgeted.within (related : List.Forall₂ Rebudgeted instructions after) : Within after ∧ totalBudget after = totalBudget instructions := by
  induction related with
  | nil => exact ⟨fun _ member => absurd member List.not_mem_nil,rfl⟩
  | cons first rest ih =>
    cases first with
    | @take before after same =>
      refine ⟨List.forall_mem_cons.mpr ⟨same.within,ih.1⟩,?_⟩
      change budgetOf after + totalBudget _ = budgetOf before + totalBudget _
      rw [ih.2,budgetOf,same.target]
      rfl
    | make => exact ih

theorem SameTrade.trans {a b c : Trans (Bundled T B) T TerminalTake} (first : SameTrade a b) (second : SameTrade b c) : SameTrade a c :=
  ⟨second.target.trans first.target,second.input.trans first.input,second.output.trans first.output,second.fee.trans first.fee,second.within⟩

theorem Rebudgeted.trans {a b c : Execution T M B} (first : Rebudgeted a b) (second : Rebudgeted b c) : Rebudgeted a c := by
  cases first with
  | take same =>
    cases second with
    | take later => exact .take (same.trans later)
  | make => exact second

theorem Rebudgeted.trans_all {a b c : List (Execution T M B)} (first : List.Forall₂ Rebudgeted a b) (second : List.Forall₂ Rebudgeted b c) :
    List.Forall₂ Rebudgeted a c := by
  induction first generalizing c with
  | nil =>
    cases second
    exact .nil
  | cons one _ ih =>
    cases second with
    | cons two later => exact .cons (one.trans two) (ih later)

variable [TakerBehaviour T]

end Balance

section Sample

-- An order that is nothing but its budget.
structure BudgetOrder where
  budget : Nat
deriving DecidableEq

instance : MarketTaker BudgetOrder Unit where
  side _ := .ask
  input _ := 0
  output _ := 0
  price _ := 0
  operatorFee _ _ := 0
  fee _ := 0
  budget := BudgetOrder.budget
  consumableBudget := BudgetOrder.budget
  marginalCostHint _ := ()
  minMarginalOutput _ := 0
  timeBounds _ := .none

instance : TakerBehaviour BudgetOrder where
  withUpdatedTime order _ := .succ order
  withAppliedTrade order _ _ := .succ order
  withBudgetCorrected order delta := (max (order.budget + delta) 0 - order.budget,⟨(max (order.budget + delta) 0).toNat⟩)
  withFeeCharged order _ := order
  withOutputAdded order _ := order
  tryTerminate order := .succ order

theorem budgetOrder_clamps : Clamps BudgetOrder where
  budget _ _ := Int.toNat_of_nonneg (le_max_right _ _)
  reported next _ := congrArg (· - (next.budget : Int)) (Int.toNat_of_nonneg (le_max_right _ _)).symm
  input _ _ := rfl
  output _ _ := rfl
  fee _ _ := rfl

def budgetTrades : List (Execution BudgetOrder Unit Unit) :=
  [.inl ⟨⟨⟨1000⟩,()⟩,.succ ⟨900⟩⟩,.inr ⟨⟨(),()⟩,.succ ()⟩,.inl ⟨⟨⟨300⟩,()⟩,.term ⟨0,0,100,0⟩⟩]

-- 300 are reserved and 451 are needed: the second order gives all it has.

end Sample

end GreenAgent.Tx
