import GreenAgent.Book.Termination
import GreenAgent.Book.Conservation

namespace GreenAgent.Green
open Account (Token)
open Book (IdleState TLBState ExecutionConfig MatchmakingAttempt MatchmakingRecipe HashOrder MarketMaker MakerBehavior DefaultSwaps Stable Ground Retried
  Filling Stalls Keyed attempt)
open Pools (RoyaltyPool Estimates)

theorem compareOrderId_swap (a b : Account.GreenOrderId) : compareOrderId a b = (compareOrderId b a).swap := by
  have bytes : ∀ s t : Mpf.Bytes, compare s t = (compare t s).swap := fun s t => Std.OrientedCmp.eq_swap
  have slot : compare a.targetNonceSlot b.targetNonceSlot = (compare b.targetNonceSlot a.targetNonceSlot).swap := Std.OrientedCmp.eq_swap
  have value : compare a.targetNonceValue b.targetNonceValue = (compare b.targetNonceValue a.targetNonceValue).swap := Std.OrientedCmp.eq_swap
  unfold compareOrderId
  rw [Ordering.swap_then,Ordering.swap_then,Ordering.swap_then,bytes a.accountId.bytes.bytes,bytes a.originalIntentDigest.bytes,slot,value]

instance : Std.OrientedOrd GreenOrder := ⟨fun {a b} => compareOrderId_swap a.id b.id⟩

instance : Book.EndingTaker GreenOrder where
  small order := U64.le_max order.currentRemainder
  ending _ _ _ _ traded := U64.toNat_pos (withAppliedTrade_succ traded).2

section
variable [TokenHash] {M L : Type} [DecidableEq L] [Stable M L] [MarketMaker M GreenOrder ExUnits] [MakerBehavior M GreenOrder]

-- Whatever the hash maps iterate like, a call returns and tries at most twice
-- more than there are active takers.
def Returns (conf : ExecutionConfig ExUnits) (book : IdleState GreenOrder L M) : Prop :=
  ∀ orders, ∃ fuel outcome, attempt (K := Token) fuel conf orders (.idle book) = some outcome ∧ outcome.rounds ≤ book.takers.active.all.length + 2

-- Without optimisation no batch is refused as too expensive, and no search runs
-- over the whole of `u64`.
@[grind cases eager] structure Settles (conf : ExecutionConfig ExUnits) (book : IdleState GreenOrder L M) : Prop where
  affordable : ∀ head order final (batch : MatchmakingAttempt GreenOrder Token M L ExUnits), Retried (K := Token) conf (.idle book) false head →
    Book.Filled conf false order head final batch → MatchmakingRecipe.tryFrom order conf.baseStepBudget batch ≠ .error .downgradeNeeded
  searchable : ∀ head order moment state (batch : MatchmakingAttempt GreenOrder Token M L ExUnits), Retried (K := Token) conf (.idle book) true head →
    Filling conf true order head moment state batch → batch.HasRoom conf → ¬Stalls order moment state

def groundOf (book : IdleState GreenOrder L M) : Ground GreenOrder L M := ⟨book.takers,[],book.makers⟩

variable [DefaultSwaps M GreenOrder]

end

section Sample
open Recorded Pools.NoEstimates Book

instance [Estimates] : DefaultSwaps RoyaltyPool GreenOrder := ⟨fun _ _ _ => rfl⟩

-- The fee of the order, 10 lovelace, is too little for a step budget of 1000.
def dearConf : ExecutionConfig ExUnits := {adaConf with baseStepBudget:=1000}

theorem adaResting_good : (groundOf adaResting).Good := by
  have sound := adaBook_sound (P := fun _ => True) trivial
  exact ⟨⟨List.pairwise_singleton _ _,List.Pairwise.nil⟩,sound.sided,sound.active,sound.keyed⟩

def tooDear (made : Except (Rejection T) R) : Bool :=
  match made with
  | .error .downgradeNeeded => true
  | _ => false

theorem tooDear_iff {made : Except (Rejection T) R} (dear : tooDear made = true) : made = .error .downgradeNeeded := by
  unfold tooDear at dear
  split at dear
  · rfl
  · cases dear

theorem adaBook_dear (optimized : Bool) : ∃ final, ∃ batch : MatchmakingAttempt GreenOrder Token RoyaltyPool Token ExUnits,
    Book.Filled dearConf optimized inPlace (groundOf adaResting).head final batch ∧
      MatchmakingRecipe.tryFrom inPlace dearConf.baseStepBudget batch = .error .downgradeNeeded := by
  have dear : (fillLoop 5 dearConf optimized inPlace 5 4 (groundOf adaResting).head (.empty : MatchmakingAttempt GreenOrder Token RoyaltyPool Token ExUnits)).map
      (fun result => tooDear (MatchmakingRecipe.tryFrom inPlace dearConf.baseStepBudget result.2)) = some true := by
    cases optimized <;> decide +kernel
  obtain ⟨⟨final,batch⟩,run,refused⟩ := Option.map_eq_some_iff.mp dear
  exact ⟨final,batch,⟨5,5,run⟩,tooDear_iff refused⟩

theorem adaBook_endless : ∃ orders, ∀ fuel, attempt (K := Token) fuel dearConf orders (groundOf adaResting).head = none := by
  obtain ⟨_,_,filled,refused⟩ := adaBook_dear true
  obtain ⟨_,_,filled',refused'⟩ := adaBook_dear false
  have retried := Retried.downgraded .first filled refused
  rw [filled.downgraded rfl adaResting_good refused] at retried
  exact endless_retry rfl adaResting_good retried filled' refused'

end Sample
end GreenAgent.Green
