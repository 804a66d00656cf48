import GreenAgent.Engine.Runs
import GreenAgent.Book.Conservation

namespace GreenAgent.Engine
open Account (AssetClass OutputRef Token FinalizedTxOut)
open Green (GreenOrder ExUnits TokenHash sampleOrder)
open Pools (RoyaltyPool)
open Book (Stable stableId TLBState MarketTaker TakerBehaviour MarketMaker MakerBehavior adaConf)

instance : QuasiPermanent GreenOrder := ⟨fun _ => false⟩

instance : QuasiPermanent RoyaltyPool := ⟨fun _ => true⟩

-- Takers that compare equal are one taker.
class Identified (T : Type) (S : outParam Type) [Ord T] [Stable T S] : Prop where
  identified : ∀ a b : T, compare a b = .eq → stableId a = stableId b

instance [TokenHash] : Identified GreenOrder Token where
  identified _ _ same := congrArg (Green.stableToken TokenHash.blake2b224) (Green.compareOrderId_eq same)

section Resting
variable {T : Type} [Ord T]

theorem insert_others {keep : T → Bool} {t : T} (apart : keep t = false) (list : List T) :
    (Book.BTreeSet.insert t list).filter keep = list.filter keep := by
  induction list with
  | nil => rw [Book.BTreeSet.insert,List.filter_cons_of_neg (by rw [apart]; exact Bool.false_ne_true)]
  | cons first rest ih =>
    unfold Book.BTreeSet.insert
    grind

theorem remove_others {keep : T → Bool} {t : T} (apart : ∀ x, compare t x = .eq → keep x = false) (list : List T) :
    (Book.BTreeSet.remove t list).filter keep = list.filter keep := by
  induction list with
  | nil => rfl
  | cons first rest ih =>
    unfold Book.BTreeSet.remove
    grind

variable {S M U : Type} [DecidableEq S] [Stable T S] [MarketTaker T U]

def restingIn (id : S) (takers : Book.MarketTakers T) : List T :=
  let keep := fun t : T => decide (stableId t = id)
  takers.asks.filter keep ++ takers.bids.filter keep

-- What a book holds of one taker.
def resting (id : S) (book : TLBState T S M) : List T := restingIn id book.activeFragments

theorem restingIn_insert {id : S} {t : T} (other : stableId t ≠ id) (takers : Book.MarketTakers T) : restingIn id (takers.insert t) = restingIn id takers := by
  have apart : decide (stableId t = id) = false := decide_eq_false other
  have kept : ∀ list : List T, (Book.BTreeSet.insert t list).filter (fun t => decide (stableId t = id)) = list.filter (fun t => decide (stableId t = id)) :=
    insert_others apart
  unfold restingIn Book.MarketTakers.insert
  grind

theorem restingIn_remove [Identified T S] {id : S} {t : T} (other : stableId t ≠ id) (takers : Book.MarketTakers T) :
    restingIn id (takers.remove t) = restingIn id takers := by
  have apart : ∀ x, compare t x = .eq → decide (stableId x = id) = false := fun x same =>
    decide_eq_false (fun here => other ((Identified.identified t x same).trans here))
  have kept := remove_others apart
  unfold restingIn Book.MarketTakers.remove
  grind

theorem updateTaker_resting {id : S} {t : T} {book next : TLBState T S M} (other : stableId t ≠ id) (done : updateTaker t book = some next) :
    resting id next = resting id book := by
  cases book with
  | idle state =>
    obtain rfl := Option.some.inj done
    change restingIn id (state.takers.addFragment t).active = restingIn id state.takers.active
    unfold Book.Chronology.addFragment
    split
    · split
      · rfl
      · exact restingIn_insert other _
    · exact restingIn_insert other _
  | partialPreview state => cases done
  | preview state => cases done

theorem removeTaker_resting [Identified T S] {id : S} {t : T} {book next : TLBState T S M} (other : stableId t ≠ id)
    (done : removeTaker t book = some next) : resting id next = resting id book := by
  cases book with
  | idle state =>
    obtain rfl := Option.some.inj done
    change restingIn id (state.takers.removeFragment t).active = restingIn id state.takers.active
    unfold Book.Chronology.removeFragment
    split
    · split
      · split <;> rfl
      · exact restingIn_remove other _
    · exact restingIn_remove other _
  | partialPreview state => cases done
  | preview state => cases done

end Resting

section Creation
variable {P S V T M B U X : Type} [DecidableEq P] [DecidableEq S] [DecidableEq V] [Stable T S] [Stable M S] [QuasiPermanent T] [QuasiPermanent M]
  [Ord T] [MarketTaker T U] {owner : V → S} {exec next : Executor P S V T M B U X}

-- `admitted_intent_to_event`: the version of an order is the output of its
-- account.
def created (order : T) (ver : V) (bearer : B) : EvolvingEntity T M V B := ⟨.inl ⟨order,ver⟩,bearer⟩

def creation (order : T) (ver : V) (bearer : B) : Channel (Transition (EvolvingEntity T M V B)) :=
  .localTxSubmit (.forward (.right (created order ver bearer)))

omit [Ord T] [MarketTaker T U] [DecidableEq P] in
theorem resolve_predicted (index : InMemoryStateIndex (EvolvingEntity T M V B) S V) (new : EvolvingEntity T M V B) :
    resolveState (stableId new) (index.put .lastPredicted new) = some new := by
  unfold resolveState resolveKeys InMemoryStateIndex.get
  rw [List.findSome?_cons,InMemoryStateIndex.put_index,if_pos rfl,Option.bind_some,InMemoryStateIndex.put_store,if_pos rfl]

theorem onPairEvent_creation (exec : Executor P S V T M B U X) (pair : P) (order : T) (ver : V) (bearer : B) :
    exec.onPairEvent pair (creation order ver bearer) =
      if ver ∈ exec.skipFilter.filter then some {exec with index:=exec.index.put .fallback (created order ver bearer)}
      else
        let exec' := {exec with index:=exec.index.put .lastPredicted (created order ver bearer)}
        match resolveState (stableId order) exec.index with
        | none => exec'.withBook pair (updateTaker order)
        | some ⟨.inl old,_⟩ => exec'.withBook pair (fun book => (removeTaker old.entity book).bind (updateTaker order))
        | some ⟨.inr _,_⟩ => none := by
  have brought : exec.updateState (creation order ver bearer) =
      if ver ∈ exec.skipFilter.filter then ({exec with index:=exec.index.put .fallback (created order ver bearer)},none)
      else exec.observe .lastPredicted none (created order ver bearer) := rfl
  unfold Executor.onPairEvent
  rw [brought]
  by_cases skipped : ver ∈ exec.skipFilter.filter
  · rw [if_pos skipped,if_pos skipped]
    rfl
  · rw [if_neg skipped,if_neg skipped]
    simp only [Executor.observe,resolve_predicted]
    have id : stableId (created order ver bearer : EvolvingEntity T M V B) = stableId order := rfl
    rw [id]
    cases resolveState (stableId order) exec.index with
    | none => rfl
    | some held =>
      obtain ⟨entity,bearer'⟩ := held
      cases entity with
      | inl old => rfl
      | inr pool => rfl

-- Neither the book nor the index tells of the step.
@[grind cases eager] structure Undisturbed (id : S) (exec next : Executor P S V T M B U X) : Prop where
  resolved : resolveState id next.index = resolveState id exec.index
  resting : ∀ pair, resting id (next.multiBook.getMut pair) = resting id (exec.multiBook.getMut pair)

omit [QuasiPermanent T] [QuasiPermanent M] [Ord T] [MarketTaker T U] [Stable M S] in
theorem withBook_undisturbed {id : S} {pair : P} {f : TLBState T S M → Option (TLBState T S M)} {book : TLBState T S M}
    (kept : ∀ book next, f book = some next → resting id next = resting id book) (done : f (exec.multiBook.getMut pair) = some book)
    (index : InMemoryStateIndex (EvolvingEntity T M V B) S V) :
    (∃ next, Executor.withBook {exec with index:=index} pair f = some next ∧ Undisturbed id exec next) ↔ resolveState id index = resolveState id exec.index := by
  unfold Executor.withBook
  simp only [done,Option.map_some,Option.some.injEq,exists_eq_left']
  refine ⟨Undisturbed.resolved,fun same => ⟨same,fun other => ?_⟩⟩
  simp only
  rw [getMut_set]
  grind

end Creation

section Isolated
variable {P V M B X : Type} [DecidableEq P] [DecidableEq V] [TokenHash] [Stable M Token] [QuasiPermanent M] [MarketMaker M GreenOrder ExUnits]
  [MakerBehavior M GreenOrder] {run : List (Execution GreenOrder M B) → B → X → Option (List (ExecutionEff (EvolvingEntity GreenOrder M V B)) × X)}
  {owner : V → Token} {exec : Executor P Token V GreenOrder M B ExUnits X}

-- In runs where no version is brought by two entities, the creation of an
-- order leaves another one alone exactly if it does not come with the version
-- the other is held at. The engine dies where it holds a pool in its place.
theorem creation_isolated_iff {order other : GreenOrder} {ver : V} (reached : Reached run (Respects owner) exec) (free : exec.pendingEffects = none)
    (distinct : stableId other ≠ stableId order) (pair : P) (bearer : B) :
    (∃ next, exec.step run (.event pair (creation order ver bearer)) = some next ∧ Undisturbed (stableId other) exec next) ↔
      (∀ held, resolveState (stableId other) exec.index = some held → version held ≠ ver) ∧
        (ver ∈ exec.skipFilter.filter ∨ ∀ held, resolveState (stableId order) exec.index = some held → held.entity.isLeft) := by
  have standing := reached.standing
  unfold Standing at standing
  rw [free] at standing
  have owned : Owned owner exec.index := standing.owned
  have written : ∀ key, resolveState (stableId other) (exec.index.put key (created order ver bearer)) = resolveState (stableId other) exec.index ↔
      ∀ held, resolveState (stableId other) exec.index = some held → version held ≠ ver := fun key => owned.resolve_put key distinct
  have taken : exec.step run (.event pair (creation order ver bearer)) = exec.onPairEvent pair (creation order ver bearer) := by
    simp only [Executor.step,free]
  obtain ⟨state,settled⟩ : ∃ state, exec.multiBook.getMut pair = .idle state := standing.quiet pair (by rintro ⟨⟩)
  rw [taken,onPairEvent_creation]
  by_cases skipped : ver ∈ exec.skipFilter.filter
  · rw [if_pos skipped]
    constructor
    · rintro ⟨next,given,undisturbed⟩
      obtain rfl := Option.some.inj given
      exact ⟨(written _).mp undisturbed.resolved,.inl skipped⟩
    · rintro ⟨apart,_⟩
      exact ⟨_,rfl,(written _).mpr apart,fun _ => rfl⟩
  · rw [if_neg skipped]
    simp only [skipped,false_or]
    have added : ∀ book next : TLBState GreenOrder Token M, updateTaker order book = some next →
        resting (stableId other) next = resting (stableId other) book := fun _ _ => updateTaker_resting distinct.symm
    cases found : resolveState (stableId order) exec.index with
    | none =>
      simp only
      rw [withBook_undisturbed added (by rw [settled]; rfl),written]
      simp
    | some held =>
      obtain ⟨entity,bearer'⟩ := held
      cases entity with
      | inl old =>
        have same : stableId old.entity = stableId order := (owned.resolved found).1
        have replaced : ∀ book next : TLBState GreenOrder Token M, (removeTaker old.entity book).bind (updateTaker order) = some next →
            resting (stableId other) next = resting (stableId other) book := by
          intro book next done
          obtain ⟨middle,first,last⟩ := Option.bind_eq_some_iff.mp done
          exact (added _ _ last).trans (removeTaker_resting (fun here => distinct (here.symm.trans same)) first)
        simp only
        rw [withBook_undisturbed replaced (by rw [settled]; rfl),written]
        simp
      | inr pool =>
        simp

end Isolated

section Siblings
open Green.Recorded Pools.NoEstimates

abbrev GreenExecutor := Executor (AssetClass × AssetClass) Token OutputRef GreenOrder RoyaltyPool (FinalizedTxOut Unit) ExUnits Unit

def neverRun : List (Execution GreenOrder RoyaltyPool (FinalizedTxOut Unit)) → FinalizedTxOut Unit → Unit →
    Option (List (ExecutionEff (EvolvingEntity GreenOrder RoyaltyPool OutputRef (FinalizedTxOut Unit))) × Unit) := fun _ _ _ => none

-- Another order of the account of `sampleOrder`.
def siblingOrder : GreenOrder := {sampleOrder with id:={sampleOrder.id with originalIntentDigest:=Mpf.digestOf 11}}

def accountOutput : OutputRef := ⟨Mpf.digestOf 5,0⟩

def orderPair : AssetClass × AssetClass := Green.orderCanonical sampleOrder.intention.inputAsset sampleOrder.intention.outputAsset

def createdAt (order : GreenOrder) (output : OutputRef) : Input (AssetClass × AssetClass) GreenOrder RoyaltyPool OutputRef (FinalizedTxOut Unit) :=
  .event orderPair (creation order output ⟨(),output⟩)

def fresh : GreenExecutor := .new 0 adaConf ()

def afterSibling : GreenExecutor := (fresh.step neverRun (createdAt siblingOrder accountOutput)).getD fresh

def afterBoth : GreenExecutor := (afterSibling.step neverRun (createdAt sampleOrder accountOutput)).getD fresh

theorem some_getD {o : Option α} (found : o.isSome = true) (d : α) : o = some (o.getD d) := by
  obtain ⟨a,rfl⟩ := Option.isSome_iff_exists.mp found
  rfl

theorem siblings_evaluate : stableId siblingOrder ≠ stableId sampleOrder ∧
    (fresh.step neverRun (createdAt siblingOrder accountOutput)).isSome = true ∧
    (afterSibling.step neverRun (createdAt sampleOrder accountOutput)).isSome = true ∧ afterSibling.pendingEffects.isNone = true ∧
    resolveState (stableId siblingOrder) afterSibling.index = some (created siblingOrder accountOutput ⟨(),accountOutput⟩) ∧
    resolveState (stableId sampleOrder) afterSibling.index = none := by
  decide +kernel

theorem siblings_distinct : stableId siblingOrder ≠ stableId sampleOrder := siblings_evaluate.1

theorem afterSibling_step : fresh.step neverRun (createdAt siblingOrder accountOutput) = some afterSibling := some_getD siblings_evaluate.2.1 fresh

theorem afterBoth_step : afterSibling.step neverRun (createdAt sampleOrder accountOutput) = some afterBoth :=
  some_getD siblings_evaluate.2.2.1 fresh

theorem afterSibling_reached {meets : GreenExecutor → Input (AssetClass × AssetClass) GreenOrder RoyaltyPool OutputRef (FinalizedTxOut Unit) → Prop}
    (met : meets fresh (createdAt siblingOrder accountOutput)) : Reached neverRun meets afterSibling :=
  .step (.new 0 adaConf ()) met afterSibling_step

-- Two orders of one account have one version. The second takes the place of
-- the first in the index; when the first is emitted again, the second goes
-- from the book.
theorem creation_disturbs :
    stableId siblingOrder ≠ stableId sampleOrder ∧
    (∃ exec next, Reached neverRun (fun _ _ => True) exec ∧ exec.pendingEffects = none ∧
      exec.step neverRun (createdAt sampleOrder accountOutput) = some next ∧
      resolveState (stableId siblingOrder) exec.index = some (created siblingOrder accountOutput ⟨(),accountOutput⟩) ∧
      resolveState (stableId siblingOrder) next.index = some (created sampleOrder accountOutput ⟨(),accountOutput⟩)) ∧
    ∃ exec next, Reached neverRun (fun _ _ => True) exec ∧ exec.pendingEffects = none ∧
      exec.step neverRun (createdAt siblingOrder accountOutput) = some next ∧
      resting (stableId sampleOrder) (exec.multiBook.getMut orderPair) = [sampleOrder] ∧
      resting (stableId sampleOrder) (next.multiBook.getMut orderPair) = [] := by
  have one : Reached neverRun (fun _ _ => True) afterSibling := afterSibling_reached trivial
  have both : Reached neverRun (fun _ _ => True) afterBoth := .step one trivial afterBoth_step
  obtain ⟨_,_,_,free,held,_⟩ := siblings_evaluate
  refine ⟨siblings_distinct,⟨afterSibling,afterBoth,one,Option.isNone_iff_eq_none.mp free,afterBoth_step,held,?_⟩,afterBoth,_,both,?_,some_getD ?_ fresh,?_,?_⟩
  all_goals decide +kernel

def siblingOutput : OutputRef := ⟨Mpf.digestOf 5,1⟩

-- An order of another account output.
theorem creation_isolated_apart :
    ∃ next, afterSibling.step neverRun (createdAt sampleOrder siblingOutput) = some next ∧ Undisturbed (stableId siblingOrder) afterSibling next := by
  have reached : Reached neverRun (Respects (fun _ => stableId siblingOrder)) afterSibling := afterSibling_reached rfl
  obtain ⟨_,_,_,free,held,none_held⟩ := siblings_evaluate
  refine (creation_isolated_iff reached (Option.isNone_iff_eq_none.mp free) siblings_distinct orderPair _).mpr ⟨?_,.inr ?_⟩
  · intro entity found
    rw [held] at found
    cases found
    decide
  · intro entity found
    rw [none_held] at found
    cases found

end Siblings
end GreenAgent.Engine
