import GreenAgent.Engine.Isolation
import GreenAgent.Green.Admission
import GreenAgent.Green.Termination

namespace GreenAgent.Engine
open Account (AssetClass OutputRef Token FinalizedTxOut AccountIndex Externals)
open Cardano (TransactionOutput)
open Green (GreenOrder ExUnits TokenHash WireGreenIntent RawGreenIntent GreenOrdersConfig admitGreenIntent Admits admit_ok_iff)
open Book (Stable stableId TLBState MarketTaker TakerBehaviour MarketMaker MakerBehavior Ascending)

theorem replace_in_place {T : Type} [Ord T] [Std.OrientedOrd T] {old new : T} {set : List T} (ascending : Ascending set) (member : old ∈ set)
    (alike : ∀ x, compare new x = compare old x) :
    ∃ before after, set = before ++ old :: after ∧ Book.BTreeSet.insert new (Book.BTreeSet.remove old set) = before ++ new :: after := by
  induction set with
  | nil => cases member
  | cons first rest ih =>
    obtain ⟨least,ascending'⟩ := List.pairwise_cons.mp ascending
    rcases List.mem_cons.mp member with rfl | later
    · refine ⟨[],rest,rfl,?_⟩
      have same : compare old old = .eq := Std.ReflCmp.compare_self
      unfold Book.BTreeSet.remove
      rw [same]
      simp only
      cases rest with
      | nil => rfl
      | cons second others =>
        unfold Book.BTreeSet.insert
        grind
    · have after := Book.compare_gt (least old later)
      obtain ⟨before,others,split,replaced⟩ := ih ascending' later
      refine ⟨first :: before,others,by rw [split]; rfl,?_⟩
      unfold Book.BTreeSet.remove
      rw [after]
      simp only
      unfold Book.BTreeSet.insert
      grind

section Replacing
variable {P V M B X : Type} [DecidableEq P] [DecidableEq V] [TokenHash] [Stable M Token] [QuasiPermanent M] [MarketMaker M GreenOrder ExUnits]
  [MakerBehavior M GreenOrder] {run : List (Execution GreenOrder M B) → B → X → Option (List (ExecutionEff (EvolvingEntity GreenOrder M V B)) × X)}
  {exec : Executor P Token V GreenOrder M B ExUnits X} {order other : GreenOrder} {pair : P} {ver : V} {bearer : B}

-- The order is in the book, and in the index at the version given.
@[grind cases eager] structure Rests (exec : Executor P Token V GreenOrder M B ExUnits X) (pair : P) (order : GreenOrder) (ver : V) (bearer : B) : Prop where
  free : exec.pendingEffects = none
  unfiltered : ver ∉ exec.skipFilter.filter
  held : resolveState (stableId order) exec.index = some (created order ver bearer)
  book : ∃ state, exec.multiBook.getMut pair = .idle state ∧ state.takers.active.Sorted ∧ order ∈ state.takers.active.onSide order.side

-- The second order stands where the first one stood.
@[grind cases eager] structure Replaced (pair : P) (order other : GreenOrder) (ver : V) (bearer : B) (exec next : Executor P Token V GreenOrder M B ExUnits X) : Prop where
  resolved : resolveState (stableId order) next.index = some (created other ver bearer)
  book : ∃ before after, (exec.multiBook.getMut pair).activeFragments.onSide order.side = before ++ order :: after ∧
    (next.multiBook.getMut pair).activeFragments.onSide order.side = before ++ other :: after

theorem Rests.replaced (rests : Rests exec pair order ver bearer) (same : other.id = order.id) (side : other.side = order.side) :
    ∃ next, exec.step run (.event pair (creation other ver bearer)) = some next ∧ Replaced pair order other ver bearer exec next := by
  have token : stableId other = stableId order := congrArg (Green.stableToken TokenHash.blake2b224) same
  have alike : ∀ x, compare other x = compare order x := fun x => congrArg (fun id => Green.compareOrderId id x.id) same
  obtain ⟨state,settled,sorted,member⟩ := rests.book
  have taken : exec.step run (.event pair (creation other ver bearer)) = exec.onPairEvent pair (creation other ver bearer) := by
    simp only [Executor.step,rests.free]
  have done : exec.onPairEvent pair (creation other ver bearer) = some {exec with
      index:=exec.index.put .lastPredicted (created other ver bearer),
      multiBook:=exec.multiBook.set pair (.idle {state with takers:=(state.takers.removeFragment order).addFragment other})} := by
    rw [onPairEvent_creation,if_neg rests.unfiltered,token,rests.held]
    simp only [created,Executor.withBook,settled]
    rfl
  refine ⟨_,taken.trans done,?_,?_⟩
  · rw [← token]
    exact resolve_predicted exec.index (created other ver bearer)
  · simp only
    rw [getMut_set,if_pos rfl,settled]
    change ∃ before after, state.takers.active.onSide order.side = before ++ order :: after ∧
      ((state.takers.active.remove order).insert other).onSide order.side = before ++ other :: after
    unfold Book.MarketTakers.insert Book.MarketTakers.remove
    have sides : MarketTaker.side order = order.side ∧ MarketTaker.side other = order.side := ⟨rfl,side⟩
    rw [sides.1,sides.2]
    cases at_side : order.side with
    | bid =>
      rw [at_side] at member
      exact replace_in_place sorted.bids member alike
    | ask =>
      rw [at_side] at member
      exact replace_in_place sorted.asks member alike

theorem Rests.first (time : Nat) (conf : Book.ExecutionConfig ExUnits) (context : X) (pair : P) (order : GreenOrder) (ver : V) (bearer : B) :
    ∃ next : Executor P Token V GreenOrder M B ExUnits X,
      (Executor.new time conf context).step run (.event pair (creation order ver bearer)) = some next ∧ Rests next pair order ver bearer := by
  have empty : (MultiPair.getMut (Executor.new time conf context : Executor P Token V GreenOrder M B ExUnits X).multiBook pair) = .new time := by tauto
  have done : (Executor.new time conf context : Executor P Token V GreenOrder M B ExUnits X).onPairEvent pair (creation order ver bearer) =
      some ⟨InMemoryStateIndex.new.put .lastPredicted (created order ver bearer),
        MultiPair.set ⟨∅,⟨time,conf⟩⟩ pair (.idle ⟨⟨time,.insert .new order,∅⟩,∅⟩),.new,none,context⟩ := by
    rw [onPairEvent_creation,if_neg (by simp [Executor.new,CircularFilter.new])]
    tauto
  have alone : (Book.MarketTakers.new.insert order).onSide order.side = [order] ∧ (Book.MarketTakers.new.insert order).Sorted := by
    unfold Book.MarketTakers.insert
    have at_side : MarketTaker.side order = order.side := rfl
    rw [at_side]
    cases order.side with
    | bid => exact ⟨rfl,⟨List.Pairwise.nil,List.pairwise_singleton ..⟩⟩
    | ask => exact ⟨rfl,⟨List.pairwise_singleton ..,List.Pairwise.nil⟩⟩
  refine ⟨_,done,rfl,by simp [CircularFilter.new],resolve_predicted _ (created order ver bearer),⟨⟨time,.insert .new order,∅⟩,∅⟩,?_,alone.2,?_⟩
  · simp only
    rw [getMut_set,if_pos rfl]
  grind

end Replacing

section Terms
variable {D M X : Type} [TokenHash] [Stable M Token] [QuasiPermanent M] [MarketMaker M GreenOrder ExUnits] [MakerBehavior M GreenOrder]
  {ext : Externals (TransactionOutput D)} {config : GreenOrdersConfig} {index : AccountIndex (TransactionOutput D)}
  {wire : WireGreenIntent} {raw : RawGreenIntent} {admitted : Bundled GreenOrder (FinalizedTxOut (TransactionOutput D))}

def pairId (order : GreenOrder) : AssetClass × AssetClass := Green.orderCanonical order.intention.inputAsset order.intention.outputAsset

def admittedIntentToEvent (admitted : Bundled GreenOrder (FinalizedTxOut (TransactionOutput D))) :
    Input (AssetClass × AssetClass) GreenOrder M OutputRef (FinalizedTxOut (TransactionOutput D)) :=
  .event (pairId admitted.entity) (creation admitted.entity admitted.bearer.reference admitted.bearer)

-- The same intent for another amount.
def WireGreenIntent.asking (wire : WireGreenIntent) (amount : UInt64) : WireGreenIntent := {wire with expectedArrivingAmount:=amount}

def RawGreenIntent.asking (raw : RawGreenIntent) (amount : UInt64) : RawGreenIntent :=
  {raw with intention:={raw.intention with expectedArrivingAmount:=amount}}

omit [TokenHash] in
theorem tryFrom_asking (parsed : RawGreenIntent.tryFrom wire = some raw) (amount : UInt64) :
    RawGreenIntent.tryFrom (WireGreenIntent.asking wire amount) = some (RawGreenIntent.asking raw amount) := by
  unfold RawGreenIntent.tryFrom at parsed ⊢
  simp only [Option.bind_eq_bind,Option.bind_eq_some_iff,WireGreenIntent.asking] at parsed ⊢
  obtain ⟨account,account_text,accountId,account_size,digest,digest_text,digest',digest_size,operator,operator_text,operator',operator_size,auth,auth_text,
    made⟩ := parsed
  obtain rfl := Option.some.inj made
  tauto

omit [TokenHash] in
theorem admit_asking (accepted : admitGreenIntent ext config index raw = .ok admitted) (amount : UInt64) :
    admitGreenIntent ext config index (RawGreenIntent.asking raw amount) = .ok ⟨(RawGreenIntent.asking raw amount).order,admitted.bearer⟩ := by
  obtain ⟨account,admits,rfl⟩ := (admit_ok_iff ..).mp accepted
  exact (admit_ok_iff ..).mpr ⟨account,⟨admits.policy,admits.ada,admits.indexed,admits.parsed,admits.nonce,admits.funds⟩,rfl⟩

-- Whoever has the token of the order has its terms.
def BindsTerms (ext : Externals (TransactionOutput D)) (order : GreenOrder) : Prop :=
  ∀ config index wire raw admitted, RawGreenIntent.tryFrom wire = some raw → admitGreenIntent ext config index raw = .ok admitted →
    stableId admitted.entity = stableId order → admitted.entity.intention = order.intention

variable {run : List (Execution GreenOrder M (FinalizedTxOut (TransactionOutput D))) → FinalizedTxOut (TransactionOutput D) → X →
  Option (List (ExecutionEff (EvolvingEntity GreenOrder M OutputRef (FinalizedTxOut (TransactionOutput D)))) × X)}

-- Nothing checks the digest a wire intent comes with, and the token has no
-- other trace of the terms.
theorem terms_never_bound (parsed : RawGreenIntent.tryFrom wire = some raw) (accepted : admitGreenIntent ext config index raw = .ok admitted) :
    ¬BindsTerms ext admitted.entity ∧
      ∀ exec : Executor (AssetClass × AssetClass) Token OutputRef GreenOrder M (FinalizedTxOut (TransactionOutput D)) ExUnits X,
        Rests exec (pairId admitted.entity) admitted.entity admitted.bearer.reference admitted.bearer →
        ∃ wire' raw' other next, RawGreenIntent.tryFrom wire' = some raw' ∧ admitGreenIntent ext config index raw' = .ok other ∧
          other.entity.intention ≠ admitted.entity.intention ∧ exec.step run (admittedIntentToEvent other) = some next ∧
          Replaced (pairId admitted.entity) admitted.entity other.entity admitted.bearer.reference admitted.bearer exec next := by
  have other : raw.intention.expectedArrivingAmount + 1 ≠ raw.intention.expectedArrivingAmount := by
    intro same
    simp at same
  have forged := tryFrom_asking parsed (raw.intention.expectedArrivingAmount + 1)
  have admitted' := admit_asking accepted (raw.intention.expectedArrivingAmount + 1)
  obtain ⟨account,_,rfl⟩ := (admit_ok_iff ..).mp accepted
  have terms : (RawGreenIntent.asking raw (raw.intention.expectedArrivingAmount + 1)).order.intention ≠ raw.order.intention :=
    fun same => other (congrArg Green.GreenIntention.expectedArrivingAmount same)
  refine ⟨fun binds => terms (binds _ _ _ _ _ forged admitted' rfl),?_⟩
  intro exec rests
  have standing : ∃ next, exec.step run (admittedIntentToEvent ⟨(RawGreenIntent.asking raw (raw.intention.expectedArrivingAmount + 1)).order,
      account.finalizedOutput⟩) = some next ∧ Replaced (pairId raw.order) raw.order
        (RawGreenIntent.asking raw (raw.intention.expectedArrivingAmount + 1)).order account.outputRef account.finalizedOutput exec next :=
    rests.replaced rfl rfl
  obtain ⟨next,taken,replaced⟩ := standing
  exact ⟨_,_,_,next,forged,admitted',terms,taken,replaced⟩

end Terms

section Forged
open Account (AlephAccountState)
open Pools (RoyaltyPool)
open Green.Recorded Pools.NoEstimates
open Green (walletExternals walletIndex walletWire walletRaw walletUtxo walletWire_parsed wallet_admits)

abbrev WalletBearer := FinalizedTxOut (TransactionOutput AlephAccountState)

abbrev WalletExecutor := Executor (AssetClass × AssetClass) Token OutputRef GreenOrder RoyaltyPool WalletBearer ExUnits Unit

def walletNeverRun : List (Execution GreenOrder RoyaltyPool WalletBearer) → WalletBearer → Unit →
    Option (List (ExecutionEff (EvolvingEntity GreenOrder RoyaltyPool OutputRef WalletBearer)) × Unit) := fun _ _ _ => none

def walletFresh : WalletExecutor := .new 0 Book.adaConf ()

def walletOrder : Bundled GreenOrder WalletBearer := ⟨walletRaw.order,walletUtxo.finalizedOutput⟩

def walletResting : WalletExecutor := (walletFresh.step walletNeverRun (admittedIntentToEvent walletOrder)).getD walletFresh

theorem wallet_admitted : admitGreenIntent walletExternals ⟨false⟩ walletIndex walletRaw = .ok walletOrder :=
  (admit_ok_iff ..).mpr ⟨walletUtxo,wallet_admits,rfl⟩

theorem walletResting_step : walletFresh.step walletNeverRun (admittedIntentToEvent walletOrder) = some walletResting :=
  some_getD (by decide +kernel) walletFresh

theorem wallet_rests : Rests walletResting (pairId walletOrder.entity) walletOrder.entity walletOrder.bearer.reference walletOrder.bearer := by
  have first : ∃ next, walletFresh.step walletNeverRun (admittedIntentToEvent walletOrder) = some next ∧
      Rests next (pairId walletOrder.entity) walletOrder.entity walletOrder.bearer.reference walletOrder.bearer := Rests.first ..
  obtain ⟨next,taken,rests⟩ := first
  have same : walletResting = next := Option.some.inj (walletResting_step.symm.trans taken)
  rw [same]
  exact rests

-- The second intent asks for less. It comes to the account's token, and takes
-- the place of the first order in the book.
def forgedWire : WireGreenIntent := WireGreenIntent.asking walletWire 1

def forgedOrder : Bundled GreenOrder WalletBearer := ⟨(RawGreenIntent.asking walletRaw 1).order,walletUtxo.finalizedOutput⟩

theorem terms_forged :
    (∃ raw raw', RawGreenIntent.tryFrom walletWire = some raw ∧ admitGreenIntent walletExternals ⟨false⟩ walletIndex raw = .ok walletOrder ∧
      RawGreenIntent.tryFrom forgedWire = some raw' ∧ admitGreenIntent walletExternals ⟨false⟩ walletIndex raw' = .ok forgedOrder) ∧
    stableId walletOrder.entity = stableId forgedOrder.entity ∧ walletOrder.entity.intention ≠ forgedOrder.entity.intention ∧
    ∃ next, walletResting.step walletNeverRun (admittedIntentToEvent forgedOrder) = some next ∧
      Replaced (pairId walletOrder.entity) walletOrder.entity forgedOrder.entity walletOrder.bearer.reference walletOrder.bearer walletResting next := by
  refine ⟨⟨_,_,walletWire_parsed,wallet_admitted,tryFrom_asking walletWire_parsed 1,admit_asking wallet_admitted 1⟩,rfl,by decide,?_⟩
  exact wallet_rests.replaced rfl rfl

theorem terms_never_bound_wallet :
    ¬BindsTerms walletExternals walletOrder.entity ∧
      ∀ exec : WalletExecutor, Rests exec (pairId walletOrder.entity) walletOrder.entity walletOrder.bearer.reference walletOrder.bearer →
        ∃ wire' raw' other next, RawGreenIntent.tryFrom wire' = some raw' ∧ admitGreenIntent walletExternals ⟨false⟩ walletIndex raw' = .ok other ∧
          other.entity.intention ≠ walletOrder.entity.intention ∧ exec.step walletNeverRun (admittedIntentToEvent other) = some next ∧
          Replaced (pairId walletOrder.entity) walletOrder.entity other.entity walletOrder.bearer.reference walletOrder.bearer exec next :=
  terms_never_bound walletWire_parsed wallet_admitted

end Forged
end GreenAgent.Engine
