import GreenAgent.Engine.Isolation

namespace GreenAgent.Engine
open Book (Stable stableId TLBState HashOrder MarketTaker TakerBehaviour MarketMaker MakerBehavior)

section Grown
variable {E S V : Type} [DecidableEq S] [DecidableEq V] [EntitySnapshot E S V] {ok : E → Prop} {state next last : InMemoryStateIndex E S V}

-- One index comes from another by calls that write good entities only.
def Grown (ok : E → Prop) (state next : InMemoryStateIndex E S V) : Prop :=
  ∃ ops : List (IndexOp E S V),next = ops.foldl InMemoryStateIndex.apply state ∧ ∀ key value,.put key value ∈ ops → ok value

theorem Grown.refl (state : InMemoryStateIndex E S V) : Grown ok state state := ⟨[],rfl,fun _ _ member => nomatch member⟩

theorem Grown.trans (first : Grown ok state next) (second : Grown ok next last) : Grown ok state last := by
  obtain ⟨ops,rfl,good⟩ := first
  obtain ⟨more,rfl,better⟩ := second
  refine ⟨ops ++ more,List.foldl_append.symm,fun key value member => ?_⟩
  grind

theorem Grown.put (key : StateKey) {value : E} (good : ok value) : Grown ok state (state.put key value) := by
  refine ⟨[.put key value],rfl,fun k v member => ?_⟩
  cases List.mem_singleton.mp member
  exact good

theorem Grown.invalidate (ver : V) : Grown ok state (state.invalidateVersion ver) :=
  ⟨[.invalidate ver],rfl,fun _ _ member => nomatch List.mem_singleton.mp member⟩

theorem Grown.eliminate (id : S) : Grown ok state (state.eliminate id) :=
  ⟨[.eliminate id],rfl,fun _ _ member => nomatch List.mem_singleton.mp member⟩

end Grown

section Updates
variable {P S V T M B U X : Type} [DecidableEq S] [DecidableEq V] [Stable T S] [Stable M S] [QuasiPermanent T] [QuasiPermanent M]
  {ok : EvolvingEntity T M V B → Prop} {exec : Executor P S V T M B U X}

theorem Grown.observe {new : EvolvingEntity T M V B} (good : ok new) (key : StateKey) (rolledBack : Option V) :
    Grown ok exec.index (exec.observe key rolledBack new).1.index := by
  unfold Executor.observe
  cases rolledBack with
  | none => exact .put key good
  | some ver => exact (Grown.invalidate ver).trans (.put key good)

theorem Grown.onState {new : EvolvingEntity T M V B} (good : ok new) (fromLedger fromMempool isRollback : Bool) (rolledBack : Option V) :
    Grown ok exec.index (exec.onState fromLedger fromMempool isRollback rolledBack new).1.index := by
  simp only [Executor.onState]
  split
  · split
    · have filtered : ∀ key,Grown ok exec.index (Executor.observe {exec with skipFilter:=exec.skipFilter.remove (version new)} key rolledBack new).1.index :=
        fun key => .observe good key rolledBack
      exact filtered _
    · exact .put _ good
  · exact .observe good _ rolledBack

theorem Grown.onSpent {spent : EvolvingEntity T M V B} (good : ok spent) (fromLedger fromMempool : Bool) :
    Grown ok exec.index (exec.onSpent fromLedger fromMempool spent).1.index := by
  simp only [Executor.onSpent]
  split
  · exact .put .fallback good
  · split
    · exact .invalidate _
    · simp only
      split
      · exact .eliminate _
      · exact .refl _

theorem Grown.update {update : Channel (Transition (EvolvingEntity T M V B))} (good : ok update.update.subject) :
    Grown ok exec.index (exec.updateState update).1.index := by
  unfold Transition.subject at good
  unfold Executor.updateState
  cases change : update.update.change with
  | left spent =>
    rw [change] at good
    exact .onSpent good _ _
  | right new =>
    rw [change] at good
    exact .onState good _ _ _ _
  | both old new =>
    rw [change] at good
    exact .onState good _ _ _ _

-- What a confirmed transition does to the index.
def confirm (state : InMemoryStateIndex (EvolvingEntity T M V B) S V) : Ior (EvolvingEntity T M V B) (EvolvingEntity T M V B) →
    InMemoryStateIndex (EvolvingEntity T M V B) S V
  | .left spent => if isQuasiPermanent spent then state.put .fallback spent else state.eliminate (stableId spent)
  | .right new => state.put .lastConfirmed new
  | .both _ new => state.put .lastConfirmed new

theorem updateState_confirmed (change : Ior (EvolvingEntity T M V B) (EvolvingEntity T M V B)) :
    (exec.updateState (.ledger (.forward change))).1.index = confirm exec.index change := by
  cases change with
  | left spent =>
    change (exec.onSpent true false spent).1.index = _
    by_cases permanent : isQuasiPermanent spent = true
    · simp [Executor.onSpent,confirm,permanent]
    · simp [Executor.onSpent,confirm,permanent]
  | right new =>
    change (exec.onState true false false none new).1.index = _
    by_cases skipped : version new ∈ exec.skipFilter.filter
    · simp [Executor.onState,confirm,skipped]
    · simp [Executor.onState,Executor.observe,confirm,skipped]
  | both old new =>
    change (exec.onState true false false none new).1.index = _
    by_cases skipped : version new ∈ exec.skipFilter.filter
    · simp [Executor.onState,confirm,skipped]
    · simp [Executor.onState,Executor.observe,confirm,skipped]

end Updates

section Steps
variable {P S V T M B U X : Type} [DecidableEq P] [DecidableEq S] [DecidableEq V] [Stable T S] [Stable M S] [QuasiPermanent T] [QuasiPermanent M]
  {ok : EvolvingEntity T M V B → Prop} {exec next : Executor P S V T M B U X}

omit [DecidableEq S] [DecidableEq V] [Stable T S] [Stable M S] [QuasiPermanent T] [QuasiPermanent M] in
theorem withBook_index {pair : P} {f : TLBState T S M → Option (TLBState T S M)} (done : exec.withBook pair f = some next) : next.index = exec.index := by
  obtain ⟨_,_,rfl⟩ := withBook_inv done
  rfl

variable [Ord T] [MarketTaker T U]

omit [DecidableEq V] [Stable T S] [QuasiPermanent T] [QuasiPermanent M] in
theorem syncAny_index {pair : P} {transition : Option (Ior (Snapshot T M V) (Snapshot T M V))} (done : exec.syncAny pair transition = some next) :
    next.index = exec.index := by
  unfold Executor.syncAny Executor.syncBook at done
  match transition with
  | none => rw [← Option.some.inj done]
  | some (.left (.inl o)) => exact withBook_index done
  | some (.left (.inr p)) => exact withBook_index done
  | some (.both (.inl old) (.inl new)) => exact withBook_index done
  | some (.both (.inl old) (.inr new)) => exact withBook_index done
  | some (.both (.inr old) (.inr new)) => exact withBook_index done
  | some (.both (.inr old) (.inl new)) => cases done
  | some (.right (.inl new)) => exact withBook_index done
  | some (.right (.inr new)) => exact withBook_index done

theorem Grown.event {pair : P} {event : Channel (Transition (EvolvingEntity T M V B))} (good : ok event.update.subject)
    (done : exec.onPairEvent pair event = some next) : Grown ok exec.index next.index := by
  rw [syncAny_index done]
  exact .update good

theorem Grown.invalidated {pair : P} {ver : V} (done : exec.invalidateVersion pair ver = some next) : Grown ok exec.index next.index := by
  unfold Executor.invalidateVersion at done
  split at done
  · cases done
  · rw [syncAny_index done]
    exact .invalidate ver

theorem Grown.accepted {effects : ExecutionEffectsByPair P T M V B} (good : ∀ effect ∈ effects.pendingEffects,ok effect.transition.subject)
    (done : exec.onExecutionEffectsSuccess effects = some next) : Grown ok exec.index next.index := by
  simp only [Executor.onExecutionEffectsSuccess,Option.bind_eq_bind,Option.bind_eq_some_iff] at done
  obtain ⟨committed,first,rest⟩ := done
  have start : Grown ok exec.index committed.index := by
    rw [withBook_index first]
    exact .refl _
  have run : ∀ (state : Executor P S V T M B U X) effect after,effect ∈ effects.pendingEffects.reverse → Grown ok exec.index state.index →
      Executor.onEffect effects.pair state effect = some after → Grown ok exec.index after.index := by
    intro state effect after member grown taken
    have brought : ok (Channel.localTxSubmit effect.transition).update.subject := good effect (List.mem_reverse.mp member)
    have filtered : Grown ok ({state with skipFilter:=state.skipFilter.add (version effect.consumed)} : Executor P S V T M B U X).index after.index :=
      .event brought taken
    exact grown.trans filtered
  exact foldlM_keeps (motive := fun state => Grown ok exec.index state.index) run start rest

theorem Grown.rejected {missing : Option (List V)} {effects : ExecutionEffectsByPair P T M V B}
    (done : exec.onExecutionEffectsFailure missing effects = some next) : Grown ok exec.index next.index := by
  simp only [Executor.onExecutionEffectsFailure,Option.bind_eq_bind,Option.bind_eq_some_iff] at done
  obtain ⟨restored,first,rest⟩ := done
  have start : Grown ok exec.index restored.index := by
    rw [withBook_index first]
    exact .refl _
  cases missing with
  | some missing =>
    have run : ∀ (state : Executor P S V T M B U X) ver after,ver ∈ missing.filter (fun ver => ver ∈ effects.consumedVersions) →
        Grown ok exec.index state.index → state.invalidateVersion effects.pair ver = some after → Grown ok exec.index after.index :=
      fun _ _ _ _ grown taken => grown.trans (Grown.invalidated taken)
    exact foldlM_keeps (motive := fun state => Grown ok exec.index state.index) run start rest
  | none =>
    have run : ∀ (state : Executor P S V T M B U X) order after,order ∈ Executor.poisonous effects.pendingEffects → Grown ok exec.index state.index →
        state.withBook effects.pair (removeTaker order) = some after → Grown ok exec.index after.index := by
      intro state order after _ grown taken
      rw [withBook_index taken]
      exact grown
    exact foldlM_keeps (motive := fun state => Grown ok exec.index state.index) run start rest

omit [DecidableEq V] [Stable T S] [QuasiPermanent T] [QuasiPermanent M] in
theorem orphaned_index {pair : P} {orphans : List (T ⊕ M)} (done : exec.onLinkageFailure pair orphans = some next) : next.index = exec.index := by
  simp only [Executor.onLinkageFailure,Option.bind_eq_bind,Option.bind_eq_some_iff] at done
  obtain ⟨restored,first,rest⟩ := done
  have run : ∀ (state : Executor P S V T M B U X) orphan after,orphan ∈ orphans → state.index = exec.index →
      state.withBook pair (orphan.elim removeTaker removeMaker) = some after → after.index = exec.index :=
    fun _ _ _ _ same taken => (withBook_index taken).trans same
  exact foldlM_keeps (motive := fun state => state.index = exec.index) run (withBook_index first) rest

variable [TakerBehaviour T] [MarketMaker M T U] [MakerBehavior M T] [Add U] [Zero U] [LT U] [DecidableLT U]
  {run : List (Execution T M B) → B → X → Option (List (ExecutionEff (EvolvingEntity T M V B)) × X)}

theorem matchmake_index {pair : P} {fuel : Nat} {orders : Nat → HashOrder} {funding : Option B}
    (done : exec.matchmake run fuel orders funding pair = some next) : next.index = exec.index := by
  unfold Executor.matchmake at done
  simp only [Option.bind_eq_bind,Option.bind_eq_some_iff] at done
  obtain ⟨outcome,_,rest⟩ := done
  split at rest
  · rw [← Option.some.inj rest]
  · split at rest
    · have same := orphaned_index rest
      exact same
    · split at rest
      · have same := withBook_index rest
        exact same
      · obtain ⟨⟨effects,context⟩,_,given⟩ := Option.bind_eq_some_iff.mp rest
        rw [← Option.some.inj given]

-- Every state an input brings is good.
def Brings (ok : EvolvingEntity T M V B → Prop) (exec : Executor P S V T M B U X) : Input P T M V B → Prop
  | .event _ event => ok event.update.subject
  | .accepted => ∀ effects,exec.pendingEffects = some effects → ∀ effect ∈ effects.pendingEffects,ok effect.transition.subject
  | _ => True

theorem Grown.step {input : Input P T M V B} (brings : Brings ok exec input) (taken : exec.step run input = some next) : Grown ok exec.index next.index := by
  cases pending : exec.pendingEffects with
  | none =>
    cases input with
    | event pair event =>
      simp only [Executor.step,pending] at taken
      exact .event brings taken
    | focus pair fuel orders funding =>
      simp only [Executor.step,pending] at taken
      rw [matchmake_index taken]
      exact .refl _
    | accepted => simp only [Executor.step,pending,reduceCtorEq] at taken
    | rejected missing => simp only [Executor.step,pending,reduceCtorEq] at taken
  | some effects =>
    cases input with
    | event pair event => simp only [Executor.step,pending,reduceCtorEq] at taken
    | focus pair fuel orders funding => simp only [Executor.step,pending,reduceCtorEq] at taken
    | accepted =>
      simp only [Executor.step,pending] at taken
      have grown : Grown ok ({exec with pendingEffects:=none} : Executor P S V T M B U X).index next.index := .accepted (brings effects pending) taken
      exact grown
    | rejected missing =>
      simp only [Executor.step,pending] at taken
      have grown : Grown ok ({exec with pendingEffects:=none} : Executor P S V T M B U X).index next.index := .rejected taken
      exact grown

theorem Reached.history {meets : Executor P S V T M B U X → Input P T M V B → Prop} (brings : ∀ exec input,meets exec input → Brings ok exec input)
    (reached : Reached run meets exec) : Grown ok .new exec.index := by
  induction reached with
  | new time conf context => exact .refl _
  | step _ met taken ih => exact ih.trans (Grown.step (brings _ _ met) taken)

end Steps

section Stored
variable {E S V : Type} [DecidableEq S] [DecidableEq V] [EntitySnapshot E S V] {state next : InMemoryStateIndex E S V}

-- The store keeps every state under its own version, whoever shares it.
def Labelled (state : InMemoryStateIndex E S V) : Prop := ∀ ver e,state.store.lookup ver = some e → version e = ver

theorem Labelled.apply (labelled : Labelled state) (op : IndexOp E S V) : Labelled (state.apply op) := by
  intro ver e found
  cases op with
  | put key value =>
    change (state.put key value).store.lookup ver = some e at found
    rw [InMemoryStateIndex.put_store] at found
    split at found
    · grind
    · split at found
      · cases found
      · exact labelled ver e found
  | invalidate gone =>
    change (state.invalidateVersion gone).store.lookup ver = some e at found
    cases stored : state.store.lookup gone with
    | none =>
      rw [invalidate_none stored] at found
      exact labelled ver e found
    | some entity =>
      rw [invalidate_store stored] at found
      split at found
      · cases found
      · exact labelled ver e found
  | eliminate id => exact labelled ver e (dropAll_less found)

theorem Labelled.grown {ok : E → Prop} (labelled : Labelled state) (grown : Grown ok state next) : Labelled next := by
  obtain ⟨ops,rfl,good⟩ := grown
  clear good
  induction ops generalizing state with
  | nil => exact labelled
  | cons op ops ih => exact ih (labelled.apply op)

-- The version a slot serves once a new state is in the store.
def served (state : InMemoryStateIndex E S V) (new : V) (id : S) (key : StateKey) : Option V :=
  (state.index.lookup (key,id)).filter (fun ver => ver = new ∨ (state.store.lookup ver).isSome = true)

theorem Labelled.written (labelled : Labelled state) (key : StateKey) (value : E) :
    (resolveState (stableId value) (state.put key value)).map version =
      ((above key).findSome? (served state (version value) (stableId value))).or (some (version value)) := by
  have slot : ∀ k ∈ above key,((state.put key value).get k (stableId value)).map version = served state (version value) (stableId value) k := by
    intro k member
    have other : k ≠ key := fun here => not_above key (here ▸ member)
    unfold InMemoryStateIndex.get served
    rw [InMemoryStateIndex.put_index,if_neg (fun both => other (Prod.mk.inj both).1)]
    cases bound : state.index.lookup (k,stableId value) with
    | none => rfl
    | some ver =>
      have elsewhere : ver ∈ state.boundVersions key (stableId value) := InMemoryStateIndex.mem_boundVersions.mpr ⟨k,other,bound⟩
      rw [Option.bind_some,InMemoryStateIndex.put_store,Option.filter_some]
      by_cases same : ver = version value
      · simp [same]
      · rw [if_neg same,if_neg (fun both => both.2 elsewhere)]
        cases stored : state.store.lookup ver with
        | none => simp [same]
        | some e => simp [labelled ver e stored]
  have here : (state.put key value).get key (stableId value) = some value := by
    unfold InMemoryStateIndex.get
    rw [InMemoryStateIndex.put_index,if_pos rfl,Option.bind_some,InMemoryStateIndex.put_store,if_pos rfl]
  obtain ⟨below,split⟩ := resolveKeys_split key
  unfold resolveState
  rw [split,List.findSome?_append,List.findSome?_cons,here,Option.map_or,List.map_findSome?]
  congr 1
  exact findSome_congr slot

end Stored

section Consumed
variable {P S V T M B U X : Type} [DecidableEq P] [DecidableEq S] [DecidableEq V] [Stable T S] [Stable M S] [QuasiPermanent T] [QuasiPermanent M]
  [Ord T] [MarketTaker T U] [TakerBehaviour T] [MarketMaker M T U] [MakerBehavior M T] [Add U] [Zero U] [LT U] [DecidableLT U]
  {run : List (Execution T M B) → B → X → Option (List (ExecutionEff (EvolvingEntity T M V B)) × X)} {exec : Executor P S V T M B U X}

def Serves (exec : Executor P S V T M B U X) (id : S) (ver : V) : Prop := ∃ e,resolveState id exec.index = some e ∧ version e = ver

-- A confirmed transition goes to the slot that is asked last: the consumed state
-- is served on exactly if one of the other slots serves it.
theorem consumed_unserved_iff (reached : Reached run (fun _ _ => True) exec) {old new : EvolvingEntity T M V B} {id : S} (named : stableId new = id)
    (distinct : version old ≠ version new) :
    ¬Serves (exec.updateState (.ledger (.forward (.both old new)))).1 id (version old) ↔
      [StateKey.lastPredicted,.lastUnconfirmed,.fallback].findSome? (served exec.index (version new) id) ≠ some (version old) := by
  subst named
  have grown : Grown (fun _ => True) .new exec.index := by
    refine reached.history (fun exec input _ => ?_)
    cases input with
    | event pair event => exact trivial
    | focus pair fuel orders funding => exact trivial
    | accepted => exact fun _ _ _ _ => trivial
    | rejected missing => exact trivial
  have labelled : Labelled exec.index := Labelled.grown (fun _ _ found => by cases found) grown
  have after := labelled.written .lastConfirmed new
  unfold Serves
  rw [updateState_confirmed]
  change ¬(∃ e,resolveState (stableId new) (exec.index.put .lastConfirmed new) = some e ∧ version e = version old) ↔ _
  rw [← Option.map_eq_some_iff,after]
  change ¬(([StateKey.lastPredicted,.lastUnconfirmed,.fallback].findSome? (served exec.index (version new) (stableId new))).or (some (version new))
    = some (version old)) ↔ _
  cases first : [StateKey.lastPredicted,.lastUnconfirmed,.fallback].findSome? (served exec.index (version new) (stableId new)) with
  | none => simp [Ne.symm distinct]
  | some ver => simp

end Consumed

section Stale
open Green.Recorded Pools.NoEstimates
open Account (AssetClass OutputRef Token FinalizedTxOut)
open Green (GreenOrder ExUnits)
open Pools (RoyaltyPool)

-- A state of one pool at an output of a transaction.
def poolAt (tx : Nat) : EvolvingEntity GreenOrder RoyaltyPool OutputRef (FinalizedTxOut Unit) :=
  ⟨.inr ⟨Book.adaPool,⟨Mpf.digestOf tx,0⟩⟩,⟨(),⟨Mpf.digestOf tx,0⟩⟩⟩

def poolPair : AssetClass × AssetClass := (Book.adaPool.base,Book.adaPool.quote)

def accepted : Input (AssetClass × AssetClass) GreenOrder RoyaltyPool OutputRef (FinalizedTxOut Unit) :=
  .event poolPair (.mempool (.forward (.right (poolAt 1))))

def confirmed : Input (AssetClass × AssetClass) GreenOrder RoyaltyPool OutputRef (FinalizedTxOut Unit) :=
  .event poolPair (.ledger (.forward (.right (poolAt 1))))

def seenConfirmed : GreenExecutor := (fresh.step neverRun confirmed).getD fresh

def seenTwice : GreenExecutor := (((fresh.step neverRun accepted).getD fresh).step neverRun confirmed).getD fresh

theorem seenConfirmed_reached : Reached neverRun (fun _ _ => True) seenConfirmed :=
  .step (.new 0 Book.adaConf ()) trivial (some_getD (by decide) fresh)

theorem seenTwice_reached : Reached neverRun (fun _ _ => True) seenTwice :=
  .step (.step (.new 0 Book.adaConf ()) trivial (some_getD (by decide) fresh)) trivial (some_getD (by decide) fresh)

theorem consumed_unserved_confirmed : ¬Serves (seenConfirmed.updateState (.ledger (.forward (.both (poolAt 1) (poolAt 2))))).1 Book.adaPool.id (version (poolAt 1)) :=
  (consumed_unserved_iff seenConfirmed_reached rfl (by decide)).mpr (by decide)

-- The state that was seen in the mempool stays in the unconfirmed slot when it
-- is confirmed, and is served when a later block consumes it.
theorem consumed_served : Reached neverRun (fun _ _ => True) seenTwice ∧ version (poolAt 1) ≠ version (poolAt 2) ∧
    version (poolAt 1) ∉ seenTwice.skipFilter.filter ∧ version (poolAt 2) ∉ seenTwice.skipFilter.filter ∧
    Serves (seenTwice.updateState (.ledger (.forward (.both (poolAt 1) (poolAt 2))))).1 (stableId (poolAt 1)) (version (poolAt 1)) := by
  refine ⟨seenTwice_reached,by decide,by decide,by decide,poolAt 1,?_,rfl⟩
  decide

end Stale
end GreenAgent.Engine
