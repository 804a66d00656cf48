import GreenAgent.Engine.Index
import GreenAgent.Book.Attempt

namespace GreenAgent.Engine
open Book (Stable stableId Trans TerminalTake TLBState IdleState MatchmakingRecipe ExecutionConfig HashOrder MarketTaker TakerBehaviour
  MarketMaker MakerBehavior)

structure Baked (T V : Type) where
  entity : T
  version : V
deriving DecidableEq

structure Bundled (T B : Type) where
  entity : T
  bearer : B
deriving DecidableEq

-- An order or a pool.
abbrev Snapshot (T M V : Type) := Baked T V ⊕ Baked M V

abbrev EvolvingEntity (T M V B : Type) := Bundled (Snapshot T M V) B

instance [Stable T S] [Stable M S] [QuasiPermanent T] [QuasiPermanent M] : EntitySnapshot (EvolvingEntity T M V B) S V where
  stableId e := e.entity.elim (fun o => stableId o.entity) (fun p => stableId p.entity)
  isQuasiPermanent e := e.entity.elim (fun o => isQuasiPermanent o.entity) (fun p => isQuasiPermanent p.entity)
  version e := e.entity.elim (fun o => o.version) (fun p => p.version)

inductive Ior (α β : Type) where
  | left (a : α)
  | right (b : β)
  | both (a : α) (b : β)
deriving DecidableEq

inductive Transition (α : Type) where
  | forward (change : Ior α α)
  | backward (change : Ior α α)

inductive Channel (α : Type) where
  | ledger (update : α)
  | mempool (update : α)
  | localTxSubmit (update : α)

namespace Transition

def change : Transition α → Ior α α
  | .forward change => change
  | .backward change => change

def isRollback : Transition α → Bool
  | .forward _ => false
  | .backward _ => true

-- The state an update brings, or takes away.
def subject (transition : Transition α) : α :=
  match transition.change with
  | .left spent => spent
  | .right new => new
  | .both _ new => new

end Transition

namespace Channel

def update : Channel α → α
  | .ledger update => update
  | .mempool update => update
  | .localTxSubmit update => update

def fromLedger : Channel α → Bool
  | .ledger _ => true
  | _ => false

def fromMempool : Channel α → Bool
  | .mempool _ => true
  | _ => false

end Channel

-- The last elements added; a ring of `capacity` slots says which is the oldest.
structure CircularFilter (V : Type) where
  buffer : List V
  filter : Finset V

namespace CircularFilter
variable {V : Type} [DecidableEq V]

def capacity : Nat := 256

def new : CircularFilter V := ⟨[],∅⟩

def add (set : CircularFilter V) (a : V) : CircularFilter V :=
  if a ∈ set.filter then set
  else if set.buffer.length < capacity then ⟨set.buffer ++ [a],insert a set.filter⟩
  else match set.buffer with
    | [] => {set with filter:=insert a set.filter}
    | evicted :: rest => ⟨rest ++ [a],(insert a set.filter).erase evicted⟩

-- The ring keeps the element.
def remove (set : CircularFilter V) (a : V) : CircularFilter V := {set with filter:=set.filter.erase a}

end CircularFilter

inductive ExecutionEff (E : Type) where
  | updated (elim upd : E)
  | eliminated (elim : E)

namespace ExecutionEff

def consumed : ExecutionEff E → E
  | .updated elim _ => elim
  | .eliminated elim => elim

def transition : ExecutionEff E → Transition E
  | .updated elim upd => .forward (.both elim upd)
  | .eliminated elim => .forward (.left elim)

end ExecutionEff

structure ExecutionEffectsByPair (P T M V B : Type) where
  pair : P
  consumedVersions : List V
  pendingEffects : List (ExecutionEff (EvolvingEntity T M V B))

-- What a new book starts with.
structure MakerContext (U : Type) where
  time : Nat
  conf : ExecutionConfig U

structure MultiPair (P T S M U : Type) where
  books : HashMap P (TLBState T S M)
  context : MakerContext U

-- The backlog, the funding pool, the focus set and the health reports are left
-- out; `context` is what the interpreter of recipes works on.
structure Executor (P S V T M B U X : Type) where
  index : InMemoryStateIndex (EvolvingEntity T M V B) S V
  multiBook : MultiPair P T S M U
  skipFilter : CircularFilter V
  pendingEffects : Option (ExecutionEffectsByPair P T M V B)
  context : X

abbrev Execution (T M B : Type) := Trans (Bundled T B) T TerminalTake ⊕ Trans (Bundled M B) M Empty

section
variable {P S V T M B U X : Type} [DecidableEq P] [DecidableEq S] [DecidableEq V] [Stable T S] [Stable M S] [QuasiPermanent T] [QuasiPermanent M]

def Executor.new (time : Nat) (conf : ExecutionConfig U) (context : X) : Executor P S V T M B U X :=
  ⟨.new,⟨∅,⟨time,conf⟩⟩,.new,none,context⟩

namespace MultiPair

def getMut (books : MultiPair P T S M U) (pair : P) : TLBState T S M := (books.books.lookup pair).getD (.new books.context.time)

def set (books : MultiPair P T S M U) (pair : P) (book : TLBState T S M) : MultiPair P T S M U :=
  {books with books:=AList.insert pair book books.books}

end MultiPair

section Books
variable [Ord T] [MarketTaker T U] [TakerBehaviour T]

-- A book in the middle of a preview cannot be changed from outside: the source
-- panics there.
def requiringSettledState (f : IdleState T S M → IdleState T S M) : TLBState T S M → Option (TLBState T S M)
  | .idle state => some (.idle (f state))
  | .partialPreview _ => none
  | .preview _ => none

def updateTaker (t : T) : TLBState T S M → Option (TLBState T S M) :=
  requiringSettledState (fun state => {state with takers:=state.takers.addFragment t})

def removeTaker (t : T) : TLBState T S M → Option (TLBState T S M) :=
  requiringSettledState (fun state => {state with takers:=state.takers.removeFragment t})

def updateMaker (maker : M) : TLBState T S M → Option (TLBState T S M) :=
  requiringSettledState (fun state => {state with makers:=AList.insert (stableId maker) maker state.makers})

def removeMaker (maker : M) : TLBState T S M → Option (TLBState T S M) :=
  requiringSettledState (fun state => {state with makers:=AList.erase (stableId maker) state.makers})

end Books

def toTransition : Option (EvolvingEntity T M V B) → Option (EvolvingEntity T M V B) → Option (Ior (Snapshot T M V) (Snapshot T M V))
  | some elim,none => some (.left elim.entity)
  | none,some new => some (.right new.entity)
  | some prev,some new => some (.both prev.entity new.entity)
  | none,none => none

-- Every target gets the output of the state it is resolved to.
def linkTargets (link : S → Option (V × B)) : List (Trans T T TerminalTake ⊕ Trans M M Empty) → List (Execution T M B) × List V × List (T ⊕ M)
  | [] => ([],[],[])
  | instruction :: rest =>
    let (linked,versions,orphans) := linkTargets link rest
    match instruction with
    | .inl take => match link (stableId take.target) with
      | some (ver,bearer) => (.inl ⟨⟨take.target,bearer⟩,take.result⟩ :: linked,ver :: versions,orphans)
      | none => (linked,versions,.inl take.target :: orphans)
    | .inr make => match link (stableId make.target) with
      | some (ver,bearer) => (.inr ⟨⟨make.target,bearer⟩,make.result⟩ :: linked,ver :: versions,orphans)
      | none => (linked,versions,.inr make.target :: orphans)

def link (find : S → Option (V × B)) (recipe : MatchmakingRecipe T M) : Except (List (T ⊕ M)) (List (Execution T M B) × List V) :=
  let (linked,versions,orphans) := linkTargets find recipe.instructions
  if orphans.isEmpty then .ok (linked,versions) else .error orphans

namespace Executor

-- A new state: what it is resolved to before and after decides what the book
-- hears of it.
def observe (exec : Executor P S V T M B U X) (key : StateKey) (stateToRollback : Option V) (newState : EvolvingEntity T M V B) :
    Executor P S V T M B U X × Option (Ior (Snapshot T M V) (Snapshot T M V)) :=
  let id := stableId newState
  let before := resolveState id exec.index
  let index := match stateToRollback with
    | some ver => exec.index.invalidateVersion ver
    | none => exec.index
  let index := index.put key newState
  ({exec with index:=index},toTransition before (resolveState id index))

def onState (exec : Executor P S V T M B U X) (fromLedger fromMempool isRollback : Bool) (stateToRollback : Option V)
    (newState : EvolvingEntity T M V B) : Executor P S V T M B U X × Option (Ior (Snapshot T M V) (Snapshot T M V)) :=
  let ver := version newState
  let key := if fromLedger then .lastConfirmed else if fromMempool then .lastUnconfirmed else .lastPredicted
  if ver ∈ exec.skipFilter.filter then
    if isRollback then observe {exec with skipFilter:=exec.skipFilter.remove ver} key stateToRollback newState
    else ({exec with index:=exec.index.put (if fromLedger then .lastConfirmed else .fallback) newState},none)
  else observe exec key stateToRollback newState

def onSpent (exec : Executor P S V T M B U X) (fromLedger fromMempool : Bool) (spent : EvolvingEntity T M V B) :
    Executor P S V T M B U X × Option (Ior (Snapshot T M V) (Snapshot T M V)) :=
  let id := stableId spent
  if fromLedger && isQuasiPermanent spent then ({exec with index:=exec.index.put .fallback spent},none)
  else if fromMempool && isQuasiPermanent spent then
    let before := resolveState id exec.index
    let index := exec.index.invalidateVersion (version spent)
    let after := resolveState id index
    ({exec with index:=index},if before.map version = after.map version then none else toTransition before after)
  else
    let index := if fromLedger || !isQuasiPermanent spent then exec.index.eliminate id else exec.index
    ({exec with index:=index},some (.left spent.entity))

def updateState (exec : Executor P S V T M B U X) (update : Channel (Transition (EvolvingEntity T M V B))) :
    Executor P S V T M B U X × Option (Ior (Snapshot T M V) (Snapshot T M V)) :=
  let isRollback := update.update.isRollback
  match update.update.change with
  | .left spent => exec.onSpent update.fromLedger update.fromMempool spent
  | .right new => exec.onState update.fromLedger update.fromMempool isRollback none new
  | .both old new => exec.onState update.fromLedger update.fromMempool isRollback (if isRollback then some (version old) else none) new

def link (exec : Executor P S V T M B U X) (recipe : MatchmakingRecipe T M) : Except (List (T ⊕ M)) (List (Execution T M B) × List V) :=
  Engine.link (fun id => (resolveState id exec.index).map (fun e => (version e,e.bearer))) recipe

section Books
variable [Ord T] [MarketTaker T U] [TakerBehaviour T]

def withBook (exec : Executor P S V T M B U X) (pair : P) (f : TLBState T S M → Option (TLBState T S M)) : Option (Executor P S V T M B U X) :=
  (f (exec.multiBook.getMut pair)).map (fun book => {exec with multiBook:=exec.multiBook.set pair book})

-- A pool that turns into an order is out of the question: the source panics.
def syncBook (exec : Executor P S V T M B U X) (pair : P) : Ior (Snapshot T M V) (Snapshot T M V) → Option (Executor P S V T M B U X)
  | .left (.inl o) => exec.withBook pair (removeTaker o.entity)
  | .left (.inr p) => exec.withBook pair (removeMaker p.entity)
  | .both (.inl old) (.inl new) => exec.withBook pair (fun book => (removeTaker old.entity book).bind (updateTaker new.entity))
  | .both _ (.inr new) => exec.withBook pair (updateMaker new.entity)
  | .both (.inr _) (.inl _) => none
  | .right (.inl new) => exec.withBook pair (updateTaker new.entity)
  | .right (.inr new) => exec.withBook pair (updateMaker new.entity)

def syncAny (exec : Executor P S V T M B U X) (pair : P) : Option (Ior (Snapshot T M V) (Snapshot T M V)) → Option (Executor P S V T M B U X)
  | some transition => exec.syncBook pair transition
  | none => some exec

def onPairEvent (exec : Executor P S V T M B U X) (pair : P) (event : Channel (Transition (EvolvingEntity T M V B))) :
    Option (Executor P S V T M B U X) :=
  let (exec,transition) := exec.updateState event
  exec.syncAny pair transition

-- A version that is not in the store is a panic.
def invalidateVersion (exec : Executor P S V T M B U X) (pair : P) (ver : V) : Option (Executor P S V T M B U X) :=
  match exec.index.getState ver with
  | none => none
  | some state =>
    let id := stableId state
    let before := resolveState id exec.index
    let index := exec.index.invalidateVersion ver
    syncAny {exec with index:=index} pair (toTransition before (resolveState id index))

def onEffect (pair : P) (exec : Executor P S V T M B U X) (effect : ExecutionEff (EvolvingEntity T M V B)) : Option (Executor P S V T M B U X) :=
  onPairEvent {exec with skipFilter:=exec.skipFilter.add (version effect.consumed)} pair (.localTxSubmit effect.transition)

-- The effects are taken from the end.
def onExecutionEffectsSuccess (exec : Executor P S V T M B U X) (effects : ExecutionEffectsByPair P T M V B) : Option (Executor P S V T M B U X) := do
  let exec ← exec.withBook effects.pair (fun book => some book.commit)
  effects.pendingEffects.reverse.foldlM (onEffect effects.pair) exec

def poisonous (effects : List (ExecutionEff (EvolvingEntity T M V B))) : List T :=
  effects.filterMap (fun effect => effect.consumed.entity.elim (fun o => some o.entity) (fun _ => none))

-- `missingInputs` is what the error of the node could be read as.
def onExecutionEffectsFailure (exec : Executor P S V T M B U X) (missingInputs : Option (List V)) (effects : ExecutionEffectsByPair P T M V B) :
    Option (Executor P S V T M B U X) := do
  let exec ← exec.withBook effects.pair (fun book => some (book.rollback .unstash))
  match missingInputs with
  | some missing => (missing.filter (fun ver => ver ∈ effects.consumedVersions)).foldlM (fun exec ver => exec.invalidateVersion effects.pair ver) exec
  | none => (poisonous effects.pendingEffects).foldlM (fun exec order => exec.withBook effects.pair (removeTaker order)) exec

def onLinkageFailure (exec : Executor P S V T M B U X) (pair : P) (orphans : List (T ⊕ M)) : Option (Executor P S V T M B U X) := do
  let exec ← exec.withBook pair (fun book => some (book.rollback .unstash))
  orphans.foldlM (fun exec orphan => exec.withBook pair (orphan.elim removeTaker removeMaker)) exec

variable [MarketMaker M T U] [MakerBehavior M T] [Add U] [Zero U] [LT U] [DecidableLT U]

-- One attempt to match the orders of a pair. The interpreter runs a linked
-- recipe on a funding output, if there is one; `none` where it panics.
def matchmake (run : List (Execution T M B) → B → X → Option (List (ExecutionEff (EvolvingEntity T M V B)) × X))
    (fuel : Nat) (orders : Nat → HashOrder) (funding : Option B) (exec : Executor P S V T M B U X) (pair : P) : Option (Executor P S V T M B U X) := do
  let outcome ← Book.attempt fuel exec.multiBook.context.conf orders (exec.multiBook.getMut pair)
  let exec := {exec with multiBook:=exec.multiBook.set pair outcome.state}
  match outcome.recipe with
  | none => some exec
  | some recipe => match exec.link recipe with
    | .error orphans => exec.onLinkageFailure pair orphans
    | .ok (linked,consumed) => match funding with
      | none => exec.withBook pair (fun book => some (book.rollback .unstash))
      | some funding => do
        let (effects,context) ← run linked funding exec.context
        some {exec with context:=context,pendingEffects:=some ⟨pair,consumed,effects⟩}

end Books
end Executor
end
end GreenAgent.Engine
