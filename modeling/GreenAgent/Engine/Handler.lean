import GreenAgent.Engine.Executor
import GreenAgent.Account.Types

namespace GreenAgent.Engine
open Account (OutputRef)
open Book (stableId HashOrder)

-- The index of an event handler: the states it has seen by version. A state
-- that was consumed goes when its time in the queue has come.
structure InMemoryEntityIndex (E V : Type) where
  store : HashMap V E
  evictionQueue : List (Nat × V)
  evictionDelay : Nat

namespace InMemoryEntityIndex
variable {E S V : Type} [DecidableEq V]

def new (evictionDelay : Nat) : InMemoryEntityIndex E V := ⟨∅,[],evictionDelay⟩

def put (index : InMemoryEntityIndex E V) (id : V) (value : E) : InMemoryEntityIndex E V := {index with store:=AList.insert id value index.store}

-- `pairOf` is not modelled, and with it the pairs that are kept for good.
def putState [EntitySnapshot E S V] (index : InMemoryEntityIndex E V) (state : E) : InMemoryEntityIndex E V := index.put (version state) state

def getState (index : InMemoryEntityIndex E V) (ver : V) : Option E := index.store.lookup ver

def registerForEviction (now : Nat) (index : InMemoryEntityIndex E V) (ver : V) : InMemoryEntityIndex E V :=
  {index with evictionQueue:=index.evictionQueue ++ [(now + index.evictionDelay,ver)]}

-- The queue is left at the first entry that is not due.
def evict (now : Nat) : HashMap V E → List (Nat × V) → HashMap V E × List (Nat × V)
  | store,[] => (store,[])
  | store,(ts,ver) :: rest => if ts ≤ now then evict now (AList.erase ver store) rest else (store,(ts,ver) :: rest)

def runEviction (now : Nat) (index : InMemoryEntityIndex E V) : InMemoryEntityIndex E V :=
  let (store,queue) := evict now index.store index.evictionQueue
  {index with store:=store,evictionQueue:=queue}

-- What a run of the eviction at a time takes away.
def due (now : Nat) (index : InMemoryEntityIndex E V) : List V := (index.evictionQueue.takeWhile (fun entry => entry.1 ≤ now)).map Prod.snd

theorem evict_lookup (now : Nat) (store : HashMap V E) (queue : List (Nat × V)) (ver : V) :
    (evict now store queue).1.lookup ver = if ver ∈ (queue.takeWhile (fun entry => entry.1 ≤ now)).map Prod.snd then none else store.lookup ver := by
  induction queue generalizing store with
  | nil => rfl
  | cons entry rest ih =>
    obtain ⟨ts,first⟩ := entry
    unfold evict
    by_cases passed : ts ≤ now
    · have taken : ((ts,first) :: rest).takeWhile (fun entry => decide (entry.1 ≤ now)) =
          (ts,first) :: rest.takeWhile (fun entry => decide (entry.1 ≤ now)) := by simp_all
      grind
    · rw [if_neg passed]
      simp [passed]

theorem runEviction_getState (now : Nat) (index : InMemoryEntityIndex E V) (ver : V) :
    (index.runEviction now).getState ver = if ver ∈ index.due now then none else index.getState ver := evict_lookup ..

theorem putState_getState [EntitySnapshot E S V] (index : InMemoryEntityIndex E V) (state : E) (ver : V) :
    (index.putState state).getState ver = if ver = version state then some state else index.getState ver := HashMap.lookup_insert ..

end InMemoryEntityIndex

namespace Ior

def tryFrom : Option α → Option β → Option (Ior α β)
  | some a,some b => some (.both a b)
  | some a,none => some (.left a)
  | none,some b => some (.right b)
  | none,none => none

def swap : Ior α β → Ior β α
  | .left a => .right a
  | .right b => .left b
  | .both a b => .both b a

end Ior

-- What a handler reads of a transaction.
structure TxViewMut (O : Type) where
  hash : Mpf.Digest
  inputs : List OutputRef
  outputs : List (UInt64 × O)

inductive TxEvent (O : Type) where
  | applied (tx : TxViewMut O)
  | unapplied (tx : TxViewMut O)
  | accepted (tx : TxViewMut O)
  | dropped (tx : TxViewMut O)

namespace TxEvent

def tx : TxEvent O → TxViewMut O
  | .applied tx => tx
  | .unapplied tx => tx
  | .accepted tx => tx
  | .dropped tx => tx

end TxEvent

section Extraction
variable {E S O : Type} [DecidableEq S] [EntitySnapshot E S OutputRef]

-- Entities by stable id; the last one of an id stays.
def collected (list : List (Option E)) : HashMap S E :=
  list.foldl (fun map found => match found with
    | some e => AList.insert (stableId e) e map
    | none => map) ∅

def TxViewMut.consumed (index : InMemoryEntityIndex E OutputRef) (tx : TxViewMut O) : List (Option E) := tx.inputs.map index.getState

-- `read` is `try_from_ledger` in the context of an output.
def TxViewMut.produced (read : OutputRef → O → Option E) (tx : TxViewMut O) : List (Option E) :=
  tx.outputs.map (fun output => read ⟨tx.hash,output.1⟩ output.2)

-- Outputs are popped from the end. The keys are a hash set, so the transitions
-- come in any order; the outputs that are left for other handlers are not
-- modelled, and neither is the tracking of graduated pools.
def extractContinuousTransitions (order : HashOrder) (read : OutputRef → O → Option E) (index : InMemoryEntityIndex E OutputRef) (tx : TxViewMut O) :
    Option (List (Ior E E)) :=
  if tx.outputs.isEmpty then none
  else
    let consumed : HashMap S E := collected (tx.consumed index)
    let produced : HashMap S E := collected (tx.produced read).reverse
    let keys := order.reorder 0 (consumed.keys ++ produced.keys).dedup
    let transitions := keys.filterMap (fun key => Ior.tryFrom (consumed.lookup key) (produced.lookup key))
    if transitions.isEmpty then none else some transitions

-- `now` is the clock at the time of the call.
def indexTransition (now : Nat) (index : InMemoryEntityIndex E OutputRef) : Ior E E → InMemoryEntityIndex E OutputRef
  | .left consumed => index.registerForEviction now (version consumed)
  | .right produced => index.putState produced
  | .both consumed produced => (index.registerForEviction now (version consumed)).putState produced

-- What a transition of a transaction is to the index and to the executor. A
-- dropped transaction is indexed as it was when it came.
def TxEvent.indexed : TxEvent O → Ior E E → Ior E E
  | .applied _,tr => tr
  | .unapplied _,tr => tr.swap
  | .accepted _,tr => tr
  | .dropped _,tr => tr

def TxEvent.reported : TxEvent O → Ior E E → Channel (Transition E)
  | .applied _,tr => .ledger (.forward tr)
  | .unapplied _,tr => .ledger (.backward tr.swap)
  | .accepted _,tr => .mempool (.forward tr)
  | .dropped _,tr => .mempool (.backward tr.swap)

-- The clock is read by the eviction and then once for each transition.
def tryHandle (clock : Nat → Nat) (order : HashOrder) (read : OutputRef → O → Option E) (index : InMemoryEntityIndex E OutputRef) (event : TxEvent O) :
    InMemoryEntityIndex E OutputRef × List (Channel (Transition E)) :=
  match extractContinuousTransitions order read index event.tx with
  | none => (index,[])
  | some transitions =>
    let indexed := (transitions.map event.indexed).zipIdx.foldl (fun index tr => indexTransition (clock (tr.2 + 1)) index tr.1) (index.runEviction (clock 0))
    (indexed,transitions.map event.reported)

-- The last entity of an id in a list.
def lastOf (id : S) (list : List (Option E)) : Option E := list.reverse.findSome? (fun found => found.filter (fun e => stableId e = id))

theorem collected_lookup (list : List (Option E)) (id : S) : (collected list).lookup id = lastOf id list := by
  have folded : ∀ map : HashMap S E,(list.foldl (fun map found => match found with
      | some e => AList.insert (stableId e) e map
      | none => map) map).lookup id = (lastOf id list).or (map.lookup id) := by
    induction list with
    | nil => intro map; rfl
    | cons found rest ih =>
      intro map
      rw [List.foldl_cons,ih]
      unfold lastOf
      grind
  unfold collected
  rw [folded]
  exact Option.or_none

theorem lastOf_some {id : S} {list : List (Option E)} {e : E} (found : lastOf id list = some e) : some e ∈ list ∧ stableId e = id := by
  obtain ⟨item,member,here⟩ := List.exists_of_findSome?_eq_some found
  obtain ⟨same,named⟩ := Option.filter_eq_some_iff.mp here
  grind

theorem lastOf_none {id : S} {list : List (Option E)} : lastOf id list = none ↔ ∀ e,some e ∈ list → stableId e ≠ id := by
  unfold lastOf
  rw [List.findSome?_eq_none_iff]
  constructor
  · intro missing e member same
    have gone := missing (some e) (List.mem_reverse.mpr member)
    simp [same] at gone
  · intro missing found member
    cases found with
    | none => rfl
    | some e => simp [missing e (List.mem_reverse.mp member)]

-- The transition of one entity in a transaction.
def TxViewMut.transitionOf (read : OutputRef → O → Option E) (index : InMemoryEntityIndex E OutputRef) (tx : TxViewMut O) (id : S) : Option (Ior E E) :=
  Ior.tryFrom (lastOf id (tx.consumed index)) (lastOf id (tx.produced read).reverse)

theorem mem_keys {map : HashMap K W} [DecidableEq K] {key : K} : key ∈ map.keys ↔ ∃ value,map.lookup key = some value := by
  rw [← AList.mem_keys,← AList.lookup_isSome,Option.isSome_iff_exists]

theorem extract_eq (order : HashOrder) (read : OutputRef → O → Option E) (index : InMemoryEntityIndex E OutputRef) (tx : TxViewMut O) :
    ∃ keys : List S,keys.Nodup ∧ (∀ id,id ∈ keys ↔ (tx.transitionOf read index id).isSome = true) ∧
      (extractContinuousTransitions order read index tx).getD [] = if tx.outputs = [] then [] else keys.filterMap (tx.transitionOf read index) := by
  refine ⟨order.reorder 0 ((collected (tx.consumed index)).keys ++ (collected (tx.produced read).reverse).keys).dedup,
    (order.perm 0 _).nodup_iff.mpr (List.nodup_dedup _),fun id => ?_,?_⟩
  · rw [(order.perm 0 _).mem_iff,List.mem_dedup,List.mem_append,mem_keys,mem_keys,collected_lookup,collected_lookup]
    unfold TxViewMut.transitionOf
    cases lastOf id (tx.consumed index) <;> cases lastOf id (tx.produced read).reverse <;> simp [Ior.tryFrom]
  · unfold extractContinuousTransitions
    by_cases empty : tx.outputs = []
    · grind
    · rw [if_neg empty,if_neg (by rw [List.isEmpty_iff]; exact empty)]
      simp only [collected_lookup]
      split
      · rename_i none_found
        exact (List.isEmpty_iff.mp none_found).symm
      · rfl

theorem tryHandle_reported (clock : Nat → Nat) (order : HashOrder) (read : OutputRef → O → Option E) (index : InMemoryEntityIndex E OutputRef)
    (event : TxEvent O) :
    (tryHandle clock order read index event).2 = ((extractContinuousTransitions order read index event.tx).getD []).map event.reported := by
  unfold tryHandle
  cases extractContinuousTransitions order read index event.tx with
  | none => rfl
  | some transitions => rfl

end Extraction
end GreenAgent.Engine
