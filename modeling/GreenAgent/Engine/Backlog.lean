import GreenAgent.Engine.CircularFilter
import GreenAgent.Lib.PriorityQueue

namespace GreenAgent.Engine

class UniqueOrder (O : Type) (I : outParam Type) where
  getSelfRef : O → I

class Weighted (O : Type) where
  weight : O → ℚ

inductive BacklogCall (I O : Type) where
  | put (ord : O)
  | tryPop
  | remove (id : I)
  | softEvict (id : I)

namespace BacklogCall
variable {I O : Type}

def evictions (calls : List (BacklogCall I O)) : List I := calls.filterMap fun
  | .softEvict id => some id
  | _ => none

-- What the calls do to the filter of soft evicted orders.
def filterOps (calls : List (BacklogCall I O)) : List (FilterOp I) := calls.filterMap fun
  | .softEvict id => some (.add id)
  | .remove id => some (.remove id)
  | _ => none

theorem filterOps_append (calls more : List (BacklogCall I O)) : filterOps (calls ++ more) = filterOps calls ++ filterOps more := List.filterMap_append

theorem mem_filterOps {calls : List (BacklogCall I O)} {id : I} : .add id ∈ filterOps calls ↔ .softEvict id ∈ calls := by
  constructor
  · intro member
    obtain ⟨call,inside,made⟩ := List.mem_filterMap.mp member
    cases call with
    | softEvict other =>
      cases made
      exact inside
    | put ord => cases made
    | tryPop => cases made
    | remove other => cases made
  · exact fun member => List.mem_filterMap.mpr ⟨_,member,rfl⟩

theorem evictions_eq (calls : List (BacklogCall I O)) : (filterOps calls).filterMap FilterOp.added = evictions calls := by
  unfold filterOps evictions
  rw [List.filterMap_filterMap]
  refine List.filterMap_congr (fun call _ => ?_)
  cases call <;> rfl

end BacklogCall

structure HotPriorityBacklog {I : Type} [DecidableEq I] (pq : PriorityQueue I ℚ) (O : Type) where
  queue : pq.Queue
  store : HashMap I O
  softEvictedOrders : CircularFilter I
  capacity : Nat

namespace HotPriorityBacklog
open UniqueOrder Weighted BacklogCall
variable {I O : Type} [DecidableEq I] {pq : PriorityQueue I ℚ}

def new (capacity : Nat) : HotPriorityBacklog pq O := ⟨pq.new,∅,.new,capacity⟩

def exists_ (b : HotPriorityBacklog pq O) (id : I) : Bool := (b.store.lookup id).isSome

theorem exists_eq_false {b : HotPriorityBacklog pq O} {id : I} : b.exists_ id = false ↔ b.store.lookup id = none := by
  unfold exists_
  simp

def tryPop (b : HotPriorityBacklog pq O) : HotPriorityBacklog pq O × Option O :=
  match _popped : pq.pop b.queue with
  | none => (b,none)
  | some ((oid,_),rest) =>
    match b.store.lookup oid with
    | some ord => ({b with queue:=rest,store:=b.store.erase oid,capacity:=b.capacity + 1},some ord)
    | none => tryPop {b with queue:=rest}
termination_by pq.len b.queue
decreasing_by exact pq.pop_len _ _ _ _popped

theorem tryPop_empty {b : HotPriorityBacklog pq O} (empty : pq.pop b.queue = none) : b.tryPop = (b,none) := by
  rw [tryPop]
  split
  · rfl
  · rename_i popped
    cases popped.symm.trans empty

theorem tryPop_stored {b : HotPriorityBacklog pq O} (popped : pq.pop b.queue = some ((oid,w),rest)) (found : b.store.lookup oid = some ord) :
    b.tryPop = ({b with queue:=rest,store:=b.store.erase oid,capacity:=b.capacity + 1},some ord) := by
  rw [tryPop]
  split
  · rename_i empty
    cases empty.symm.trans popped
  · rename_i top
    cases top.symm.trans popped
    rw [found]

theorem tryPop_stale {b : HotPriorityBacklog pq O} (popped : pq.pop b.queue = some ((oid,w),rest)) (absent : b.store.lookup oid = none) :
    b.tryPop = tryPop {b with queue:=rest} := by
  rw [tryPop]
  split
  · rename_i empty
    cases empty.symm.trans popped
  · rename_i top
    cases top.symm.trans popped
    rw [absent]

theorem tryPop_filter (b : HotPriorityBacklog pq O) : b.tryPop.1.softEvictedOrders = b.softEvictedOrders := by
  induction b using tryPop.induct with
  | case1 b empty => rw [tryPop_empty empty]
  | case2 b oid w rest popped ord found => rw [tryPop_stored popped found]
  | case3 b oid w rest popped absent ih => rw [tryPop_stale popped absent,ih]

def remove (b : HotPriorityBacklog pq O) (id : I) : HotPriorityBacklog pq O :=
  {b with
    softEvictedOrders:=b.softEvictedOrders.remove id
    store:=b.store.erase id
    capacity:=if b.exists_ id then b.capacity + 1 else b.capacity}

def softEvict (b : HotPriorityBacklog pq O) (id : I) : HotPriorityBacklog pq O := {b with softEvictedOrders:=b.softEvictedOrders.add id}

section Orders
variable [UniqueOrder O I] [Weighted O]

def put (b : HotPriorityBacklog pq O) (ord : O) : HotPriorityBacklog pq O :=
  let id := getSelfRef ord
  if b.capacity > 0 ∧ b.exists_ id = false ∧ b.softEvictedOrders.contains id = false then
    {b with queue:=pq.push b.queue id (weight ord),store:=b.store.insert id ord,capacity:=b.capacity - 1}
  else b

-- The backlog after a call, with the order the call returns.
def step (b : HotPriorityBacklog pq O) : BacklogCall I O → HotPriorityBacklog pq O × Option O
  | .put ord => (b.put ord,none)
  | .tryPop => b.tryPop
  | .remove id => (b.remove id,none)
  | .softEvict id => (b.softEvict id,none)

def runFrom (b : HotPriorityBacklog pq O) (calls : List (BacklogCall I O)) : HotPriorityBacklog pq O := calls.foldl (fun b call => (b.step call).1) b

def run (pq : PriorityQueue I ℚ) (capacity : Nat) (calls : List (BacklogCall I O)) : HotPriorityBacklog pq O := runFrom (new capacity) calls

def Eligible (b : HotPriorityBacklog pq O) (ord : O) : Prop :=
  b.store.lookup (getSelfRef ord) = some ord ∧ b.softEvictedOrders.contains (getSelfRef ord) = false

-- Nothing eligible outweighs the order that is returned, and nothing eligible
-- is left behind when none is.
def PopsBest (b : HotPriorityBacklog pq O) : Prop :=
  (∀ ord,b.tryPop.2 = some ord → b.store.lookup (getSelfRef ord) = some ord ∧ ∀ other,b.Eligible other → weight other ≤ weight ord) ∧
  (b.tryPop.2 = none → ∀ other,¬b.Eligible other)

def Shuts (b : HotPriorityBacklog pq O) (id : I) : Prop :=
  (∀ ord,getSelfRef ord = id → b.put ord = b) ∧ ∀ ord,b.tryPop.2 = some ord → getSelfRef ord ≠ id

@[grind cases eager] structure Orderly (pq : PriorityQueue I ℚ) (capacity : Nat) (calls : List (BacklogCall I O)) : Prop where
  room : (run pq capacity calls).capacity + (run pq capacity calls).store.keys.length = capacity
  best : (run pq capacity calls).PopsBest
  shut : ∀ before id later,calls = before ++ .softEvict id :: later → .remove id ∉ later → (evictions later).length < CircularFilter.capacity →
    (run pq capacity calls).Shuts id

-- At every point of a run, also if orders are popped and ids follow that were
-- never seen before.
def StaysOrderly (pq : PriorityQueue I ℚ) (capacity : Nat) (calls : List (BacklogCall I O)) : Prop :=
  ∀ before later pops (fresh : List I),calls = before ++ later → fresh.Nodup →
    (∀ id ∈ fresh,.softEvict id ∉ before ∧ ∀ ord,.put ord ∈ before → getSelfRef ord ≠ id) →
    Orderly pq capacity (before ++ List.replicate pops .tryPop ++ fresh.map .softEvict)

-- An id is evicted while its order is not stored, and its entry in the filter,
-- if there is one, is the newest.
def MayEvict (b : HotPriorityBacklog pq O) : BacklogCall I O → Prop
  | .softEvict id => b.exists_ id = false ∧ b.softEvictedOrders.Fresh (.add id)
  | _ => True

def Careful : HotPriorityBacklog pq O → List (BacklogCall I O) → Prop
  | _,[] => True
  | b,call :: calls => b.MayEvict call ∧ Careful (b.step call).1 calls

theorem runFrom_append (b : HotPriorityBacklog pq O) (calls more : List (BacklogCall I O)) : b.runFrom (calls ++ more) = (b.runFrom calls).runFrom more :=
  List.foldl_append

theorem Careful.append {b : HotPriorityBacklog pq O} {calls more : List (BacklogCall I O)} :
    Careful b (calls ++ more) ↔ Careful b calls ∧ Careful (b.runFrom calls) more := by
  induction calls generalizing b with
  | nil => simp [Careful,runFrom]
  | cons call calls ih =>
    simp only [List.cons_append,Careful,ih,and_assoc]
    rfl

theorem not_careful {b : HotPriorityBacklog pq O} {calls : List (BacklogCall I O)} (wrong : ¬Careful b calls) :
    ∃ before id later,calls = before ++ .softEvict id :: later ∧ Careful b before ∧ ¬(b.runFrom before).MayEvict (.softEvict id) := by
  induction calls generalizing b with
  | nil => exact absurd trivial wrong
  | cons call calls ih =>
    by_cases first : b.MayEvict call
    · obtain ⟨before,id,later,rfl,careful,bad⟩ := ih (fun rest => wrong ⟨first,rest⟩)
      exact ⟨call :: before,id,later,rfl,⟨first,careful⟩,bad⟩
    · cases call with
      | softEvict id => exact ⟨[],id,calls,rfl,trivial,first⟩
      | put ord => exact absurd trivial first
      | tryPop => exact absurd trivial first
      | remove id => exact absurd trivial first

-- Stale entries may be in the queue, but every stored order is there with its
-- own weight.
def Queued (b : HotPriorityBacklog pq O) : Prop :=
  ∀ id ord,b.store.lookup id = some ord → getSelfRef ord = id ∧ pq.priority b.queue id = some (weight ord)

theorem tryPop_cases {b : HotPriorityBacklog pq O} (queued : b.Queued) : b.tryPop.1.Queued ∧ ∃ queue,
    ((∀ id,b.store.lookup id = none) ∧ b.tryPop = ({b with queue:=queue},none)) ∨
    ∃ ord,b.store.lookup (getSelfRef ord) = some ord ∧ (∀ id other,b.store.lookup id = some other → weight other ≤ weight ord) ∧
      b.tryPop = ({b with queue:=queue,store:=b.store.erase (getSelfRef ord),capacity:=b.capacity + 1},some ord) := by
  induction b using tryPop.induct with
  | case1 b empty =>
    rw [tryPop_empty empty]
    refine ⟨queued,b.queue,.inl ⟨fun id => ?_,rfl⟩⟩
    cases found : b.store.lookup id with
    | none => rfl
    | some ord => cases (queued id ord found).2.symm.trans (pq.pop_none _ id empty)
  | case2 b oid w rest popped ord found =>
    rw [tryPop_stored popped found]
    obtain ⟨rfl,own⟩ := queued oid ord found
    have same : w = weight ord := Option.some.inj ((pq.pop_priority _ _ _ _ popped).symm.trans own)
    refine ⟨fun id other kept => ?_,rest,.inr ⟨ord,found,fun id other inside => ?_,rfl⟩⟩
    · dsimp only at kept
      rw [HashMap.lookup_erase] at kept
      obtain ⟨apart,kept⟩ := Option.ite_none_left_eq_some.mp kept
      obtain ⟨reference,priority⟩ := queued id other kept
      refine ⟨reference,?_⟩
      rw [pq.pop_rest _ _ _ _ popped,if_neg apart,priority]
    · rw [← same]
      exact pq.pop_highest _ _ _ _ popped id _ (queued id other inside).2
  | case3 b oid w rest popped absent ih =>
    rw [tryPop_stale popped absent]
    apply ih
    intro id ord found
    obtain ⟨reference,priority⟩ := queued id ord found
    refine ⟨reference,?_⟩
    have apart : id ≠ oid := by
      rintro rfl
      cases absent.symm.trans found
    rw [pq.pop_rest _ _ _ _ popped,if_neg apart,priority]

@[grind cases eager] structure Consistent (initial : Nat) (b : HotPriorityBacklog pq O) : Prop where
  room : b.capacity + b.store.keys.length = initial
  queued : b.Queued

theorem Consistent.put {initial : Nat} {b : HotPriorityBacklog pq O} (consistent : Consistent initial b) (ord : O) : Consistent initial (b.put ord) := by
  unfold HotPriorityBacklog.put
  dsimp only
  split
  · rename_i accepted
    obtain ⟨positive,absent,_⟩ := accepted
    have missing := exists_eq_false.mp absent
    refine ⟨?_,fun id other found => ?_⟩
    · have unknown : getSelfRef ord ∉ b.store.keys := AList.lookup_eq_none.mp missing
      dsimp only
      rw [AList.keys_insert,List.erase_of_not_mem unknown,List.length_cons]
      have room := consistent.room
      omega
    · dsimp only at found ⊢
      rw [HashMap.lookup_insert] at found
      rw [pq.priority_push]
      split at found
      · rename_i own
        cases found
        exact ⟨own.symm,by rw [if_pos own]⟩
      · rename_i apart
        rw [if_neg apart]
        exact consistent.queued id other found
  · exact consistent

theorem Consistent.remove {initial : Nat} {b : HotPriorityBacklog pq O} (consistent : Consistent initial b) (id : I) : Consistent initial (b.remove id) := by
  refine ⟨?_,fun other ord found => ?_⟩
  · unfold HotPriorityBacklog.remove
    have room := consistent.room
    cases found : b.store.lookup id with
    | none =>
      have unknown : id ∉ b.store.keys := AList.lookup_eq_none.mp found
      have same : (b.store.erase id).keys = b.store.keys := by rw [AList.keys_erase,List.erase_of_not_mem unknown]
      dsimp only
      rw [same,if_neg (by simp [exists_,found])]
      exact room
    | some ord =>
      have shorter := HashMap.erase_length found
      dsimp only
      rw [if_pos (by simp [exists_,found])]
      omega
  · have kept : (b.store.erase id).lookup other = some ord := found
    rw [HashMap.lookup_erase] at kept
    exact consistent.queued other ord (Option.ite_none_left_eq_some.mp kept).2

theorem Consistent.tryPop {initial : Nat} {b : HotPriorityBacklog pq O} (consistent : Consistent initial b) : Consistent initial b.tryPop.1 := by
  obtain ⟨queued,queue,⟨_,same⟩ | ⟨ord,found,_,same⟩⟩ := tryPop_cases consistent.queued
  · refine ⟨?_,queued⟩
    rw [same]
    exact consistent.room
  · refine ⟨?_,queued⟩
    rw [same]
    have room := consistent.room
    have shorter := HashMap.erase_length found
    dsimp only
    omega

theorem Consistent.step {initial : Nat} {b : HotPriorityBacklog pq O} (consistent : Consistent initial b) (call : BacklogCall I O) :
    Consistent initial (b.step call).1 := by
  cases call with
  | put ord => exact consistent.put ord
  | tryPop => exact consistent.tryPop
  | remove id => exact consistent.remove id
  | softEvict id => exact ⟨consistent.room,consistent.queued⟩

theorem Consistent.run {initial : Nat} {b : HotPriorityBacklog pq O} (consistent : Consistent initial b) (calls : List (BacklogCall I O)) :
    Consistent initial (b.runFrom calls) := by
  induction calls generalizing b with
  | nil => exact consistent
  | cons call calls ih => exact ih (consistent.step call)

theorem consistent_run (pq : PriorityQueue I ℚ) (initial : Nat) (calls : List (BacklogCall I O)) : Consistent initial (run pq initial calls) := by
  have start : Consistent initial (new initial : HotPriorityBacklog pq O) := ⟨rfl,fun _ _ found => by cases found⟩
  exact start.run calls

theorem Consistent.popsBest {initial : Nat} {b : HotPriorityBacklog pq O} (consistent : Consistent initial b) : b.PopsBest := by
  obtain ⟨_,queue,⟨empty,same⟩ | ⟨ord,found,best,same⟩⟩ := tryPop_cases consistent.queued
  · unfold PopsBest
    rw [same]
    exact ⟨nofun,fun _ other eligible => nomatch (empty _).symm.trans eligible.1⟩
  · unfold PopsBest
    rw [same]
    refine ⟨fun top popped => ?_,nofun⟩
    cases popped
    exact ⟨found,fun other eligible => best _ other eligible.1⟩

theorem step_filter (b : HotPriorityBacklog pq O) (call : BacklogCall I O) :
    (b.step call).1.softEvictedOrders = .runFrom CircularFilter.capacity b.softEvictedOrders (filterOps [call]) := by
  cases call with
  | put ord =>
    simp only [step,put]
    split <;> rfl
  | tryPop => exact b.tryPop_filter
  | remove id => rfl
  | softEvict id => exact CircularFilter.add_eq _ id

theorem runFrom_filter (b : HotPriorityBacklog pq O) (calls : List (BacklogCall I O)) :
    (b.runFrom calls).softEvictedOrders = .runFrom CircularFilter.capacity b.softEvictedOrders (filterOps calls) := by
  induction calls generalizing b with
  | nil => rfl
  | cons call calls ih =>
    have rest : b.runFrom (call :: calls) = (b.step call).1.runFrom calls := rfl
    have split : filterOps (call :: calls) = filterOps [call] ++ filterOps calls := filterOps_append [call] calls
    rw [rest,ih,step_filter,split,CircularFilter.runFrom_append]

theorem Careful.fresh {b : HotPriorityBacklog pq O} {calls : List (BacklogCall I O)} (careful : Careful b calls) :
    CircularFilter.FreshFrom CircularFilter.capacity b.softEvictedOrders (filterOps calls) := by
  induction calls generalizing b with
  | nil => trivial
  | cons call calls ih =>
    obtain ⟨first,careful⟩ := careful
    have split : filterOps (call :: calls) = filterOps [call] ++ filterOps calls := filterOps_append [call] calls
    rw [split]
    refine CircularFilter.FreshFrom.append.mpr ⟨?_,?_⟩
    · cases call with
      | softEvict id => exact ⟨first.2,trivial⟩
      | put ord => trivial
      | tryPop => trivial
      | remove id => exact ⟨trivial,trivial⟩
    · rw [← step_filter]
      exact ih careful

theorem step_stored {initial : Nat} {b : HotPriorityBacklog pq O} (consistent : Consistent initial b) {call : BacklogCall I O} {id : I}
    (absent : b.exists_ id = false) (stored : (b.step call).1.exists_ id = true) :
    ∃ ord,call = .put ord ∧ getSelfRef ord = id ∧ b.softEvictedOrders.contains id = false := by
  have missing := exists_eq_false.mp absent
  have erased : ∀ other,(b.store.erase other).lookup id = none := by
    intro other
    rw [HashMap.lookup_erase,missing,ite_self]
  cases call with
  | put ord =>
    simp only [step,put] at stored
    split at stored
    · rename_i accepted
      by_cases own : getSelfRef ord = id
      · subst own
        exact ⟨ord,rfl,rfl,accepted.2.2⟩
      · rw [exists_,HashMap.lookup_insert,if_neg (Ne.symm own),missing] at stored
        cases stored
    · rw [absent] at stored
      cases stored
  | tryPop =>
    obtain ⟨_,queue,⟨_,same⟩ | ⟨ord,_,_,same⟩⟩ := tryPop_cases consistent.queued
    · rw [step,same,exists_,missing] at stored
      cases stored
    · rw [step,same,exists_,erased] at stored
      cases stored
  | remove other =>
    rw [step,exists_,remove,erased] at stored
    cases stored
  | softEvict other =>
    rw [step,exists_,softEvict,missing] at stored
    cases stored

theorem run_snoc (pq : PriorityQueue I ℚ) (initial : Nat) (calls : List (BacklogCall I O)) (call : BacklogCall I O) :
    run pq initial (calls ++ [call]) = ((run pq initial calls).step call).1 := runFrom_append _ _ _

theorem run_filter (pq : PriorityQueue I ℚ) (initial : Nat) (calls : List (BacklogCall I O)) :
    (run pq initial calls).softEvictedOrders = .run CircularFilter.capacity (filterOps calls) := runFrom_filter _ _

theorem run_stored (pq : PriorityQueue I ℚ) (initial : Nat) {calls : List (BacklogCall I O)} {id : I} (unput : ∀ ord,.put ord ∈ calls → getSelfRef ord ≠ id) :
    (run pq initial calls).exists_ id = false := by
  induction calls using List.reverseRecOn with
  | nil => rfl
  | append_singleton calls call ih =>
    have absent := ih (fun ord member => unput ord (List.mem_append_left _ member))
    rw [run_snoc]
    refine Bool.eq_false_iff.mpr (fun stored => ?_)
    obtain ⟨ord,rfl,own,_⟩ := step_stored (consistent_run pq initial calls) absent stored
    exact unput ord (List.mem_append_right _ List.mem_cons_self) own

-- A careful eviction holds until the id is removed, or as many others follow as
-- the filter has slots.
theorem Careful.filtered {initial : Nat} {before later : List (BacklogCall I O)} {id : I}
    (careful : Careful (new initial : HotPriorityBacklog pq O) (before ++ .softEvict id :: later)) (kept : .remove id ∉ later)
    (few : (evictions later).length < CircularFilter.capacity) :
    (run pq initial (before ++ .softEvict id :: later)).softEvictedOrders.contains id = true := by
  have split : filterOps (before ++ .softEvict id :: later) = filterOps before ++ .add id :: filterOps later := filterOps_append _ _
  have fresh := careful.fresh
  rw [run_filter,split]
  rw [split] at fresh
  refine CircularFilter.freshFrom_kept fresh (filterOps before) id (filterOps later) rfl (CircularFilter.spares_kept ?_ ?_) ?_
  · intro member
    obtain ⟨call,inside,made⟩ := List.mem_filterMap.mp member
    cases call with
    | remove other =>
      cases made
      exact kept inside
    | put ord => cases made
    | tryPop => cases made
    | softEvict other => cases made
  · intro member
    obtain ⟨call,_,made⟩ := List.mem_filterMap.mp member
    cases call <;> cases made
  · unfold CircularFilter.othersAdded
    rw [evictions_eq]
    exact ((Finset.card_le_card (Finset.erase_subset _ _)).trans (List.toFinset_card_le _)).trans_lt few

theorem Careful.unstored {initial : Nat} {before later : List (BacklogCall I O)} {id : I}
    (careful : Careful (new initial : HotPriorityBacklog pq O) (before ++ .softEvict id :: later)) (kept : .remove id ∉ later)
    (few : (evictions later).length < CircularFilter.capacity) : (run pq initial (before ++ .softEvict id :: later)).exists_ id = false := by
  induction later using List.reverseRecOn with
  | nil =>
    rw [run_snoc]
    exact (Careful.append.mp careful).2.1.1
  | append_singleton later call ih =>
    have shape : before ++ BacklogCall.softEvict id :: (later ++ [call]) = (before ++ .softEvict id :: later) ++ [call] := by simp
    rw [shape] at careful ⊢
    have shorter : (evictions later).length ≤ (evictions (later ++ [call])).length := by
      rw [evictions,evictions,List.filterMap_append,List.length_append]
      exact Nat.le_add_right _ _
    have earlier := (Careful.append.mp careful).1
    have spared : .remove id ∉ later := fun member => kept (List.mem_append_left _ member)
    have absent := ih earlier spared (shorter.trans_lt few)
    have guarded := earlier.filtered spared (shorter.trans_lt few)
    rw [run_snoc]
    refine Bool.eq_false_iff.mpr (fun stored => ?_)
    obtain ⟨_,_,_,open_⟩ := step_stored (consistent_run pq initial _) absent stored
    cases open_.symm.trans guarded

theorem Careful.orderly {initial : Nat} {calls : List (BacklogCall I O)} (careful : Careful (new initial : HotPriorityBacklog pq O) calls) :
    Orderly pq initial calls := by
  have consistent := consistent_run pq initial calls
  refine ⟨consistent.room,consistent.popsBest,?_⟩
  rintro before id later rfl kept few
  have guarded := careful.filtered kept few
  have absent := exists_eq_false.mp (careful.unstored kept few)
  refine ⟨fun ord own => ?_,fun ord popped own => ?_⟩
  · unfold put
    dsimp only
    rw [own,guarded,if_neg (fun accepted => Bool.noConfusion accepted.2.2)]
  · have found := (consistent.popsBest.1 ord popped).1
    rw [own,absent] at found
    cases found

theorem careful_fresh (initial : Nat) {calls : List (BacklogCall I O)} {ids : List I} (nodup : ids.Nodup)
    (unseen : ∀ id ∈ ids,.softEvict id ∉ calls ∧ ∀ ord,.put ord ∈ calls → getSelfRef ord ≠ id) :
    Careful (run pq initial calls) (ids.map .softEvict) := by
  induction ids generalizing calls with
  | nil => trivial
  | cons id ids ih =>
    obtain ⟨apart,nodup⟩ := List.nodup_cons.mp nodup
    obtain ⟨unevicted,unput⟩ := unseen id List.mem_cons_self
    refine ⟨⟨run_stored pq initial unput,.inl (fun entry => ?_)⟩,?_⟩
    · rw [run_filter] at entry
      rcases (CircularFilter.runFrom_added _ _ _).2 entry with empty | added
      · cases empty
      · exact unevicted (mem_filterOps.mp added)
    · rw [← run_snoc]
      refine ih nodup (fun other member => ?_)
      obtain ⟨unevicted,unput⟩ := unseen other (List.mem_cons_of_mem _ member)
      refine ⟨fun inside => ?_,fun ord inside => ?_⟩
      · rcases List.mem_append.mp inside with inside | inside
        · exact unevicted inside
        · cases List.mem_singleton.mp inside
          exact apart member
      · rcases List.mem_append.mp inside with inside | inside
        · exact unput ord inside
        · cases List.mem_singleton.mp inside

theorem careful_pops (b : HotPriorityBacklog pq O) (pops : Nat) : Careful b (List.replicate pops .tryPop) := by
  induction pops generalizing b with
  | zero => trivial
  | succ pops ih => exact ⟨trivial,ih _⟩

theorem Careful.staysOrderly {initial : Nat} {calls : List (BacklogCall I O)} (careful : Careful (new initial : HotPriorityBacklog pq O) calls) :
    StaysOrderly pq initial calls := by
  rintro before later pops ids rfl nodup unseen
  have popped : Careful (new initial : HotPriorityBacklog pq O) (before ++ List.replicate pops .tryPop) :=
    Careful.append.mpr ⟨(Careful.append.mp careful).1,careful_pops _ pops⟩
  refine Careful.orderly (Careful.append.mpr ⟨popped,careful_fresh initial nodup (fun id member => ?_)⟩)
  obtain ⟨unevicted,unput⟩ := unseen id member
  refine ⟨fun inside => ?_,fun ord inside => ?_⟩
  · rcases List.mem_append.mp inside with inside | inside
    · exact unevicted inside
    · cases List.eq_of_mem_replicate inside
  · rcases List.mem_append.mp inside with inside | inside
    · exact unput ord inside
    · cases List.eq_of_mem_replicate inside

theorem orderly_zero (pq : PriorityQueue I ℚ) (calls : List (BacklogCall I O)) : Orderly pq 0 calls := by
  have consistent := consistent_run pq 0 calls
  have room := consistent.room
  refine ⟨room,consistent.popsBest,fun _ _ _ _ _ _ => ⟨fun ord _ => ?_,fun ord popped _ => ?_⟩⟩
  · unfold put
    exact if_neg (fun accepted => absurd accepted.1 (by omega))
  · have stored := HashMap.erase_length (consistent.popsBest.1 ord popped).1
    omega

theorem popped_after {initial : Nat} {b : HotPriorityBacklog pq O} (consistent : Consistent initial b) {id : I} (stored : b.exists_ id = true) :
    ∃ pops ord,getSelfRef ord = id ∧ (b.runFrom (List.replicate pops .tryPop)).tryPop.2 = some ord := by
  induction size : b.store.keys.length generalizing b with
  | zero =>
    obtain ⟨ord,found⟩ := Option.isSome_iff_exists.mp stored
    have shorter := HashMap.erase_length found
    omega
  | succ size ih =>
    have next := consistent.tryPop
    obtain ⟨_,queue,⟨empty,_⟩ | ⟨ord,found,_,same⟩⟩ := tryPop_cases consistent.queued
    · rw [exists_,empty] at stored
      cases stored
    · by_cases own : getSelfRef ord = id
      · exact ⟨0,ord,own,by rw [List.replicate_zero,runFrom,List.foldl_nil,same]⟩
      · have shorter := HashMap.erase_length found
        rw [same] at next
        have kept : exists_ {b with queue:=queue,store:=b.store.erase (getSelfRef ord),capacity:=b.capacity + 1} id = true := by
          rw [exists_,HashMap.lookup_erase,if_neg (Ne.symm own)]
          exact stored
        obtain ⟨pops,last,named,popped⟩ := ih next kept (by dsimp only; omega)
        refine ⟨pops + 1,last,named,?_⟩
        have first : b.runFrom (List.replicate (pops + 1) .tryPop) = b.tryPop.1.runFrom (List.replicate pops .tryPop) := rfl
        rw [first,same]
        exact popped

theorem StaysOrderly.unstored {initial : Nat} {before later : List (BacklogCall I O)} {id : I}
    (orderly : StaysOrderly pq initial (before ++ .softEvict id :: later)) : (run pq initial before).exists_ id = false := by
  refine Bool.eq_false_iff.mpr (fun stored => ?_)
  have evicted : (run pq initial (before ++ [.softEvict id])).exists_ id = true := by
    rw [run_snoc]
    exact stored
  obtain ⟨pops,ord,own,popped⟩ := popped_after (consistent_run pq initial _) evicted
  have always := orderly (before ++ [.softEvict id]) later pops [] (by simp) List.nodup_nil (fun _ member => nomatch member)
  have shape : before ++ [BacklogCall.softEvict id] ++ List.replicate pops .tryPop ++ [].map .softEvict =
      before ++ .softEvict id :: List.replicate pops .tryPop := by simp
  rw [shape] at always
  have none_evicted : evictions (List.replicate pops (BacklogCall.tryPop : BacklogCall I O)) = [] := by
    simp [evictions]
  have shut := always.shut before id _ rfl (fun member => nomatch List.eq_of_mem_replicate member) (by rw [none_evicted]; exact Nat.succ_pos 255)
  refine shut.2 ord ?_ own
  rw [← popped,run,← List.singleton_append,← List.append_assoc,runFrom_append]
  rfl

theorem popped_room {initial : Nat} {b : HotPriorityBacklog pq O} (consistent : Consistent initial b) (positive : 0 < initial) : 0 < b.tryPop.1.capacity := by
  have room := consistent.room
  obtain ⟨_,queue,⟨empty,same⟩ | ⟨ord,_,_,same⟩⟩ := tryPop_cases consistent.queued
  · rw [same]
    have none : b.store.keys = [] := List.eq_nil_iff_forall_not_mem.mpr (fun id => AList.lookup_eq_none.mp (empty id))
    rw [none] at room
    exact positive.trans_eq room.symm
  · rw [same]
    exact Nat.succ_pos _

theorem evicting_keeps (b : HotPriorityBacklog pq O) (ids : List I) :
    (b.runFrom (ids.map .softEvict)).capacity = b.capacity ∧ (b.runFrom (ids.map .softEvict)).store = b.store := by
  induction ids generalizing b with
  | nil => exact ⟨rfl,rfl⟩
  | cons id ids ih => exact ih (b.softEvict id)

theorem readmitted {initial : Nat} {before : List (BacklogCall I O)} {id : I} {ids : List I} {ord : O} (positive : 0 < initial)
    (absent : (run pq initial before).exists_ id = false)
    (lost : id ∉ (CircularFilter.runFrom CircularFilter.capacity
      ((CircularFilter.run CircularFilter.capacity (filterOps before)).apply CircularFilter.capacity (.add id)) (ids.map .add)).filter)
    (own : getSelfRef ord = id) :
    (run pq initial (before ++ [.softEvict id] ++ List.replicate 1 .tryPop ++ ids.map .softEvict)).put ord ≠
      run pq initial (before ++ [.softEvict id] ++ List.replicate 1 .tryPop ++ ids.map .softEvict) := by
  have filtered := run_filter pq initial (before ++ [.softEvict id] ++ List.replicate 1 .tryPop ++ ids.map .softEvict)
  have ops : filterOps (before ++ [.softEvict id] ++ List.replicate 1 .tryPop ++ ids.map .softEvict : List (BacklogCall I O)) =
      filterOps before ++ [.add id] ++ ids.map .add := by
    simp [filterOps,List.filterMap_map]
  rw [ops,CircularFilter.run,CircularFilter.runFrom_append,CircularFilter.runFrom_append] at filtered
  have popped : run pq initial (before ++ [.softEvict id] ++ List.replicate 1 .tryPop) = ((run pq initial before).softEvict id).tryPop.1 := by
    rw [List.replicate_one,run_snoc,run_snoc]
    rfl
  have last : run pq initial (before ++ [.softEvict id] ++ List.replicate 1 .tryPop ++ ids.map .softEvict) =
      ((run pq initial before).softEvict id).tryPop.1.runFrom (ids.map .softEvict) := by
    rw [← popped]
    exact runFrom_append _ _ _
  have consistent := (consistent_run pq initial before).step (.softEvict id)
  obtain ⟨room,store⟩ := evicting_keeps ((run pq initial before).softEvict id).tryPop.1 ids
  have unstored : ((run pq initial before).softEvict id).tryPop.1.exists_ id = false := by
    refine Bool.eq_false_iff.mpr (fun stored => ?_)
    have after : (((run pq initial before).softEvict id).step .tryPop).1.exists_ id = true := stored
    obtain ⟨_,put,_⟩ := step_stored consistent absent after
    cases put
  rw [last] at filtered ⊢
  intro same
  have taken := congrArg HotPriorityBacklog.capacity same
  have free := popped_room consistent positive
  rw [put,own,if_pos] at taken
  · dsimp only at taken
    rw [room] at taken
    change 0 < ((run pq initial before).softEvict id).tryPop.1.capacity at free
    omega
  · refine ⟨by rw [room]; exact free,?_,?_⟩
    · rw [exists_,store]
      exact unstored
    · rw [filtered]
      exact decide_eq_false lost

def named (calls : List (BacklogCall I O)) : Finset I := (calls.filterMap fun
  | .put ord => some (getSelfRef ord)
  | .softEvict id => some id
  | _ => none).toFinset

theorem backlog_orderly_iff (pq : PriorityQueue I ℚ) (capacity : Nat) (calls : List (BacklogCall I O)) :
    (capacity = 0 ∨ Careful (new capacity : HotPriorityBacklog pq O) calls → StaysOrderly pq capacity calls) ∧
    (Infinite I → Function.Surjective (getSelfRef : O → I) → StaysOrderly pq capacity calls →
      capacity = 0 ∨ Careful (new capacity : HotPriorityBacklog pq O) calls) := by
  refine ⟨?_,fun infinite every orderly => ?_⟩
  · rintro (rfl | careful)
    · exact fun _ _ _ _ _ _ _ => orderly_zero pq _
    · exact careful.staysOrderly
  · by_contra neither
    obtain ⟨positive,wrong⟩ := not_or.mp neither
    obtain ⟨before,id,later,rfl,earlier,bad⟩ := not_careful wrong
    have absent := orderly.unstored
    have stale : ¬(run pq capacity before).softEvictedOrders.Fresh (.add id) := fun fresh => bad ⟨absent,fresh⟩
    have tidy := earlier.fresh.tidy (CircularFilter.tidy_new _)
    rw [run_filter] at stale
    obtain ⟨ids,nodup,apart,count,lost⟩ := CircularFilter.not_fresh_evicted tidy stale (named (before ++ [.softEvict id]))
    have unseen : ∀ other ∈ ids,.softEvict other ∉ before ++ [.softEvict id] ∧ ∀ ord,.put ord ∈ before ++ [.softEvict id] → getSelfRef ord ≠ other := by
      intro other member
      refine ⟨fun inside => apart other member ?_,fun ord inside own => apart other member ?_⟩
      · exact List.mem_toFinset.mpr (List.mem_filterMap.mpr ⟨_,inside,rfl⟩)
      · exact List.mem_toFinset.mpr (List.mem_filterMap.mpr ⟨_,inside,congrArg some own⟩)
    have always := orderly (before ++ [.softEvict id]) later 1 ids (by simp) nodup unseen
    have few : (evictions (List.replicate 1 .tryPop ++ ids.map .softEvict : List (BacklogCall I O))).length < CircularFilter.capacity := by
      have all : evictions (List.replicate 1 .tryPop ++ ids.map .softEvict : List (BacklogCall I O)) = ids := by
        simp [evictions,List.filterMap_map]
      rwa [all]
    have shut := always.shut before id (List.replicate 1 .tryPop ++ ids.map .softEvict) (by simp) (by simp) few
    obtain ⟨ord,own⟩ := every id
    -- after one order is popped and the new ids are evicted, the old id is let in again
    exact readmitted (Nat.pos_of_ne_zero positive) absent lost own (shut.1 ord own)

end Orders

namespace SmallBacklog

structure Ticket where
  id : Nat

instance : UniqueOrder Ticket Nat := ⟨Ticket.id⟩

instance : Weighted Ticket := ⟨fun _ => 1⟩

abbrev tickets : PriorityQueue Nat ℚ := .ofMap Nat ℚ

end SmallBacklog

open SmallBacklog in
-- The order is in the backlog when its id is evicted, and is returned by the
-- next call.
theorem evicted_order_returned : (run tickets 2 [.put ⟨7⟩,.softEvict 7]).tryPop.2 = some (⟨7⟩ : Ticket) ∧
    ¬Orderly tickets 2 [BacklogCall.put (⟨7⟩ : Ticket),.softEvict 7] ∧ ¬StaysOrderly tickets 2 [BacklogCall.put (⟨7⟩ : Ticket),.softEvict 7] := by
  have popped : (run tickets 2 [.put ⟨7⟩,.softEvict 7]).tryPop.2 = some (⟨7⟩ : Ticket) := by
    have top : tickets.pop (run tickets 2 [.put (⟨7⟩ : Ticket),.softEvict 7]).queue = some ((7,1),tickets.new) := rfl
    rw [tryPop_stored top rfl]
  have unsound : ¬Orderly tickets 2 [BacklogCall.put (⟨7⟩ : Ticket),.softEvict 7] := by
    intro orderly
    have shut := orderly.shut [.put ⟨7⟩] 7 [] rfl (by simp) (by decide)
    exact shut.2 ⟨7⟩ popped rfl
  refine ⟨popped,unsound,fun stays => unsound ?_⟩
  exact stays [.put ⟨7⟩,.softEvict 7] [] 0 [] rfl List.nodup_nil (fun _ member => nomatch member)

end HotPriorityBacklog
end GreenAgent.Engine
