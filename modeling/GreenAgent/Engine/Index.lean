import GreenAgent.Lib.HashMap
import GreenAgent.Book.Types

namespace GreenAgent.Engine
open Book (Stable stableId)

-- Entities that outlive every state of theirs, such as pools.
class QuasiPermanent (E : Type) where
  isQuasiPermanent : E → Bool

export QuasiPermanent (isQuasiPermanent)

-- A state of an entity that is the same entity in every state.
class EntitySnapshot (E : Type) (S V : outParam Type) extends Stable E S, QuasiPermanent E where
  version : E → V

export EntitySnapshot (version)

inductive StateKey where
  | lastConfirmed
  | lastUnconfirmed
  | lastPredicted
  | fallback
deriving DecidableEq

def allStateKeys : List StateKey := [.lastConfirmed,.lastUnconfirmed,.lastPredicted,.fallback]

def ephemeralStateKeys : List StateKey := [.lastUnconfirmed,.lastPredicted,.fallback]

-- The keys of `index` are one byte and the sixty bytes of the stable id.
structure InMemoryStateIndex (E S V : Type) where
  store : HashMap V E
  index : HashMap (StateKey × S) V

namespace InMemoryStateIndex
variable {E S V : Type} [DecidableEq S] [DecidableEq V]

def new : InMemoryStateIndex E S V := ⟨∅,∅⟩

def get (state : InMemoryStateIndex E S V) (key : StateKey) (id : S) : Option E := (state.index.lookup (key,id)).bind state.store.lookup

def getState (state : InMemoryStateIndex E S V) (ver : V) : Option E := state.store.lookup ver

def boundVersions (state : InMemoryStateIndex E S V) (key : StateKey) (id : S) : List V :=
  (allStateKeys.filter (fun p => p ≠ key)).filterMap (fun p => state.index.lookup (p,id))

variable [EntitySnapshot E S V]

-- The old version stays in the store only if another key of the same entity is
-- bound to it; the new one is stored under its version alone.
def put (state : InMemoryStateIndex E S V) (key : StateKey) (value : E) : InMemoryStateIndex E S V :=
  let id := stableId value
  let store := match state.index.lookup (key,id) with
    | some oldVer => if oldVer ∈ state.boundVersions key id then state.store else AList.erase oldVer state.store
    | none => state.store
  {store:=AList.insert (version value) value store,index:=AList.insert (key,id) (version value) state.index}

def unbind (ver : V) (id : S) (index : HashMap (StateKey × S) V) (key : StateKey) : HashMap (StateKey × S) V :=
  if index.lookup (key,id) = some ver then AList.erase (key,id) index else index

def invalidateVersion (state : InMemoryStateIndex E S V) (ver : V) : InMemoryStateIndex E S V :=
  match state.store.lookup ver with
  | none => state
  | some entity =>
    let id := stableId entity
    -- the confirmed state of a quasi permanent entity cannot be dropped
    let permanent := isQuasiPermanent entity && decide (state.index.lookup (.lastConfirmed,id) = some ver)
    let index := if permanent then state.index else unbind ver id state.index .lastConfirmed
    {store:=if permanent then state.store else AList.erase ver state.store,
     index:=ephemeralStateKeys.foldl (unbind ver id) index}

def drop (id : S) (state : InMemoryStateIndex E S V) (key : StateKey) : InMemoryStateIndex E S V :=
  match state.index.lookup (key,id) with
  | some ver => {store:=AList.erase ver state.store,index:=AList.erase (key,id) state.index}
  | none => state

def eliminate (state : InMemoryStateIndex E S V) (id : S) : InMemoryStateIndex E S V := allStateKeys.foldl (drop id) state

end InMemoryStateIndex

-- The calls that change the index; `putConfirmed` and the like are `put` at
-- their key.
inductive IndexOp (E S V : Type) where
  | put (key : StateKey) (value : E)
  | invalidate (ver : V)
  | eliminate (id : S)

namespace InMemoryStateIndex
variable {E S V : Type} [DecidableEq S] [DecidableEq V] [EntitySnapshot E S V]

def apply (state : InMemoryStateIndex E S V) : IndexOp E S V → InMemoryStateIndex E S V
  | .put key value => state.put key value
  | .invalidate ver => state.invalidateVersion ver
  | .eliminate id => state.eliminate id

def after (ops : List (IndexOp E S V)) : InMemoryStateIndex E S V := ops.foldl apply .new

end InMemoryStateIndex

section Resolver
variable {E S V : Type} [DecidableEq S] [DecidableEq V]

-- The keys in the order they are asked.
def resolveKeys : List StateKey := [.lastPredicted,.lastUnconfirmed,.fallback,.lastConfirmed]

def resolveState (id : S) (index : InMemoryStateIndex E S V) : Option E := resolveKeys.findSome? (fun key => index.get key id)

end Resolver

section Writes
variable {E S V : Type} [DecidableEq S] [DecidableEq V] [EntitySnapshot E S V] {state : InMemoryStateIndex E S V}

namespace InMemoryStateIndex

omit [EntitySnapshot E S V] [DecidableEq V] in
theorem mem_boundVersions {key : StateKey} {id : S} {ver : V} :
    ver ∈ state.boundVersions key id ↔ ∃ p, p ≠ key ∧ state.index.lookup (p,id) = some ver := by
  unfold boundVersions
  simp only [List.mem_filterMap,List.mem_filter,decide_eq_true_eq]
  constructor
  · grind
  · rintro ⟨p,other,found⟩
    exact ⟨p,⟨by cases p <;> decide,other⟩,found⟩

theorem put_store (state : InMemoryStateIndex E S V) (key : StateKey) (value : E) (ver : V) :
    (state.put key value).store.lookup ver =
      if ver = version value then some value
      else if state.index.lookup (key,stableId value) = some ver ∧ ver ∉ state.boundVersions key (stableId value) then none
      else state.store.lookup ver := by
  unfold put
  simp only
  rw [HashMap.lookup_insert]
  by_cases same : ver = version value
  · rw [if_pos same,if_pos same]
  · rw [if_neg same,if_neg same]
    cases old : state.index.lookup (key,stableId value) with
    | none => rw [if_neg (fun both => nomatch both.1)]
    | some oldVer => grind

theorem put_index (state : InMemoryStateIndex E S V) (key : StateKey) (value : E) (k : StateKey) (id : S) :
    (state.put key value).index.lookup (k,id) = if (k,id) = (key,stableId value) then some (version value) else state.index.lookup (k,id) :=
  HashMap.lookup_insert ..

end InMemoryStateIndex

theorem unbind_lookup (ver : V) (id id' : S) (index : HashMap (StateKey × S) V) (key k : StateKey) :
    (InMemoryStateIndex.unbind ver id index key).lookup (k,id') =
      if (k,id') = (key,id) ∧ index.lookup (key,id) = some ver then none else index.lookup (k,id') := by
  unfold InMemoryStateIndex.unbind
  split
  · grind
  grind

theorem unbindAll_lookup (ver : V) (id : S) (keys : List StateKey) (index : HashMap (StateKey × S) V) (k : StateKey) (id' : S) :
    (keys.foldl (InMemoryStateIndex.unbind ver id) index).lookup (k,id') =
      if k ∈ keys ∧ id' = id ∧ index.lookup (k,id') = some ver then none else index.lookup (k,id') := by
  induction keys generalizing index with
  | nil => simp
  | cons key keys ih =>
    rw [List.foldl_cons,ih,unbind_lookup]
    grind

-- What the invalidation of a stored version does to the bindings and to the
-- store.
theorem invalidate_index {entity : E} (found : state.store.lookup ver = some entity) (key : StateKey) (id : S) :
    (state.invalidateVersion ver).index.lookup (key,id) =
      if id = stableId entity ∧ state.index.lookup (key,id) = some ver ∧ ¬(key = .lastConfirmed ∧ isQuasiPermanent entity = true) then none
      else state.index.lookup (key,id) := by
  have ephemeral : key ∈ ephemeralStateKeys ↔ ¬key = .lastConfirmed := by cases key <;> decide
  unfold InMemoryStateIndex.invalidateVersion
  rw [found]
  simp only
  rw [unbindAll_lookup]
  by_cases permanent : (isQuasiPermanent entity && decide (state.index.lookup (.lastConfirmed,stableId entity) = some ver)) = true
  · grind
  · rw [if_neg permanent,unbind_lookup]
    grind

theorem invalidate_store {entity : E} (found : state.store.lookup ver = some entity) (v : V) :
    (state.invalidateVersion ver).store.lookup v =
      if v = ver ∧ ¬(isQuasiPermanent entity = true ∧ state.index.lookup (.lastConfirmed,stableId entity) = some ver) then none else state.store.lookup v := by
  unfold InMemoryStateIndex.invalidateVersion
  rw [found]
  grind

theorem invalidate_none (missing : state.store.lookup ver = none) : state.invalidateVersion ver = state := by
  unfold InMemoryStateIndex.invalidateVersion
  rw [missing]

omit [EntitySnapshot E S V] in
theorem dropAll_index (id : S) (keys : List StateKey) (state : InMemoryStateIndex E S V) (k : StateKey) (id' : S) :
    (keys.foldl (InMemoryStateIndex.drop id) state).index.lookup (k,id') = if k ∈ keys ∧ id' = id then none else state.index.lookup (k,id') := by
  have one : ∀ (state : InMemoryStateIndex E S V) key, (state.drop id key).index.lookup (k,id') =
      if k = key ∧ id' = id then none else state.index.lookup (k,id') := by
    intro state key
    unfold InMemoryStateIndex.drop
    grind
  induction keys generalizing state with
  | nil => simp
  | cons key keys ih =>
    rw [List.foldl_cons,ih,one]
    grind

omit [EntitySnapshot E S V] in
theorem dropAll_less {id : S} {keys : List StateKey} (found : (keys.foldl (InMemoryStateIndex.drop id) state).store.lookup ver = some e) :
    state.store.lookup ver = some e := by
  induction keys generalizing state with
  | nil => exact found
  | cons key keys ih =>
    have before := ih found
    unfold InMemoryStateIndex.drop at before
    grind

omit [EntitySnapshot E S V] in
theorem dropAll_keeps {id : S} {keys : List StateKey} (apart : ∀ key, state.index.lookup (key,id) ≠ some ver) :
    (keys.foldl (InMemoryStateIndex.drop id) state).store.lookup ver = state.store.lookup ver := by
  induction keys generalizing state with
  | nil => rfl
  | cons key keys ih =>
    rw [List.foldl_cons,ih]
    · unfold InMemoryStateIndex.drop
      grind
    · intro k found
      have one := dropAll_index id [key] state k id
      grind

omit [EntitySnapshot E S V] in
theorem eliminate_index (id gone : S) (key : StateKey) :
    (state.eliminate gone).index.lookup (key,id) = if id = gone then none else state.index.lookup (key,id) := by
  unfold InMemoryStateIndex.eliminate
  rw [dropAll_index]
  exact if_congr ⟨fun both => both.2,fun same => ⟨by cases key <;> decide,same⟩⟩ rfl rfl

omit [EntitySnapshot E S V] in
theorem dropAll_bound {id : S} {key : StateKey} {keys : List StateKey} (member : key ∈ keys) (bound : state.index.lookup (key,id) = some ver) :
    (keys.foldl (InMemoryStateIndex.drop id) state).store.lookup ver = none := by
  induction keys generalizing state with
  | nil => cases member
  | cons first rest ih =>
    by_cases same : key = first
    · subst same
      refine Option.eq_none_iff_forall_ne_some.mpr (fun e found => ?_)
      have before : (state.drop id key).store.lookup ver = some e := dropAll_less found
      unfold InMemoryStateIndex.drop at before
      grind
    · refine ih ((List.mem_cons.mp member).resolve_left same) ?_
      have one := dropAll_index id [first] state key id
      grind

end Writes

section Sole
variable {E S V : Type} [DecidableEq S] [DecidableEq V] [EntitySnapshot E S V] {mine : V → Prop} {id : S} {state : InMemoryStateIndex E S V}

-- The versions of one entity are nobody else's, and what is bound of it is in
-- the store. Other entities may share theirs.
@[grind cases eager] structure Sole (mine : V → Prop) (id : S) (state : InMemoryStateIndex E S V) : Prop where
  bound : ∀ key ver, state.index.lookup (key,id) = some ver → mine ver
  apart : ∀ key other ver, state.index.lookup (key,other) = some ver → mine ver → other = id
  stored : ∀ ver e, state.store.lookup ver = some e → mine ver → version e = ver ∧ stableId e = id
  present : ∀ key ver, state.index.lookup (key,id) = some ver → ∃ e, state.store.lookup ver = some e

theorem sole_new : Sole mine id (.new : InMemoryStateIndex E S V) where
  bound _ _ found := by cases found
  apart _ _ _ found := by cases found
  stored _ _ found := by cases found
  present _ _ found := by cases found

theorem Sole.put (sole : Sole mine id state) (key : StateKey) {value : E} (own : mine (version value) ↔ stableId value = id) :
    Sole mine id (state.put key value) where
  bound := by
    intro k ver found
    rw [InMemoryStateIndex.put_index] at found
    grind
  apart := by
    intro k other ver found his
    rw [InMemoryStateIndex.put_index] at found
    grind
  stored := by
    intro ver e found his
    rw [InMemoryStateIndex.put_store] at found
    grind
  present := by
    intro k ver found
    rw [InMemoryStateIndex.put_index] at found
    rw [InMemoryStateIndex.put_store]
    by_cases new : ver = version value
    · rw [if_pos new]
      exact ⟨_,rfl⟩
    · rw [if_neg new]
      split at found
      · grind
      · rename_i other
        rw [if_neg]
        · exact sole.present k ver found
        · rintro ⟨here,nowhere⟩
          have same : stableId value = id := sole.apart key _ ver here (sole.bound k ver found)
          rw [same] at other here nowhere
          by_cases at_key : k = key
          · exact other (by rw [at_key])
          · exact nowhere (InMemoryStateIndex.mem_boundVersions.mpr ⟨k,at_key,found⟩)

theorem Sole.invalidate (sole : Sole mine id state) (ver : V) : Sole mine id (state.invalidateVersion ver) := by
  cases found : state.store.lookup ver with
  | none =>
    rw [invalidate_none found]
    exact sole
  | some entity =>
    have kept : ∀ k other v, (state.invalidateVersion ver).index.lookup (k,other) = some v → state.index.lookup (k,other) = some v := by
      intro k other v bound
      rw [invalidate_index found] at bound
      grind
    refine ⟨fun k v bound => sole.bound k v (kept k id v bound),fun k other v bound => sole.apart k other v (kept k other v bound),
      fun v e stored => ?_,fun k v bound => ?_⟩
    · rw [invalidate_store found] at stored
      grind
    · have before := kept k id v bound
      rw [invalidate_store found,if_neg]
      · exact sole.present k v before
      -- a version that goes from the store goes from every slot of its entity
      · rintro ⟨rfl,dropped⟩
        have same : id = stableId entity := (sole.stored v entity found (sole.bound k v before)).2.symm
        rw [invalidate_index found] at bound
        grind

theorem Sole.eliminate (sole : Sole mine id state) (gone : S) : Sole mine id (state.eliminate gone) := by
  have kept : ∀ k other ver, (state.eliminate gone).index.lookup (k,other) = some ver → other ≠ gone ∧ state.index.lookup (k,other) = some ver := by
    intro k other ver found
    rw [eliminate_index] at found
    grind
  refine ⟨fun k ver found => sole.bound k ver (kept k id ver found).2,fun k other ver found => sole.apart k other ver (kept k other ver found).2,
    fun ver e found => sole.stored ver e (dropAll_less found),?_⟩
  intro k ver found
  obtain ⟨other,before⟩ := kept k id ver found
  obtain ⟨e,stored⟩ := sole.present k ver before
  refine ⟨e,?_⟩
  unfold InMemoryStateIndex.eliminate
  rw [dropAll_keeps]
  · exact stored
  grind

theorem Sole.apply (sole : Sole mine id state) {op : IndexOp E S V} (own : ∀ key value,op = .put key value → (mine (version value) ↔ stableId value = id)) :
    Sole mine id (state.apply op) := by
  cases op with
  | put key value => exact sole.put key (own key value rfl)
  | invalidate ver => exact sole.invalidate ver
  | eliminate gone => exact sole.eliminate gone

theorem Sole.run (sole : Sole mine id state) {ops : List (IndexOp E S V)}
    (own : ∀ key value,.put key value ∈ ops → (mine (version value) ↔ stableId value = id)) : Sole mine id (ops.foldl InMemoryStateIndex.apply state) := by
  induction ops generalizing state with
  | nil => exact sole
  | cons op ops ih =>
    refine ih (sole.apply (fun key value same => own key value (same ▸ List.mem_cons_self))) (fun key value member => ?_)
    grind

end Sole

section Owners
variable {E S V : Type} [DecidableEq S] [DecidableEq V] [EntitySnapshot E S V] {owner : V → S} {state : InMemoryStateIndex E S V}

-- Every version belongs to one entity, and what is bound is in the store.
@[grind cases eager] structure Owned (owner : V → S) (state : InMemoryStateIndex E S V) : Prop where
  bound : ∀ key id ver, state.index.lookup (key,id) = some ver → owner ver = id
  stored : ∀ ver e, state.store.lookup ver = some e → version e = ver ∧ owner ver = stableId e
  present : ∀ key id ver, state.index.lookup (key,id) = some ver → ∃ e, state.store.lookup ver = some e

theorem owned_iff : Owned owner state ↔ ∀ id, Sole (fun ver => owner ver = id) id state := by
  constructor
  · intro owned id
    exact ⟨fun key ver found => owned.bound key id ver found,fun key other ver found his => (owned.bound key other ver found).symm.trans his,
      fun ver e found his => ⟨(owned.stored ver e found).1,(owned.stored ver e found).2.symm.trans his⟩,fun key ver found => owned.present key id ver found⟩
  · intro sole
    refine ⟨fun key id ver found => (sole id).bound key ver found,fun ver e found => ?_,fun key id ver found => (sole id).present key ver found⟩
    obtain ⟨same,his⟩ := (sole (owner ver)).stored ver e found rfl
    exact ⟨same,his.symm⟩

theorem owned_new : Owned owner (.new : InMemoryStateIndex E S V) := owned_iff.mpr (fun _ => sole_new)

theorem Owned.put (owned : Owned owner state) (key : StateKey) {value : E} (own : owner (version value) = stableId value) : Owned owner (state.put key value) :=
  owned_iff.mpr (fun id => (owned_iff.mp owned id).put key (by rw [own]))

theorem Owned.invalidate (owned : Owned owner state) (ver : V) : Owned owner (state.invalidateVersion ver) :=
  owned_iff.mpr (fun id => (owned_iff.mp owned id).invalidate ver)

theorem Owned.eliminate (owned : Owned owner state) (id : S) : Owned owner (state.eliminate id) :=
  owned_iff.mpr (fun other => (owned_iff.mp owned other).eliminate id)

end Owners

section Resolved
variable {E S V : Type} [DecidableEq S] [DecidableEq V] [EntitySnapshot E S V] {owner : V → S} {mine : V → Prop} {id : S}
  {state : InMemoryStateIndex E S V}

-- The version an entity is resolved by: the first that is bound.
def firstBound (state : InMemoryStateIndex E S V) (id : S) : Option V := resolveKeys.findSome? (fun key => state.index.lookup (key,id))

theorem findSome_congr {f g : α → Option β} {list : List α} (same : ∀ x ∈ list, f x = g x) : list.findSome? f = list.findSome? g := by
  induction list with
  | nil => rfl
  | cons first rest ih => grind

theorem findSome_bind {f : α → Option β} {g : β → Option γ} {list : List α} (total : ∀ x ∈ list, ∀ y, f x = some y → ∃ z, g y = some z) :
    list.findSome? (fun x => (f x).bind g) = (list.findSome? f).bind g := by
  induction list with
  | nil => rfl
  | cons first rest ih => grind

theorem Sole.resolve (sole : Sole mine id state) : resolveState id state = (firstBound state id).bind state.store.lookup :=
  findSome_bind (fun key _ ver bound => sole.present key ver bound)

omit [DecidableEq V] [EntitySnapshot E S V] in
theorem firstBound_bound (found : firstBound state id = some ver) : ∃ key, state.index.lookup (key,id) = some ver := by
  obtain ⟨key,_,bound⟩ := List.exists_of_findSome?_eq_some found
  exact ⟨key,bound⟩

theorem Sole.resolved (sole : Sole mine id state) (found : resolveState id state = some e) : stableId e = id ∧ firstBound state id = some (version e) := by
  rw [sole.resolve] at found
  obtain ⟨ver,first,stored⟩ := Option.bind_eq_some_iff.mp found
  obtain ⟨key,bound⟩ := firstBound_bound first
  grind

theorem Owned.resolve (owned : Owned owner state) (id : S) : resolveState id state = (firstBound state id).bind state.store.lookup :=
  (owned_iff.mp owned id).resolve

theorem Owned.resolved (owned : Owned owner state) (found : resolveState id state = some e) : stableId e = id ∧ firstBound state id = some (version e) :=
  (owned_iff.mp owned id).resolved found

-- The keys that are asked before one.
def above (key : StateKey) : List StateKey := resolveKeys.takeWhile (fun k => k ≠ key)

theorem resolveKeys_split (key : StateKey) : ∃ below, resolveKeys = above key ++ key :: below := by
  cases key with
  | lastConfirmed => exact ⟨[],rfl⟩
  | lastUnconfirmed => exact ⟨[.fallback,.lastConfirmed],rfl⟩
  | lastPredicted => exact ⟨[.lastUnconfirmed,.fallback,.lastConfirmed],rfl⟩
  | fallback => exact ⟨[.lastConfirmed],rfl⟩

theorem not_above (key : StateKey) : key ∉ above key := by cases key <;> decide

theorem Sole.resolve_written (sole : Sole mine id state) (key : StateKey) {value : E} (same : stableId value = id) :
    resolveState id (state.put key value) = match (above key).findSome? (fun k => state.index.lookup (k,id)) with
      | some ver => if ver = version value then some value else state.store.lookup ver
      | none => some value := by
  subst same
  have bindings : ∀ k ∈ above key,(state.put key value).get k (stableId value) =
      (state.index.lookup (k,stableId value)).bind (fun ver => if ver = version value then some value else state.store.lookup ver) := by
    intro k member
    have other : k ≠ key := fun here => not_above key (here ▸ member)
    unfold InMemoryStateIndex.get
    rw [InMemoryStateIndex.put_index,if_neg (fun both => other (Prod.mk.inj both).1)]
    cases bound : state.index.lookup (k,stableId value) with
    | none => rfl
    | some ver =>
      rw [Option.bind_some,Option.bind_some,InMemoryStateIndex.put_store]
      split
      · rfl
      · rw [if_neg]
        rintro ⟨_,nowhere⟩
        exact nowhere (InMemoryStateIndex.mem_boundVersions.mpr ⟨k,other,bound⟩)
  have total : ∀ k ∈ above key,∀ ver,state.index.lookup (k,stableId value) = some ver →
      ∃ e,(if ver = version value then some value else state.store.lookup ver) = some e := by grind
  have here : (state.put key value).get key (stableId value) = some value := by
    unfold InMemoryStateIndex.get
    rw [InMemoryStateIndex.put_index,if_pos rfl,Option.bind_some,InMemoryStateIndex.put_store,if_pos rfl]
  obtain ⟨below,split⟩ := resolveKeys_split key
  unfold resolveState
  rw [split,List.findSome?_append,List.findSome?_cons,here]
  have asked : (above key).findSome? (fun k => (state.put key value).get k (stableId value)) =
      ((above key).findSome? (fun k => state.index.lookup (k,stableId value))).bind
        (fun ver => if ver = version value then some value else state.store.lookup ver) := by
    rw [← findSome_bind total]
    exact findSome_congr bindings
  rw [asked]
  cases first : (above key).findSome? (fun k => state.index.lookup (k,stableId value)) with
  | none => rfl
  | some ver =>
    obtain ⟨k,member,bound⟩ := List.exists_of_findSome?_eq_some first
    grind

-- A write of an entity leaves it at what it is resolved to exactly if a key
-- that is asked before hides it, or if it brings the same state.
theorem Sole.written_iff (sole : Sole mine id state) (key : StateKey) {value e : E} (same : stableId value = id) (found : resolveState id state = some e) :
    resolveState id (state.put key value) = some e ↔
      (∃ k ∈ above key,(state.index.lookup (k,id)).isSome = true) ∧ version e ≠ version value ∨ value = e := by
  rw [sole.resolve_written key same]
  cases first : (above key).findSome? (fun k => state.index.lookup (k,id)) with
  | none => grind
  | some ver =>
    have hidden : ∃ k ∈ above key,(state.index.lookup (k,id)).isSome = true := by
      obtain ⟨k,member,bound⟩ := List.exists_of_findSome?_eq_some first
      exact ⟨k,member,by rw [bound]; rfl⟩
    obtain ⟨below,split⟩ := resolveKeys_split key
    have asked : firstBound state id = some ver := by
      unfold firstBound
      grind
    have stored := found
    rw [sole.resolve,asked,Option.bind_some] at stored
    obtain rfl : ver = version e := Option.some.inj (asked.symm.trans (sole.resolved found).2)
    grind

-- Two states hold the same of one entity.
@[grind cases eager] structure Agree (id : S) (state other : InMemoryStateIndex E S V) : Prop where
  bindings : ∀ key,state.index.lookup (key,id) = other.index.lookup (key,id)
  stores : ∀ key ver,other.index.lookup (key,id) = some ver → state.store.lookup ver = other.store.lookup ver

omit [DecidableEq V] [EntitySnapshot E S V] in
theorem Agree.refl [DecidableEq V] (id : S) (state : InMemoryStateIndex E S V) : Agree id state state := ⟨fun _ => rfl,fun _ _ _ => rfl⟩

omit [EntitySnapshot E S V] in
theorem Agree.trans {first second third : InMemoryStateIndex E S V} (later : Agree id third second) (earlier : Agree id second first) : Agree id third first :=
  ⟨fun key => (later.bindings key).trans (earlier.bindings key),
    fun key ver found => (later.stores key ver ((earlier.bindings key).trans found)).trans (earlier.stores key ver found)⟩

omit [EntitySnapshot E S V] in
theorem Agree.get {other : InMemoryStateIndex E S V} (agree : Agree id state other) (key : StateKey) : state.get key id = other.get key id := by
  unfold InMemoryStateIndex.get
  rw [agree.bindings key]
  cases bound : other.index.lookup (key,id) with
  | none => rfl
  | some ver => exact agree.stores key ver bound

omit [EntitySnapshot E S V] in
theorem Agree.resolve {other : InMemoryStateIndex E S V} (agree : Agree id state other) : resolveState id state = resolveState id other :=
  findSome_congr (fun key _ => agree.get key)

theorem Sole.put_agree (sole : Sole mine id state) (key : StateKey) {value : E} (own : mine (version value) ↔ stableId value = id)
    (other : stableId value ≠ id) : Agree id (state.put key value) state := by
  refine ⟨fun k => ?_,fun k ver bound => ?_⟩
  · rw [InMemoryStateIndex.put_index,if_neg (fun same => other (Prod.mk.inj same).2.symm)]
  · have his := sole.bound k ver bound
    rw [InMemoryStateIndex.put_store,if_neg,if_neg]
    · grind
    grind

-- A write of one entity changes what another is resolved to exactly if it comes
-- with the version the other is resolved by.
theorem Owned.resolve_put {id : S} (owned : Owned owner state) (key : StateKey) {value : E} (other : id ≠ stableId value) :
    resolveState id (state.put key value) = resolveState id state ↔ ∀ e, resolveState id state = some e → version e ≠ version value := by
  have bindings : ∀ k, (state.put key value).index.lookup (k,id) = state.index.lookup (k,id) := by
    intro k
    rw [InMemoryStateIndex.put_index,if_neg (fun same => other (Prod.mk.inj same).2)]
  have stored : ∀ k ver, state.index.lookup (k,id) = some ver →
      (state.put key value).store.lookup ver = if ver = version value then some value else state.store.lookup ver := by
    intro k ver bound
    rw [InMemoryStateIndex.put_store]
    grind
  have after : resolveState id (state.put key value) = (firstBound state id).bind (state.put key value).store.lookup := by
    have total : ∀ k ∈ resolveKeys, ∀ ver, state.index.lookup (k,id) = some ver → ∃ e, (state.put key value).store.lookup ver = some e := by grind
    unfold resolveState InMemoryStateIndex.get
    simp only [bindings]
    exact findSome_bind total
  rw [after]
  cases first : firstBound state id with
  | none =>
    rw [owned.resolve,first]
    grind
  | some ver =>
    obtain ⟨k,bound⟩ := firstBound_bound first
    obtain ⟨e,found⟩ := owned.present k id ver bound
    obtain ⟨same,own⟩ := owned.stored ver e found
    have before : resolveState id state = some e := by
      rw [owned.resolve,first]
      exact found
    grind

end Resolved
end GreenAgent.Engine
