import GreenAgent.Engine.Spoofing

namespace GreenAgent.Engine
open Account (OutputRef FinalizedTxOut)
open Book (stableId HashOrder)

-- What an event does to an index after the eviction, in order.
inductive CacheOp (V E : Type) where
  | register (now : Nat) (ver : V)
  | put (ver : V) (value : E)

namespace InMemoryEntityIndex
variable {E V : Type} [DecidableEq V] {content : V → Option E} {index : InMemoryEntityIndex E V}

def perform (index : InMemoryEntityIndex E V) : CacheOp V E → InMemoryEntityIndex E V
  | .register now ver => index.registerForEviction now ver
  | .put ver value => index.put ver value

-- Without operations there is no eviction either.
def serve (now : Nat) (ops : List (CacheOp V E)) (index : InMemoryEntityIndex E V) : InMemoryEntityIndex E V :=
  if ops = [] then index else ops.foldl perform (index.runEviction now)

-- Everything in the index is what its version stands for.
def Faithful (content : V → Option E) (index : InMemoryEntityIndex E V) : Prop := ∀ ver e,index.getState ver = some e → content ver = some e

def Brought (content : V → Option E) (ops : List (CacheOp V E)) : Prop := ∀ ver e,.put ver e ∈ ops → content ver = some e

theorem perform_faithful {op : CacheOp V E} (faithful : Faithful content index) (brought : Brought content [op]) : Faithful content (index.perform op) := by
  intro ver e found
  cases op with
  | register now gone => exact faithful ver e found
  | put at_ver value =>
    change (AList.insert at_ver value index.store).lookup ver = some e at found
    rw [HashMap.lookup_insert] at found
    split at found
    · rename_i same
      cases found
      exact same ▸ brought at_ver e List.mem_cons_self
    · exact faithful ver e found

theorem performAll_getState {ops : List (CacheOp V E)} (faithful : Faithful content index) (brought : Brought content ops) (ver : V) (e : E) :
    (ops.foldl perform index).getState ver = some e ↔ .put ver e ∈ ops ∨ index.getState ver = some e := by
  induction ops generalizing index with
  | nil => simp
  | cons op rest ih =>
    have first : Brought content [op] := fun v value member => brought v value (List.mem_singleton.mp member ▸ List.mem_cons_self)
    have later : Brought content rest := fun v value member => brought v value (List.mem_cons_of_mem _ member)
    rw [List.foldl_cons,ih (perform_faithful faithful first) later,List.mem_cons]
    cases op with
    | register now gone => exact ⟨fun found => found.imp_left .inr,fun found => found.imp_left (fun either => either.resolve_left (by rintro ⟨⟩))⟩
    | put at_ver value =>
      change _ ∨ (AList.insert at_ver value index.store).lookup ver = some e ↔ _
      rw [HashMap.lookup_insert]
      by_cases same : ver = at_ver
      · subst same
        have known := brought ver value List.mem_cons_self
        rw [if_pos rfl,Option.some.injEq]
        constructor
        · grind
        · rintro ((put | put) | before)
          · cases put
            exact .inr rfl
          · exact .inl put
          · exact .inr (Option.some.inj (known.symm.trans (faithful ver e before)))
      · rw [if_neg same]
        simp only [CacheOp.put.injEq,same,false_and,false_or]
        exact Iff.rfl

theorem serve_getState {ops : List (CacheOp V E)} (faithful : Faithful content index) (brought : Brought content ops) (now : Nat) (ver : V) (e : E) :
    (index.serve now ops).getState ver = some e ↔ .put ver e ∈ ops ∨ index.getState ver = some e ∧ (ops = [] ∨ ver ∉ index.due now) := by
  unfold serve
  by_cases none_done : ops = []
  · grind
  · rw [if_neg none_done]
    have evicted : Faithful content (index.runEviction now) := by
      intro v value found
      rw [runEviction_getState] at found
      split at found
      · cases found
      · exact faithful v value found
    rw [performAll_getState evicted brought,runEviction_getState]
    grind

theorem serve_faithful {ops : List (CacheOp V E)} (faithful : Faithful content index) (brought : Brought content ops) (now : Nat) :
    Faithful content (index.serve now ops) := by
  intro ver e found
  rcases (serve_getState faithful brought now ver e).mp found with put | ⟨before,_⟩
  · exact brought ver e put
  · exact faithful ver e before

end InMemoryEntityIndex

section Chain
variable {E O : Type} {content : OutputRef → Option E} {read : OutputRef → O → Option E} {chain : List (TxViewMut O)} {index : InMemoryEntityIndex E OutputRef}

-- An event with what the clock showed and how the maps iterated meanwhile.
structure Reading (O : Type) where
  clock : Nat → Nat
  order : HashOrder
  event : TxEvent O

-- The ledger: the last applied transaction first.
def TxEvent.ledgerAfter : TxEvent O → List (TxViewMut O) → List (TxViewMut O)
  | .applied tx,chain => tx :: chain
  | .unapplied _,chain => chain.tail
  | .accepted _,chain => chain
  | .dropped _,chain => chain

-- Transactions are rolled back in reverse order.
def TxEvent.InOrder (chain : List (TxViewMut O)) : TxEvent O → Prop
  | .unapplied tx => ∃ rest,chain = tx :: rest
  | _ => True

-- A reference names one output, which is recognised or not.
def Names (content : OutputRef → Option E) (read : OutputRef → O → Option E) (tx : TxViewMut O) : Prop :=
  ∀ output ∈ tx.outputs,read ⟨tx.hash,output.1⟩ output.2 = content ⟨tx.hash,output.1⟩

@[grind cases eager] structure Unspent (content : OutputRef → Option E) (chain : List (TxViewMut O)) (ref : OutputRef) (e : E) : Prop where
  recognised : content ref = some e
  produced : ∃ tx ∈ chain,∃ output ∈ tx.outputs,ref = ⟨tx.hash,output.1⟩
  kept : ∀ tx ∈ chain,ref ∉ tx.inputs

def LiveIndexed (content : OutputRef → Option E) (chain : List (TxViewMut O)) (index : InMemoryEntityIndex E OutputRef) : Prop :=
  ∀ ref e,Unspent content chain ref e → index.getState ref = some e

-- The states of a handler and of the ledger it follows.
inductive Fed (handle : Reading O → InMemoryEntityIndex E OutputRef → InMemoryEntityIndex E OutputRef) (content : OutputRef → Option E)
    (read : OutputRef → O → Option E) (meets : List (TxViewMut O) → InMemoryEntityIndex E OutputRef → Reading O → Prop) :
    List (TxViewMut O) → InMemoryEntityIndex E OutputRef → Prop
  | new (evictionDelay : Nat) : Fed handle content read meets [] (.new evictionDelay)
  | event {chain : List (TxViewMut O)} {index : InMemoryEntityIndex E OutputRef} (before : Fed handle content read meets chain index) (reading : Reading O)
      (named : Names content read reading.event.tx) (ordered : reading.event.InOrder chain) (met : meets chain index reading) :
      Fed handle content read meets (reading.event.ledgerAfter chain) (handle reading index)

-- What is unspent after an event is stored by it, or was in the index and is not
-- evicted.
def Keeps (ops : Reading O → InMemoryEntityIndex E OutputRef → List (CacheOp OutputRef E)) (content : OutputRef → Option E)
    (chain : List (TxViewMut O)) (index : InMemoryEntityIndex E OutputRef) (reading : Reading O) : Prop :=
  ∀ ref e,Unspent content (reading.event.ledgerAfter chain) ref e → .put ref e ∈ ops reading index ∨
    index.getState ref = some e ∧ (ops reading index = [] ∨ ref ∉ index.due (reading.clock 0))

variable {handle : Reading O → InMemoryEntityIndex E OutputRef → InMemoryEntityIndex E OutputRef}
  {ops : Reading O → InMemoryEntityIndex E OutputRef → List (CacheOp OutputRef E)}

-- A handler evicts and then performs its operations, which store only what
-- references name.
@[grind cases eager] structure Performs (handle : Reading O → InMemoryEntityIndex E OutputRef → InMemoryEntityIndex E OutputRef)
    (ops : Reading O → InMemoryEntityIndex E OutputRef → List (CacheOp OutputRef E)) (content : OutputRef → Option E)
    (read : OutputRef → O → Option E) : Prop where
  served : ∀ reading index,handle reading index = index.serve (reading.clock 0) (ops reading index)
  brought : ∀ reading index,InMemoryEntityIndex.Faithful content index → Names content read reading.event.tx →
    InMemoryEntityIndex.Brought content (ops reading index)

theorem Fed.faithful {meets : List (TxViewMut O) → InMemoryEntityIndex E OutputRef → Reading O → Prop} (performs : Performs handle ops content read)
    (fed : Fed handle content read meets chain index) : InMemoryEntityIndex.Faithful content index := by
  induction fed with
  | new delay => exact fun ver e found => by cases found
  | event _ reading named _ _ ih =>
    rw [performs.served]
    exact InMemoryEntityIndex.serve_faithful ih (performs.brought _ _ ih named) _

theorem Fed.step_iff {meets : List (TxViewMut O) → InMemoryEntityIndex E OutputRef → Reading O → Prop} (performs : Performs handle ops content read)
    (fed : Fed handle content read meets chain index) {reading : Reading O} (named : Names content read reading.event.tx) :
    LiveIndexed content (reading.event.ledgerAfter chain) (handle reading index) ↔ Keeps ops content chain index reading := by
  have faithful := fed.faithful performs
  unfold LiveIndexed Keeps
  rw [performs.served]
  simp only [InMemoryEntityIndex.serve_getState faithful (performs.brought _ _ faithful named)]

theorem Fed.live (performs : Performs handle ops content read) (fed : Fed handle content read (Keeps ops content) chain index) :
    LiveIndexed content chain index := by
  cases fed with
  | new delay =>
    intro ref e unspent
    grind
  | event before reading named _ met => exact (before.step_iff performs named).mpr met

end Chain

section PairUpdates
variable {E S O : Type} [DecidableEq S] [EntitySnapshot E S OutputRef] {content : OutputRef → Option E} {read : OutputRef → O → Option E}

def Ior.ops (now : Nat) : Ior E E → List (CacheOp OutputRef E)
  | .left consumed => [.register now (version consumed)]
  | .right produced => [.put (version produced) produced]
  | .both consumed produced => [.register now (version consumed),.put (version produced) produced]

-- The operations of `PairUpdateHandler`.
def pairOps (read : OutputRef → O → Option E) (reading : Reading O) (index : InMemoryEntityIndex E OutputRef) : List (CacheOp OutputRef E) :=
  (((extractContinuousTransitions reading.order read index reading.event.tx).getD []).map reading.event.indexed).zipIdx.flatMap
    (fun tr => tr.1.ops (reading.clock (tr.2 + 1)))

omit [DecidableEq S] in
theorem indexTransition_ops (now : Nat) (index : InMemoryEntityIndex E OutputRef) (change : Ior E E) :
    indexTransition now index change = (change.ops now).foldl InMemoryEntityIndex.perform index := by
  cases change with
  | left consumed => rfl
  | right produced => rfl
  | both consumed produced => rfl

theorem extract_nonempty {order : HashOrder} {index : InMemoryEntityIndex E OutputRef} {tx : TxViewMut O} {transitions : List (Ior E E)}
    (found : extractContinuousTransitions order read index tx = some transitions) : transitions ≠ [] := by
  unfold extractContinuousTransitions at found
  split at found
  · cases found
  grind

theorem tryHandle_served (read : OutputRef → O → Option E) (reading : Reading O) (index : InMemoryEntityIndex E OutputRef) :
    (tryHandle reading.clock reading.order read index reading.event).1 = index.serve (reading.clock 0) (pairOps read reading index) := by
  unfold tryHandle pairOps InMemoryEntityIndex.serve
  cases found : extractContinuousTransitions reading.order read index reading.event.tx with
  | none => rfl
  | some transitions =>
    rw [Option.getD_some,if_neg]
    · rw [List.foldl_flatMap]
      simp only [indexTransition_ops]
    · intro empty
      rw [List.flatMap_eq_nil_iff] at empty
      cases listed : transitions.map reading.event.indexed with
      | nil => exact extract_nonempty found (List.map_eq_nil_iff.mp listed)
      | cons change rest =>
        rw [listed] at empty
        have first := empty (change,0) (by rw [List.zipIdx_cons]; exact List.mem_cons_self)
        cases change <;> cases first

theorem pair_performs (versions : ∀ ref e,content ref = some e → version e = ref) :
    Performs (fun reading index => (tryHandle reading.clock reading.order read index reading.event).1) (pairOps read) content read := by
  refine ⟨fun reading index => tryHandle_served read reading index,fun reading index faithful named => ?_⟩
  have holds : Holds (fun e => content (version e) = some e) index := by
    intro ref e found
    have known := faithful ref e found
    grind
  have brings : ∀ e,some e ∈ reading.event.tx.produced read → content (version e) = some e := by
    intro e member
    obtain ⟨output,inside,found⟩ := List.mem_map.mp member
    rw [named output inside] at found
    rw [versions _ e found]
    exact found
  intro ver e member
  obtain ⟨⟨change,i⟩,listed,put⟩ := List.mem_flatMap.mp member
  obtain ⟨transition,extracted,rfl⟩ := List.mem_map.mp (List.fst_mem_of_mem_zipIdx listed)
  have parts := transitionOf_parts (fun e member => (holds.consumed member).1) brings (((extract_distinct holds brings).2 transition).mp extracted).2
  have good : (reading.event.indexed transition).All (fun e => content (version e) = some e) := by
    have all : transition.All (fun e => content (version e) = some e) := by
      cases transition with
      | left a => exact parts.2
      | right b => exact parts.2
      | both a b => exact ⟨parts.1.2,parts.2.2⟩
    cases reading.event with
    | applied tx => exact all
    | unapplied tx => exact all.swap
    | accepted tx => exact all
    | dropped tx => exact all
  cases shape : reading.event.indexed transition with
  | left a =>
    rw [shape] at put
    cases List.mem_singleton.mp put
  | right b =>
    rw [shape] at put good
    cases List.mem_singleton.mp put
    exact good
  | both a b =>
    rw [shape] at put good
    rcases List.mem_cons.mp put with first | second
    · cases first
    · cases List.mem_singleton.mp second
      exact good.2

-- The state of an entity that an event stores.
def TxEvent.stored (read : OutputRef → O → Option E) (index : InMemoryEntityIndex E OutputRef) (id : S) : TxEvent O → Option E
  | .applied tx => lastOf id (tx.produced read).reverse
  | .unapplied tx => lastOf id (tx.consumed index)
  | .accepted tx => lastOf id (tx.produced read).reverse
  | .dropped tx => lastOf id (tx.produced read).reverse

theorem transitionOf_produced {tx : TxViewMut O} {index : InMemoryEntityIndex E OutputRef} {e : E}
    (new : lastOf (stableId e) (tx.produced read).reverse = some e) :
    ∃ tr,tx.transitionOf read index (stableId e) = some tr ∧ ∀ now,.put (version e) e ∈ tr.ops now := by
  unfold TxViewMut.transitionOf
  rw [new]
  cases lastOf (stableId e) (tx.consumed index) with
  | none => exact ⟨.right e,rfl,fun now => List.mem_singleton.mpr rfl⟩
  | some a => exact ⟨.both a e,rfl,fun now => List.mem_cons_of_mem _ (List.mem_singleton.mpr rfl)⟩

theorem transitionOf_consumed {tx : TxViewMut O} {index : InMemoryEntityIndex E OutputRef} {e : E} (old : lastOf (stableId e) (tx.consumed index) = some e) :
    ∃ tr,tx.transitionOf read index (stableId e) = some tr ∧ ∀ now,.put (version e) e ∈ tr.swap.ops now := by
  unfold TxViewMut.transitionOf
  rw [old]
  cases lastOf (stableId e) (tx.produced read).reverse with
  | none => exact ⟨.left e,rfl,fun now => List.mem_singleton.mpr rfl⟩
  | some b => exact ⟨.both e b,rfl,fun now => List.mem_cons_of_mem _ (List.mem_singleton.mpr rfl)⟩

-- An applied transaction stores the first of its outputs that is read as a
-- state of the entity, an unapplied one the last of its inputs that is indexed
-- as one.
theorem pairOps_stored {reading : Reading O} {index : InMemoryEntityIndex E OutputRef} (holds : Holds (fun _ => True) index) {e : E}
    (some_output : reading.event.tx.outputs ≠ []) (stored : reading.event.stored read index (stableId e) = some e) :
    .put (version e) e ∈ pairOps read reading index := by
  obtain ⟨tr,found,put⟩ : ∃ tr,reading.event.tx.transitionOf read index (stableId e) = some tr ∧
      ∀ now,.put (version e) e ∈ (reading.event.indexed tr).ops now := by
    cases shape : reading.event with
    | applied tx => rw [shape] at stored; exact transitionOf_produced stored
    | unapplied tx => rw [shape] at stored; exact transitionOf_consumed stored
    | accepted tx => rw [shape] at stored; exact transitionOf_produced stored
    | dropped tx => rw [shape] at stored; exact transitionOf_produced stored
  have named := (transitionOf_subject holds (fun _ _ => trivial) found).1
  have member : tr ∈ (extractContinuousTransitions reading.order read index reading.event.tx).getD [] :=
    ((extract_distinct holds (fun _ _ => trivial)).2 tr).mpr ⟨some_output,by rw [named]; exact found⟩
  obtain ⟨i,inside,here⟩ := List.mem_iff_getElem.mp (List.mem_map_of_mem (f := reading.event.indexed) member)
  refine List.mem_flatMap.mpr ⟨(reading.event.indexed tr,i),?_,put _⟩
  grind

end PairUpdates

section Funding
variable {O : Type} {content : OutputRef → Option (Nat × FinalizedTxOut O)}

-- The same index by any key.
abbrev InMemoryKvIndex (K W : Type) := InMemoryEntityIndex W K

inductive FundingEvent (F : Type) where
  | consumed (utxo : F)
  | produced (utxo : F)

def FundingEvent.inverse : FundingEvent F → FundingEvent F
  | .consumed utxo => .produced utxo
  | .produced utxo => .consumed utxo

-- `partition` finds the address of an output among the funding addresses.
structure FundingAddresses (O : Type) where
  partition : O → Option Nat
  skipSet : OutputRef

def FundingAddresses.read (addresses : FundingAddresses O) (ref : OutputRef) (output : O) : Option (Nat × FinalizedTxOut O) :=
  (addresses.partition output).bind (fun part => if ref ≠ addresses.skipSet then some (part,⟨output,ref⟩) else none)

def extractFundingEvents (addresses : FundingAddresses O) (index : InMemoryKvIndex OutputRef (Nat × FinalizedTxOut O)) (tx : TxViewMut O) :
    Option (List (Nat × FundingEvent (FinalizedTxOut O))) :=
  if tx.outputs.isEmpty then none
  else
    let consumed := tx.inputs.filterMap index.getState
    let produced := tx.outputs.reverse.filterMap (fun output => addresses.read ⟨tx.hash,output.1⟩ output.2)
    let events := consumed.map (fun utxo => (utxo.1,.consumed utxo.2)) ++ produced.map (fun utxo => (utxo.1,.produced utxo.2))
    if events.isEmpty then none else some events

def indexFundingEvent (now : Nat) (index : InMemoryKvIndex OutputRef (Nat × FinalizedTxOut O)) (part : Nat) :
    FundingEvent (FinalizedTxOut O) → InMemoryKvIndex OutputRef (Nat × FinalizedTxOut O)
  | .consumed utxo => index.registerForEviction now utxo.reference
  | .produced utxo => index.put utxo.reference (part,utxo)

-- Here a dropped transaction is undone.
def TxEvent.funding : TxEvent O → FundingEvent F → FundingEvent F
  | .applied _,event => event
  | .unapplied _,event => event.inverse
  | .accepted _,event => event
  | .dropped _,event => event.inverse

def FundingEventHandler.tryHandle (clock : Nat → Nat) (addresses : FundingAddresses O) (index : InMemoryKvIndex OutputRef (Nat × FinalizedTxOut O))
    (event : TxEvent O) : InMemoryKvIndex OutputRef (Nat × FinalizedTxOut O) × List (Nat × FundingEvent (FinalizedTxOut O)) :=
  match extractFundingEvents addresses index event.tx with
  | none => (index,[])
  | some events =>
    let events := events.map (fun found => (found.1,event.funding found.2))
    (events.zipIdx.foldl (fun index found => indexFundingEvent (clock (found.2 + 1)) index found.1.1 found.1.2) (index.runEviction (clock 0)),events)

def FundingEvent.op (now part : Nat) : FundingEvent (FinalizedTxOut O) → CacheOp OutputRef (Nat × FinalizedTxOut O)
  | .consumed utxo => .register now utxo.reference
  | .produced utxo => .put utxo.reference (part,utxo)

def fundingOps (addresses : FundingAddresses O) (reading : Reading O) (index : InMemoryKvIndex OutputRef (Nat × FinalizedTxOut O)) :
    List (CacheOp OutputRef (Nat × FinalizedTxOut O)) :=
  (((extractFundingEvents addresses index reading.event.tx).getD []).map (fun found => (found.1,reading.event.funding found.2))).zipIdx.map
    (fun found => found.1.2.op (reading.clock (found.2 + 1)) found.1.1)

theorem extractFunding_some {addresses : FundingAddresses O} {index : InMemoryKvIndex OutputRef (Nat × FinalizedTxOut O)} {tx : TxViewMut O}
    {events : List (Nat × FundingEvent (FinalizedTxOut O))} (found : extractFundingEvents addresses index tx = some events) :
    events ≠ [] ∧ events = (tx.inputs.filterMap index.getState).map (fun utxo => (utxo.1,.consumed utxo.2)) ++
      (tx.outputs.reverse.filterMap (fun output => addresses.read ⟨tx.hash,output.1⟩ output.2)).map (fun utxo => (utxo.1,.produced utxo.2)) := by
  unfold extractFundingEvents at found
  split at found
  · cases found
  grind

theorem funding_served (addresses : FundingAddresses O) (reading : Reading O) (index : InMemoryKvIndex OutputRef (Nat × FinalizedTxOut O)) :
    (FundingEventHandler.tryHandle reading.clock addresses index reading.event).1 = index.serve (reading.clock 0) (fundingOps addresses reading index) := by
  unfold FundingEventHandler.tryHandle fundingOps InMemoryEntityIndex.serve
  cases found : extractFundingEvents addresses index reading.event.tx with
  | none => rfl
  | some events =>
    rw [Option.getD_some,if_neg]
    · rw [List.foldl_map]
      have same : ∀ (index : InMemoryKvIndex OutputRef (Nat × FinalizedTxOut O)) (found : (Nat × FundingEvent (FinalizedTxOut O)) × Nat),
          indexFundingEvent (reading.clock (found.2 + 1)) index found.1.1 found.1.2 =
          index.perform (found.1.2.op (reading.clock (found.2 + 1)) found.1.1) := by
        rintro index ⟨⟨part,consumed | produced⟩,i⟩
        · rfl
        · rfl
      simp only [same]
    · intro empty
      have none_listed := congrArg List.length empty
      rw [List.length_map,List.length_zipIdx,List.length_map] at none_listed
      exact (extractFunding_some found).1 (List.length_eq_zero_iff.mp none_listed)

def FundingEvent.utxo : FundingEvent F → F
  | .consumed utxo => utxo
  | .produced utxo => utxo

theorem TxEvent.funding_utxo (event : TxEvent O) (found : FundingEvent F) : (event.funding found).utxo = found.utxo := by
  cases event <;> cases found <;> rfl

theorem FundingEvent.op_put {now part : Nat} {event : FundingEvent (FinalizedTxOut O)} {ver : OutputRef} {value : Nat × FinalizedTxOut O}
    (put : event.op now part = .put ver value) : ver = event.utxo.reference ∧ value = (part,event.utxo) := by
  cases event with
  | consumed utxo => cases put
  | produced utxo =>
    cases put
    exact ⟨rfl,rfl⟩

theorem extractFunding_known {addresses : FundingAddresses O} {index : InMemoryKvIndex OutputRef (Nat × FinalizedTxOut O)} {tx : TxViewMut O}
    (references : ∀ ref utxo,content ref = some utxo → utxo.2.reference = ref) (faithful : InMemoryEntityIndex.Faithful content index)
    (named : Names content addresses.read tx) {part : Nat} {event : FundingEvent (FinalizedTxOut O)}
    (member : (part,event) ∈ (extractFundingEvents addresses index tx).getD []) : content event.utxo.reference = some (part,event.utxo) := by
  have labelled : ∀ ref utxo,content ref = some utxo → content utxo.2.reference = some utxo := by grind
  cases found : extractFundingEvents addresses index tx with
  | none => grind
  | some events =>
    rw [found,Option.getD_some,(extractFunding_some found).2,List.mem_append,List.mem_map,List.mem_map] at member
    rcases member with ⟨utxo,consumed,pair⟩ | ⟨utxo,produced,pair⟩
    · obtain ⟨rfl,rfl⟩ := Prod.mk.inj pair
      obtain ⟨ref,_,stored⟩ := List.mem_filterMap.mp consumed
      tauto
    · obtain ⟨rfl,rfl⟩ := Prod.mk.inj pair
      obtain ⟨output,out,read⟩ := List.mem_filterMap.mp produced
      exact labelled _ utxo (named output (List.mem_reverse.mp out) ▸ read)

theorem funding_performs (addresses : FundingAddresses O) (references : ∀ ref utxo,content ref = some utxo → utxo.2.reference = ref) :
    Performs (fun reading index => (FundingEventHandler.tryHandle reading.clock addresses index reading.event).1) (fundingOps addresses) content
      addresses.read := by
  refine ⟨fun reading index => funding_served addresses reading index,fun reading index faithful named => ?_⟩
  intro ver value member
  obtain ⟨found,listed,put⟩ := List.mem_map.mp member
  obtain ⟨extracted,inside,same⟩ := List.mem_map.mp (List.fst_mem_of_mem_zipIdx listed)
  obtain ⟨rfl,rfl⟩ := FundingEvent.op_put put
  rw [← same]
  simp only [TxEvent.funding_utxo]
  exact extractFunding_known references faithful named inside

end Funding

section Live
variable {E S O : Type} [DecidableEq S] [EntitySnapshot E S OutputRef] {content : OutputRef → Option E} {read : OutputRef → O → Option E}
  {funds : OutputRef → Option (Nat × FinalizedTxOut O)}

-- For both handlers: as long as every event keeps what is unspent, all of it is
-- in the index, and the first event that does not loses some of it.

end Live

section Evicted
open Green.Recorded
open Green (GreenOrder)
open Pools.Machine.RoyaltyPool (sampleContext sampleAdmin sampleAddress sampleDatum sampleToken sampleValue)
open Cardano (TransactionOutput PlutusData)

-- What a reference names, by the transactions there are.
def contentOf (read : OutputRef → O → Option E) (txs : List (TxViewMut O)) (ref : OutputRef) : Option E :=
  ((txs.flatMap (fun tx => tx.outputs.map (fun output => ((⟨tx.hash,output.1⟩ : OutputRef),output.2)))).find? (fun named => named.1 = ref)).bind
    (fun named => read ref named.2)

theorem contentOf_read {read : OutputRef → O → Option E} {txs : List (TxViewMut O)} {ref : OutputRef} {e : E} (found : contentOf read txs ref = some e) :
    ∃ output,read ref output = some e := by
  obtain ⟨named,_,here⟩ := Option.bind_eq_some_iff.mp found
  exact ⟨named.2,here⟩

def readPool : OutputRef → TransactionOutput PlutusData → Option (EvolvingCardanoEntity GreenOrder) := EvolvingCardanoEntity.tryFromLedger sampleContext

theorem readPool_version {ref : OutputRef} {output : TransactionOutput PlutusData} {e : EvolvingCardanoEntity GreenOrder}
    (found : readPool ref output = some e) : version e = ref := by
  obtain ⟨pool,_,rfl⟩ := Option.map_eq_some_iff.mp found
  rfl

-- A transaction that spends the pool of `genuineTx`, and one with a pool of its
-- own.
def spendingTx : TxViewMut (TransactionOutput PlutusData) := ⟨Mpf.digestOf 4,[⟨Mpf.digestOf 1,0⟩],[(0,⟨[],.lovelace 5000000,none⟩)]⟩

def otherTx : TxViewMut (TransactionOutput PlutusData) :=
  ⟨Mpf.digestOf 5,[],[(0,⟨sampleAddress,sampleValue,some (sampleDatum 0x51 100 [sampleAdmin 1])⟩)]⟩

def sampleContent : OutputRef → Option (EvolvingCardanoEntity GreenOrder) := contentOf readPool [genuineTx,spendingTx,otherTx]

def sampleReading (now : Nat) (event : TxEvent (TransactionOutput PlutusData)) : Reading (TransactionOutput PlutusData) := ⟨fun _ => now,Book.inPlace,event⟩

def handlePools (reading : Reading (TransactionOutput PlutusData)) (index : InMemoryEntityIndex (EvolvingCardanoEntity GreenOrder) OutputRef) :
    InMemoryEntityIndex (EvolvingCardanoEntity GreenOrder) OutputRef := (tryHandle reading.clock reading.order readPool index reading.event).1

theorem sampleContent_names : ∀ tx ∈ [genuineTx,spendingTx,otherTx],Names sampleContent readPool tx := by
  intro tx member output inside
  simp only [List.mem_cons,List.not_mem_nil,or_false] at member
  rcases member with rfl | rfl | rfl
  · cases List.mem_singleton.mp inside
    rfl
  · cases List.mem_singleton.mp inside
    rfl
  · cases List.mem_singleton.mp inside
    rfl

theorem sampleContent_versions (ref : OutputRef) (e : EvolvingCardanoEntity GreenOrder) (found : sampleContent ref = some e) : version e = ref := by
  obtain ⟨output,read⟩ := contentOf_read found
  exact readPool_version read

-- The pool is confirmed; a transaction that would spend it comes to the mempool
-- and is dropped; the eviction runs when the next pool is seen.
def afterGenuine : InMemoryEntityIndex (EvolvingCardanoEntity GreenOrder) OutputRef := handlePools (sampleReading 0 (.applied genuineTx)) (.new 60)

def afterAccepted : InMemoryEntityIndex (EvolvingCardanoEntity GreenOrder) OutputRef := handlePools (sampleReading 1 (.accepted spendingTx)) afterGenuine

def afterDropped : InMemoryEntityIndex (EvolvingCardanoEntity GreenOrder) OutputRef := handlePools (sampleReading 2 (.dropped spendingTx)) afterAccepted

def afterOther : InMemoryEntityIndex (EvolvingCardanoEntity GreenOrder) OutputRef := handlePools (sampleReading 100 (.applied otherTx)) afterDropped

theorem afterOther_fed : Fed handlePools sampleContent readPool (fun _ _ _ => True) [otherTx,genuineTx] afterOther := by
  have genuine : Fed handlePools sampleContent readPool (fun _ _ _ => True) [genuineTx] afterGenuine :=
    .event (.new 60) (sampleReading 0 (.applied genuineTx)) (sampleContent_names genuineTx (by simp)) trivial trivial
  have accepted : Fed handlePools sampleContent readPool (fun _ _ _ => True) [genuineTx] afterAccepted :=
    .event genuine (sampleReading 1 (.accepted spendingTx)) (sampleContent_names spendingTx (by simp)) trivial trivial
  have dropped : Fed handlePools sampleContent readPool (fun _ _ _ => True) [genuineTx] afterDropped :=
    .event accepted (sampleReading 2 (.dropped spendingTx)) (sampleContent_names spendingTx (by simp)) trivial trivial
  exact .event dropped (sampleReading 100 (.applied otherTx)) (sampleContent_names otherTx (by simp)) trivial trivial

end Evicted
end GreenAgent.Engine
