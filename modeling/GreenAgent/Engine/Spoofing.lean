import GreenAgent.Engine.Handler
import GreenAgent.Engine.History
import GreenAgent.Pools.Safety

namespace GreenAgent.Engine
open Account (OutputRef Token FinalizedTxOut)
open Book (Stable stableId HashOrder)

section Writes
variable {E S V : Type} [DecidableEq S] [DecidableEq V] [EntitySnapshot E S V] {mine : V → Prop} {id : S} {state : InMemoryStateIndex E S V}

-- An entity of the id comes with a version of its own, any other with none of
-- these.
def Separate (mine : V → Prop) (id : S) (e : E) : Prop := mine (version e) ↔ stableId e = id

def writeAll (state : InMemoryStateIndex E S V) (writes : List (StateKey × E)) : InMemoryStateIndex E S V :=
  writes.foldl (fun state write => state.put write.1 write.2) state

theorem Sole.writeAll_agree {writes : List (StateKey × E)} (sole : Sole mine id state) (separate : ∀ write ∈ writes,Separate mine id write.2)
    (others : ∀ write ∈ writes,stableId write.2 ≠ id) : Agree id (writeAll state writes) state := by
  induction writes generalizing state with
  | nil => exact .refl id state
  | cons write rest ih =>
    have own := separate write List.mem_cons_self
    have first := sole.put_agree write.1 own (others write List.mem_cons_self)
    have later := ih (sole.put write.1 own) (fun w member => separate w (List.mem_cons_of_mem _ member))
      (fun w member => others w (List.mem_cons_of_mem _ member))
    exact later.trans first

-- Writes of several entities, one each: what the entity is resolved to stays
-- exactly if its own write is hidden or brings nothing new.
theorem Sole.writeAll_iff {writes : List (StateKey × E)} {p : E} (sole : Sole mine id state) (tracked : resolveState id state = some p)
    (separate : ∀ write ∈ writes,Separate mine id write.2) (distinct : (writes.map (fun write => stableId write.2)).Nodup) :
    resolveState id (writeAll state writes) = some p ↔ ∀ write ∈ writes,stableId write.2 = id →
      (∃ k ∈ above write.1,(state.index.lookup (k,id)).isSome = true) ∧ version p ≠ version write.2 ∨ write.2 = p := by
  induction writes generalizing state with
  | nil => exact iff_of_true tracked (fun write member => nomatch member)
  | cons write rest ih =>
    have own := separate write List.mem_cons_self
    have separate_rest : ∀ w ∈ rest,Separate mine id w.2 := fun w member => separate w (List.mem_cons_of_mem _ member)
    rw [List.map_cons,List.nodup_cons] at distinct
    have next := sole.put write.1 own
    rw [List.forall_mem_cons]
    change resolveState id (writeAll (state.put write.1 write.2) rest) = some p ↔ _
    by_cases same : stableId write.2 = id
    · have others : ∀ w ∈ rest,stableId w.2 ≠ id := by
        intro w member here
        exact distinct.1 (List.mem_map.mpr ⟨w,member,here.trans same.symm⟩)
      rw [(next.writeAll_agree separate_rest others).resolve,sole.written_iff write.1 same tracked]
      grind
    · have agree := sole.put_agree write.1 own same
      rw [ih next (agree.resolve.trans tracked) separate_rest distinct.2]
      grind

end Writes

section Transitions
variable {S T M B O : Type} [DecidableEq S] [Stable T S] [Stable M S] [QuasiPermanent T] [QuasiPermanent M]

namespace Ior

def subject : Ior α α → α
  | .left spent => spent
  | .right new => new
  | .both _ new => new

-- The slot a confirmed transition of a pool is written to.
def slot : Ior α α → StateKey
  | .left _ => .fallback
  | .right _ => .lastConfirmed
  | .both _ _ => .lastConfirmed

end Ior

theorem confirm_permanent {change : Ior (EvolvingEntity T M OutputRef B) (EvolvingEntity T M OutputRef B)} (permanent : isQuasiPermanent change.subject = true)
    (state : InMemoryStateIndex (EvolvingEntity T M OutputRef B) S OutputRef) : confirm state change = state.put change.slot change.subject := by
  cases change with
  | left spent => exact if_pos permanent
  | right new => rfl
  | both old new => rfl

theorem confirm_writes {changes : List (Ior (EvolvingEntity T M OutputRef B) (EvolvingEntity T M OutputRef B))}
    (permanent : ∀ change ∈ changes,isQuasiPermanent change.subject = true) (state : InMemoryStateIndex (EvolvingEntity T M OutputRef B) S OutputRef) :
    changes.foldl confirm state = writeAll state (changes.map (fun change => (change.slot,change.subject))) := by
  induction changes generalizing state with
  | nil => rfl
  | cons change rest ih =>
    rw [List.foldl_cons,confirm_permanent (permanent change List.mem_cons_self),ih (fun c member => permanent c (List.mem_cons_of_mem _ member))]
    rfl

variable {P U X : Type}

def absorb (exec : Executor P S OutputRef T M B U X) (updates : List (Channel (Transition (EvolvingEntity T M OutputRef B)))) :
    Executor P S OutputRef T M B U X := updates.foldl (fun exec update => (exec.updateState update).1) exec

theorem absorb_confirmed (exec : Executor P S OutputRef T M B U X) (changes : List (Ior (EvolvingEntity T M OutputRef B) (EvolvingEntity T M OutputRef B))) :
    (absorb exec (changes.map (fun change => .ledger (.forward change)))).index = changes.foldl confirm exec.index := by
  induction changes generalizing exec with
  | nil => rfl
  | cons change rest ih =>
    rw [List.foldl_cons,← updateState_confirmed change]
    exact ih _

end Transitions

section Extracted
variable {E S O : Type} [EntitySnapshot E S OutputRef] {ok : E → Prop} {read : OutputRef → O → Option E}
  {index : InMemoryEntityIndex E OutputRef} {tx : TxViewMut O} {id : S}

def Holds (ok : E → Prop) (index : InMemoryEntityIndex E OutputRef) : Prop := ∀ ref e,index.getState ref = some e → version e = ref ∧ ok e

theorem Holds.evicted (holds : Holds ok index) (now : Nat) : Holds ok (index.runEviction now) := by
  intro ref e found
  rw [InMemoryEntityIndex.runEviction_getState] at found
  split at found
  · cases found
  · exact holds ref e found

theorem Holds.put (holds : Holds ok index) {e : E} (good : ok e) : Holds ok (index.putState e) := by
  intro ref e' found
  rw [InMemoryEntityIndex.putState_getState] at found
  split at found
  · grind
  · exact holds ref e' found

-- Every part of a change is good.
def Ior.All (ok : α → Prop) : Ior α α → Prop
  | .left a => ok a
  | .right b => ok b
  | .both a b => ok a ∧ ok b

theorem Ior.All.swap {ok : α → Prop} {change : Ior α α} (all : change.All ok) : change.swap.All ok := by
  cases change with
  | left a => exact all
  | right b => exact all
  | both a b => exact ⟨all.2,all.1⟩

theorem Holds.transition (holds : Holds ok index) {change : Ior E E} (all : change.All ok) (now : Nat) : Holds ok (indexTransition now index change) := by
  cases change with
  | left a => exact holds
  | right b => exact holds.put all
  | both a b =>
    have registered : Holds ok (index.registerForEviction now (version a)) := holds
    exact registered.put all.2

theorem Holds.consumed (holds : Holds ok index) {e : E} (member : some e ∈ tx.consumed index) : ok e ∧ version e ∈ tx.inputs := by
  obtain ⟨ref,input,found⟩ := List.mem_map.mp member
  obtain ⟨same,good⟩ := holds ref e found
  exact ⟨good,same ▸ input⟩

variable [DecidableEq S]

-- A transition is of one entity, and its parts are inputs the index knows and
-- outputs that were read.
theorem transitionOf_parts (good : ∀ e,some e ∈ tx.consumed index → ok e) (brings : ∀ e,some e ∈ tx.produced read → ok e) {change : Ior E E}
    (found : tx.transitionOf read index id = some change) : change.All (fun e => stableId e = id ∧ ok e) := by
  have consumed : ∀ e,lastOf id (tx.consumed index) = some e → stableId e = id ∧ ok e := fun e last => ⟨(lastOf_some last).2,good e (lastOf_some last).1⟩
  have produced : ∀ e,lastOf id (tx.produced read).reverse = some e → stableId e = id ∧ ok e :=
    fun e last => ⟨(lastOf_some last).2,brings e (List.mem_reverse.mp (lastOf_some last).1)⟩
  unfold TxViewMut.transitionOf at found
  cases old : lastOf id (tx.consumed index) with
  | none =>
    cases new : lastOf id (tx.produced read).reverse with
    | none => rw [old,new] at found; cases found
    | some b => rw [old,new] at found; cases found; exact produced b new
  | some a =>
    cases new : lastOf id (tx.produced read).reverse with
    | none => rw [old,new] at found; cases found; exact consumed a old
    | some b => rw [old,new] at found; cases found; exact ⟨consumed a old,produced b new⟩

theorem Holds.handled (holds : Holds ok index) (clock : Nat → Nat) (order : HashOrder) (event : TxEvent O)
    (brings : ∀ e,some e ∈ event.tx.produced read → ok e) : Holds ok (tryHandle clock order read index event).1 := by
  unfold tryHandle
  have extracted := extract_eq order read index event.tx
  cases found : extractContinuousTransitions order read index event.tx with
  | none => exact holds
  | some transitions =>
    obtain ⟨keys,_,_,same⟩ := extracted
    have parts : ∀ change ∈ transitions.map event.indexed,change.All ok := by
      intro change member
      obtain ⟨tr,listed,rfl⟩ := List.mem_map.mp member
      have all : tr.All ok := by
        rw [found,Option.getD_some] at same
        rw [same] at listed
        split at listed
        · cases listed
        · obtain ⟨key,_,here⟩ := List.mem_filterMap.mp listed
          have all := transitionOf_parts (fun e member => (holds.consumed member).1) brings here
          cases tr with
          | left a => exact all.2
          | right b => exact all.2
          | both a b => exact ⟨all.1.2,all.2.2⟩
      cases event with
      | applied tx => exact all
      | unapplied tx => exact all.swap
      | accepted tx => exact all
      | dropped tx => exact all
    have folded : ∀ (list : List (Ior E E × Nat)) (index : InMemoryEntityIndex E OutputRef),(∀ change ∈ list,change.1.All ok) → Holds ok index →
        Holds ok (list.foldl (fun index tr => indexTransition (clock (tr.2 + 1)) index tr.1) index) := by
      intro list
      induction list with
      | nil => exact fun _ _ holds => holds
      | cons change rest ih =>
        intro index all holds
        exact ih _ (fun c member => all c (List.mem_cons_of_mem _ member)) (holds.transition (all change List.mem_cons_self) _)
    refine folded _ _ (fun change member => ?_) (holds.evicted _)
    grind

-- The indexes a handler comes to, by events whose outputs are read as good
-- entities.
inductive Tracks (read : OutputRef → O → Option E) (ok : E → Prop) : InMemoryEntityIndex E OutputRef → Prop
  | new (evictionDelay : Nat) : Tracks read ok (.new evictionDelay)
  | handle {index : InMemoryEntityIndex E OutputRef} (before : Tracks read ok index) (clock : Nat → Nat) (order : HashOrder) (event : TxEvent O)
      (brings : ∀ e,some e ∈ event.tx.produced read → ok e) : Tracks read ok (tryHandle clock order read index event).1

theorem Tracks.holds (tracks : Tracks read ok index) : Holds ok index := by
  induction tracks with
  | new delay => exact fun ref e found => by cases found
  | handle _ clock order event brings ih => exact ih.handled clock order event brings

theorem transitionOf_subject (holds : Holds ok index) (brings : ∀ e,some e ∈ tx.produced read → ok e) {change : Ior E E}
    (found : tx.transitionOf read index id = some change) : stableId change.subject = id ∧ ok change.subject := by
  have all := transitionOf_parts (fun e member => (holds.consumed member).1) brings found
  cases change with
  | left a => exact all
  | right b => exact all
  | both a b => exact all.2

theorem extract_distinct {order : HashOrder} (holds : Holds ok index) (brings : ∀ e,some e ∈ tx.produced read → ok e) :
    (((extractContinuousTransitions order read index tx).getD []).map (fun change => stableId change.subject)).Nodup ∧
    ∀ change,change ∈ (extractContinuousTransitions order read index tx).getD [] ↔
      tx.outputs ≠ [] ∧ tx.transitionOf read index (stableId change.subject) = some change := by
  obtain ⟨keys,nodup,listed,same⟩ := extract_eq order read index tx
  have named : ∀ key change,tx.transitionOf read index key = some change → stableId change.subject = key :=
    fun key change found => (transitionOf_subject holds brings found).1
  rw [same]
  by_cases empty : tx.outputs = []
  · grind
  · rw [if_neg empty]
    constructor
    · grind
    grind

end Extracted

section Pools
open Pools.Machine (RoyaltyPool PoolContext)
open Cardano (TransactionOutput PlutusData)
variable {T : Type}

instance : Stable RoyaltyPool Token := ⟨RoyaltyPool.id⟩

instance : QuasiPermanent RoyaltyPool := ⟨fun _ => true⟩

abbrev EvolvingCardanoEntity (T : Type) := EvolvingEntity T RoyaltyPool OutputRef (FinalizedTxOut (TransactionOutput PlutusData))

-- Only pools are read from the ledger. The amounts are those of the machine.
def EvolvingCardanoEntity.tryFromLedger (ctx : PoolContext) (ref : OutputRef) (output : TransactionOutput PlutusData) : Option (EvolvingCardanoEntity T) :=
  (RoyaltyPool.tryFromLedger ctx output).map (fun pool => ⟨.inr ⟨pool.value,ref⟩,⟨output,ref⟩⟩)

variable {P U X : Type} [Stable T Token] [QuasiPermanent T] {mine : OutputRef → Prop} {id : Token} {ctx : PoolContext}
  {handler : InMemoryEntityIndex (EvolvingCardanoEntity T) OutputRef} {exec : Executor P Token OutputRef T RoyaltyPool (FinalizedTxOut (TransactionOutput PlutusData)) U X}
  {tx : TxViewMut (TransactionOutput PlutusData)} {p : EvolvingCardanoEntity T}

theorem produced_permanent {e : EvolvingCardanoEntity T} (member : some e ∈ tx.produced (EvolvingCardanoEntity.tryFromLedger ctx)) : isQuasiPermanent e = true := by
  obtain ⟨output,_,found⟩ := List.mem_map.mp member
  obtain ⟨pool,_,rfl⟩ := Option.map_eq_some_iff.mp found
  rfl

-- The outputs of a transaction are nobody else's states.
def Fresh (mine : OutputRef → Prop) (id : Token) (ctx : PoolContext) (T : Type) [Stable T Token] [QuasiPermanent T]
    (tx : TxViewMut (TransactionOutput PlutusData)) : Prop :=
  ∀ e : EvolvingCardanoEntity T,some e ∈ tx.produced (EvolvingCardanoEntity.tryFromLedger ctx) → Separate mine id e

-- A state of the handler and the executor in which the versions of one pool are
-- its own: any events the handler saw, any calls the index of the executor saw.
@[grind cases eager] structure Follows (mine : OutputRef → Prop) (id : Token) (ctx : PoolContext) (handler : InMemoryEntityIndex (EvolvingCardanoEntity T) OutputRef)
    (exec : Executor P Token OutputRef T RoyaltyPool (FinalizedTxOut (TransactionOutput PlutusData)) U X) : Prop where
  tracks : Tracks (EvolvingCardanoEntity.tryFromLedger ctx) (fun e => Separate mine id e ∧ isQuasiPermanent e = true) handler
  grown : Grown (Separate mine id) .new exec.index

-- What a confirmed transaction has to leave alone. `lastOf` in the reversed
-- outputs is the first output that is read as a state of the pool.
def Harmless (id : Token) (ctx : PoolContext) (handler : InMemoryEntityIndex (EvolvingCardanoEntity T) OutputRef)
    (exec : Executor P Token OutputRef T RoyaltyPool (FinalizedTxOut (TransactionOutput PlutusData)) U X) (tx : TxViewMut (TransactionOutput PlutusData))
    (p : EvolvingCardanoEntity T) : Prop :=
  let hidden := fun keys : List StateKey => ∃ key ∈ keys,(exec.index.index.lookup (key,id)).isSome = true
  tx.outputs = [] ∨ match lastOf id (tx.produced (EvolvingCardanoEntity.tryFromLedger ctx)).reverse with
    | some forged => hidden [.lastPredicted,.lastUnconfirmed,.fallback] ∧ version p ≠ version forged ∨ forged = p
    | none => (∀ e,some e ∈ tx.consumed handler → stableId e ≠ id) ∨ hidden [.lastPredicted,.lastUnconfirmed]

theorem absorb_grown {ok : EvolvingCardanoEntity T → Prop} {updates : List (Channel (Transition (EvolvingCardanoEntity T)))}
    (good : ∀ update ∈ updates,ok update.update.subject) : Grown ok exec.index (absorb exec updates).index := by
  induction updates generalizing exec with
  | nil => exact .refl _
  | cons update rest ih =>
    exact (Grown.update (good update List.mem_cons_self)).trans (ih (fun u member => good u (List.mem_cons_of_mem _ member)))

theorem Follows.applied (follows : Follows mine id ctx handler exec) (fresh : Fresh mine id ctx T tx) (clock : Nat → Nat) (order : HashOrder) :
    Follows mine id ctx (tryHandle clock order (EvolvingCardanoEntity.tryFromLedger ctx) handler (.applied tx)).1
      (absorb exec (tryHandle clock order (EvolvingCardanoEntity.tryFromLedger ctx) handler (.applied tx)).2) := by
  have brings : ∀ e : EvolvingCardanoEntity T,some e ∈ tx.produced (EvolvingCardanoEntity.tryFromLedger ctx) → Separate mine id e ∧ isQuasiPermanent e = true :=
    fun e member => ⟨fresh e member,produced_permanent member⟩
  refine ⟨.handle follows.tracks clock order (.applied tx) brings,follows.grown.trans (absorb_grown (fun update member => ?_))⟩
  rw [tryHandle_reported] at member
  obtain ⟨change,listed,rfl⟩ := List.mem_map.mp member
  have subject := transitionOf_subject follows.tracks.holds brings (((extract_distinct follows.tracks.holds brings).2 change).mp listed).2
  tauto

end Pools

section Forged
open Green.Recorded
open Green (GreenOrder ExUnits)
open Pools.Machine (RoyaltyPool)
open Pools.Machine.RoyaltyPool (sampleContext sampleOutput sampleAdmin sampleAddress sampleDatum sampleToken)
open Cardano (TransactionOutput PlutusData)

abbrev LedgerExecutor :=
  Executor (Account.AssetClass × Account.AssetClass) Token OutputRef GreenOrder RoyaltyPool (FinalizedTxOut (TransactionOutput PlutusData)) ExUnits Unit

-- The same output without the token that is the identity of the pool.
def forgedOutput : TransactionOutput PlutusData :=
  ⟨sampleAddress,⟨1000000000,AList.insert (sampleToken 2) 600000000 (AList.insert (sampleToken 0x4c) 9223372036154775807 ∅)⟩,
    some (sampleDatum 0x50 100 [sampleAdmin 1])⟩

def genuineTx : TxViewMut (TransactionOutput PlutusData) := ⟨Mpf.digestOf 1,[],[(0,sampleOutput 100 [sampleAdmin 1])]⟩

def forgedTx : TxViewMut (TransactionOutput PlutusData) := ⟨Mpf.digestOf 2,[],[(0,forgedOutput)]⟩

def paymentTx : TxViewMut (TransactionOutput PlutusData) := ⟨Mpf.digestOf 3,[],[(0,⟨[],.lovelace 5000000,none⟩)]⟩

def handleTx (system : InMemoryEntityIndex (EvolvingCardanoEntity GreenOrder) OutputRef × LedgerExecutor) (tx : TxViewMut (TransactionOutput PlutusData)) :
    InMemoryEntityIndex (EvolvingCardanoEntity GreenOrder) OutputRef × LedgerExecutor :=
  let (handler,updates) := tryHandle (fun _ => 0) Book.inPlace (EvolvingCardanoEntity.tryFromLedger sampleContext) system.1 (.applied tx)
  (handler,absorb system.2 updates)

def tracking : InMemoryEntityIndex (EvolvingCardanoEntity GreenOrder) OutputRef × LedgerExecutor :=
  handleTx (.new 60,.new 0 Book.adaConf ()) genuineTx

theorem sample_fresh {tx : TxViewMut (TransactionOutput PlutusData)}
    (named : ∀ found ∈ tx.produced (EvolvingCardanoEntity.tryFromLedger (T := GreenOrder) sampleContext),found.map stableId = none ∨
      found.map stableId = some (sampleToken 0x50)) : Fresh (fun _ => True) (sampleToken 0x50) sampleContext GreenOrder tx := by
  intro e member
  refine iff_of_true trivial ?_
  grind

theorem tracking_follows : Follows (fun _ => True) (sampleToken 0x50) sampleContext tracking.1 tracking.2 := by
  have start : Follows (fun _ => True) (sampleToken 0x50) sampleContext (.new 60) (.new 0 Book.adaConf () : LedgerExecutor) := ⟨.new 60,.refl _⟩
  have fresh : Fresh (fun _ => True) (sampleToken 0x50) sampleContext GreenOrder genuineTx := sample_fresh (by decide +kernel)
  exact start.applied fresh (fun _ => 0) Book.inPlace

theorem tracking_resolved : ∃ p,resolveState (sampleToken 0x50) tracking.2.index = some p ∧ version p = ⟨Mpf.digestOf 1,0⟩ := by
  have served : (resolveState (sampleToken 0x50) tracking.2.index).map version = some ⟨Mpf.digestOf 1,0⟩ := by decide +kernel
  exact Option.map_eq_some_iff.mp served

-- An output at the address of the pools whose datum names the token takes the
-- place of the pool.

end Forged
end GreenAgent.Engine
