import GreenAgent.Engine.Isolation

namespace GreenAgent.Engine
open Book (stableId)

-- What the index is for: four independent slots for each entity.
def Slots (E S : Type) := S → StateKey → Option E

namespace Slots
variable {E S V : Type} [DecidableEq S] [DecidableEq V] [EntitySnapshot E S V]

def empty : Slots E S := fun _ _ => none

def put (slots : Slots E S) (key : StateKey) (value : E) : Slots E S :=
  fun id k => if (k,id) = (key,stableId value) then some value else slots id k

def Dropped (ver : V) (key : StateKey) (e : E) : Prop := version e = ver ∧ ¬(key = .lastConfirmed ∧ isQuasiPermanent e = true)

instance (ver : V) (key : StateKey) (e : E) : Decidable (Dropped ver key e) := inferInstanceAs (Decidable (_ ∧ ¬_))

def invalidateVersion (slots : Slots E S) (ver : V) : Slots E S := fun id key => (slots id key).filter (fun e => ¬Dropped ver key e)

def eliminate (slots : Slots E S) (gone : S) : Slots E S := fun id key => if id = gone then none else slots id key

def apply (slots : Slots E S) : IndexOp E S V → Slots E S
  | .put key value => slots.put key value
  | .invalidate ver => slots.invalidateVersion ver
  | .eliminate id => slots.eliminate id

def after (ops : List (IndexOp E S V)) : Slots E S := ops.foldl apply empty

end Slots

section Simulation
variable {E S V : Type} [DecidableEq S] [DecidableEq V] [EntitySnapshot E S V] {known : E → Prop} {state : InMemoryStateIndex E S V} {slots : Slots E S}

-- The index holds the slots: a binding is the version of the entity in the
-- slot, and the store has what is in some slot and nothing else.
@[grind cases eager] structure Simulates (known : E → Prop) (state : InMemoryStateIndex E S V) (slots : Slots E S) : Prop where
  bindings : ∀ key id,state.index.lookup (key,id) = (slots id key).map version
  stored : ∀ ver e,state.store.lookup ver = some e ↔ version e = ver ∧ ∃ id key,slots id key = some e
  own : ∀ id key e,slots id key = some e → stableId e = id
  brought : ∀ id key e,slots id key = some e → known e

-- A version belongs to one entity and always carries the same one.
def Carried (known : E → Prop) : Prop := ∀ a b,known a → known b → version a = version b → a = b

theorem Simulates.bound (simulates : Simulates known state slots) {key : StateKey} {id : S} {e : E} (held : slots id key = some e) :
    state.index.lookup (key,id) = some (version e) := by
  rw [simulates.bindings,held]
  rfl

theorem Simulates.get (simulates : Simulates known state slots) (key : StateKey) (id : S) : state.get key id = slots id key := by
  unfold InMemoryStateIndex.get
  rw [simulates.bindings]
  cases held : slots id key with
  | none => rfl
  | some e => exact (simulates.stored (version e) e).mpr ⟨rfl,id,key,held⟩

theorem Simulates.getState (simulates : Simulates known state slots) (ver : V) :
    (state.getState ver).isSome = true ↔ ∃ id key e,slots id key = some e ∧ version e = ver := by
  rw [Option.isSome_iff_exists]
  constructor
  · rintro ⟨e,found⟩
    obtain ⟨same,id,key,held⟩ := (simulates.stored ver e).mp found
    exact ⟨id,key,e,held,same⟩
  · rintro ⟨id,key,e,held,same⟩
    exact ⟨e,(simulates.stored ver e).mpr ⟨same,id,key,held⟩⟩

-- The version that is overwritten stays in the store exactly if another slot of
-- the entity holds it.
theorem Simulates.put (carried : Carried known) (simulates : Simulates known state slots) (key : StateKey) {value : E} (new : known value) :
    Simulates known (state.put key value) (slots.put key value) where
  bindings := by
    intro k id
    rw [InMemoryStateIndex.put_index]
    unfold Slots.put
    grind
  own := by
    intro id k e held
    unfold Slots.put at held
    grind
  brought := by
    intro id k e held
    unfold Slots.put at held
    grind
  stored := by
    intro ver e
    rw [InMemoryStateIndex.put_store]
    have slot : ∀ id k,slots.put key value id k = some e ↔ (k,id) = (key,stableId value) ∧ value = e ∨ (k,id) ≠ (key,stableId value) ∧ slots id k = some e := by
      intro id k
      unfold Slots.put
      grind
    simp only [slot]
    by_cases same : ver = version value
    · rw [if_pos same]
      constructor
      · grind
      · rintro ⟨here,id,k,⟨_,rfl⟩ | ⟨_,held⟩⟩
        · rfl
        · exact congrArg some (carried value e new (simulates.brought id k e held) (same.symm.trans here.symm))
    · rw [if_neg same]
      split
      · rename_i overwritten
        obtain ⟨old,nowhere⟩ := overwritten
        refine iff_of_false (by rintro ⟨⟩) ?_
        rintro ⟨here,id,k,⟨_,rfl⟩ | ⟨apart,held⟩⟩
        · exact same here.symm
        -- what is left in a slot has the old version, so it is the old state itself
        · rw [simulates.bindings] at old
          obtain ⟨before,there,version_eq⟩ := Option.map_eq_some_iff.mp old
          obtain rfl : before = e := carried _ _ (simulates.brought _ _ _ there) (simulates.brought _ _ _ held) (version_eq.trans here.symm)
          have same_id : id = stableId value := (simulates.own _ _ _ held).symm.trans (simulates.own _ _ _ there)
          subst same_id
          refine nowhere (InMemoryStateIndex.mem_boundVersions.mpr ⟨k,fun at_key => apart (by rw [at_key]),?_⟩)
          rw [simulates.bound held,here]
      · rename_i kept
        rw [simulates.stored]
        constructor
        · rintro ⟨here,id,k,held⟩
          by_cases apart : (k,id) = (key,stableId value)
          · obtain ⟨rfl,rfl⟩ := Prod.mk.inj apart
            have old := simulates.bound held
            rw [here] at old
            by_cases elsewhere : ver ∈ state.boundVersions k (stableId value)
            · obtain ⟨p,other,there⟩ := InMemoryStateIndex.mem_boundVersions.mp elsewhere
              rw [simulates.bindings] at there
              obtain ⟨twin,twin_held,twin_version⟩ := Option.map_eq_some_iff.mp there
              obtain rfl : twin = e := carried _ _ (simulates.brought _ _ _ twin_held) (simulates.brought _ _ _ held) (twin_version.trans here.symm)
              grind
            grind
          grind
        grind

omit [DecidableEq S] in
theorem Slots.invalidate_some {id : S} {ver : V} {key : StateKey} {e : E} :
    slots.invalidateVersion ver id key = some e ↔ slots id key = some e ∧ ¬Slots.Dropped ver key e := by
  unfold Slots.invalidateVersion
  rw [Option.filter_eq_some_iff,decide_eq_true_eq]

theorem Simulates.invalidate (carried : Carried known) (simulates : Simulates known state slots) (ver : V) :
    Simulates known (state.invalidateVersion ver) (slots.invalidateVersion ver) := by
  cases found : state.store.lookup ver with
  | none =>
    -- no slot holds the version
    have same : slots.invalidateVersion ver = slots := by
      funext id key
      cases held : slots id key with
      | none => exact congrArg (Option.filter _) held
      | some e =>
        refine Slots.invalidate_some.mpr ⟨held,fun dropped => ?_⟩
        rw [(simulates.stored ver e).mpr ⟨dropped.1,id,key,held⟩] at found
        cases found
    rw [same,invalidate_none found]
    exact simulates
  | some entity =>
    obtain ⟨here,_,_,held⟩ := (simulates.stored ver entity).mp found
    have only : ∀ {id key e},slots id key = some e → version e = ver → e = entity := fun other same =>
      carried _ _ (simulates.brought _ _ _ other) (simulates.brought _ _ _ held) (same.trans here.symm)
    have bound_iff : ∀ {id key},state.index.lookup (key,id) = some ver ↔ slots id key = some entity := by
      intro id key
      rw [simulates.bindings,Option.map_eq_some_iff]
      grind
    refine ⟨fun key id => ?_,fun v e => ?_,fun id key e after => simulates.own id key e (Slots.invalidate_some.mp after).1,
      fun id key e after => simulates.brought id key e (Slots.invalidate_some.mp after).1⟩
    · rw [invalidate_index found]
      cases there : slots id key with
      | none =>
        have empty : slots.invalidateVersion ver id key = none := congrArg (Option.filter _) there
        grind
      | some e =>
        by_cases dropped : Slots.Dropped ver key e
        · obtain rfl := only there dropped.1
          have gone : slots.invalidateVersion ver id key = none := by
            refine Option.eq_none_iff_forall_ne_some.mpr (fun e' after => ?_)
            obtain ⟨before,stays⟩ := Slots.invalidate_some.mp after
            grind
          rw [gone,if_pos ⟨(simulates.own id key e there).symm,bound_iff.mpr there,dropped.2⟩]
          rfl
        · rw [Slots.invalidate_some.mpr ⟨there,dropped⟩,if_neg,simulates.bindings,there]
          rintro ⟨_,at_ver,temporary⟩
          obtain rfl := Option.some.inj (there.symm.trans (bound_iff.mp at_ver))
          exact dropped ⟨here,temporary⟩
    · rw [invalidate_store found]
      split
      · rename_i gone
        obtain ⟨rfl,temporary⟩ := gone
        refine iff_of_false nofun ?_
        rintro ⟨at_ver,id,key,after⟩
        obtain ⟨before,stays⟩ := Slots.invalidate_some.mp after
        obtain rfl := only before at_ver
        have permanent : key = .lastConfirmed ∧ isQuasiPermanent e = true := by
          by_contra dropped
          exact stays ⟨here,dropped⟩
        grind
      · rename_i kept
        rw [simulates.stored]
        refine and_congr_right (fun at_v => ⟨?_,fun ⟨id,key,after⟩ => ⟨id,key,(Slots.invalidate_some.mp after).1⟩⟩)
        rintro ⟨id,key,before⟩
        by_cases same : v = ver
        · subst same
          obtain rfl := only before at_v
          have permanent : isQuasiPermanent e = true ∧ slots (stableId e) .lastConfirmed = some e := by grind
          exact ⟨stableId e,.lastConfirmed,Slots.invalidate_some.mpr ⟨permanent.2,fun dropped => dropped.2 ⟨rfl,permanent.1⟩⟩⟩
        · exact ⟨id,key,Slots.invalidate_some.mpr ⟨before,fun dropped => same (at_v.symm.trans dropped.1)⟩⟩

theorem Simulates.eliminate (carried : Carried known) (simulates : Simulates known state slots) (gone : S) :
    Simulates known (state.eliminate gone) (slots.eliminate gone) := by
  have slot : ∀ {id key e},slots.eliminate gone id key = some e ↔ id ≠ gone ∧ slots id key = some e := by
    intro id key e
    unfold Slots.eliminate
    grind
  refine ⟨fun key id => ?_,fun v e => ?_,fun id key e after => simulates.own id key e (slot.mp after).2,
    fun id key e after => simulates.brought id key e (slot.mp after).2⟩
  · rw [eliminate_index,simulates.bindings]
    unfold Slots.eliminate
    split
    · rfl
    · rfl
  · by_cases bound : ∃ key,state.index.lookup (key,gone) = some v
    · obtain ⟨key,bound⟩ := bound
      unfold InMemoryStateIndex.eliminate
      rw [dropAll_bound (by cases key <;> decide) bound]
      refine iff_of_false nofun ?_
      rintro ⟨at_v,id,k,after⟩
      obtain ⟨other,held⟩ := slot.mp after
      rw [simulates.bindings] at bound
      obtain ⟨twin,there,same⟩ := Option.map_eq_some_iff.mp bound
      obtain rfl := carried _ _ (simulates.brought _ _ _ there) (simulates.brought _ _ _ held) (same.trans at_v.symm)
      grind
    · have unbound : ∀ key,state.index.lookup (key,gone) ≠ some v := fun key found => bound ⟨key,found⟩
      unfold InMemoryStateIndex.eliminate
      rw [dropAll_keeps unbound,simulates.stored]
      refine and_congr_right (fun at_v => ⟨?_,fun ⟨id,key,after⟩ => ⟨id,key,(slot.mp after).2⟩⟩)
      rintro ⟨id,key,held⟩
      refine ⟨id,key,slot.mpr ⟨?_,held⟩⟩
      grind

theorem Simulates.run (carried : Carried known) (simulates : Simulates known state slots) {ops : List (IndexOp E S V)}
    (brought : ∀ key value,.put key value ∈ ops → known value) :
    Simulates known (ops.foldl InMemoryStateIndex.apply state) (ops.foldl Slots.apply slots) := by
  induction ops generalizing state slots with
  | nil => exact simulates
  | cons op ops ih =>
    have rest : ∀ key value,.put key value ∈ ops → known value := fun key value member => brought key value (List.mem_cons_of_mem _ member)
    cases op with
    | put key value => exact ih (simulates.put carried key (brought key value List.mem_cons_self)) rest
    | invalidate ver => exact ih (simulates.invalidate carried ver) rest
    | eliminate id => exact ih (simulates.eliminate carried id) rest

theorem simulates_new : Simulates known (.new : InMemoryStateIndex E S V) Slots.empty where
  bindings _ _ := rfl
  stored _ _ := ⟨nofun,fun ⟨_,_,_,held⟩ => nomatch held⟩
  own _ _ _ held := nomatch held
  brought _ _ _ held := nomatch held

-- Whatever is put, invalidated and eliminated in whatever order: the index
-- answers as the slots would.
theorem index_refines_slots {ops : List (IndexOp E S V)}
    (carried : ∀ a b key key',.put key a ∈ ops → .put key' b ∈ ops → version a = version b → a = b) :
    (∀ key id,(InMemoryStateIndex.after ops).get key id = Slots.after ops id key) ∧
    ∀ ver,((InMemoryStateIndex.after ops).getState ver).isSome = true ↔ ∃ id key e,Slots.after ops id key = some e ∧ version e = ver := by
  have steady : Carried (fun e => ∃ key,.put key e ∈ ops) := fun a b ⟨key,first⟩ ⟨key',second⟩ => carried a b key key' first second
  have simulates := simulates_new.run steady (fun key value member => ⟨key,member⟩)
  exact ⟨simulates.get,simulates.getState⟩

end Simulation

section Sample
open Green.Recorded

-- Two states of one order; the first is predicted, confirmed and then
-- invalidated, the second is what is left.
def sampleOps : List (IndexOp (EvolvingEntity Green.GreenOrder Pools.RoyaltyPool Account.OutputRef (Account.FinalizedTxOut Unit)) Account.Token Account.OutputRef) :=
  let first := created Green.sampleOrder accountOutput ⟨(),accountOutput⟩
  let second := created Green.sampleOrder siblingOutput ⟨(),siblingOutput⟩
  [.put .lastPredicted first,.put .lastConfirmed first,.put .lastPredicted second,.invalidate accountOutput]

theorem sampleOps_carried : ∀ a b key key',.put key a ∈ sampleOps → .put key' b ∈ sampleOps → version a = version b → a = b := by
  intro a b key key' first second same
  simp only [sampleOps,List.mem_cons,IndexOp.put.injEq,List.not_mem_nil,reduceCtorEq,or_false] at first second
  have apart : accountOutput ≠ siblingOutput := by decide
  rcases first with ⟨_,rfl⟩ | ⟨_,rfl⟩ | ⟨_,rfl⟩ <;> rcases second with ⟨_,rfl⟩ | ⟨_,rfl⟩ | ⟨_,rfl⟩
  all_goals first | rfl | exact absurd same apart | exact absurd same.symm apart

theorem index_refines_slots_sample :
    (∀ key id,(InMemoryStateIndex.after sampleOps).get key id = Slots.after sampleOps id key) ∧
    Slots.after sampleOps (stableId Green.sampleOrder) .lastPredicted = some (created Green.sampleOrder siblingOutput ⟨(),siblingOutput⟩) ∧
    Slots.after sampleOps (stableId Green.sampleOrder) .lastConfirmed = none :=
  ⟨(index_refines_slots sampleOps_carried).1,by decide +kernel,by decide +kernel⟩

end Sample
end GreenAgent.Engine
