import GreenAgent.Engine.Index
import GreenAgent.Account.Types

namespace GreenAgent.Engine
open Account (Token OutputRef)
open Book (stableId)
open Mpf (Bytes)

-- A name of at most 32 bytes in an array of 32.
def paddedBytes (name : Bytes) : Bytes := name ++ List.replicate (32 - name.length) 0

def tokenBytes (token : Token) : Bytes := token.policy.bytes ++ paddedBytes token.assetName

def StateKey.byte : StateKey → UInt8
  | .lastConfirmed => 3
  | .lastUnconfirmed => 4
  | .lastPredicted => 5
  | .fallback => 6

def indexKey (key : StateKey) (id : Token) : Bytes := key.byte :: tokenBytes id

theorem padded_eq {a b : Bytes} (fits : b.length ≤ 32) (longer : a.length ≤ b.length) :
    paddedBytes a = paddedBytes b ↔ ∃ n,b = a ++ List.replicate n 0 := by
  constructor
  · intro same
    have zeros : List.replicate (32 - a.length) (0 : UInt8) =
        List.replicate (b.length - a.length) 0 ++ List.replicate (32 - b.length) 0 := by
      rw [← List.replicate_add]
      congr 1
      omega
    unfold paddedBytes at same
    rw [zeros,← List.append_assoc] at same
    exact ⟨b.length - a.length,(List.append_inj_left' same rfl).symm⟩
  · rintro ⟨n,rfl⟩
    rw [List.length_append,List.length_replicate] at fits
    unfold paddedBytes
    rw [List.append_assoc,← List.replicate_add,List.length_append,List.length_replicate]
    congr 2
    omega

-- One name is not the other followed by zero bytes.
def KeyApart (a b : Token) : Prop :=
  a.policy = b.policy → ∀ n,a.assetName ≠ b.assetName ++ List.replicate n 0 ∧ b.assetName ≠ a.assetName ++ List.replicate n 0

theorem tokenBytes_ne {a b : Token} (fits : a.assetName.length ≤ 32) (fits' : b.assetName.length ≤ 32) :
    tokenBytes a ≠ tokenBytes b ↔ KeyApart a b := by
  have names : paddedBytes a.assetName = paddedBytes b.assetName ↔
      ∃ n,a.assetName = b.assetName ++ List.replicate n 0 ∨ b.assetName = a.assetName ++ List.replicate n 0 := by
    constructor
    · intro same
      rcases Nat.le_total a.assetName.length b.assetName.length with longer | longer
      · obtain ⟨n,shape⟩ := (padded_eq fits' longer).mp same
        exact ⟨n,.inr shape⟩
      · obtain ⟨n,shape⟩ := (padded_eq fits longer).mp same.symm
        exact ⟨n,.inl shape⟩
    · rintro ⟨n,shape | shape⟩
      · exact ((padded_eq fits (by rw [shape,List.length_append]; exact Nat.le_add_right _ _)).mpr ⟨n,shape⟩).symm
      · exact (padded_eq fits' (by rw [shape,List.length_append]; exact Nat.le_add_right _ _)).mpr ⟨n,shape⟩
  have whole : tokenBytes a = tokenBytes b ↔ a.policy = b.policy ∧ paddedBytes a.assetName = paddedBytes b.assetName := by
    unfold tokenBytes
    constructor
    · intro same
      obtain ⟨policies,rest⟩ := List.append_inj same (by rw [a.policy.size,b.policy.size])
      refine ⟨?_,rest⟩
      cases policy : a.policy
      simp_all
    grind
  rw [ne_eq,whole,names]
  unfold KeyApart
  grind

-- An entity as the index sees it.
structure Keyed (E : Type) where
  entity : E

instance [EntitySnapshot E Token V] : EntitySnapshot (Keyed E) Bytes V where
  stableId e := tokenBytes (stableId e.entity)
  isQuasiPermanent e := isQuasiPermanent e.entity
  version e := version e.entity

def IndexOp.keyed : IndexOp E Token V → IndexOp (Keyed E) Bytes V
  | .put key value => .put key ⟨value⟩
  | .invalidate ver => .invalidate ver
  | .eliminate id => .eliminate (tokenBytes id)

section Separation
variable {E V : Type} [DecidableEq V] [EntitySnapshot E Token V]

def keyedAfter (ops : List (IndexOp E Token V)) : InMemoryStateIndex (Keyed E) Bytes V := .after (ops.map IndexOp.keyed)

-- `get_last_confirmed` and the like are `read` at their key.
def read (ops : List (IndexOp E Token V)) (key : StateKey) (id : Token) : Option E :=
  ((keyedAfter ops).get key (tokenBytes id)).map Keyed.entity

def UsedBy (id : Token) (ops : List (IndexOp E Token V)) (ver : V) : Prop :=
  ∃ key value,.put key value ∈ ops ∧ stableId value = id ∧ version value = ver

-- An operation on an entity of the token.
def Concerns (id : Token) : IndexOp E Token V → Prop
  | .put _ value => stableId value = id
  | .invalidate _ => True
  | .eliminate gone => gone = id

-- An operation on an entity of some other token, with a version that is not in
-- use.
def Elsewhere (others : Set Token) (used : V → Prop) : IndexOp E Token V → Prop
  | .put _ value => stableId value ∈ others ∧ ¬used (version value)
  | .invalidate ver => ¬used ver
  | .eliminate gone => gone ∈ others

def Separated (E V : Type) [DecidableEq V] [EntitySnapshot E Token V] (others : Set Token) (id : Token) : Prop :=
  ∀ history ops : List (IndexOp E Token V),(∀ op ∈ history,Concerns id op ∨ Elsewhere others (UsedBy id history) op) →
    (∀ op ∈ ops,Elsewhere others (UsedBy id history) op) → ∀ key,read (history ++ ops) key id = read history key id

end Separation

section Agreement
variable {E S V : Type} [DecidableEq S] [DecidableEq V] [EntitySnapshot E S V] {mine : V → Prop} {id : S} {state : InMemoryStateIndex E S V}

theorem Sole.invalidate_agree (sole : Sole mine id state) {ver : V} (other : ¬mine ver) : Agree id (state.invalidateVersion ver) state := by
  cases found : state.store.lookup ver with
  | none =>
    rw [invalidate_none found]
    exact Agree.refl id state
  | some entity =>
    refine ⟨fun key => ?_,fun key v bound => ?_⟩
    · rw [invalidate_index found,if_neg]
      grind
    · rw [invalidate_store found,if_neg]
      grind

theorem Sole.eliminate_agree (sole : Sole mine id state) {gone : S} (other : gone ≠ id) : Agree id (state.eliminate gone) state := by
  refine ⟨fun key => ?_,fun key ver bound => ?_⟩
  · rw [eliminate_index,if_neg other.symm]
  · exact dropAll_keeps (fun k found => other (sole.apart k gone ver found (sole.bound key ver bound)))

end Agreement

section Separates
variable {E V : Type} [DecidableEq V] [EntitySnapshot E Token V] {others : Set Token} {id : Token} {used : V → Prop}

omit [DecidableEq V] in
theorem Elsewhere.own {op : IndexOp E Token V} (elsewhere : Elsewhere others used op) (apart : ∀ a ∈ others,tokenBytes a ≠ tokenBytes id)
    (key : StateKey) (value : Keyed E) (same : op.keyed = .put key value) : used (version value) ↔ stableId value = tokenBytes id := by
  cases op with
  | put k e =>
    cases same
    exact iff_of_false elsewhere.2 (apart _ elsewhere.1)
  | invalidate ver => cases same
  | eliminate gone => cases same

theorem Elsewhere.agree {op : IndexOp E Token V} {state : InMemoryStateIndex (Keyed E) Bytes V} (elsewhere : Elsewhere others used op)
    (apart : ∀ a ∈ others,tokenBytes a ≠ tokenBytes id) (sole : Sole used (tokenBytes id) state) : Agree (tokenBytes id) (state.apply op.keyed) state := by
  cases op with
  | put key value => exact sole.put_agree key (elsewhere.own apart key ⟨value⟩ rfl) (apart _ elsewhere.1)
  | invalidate ver => exact sole.invalidate_agree elsewhere
  | eliminate gone => exact sole.eliminate_agree (apart gone elsewhere)

theorem elsewhere_run {ops : List (IndexOp E Token V)} {state : InMemoryStateIndex (Keyed E) Bytes V} (apart : ∀ a ∈ others,tokenBytes a ≠ tokenBytes id)
    (elsewhere : ∀ op ∈ ops,Elsewhere others used op) (sole : Sole used (tokenBytes id) state) :
    Agree (tokenBytes id) ((ops.map IndexOp.keyed).foldl InMemoryStateIndex.apply state) state := by
  induction ops generalizing state with
  | nil => exact Agree.refl _ state
  | cons op ops ih =>
    have first := elsewhere op List.mem_cons_self
    have next := sole.apply (first.own apart)
    exact (ih (fun op member => elsewhere op (List.mem_cons_of_mem _ member)) next).trans (first.agree apart sole)

theorem separated_of_apart (apart : ∀ a ∈ others,tokenBytes a ≠ tokenBytes id) : Separated E V others id := by
  intro history ops concerns elsewhere key
  have sole : Sole (UsedBy id history) (tokenBytes id) (keyedAfter history) := by
    refine sole_new.run (fun key value member => ?_)
    obtain ⟨op,inside,same⟩ := List.mem_map.mp member
    rcases concerns op inside with own | other
    · cases op with
      | put k e =>
        cases same
        exact iff_of_true ⟨key,e,inside,own,rfl⟩ (congrArg tokenBytes own)
      | invalidate ver => cases same
      | eliminate gone => cases same
    · exact other.own apart key value same
  have agree := elsewhere_run apart elsewhere sole
  have after : keyedAfter (history ++ ops) = (ops.map IndexOp.keyed).foldl InMemoryStateIndex.apply (keyedAfter history) := by
    unfold keyedAfter InMemoryStateIndex.after
    rw [List.map_append,List.foldl_append]
  unfold read
  rw [after,agree.get key]

theorem get_put {E S V : Type} [DecidableEq S] [DecidableEq V] [EntitySnapshot E S V] (state : InMemoryStateIndex E S V) (key : StateKey) (value : E) :
    (state.put key value).get key (stableId value) = some value := by
  unfold InMemoryStateIndex.get
  rw [InMemoryStateIndex.put_index,if_pos rfl,Option.bind_some,InMemoryStateIndex.put_store,if_pos rfl]

theorem read_put (ops : List (IndexOp E Token V)) (key : StateKey) {value : E} {id : Token} (same : tokenBytes (stableId value) = tokenBytes id) :
    read (ops ++ [.put key value]) key id = some value := by
  have after : keyedAfter (ops ++ [.put key value]) = (keyedAfter ops).put key ⟨value⟩ := by
    unfold keyedAfter InMemoryStateIndex.after
    rw [List.map_append,List.foldl_append]
    rfl
  unfold read
  rw [after,← same]
  exact congrArg (Option.map Keyed.entity) (get_put (keyedAfter ops) key (⟨value⟩ : Keyed E))

theorem not_separated {own other : E} (differ : version own ≠ version other) (member : stableId other ∈ others)
    (same : tokenBytes (stableId other) = tokenBytes (stableId own)) : ¬Separated E V others (stableId own) := by
  intro separated
  have unused : ¬UsedBy (stableId own) [IndexOp.put .lastConfirmed own] (version other) := by
    rintro ⟨key,value,inside,_,at_ver⟩
    grind
  have kept := separated [.put .lastConfirmed own] [.put .lastConfirmed other] (fun op inside => ?_) (fun op inside => ?_) .lastConfirmed
  · rw [read_put _ _ same,← List.nil_append [IndexOp.put .lastConfirmed own],read_put _ _ rfl] at kept
    grind
  · rw [List.mem_singleton.mp inside]
    exact .inl rfl
  · rw [List.mem_singleton.mp inside]
    exact ⟨member,unused⟩

theorem index_separates_iff {others : Set Token} {id : Token} (fits : ∀ a ∈ others,a.assetName.length ≤ 32) (fits' : id.assetName.length ≤ 32)
    (every : ∀ (token : Token) (ver : V),∃ e : E,stableId e = token ∧ version e = ver) (several : ∃ ver ver' : V,ver ≠ ver') :
    Separated E V others id ↔ ∀ a ∈ others,KeyApart a id := by
  constructor
  · intro separated a member
    by_contra collide
    have same : tokenBytes a = tokenBytes id := not_not.mp (fun differ => collide ((tokenBytes_ne (fits a member) fits').mp differ))
    obtain ⟨ver,ver',differ⟩ := several
    obtain ⟨own,rfl,rfl⟩ := every id ver
    obtain ⟨other,rfl,rfl⟩ := every a ver'
    exact not_separated differ member same separated
  · exact fun apart => separated_of_apart (fun a member => (tokenBytes_ne (fits a member) fits').mpr (apart a member))

end Separates

namespace SmallIndex

structure Ent where
  token : Token
  ver : OutputRef

instance : EntitySnapshot Ent Token OutputRef where
  stableId := Ent.token
  isQuasiPermanent _ := false
  version := Ent.ver

def named (name : Bytes) : Token := ⟨.filled 7,name⟩

def output (index : UInt64) : OutputRef := ⟨⟨List.replicate 32 5,rfl⟩,index⟩

end SmallIndex

open SmallIndex in
theorem plain_names_separate : KeyApart (named [65]) (named [66]) ∧ Separated Ent OutputRef {named [65]} (named [66]) := by
  have apart : KeyApart (named [65]) (named [66]) := by
    intro _ n
    exact ⟨fun same => absurd (List.cons.inj same).1 (by decide),fun same => absurd (List.cons.inj same).1 (by decide)⟩
  refine ⟨apart,(index_separates_iff ?_ (by decide) (fun token ver => ⟨⟨token,ver⟩,rfl,rfl⟩) ⟨output 0,output 1,by decide⟩).mpr ?_⟩
  · rintro a rfl
    decide
  · rintro a rfl
    exact apart

open SmallIndex in
-- The two tokens have one key, so the confirmed state of the second replaces
-- that of the first.
theorem trailing_zero_collides : named [65] ≠ named [65,0] ∧ indexKey .lastConfirmed (named [65]) = indexKey .lastConfirmed (named [65,0]) ∧
    read [IndexOp.put .lastConfirmed (⟨named [65],output 0⟩ : Ent),.put .lastConfirmed ⟨named [65,0],output 1⟩] .lastConfirmed (named [65]) =
      some ⟨named [65,0],output 1⟩ ∧
    ¬Separated Ent OutputRef {named [65,0]} (named [65]) := by
  have same : tokenBytes (named [65,0]) = tokenBytes (named [65]) := by decide
  have versions : version (⟨named [65],output 0⟩ : Ent) ≠ version (⟨named [65,0],output 1⟩ : Ent) := by decide
  refine ⟨by decide,by decide,?_,?_⟩
  · exact read_put [.put .lastConfirmed (⟨named [65],output 0⟩ : Ent)] .lastConfirmed same
  · exact not_separated versions rfl same

end GreenAgent.Engine
