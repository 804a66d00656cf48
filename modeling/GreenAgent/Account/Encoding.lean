import GreenAgent.Account.Types
import GreenAgent.Lib.Code

namespace GreenAgent.Account
open Mpf (Bytes)
open Code (SelfDelimiting header)

def alephIntentKey (targetNonceIndex : UInt16) (targetNonceValue : UInt64) : Bytes :=
  aikenTuple2Cbor [aikenUintCbor targetNonceIndex.toUInt64,aikenUintCbor targetNonceValue]

def alephLegacyIntentKey (targetNonceValue : UInt64) : Bytes := aikenUintCbor targetNonceValue

def AlephIntention.intentKey (intent : AlephIntention) : Bytes :=
  match intent.abi with
  | .legacy => alephLegacyIntentKey intent.targetNonceValue
  | .current => alephIntentKey intent.targetNonceIndex intent.targetNonceValue

theorem aikenUintCbor_header (value : UInt64) : aikenUintCbor value = header 0 value.toNat := by
  have compared : ∀ bound : UInt64,value ≤ bound ↔ value.toNat ≤ bound.toNat := fun bound => UInt64.le_iff_toNat_le
  have byte : value.toUInt8 = UInt8.ofNat value.toNat := rfl
  unfold aikenUintCbor header Code.tag Code.width
  simp only [compared,byte,Nat.zero_add]
  change (if value.toNat ≤ 23 then _ else if value.toNat ≤ 0xff then _ else if value.toNat ≤ 0xffff then _ else if value.toNat ≤ 0xffffffff then _ else _) = _
  split_ifs <;> rfl

theorem aikenBytesCbor_header (bytes : Bytes) : aikenBytesCbor bytes = header 0x40 bytes.length ++ bytes := by
  unfold aikenBytesCbor header Code.tag Code.width
  simp only
  congr 1
  split_ifs with tiny
  · have head : ∀ n ≤ 23,(0x40 ||| UInt8.ofNat n) = UInt8.ofNat (0x40 + n) := by decide
    rw [head _ tiny]
    rfl
  · rfl
  · rfl
  · rfl
  · rfl

theorem uint_selfDelimiting : SelfDelimiting (fun _ : UInt64 => True) aikenUintCbor := by
  have code : SelfDelimiting (fun n => n < 2^64) (header 0) := Code.header_selfDelimiting (by decide)
  rw [show aikenUintCbor = fun value => header 0 value.toNat from funext aikenUintCbor_header]
  exact code.of_inj (fun a b _ _ same => UInt64.toNat_inj.mp same) (fun a _ => a.toNat_lt)

theorem bytes_selfDelimiting : SelfDelimiting (fun s : Bytes => s.length < 2^64) aikenBytesCbor := by
  rw [show aikenBytesCbor = fun s => header 0x40 s.length ++ s from funext aikenBytesCbor_header]
  exact Code.counted_selfDelimiting (by decide)

-- `AssetName` is an array of 32 bytes and a length.
def AssetClass.Sized : AssetClass → Prop
  | .native => True
  | .token held => held.assetName.length ≤ 32

def AssetClass.parts : AssetClass → Bytes × Bytes
  | .native => ([],[])
  | .token held => (held.policy.bytes,held.assetName)

theorem parts_inj (a b : AssetClass) (same : a.parts = b.parts) : a = b := by
  have nonempty : ∀ policy : Hash28,policy.bytes ≠ [] := by
    intro policy empty
    have size := policy.size
    rw [empty] at size
    cases size
  match a,b,same with
  | .native,.native,_ => rfl
  | .native,.token token,same => exact absurd (Prod.mk.inj same).1.symm (nonempty token.policy)
  | .token token,.native,same => exact absurd (Prod.mk.inj same).1 (nonempty token.policy)
  | .token ⟨⟨policy,size⟩,name⟩,.token ⟨⟨policy',size'⟩,name'⟩,same =>
    obtain ⟨rfl,rfl⟩ := Prod.mk.inj same
    rfl

theorem asset_selfDelimiting : SelfDelimiting AssetClass.Sized assetClassAikenCbor := by
  have code := (bytes_selfDelimiting.seq bytes_selfDelimiting).framed [0x9f] [0xff]
  have shape : assetClassAikenCbor = fun asset => [0x9f] ++ (aikenBytesCbor asset.parts.1 ++ aikenBytesCbor asset.parts.2) ++ [0xff] := by
    funext asset
    cases asset with
    | native => rfl
    | token token =>
      change [0x9f] ++ [aikenBytesCbor token.policy.bytes,aikenBytesCbor token.assetName].flatten ++ [0xff] = _
      simp [AssetClass.parts]
  rw [shape]
  refine code.of_inj (fun a b _ _ same => parts_inj a b same) (fun asset sized => ?_)
  cases asset with
  | native => exact ⟨by decide,by decide⟩
  | token token =>
    have size := token.policy.size
    change token.assetName.length ≤ 32 at sized
    exact ⟨show token.policy.bytes.length < 2^64 by omega,show token.assetName.length < 2^64 by omega⟩

theorem key_selfDelimiting : SelfDelimiting (fun _ : UInt16 × UInt64 => True) (fun nonce => alephIntentKey nonce.1 nonce.2) := by
  have code := (uint_selfDelimiting.seq uint_selfDelimiting).framed [0x9f] [0xff]
  have shape : (fun nonce : UInt16 × UInt64 => alephIntentKey nonce.1 nonce.2) =
      fun nonce => [0x9f] ++ (aikenUintCbor nonce.1.toUInt64 ++ aikenUintCbor nonce.2) ++ [0xff] := by
    funext nonce
    simp [alephIntentKey,aikenTuple2Cbor]
  rw [shape]
  refine code.of_inj (f := fun nonce : UInt16 × UInt64 => (nonce.1.toUInt64,nonce.2)) ?_ (fun _ _ => ⟨trivial,trivial⟩)
  rintro ⟨i,v⟩ ⟨j,w⟩ _ _ same
  obtain ⟨indices,rfl⟩ := Prod.mk.inj same
  have numbers := congrArg UInt64.toNat indices
  rw [UInt16.toNat_toUInt64,UInt16.toNat_toUInt64] at numbers
  cases UInt16.toNat_inj.mp numbers
  rfl

theorem keys_apart (i : UInt16) (v w : UInt64) (x y : Bytes) : alephIntentKey i v ++ x ≠ alephLegacyIntentKey w ++ y := by
  intro same
  have heads : (0x9f : UInt8) = UInt8.ofNat (0 + Code.tag w.toNat) := by
    unfold alephLegacyIntentKey at same
    rw [aikenUintCbor_header] at same
    exact (List.cons.inj same).1
  have numbers := congrArg UInt8.toNat heads
  rw [Code.header_head (by decide)] at numbers
  have bound := Code.tag_le w.toNat
  change 0x9f = _ at numbers
  omega

-- The nonce of an intention: with its slot, or without it under the old ABI.
def AlephIntention.nonce (intent : AlephIntention) : UInt16 × UInt64 ⊕ UInt64 :=
  match intent.abi with
  | .legacy => .inr intent.targetNonceValue
  | .current => .inl (intent.targetNonceIndex,intent.targetNonceValue)

theorem nonce_selfDelimiting : SelfDelimiting (fun _ : UInt16 × UInt64 ⊕ UInt64 => True)
    (fun nonce => nonce.elim (fun nonce => alephIntentKey nonce.1 nonce.2) alephLegacyIntentKey) := by
  have code := key_selfDelimiting.sum uint_selfDelimiting (fun nonce w _ _ x y => keys_apart nonce.1 nonce.2 w x y)
  intro a b _ _ x y same
  exact code a b (by cases a <;> trivial) (by cases b <;> trivial) x y same

def AlephIntention.Sized (intent : AlephIntention) : Prop := intent.leavingAsset.Sized ∧ intent.arrivingAsset.Sized

-- What an encoding commits to, field by field.
@[grind cases eager] structure Agrees (a b : AlephIntention) : Prop where
  abi : a.abi = b.abi
  nonceValue : a.targetNonceValue = b.targetNonceValue
  nonceIndex : a.abi = .current → a.targetNonceIndex = b.targetNonceIndex
  leavingAsset : a.leavingAsset = b.leavingAsset
  leavingAmount : a.leavingAmount = b.leavingAmount
  arrivingAsset : a.arrivingAsset = b.arrivingAsset
  expectedArrivingAmount : a.expectedArrivingAmount = b.expectedArrivingAmount
  feeLovelace : a.feeLovelace = b.feeLovelace
  operator : a.operator = b.operator

theorem nonce_eq {a b : AlephIntention} (same : a.nonce = b.nonce) :
    a.abi = b.abi ∧ a.targetNonceValue = b.targetNonceValue ∧ (a.abi = .current → a.targetNonceIndex = b.targetNonceIndex) := by
  unfold AlephIntention.nonce at same
  cases abi : a.abi <;> cases abi' : b.abi <;> rw [abi,abi'] at same
  · exact ⟨rfl,Sum.inr.inj same,nofun⟩
  · cases same
  · cases same
  grind

theorem aikenCbor_shape (intent : AlephIntention) :
    intent.aikenCbor = [0xd8,0x79,0x9f] ++ (intent.nonce.elim (fun nonce => alephIntentKey nonce.1 nonce.2) alephLegacyIntentKey ++
      (assetClassAikenCbor intent.leavingAsset ++ (aikenUintCbor intent.leavingAmount ++ (assetClassAikenCbor intent.arrivingAsset ++
        (aikenUintCbor intent.expectedArrivingAmount ++ (aikenUintCbor intent.feeLovelace ++ aikenBytesCbor intent.operator.bytes)))))) ++ [0xff] := by
  unfold AlephIntention.aikenCbor AlephIntention.nonce aikenConstr0Cbor
  cases intent.abi with
  | legacy => simp [alephLegacyIntentKey]
  | current => simp [alephIntentKey]

theorem aikenCbor_agrees {a b : AlephIntention} (sized : a.Sized) (sized' : b.Sized) (same : a.aikenCbor = b.aikenCbor) : Agrees a b := by
  have small : ∀ hash : Hash28,hash.bytes.length < 2^64 := fun hash => by rw [hash.size]; decide
  rw [aikenCbor_shape,aikenCbor_shape] at same
  simp only [List.append_assoc,List.append_cancel_left_eq] at same
  obtain ⟨nonces,same⟩ := nonce_selfDelimiting _ _ trivial trivial _ _ same
  obtain ⟨leaving,same⟩ := asset_selfDelimiting _ _ sized.1 sized'.1 _ _ same
  obtain ⟨leavingAmounts,same⟩ := uint_selfDelimiting _ _ trivial trivial _ _ same
  obtain ⟨arriving,same⟩ := asset_selfDelimiting _ _ sized.2 sized'.2 _ _ same
  obtain ⟨arrivingAmounts,same⟩ := uint_selfDelimiting _ _ trivial trivial _ _ same
  obtain ⟨fees,same⟩ := uint_selfDelimiting _ _ trivial trivial _ _ same
  obtain ⟨operators,_⟩ := bytes_selfDelimiting _ _ (small _) (small _) _ _ same
  obtain ⟨abis,values,indices⟩ := nonce_eq nonces
  refine ⟨abis,values,indices,leaving,leavingAmounts,arriving,arrivingAmounts,fees,?_⟩
  generalize a.operator = operator,b.operator = operator' at operators
  obtain ⟨bytes,size⟩ := operator
  simp_all

theorem encoding_binding {a b : AlephIntention} (sized : a.Sized) (sized' : b.Sized) :
    (a.aikenCbor = b.aikenCbor → Agrees a b) ∧
    (∀ i v j w,alephIntentKey i v = alephIntentKey j w → i = j ∧ v = w) ∧
    (∀ v w,alephLegacyIntentKey v = alephLegacyIntentKey w → v = w) ∧
    ∀ i v w,alephIntentKey i v ≠ alephLegacyIntentKey w := by
  refine ⟨aikenCbor_agrees sized sized',fun i v j w same => ?_,fun v w same => uint_selfDelimiting.inj trivial trivial same,fun i v w same => ?_⟩
  · have pairs : (i,v) = (j,w) := key_selfDelimiting.inj trivial trivial same
    exact Prod.mk.inj pairs
  · refine keys_apart i v w [] [] ?_
    rw [same]

def feeIntent (fee : UInt64) : AlephIntention :=
  ⟨.current,0,1,.native,100,.token ⟨.filled 1,[0x41]⟩,50,fee,.filled 0⟩

theorem encoding_binding_fees : (feeIntent 10).aikenCbor ≠ (feeIntent 11).aikenCbor := by
  have sized : ∀ fee,(feeIntent fee).Sized := fun fee => ⟨trivial,show 1 ≤ 32 by decide⟩
  intro same
  exact absurd ((encoding_binding (sized 10) (sized 11)).1 same).feeLovelace (by decide)

end GreenAgent.Account
