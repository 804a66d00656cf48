import GreenAgent.Lib.HashMap
import GreenAgent.Lib.U64
import GreenAgent.Account.Types

namespace GreenAgent.Cardano
open Mpf (Bytes Digest ProofStep)
open Account (AssetClass Token AlephAccountState Externals)

-- Lovelace and the amounts of tokens.
structure Value where
  coin : UInt64
  multiasset : HashMap Token UInt64
deriving DecidableEq

namespace Value

def amountOf (value : Value) : AssetClass → Option UInt64
  | .native => some value.coin
  | .token token => value.multiasset.lookup token

-- `checked_sub` and `checked_add` with a value of one asset. An entry that
-- comes to nothing is dropped.
def checkedSub (value : Value) (asset : AssetClass) (amount : UInt64) : Option Value :=
  match asset with
  | .native => (U64.checkedSub value.coin amount).map (fun coin => {value with coin:=coin})
  | .token token => match value.multiasset.lookup token with
    | some held => (U64.checkedSub held amount).map (fun left =>
        {value with multiasset:=if left = 0 then AList.erase token value.multiasset else AList.insert token left value.multiasset})
    | none => if amount = 0 then some value else none

def checkedAdd (value : Value) (asset : AssetClass) (amount : UInt64) : Option Value :=
  match asset with
  | .native => (U64.checkedAdd value.coin amount).map (fun coin => {value with coin:=coin})
  | .token token => (U64.checkedAdd ((value.multiasset.lookup token).getD 0) amount).map (fun sum =>
      {value with multiasset:=AList.insert token sum value.multiasset})

-- The two that do not check. Lovelace wraps around.
def subUnsafe (value : Value) (asset : AssetClass) (amount : UInt64) : Value :=
  match asset with
  | .native => {value with coin:=value.coin - amount}
  | .token token => match value.multiasset.lookup token with
    | some held => {value with
        multiasset:=if amount < held then AList.insert token (held - amount) value.multiasset else AList.erase token value.multiasset}
    | none => value

def addUnsafe (value : Value) (asset : AssetClass) (amount : UInt64) : Value :=
  match asset with
  | .native => {value with coin:=value.coin + amount}
  | .token token => match value.multiasset.lookup token with
    | some held => {value with multiasset:=AList.insert token (held + amount) value.multiasset}
    | none => {value with multiasset:=AList.insert token amount value.multiasset}

def lovelace (coin : UInt64) : Value := ⟨coin,∅⟩

def quantity (value : Value) (asset : AssetClass) : Nat := ((value.amountOf asset).getD 0).toNat

section Amounts
variable {value : Value} {asset : AssetClass} {held amount : UInt64}

theorem checkedSub_amountOf (found : value.amountOf asset = some held) (less : amount.toNat < held.toNat) :
    ∃ after,value.checkedSub asset amount = some after ∧ after.amountOf asset = some (held - amount) ∧
      ∀ other,other ≠ asset → after.amountOf other = value.amountOf other := by
  have taken : U64.checkedSub held amount = some (held - amount) := if_pos less.le
  cases asset with
  | native =>
    cases found
    refine ⟨{value with coin:=value.coin - amount},by rw [checkedSub,taken]; rfl,rfl,?_⟩
    intro other different
    cases other with
    | native => exact absurd rfl different
    | token token => rfl
  | token token =>
    have left : ¬held - amount = 0 := by grind
    refine ⟨{value with multiasset:=AList.insert token (held - amount) value.multiasset},?_,AList.lookup_insert _,?_⟩
    · change value.multiasset.lookup token = some held at found
      simp only [checkedSub,found,taken,Option.map_some,if_neg left]
    · intro other different
      cases other with
      | native => rfl
      | token name => exact AList.lookup_insert_ne (fun same => different (congrArg AssetClass.token same))

theorem checkedAdd_amountOf (found : value.amountOf asset = some held) (room : held.toNat + amount.toNat < 2^64) :
    ∃ after,value.checkedAdd asset amount = some after ∧ after.amountOf asset = some (held + amount) ∧
      ∀ other,other ≠ asset → after.amountOf other = value.amountOf other := by
  have added : U64.checkedAdd held amount = some (held + amount) := if_pos (Nat.le_sub_one_of_lt room)
  cases asset with
  | native =>
    cases found
    refine ⟨{value with coin:=value.coin + amount},by rw [checkedAdd,added]; rfl,rfl,?_⟩
    intro other different
    cases other with
    | native => exact absurd rfl different
    | token token => rfl
  | token token =>
    refine ⟨{value with multiasset:=AList.insert token (held + amount) value.multiasset},?_,AList.lookup_insert _,?_⟩
    · change value.multiasset.lookup token = some held at found
      simp only [checkedAdd,found,Option.getD_some,added,Option.map_some]
    · intro other different
      cases other with
      | native => rfl
      | token name => exact AList.lookup_insert_ne (fun same => different (congrArg AssetClass.token same))

end Amounts

end Value

-- `TransactionOutput` with an inline datum of type `D`, if it has one.
structure TransactionOutput (D : Type) where
  address : Bytes
  value : Value
  datum : Option D
deriving DecidableEq

namespace TransactionOutput
variable {D : Type}

-- `none` where the source unwraps an error.
def subAsset (output : TransactionOutput D) (asset : AssetClass) (amount : UInt64) : Option (TransactionOutput D) :=
  (output.value.checkedSub asset amount).map (fun value => {output with value:=value})

def addAsset (output : TransactionOutput D) (asset : AssetClass) (amount : UInt64) : Option (TransactionOutput D) :=
  (output.value.checkedAdd asset amount).map (fun value => {output with value:=value})

end TransactionOutput

-- What is known of addresses and datums.
structure Datums (D : Type) where
  testAddress : Bytes → Bool
  tryFromPd : D → Option AlephAccountState
  intoPd : AlephAccountState → D

def Datums.accountState (datums : Datums D) (output : TransactionOutput D) : Option AlephAccountState :=
  if datums.testAddress output.address then output.datum.bind datums.tryFromPd else none

def Datums.externals (datums : Datums D) (blake2b256 : Bytes → Digest) (proofToCbor : List ProofStep → Bytes) :
    Externals (TransactionOutput D) := ⟨blake2b256,proofToCbor,datums.accountState⟩

end GreenAgent.Cardano
