import GreenAgent.Cardano.Output

namespace GreenAgent.Cardano
open Account (AssetClass Token)

namespace Value
variable {value after : Value} {asset : AssetClass} {amount : UInt64} {held : HashMap Token UInt64}

theorem quantity_token (value : Value) (token : Token) : value.quantity (.token token) = ((value.multiasset.lookup token).getD 0).toNat := rfl

theorem quantity_other {token : Token} (same : ∀ name,name ≠ token → held.lookup name = value.multiasset.lookup name) :
    ∀ other,other ≠ .token token → quantity {value with multiasset:=held} other = value.quantity other := by
  intro other different
  cases other with
  | native => rfl
  | token name =>
    rw [quantity_token,quantity_token,same name (fun alike => different (congrArg AssetClass.token alike))]

theorem quantity_coin (coin : UInt64) : ∀ other,other ≠ .native → quantity {value with coin:=coin} other = value.quantity other := by
  intro other different
  cases other with
  | native => exact absurd rfl different
  | token name => rfl

theorem checkedSub_quantity (taken : value.checkedSub asset amount = some after) :
    after.quantity asset + amount.toNat = value.quantity asset ∧ ∀ other,other ≠ asset → after.quantity other = value.quantity other := by
  cases asset with
  | native =>
    obtain ⟨coin,less,rfl⟩ := Option.map_eq_some_iff.mp taken
    obtain ⟨enough,left⟩ := U64.checkedSub_some.mp less
    refine ⟨?_,quantity_coin coin⟩
    change coin.toNat + amount.toNat = value.coin.toNat
    omega
  | token token =>
    cases found : value.multiasset.lookup token with
    | none =>
      simp only [checkedSub,found,Option.ite_none_right_eq_some] at taken
      simp_all
    | some held =>
      simp only [checkedSub,found,Option.map_eq_some_iff] at taken
      obtain ⟨left,less,rfl⟩ := taken
      obtain ⟨enough,rest⟩ := U64.checkedSub_some.mp less
      rw [quantity_token,quantity_token,found,Option.getD_some]
      split
      · rename_i nothing
        subst nothing
        refine ⟨?_,quantity_other (fun name different => AList.lookup_erase_ne different)⟩
        simp_all
      · refine ⟨?_,quantity_other (fun name different => AList.lookup_insert_ne different)⟩
        grind

theorem checkedAdd_quantity (added : value.checkedAdd asset amount = some after) :
    after.quantity asset = value.quantity asset + amount.toNat ∧ ∀ other,other ≠ asset → after.quantity other = value.quantity other := by
  cases asset with
  | native =>
    obtain ⟨coin,more,rfl⟩ := Option.map_eq_some_iff.mp added
    exact ⟨U64.checkedAdd_some.mp more,quantity_coin coin⟩
  | token token =>
    obtain ⟨sum,more,rfl⟩ := Option.map_eq_some_iff.mp added
    refine ⟨?_,quantity_other (fun name different => AList.lookup_insert_ne different)⟩
    rw [quantity_token,AList.lookup_insert,Option.getD_some]
    exact U64.checkedAdd_some.mp more

end Value

namespace TransactionOutput
variable {D : Type} {output after : TransactionOutput D} {asset : AssetClass} {amount : UInt64}

theorem subAsset_quantity (taken : output.subAsset asset amount = some after) :
    after.value.quantity asset + amount.toNat = output.value.quantity asset ∧
      ∀ other,other ≠ asset → after.value.quantity other = output.value.quantity other := by
  obtain ⟨value,less,rfl⟩ := Option.map_eq_some_iff.mp taken
  exact Value.checkedSub_quantity less

theorem addAsset_quantity (added : output.addAsset asset amount = some after) :
    after.value.quantity asset = output.value.quantity asset + amount.toNat ∧
      ∀ other,other ≠ asset → after.value.quantity other = output.value.quantity other := by
  obtain ⟨value,more,rfl⟩ := Option.map_eq_some_iff.mp added
  exact Value.checkedAdd_quantity more

end TransactionOutput
end GreenAgent.Cardano
