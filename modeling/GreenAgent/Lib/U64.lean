import Mathlib

namespace GreenAgent.U64

-- The arithmetic methods of `u64` that do not wrap.
def max : Nat := 2^64 - 1

def checkedAdd (a b : UInt64) : Option UInt64 := if a.toNat + b.toNat ≤ max then some (a + b) else none

def checkedSub (a b : UInt64) : Option UInt64 := if b.toNat ≤ a.toNat then some (a - b) else none

def checkedMul (a b : UInt64) : Option UInt64 := if a.toNat * b.toNat ≤ max then some (a * b) else none

def checkedDiv (a b : UInt64) : Option UInt64 := if b.toNat = 0 then none else some (a / b)

def saturatingSub (a b : UInt64) : UInt64 := if b ≤ a then a - b else 0

def saturatingMul (a b : UInt64) : UInt64 := if a.toNat * b.toNat ≤ max then a * b else .ofNat max

theorem toNat_pos {a : UInt64} (positive : a ≠ 0) : 0 < a.toNat := Nat.pos_of_ne_zero (fun zero => positive (UInt64.toNat_inj.mp zero))

theorem le_max (a : UInt64) : a.toNat ≤ max := Nat.le_sub_one_of_lt a.toNat_lt

theorem toNat_ofNat (n : Nat) (small : n ≤ max) : (UInt64.ofNat n).toNat = n :=
  UInt64.toNat_ofNat_of_lt' (Nat.lt_of_le_of_lt small (by decide))

theorem toNat_saturatingSub (a b : UInt64) : (saturatingSub a b).toNat = a.toNat - b.toNat := by
  unfold saturatingSub
  split
  · rename_i enough
    exact UInt64.toNat_sub_of_le _ _ enough
  · rename_i short
    have less := UInt64.lt_iff_toNat_lt.mp (UInt64.not_le.mp short)
    change 0 = _
    omega

theorem checkedAdd_some {a b c : UInt64} : checkedAdd a b = some c ↔ c.toNat = a.toNat + b.toNat := by
  unfold checkedAdd
  split
  · rename_i small
    have value : (a + b).toNat = a.toNat + b.toNat := by
      rw [UInt64.toNat_add,Nat.mod_eq_of_lt (Nat.lt_of_le_of_lt small (by decide))]
    rw [Option.some.injEq,← UInt64.toNat_inj,value,eq_comm]
  · rename_i large
    refine ⟨nofun,fun same => absurd (le_max c) ?_⟩
    omega

theorem checkedSub_some {a b c : UInt64} : checkedSub a b = some c ↔ b.toNat ≤ a.toNat ∧ c.toNat = a.toNat - b.toNat := by
  unfold checkedSub
  split
  · rename_i enough
    rw [Option.some.injEq,← UInt64.toNat_inj,UInt64.toNat_sub_of_le _ _ (UInt64.le_iff_toNat_le.mpr enough),eq_comm]
    exact (and_iff_right enough).symm
  · rename_i short
    exact ⟨nofun,fun found => absurd found.1 short⟩

theorem checkedMul_some {a b c : UInt64} : checkedMul a b = some c ↔ c.toNat = a.toNat * b.toNat := by
  unfold checkedMul
  split
  · rename_i small
    have value : (a * b).toNat = a.toNat * b.toNat := by
      rw [UInt64.toNat_mul,Nat.mod_eq_of_lt (Nat.lt_of_le_of_lt small (by decide))]
    rw [Option.some.injEq,← UInt64.toNat_inj,value,eq_comm]
  · rename_i large
    refine ⟨nofun,fun same => absurd (le_max c) ?_⟩
    omega

theorem checkedDiv_some {a b c : UInt64} : checkedDiv a b = some c ↔ b.toNat ≠ 0 ∧ c.toNat = a.toNat / b.toNat := by
  unfold checkedDiv
  split
  · rename_i zero
    exact ⟨nofun,fun found => absurd zero found.1⟩
  · rename_i nonzero
    rw [Option.some.injEq,← UInt64.toNat_inj,UInt64.toNat_div,eq_comm]
    exact (and_iff_right nonzero).symm

theorem toNat_saturatingMul (a b : UInt64) : (saturatingMul a b).toNat = min (a.toNat * b.toNat) max := by
  unfold saturatingMul
  split
  · rename_i small
    rw [UInt64.toNat_mul,Nat.mod_eq_of_lt (Nat.lt_of_le_of_lt small (by decide)),Nat.min_eq_left small]
  · rename_i large
    rw [toNat_ofNat max le_rfl,Nat.min_eq_right (by omega)]

end GreenAgent.U64
