import Mathlib

namespace GreenAgent

-- A result of operations that wrap around, and whether all of them stayed
-- within their width.
structure Tracked (α : Type) where
  value : α
  fits : Bool
deriving DecidableEq

namespace Tracked
variable {α β : Type}

-- Neither this nor an operation below is ever to be unfolded by unification:
-- what they give is stated as an equation with `pure`.
@[irreducible]
def andThen (first : Tracked α) (next : α → Tracked β) : Tracked β := ⟨(next first.value).value,first.fits && (next first.value).fits⟩

instance : Monad Tracked where
  pure value := ⟨value,true⟩
  bind := andThen

@[simp] theorem pure_value (value : α) : (pure value : Tracked α).value = value := rfl

@[simp] theorem pure_fits (value : α) : (pure value : Tracked α).fits = true := rfl

theorem pure_inj {a b : α} (same : (pure a : Tracked α) = pure b) : a = b := congrArg Tracked.value same

theorem eq_pure {tracked : Tracked α} (fits : tracked.fits = true) : tracked = pure tracked.value := by
  cases tracked
  cases fits
  rfl

theorem fits_iff {tracked : Tracked α} : tracked.fits = true ↔ ∃ value,tracked = pure value :=
  ⟨fun fits => ⟨_,eq_pure fits⟩,fun ⟨_,same⟩ => same ▸ rfl⟩

@[simp] theorem pure_bind (value : α) (next : α → Tracked β) : (pure value >>= next) = next value := by
  change andThen _ next = _
  unfold andThen
  rfl

theorem bind_eq_pure {first : Tracked α} {next : α → Tracked β} {result : β} :
    (first >>= next) = pure result ↔ ∃ value,first = pure value ∧ next value = pure result := by
  constructor
  · intro same
    have both : first.fits = true ∧ (next first.value).fits = true := by
      have fits : (andThen first next).fits = true := congrArg Tracked.fits same
      unfold andThen at fits
      exact Bool.and_eq_true_iff.mp fits
    refine ⟨_,eq_pure both.1,?_⟩
    rw [eq_pure both.1,pure_bind] at same
    exact same
  · rintro ⟨value,rfl,last⟩
    rw [pure_bind,last]

theorem bind_fits {first : Tracked α} {next : α → Tracked β} :
    (first >>= next).fits = true ↔ ∃ value,first = pure value ∧ (next value).fits = true := by
  simp only [fits_iff,bind_eq_pure]
  constructor
  · rintro ⟨result,value,start,rest⟩
    exact ⟨value,start,result,rest⟩
  · rintro ⟨value,start,result,rest⟩
    exact ⟨result,value,start,rest⟩

variable (width : Nat)

@[irreducible]
def add (a b : Nat) : Tracked Nat := ⟨(a + b) % 2^width,decide (a + b < 2^width)⟩

@[irreducible]
def sub (a b : Nat) : Tracked Nat := ⟨(a + 2^width - b) % 2^width,decide (b ≤ a)⟩

@[irreducible]
def mul (a b : Nat) : Tracked Nat := ⟨a * b % 2^width,decide (a * b < 2^width)⟩

-- A division by zero is a panic, whatever the width.
@[irreducible]
def div (a b : Nat) : Tracked Nat := ⟨a / b,decide (b ≠ 0)⟩

variable {width} {a b : Nat}

theorem add_fits : (add width a b).fits = true ↔ a + b < 2^width := by
  unfold add
  exact decide_eq_true_iff

theorem sub_fits : (sub width a b).fits = true ↔ b ≤ a := by
  unfold sub
  exact decide_eq_true_iff

theorem mul_fits : (mul width a b).fits = true ↔ a * b < 2^width := by
  unfold mul
  exact decide_eq_true_iff

theorem div_fits : (div a b).fits = true ↔ b ≠ 0 := by
  unfold div
  exact decide_eq_true_iff

theorem add_value (width a b : Nat) : (add width a b).value = (a + b) % 2^width := by
  unfold add
  rfl

theorem add_eq (fits : a + b < 2^width) : add width a b = pure (a + b) := by
  rw [eq_pure (add_fits.mpr fits)]
  unfold add
  exact congrArg pure (Nat.mod_eq_of_lt fits)

theorem sub_eq (small : a < 2^width) (fits : b ≤ a) : sub width a b = pure (a - b) := by
  rw [eq_pure (sub_fits.mpr fits)]
  unfold sub
  refine congrArg pure ?_
  rw [Nat.add_comm a,Nat.add_sub_assoc fits,Nat.add_mod_left]
  exact Nat.mod_eq_of_lt (by omega)

theorem mul_eq (fits : a * b < 2^width) : mul width a b = pure (a * b) := by
  rw [eq_pure (mul_fits.mpr fits)]
  unfold mul
  exact congrArg pure (Nat.mod_eq_of_lt fits)

theorem div_eq (nonzero : b ≠ 0) : div a b = pure (a / b) := by
  rw [eq_pure (div_fits.mpr nonzero)]
  unfold div
  rfl

theorem add_pure {result : Nat} (same : add width a b = pure result) : a + b < 2^width ∧ result = a + b := by
  have fits : a + b < 2^width := add_fits.mp (same ▸ rfl)
  rw [add_eq fits] at same
  exact ⟨fits,(pure_inj same).symm⟩

theorem sub_pure {result : Nat} (small : a < 2^width) (same : sub width a b = pure result) : b ≤ a ∧ result = a - b := by
  have fits : b ≤ a := sub_fits.mp (same ▸ rfl : (sub width a b).fits = true)
  rw [sub_eq small fits] at same
  exact ⟨fits,(pure_inj same).symm⟩

theorem mul_pure {result : Nat} (same : mul width a b = pure result) : a * b < 2^width ∧ result = a * b := by
  have fits : a * b < 2^width := mul_fits.mp (same ▸ rfl)
  rw [mul_eq fits] at same
  exact ⟨fits,(pure_inj same).symm⟩

theorem div_pure {result : Nat} (same : div a b = pure result) : b ≠ 0 ∧ result = a / b := by
  have fits : b ≠ 0 := div_fits.mp (same ▸ rfl : (div a b).fits = true)
  rw [div_eq fits] at same
  exact ⟨fits,(pure_inj same).symm⟩

end Tracked
end GreenAgent
