import Mathlib.Data.List.Induction
import Mathlib.Tactic.Linarith

namespace GreenAgent.BigEndian

def number (s : List UInt8) : Nat := s.foldl (fun n b => 256*n+b.toNat) 0

def bigEndian : Nat → Nat → List UInt8
  | 0,_ => []
  | size+1,n => bigEndian size (n/256) ++ [UInt8.ofNat n]

theorem number_append (s : List UInt8) (b : UInt8) : number (s ++ [b]) = 256*number s+b.toNat := by
  simp [number]

theorem bigEndian_length (size n : Nat) : (bigEndian size n).length = size := by
  induction size generalizing n with
  | zero => rfl
  | succ size ih => simp [bigEndian,ih]

theorem number_bigEndian (size n : Nat) : number (bigEndian size n) = n % 256^size := by
  induction size generalizing n with
  | zero => simp [bigEndian,number,Nat.mod_one]
  | succ size ih =>
    have byte : (UInt8.ofNat n).toNat = n % 256 := UInt8.toNat_ofNat'
    have digits : n % 256^(size+1) = n % 256+256*(n/256 % 256^size) := by rw [Nat.pow_succ',Nat.mod_mul]
    rw [bigEndian,number_append,ih,byte,digits,Nat.add_comm]

theorem bigEndian_inj (small : n < 256^size) (small' : m < 256^size) (same : bigEndian size n = bigEndian size m) : n = m := by
  have numbers := congrArg number same
  rwa [number_bigEndian,number_bigEndian,Nat.mod_eq_of_lt small,Nat.mod_eq_of_lt small'] at numbers

theorem number_inj {a b : List UInt8} (length : a.length = b.length) (same : number a = number b) : a = b := by
  induction a using List.reverseRecOn generalizing b with
  | nil => exact (List.eq_nil_of_length_eq_zero length.symm).symm
  | append_singleton a x ih =>
    rcases List.eq_nil_or_concat b with rfl | ⟨b,y,rfl⟩
    · simp at length
    · simp only [List.concat_eq_append,number_append,List.length_append,List.length_singleton,Nat.add_right_cancel_iff] at *
      have hx := x.toNat_lt
      have hy := y.toNat_lt
      have last : x = y := UInt8.toNat_inj.mp (by omega)
      rw [ih length (by omega),last]

theorem lt_append {a b : List Nat} (less : a < b) (length : a.length = b.length) (x y : List Nat) : a ++ x < b ++ y := by
  induction a generalizing b with
  | nil =>
    cases b with
    | nil => exact absurd less (List.not_lt_nil _)
    | cons => cases length
  | cons d a ih =>
    cases b with
    | nil => cases length
    | cons e b =>
      rw [List.cons_append,List.cons_append]
      rcases List.cons_lt_cons_iff.mp less with first | ⟨rfl,rest⟩
      · exact List.cons_lt_cons_iff.mpr (.inl first)
      · exact List.cons_lt_cons_iff.mpr (.inr ⟨rfl,ih rest (Nat.succ.inj length)⟩)

theorem bigEndian_lt (small : m < 256^size) (less : n < m) : (bigEndian size n).map UInt8.toNat < (bigEndian size m).map UInt8.toNat := by
  induction size generalizing n m with
  | zero => simp only [Nat.pow_zero] at small; omega
  | succ size ih =>
    have digits : ∀ k,(bigEndian (size+1) k).map UInt8.toNat = (bigEndian size (k/256)).map UInt8.toNat ++ [k % 256] := by
      intro k
      rw [bigEndian,List.map_append,List.map_singleton,UInt8.toNat_ofNat']
    have high : m/256 < 256^size := by
      rw [Nat.pow_succ] at small
      exact Nat.div_lt_of_lt_mul (by rwa [Nat.mul_comm])
    rw [digits,digits]
    rcases Nat.lt_or_ge (n/256) (m/256) with upper | upper
    · exact lt_append (ih high upper) (by simp [bigEndian_length]) _ _
    · have same : n/256 = m/256 := le_antisymm (Nat.div_le_div_right less.le) upper
      have last : n % 256 < m % 256 := by omega
      rw [same]
      exact List.append_left_lt (List.cons_lt_cons_iff.mpr (.inl last))

end GreenAgent.BigEndian
