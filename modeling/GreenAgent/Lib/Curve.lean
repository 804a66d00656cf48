import Mathlib

namespace GreenAgent.Curve

-- Trades against two reserves, from the side that receives `given` to the side
-- that pays. Each brings at least its own part of the input to the first reserve
-- and takes no more of the second than their product allows.
inductive Trades {α : Type} [Field α] [LinearOrder α] : α → α → List α → α → Prop where
  | nil : Trades given paid [] paid
  | cons (grown : given + added ≤ given') (kept : given * paid ≤ (given + added) * paid')
      (rest : Trades given' paid' later last) : Trades given paid (added :: later) last

variable {α : Type} [Field α] [LinearOrder α] [IsStrictOrderedRing α] {given paid last : α} {parts : List α}

theorem ahead {given given' added paid paid' : α} (unsigned : 0 ≤ given) (order : given ≤ given') (input : 0 ≤ added) (left : 0 ≤ paid')
    (kept : given' * paid ≤ (given' + added) * paid') : given * paid ≤ (given + added) * paid' := by
  rcases (unsigned.trans order).eq_or_lt with zero | positive
  · have empty : given = 0 := le_antisymm (zero ▸ order) unsigned
    rw [empty,zero_mul,zero_add]
    exact mul_nonneg input left
  · refine le_of_mul_le_mul_left ?_ positive
    calc given' * (given * paid) = given * (given' * paid) := by ring
      _ ≤ given * ((given' + added) * paid') := mul_le_mul_of_nonneg_left kept unsigned
      _ = given' * (given * paid') + given * (added * paid') := by ring
      _ ≤ given' * (given * paid') + given' * (added * paid') := by
        have := mul_le_mul_of_nonneg_right order (mul_nonneg input left)
        linarith
      _ = given' * ((given + added) * paid') := by ring

theorem Trades.together (trades : Trades given paid parts last) (unsigned : 0 ≤ given) (inputs : ∀ part ∈ parts, 0 ≤ part) (left : 0 ≤ last) :
    given * paid ≤ (given + parts.sum) * last := by
  induction trades with
  | nil => simp
  | @cons given added given' paid paid' later last grown kept rest ih =>
    obtain ⟨first,others⟩ := List.forall_mem_cons.mp inputs
    have start : 0 ≤ given + added := add_nonneg unsigned first
    have whole := ahead start grown (List.sum_nonneg others) left (ih (start.trans grown) others left)
    calc given * paid ≤ (given + added) * paid' := kept
      _ ≤ (given + added + later.sum) * last := whole
      _ = (given + (added :: later).sum) * last := by rw [List.sum_cons,add_assoc]

end GreenAgent.Curve
