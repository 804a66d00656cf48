import Mathlib.Data.List.Forall2

namespace GreenAgent.Traverse

theorem mapM_forall₂ {f : α → Except ε β} {list : List α} {ys : List β} :
    list.mapM f = .ok ys ↔ List.Forall₂ (fun x y => f x = .ok y) list ys := by
  induction list generalizing ys with
  | nil =>
    constructor
    · intro done
      cases done
      exact .nil
    · intro each
      cases each
      rfl
  | cons x list ih =>
    rw [List.mapM_cons]
    constructor
    · intro done
      cases first : f x with
      | error e =>
        rw [first] at done
        cases done
      | ok y =>
        cases rest : list.mapM f with
        | error e =>
          rw [first,rest] at done
          cases done
        | ok zs =>
          rw [first,rest] at done
          cases done
          exact .cons first (ih.mp rest)
    · intro each
      cases each with
      | cons first rest =>
        rw [first,ih.mpr rest]
        rfl

variable {R : α → β → Prop} {xs : List α} {ys : List β}

theorem forall₂_left (each : List.Forall₂ R xs ys) (member : x ∈ xs) : ∃ y ∈ ys, R x y := by
  induction each with
  | nil => cases member
  | cons first rest ih =>
    rcases List.mem_cons.mp member with rfl | later
    · exact ⟨_,List.mem_cons_self,first⟩
    · obtain ⟨y,inside,related⟩ := ih later
      exact ⟨y,List.mem_cons_of_mem _ inside,related⟩

theorem forall₂_right (each : List.Forall₂ R xs ys) (member : y ∈ ys) : ∃ x ∈ xs, R x y :=
  forall₂_left (List.Forall₂.flip (R := fun y x => R x y) each) member

end GreenAgent.Traverse
