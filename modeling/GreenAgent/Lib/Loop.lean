import Mathlib.Data.Nat.Basic

namespace GreenAgent.Loop

-- A tail recursive function: a turn calls it again or stops with a result.
inductive Turn (S R : Type) where
  | again (next : S)
  | stop (result : R)

section
variable {S R : Type} {step : S → Option (Turn S R)}

-- `none` is a turn that panics: it is neither repeated nor left with a result.
inductive Returns (step : S → Option (Turn S R)) : S → Nat → R → Prop where
  | stop : step s = some (.stop r) → Returns step s 0 r
  | again : step s = some (.again t) → Returns step t n r → Returns step s (n+1) r

inductive Reaches (step : S → Option (Turn S R)) (s : S) : Nat → S → Prop where
  | start : Reaches step s 0 s
  | again : Reaches step s n t → step t = some (.again u) → Reaches step s (n+1) u

theorem Returns.remaining (reached : Reaches step s m t) (returns : Returns step s n r) : ∃ k,n = m+k ∧ Returns step t k r := by
  induction reached with
  | start => exact ⟨n,(Nat.zero_add n).symm,returns⟩
  | again _ turn ih =>
    obtain ⟨k,count,rest⟩ := ih
    cases rest with
    | stop done => cases turn.symm.trans done
    | again next rest =>
      cases turn.symm.trans next
      exact ⟨_,by omega,rest⟩

theorem Returns.before (reached : Reaches step s m t) (turn : step t = some (.again u)) (returns : Returns step s n r) : m < n := by
  obtain ⟨k,count,_⟩ := Returns.remaining (.again reached turn) returns
  omega

theorem never_returns (Inv : S → Prop) (kept : ∀ s,Inv s → ∃ t,step s = some (.again t) ∧ Inv t) (start : Inv s) :
    ¬Returns step s n r := by
  intro returns
  induction returns with
  | stop done =>
    obtain ⟨t,turn,_⟩ := kept _ start
    cases turn.symm.trans done
  | again turn _ ih =>
    obtain ⟨t,next,inv⟩ := kept _ start
    cases turn.symm.trans next
    exact ih inv

theorem reaches_all (Inv : S → Prop) (kept : ∀ s,Inv s → ∃ t,step s = some (.again t) ∧ Inv t) (start : Inv s) (n : Nat) :
    ∃ t,Reaches step s n t ∧ Inv t := by
  induction n with
  | zero => exact ⟨s,.start,start⟩
  | succ n ih =>
    obtain ⟨t,reached,inv⟩ := ih
    obtain ⟨u,turn,later⟩ := kept t inv
    exact ⟨u,.again reached turn,later⟩

theorem returns_within (Inv : S → Prop) (rank : S → Nat)
    (turn : ∀ s,Inv s → (∃ r,step s = some (.stop r)) ∨ ∃ t,step s = some (.again t) ∧ Inv t ∧ rank t < rank s)
    (start : Inv s) : ∃ n r,n ≤ rank s ∧ Returns step s n r := by
  induction limit : rank s using Nat.strong_induction_on generalizing s with
  | _ limit ih =>
    subst limit
    rcases turn s start with ⟨r,done⟩ | ⟨t,next,inv,lower⟩
    · exact ⟨0,r,Nat.zero_le _,.stop done⟩
    · obtain ⟨n,r,within,returns⟩ := ih (rank t) lower inv rfl
      exact ⟨n+1,r,by omega,.again next returns⟩

end
end GreenAgent.Loop
