import Mathlib

namespace GreenAgent.Merkle

-- A perfect binary tree over 2^n digests. The family is indexed by all of Nat
-- so that the right half is a shift; only entries below 2^n are ever read.
def shift (n : Nat) (f : Nat → D) : Nat → D := fun i => f (i+2^n)

def root (node : D → D → D) : Nat → (Nat → D) → D
  | 0,f => f 0
  | n+1,f => node (root node n f) (root node n (shift n f))

-- Roots of the sibling subtrees on the way down to one entry, outermost first.
def siblings (node : D → D → D) : Nat → (Nat → D) → Nat → List D
  | 0,_,_ => []
  | n+1,f,i =>
    if i < 2^n then root node n (shift n f) :: siblings node n f i
    else root node n f :: siblings node n (shift n f) (i-2^n)

def recompute (node : D → D → D) : Nat → List D → Nat → D → D
  | n+1,s :: rest,i,leaf =>
    if i < 2^n then node (recompute node n rest i leaf) s
    else node s (recompute node n rest (i-2^n) leaf)
  | _,_,_,leaf => leaf

-- The argument pairs a computation feeds to `node`. A hash that separates these
-- pairs is all that the binding laws below ask for.
def nodes (node : D → D → D) : Nat → (Nat → D) → List (D × D)
  | 0,_ => []
  | n+1,f => (root node n f,root node n (shift n f)) :: (nodes node n f ++ nodes node n (shift n f))

def pathNodes (node : D → D → D) : Nat → List D → Nat → D → List (D × D)
  | n+1,s :: rest,i,leaf =>
    if i < 2^n then (recompute node n rest i leaf,s) :: pathNodes node n rest i leaf
    else (s,recompute node n rest (i-2^n) leaf) :: pathNodes node n rest (i-2^n) leaf
  | _,_,_,_ => []

def Separates (node : D → D → D) (seen : D × D → Prop) : Prop :=
  ∀ x y, seen x → seen y → node x.1 x.2 = node y.1 y.2 → x = y

theorem Separates.mono (separated : Separates node wide) (inside : ∀ x, narrow x → wide x) :
    Separates node narrow :=
  fun x y hx hy equal => separated x y (inside x hx) (inside y hy) equal

theorem root_congr (same : ∀ i < 2^n, f i = g i) : root node n f = root node n g := by
  induction n generalizing f g with
  | zero => exact same 0 (by simp)
  | succ n ih =>
    have left : root node n f = root node n g := ih (fun i bound => same i (by rw [Nat.pow_succ]; omega))
    have right : root node n (shift n f) = root node n (shift n g) :=
      ih (fun i bound => same (i+2^n) (by rw [Nat.pow_succ]; omega))
    simp only [root,left,right]

theorem shift_update_low (low : i < 2^n) : shift n (Function.update f i leaf) = shift n f := by
  funext j
  have other : j+2^n ≠ i := by omega
  simp [shift,Function.update_of_ne other]

theorem shift_update_high (high : ¬i < 2^n) :
    shift n (Function.update f i leaf) = Function.update (shift n f) (i-2^n) leaf := by
  funext j
  by_cases equal : j = i-2^n
  · subst j
    have back : i-2^n+2^n = i := by omega
    simp [shift,back]
  · have other : j+2^n ≠ i := by omega
    simp [shift,Function.update_of_ne other,Function.update_of_ne equal]

theorem root_update_high (high : ¬i < 2^n) : root node n (Function.update f i leaf) = root node n f := by
  apply root_congr
  intro j bound
  have other : j ≠ i := by omega
  exact Function.update_of_ne other ..

theorem siblings_length (f : Nat → D) (i : Nat) : (siblings node n f i).length = n := by
  induction n generalizing f i with
  | zero => rfl
  | succ n ih => unfold siblings; split <;> simp [ih]

-- The siblings do not depend on the entry they open, so one opening serves
-- every value that may be put there.
theorem recompute_siblings (bound : i < 2^n) :
    recompute node n (siblings node n f i) i leaf = root node n (Function.update f i leaf) := by
  induction n generalizing f i with
  | zero =>
    have zero : i = 0 := by simpa using bound
    subst i
    simp [recompute,root]
  | succ n ih =>
    by_cases low : i < 2^n
    · simp only [siblings,if_pos low,recompute,ih low,root,shift_update_low low]
    · have inner : i-2^n < 2^n := by rw [Nat.pow_succ] at bound; omega
      simp only [siblings,if_neg low,recompute,ih inner,root,shift_update_high low,root_update_high low]

theorem root_binds (separated : Separates node (fun x => x ∈ nodes node n f ∨ x ∈ nodes node n g))
    (equal : root node n f = root node n g) : ∀ i < 2^n, f i = g i := by
  induction n generalizing f g with
  | zero =>
    intro i bound
    have zero : i = 0 := by simpa using bound
    subst i
    exact equal
  | succ n ih =>
    have pair := separated _ _ (.inl (List.mem_cons_self ..)) (.inr (List.mem_cons_self ..)) equal
    have left := ih (separated.mono (by simp only [nodes,List.mem_cons,List.mem_append]; tauto)) (congrArg Prod.fst pair)
    have right := ih (separated.mono (by simp only [nodes,List.mem_cons,List.mem_append]; tauto)) (congrArg Prod.snd pair)
    intro i bound
    by_cases low : i < 2^n
    · exact left i low
    · have back : i-2^n+2^n = i := by omega
      have inner : i-2^n < 2^n := by rw [Nat.pow_succ] at bound; omega
      simpa [shift,back] using right (i-2^n) inner

-- Binding of one opening: no other sibling list and no other entry reproduce
-- the root of a known tree.
theorem recompute_binds (bound : i < 2^n) (length : path.length = n)
    (separated : Separates node (fun x => x ∈ nodes node n f ∨ x ∈ pathNodes node n path i leaf))
    (equal : recompute node n path i leaf = root node n f) :
    path = siblings node n f i ∧ leaf = f i := by
  induction n generalizing f i path with
  | zero =>
    have zero : i = 0 := by simpa using bound
    subst i
    exact ⟨List.eq_nil_of_length_eq_zero length,by simpa [recompute,root] using equal⟩
  | succ n ih =>
    cases path with
    | nil => simp at length
    | cons s rest =>
      have restLength : rest.length = n := by simpa using length
      by_cases low : i < 2^n
      · simp only [recompute,if_pos low,root] at equal
        have pair := separated (recompute node n rest i leaf,s) _ (.inr (by simp [pathNodes,low]))
          (.inl (List.mem_cons_self ..)) equal
        obtain ⟨tail,entry⟩ := ih low restLength
          (separated.mono (by simp only [nodes,pathNodes,if_pos low,List.mem_cons,List.mem_append]; tauto))
          (congrArg Prod.fst pair)
        have top : s = root node n (shift n f) := congrArg Prod.snd pair
        simp only [siblings,if_pos low]
        exact ⟨by rw [tail,top],entry⟩
      · have inner : i-2^n < 2^n := by rw [Nat.pow_succ] at bound; omega
        have back : i-2^n+2^n = i := by omega
        simp only [recompute,if_neg low,root] at equal
        have pair := separated (s,recompute node n rest (i-2^n) leaf) _ (.inr (by simp [pathNodes,low]))
          (.inl (List.mem_cons_self ..)) equal
        obtain ⟨tail,entry⟩ := ih inner restLength
          (separated.mono (by simp only [nodes,pathNodes,if_neg low,List.mem_cons,List.mem_append]; tauto))
          (congrArg Prod.snd pair)
        have top : s = root node n f := congrArg Prod.fst pair
        simp only [siblings,if_neg low]
        exact ⟨by rw [tail,top],by simpa [shift,back] using entry⟩

end GreenAgent.Merkle
