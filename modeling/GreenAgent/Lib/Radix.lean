import Mathlib.Data.Finset.Card
import Mathlib.Data.Finset.Basic
import Mathlib.Tactic.ByContra
import Mathlib.Order.Nat
import Mathlib.Data.Nat.Find

namespace GreenAgent.Radix

-- A path-compressed tree, given by the finite set of its entries. Its shape is
-- determined by the digits of the paths, so no separate tree type is kept.
variable {P V D : Type} (digit : P → Nat → Nat)

-- A set of entries that can hang below one cursor: distinct entries have
-- distinct paths, and these agree before the cursor and differ before `depth`.
@[grind cases eager] structure Fan (depth : Nat) (s : Finset (P × V)) (c : Nat) : Prop where
  bound : c ≤ depth
  agree : ∀ e ∈ s, ∀ e' ∈ s, ∀ ix < c, digit e.1 ix = digit e'.1 ix
  apart : ∀ e ∈ s, ∀ e' ∈ s, e ≠ e' → ∃ ix < depth, digit e.1 ix ≠ digit e'.1 ix

@[grind cases eager] structure Splits (s : Finset (P × V)) (c d : Nat) : Prop where
  lower : c ≤ d
  agree : ∀ e ∈ s, ∀ e' ∈ s, ∀ ix < d, digit e.1 ix = digit e'.1 ix
  apart : ∃ e ∈ s, ∃ e' ∈ s, digit e.1 d ≠ digit e'.1 d

def child (s : Finset (P × V)) (split nib : Nat) : Finset (P × V) := s.filter (fun e => digit e.1 split = nib)

variable {digit}
variable {s t : Finset (P × V)}

@[simp] theorem mem_child : e ∈ child digit s split nib ↔ e ∈ s ∧ digit e.1 split = nib := by
  simp [child]

theorem child_subset : child digit s split nib ⊆ s := Finset.filter_subset ..

theorem Fan.mono (fan : Fan digit depth s c) (inside : t ⊆ s) : Fan digit depth t c :=
  ⟨fan.bound,fun e he e' he' => fan.agree e (inside he) e' (inside he'),
    fun e he e' he' => fan.apart e (inside he) e' (inside he')⟩

theorem Fan.same_entry (fan : Fan digit depth s c) (he : e ∈ s) (he' : e' ∈ s) (path : e.1 = e'.1) : e = e' := by
  by_contra different
  obtain ⟨ix,_,apart⟩ := fan.apart e he e' he' different
  exact apart (by rw [path])

theorem Splits.two (splits : Splits digit s c d) : 2 ≤ s.card := by
  obtain ⟨e,he,e',he',apart⟩ := splits.apart
  exact Finset.one_lt_card.mpr ⟨e,he,e',he',fun equal => apart (by rw [equal])⟩

theorem Splits.below (splits : Splits digit s c d) (fan : Fan digit depth s c) : d < depth := by
  obtain ⟨e,he,e',he',apart⟩ := splits.apart
  by_contra high
  obtain ⟨ix,bound,differ⟩ := fan.apart e he e' he' (fun equal => apart (by rw [equal]))
  exact differ (splits.agree e he e' he' ix (by omega))

theorem Splits.unique (first : Splits digit s c i) (second : Splits digit s c j) : i = j := by
  obtain ⟨e,he,e',he',apart⟩ := first.apart
  obtain ⟨f,hf,f',hf',apart'⟩ := second.apart
  rcases Nat.lt_trichotomy i j with less | equal | less
  · exact absurd (second.agree e he e' he' i less) apart
  · exact equal
  · exact absurd (first.agree f hf f' hf' j less) apart'

theorem Fan.splits (fan : Fan digit depth s c) (two : 2 ≤ s.card) : ∃ d, Splits digit s c d := by
  obtain ⟨e,he,e',he',different⟩ := Finset.one_lt_card.mp two
  obtain ⟨ix,_,apart⟩ := fan.apart e he e' he' different
  have some : ∃ ix, ∃ e ∈ s, ∃ e' ∈ s, digit e.1 ix ≠ digit e'.1 ix := ⟨ix,e,he,e',he',apart⟩
  classical
  have least := Nat.find_spec some
  refine ⟨Nat.find some,?_,?_,least⟩
  · by_contra low
    obtain ⟨f,hf,f',hf',differ⟩ := least
    exact differ (fan.agree f hf f' hf' _ (by omega))
  · intro f hf f' hf' ix below
    by_contra differ
    exact Nat.find_min some below ⟨f,hf,f',hf',differ⟩

theorem Splits.child_fan (splits : Splits digit s c d) (fan : Fan digit depth s c) :
    Fan digit depth (child digit s d nib) (d+1) := by
  refine ⟨splits.below fan,?_,(fan.mono child_subset).apart⟩
  intro e he e' he' ix bound
  rw [mem_child] at he he'
  rcases Nat.lt_succ_iff_lt_or_eq.mp bound with below | rfl
  · exact splits.agree e he.1 e' he'.1 ix below
  · rw [he.2,he'.2]

theorem Splits.child_card (splits : Splits digit s c d) : (child digit s d nib).card < s.card := by
  apply Finset.card_lt_card
  refine ⟨child_subset,?_⟩
  intro all
  obtain ⟨e,he,e',he',apart⟩ := splits.apart
  have one := (mem_child.mp (all he)).2
  have other := (mem_child.mp (all he')).2
  exact apart (by rw [one,other])

-- What is hashed at each kind of node. The fork label may depend on a path
-- only through the digits between the cursor and the split.
structure Hasher (P V D : Type) (digit : P → Nat → Nat) where
  empty : D
  leaf : P → V → Nat → D
  fork : P → Nat → Nat → (Nat → D) → D
  fork_label : ∀ p q c d roots, (∀ ix, c ≤ ix → ix < d → digit p ix = digit q ix) →
    fork p c d roots = fork q c d roots

section
variable (h : Hasher P V D digit)

open Classical in
noncomputable def root (s : Finset (P × V)) (c : Nat) : D :=
  if splits : ∃ d, Splits digit s c d then
    h.fork splits.choose_spec.apart.choose.1 c splits.choose
      (fun nib => root (child digit s splits.choose nib) (splits.choose+1))
  else if one : ∃ e, e ∈ s then h.leaf one.choose.1 one.choose.2 c
  else h.empty
termination_by s.card
decreasing_by exact splits.choose_spec.child_card

@[simp] theorem root_empty : root h ∅ c = h.empty := by
  unfold root
  rw [dif_neg (by rintro ⟨d,splits⟩; simpa using splits.two),dif_neg (by simp)]

@[simp] theorem root_single (e : P × V) (c : Nat) : root h {e} c = h.leaf e.1 e.2 c := by
  have one : ∃ e', e' ∈ ({e} : Finset (P × V)) := ⟨e,by simp⟩
  have same : one.choose = e := by simpa using one.choose_spec
  unfold root
  rw [dif_neg (by rintro ⟨d,splits⟩; simpa using splits.two),dif_pos one,same]

theorem root_split (splits : Splits digit s c d) (member : e ∈ s) :
    root h s c = h.fork e.1 c d (fun nib => root h (child digit s d nib) (d+1)) := by
  have some : ∃ d, Splits digit s c d := ⟨d,splits⟩
  have same : some.choose = d := some.choose_spec.unique splits
  rw [root,dif_pos some]
  rw [h.fork_label _ e.1]
  · simp only [same]
  · intro ix _ below
    exact some.choose_spec.agree _ some.choose_spec.apart.choose_spec.1 e member ix below

end
end GreenAgent.Radix
