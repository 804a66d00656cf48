import GreenAgent.Lib.HashMap
import Mathlib.Data.List.Sort

namespace GreenAgent.Sorting

section Keys
variable {α β : Type} [LinearOrder β] {key : α → β} {xs target : List α}

-- A stable sort by a key.
def sortBy (key : α → β) (xs : List α) : List α := xs.insertionSort (fun a b => key a ≤ key b)

theorem sortBy_perm (key : α → β) (xs : List α) : (sortBy key xs).Perm xs := List.perm_insertionSort _ _

theorem sortBy_sorted (key : α → β) (xs : List α) : (sortBy key xs).Pairwise (fun a b => key a ≤ key b) := by
  have total : Std.Total (fun a b : α => key a ≤ key b) := ⟨fun a b => le_total (key a) (key b)⟩
  have transitive : IsTrans α (fun a b => key a ≤ key b) := ⟨fun _ _ _ => le_trans⟩
  exact List.pairwise_insertionSort _ _

theorem sortBy_eq (perm : target.Perm xs) (sorted : target.Pairwise (fun a b => key a ≤ key b))
    (distinct : ∀ a ∈ xs, ∀ b ∈ xs, key a = key b → a = b) : sortBy key xs = target := by
  refine List.Perm.eq_of_pairwise ?_ (sortBy_sorted key xs) sorted ((sortBy_perm key xs).trans perm.symm)
  intro a b left right below above
  exact distinct a ((sortBy_perm key xs).mem_iff.mp left) b (perm.mem_iff.mp right) (le_antisymm below above)

theorem sortBy_strict (distinct : (xs.map key).Nodup) : ((sortBy key xs).map key).Pairwise (· < ·) := by
  have keys : ((sortBy key xs).map key).Nodup := ((sortBy_perm key xs).map key).nodup_iff.mpr distinct
  have ordered : ((sortBy key xs).map key).Pairwise (· ≤ ·) := List.pairwise_map.mpr (sortBy_sorted key xs)
  exact ordered.imp₂ (fun _ _ below different => lt_of_le_of_ne below different) keys

theorem sortBy_map {γ : Type} (key : γ → β) (f : α → γ) (xs : List α) :
    (sortBy (fun a => key (f a)) xs).map f = sortBy key (xs.map f) :=
  List.map_insertionSort _ _ f xs (fun _ _ _ _ => Iff.rfl)

theorem insertionSort_eq_sortBy {r : α → α → Prop} [DecidableRel r] (agrees : ∀ a b,r a b ↔ key a ≤ key b) (xs : List α) :
    xs.insertionSort r = sortBy key xs := by
  have same := List.map_insertionSort r (fun a b => key a ≤ key b) id xs (fun a _ b _ => agrees a b)
  rw [List.map_id,List.map_id] at same
  exact same

end Keys

section Positions
variable {K : Type} [DecidableEq K] {keys : List K}

-- Each key under its position, as `enumerate` and `collect` leave them.
def positions (keys : List K) : HashMap K Nat :=
  keys.zipIdx.foldl (fun map entry => AList.insert entry.1 entry.2 map) ∅

theorem positions_lookup (distinct : keys.Nodup) : (positions keys).lookup k = some i ↔ keys[i]? = some k := by
  have forward : ∀ {j},(positions keys).lookup k = some j → keys[j]? = some k := by
    intro j found
    rcases HashMap.lookup_collect found with blank | ⟨⟨k',j'⟩,member,rfl,rfl⟩
    · cases blank
    · exact List.mem_zipIdx_iff_getElem?.mp member
  refine ⟨forward,fun at_i => ?_⟩
  have member : (k,i) ∈ keys.zipIdx := List.mem_zipIdx_iff_getElem?.mpr at_i
  obtain ⟨j,found⟩ := Option.isSome_iff_exists.mp (HashMap.collect_found Prod.fst Prod.snd (∅ : HashMap K Nat) member)
  obtain ⟨inside,_⟩ := List.getElem?_eq_some_iff.mp at_i
  have same : i = j := (List.getElem?_inj inside distinct).mp (at_i.trans (forward found).symm)
  exact same ▸ found

end Positions

theorem positions_le {K : Type} [LinearOrder K] {keys : List K} {i j : Nat} {a b : K} (sorted : keys.Pairwise (· < ·))
    (atA : keys[i]? = some a) (atB : keys[j]? = some b) : i ≤ j ↔ a ≤ b := by
  obtain ⟨insideA,rfl⟩ := List.getElem?_eq_some_iff.mp atA
  obtain ⟨insideB,rfl⟩ := List.getElem?_eq_some_iff.mp atB
  have strict := List.pairwise_iff_getElem.mp sorted
  rcases lt_trichotomy i j with before | same | after
  · exact ⟨fun _ => (strict i j insideA insideB before).le,fun _ => before.le⟩
  · subst same
    exact ⟨fun _ => le_rfl,fun _ => le_rfl⟩
  · have above := strict j i insideB insideA after
    exact ⟨fun below => absurd after (not_lt.mpr below),fun below => absurd above (not_lt.mpr below)⟩

end GreenAgent.Sorting
