import GreenAgent.Book.Attempt

namespace GreenAgent.Book
open MarketTaker TakerBehaviour

-- Takers with ids of their own that all satisfy `P`.
@[grind cases eager] structure Orderly [Stable T K] (P : T → Prop) (takers : List T) : Prop where
  distinct : takers.Pairwise (fun a b => stableId a ≠ stableId b)
  holds : ∀ t ∈ takers, P t

section Lists
variable {T K : Type} [Stable T K] {P : T → Prop} {takers rest : List T} {t next : T}

theorem Orderly.mono (orderly : Orderly P takers) (part : rest.Subperm takers) : Orderly P rest := by
  obtain ⟨middle,perm,sublist⟩ := part
  exact ⟨(orderly.distinct.sublist sublist).perm perm Ne.symm,fun t member => orderly.holds t (sublist.subset (perm.mem_iff.mpr member))⟩

theorem Orderly.perm (orderly : Orderly P takers) (perm : takers.Perm rest) : Orderly P rest := orderly.mono perm.symm.subperm

theorem orderly_cons : Orderly P (t :: rest) ↔ (∀ x ∈ rest, stableId t ≠ stableId x) ∧ P t ∧ Orderly P rest := by
  constructor
  · intro orderly
    obtain ⟨apart,distinct⟩ := List.pairwise_cons.mp orderly.distinct
    exact ⟨apart,orderly.holds t List.mem_cons_self,distinct,fun x member => orderly.holds x (List.mem_cons_of_mem _ member)⟩
  · rintro ⟨apart,holds,orderly⟩
    refine ⟨List.pairwise_cons.mpr ⟨apart,orderly.distinct⟩,?_⟩
    grind

theorem Orderly.unique (orderly : Orderly P takers) (one : t ∈ takers) (two : next ∈ takers) (same : stableId t = stableId next) : t = next := by
  by_contra different
  have symmetric : Std.Symm (fun a b : T => stableId a ≠ stableId b) := ⟨fun _ _ => Ne.symm⟩
  exact orderly.distinct.forall one two different same

end Lists

@[grind cases eager] structure MarketTakers.Sided [MarketTaker T U] (takers : MarketTakers T) : Prop where
  asks : ∀ t ∈ takers.asks, side t = .ask
  bids : ∀ t ∈ takers.bids, side t = .bid

def MarketTakers.all (takers : MarketTakers T) : List T := takers.asks ++ takers.bids

section Sets
variable {T U : Type} [Ord T] [MarketTaker T U]

theorem BTreeSet.insert_subperm (t : T) (set : List T) : (BTreeSet.insert t set).Subperm (t :: set) := by
  induction set with
  | nil => exact .refl _
  | cons first rest ih =>
    unfold BTreeSet.insert
    split
    · exact .refl _
    · exact (List.sublist_cons_self t _).subperm
    · exact ((List.subperm_cons first).mpr ih).trans (List.Perm.swap t first rest).subperm

theorem BTreeSet.remove_sublist (t : T) (set : List T) : (BTreeSet.remove t set).Sublist set := by
  induction set with
  | nil => exact .slnil
  | cons first rest ih =>
    unfold BTreeSet.remove
    grind

theorem BTreeSet.remove_first [Std.ReflOrd T] (t : T) (rest : List T) : BTreeSet.remove t (t :: rest) = rest := by
  have same : compare t t = .eq := Std.ReflCmp.compare_self
  unfold BTreeSet.remove
  rw [same]

namespace MarketTakers
variable {takers : MarketTakers T} {t : T}

theorem insert_subperm (takers : MarketTakers T) (t : T) : (takers.insert t).all.Subperm (t :: takers.all) := by
  unfold MarketTakers.insert
  split
  · exact (((List.subperm_append_left takers.asks).mpr (BTreeSet.insert_subperm t takers.bids))).trans List.perm_middle.subperm
  · exact (List.subperm_append_right takers.bids).mpr (BTreeSet.insert_subperm t takers.asks)

theorem Sided.insert (sided : takers.Sided) (t : T) : (takers.insert t).Sided := by
  unfold MarketTakers.insert
  split
  · rename_i bid
    refine ⟨sided.asks,fun x member => ?_⟩
    rcases List.mem_cons.mp ((BTreeSet.insert_subperm t _).subset member) with rfl | prior
    · exact bid
    · exact sided.bids x prior
  · rename_i ask
    refine ⟨fun x member => ?_,sided.bids⟩
    rcases List.mem_cons.mp ((BTreeSet.insert_subperm t _).subset member) with rfl | prior
    · exact ask
    · exact sided.asks x prior

theorem remove_sublist (takers : MarketTakers T) (t : T) : (takers.remove t).all.Sublist takers.all := by
  unfold MarketTakers.remove
  split
  · exact List.Sublist.append_left (BTreeSet.remove_sublist t _) _
  · exact List.Sublist.append_right (BTreeSet.remove_sublist t _) _

theorem Sided.remove (sided : takers.Sided) (t : T) : (takers.remove t).Sided := by
  unfold MarketTakers.remove
  split
  · exact ⟨sided.asks,fun x member => sided.bids x ((BTreeSet.remove_sublist t _).subset member)⟩
  · exact ⟨fun x member => sided.asks x ((BTreeSet.remove_sublist t _).subset member),sided.bids⟩

theorem insertAll_subperm (added : List T) (takers : MarketTakers T) : (added.foldl insert takers).all.Subperm (added ++ takers.all) := by
  induction added generalizing takers with
  | nil => exact .refl _
  | cons t added ih =>
    have first : (added ++ (takers.insert t).all).Subperm (added ++ t :: takers.all) :=
      (List.subperm_append_left added).mpr (takers.insert_subperm t)
    exact (ih (takers.insert t)).trans (first.trans List.perm_middle.subperm)

theorem Sided.insertAll (sided : takers.Sided) (added : List T) : (added.foldl MarketTakers.insert takers).Sided := by
  induction added generalizing takers with
  | nil => exact sided
  | cons t added ih => exact ih (sided.insert t)

theorem removeAll_sublist (removed : List T) (takers : MarketTakers T) : (removed.foldl MarketTakers.remove takers).all.Sublist takers.all := by
  induction removed generalizing takers with
  | nil => exact .refl _
  | cons t removed ih => exact (ih (takers.remove t)).trans (takers.remove_sublist t)

theorem Sided.removeAll (sided : takers.Sided) (removed : List T) : (removed.foldl MarketTakers.remove takers).Sided := by
  induction removed generalizing takers with
  | nil => exact sided
  | cons t removed ih => exact ih (sided.remove t)

-- One taker goes, all others stay.
@[grind cases eager] structure Without (takers : MarketTakers T) (t : T) (rest : MarketTakers T) : Prop where
  split : takers.all.Perm (t :: rest.all)
  sided : rest.Sided

theorem Sided.without_ask [Std.ReflOrd T] (sided : takers.Sided) (first : takers.asks.head? = some t) : Without takers t (takers.remove t) := by
  obtain ⟨rest,list⟩ := List.head?_eq_some_iff.mp first
  have ask := sided.asks t (list ▸ List.mem_cons_self)
  refine ⟨?_,sided.remove t⟩
  unfold MarketTakers.remove
  rw [ask]
  simp only
  unfold MarketTakers.all
  rw [list,BTreeSet.remove_first]
  exact .refl _

theorem Sided.without_bid [Std.ReflOrd T] (sided : takers.Sided) (first : takers.bids.head? = some t) : Without takers t (takers.remove t) := by
  obtain ⟨rest,list⟩ := List.head?_eq_some_iff.mp first
  have bid := sided.bids t (list ▸ List.mem_cons_self)
  refine ⟨?_,sided.remove t⟩
  unfold MarketTakers.remove
  rw [bid]
  simp only
  unfold MarketTakers.all
  rw [list,BTreeSet.remove_first]
  exact List.perm_middle

end MarketTakers

end Sets

section Picks
variable {T U : Type} [MarketTaker T U]

-- What a picking function does to the takers it is given.
def Picks (f : MarketTakers T → Option T × MarketTakers T) : Prop :=
  ∀ takers : MarketTakers T, takers.Sided → match f takers with
    | (some t,rest) => takers.Without t rest
    | (none,rest) => rest = takers

theorem testBid_some {range : AllowedPriceRange} {bid t : T} (passed : range.testBid bid = some t) : t = bid := by
  unfold AllowedPriceRange.testBid at passed
  split at passed
  · exact (Option.some.inj passed).symm
  grind

theorem testAsk_some {range : AllowedPriceRange} {ask t : T} (passed : range.testAsk ask = some t) : t = ask := by
  unfold AllowedPriceRange.testAsk at passed
  split at passed
  · exact (Option.some.inj passed).symm
  grind

theorem tryPickTaker_picks (s : Side) : Picks (tryPickTaker s : MarketTakers T → _) := by
  intro takers sided
  cases s with
  | bid =>
    unfold tryPickTaker
    cases list : takers.bids with
    | nil => rfl
    | cons best rest =>
      refine ⟨?_,sided.asks,fun t member => sided.bids t (list ▸ List.mem_cons_of_mem _ member)⟩
      unfold MarketTakers.all
      rw [list]
      exact List.perm_middle
  | ask =>
    unfold tryPickTaker
    cases list : takers.asks with
    | nil => rfl
    | cons best rest =>
      refine ⟨?_,fun t member => sided.asks t (list ▸ List.mem_cons_of_mem _ member),sided.bids⟩
      unfold MarketTakers.all
      rw [list]
      exact .refl _

theorem tryPickTaker_side {takers rest : MarketTakers T} (sided : takers.Sided) (picked : tryPickTaker s takers = (some t,rest)) : side t = s := by
  unfold tryPickTaker at picked
  split at picked
  · grind
  grind

theorem maxByDistanceToSpot_picks [Ord T] [Std.ReflOrd T] (spot : AbsolutePrice) (range : AllowedPriceRange) :
    Picks (maxByDistanceToSpot spot range : MarketTakers T → _) := by
  intro takers sided
  have from_bids : ∀ t, takers.bids.head?.bind range.testBid = some t → takers.Without t (takers.remove t) := by
    intro t found
    obtain ⟨first,head,passed⟩ := Option.bind_eq_some_iff.mp found
    exact sided.without_bid (testBid_some passed ▸ head)
  have from_asks : ∀ t, takers.asks.head?.bind range.testAsk = some t → takers.Without t (takers.remove t) := by
    intro t found
    obtain ⟨first,head,passed⟩ := Option.bind_eq_some_iff.mp found
    exact sided.without_ask (testAsk_some passed ▸ head)
  unfold maxByDistanceToSpot
  simp only
  cases bid : takers.bids.head?.bind range.testBid with
  | none => grind
  | some b =>
    cases ask : takers.asks.head?.bind range.testAsk with
    | none => exact from_bids b bid
    | some a =>
      simp only [maxByVolume]
      grind

end Picks
end GreenAgent.Book
