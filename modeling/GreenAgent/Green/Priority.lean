import GreenAgent.Book.Restore

namespace GreenAgent.Green
open Book (Side OnSide AbsolutePrice AllowedPriceRange MarketTakers Ascending TLBState maxByDistanceToSpot)
open Book.MarketTaker (side price)

-- A limit price that is strictly better: a lower ask, a higher bid.
def Better : Side → AbsolutePrice → AbsolutePrice → Prop
  | .ask,a,b => a < b
  | .bid,a,b => b < a

section
variable {L M : Type}

-- The target of an attempt and the price asked for of a side are the best there
-- are.
@[grind cases eager] structure PricePriority (state : TLBState GreenOrder L M) (s : Side) : Prop where
  target : ∀ spot t next, state.allowedPriceRange = ⟨none,none⟩ →
    state.pickActiveTaker (maxByDistanceToSpot spot state.allowedPriceRange) = (some t,next) → side t = s →
    ∀ x ∈ state.activeFragments.onSide s, ¬Better s (price x) (price t)
  best : ∀ x ∈ state.activeFragments.onSide s, ∃ p, state.bestTakerPrice s = some p ∧ ¬Better s (price x) p.unwrap

-- The order with the least id of the side.
def Least (orders : List GreenOrder) (first : GreenOrder) : Prop := first ∈ orders ∧ ∀ x ∈ orders, compareOrderId first.id x.id ≠ .gt

theorem least_head {orders : List GreenOrder} (ascending : Ascending orders) (first : GreenOrder) : Least orders first ↔ orders.head? = some first := by
  cases orders with
  | nil => exact ⟨fun least => absurd least.1 List.not_mem_nil,nofun⟩
  | cons head rest =>
    obtain ⟨before,_⟩ := List.pairwise_cons.mp ascending
    rw [List.head?_cons]
    constructor
    · rintro ⟨member,least⟩
      rcases List.mem_cons.mp member with rfl | later
      · rfl
      · exact absurd (Book.compare_gt (before first later)) (least head List.mem_cons_self)
    · intro same
      obtain rfl := Option.some.inj same
      refine ⟨List.mem_cons_self,fun x member => ?_⟩
      rcases List.mem_cons.mp member with rfl | later
      · rw [compareOrderId_self]
        nofun
      · have less : compareOrderId head.id x.id = .lt := before x later
        rw [less]
        nofun

theorem pickActiveTaker_choice (state : TLBState GreenOrder L M) (f : MarketTakers GreenOrder → Option GreenOrder × MarketTakers GreenOrder) :
    (state.pickActiveTaker f).1 = (f state.activeFragments).1 := by
  cases state with
  | idle resting =>
    simp only [TLBState.pickActiveTaker,TLBState.activeFragments]
    split <;> simp_all
  | partialPreview busy =>
    simp only [TLBState.pickActiveTaker,TLBState.activeFragments]
    split <;> simp_all
  | preview shown => rfl

theorem target_head {takers : MarketTakers GreenOrder} (sided : takers.Sided) (picked : (maxByDistanceToSpot spot ⟨none,none⟩ takers).1 = some t) :
    (takers.onSide (side t)).head? = some t := by
  have from_asks : ∀ ask, takers.asks.head? = some ask → (takers.onSide (side ask)).head? = some ask := by
    intro ask first
    rw [sided.asks ask (List.mem_of_head? first)]
    exact first
  have from_bids : ∀ bid, takers.bids.head? = some bid → (takers.onSide (side bid)).head? = some bid := by
    intro bid first
    rw [sided.bids bid (List.mem_of_head? first)]
    exact first
  unfold maxByDistanceToSpot at picked
  cases ask : takers.asks.head? with
  | none =>
    cases bid : takers.bids.head? with
    | none =>
      rw [ask,bid] at picked
      cases picked
    | some b =>
      rw [ask,bid] at picked
      obtain rfl := Option.some.inj picked
      exact from_bids b bid
  | some a =>
    cases bid : takers.bids.head? with
    | none =>
      rw [ask,bid] at picked
      obtain rfl := Option.some.inj picked
      exact from_asks a ask
    | some b =>
      rw [ask,bid] at picked
      simp only [Option.bind_some,AllowedPriceRange.testAsk,AllowedPriceRange.testBid,Book.maxByVolume] at picked
      split_ifs at picked
      · obtain rfl := Option.some.inj picked
        exact from_asks a ask
      · obtain rfl := Option.some.inj picked
        exact from_bids b bid
      · obtain rfl := Option.some.inj picked
        exact from_asks a ask
      · obtain rfl := Option.some.inj picked
        exact from_bids b bid

theorem unwrap_wrap (s : Side) (p : AbsolutePrice) : (s.wrap p).unwrap = p := by cases s <;> rfl

-- The book sorts orders by id, so the price that comes first is that of the
-- least id.
theorem price_priority_iff {state : TLBState GreenOrder L M} (sorted : state.activeFragments.Sorted) (sided : state.activeFragments.Sided) (s : Side) :
    PricePriority state s ↔ ∀ first, Least (state.activeFragments.onSide s) first →
      ∀ x ∈ state.activeFragments.onSide s, ¬Better s (price x) (price first) := by
  have ascending : Ascending (state.activeFragments.onSide s) := by
    cases s with
    | ask => exact sorted.asks
    | bid => exact sorted.bids
  constructor
  · intro priority first least x member
    obtain ⟨p,quoted,not_better⟩ := priority.best x member
    rw [TLBState.bestTakerPrice,(least_head ascending first).mp least] at quoted
    obtain rfl := Option.some.inj quoted
    rw [unwrap_wrap] at not_better
    exact not_better
  · intro good
    refine ⟨fun spot t next open_range picked at_side => ?_,fun x member => ?_⟩
    · have chosen := pickActiveTaker_choice state (maxByDistanceToSpot spot state.allowedPriceRange)
      rw [picked,open_range] at chosen
      have head := target_head sided chosen.symm
      rw [at_side] at head
      exact good t ((least_head ascending t).mpr head)
    · cases head : (state.activeFragments.onSide s).head? with
      | none =>
        rw [List.head?_eq_none_iff.mp head] at member
        cases member
      | some first =>
        refine ⟨s.wrap (price first),?_,?_⟩
        · rw [TLBState.bestTakerPrice,head]
          rfl
        · rw [unwrap_wrap]
          exact good first ((least_head ascending first).mpr head) x member

end

section Sample
open Recorded Pools Pools.NoEstimates
open Book (IdleState seller crumb evenPool crossedResting crossed_sorted crossed_sided)

-- An ask at one half comes before one at two fifths.
def pricedBook : TLBState GreenOrder Account.Token RoyaltyPool := .idle {crossedResting with takers:=⟨0,⟨[sampleOrder,seller],[]⟩,∅⟩}

theorem worse_price_first :
    pricedBook.activeFragments.Sorted ∧ pricedBook.activeFragments.Sided ∧ pricedBook.allowedPriceRange = ⟨none,none⟩ ∧
    (∃ next, pricedBook.pickActiveTaker (maxByDistanceToSpot evenPool.staticPrice pricedBook.allowedPriceRange) = (some sampleOrder,next)) ∧
    pricedBook.bestTakerPrice .ask = some (.ask (1 / 2)) ∧
    seller ∈ pricedBook.activeFragments.onSide .ask ∧ price seller = 2 / 5 ∧ Better .ask (price seller) (price sampleOrder) ∧
    ¬PricePriority pricedBook .ask := by
  have sorted : pricedBook.activeFragments.Sorted := by
    refine ⟨List.pairwise_pair.mpr ?_,List.Pairwise.nil⟩
    decide
  have better : Better .ask (price seller) (price sampleOrder) := by
    change price seller < price sampleOrder
    decide +kernel
  refine ⟨sorted,⟨by decide +kernel,nofun⟩,rfl,⟨_,Prod.ext ?_ rfl⟩,by decide +kernel,by decide +kernel,by decide +kernel,better,?_⟩
  · decide
  · intro priority
    obtain ⟨p,quoted,not_better⟩ := priority.best seller (by decide)
    obtain rfl := Option.some.inj quoted
    exact not_better better

theorem price_priority_crossed : PricePriority (.idle crossedResting) .ask := by
  have sorted : (TLBState.idle crossedResting).activeFragments.Sorted := crossed_sorted
  refine (price_priority_iff sorted crossed_sided .ask).mpr (fun first least => ?_)
  have head := (least_head crossed_sorted.asks first).mp least
  obtain rfl := Option.some.inj head
  change ∀ x ∈ [crumb,seller], ¬price x < price crumb
  decide +kernel

end Sample
end GreenAgent.Green
