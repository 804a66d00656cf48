import GreenAgent.Book.Steps
import GreenAgent.Green.Fee

namespace GreenAgent.Book
open MarketTaker

section Stash
variable {T K M U : Type} [MarketTaker T U] {state : TLBState T K M} {takers : MarketTakers T} {range : AllowedPriceRange} {t : T}

def TLBState.stashed (state : TLBState T K M) (s : Side) : List T := state.stash.filter (fun t => side t = s)

-- At least as good a price on the side of the taker.
def AsGood (t other : T) : Prop :=
  match side t with
  | .ask => price t ≤ price other
  | .bid => price other ≤ price t

-- Stashed asks hold a bid back exactly when a stashed bid should.
def StashAgrees (state : TLBState T K M) : Prop :=
  ∀ bid ∈ state.activeFragments.bids.head?,
    (state.stashed .ask ≠ [] ∧ ∀ ask ∈ state.stashed .ask,price bid < price ask) ↔ ∃ other ∈ state.stashed .bid,price bid < price other

theorem maxAskPrice_eq (state : TLBState T K M) : state.allowedPriceRange.maxAskPrice = ((state.stashed .ask).map price).min? := by
  have prices : ∀ list : List T,list.filterMap (fun t => if side t = .ask then some (price t) else none) =
      (list.filter (fun t => side t = .ask)).map price := by
    intro list
    induction list with
    | nil => rfl
    | cons first rest ih => grind
  cases state with
  | idle _ => rfl
  | partialPreview busy => exact congrArg List.min? (prices _)
  | preview shown => exact congrArg List.min? (prices _)

theorem testAsk_none : state.allowedPriceRange.testAsk t = none ↔ ∃ other ∈ state.stashed .ask,price other < price t := by
  unfold AllowedPriceRange.testAsk
  rw [maxAskPrice_eq]
  cases least : ((state.stashed .ask).map price).min? with
  | none => simp_all
  | some bound =>
    obtain ⟨member,below⟩ := List.min?_eq_some_iff.mp least
    obtain ⟨cheapest,inside,rfl⟩ := List.mem_map.mp member
    simp only [ite_eq_right_iff,reduceCtorEq,imp_false,not_le]
    constructor
    · grind
    · rintro ⟨other,held,worse⟩
      exact lt_of_le_of_lt (below _ (List.mem_map_of_mem held)) worse

theorem testBid_none : state.allowedPriceRange.testBid t = none ↔
    state.stashed .ask ≠ [] ∧ ∀ ask ∈ state.stashed .ask,price t < price ask := by
  unfold AllowedPriceRange.testBid
  rw [maxAskPrice_eq]
  cases least : ((state.stashed .ask).map price).min? with
  | none => simp_all
  | some bound =>
    obtain ⟨member,below⟩ := List.min?_eq_some_iff.mp least
    obtain ⟨cheapest,inside,rfl⟩ := List.mem_map.mp member
    simp only [ite_eq_right_iff,reduceCtorEq,imp_false,not_le]
    constructor
    · intro worse
      exact ⟨List.ne_nil_of_mem inside,fun ask held => lt_of_lt_of_le worse (below _ (List.mem_map_of_mem held))⟩
    grind

variable [Ord T]

-- Stashed takers hold back worse takers of their own side, and no others.
@[grind cases eager] structure StashPriority (state : TLBState T K M) : Prop where
  selected : ∀ spot,0 ≤ spot → ∀ t,(maxByDistanceToSpot spot state.allowedPriceRange state.activeFragments).1 = some t →
    ∀ other ∈ state.stashed (side t),AsGood t other
  asks : ∀ t ∈ state.activeFragments.asks.head?,state.allowedPriceRange.testAsk t = none → ∃ other ∈ state.stashed .ask,price other < price t
  bids : ∀ t ∈ state.activeFragments.bids.head?,state.allowedPriceRange.testBid t = none → ∃ other ∈ state.stashed .bid,price t < price other

theorem selected_head (picked : (maxByDistanceToSpot spot range takers).1 = some t) :
    takers.asks.head? = some t ∧ range.testAsk t ≠ none ∨ takers.bids.head? = some t ∧ range.testBid t ≠ none := by
  have from_asks : takers.asks.head?.bind range.testAsk = some t → takers.asks.head? = some t ∧ range.testAsk t ≠ none := by
    intro found
    obtain ⟨first,head,passed⟩ := Option.bind_eq_some_iff.mp found
    obtain rfl := testAsk_some passed
    exact ⟨head,by rw [passed]; nofun⟩
  have from_bids : takers.bids.head?.bind range.testBid = some t → takers.bids.head? = some t ∧ range.testBid t ≠ none := by
    intro found
    obtain ⟨first,head,passed⟩ := Option.bind_eq_some_iff.mp found
    obtain rfl := testBid_some passed
    exact ⟨head,by rw [passed]; nofun⟩
  unfold maxByDistanceToSpot at picked
  simp only at picked
  cases bid : takers.bids.head?.bind range.testBid with
  | none => grind
  | some b =>
    cases ask : takers.asks.head?.bind range.testAsk with
    | none => grind
    | some a =>
      rw [bid,ask] at picked
      simp only [maxByVolume] at picked
      grind

theorem selected_bid (passes : takers.bids.head?.bind range.testBid = some t) (positive : 0 < price t)
    (asks : ∀ ask ∈ takers.asks.head?,0 < price ask) : (maxByDistanceToSpot 0 range takers).1 = some t := by
  unfold maxByDistanceToSpot
  simp only
  cases ask : takers.asks.head?.bind range.testAsk with
  | none =>
    rw [passes]
  | some a =>
    obtain ⟨first,head,passed⟩ := Option.bind_eq_some_iff.mp ask
    obtain rfl := testAsk_some passed
    have above := asks a head
    rw [passes]
    have closer : (0 : AbsolutePrice) - price a < (0 - price t) * -1 := by linarith
    grind

theorem stash_priority_iff (state : TLBState T K M) (sided : state.activeFragments.Sided) :
    (StashAgrees state → StashPriority state) ∧
      ((∀ t ∈ state.activeFragments.all,0 < price t) → StashPriority state → StashAgrees state) := by
  refine ⟨?_,?_⟩
  · intro agrees
    refine ⟨?_,fun t _ => testAsk_none.mp,fun t head held => (agrees t head).mp (testBid_none.mp held)⟩
    intro spot _ t picked other held
    unfold AsGood
    rcases selected_head picked with ⟨head,passed⟩ | ⟨head,passed⟩
    · have ask := sided.asks t (List.mem_of_head? head)
      rw [ask] at held ⊢
      exact le_of_not_gt (fun worse => passed (testAsk_none.mpr ⟨other,held,worse⟩))
    · have bid := sided.bids t (List.mem_of_head? head)
      rw [bid] at held ⊢
      exact le_of_not_gt (fun worse => passed (testBid_none.mpr ((agrees t head).mpr ⟨other,held,worse⟩)))
  · intro positive priority bid head
    constructor
    · exact fun held => priority.bids bid head (testBid_none.mpr held)
    · rintro ⟨other,held,worse⟩
      by_contra free
      have side_bid := sided.bids bid (List.mem_of_head? head)
      have passes : state.activeFragments.bids.head?.bind state.allowedPriceRange.testBid = some bid := by
        rw [head,Option.bind_some]
        obtain ⟨taker,passed⟩ := Option.ne_none_iff_exists'.mp (fun none => free (testBid_none.mp none))
        rw [passed,testBid_some passed]
      have picked := selected_bid passes (positive bid (List.mem_append_right _ (List.mem_of_head? head)))
        (fun ask first => positive ask (List.mem_append_left _ (List.mem_of_head? first)))
      have good := priority.selected 0 le_rfl bid picked other (by rw [side_bid]; exact held)
      unfold AsGood at good
      rw [side_bid] at good
      exact absurd worse (not_lt_of_ge good)

end Stash

section Sample
open Green (GreenOrder)

-- An order that sells a token for lovelace is a bid.
def tokenOrder (digest : Nat) (leaving expected : UInt64) : GreenOrder :=
  Green.continuation ⟨⟨Mpf.digestOf 1⟩,0,1,Mpf.digestOf digest⟩ ⟨Mpf.digestOf 1⟩ []
    ⟨.current,0,1,.token ⟨.filled 1,[0x41]⟩,leaving,.native,expected,10,.filled 0⟩

def stashedBook (active stash : List GreenOrder) : TLBState GreenOrder Unit Unit :=
  .partialPreview ⟨⟨0,active.foldl MarketTakers.insert .new,∅⟩,[],stash,∅,∅⟩

def lowBid : GreenOrder := tokenOrder 10 100 100
def highBid : GreenOrder := tokenOrder 11 200 100
def highAsk : GreenOrder := {Green.sampleOrder with intention:={Green.sampleOrder.intention with expectedArrivingAmount:=200}}

theorem lowBid_selected : (maxByDistanceToSpot 1 (stashedBook [lowBid] [highBid]).allowedPriceRange
    (stashedBook [lowBid] [highBid]).activeFragments).1 = some lowBid := by decide

-- A bid of 1 is selected although a bid of 2 is stashed, and it is held back by
-- a stashed ask of 2.
theorem stash_priority_lost : ¬StashPriority (stashedBook [lowBid] [highBid]) ∧ ¬StashPriority (stashedBook [lowBid] [highAsk]) := by
  refine ⟨fun priority => ?_,fun priority => ?_⟩
  · have good : price highBid ≤ price lowBid := priority.selected 1 zero_le_one lowBid lowBid_selected highBid (by decide)
    exact absurd good (by decide +kernel)
  · obtain ⟨other,held,_⟩ := priority.bids lowBid (by decide +kernel) (by decide +kernel)
    have none : (stashedBook [lowBid] [highAsk]).stashed .bid = [] := by decide
    rw [none] at held
    cases held

-- One side alone, with a better ask stashed.
theorem stash_priority_asks : StashPriority (stashedBook [highAsk] [Green.sampleOrder]) := by
  refine (stash_priority_iff _ ⟨?_,?_⟩).1 ?_
  · decide
  · decide
  · intro bid head
    cases head

end Sample

end GreenAgent.Book
