import GreenAgent.Book.Types

namespace GreenAgent.Book
open MarketTaker TakerBehaviour

-- `BTreeSet` as the ascending list of its elements. An equal element that is
-- already there stays.
namespace BTreeSet
variable {T : Type} [Ord T]

def insert (t : T) : List T → List T
  | [] => [t]
  | first :: rest => match compare t first with
    | .lt => t :: first :: rest
    | .eq => first :: rest
    | .gt => first :: insert t rest

def remove (t : T) : List T → List T
  | [] => []
  | first :: rest => match compare t first with
    | .lt => first :: rest
    | .eq => rest
    | .gt => first :: remove t rest

end BTreeSet

structure MarketTakers (T : Type) where
  asks : List T
  bids : List T

structure Chronology (T : Type) where
  timeNow : Nat
  active : MarketTakers T
  inactive : HashMap Nat (MarketTakers T)

-- `MarketMakers` without its quality index, which nothing reads.
abbrev MarketMakers (K M : Type) := HashMap K M

structure IdleState (T K M : Type) where
  takers : Chronology T
  makers : MarketMakers K M

structure PartialPreviewState (T K M : Type) where
  takersPreview : Chronology T
  consumedActiveTakers : List T
  stashedActiveTakers : List T
  makersIntact : MarketMakers K M
  makersPreview : MarketMakers K M

structure PreviewState (T K M : Type) where
  takersIntact : Chronology T
  activeTakersPreview : MarketTakers T
  stashedActiveTakers : List T
  inactiveTakersChangeset : List (Nat × T)
  makersIntact : MarketMakers K M
  makersPreview : MarketMakers K M

inductive TLBState (T K M : Type) where
  | idle (state : IdleState T K M)
  | partialPreview (state : PartialPreviewState T K M)
  | preview (state : PreviewState T K M)

inductive StashingOption (T : Type) where
  | stash (takers : List T)
  | unstash

structure AllowedPriceRange where
  maxAskPrice : Option AbsolutePrice
  minBidPrice : Option AbsolutePrice

section
variable {T K M U : Type} [Ord T] [MarketTaker T U] [TakerBehaviour T]

namespace MarketTakers

def new : MarketTakers T := ⟨[],[]⟩

def insert (takers : MarketTakers T) (t : T) : MarketTakers T :=
  match side t with
  | .bid => {takers with bids:=BTreeSet.insert t takers.bids}
  | .ask => {takers with asks:=BTreeSet.insert t takers.asks}

def remove (takers : MarketTakers T) (t : T) : MarketTakers T :=
  match side t with
  | .bid => {takers with bids:=BTreeSet.remove t takers.bids}
  | .ask => {takers with asks:=BTreeSet.remove t takers.asks}

def onSide (takers : MarketTakers T) : Side → List T
  | .bid => takers.bids
  | .ask => takers.asks

end MarketTakers

namespace Chronology

def addInactive (inactive : HashMap Nat (MarketTakers T)) (time : Nat) (t : T) : HashMap Nat (MarketTakers T) :=
  AList.insert time (((inactive.lookup time).getD .new).insert t) inactive

def advanceClocks (takers : Chronology T) (newTime : Nat) : Chronology T :=
  let next := fun t => match withUpdatedTime t newTime with
    | .succ t => some t
    | .term _ => none
  let slot := (takers.inactive.lookup newTime).getD .new
  {timeNow:=newTime,
   active:={
     asks:=(takers.active.asks.filterMap next).foldl (fun set t => BTreeSet.insert t set) slot.asks,
     bids:=(takers.active.bids.filterMap next).foldl (fun set t => BTreeSet.insert t set) slot.bids},
   inactive:=AList.erase newTime takers.inactive}

def removeFragment (takers : Chronology T) (t : T) : Chronology T :=
  match (timeBounds t).lowerBound with
  | some lower =>
    if takers.timeNow < lower then
      match takers.inactive.lookup lower with
      | some slot => {takers with inactive:=AList.insert lower (slot.remove t) takers.inactive}
      | none => takers
    else {takers with active:=takers.active.remove t}
  | none => {takers with active:=takers.active.remove t}

def addFragment (takers : Chronology T) (t : T) : Chronology T :=
  match (timeBounds t).lowerBound with
  | some lower =>
    if takers.timeNow < lower then {takers with inactive:=addInactive takers.inactive lower t}
    else {takers with active:=takers.active.insert t}
  | none => {takers with active:=takers.active.insert t}

end Chronology

namespace PartialPreviewState

-- The stash is not carried over.
def commit (state : PartialPreviewState T K M) : IdleState T K M := ⟨state.takersPreview,state.makersPreview⟩

-- The takers before the attempt: what was consumed goes back, last one first.
def takersIntact (state : PartialPreviewState T K M) : Chronology T :=
  {state.takersPreview with active:=state.consumedActiveTakers.reverse.foldl MarketTakers.insert state.takersPreview.active}

end PartialPreviewState

def PreviewState.commit (state : PreviewState T K M) : IdleState T K M :=
  let inactive := state.inactiveTakersChangeset.reverse.foldl (fun map entry => Chronology.addInactive map entry.1 entry.2)
    state.takersIntact.inactive
  ⟨{state.takersIntact with
      active:=state.stashedActiveTakers.foldl MarketTakers.insert state.activeTakersPreview,
      inactive:=inactive},state.makersPreview⟩

-- The common part of both `rollback`s, from the takers before the attempt.
def rollbackTo (takers : Chronology T) (stashed : List T) (makers : MarketMakers K M) (option : StashingOption T) : TLBState T K M :=
  match option with
  | .stash toStash =>
    let takers := {takers with active:=toStash.foldl MarketTakers.remove takers.active}
    if (stashed ++ toStash).isEmpty then .idle ⟨takers,makers⟩
    else .partialPreview ⟨takers,[],stashed ++ toStash,makers,makers⟩
  | .unstash => .idle ⟨{takers with active:=stashed.foldl MarketTakers.insert takers.active},makers⟩

namespace TLBState

def new (time : Nat) : TLBState T K M := .idle ⟨⟨time,.new,∅⟩,∅⟩

def activeFragments : TLBState T K M → MarketTakers T
  | .idle state => state.takers.active
  | .partialPreview state => state.takersPreview.active
  | .preview state => state.activeTakersPreview

def pools : TLBState T K M → MarketMakers K M
  | .idle state => state.makers
  | .partialPreview state => state.makersPreview
  | .preview state => state.makersPreview

def currentTime : TLBState T K M → Nat
  | .idle state => state.takers.timeNow
  | .partialPreview state => state.takersPreview.timeNow
  | .preview state => state.takersIntact.timeNow

def stash : TLBState T K M → List T
  | .idle _ => []
  | .partialPreview state => state.stashedActiveTakers
  | .preview state => state.stashedActiveTakers

def commit : TLBState T K M → TLBState T K M
  | .partialPreview state => .idle state.commit
  | .preview state => .idle state.commit
  | .idle state => .idle state

def rollback (option : StashingOption T) : TLBState T K M → TLBState T K M
  | .partialPreview state => rollbackTo state.takersIntact state.stashedActiveTakers state.makersIntact option
  | .preview state => rollbackTo state.takersIntact state.stashedActiveTakers state.makersIntact option
  | .idle state => .idle state

def moveIntoPreview : TLBState T K M → PreviewState T K M
  | .idle state => ⟨state.takers,state.takers.active,[],[],state.makers,state.makers⟩
  | .partialPreview state =>
    ⟨state.takersIntact,state.takersPreview.active,state.stashedActiveTakers,[],state.makersIntact,state.makersPreview⟩
  | .preview state => state

def allowedPriceRange : TLBState T K M → AllowedPriceRange
  | .idle _ => ⟨none,none⟩
  | state => {
      maxAskPrice:=(state.stash.filterMap (fun t => if side t = .ask then some (price t) else none)).min?,
      minBidPrice:=(state.stash.filterMap (fun t => if side t = .bid then some (price t) else none)).max?}

def bestTakerPrice (state : TLBState T K M) (side : Side) : Option (OnSide AbsolutePrice) :=
  (state.activeFragments.onSide side).head?.map (fun t => side.wrap (price t))

def preAddTaker (state : TLBState T K M) (t : T) : TLBState T K M :=
  let preview := state.moveIntoPreview
  match (timeBounds t).lowerBound with
  | some lower =>
    if state.currentTime < lower then
      .preview {preview with inactiveTakersChangeset:=preview.inactiveTakersChangeset ++ [(lower,t)]}
    else .preview {preview with activeTakersPreview:=preview.activeTakersPreview.insert t}
  | none => .preview {preview with activeTakersPreview:=preview.activeTakersPreview.insert t}

def preAddMaker [DecidableEq K] [Stable M K] (state : TLBState T K M) (maker : M) : TLBState T K M :=
  let preview := state.moveIntoPreview
  .preview {preview with makersPreview:=AList.insert (stableId maker) maker preview.makersPreview}

def pickActiveTaker (state : TLBState T K M) (f : MarketTakers T → Option T × MarketTakers T) : Option T × TLBState T K M :=
  match state with
  | .idle settled =>
    let (choice,active) := f settled.takers.active
    match choice with
    | some t => (some t,.partialPreview ⟨{settled.takers with active:=active},[t],[],settled.makers,settled.makers⟩)
    | none => (none,.idle {settled with takers:={settled.takers with active:=active}})
  | .partialPreview busy =>
    let (choice,active) := f busy.takersPreview.active
    let busy := {busy with takersPreview:={busy.takersPreview with active:=active}}
    match choice with
    | some t => (some t,.partialPreview {busy with consumedActiveTakers:=busy.consumedActiveTakers ++ [t]})
    | none => (none,.partialPreview busy)
  | .preview shown =>
    let (choice,active) := f shown.activeTakersPreview
    (choice,.preview {shown with activeTakersPreview:=active})

def pickMakerById [DecidableEq K] (state : TLBState T K M) (id : K) : Option M × TLBState T K M :=
  match state with
  | .idle settled => (settled.makers.lookup id,.partialPreview ⟨settled.takers,[],[],settled.makers,AList.erase id settled.makers⟩)
  | .partialPreview busy =>
    (busy.makersPreview.lookup id,.partialPreview {busy with makersPreview:=AList.erase id busy.makersPreview})
  | .preview shown => (shown.makersPreview.lookup id,.preview {shown with makersPreview:=AList.erase id shown.makersPreview})

end TLBState

def AllowedPriceRange.testAsk (range : AllowedPriceRange) (ask : T) : Option T :=
  match range.maxAskPrice with
  | none => some ask
  | some maxAsk => if price ask ≤ maxAsk then some ask else none

-- The bound read here is the one of the asks, as in the source.
def AllowedPriceRange.testBid (range : AllowedPriceRange) (bid : T) : Option T :=
  match range.maxAskPrice with
  | none => some bid
  | some minBid => if minBid ≤ price bid then some bid else none

def maxByVolume (ask bid : T) (spotPrice : AbsolutePrice) : T :=
  if (1 / (input bid : ℚ)) * spotPrice < (input ask : ℚ) then ask else bid

def maxByDistanceToSpot (spotPrice : AbsolutePrice) (range : AllowedPriceRange) (fragments : MarketTakers T) :
    Option T × MarketTakers T :=
  let bestBid := fragments.bids.head?.bind range.testBid
  let bestAsk := fragments.asks.head?.bind range.testAsk
  let choice := match bestAsk,bestBid with
    | some ask,some bid =>
      let fromAsk := spotPrice - price ask
      let fromBid := (spotPrice - price bid) * -1
      if fromBid < fromAsk then some ask
      else if fromAsk < fromBid then some bid
      else some (maxByVolume ask bid spotPrice)
    | some t,none => some t
    | none,some t => some t
    | none,none => none
  match choice with
  | some t => (some t,fragments.remove t)
  | none => (none,fragments)

-- `try_pick_taker` with the test that accepts every taker.
def tryPickTaker (side : Side) (fragments : MarketTakers T) : Option T × MarketTakers T :=
  match side with
  | .bid => match fragments.bids with
    | [] => (none,fragments)
    | best :: rest => (some best,{fragments with bids:=rest})
  | .ask => match fragments.asks with
    | [] => (none,fragments)
    | best :: rest => (some best,{fragments with asks:=rest})

end
end GreenAgent.Book
