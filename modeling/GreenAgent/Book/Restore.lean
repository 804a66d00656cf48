import GreenAgent.Book.Heads
import GreenAgent.Green.Termination

namespace GreenAgent.Book
open MarketTaker TakerBehaviour

section Sets
variable {T : Type} [Ord T]

-- What is left of a set when some of its elements are out.
@[grind cases eager] structure Left (set : List T) (out : T → Prop) (rest : List T) : Prop where
  ascending : Ascending rest
  members : ∀ x, x ∈ rest ↔ x ∈ set ∧ ¬out x

variable [Std.TransOrd T] {set rest : List T} {out : T → Prop} {t x : T}

theorem compare_lt_irrefl (a : T) : compare a a ≠ .lt := by
  have same : compare a a = .eq := Std.ReflCmp.compare_self
  rw [same]
  nofun

theorem Ascending.same (ascending : Ascending set) (one : t ∈ set) (two : x ∈ set) (alike : compare t x = .eq) : t = x := by
  by_contra different
  have symmetric : Std.Symm (fun a b : T => compare a b ≠ .eq) := ⟨fun a b apart back => apart (Std.OrientedCmp.eq_symm back)⟩
  have apart : set.Pairwise (fun a b => compare a b ≠ .eq) := ascending.imp (fun less same => by rw [less] at same; cases same)
  exact apart.forall one two different alike

theorem BTreeSet.mem_remove (ascending : Ascending rest) : x ∈ BTreeSet.remove t rest ↔ x ∈ rest ∧ compare t x ≠ .eq := by
  induction rest with
  | nil => simp [BTreeSet.remove]
  | cons first rest ih =>
    obtain ⟨least,ascending'⟩ := List.pairwise_cons.mp ascending
    have later : ∀ y ∈ rest, compare t first ≠ .gt → compare t y = .lt := by
      intro y member before
      refine Std.TransCmp.lt_of_isLE_of_lt ?_ (least y member)
      cases compared : compare t first with
      | lt => rfl
      | eq => rfl
      | gt => exact absurd compared before
    unfold BTreeSet.remove
    split
    · grind
    · grind
    · rename_i greater
      rw [List.mem_cons,List.mem_cons,ih ascending']
      grind

theorem Ascending.insert (ascending : Ascending rest) (t : T) : Ascending (BTreeSet.insert t rest) := by
  induction rest with
  | nil => exact List.pairwise_singleton ..
  | cons first rest ih =>
    obtain ⟨least,ascending'⟩ := List.pairwise_cons.mp ascending
    unfold BTreeSet.insert
    split
    · rename_i less
      refine List.pairwise_cons.mpr ⟨?_,ascending⟩
      intro y member
      rcases List.mem_cons.mp member with rfl | inside
      · exact less
      · exact Std.TransCmp.lt_trans less (least y inside)
    · exact ascending
    · rename_i greater
      refine List.pairwise_cons.mpr ⟨?_,ih ascending'⟩
      intro y member
      rcases List.mem_cons.mp ((BTreeSet.insert_subperm t rest).subset member) with rfl | inside
      · exact Std.OrientedCmp.lt_of_gt greater
      · exact least y inside

omit [Std.TransOrd T] in
theorem BTreeSet.mem_insert (fresh : ∀ y ∈ rest, compare t y = .eq → t = y) : x ∈ BTreeSet.insert t rest ↔ x = t ∨ x ∈ rest := by
  induction rest with
  | nil => simp [BTreeSet.insert]
  | cons first rest ih =>
    unfold BTreeSet.insert
    grind

omit [Std.TransOrd T] in
theorem Left.start (ascending : Ascending set) : Left set (fun _ => False) set := ⟨ascending,fun x => by simp⟩

theorem Left.remove (left : Left set out rest) (ascending : Ascending set) (member : t ∈ set) :
    Left set (fun x => out x ∨ x = t) (BTreeSet.remove t rest) := by
  refine ⟨left.ascending.sublist (BTreeSet.remove_sublist t rest),fun x => ?_⟩
  rw [BTreeSet.mem_remove left.ascending,left.members]
  constructor
  · grind
  · rintro ⟨inside,stays⟩
    refine ⟨⟨inside,fun gone => stays (.inl gone)⟩,fun alike => stays (.inr ?_)⟩
    exact (ascending.same member inside alike).symm

theorem Left.insert (left : Left set out rest) (ascending : Ascending set) (member : t ∈ set) :
    Left set (fun x => out x ∧ x ≠ t) (BTreeSet.insert t rest) := by
  have fresh : ∀ y ∈ rest, compare t y = .eq → t = y := fun y inside alike => ascending.same member ((left.members y).mp inside).1 alike
  refine ⟨left.ascending.insert t,fun x => ?_⟩
  rw [BTreeSet.mem_insert fresh,left.members]
  grind

theorem Left.whole (left : Left set out rest) (ascending : Ascending set) (none_out : ∀ x ∈ set, ¬out x) : rest = set := by
  have irreflexive : Std.Irrefl (fun a b : T => compare a b = .lt) := ⟨compare_lt_irrefl⟩
  have antisymmetric : Std.Antisymm (fun a b : T => compare a b = .lt) := ⟨fun a b less more => by
    rw [Std.OrientedCmp.gt_of_lt less] at more
    cases more⟩
  refine List.Pairwise.eq_of_mem_iff left.ascending ascending (fun x => ?_)
  grind

end Sets

section Takers
variable {T U : Type} [Ord T] [MarketTaker T U]

-- Both sides of the takers without those that are out.
@[grind cases eager] structure MarketTakers.Left (takers : MarketTakers T) (out : T → Prop) (rest : MarketTakers T) : Prop where
  asks : Book.Left takers.asks out rest.asks
  bids : Book.Left takers.bids out rest.bids

variable [Std.TransOrd T] {takers rest : MarketTakers T} {out : T → Prop} {t : T}

namespace MarketTakers

omit [MarketTaker T U] [Std.TransOrd T] in
theorem Left.congr {other : T → Prop} (left : takers.Left out rest) (same : ∀ x, out x ↔ other x) : takers.Left other rest where
  asks := ⟨left.asks.ascending,fun x => by rw [left.asks.members,same]⟩
  bids := ⟨left.bids.ascending,fun x => by rw [left.bids.members,same]⟩

theorem Left.remove (left : takers.Left out rest) (sorted : takers.Sorted) (sided : takers.Sided) (member : t ∈ takers.all) :
    takers.Left (fun x => out x ∨ x = t) (rest.remove t) := by
  have other : ∀ x, side x ≠ side t → ((out x ∨ x = t) ↔ out x) := fun x apart => or_iff_left (fun same => apart (congrArg side same))
  cases at_side : side t with
  | ask =>
    simp only [MarketTakers.remove,at_side]
    refine ⟨left.asks.remove sorted.asks (sided.member_ask member at_side),left.bids.ascending,fun x => ?_⟩
    grind
  | bid =>
    simp only [MarketTakers.remove,at_side]
    refine ⟨⟨left.asks.ascending,fun x => ?_⟩,left.bids.remove sorted.bids (sided.member_bid member at_side)⟩
    grind

theorem Left.insert (left : takers.Left out rest) (sorted : takers.Sorted) (sided : takers.Sided) (member : t ∈ takers.all) :
    takers.Left (fun x => out x ∧ x ≠ t) (rest.insert t) := by
  have other : ∀ x, side x ≠ side t → ((out x ∧ x ≠ t) ↔ out x) := fun x apart => and_iff_left (fun same => apart (congrArg side same))
  cases at_side : side t with
  | ask =>
    simp only [MarketTakers.insert,at_side]
    refine ⟨left.asks.insert sorted.asks (sided.member_ask member at_side),left.bids.ascending,fun x => ?_⟩
    grind
  | bid =>
    simp only [MarketTakers.insert,at_side]
    refine ⟨⟨left.asks.ascending,fun x => ?_⟩,left.bids.insert sorted.bids (sided.member_bid member at_side)⟩
    grind

theorem Left.removeAll (left : takers.Left out rest) (sorted : takers.Sorted) (sided : takers.Sided) (removed : List T)
    (members : ∀ t ∈ removed, t ∈ takers.all) : takers.Left (fun x => out x ∨ x ∈ removed) (removed.foldl MarketTakers.remove rest) := by
  induction removed generalizing rest out with
  | nil => exact left.congr (fun x => by simp)
  | cons t removed ih =>
    have first := left.remove sorted sided (members t List.mem_cons_self)
    grind

theorem Left.insertAll (left : takers.Left out rest) (sorted : takers.Sorted) (sided : takers.Sided) (added : List T)
    (members : ∀ t ∈ added, t ∈ takers.all) : takers.Left (fun x => out x ∧ x ∉ added) (added.foldl MarketTakers.insert rest) := by
  induction added generalizing rest out with
  | nil => exact left.congr (fun x => by simp)
  | cons t added ih =>
    have first := left.insert sorted sided (members t List.mem_cons_self)
    grind

theorem Left.whole (left : takers.Left out rest) (sorted : takers.Sorted) (none_out : ∀ x, ¬out x) : rest = takers := by
  obtain ⟨asks,bids⟩ := takers
  obtain ⟨asks',bids'⟩ := rest
  have whole_asks : asks' = asks := left.asks.whole sorted.asks (fun x _ => none_out x)
  have whole_bids : bids' = bids := left.bids.whole sorted.bids (fun x _ => none_out x)
  rw [whole_asks,whole_bids]

end MarketTakers

-- What a picking function leaves can be put together again, and is as ordered
-- as what it was given.
def Undoable (f : MarketTakers T → Option T × MarketTakers T) : Prop :=
  ∀ takers : MarketTakers T, takers.Sorted → takers.Sided → match f takers with
    | (some t,rest) => rest.insert t = takers ∧ rest.Sorted ∧ rest.Sided
    | (none,rest) => rest = takers

omit [Std.TransOrd T] in
theorem maxByDistanceToSpot_undoable [Std.OrientedOrd T] (spot : AbsolutePrice) (range : AllowedPriceRange) :
    Undoable (maxByDistanceToSpot spot range : MarketTakers T → _) := by
  intro takers sorted sided
  have picks := maxByDistanceToSpot_picks spot range takers sided
  cases picked : maxByDistanceToSpot spot range takers with
  | mk choice rest =>
    rw [picked] at picks
    cases choice with
    | none => exact picks
    | some t =>
      have removed : rest = takers.remove t := by
        unfold maxByDistanceToSpot at picked
        grind
      refine ⟨maxByDistanceToSpot_restores spot range takers t rest sorted sided picked,?_,picks.sided⟩
      rw [removed]
      exact sorted.remove t

omit [Std.TransOrd T] in
theorem BTreeSet.insert_least {first : T} {rest : List T} (least : ∀ x ∈ rest, compare first x = .lt) : BTreeSet.insert first rest = first :: rest := by
  cases rest with
  | nil => rfl
  | cons second others =>
    unfold BTreeSet.insert
    rw [least second List.mem_cons_self]

omit [Std.TransOrd T] in
theorem tryPickTaker_undoable (s : Side) : Undoable (tryPickTaker s : MarketTakers T → _) := by
  intro takers sorted sided
  obtain ⟨asks,bids⟩ := takers
  cases s with
  | ask =>
    cases asks with
    | nil => rfl
    | cons best rest =>
      obtain ⟨least,ascending⟩ := List.pairwise_cons.mp sorted.asks
      have ask := sided.asks best List.mem_cons_self
      refine ⟨?_,⟨ascending,sorted.bids⟩,fun t member => sided.asks t (List.mem_cons_of_mem _ member),sided.bids⟩
      simp only [MarketTakers.insert,ask,BTreeSet.insert_least least]
  | bid =>
    cases bids with
    | nil => rfl
    | cons best rest =>
      obtain ⟨least,ascending⟩ := List.pairwise_cons.mp sorted.bids
      have bid := sided.bids best List.mem_cons_self
      refine ⟨?_,⟨sorted.asks,ascending⟩,sided.asks,fun t member => sided.bids t (List.mem_cons_of_mem _ member)⟩
      simp only [MarketTakers.insert,bid,BTreeSet.insert_least least]

end Takers

section Anchors
variable {T K M L U : Type} [Ord T] [MarketTaker T U] {ground : Ground T L M} {state free : TLBState T L M}

-- A state from which a rollback gets back to `ground`.
@[grind cases eager] structure Anchored (ground : Ground T L M) (state : TLBState T L M) : Prop where
  same : state.ground = ground
  settled : (∃ shown, state = .preview shown) ∨ state.activeFragments.Sorted ∧ state.activeFragments.Sided

def TLBState.Entered (state : TLBState T L M) : Prop := ∀ resting, state ≠ .idle resting

theorem Anchored.pick {f : MarketTakers T → Option T × MarketTakers T} (anchored : Anchored ground state) (undoable : Undoable f)
    (picked : state.pickActiveTaker f = (some t,free)) : Anchored ground free ∧ free.Entered := by
  obtain ⟨rfl,settled⟩ := anchored
  cases state with
  | preview shown =>
    simp only [TLBState.pickActiveTaker] at picked
    obtain ⟨_,rfl⟩ := Prod.mk.inj picked
    exact ⟨⟨rfl,.inl ⟨_,rfl⟩⟩,by rintro _ ⟨⟩⟩
  | idle resting =>
    obtain ⟨_,shown⟩ | ⟨sorted,sided⟩ := settled
    · cases shown
    have halves := undoable _ sorted sided
    simp only [TLBState.activeFragments,TLBState.pickActiveTaker] at picked halves
    cases chosen : f resting.takers.active with
    | mk choice rest =>
      rw [chosen] at picked halves
      cases choice with
      | none => cases picked
      | some taker =>
        obtain ⟨_,rfl⟩ := Prod.mk.inj picked
        obtain ⟨restored,sorted',sided'⟩ := halves
        refine ⟨⟨?_,.inr ⟨sorted',sided'⟩⟩,by rintro _ ⟨⟩⟩
        change Ground.mk {resting.takers with active:=rest.insert taker} [] resting.makers = _
        rw [restored]
        rfl
  | partialPreview busy =>
    obtain ⟨_,shown⟩ | ⟨sorted,sided⟩ := settled
    · cases shown
    have halves := undoable _ sorted sided
    simp only [TLBState.activeFragments,TLBState.pickActiveTaker] at picked halves
    cases chosen : f busy.takersPreview.active with
    | mk choice rest =>
      rw [chosen] at picked halves
      cases choice with
      | none => cases picked
      | some taker =>
        obtain ⟨_,rfl⟩ := Prod.mk.inj picked
        obtain ⟨restored,sorted',sided'⟩ := halves
        refine ⟨⟨?_,.inr ⟨sorted',sided'⟩⟩,by rintro _ ⟨⟩⟩
        have last : (busy.consumedActiveTakers ++ [taker]).reverse = taker :: busy.consumedActiveTakers.reverse := List.reverse_concat
        change Ground.mk {busy.takersPreview with active:=(busy.consumedActiveTakers ++ [taker]).reverse.foldl MarketTakers.insert rest}
          busy.stashedActiveTakers busy.makersIntact = _
        rw [last,List.foldl_cons,restored]
        rfl

theorem Anchored.pick_none {f : MarketTakers T → Option T × MarketTakers T} (anchored : Anchored ground state) (undoable : Undoable f)
    (picked : state.pickActiveTaker f = (none,free)) : Anchored ground free ∧ (state.Entered → free.Entered) := by
  obtain ⟨rfl,settled⟩ := anchored
  cases state with
  | preview shown =>
    simp only [TLBState.pickActiveTaker] at picked
    obtain ⟨_,rfl⟩ := Prod.mk.inj picked
    exact ⟨⟨rfl,.inl ⟨_,rfl⟩⟩,by rintro _ _ ⟨⟩⟩
  | idle resting =>
    obtain ⟨_,shown⟩ | ⟨sorted,sided⟩ := settled
    · cases shown
    have same := undoable _ sorted sided
    simp only [TLBState.activeFragments,TLBState.pickActiveTaker] at picked same
    cases chosen : f resting.takers.active with
    | mk choice rest =>
      rw [chosen] at picked same
      cases choice with
      | some taker => cases picked
      | none =>
        obtain ⟨_,rfl⟩ := Prod.mk.inj picked
        simp only at same
        rw [same]
        exact ⟨⟨rfl,.inr ⟨sorted,sided⟩⟩,id⟩
  | partialPreview busy =>
    obtain ⟨_,shown⟩ | ⟨sorted,sided⟩ := settled
    · cases shown
    have same := undoable _ sorted sided
    simp only [TLBState.activeFragments,TLBState.pickActiveTaker] at picked same
    cases chosen : f busy.takersPreview.active with
    | mk choice rest =>
      rw [chosen] at picked same
      cases choice with
      | some taker => cases picked
      | none =>
        obtain ⟨_,rfl⟩ := Prod.mk.inj picked
        simp only at same
        rw [same]
        exact ⟨⟨rfl,.inr ⟨sorted,sided⟩⟩,id⟩

theorem Anchored.addTaker (anchored : Anchored ground state) (t : T) : Anchored ground (state.preAddTaker t) ∧ (state.preAddTaker t).Entered := by
  have same := (preAddTaker_ground state t).trans anchored.same
  rcases preAddTaker_cases state t with ⟨_,added⟩ | added
  · rw [added] at same ⊢
    exact ⟨⟨same,.inl ⟨_,rfl⟩⟩,nofun⟩
  · rw [added] at same ⊢
    exact ⟨⟨same,.inl ⟨_,rfl⟩⟩,nofun⟩

theorem Anchored.onTake (anchored : Anchored ground state) (entered : state.Entered) (result : Next T TerminalTake) :
    Anchored ground (onTake state result) ∧ (Book.onTake state result).Entered := by
  cases result with
  | succ next => exact anchored.addTaker next
  | term _ => exact ⟨anchored,entered⟩

variable [DecidableEq L] [Stable M L]

theorem Anchored.onMake (anchored : Anchored ground state) (result : Next M Empty) :
    Anchored ground (onMake state result) ∧ (Book.onMake state result).Entered := by
  cases result with
  | succ next => exact ⟨⟨(preAddMaker_ground state next).trans anchored.same,.inl ⟨_,rfl⟩⟩,nofun⟩
  | term void => cases void

omit [Stable M L] in
theorem Anchored.takeMaker (anchored : Anchored ground state) (key : L) :
    Anchored ground (state.pickMakerById key).2 ∧ (state.pickMakerById key).2.Entered := by
  refine ⟨⟨(pickMakerById_ground state key).trans anchored.same,?_⟩,?_⟩
  · rw [pickMakerById_active]
    refine anchored.settled.imp ?_ id
    rintro ⟨shown,rfl⟩
    exact ⟨_,rfl⟩
  · cases state <;> nofun

end Anchors

section Grounds
variable {T M L U : Type} [Ord T] [MarketTaker T U] {ground : Ground T L M} {state : TLBState T L M}

-- The ground of a later round: the takers stashed so far are out.
@[grind cases eager] structure Ground.Of (start : IdleState T L M) (ground : Ground T L M) : Prop where
  takers : ground.takers = {start.takers with active:=ground.takers.active}
  left : start.takers.active.Left (· ∈ ground.stashed) ground.takers.active
  members : ∀ t ∈ ground.stashed, t ∈ start.takers.active.all
  makers : ground.makers = start.makers

variable {start : IdleState T L M}

theorem Ground.Of.first (sorted : start.takers.active.Sorted) : (TLBState.idle start).ground.Of start where
  takers := rfl
  left := MarketTakers.Left.congr ⟨.start sorted.asks,.start sorted.bids⟩ (fun x => by simp [TLBState.ground])
  members := nofun
  makers := rfl

theorem Ground.Of.anchored (of : ground.Of start) (sided : start.takers.active.Sided) : Anchored ground ground.head where
  same := head_ground ground
  settled := by
    rw [head_active]
    refine .inr ⟨⟨of.left.asks.ascending,of.left.bids.ascending⟩,fun t member => ?_,fun t member => ?_⟩
    · grind
    grind

theorem rollback_unstash (state : TLBState T L M) : state.rollback .unstash =
    .idle ⟨{state.ground.takers with active:=state.ground.stashed.foldl MarketTakers.insert state.ground.takers.active},state.ground.makers⟩ := by
  cases state <;> rfl

theorem rollback_stash (entered : state.Entered) (removed : List T) : state.rollback (.stash removed) = (state.ground.stash removed).head := by
  cases state with
  | idle resting => exact absurd rfl (entered resting)
  | partialPreview busy => rfl
  | preview shown => rfl

variable [Std.TransOrd T]

theorem Ground.Of.stash (of : ground.Of start) (sorted : start.takers.active.Sorted) (sided : start.takers.active.Sided)
    (members : ∀ t ∈ removed, t ∈ start.takers.active.all) : (ground.stash removed).Of start where
  takers := by
    unfold Ground.stash
    rw [of.takers]
  left := (of.left.removeAll sorted sided removed members).congr (fun x => List.mem_append.symm)
  members := by
    intro t member
    rcases List.mem_append.mp member with before | now
    · exact of.members t before
    · exact members t now
  makers := of.makers

theorem Ground.Of.unstash (of : ground.Of start) (sorted : start.takers.active.Sorted) (sided : start.takers.active.Sided)
    (same : state.ground = ground) : state.rollback .unstash = .idle start := by
  have whole : ground.stashed.foldl MarketTakers.insert ground.takers.active = start.takers.active :=
    (of.left.insertAll sorted sided ground.stashed of.members).whole sorted (fun x out => out.2 out.1)
  rw [rollback_unstash,same,whole,of.takers,of.makers]

end Grounds

section Loops
variable {T K M L U : Type} [DecidableEq K] [DecidableEq L] [Ord T] [Stable T K] [Stable M L] [MarketTaker T U] [TakerBehaviour T]
  [MarketMaker M T U] [MakerBehavior M T] [Add U] [Zero U] {ground : Ground T L M} {state free : TLBState T L M} {batch : MatchmakingAttempt T K M L U}

-- As long as the state is idle nothing is in the batch.
@[grind cases eager] structure Tied (ground : Ground T L M) (state : TLBState T L M) (batch : MatchmakingAttempt T K M L U) : Prop where
  anchored : Anchored ground state
  entered : state.Entered ∨ batch = .empty

def Pass.Tied (ground : Ground T L M) : Pass T K M L U → Prop
  | .next state batch => Book.Tied ground state batch
  | .stop state batch => Book.Tied ground state batch

omit [TakerBehaviour T] in
theorem matchMaker_tied (anchored : Anchored ground free) : (matchMaker taker maker free batch).Tied ground := by
  obtain ⟨back,shown⟩ := anchored.addTaker taker
  unfold matchMaker
  split
  · rename_i key preview
    split
    · obtain ⟨taken,entered⟩ := anchored.takeMaker key
      split
      · rename_i maker rest picked
        rw [picked] at taken entered
        obtain ⟨took,inside⟩ := taken.onTake entered (MakerBehavior.swapWithTaker maker taker ((side taker).wrap preview.input)).1.result
        obtain ⟨made,inside⟩ := took.onMake (MakerBehavior.swapWithTaker maker taker ((side taker).wrap preview.input)).2.result
        exact ⟨made,.inl inside⟩
      · rename_i rest picked
        rw [picked] at taken entered
        exact ⟨taken,.inl entered⟩
    · exact ⟨back,.inl shown⟩
  · exact ⟨back,.inl shown⟩

theorem matchTaker_tied (anchored : Anchored ground free) (entered : free.Entered) :
    (matchTaker o2oAllowed spot taker maker free batch).Tied ground := by
  unfold matchTaker
  split
  · split
    · split
      · rename_i counter rest picked
        obtain ⟨freed,inside⟩ := anchored.pick (tryPickTaker_undoable _) picked
        simp only
        obtain ⟨first,inside⟩ := freed.onTake inside (executeWithTaker taker counter (fun ask bid => settlePrice ask bid spot)).1.result
        obtain ⟨second,inside⟩ := first.onTake inside (executeWithTaker taker counter (fun ask bid => settlePrice ask bid spot)).2.result
        exact ⟨second,.inl inside⟩
      · rename_i rest picked
        obtain ⟨freed,inside⟩ := anchored.pick_none (tryPickTaker_undoable _) picked
        exact ⟨freed,.inl (inside entered)⟩
    · exact matchMaker_tied anchored
  · exact matchMaker_tied anchored

theorem fillStep_tied [Std.OrientedOrd T] (tied : Tied ground state batch) (step : fillStep steps o2oAllowed optimized order moment state batch = some result) :
    result.Tied ground := by
  unfold fillStep at step
  simp only at step
  split at step
  · cases step
    exact tied
  · split at step
    · rename_i rest picked
      cases step
      obtain ⟨freed,inside⟩ := tied.anchored.pick_none (maxByDistanceToSpot_undoable _ _) picked
      exact ⟨freed,tied.entered.imp_left inside⟩
    · rename_i taker free picked
      obtain ⟨maker,selected,rfl⟩ := Option.map_eq_some_iff.mp step
      obtain ⟨freed,inside⟩ := tied.anchored.pick (maxByDistanceToSpot_undoable _ _) picked
      exact matchTaker_tied freed inside

variable [LT U] [DecidableLT U] {conf : ExecutionConfig U}

theorem fillLoop_tied [Std.OrientedOrd T] (tied : Tied ground state batch) (filled : fillLoop steps conf optimized order fuel moment state batch = some (final,result)) :
    Tied ground final result := by
  induction fuel generalizing moment state batch with
  | zero => cases filled
  | succ fuel ih =>
    unfold fillLoop at filled
    split at filled
    · split at filled
      · cases filled
      · rename_i step
        exact ih (fillStep_tied tied step) filled
      · rename_i step
        cases filled
        exact fillStep_tied tied step
    · cases filled
      exact tied

-- The takers that the retries of an attempt have stashed.
def stashedTakers (steps : Nat) (conf : ExecutionConfig U) (orders : Nat → HashOrder) : Nat → Nat → Bool → TLBState T L M → List T
  | 0,_,_,_ => []
  | fuel+1,round,optimized,state =>
    match fillLoop steps conf optimized (orders round) steps 4 state (.empty : MatchmakingAttempt T K M L U) with
    | none => []
    | some (state,batch) =>
      match MatchmakingRecipe.tryFrom (orders round) conf.baseStepBudget batch with
      | .error (.unsatisfied takers) => takers ++ stashedTakers steps conf orders fuel (round+1) optimized (state.rollback (.stash takers))
      | .error .downgradeNeeded => stashedTakers steps conf orders fuel (round+1) false (state.rollback (.stash []))
      | _ => []

variable [Std.TransOrd T] {start : IdleState T L M}

theorem attemptLoop_restores {round : Nat} (sorted : start.takers.active.Sorted) (sided : start.takers.active.Sided) (of : ground.Of start)
    (initial : ∀ t ∈ stashedTakers (K := K) steps conf orders fuel round optimized ground.head, t ∈ start.takers.active.all)
    (ran : attemptLoop (K := K) steps conf orders fuel round optimized ground.head = some outcome) :
    outcome.state.rollback .unstash = .idle start ∧ (outcome.recipe = none → outcome.state = .idle start) := by
  induction fuel generalizing round optimized ground with
  | zero => cases ran
  | succ fuel ih =>
    unfold attemptLoop at ran
    unfold stashedTakers at initial
    cases filled : fillLoop steps conf optimized (orders round) steps 4 ground.head (.empty : MatchmakingAttempt T K M L U) with
    | none => grind
    | some result =>
      obtain ⟨final,batch⟩ := result
      have tied := fillLoop_tied ⟨of.anchored sided,.inr rfl⟩ filled
      have back := of.unstash sorted sided tied.anchored.same
      rw [filled] at ran initial
      simp only at ran initial
      cases made : MatchmakingRecipe.tryFrom (orders round) conf.baseStepBudget batch with
      | ok recipe => grind
      | error rejection =>
        -- a state that is still idle has nothing to be rejected for
        have entered : rejection ≠ .failed → final.Entered := fun other => tied.entered.resolve_right (refused_complete made other)
        rw [made] at ran initial
        cases rejection with
        | failed =>
          cases ran
          refine ⟨?_,fun _ => back⟩
          simp only [back]
          rfl
        | unsatisfied takers =>
          simp only [rollback_stash (entered (by rintro ⟨⟩)) takers,tied.anchored.same] at ran initial
          have next := of.stash sorted sided (fun t member => initial t (List.mem_append_left _ member))
          grind
        | downgradeNeeded =>
          simp only [rollback_stash (entered (by rintro ⟨⟩)) [],tied.anchored.same] at ran initial
          exact ih (of.stash sorted sided (fun t member => by cases member)) initial ran

-- An attempt that comes to nothing, or whose recipe fails, leaves the book as
-- it was.
theorem failed_matchmaking_restores (sorted : start.takers.active.Sorted) (sided : start.takers.active.Sided)
    (initial : ∀ t ∈ stashedTakers (K := K) fuel conf orders fuel 0 true (.idle start), t ∈ start.takers.active.all)
    (ran : attempt (K := K) fuel conf orders (.idle start) = some outcome) :
    (outcome.recipe = none → outcome.state = .idle start) ∧ outcome.state.rollback .unstash = .idle start := by
  have of : (TLBState.idle start).ground.Of start := .first sorted
  have done := attemptLoop_restores (K := K) sorted sided of initial ran
  exact ⟨done.2,done.1⟩

end Loops

section Sample
open Green Green.Recorded Pools Pools.NoEstimates

instance : Std.TransOrd GreenOrder := inferInstanceAs (Std.TransCmp
  (compareLex (compareOn (fun order : GreenOrder => order.id.accountId.bytes.bytes)) (compareLex (compareOn (fun order => order.id.targetNonceSlot))
    (compareLex (compareOn (fun order => order.id.targetNonceValue)) (compareOn (fun order => order.id.originalIntentDigest.bytes))))))

-- One lovelace for whatever it brings.
def crumb : GreenOrder := {sampleOrder with
  currentRemainder:=1,
  intention:={sampleOrder.intention with leavingAmount:=1,expectedArrivingAmount:=0,feeLovelace:=0}}

-- 100 lovelace against 40 tokens, and 50 tokens against 84 lovelace.
def seller : GreenOrder := {sampleOrder with
  id:={sampleOrder.id with originalIntentDigest:=Mpf.digestOf 11},
  intention:={sampleOrder.intention with expectedArrivingAmount:=40,feeLovelace:=0}}

def buyer : GreenOrder := {sampleOrder with
  id:={sampleOrder.id with originalIntentDigest:=Mpf.digestOf 12},
  currentRemainder:=50,
  intention:={sampleOrder.intention with
    inputAsset:=sampleOrder.intention.outputAsset,
    outputAsset:=.native,
    leavingAmount:=50,
    expectedArrivingAmount:=84,
    feeLovelace:=0}}

def evenPool : RoyaltyPool := {adaPool with y:=⟨500000000,0,0,by decide⟩}

def crossedResting : IdleState GreenOrder Account.Token RoyaltyPool := ⟨⟨0,⟨[crumb,seller],[buyer]⟩,∅⟩,AList.insert evenPool.id evenPool ∅⟩

def crossedConf : ExecutionConfig ExUnits := {adaConf with o2oAllowed:=true}

theorem crossed_sorted : crossedResting.takers.active.Sorted := by
  refine ⟨List.pairwise_pair.mpr ?_,List.pairwise_singleton ..⟩
  decide

theorem crossed_sided : crossedResting.takers.active.Sided := ⟨by decide,by decide⟩

-- The crumb gets nothing in the first round and is stashed; the recipe of the
-- second round fails.
theorem failed_matchmaking_crossed :
    stashedTakers (K := Account.Token) 8 crossedConf (fun _ => inPlace) 8 0 true (.idle crossedResting) = [crumb] ∧
    ∃ outcome, attempt (K := Account.Token) 8 crossedConf (fun _ => inPlace) (.idle crossedResting) = some outcome ∧ outcome.recipe.isSome ∧
      outcome.state.rollback .unstash = .idle crossedResting := by
  have stashed : stashedTakers (K := Account.Token) 8 crossedConf (fun _ => inPlace) 8 0 true (.idle crossedResting) = [crumb] := by decide +kernel
  have found : ((attempt (K := Account.Token) 8 crossedConf (fun _ => inPlace) (.idle crossedResting)).bind Outcome.recipe).isSome := by decide +kernel
  obtain ⟨recipe,made⟩ := Option.isSome_iff_exists.mp found
  obtain ⟨outcome,ran,given⟩ := Option.bind_eq_some_iff.mp made
  refine ⟨stashed,outcome,ran,by rw [given]; rfl,?_⟩
  have initial : ∀ t ∈ stashedTakers (K := Account.Token) 8 crossedConf (fun _ => inPlace) 8 0 true (.idle crossedResting),
      t ∈ crossedResting.takers.active.all := by
    rw [stashed]
    decide
  exact (failed_matchmaking_restores crossed_sorted crossed_sided initial ran).2

end Sample
end GreenAgent.Book
