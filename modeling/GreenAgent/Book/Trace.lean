import GreenAgent.Book.Restore

namespace GreenAgent.Book
open MarketTaker TakerBehaviour

-- Takers that compare as equal have one id.
class IdentifiedOrd (T : Type) {K : outParam Type} [Ord T] [Stable T K] : Prop where
  same : ∀ a b : T, compare a b = .eq → stableId a = stableId b

section Sets
variable {T K U : Type} [Ord T] [Stable T K] [IdentifiedOrd T] {t : T}

theorem BTreeSet.insert_perm {set : List T} (fresh : ∀ y ∈ set, stableId t ≠ stableId y) : (BTreeSet.insert t set).Perm (t :: set) := by
  induction set with
  | nil => exact .refl _
  | cons first rest ih =>
    unfold BTreeSet.insert
    split
    · exact .refl _
    · rename_i same
      exact absurd (IdentifiedOrd.same t first same) (fresh first List.mem_cons_self)
    · exact ((ih (fun y member => fresh y (List.mem_cons_of_mem _ member))).cons first).trans (List.Perm.swap ..)

variable [MarketTaker T U] {takers : MarketTakers T}

theorem MarketTakers.insert_perm (fresh : ∀ y ∈ takers.all, stableId t ≠ stableId y) : (takers.insert t).all.Perm (t :: takers.all) := by
  unfold MarketTakers.insert
  split
  · have bids := BTreeSet.insert_perm (fun y member => fresh y (List.mem_append_right _ member))
    exact (bids.append_left takers.asks).trans List.perm_middle
  · have asks := BTreeSet.insert_perm (fun y member => fresh y (List.mem_append_left _ member))
    exact asks.append_right takers.bids

end Sets

section Present
variable {T K M L U : Type}

-- The takers that go to the inactive ones when the preview is committed.
def TLBState.postponed : TLBState T L M → List T
  | .preview shown => shown.inactiveTakersChangeset.map Prod.snd
  | _ => []

-- The takers that take part in an attempt, as they are by now.
def TLBState.present (state : TLBState T L M) : List T := state.activeFragments.all ++ state.postponed

theorem head_present (ground : Ground T L M) : ground.head.present = ground.takers.active.all := by
  unfold Ground.head
  split
  · exact List.append_nil _
  · exact List.append_nil _

theorem pickActiveTaker_postponed (state : TLBState T L M) (f : MarketTakers T → Option T × MarketTakers T) :
    (state.pickActiveTaker f).2.postponed = state.postponed := by
  cases state with
  | idle resting =>
    simp only [TLBState.pickActiveTaker]
    split <;> rfl
  | partialPreview busy =>
    simp only [TLBState.pickActiveTaker]
    split <;> rfl
  | preview shown => rfl

theorem pickMakerById_present [DecidableEq L] (state : TLBState T L M) (key : L) : (state.pickMakerById key).2.present = state.present := by
  cases state <;> rfl

theorem tryPickTaker_priced [MarketTaker T U] {state : TLBState T L M} (best : state.bestTakerPrice s = some counter)
    (picked : state.pickActiveTaker (tryPickTaker s) = (none,rest)) : False := by
  have chosen : (tryPickTaker s state.activeFragments).1 = none := by
    cases state with
    | idle resting =>
      simp only [TLBState.pickActiveTaker] at picked
      split at picked
      · cases picked
      · rename_i absent
        exact absent
    | partialPreview busy =>
      simp only [TLBState.pickActiveTaker] at picked
      split at picked
      · cases picked
      · rename_i absent
        exact absent
    | preview shown => exact congrArg Prod.fst picked
  unfold TLBState.bestTakerPrice at best
  cases s with
  | bid =>
    cases bids : state.activeFragments.bids with
    | nil => simp [MarketTakers.onSide,bids] at best
    | cons first others => simp [tryPickTaker,bids] at chosen
  | ask =>
    cases asks : state.activeFragments.asks with
    | nil => simp [MarketTakers.onSide,asks] at best
    | cons first others => simp [tryPickTaker,asks] at chosen

variable [Ord T] [MarketTaker T U] {state free : TLBState T L M} {t : T}

theorem shown_present (state : TLBState T L M) : (TLBState.preview state.moveIntoPreview).present = state.present := by
  cases state <;> rfl

theorem preAddMaker_present [DecidableEq L] [Stable M L] (state : TLBState T L M) (maker : M) : (state.preAddMaker maker).present = state.present :=
  shown_present state

theorem onMake_present [DecidableEq L] [Stable M L] (state : TLBState T L M) (result : Next M Empty) : (onMake state result).present = state.present := by
  cases result with
  | succ next => exact preAddMaker_present state next
  | term void => cases void

variable [Stable T K]

theorem Freed.present [DecidableEq L] [Stable M L] {P : T → Prop} (freed : Freed P state t free) (same : free.postponed = state.postponed) :
    state.present.Perm (t :: free.present) := by
  unfold TLBState.present
  rw [same]
  exact freed.split.append_right _

variable [IdentifiedOrd T]

theorem preAddTaker_present (fresh : ∀ y ∈ state.present, stableId t ≠ stableId y) : (state.preAddTaker t).present.Perm (t :: state.present) := by
  have inserted : (TLBState.preview {state.moveIntoPreview with
      activeTakersPreview:=state.moveIntoPreview.activeTakersPreview.insert t}).present.Perm (t :: state.present) := by
    rw [← shown_present state] at fresh ⊢
    exact List.Perm.append_right _ (MarketTakers.insert_perm (fun y member => fresh y (List.mem_append_left _ member)))
  unfold TLBState.preAddTaker
  simp only
  split
  · split
    · rw [← shown_present state]
      unfold TLBState.present TLBState.postponed
      simp only [List.map_append,List.map_cons,List.map_nil]
      rw [← List.append_assoc]
      exact List.perm_append_singleton ..
    · exact inserted
  · exact inserted

theorem onTake_present {result : Next T TerminalTake} (fits : Orderly (fun _ => True) (result.successors ++ state.present)) :
    (onTake state result).present.Perm (result.successors ++ state.present) := by
  cases result with
  | succ next => exact preAddTaker_present (orderly_cons.mp fits).1
  | term _ => exact .refl _

end Present

theorem mem_successors {result : Next S E} : x ∈ result.successors ↔ result = .succ x := by
  cases result with
  | succ next => simp [Next.successors,eq_comm]
  | term _ => simp [Next.successors]

-- What has become of the takers a round started with: those in no take are as
-- they were, the others are what their take made of them.
@[grind cases eager] structure Traced [DecidableEq K] [Stable T K] (started present : List T) (batch : MatchmakingAttempt T K M L U) : Prop where
  orderly : Orderly (fun _ => True) present
  key : ∀ key take, batch.takes.lookup key = some take → stableId take.target = key
  target : ∀ key take, batch.takes.lookup key = some take → take.target ∈ started
  next : ∀ key take next, batch.takes.lookup key = some take → take.result = .succ next → stableId next = key
  members : ∀ x, x ∈ present ↔ x ∈ started ∧ batch.takes.lookup (stableId x) = none ∨
    ∃ take, batch.takes.lookup (stableId x) = some take ∧ take.result = .succ x
  ordered : batch.ordering.Perm batch.takes.keys

namespace Traced
variable {T K M L U : Type} [DecidableEq K] [Stable T K] {started present other : List T} {batch : MatchmakingAttempt T K M L U}

theorem start [Zero U] (orderly : Orderly (fun _ => True) started) : Traced started started (.empty : MatchmakingAttempt T K M L U) where
  orderly := orderly
  key := by tauto
  target := by tauto
  next := by tauto
  members := by tauto
  ordered := .refl _

theorem perm (traced : Traced started present batch) (perm : present.Perm other) : Traced started other batch :=
  {traced with
    orderly := traced.orderly.perm perm
    members := fun x => perm.mem_iff.symm.trans (traced.members x)}

theorem addMake [DecidableEq L] [Stable M L] [MarketMaker M T U] [Add U] (traced : Traced started present batch) (make : MakeInProgress M) :
    Traced started present (batch.addMake make) := by
  have takes := MatchmakingAttempt.addMake_takes batch make
  refine ⟨traced.orderly,?_,?_,?_,?_,?_⟩
  · rw [takes]
    exact traced.key
  · rw [takes]
    exact traced.target
  · rw [takes]
    exact traced.next
  · rw [takes]
    exact traced.members
  · rw [takes,MatchmakingAttempt.addMake_ordering]
    exact traced.ordered

variable [MarketTaker T U] [TakerBehaviour T] [LawfulTaker T] [Add U] {t : T} {free : List T}

theorem addTake (traced : Traced started (t :: free) batch) (bounded : removed ≤ input t) :
    Traced started ((withAppliedTrade t removed added).successors ++ free) (batch.addTake ⟨t,withAppliedTrade t removed added⟩) := by
  have apart := (orderly_cons.mp traced.orderly).1
  have lookup : ∀ key, (batch.addTake ⟨t,withAppliedTrade t removed added⟩).takes.lookup key =
      if key = stableId t then some (batch.merged ⟨t,withAppliedTrade t removed added⟩) else batch.takes.lookup key := by
    intro key
    rw [MatchmakingAttempt.addTake_takes,HashMap.lookup_insert]
  have result := merged_result batch ⟨t,withAppliedTrade t removed added⟩
  -- the taker is as it was at the start or the last state of an earlier take
  have target : stableId (batch.merged ⟨t,withAppliedTrade t removed added⟩).target = stableId t ∧
      (batch.merged ⟨t,withAppliedTrade t removed added⟩).target ∈ started := by
    unfold MatchmakingAttempt.merged
    cases found : batch.takes.lookup (stableId t) with
    | some existing => exact ⟨traced.key _ existing found,traced.target _ existing found⟩
    | none => grind
  refine ⟨traced.orderly.traded (fun _ _ _ _ _ _ _ => trivial) bounded,?_,?_,?_,?_,MatchmakingAttempt.addTake_ordered traced.ordered _⟩
  · grind
  · grind
  · intro key take next found became
    rw [lookup] at found
    split at found
    · rename_i same
      cases found
      exact ((LawfulTaker.trade_same t next removed added (result.symm.trans became)).1).trans same.symm
    grind
  · intro x
    rw [lookup,List.mem_append,mem_successors]
    by_cases same : stableId x = stableId t
    · grind
    · rw [if_neg same,← traced.members x,List.mem_cons]
      constructor
      · rintro (became | member)
        · exact absurd (LawfulTaker.trade_same t x removed added became).1 same
        · exact .inr member
      grind

end Traced

section Passes
variable {T K M L U : Type} [DecidableEq K] [DecidableEq L] [Ord T] [Stable T K] [Stable M L] [MarketTaker T U] {started : List T}
  {state free : TLBState T L M} {batch : MatchmakingAttempt T K M L U}

-- The takers the round started with are accounted for.
@[grind cases eager] structure Accounts (started : List T) (state : TLBState T L M) (batch : MatchmakingAttempt T K M L U) : Prop where
  sound : Sound (fun _ => True) state
  traced : Traced started state.present batch

def Pass.Accounts (started : List T) : Pass T K M L U → Prop
  | .next state batch => Book.Accounts started state batch
  | .stop state batch => Book.Accounts started state batch

theorem Accounts.onTake [IdentifiedOrd T] {result : Next T TerminalTake} (sound : Sound (fun _ => True) free)
    (traced : Traced started (result.successors ++ free.present) batch) : Accounts started (onTake free result) batch where
  sound := by
    refine sound.onTake (traced.orderly.mono (List.Sublist.subperm ?_))
    exact List.Sublist.append_left (List.sublist_append_left ..) _
  traced := traced.perm (onTake_present traced.orderly).symm

-- A taker has been picked and is still to be dealt with.
@[grind cases eager] structure Held (started : List T) (t : T) (state : TLBState T L M) (batch : MatchmakingAttempt T K M L U) : Prop where
  sound : Sound (fun _ => True) state
  traced : Traced started (t :: state.present) batch

theorem Accounts.pick {f : MarketTakers T → Option T × MarketTakers T} (accounts : Accounts started state batch) (picks : Picks f)
    (picked : state.pickActiveTaker f = (some t,free)) : Held started t free batch := by
  have freed := accounts.sound.pick picks picked
  have postponed := pickActiveTaker_postponed state f
  rw [picked] at postponed
  exact ⟨freed.sound,accounts.traced.perm (freed.present postponed)⟩

theorem Held.back [IdentifiedOrd T] (held : Held started t free batch) : Accounts started (free.preAddTaker t) batch := by
  have again : Accounts started (Book.onTake free (.succ t)) batch := .onTake held.sound held.traced
  exact again

theorem Held.onTake [IdentifiedOrd T] {result : Next T TerminalTake} (sound : Sound (fun _ => True) free)
    (traced : Traced started (t :: (result.successors ++ free.present)) batch) : Held started t (onTake free result) batch := by
  have others := (orderly_cons.mp traced.orderly).2.2
  have active : Orderly (fun _ => True) (result.successors ++ free.activeFragments.all) :=
    others.mono (List.Sublist.append_left (List.sublist_append_left ..) _).subperm
  exact ⟨sound.onTake active,traced.perm ((onTake_present others).symm.cons t)⟩

variable [TakerBehaviour T] [MarketMaker M T U] [MakerBehavior M T] [Add U]

theorem crossed_takers {target counter : T} (executed : executeWithTaker target counter matchmaker = (first,second)) :
    ∃ ask bid base quote, [ask,bid].Perm [target,counter] ∧ base ≤ input ask ∧ quote ≤ input bid ∧
      first = ⟨ask,withAppliedTrade ask base quote⟩ ∧ second = ⟨bid,withAppliedTrade bid quote base⟩ := by
  unfold executeWithTaker at executed
  split at executed
  · obtain ⟨base,quote,facts⟩ := crossTakers_cases executed
    exact ⟨target,counter,base,quote,.refl _,facts⟩
  · obtain ⟨base,quote,facts⟩ := crossTakers_cases executed
    exact ⟨counter,target,base,quote,.swap ..,facts⟩

variable [IdentifiedOrd T] [LawfulTaker T]

omit [MarketMaker M T U] [MakerBehavior M T] in
theorem Held.trade (held : Held started t free batch) (bounded : removed ≤ input t) :
    Accounts started (Book.onTake free (withAppliedTrade t removed added)) (batch.addTake ⟨t,withAppliedTrade t removed added⟩) :=
  .onTake held.sound (held.traced.addTake bounded)

theorem matchMaker_accounts [DefaultSwaps M T] (held : Held started taker free batch)
    (selected : ∀ key preview, maker = some (key,preview) →
      ∃ m, free.pools.lookup key = some m ∧ Offered taker (input taker) (side taker) m preview) :
    (matchMaker taker maker free batch).Accounts started := by
  unfold matchMaker
  split
  · rename_i key preview
    obtain ⟨m,found,offered⟩ := selected key preview rfl
    split
    · have same := pickMakerById_found free key
      have sound := held.sound.takeMaker key
      have present := pickMakerById_present free key
      split
      · rename_i maker taken picked
        rw [picked] at sound present
        simp only [DefaultSwaps.deals]
        have swapped := held.traced.addMake (defaultSwapWithTaker maker taker ((side taker).wrap preview.input)).2
        have amount : ((side taker).wrap preview.input).unwrap ≤ input taker := by
          refine Eq.trans_le ?_ offered.bounded
          cases side taker <;> rfl
        rw [← present] at swapped
        have took : Accounts started (Book.onTake taken (defaultSwapWithTaker maker taker ((side taker).wrap preview.input)).1.result)
            ((batch.addMake (defaultSwapWithTaker maker taker ((side taker).wrap preview.input)).2).addTake
              (defaultSwapWithTaker maker taker ((side taker).wrap preview.input)).1) := Held.trade ⟨sound,swapped⟩ amount
        exact ⟨took.sound.onMake _,by rw [onMake_present]; exact took.traced⟩
      grind
    · exact held.back
  · exact held.back

variable [DefaultSwaps M T]

theorem matchTaker_accounts (held : Held started taker free batch)
    (selected : ∀ key preview, maker = some (key,preview) →
      ∃ m, free.pools.lookup key = some m ∧ Offered taker (input taker) (side taker) m preview) :
    (matchTaker o2oAllowed spot taker maker free batch).Accounts started := by
  unfold matchTaker
  split
  · rename_i counter best
    split
    · split
      · rename_i counterTaker rest picked
        cases executed : executeWithTaker taker counterTaker (fun ask bid => settlePrice ask bid spot) with
        | mk first second =>
          obtain ⟨ask,bid,base,quote,pair,supplied,paid,rfl,rfl⟩ := crossed_takers executed
          have freed := held.sound.pick (tryPickTaker_picks _) picked
          have postponed := pickActiveTaker_postponed free (tryPickTaker (side taker).not)
          rw [picked] at postponed
          have both : (taker :: free.present).Perm (ask :: bid :: rest.present) :=
            ((freed.present postponed).cons taker).trans (pair.symm.append_right rest.present)
          have one : Traced started ((withAppliedTrade ask base quote).successors ++ bid :: rest.present)
              (batch.addTake ⟨ask,withAppliedTrade ask base quote⟩) := (held.traced.perm both).addTake supplied
          exact (Held.onTake freed.sound (one.perm List.perm_middle)).trade paid
      · rename_i rest picked
        exact (tryPickTaker_priced best picked).elim
    · exact matchMaker_accounts held selected
  · exact matchMaker_accounts held selected

variable [Std.ReflOrd T]

theorem fillStep_accounts (accounts : Accounts started state batch)
    (step : fillStep steps o2oAllowed optimized order moment state batch = some result) : result.Accounts started := by
  unfold fillStep at step
  simp only at step
  split at step
  · cases step
    exact accounts
  · split at step
    · rename_i rest picked
      cases step
      rw [accounts.sound.pick_none (maxByDistanceToSpot_picks _ _) picked]
      exact accounts
    · rename_i taker free picked
      obtain ⟨maker,selected,rfl⟩ := Option.map_eq_some_iff.mp step
      have pools := (accounts.sound.pick (maxByDistanceToSpot_picks _ _) picked).pools
      refine matchTaker_accounts (accounts.pick (maxByDistanceToSpot_picks _ _) picked) (fun key preview same => ?_)
      obtain ⟨m,inside,rfl,offered⟩ := preselectMarketMaker_offered (same ▸ selected)
      exact ⟨m,pools ▸ pools_keyed accounts.sound.keyed order moment inside,offered⟩

variable [LT U] [DecidableLT U] {conf : ExecutionConfig U}

theorem fillLoop_accounts (accounts : Accounts started state batch)
    (filled : fillLoop steps conf optimized order fuel moment state batch = some (final,result)) : Accounts started final result := by
  induction fuel generalizing moment state batch with
  | zero => cases filled
  | succ fuel ih =>
    unfold fillLoop at filled
    split at filled
    · split at filled
      · cases filled
      · rename_i step
        exact ih (fillStep_accounts accounts step) filled
      · rename_i step
        cases filled
        exact fillStep_accounts accounts step
    · cases filled
      exact accounts

end Passes

end GreenAgent.Book
