import GreenAgent.Book.Sound

namespace GreenAgent.Book
open MarketTaker TakerBehaviour

theorem fold_best_mem (better : α → α → Prop) [DecidableRel better] {list : List α} {best : Option α}
    (found : list.foldl (fun best x => match best with
      | none => some x
      | some b => if better b x then some x else some b) best = some x) : best = some x ∨ x ∈ list := by
  induction list generalizing best with
  | nil => exact .inl found
  | cons first rest ih => grind

theorem lastMax_mem [LE β] [DecidableLE β] {key : α → β} (found : lastMax key list = some x) : x ∈ list :=
  (fold_best_mem (fun b x => key b ≤ key x) found).resolve_left nofun

theorem firstMin_mem [LT β] [DecidableLT β] {key : α → β} (found : firstMin key list = some x) : x ∈ list :=
  (fold_best_mem (fun b x => key x < key b) found).resolve_left nofun

theorem mapM_member {f : α → Option β} {list : List α} (mapped : list.mapM f = some results) (member : y ∈ results) : ∃ x ∈ list, f x = some y := by
  induction list generalizing results with
  | nil =>
    cases mapped
    cases member
  | cons first rest ih =>
    rw [List.mapM_cons] at mapped
    obtain ⟨z,one,mapped⟩ := Option.bind_eq_some_iff.mp mapped
    obtain ⟨zs,others,mapped⟩ := Option.bind_eq_some_iff.mp mapped
    grind

-- How a maker comes to be offered to a taker: for all the taker has, for a part
-- of it, or for a part at a price the maker itself does not give.
inductive Offered {T M U : Type} [MarketMaker M T U] (taker : T) (demand : Nat) (side : Side) (maker : M) : FillPreview → Prop where
  | whole (priced : MarketMaker.effectivePrice maker taker (side.wrap demand) = some quoted) : Offered taker demand side maker ⟨quoted,demand⟩
  | chunk (positive : 0 < amount) (bounded : amount ≤ demand)
      (priced : MarketMaker.effectivePrice maker taker (side.wrap amount) = some quoted) : Offered taker demand side maker ⟨quoted,amount⟩
  | estimate (positive : 0 < amount) (bounded : amount ≤ demand)
      (unpriced : MarketMaker.effectivePrice maker taker (side.wrap amount) = none) : Offered taker demand side maker ⟨quoted,amount⟩

section Offers
variable {T M L U : Type} [MarketMaker M T U]

theorem Offered.bounded {taker : T} {maker : M} (offered : Offered taker demand s maker preview) : preview.input ≤ demand := by
  cases offered with
  | whole priced => exact le_rfl
  | chunk positive bounded priced => exact bounded
  | estimate positive bounded unpriced => exact bounded

theorem Offered.positive {taker : T} {maker : M} (offered : Offered taker demand s maker preview) (demanded : 0 < demand) : 0 < preview.input := by
  cases offered with
  | whole priced => exact demanded
  | chunk positive bounded priced => exact positive
  | estimate positive bounded unpriced => exact positive

theorem searchChunk_priced {taker : T} {maker : M} (known : ∀ c p, best = some (c,p) → MarketMaker.effectivePrice maker taker (s.wrap c) = some p)
    (found : searchChunk taker limit s maker fuel low high best = some (some (c,p))) :
    MarketMaker.effectivePrice maker taker (s.wrap c) = some p := by
  induction fuel generalizing low high best with
  | zero =>
    unfold searchChunk at found
    grind
  | succ fuel ih =>
    unfold searchChunk at found
    split at found
    · simp only at found
      split at found
      · rename_i p' filtered
        refine ih (fun c p same => ?_) found
        simp_all
      · exact ih known found
    grind

variable [Stable M L]

theorem tryOptimizedSwap_offered {taker : T} {maker : M} (offer : tryOptimizedSwap fuel taker limit demand s maker = some (some (key,preview))) :
    stableId maker = key ∧ Offered taker demand s maker preview := by
  unfold tryOptimizedSwap at offer
  split at offer
  · cases offer
  · rename_i input output available
    split at offer
    · cases offer
    · rename_i absolutePrice estimated
      simp only at offer
      split at offer
      · obtain ⟨best,searched,chosen⟩ := Option.map_eq_some_iff.mp offer
        obtain ⟨⟨c,p⟩,rfl,accepted⟩ := Option.bind_eq_some_iff.mp chosen
        have priced := searchChunk_priced (by intro _ _ absent; cases absent) searched
        split at accepted
        · rename_i fits
          cases accepted
          tauto
        · cases accepted
      · have accepted := Option.some.inj offer
        split at accepted
        · rename_i fits
          cases accepted
          refine ⟨rfl,?_⟩
          cases priced : MarketMaker.effectivePrice maker taker (s.wrap input) with
          | some p =>
            rw [priced,Option.some_or] at estimated
            exact .chunk fits.1 fits.2.1 (priced.trans estimated)
          | none => exact .estimate fits.1 fits.2.1 priced
        · cases accepted

theorem dummySwap_offered {taker : T} {maker : M} (offer : dummySwap taker demand s maker = some (key,preview)) :
    stableId maker = key ∧ Offered taker demand s maker preview := by
  obtain ⟨quoted,priced,made⟩ := Option.map_eq_some_iff.mp offer
  cases made
  exact ⟨rfl,.whole priced⟩

theorem preselectMarketMaker_offered {taker : T} {pools : List M}
    (selected : preselectMarketMaker fuel pools limit demand s optimized taker = some (some (key,preview))) :
    ∃ maker ∈ pools, stableId maker = key ∧ Offered taker demand s maker preview := by
  obtain ⟨previews,computed,chosen⟩ := Option.bind_eq_some_iff.mp selected
  have among : (key,preview) ∈ (previews.filterMap id).filter (fun offer => (s.wrap limit).overlaps offer.2.price) := by
    cases s with
    | bid => exact firstMin_mem (Option.some.inj chosen)
    | ask => exact lastMax_mem (Option.some.inj chosen)
  obtain ⟨offer,inside,rfl⟩ := List.mem_filterMap.mp (List.mem_filter.mp among).1
  obtain ⟨maker,active,previewed⟩ := mapM_member computed inside
  refine ⟨maker,(List.mem_filter.mp active).1,?_⟩
  split at previewed
  · obtain ⟨tried,swapped,made⟩ := Option.map_eq_some_iff.mp previewed
    rcases Option.or_eq_some_iff.mp made with found | ⟨_,found⟩
    · rw [found] at swapped
      exact tryOptimizedSwap_offered swapped
    · exact dummySwap_offered found
  · exact dummySwap_offered (Option.some.inj previewed)

end Offers

section
variable {T K M L U : Type} [DecidableEq K] [DecidableEq L] [Ord T] [Stable T K] [Stable M L] [MarketTaker T U] [TakerBehaviour T]
  [MarketMaker M T U] [MakerBehavior M T] [Add U] [Zero U]

-- All that one pass of the filling loop can do.
inductive Passes (o2oAllowed : Bool) (P : T → Prop) (state : TLBState T L M) (batch : MatchmakingAttempt T K M L U) : Pass T K M L U → Prop where
  | rest (sound : Sound P final) : Passes o2oAllowed P state batch (.stop final batch)
  | pool (freed : Freed P state taker free) (found : state.pools.lookup key = some maker)
      (offered : Offered taker (input taker) (side taker) maker preview)
      (overlaps : ((side taker).wrap (price taker)).overlaps preview.price = true)
      (swapped : MakerBehavior.swapWithTaker maker taker ((side taker).wrap preview.input) = (take,make)) :
      Passes o2oAllowed P state batch
        (.next (onMake (onTake (free.pickMakerById key).2 take.result) make.result) ((batch.addMake make).addTake take))
  | cross (allowed : o2oAllowed = true) (freed : Freed P state taker free) (freedCounter : Freed P free counter rest)
      (sides : side counter = (side taker).not) (executed : executeWithTaker taker counter matchmaker = (first,second)) :
      Passes o2oAllowed P state batch (.next (onTake (onTake rest first.result) second.result) ((batch.addTake first).addTake second))

theorem pools_keyed {pools : MarketMakers L M} (keyed : Keyed pools) (order : HashOrder) (moment : Nat)
    (member : maker ∈ (order.reorder moment (entriesOf pools)).map Prod.snd) : pools.lookup (stableId maker) = some maker := by
  obtain ⟨⟨key,_⟩,inside,rfl⟩ := List.mem_map.mp member
  obtain ⟨⟨k,m⟩,entry,same⟩ := List.mem_map.mp ((order.perm moment _).mem_iff.mp inside)
  obtain ⟨rfl,rfl⟩ := Prod.mk.inj same
  have found := HashMap.mem_entries.mp entry
  rw [keyed k m found]
  exact found

variable {P : T → Prop} {state free : TLBState T L M} {batch : MatchmakingAttempt T K M L U} {taker : T}

omit [Zero U] in
theorem matchMaker_passes (sound : Sound P state) (freed : Freed P state taker free)
    (selected : ∀ key preview, maker = some (key,preview) →
      ∃ m, state.pools.lookup key = some m ∧ Offered taker (input taker) (side taker) m preview) :
    Passes o2oAllowed P state batch (matchMaker taker maker free batch) := by
  have back : Sound P (free.preAddTaker taker) := freed.sound.addTaker (freed.orderly sound)
  unfold matchMaker
  split
  · rename_i key preview
    obtain ⟨m,found,offered⟩ := selected key preview rfl
    split
    · rename_i overlaps
      split
      · rename_i maker taken picked
        have same := pickMakerById_found free key
        rw [picked,freed.pools,found] at same
        obtain rfl := Option.some.inj same
        have rest : (free.pickMakerById key).2 = taken := by rw [picked]
        cases swapped : MakerBehavior.swapWithTaker maker taker ((side taker).wrap preview.input) with
        | mk take make => exact rest ▸ .pool freed found offered overlaps swapped
      · rename_i taken picked
        have sound := freed.sound.takeMaker key
        rw [picked] at sound
        exact .rest sound
    · exact .rest back
  · exact .rest back

theorem pickActiveTaker_side (sound : Sound P state) (picked : state.pickActiveTaker (tryPickTaker s) = (some t,rest)) : side t = s := by
  have general : ∀ takers : MarketTakers T, takers.Sided → (tryPickTaker s takers).1 = some t → side t = s := by
    intro takers sided chosen
    exact tryPickTaker_side sided (Prod.ext chosen rfl)
  refine general state.activeFragments sound.sided ?_
  cases state with
  | idle settled =>
    simp only [TLBState.pickActiveTaker] at picked
    split at picked
    · rename_i chosen
      cases picked
      exact chosen
    · cases picked
  | partialPreview busy =>
    simp only [TLBState.pickActiveTaker] at picked
    split at picked
    · rename_i chosen
      cases picked
      exact chosen
    · cases picked
  | preview shown => exact congrArg Prod.fst picked

theorem matchTaker_passes (sound : Sound P state) (freed : Freed P state taker free)
    (selected : ∀ key preview, maker = some (key,preview) →
      ∃ m, state.pools.lookup key = some m ∧ Offered taker (input taker) (side taker) m preview) :
    Passes o2oAllowed P state batch (matchTaker o2oAllowed spot taker maker free batch) := by
  unfold matchTaker
  split
  · split
    · rename_i better
      split
      · rename_i counter rest picked
        have freedCounter := freed.sound.pick (tryPickTaker_picks _) picked
        have sides := pickActiveTaker_side freed.sound picked
        cases executed : executeWithTaker taker counter (fun ask bid => settlePrice ask bid spot) with
        | mk first second => exact .cross better.1 freed freedCounter sides executed
      · rename_i rest picked
        rw [freed.sound.pick_none (tryPickTaker_picks _) picked]
        exact .rest freed.sound
    · exact matchMaker_passes sound freed selected
  · exact matchMaker_passes sound freed selected

theorem fillStep_passes [Std.ReflOrd T] (sound : Sound P state)
    (step : fillStep fuel o2oAllowed optimized order moment state batch = some result) : Passes o2oAllowed P state batch result := by
  unfold fillStep at step
  simp only at step
  split at step
  · cases step
    exact .rest sound
  · rename_i best highest
    split at step
    · rename_i rest picked
      cases step
      rw [sound.pick_none (maxByDistanceToSpot_picks _ _) picked]
      exact .rest sound
    · rename_i taker free picked
      obtain ⟨maker,selected,rfl⟩ := Option.map_eq_some_iff.mp step
      have freed := sound.pick (maxByDistanceToSpot_picks _ _) picked
      refine matchTaker_passes sound freed (fun key preview same => ?_)
      obtain ⟨m,inside,rfl,offered⟩ := preselectMarketMaker_offered (same ▸ selected)
      exact ⟨m,pools_keyed sound.keyed order moment inside,offered⟩

end
end GreenAgent.Book
