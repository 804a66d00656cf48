import GreenAgent.Book.Run

namespace GreenAgent.Book
open MarketTaker TakerBehaviour

section Search
variable {T M L U : Type} [MarketMaker M T U] {taker : T} {maker : M}

theorem searchChunk_more (found : searchChunk taker limit s maker fuel low high best = some result) (more : fuel ≤ fuel') :
    searchChunk taker limit s maker fuel' low high best = some result := by
  induction fuel generalizing fuel' low high best with
  | zero =>
    unfold searchChunk at found
    split at found
    · cases found
    · rename_i finished
      unfold searchChunk
      grind
  | succ fuel ih =>
    obtain ⟨fuel',rfl⟩ : ∃ n, fuel' = n+1 := ⟨fuel'-1,by omega⟩
    unfold searchChunk at found ⊢
    grind

theorem searchChunk_ends (small : high < U64.max) (enough : high ≤ fuel + low) : ∃ found, searchChunk taker limit s maker fuel low high best = some found := by
  induction fuel generalizing low high best with
  | zero =>
    unfold searchChunk
    simp_all
  | succ fuel ih =>
    unfold searchChunk
    split
    · rename_i going
      have size : (high - low + 1) % 2^64 = high - low + 1 := Nat.mod_eq_of_lt (by unfold U64.max at small; omega)
      have back : ∀ c, 0 < c → c ≤ high → (c + (2^64 - 1)) % 2^64 = c - 1 := by
        intro c positive bounded
        unfold U64.max at small
        omega
      simp only [size]
      split
      · exact ih small (by omega)
      · rw [back _ (by omega) (by omega)]
        exact ih (by omega) (by omega)
    · exact ⟨_,rfl⟩

theorem searchChunk_endless : searchChunk taker limit s maker fuel 0 U64.max best = none := by
  induction fuel generalizing best with
  | zero => rfl
  | succ fuel ih =>
    unfold searchChunk
    rw [if_pos (by decide)]
    have middle : 0 + (U64.max - 0 + 1) % 2^64 / 2 = 0 := by decide
    have back : (0 + (2^64 - 1)) % 2^64 = U64.max := by decide
    simp only [middle,back]
    split
    · exact ih
    · exact ih

-- The price that is tried first.
def firstPrice (taker : T) (s : Side) (maker : M) (available : AvailableLiquidity) : Option AbsolutePrice :=
  (MarketMaker.effectivePrice maker taker (s.wrap available.input)).or (match s with
    | .bid => AbsolutePrice.new available.input available.output
    | .ask => AbsolutePrice.new available.output available.input)

variable [MarketTaker T U]

-- The search starts on the whole of `u64`.
def SearchesAll (taker : T) (maker : M) : Prop :=
  ∃ available quoted, MarketMaker.availableLiquidityOnSide T maker ((side taker).wrap (price taker)) = some available ∧
    firstPrice taker (side taker) maker available = some quoted ∧ available.input = U64.max ∧ input taker = U64.max ∧
    ((side taker).wrap (price taker)).overlaps quoted = false

variable [Stable M L]

omit [MarketTaker T U] in
theorem tryOptimizedSwap_more (found : tryOptimizedSwap (L := L) fuel taker limit demand s maker = some result) (more : fuel ≤ fuel') :
    tryOptimizedSwap fuel' taker limit demand s maker = some result := by
  unfold tryOptimizedSwap at found ⊢
  split
  · grind
  · rename_i amount output available
    rw [available] at found
    simp only at found ⊢
    split
    · grind
    · rename_i quoted priced
      rw [priced] at found
      simp only at found ⊢
      split
      · rename_i starts
        rw [if_pos starts] at found
        obtain ⟨best,searched,made⟩ := Option.map_eq_some_iff.mp found
        exact Option.map_eq_some_iff.mpr ⟨best,searchChunk_more searched more,made⟩
      grind

theorem tryOptimizedSwap_ends (small : ∀ t : T, input t ≤ U64.max) (enough : U64.max ≤ fuel) (ends : ¬SearchesAll taker maker) :
    ∃ offer, tryOptimizedSwap (L := L) fuel taker (price taker) (input taker) (side taker) maker = some offer := by
  unfold tryOptimizedSwap
  split
  · exact ⟨_,rfl⟩
  · rename_i amount output available
    split
    · exact ⟨_,rfl⟩
    · rename_i quoted priced
      simp only
      split
      · rename_i starts
        have less : amount < U64.max := by
          by_contra large
          have whole : amount = U64.max := le_antisymm (le_trans starts.2.1 (small taker)) (not_lt.mp large)
          exact ends ⟨⟨amount,output⟩,quoted,available,priced,whole,le_antisymm (small taker) (whole ▸ starts.2.1),starts.2.2⟩
        have searched : ∃ best, searchChunk taker (price taker) (side taker) maker fuel 0 amount none = some best := searchChunk_ends less (by omega)
        simp_all
      · exact ⟨_,rfl⟩

theorem tryOptimizedSwap_endless (searches : SearchesAll taker maker) :
    tryOptimizedSwap (L := L) fuel taker (price taker) (input taker) (side taker) maker = none := by
  obtain ⟨⟨amount,output⟩,quoted,available,priced,whole,demand,apart⟩ := searches
  unfold firstPrice at priced
  unfold tryOptimizedSwap
  rw [available]
  simp only at priced whole ⊢
  split
  · grind
  · rename_i offered same
    obtain rfl := Option.some.inj (priced.symm.trans same)
    rw [if_pos ⟨by rw [whole]; decide,by omega,apart⟩,whole,searchChunk_endless]
    rfl

end Search

section Lists

theorem mapM_each {f : α → Option β} {list : List α} (mapped : list.mapM f = some results) (member : x ∈ list) : ∃ y, f x = some y := by
  induction list generalizing results with
  | nil => cases member
  | cons first rest ih =>
    rw [List.mapM_cons] at mapped
    obtain ⟨z,one,mapped⟩ := Option.bind_eq_some_iff.mp mapped
    obtain ⟨zs,others,_⟩ := Option.bind_eq_some_iff.mp mapped
    grind

theorem mapM_total {f : α → Option β} {list : List α} (total : ∀ x ∈ list, ∃ y, f x = some y) : ∃ results, list.mapM f = some results := by
  induction list with
  | nil => exact ⟨[],rfl⟩
  | cons first rest ih =>
    obtain ⟨y,one⟩ := total first List.mem_cons_self
    obtain ⟨ys,others⟩ := ih (fun x member => total x (List.mem_cons_of_mem _ member))
    grind

theorem mapM_more {f g : α → Option β} {list : List α} (more : ∀ x y, f x = some y → g x = some y) (mapped : list.mapM f = some results) :
    list.mapM g = some results := by
  induction list generalizing results with
  | nil => exact mapped
  | cons first rest ih =>
    rw [List.mapM_cons] at mapped ⊢
    obtain ⟨z,one,mapped⟩ := Option.bind_eq_some_iff.mp mapped
    obtain ⟨zs,others,made⟩ := Option.bind_eq_some_iff.mp mapped
    grind

end Lists

section Selection
variable {T M L U : Type} [Stable M L] [MarketMaker M T U]

def makersInOrder (order : HashOrder) (moment : Nat) (state : TLBState T L M) : List M := (order.reorder moment (entriesOf state.pools)).map Prod.snd

theorem preselectMarketMaker_more {pools : List M} {taker : T}
    (found : preselectMarketMaker (L := L) fuel pools limit demand s optimized taker = some result) (more : fuel ≤ fuel') :
    preselectMarketMaker fuel' pools limit demand s optimized taker = some result := by
  obtain ⟨previews,computed,chosen⟩ := Option.bind_eq_some_iff.mp found
  refine Option.bind_eq_some_iff.mpr ⟨previews,mapM_more (fun maker offer previewed => ?_) computed,chosen⟩
  split at previewed
  · rename_i searching
    obtain ⟨tried,swapped,made⟩ := Option.map_eq_some_iff.mp previewed
    rw [if_pos searching]
    exact Option.map_eq_some_iff.mpr ⟨tried,tryOptimizedSwap_more swapped more,made⟩
  grind

variable [MarketTaker T U]

theorem preselectMarketMaker_ends (small : ∀ t : T, input t ≤ U64.max) {pools : List M} {taker : T} (enough : U64.max ≤ fuel)
    (ends : optimized = true → ∀ maker ∈ pools, MarketMaker.isActive T maker = true → ¬SearchesAll taker maker) :
    ∃ maker, preselectMarketMaker (L := L) fuel pools (price taker) (input taker) (side taker) optimized taker = some maker := by
  have every : ∃ previews, (pools.filter (MarketMaker.isActive T)).mapM (fun maker =>
      if optimized then (tryOptimizedSwap (L := L) fuel taker (price taker) (input taker) (side taker) maker).map
        (fun offer => offer.or (dummySwap taker (input taker) (side taker) maker))
      else some (dummySwap taker (input taker) (side taker) maker)) = some previews := by
    refine mapM_total (fun maker member => ?_)
    obtain ⟨inside,active⟩ := List.mem_filter.mp member
    split
    · rename_i searching
      obtain ⟨offer,tried⟩ := tryOptimizedSwap_ends (L := L) small enough (ends searching maker inside active)
      grind
    · exact ⟨_,rfl⟩
  obtain ⟨previews,computed⟩ := every
  exact ⟨_,Option.bind_eq_some_iff.mpr ⟨previews,computed,rfl⟩⟩

theorem preselectMarketMaker_endless {pools : List M} {maker : M} {taker : T} (member : maker ∈ pools) (active : MarketMaker.isActive T maker = true)
    (searches : SearchesAll taker maker) :
    preselectMarketMaker (L := L) fuel pools (price taker) (input taker) (side taker) true taker = none := by
  cases found : preselectMarketMaker (L := L) fuel pools (price taker) (input taker) (side taker) true taker with
  | none => rfl
  | some result =>
    obtain ⟨previews,computed,_⟩ := Option.bind_eq_some_iff.mp found
    obtain ⟨offer,previewed⟩ := mapM_each computed (List.mem_filter.mpr ⟨member,active⟩)
    rw [if_pos rfl,tryOptimizedSwap_endless searches] at previewed
    cases previewed

-- The taker picked next and an active maker make the search start on the whole
-- of `u64`.
def Stalls [Ord T] (order : HashOrder) (moment : Nat) (state : TLBState T L M) : Prop :=
  ∃ best taker free, ∃ maker ∈ makersInOrder order moment state,
    lastMax (MarketMaker.quality T) (makersInOrder order moment state) = some best ∧
    state.pickActiveTaker (maxByDistanceToSpot (MarketMaker.staticPrice T best) state.allowedPriceRange) = (some taker,free) ∧
    MarketMaker.isActive T maker = true ∧ SearchesAll taker maker

end Selection

section Filling
variable {T K M L U : Type} [DecidableEq K] [DecidableEq L] [Ord T] [Stable T K] [Stable M L] [MarketTaker T U] [TakerBehaviour T]
  [MarketMaker M T U] [MakerBehavior M T] [Add U]

section Steps
variable {state : TLBState T L M} {batch : MatchmakingAttempt T K M L U}

theorem fillStep_more (found : fillStep fuel o2oAllowed optimized order moment state batch = some result) (more : fuel ≤ fuel') :
    fillStep fuel' o2oAllowed optimized order moment state batch = some result := by
  unfold fillStep at found ⊢
  simp only at found ⊢
  split at found
  · exact found
  · split at found
    · exact found
    · obtain ⟨maker,selected,made⟩ := Option.map_eq_some_iff.mp found
      exact Option.map_eq_some_iff.mpr ⟨maker,preselectMarketMaker_more selected more,made⟩

theorem fillStep_ends (small : ∀ t : T, input t ≤ U64.max) (enough : U64.max ≤ fuel) (ends : optimized = true → ¬Stalls order moment state) :
    ∃ result, fillStep fuel o2oAllowed optimized order moment state batch = some result := by
  unfold fillStep
  simp only
  split
  · exact ⟨_,rfl⟩
  · rename_i best highest
    split
    · exact ⟨_,rfl⟩
    · rename_i taker free picked
      have ended : ∃ maker, preselectMarketMaker (L := L) fuel (makersInOrder order moment state) (price taker) (input taker) (side taker) optimized taker =
          some maker :=
        preselectMarketMaker_ends small enough
          (fun searching maker inside active searches => ends searching ⟨best,taker,free,maker,inside,highest,picked,active,searches⟩)
      obtain ⟨maker,selected⟩ := ended
      exact ⟨_,Option.map_eq_some_iff.mpr ⟨maker,selected,rfl⟩⟩

theorem fillStep_endless (stalls : Stalls order moment state) : fillStep fuel o2oAllowed true order moment state batch = none := by
  obtain ⟨best,taker,free,maker,inside,highest,picked,active,searches⟩ := stalls
  have unselected : preselectMarketMaker (L := L) fuel (makersInOrder order moment state) (price taker) (input taker) (side taker) true taker = none :=
    preselectMarketMaker_endless inside active searches
  unfold makersInOrder at highest unselected
  unfold fillStep
  grind

theorem fillStep_unique (found : fillStep fuel o2oAllowed optimized order moment state batch = some result)
    (again : fillStep fuel' o2oAllowed optimized order moment state batch = some result') : result' = result := by
  have one := fillStep_more found (Nat.le_max_left fuel fuel')
  have two := fillStep_more again (Nat.le_max_right fuel fuel')
  grind

variable [LT U] [DecidableLT U]

theorem fillLoop_more {conf : ExecutionConfig U} (found : fillLoop steps conf optimized order fuel moment state batch = some result)
    (moreSteps : steps ≤ steps') (more : fuel ≤ fuel') : fillLoop steps' conf optimized order fuel' moment state batch = some result := by
  induction fuel generalizing fuel' moment state batch with
  | zero => cases found
  | succ fuel ih =>
    obtain ⟨fuel',rfl⟩ : ∃ n, fuel' = n+1 := ⟨fuel'-1,by omega⟩
    unfold fillLoop at found ⊢
    split at found
    · rename_i room
      rw [if_pos room]
      split at found
      · cases found
      · rename_i next batch' step
        rw [fillStep_more step moreSteps]
        exact ih found (by omega)
      · rename_i stopped batch' step
        rw [fillStep_more step moreSteps]
        exact found
    grind

end Steps

variable [Zero U] [LT U]

def MatchmakingAttempt.HasRoom (batch : MatchmakingAttempt T K M L U) (conf : ExecutionConfig U) : Prop :=
  batch.executionUnitsConsumed < conf.executionCap.soft ∧ batch.numTakes < 15

-- The passes of one filling loop.
inductive Filling (conf : ExecutionConfig U) (optimized : Bool) (order : HashOrder) (head : TLBState T L M) :
    Nat → TLBState T L M → MatchmakingAttempt T K M L U → Prop where
  | start : Filling conf optimized order head 4 head .empty
  | pass (earlier : Filling conf optimized order head moment state batch) (room : batch.HasRoom conf)
      (step : fillStep steps conf.o2oAllowed optimized order moment state batch = some (.next next batch')) :
      Filling conf optimized order head (moment+1) next batch'

variable [DecidableLT U] {conf : ExecutionConfig U} {head state : TLBState T L M} {batch : MatchmakingAttempt T K M L U}

def Filled (conf : ExecutionConfig U) (optimized : Bool) (order : HashOrder) (head final : TLBState T L M) (batch : MatchmakingAttempt T K M L U) : Prop :=
  ∃ steps fuel, fillLoop steps conf optimized order fuel 4 head .empty = some (final,batch)

theorem Filled.unique {final final' : TLBState T L M} {batch' : MatchmakingAttempt T K M L U}
    (filled : Filled conf optimized order head final batch)
    (found : fillLoop steps conf optimized order fuel 4 head .empty = some (final',batch')) : final' = final ∧ batch' = batch := by
  obtain ⟨steps',fuel',again⟩ := filled
  have one := fillLoop_more found (Nat.le_max_left steps steps') (Nat.le_max_left fuel fuel')
  have two := fillLoop_more again (Nat.le_max_right steps steps') (Nat.le_max_right fuel fuel')
  grind

theorem fillLoop_ends (small : ∀ t : T, input t ≤ U64.max) {measure : TLBState T L M → Nat} {Inv : TLBState T L M → Prop}
    (kept : ∀ steps moment (state : TLBState T L M) (batch : MatchmakingAttempt T K M L U) next batch', Inv state →
      fillStep steps conf.o2oAllowed optimized order moment state batch = some (.next next batch') → Inv next ∧ measure next < measure state)
    (ends : ∀ moment state (batch : MatchmakingAttempt T K M L U), Filling conf optimized order head moment state batch →
      batch.HasRoom conf → optimized = true → ¬Stalls order moment state)
    (enough : U64.max ≤ steps) (holds : Inv state) (filling : Filling conf optimized order head moment state batch) (long : measure state < fuel) :
    ∃ result, fillLoop steps conf optimized order fuel moment state batch = some result := by
  induction fuel generalizing moment state batch with
  | zero => omega
  | succ fuel ih =>
    unfold fillLoop
    split
    · rename_i room
      have ended : ∃ result, fillStep steps conf.o2oAllowed optimized order moment state batch = some result :=
        fillStep_ends small enough (ends moment state batch filling room)
      obtain ⟨result,step⟩ := ended
      rw [step]
      cases result with
      | stop final batch' => exact ⟨_,rfl⟩
      | next next batch' =>
        obtain ⟨holds',less⟩ := kept steps moment state batch next batch' holds step
        exact ih holds' (.pass filling room step) (by omega)
    · exact ⟨_,rfl⟩

theorem Filling.back (filling : Filling conf optimized order head moment state batch)
    (stuck : ∀ fuel, fillLoop steps conf optimized order fuel moment state batch = none) (fuel : Nat) :
    fillLoop steps conf optimized order fuel 4 head (.empty : MatchmakingAttempt T K M L U) = none := by
  induction filling with
  | start => exact stuck fuel
  | @pass moment state batch steps' next batch' earlier room step ih =>
    refine ih (fun fuel => ?_)
    cases fuel with
    | zero => rfl
    | succ fuel =>
      unfold MatchmakingAttempt.HasRoom at room
      unfold fillLoop
      rw [if_pos room]
      cases stepped : fillStep steps conf.o2oAllowed optimized order moment state batch with
      | none => rfl
      | some result =>
        obtain rfl := fillStep_unique step stepped
        exact stuck fuel

theorem Filling.endless (filling : Filling conf true order head moment state batch) (room : batch.HasRoom conf) (stalls : Stalls order moment state)
    (fuel : Nat) : fillLoop steps conf true order fuel 4 head (.empty : MatchmakingAttempt T K M L U) = none := by
  refine filling.back (fun fuel => ?_) fuel
  cases fuel with
  | zero => rfl
  | succ fuel =>
    unfold MatchmakingAttempt.HasRoom at room
    unfold fillLoop
    rw [if_pos room,fillStep_endless stalls]

end Filling
end GreenAgent.Book
