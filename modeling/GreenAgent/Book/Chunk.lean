import GreenAgent.Book.Retry

namespace GreenAgent.Book

-- On its own side a taker is not better off at the second price.
def Side.NoBetter : Side → AbsolutePrice → AbsolutePrice → Prop
  | .bid,first,second => first ≤ second
  | .ask,first,second => second ≤ first

theorem Side.NoBetter.overlaps {s : Side} {limit first second : AbsolutePrice} (worse : s.NoBetter first second)
    (matched : (s.wrap limit).overlaps second = true) : (s.wrap limit).overlaps first = true := by
  cases s with
  | bid =>
    have below : second ≤ limit := of_decide_eq_true matched
    exact decide_eq_true (le_trans worse below)
  | ask =>
    have above : limit ≤ second := of_decide_eq_true matched
    exact decide_eq_true (le_trans above worse)

section
variable {T M U : Type} [MarketMaker M T U]

@[grind cases eager] structure NeverImproves (taker : T) (s : Side) (maker : M) : Prop where
  defined : ∀ i, 0 < i → i ≤ U64.max → ∃ p, MarketMaker.effectivePrice maker taker (s.wrap i) = some p
  worsens : ∀ i j p q, 0 < i → i ≤ j → j ≤ U64.max → MarketMaker.effectivePrice maker taker (s.wrap i) = some p →
    MarketMaker.effectivePrice maker taker (s.wrap j) = some q → s.NoBetter p q

def MeetsLimit (taker : T) (limit : AbsolutePrice) (s : Side) (maker : M) (i : Nat) : Prop :=
  ∃ p, MarketMaker.effectivePrice maker taker (s.wrap i) = some p ∧ (s.wrap limit).overlaps p = true

-- Between two passes of the search: the best chunk so far is the lower end of
-- the range, and nothing above the range meets the limit.
@[grind cases eager] structure Narrowed (taker : T) (limit : AbsolutePrice) (s : Side) (maker : M) (whole low high : Nat)
    (best : Option (Nat × AbsolutePrice)) : Prop where
  ordered : low ≤ high
  inside : high ≤ whole
  nothing : best = none → low = 0
  found : ∀ c p, best = some (c,p) → c = low ∧ 0 < c ∧ MarketMaker.effectivePrice maker taker (s.wrap c) = some p ∧
    (s.wrap limit).overlaps p = true
  exceeded : ∀ i, high < i → i ≤ whole → ¬MeetsLimit taker limit s maker i

variable {taker : T} {maker : M} {whole low high : Nat} {best : Option (Nat × AbsolutePrice)}

theorem NeverImproves.smaller (never : NeverImproves taker s maker) (positive : 0 < i) (order : i ≤ j) (small : j ≤ U64.max)
    (meets : MeetsLimit taker limit s maker j) : MeetsLimit taker limit s maker i := by
  obtain ⟨q,later,matched⟩ := meets
  obtain ⟨p,earlier⟩ := never.defined i positive (le_trans order small)
  exact ⟨p,earlier,(never.worsens i j p q positive order small earlier later).overlaps matched⟩

theorem Narrowed.start (taker : T) (limit : AbsolutePrice) (s : Side) (maker : M) (whole : Nat) :
    Narrowed taker limit s maker whole 0 whole none where
  ordered := Nat.zero_le _
  inside := le_rfl
  nothing _ := rfl
  found c p absent := by cases absent
  exceeded i above bounded := absurd bounded (Nat.not_le.mpr above)

theorem Narrowed.raise (narrowed : Narrowed taker limit s maker whole low high best) (above : low < c) (below : c ≤ high)
    (priced : MarketMaker.effectivePrice maker taker (s.wrap c) = some p) (matched : (s.wrap limit).overlaps p = true) :
    Narrowed taker limit s maker whole c high (some (c,p)) where
  ordered := below
  inside := narrowed.inside
  nothing absent := by cases absent
  found c' p' same := by
    cases same
    exact ⟨rfl,by omega,priced,matched⟩
  exceeded := narrowed.exceeded

theorem Narrowed.lower (never : NeverImproves taker s maker) (small : whole ≤ U64.max)
    (narrowed : Narrowed taker limit s maker whole low high best) (above : low < c) (below : c ≤ high)
    (fails : ¬MeetsLimit taker limit s maker c) : Narrowed taker limit s maker whole low (c - 1) best where
  ordered := by omega
  inside := by have := narrowed.inside; omega
  nothing := narrowed.nothing
  found := narrowed.found
  exceeded i beyond bounded meets := fails (never.smaller (by omega) (by omega) (le_trans bounded small) meets)

theorem searchChunk_narrowed (never : NeverImproves taker s maker) (small : whole < U64.max)
    (narrowed : Narrowed taker limit s maker whole low high best)
    (found : searchChunk taker limit s maker fuel low high best = some result) :
    ∃ last, Narrowed taker limit s maker whole last last result := by
  induction fuel generalizing low high best with
  | zero =>
    unfold searchChunk at found
    grind
  | succ fuel ih =>
    unfold searchChunk at found
    split at found
    · rename_i going
      have bound := narrowed.inside
      have size : (high - low + 1) % 2^64 = high - low + 1 := Nat.mod_eq_of_lt (by unfold U64.max at small; omega)
      simp only [size] at found
      have above : low < low + (high - low + 1) / 2 := by omega
      have below : low + (high - low + 1) / 2 ≤ high := by omega
      generalize low + (high - low + 1) / 2 = candidate at found above below
      have back : (candidate + (2^64 - 1)) % 2^64 = candidate - 1 := by
        unfold U64.max at small
        omega
      split at found
      · rename_i p filtered
        obtain ⟨priced,matched⟩ := Option.filter_eq_some_iff.mp filtered
        exact ih (narrowed.raise above below priced matched) found
      · rename_i filtered
        rw [back] at found
        have fails : ¬MeetsLimit taker limit s maker candidate := by
          rintro ⟨p,priced,matched⟩
          grind
        exact ih (narrowed.lower never small.le above below fails) found
    grind

variable {L : Type} [Stable M L]

-- The two ways to an answer when the chunk on offer has an effective price: the
-- whole of it is tested, or the search is made.
theorem tryOptimizedSwap_cases (available : MarketMaker.availableLiquidityOnSide T maker (s.wrap limit) = some ⟨amount,output⟩)
    (priced : MarketMaker.effectivePrice maker taker (s.wrap amount) = some quoted)
    (answer : tryOptimizedSwap (L := L) fuel taker limit demand s maker = some offer) :
    (¬(0 < amount ∧ amount ≤ demand ∧ (s.wrap limit).overlaps quoted = false) ∧
      offer = if 0 < amount ∧ amount ≤ demand ∧ (s.wrap limit).overlaps quoted = true then some (stableId maker,⟨quoted,amount⟩) else none) ∨
    ∃ best, amount ≤ demand ∧ (s.wrap limit).overlaps quoted = false ∧
      searchChunk taker limit s maker fuel 0 amount none = some best ∧
      offer = best.bind (fun chunk => if 0 < chunk.1 ∧ chunk.1 ≤ demand ∧ (s.wrap limit).overlaps chunk.2 = true
        then some (stableId maker,⟨chunk.2,chunk.1⟩) else none) := by
  unfold tryOptimizedSwap at answer
  rw [available] at answer
  simp only [priced,Option.some_or] at answer
  split at answer
  · rename_i searching
    obtain ⟨best,searched,made⟩ := Option.map_eq_some_iff.mp answer
    grind
  grind

theorem searchChunk_maximal (never : NeverImproves taker s maker) (typed : whole ≤ U64.max)
    (searched : searchChunk taker limit s maker fuel 0 whole none = some best) :
    (∀ c p, best = some (c,p) → 0 < c ∧ c ≤ whole ∧ MeetsLimit taker limit s maker c ∧ (s.wrap limit).overlaps p = true ∧
      ∀ i, c < i → i ≤ whole → ¬MeetsLimit taker limit s maker i) ∧
    (best = none → ∀ i, 0 < i → i ≤ whole → ¬MeetsLimit taker limit s maker i) := by
  have small : whole < U64.max := by
    refine lt_of_le_of_ne typed (fun all => ?_)
    rw [all,searchChunk_endless] at searched
    cases searched
  obtain ⟨last,narrowed⟩ := searchChunk_narrowed never small (.start taker limit s maker whole) searched
  constructor
  · intro c p chosen
    obtain ⟨rfl,positive,priced,matched⟩ := narrowed.found c p chosen
    exact ⟨positive,narrowed.inside,⟨p,priced,matched⟩,matched,narrowed.exceeded⟩
  grind

theorem tryOptimizedSwap_returns (available : MarketMaker.availableLiquidityOnSide T maker (s.wrap limit) = some ⟨amount,output⟩)
    (small : amount < U64.max) (enough : amount ≤ fuel) : ∃ offer, tryOptimizedSwap (L := L) fuel taker limit demand s maker = some offer := by
  unfold tryOptimizedSwap
  rw [available]
  simp only
  split
  · exact ⟨_,rfl⟩
  · split
    · obtain ⟨best,searched⟩ : ∃ best, searchChunk taker limit s maker fuel 0 amount none = some best := searchChunk_ends small (by omega)
      simp_all
    · exact ⟨_,rfl⟩

-- `available` is what the maker has on the taker's side at the limit price.
structure LargestChunk (L : Type) [Stable M L] (taker : T) (limit : AbsolutePrice) (demand : Nat) (s : Side) (maker : M) (available : Nat) :
    Prop where
  returns : available < U64.max → ∃ fuel offer, tryOptimizedSwap (L := L) fuel taker limit demand s maker = some offer
  maximal : ∀ fuel key preview, tryOptimizedSwap (L := L) fuel taker limit demand s maker = some (some (key,preview)) →
    preview.input < min demand available →
    MeetsLimit taker limit s maker preview.input ∧ ¬MeetsLimit taker limit s maker (preview.input + 1)
  refused : ∀ fuel, tryOptimizedSwap (L := L) fuel taker limit demand s maker = some none → 0 < available → available ≤ demand →
    ∀ i, 0 < i → i ≤ available → ¬MeetsLimit taker limit s maker i

theorem optimized_chunk_largest (never : NeverImproves taker s maker)
    (available : MarketMaker.availableLiquidityOnSide T maker (s.wrap limit) = some ⟨amount,output⟩) (typed : amount ≤ U64.max) :
    LargestChunk L taker limit demand s maker amount where
  returns small := ⟨amount,tryOptimizedSwap_returns available small le_rfl⟩
  maximal fuel key preview answer short := by
    have positive : 0 < amount := by omega
    obtain ⟨quoted,priced⟩ := never.defined amount positive typed
    rcases tryOptimizedSwap_cases available priced answer with ⟨_,direct⟩ | ⟨best,_,_,searched,made⟩
    · split at direct
      · cases direct
        simp at short
      · cases direct
    · obtain ⟨⟨c,p⟩,chosen,accepted⟩ := Option.bind_eq_some_iff.mp made.symm
      obtain ⟨_,_,meets,_,above⟩ := (searchChunk_maximal never typed searched).1 c p chosen
      split at accepted
      · cases accepted
        exact ⟨meets,above (c + 1) (by omega) (by simp only at short; omega)⟩
      · cases accepted
  refused fuel answer positive fits := by
    obtain ⟨quoted,priced⟩ := never.defined amount positive typed
    rcases tryOptimizedSwap_cases available priced answer with ⟨unsearched,direct⟩ | ⟨best,_,_,searched,made⟩
    · -- the whole chunk meets the limit, so it was offered
      have matched : (s.wrap limit).overlaps quoted = true := by
        by_contra apart
        exact unsearched ⟨positive,fits,Bool.eq_false_iff.mpr apart⟩
      rw [if_pos ⟨positive,fits,matched⟩] at direct
      cases direct
    · obtain ⟨found,absent⟩ := searchChunk_maximal never typed searched
      cases best with
      | none => exact absent rfl
      | some chunk =>
        obtain ⟨some,inside,_,matched,_⟩ := found chunk.1 chunk.2 rfl
        rw [Option.bind_some,if_pos ⟨some,by omega,matched⟩] at made
        cases made

end

-- A pool that trades along `base * quote = const` without fees or rounding, and
-- offers a part of its reserve.
structure CurvePool where
  base : Nat
  quote : Nat
  offered : Nat

instance : Stable CurvePool Unit := ⟨fun _ => ()⟩

instance : MarketMaker CurvePool Unit Unit where
  staticPrice pool := pool.quote / pool.base
  realPrice _ _ := none
  effectivePrice pool _
    | .ask i => some (pool.quote / ((pool.base + i : Nat) : ℚ))
    | .bid i => some (((pool.quote + i : Nat) : ℚ) / pool.base)
  quality _ := 0
  marginalCostHint _ := ()
  liquidity pool := ⟨pool.base,pool.quote⟩
  availableLiquidityOnSide pool _ := some ⟨pool.offered,0⟩
  isActive _ := true

theorem CurvePool.neverImproves (pool : CurvePool) (liquid : 0 < pool.base) (s : Side) : NeverImproves () s pool where
  defined i _ _ := by
    cases s with
    | bid => exact ⟨_,rfl⟩
    | ask => exact ⟨_,rfl⟩
  worsens i j p q _ order _ earlier later := by
    cases s with
    | bid =>
      cases earlier
      cases later
      change _ / _ ≤ _ / _
      gcongr
    | ask =>
      cases earlier
      cases later
      change _ / _ ≤ _ / _
      gcongr

-- At the limit 4/5 a pool of 100 to 100 takes 25 of the 40 it offers.
theorem optimized_chunk_curve : LargestChunk Unit () (4/5) 60 .ask (⟨100,100,40⟩ : CurvePool) 40 ∧
    (tryOptimizedSwap (L := Unit) 6 () (4/5) 60 .ask (⟨100,100,40⟩ : CurvePool)).map (Option.map (fun offer => offer.2.input)) =
      some (some 25) :=
  ⟨optimized_chunk_largest (CurvePool.neverImproves ⟨100,100,40⟩ (by decide) .ask) rfl (by decide),by decide +kernel⟩

end GreenAgent.Book
