import GreenAgent.Chain.Follows

namespace GreenAgent.Chain
open Mpf (Bytes Digest)

-- The database is written one key at a time.
inductive CacheWrite where
  | setTip (point : Point)
  | putBlock (point : Point) (block : LinkedBlock)
  | delete (point : Point)

namespace LedgerCache

def write (cache : LedgerCache) : CacheWrite → LedgerCache
  | .setTip point => cache.setTip point
  | .putBlock point block => cache.putBlock point block
  | .delete point => cache.delete point

def writeAll (cache : LedgerCache) (writes : List CacheWrite) : LedgerCache := writes.foldl write cache

end LedgerCache

section Writes
variable {b c : Era} {Earlier : Type} (fromCborBytes : Bytes → Option (MultiEraBlock b c Earlier)) (handleRollbacksAfter : UInt64)

-- A block is deserialized only after the writes that take it off.
def rollbackWrites (toPoint : Point) (cache : LedgerCache) : List CacheWrite :=
  match cache.tip with
  | none => []
  | some tip =>
    if tip = toPoint then []
    else match _ : cache.getBlock tip with
      | none => []
      | some linked =>
        .delete tip :: .setTip linked.prev ::
          if (fromCborBytes linked.bytes).isSome then rollbackWrites toPoint ((cache.delete tip).setTip linked.prev) else []
termination_by cache.blocks.keys.length
decreasing_by exact HashMap.erase_shorter ‹_›

def upgradeWrites (cache : LedgerCache) : ChainUpgrade (MultiEraBlock b c Earlier) → List CacheWrite
  | .rollForward blk blkBytes replayed =>
    match blk.canonicalPoint with
    | none => []
    | some point =>
      if replayed then []
      else if handleRollbacksAfter < blk.header.slot then [.setTip point,.putBlock point ⟨blkBytes,cache.tip.getD .origin⟩]
      else [.setTip point]
  | .rollBackward point => if handleRollbacksAfter < point.getSlot then rollbackWrites fromCborBytes point cache else []

variable {fromCborBytes} {handleRollbacksAfter}

theorem rollbackWrites_stops {cache : LedgerCache} (stops : ∀ tip,cache.tip = some tip → tip = toPoint ∨ cache.getBlock tip = none) :
    rollbackWrites fromCborBytes toPoint cache = [] := by
  rw [rollbackWrites]
  split
  · rfl
  · rename_i tip known
    rcases stops tip known with reached | missing
    · rw [if_pos reached]
    · split
      · rfl
      · split
        · rfl
        · rename_i found
          cases missing.symm.trans found

theorem rollbackWrites_takes {cache : LedgerCache} {block : MultiEraBlock b c Earlier} (known : cache.tip = some tip) (further : tip ≠ toPoint)
    (found : cache.getBlock tip = some linked) (decoded : fromCborBytes linked.bytes = some block) :
    rollbackWrites fromCborBytes toPoint cache =
      .delete tip :: .setTip linked.prev :: rollbackWrites fromCborBytes toPoint ((cache.delete tip).setTip linked.prev) := by
  rw [rollbackWrites]
  split
  · rename_i absent
    cases absent.symm.trans known
  · rename_i top same
    cases same.symm.trans known
    rw [if_neg further]
    split
    · rename_i missing
      cases missing.symm.trans found
    · rename_i stored
      cases stored.symm.trans found
      rw [decoded]
      rfl

theorem stopped_writes {cache : LedgerCache} (stops : ∀ tip,cache.tip = some tip → tip = toPoint ∨ cache.getBlock tip = none)
    (done : rollback fromCborBytes toPoint cache = some (blocks,next)) : cache.writeAll (rollbackWrites fromCborBytes toPoint cache) = next := by
  rw [rollback_stops stops] at done
  cases done
  rw [rollbackWrites_stops stops]
  rfl

theorem rollback_writes {cache : LedgerCache} (done : rollback fromCborBytes toPoint cache = some (blocks,next)) :
    cache.writeAll (rollbackWrites fromCborBytes toPoint cache) = next := by
  induction cache using rollback.induct toPoint generalizing blocks with
  | case1 cache absent => exact stopped_writes (fun tip known => nomatch absent.symm.trans known) done
  | case2 cache reached => exact stopped_writes (fun tip known => .inl (Option.some.inj (known.symm.trans reached))) done
  | case3 cache top known further missing =>
    refine stopped_writes (fun tip other => ?_) done
    cases known.symm.trans other
    exact .inr missing
  | case4 cache tip known further linked found ih =>
    cases decoded : fromCborBytes linked.bytes with
    | none =>
      rw [rollback,known] at done
      simp only [if_neg further] at done
      split at done
      · rename_i missing
        cases missing.symm.trans found
      · rename_i stored
        cases stored.symm.trans found
        rw [decoded] at done
        cases done
    | some block =>
      rw [rollback_takes known further found decoded] at done
      obtain ⟨⟨rest,last⟩,walked,same⟩ := Option.map_eq_some_iff.mp done
      cases same
      rw [rollbackWrites_takes known further found decoded]
      exact ih walked

theorem upgrade_writes {cache next : LedgerCache} {upgrade : ChainUpgrade (MultiEraBlock b c Earlier)} {events : List (Event b c)}
    (done : processUpstreamByTxs fromCborBytes handleRollbacksAfter cache upgrade = some (events,next)) :
    cache.writeAll (upgradeWrites fromCborBytes handleRollbacksAfter cache upgrade) = next := by
  cases upgrade with
  | rollForward blk bytes replayed =>
    rw [processUpstreamByTxs] at done
    obtain ⟨point,located,made⟩ := Option.bind_eq_some_iff.mp done
    cases made
    rw [upgradeWrites,located]
    cases replayed with
    | true => rfl
    | false =>
      dsimp only
      split
      · rename_i never
        cases never
      · split <;> rfl
  | rollBackward point =>
    rw [processUpstreamByTxs] at done
    rw [upgradeWrites]
    split at done
    · rename_i handled
      obtain ⟨⟨blocks,last⟩,walked,made⟩ := Option.bind_eq_some_iff.mp done
      cases made
      rw [if_pos handled]
      exact rollback_writes walked
    · rename_i ignored
      cases done
      rw [if_neg ignored]
      rfl

end Writes

section Stops
variable {b c : Era} {Earlier : Type}

-- One upgrade of the node's chain.
inductive Moves (fromCborBytes : Bytes → Option (MultiEraBlock b c Earlier)) (handleRollbacksAfter : UInt64) (start : Point) :
    List (MultiEraBlock b c Earlier) → ChainUpgrade (MultiEraBlock b c Earlier) → List (MultiEraBlock b c Earlier) → Prop where
  | forward : fromCborBytes bytes = some blk → EndsAt start chain tip → tip.Before blk.header.slot →
      Moves fromCborBytes handleRollbacksAfter start chain (.rollForward blk bytes false) (chain ++ [blk])
  | backward : EndsAt start below point → handleRollbacksAfter < point.getSlot →
      Moves fromCborBytes handleRollbacksAfter start (below ++ above) (.rollBackward point) below

-- Where the process can stop: between two upgrades, or within one with some of
-- its writes done and some not. `before` is the node's chain when the upgrade
-- began, `chain` the one it has now.
inductive Stopped (fromCborBytes : Bytes → Option (MultiEraBlock b c Earlier)) (handleRollbacksAfter : UInt64) (start : Point) :
    Bool → List (ChainUpgrade (MultiEraBlock b c Earlier)) → List (MultiEraBlock b c Earlier) → List (MultiEraBlock b c Earlier) → LedgerCache → Prop where
  | between : Follows fromCborBytes handleRollbacksAfter start upgrades chain →
      ledgerTransactions fromCborBytes handleRollbacksAfter upgrades = some (events,cache) →
      Stopped fromCborBytes handleRollbacksAfter start false upgrades chain chain cache
  | within : Follows fromCborBytes handleRollbacksAfter start upgrades before →
      ledgerTransactions fromCborBytes handleRollbacksAfter upgrades = some (events,cache) →
      Moves fromCborBytes handleRollbacksAfter start before upgrade chain →
      0 < n → n < (upgradeWrites fromCborBytes handleRollbacksAfter cache upgrade).length →
      Stopped fromCborBytes handleRollbacksAfter start true (upgrades ++ [upgrade]) before chain
        (cache.writeAll ((upgradeWrites fromCborBytes handleRollbacksAfter cache upgrade).take n))

-- The blocks that the links lead through.
inductive Walks (fromCborBytes : Bytes → Option (MultiEraBlock b c Earlier)) (cache : LedgerCache) : Point → List (MultiEraBlock b c Earlier) → Prop where
  | stops : cache.getBlock point = none → Walks fromCborBytes cache point []
  | visits : cache.getBlock point = some linked → fromCborBytes linked.bytes = some blk → Walks fromCborBytes cache linked.prev rest →
      Walks fromCborBytes cache point (blk :: rest)

@[grind cases eager] structure Resumable (fromCborBytes : Bytes → Option (MultiEraBlock b c Earlier)) (handleRollbacksAfter : UInt64) (start : Point)
    (before chain : List (MultiEraBlock b c Earlier)) (cache : LedgerCache) : Prop where
  -- the tip is a point of the chain, or of a block that is being rolled back
  tip : ∀ tip,cache.tip = some tip → tip ≠ .origin ∧ (tip = start ∨ ∃ blk ∈ before ++ chain,blk.header.point = tip)
  links : ∃ visited,(cache.tip = none → visited = []) ∧ (∀ tip,cache.tip = some tip → Walks fromCborBytes cache tip visited) ∧
    ∀ key linked,cache.blocks.lookup key = some linked → ∃ blk ∈ visited,key = pointKey blk.header.point
  -- `ChainSyncClient::init` asks the node for the tip, or for where it was told to start
  intersects : cache.tip.getD start = start ∨ ∃ blk ∈ chain,blk.header.point = cache.tip.getD start
  replays : ∀ tip,cache.tip = some tip → ∀ blk ∈ chain,blk.header.slot ≤ tip.getSlot → ∃ linked ∈ cache.replay start,fromCborBytes linked.bytes = some blk
  rollsBack : ∀ below above point,chain = below ++ above → EndsAt start below point → handleRollbacksAfter < point.getSlot →
    ∃ cache',rollback fromCborBytes point cache = some (above.reverse,cache')

def AllAbove (handleRollbacksAfter : UInt64) (upgrades : List (ChainUpgrade (MultiEraBlock b c Earlier))) : Prop :=
  ∀ blk bytes replayed,.rollForward blk bytes replayed ∈ upgrades → handleRollbacksAfter < blk.header.slot

def NoBlocks (upgrades : List (ChainUpgrade (MultiEraBlock b c Earlier))) : Prop := ∀ blk bytes replayed,.rollForward blk bytes replayed ∉ upgrades

-- The cache holds the chain, and nothing else.
@[grind cases eager] structure Copies (fromCborBytes : Bytes → Option (MultiEraBlock b c Earlier)) (handleRollbacksAfter : UInt64) (cache : LedgerCache)
    (chain : List (MultiEraBlock b c Earlier)) : Prop extends Mirrors fromCborBytes handleRollbacksAfter cache chain where
  only : ∀ key linked,cache.blocks.lookup key = some linked → ∃ blk ∈ chain,key = pointKey blk.header.point

variable {fromCborBytes : Bytes → Option (MultiEraBlock b c Earlier)} {handleRollbacksAfter : UInt64} {start : Point}

theorem Copies.forward {chain : List (MultiEraBlock b c Earlier)} {blk : MultiEraBlock b c Earlier}
    (copies : Copies fromCborBytes handleRollbacksAfter cache chain) (rising : Rising start (chain ++ [blk])) (decoded : fromCborBytes bytes = some blk)
    (high : handleRollbacksAfter < blk.header.slot) : Copies fromCborBytes handleRollbacksAfter (cache.cacheBlock blk.header.point bytes) (chain ++ [blk]) := by
  have mirrors := copies.toMirrors.forward rising decoded
  rw [if_pos high] at mirrors
  refine ⟨mirrors,fun key linked found => ?_⟩
  unfold LedgerCache.cacheBlock LedgerCache.putBlock at found
  rw [HashMap.lookup_insert] at found
  split at found
  · rename_i own
    exact ⟨blk,List.mem_append_right _ List.mem_cons_self,own⟩
  · obtain ⟨other,member,named⟩ := copies.only key linked found
    exact ⟨other,List.mem_append_left _ member,named⟩

theorem Copies.delete {chain : List (MultiEraBlock b c Earlier)} {blk : MultiEraBlock b c Earlier}
    (copies : Copies fromCborBytes handleRollbacksAfter cache (chain ++ [blk])) (rising : Rising start (chain ++ [blk])) :
    Copies fromCborBytes handleRollbacksAfter ((cache.delete blk.header.point).setTip (tipOf chain)) chain := by
  refine ⟨copies.toMirrors.delete rising,fun key linked found => ?_⟩
  unfold LedgerCache.delete LedgerCache.setTip at found
  dsimp only at found
  rw [HashMap.lookup_erase] at found
  obtain ⟨apart,found⟩ := Option.ite_none_left_eq_some.mp found
  obtain ⟨other,member,named⟩ := copies.only key linked found
  rcases List.mem_append.mp member with member | member
  · exact ⟨other,member,named⟩
  · cases List.mem_singleton.mp member
    exact absurd named apart

-- The writes of a rollback, two for each block above the point, the last block
-- first.
def undoWrites (below : List (MultiEraBlock b c Earlier)) : List (MultiEraBlock b c Earlier) → List CacheWrite
  | [] => []
  | blk :: rest => .delete blk.header.point :: .setTip (tipOf (below ++ rest.reverse)) :: undoWrites below rest

theorem rollbackWrites_undo {below above : List (MultiEraBlock b c Earlier)} (mirrors : Mirrors fromCborBytes handleRollbacksAfter cache (below ++ above))
    (rising : Rising start (below ++ above)) (ends : EndsAt start below point) (handled : handleRollbacksAfter < point.getSlot) :
    rollbackWrites fromCborBytes point cache = undoWrites below above.reverse := by
  induction above using List.reverseRecOn generalizing cache with
  | nil =>
    rw [List.append_nil] at mirrors
    exact rollbackWrites_stops (mirrors.stops ends)
  | append_singleton above blk ih =>
    have earlier := rising.above ends (List.mem_append_right above List.mem_cons_self)
    rw [← List.append_assoc] at mirrors rising
    obtain ⟨bytes,found,decoded⟩ := mirrors.stored (below ++ above) blk [] rfl (earlier.over handled)
    rw [rollbackWrites_takes mirrors.tip_concat earlier.ne found decoded,ih (mirrors.delete rising) rising.below]
    simp [undoWrites]

theorem Copies.undone {below above : List (MultiEraBlock b c Earlier)} (copies : Copies fromCborBytes handleRollbacksAfter cache (below ++ above))
    (rising : Rising start (below ++ above)) : Copies fromCborBytes handleRollbacksAfter (cache.writeAll (undoWrites below above.reverse)) below := by
  induction above using List.reverseRecOn generalizing cache with
  | nil =>
    rw [List.append_nil] at copies
    exact copies
  | append_singleton above blk ih =>
    rw [← List.append_assoc] at copies rising
    have rest := ih (copies.delete rising) rising.below
    simpa [undoWrites,LedgerCache.writeAll,LedgerCache.write] using rest

theorem ledgerTransactions_snoc {upgrades : List (ChainUpgrade (MultiEraBlock b c Earlier))} {upgrade : ChainUpgrade (MultiEraBlock b c Earlier)}
    {events : List (Event b c)} (done : ledgerTransactions fromCborBytes handleRollbacksAfter (upgrades ++ [upgrade]) = some (events,cache)) :
    ∃ earlier before made,ledgerTransactions fromCborBytes handleRollbacksAfter upgrades = some (earlier,before) ∧
      processUpstreamByTxs fromCborBytes handleRollbacksAfter before upgrade = some (made,cache) := by
  cases first : ledgerTransactions fromCborBytes handleRollbacksAfter upgrades with
  | none =>
    unfold ledgerTransactions at first done
    rw [List.foldlM_append,first] at done
    cases done
  | some state =>
    rw [ledgerTransactions_append first] at done
    obtain ⟨⟨made,next⟩,processed,same⟩ := Option.map_eq_some_iff.mp done
    cases same
    exact ⟨state.1,state.2,made,rfl,processed⟩

theorem writeAll_tip {cache : LedgerCache} (known : cache.tip ≠ none) (writes : List CacheWrite) : (cache.writeAll writes).tip ≠ none := by
  induction writes generalizing cache with
  | nil => exact known
  | cons write writes ih =>
    apply ih
    cases write with
    | setTip point => exact nofun
    | putBlock point block => exact known
    | delete point => exact known

theorem processed_forward {blk : MultiEraBlock b c Earlier} {events : List (Event b c)} (high : handleRollbacksAfter < blk.header.slot)
    (done : processUpstreamByTxs fromCborBytes handleRollbacksAfter cache (.rollForward blk bytes false) = some (events,next)) :
    next = cache.cacheBlock blk.header.point bytes := by
  have readable : blk.Readable := by
    cases blk with
    | byron => cases done
    | _ => trivial
  rw [process_forward readable,if_pos high] at done
  cases done
  rfl

theorem Follows.copies {chain : List (MultiEraBlock b c Earlier)} {events : List (Event b c)}
    (follows : Follows fromCborBytes handleRollbacksAfter start upgrades chain) (above : AllAbove handleRollbacksAfter upgrades)
    (done : ledgerTransactions fromCborBytes handleRollbacksAfter upgrades = some (events,cache)) :
    Copies fromCborBytes handleRollbacksAfter cache chain ∧ (cache.tip = none ↔ NoBlocks upgrades) := by
  induction follows generalizing events cache with
  | begun =>
    cases done
    exact ⟨⟨.empty,fun _ _ found => by cases found⟩,iff_of_true rfl (fun _ _ _ => List.not_mem_nil)⟩
  | @forward upgrades chain bytes blk tip before decoded ends later ih =>
    have high := above blk bytes false (List.mem_append_right _ List.mem_cons_self)
    obtain ⟨earlier,old,made,first,processed⟩ := ledgerTransactions_snoc done
    obtain ⟨copies,_⟩ := ih (fun blk bytes replayed member => above blk bytes replayed (List.mem_append_left _ member)) first
    rw [processed_forward high processed]
    refine ⟨copies.forward (before.rising.concat ends later) decoded high,iff_of_false nofun (fun none => ?_)⟩
    exact none blk bytes false (List.mem_append_right _ List.mem_cons_self)
  | @backward upgrades below upper point before ends handled ih =>
    obtain ⟨earlier,old,made,first,processed⟩ := ledgerTransactions_snoc done
    obtain ⟨copies,known⟩ := ih (fun blk bytes replayed member => above blk bytes replayed (List.mem_append_left _ member)) first
    have written := upgrade_writes processed
    rw [upgradeWrites,if_pos handled] at written
    have blocks : NoBlocks (upgrades ++ [.rollBackward point]) ↔ NoBlocks upgrades := by
      simp [NoBlocks]
    constructor
    · rw [← written,rollbackWrites_undo copies.toMirrors before.rising ends handled]
      exact copies.undone before.rising
    · rw [blocks,← known]
      constructor
      · intro gone
        by_contra present
        exact writeAll_tip present _ (written ▸ gone)
      · intro absent
        rw [rollbackWrites_stops (fun tip there => nomatch absent.symm.trans there)] at written
        rw [← written]
        exact absent

theorem Copies.walks {chain : List (MultiEraBlock b c Earlier)} (copies : Copies fromCborBytes handleRollbacksAfter cache chain)
    (high : ∀ blk ∈ chain,handleRollbacksAfter < blk.header.slot) {below above : List (MultiEraBlock b c Earlier)} (shape : chain = below ++ above) :
    Walks fromCborBytes cache (tipOf below) below.reverse := by
  induction below using List.reverseRecOn generalizing above with
  | nil => exact .stops copies.clean
  | append_singleton below blk ih =>
    have split : chain = below ++ blk :: above := by rw [shape,List.append_assoc,List.singleton_append]
    have member : blk ∈ chain := by rw [split]; exact List.mem_append_right _ List.mem_cons_self
    obtain ⟨bytes,found,decoded⟩ := copies.stored below blk above split (high blk member)
    rw [tipOf_concat,List.reverse_append,List.reverse_singleton,List.singleton_append]
    exact .visits found decoded (ih split)

theorem pointKey_le {point : Point} {header : Header} (earlier : point.Before header.slot) :
    LedgerCache.keyOrder (pointKey point) ≤ LedgerCache.keyOrder (pointKey header.point) := by
  have slots : ∀ {low high : UInt64},low < high → (BigEndian.bigEndian 8 low.toNat).map UInt8.toNat < (BigEndian.bigEndian 8 high.toNat).map UInt8.toNat :=
    fun {low high} less => BigEndian.bigEndian_lt high.toNat_lt (UInt64.lt_iff_toNat_lt.mp less)
  have lengths : ∀ low high : UInt64,((BigEndian.bigEndian 8 low.toNat).map UInt8.toNat).length = ((BigEndian.bigEndian 8 high.toNat).map UInt8.toNat).length := by
    intro low high
    simp [BigEndian.bigEndian_length]
  apply le_of_lt
  unfold LedgerCache.keyOrder pointKey Header.point
  simp only [List.map_append,List.append_assoc]
  apply List.append_left_lt
  cases point with
  | origin =>
    rcases eq_or_ne header.slot 0 with zero | positive
    · have bytes : header.hash.bytes ≠ [] := List.ne_nil_of_length_pos (by rw [header.hash.size]; decide)
      obtain ⟨first,rest,shape⟩ := List.exists_cons_of_ne_nil bytes
      rw [zero,shape]
      exact List.append_left_lt (List.nil_lt_cons _ _)
    · exact BigEndian.lt_append (slots (UInt64.pos_iff_ne_zero.mpr positive)) (lengths _ _) _ _
  | specific slot hash => exact BigEndian.lt_append (slots earlier) (lengths _ _) _ _

theorem Follows.high {chain : List (MultiEraBlock b c Earlier)} (follows : Follows fromCborBytes handleRollbacksAfter start upgrades chain)
    (above : AllAbove handleRollbacksAfter upgrades) : ∀ blk ∈ chain,handleRollbacksAfter < blk.header.slot := by
  induction follows with
  | begun => exact fun _ member => nomatch member
  | @forward upgrades chain bytes blk tip before decoded ends later ih =>
    intro other member
    rcases List.mem_append.mp member with member | member
    · exact ih (fun blk bytes replayed inside => above blk bytes replayed (List.mem_append_left _ inside)) other member
    · cases List.mem_singleton.mp member
      exact above blk bytes false (List.mem_append_right _ List.mem_cons_self)
  | backward _ _ _ ih =>
    intro other member
    exact ih (fun blk bytes replayed inside => above blk bytes replayed (List.mem_append_left _ inside)) other (List.mem_append_left _ member)

theorem Copies.resumable {chain : List (MultiEraBlock b c Earlier)} (copies : Copies fromCborBytes handleRollbacksAfter cache chain)
    (rising : Rising start chain) (high : ∀ blk ∈ chain,handleRollbacksAfter < blk.header.slot) (untouched : chain = [] → cache.tip = none) :
    Resumable fromCborBytes handleRollbacksAfter start chain chain cache := by
  have top : ∀ tip,cache.tip = some tip → ∃ below blk,chain = below ++ [blk] ∧ blk.header.point = tip := by
    intro tip known
    rcases List.eq_nil_or_concat chain with empty | ⟨below,blk,shape⟩
    · cases known.symm.trans (untouched empty)
    · rw [List.concat_eq_append] at shape
      subst shape
      exact ⟨below,blk,rfl,Option.some.inj (copies.tip_concat.symm.trans known)⟩
  have walks := copies.walks high (List.append_nil chain).symm
  refine ⟨fun tip known => ?_,⟨chain.reverse,fun absent => ?_,fun tip known => ?_,fun key linked found => ?_⟩,?_,fun tip known blk member _ => ?_,?_⟩
  · obtain ⟨below,blk,rfl,rfl⟩ := top tip known
    exact ⟨nofun,.inr ⟨blk,by simp,rfl⟩⟩
  · rcases List.eq_nil_or_concat chain with empty | ⟨below,blk,shape⟩
    · rw [empty]
      rfl
    · rw [List.concat_eq_append] at shape
      subst shape
      cases copies.tip_concat.symm.trans absent
  · obtain ⟨below,blk,rfl,rfl⟩ := top tip known
    rwa [tipOf_concat] at walks
  · obtain ⟨blk,member,named⟩ := copies.only key linked found
    exact ⟨blk,List.mem_reverse.mpr member,named⟩
  · cases known : cache.tip with
    | none => exact .inl rfl
    | some tip =>
      obtain ⟨below,blk,rfl,same⟩ := top tip known
      exact .inr ⟨blk,by simp,same⟩
  · obtain ⟨below,above,shape⟩ := List.append_of_mem member
    obtain ⟨bytes,found,decoded⟩ := copies.stored below blk above shape (high blk member)
    exact ⟨_,LedgerCache.mem_replay.mpr ⟨_,found,pointKey_le (rising.later blk member)⟩,decoded⟩
  · rintro below above point rfl ends handled
    obtain ⟨cache',walked,_⟩ := rollback_walks copies.toMirrors rising ends handled
    exact ⟨cache',walked⟩

theorem Copies.resumable_iff {chain : List (MultiEraBlock b c Earlier)} (copies : Copies fromCborBytes handleRollbacksAfter cache chain)
    (rising : Rising start chain) (high : ∀ blk ∈ chain,handleRollbacksAfter < blk.header.slot) :
    Resumable fromCborBytes handleRollbacksAfter start chain chain cache ↔ (chain = [] → cache.tip = none) := by
  constructor
  · rintro resumable rfl
    have tip := copies.tip
    cases known : cache.tip with
    | none => rfl
    | some top =>
      rw [known] at tip
      exact absurd tip (resumable.tip top known).1
  · exact copies.resumable rising high

theorem tip_without_block {chain : List (MultiEraBlock b c Earlier)} {blk : MultiEraBlock b c Earlier}
    (copies : Copies fromCborBytes handleRollbacksAfter cache chain) (rising : Rising start (chain ++ [blk]))
    (high : ∀ blk ∈ chain,handleRollbacksAfter < blk.header.slot) :
    ¬Resumable fromCborBytes handleRollbacksAfter start chain (chain ++ [blk]) (cache.setTip blk.header.point) := by
  intro resumable
  obtain ⟨linked,replayed,decoded⟩ := resumable.replays blk.header.point rfl blk (by simp) (UInt64.le_refl _)
  obtain ⟨key,found,_⟩ := LedgerCache.mem_replay.mp replayed
  have stored : cache.blocks.lookup key = some linked := found
  obtain ⟨other,member,rfl⟩ := copies.only key linked stored
  obtain ⟨below,above,shape⟩ := List.append_of_mem member
  obtain ⟨bytes,own,named⟩ := copies.stored below other above shape (high other member)
  cases own.symm.trans stored
  cases named.symm.trans decoded
  exact rising.lower member rfl

theorem undo_tip {below rev : List (MultiEraBlock b c Earlier)} {cache : LedgerCache} {n : Nat} (tip : cache.tip = some (tipOf (below ++ rev.reverse)))
    (unfinished : n < (undoWrites below rev).length) : ∃ blk ∈ rev,(cache.writeAll ((undoWrites below rev).take n)).tip = some blk.header.point := by
  induction rev generalizing cache n with
  | nil => cases unfinished
  | cons blk rest ih =>
    have here : cache.tip = some blk.header.point := by
      rw [tip,List.reverse_cons,← List.append_assoc,tipOf_concat]
    match n with
    | 0 => exact ⟨blk,List.mem_cons_self,here⟩
    | 1 => exact ⟨blk,List.mem_cons_self,here⟩
    | n + 2 =>
      have shorter : n < (undoWrites below rest).length := by
        simp only [undoWrites,List.length_cons] at unfinished
        omega
      have next : ((cache.delete blk.header.point).setTip (tipOf (below ++ rest.reverse))).tip = some (tipOf (below ++ rest.reverse)) := rfl
      obtain ⟨other,member,same⟩ := ih next shorter
      exact ⟨other,List.mem_cons_of_mem _ member,same⟩

theorem unfinished_rollback {below above : List (MultiEraBlock b c Earlier)} {cache : LedgerCache} {blk : MultiEraBlock b c Earlier}
    (rising : Rising start (below ++ above)) (member : blk ∈ above) (tip : cache.tip = some blk.header.point) :
    ¬Resumable fromCborBytes handleRollbacksAfter start (below ++ above) below cache := by
  intro resumable
  have found := resumable.intersects
  rw [tip,Option.getD_some] at found
  rcases found with same | ⟨other,inside,same⟩
  · exact (rising.later blk (List.mem_append_right _ member)).ne same
  · have earlier : other.header.point.Before blk.header.slot := (List.pairwise_append.mp rising.sorted).2.2 other inside blk member
    exact earlier.ne same.symm

theorem Stopped.within_not_resumable {upgrades : List (ChainUpgrade (MultiEraBlock b c Earlier))} {before chain : List (MultiEraBlock b c Earlier)}
    {upgrade : ChainUpgrade (MultiEraBlock b c Earlier)} {events : List (Event b c)} {cache : LedgerCache} {n : Nat}
    (follows : Follows fromCborBytes handleRollbacksAfter start upgrades before)
    (done : ledgerTransactions fromCborBytes handleRollbacksAfter upgrades = some (events,cache))
    (moves : Moves fromCborBytes handleRollbacksAfter start before upgrade chain) (above : AllAbove handleRollbacksAfter (upgrades ++ [upgrade]))
    (some_done : 0 < n) (some_left : n < (upgradeWrites fromCborBytes handleRollbacksAfter cache upgrade).length) :
    ¬Resumable fromCborBytes handleRollbacksAfter start before chain
      (cache.writeAll ((upgradeWrites fromCborBytes handleRollbacksAfter cache upgrade).take n)) := by
  have earlier : AllAbove handleRollbacksAfter upgrades := fun blk bytes replayed member => above blk bytes replayed (List.mem_append_left _ member)
  obtain ⟨copies,_⟩ := follows.copies earlier done
  cases moves with
  | @forward bytes blk _ tip decoded ends later =>
    have high := above blk bytes false (List.mem_append_right _ List.mem_cons_self)
    have readable : blk.Readable := by
      cases blk with
      | byron => cases some_left
      | _ => trivial
    have writes : upgradeWrites fromCborBytes handleRollbacksAfter cache (.rollForward blk bytes false) =
        [.setTip blk.header.point,.putBlock blk.header.point ⟨bytes,cache.tip.getD .origin⟩] := by
      rw [upgradeWrites,readable.canonicalPoint]
      simp [high]
    rw [writes] at some_left ⊢
    have one : n = 1 := by
      simp only [List.length_cons,List.length_nil] at some_left
      omega
    subst one
    exact tip_without_block copies (follows.rising.concat ends later) (follows.high earlier)
  | @backward _ point upper ends handled =>
    have writes : upgradeWrites fromCborBytes handleRollbacksAfter cache (.rollBackward point) = undoWrites chain upper.reverse := by
      rw [upgradeWrites,if_pos handled]
      exact rollbackWrites_undo copies.toMirrors follows.rising ends handled
    rw [writes] at some_left ⊢
    have tip : cache.tip = some (tipOf (chain ++ upper.reverse.reverse)) := by
      rcases List.eq_nil_or_concat upper with rfl | ⟨upper,blk,rfl⟩
      · cases some_left
      · rw [List.concat_eq_append,← List.append_assoc] at copies
        rw [copies.tip_concat,List.reverse_reverse,List.concat_eq_append,← List.append_assoc,tipOf_concat]
    obtain ⟨blk,member,same⟩ := undo_tip tip some_left
    exact unfinished_rollback follows.rising (List.mem_reverse.mp member) same

end Stops

namespace SmallChain

theorem above_three : AllAbove 3 forked := by
  intro blk bytes replayed member
  simp only [forked,List.mem_cons,ChainUpgrade.rollForward.injEq,List.not_mem_nil,or_false,reduceCtorEq,false_or] at member
  rcases member with ⟨rfl,_⟩ | ⟨rfl,_⟩ | ⟨rfl,_⟩ <;> decide

def startPoint : Point := .specific 4 (digest 4)

def returned : List (ChainUpgrade (MultiEraBlock words words Bytes)) := [.rollForward babbageBlock [5] false,.rollBackward startPoint]

theorem returned_follows : Follows fromCborBytes 3 startPoint returned [] := by
  have first : Follows fromCborBytes 3 startPoint [.rollForward babbageBlock [5] false] ([] ++ [babbageBlock]) :=
    .forward .begun rfl .start (show (4 : UInt64) < 5 by decide)
  exact .backward first .start (by decide)

end SmallChain

end GreenAgent.Chain
