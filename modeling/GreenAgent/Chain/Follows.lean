import GreenAgent.Chain.EventSource

namespace GreenAgent.Chain
open Mpf (Bytes Digest)

-- What a block carries, position by position.
namespace EraBlock
variable {era : Era}

def transaction (blk : EraBlock era) (ix : Fin blk.transactionBodies.length) : Transaction era :=
  ⟨blk.transactionBodies.get ix,blk.transactionWitnessSets.get (ix.cast blk.paired.symm),true,blk.auxiliaryDataSet.lookup (UInt16.ofNat ix)⟩

def Invalid (blk : EraBlock era) (ix : Fin blk.transactionBodies.length) : Prop := ∃ listed ∈ blk.invalidTransactions,listed.toNat = ix

instance (blk : EraBlock era) (ix : Fin blk.transactionBodies.length) : Decidable (blk.Invalid ix) :=
  inferInstanceAs (Decidable (∃ listed ∈ blk.invalidTransactions,listed.toNat = ix))

def validTransactions (blk : EraBlock era) : List (Located (Transaction era)) :=
  ((List.finRange blk.transactionBodies.length).filter (fun ix => !decide (blk.Invalid ix))).map
    (fun ix => ⟨blk.transaction ix,blk.header.slot,blk.header.blockNumber,blk.hash⟩)

theorem zipIdx_positions (blk : EraBlock era) : (blk.transactionBodies.zip blk.transactionWitnessSets).zipIdx =
    (List.finRange blk.transactionBodies.length).map
      (fun ix => ((blk.transactionBodies.get ix,blk.transactionWitnessSets.get (ix.cast blk.paired.symm)),ix.val)) := by
  apply List.ext_getElem
  · simp [blk.paired]
  · intro n inside inside'
    simp

theorem contains_iff_invalid (blk : EraBlock era) (ix : Fin blk.transactionBodies.length) :
    blk.invalidTransactions.contains (UInt16.ofNat ix) = decide (blk.Invalid ix) := by
  have small : ix.val < 2^16 := ix.isLt.trans_le blk.few
  have exact_ix : (UInt16.ofNat ix).toNat = ix := UInt16.toNat_ofNat_of_lt' small
  rw [Bool.eq_iff_iff,List.contains_iff_mem,decide_eq_true_iff]
  constructor
  · exact fun listed => ⟨_,listed,exact_ix⟩
  · rintro ⟨listed,member,same⟩
    rwa [← UInt16.toNat_inj.mp (same.trans exact_ix.symm)]

theorem unpackValidTransactions_eq (blk : EraBlock era) : blk.unpackValidTransactions = blk.validTransactions := by
  unfold unpackValidTransactions validTransactions
  simp only [zipIdx_positions,List.filter_map,List.map_map,Function.comp_def,contains_iff_invalid]
  rfl

end EraBlock

namespace MultiEraBlock
variable {b c : Era} {Earlier : Type}

-- The valid transactions of a block of any era, and those an event can hold.
def validTransactions : MultiEraBlock b c Earlier → List ((Transaction b ⊕ Transaction c) ⊕ Earlier)
  | .byron _ transactions => transactions.map .inr
  | .shelley _ transactions => transactions.map .inr
  | .babbage blk => blk.validTransactions.map (fun located => .inl (.inl located.tx))
  | .conway blk => blk.validTransactions.map (fun located => .inl (.inr located.tx))

def carried : MultiEraBlock b c Earlier → List (Located (Transaction b ⊕ Transaction c))
  | .babbage blk => blk.validTransactions.map (Located.map Sum.inl)
  | .conway blk => blk.validTransactions.map (Located.map Sum.inr)
  | _ => []

theorem unpackValidTransactions_carried (blk : MultiEraBlock b c Earlier) : blk.unpackValidTransactions = blk.carried := by
  cases blk with
  | byron => rfl
  | shelley => rfl
  | babbage blk => exact congrArg (List.map (Located.map Sum.inl)) blk.unpackValidTransactions_eq
  | conway blk => exact congrArg (List.map (Located.map Sum.inr)) blk.unpackValidTransactions_eq

def Readable : MultiEraBlock b c Earlier → Prop
  | .byron _ _ => False
  | _ => True

theorem Readable.canonicalPoint {blk : MultiEraBlock b c Earlier} (readable : blk.Readable) : blk.canonicalPoint = some blk.header.point := by
  cases blk with
  | byron => exact readable.elim
  | _ => rfl

end MultiEraBlock

-- What is left of the applied transactions once every undone one is taken off
-- the end again.
inductive Leaves {Tx : Type} : List (LedgerTxEvent Tx) → List (Located Tx) → Prop where
  | nothing : Leaves [] []
  | applied : Leaves events left → Leaves (events ++ [.txApplied located]) (left ++ [located])
  | unapplied : Leaves events (left ++ [located]) → Leaves (events ++ [.txUnapplied located]) left

theorem Leaves.apply {Tx : Type} {events : List (LedgerTxEvent Tx)} {left : List (Located Tx)} (before : Leaves events left) (more : List (Located Tx)) :
    Leaves (events ++ more.map .txApplied) (left ++ more) := by
  induction more generalizing events left with
  | nil => simpa using before
  | cons first more ih =>
    have one : Leaves (events ++ [.txApplied first]) (left ++ [first]) := before.applied
    simpa using ih one

theorem Leaves.unapply {Tx : Type} {events : List (LedgerTxEvent Tx)} {left more : List (Located Tx)} (before : Leaves events (left ++ more)) :
    Leaves (events ++ (more.map .txUnapplied).reverse) left := by
  induction more using List.reverseRecOn generalizing events with
  | nil => simpa using before
  | append_singleton more last ih =>
    rw [← List.append_assoc] at before
    have all := ih before.unapplied
    simpa using all

theorem Leaves.of_nothing {Tx : Type} {left : List (Located Tx)} (none : Leaves ([] : List (LedgerTxEvent Tx)) left) : left = [] := by
  generalize same : ([] : List (LedgerTxEvent Tx)) = events at none
  cases none with
  | nothing => rfl
  | applied => simp at same
  | unapplied => simp at same

section
variable {b c : Era} {Earlier : Type}

def tipOf (chain : List (MultiEraBlock b c Earlier)) : Point := (chain.getLast?.map (fun blk => blk.header.point)).getD .origin

theorem tipOf_concat (chain : List (MultiEraBlock b c Earlier)) (blk : MultiEraBlock b c Earlier) : tipOf (chain ++ [blk]) = blk.header.point := by
  simp [tipOf]

def Point.Before : Point → UInt64 → Prop
  | .origin,_ => True
  | .specific slot _,later => slot < later

-- A point of the chain: the one of its last block, or where the node was asked
-- to begin when there is none.
inductive EndsAt (start : Point) : List (MultiEraBlock b c Earlier) → Point → Prop where
  | start : EndsAt start [] start
  | block : EndsAt start (below ++ [blk]) blk.header.point

-- The node's chain along its upgrades.
inductive Follows (fromCborBytes : Bytes → Option (MultiEraBlock b c Earlier)) (handleRollbacksAfter : UInt64) (start : Point) :
    List (ChainUpgrade (MultiEraBlock b c Earlier)) → List (MultiEraBlock b c Earlier) → Prop where
  | begun : Follows fromCborBytes handleRollbacksAfter start [] []
  | forward : Follows fromCborBytes handleRollbacksAfter start upgrades chain → fromCborBytes bytes = some blk →
      EndsAt start chain tip → tip.Before blk.header.slot →
      Follows fromCborBytes handleRollbacksAfter start (upgrades ++ [.rollForward blk bytes false]) (chain ++ [blk])
  | backward : Follows fromCborBytes handleRollbacksAfter start upgrades (below ++ above) →
      EndsAt start below point → handleRollbacksAfter < point.getSlot →
      Follows fromCborBytes handleRollbacksAfter start (upgrades ++ [.rollBackward point]) below

-- Slots only grow along a chain.
@[grind cases eager] structure Rising (start : Point) (chain : List (MultiEraBlock b c Earlier)) : Prop where
  sorted : chain.Pairwise (fun lower upper => lower.header.slot < upper.header.slot)
  later : ∀ blk ∈ chain,start.Before blk.header.slot

theorem Rising.concat {chain : List (MultiEraBlock b c Earlier)} (rising : Rising start chain) (ends : EndsAt start chain tip)
    (later : tip.Before blk.header.slot) : Rising start (chain ++ [blk]) := by
  cases ends with
  | start => exact ⟨List.pairwise_singleton _ _,fun _ member => List.mem_singleton.mp member ▸ later⟩
  | @block below last =>
    have above : ∀ lower ∈ below ++ [last],lower.header.slot < blk.header.slot := by
      intro lower member
      rcases List.mem_append.mp member with member | member
      · exact UInt64.lt_trans ((List.pairwise_append.mp rising.sorted).2.2 lower member last List.mem_cons_self) later
      · exact List.mem_singleton.mp member ▸ later
    refine ⟨List.pairwise_append.mpr ⟨rising.sorted,List.pairwise_singleton _ _,?_⟩,?_⟩
    · grind
    · intro other member
      rcases List.mem_append.mp member with member | member
      · exact rising.later other member
      · cases List.mem_singleton.mp member
        have first := rising.later last (List.mem_append_right below List.mem_cons_self)
        cases start with
        | origin => trivial
        | specific slot hash => exact UInt64.lt_trans first later

theorem Rising.below {below above : List (MultiEraBlock b c Earlier)} (rising : Rising start (below ++ above)) : Rising start below :=
  ⟨(List.pairwise_append.mp rising.sorted).1,fun blk member => rising.later blk (List.mem_append_left above member)⟩

theorem Follows.rising {fromCborBytes : Bytes → Option (MultiEraBlock b c Earlier)} {chain : List (MultiEraBlock b c Earlier)}
    (follows : Follows fromCborBytes handleRollbacksAfter start upgrades chain) : Rising start chain := by
  induction follows with
  | begun => exact ⟨.nil,fun _ member => nomatch member⟩
  | forward _ _ ends later ih => exact ih.concat ends later
  | backward _ _ _ ih => exact ih.below

theorem Rising.above {below above : List (MultiEraBlock b c Earlier)} (rising : Rising start (below ++ above)) (ends : EndsAt start below point)
    (member : blk ∈ above) : point.Before blk.header.slot := by
  cases ends with
  | start => exact rising.later blk member
  | @block below last =>
    exact (List.pairwise_append.mp rising.sorted).2.2 last (List.mem_append_right below List.mem_cons_self) blk member

theorem Point.Before.ne {point : Point} {header : Header} (earlier : point.Before header.slot) : header.point ≠ point := by
  rintro rfl
  exact UInt64.lt_irrefl _ earlier

theorem Point.Before.over {point : Point} (earlier : point.Before slot) (high : low < point.getSlot) : low < slot := by
  cases point with
  | origin => exact absurd high UInt64.not_lt_zero
  | specific own hash => exact UInt64.lt_trans high earlier

-- The cache holds the chain: its tip, and every block rollbacks are handled for,
-- linked to the one below it.
@[grind cases eager] structure Mirrors (fromCborBytes : Bytes → Option (MultiEraBlock b c Earlier)) (handleRollbacksAfter : UInt64) (cache : LedgerCache)
    (chain : List (MultiEraBlock b c Earlier)) : Prop where
  tip : cache.tip.getD .origin = tipOf chain
  stored : ∀ below blk above,chain = below ++ blk :: above → handleRollbacksAfter < blk.header.slot →
    ∃ bytes,cache.getBlock blk.header.point = some ⟨bytes,tipOf below⟩ ∧ fromCborBytes bytes = some blk
  clean : cache.getBlock .origin = none

variable {fromCborBytes : Bytes → Option (MultiEraBlock b c Earlier)} {handleRollbacksAfter : UInt64} {start : Point}

theorem Mirrors.empty : Mirrors fromCborBytes handleRollbacksAfter LedgerCache.empty [] where
  tip := rfl
  stored below blk above shape := by simp at shape
  clean := rfl

theorem Rising.lower {chain : List (MultiEraBlock b c Earlier)} {blk other : MultiEraBlock b c Earlier} (rising : Rising start (chain ++ [blk]))
    (member : other ∈ chain) : other.header.point ≠ blk.header.point := by
  have earlier : other.header.point.Before blk.header.slot :=
    (List.pairwise_append.mp rising.sorted).2.2 other member blk List.mem_cons_self
  exact earlier.ne.symm

theorem Mirrors.forward {chain : List (MultiEraBlock b c Earlier)} {blk : MultiEraBlock b c Earlier}
    (mirrors : Mirrors fromCborBytes handleRollbacksAfter cache chain) (rising : Rising start (chain ++ [blk])) (decoded : fromCborBytes bytes = some blk) :
    Mirrors fromCborBytes handleRollbacksAfter
      (if handleRollbacksAfter < blk.header.slot then cache.cacheBlock blk.header.point bytes else cache.cachePoint blk.header.point) (chain ++ [blk]) := by
  have others : ∀ point,point ≠ blk.header.point → (if handleRollbacksAfter < blk.header.slot then cache.cacheBlock blk.header.point bytes
      else cache.cachePoint blk.header.point).getBlock point = cache.getBlock point := by
    intro point differs
    split
    · exact (LedgerCache.getBlock_putBlock _ _ _ _).trans (if_neg differs)
    · rfl
  refine ⟨?_,?_,(others .origin (fun same => nomatch same)).trans mirrors.clean⟩
  · rw [tipOf_concat]
    split <;> rfl
  · intro below x above shape high
    rcases List.eq_nil_or_concat above with rfl | ⟨above,last,rfl⟩
    · obtain ⟨rfl,same⟩ := List.append_inj' shape rfl
      cases same
      refine ⟨bytes,?_,decoded⟩
      rw [if_pos high,LedgerCache.cacheBlock,LedgerCache.getBlock_putBlock,if_pos rfl,mirrors.tip]
    · rw [List.concat_eq_append,← List.cons_append,← List.append_assoc] at shape
      obtain ⟨rfl,same⟩ := List.append_inj' shape rfl
      cases same
      rw [others x.header.point (rising.lower (List.mem_append_right below List.mem_cons_self))]
      grind

theorem Mirrors.delete {chain : List (MultiEraBlock b c Earlier)} {blk : MultiEraBlock b c Earlier}
    (mirrors : Mirrors fromCborBytes handleRollbacksAfter cache (chain ++ [blk])) (rising : Rising start (chain ++ [blk])) :
    Mirrors fromCborBytes handleRollbacksAfter ((cache.delete blk.header.point).setTip (tipOf chain)) chain := by
  have others : ∀ point,point ≠ blk.header.point →
      ((cache.delete blk.header.point).setTip (tipOf chain)).getBlock point = cache.getBlock point :=
    fun point differs => (LedgerCache.getBlock_delete _ _ _).trans (if_neg differs)
  refine ⟨rfl,?_,(others .origin (fun same => nomatch same)).trans mirrors.clean⟩
  grind

theorem Mirrors.stops {chain : List (MultiEraBlock b c Earlier)} (mirrors : Mirrors fromCborBytes handleRollbacksAfter cache chain)
    (ends : EndsAt start chain point) : ∀ tip,cache.tip = some tip → tip = point ∨ cache.getBlock tip = none := by
  intro tip known
  have same := mirrors.tip
  rw [known,Option.getD_some] at same
  cases ends with
  | start => exact .inr (same ▸ mirrors.clean)
  | block => exact .inl (same.trans (tipOf_concat _ _))

theorem rollback_done {chain : List (MultiEraBlock b c Earlier)} (mirrors : Mirrors fromCborBytes handleRollbacksAfter cache chain)
    (ends : EndsAt start chain point) : rollback fromCborBytes point cache = some ([],cache) := rollback_stops (mirrors.stops ends)

theorem Mirrors.tip_concat {chain : List (MultiEraBlock b c Earlier)} {blk : MultiEraBlock b c Earlier}
    (mirrors : Mirrors fromCborBytes handleRollbacksAfter cache (chain ++ [blk])) : cache.tip = some blk.header.point := by
  have tip := mirrors.tip
  rw [tipOf_concat] at tip
  cases known : cache.tip with
  | none =>
    rw [known] at tip
    cases tip
  | some top => grind

theorem rollback_turn {chain : List (MultiEraBlock b c Earlier)} {blk : MultiEraBlock b c Earlier}
    (mirrors : Mirrors fromCborBytes handleRollbacksAfter cache (chain ++ [blk])) (high : handleRollbacksAfter < blk.header.slot)
    (further : blk.header.point ≠ point) : rollback fromCborBytes point cache =
      (rollback fromCborBytes point ((cache.delete blk.header.point).setTip (tipOf chain))).map (fun walked => (blk :: walked.1,walked.2)) := by
  obtain ⟨bytes,found,decoded⟩ := mirrors.stored chain blk [] rfl high
  exact rollback_takes mirrors.tip_concat further found decoded

theorem rollback_walks {below above : List (MultiEraBlock b c Earlier)} (mirrors : Mirrors fromCborBytes handleRollbacksAfter cache (below ++ above))
    (rising : Rising start (below ++ above)) (ends : EndsAt start below point) (handled : handleRollbacksAfter < point.getSlot) :
    ∃ cache',rollback fromCborBytes point cache = some (above.reverse,cache') ∧ Mirrors fromCborBytes handleRollbacksAfter cache' below := by
  induction above using List.reverseRecOn generalizing cache with
  | nil =>
    rw [List.append_nil] at mirrors
    exact ⟨cache,rollback_done mirrors ends,mirrors⟩
  | append_singleton above blk ih =>
    have earlier := rising.above ends (List.mem_append_right above List.mem_cons_self)
    rw [← List.append_assoc] at mirrors rising
    obtain ⟨cache',walked,left⟩ := ih (mirrors.delete rising) rising.below
    refine ⟨cache',?_,left⟩
    rw [rollback_turn mirrors (earlier.over handled) earlier.ne,walked]
    simp

theorem unapplied_events (above : List (MultiEraBlock b c Earlier)) :
    above.reverse.flatMap (fun blk => (blk.unpackValidTransactions.map LedgerTxEvent.txUnapplied).reverse)
      = ((above.flatMap MultiEraBlock.carried).map .txUnapplied).reverse := by
  induction above with
  | nil => rfl
  | cons blk above ih =>
    rw [List.reverse_cons,List.flatMap_append,ih,List.flatMap_singleton,List.flatMap_cons,List.map_append,List.reverse_append,
      blk.unpackValidTransactions_carried]

theorem process_backward {below above : List (MultiEraBlock b c Earlier)} (mirrors : Mirrors fromCborBytes handleRollbacksAfter cache (below ++ above))
    (rising : Rising start (below ++ above)) (ends : EndsAt start below point) (handled : handleRollbacksAfter < point.getSlot) :
    ∃ cache',processUpstreamByTxs fromCborBytes handleRollbacksAfter cache (.rollBackward point)
        = some (((above.flatMap MultiEraBlock.carried).map .txUnapplied).reverse,cache')
      ∧ Mirrors fromCborBytes handleRollbacksAfter cache' below := by
  obtain ⟨cache',walked,left⟩ := rollback_walks mirrors rising ends handled
  refine ⟨cache',?_,left⟩
  rw [processUpstreamByTxs,if_pos handled,walked,← unapplied_events]
  rfl

theorem process_forward {blk : MultiEraBlock b c Earlier} (readable : blk.Readable) :
    processUpstreamByTxs fromCborBytes handleRollbacksAfter cache (.rollForward blk bytes false)
      = some (blk.carried.map .txApplied,
        if handleRollbacksAfter < blk.header.slot then cache.cacheBlock blk.header.point bytes else cache.cachePoint blk.header.point) := by
  rw [processUpstreamByTxs,readable.canonicalPoint,← blk.unpackValidTransactions_carried]
  rfl

-- The run so far: its events leave the chain's transactions, its cache the chain.
@[grind cases eager] structure Synced (fromCborBytes : Bytes → Option (MultiEraBlock b c Earlier)) (handleRollbacksAfter : UInt64)
    (upgrades : List (ChainUpgrade (MultiEraBlock b c Earlier))) (chain : List (MultiEraBlock b c Earlier))
    (events : List (Event b c)) (cache : LedgerCache) : Prop where
  emitted : ledgerTransactions fromCborBytes handleRollbacksAfter upgrades = some (events,cache)
  mirrors : Mirrors fromCborBytes handleRollbacksAfter cache chain
  leaves : Leaves events (chain.flatMap MultiEraBlock.carried)

def AllReadable (upgrades : List (ChainUpgrade (MultiEraBlock b c Earlier))) : Prop :=
  ∀ blk bytes replayed,.rollForward blk bytes replayed ∈ upgrades → blk.Readable

theorem Follows.synced {chain : List (MultiEraBlock b c Earlier)} (follows : Follows fromCborBytes handleRollbacksAfter start upgrades chain)
    (readable : AllReadable upgrades) : ∃ events cache,Synced fromCborBytes handleRollbacksAfter upgrades chain events cache := by
  induction follows with
  | begun => exact ⟨[],LedgerCache.empty,rfl,.empty,.nothing⟩
  | @forward upgrades chain bytes blk tip before decoded ends later ih =>
    obtain ⟨events,cache,emitted,mirrors,leaves⟩ := ih (fun blk bytes replayed member => readable blk bytes replayed (List.mem_append_left _ member))
    have own := readable blk bytes false (List.mem_append_right _ List.mem_cons_self)
    refine ⟨events ++ blk.carried.map .txApplied,_,?_,mirrors.forward (before.rising.concat ends later) decoded,?_⟩
    · rw [ledgerTransactions_append emitted,process_forward own]
      rfl
    · rw [List.flatMap_append,List.flatMap_singleton]
      exact leaves.apply blk.carried
  | @backward upgrades below above point before ends handled ih =>
    obtain ⟨events,cache,emitted,mirrors,leaves⟩ := ih (fun blk bytes replayed member => readable blk bytes replayed (List.mem_append_left _ member))
    obtain ⟨cache',made,left⟩ := process_backward mirrors before.rising ends handled
    refine ⟨events ++ ((above.flatMap MultiEraBlock.carried).map .txUnapplied).reverse,cache',?_,left,?_⟩
    · rw [ledgerTransactions_append emitted,made]
      rfl
    · rw [List.flatMap_append] at leaves
      exact leaves.unapply

-- The events of a run name the chain's transactions, and a rollback takes back
-- those above its point, the last one first.
@[grind cases eager] structure Faithful (fromCborBytes : Bytes → Option (MultiEraBlock b c Earlier)) (handleRollbacksAfter : UInt64) (start : Point)
    (upgrades : List (ChainUpgrade (MultiEraBlock b c Earlier))) (chain : List (MultiEraBlock b c Earlier))
    (carried : MultiEraBlock b c Earlier → List (Located (Transaction b ⊕ Transaction c))) : Prop where
  settled : ∃ events cache,ledgerTransactions fromCborBytes handleRollbacksAfter upgrades = some (events,cache) ∧
    Leaves events (chain.flatMap carried)
  undone : ∀ below above point,chain = below ++ above → EndsAt start below point → handleRollbacksAfter < point.getSlot →
    ∃ events cache cache',ledgerTransactions fromCborBytes handleRollbacksAfter upgrades = some (events,cache) ∧
      ledgerTransactions fromCborBytes handleRollbacksAfter (upgrades ++ [.rollBackward point])
        = some (events ++ ((above.flatMap carried).map .txUnapplied).reverse,cache')

theorem ledger_events_follow_chain {chain : List (MultiEraBlock b c Earlier)}
    (follows : Follows fromCborBytes handleRollbacksAfter start upgrades chain) (readable : AllReadable upgrades) :
    Faithful fromCborBytes handleRollbacksAfter start upgrades chain MultiEraBlock.carried := by
  obtain ⟨events,cache,emitted,mirrors,leaves⟩ := follows.synced readable
  refine ⟨⟨events,cache,emitted,leaves⟩,?_⟩
  rintro below above point rfl ends handled
  obtain ⟨cache',made,_⟩ := process_backward mirrors follows.rising ends handled
  refine ⟨events,cache,cache',emitted,?_⟩
  rw [ledgerTransactions_append emitted,made]
  rfl

end

-- A chain of small blocks whose bytes are their number.
namespace SmallChain

def words : Era := ⟨Bytes,Bytes,Bytes⟩

def digest (byte : UInt8) : Digest := ⟨List.replicate 32 byte,rfl⟩

def alonzoBlock : MultiEraBlock words words Bytes := .shelley ⟨2,1,digest 2⟩ [[7]]

def babbageBlock : MultiEraBlock words words Bytes := .babbage ⟨⟨5,2,digest 5⟩,[[10],[11]],[[],[]],∅,[],digest 15,rfl,by decide⟩

-- The first transaction of this block failed its script.
def conwayBlock : MultiEraBlock words words Bytes := .conway ⟨⟨9,3,digest 9⟩,[[20],[21],[22]],[[],[],[]],∅,[0],digest 19,rfl,by decide⟩

def fromCborBytes (bytes : Bytes) : Option (MultiEraBlock words words Bytes) :=
  if bytes = [2] then some alonzoBlock
  else if bytes = [5] then some babbageBlock
  else if bytes = [9] then some conwayBlock
  else none

def forked : List (ChainUpgrade (MultiEraBlock words words Bytes)) :=
  [.rollForward babbageBlock [5] false,.rollForward conwayBlock [9] false,.rollBackward (.specific 5 (digest 5)),
    .rollForward conwayBlock [9] false]

theorem forked_follows : Follows fromCborBytes 3 .origin forked [babbageBlock,conwayBlock] := by
  have first : Follows fromCborBytes 3 .origin [.rollForward babbageBlock [5] false] [babbageBlock] := .forward .begun rfl .start trivial
  have ends : EndsAt .origin [babbageBlock] (.specific 5 (digest 5)) :=
    show EndsAt .origin ([] ++ [babbageBlock]) babbageBlock.header.point from .block
  have later : (Point.specific 5 (digest 5)).Before conwayBlock.header.slot := show (5 : UInt64) < 9 by decide
  have second : Follows fromCborBytes 3 .origin [.rollForward babbageBlock [5] false,.rollForward conwayBlock [9] false] ([babbageBlock] ++ [conwayBlock]) :=
    .forward first rfl ends later
  have back : Follows fromCborBytes 3 .origin
      [.rollForward babbageBlock [5] false,.rollForward conwayBlock [9] false,.rollBackward (.specific 5 (digest 5))] [babbageBlock] :=
    .backward second ends (by decide)
  exact .forward back rfl ends later

theorem forked_readable : AllReadable forked := by
  intro blk bytes replayed member
  simp only [forked,List.mem_cons,ChainUpgrade.rollForward.injEq,List.not_mem_nil,or_false,reduceCtorEq,false_or] at member
  rcases member with ⟨rfl,_⟩ | ⟨rfl,_⟩ | ⟨rfl,_⟩ <;> trivial

end SmallChain

open SmallChain in
theorem forked_events_follow : babbageBlock.carried.length = 2 ∧ conwayBlock.carried.length = 2 ∧
    Faithful SmallChain.fromCborBytes 3 .origin forked [babbageBlock,conwayBlock] MultiEraBlock.carried :=
  ⟨by decide,by decide,ledger_events_follow_chain forked_follows forked_readable⟩

-- The transactions of a block before Babbage never become events.
open SmallChain in
theorem alonzo_transactions_missing : Follows SmallChain.fromCborBytes 0 .origin [.rollForward alonzoBlock [2] false] [alonzoBlock] ∧
    (∃ cache,ledgerTransactions SmallChain.fromCborBytes 0 [.rollForward alonzoBlock [2] false] = some ([],cache)) ∧
    ¬ ∃ left,Leaves ([] : List (Event words words)) left ∧ left.map (fun located => Sum.inl located.tx) = [alonzoBlock].flatMap MultiEraBlock.validTransactions := by
  refine ⟨.forward .begun rfl .start trivial,⟨_,rfl⟩,?_⟩
  rintro ⟨left,leaves,same⟩
  cases leaves.of_nothing
  cases same

end GreenAgent.Chain
