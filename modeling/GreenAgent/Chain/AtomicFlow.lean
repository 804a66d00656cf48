import GreenAgent.Chain.Resume

namespace GreenAgent.Chain
open Mpf (Bytes Digest)

inductive BlockEvents (T : Type) where
  | rollForward (events : List T) (blockNum blockSlot : UInt64)
  | rollBackward (events : List T) (blockNum blockSlot : UInt64)

namespace MultiEraBlock
variable {b c : Era} {Earlier : Type}

def appliedTxs (blk : MultiEraBlock b c Earlier) : BlockEvents (Transaction b ⊕ Transaction c) :=
  .rollForward (blk.unpackValidTransactions.map Located.tx) blk.header.blockNumber blk.header.slot

def unappliedTxs (blk : MultiEraBlock b c Earlier) : BlockEvents (Transaction b ⊕ Transaction c) :=
  .rollBackward (blk.unpackValidTransactions.map Located.tx).reverse blk.header.blockNumber blk.header.slot

end MultiEraBlock

namespace AtomicFlow
variable {b c : Era} {Earlier : Type} (fromCborBytes : Bytes → Option (MultiEraBlock b c Earlier))

abbrev Events (b c : Era) := List (BlockEvents (Transaction b ⊕ Transaction c))

-- Replayed or not, a block is cached on top of the current tip.
def step (cache : LedgerCache) : ChainUpgrade (MultiEraBlock b c Earlier) → Option (Events b c × LedgerCache)
  | .rollForward blk blkBytes _ => do
    let point ← blk.canonicalPoint
    return ([blk.appliedTxs],cache.cacheBlock point blkBytes)
  | .rollBackward point => do
    let (blocks,cache) ← rollback fromCborBytes point cache
    return (blocks.map MultiEraBlock.unappliedTxs,cache)

def replayedBlocks (replayFrom : Option Point) (cache : LedgerCache) : List (ChainUpgrade (MultiEraBlock b c Earlier)) :=
  (replayFrom.elim [] cache.replay).filterMap (fun linked => (fromCborBytes linked.bytes).map (fun blk => .rollForward blk linked.bytes true))

def steps (cache : LedgerCache) (upgrades : List (ChainUpgrade (MultiEraBlock b c Earlier))) : Option (Events b c × LedgerCache) :=
  upgrades.foldlM (fun (state : Events b c × LedgerCache) upgrade => do
    let (events,cache) ← step fromCborBytes state.2 upgrade
    return (state.1 ++ events,cache)) ([],cache)

def run (replayFrom : Option Point) (cache : LedgerCache) (upstream : List (ChainUpgrade (MultiEraBlock b c Earlier))) : Option (Events b c × LedgerCache) :=
  steps fromCborBytes cache (replayedBlocks fromCborBytes replayFrom cache ++ upstream)

end AtomicFlow

section Links
variable {b c : Era} {Earlier : Type}

def prevOf (bottom : Point) (below : List (MultiEraBlock b c Earlier)) : Point := (below.getLast?.map (fun blk => blk.header.point)).getD bottom

-- The links lead from the tip through every cached block, and then outside.
@[grind cases eager] structure LinkedChain (fromCborBytes : Bytes → Option (MultiEraBlock b c Earlier)) (bottom : Point) (chain : List (MultiEraBlock b c Earlier))
    (cache : LedgerCache) : Prop where
  distinct : (chain.map (fun blk => blk.header.point)).Nodup
  readable : ∀ blk ∈ chain,blk.Readable
  tip : ∃ below last,chain = below ++ [last] ∧ cache.tip = some last.header.point
  stored : ∀ below blk above,chain = below ++ blk :: above → ∃ bytes,cache.getBlock blk.header.point = some ⟨bytes,prevOf bottom below⟩ ∧ fromCborBytes bytes = some blk
  only : ∀ key linked,cache.blocks.lookup key = some linked → ∃ blk ∈ chain,key = pointKey blk.header.point
  outside : cache.getBlock bottom = none

-- The replay leaves the tip and every link as they were, and a rollback to a
-- cached point takes off exactly the blocks above it.
def KeepsLinks (fromCborBytes : Bytes → Option (MultiEraBlock b c Earlier)) (chain : List (MultiEraBlock b c Earlier)) (replayFrom : Option Point)
    (cache : LedgerCache) : Prop :=
  ∃ events after,AtomicFlow.run fromCborBytes replayFrom cache [] = some (events,after) ∧
    after.tip = cache.tip ∧ (∀ point,(after.getBlock point).map LinkedBlock.prev = (cache.getBlock point).map LinkedBlock.prev) ∧
    ∀ below blk above,chain = below ++ blk :: above →
      ∃ last,AtomicFlow.run fromCborBytes replayFrom cache [.rollBackward blk.header.point] = some (events ++ above.reverse.map MultiEraBlock.unappliedTxs,last) ∧
        last.tip = some blk.header.point

variable {fromCborBytes : Bytes → Option (MultiEraBlock b c Earlier)} {bottom : Point} {chain : List (MultiEraBlock b c Earlier)} {cache : LedgerCache}

theorem prevOf_concat (bottom : Point) (below : List (MultiEraBlock b c Earlier)) (blk : MultiEraBlock b c Earlier) :
    prevOf bottom (below ++ [blk]) = blk.header.point := by
  simp [prevOf]

theorem LinkedChain.tip_concat {last : MultiEraBlock b c Earlier} (linked : LinkedChain fromCborBytes bottom (chain ++ [last]) cache) :
    cache.tip = some last.header.point := by
  obtain ⟨below,top,shape,tip⟩ := linked.tip
  cases (List.append_inj' shape rfl).2
  exact tip

theorem LinkedChain.delete {below : List (MultiEraBlock b c Earlier)} {last top : MultiEraBlock b c Earlier}
    (linked : LinkedChain fromCborBytes bottom (below ++ [last] ++ [top]) cache) :
    LinkedChain fromCborBytes bottom (below ++ [last]) ((cache.delete top.header.point).setTip last.header.point) := by
  have distinct := linked.distinct
  rw [List.map_append] at distinct
  obtain ⟨kept,_,apart⟩ := List.nodup_append'.mp distinct
  have others : ∀ blk ∈ below ++ [last],blk.header.point ≠ top.header.point :=
    fun blk member same => apart (List.mem_map_of_mem member) (by rw [same]; exact List.mem_cons_self)
  refine ⟨kept,fun blk member => linked.readable blk (List.mem_append_left _ member),⟨below,last,rfl,rfl⟩,?_,?_,?_⟩
  · intro front blk above shape
    obtain ⟨bytes,found,decoded⟩ := linked.stored front blk (above ++ [top]) (by rw [shape]; simp)
    have member : blk ∈ below ++ [last] := by rw [shape]; exact List.mem_append_right _ List.mem_cons_self
    refine ⟨bytes,?_,decoded⟩
    exact ((LedgerCache.getBlock_delete _ _ _).trans (if_neg (others blk member))).trans found
  · intro key block found
    unfold LedgerCache.delete LedgerCache.setTip at found
    dsimp only at found
    rw [HashMap.lookup_erase] at found
    obtain ⟨differs,found⟩ := Option.ite_none_left_eq_some.mp found
    obtain ⟨blk,member,named⟩ := linked.only key block found
    grind
  · refine (LedgerCache.getBlock_delete _ _ _).trans ?_
    grind

theorem LinkedChain.rollback {below above : List (MultiEraBlock b c Earlier)} {blk : MultiEraBlock b c Earlier}
    (linked : LinkedChain fromCborBytes bottom (below ++ blk :: above) cache) :
    ∃ last,Chain.rollback fromCborBytes blk.header.point cache = some (above.reverse,last) ∧ last.tip = some blk.header.point := by
  induction above using List.reverseRecOn generalizing cache with
  | nil =>
    have tip := linked.tip_concat
    exact ⟨cache,rollback_stops (fun top known => .inl (Option.some.inj (known.symm.trans tip))),tip⟩
  | append_singleton above top ih =>
    have shape : below ++ blk :: (above ++ [top]) = (below ++ blk :: above) ++ [top] := by simp
    rw [shape] at linked
    obtain ⟨bytes,found,decoded⟩ := linked.stored (below ++ blk :: above) top [] rfl
    have further : top.header.point ≠ blk.header.point := by grind
    rcases List.eq_nil_or_concat (below ++ blk :: above) with empty | ⟨front,last,concat⟩
    · simp at empty
    · rw [List.concat_eq_append] at concat
      have rest := linked
      rw [concat] at rest found
      have fewer := rest.delete
      rw [← concat] at fewer
      obtain ⟨final,walked,tip⟩ := ih fewer
      rw [prevOf_concat] at found
      refine ⟨final,?_,tip⟩
      rw [rollback_takes linked.tip_concat further found decoded,walked]
      simp

theorem steps_forward {blocks : List (MultiEraBlock b c Earlier × Bytes)} (readable : ∀ entry ∈ blocks,entry.1.Readable) :
    AtomicFlow.steps fromCborBytes cache (blocks.map (fun entry => .rollForward entry.1 entry.2 true)) =
      some (blocks.map (fun entry => entry.1.appliedTxs),blocks.foldl (fun cache entry => cache.cacheBlock entry.1.header.point entry.2) cache) := by
  have gathered : ∀ (cache : LedgerCache) (events : AtomicFlow.Events b c),(blocks.map (fun entry => ChainUpgrade.rollForward entry.1 entry.2 true)).foldlM
      (fun (state : AtomicFlow.Events b c × LedgerCache) upgrade => do
        let (events,cache) ← AtomicFlow.step fromCborBytes state.2 upgrade
        return (state.1 ++ events,cache)) (events,cache) =
      some (events ++ blocks.map (fun entry => entry.1.appliedTxs),blocks.foldl (fun cache entry => cache.cacheBlock entry.1.header.point entry.2) cache) := by
    induction blocks with
    | nil => simp
    | cons entry blocks ih =>
      intro cache events
      have first : AtomicFlow.step fromCborBytes cache (.rollForward entry.1 entry.2 true) =
          some ([entry.1.appliedTxs],cache.cacheBlock entry.1.header.point entry.2) := by
        rw [AtomicFlow.step,(readable entry List.mem_cons_self).canonicalPoint]
        rfl
      grind
  exact gathered cache []

theorem LinkedChain.cached (linked : LinkedChain fromCborBytes bottom chain cache) {key : Bytes} {block : LinkedBlock}
    (found : cache.blocks.lookup key = some block) : ∃ blk ∈ chain,key = pointKey blk.header.point ∧ fromCborBytes block.bytes = some blk := by
  obtain ⟨blk,member,rfl⟩ := linked.only key block found
  obtain ⟨below,above,shape⟩ := List.append_of_mem member
  obtain ⟨bytes,own,decoded⟩ := linked.stored below blk above shape
  cases own.symm.trans found
  exact ⟨blk,member,rfl,decoded⟩

theorem decoded_entries {entries : List (Sigma fun _ : Bytes => LinkedBlock)}
    (cached : ∀ e ∈ entries,∃ blk ∈ chain,e.1 = pointKey blk.header.point ∧ fromCborBytes e.2.bytes = some blk) :
    ∃ blocks : List (MultiEraBlock b c Earlier × Bytes),
      (entries.map (fun e => e.2)).filterMap (fun linked => (fromCborBytes linked.bytes).map (fun blk => ChainUpgrade.rollForward blk linked.bytes true)) =
        blocks.map (fun entry => .rollForward entry.1 entry.2 true) ∧
      (∀ entry ∈ blocks,entry.1 ∈ chain) ∧ entries.map (fun e => e.1) = blocks.map (fun entry => pointKey entry.1.header.point) := by
  induction entries with
  | nil => exact ⟨[],rfl,fun _ member => absurd member List.not_mem_nil,rfl⟩
  | cons e entries ih =>
    obtain ⟨blk,member,named,decoded⟩ := cached e List.mem_cons_self
    obtain ⟨blocks,made,members,keys⟩ := ih (fun e inside => cached e (List.mem_cons_of_mem _ inside))
    refine ⟨(blk,e.2.bytes) :: blocks,?_,?_,?_⟩
    · simp [decoded,made]
    · grind
    grind

theorem LinkedChain.replayed (linked : LinkedChain fromCborBytes bottom chain cache) (fromPoint : Point) :
    ∃ blocks : List (MultiEraBlock b c Earlier × Bytes),
      AtomicFlow.replayedBlocks fromCborBytes (some fromPoint) cache = blocks.map (fun entry => .rollForward entry.1 entry.2 true) ∧
      (∀ entry ∈ blocks,entry.1 ∈ chain) ∧ (blocks.map (fun entry => entry.1.header.point)).Nodup ∧
      (blocks = [] ↔ ∀ blk ∈ chain,LedgerCache.keyOrder (pointKey blk.header.point) < LedgerCache.keyOrder (pointKey fromPoint)) := by
  let within := cache.blocks.entries.filter (fun e => LedgerCache.keyOrder (pointKey fromPoint) ≤ LedgerCache.keyOrder e.1)
  let entries := Sorting.sortBy (fun e : Sigma fun _ : Bytes => LinkedBlock => LedgerCache.keyOrder e.1) within
  have perm : entries.Perm within := Sorting.sortBy_perm _ _
  have cached : ∀ e ∈ entries,∃ blk ∈ chain,e.1 = pointKey blk.header.point ∧ fromCborBytes e.2.bytes = some blk :=
    fun e member => linked.cached (HashMap.mem_entries.mp (List.mem_of_mem_filter (perm.mem_iff.mp member)))
  have keysDistinct : (entries.map (fun e => e.1)).Nodup := by
    refine (perm.map _).nodup_iff.mpr ?_
    exact cache.blocks.nodupKeys.sublist List.filter_sublist
  obtain ⟨blocks,made,members,keys⟩ := decoded_entries cached
  refine ⟨blocks,made,members,?_,?_⟩
  · grind
  · have same : blocks = [] ↔ within = [] := by
      rw [← List.map_eq_nil_iff (f := fun entry => pointKey entry.1.header.point),← keys,List.map_eq_nil_iff]
      exact ⟨fun empty => (List.perm_nil.mp (empty ▸ perm.symm)),fun empty => List.perm_nil.mp (empty ▸ perm)⟩
    rw [same,List.filter_eq_nil_iff]
    constructor
    · intro none blk member
      obtain ⟨below,above,shape⟩ := List.append_of_mem member
      obtain ⟨bytes,found,_⟩ := linked.stored below blk above shape
      exact not_le.mp (fun after => none _ (HashMap.mem_entries.mpr found) (decide_eq_true after))
    · intro all e member after
      obtain ⟨blk,inside,named,_⟩ := linked.cached (HashMap.mem_entries.mp member)
      grind

theorem cacheBlocks_other {blocks : List (MultiEraBlock b c Earlier × Bytes)} {point : Point} (apart : ∀ entry ∈ blocks,entry.1.header.point ≠ point) :
    (blocks.foldl (fun cache entry => cache.cacheBlock entry.1.header.point entry.2) cache).getBlock point = cache.getBlock point := by
  induction blocks generalizing cache with
  | nil => rfl
  | cons entry blocks ih =>
    rw [List.foldl_cons,ih (fun other member => apart other (List.mem_cons_of_mem _ member))]
    exact (LedgerCache.getBlock_putBlock _ _ _ _).trans (if_neg (apart entry List.mem_cons_self).symm)

theorem LinkedChain.acyclic (linked : LinkedChain fromCborBytes bottom chain cache) {below above : List (MultiEraBlock b c Earlier)}
    {blk : MultiEraBlock b c Earlier} (shape : chain = below ++ blk :: above) : cache.tip ≠ some (prevOf bottom below) := by
  obtain ⟨front,last,concat,tip⟩ := linked.tip
  rw [tip]
  intro same
  have point : last.header.point = prevOf bottom below := Option.some.inj same
  rcases List.eq_nil_or_concat below with rfl | ⟨lower,prev,rfl⟩
  · obtain ⟨bytes,found,_⟩ := linked.stored front last [] concat
    rw [point] at found
    cases found.symm.trans linked.outside
  · rw [List.concat_eq_append,prevOf_concat] at point
    have distinct := linked.distinct
    rw [shape,List.map_append] at distinct
    have top : (blk :: above).getLast? = some last := by
      rw [← List.getLast?_append_cons (lower.concat prev),← shape,concat]
      simp
    grind

theorem LinkedChain.relinked (linked : LinkedChain fromCborBytes bottom chain cache) {fromPoint : Point} {blk : MultiEraBlock b c Earlier}
    (member : blk ∈ chain) (reached : LedgerCache.keyOrder (pointKey fromPoint) ≤ LedgerCache.keyOrder (pointKey blk.header.point)) :
    ¬KeepsLinks fromCborBytes chain (some fromPoint) cache := by
  rintro ⟨events,after,ran,_,links,_⟩
  obtain ⟨blocks,made,members,distinct,empty⟩ := linked.replayed fromPoint
  cases blocks with
  | nil => exact absurd (empty.mp rfl blk member) (not_lt.mpr reached)
  | cons entry blocks =>
    rw [AtomicFlow.run,List.append_nil,made,steps_forward (fun entry member => linked.readable _ (members entry member))] at ran
    cases ran
    obtain ⟨below,above,shape⟩ := List.append_of_mem (members entry List.mem_cons_self)
    obtain ⟨bytes,found,_⟩ := linked.stored below entry.1 above shape
    have apart : ∀ other ∈ blocks,other.1.header.point ≠ entry.1.header.point :=
      fun other member same => (List.nodup_cons.mp distinct).1 (List.mem_map.mpr ⟨other,member,same⟩)
    have link := links entry.1.header.point
    rw [List.foldl_cons,cacheBlocks_other apart,found,LedgerCache.cacheBlock,LedgerCache.getBlock_putBlock,if_pos rfl] at link
    obtain ⟨front,last,_,tip⟩ := linked.tip
    rw [tip] at link
    exact linked.acyclic shape (tip.trans link)

theorem replay_keeps_links_iff (linked : LinkedChain fromCborBytes bottom chain cache) (replayFrom : Option Point) :
    KeepsLinks fromCborBytes chain replayFrom cache ↔
      ∀ fromPoint,replayFrom = some fromPoint → ∀ blk ∈ chain,LedgerCache.keyOrder (pointKey blk.header.point) < LedgerCache.keyOrder (pointKey fromPoint) := by
  constructor
  · rintro keeps fromPoint rfl blk member
    exact not_le.mp (fun reached => linked.relinked member reached keeps)
  · intro beyond
    have none : AtomicFlow.replayedBlocks fromCborBytes replayFrom cache = [] := by
      cases replayFrom with
      | none => rfl
      | some fromPoint =>
        obtain ⟨blocks,made,_,_,empty⟩ := linked.replayed fromPoint
        rw [made,empty.mpr (beyond fromPoint rfl)]
        rfl
    refine ⟨[],cache,?_,rfl,fun _ => rfl,?_⟩
    · rw [AtomicFlow.run,none]
      rfl
    · rintro below blk above rfl
      obtain ⟨last,walked,tip⟩ := linked.rollback
      refine ⟨last,?_,tip⟩
      rw [AtomicFlow.run,none,AtomicFlow.steps,List.nil_append,List.foldlM_cons,AtomicFlow.step,walked]
      rfl

theorem Copies.linkedChain {handleRollbacksAfter : UInt64} {start : Point} (copies : Copies fromCborBytes handleRollbacksAfter cache chain)
    (rising : Rising start chain) (high : ∀ blk ∈ chain,handleRollbacksAfter < blk.header.slot) (readable : ∀ blk ∈ chain,blk.Readable)
    (present : chain ≠ []) : LinkedChain fromCborBytes .origin chain cache := by
  refine ⟨?_,readable,?_,fun below blk above shape => ?_,copies.only,copies.clean⟩
  · refine List.pairwise_map.mpr (rising.sorted.imp ?_)
    intro lower upper less
    exact Ne.symm (Point.Before.ne (show (lower.header.point).Before upper.header.slot from less))
  · rcases List.eq_nil_or_concat chain with empty | ⟨below,last,shape⟩
    · exact absurd empty present
    · rw [List.concat_eq_append] at shape
      subst shape
      exact ⟨below,last,rfl,copies.tip_concat⟩
  · exact copies.stored below blk above shape (high blk (by rw [shape]; exact List.mem_append_right _ List.mem_cons_self))

end Links

namespace SmallChain

def grown : List (ChainUpgrade (MultiEraBlock words words Bytes)) := [.rollForward babbageBlock [5] false,.rollForward conwayBlock [9] false]

def grownCache : LedgerCache := (LedgerCache.empty.cacheBlock babbageBlock.header.point [5]).cacheBlock conwayBlock.header.point [9]

theorem grownCache_linked : LinkedChain fromCborBytes .origin [babbageBlock,conwayBlock] grownCache := by
  have first : Follows fromCborBytes 3 .origin [.rollForward babbageBlock [5] false] [babbageBlock] := .forward .begun rfl .start trivial
  have ends : EndsAt .origin [babbageBlock] babbageBlock.header.point := show EndsAt .origin ([] ++ [babbageBlock]) _ from .block
  have follows : Follows fromCborBytes 3 .origin grown [babbageBlock,conwayBlock] := .forward first rfl ends (show (5 : UInt64) < 9 by decide)
  have above : AllAbove 3 grown := by
    intro blk bytes replayed member
    simp only [grown,List.mem_cons,ChainUpgrade.rollForward.injEq,List.not_mem_nil,or_false] at member
    rcases member with ⟨rfl,_⟩ | ⟨rfl,_⟩ <;> decide
  have done : ledgerTransactions fromCborBytes 3 grown = some (_,grownCache) := rfl
  refine (follows.copies above done).1.linkedChain follows.rising (follows.high above) ?_ (List.cons_ne_nil _ _)
  intro blk member
  simp only [List.mem_cons,List.not_mem_nil,or_false] at member
  rcases member with rfl | rfl <;> trivial

end SmallChain

open SmallChain in
theorem replay_beyond_tip : KeepsLinks SmallChain.fromCborBytes [babbageBlock,conwayBlock] (some (.specific 10 (digest 0))) grownCache := by
  refine (replay_keeps_links_iff grownCache_linked _).mpr ?_
  rintro fromPoint same blk member
  cases same
  simp only [List.mem_cons,List.not_mem_nil,or_false] at member
  rcases member with rfl | rfl <;> decide

open SmallChain in
-- The block replayed first becomes the successor of the tip, that is of its own
-- successor.
theorem replay_closes_cycle : LinkedChain SmallChain.fromCborBytes .origin [babbageBlock,conwayBlock] grownCache ∧
    (AtomicFlow.run SmallChain.fromCborBytes (some babbageBlock.header.point) grownCache []).map
      (fun ran => ((ran.2.getBlock babbageBlock.header.point).map LinkedBlock.prev,(ran.2.getBlock conwayBlock.header.point).map LinkedBlock.prev)) =
        some (some conwayBlock.header.point,some babbageBlock.header.point) ∧
    ¬KeepsLinks SmallChain.fromCborBytes [babbageBlock,conwayBlock] (some babbageBlock.header.point) grownCache :=
  ⟨grownCache_linked,by decide +kernel,grownCache_linked.relinked List.mem_cons_self (by decide)⟩

end GreenAgent.Chain
