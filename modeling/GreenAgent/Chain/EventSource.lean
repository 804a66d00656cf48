import GreenAgent.Lib.BigEndian
import GreenAgent.Lib.HashMap
import GreenAgent.Lib.Sorting
import GreenAgent.Mpf.Model

namespace GreenAgent.Chain
open Mpf (Bytes Digest)

inductive Point where
  | origin
  | specific (slot : UInt64) (hash : Digest)
deriving DecidableEq

def Point.getSlot : Point → UInt64
  | .origin => 0
  | .specific slot _ => slot

-- What the agent reads of a header; `hash` is the digest of its bytes.
structure Header where
  slot : UInt64
  blockNumber : UInt64
  hash : Digest

def Header.point (header : Header) : Point := .specific header.slot header.hash

structure Era where
  Body : Type
  WitnessSet : Type
  AuxiliaryData : Type

structure Transaction (era : Era) where
  body : era.Body
  witnessSet : era.WitnessSet
  isValid : Bool
  auxiliaryData : Option era.AuxiliaryData

-- `hash` is the digest of the whole block's bytes, which is what the events name.
structure EraBlock (era : Era) where
  header : Header
  transactionBodies : List era.Body
  transactionWitnessSets : List era.WitnessSet
  auxiliaryDataSet : HashMap UInt16 era.AuxiliaryData
  invalidTransactions : List UInt16
  hash : Digest
  paired : transactionWitnessSets.length = transactionBodies.length
  few : transactionBodies.length ≤ 2^16

-- Shelley, Allegra, Mary and Alonzo blocks share their header; of those and of
-- the Byron blocks only the header is ever looked at.
inductive MultiEraBlock (babbage conway : Era) (Earlier : Type) where
  | byron (header : Header) (transactions : List Earlier)
  | shelley (header : Header) (transactions : List Earlier)
  | babbage (blk : EraBlock babbage)
  | conway (blk : EraBlock conway)

structure Located (Tx : Type) where
  tx : Tx
  slot : UInt64
  blockNumber : UInt64
  blockHash : Digest

inductive LedgerTxEvent (Tx : Type) where
  | txApplied (located : Located Tx)
  | txUnapplied (located : Located Tx)

inductive ChainUpgrade (Block : Type) where
  | rollForward (blk : Block) (blkBytes : Bytes) (replayed : Bool)
  | rollBackward (point : Point)

-- The transactions of a block that did not fail their scripts. The auxiliary
-- data is taken out of its map, which is a look up as no index comes twice.
def EraBlock.unpackValidTransactions (blk : EraBlock era) : List (Located (Transaction era)) :=
  let entries := (blk.transactionBodies.zip blk.transactionWitnessSets).zipIdx
  let valid := entries.filter (fun entry => !blk.invalidTransactions.contains (UInt16.ofNat entry.2))
  valid.map (fun entry =>
    ⟨⟨entry.1.1,entry.1.2,true,blk.auxiliaryDataSet.lookup (UInt16.ofNat entry.2)⟩,blk.header.slot,blk.header.blockNumber,blk.hash⟩)

def Located.map (f : Tx → Tx') (located : Located Tx) : Located Tx' := {located with tx:=f located.tx}

namespace MultiEraBlock
variable {b c : Era} {Earlier : Type}

def header : MultiEraBlock b c Earlier → Header
  | .byron header _ => header
  | .shelley header _ => header
  | .babbage blk => blk.header
  | .conway blk => blk.header

-- `hash_block_header_canonical_multi_era`: a Byron header makes it panic.
def canonicalPoint : MultiEraBlock b c Earlier → Option Point
  | .byron _ _ => none
  | blk => some blk.header.point

def unpackValidTransactions : MultiEraBlock b c Earlier → List (Located (Transaction b ⊕ Transaction c))
  | .babbage blk => blk.unpackValidTransactions.map (Located.map Sum.inl)
  | .conway blk => blk.unpackValidTransactions.map (Located.map Sum.inr)
  | _ => []

end MultiEraBlock

structure LinkedBlock where
  bytes : Bytes
  prev : Point

-- "b:", the slot in big endian, the hash.
def pointKey (point : Point) : Bytes :=
  let located : UInt64 × Bytes := match point with
    | .origin => (0,[])
    | .specific slot hash => (slot,hash.bytes)
  [98,58] ++ BigEndian.bigEndian 8 located.1.toNat ++ located.2

-- The database: the tip is under a key of its own, the blocks under `pointKey`.
structure LedgerCache where
  tip : Option Point
  blocks : HashMap Bytes LinkedBlock

namespace LedgerCache

def empty : LedgerCache := ⟨none,∅⟩

def setTip (cache : LedgerCache) (point : Point) : LedgerCache := {cache with tip:=some point}

def putBlock (cache : LedgerCache) (point : Point) (block : LinkedBlock) : LedgerCache :=
  {cache with blocks:=cache.blocks.insert (pointKey point) block}

def getBlock (cache : LedgerCache) (point : Point) : Option LinkedBlock := cache.blocks.lookup (pointKey point)

def delete (cache : LedgerCache) (point : Point) : LedgerCache :=
  {cache with blocks:=cache.blocks.erase (pointKey point)}

def cacheBlock (cache : LedgerCache) (point : Point) (bytes : Bytes) : LedgerCache :=
  (cache.setTip point).putBlock point ⟨bytes,cache.tip.getD .origin⟩

def cachePoint (cache : LedgerCache) (point : Point) : LedgerCache := cache.setTip point

-- The database compares keys byte by byte.
def keyOrder (key : Bytes) : List Nat := key.map UInt8.toNat

-- The iterator from a point on: the key of the tip is below all block keys.
def replay (cache : LedgerCache) (fromPoint : Point) : List LinkedBlock :=
  let entries := cache.blocks.entries.filter (fun e => keyOrder (pointKey fromPoint) ≤ keyOrder e.1)
  (Sorting.sortBy (fun e => keyOrder e.1) entries).map (fun e => e.2)

theorem mem_replay {cache : LedgerCache} {fromPoint : Point} {linked : LinkedBlock} : linked ∈ cache.replay fromPoint ↔
    ∃ key,cache.blocks.lookup key = some linked ∧ keyOrder (pointKey fromPoint) ≤ keyOrder key := by
  unfold replay
  simp only [List.mem_map,(Sorting.sortBy_perm _ _).mem_iff,List.mem_filter,decide_eq_true_eq]
  constructor
  · rintro ⟨⟨key,value⟩,⟨member,after⟩,rfl⟩
    exact ⟨key,HashMap.mem_entries.mp member,after⟩
  · rintro ⟨key,found,after⟩
    exact ⟨⟨key,linked⟩,⟨HashMap.mem_entries.mpr found,after⟩,rfl⟩

end LedgerCache

section
variable {Block : Type} (fromCborBytes : Bytes → Option Block)

-- The walk of a rollback, as the blocks it yields and the cache it leaves; a
-- block that does not deserialize is a panic.
def rollback (toPoint : Point) (cache : LedgerCache) : Option (List Block × LedgerCache) :=
  match cache.tip with
  | none => some ([],cache)
  | some tip =>
    if tip = toPoint then some ([],cache)
    else match _ : cache.getBlock tip with
      | none => some ([],cache)
      | some linked => do
        let block ← fromCborBytes linked.bytes
        let (rest,cache) ← rollback toPoint ((cache.delete tip).setTip linked.prev)
        return (block :: rest,cache)
termination_by cache.blocks.keys.length
decreasing_by exact HashMap.erase_shorter ‹_›

end

section
variable {b c : Era} {Earlier : Type} (fromCborBytes : Bytes → Option (MultiEraBlock b c Earlier)) (handleRollbacksAfter : UInt64)

abbrev Event (b c : Era) := LedgerTxEvent (Transaction b ⊕ Transaction c)

def processUpstreamByTxs (cache : LedgerCache) : ChainUpgrade (MultiEraBlock b c Earlier) → Option (List (Event b c) × LedgerCache)
  | .rollForward blk blkBytes replayed => do
    let point ← blk.canonicalPoint
    let cached :=
      if replayed then cache
      else if handleRollbacksAfter < blk.header.slot then cache.cacheBlock point blkBytes
      else cache.cachePoint point
    return (blk.unpackValidTransactions.map .txApplied,cached)
  | .rollBackward point =>
    if handleRollbacksAfter < point.getSlot then do
      let (blocks,cache) ← rollback fromCborBytes point cache
      return (blocks.flatMap (fun blk => (blk.unpackValidTransactions.map .txUnapplied).reverse),cache)
    else some ([],cache)

-- The stream without replay, as the events emitted for a sequence of upgrades.
def ledgerTransactions (upgrades : List (ChainUpgrade (MultiEraBlock b c Earlier))) : Option (List (Event b c) × LedgerCache) :=
  upgrades.foldlM (fun (state : List (Event b c) × LedgerCache) upgrade => do
    let (events,cache) ← processUpstreamByTxs fromCborBytes handleRollbacksAfter state.2 upgrade
    return (state.1 ++ events,cache)) ([],LedgerCache.empty)

end

theorem pointKey_inj (same : pointKey p = pointKey q) : p = q := by
  unfold pointKey at same
  cases p with
  | origin => cases q with
    | origin => rfl
    | specific slot hash =>
      have lengths := congrArg List.length same
      simp [BigEndian.bigEndian_length,hash.size] at lengths
  | specific slot hash => cases q with
    | origin =>
      have lengths := congrArg List.length same
      simp [BigEndian.bigEndian_length,hash.size] at lengths
    | specific slot' hash' =>
      simp only [List.append_assoc,List.append_cancel_left_eq] at same
      obtain ⟨slots,hashes⟩ := List.append_inj same (by simp [BigEndian.bigEndian_length])
      have slots := UInt64.toNat_inj.mp (BigEndian.bigEndian_inj slot.toNat_lt slot'.toNat_lt slots)
      cases hash; cases hash'
      cases hashes
      rw [slots]

theorem rollback_stops {Block : Type} {fromCborBytes : Bytes → Option Block} {cache : LedgerCache}
    (stops : ∀ tip,cache.tip = some tip → tip = toPoint ∨ cache.getBlock tip = none) : rollback fromCborBytes toPoint cache = some ([],cache) := by
  rw [rollback]
  split
  · rfl
  grind

theorem rollback_takes {Block : Type} {fromCborBytes : Bytes → Option Block} {cache : LedgerCache} {block : Block} (known : cache.tip = some tip)
    (further : tip ≠ toPoint) (found : cache.getBlock tip = some linked) (decoded : fromCborBytes linked.bytes = some block) :
    rollback fromCborBytes toPoint cache =
      (rollback fromCborBytes toPoint ((cache.delete tip).setTip linked.prev)).map (fun walked => (block :: walked.1,walked.2)) := by
  rw [rollback]
  split
  · grind
  · rename_i top same
    cases same.symm.trans known
    rw [if_neg further]
    split
    · grind
    · rename_i stored
      cases stored.symm.trans found
      rw [decoded]
      cases rollback fromCborBytes toPoint ((cache.delete tip).setTip linked.prev) <;> rfl

namespace LedgerCache

theorem getBlock_putBlock (cache : LedgerCache) (point other : Point) (block : LinkedBlock) :
    (cache.putBlock point block).getBlock other = if other = point then some block else cache.getBlock other := by
  unfold getBlock putBlock
  rw [HashMap.lookup_insert]
  by_cases same : other = point
  · grind
  · rw [if_neg same,if_neg (fun keys => same (pointKey_inj keys))]

theorem getBlock_delete (cache : LedgerCache) (point other : Point) :
    (cache.delete point).getBlock other = if other = point then none else cache.getBlock other := by
  unfold getBlock delete
  rw [HashMap.lookup_erase]
  by_cases same : other = point
  · grind
  · rw [if_neg same,if_neg (fun keys => same (pointKey_inj keys))]

end LedgerCache

theorem ledgerTransactions_append {b c : Era} {Earlier : Type} {fromCborBytes : Bytes → Option (MultiEraBlock b c Earlier)}
    {upgrades : List (ChainUpgrade (MultiEraBlock b c Earlier))} {upgrade : ChainUpgrade (MultiEraBlock b c Earlier)} {events : List (Event b c)}
    (done : ledgerTransactions fromCborBytes after upgrades = some (events,cache)) :
    ledgerTransactions fromCborBytes after (upgrades ++ [upgrade])
      = (processUpstreamByTxs fromCborBytes after cache upgrade).map (fun made => (events ++ made.1,made.2)) := by
  unfold ledgerTransactions at done ⊢
  rw [List.foldlM_append,done,Option.bind_eq_bind,Option.bind_some,List.foldlM_cons]
  cases processUpstreamByTxs fromCborBytes after cache upgrade <;> rfl

end GreenAgent.Chain
