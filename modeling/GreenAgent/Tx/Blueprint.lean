import GreenAgent.Lib.Sorting
import GreenAgent.Cardano.Output
import GreenAgent.Green.Order
import Mathlib.Data.Prod.Lex
import Mathlib.Data.List.Lex
import Mathlib.Data.Finset.Insert

namespace GreenAgent.Account

-- The derived order: the bytes of the hash, then the index.
def OutputRef.key (reference : OutputRef) : List Nat ×ₗ Nat :=
  toLex (reference.txHash.bytes.map UInt8.toNat,reference.index.toNat)

theorem OutputRef.key_injective : Function.Injective OutputRef.key := by
  intro a b same
  have parts := Prod.mk.inj (toLex.injective same)
  have bytes : a.txHash.bytes = b.txHash.bytes := List.map_injective_iff.mpr (fun _ _ => UInt8.toNat_inj.mp) parts.1
  obtain ⟨⟨aBytes,aSize⟩,aIndex⟩ := a
  obtain ⟨⟨bBytes,bSize⟩,bIndex⟩ := b
  cases bytes
  cases UInt64.toNat_inj.mp parts.2
  rfl

instance : LinearOrder OutputRef := LinearOrder.lift' OutputRef.key OutputRef.key_injective

end GreenAgent.Account

namespace GreenAgent.Tx
open Mpf (Bytes)
open Account (OutputRef Hash28 FinalizedTxOut AlephIntention)
open Cardano (TransactionOutput Value)
open Green (GreenAuth ExUnits)

def scale (units : ExUnits) (factor : Nat) : ExUnits := ⟨units.mem * factor,units.steps * factor⟩

-- Two validators are equal when their hashes are.
structure DeployedValidatorErased where
  hash : Hash28
  exBudget : ExUnits
  marginalCost : ExUnits
deriving DecidableEq

inductive AlephAccountAction where
  | delegate (index : Nat)
  | direct
deriving DecidableEq

-- What a script input is spent with. Pools are told their own position.
inductive Redeemer (D : Type) where
  | account (action : AlephAccountAction)
  | swap (poolInputIndex : Nat)
  | data (data : D)
deriving DecidableEq

structure AlephAuthorizedIntention where
  intent : AlephIntention
  remainder : UInt64
  auth : GreenAuth
deriving DecidableEq

abbrev TxInputsOrdering := HashMap OutputRef Nat

-- `none` where the source panics.
def TxInputsOrdering.indexOf (ordering : TxInputsOrdering) (reference : OutputRef) : Option Nat := ordering.lookup reference

abbrev DelayedRedeemer (D : Type) := TxInputsOrdering → Option (Redeemer D)

def readyRedeemer (redeemer : Redeemer D) : DelayedRedeemer D := fun _ => some redeemer

def poolRedeemer (reference : OutputRef) : DelayedRedeemer D := fun ordering => (ordering.indexOf reference).map .swap

structure ScriptWitness where
  hash : Hash28
  cost : Nat → ExUnits

def validatorCost (validator : DeployedValidatorErased) (selfIndex : Nat) : ExUnits :=
  validator.exBudget + scale validator.marginalCost selfIndex

structure ScriptInputBlueprint (D : Type) where
  reference : OutputRef
  utxo : TransactionOutput D
  script : ScriptWitness
  redeemer : DelayedRedeemer D
  requiredSigners : List Hash28

def ScriptInputBlueprint.finalized (spent : ScriptInputBlueprint D) : FinalizedTxOut (TransactionOutput D) :=
  ⟨spent.utxo,spent.reference⟩

structure TxBlueprint (D : Type) where
  scriptIo : List (ScriptInputBlueprint D × TransactionOutput D)
  accountScriptRefs : Finset OutputRef
  alephBatchWitness : Option (DeployedValidatorErased × List (OutputRef × AlephAuthorizedIntention))

namespace TxBlueprint
variable {D : Type}

def new : TxBlueprint D := ⟨[],∅,none⟩

def addIo (blueprint : TxBlueprint D) (spent : ScriptInputBlueprint D) (output : TransactionOutput D) : TxBlueprint D :=
  {blueprint with scriptIo:=blueprint.scriptIo ++ [(spent,output)]}

def addAccountIo (blueprint : TxBlueprint D) (spent : ScriptInputBlueprint D) (output : TransactionOutput D) : TxBlueprint D :=
  {blueprint with
    scriptIo:=blueprint.scriptIo ++ [(spent,output)]
    accountScriptRefs:=insert spent.reference blueprint.accountScriptRefs}

-- One transaction has one batch validator: another one is a panic.
def addAlephBatchIntention (blueprint : TxBlueprint D) (witness : DeployedValidatorErased) (accountRef : OutputRef)
    (intention : AlephAuthorizedIntention) : Option (TxBlueprint D) :=
  match blueprint.alephBatchWitness with
  | some (existing,intentions) =>
    if existing.hash = witness.hash then
      some {blueprint with alephBatchWitness:=some (existing,intentions ++ [(accountRef,intention)])}
    else none
  | none => some {blueprint with alephBatchWitness:=some (witness,[(accountRef,intention)])}

def forcesOperatorFundingInput (blueprint : TxBlueprint D) : Bool := blueprint.alephBatchWitness.isSome

end TxBlueprint

inductive FundingIo (D : Type) where
  | replaced (consumed : FinalizedTxOut (TransactionOutput D)) (produced : TransactionOutput D)
  | added (unused : FinalizedTxOut (TransactionOutput D)) (produced : TransactionOutput D)
  | notUsed (unused : FinalizedTxOut (TransactionOutput D))

-- An entry of the transaction: a script input with its output, or an output of
-- the operator with the funding input it replaces, if it replaces one.
inductive Entry (D : Type) where
  | script (spent : ScriptInputBlueprint D) (output : TransactionOutput D)
  | operator (funding : Option (FinalizedTxOut (TransactionOutput D))) (output : TransactionOutput D)

namespace Entry
variable {D : Type}

def spent : Entry D → Option (FinalizedTxOut (TransactionOutput D))
  | script spent _ => some spent.finalized
  | operator funding _ => funding

def reference (entry : Entry D) : Option OutputRef := entry.spent.map FinalizedTxOut.reference

def output : Entry D → TransactionOutput D
  | script _ output => output
  | operator _ output => output

def rank (force : Bool) (accounts : Finset OutputRef) : Entry D → Nat
  | script spent _ => if force then if spent.reference ∈ accounts then 0 else 2 else 1
  | operator (some _) _ => 1
  | operator none _ => if force then 3 else 0

def cmp (force : Bool) (accounts : Finset OutputRef) (lh rh : Entry D) : Ordering :=
  (compare (lh.rank force accounts) (rh.rank force accounts)).then
    (match lh.reference,rh.reference with
    | some lhRef,some rhRef => compare lhRef rhRef
    | _,_ => .eq)

def requiredSigners (accounts : Finset OutputRef) : Entry D → List Hash28
  | script spent _ => if spent.reference ∈ accounts then spent.requiredSigners else []
  | operator _ _ => []

end Entry

def minSafeLovelaceValue : UInt64 := 1000000

-- What the operator puts in and takes out. `sub_unsafe` and `add_unsafe` do not
-- check the amounts.
def operatorIo (force : Bool) (rewardAddress : Bytes) (funding : FinalizedTxOut (TransactionOutput D))
    (interest reserve : UInt64) : List (Entry D) × FundingIo D :=
  let reward : TransactionOutput D := ⟨rewardAddress,.lovelace interest,none⟩
  let reserved : TransactionOutput D :=
    if 0 < reserve then {funding.output with value:=funding.output.value.subUnsafe .native reserve} else funding.output
  if 0 < interest then
    if minSafeLovelaceValue ≤ interest ∧ force = false then
      ([.operator none reward],if rewardAddress = funding.output.address then .added funding reward else .notUsed funding)
    else if force then
      let produced : TransactionOutput D :=
        if interest < minSafeLovelaceValue then {reserved with value:=reserved.value.addUnsafe .native interest} else reserved
      (.operator (some funding) produced :: if minSafeLovelaceValue ≤ interest then [.operator none reward] else [],
        .replaced funding produced)
    else
      let produced : TransactionOutput D := ⟨funding.output.address,funding.output.value.addUnsafe .native interest,none⟩
      ([.operator (some funding) produced],.replaced funding produced)
  else if force then ([.operator (some funding) reserved],.replaced funding reserved)
  else ([],.notUsed funding)

-- What the transaction builder accepts: a script input for the script it is
-- spent with, an input of a payment key, and an output of enough lovelace.
structure BuilderRules (D : Type) where
  scriptInput : Hash28 → TransactionOutput D → Bool
  keyInput : TransactionOutput D → Bool
  output : TransactionOutput D → Bool

structure TransactionBuilder (D : Type) where
  inputs : List (FinalizedTxOut (TransactionOutput D))
  outputs : List (TransactionOutput D)
  redeemers : List (OutputRef × Redeemer D)
  exUnits : List (Nat × ExUnits)
  requiredSigners : List Hash28
  batch : Option (Hash28 × List AlephAuthorizedIntention × ExUnits)

namespace TransactionBuilder
variable {D : Type}

def start (requiredSigners : List Hash28) (batch : Option (Hash28 × List AlephAuthorizedIntention × ExUnits)) :
    TransactionBuilder D := ⟨[],[],[],[],requiredSigners,batch⟩

-- The inputs as the ledger sees them. Outputs stay in the order they were added.
def ledgerInputs (txb : TransactionBuilder D) : List (FinalizedTxOut (TransactionOutput D)) :=
  Sorting.sortBy FinalizedTxOut.reference txb.inputs

def addEntry (rules : BuilderRules D) (ordering : TxInputsOrdering) (txb : TransactionBuilder D) :
    Entry D → Option (TransactionBuilder D)
  | .script spent output => do
    let redeemer ← spent.redeemer ordering
    let index ← ordering.indexOf spent.reference
    if rules.scriptInput spent.script.hash spent.utxo ∧ rules.output output then
      some {txb with
        inputs:=txb.inputs ++ [spent.finalized]
        outputs:=txb.outputs ++ [output]
        redeemers:=txb.redeemers ++ [(spent.reference,redeemer)]
        exUnits:=txb.exUnits ++ [(index,spent.script.cost index)]}
    else none
  | .operator funding output =>
    if (∀ consumed ∈ funding, rules.keyInput consumed.output) ∧ rules.output output then
      some {txb with inputs:=txb.inputs ++ funding.toList,outputs:=txb.outputs ++ [output]}
    else none

end TransactionBuilder

-- `sort_by_key`: the keys of a list of one are not asked for.
def sortIntentions (ordering : TxInputsOrdering) (intentions : List (OutputRef × AlephAuthorizedIntention)) :
    Option (List (OutputRef × AlephAuthorizedIntention)) :=
  if intentions.length < 2 then some intentions
  else (intentions.mapM (fun entry => (ordering.indexOf entry.1).map (fun index => (index,entry)))).map
    (fun keyed => (Sorting.sortBy Prod.fst keyed).map Prod.snd)

namespace TxBlueprint
variable {D : Type}

def allIo (blueprint : TxBlueprint D) (operator : List (Entry D)) : List (Entry D) :=
  (blueprint.scriptIo.map (fun io => Entry.script io.1 io.2) ++ operator).insertionSort
    (fun lh rh => (Entry.cmp blueprint.forcesOperatorFundingInput blueprint.accountScriptRefs lh rh).isLE)

def inputsOrdering (allIo : List (Entry D)) : TxInputsOrdering :=
  Sorting.positions (Sorting.sortBy (fun reference => reference) (allIo.filterMap Entry.reference))

def requiredSigners (blueprint : TxBlueprint D) (allIo : List (Entry D)) : List Hash28 :=
  (allIo.flatMap (Entry.requiredSigners blueprint.accountScriptRefs)).dedup

def alephBatch (blueprint : TxBlueprint D) (ordering : TxInputsOrdering) :
    Option (Option (Hash28 × List AlephAuthorizedIntention × ExUnits)) :=
  match blueprint.alephBatchWitness with
  | some (witness,intentions) => (sortIntentions ordering intentions).map (fun sorted =>
      some (witness.hash,sorted.map Prod.snd,validatorCost witness sorted.length))
  | none => some none

def projectOntoBuilder (rules : BuilderRules D) (blueprint : TxBlueprint D) (rewardAddress : Bytes)
    (funding : FinalizedTxOut (TransactionOutput D)) (interest reserve : UInt64) :
    Option (TransactionBuilder D × FundingIo D) := do
  let operator := operatorIo blueprint.forcesOperatorFundingInput rewardAddress funding interest reserve
  let allIo := blueprint.allIo operator.1
  let ordering := inputsOrdering allIo
  let batch ← blueprint.alephBatch ordering
  let txb ← allIo.foldlM (TransactionBuilder.addEntry rules ordering) (.start (blueprint.requiredSigners allIo) batch)
  some (txb,operator.2)

end TxBlueprint

end GreenAgent.Tx
