import GreenAgent.Lib.BigEndian
import GreenAgent.Mpf.Model

namespace GreenAgent.Account
open Mpf (Bytes Digest ProofStep)

structure AccountId where
  bytes : Digest
deriving DecidableEq

structure OutputRef where
  txHash : Digest
  index : UInt64
deriving DecidableEq

-- `[u8; 28]`, the size of script and key hashes.
structure Hash28 where
  bytes : Bytes
  size : bytes.length = 28
deriving DecidableEq

def Hash28.filled (byte : UInt8) : Hash28 := ⟨List.replicate 28 byte,List.length_replicate⟩

structure Token where
  policy : Hash28
  assetName : Bytes
deriving DecidableEq

inductive AssetClass where
  | native
  | token (token : Token)
deriving DecidableEq

inductive AlephAccountAbi where
  | legacy
  | current
deriving DecidableEq

structure AlephAccountState where
  abi : AlephAccountAbi
  magic : Bytes
  allowlist : List Hash28
  nonce : List Int64
  mainKey : Bytes
  coKey : Option Bytes
  coldKeyHash : Hash28
  storeRoot : Digest
deriving DecidableEq

structure AlephIntention where
  abi : AlephAccountAbi
  targetNonceIndex : UInt16
  targetNonceValue : UInt64
  leavingAsset : AssetClass
  leavingAmount : UInt64
  arrivingAsset : AssetClass
  expectedArrivingAmount : UInt64
  feeLovelace : UInt64
  operator : Hash28
deriving DecidableEq

structure GreenOrderId where
  accountId : AccountId
  targetNonceSlot : UInt16
  targetNonceValue : UInt64
  originalIntentDigest : Digest
deriving DecidableEq

def aikenConstr0Cbor (fields : List Bytes) : Bytes := [0xd8,0x79,0x9f] ++ fields.flatten ++ [0xff]

def aikenTuple2Cbor (fields : List Bytes) : Bytes := [0x9f] ++ fields.flatten ++ [0xff]

def aikenUintCbor (value : UInt64) : Bytes :=
  if value ≤ 23 then [value.toUInt8]
  else if value ≤ 0xff then [0x18,value.toUInt8]
  else if value ≤ 0xffff then 0x19 :: BigEndian.bigEndian 2 value.toNat
  else if value ≤ 0xffffffff then 0x1a :: BigEndian.bigEndian 4 value.toNat
  else 0x1b :: BigEndian.bigEndian 8 value.toNat

def aikenBytesCbor (bytes : Bytes) : Bytes :=
  let len := bytes.length
  (if len ≤ 23 then [0x40 ||| UInt8.ofNat len]
  else if len ≤ 0xff then [0x58,UInt8.ofNat len]
  else if len ≤ 0xffff then 0x59 :: BigEndian.bigEndian 2 len
  else if len ≤ 0xffffffff then 0x5a :: BigEndian.bigEndian 4 len
  else 0x5b :: BigEndian.bigEndian 8 len) ++ bytes

def assetClassAikenCbor : AssetClass → Bytes
  | .native => aikenTuple2Cbor [aikenBytesCbor [],aikenBytesCbor []]
  | .token token => aikenTuple2Cbor [aikenBytesCbor token.policy.bytes,aikenBytesCbor token.assetName]

def AlephIntention.aikenCbor (intent : AlephIntention) : Bytes :=
  let nonceCbor := match intent.abi with
    | .legacy => aikenUintCbor intent.targetNonceValue
    | .current => aikenTuple2Cbor [aikenUintCbor intent.targetNonceIndex.toUInt64,aikenUintCbor intent.targetNonceValue]
  aikenConstr0Cbor [nonceCbor,assetClassAikenCbor intent.leavingAsset,aikenUintCbor intent.leavingAmount,
    assetClassAikenCbor intent.arrivingAsset,aikenUintCbor intent.expectedArrivingAmount,
    aikenUintCbor intent.feeLovelace,aikenBytesCbor intent.operator.bytes]

-- Code the repository calls but does not contain: the hash, the CBOR writer for
-- proofs, and the reading of an account datum from a transaction output of type
-- `O` (address test included). `O` is `TransactionOutput`.
structure Externals (O : Type) where
  blake2b256 : Bytes → Digest
  proofToCbor : List ProofStep → Bytes
  accountState : O → Option AlephAccountState

def AlephIntention.digest (ext : Externals O) (intent : AlephIntention) : Digest := ext.blake2b256 intent.aikenCbor

-- `FinalizedTxOut(TransactionOutput, OutputRef)`.
structure FinalizedTxOut (O : Type) where
  output : O
  reference : OutputRef
deriving DecidableEq

structure AlephAccountUtxo (O : Type) where
  outputRef : OutputRef
  output : O
  state : AlephAccountState
deriving DecidableEq

def AlephAccountUtxo.tryParse (ext : Externals O) (outputRef : OutputRef) (output : O) : Option (AlephAccountUtxo O) :=
  (ext.accountState output).map (fun state => ⟨outputRef,output,state⟩)

def AlephAccountUtxo.finalizedOutput (account : AlephAccountUtxo O) : FinalizedTxOut O :=
  ⟨account.output,account.outputRef⟩

end GreenAgent.Account
