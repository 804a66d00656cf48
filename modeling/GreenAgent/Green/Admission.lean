import GreenAgent.Cardano.Output
import GreenAgent.Account.Identity
import GreenAgent.Green.Order
import GreenAgent.Engine.Executor

namespace GreenAgent.Green
open Mpf (Bytes Digest)
open Account (AccountId AssetClass Hash28 Externals FinalizedTxOut AccountIndex AlephAccountUtxo GreenOrderId)
open Cardano (TransactionOutput)
open Engine (Bundled)

structure GreenOrdersConfig where
  allowPartial : Bool

inductive WireGreenAuth where
  | sig (prefixBytes postfixBytes signature updateProof : String)
  | path (proof : String)

structure WireGreenIntent where
  accountId : String
  originalIntentDigest : String
  inputAsset : AssetClass
  outputAsset : AssetClass
  leavingAmount : UInt64
  expectedArrivingAmount : UInt64
  feeLovelace : UInt64
  targetNonceSlot : UInt16
  targetNonceValue : UInt64
  operatorKeyHash : String
  auth : WireGreenAuth

structure RawGreenIntent where
  accountId : AccountId
  originalIntentDigest : Digest
  intention : GreenIntention
  auth : GreenAuth
deriving DecidableEq

inductive AdmissionError where
  | partialNotAllowed
  | missingAccount
  | accountParseFailed
  | staleNonce
  | nonAdaLeavingAsset
  | insufficientAccountBalance
deriving DecidableEq

def hexValue (c : Char) : Option Nat :=
  if 0x30 ≤ c.toNat ∧ c.toNat ≤ 0x39 then some (c.toNat - 0x30)
  else if 0x61 ≤ c.toNat ∧ c.toNat ≤ 0x66 then some (c.toNat - 0x61 + 10)
  else if 0x41 ≤ c.toNat ∧ c.toNat ≤ 0x46 then some (c.toNat - 0x41 + 10)
  else none

def hexDecodeChars : List Char → Option Bytes
  | [] => some []
  | [_] => none
  | high :: low :: rest => do
    let high ← hexValue high
    let low ← hexValue low
    let bytes ← hexDecodeChars rest
    return .ofNat (16 * high + low) :: bytes

def hexDecode (text : String) : Option Bytes := hexDecodeChars text.toList

def bytes32 (bytes : Bytes) : Option Digest := if size : bytes.length = 32 then some ⟨bytes,size⟩ else none

def bytes28 (bytes : Bytes) : Option Hash28 := if size : bytes.length = 28 then some ⟨bytes,size⟩ else none

-- No proof of an update comes with a signature.
def GreenAuth.newSig (prefixBytes postfixBytes signature updateProof : Bytes) : Option GreenAuth :=
  if signature.length ≠ 64 then none
  else if updateProof ≠ [] then none
  else some (.sig prefixBytes postfixBytes signature updateProof)

def GreenAuth.isPath : GreenAuth → Bool
  | .path _ => true
  | .sig .. => false

def WireGreenAuth.parse : WireGreenAuth → Option GreenAuth
  | .sig prefixBytes postfixBytes signature updateProof => do
    GreenAuth.newSig (← hexDecode prefixBytes) (← hexDecode postfixBytes) (← hexDecode signature) (← hexDecode updateProof)
  | .path proof => do return .path (← hexDecode proof)

-- The digest of the original intent is taken as it comes.
def RawGreenIntent.tryFrom (wire : WireGreenIntent) : Option RawGreenIntent := do
  let accountId ← bytes32 (← hexDecode wire.accountId)
  let originalIntentDigest ← bytes32 (← hexDecode wire.originalIntentDigest)
  let operatorKeyHash ← bytes28 (← hexDecode wire.operatorKeyHash)
  let auth ← wire.auth.parse
  return {
    accountId:=⟨accountId⟩,
    originalIntentDigest:=originalIntentDigest,
    intention:={
      inputAsset:=wire.inputAsset,
      outputAsset:=wire.outputAsset,
      leavingAmount:=wire.leavingAmount,
      expectedArrivingAmount:=wire.expectedArrivingAmount,
      feeLovelace:=wire.feeLovelace,
      targetNonceSlot:=wire.targetNonceSlot,
      targetNonceValue:=wire.targetNonceValue,
      operatorKeyHash:=operatorKeyHash},
    auth:=auth}

def RawGreenIntent.order (raw : RawGreenIntent) : GreenOrder where
  id := ⟨raw.accountId,raw.intention.targetNonceSlot,raw.intention.targetNonceValue,raw.originalIntentDigest⟩
  accountId := raw.accountId
  currentRemainder := raw.intention.leavingAmount
  accumulatedOutput := 0
  intention := raw.intention
  auth := raw.auth

section
variable {D : Type} (ext : Externals (TransactionOutput D)) (config : GreenOrdersConfig) (index : AccountIndex (TransactionOutput D))

def admitGreenIntent (raw : RawGreenIntent) : Except AdmissionError (Bundled GreenOrder (FinalizedTxOut (TransactionOutput D))) :=
  if raw.auth.isPath && !config.allowPartial then .error .partialNotAllowed
  else if raw.intention.inputAsset ≠ .native then .error .nonAdaLeavingAsset
  else match index.current raw.accountId with
    | none => .error .missingAccount
    | some bearer => match AlephAccountUtxo.tryParse ext bearer.reference bearer.output with
      | none => .error .accountParseFailed
      | some account => match account.state.nonce[raw.intention.targetNonceSlot.toNat]? with
        | none => .error .staleNonce
        | some currentNonce =>
          if raw.intention.targetNonceValue.toInt64 < currentNonce then .error .staleNonce
          else match U64.checkedAdd raw.intention.leavingAmount raw.intention.feeLovelace with
            | none => .error .insufficientAccountBalance
            | some requiredLovelace =>
              if (account.output.value.amountOf .native).getD 0 < requiredLovelace then .error .insufficientAccountBalance
              else .ok ⟨raw.order,account.finalizedOutput⟩

-- All that admission asks for.
@[grind cases eager] structure Admits (raw : RawGreenIntent) (account : AlephAccountUtxo (TransactionOutput D)) : Prop where
  policy : raw.auth.isPath = true → config.allowPartial = true
  ada : raw.intention.inputAsset = .native
  indexed : index.current raw.accountId = some account.finalizedOutput
  parsed : ext.accountState account.output = some account.state
  nonce : ∃ currentNonce, account.state.nonce[raw.intention.targetNonceSlot.toNat]? = some currentNonce ∧
    ¬raw.intention.targetNonceValue.toInt64 < currentNonce
  funds : raw.intention.leavingAmount.toNat + raw.intention.feeLovelace.toNat ≤ account.output.value.coin.toNat

theorem admit_ok_iff {raw : RawGreenIntent} {admitted : Bundled GreenOrder (FinalizedTxOut (TransactionOutput D))} :
    admitGreenIntent ext config index raw = .ok admitted ↔
      ∃ account, Admits ext config index raw account ∧ admitted = ⟨raw.order,account.finalizedOutput⟩ := by
  unfold admitGreenIntent
  constructor
  · intro done
    split at done
    · cases done
    rename_i policy
    split at done
    · cases done
    rename_i ada
    split at done
    · cases done
    rename_i bearer current
    split at done
    · cases done
    rename_i account read
    obtain ⟨state,parsed,rfl⟩ := Option.map_eq_some_iff.mp read
    split at done
    · cases done
    rename_i currentNonce slot
    split at done
    · cases done
    rename_i fresh
    split at done
    · cases done
    rename_i required sum
    split at done
    · cases done
    rename_i enough
    refine ⟨⟨bearer.reference,bearer.output,state⟩,⟨?_,Decidable.not_not.mp ada,current,parsed,⟨currentNonce,slot,fresh⟩,?_⟩,(Except.ok.inj done).symm⟩
    · grind
    · rw [← U64.checkedAdd_some.mp sum]
      exact UInt64.le_iff_toNat_le.mp (UInt64.not_lt.mp enough)
  · rintro ⟨account,admits,rfl⟩
    obtain ⟨currentNonce,slot,fresh⟩ := admits.nonce
    have policy : ¬(raw.auth.isPath && !config.allowPartial) = true := by grind
    have read : AlephAccountUtxo.tryParse ext account.finalizedOutput.reference account.finalizedOutput.output = some account := by
      unfold AlephAccountUtxo.tryParse AlephAccountUtxo.finalizedOutput
      simp only [admits.parsed,Option.map_some]
    have small : raw.intention.leavingAmount.toNat + raw.intention.feeLovelace.toNat ≤ U64.max := le_trans admits.funds (U64.le_max _)
    have sum : U64.checkedAdd raw.intention.leavingAmount raw.intention.feeLovelace = some (raw.intention.leavingAmount + raw.intention.feeLovelace) :=
      if_pos small
    have enough : ¬account.output.value.coin < raw.intention.leavingAmount + raw.intention.feeLovelace := by
      rw [UInt64.not_lt,UInt64.le_iff_toNat_le,U64.checkedAdd_some.mp sum]
      exact admits.funds
    rw [if_neg policy,if_neg (not_not_intro admits.ada)]
    simp only [admits.indexed,read,slot,if_neg fresh,sum,Cardano.Value.amountOf,Option.getD_some]
    exact if_neg enough

end

theorem hexDecode_ofList (chars : List Char) : hexDecode (String.ofList chars) = hexDecodeChars chars := by simp [hexDecode]

-- An account of five ADA, and an intent of its owner.
def walletDatums : Cardano.Datums Account.AlephAccountState := ⟨fun _ => true,some,id⟩

def walletExternals : Externals (TransactionOutput Account.AlephAccountState) := walletDatums.externals Mpf.blake2b256 (fun _ => [0x9f,0xff])

def walletState : Account.AlephAccountState :=
  ⟨.current,[0x61],[.filled 3],[0],[1],none,.filled 0,Mpf.emptyRoot⟩

def walletUtxo : AlephAccountUtxo (TransactionOutput Account.AlephAccountState) :=
  ⟨⟨Mpf.digestOf 5,0⟩,⟨[0x70],.lovelace 5000000,some walletState⟩,walletState⟩

def walletIndex : AccountIndex (TransactionOutput Account.AlephAccountState) :=
  ((AccountIndex.default.observeCreatedOrUpdated walletUtxo).bindExternalAccountIdOnce ⟨Mpf.digestOf 1⟩ walletUtxo.outputRef).1

def walletWire : WireGreenIntent where
  accountId := String.ofList (List.replicate 63 '0' ++ ['1'])
  originalIntentDigest := String.ofList (List.replicate 63 '0' ++ ['a'])
  inputAsset := .native
  outputAsset := .token ⟨.filled 1,[0x41]⟩
  leavingAmount := 1000000
  expectedArrivingAmount := 500000
  feeLovelace := 100000
  targetNonceSlot := 0
  targetNonceValue := 1
  operatorKeyHash := String.ofList (List.replicate 56 '0')
  auth := .sig (String.ofList []) (String.ofList []) (String.ofList (List.replicate 128 '0')) (String.ofList [])

def walletRaw : RawGreenIntent where
  accountId := ⟨Mpf.digestOf 1⟩
  originalIntentDigest := Mpf.digestOf 10
  intention := ⟨.native,.token ⟨.filled 1,[0x41]⟩,1000000,500000,100000,0,1,.filled 0⟩
  auth := .sig [] [] (List.replicate 64 0) []

theorem bytes32_val (digest : Digest) : bytes32 digest.1 = some digest := dif_pos digest.2

theorem walletWire_parsed : RawGreenIntent.tryFrom walletWire = some walletRaw := by
  have account : hexDecode walletWire.accountId = some (Mpf.digestOf 1).1 := (hexDecode_ofList _).trans (by decide)
  have digest : hexDecode walletWire.originalIntentDigest = some (Mpf.digestOf 10).1 := (hexDecode_ofList _).trans (by decide)
  have operator : hexDecode walletWire.operatorKeyHash = some (List.replicate 28 0) := (hexDecode_ofList _).trans (by decide)
  have signature : hexDecode (String.ofList (List.replicate 128 '0')) = some (List.replicate 64 0) := (hexDecode_ofList _).trans (by decide)
  have empty : hexDecode (String.ofList []) = some [] := (hexDecode_ofList _).trans rfl
  have sized : bytes28 (List.replicate 28 0) = some (.filled 0) := dif_pos List.length_replicate
  have auth : walletWire.auth.parse = some (.sig [] [] (List.replicate 64 0) []) := by
    unfold walletWire WireGreenAuth.parse
    simp only
    rw [empty,signature]
    decide
  unfold RawGreenIntent.tryFrom
  rw [account,digest,operator,auth]
  simp only [bytes32_val,sized,Option.bind_eq_bind,Option.bind_some]
  rfl

theorem wallet_admits : Admits walletExternals ⟨false⟩ walletIndex walletRaw walletUtxo where
  policy := nofun
  ada := rfl
  indexed := rfl
  parsed := rfl
  nonce := ⟨0,rfl,by decide⟩
  funds := by decide

end GreenAgent.Green
