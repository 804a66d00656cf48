import GreenAgent.Account.Types

namespace GreenAgent.Cardano
open Mpf (Bytes)
open Account (AssetClass Token Hash28)

-- `PlutusData` without the encodings it remembers.
inductive PlutusData where
  | constr (alternative : Nat) (fields : List PlutusData)
  | map (entries : List (PlutusData × PlutusData))
  | list (items : List PlutusData)
  | integer (value : Int)
  | bytes (raw : Bytes)

namespace PlutusData

def intoConstrPd : PlutusData → Option (Nat × List PlutusData)
  | .constr alternative fields => some (alternative,fields)
  | _ => none

def intoBytes : PlutusData → Option Bytes
  | .bytes raw => some raw
  | _ => none

def intoU64 : PlutusData → Option Nat
  | .integer value => if 0 ≤ value ∧ value < 2^64 then some value.toNat else none
  | _ => none

def intoVec : PlutusData → Option (List PlutusData)
  | .list items => some items
  | _ => none

def ofU64 (value : Nat) : PlutusData := .integer value

theorem intoU64_ofU64 {value : Nat} (small : value < 2^64) : intoU64 (ofU64 value) = some value := by
  have range : (0 : Int) ≤ value ∧ (value : Int) < 2^64 := ⟨Int.natCast_nonneg _,by exact_mod_cast small⟩
  rw [ofU64,intoU64,if_pos range,Int.toNat_natCast]

theorem intoU64_some {data : PlutusData} {value : Nat} (parsed : data.intoU64 = some value) : data = ofU64 value ∧ value < 2^64 := by
  cases data with
  | integer number =>
    simp only [intoU64] at parsed
    split at parsed
    case isTrue range =>
      cases parsed
      refine ⟨congrArg integer (Int.toNat_of_nonneg range.1).symm,?_⟩
      have large := range.2
      omega
    case isFalse => cases parsed
  | _ => cases parsed

theorem intoBytes_some {data : PlutusData} {result : Bytes} (parsed : data.intoBytes = some result) : data = .bytes result := by
  cases data with
  | bytes _ => cases parsed; rfl
  | _ => cases parsed

theorem intoConstrPd_some {data : PlutusData} {result : Nat × List PlutusData} (parsed : data.intoConstrPd = some result) :
    data = .constr result.1 result.2 := by
  cases data with
  | constr _ _ => cases parsed; rfl
  | _ => cases parsed

theorem intoVec_some {data : PlutusData} {result : List PlutusData} (parsed : data.intoVec = some result) : data = .list result := by
  cases data with
  | list _ => cases parsed; rfl
  | _ => cases parsed

-- `none` where the index is out of bounds, which panics.
def setField (fields : List PlutusData) (index : Nat) (value : PlutusData) : Option (List PlutusData) :=
  if index < fields.length then some (fields.set index value) else none

end PlutusData

def hashFromRawBytes (bytes : Bytes) : Option Hash28 := if size : bytes.length = 28 then some ⟨bytes,size⟩ else none

theorem hashFromRawBytes_bytes (hash : Hash28) : hashFromRawBytes hash.bytes = some hash := dif_pos hash.size

theorem hashFromRawBytes_some {bytes : Bytes} {hash : Hash28} (parsed : hashFromRawBytes bytes = some hash) : bytes = hash.bytes := by
  unfold hashFromRawBytes at parsed
  split at parsed
  case isTrue => cases parsed; rfl
  case isFalse => cases parsed

def assetFromPd (data : PlutusData) : Option AssetClass := do
  let (_,fields) ← data.intoConstrPd
  let policy ← (← fields[0]?).intoBytes
  if policy = [] then return .native
  let policy ← hashFromRawBytes policy
  let name ← (← fields[1]?).intoBytes
  if name.length ≤ 32 then return .token ⟨policy,name⟩ else none

inductive PlutusCredential where
  | pubKey (hash : Hash28)
  | script (hash : Hash28)
deriving DecidableEq

namespace PlutusCredential

def tryFromPd (data : PlutusData) : Option PlutusCredential := do
  let (alternative,fields) ← data.intoConstrPd
  let bytes ← (← fields[0]?).intoBytes
  match alternative with
  | 0 => return .pubKey (← hashFromRawBytes bytes)
  | 1 => return .script (← hashFromRawBytes bytes)
  | _ => none

def intoPd : PlutusCredential → PlutusData
  | .pubKey hash => .constr 0 [.bytes hash.bytes]
  | .script hash => .constr 1 [.bytes hash.bytes]

-- `InlineCredential`.
def tryFromInlinePd (data : PlutusData) : Option PlutusCredential := do
  let (alternative,fields) ← data.intoConstrPd
  if alternative = 0 then tryFromPd (← fields[0]?) else none

def intoInlinePd (credential : PlutusCredential) : PlutusData := .constr 0 [credential.intoPd]

def scriptHash : PlutusCredential → Option Hash28
  | .script hash => some hash
  | .pubKey _ => none

theorem tryFromInlinePd_script (hash : Hash28) : tryFromInlinePd (intoInlinePd (.script hash)) = some (.script hash) := by
  simp [tryFromInlinePd,intoInlinePd,intoPd,tryFromPd,PlutusData.intoConstrPd,PlutusData.intoBytes,hashFromRawBytes_bytes]

end PlutusCredential

end GreenAgent.Cardano
