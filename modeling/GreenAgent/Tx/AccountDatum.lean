import GreenAgent.Cardano.PlutusData
import GreenAgent.Tx.Exec

namespace GreenAgent.Cardano
open Mpf (Bytes Digest)
open Account (AlephAccountState Hash28)

def digestFromRawBytes (bytes : Bytes) : Option Digest := if size : bytes.length = 32 then some ⟨bytes,size⟩ else none

theorem digestFromRawBytes_some {bytes : Bytes} {digest : Digest} (parsed : digestFromRawBytes bytes = some digest) : bytes = digest.bytes := by
  unfold digestFromRawBytes at parsed
  split at parsed
  case isTrue => cases parsed; rfl
  case isFalse => cases parsed

-- `BigInteger::as_int` and `i128::from` of the ledger library: the number, where
-- it is small enough for them.
structure IntReading where
  asInt : Int → Option Int
  exactly : ∀ number read, asInt number = some read → read = number
  small : ∀ number, -2^63 ≤ number → number < 2^63 → asInt number = some number

def IntReading.intoI64 (ints : IntReading) : PlutusData → Option Int64
  | .integer number => (ints.asInt number).bind (fun read => if -2^63 ≤ read ∧ read < 2^63 then some (Int64.ofInt read) else none)
  | _ => none

theorem IntReading.intoI64_some {ints : IntReading} {data : PlutusData} {value : Int64} (parsed : ints.intoI64 data = some value) :
    .integer value.toInt = data := by
  cases data with
  | integer number =>
    obtain ⟨read,same,fits⟩ := Option.bind_eq_some_iff.mp parsed
    obtain rfl := ints.exactly number read same
    obtain ⟨⟨lower,upper⟩,made⟩ := Option.ite_none_right_eq_some.mp fits
    cases made
    exact congrArg PlutusData.integer (Int64.toInt_ofInt_of_le lower upper)
  | _ => cases parsed

theorem mapM_written {read : PlutusData → Option α} {write : α → PlutusData} (each : ∀ data value, read data = some value → write value = data)
    {items : List PlutusData} {values : List α} (done : items.mapM read = some values) : values.map write = items := by
  induction items generalizing values with
  | nil =>
    cases done
    rfl
  | cons first rest ih =>
    rw [List.mapM_cons] at done
    obtain ⟨value,own,done⟩ := Option.bind_eq_some_iff.mp done
    obtain ⟨others,later,done⟩ := Option.bind_eq_some_iff.mp done
    cases done
    rw [List.map_cons,each first value own,ih later]

end GreenAgent.Cardano

namespace GreenAgent.Account.AlephAccountState
open Mpf (Bytes Digest)
open Cardano (PlutusData IntReading hashFromRawBytes digestFromRawBytes)

def keyFromPd (data : PlutusData) : Option Bytes := do
  let bytes ← data.intoBytes
  if bytes.length = 33 then some bytes else none

def hashFromPd (data : PlutusData) : Option Hash28 := data.intoBytes.bind hashFromRawBytes

def rootFromPd (data : PlutusData) : Option Digest := data.intoBytes.bind digestFromRawBytes

-- No second key is an empty list.
def coKeyFromPd : PlutusData → Option (Option Bytes)
  | .list [] => some none
  | data => (keyFromPd data).map some

-- A legacy datum has four fields, a current one six.
def tryFromPd (ints : IntReading) : PlutusData → Option AlephAccountState
  | .constr 0 [magic,nonce,mainKey,storeRoot] => do
    let magic ← magic.intoBytes
    let nonce ← ints.intoI64 nonce
    let mainKey ← keyFromPd mainKey
    let storeRoot ← rootFromPd storeRoot
    return ⟨.legacy,magic,[],[nonce],mainKey,none,.filled 0,storeRoot⟩
  | .constr 0 [magic,allowlist,nonce,.list [mainKey,coKey],coldKeyHash,storeRoot] => do
    let magic ← magic.intoBytes
    let allowlist ← (← allowlist.intoVec).mapM hashFromPd
    let nonce ← (← nonce.intoVec).mapM ints.intoI64
    let mainKey ← keyFromPd mainKey
    let coKey ← coKeyFromPd coKey
    let coldKeyHash ← hashFromPd coldKeyHash
    let storeRoot ← rootFromPd storeRoot
    return ⟨.current,magic,allowlist,nonce,mainKey,coKey,coldKeyHash,storeRoot⟩
  | _ => none

def coKeyIntoPd : Option Bytes → PlutusData
  | none => .list []
  | some key => .bytes key

-- `none` where a legacy account without a nonce panics.
def intoPd (state : AlephAccountState) : Option PlutusData :=
  match state.abi with
  | .legacy => state.nonce[0]?.map (fun nonce =>
      .constr 0 [.bytes state.magic,.integer nonce.toInt,.bytes state.mainKey,.bytes state.storeRoot.bytes])
  | .current => some (.constr 0 [.bytes state.magic,.list (state.allowlist.map (fun hash => .bytes hash.bytes)),
      .list (state.nonce.map (fun nonce => .integer nonce.toInt)),.list [.bytes state.mainKey,coKeyIntoPd state.coKey],
      .bytes state.coldKeyHash.bytes,.bytes state.storeRoot.bytes])

theorem keyFromPd_some {data : PlutusData} {key : Bytes} (parsed : keyFromPd data = some key) : .bytes key = data := by
  obtain ⟨bytes,read,fits⟩ := Option.bind_eq_some_iff.mp parsed
  obtain ⟨_,made⟩ := Option.ite_none_right_eq_some.mp fits
  cases made
  exact (PlutusData.intoBytes_some read).symm

theorem hashFromPd_some {data : PlutusData} {hash : Hash28} (parsed : hashFromPd data = some hash) : .bytes hash.bytes = data := by
  obtain ⟨bytes,read,fits⟩ := Option.bind_eq_some_iff.mp parsed
  rw [← Cardano.hashFromRawBytes_some fits]
  exact (PlutusData.intoBytes_some read).symm

theorem rootFromPd_some {data : PlutusData} {root : Digest} (parsed : rootFromPd data = some root) : .bytes root.bytes = data := by
  obtain ⟨bytes,read,fits⟩ := Option.bind_eq_some_iff.mp parsed
  rw [← Cardano.digestFromRawBytes_some fits]
  exact (PlutusData.intoBytes_some read).symm

theorem coKeyFromPd_some {data : PlutusData} {key : Option Bytes} (parsed : coKeyFromPd data = some key) : coKeyIntoPd key = data := by
  unfold coKeyFromPd at parsed
  split at parsed
  · cases parsed
    rfl
  · obtain ⟨bytes,read,rfl⟩ := Option.map_eq_some_iff.mp parsed
    exact keyFromPd_some read

theorem intoPd_of_parsed {ints : IntReading} {data : PlutusData} {state : AlephAccountState} (parsed : tryFromPd ints data = some state) :
    intoPd state = some data := by
  unfold tryFromPd at parsed
  split at parsed
  · obtain ⟨magic,magicRead,parsed⟩ := Option.bind_eq_some_iff.mp parsed
    obtain ⟨nonce,nonceRead,parsed⟩ := Option.bind_eq_some_iff.mp parsed
    obtain ⟨mainKey,keyRead,parsed⟩ := Option.bind_eq_some_iff.mp parsed
    obtain ⟨root,rootRead,parsed⟩ := Option.bind_eq_some_iff.mp parsed
    cases parsed
    rw [PlutusData.intoBytes_some magicRead,← IntReading.intoI64_some nonceRead,← keyFromPd_some keyRead,← rootFromPd_some rootRead]
    rfl
  · obtain ⟨magic,magicRead,parsed⟩ := Option.bind_eq_some_iff.mp parsed
    obtain ⟨hashes,hashesRead,parsed⟩ := Option.bind_eq_some_iff.mp parsed
    obtain ⟨allowlist,allowlistRead,parsed⟩ := Option.bind_eq_some_iff.mp parsed
    obtain ⟨numbers,numbersRead,parsed⟩ := Option.bind_eq_some_iff.mp parsed
    obtain ⟨nonce,nonceRead,parsed⟩ := Option.bind_eq_some_iff.mp parsed
    obtain ⟨mainKey,keyRead,parsed⟩ := Option.bind_eq_some_iff.mp parsed
    obtain ⟨coKey,coKeyRead,parsed⟩ := Option.bind_eq_some_iff.mp parsed
    obtain ⟨coldKeyHash,coldRead,parsed⟩ := Option.bind_eq_some_iff.mp parsed
    obtain ⟨root,rootRead,parsed⟩ := Option.bind_eq_some_iff.mp parsed
    cases parsed
    have written := Cardano.mapM_written (fun _ _ => hashFromPd_some) allowlistRead
    have counted := Cardano.mapM_written (fun _ _ => IntReading.intoI64_some) nonceRead
    rw [PlutusData.intoBytes_some magicRead,PlutusData.intoVec_some hashesRead,PlutusData.intoVec_some numbersRead,← written,← counted,
      ← keyFromPd_some keyRead,← coKeyFromPd_some coKeyRead,← hashFromPd_some coldRead,← rootFromPd_some rootRead]
    rfl
  · cases parsed

end GreenAgent.Account.AlephAccountState

namespace GreenAgent.Tx
open Mpf (Bytes Digest)
open Account (AlephAccountState AlephAccountUtxo AccountIndex)
open Cardano (PlutusData IntReading Datums TransactionOutput)
open Green (GreenOrder)

-- The datums of accounts, as `exec` reads and writes them.
def accountDatums (ints : IntReading) (testAddress : Bytes → Bool) : Datums PlutusData :=
  ⟨testAddress,AlephAccountState.tryFromPd ints,fun state => state.intoPd.getD (.list [])⟩

-- The same datum but for the nonce of a slot and the root of the store.
inductive Rewritten (slot : Nat) : PlutusData → PlutusData → Prop where
  | legacy (own : slot ≠ 0 → nonce' = nonce) :
      Rewritten slot (.constr 0 [magic,nonce,mainKey,storeRoot]) (.constr 0 [magic,nonce',mainKey,storeRoot'])
  | current (length : nonces'.length = nonces.length) (others : ∀ i, i ≠ slot → nonces'[i]? = nonces[i]?) :
      Rewritten slot (.constr 0 [magic,allowlist,.list nonces,hotCred,coldKeyHash,storeRoot])
        (.constr 0 [magic,allowlist,.list nonces',hotCred,coldKeyHash,storeRoot'])

-- What the execution of an order does to the state of its account.
@[grind cases eager] structure Changed (slot : Nat) (state next : AlephAccountState) : Prop where
  length : next.nonce.length = state.nonce.length
  others : ∀ i, i ≠ slot → next.nonce[i]? = state.nonce[i]?
  same : ∃ nonce storeRoot, next = {state with nonce:=nonce,storeRoot:=storeRoot}

theorem signedState_changed {order : GreenOrder} {state signed : AlephAccountState} (made : signedState order state = some signed) (root : Digest) :
    Changed order.intention.targetNonceSlot.toNat state {signed with storeRoot:=root} := by
  have counted : ∀ (slot : Nat) (value : Int64), Changed slot state {state with nonce:=state.nonce.set slot value,storeRoot:=root} :=
    fun slot value => ⟨List.length_set ..,fun i other => List.getElem?_set_ne (Ne.symm other),_,_,rfl⟩
  unfold signedState at made
  split at made
  · unfold AlephAccountState.withSigFullFillNonce at made
    split at made
    · obtain ⟨zero,made⟩ := Option.ite_none_left_eq_some.mp made
      obtain ⟨nonce,_,made⟩ := Option.bind_eq_some_iff.mp made
      obtain ⟨_,made⟩ := Option.ite_none_left_eq_some.mp made
      cases made
      have first : order.intention.targetNonceSlot = 0 := not_not.mp zero
      rw [first]
      exact counted 0 (nonce + 1)
    · obtain ⟨nonce,_,made⟩ := Option.bind_eq_some_iff.mp made
      obtain ⟨_,made⟩ := Option.ite_none_left_eq_some.mp made
      cases made
      exact counted _ _
  · cases made
    exact ⟨rfl,fun _ _ => rfl,_,root,rfl⟩

theorem Changed.rewritten {state next : AlephAccountState} {consumed : PlutusData} (changed : Changed slot state next)
    (before : state.intoPd = some consumed) : ∃ written, next.intoPd = some written ∧ Rewritten slot consumed written := by
  have length := changed.length
  have others := changed.others
  obtain ⟨nonces,root,rfl⟩ := changed.same
  unfold AlephAccountState.intoPd at before ⊢
  cases abi : state.abi with
  | legacy =>
    simp only [abi] at before length others ⊢
    obtain ⟨nonce,first,rfl⟩ := Option.map_eq_some_iff.mp before
    have inside : 0 < nonces.length := by
      rw [length]
      exact (List.getElem?_eq_some_iff.mp first).1
    refine ⟨_,Option.map_eq_some_iff.mpr ⟨nonces[0],List.getElem?_eq_getElem inside,rfl⟩,.legacy (fun other => ?_)⟩
    have same := others 0 (Ne.symm other)
    rw [first,List.getElem?_eq_getElem inside] at same
    rw [Option.some.inj same]
  | current =>
    simp only [abi] at before length others ⊢
    cases before
    refine ⟨_,rfl,.current ?_ (fun i other => ?_)⟩
    · rw [List.length_map,List.length_map,length]
    · rw [List.getElem?_map,List.getElem?_map,others i other]

-- The input and the output of the account, and their datums.
@[grind cases eager] structure Replaced (ctx : ExecContext PlutusData) (order : GreenOrder) (index : AccountIndex (TransactionOutput PlutusData))
    (before after : TxBlueprint PlutusData) (consumed written : PlutusData) : Prop where
  row : ∃ spent : ScriptInputBlueprint PlutusData, ∃ output intention,
    index.currentOrPendingBase order.accountId = some spent.finalized ∧ spent.finalized.output.datum = some consumed ∧
    output.datum = some written ∧ (before.addAccountIo spent output).addAlephBatchIntention ctx.batchWitness spent.reference intention = some after

-- Re-encoding the state of an account loses nothing.
@[grind cases eager] structure Lossless (ints : IntReading) : Prop where
  reencoded : ∀ data state, AlephAccountState.tryFromPd ints data = some state → state.intoPd = some data
  reparsed : ∀ data state, AlephAccountState.tryFromPd ints data = some state →
    ∃ again, state.intoPd = some again ∧ AlephAccountState.tryFromPd ints again = some state
  executed : ∀ (ctx : ExecContext PlutusData) (take : Take PlutusData) (before after : ExecutionState PlutusData)
    (effect : EffectPreview PlutusData) (index index' : AccountIndex (TransactionOutput PlutusData)) (testAddress : Bytes → Bool),
    ctx.datums = accountDatums ints testAddress → Take.exec ctx take before index = some (after,effect,index') →
    ∃ consumed written, Replaced ctx take.target.entity index before.txBlueprint after.txBlueprint consumed written ∧
      Rewritten take.target.entity.intention.targetNonceSlot.toNat consumed written

theorem account_datum_lossless (ints : IntReading) : Lossless ints where
  reencoded _ _ parsed := AlephAccountState.intoPd_of_parsed parsed
  reparsed data state parsed := ⟨data,AlephAccountState.intoPd_of_parsed parsed,parsed⟩
  executed ctx take before after effect index index' testAddress datums exec := by
    obtain ⟨amounts,_,exec⟩ := Option.bind_eq_some_iff.mp exec
    obtain ⟨_,exec⟩ := Option.ite_none_right_eq_some.mp exec
    obtain ⟨bearer,base,exec⟩ := Option.bind_eq_some_iff.mp exec
    obtain ⟨account,parsed,exec⟩ := Option.bind_eq_some_iff.mp exec
    obtain ⟨state,read,rfl⟩ := Option.map_eq_some_iff.mp parsed
    obtain ⟨signed,made,exec⟩ := Option.bind_eq_some_iff.mp exec
    obtain ⟨action,_,exec⟩ := Option.bind_eq_some_iff.mp exec
    obtain ⟨⟨root,auth,planned⟩,_,exec⟩ := Option.bind_eq_some_iff.mp exec
    obtain ⟨output,_,exec⟩ := Option.bind_eq_some_iff.mp exec
    obtain ⟨_,_,exec⟩ := Option.bind_eq_some_iff.mp exec
    obtain ⟨blueprint,added,exec⟩ := Option.bind_eq_some_iff.mp exec
    cases exec
    have inDatum : ctx.datums.accountState bearer.output = some state := read
    rw [datums] at inDatum
    obtain ⟨_,inDatum⟩ := Option.ite_none_right_eq_some.mp inDatum
    obtain ⟨consumed,held,parsed⟩ := Option.bind_eq_some_iff.mp inDatum
    obtain ⟨written,encoded,rewritten⟩ := (signedState_changed made root).rewritten (AlephAccountState.intoPd_of_parsed parsed)
    let row := accountRow ctx ⟨bearer.reference,bearer.output,state⟩ action {signed with storeRoot:=root} output
      ⟨{take.target.entity.alephIntention with abi:=state.abi},leavingRemainder take.inProgress,auth⟩
    refine ⟨consumed,written,⟨row.spent,_,_,base,held,?_,added⟩,rewritten⟩
    change some (ctx.datums.intoPd {signed with storeRoot:=root}) = some written
    rw [datums]
    change some ((AlephAccountState.intoPd {signed with storeRoot:=root}).getD (.list [])) = some written
    rw [encoded,Option.getD_some]

-- The range of the library's own integers.
def wordInts : IntReading where
  asInt number := if -2^64 ≤ number ∧ number < 2^64 then some number else none
  exactly number read same := by
    obtain ⟨_,made⟩ := Option.ite_none_right_eq_some.mp same
    exact (Option.some.inj made).symm
  small number lower upper := if_pos ⟨by omega,by omega⟩

-- Two slots, one of them below zero, and no second key.
def twoSlotDatum : PlutusData :=
  .constr 0 [.bytes [7],.list [.bytes (List.replicate 28 1)],.list [.integer 3,.integer (-4)],.list [.bytes (List.replicate 33 2),.list []],
    .bytes (List.replicate 28 3),.bytes (List.replicate 32 4)]

def twoSlotState : AlephAccountState :=
  ⟨.current,[7],[.filled 1],[3,-4],List.replicate 33 2,none,.filled 3,⟨List.replicate 32 4,rfl⟩⟩

theorem twoSlotDatum_lossless : AlephAccountState.tryFromPd wordInts twoSlotDatum = some twoSlotState ∧ twoSlotState.intoPd = some twoSlotDatum := by
  have parsed : AlephAccountState.tryFromPd wordInts twoSlotDatum = some twoSlotState := by decide +kernel
  exact ⟨parsed,(account_datum_lossless wordInts).reencoded _ _ parsed⟩

end GreenAgent.Tx
