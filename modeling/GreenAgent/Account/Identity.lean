import GreenAgent.Account.Matching
import GreenAgent.Mpf.Recorded

namespace GreenAgent.Account
open Mpf (Bytes Digest emptyRoot digestOf)

-- The part of an account state that no update of the account may change.
def SameIdentity (s s' : AlephAccountState) : Prop :=
  s'.mainKey = s.mainKey ∧ s'.coKey = s.coKey ∧ s'.coldKeyHash = s.coldKeyHash ∧ s'.magic = s.magic

instance (s s' : AlephAccountState) : Decidable (SameIdentity s s') := inferInstanceAs (Decidable (_ ∧ _))

section
variable {O : Type} {ext : Externals O} {txs : Digest → TxView O} {index : AccountIndex O}

-- No account that was bound before a transaction is bound after it to one of
-- the transaction's outputs with another identity.
def IdentityKept (ext : Externals O) (index : AccountIndex O) (tx : TxView O) : Prop :=
  ∀ a i s, index.byAccountId.lookup a = some i → ext.accountState i.utxo.output = some s →
    ∀ i' s', (applyAccountEvents index (scanAccountEvents ext tx)).byAccountId.lookup a = some i' →
      i'.utxo.reference ∈ tx.refs → ext.accountState i'.utxo.output = some s' → SameIdentity s s'

theorem identity_kept_iff (reached : Reached ext txs index chain) (fits : Fits txs chain tx) :
    IdentityKept ext index tx ↔
      ∀ a i s, index.byAccountId.lookup a = some i → ext.accountState i.utxo.output = some s →
        ∀ u store, index.view.Ends tx.inputs (tx.accounts ext).reverse a u store → SameIdentity s u.state := by
  have progress := apply_progress ext reached.sound.1 fits
  constructor
  · intro kept a i s bound state u store ends
    have produced := mem_accounts (List.mem_reverse.mp ends.mem)
    rcases progress.bound a with ⟨u',store',ends',after⟩ | ⟨free,_⟩
    · obtain ⟨rfl,rfl⟩ := ends.unique ends'
      exact kept a i s bound state _ u'.state after produced.1 produced.2
    · exact absurd ends.held free
  · intro matching a i s bound state i' s' after _ state'
    rcases progress.bound a with ⟨u,store,ends,at_u⟩ | ⟨_,still⟩
    · obtain rfl := Option.some.inj (at_u.symm.trans after)
      obtain rfl := Option.some.inj ((mem_accounts (List.mem_reverse.mp ends.mem)).2.symm.trans state')
      exact matching a i s bound state u store ends
    · rw [View.consumes_bound] at still
      have unmoved : (applyAccountEvents index (scanAccountEvents ext tx)).view.bound a = some i' := after
      rw [still] at unmoved
      split at unmoved
      · cases unmoved
      · obtain rfl := Option.some.inj (unmoved.symm.trans bound)
        obtain rfl := Option.some.inj (state.symm.trans state')
        exact ⟨rfl,rfl,rfl,rfl⟩

end

-- Outputs of the concrete runs are their account states.
def sampleExternals : Externals AlephAccountState := ⟨Mpf.blake2b256,fun _ => [0x9f,0xff],some⟩

def sampleState (key : UInt8) (nonce : Int64) (root : Digest) : AlephAccountState :=
  ⟨.current,[0x61],[],[nonce],[key],none,.filled 0,root⟩

def sampleAccount (n : Nat) : AccountId := ⟨digestOf n⟩

-- Two accounts with empty stores come into being together.
def openingTx : TxView AlephAccountState := ⟨digestOf 1,[],[(0,sampleState 1 0 emptyRoot),(1,sampleState 2 0 emptyRoot)]⟩

-- Both are spent, and the successor of the second is listed first.
def swappedTx : TxView AlephAccountState :=
  ⟨digestOf 2,[⟨digestOf 1,0⟩,⟨digestOf 1,1⟩],[(0,sampleState 2 1 emptyRoot),(1,sampleState 1 1 emptyRoot)]⟩

-- The first is spent alone.
def aloneTx : TxView AlephAccountState := ⟨digestOf 3,[⟨digestOf 1,0⟩],[(0,sampleState 1 1 emptyRoot)]⟩

def sampleTxs (all : List (TxView AlephAccountState)) (h : Digest) : TxView AlephAccountState :=
  (all.find? (fun tx => decide (tx.hash = h))).getD ⟨h,[],[]⟩

def openedIndex : AccountIndex AlephAccountState :=
  applyAccountEvents AccountIndex.default (scanAccountEvents sampleExternals openingTx)

-- The first account is registered, the second is not.
def registeredIndex : AccountIndex AlephAccountState :=
  (openedIndex.bindExternalAccountIdOnce (sampleAccount 1) ⟨digestOf 1,0⟩).1

theorem registered_reached (all : List (TxView AlephAccountState)) :
    Reached sampleExternals (sampleTxs (openingTx :: all)) registeredIndex [openingTx] :=
  .bind (.apply (.fresh none .nil) ⟨by simp [sampleTxs],by decide,by decide,by decide,by decide⟩) _ _

theorem identity_kept_alone : Fits (sampleTxs [openingTx,aloneTx]) [openingTx] aloneTx ∧ IdentityKept sampleExternals registeredIndex aloneTx := by
  have fits : Fits (sampleTxs [openingTx,aloneTx]) [openingTx] aloneTx := ⟨by decide,by decide,by decide,by decide,by decide⟩
  refine ⟨fits,(identity_kept_iff (registered_reached _) fits).mpr ?_⟩
  intro a i s bound state u store ends
  have only : registeredIndex.byAccountId.entries.all (fun e => decide (e.2.utxo.output = sampleState 1 0 emptyRoot)) = true := by
    decide +kernel
  have output := of_decide_eq_true (List.all_eq_true.mp only _ (HashMap.mem_entries.mpr bound))
  simp only [sampleExternals,Option.some.injEq] at state
  have successor : (aloneTx.accounts sampleExternals).all (fun u => decide (u.state = sampleState 1 1 emptyRoot)) = true := by
    decide +kernel
  have after := of_decide_eq_true (List.all_eq_true.mp successor _ (List.mem_reverse.mp ends.mem))
  rw [← state,output,after]
  decide

-- The successor of the unregistered account takes the registered one's place.
theorem identity_lost : Reached sampleExternals (sampleTxs [openingTx,swappedTx]) registeredIndex [openingTx] ∧
    Fits (sampleTxs [openingTx,swappedTx]) [openingTx] swappedTx ∧
    ¬IdentityKept sampleExternals registeredIndex swappedTx := by
  refine ⟨registered_reached _,⟨by decide,by decide,by decide,by decide,by decide⟩,fun kept => ?_⟩
  have before : registeredIndex.byAccountId.lookup (sampleAccount 1) =
      some ⟨⟨sampleState 1 0 emptyRoot,⟨digestOf 1,0⟩⟩,.empty⟩ := by decide +kernel
  have after : (applyAccountEvents registeredIndex (scanAccountEvents sampleExternals swappedTx)).byAccountId.lookup
      (sampleAccount 1) = some ⟨⟨sampleState 2 1 emptyRoot,⟨digestOf 2,0⟩⟩,.empty⟩ := by decide +kernel
  exact absurd (kept _ _ _ before rfl _ _ after (by decide) rfl) (by decide)

end GreenAgent.Account
