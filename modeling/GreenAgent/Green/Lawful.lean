import GreenAgent.Lib.KnownHash
import GreenAgent.Green.Order
import GreenAgent.Book.Run

namespace GreenAgent.Green
open Mpf (Bytes)
open Account (GreenOrderId Hash28 Token)
open Book (Stable stableId Next TerminalTake TakeInProgress)
open Book.MarketTaker (input output)

-- The bytes an order is identified by: account, nonce, digest of the original
-- intent.
def orderIdBytes (id : GreenOrderId) : Bytes :=
  id.accountId.bytes.bytes ++ BigEndian.bigEndian 2 id.targetNonceSlot.toNat ++ BigEndian.bigEndian 8 id.targetNonceValue.toNat ++
    id.originalIntentDigest.bytes

-- `"green-order"` in UTF-8.
def greenOrderName : Bytes := [0x67,0x72,0x65,0x65,0x6e,0x2d,0x6f,0x72,0x64,0x65,0x72]

def stableToken (blake2b224 : Bytes → Hash28) (id : GreenOrderId) : Token := ⟨blake2b224 (orderIdBytes id),greenOrderName⟩

-- The hash that makes policy ids of orders.
class TokenHash where
  blake2b224 : Bytes → Hash28

instance [TokenHash] : Stable GreenOrder Token := ⟨fun order => stableToken TokenHash.blake2b224 order.id⟩

-- BLAKE2b-224 on the strings that the concrete runs of this development hash.
def recordedIds : List KnownHash.Record := [
  ⟨74,0x000000000000000000000000000000000000000000000000000000000000000100000000000000000001000000000000000000000000000000000000000000000000000000000000000a,
    0x41fa20b6af04ef6e8a2cbe5c1563dee804c444c7d4ca5a58d55080e3⟩,
  ⟨74,0x000000000000000000000000000000000000000000000000000000000000000100000000000000000001000000000000000000000000000000000000000000000000000000000000000b,
    0xb0b54523da8d66261dc2ad232e9b66321cbebf4bccbfa47b16c1db00⟩,
  ⟨74,0x000000000000000000000000000000000000000000000000000000000000000100000000000000000001000000000000000000000000000000000000000000000000000000000000000c,
    0x1ef76d08ae63a8f361eb2fa9ebfe4372049d2afc4560eb93dcc714b2⟩]

def blake2b224 (s : Bytes) : Hash28 :=
  ⟨BigEndian.bigEndian 28 (KnownHash.digestNumber recordedIds 0 s),BigEndian.bigEndian_length 28 _⟩

namespace Recorded
scoped instance : TokenHash := ⟨blake2b224⟩
end Recorded

theorem compareOrderId_self (id : GreenOrderId) : compareOrderId id id = .eq := by
  have bytes : ∀ s : Bytes, compare s s = .eq := fun s => Std.ReflCmp.compare_self
  have slot : compare id.targetNonceSlot id.targetNonceSlot = .eq := Std.ReflCmp.compare_self
  have value : compare id.targetNonceValue id.targetNonceValue = .eq := Std.ReflCmp.compare_self
  unfold compareOrderId
  rw [bytes,bytes,slot,value]
  rfl

theorem compareOrderId_eq {a b : GreenOrderId} (same : compareOrderId a b = .eq) : a = b := by
  obtain ⟨⟨⟨account,_⟩⟩,slot,value,⟨digest,_⟩⟩ := a
  obtain ⟨⟨⟨account',_⟩⟩,slot',value',⟨digest',_⟩⟩ := b
  unfold compareOrderId at same
  grind

instance : Std.ReflOrd GreenOrder := ⟨fun {order} => compareOrderId_self order.id⟩

theorem tryTerminate_input (target order : GreenOrder) :
    TakeInProgress.remainingInput (⟨target,order.tryTerminate⟩ : TakeInProgress GreenOrder) = order.currentRemainder.toNat := by
  unfold GreenOrder.tryTerminate
  split
  · rename_i zero
    rw [zero]
    rfl
  · rfl

theorem tryTerminate_output (target order : GreenOrder) :
    TakeInProgress.accumulatedOutput (⟨target,order.tryTerminate⟩ : TakeInProgress GreenOrder) = order.accumulatedOutput.toNat := by
  unfold GreenOrder.tryTerminate
  split <;> rfl

theorem tryTerminate_same {order next : GreenOrder} (left : order.tryTerminate = .succ next) : next = order := by
  unfold GreenOrder.tryTerminate at left
  split at left
  · cases left
  · exact (Next.succ.inj left).symm

theorem withOutputAdded_output (order : GreenOrder) (added : Nat) :
    (order.withOutputAdded added).accumulatedOutput.toNat = min (order.accumulatedOutput.toNat + added) U64.max :=
  U64.toNat_ofNat _ (Nat.min_le_right ..)

theorem withInputRemoved_input (order : GreenOrder) (removed : Nat) :
    (order.withInputRemoved removed).currentRemainder.toNat = order.currentRemainder.toNat - removed :=
  U64.toNat_ofNat _ (le_trans (Nat.sub_le _ _) (U64.le_max _))

instance [TokenHash] : Book.LawfulTaker GreenOrder where
  trade_input order removed added _ := (tryTerminate_input _ _).trans (withInputRemoved_input order removed)
  trade_output order removed added := (tryTerminate_output _ _).trans (withOutputAdded_output (order.withInputRemoved removed) added)
  output_small order := U64.le_max order.accumulatedOutput
  trade_same order next removed added traded := by
    obtain rfl := tryTerminate_same traded
    exact ⟨rfl,rfl⟩
  added_input _ _ := rfl
  added_output := withOutputAdded_output
  charged _ _ := ⟨rfl,rfl⟩
  corrected _ _ := ⟨rfl,rfl⟩
  ended order target := ⟨tryTerminate_input target order,tryTerminate_output target order⟩

end GreenAgent.Green
