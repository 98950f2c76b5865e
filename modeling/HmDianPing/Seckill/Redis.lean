import Mathlib.Data.List.AList
import Mathlib.Data.List.Sort
import Mathlib.Data.Finset.Card
import Mathlib.Data.Int.Order.Basic

/-! # The Redis keys of one seckill voucher

All keys that carry the hash tag of one voucher form one record. A Redis hash
without fields and a missing hash are the same thing, as they are for Redis.
-/
namespace HmDianPing.Seckill

abbrev Long := ℤ

abbrev Hash (κ ν : Type) := AList fun _ : κ => ν

abbrev ZSet := Hash Long ℤ

/-- The order in which Redis lists a sorted set: by score, equal scores by the member's text. -/
def ZSet.listedBefore (p q : (_ : Long) × ℤ) : Prop :=
  p.2 < q.2 ∨ p.2 = q.2 ∧ (toString p.1 ≤ toString q.1)

instance (p q : (_ : Long) × ℤ) : Decidable (ZSet.listedBefore p q) :=
  inferInstanceAs (Decidable (_ ∨ _ ∧ _))

/-- `ZRANGEBYSCORE key lo hi LIMIT 0 limit`. -/
def ZSet.rangeByScore (z : ZSet) (lo hi : ℤ) (limit : ℕ) : List Long :=
  (((z.entries.filter fun p => lo ≤ p.2 ∧ p.2 ≤ hi).insertionSort ZSet.listedBefore).take
    limit).map Sigma.fst

theorem ZSet.mem_of_mem_rangeByScore {z : ZSet} {lo hi : ℤ} {limit : ℕ} {o : Long}
    (h : o ∈ z.rangeByScore lo hi limit) : o ∈ z := by
  obtain ⟨p, hp, rfl⟩ := List.mem_map.mp h
  have hs := List.mem_insertionSort _ |>.mp (List.mem_of_mem_take hp)
  exact List.mem_map_of_mem (List.mem_filter.mp hs).1

/-- The values of the field `status` of a pending data hash. -/
inductive PendingStatus where
  | pending | sent | brokerNack | routeFailed | republishing | consuming | orderCreated | failed
deriving DecidableEq, Repr

/-- The fields of a pending data hash. -/
inductive Field where
  | orderId | userId | voucherId | status | retryCount | createTime | updateTime | lastError
  | sentTime | retryDelayMillis | nextRetryTime | lastRetryTime | failedTime
  | consumeStartTime | dbCommittedTime | endToEndMillis | queueDelayMillis | dbProcessMillis
deriving DecidableEq, Repr

/-- Redis stores text; a value is kept here as what that text spells. -/
inductive Value where
  | number (n : ℤ)
  | status (s : PendingStatus)
  | text (s : String)
deriving DecidableEq, Repr

/-- `seckill:pending:data:{voucherId}:orderId`. -/
abbrev PendingData := Hash Field Value

/-- A hash together with its expiry in Redis milliseconds; no expiry for one that was never set. -/
structure PendingEntry where
  hash : PendingData
  expireAt : Option ℤ
deriving DecidableEq

def PendingEntry.absent : PendingEntry := ⟨∅, none⟩

structure ActivityTime where
  beginTimeMillis : Option ℤ
  endTimeMillis : Option ℤ

/-- Everything under the hash tag `{voucherId}`. -/
structure VoucherKeys where
  stock : Option ℤ
  reservation : Hash Long Long
  legacyOrder : Finset Long
  pending : ZSet
  failed : ZSet
  pendingData : Long → PendingEntry
  activityTime : ActivityTime

namespace VoucherKeys

def stockValue (k : VoucherKeys) : ℤ := k.stock.getD 0

def reserved (k : VoucherKeys) : ℕ := k.reservation.keys.length

def zaddPending (k : VoucherKeys) (orderId score : ℤ) : VoucherKeys :=
  { k with pending := k.pending.insert orderId score }

def zremPending (k : VoucherKeys) (orderId : Long) : VoucherKeys :=
  { k with pending := k.pending.erase orderId }

def zaddFailed (k : VoucherKeys) (orderId score : ℤ) : VoucherKeys :=
  { k with failed := k.failed.insert orderId score }

def updateData (k : VoucherKeys) (orderId : Long) (f : PendingEntry → PendingEntry) :
    VoucherKeys :=
  { k with pendingData := Function.update k.pendingData orderId (f (k.pendingData orderId)) }

def hset (k : VoucherKeys) (orderId : Long) (field : Field) (value : Value) : VoucherKeys :=
  k.updateData orderId fun e => { e with hash := e.hash.insert field value }

def hget (k : VoucherKeys) (orderId : Long) (field : Field) : Option Value :=
  (k.pendingData orderId).hash.lookup field

/-- `EXPIRE`, which does nothing to a missing key. -/
def expire (k : VoucherKeys) (orderId : Long) (deadline : ℤ) : VoucherKeys :=
  k.updateData orderId fun e =>
    if e.hash.entries = [] then e else { e with expireAt := some deadline }

section Data
variable (k : VoucherKeys) (o o' : Long) (field field' : Field) (value : Value)

theorem hget_hset : (k.hset o field value).hget o' field' =
    if o' = o ∧ field' = field then some value else k.hget o' field' := by
  by_cases ho : o' = o
  · subst ho
    by_cases hf : field' = field
    · subst hf
      simp [hget, hset, updateData]
    · simp [hget, hset, updateData, hf, AList.lookup_insert_ne hf]
  · simp [hget, hset, updateData, ho]

@[simp] theorem hget_expire (deadline : ℤ) : (k.expire o deadline).hget o' field' = k.hget o' field' := by
  unfold hget expire updateData
  by_cases ho : o' = o
  · subst ho
    simp only [Function.update_self]
    split <;> rfl
  · simp only [Function.update_of_ne ho]

@[simp] theorem hget_zaddPending (score : ℤ) :
    (k.zaddPending o score).hget o' field' = k.hget o' field' := rfl

@[simp] theorem hget_zremPending : (k.zremPending o).hget o' field' = k.hget o' field' := rfl

@[simp] theorem hget_zaddFailed (score : ℤ) :
    (k.zaddFailed o score).hget o' field' = k.hget o' field' := rfl

@[simp] theorem mem_pending_zaddPending (score : ℤ) :
    o' ∈ (k.zaddPending o score).pending ↔ o' = o ∨ o' ∈ k.pending := AList.mem_insert _

@[simp] theorem mem_pending_zremPending :
    o' ∈ (k.zremPending o).pending ↔ o' ≠ o ∧ o' ∈ k.pending := AList.mem_erase

end Data

/-- Stock, reservations and old entries are the same. -/
def SameLedger (k k' : VoucherKeys) : Prop :=
  k'.stock = k.stock ∧ k'.reservation = k.reservation ∧ k'.legacyOrder = k.legacyOrder

theorem SameLedger.refl (k : VoucherKeys) : k.SameLedger k := ⟨rfl, rfl, rfl⟩

theorem SameLedger.trans {k k' k'' : VoucherKeys} (h : k.SameLedger k') (h' : k'.SameLedger k'') :
    k.SameLedger k'' :=
  ⟨h'.1.trans h.1, h'.2.1.trans h.2.1, h'.2.2.trans h.2.2⟩

end VoucherKeys
end HmDianPing.Seckill
