import HmDianPing.Seckill.Redis
import Mathlib.Tactic.Ring
import Mathlib.Tactic.Linarith

/-! # `seckill.lua` and `seckill_restore.lua`

Both scripts run atomically on the keys of one voucher. The reservation made by
the first is given back at most by the second; the older set of users who had
ordered before reservations existed is only ever emptied.
-/
namespace HmDianPing.Seckill

/-- What `seckill.lua` returns: `EXISTS:` with the order, `LEGACY_EXISTS`, and the codes 4, 2, 3, 1, 0. -/
inductive SeckillReply where
  | exists (orderId : Long)
  | legacyExists
  | uninitialised
  | notStarted
  | ended
  | soldOut
  | accepted
deriving DecidableEq, Repr

/-- `TIME` in milliseconds; Redis answers in seconds and microseconds. -/
def redisNowMillis (time : ℤ × ℤ) : ℤ := time.1 * 1000 + time.2 / 1000

/-- `EXPIRE pendingDataKey 86400`, and `DATA_TTL_SECONDS`, in milliseconds. -/
def dataTtlMillis : ℤ := 86400 * 1000

def newPendingFields (userId voucherId orderId nowMillis : Long) : List (Field × Value) :=
  [(.orderId, .number orderId), (.userId, .number userId), (.voucherId, .number voucherId),
    (.status, .status .pending), (.retryCount, .number 0), (.createTime, .number nowMillis),
    (.updateTime, .number nowMillis), (.lastError, .text "")]

/-- The writes of an accepted request: stock, reservation, pending set, data hash and its expiry. -/
def VoucherKeys.reserve (k : VoucherKeys) (userId voucherId orderId nowMillis : Long)
    (time : ℤ × ℤ) (stock : ℤ) : VoucherKeys :=
  { k with
    stock := some (stock - 1)
    reservation := k.reservation.insert userId orderId
    pending := k.pending.insert orderId nowMillis
    pendingData := Function.update k.pendingData orderId
      ⟨(newPendingFields userId voucherId orderId nowMillis).foldl
          (fun h w => h.insert w.1 w.2) (k.pendingData orderId).hash,
        some (redisNowMillis time + dataTtlMillis)⟩ }

def seckillLua (userId voucherId orderId nowMillis : Long) (time : ℤ × ℤ) (k : VoucherKeys) :
    SeckillReply × VoucherKeys :=
  match k.reservation.lookup userId with
  | some existingOrderId => (.exists existingOrderId, k)
  | none =>
    if userId ∈ k.legacyOrder then (.legacyExists, k) else
    match k.activityTime.beginTimeMillis, k.activityTime.endTimeMillis with
    | some beginTimeMillis, some endTimeMillis =>
      if redisNowMillis time < beginTimeMillis then (.notStarted, k)
      else if redisNowMillis time > endTimeMillis then (.ended, k)
      else match k.stock with
        | none => (.soldOut, k)
        | some stock =>
          if stock ≤ 0 then (.soldOut, k)
          else (.accepted, k.reserve userId voucherId orderId nowMillis time stock)
    | _, _ => (.uninitialised, k)

/-- `INCRBY`, which fails and leaves the key when the sum does not fit 64 bits. -/
def incrBy (stock : Option ℤ) (d : ℤ) : Option ℤ :=
  if -2 ^ 63 ≤ stock.getD 0 + d ∧ stock.getD 0 + d < 2 ^ 63 then some (stock.getD 0 + d) else none

/-- `seckill_restore.lua`; no result when the script aborts, which it can only do before it wrote. -/
def seckillRestoreLua (userId orderId : Long) (k : VoucherKeys) : Option (ℤ × VoucherKeys) :=
  if k.reservation.lookup userId = some orderId then
    (incrBy k.stock 1).map fun stock =>
      (1, { k with stock := some stock, reservation := k.reservation.erase userId }.zremPending orderId)
  else if k.reservation.lookup userId = none ∧ userId ∈ k.legacyOrder then
    (incrBy k.stock 1).map fun stock =>
      (1, { k with stock := some stock, legacyOrder := k.legacyOrder.erase userId }.zremPending orderId)
  else some (0, k.zremPending orderId)

theorem incrBy_eq_some {stock : Option ℤ} {d s : ℤ} (h : incrBy stock d = some s) :
    s = stock.getD 0 + d := by
  simp only [incrBy, Option.ite_none_right_eq_some, Option.some.injEq] at h
  exact h.2.symm

theorem seckillLua_cases {userId voucherId orderId nowMillis : Long} {time : ℤ × ℤ}
    {k k' : VoucherKeys} {reply : SeckillReply}
    (h : seckillLua userId voucherId orderId nowMillis time k = (reply, k')) :
    (reply ≠ .accepted ∧ k' = k) ∨
      ∃ stock, reply = .accepted ∧ userId ∉ k.reservation ∧ userId ∉ k.legacyOrder ∧
        k.stock = some stock ∧ 0 < stock ∧
        k' = k.reserve userId voucherId orderId nowMillis time stock := by
  unfold seckillLua at h
  split at h
  · cases h; simp
  · next hres =>
    split at h
    · cases h; simp
    · next hleg =>
      split at h
      · split at h
        · cases h; simp
        · split at h
          · cases h; simp
          · split at h
            · cases h; simp
            · next stock hstock =>
              split at h
              · cases h; simp
              · next hpos =>
                cases h
                exact .inr ⟨stock, rfl, AList.lookup_eq_none.mp hres, hleg, hstock,
                  by omega, rfl⟩
      · cases h; simp

theorem seckillRestoreLua_cases {userId orderId : Long} {k k' : VoucherKeys} {n : ℤ}
    (h : seckillRestoreLua userId orderId k = some (n, k')) :
    (n = 1 ∧ k.reservation.lookup userId = some orderId ∧
      k' = { k with stock := some (k.stockValue + 1),
                    reservation := k.reservation.erase userId }.zremPending orderId) ∨
    (n = 1 ∧ userId ∉ k.reservation ∧ userId ∈ k.legacyOrder ∧
      k' = { k with stock := some (k.stockValue + 1),
                    legacyOrder := k.legacyOrder.erase userId }.zremPending orderId) ∨
    (n = 0 ∧ k.reservation.lookup userId ≠ some orderId ∧
      (userId ∉ k.reservation → userId ∉ k.legacyOrder) ∧ k' = k.zremPending orderId) := by
  unfold seckillRestoreLua at h
  split at h
  · next hown =>
    obtain ⟨s, hs, hk⟩ := Option.map_eq_some_iff.mp h
    cases hk
    exact .inl ⟨rfl, hown, by rw [incrBy_eq_some hs]; rfl⟩
  · next hown =>
    split at h
    · next hleg =>
      obtain ⟨s, hs, hk⟩ := Option.map_eq_some_iff.mp h
      cases hk
      exact .inr (.inl ⟨rfl, AList.lookup_eq_none.mp hleg.1, hleg.2,
        by rw [incrBy_eq_some hs]; rfl⟩)
    · next hleg =>
      cases h
      refine .inr (.inr ⟨rfl, hown, fun hn hl => hleg ⟨AList.lookup_eq_none.mpr hn, hl⟩, rfl⟩)

theorem seckillRestoreLua_releases {userId orderId : Long} {k k' : VoucherKeys} {n : ℤ}
    (h : seckillRestoreLua userId orderId k = some (n, k')) :
    k'.reservation.lookup userId ≠ some orderId := by
  rcases seckillRestoreLua_cases h with ⟨-, -, rfl⟩ | ⟨-, hres, -, rfl⟩ | ⟨-, hres, -, rfl⟩
  · simp [VoucherKeys.zremPending]
  · simp [VoucherKeys.zremPending, AList.lookup_eq_none.mpr hres]
  · exact hres

/-- The lasting relation between the three keys, for one voucher. -/
structure Conserved (total : ℤ) (k : VoucherKeys) : Prop where
  sum : k.stockValue + k.reserved + k.legacyOrder.card = total
  nonneg : 0 ≤ k.stockValue
  disjoint : ∀ u ∈ k.legacyOrder, u ∉ k.reservation

/-- Stock, reservations and old entries together. -/
def VoucherKeys.total (k : VoucherKeys) : ℤ := k.stockValue + k.reserved + k.legacyOrder.card

theorem total_reserve {k : VoucherKeys} {userId stock : Long} (hres : userId ∉ k.reservation)
    (hstock : k.stock = some stock) (voucherId orderId nowMillis : Long) (time : ℤ × ℤ) :
    (k.reserve userId voucherId orderId nowMillis time stock).total = k.total := by
  have hlen : (k.reservation.insert userId orderId).keys.length = k.reservation.keys.length + 1 := by
    rw [AList.keys_insert, List.length_cons, List.erase_of_not_mem (AList.mem_keys.not.mp hres)]
  simp only [VoucherKeys.total, VoucherKeys.stockValue, VoucherKeys.reserved, VoucherKeys.reserve,
    hstock, Option.getD_some, hlen]
  omega

theorem total_restore {k k' : VoucherKeys} {userId orderId : Long} {n : ℤ}
    (h : seckillRestoreLua userId orderId k = some (n, k')) : k'.total = k.total := by
  rcases seckillRestoreLua_cases h with ⟨-, hown, rfl⟩ | ⟨-, hres, hleg, rfl⟩ | ⟨-, -, -, rfl⟩
  · have hmem : userId ∈ k.reservation.keys :=
      AList.mem_keys.mp (AList.lookup_isSome.mp (by rw [hown]; rfl))
    have hlen := List.length_erase_of_mem hmem
    have hne := List.length_pos_of_mem hmem
    simp only [VoucherKeys.total, VoucherKeys.stockValue, VoucherKeys.reserved,
      VoucherKeys.zremPending, Option.getD_some, AList.keys_erase, hlen]
    omega
  · have hcard := Finset.card_erase_of_mem hleg
    have hne := Finset.card_pos.mpr ⟨userId, hleg⟩
    simp only [VoucherKeys.total, VoucherKeys.stockValue, VoucherKeys.reserved,
      VoucherKeys.zremPending, Option.getD_some, hcard]
    omega
  · rfl

theorem Conserved.seckill {total : ℤ} {k k' : VoucherKeys} (hk : Conserved total k)
    {userId voucherId orderId nowMillis : Long} {time : ℤ × ℤ} {reply : SeckillReply}
    (h : seckillLua userId voucherId orderId nowMillis time k = (reply, k')) :
    Conserved total k' := by
  rcases seckillLua_cases h with ⟨-, rfl⟩ | ⟨stock, -, hres, hleg, hstock, hpos, rfl⟩
  · exact hk
  · refine ⟨(total_reserve hres hstock voucherId orderId nowMillis time).trans hk.sum, ?_, ?_⟩
    · simp only [VoucherKeys.stockValue, VoucherKeys.reserve, Option.getD_some]
      omega
    · intro u hu hmem
      rcases (AList.mem_insert _).mp hmem with rfl | hm
      · exact hleg hu
      · exact hk.disjoint u hu hm

theorem Conserved.restore {total : ℤ} {k k' : VoucherKeys} (hk : Conserved total k)
    {userId orderId : Long} {n : ℤ} (h : seckillRestoreLua userId orderId k = some (n, k')) :
    Conserved total k' := by
  have hsum := (total_restore h).trans hk.sum
  have hpos := hk.nonneg
  rcases seckillRestoreLua_cases h with ⟨-, hown, rfl⟩ | ⟨-, hres, hleg, rfl⟩ | ⟨-, -, -, rfl⟩
  · refine ⟨hsum, ?_, fun u hu hm => hk.disjoint u hu (AList.mem_erase.mp hm).2⟩
    simp only [VoucherKeys.stockValue, VoucherKeys.zremPending, Option.getD_some] at hpos ⊢
    omega
  · refine ⟨hsum, ?_, fun u hu hm => hk.disjoint u (Finset.mem_of_mem_erase hu) hm⟩
    simp only [VoucherKeys.stockValue, VoucherKeys.zremPending, Option.getD_some] at hpos ⊢
    omega
  · exact ⟨hsum, hpos, hk.disjoint⟩

inductive ScriptCall where
  | seckill (userId voucherId orderId nowMillis : Long) (time : ℤ × ℤ)
  | restore (userId orderId : Long)

def ScriptCall.run (k : VoucherKeys) : ScriptCall → VoucherKeys
  | .seckill u v o now time => (seckillLua u v o now time k).2
  | .restore u o => ((seckillRestoreLua u o k).map Prod.snd).getD k

def runScripts (k : VoucherKeys) (calls : List ScriptCall) : VoucherKeys :=
  calls.foldl ScriptCall.run k

theorem Conserved.call {total : ℤ} {k : VoucherKeys} (hk : Conserved total k) (call : ScriptCall) :
    Conserved total (call.run k) := by
  cases call with
  | seckill u v o now time => exact hk.seckill rfl
  | restore u o =>
    cases h : seckillRestoreLua u o k with
    | none => simpa [ScriptCall.run, h] using hk
    | some p => simpa [ScriptCall.run, h] using hk.restore h

theorem Conserved.run {total : ℤ} {k : VoucherKeys} (hk : Conserved total k)
    (calls : List ScriptCall) : Conserved total (runScripts k calls) := by
  induction calls generalizing k with
  | nil => exact hk
  | cons call calls ih => exact ih (hk.call call)

/-- Any run of the two scripts conserves stock plus reservations plus old entries, keeps the stock
nonnegative and the two ownership records apart, and a refused request changes nothing. -/
theorem scripts_conserve_stock (k : VoucherKeys) (hstock : 0 ≤ k.stockValue)
    (hres : k.reservation = ∅) (calls : List ScriptCall) :
    (runScripts k calls).stockValue + (runScripts k calls).reserved +
        (runScripts k calls).legacyOrder.card = k.stockValue + k.legacyOrder.card ∧
      0 ≤ (runScripts k calls).stockValue ∧
      (∀ u ∈ (runScripts k calls).legacyOrder, u ∉ (runScripts k calls).reservation) ∧
      (runScripts k calls).reservation.keys.Nodup ∧
      ∀ u v o now time reply k', seckillLua u v o now time (runScripts k calls) = (reply, k') →
        reply ≠ .accepted → k' = runScripts k calls := by
  have h0 : Conserved (k.stockValue + k.legacyOrder.card) k :=
    ⟨by simp [VoucherKeys.reserved, hres], hstock, by simp [hres]⟩
  have h := h0.run calls
  refine ⟨h.sum, h.nonneg, h.disjoint, AList.keys_nodup _, ?_⟩
  intro u v o now time reply k' hrun hne
  rcases seckillLua_cases hrun with ⟨-, rfl⟩ | ⟨_, hacc, -⟩
  · rfl
  · exact absurd hacc hne

def openedVoucher (stock : ℤ) : VoucherKeys where
  stock := some stock
  reservation := ∅
  legacyOrder := {9}
  pending := ∅
  failed := ∅
  pendingData _ := .absent
  activityTime := ⟨some 0, some 10000⟩

theorem scripts_conserve_stock_sample :
    let k := runScripts (openedVoucher 2) [.seckill 7 1 100 5 (1, 0), .seckill 8 1 101 6 (1, 0),
      .restore 7 100, .restore 9 102]
    k.stockValue + k.reserved + k.legacyOrder.card = 2 + 1 ∧ 0 ≤ k.stockValue := by
  have h := scripts_conserve_stock (openedVoucher 2) (by decide) rfl
    [.seckill 7 1 100 5 (1, 0), .seckill 8 1 101 6 (1, 0), .restore 7 100, .restore 9 102]
  exact ⟨h.1, h.2.1⟩

end HmDianPing.Seckill
