import HmDianPing.Interleaving.Program
import HmDianPing.Seckill.Redis

/-! # `tb_voucher_order`, `tb_seckill_voucher` and `createVouchOrder`

The order table carries its two unique keys, so a table that violates one cannot
be built. `createVouchOrder` is a program over single statements; the caller
decides whether they run inside one transaction.
-/
namespace HmDianPing.Seckill
open Interleaving Program

/-- The exception classes that some handler tells apart. -/
inductive ExnKind where
  | duplicateKey | illegalState | numberFormat | amqp | interrupted | other
  | rejectAndDontRequeue (rejectManual : Bool)
deriving DecidableEq, Repr

structure Exn where
  kind : ExnKind
  message : String
deriving DecidableEq, Repr

structure VoucherOrder where
  id : Long
  userId : Long
  voucherId : Long
deriving DecidableEq, Repr

/-- Two rows that `PRIMARY` or `uk_user_voucher` keeps apart. -/
def VoucherOrder.Clashes (a b : VoucherOrder) : Prop :=
  a.id = b.id ∨ a.userId = b.userId ∧ a.voucherId = b.voucherId

instance (a b : VoucherOrder) : Decidable (a.Clashes b) :=
  inferInstanceAs (Decidable (_ ∨ _ ∧ _))

theorem VoucherOrder.Clashes.symm {a b : VoucherOrder} (h : a.Clashes b) : b.Clashes a :=
  h.imp Eq.symm fun h => ⟨h.1.symm, h.2.symm⟩

/-- `tb_voucher_order`. -/
structure OrderTable where
  rows : List VoucherOrder
  unique : rows.Pairwise fun a b => ¬ a.Clashes b

def OrderTable.Free (t : OrderTable) (order : VoucherOrder) : Prop :=
  ∀ row ∈ t.rows, ¬ order.Clashes row

instance (t : OrderTable) (order : VoucherOrder) : Decidable (t.Free order) :=
  inferInstanceAs (Decidable (∀ row ∈ t.rows, _))

def OrderTable.insert (t : OrderTable) (order : VoucherOrder) (h : t.Free order) : OrderTable :=
  ⟨order :: t.rows, List.pairwise_cons.mpr ⟨h, t.unique⟩⟩

structure Database where
  orders : OrderTable
  /-- Column `stock` of `tb_seckill_voucher`, by `voucher_id`. -/
  stock : Hash Long ℤ

namespace Database

def row (db : Database) (orderId : Long) : Option VoucherOrder :=
  db.orders.rows.find? fun r => r.id = orderId

def Persisted (db : Database) (orderId : Long) : Prop :=
  ∃ r ∈ db.orders.rows, r.id = orderId

instance (db : Database) (orderId : Long) : Decidable (db.Persisted orderId) :=
  inferInstanceAs (Decidable (∃ r ∈ db.orders.rows, _))

def ordersOf (db : Database) (voucherId : Long) : ℕ :=
  db.orders.rows.countP fun r => r.voucherId = voucherId

def stockOf (db : Database) (voucherId : Long) : ℤ :=
  (db.stock.lookup voucherId).getD 0

/-- `INSERT INTO tb_voucher_order`; no result when a unique key is violated. -/
def save (db : Database) (order : VoucherOrder) : Option Database :=
  if h : db.orders.Free order then some { db with orders := db.orders.insert order h } else none

/-- `UPDATE … SET stock = stock - 1 WHERE voucher_id = ? AND stock > 0`; no result when no row matches. -/
def decrementStock (db : Database) (voucherId : Long) : Option Database :=
  match db.stock.lookup voucherId with
  | none => none
  | some stock =>
    if 0 < stock then some { db with stock := db.stock.insert voucherId (stock - 1) } else none

variable {db db' : Database} {order : VoucherOrder} {v w : Long}

theorem row_eq_none {o : Long} : db.row o = none ↔ ¬ db.Persisted o := by
  simp [row, Persisted]

theorem persisted_of_row {o : Long} {r : VoucherOrder} (h : db.row o = some r) :
    r ∈ db.orders.rows ∧ r.id = o :=
  ⟨List.mem_of_find?_eq_some h, by simpa using List.find?_some h⟩

theorem save_eq_some (h : db.save order = some db') :
    db.orders.Free order ∧ db'.orders.rows = order :: db.orders.rows ∧ db'.stock = db.stock := by
  unfold save at h
  split at h
  · next hfree => cases h; exact ⟨hfree, rfl, rfl⟩
  · cases h

theorem save_eq_none : db.save order = none ↔ ∃ row ∈ db.orders.rows, order.Clashes row := by
  unfold save
  split
  · next h => simpa [OrderTable.Free] using h
  · next h => simpa [OrderTable.Free] using h

theorem decrementStock_eq_some (h : db.decrementStock v = some db') :
    0 < db.stockOf v ∧ db'.orders = db.orders ∧
      db'.stock = db.stock.insert v (db.stockOf v - 1) := by
  unfold decrementStock at h
  split at h
  · cases h
  · next s hs =>
    split at h
    · next hpos => cases h; simpa [stockOf, hs] using hpos
    · cases h

theorem decrementStock_eq_none : db.decrementStock v = none ↔ db.stockOf v ≤ 0 := by
  unfold decrementStock stockOf
  cases db.stock.lookup v <;> simp

theorem save_ordersOf (h : db.save order = some db') :
    db'.ordersOf v = db.ordersOf v + if order.voucherId = v then 1 else 0 := by
  simp [ordersOf, (save_eq_some h).2.1, List.countP_cons]

theorem save_stockOf (h : db.save order = some db') : db'.stockOf v = db.stockOf v := by
  simp [stockOf, (save_eq_some h).2.2]

theorem decrementStock_ordersOf (h : db.decrementStock v = some db') :
    db'.ordersOf w = db.ordersOf w := by
  simp [ordersOf, (decrementStock_eq_some h).2.1]

theorem decrementStock_stockOf (h : db.decrementStock v = some db') :
    db'.stockOf w = db.stockOf w - if w = v then 1 else 0 := by
  simp only [stockOf, (decrementStock_eq_some h).2.2]
  by_cases hw : w = v
  · subst hw; simp
  · simp [AList.lookup_insert_ne hw, hw]

end Database

structure OrderCreatedEvent where
  orderId : Long
  userId : Long
  voucherId : Long
  createdAt : ℤ

/-- What `createVouchOrder` calls. -/
inductive Statement where
  | save (order : VoucherOrder)
  | decrementStock (voucherId : Long)
  | currentTimeMillis
  | publishEvent (event : OrderCreatedEvent)

abbrev Statement.Reply : Statement → Type
  | .save _ => Bool
  | .decrementStock _ => Bool
  | .currentTimeMillis => ℤ
  | .publishEvent _ => Unit

abbrev SqlProgram := Program Statement Statement.Reply Exn

/-- `VoucherOrderServiceImpl.createVouchOrder`. -/
def createVouchOrder (voucherOrder : VoucherOrder) : SqlProgram Unit := do
  let saved ← perform (Statement.save voucherOrder)
  if saved = false then
    throw ⟨.illegalState, "订单保存失败"⟩
  let stockSuccess ← perform (Statement.decrementStock voucherOrder.voucherId)
  if stockSuccess = false then
    throw ⟨.illegalState, "数据库库存不足"⟩
  let now ← perform Statement.currentTimeMillis
  perform (Statement.publishEvent
    ⟨voucherOrder.id, voucherOrder.userId, voucherOrder.voucherId, now⟩)

def duplicateKeyException (order : VoucherOrder) : Exn :=
  ⟨.duplicateKey, "Duplicate entry '" ++ toString order.id ++ "'"⟩

/-- One statement on the tables, when nothing but the data can make it fail. -/
def Statement.run (now : ℤ) (db : Database) : (s : Statement) → Except Exn s.Reply × Database
  | .save order => match db.save order with
    | some db' => (.ok true, db')
    | none => (.error (duplicateKeyException order), db)
  | .decrementStock voucherId => match db.decrementStock voucherId with
    | some db' => (.ok true, db')
    | none => (.ok false, db)
  | .currentTimeMillis => (.ok now, db)
  | .publishEvent _ => (.ok (), db)

/-- `@Transactional` through the proxy: the tables change as a whole or not at all. -/
def transact (now : ℤ) (p : SqlProgram Unit) (db : Database) : Except Exn Unit × Database :=
  match p.run (fun s db => s.run now db) db with
  | (.ok a, db') => (.ok a, db')
  | (.error e, _) => (.error e, db)

/-- Everything one transaction of `createVouchOrder` can do to the tables. -/
theorem transact_createVouchOrder (now : ℤ) (order : VoucherOrder) (db : Database) :
    (∃ db₁ db₂, db.save order = some db₁ ∧ db₁.decrementStock order.voucherId = some db₂ ∧
      transact now (createVouchOrder order) db = (.ok (), db₂)) ∨
    ((∃ row ∈ db.orders.rows, order.Clashes row) ∧
      transact now (createVouchOrder order) db = (.error (duplicateKeyException order), db)) ∨
    (db.stockOf order.voucherId ≤ 0 ∧
      transact now (createVouchOrder order) db = (.error ⟨.illegalState, "数据库库存不足"⟩, db)) := by
  cases hsave : db.save order with
  | none =>
    refine .inr (.inl ⟨Database.save_eq_none.mp hsave, ?_⟩)
    simp [transact, createVouchOrder, Statement.run, hsave]
  | some db₁ =>
    cases hdec : db₁.decrementStock order.voucherId with
    | none =>
      refine .inr (.inr ⟨?_, ?_⟩)
      · rw [← Database.save_stockOf hsave]
        exact Database.decrementStock_eq_none.mp hdec
      · simp [transact, createVouchOrder, Statement.run, hsave, hdec]
    | some db₂ =>
      refine .inl ⟨db₁, db₂, rfl, hdec, ?_⟩
      simp [transact, createVouchOrder, Statement.run, hsave, hdec]

/-- No orders yet, and two pieces of voucher 1. -/
def twoLeft : Database := ⟨⟨[], List.Pairwise.nil⟩, (∅ : Hash Long ℤ).insert 1 2⟩

end HmDianPing.Seckill
