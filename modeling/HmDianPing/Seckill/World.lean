import HmDianPing.Seckill.Scripts
import HmDianPing.Seckill.Database

/-! # The stores behind the handlers

Redis, MySQL and the broker, and the calls the handlers make on them. How a call
goes is chosen from outside: it can succeed, fail, or succeed and lose its reply,
and the broker can store, return or lose a published message.
-/
namespace HmDianPing.Seckill
open Interleaving Program

structure Message where
  orderId : Long
  userId : Long
  voucherId : Long
deriving DecidableEq, Repr

def Message.order (m : Message) : VoucherOrder := ⟨m.orderId, m.userId, m.voucherId⟩

/-- The order queue, its retry queue, the failed queue and the parking queue. -/
inductive QueueName where
  | order | retry | failed | parking
deriving DecidableEq, Repr

inductive DeathReason where
  | rejected | expired
deriving DecidableEq, Repr

/-- An entry of the header `x-death`. -/
structure XDeath where
  queue : QueueName
  reason : DeathReason
  count : ℕ
deriving DecidableEq, Repr

structure Copy where
  message : Message
  xDeath : List XDeath
deriving DecidableEq, Repr

/-- The broker counts the deaths for each queue and reason and lists the latest first. -/
def Copy.die (c : Copy) (queue : QueueName) (reason : DeathReason) : Copy :=
  let same := fun x : XDeath => decide (x.queue = queue ∧ x.reason = reason)
  let count := ((c.xDeath.find? same).map XDeath.count).getD 0
  { c with xDeath := ⟨queue, reason, count + 1⟩ :: c.xDeath.filter fun x => !same x }

/-- A delivery that has not been acknowledged. -/
structure Delivery where
  tag : ℕ
  queue : QueueName
  copy : Copy
deriving DecidableEq, Repr

/-- What became of a published message. -/
inductive Fate where
  | stored | returned | lost
deriving DecidableEq, Repr

/-- An order message whose confirm has not arrived. -/
structure Publication where
  message : Message
  fate : Fate
deriving DecidableEq, Repr

/-- The correlation data of a forwarded message; its fate is not for the program to read. -/
structure CorrelationData where
  orderId : Long
  fate : Fate

structure Confirm where
  ack : Bool
  reason : String
  /-- The reply text of the returned message, set before the confirm completes. -/
  returned : Option String

inductive RedisCmd where
  | hget (orderId : Long) (field : Field)
  | hset (orderId : Long) (field : Field) (value : Value)
  | hsetnx (orderId : Long) (field : Field) (value : Value)
  | hincrBy (orderId : Long) (field : Field) (delta : ℤ)
  | hgetall (orderId : Long)
  | expire (orderId : Long) (ttlMillis : ℤ)
  | zaddPending (orderId : Long) (score : ℤ)
  | zremPending (orderId : Long)
  | zaddFailed (orderId : Long) (score : ℤ)
  | rangeByScore (lo hi : ℤ) (limit : ℕ)
  | restore (userId orderId : Long)

abbrev RedisCmd.Reply : RedisCmd → Type
  | .hget _ _ => Option Value
  | .hincrBy _ _ _ => ℤ
  | .hgetall _ => PendingData
  | .rangeByScore _ _ _ => List Long
  | .restore _ _ => Option ℤ
  | _ => Unit

def redisException (message : String) : Exn := ⟨.other, message⟩

/-- What the hash value counts as for `HINCRBY`; none when it is not an integer. -/
def counter : Option Value → Option ℤ
  | none => some 0
  | some (.number n) => some n
  | some _ => none

def RedisCmd.run (nowMillis : ℤ) (k : VoucherKeys) :
    (c : RedisCmd) → Except Exn c.Reply × VoucherKeys
  | .hget o field => (.ok (k.hget o field), k)
  | .hset o field value => (.ok (), k.hset o field value)
  | .hsetnx o field value => (.ok (), if (k.hget o field).isSome then k else k.hset o field value)
  | .hincrBy o field delta =>
    match (counter (k.hget o field)).bind fun n => incrBy (some n) delta with
    | some n => (.ok n, k.hset o field (.number n))
    | none => (.error (redisException "ERR hash value is not an integer"), k)
  | .hgetall o => (.ok (k.pendingData o).hash, k)
  | .expire o ttlMillis => (.ok (), k.expire o (nowMillis + ttlMillis))
  | .zaddPending o score => (.ok (), k.zaddPending o score)
  | .zremPending o => (.ok (), k.zremPending o)
  | .zaddFailed o score => (.ok (), k.zaddFailed o score)
  | .rangeByScore lo hi limit => (.ok (k.pending.rangeByScore lo hi limit), k)
  | .restore u o =>
    match seckillRestoreLua u o k with
    | some (n, k') => (.ok (some n), k')
    | none => (.error (redisException "ERR increment or decrement would overflow"), k)

/-- Only the restore script touches stock, reservations and old entries. -/
theorem RedisCmd.run_ledger {c : RedisCmd} (hc : ∀ u o, c ≠ .restore u o) (nowMillis : ℤ)
    (k : VoucherKeys) : k.SameLedger (c.run nowMillis k).2 := by
  cases c with
  | hsetnx o field value =>
    simp only [RedisCmd.run]
    split <;> exact ⟨rfl, rfl, rfl⟩
  | hincrBy o field delta =>
    simp only [RedisCmd.run]
    split <;> exact ⟨rfl, rfl, rfl⟩
  | restore u o => exact absurd rfl (hc u o)
  | _ => exact ⟨rfl, rfl, rfl⟩

/-- The call can write this field of this order's data hash. -/
def RedisCmd.Writes (o : Long) (field : Field) : RedisCmd → Prop
  | .hset o' field' _ | .hsetnx o' field' _ | .hincrBy o' field' _ => o' = o ∧ field' = field
  | _ => False

theorem hget_restore {u o o' : Long} {n : ℤ} {k k' : VoucherKeys} {field : Field}
    (h : seckillRestoreLua u o k = some (n, k')) : k'.hget o' field = k.hget o' field := by
  rcases seckillRestoreLua_cases h with ⟨-, -, rfl⟩ | ⟨-, -, -, rfl⟩ | ⟨-, -, -, rfl⟩ <;> rfl

theorem RedisCmd.run_hget {c : RedisCmd} {o : Long} {field : Field} (hc : ¬ c.Writes o field)
    (nowMillis : ℤ) (k : VoucherKeys) : (c.run nowMillis k).2.hget o field = k.hget o field := by
  have hset : ∀ o' field' value, ¬ (o' = o ∧ field' = field) →
      (k.hset o' field' value).hget o field = k.hget o field := by
    intro o' field' value hne
    rw [VoucherKeys.hget_hset, if_neg fun h => hne ⟨h.1.symm, h.2.symm⟩]
  cases c with
  | hset o' field' value => exact hset _ _ _ hc
  | hsetnx o' field' value =>
    simp only [RedisCmd.run]
    split
    · rfl
    · exact hset _ _ _ hc
  | hincrBy o' field' delta =>
    simp only [RedisCmd.run]
    split
    · exact hset _ _ _ hc
    · rfl
  | expire o' ttl => exact VoucherKeys.hget_expire _ _ _ _ _
  | restore u o' =>
    simp only [RedisCmd.run]
    split
    · next h => exact hget_restore h
    · rfl
  | _ => rfl

theorem RedisCmd.run_pending {c : RedisCmd} {o : Long} {nowMillis : ℤ} {k : VoucherKeys}
    (h : o ∈ (c.run nowMillis k).2.pending) :
    o ∈ k.pending ∨ ∃ score, c = .zaddPending o score := by
  cases c with
  | zaddPending o' score =>
    rcases (VoucherKeys.mem_pending_zaddPending _ _ _ _).mp h with rfl | h
    · exact .inr ⟨score, rfl⟩
    · exact .inl h
  | zremPending o' => exact .inl ((VoucherKeys.mem_pending_zremPending _ _ _).mp h).2
  | hsetnx o' field value =>
    simp only [RedisCmd.run] at h
    split at h <;> exact .inl h
  | hincrBy o' field delta =>
    simp only [RedisCmd.run] at h
    split at h <;> exact .inl h
  | restore u o' =>
    simp only [RedisCmd.run] at h
    split at h
    · next hrun =>
      rcases seckillRestoreLua_cases hrun with ⟨-, -, rfl⟩ | ⟨-, -, -, rfl⟩ | ⟨-, -, -, rfl⟩ <;>
        exact .inl ((VoucherKeys.mem_pending_zremPending _ _ _).mp h).2
    · exact .inl h
  | _ => exact .inl h

inductive Cmd where
  | currentTimeMillis
  | nextId
  | seckill (userId voucherId orderId now : Long)
  | redis (voucherId : Long) (c : RedisCmd)
  | listVouchers
  | getById (orderId : Long)
  /-- `createVouchOrder` through the transactional proxy. -/
  | createVouchOrder (order : VoucherOrder)
  /-- One statement outside a transaction, which commits by itself. -/
  | statement (s : Statement)
  | sendOrder (m : Message)
  | sendFailed (m : Message)
  | awaitConfirm (correlation : CorrelationData)
  /-- `RepublishMessageRecovererWithConfirms.recover`, to the parking exchange. -/
  | park (m : Message)
  | basicAck (tag : ℕ)
  | basicReject (tag : ℕ) (requeue : Bool)
  | basicNack (tag : ℕ) (requeue : Bool)

abbrev Cmd.Reply : Cmd → Type
  | .currentTimeMillis => ℤ
  | .nextId => Long
  | .seckill _ _ _ _ => Option SeckillReply
  | .redis _ c => c.Reply
  | .listVouchers => List Long
  | .getById _ => Option VoucherOrder
  | .statement s => s.Reply
  | .sendFailed _ => CorrelationData
  | .awaitConfirm _ => Option Confirm
  | _ => Unit

abbrev Handler := Program Cmd Cmd.Reply Exn

/-- The stores, what the broker still owes, and the requests accepted so far. -/
structure World where
  clock : ℤ
  redisTime : ℤ × ℤ
  redis : Long → VoucherKeys
  db : Database
  queues : QueueName → List Copy
  unacked : List Delivery
  nextTag : ℕ
  unconfirmed : List Publication
  unreturned : List Message
  /-- The order ids `seckill.lua` has seen; `nextId` draws none twice. -/
  issued : List Long
  /-- History: the orders `seckill.lua` accepted. -/
  accepted : List Message
  /-- History: the messages the failed queue has stored. -/
  forwarded : List Message

namespace World

def start (redis : Long → VoucherKeys) (db : Database) : World where
  clock := 0
  redisTime := (0, 0)
  redis := redis
  db := db
  queues _ := []
  unacked := []
  nextTag := 0
  unconfirmed := []
  unreturned := []
  issued := []
  accepted := []
  forwarded := []

def setRedis (w : World) (voucherId : Long) (k : VoucherKeys) : World :=
  { w with redis := Function.update w.redis voucherId k }

def enqueue (w : World) (q : QueueName) (c : Copy) : World :=
  { w with queues := Function.update w.queues q (w.queues q ++ [c]) }

def settle (w : World) (tag : ℕ) : World :=
  { w with unacked := w.unacked.filter fun d => d.tag ≠ tag }

def redisNow (w : World) : ℤ := redisNowMillis w.redisTime

/-- The copy goes back to its queue; without requeue it dies, and only the order queue has a
dead letter exchange for rejected messages. -/
def reject (w : World) (tag : ℕ) (requeue : Bool) : World :=
  match w.unacked.find? fun d => d.tag = tag with
  | none => w
  | some d =>
    if requeue then (w.settle tag).enqueue d.queue d.copy
    else if d.queue = .order then (w.settle tag).enqueue .retry (d.copy.die .order .rejected)
    else w.settle tag

/-- An order message reaches the broker, or not, and its callbacks become due. -/
def publish (w : World) (m : Message) (fate : Fate) : World :=
  let w' := { w with unconfirmed := w.unconfirmed ++ [⟨m, fate⟩] }
  match fate with
  | .stored => w'.enqueue .order ⟨m, []⟩
  | .returned => { w' with unreturned := w.unreturned ++ [m] }
  | .lost => w'

def forward (w : World) (m : Message) (fate : Fate) : World :=
  if fate = .stored then
    { w.enqueue .failed ⟨m, []⟩ with forwarded := m :: w.forwarded }
  else w

/-- `seckill.lua` on an order id it has not seen. -/
def offer (w : World) (u v o now : Long) : SeckillReply × World :=
  let p := seckillLua u v o now w.redisTime (w.redis v)
  (p.1, { w.setRedis v p.2 with
    issued := o :: w.issued
    accepted := if p.1 = .accepted then ⟨o, u, v⟩ :: w.accepted else w.accepted })

end World

inductive Choice where
  | performed
  | fails (e : Exn)
  | failsAfter (e : Exn)
  | drawn (id : Long)
  /-- `save` reports that it wrote no row, or a script that it returned nothing. -/
  | nothing
  | published (fate : Fate) (thrown : Option Exn)
  | nacked (reason : String)

def Choice.thrown : Choice → Option Exn
  | .fails e | .failsAfter e => some e
  | .published _ thrown => thrown
  | _ => none

/-- The reply is lost when an exception is thrown after the call. -/
def reply {α : Type} (thrown : Option Exn) (a : α) : Except Exn α :=
  match thrown with
  | none => .ok a
  | some e => .error e

namespace World

/-- The confirm the broker sends for a forwarded message; none for one it never got. -/
def confirmOf (correlation : CorrelationData) : Option Confirm :=
  match correlation.fate with
  | .stored => some ⟨true, "", none⟩
  | .returned => some ⟨true, "", some "NO_ROUTE"⟩
  | .lost => none

def commit (w : World) (order : VoucherOrder) : Except Exn Unit × World :=
  let p := transact w.clock (createVouchOrder order) w.db
  (p.1, { w with db := p.2 })

def answer (w : World) : (c : Cmd) → Option (Except Exn c.Reply × World)
  | .currentTimeMillis => some (.ok w.clock, w)
  | .nextId => none
  | .seckill u v o now =>
    if o ∈ w.issued then none else some (.ok (some (w.offer u v o now).1), (w.offer u v o now).2)
  | .redis v c => some ((c.run w.redisNow (w.redis v)).1,
      w.setRedis v (c.run w.redisNow (w.redis v)).2)
  | .listVouchers => some (.ok w.db.stock.keys, w)
  | .getById o => some (.ok (w.db.row o), w)
  | .createVouchOrder order => some (w.commit order)
  | .statement s => some ((s.run w.clock w.db).1, { w with db := (s.run w.clock w.db).2 })
  | .sendOrder m => some (.ok (), w.publish m .stored)
  | .sendFailed m => some (.ok ⟨m.orderId, .stored⟩, w.forward m .stored)
  | .awaitConfirm correlation => (confirmOf correlation).map fun confirm => (.ok (some confirm), w)
  | .park m => some (.ok (), w.enqueue .parking ⟨m, []⟩)
  | .basicAck tag => some (.ok (), w.settle tag)
  | .basicReject tag requeue => some (.ok (), w.reject tag requeue)
  | .basicNack tag requeue => some (.ok (), w.reject tag requeue)

def exec : (c : Cmd) → Choice → World → Option (Except Exn c.Reply × World)
  | c, .performed, w => w.answer c
  | .currentTimeMillis, .fails _, _ => none
  | _, .fails e, w => some (.error e, w)
  | c, .failsAfter e, w => (w.answer c).map fun p => (.error e, p.2)
  | .nextId, .drawn id, w => some (.ok id, w)
  | .statement (.save _), .nothing, w => some (.ok false, w)
  | .seckill _ _ _ _, .nothing, w => some (.ok none, w)
  | .redis _ (.restore _ _), .nothing, w => some (.ok none, w)
  | .sendOrder m, .published fate thrown, w => some (reply thrown (), w.publish m fate)
  | .sendFailed m, .published fate thrown, w =>
    some (reply thrown ⟨m.orderId, fate⟩, w.forward m fate)
  | .awaitConfirm _, .nacked reason, w => some (.ok (some ⟨false, reason, none⟩), w)
  | _, _, _ => none

variable {w w' : World}

@[simp] theorem exec_performed (c : Cmd) : exec c .performed w = w.answer c := by
  cases c <;> rfl

@[simp] theorem exec_failsAfter (c : Cmd) (e : Exn) :
    exec c (.failsAfter e) w = (w.answer c).map fun p => (.error e, p.2) := by
  cases c <;> rfl

theorem exec_cases {c : Cmd} {f : Choice} {r : Except Exn c.Reply}
    (h : exec c f w = some (r, w')) :
    w' = w ∨ (∃ r', w.answer c = some (r', w')) ∨
      (∃ m fate, c = .sendOrder m ∧ w' = w.publish m fate) ∨
      ∃ m fate, c = .sendFailed m ∧ w' = w.forward m fate := by
  cases f with
  | performed => exact .inr (.inl ⟨r, by rwa [exec_performed] at h⟩)
  | failsAfter e =>
    rw [exec_failsAfter] at h
    obtain ⟨⟨r', _⟩, ha, hp⟩ := Option.map_eq_some_iff.mp h
    cases hp
    exact .inr (.inl ⟨r', ha⟩)
  | fails e => cases c <;> cases h <;> exact .inl rfl
  | drawn id => cases c <;> cases h; exact .inl rfl
  | nothing =>
    cases c with
    | statement s => cases s <;> cases h; exact .inl rfl
    | redis v c => cases c <;> cases h; exact .inl rfl
    | seckill => cases h; exact .inl rfl
    | _ => cases h
  | published fate thrown =>
    cases c with
    | sendOrder m => cases h; exact .inr (.inr (.inl ⟨m, fate, rfl, rfl⟩))
    | sendFailed m => cases h; exact .inr (.inr (.inr ⟨m, fate, rfl, rfl⟩))
    | _ => cases h
  | nacked reason => cases c <;> cases h; exact .inl rfl

@[simp] theorem publish_db (m : Message) (fate : Fate) : (w.publish m fate).db = w.db := by
  cases fate <;> rfl

@[simp] theorem forward_db (m : Message) (fate : Fate) : (w.forward m fate).db = w.db := by
  unfold forward; split <;> rfl

@[simp] theorem reject_db (tag : ℕ) (requeue : Bool) : (w.reject tag requeue).db = w.db := by
  unfold reject; split <;> [rfl; (split <;> [rfl; (split <;> rfl)])]

@[simp] theorem publish_forwarded (m : Message) (fate : Fate) :
    (w.publish m fate).forwarded = w.forwarded := by
  cases fate <;> rfl

@[simp] theorem reject_forwarded (tag : ℕ) (requeue : Bool) :
    (w.reject tag requeue).forwarded = w.forwarded := by
  unfold reject; split <;> [rfl; (split <;> [rfl; (split <;> rfl)])]

theorem forwarded_subset_forward (m : Message) (fate : Fate) :
    w.forwarded ⊆ (w.forward m fate).forwarded := by
  unfold forward
  split
  · exact List.subset_cons_self m w.forwarded
  · exact List.Subset.refl _

/-- The tables change only by a committed `createVouchOrder` or a single statement. -/
theorem answer_db {c : Cmd} {r : Except Exn c.Reply} (h : w.answer c = some (r, w')) :
    w'.db = w.db ∨ (∃ order, c = .createVouchOrder order ∧ w'.db = (w.commit order).2.db) ∨
      ∃ s, c = .statement s ∧ w'.db = (s.run w.clock w.db).2 := by
  cases c with
  | createVouchOrder order => cases h; exact .inr (.inl ⟨order, rfl, rfl⟩)
  | statement s => cases h; exact .inr (.inr ⟨s, rfl, rfl⟩)
  | seckill u v o now =>
    simp only [answer, Option.ite_none_left_eq_some, Option.some.injEq] at h
    cases h.2; exact .inl rfl
  | awaitConfirm correlation =>
    obtain ⟨_, -, hp⟩ := Option.map_eq_some_iff.mp h
    cases hp; exact .inl rfl
  | nextId => cases h
  | sendFailed m => cases h; exact .inl (forward_db m .stored)
  | basicReject tag requeue => cases h; exact .inl (reject_db tag requeue)
  | basicNack tag requeue => cases h; exact .inl (reject_db tag requeue)
  | _ => cases h; exact .inl rfl

theorem commit_cases (w : World) (order : VoucherOrder) :
    (∃ db₁ db₂, w.db.save order = some db₁ ∧ db₁.decrementStock order.voucherId = some db₂ ∧
      w.commit order = (.ok (), { w with db := db₂ })) ∨
    ((∃ row ∈ w.db.orders.rows, order.Clashes row) ∧
      w.commit order = (.error (duplicateKeyException order), w)) ∨
    (w.db.stockOf order.voucherId ≤ 0 ∧
      w.commit order = (.error ⟨.illegalState, "数据库库存不足"⟩, w)) := by
  rcases transact_createVouchOrder w.clock order w.db with
    ⟨db₁, db₂, h₁, h₂, ht⟩ | ⟨hclash, ht⟩ | ⟨hstock, ht⟩
  · exact .inl ⟨db₁, db₂, h₁, h₂, by simp [commit, ht]⟩
  · exact .inr (.inl ⟨hclash, by simp [commit, ht]⟩)
  · exact .inr (.inr ⟨hstock, by simp [commit, ht]⟩)

theorem rows_subset_commit (w : World) (order : VoucherOrder) :
    w.db.orders.rows ⊆ (w.commit order).2.db.orders.rows := by
  rcases w.commit_cases order with ⟨db₁, db₂, h₁, h₂, hc⟩ | ⟨-, hc⟩ | ⟨-, hc⟩
  · rw [hc, show db₂.orders = db₁.orders from (Database.decrementStock_eq_some h₂).2.1,
      (Database.save_eq_some h₁).2.1]
    exact List.subset_cons_self _ _
  · rw [hc]; exact List.Subset.refl _
  · rw [hc]; exact List.Subset.refl _

theorem rows_subset_statement (s : Statement) (now : ℤ) (db : Database) :
    db.orders.rows ⊆ (s.run now db).2.orders.rows := by
  cases s with
  | save order =>
    simp only [Statement.run]
    split
    · next h => rw [(Database.save_eq_some h).2.1]; exact List.subset_cons_self _ _
    · exact List.Subset.refl _
  | decrementStock v =>
    simp only [Statement.run]
    split
    · next h => rw [(Database.decrementStock_eq_some h).2.1]; exact List.Subset.refl _
    · exact List.Subset.refl _
  | _ => exact List.Subset.refl _

theorem rows_subset_exec {c : Cmd} {f : Choice} {r : Except Exn c.Reply}
    (h : exec c f w = some (r, w')) : w.db.orders.rows ⊆ w'.db.orders.rows := by
  rcases exec_cases h with rfl | ⟨r', ha⟩ | ⟨m, fate, -, rfl⟩ | ⟨m, fate, -, rfl⟩
  · exact List.Subset.refl _
  · rcases answer_db ha with he | ⟨order, -, he⟩ | ⟨s, -, he⟩
    · rw [he]; exact List.Subset.refl _
    · rw [he]; exact rows_subset_commit w order
    · rw [he]; exact rows_subset_statement s w.clock w.db
  · rw [publish_db]; exact List.Subset.refl _
  · rw [forward_db]; exact List.Subset.refl _

theorem forwarded_subset_exec {c : Cmd} {f : Choice} {r : Except Exn c.Reply}
    (h : exec c f w = some (r, w')) : w.forwarded ⊆ w'.forwarded := by
  rcases exec_cases h with rfl | ⟨r', ha⟩ | ⟨m, fate, -, rfl⟩ | ⟨m, fate, -, rfl⟩
  · exact List.Subset.refl _
  · cases c with
    | seckill u v o now =>
      simp only [answer, Option.ite_none_left_eq_some, Option.some.injEq] at ha
      cases ha.2; exact List.Subset.refl _
    | awaitConfirm correlation =>
      obtain ⟨_, -, hp⟩ := Option.map_eq_some_iff.mp ha
      cases hp; exact List.Subset.refl _
    | nextId => cases ha
    | sendFailed m => cases ha; exact forwarded_subset_forward m .stored
    | basicReject tag requeue => cases ha; rw [reject_forwarded]; exact List.Subset.refl _
    | basicNack tag requeue => cases ha; rw [reject_forwarded]; exact List.Subset.refl _
    | _ => cases ha; exact List.Subset.refl _
  · rw [publish_forwarded]; exact List.Subset.refl _
  · exact forwarded_subset_forward m fate

end World

/-- The calls whose outcome is drawn from outside, not read off the stores. -/
def Cmd.Drawn : Cmd → Prop
  | .nextId | .seckill _ _ _ _ | .redis _ (.restore _ _) | .statement (.save _)
  | .sendOrder _ | .sendFailed _ | .awaitConfirm _ => True
  | _ => False

section Replies
variable {w w' : World} {c : Cmd} {f : Choice}

theorem ne_failsAfter_of_ok {a : c.Reply} (h : World.exec c f w = some (.ok a, w')) (e : Exn) :
    f ≠ .failsAfter e := by
  rintro rfl
  rw [World.exec_failsAfter] at h
  obtain ⟨_, -, hp⟩ := Option.map_eq_some_iff.mp h
  cases hp

/-- A call that returns has been performed as the stores have it, unless its outcome is drawn. -/
theorem answer_of_exec_ok {a : c.Reply} (hc : ¬ c.Drawn)
    (h : World.exec c f w = some (.ok a, w')) : w.answer c = some (.ok a, w') := by
  cases f with
  | performed => rwa [World.exec_performed] at h
  | fails e => cases c <;> cases h
  | failsAfter e => exact absurd rfl (ne_failsAfter_of_ok h e)
  | drawn id => cases c <;> first | exact absurd trivial hc | cases h
  | nothing =>
    cases c with
    | statement s => cases s <;> first | exact absurd trivial hc | cases h
    | redis v c => cases c <;> first | exact absurd trivial hc | cases h
    | seckill => exact absurd trivial hc
    | _ => cases h
  | published fate thrown => cases c <;> first | exact absurd trivial hc | cases h
  | nacked reason => cases c <;> first | exact absurd trivial hc | cases h

/-- A thrown exception is the chosen one, or one the stores have to throw. -/
theorem exec_error {e : Exn} (h : World.exec c f w = some (.error e, w')) :
    e ∈ f.thrown ∨ w.answer c = some (.error e, w') := by
  cases f with
  | performed => exact .inr (by rwa [World.exec_performed] at h)
  | fails e' => cases c <;> cases h <;> exact .inl rfl
  | failsAfter e' =>
    rw [World.exec_failsAfter] at h
    obtain ⟨_, -, hp⟩ := Option.map_eq_some_iff.mp h
    cases hp; exact .inl rfl
  | drawn id => cases c <;> cases h
  | nothing =>
    cases c with
    | statement s => cases s <;> cases h
    | redis v c => cases c <;> cases h
    | seckill => cases h
    | _ => cases h
  | published fate thrown => cases thrown <;> cases c <;> cases h <;> exact .inl rfl
  | nacked reason => cases c <;> cases h

theorem exec_redis_ok {v : Long} {c : RedisCmd} {a : c.Reply} (hc : ∀ u o, c ≠ .restore u o)
    (h : World.exec (.redis v c) f w = some (.ok a, w')) :
    (c.run w.redisNow (w.redis v)).1 = .ok a ∧
      w' = w.setRedis v (c.run w.redisNow (w.redis v)).2 := by
  have hd : ¬ (Cmd.redis v c).Drawn := by
    cases c with
    | restore u o => exact absurd rfl (hc u o)
    | _ => exact id
  obtain ⟨h₁, h₂⟩ := Prod.mk.inj (Option.some.inj (answer_of_exec_ok hd h))
  exact ⟨h₁, h₂.symm⟩

theorem exec_restore_ok {v u o : Long} {n : ℤ}
    (h : World.exec (.redis v (.restore u o)) f w = some (.ok (some n), w')) :
    ∃ k, seckillRestoreLua u o (w.redis v) = some (n, k) ∧ w' = w.setRedis v k := by
  cases f with
  | performed =>
    simp only [World.exec_performed, World.answer, RedisCmd.run] at h
    split at h
    · next hrun => cases h; exact ⟨_, hrun, rfl⟩
    · cases h
  | failsAfter e => exact absurd rfl (ne_failsAfter_of_ok h e)
  | _ => cases h

theorem exec_seckill_accepted {u v o now : Long}
    (h : World.exec (.seckill u v o now) f w = some (.ok (some .accepted), w')) :
    o ∉ w.issued ∧ (w.offer u v o now).1 = .accepted ∧ w' = (w.offer u v o now).2 := by
  cases f with
  | performed =>
    simp only [World.exec_performed, World.answer, Option.ite_none_left_eq_some,
      Option.some.injEq, Prod.mk.injEq, Except.ok.injEq] at h
    exact ⟨h.1, h.2.1, h.2.2.symm⟩
  | failsAfter e => exact absurd rfl (ne_failsAfter_of_ok h e)
  | _ => cases h

theorem exec_sendFailed_ok {m : Message} {correlation : CorrelationData}
    (h : World.exec (.sendFailed m) f w = some (.ok correlation, w')) :
    w' = w.forward m correlation.fate := by
  cases f with
  | performed => cases h; rfl
  | published fate thrown =>
    cases thrown with
    | none => cases h; rfl
    | some e => cases h
  | _ => cases h

/-- Only a stored message is confirmed and not returned. -/
theorem exec_awaitConfirm_ok {correlation : CorrelationData} {confirm : Confirm}
    (hack : confirm.ack = true) (hreturned : confirm.returned = none)
    (h : World.exec (.awaitConfirm correlation) f w = some (.ok (some confirm), w')) :
    correlation.fate = .stored := by
  cases f with
  | performed =>
    simp only [World.exec_performed, World.answer, World.confirmOf] at h
    split at h
    · next hfate => exact hfate
    · cases h; cases hreturned
    · cases h
  | failsAfter e => exact absurd rfl (ne_failsAfter_of_ok h e)
  | nacked reason => cases h; cases hack
  | _ => cases h

theorem exec_createVouchOrder_ok {order : VoucherOrder}
    (h : World.exec (.createVouchOrder order) f w = some (.ok (), w')) :
    w.commit order = (.ok (), w') :=
  Option.some.inj (answer_of_exec_ok id h)

theorem exec_createVouchOrder_row {order : VoucherOrder}
    (h : World.exec (.createVouchOrder order) f w = some (.ok (), w')) :
    order ∈ w'.db.orders.rows := by
  have hcommit := exec_createVouchOrder_ok h
  rcases w.commit_cases order with ⟨db₁, db₂, h₁, h₂, hc⟩ | ⟨-, hc⟩ | ⟨-, hc⟩ <;>
    (rw [hc] at hcommit; cases hcommit)
  rw [show db₂.orders = db₁.orders from (Database.decrementStock_eq_some h₂).2.1,
    (Database.save_eq_some h₁).2.1]
  exact List.mem_cons_self

end Replies

def sampleWorld : World := .start (fun _ => openedVoucher 2) twoLeft

def sampleMessage : Message := ⟨100, 7, 1⟩

end HmDianPing.Seckill
