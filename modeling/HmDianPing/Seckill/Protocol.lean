import HmDianPing.Interleaving.Machine
import HmDianPing.Seckill.Service

/-! # The asynchronous protocol

Requests, publishes, confirms, returns, deliveries and republish scans, call by
call and in any order. The broker delivers at least once and from any place of a
queue, a nack can come for any publication, and any handler can be lost between
two of its calls.
-/
namespace HmDianPing.Seckill
open Interleaving Program

inductive HandlerTag where
  | request (userId voucherId : Long)
  | confirm (publication : Publication)
  | returned (m : Message)
  | consumer (m : Message)
  | failedConsumer (m : Message)
  | republish

inductive ProtocolAction where
  | request (userId voucherId : Long)
  /-- The broker hands the `n`-th copy of a queue to its consumer. -/
  | deliver (queue : QueueName) (n : ℕ)
  /-- A channel closes, and its unacknowledged delivery goes back to its queue. -/
  | requeue (tag : ℕ)
  /-- The time to live of the retry queue ends for the `n`-th copy. -/
  | expireRetry (n : ℕ)
  | confirm (n : ℕ) (ack : Bool) (cause : Option String)
  | returned (n : ℕ) (replyCode : ℤ) (replyText exchange routingKey : String)
  | republish
  /-- Redis drops a data hash whose time to live is over. -/
  | expireData (voucherId orderId : Long)
  | tick (clock : ℤ) (redisTime : ℤ × ℤ)

abbrev ProtocolThread := Thread Cmd Cmd.Reply Exn HandlerTag

abbrev ProtocolConfig := Config World Cmd Cmd.Reply Exn HandlerTag

/-- An exception a store, the broker or a network can throw; the others come from the unique keys
and from the handlers themselves. -/
def Exn.foreign (e : Exn) : Bool :=
  match e.kind with
  | .duplicateKey | .rejectAndDontRequeue _ => false
  | _ => true

/-- The call reaches its callee and is performed there, with or without a reply. -/
def Choice.Takes : Choice → Prop
  | .performed | .failsAfter _ => True
  | _ => False

/-- What the call is chosen to throw is something its callee can throw. -/
def Choice.Genuine (f : Choice) : Prop := ∀ e ∈ f.thrown, e.foreign = true

instance (f : Choice) : Decidable f.Genuine := inferInstanceAs (Decidable (∀ e ∈ f.thrown, _))

/-- The consumer of a queue; the retry and the parking queue have none. -/
def listener : QueueName → Copy → ℕ → Option ProtocolThread
  | .order, copy, tag => some ⟨.consumer copy.message,
      manualContainer tag (listenVoucherOrder copy.message copy.xDeath tag)⟩
  | .failed, copy, tag => some ⟨.failedConsumer copy.message,
      manualContainer tag (listenFailedOrderRetrying copy.message tag)⟩
  | _, _, _ => none

namespace World

def removeCopy (w : World) (q : QueueName) (n : ℕ) : World :=
  { w with queues := Function.update w.queues q ((w.queues q).eraseIdx n) }

def deliver (w : World) (q : QueueName) (n : ℕ) (copy : Copy) : World :=
  { w.removeCopy q n with
    unacked := ⟨w.nextTag, q, copy⟩ :: w.unacked
    nextTag := w.nextTag + 1 }

/-- The retry queue has the order exchange as its dead letter exchange. -/
def expireRetry (w : World) (n : ℕ) (copy : Copy) : World :=
  (w.removeCopy .retry n).enqueue .order (copy.die .retry .expired)

def expireData (w : World) (v o : Long) : World :=
  w.setRedis v ((w.redis v).updateData o fun _ => .absent)

/-- The data hash has an expiry, and it is over. -/
def DataOverdue (w : World) (v o : Long) : Prop :=
  ∃ t ∈ ((w.redis v).pendingData o).expireAt, t ≤ w.redisNow

instance (w : World) (v o : Long) : Decidable (w.DataOverdue v o) :=
  match h : ((w.redis v).pendingData o).expireAt with
  | none => isFalse fun ⟨_, ht, _⟩ => by rw [h] at ht; cases ht
  | some t => decidable_of_iff (t ≤ w.redisNow) (by simp [DataOverdue, h])

def act : ProtocolAction → World → Option (World × List ProtocolThread)
  | .request u v, w => some (w, [⟨.request u v, do
      let _ ← seckillVoucher true u v⟩])
  | .deliver q n, w => (w.queues q)[n]?.bind fun copy =>
      (listener q copy w.nextTag).map fun t => (w.deliver q n copy, [t])
  | .requeue tag, w => some (w.reject tag true, [])
  | .expireRetry n, w => (w.queues .retry)[n]?.map fun copy => (w.expireRetry n copy, [])
  | .confirm n ack cause, w => w.unconfirmed[n]?.bind fun p =>
      if ack = true ∧ p.fate = .lost then none
      else some ({ w with unconfirmed := w.unconfirmed.eraseIdx n }, [⟨.confirm p,
        Seckill.confirm (some (.order p.message.orderId p.message.voucherId)) ack cause⟩])
  | .returned n code text exchange key, w => w.unreturned[n]?.map fun m =>
      ({ w with unreturned := w.unreturned.eraseIdx n },
        [⟨.returned m, returnedMessage false (some m) code text exchange key⟩])
  | .republish, w => some (w, [⟨.republish, republishPendingOrders⟩])
  | .expireData v o, w => if w.DataOverdue v o then some (w.expireData v o, []) else none
  | .tick clock redisTime, w => some ({ w with clock := clock, redisTime := redisTime }, [])

def Reserves (w : World) (m : Message) : Prop :=
  (w.redis m.voucherId).reservation.lookup m.userId = some m.orderId

instance (w : World) (m : Message) : Decidable (w.Reserves m) := inferInstanceAs (Decidable (_ = _))

/-- No order, no reservation and nothing pending. -/
structure Opening (w : World) : Prop where
  start : w = .start w.redis w.db
  rows : w.db.orders.rows = []
  reservation : ∀ v, (w.redis v).reservation = ∅
  pending : ∀ v, (w.redis v).pending = ∅
  data : ∀ v o, (w.redis v).pendingData o = .absent

end World

def seckillProtocol : Machine World Cmd Cmd.Reply Exn HandlerTag Choice ProtocolAction where
  exec c f w := if f.Genuine then World.exec c f w else none
  act := World.act

abbrev ProtocolRun := seckillProtocol.Run

def performs (i calls : ℕ) : List (Move Choice ProtocolAction) :=
  List.replicate calls (.run i .performed)

theorem sampleWorld_opening : sampleWorld.Opening :=
  ⟨rfl, rfl, fun _ => rfl, fun _ => rfl, fun _ _ => rfl⟩

/-- What a call can do to the stores, one case for each kind of effect. -/
inductive Effect (w : World) : Cmd → World → Prop
  | none (c : Cmd) : Effect w c w
  | offer {u v o : Long} (now : Long) (fresh : o ∉ w.issued) :
      Effect w (.seckill u v o now) (w.offer u v o now).2
  | redis (v : Long) (c : RedisCmd) :
      Effect w (.redis v c) (w.setRedis v (c.run w.redisNow (w.redis v)).2)
  | commit (order : VoucherOrder) : Effect w (.createVouchOrder order) (w.commit order).2
  | statement (s : Statement) :
      Effect w (.statement s) { w with db := (s.run w.clock w.db).2 }
  | publish (m : Message) (fate : Fate) : Effect w (.sendOrder m) (w.publish m fate)
  | forward (m : Message) (fate : Fate) : Effect w (.sendFailed m) (w.forward m fate)
  | park (m : Message) : Effect w (.park m) (w.enqueue .parking ⟨m, []⟩)
  | settle (tag : ℕ) : Effect w (.basicAck tag) (w.settle tag)
  | reject (tag : ℕ) (requeue : Bool) : Effect w (.basicReject tag requeue) (w.reject tag requeue)
  | nack (tag : ℕ) (requeue : Bool) : Effect w (.basicNack tag requeue) (w.reject tag requeue)

section Exec
variable {w w' : World} {c : Cmd} {f : Choice} {r : Except Exn c.Reply}

theorem effect_of_answer {r : Except Exn c.Reply} (h : w.answer c = some (r, w')) :
    Effect w c w' := by
  cases c with
  | currentTimeMillis => cases h; exact .none _
  | nextId => cases h
  | seckill u v o now =>
    simp only [World.answer, Option.ite_none_left_eq_some, Option.some.injEq] at h
    obtain ⟨hfresh, hp⟩ := h
    cases hp
    exact .offer now hfresh
  | redis v c => cases h; exact .redis v c
  | listVouchers => cases h; exact .none _
  | getById o => cases h; exact .none _
  | createVouchOrder order => cases h; exact .commit order
  | statement s => cases h; exact .statement s
  | sendOrder m => cases h; exact .publish m .stored
  | sendFailed m => cases h; exact .forward m .stored
  | awaitConfirm correlation =>
    obtain ⟨_, -, hp⟩ := Option.map_eq_some_iff.mp h
    cases hp; exact .none _
  | park m => cases h; exact .park m
  | basicAck tag => cases h; exact .settle tag
  | basicReject tag requeue => cases h; exact .reject tag requeue
  | basicNack tag requeue => cases h; exact .nack tag requeue

theorem effect_of_exec (h : World.exec c f w = some (r, w')) : Effect w c w' := by
  rcases World.exec_cases h with rfl | ⟨_, ha⟩ | ⟨m, fate, rfl, rfl⟩ | ⟨m, fate, rfl, rfl⟩
  · exact .none c
  · exact effect_of_answer ha
  · exact .publish m fate
  · exact .forward m fate

theorem exec_redis_cases {v : Long} {c : RedisCmd} {r : Except Exn c.Reply}
    (h : World.exec (.redis v c) f w = some (r, w')) :
    w' = w ∨ (f.Takes ∧ w' = w.setRedis v (c.run w.redisNow (w.redis v)).2) := by
  cases f with
  | performed =>
    rw [World.exec_performed] at h
    cases h
    exact .inr ⟨trivial, rfl⟩
  | failsAfter e =>
    rw [World.exec_failsAfter] at h
    cases h
    exact .inr ⟨trivial, rfl⟩
  | fails e => cases h; exact .inl rfl
  | nothing => cases c <;> cases h; exact .inl rfl
  | _ => cases c <;> cases h

/-- The only exception of this kind that can reach the handlers is a real clash. -/
theorem exec_createVouchOrder_duplicate {order : VoucherOrder} {e : Exn} (hf : f.Genuine)
    (he : e.kind = .duplicateKey)
    (h : World.exec (.createVouchOrder order) f w = some (.error e, w')) :
    ∃ row ∈ w.db.orders.rows, order.Clashes row := by
  rcases exec_error h with ht | ha
  · have := hf e ht
    simp [Exn.foreign, he] at this
  · have ha : w.commit order = (.error e, w') := Option.some.inj ha
    rcases w.commit_cases order with ⟨_, _, -, -, hc⟩ | ⟨hclash, -⟩ | ⟨-, hc⟩
    · rw [hc] at ha; cases ha
    · exact hclash
    · rw [hc] at ha; cases ha; cases he

end Exec

section Offer
variable (w : World) (u v o now : Long)

/-- A request is refused without a trace, or reserves for a user who holds nothing. -/
theorem World.offer_cases :
    ((w.offer u v o now).1 ≠ .accepted ∧ (w.offer u v o now).2 = { w with issued := o :: w.issued }) ∨
      ∃ stock, (w.offer u v o now).1 = .accepted ∧ u ∉ (w.redis v).reservation ∧
        u ∉ (w.redis v).legacyOrder ∧ (w.redis v).stock = some stock ∧ 0 < stock ∧
        (w.offer u v o now).2 =
          { w.setRedis v ((w.redis v).reserve u v o now w.redisTime stock) with
            issued := o :: w.issued
            accepted := ⟨o, u, v⟩ :: w.accepted } := by
  have hrun : seckillLua u v o now w.redisTime (w.redis v) =
      ((w.offer u v o now).1, (w.offer u v o now).2.redis v) := by
    simp [offer, setRedis]
  rcases seckillLua_cases hrun with ⟨hne, hk⟩ | ⟨stock, hacc, hres, hleg, hstock, hpos, hk⟩
  · refine .inl ⟨hne, ?_⟩
    simp only [offer, setRedis, Function.update_self] at hne hk ⊢
    rw [if_neg hne, hk, Function.update_eq_self]
  · refine .inr ⟨stock, hacc, hres, hleg, hstock, hpos, ?_⟩
    simp only [offer, setRedis, Function.update_self] at hacc hk ⊢
    rw [if_pos hacc, hk]

variable (k : VoucherKeys) (time : ℤ × ℤ) (stock : ℤ)

theorem hget_reserve_ne {o' : Long} (ho : o' ≠ o) (field : Field) :
    (k.reserve u v o now time stock).hget o' field = k.hget o' field := by
  simp [VoucherKeys.hget, VoucherKeys.reserve, ho]

theorem hget_reserve_userId :
    (k.reserve u v o now time stock).hget o .userId = some (.number u) := by
  simp [VoucherKeys.hget, VoucherKeys.reserve, newPendingFields, AList.lookup_insert_ne]

theorem hget_reserve_status :
    (k.reserve u v o now time stock).hget o .status = some (.status .pending) := by
  simp [VoucherKeys.hget, VoucherKeys.reserve, newPendingFields, AList.lookup_insert_ne]

end Offer
end HmDianPing.Seckill
