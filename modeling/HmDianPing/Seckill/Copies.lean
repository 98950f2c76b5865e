import HmDianPing.Seckill.Protocol

/-! # Where the copies of a message are

A copy is in a queue or with a consumer, and every queue is on one of two sides:
before the order is created, or after its creation has failed. Only publishing
brings a copy to a side, and only settling a delivery takes one away.
-/
namespace HmDianPing.Seckill
open Interleaving Program

inductive Side where
  | order | failed
deriving DecidableEq

def QueueName.side : QueueName → Side
  | .order | .retry => .order
  | .failed | .parking => .failed

namespace World

/-- A copy of the message is in a queue of this side, or held by the consumer of one. -/
def CopyOn (w : World) (s : Side) (m : Message) : Prop :=
  (∃ q : QueueName, q.side = s ∧ ∃ c ∈ w.queues q, c.message = m) ∨
    ∃ d ∈ w.unacked, d.queue.side = s ∧ d.copy.message = m

/-- Delivery tags are drawn once. -/
structure Tagged (w : World) : Prop where
  nodup : (w.unacked.map Delivery.tag).Nodup
  drawn : ∀ d ∈ w.unacked, d.tag < w.nextTag

variable {w w' : World} {s : Side} {m : Message}

theorem copyOn_enqueue (q : QueueName) (c : Copy) :
    (w.enqueue q c).CopyOn s m ↔ (q.side = s ∧ c.message = m) ∨ w.CopyOn s m := by
  have hq : (∃ q', q'.side = s ∧ ∃ c' ∈ (w.enqueue q c).queues q', c'.message = m) ↔
      (q.side = s ∧ c.message = m) ∨ ∃ q', q'.side = s ∧ ∃ c' ∈ w.queues q', c'.message = m := by
    constructor
    · rintro ⟨q', hs, c', hc, hm⟩
      by_cases hq : q' = q
      · subst hq
        simp only [enqueue, Function.update_self, List.mem_append, List.mem_singleton] at hc
        rcases hc with hc | rfl
        · exact .inr ⟨q', hs, c', hc, hm⟩
        · exact .inl ⟨hs, hm⟩
      · simp only [enqueue, Function.update_of_ne hq] at hc
        exact .inr ⟨q', hs, c', hc, hm⟩
    · rintro (⟨hs, hm⟩ | ⟨q', hs, c', hc, hm⟩)
      · exact ⟨q, hs, c, by simp [enqueue], hm⟩
      · refine ⟨q', hs, c', ?_, hm⟩
        by_cases hq : q' = q
        · subst hq; simp [enqueue, hc]
        · simpa [enqueue, hq] using hc
  rw [CopyOn, hq, or_assoc]
  exact Iff.rfl

theorem copyOn_of_settle {tag : ℕ} (h : (w.settle tag).CopyOn s m) : w.CopyOn s m :=
  h.imp id fun ⟨d, hd, hdm⟩ => ⟨d, (List.mem_filter.mp hd).1, hdm⟩

theorem CopyOn.settle (h : w.CopyOn s m) (tag : ℕ) : (w.settle tag).CopyOn s m ∨
    ∃ d ∈ w.unacked, d.tag = tag ∧ d.queue.side = s ∧ d.copy.message = m := by
  rcases h with hq | ⟨d, hd, hs, hm⟩
  · exact .inl (.inl hq)
  · by_cases ht : d.tag = tag
    · exact .inr ⟨d, hd, ht, hs, hm⟩
    · exact .inl (.inr ⟨d, List.mem_filter.mpr ⟨hd, by simpa using ht⟩, hs, hm⟩)

theorem Tagged.unique (h : w.Tagged) {d d' : Delivery} (hd : d ∈ w.unacked) (hd' : d' ∈ w.unacked)
    (ht : d.tag = d'.tag) : d = d' :=
  List.inj_on_of_nodup_map h.nodup hd hd' ht

/-- What a reject or nack does: nothing, or it moves one delivery within its side, or drops one
that is neither requeued nor of the order queue. -/
theorem reject_cases (w : World) (tag : ℕ) (requeue : Bool) :
    w.reject tag requeue = w ∨ ∃ d ∈ w.unacked, d.tag = tag ∧
      ((∃ q c, q.side = d.queue.side ∧ c.message = d.copy.message ∧
          w.reject tag requeue = (w.settle tag).enqueue q c) ∨
        (requeue = false ∧ d.queue ≠ .order ∧ w.reject tag requeue = w.settle tag)) := by
  unfold reject
  split
  · exact .inl rfl
  · next d hfind =>
    refine .inr ⟨d, List.mem_of_find?_eq_some hfind, by simpa using List.find?_some hfind, ?_⟩
    cases requeue with
    | true => exact .inl ⟨d.queue, d.copy, rfl, rfl, rfl⟩
    | false =>
      by_cases hq : d.queue = .order
      · exact .inl ⟨.retry, d.copy.die .order .rejected, by rw [hq]; rfl, rfl, by simp [hq]⟩
      · exact .inr ⟨rfl, hq, by simp [hq]⟩

theorem copyOn_of_reject {tag : ℕ} {requeue : Bool} (h : (w.reject tag requeue).CopyOn s m) :
    w.CopyOn s m := by
  rcases w.reject_cases tag requeue with he | ⟨d, hd, -, ⟨q, c, hq, hc, he⟩ | ⟨-, -, he⟩⟩
  · rwa [he] at h
  · rw [he, copyOn_enqueue] at h
    rcases h with ⟨hs, hm⟩ | h
    · exact .inr ⟨d, hd, hq ▸ hs, hc ▸ hm⟩
    · exact copyOn_of_settle h
  · rw [he] at h
    exact copyOn_of_settle h

theorem CopyOn.reject (h : w.CopyOn s m) (ht : w.Tagged) (tag : ℕ) (requeue : Bool) :
    (w.reject tag requeue).CopyOn s m ∨ ∃ d ∈ w.unacked, requeue = false ∧ d.tag = tag ∧
      d.queue ≠ .order ∧ d.queue.side = s ∧ d.copy.message = m := by
  rcases w.reject_cases tag requeue with he | ⟨d, hd, hdt, hmove⟩
  · exact .inl (by rwa [he])
  · rcases h.settle tag with hs | ⟨d', hd', hdt', hs', hm'⟩
    · rcases hmove with ⟨q, c, -, -, he⟩ | ⟨-, -, he⟩
      · exact .inl (by rw [he, copyOn_enqueue]; exact .inr hs)
      · exact .inl (by rwa [he])
    · obtain rfl := ht.unique hd hd' (hdt.trans hdt'.symm)
      rcases hmove with ⟨q, c, hq, hc, he⟩ | ⟨hr, hq, -⟩
      · exact .inl (by rw [he, copyOn_enqueue]; exact .inl ⟨hq.trans hs', hc.trans hm'⟩)
      · exact .inr ⟨d, hd, hr, hdt, hq, hs', hm'⟩

theorem copyOn_removeCopy {q : QueueName} {n : ℕ} {c : Copy} (h : (w.queues q)[n]? = some c) :
    w.CopyOn s m ↔ (q.side = s ∧ c.message = m) ∨ (w.removeCopy q n).CopyOn s m := by
  constructor
  · rintro (⟨q', hs, c', hc, hm⟩ | hheld)
    · by_cases hq : q' = q
      · subst hq
        obtain ⟨j, hj⟩ := List.mem_iff_getElem?.mp hc
        by_cases hn : j = n
        · subst hn
          obtain rfl := Option.some.inj (h.symm.trans hj)
          exact .inl ⟨hs, hm⟩
        · refine .inr (.inl ⟨q', hs, c', ?_, hm⟩)
          simpa [removeCopy] using List.mem_eraseIdx_iff_getElem?.mpr ⟨j, hn, hj⟩
      · exact .inr (.inl ⟨q', hs, c', by simpa [removeCopy, hq] using hc, hm⟩)
    · exact .inr (.inr hheld)
  · rintro (⟨hs, hm⟩ | ⟨q', hs, c', hc, hm⟩ | hheld)
    · exact .inl ⟨q, hs, c, List.mem_of_getElem? h, hm⟩
    · refine .inl ⟨q', hs, c', ?_, hm⟩
      by_cases hq : q' = q
      · subst hq
        exact List.mem_of_mem_eraseIdx (by simpa [removeCopy] using hc)
      · simpa [removeCopy, hq] using hc
    · exact .inr hheld

theorem copyOn_deliver {q : QueueName} {n : ℕ} {c : Copy} (h : (w.queues q)[n]? = some c) :
    (w.deliver q n c).CopyOn s m ↔ w.CopyOn s m := by
  rw [copyOn_removeCopy h]
  constructor
  · rintro (hq | ⟨d, hd, hs, hm⟩)
    · exact .inr (.inl hq)
    · rcases List.mem_cons.mp hd with rfl | hd
      · exact .inl ⟨hs, hm⟩
      · exact .inr (.inr ⟨d, hd, hs, hm⟩)
  · rintro (⟨hs, hm⟩ | hq | ⟨d, hd, hdm⟩)
    · exact .inr ⟨_, List.mem_cons_self, hs, hm⟩
    · exact .inl hq
    · exact .inr ⟨d, List.mem_cons_of_mem _ hd, hdm⟩

theorem copyOn_expireRetry {n : ℕ} {c : Copy} (h : (w.queues .retry)[n]? = some c) :
    (w.expireRetry n c).CopyOn s m ↔ w.CopyOn s m := by
  rw [copyOn_removeCopy h, expireRetry, copyOn_enqueue]
  exact Iff.rfl

end World

/-- The call settles the delivery for good. -/
def Drops (d : Delivery) (c : Cmd) : Prop :=
  c = .basicAck d.tag ∨
    d.queue ≠ .order ∧ (c = .basicReject d.tag false ∨ c = .basicNack d.tag false)

section Calls
variable {w w' : World} {c : Cmd} {s : Side} {m : Message}

theorem Effect.copyOn_of (h : Effect w c w') (hm : w'.CopyOn s m) : w.CopyOn s m ∨
    (s = .order ∧ c = .sendOrder m) ∨ (s = .failed ∧ (c = .sendFailed m ∨ c = .park m)) := by
  cases h with
  | none | offer | redis | commit | statement => exact .inl hm
  | publish m' fate =>
    cases fate with
    | stored =>
      rcases (World.copyOn_enqueue _ _).mp hm with ⟨rfl, rfl⟩ | hm
      · exact .inr (.inl ⟨rfl, rfl⟩)
      · exact .inl hm
    | returned | lost => exact .inl hm
  | forward m' fate =>
    unfold World.forward at hm
    split at hm
    · rcases (World.copyOn_enqueue _ _).mp hm with ⟨rfl, rfl⟩ | hm
      · exact .inr (.inr ⟨rfl, .inl rfl⟩)
      · exact .inl hm
    · exact .inl hm
  | park m' =>
    rcases (World.copyOn_enqueue _ _).mp hm with ⟨rfl, rfl⟩ | hm
    · exact .inr (.inr ⟨rfl, .inr rfl⟩)
    · exact .inl hm
  | settle tag => exact .inl (World.copyOn_of_settle hm)
  | reject tag requeue | nack tag requeue => exact .inl (World.copyOn_of_reject hm)

/-- A copy is lost only with the delivery that holds it. -/
theorem Effect.copyOn (h : Effect w c w') (ht : w.Tagged) (hm : w.CopyOn s m) :
    w'.CopyOn s m ∨ ∃ d ∈ w.unacked, Drops d c ∧ d.queue.side = s ∧ d.copy.message = m := by
  cases h with
  | none | offer | redis | commit | statement => exact .inl hm
  | publish m' fate =>
    cases fate with
    | stored => exact .inl ((World.copyOn_enqueue _ _).mpr (.inr hm))
    | returned | lost => exact .inl hm
  | forward m' fate =>
    unfold World.forward
    split
    · exact .inl ((World.copyOn_enqueue _ _).mpr (.inr hm))
    · exact .inl hm
  | park m' => exact .inl ((World.copyOn_enqueue _ _).mpr (.inr hm))
  | settle tag =>
    refine (hm.settle tag).imp id ?_
    rintro ⟨d, hd, rfl, hdm⟩
    exact ⟨d, hd, .inl rfl, hdm⟩
  | reject tag requeue =>
    refine (hm.reject ht tag requeue).imp id ?_
    rintro ⟨d, hd, rfl, rfl, hq, hdm⟩
    exact ⟨d, hd, .inr ⟨hq, .inl rfl⟩, hdm⟩
  | nack tag requeue =>
    refine (hm.reject ht tag requeue).imp id ?_
    rintro ⟨d, hd, rfl, rfl, hq, hdm⟩
    exact ⟨d, hd, .inr ⟨hq, .inr rfl⟩, hdm⟩

theorem unacked_reject_sublist (w : World) (tag : ℕ) (requeue : Bool) :
    (w.reject tag requeue).unacked.Sublist w.unacked ∧
      (w.reject tag requeue).nextTag = w.nextTag := by
  rcases w.reject_cases tag requeue with he | ⟨d, -, -, ⟨q, c, -, -, he⟩ | ⟨-, -, he⟩⟩
  · rw [he]; exact ⟨.refl _, rfl⟩
  · rw [he]; exact ⟨List.filter_sublist, rfl⟩
  · rw [he]; exact ⟨List.filter_sublist, rfl⟩

theorem Effect.unacked (h : Effect w c w') :
    w'.unacked.Sublist w.unacked ∧ w'.nextTag = w.nextTag := by
  cases h with
  | none | offer | redis | commit | statement | park => exact ⟨.refl _, rfl⟩
  | publish m fate => cases fate <;> exact ⟨.refl _, rfl⟩
  | forward m fate => unfold World.forward; split <;> exact ⟨.refl _, rfl⟩
  | settle tag => exact ⟨List.filter_sublist, rfl⟩
  | reject tag requeue | nack tag requeue => exact unacked_reject_sublist w tag requeue

theorem World.Tagged.of_sublist (ht : w.Tagged) (hsub : w'.unacked.Sublist w.unacked)
    (hnext : w'.nextTag = w.nextTag) : w'.Tagged :=
  ⟨ht.nodup.sublist (hsub.map _), fun d hd => hnext ▸ ht.drawn d (hsub.subset hd)⟩

end Calls

/-- Redis, MySQL and the history of requests are the same. -/
structure World.SameStores (w w' : World) : Prop where
  redis : w'.redis = w.redis
  db : w'.db = w.db
  accepted : w'.accepted = w.accepted
  issued : w'.issued = w.issued

/-- What a call does to the stores, whatever it does to the broker. -/
inductive StoreEffect (w : World) : Cmd → World → Prop
  | same {c : Cmd} {w' : World} (h : w.SameStores w') : StoreEffect w c w'
  | refused {u v o now : Long} :
      StoreEffect w (.seckill u v o now) { w with issued := o :: w.issued }
  | reserved {u v o now stock : Long} (fresh : o ∉ w.issued) (free : u ∉ (w.redis v).reservation)
      (new : u ∉ (w.redis v).legacyOrder) (inStock : (w.redis v).stock = some stock) :
      StoreEffect w (.seckill u v o now)
        { w.setRedis v ((w.redis v).reserve u v o now w.redisTime stock) with
          issued := o :: w.issued
          accepted := ⟨o, u, v⟩ :: w.accepted }
  | redis (v : Long) (c : RedisCmd) :
      StoreEffect w (.redis v c) (w.setRedis v (c.run w.redisNow (w.redis v)).2)
  | inserted {order : VoucherOrder} {db₁ db₂ : Database} (saved : w.db.save order = some db₁)
      (sold : db₁.decrementStock order.voucherId = some db₂) :
      StoreEffect w (.createVouchOrder order) { w with db := db₂ }
  | statement (s : Statement) :
      StoreEffect w (.statement s) { w with db := (s.run w.clock w.db).2 }

theorem World.SameStores.refl (w : World) : w.SameStores w := ⟨rfl, rfl, rfl, rfl⟩

theorem sameStores_reject (w : World) (tag : ℕ) (requeue : Bool) :
    w.SameStores (w.reject tag requeue) := by
  rcases w.reject_cases tag requeue with he | ⟨d, -, -, ⟨q, c, -, -, he⟩ | ⟨-, -, he⟩⟩ <;>
    (rw [he]; exact ⟨rfl, rfl, rfl, rfl⟩)

theorem Effect.stores {w w' : World} {c : Cmd} (h : Effect w c w') : StoreEffect w c w' := by
  cases h with
  | @offer u v o now fresh =>
    rcases w.offer_cases u v o now with ⟨-, he⟩ | ⟨stock, -, hfree, hnew, hstock, -, he⟩
    · rw [he]; exact .refused
    · rw [he]; exact .reserved fresh hfree hnew hstock
  | redis v c => exact .redis v c
  | commit order =>
    rcases w.commit_cases order with ⟨db₁, db₂, h₁, h₂, he⟩ | ⟨-, he⟩ | ⟨-, he⟩
    · rw [he]; exact .inserted h₁ h₂
    · rw [he]; exact .same (.refl w)
    · rw [he]; exact .same (.refl w)
  | statement s => exact .statement s
  | publish m fate => cases fate <;> exact .same ⟨rfl, rfl, rfl, rfl⟩
  | forward m fate => unfold World.forward; split <;> exact .same ⟨rfl, rfl, rfl, rfl⟩
  | reject tag requeue | nack tag requeue => exact .same (sameStores_reject w tag requeue)
  | _ => exact .same ⟨rfl, rfl, rfl, rfl⟩

/-- The script has just reserved for a newly accepted order. -/
theorem StoreEffect.reserved_new {w w' : World} {c : Cmd} {m : Message} (h : StoreEffect w c w')
    (hm : m ∈ w'.accepted) (hnew : m ∉ w.accepted) : ∃ now stock, w'.redis m.voucherId =
      (w.redis m.voucherId).reserve m.userId m.voucherId m.orderId now w.redisTime stock := by
  cases h with
  | same hs => exact absurd (hs.accepted ▸ hm) hnew
  | @reserved u v o now stock =>
    rcases List.mem_cons.mp hm with rfl | hm
    · exact ⟨now, stock, Function.update_self _ _ _⟩
    · exact absurd hm hnew
  | _ => exact absurd hm hnew

section Acts
variable {w w' : World} {a : ProtocolAction} {started : List ProtocolThread} {s : Side} {m : Message}

theorem act_deliver {q : QueueName} {n : ℕ}
    (h : World.act (.deliver q n) w = some (w', started)) :
    ∃ c t, (w.queues q)[n]? = some c ∧ listener q c w.nextTag = some t ∧
      w' = w.deliver q n c ∧ started = [t] := by
  obtain ⟨c, hc, hl⟩ := Option.bind_eq_some_iff.mp h
  obtain ⟨t, ht, hp⟩ := Option.map_eq_some_iff.mp hl
  cases hp
  exact ⟨c, t, hc, ht, rfl, rfl⟩

theorem act_confirm {n : ℕ} {ack : Bool} {cause : Option String}
    (h : World.act (.confirm n ack cause) w = some (w', started)) :
    ∃ p, w.unconfirmed[n]? = some p ∧ (ack = true → p.fate ≠ .lost) ∧
      w' = { w with unconfirmed := w.unconfirmed.eraseIdx n } ∧ started = [⟨.confirm p,
        confirm (some (.order p.message.orderId p.message.voucherId)) ack cause⟩] := by
  obtain ⟨p, hp, h⟩ := Option.bind_eq_some_iff.mp h
  simp only [Option.ite_none_left_eq_some, Option.some.injEq, not_and] at h
  obtain ⟨hfate, h⟩ := h
  cases h
  exact ⟨p, hp, hfate, rfl, rfl⟩

theorem act_returned {n : ℕ} {code : ℤ} {text exchange key : String}
    (h : World.act (.returned n code text exchange key) w = some (w', started)) :
    ∃ m, w.unreturned[n]? = some m ∧
      w' = { w with unreturned := w.unreturned.eraseIdx n } ∧
      started = [⟨.returned m, returnedMessage false (some m) code text exchange key⟩] := by
  obtain ⟨m, hm, hp⟩ := Option.map_eq_some_iff.mp h
  cases hp
  exact ⟨m, hm, rfl, rfl⟩

theorem act_expireRetry {n : ℕ} (h : World.act (.expireRetry n) w = some (w', started)) :
    ∃ c, (w.queues .retry)[n]? = some c ∧ w' = w.expireRetry n c ∧ started = [] := by
  obtain ⟨c, hc, hp⟩ := Option.map_eq_some_iff.mp h
  cases hp
  exact ⟨c, hc, rfl, rfl⟩

theorem act_expireData {v o : Long} (h : World.act (.expireData v o) w = some (w', started)) :
    w.DataOverdue v o ∧ w' = w.expireData v o ∧ started = [] := by
  simp only [World.act, Option.ite_none_right_eq_some, Option.some.injEq] at h
  obtain ⟨hdue, hp⟩ := h
  cases hp
  exact ⟨hdue, rfl, rfl⟩

/-- A handler that starts, one case for each kind, and the world it leaves. -/
inductive Starts (w : World) : World → ProtocolThread → Prop
  | request (u v : Long) : Starts w w ⟨.request u v, do
      let _ ← seckillVoucher true u v⟩
  | republish : Starts w w ⟨.republish, republishPendingOrders⟩
  | returned {n : ℕ} {m : Message} (hm : w.unreturned[n]? = some m) (code : ℤ)
      (text exchange key : String) : Starts w { w with unreturned := w.unreturned.eraseIdx n }
        ⟨.returned m, returnedMessage false (some m) code text exchange key⟩
  | confirm {n : ℕ} {p : Publication} (hp : w.unconfirmed[n]? = some p) {ack : Bool}
      (hfate : ack = true → p.fate ≠ .lost) (cause : Option String) :
      Starts w { w with unconfirmed := w.unconfirmed.eraseIdx n } ⟨.confirm p,
        confirm (some (.order p.message.orderId p.message.voucherId)) ack cause⟩
  | order {n : ℕ} {copy : Copy} (hcopy : (w.queues .order)[n]? = some copy) :
      Starts w (w.deliver .order n copy) ⟨.consumer copy.message,
        manualContainer w.nextTag (listenVoucherOrder copy.message copy.xDeath w.nextTag)⟩
  | failed {n : ℕ} {copy : Copy} (hcopy : (w.queues .failed)[n]? = some copy) :
      Starts w (w.deliver .failed n copy) ⟨.failedConsumer copy.message,
        manualContainer w.nextTag (listenFailedOrderRetrying copy.message w.nextTag)⟩

theorem act_starts (h : World.act a w = some (w', started)) : ∀ t ∈ started, Starts w w' t := by
  intro t ht
  cases a with
  | request u v =>
    cases h
    obtain rfl := List.mem_singleton.mp ht
    exact .request u v
  | republish =>
    cases h
    obtain rfl := List.mem_singleton.mp ht
    exact .republish
  | returned n code text exchange key =>
    obtain ⟨m, hm, rfl, rfl⟩ := act_returned h
    obtain rfl := List.mem_singleton.mp ht
    exact .returned hm code text exchange key
  | confirm n ack cause =>
    obtain ⟨p, hp, hfate, rfl, rfl⟩ := act_confirm h
    obtain rfl := List.mem_singleton.mp ht
    exact .confirm hp hfate cause
  | deliver q n =>
    obtain ⟨copy, t', hcopy, hlistener, rfl, rfl⟩ := act_deliver h
    obtain rfl := List.mem_singleton.mp ht
    cases q with
    | order => cases hlistener; exact .order hcopy
    | failed => cases hlistener; exact .failed hcopy
    | retry | parking => cases hlistener
  | requeue tag => cases h; cases ht
  | expireRetry n => obtain ⟨_, -, -, rfl⟩ := act_expireRetry h; cases ht
  | expireData v o => obtain ⟨-, -, rfl⟩ := act_expireData h; cases ht
  | tick clock redisTime => cases h; cases ht

/-- The broker by itself only moves copies, each within its side. -/
theorem act_copyOn (h : World.act a w = some (w', started)) (ht : w.Tagged) :
    w'.CopyOn s m ↔ w.CopyOn s m := by
  cases a with
  | deliver q n =>
    obtain ⟨c, t, hc, -, rfl, -⟩ := act_deliver h
    exact World.copyOn_deliver hc
  | requeue tag =>
    cases h
    refine ⟨World.copyOn_of_reject, fun hm => ?_⟩
    rcases hm.reject ht tag true with hm | ⟨_, _, hf, -⟩
    · exact hm
    · cases hf
  | expireRetry n =>
    obtain ⟨c, hc, rfl, -⟩ := act_expireRetry h
    exact World.copyOn_expireRetry hc
  | confirm n ack cause =>
    obtain ⟨p, -, -, rfl, -⟩ := act_confirm h
    exact Iff.rfl
  | returned n code text exchange key =>
    obtain ⟨m', -, rfl, -⟩ := act_returned h
    exact Iff.rfl
  | expireData v o =>
    obtain ⟨-, rfl, -⟩ := act_expireData h
    exact Iff.rfl
  | request u v | republish | tick clock redisTime => cases h; exact Iff.rfl

theorem World.Tagged.deliver (ht : w.Tagged) (q : QueueName) (n : ℕ) (c : Copy) :
    (w.deliver q n c).Tagged := by
  refine ⟨?_, fun d hd => ?_⟩
  · refine List.nodup_cons.mpr ⟨fun hmem => ?_, ht.nodup⟩
    obtain ⟨d, hd, htag⟩ := List.mem_map.mp hmem
    exact absurd (ht.drawn d hd) (by rw [htag]; exact Nat.lt_irrefl _)
  · rcases List.mem_cons.mp hd with rfl | hd
    · exact Nat.lt_succ_self _
    · exact Nat.lt_succ_of_lt (ht.drawn d hd)

theorem World.Tagged.act (ht : w.Tagged) (h : World.act a w = some (w', started)) : w'.Tagged := by
  cases a with
  | deliver q n =>
    obtain ⟨c, t, -, -, rfl, -⟩ := act_deliver h
    exact ht.deliver q n c
  | requeue tag =>
    cases h
    exact ht.of_sublist (unacked_reject_sublist w tag true).1 (unacked_reject_sublist w tag true).2
  | expireRetry n =>
    obtain ⟨c, -, rfl, -⟩ := act_expireRetry h
    exact ht.of_sublist (.refl _) rfl
  | confirm n ack cause =>
    obtain ⟨p, -, -, rfl, -⟩ := act_confirm h
    exact ht.of_sublist (.refl _) rfl
  | returned n code text exchange key =>
    obtain ⟨m', -, rfl, -⟩ := act_returned h
    exact ht.of_sublist (.refl _) rfl
  | expireData v o =>
    obtain ⟨-, rfl, -⟩ := act_expireData h
    exact ht.of_sublist (.refl _) rfl
  | request u v | republish | tick clock redisTime => cases h; exact ht.of_sublist (.refl _) rfl

/-- What the environment does by itself to the stores: nothing, or it drops a data hash. -/
theorem act_stores (h : World.act a w = some (w', started)) :
    (w.SameStores w' ∧ w'.unconfirmed ⊆ w.unconfirmed ∧ w'.unreturned ⊆ w.unreturned) ∨
      ∃ v o, a = .expireData v o ∧ w.DataOverdue v o ∧ w' = w.expireData v o ∧ started = [] := by
  cases a with
  | deliver q n =>
    obtain ⟨c, t, -, -, rfl, -⟩ := act_deliver h
    exact .inl ⟨⟨rfl, rfl, rfl, rfl⟩, List.Subset.refl _, List.Subset.refl _⟩
  | requeue tag =>
    cases h
    refine .inl ⟨sameStores_reject w tag true, ?_⟩
    rcases w.reject_cases tag true with he | ⟨d, -, -, ⟨q, c, -, -, he⟩ | ⟨-, -, he⟩⟩ <;>
      (rw [he]; exact ⟨List.Subset.refl _, List.Subset.refl _⟩)
  | expireRetry n =>
    obtain ⟨c, -, rfl, -⟩ := act_expireRetry h
    exact .inl ⟨⟨rfl, rfl, rfl, rfl⟩, List.Subset.refl _, List.Subset.refl _⟩
  | confirm n ack cause =>
    obtain ⟨p, -, -, rfl, -⟩ := act_confirm h
    exact .inl ⟨⟨rfl, rfl, rfl, rfl⟩, List.eraseIdx_subset, List.Subset.refl _⟩
  | returned n code text exchange key =>
    obtain ⟨m', -, rfl, -⟩ := act_returned h
    exact .inl ⟨⟨rfl, rfl, rfl, rfl⟩, List.Subset.refl _, List.eraseIdx_subset⟩
  | expireData v o => exact .inr ⟨v, o, rfl, act_expireData h⟩
  | request u v | republish | tick clock redisTime =>
    cases h
    exact .inl ⟨⟨rfl, rfl, rfl, rfl⟩, List.Subset.refl _, List.Subset.refl _⟩

end Acts
end HmDianPing.Seckill
