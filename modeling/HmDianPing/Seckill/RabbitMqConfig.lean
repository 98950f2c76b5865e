import Mathlib.Data.List.Nodup
import HmDianPing.Amqp.Topology

/-! # The declared exchanges, queues and bindings

`RabbitMqConstants` and the beans of `RabbitMqConfig`. Every instance of the
application declares the same ones, and a queue of its own for the broadcasts of
cache invalidations.
-/
namespace HmDianPing.Seckill
open Amqp

namespace RabbitMqConstants

def orderExchange := "hmdp.order.exchange"
def orderQueue := "hmdp.order.create.queue"
def orderRoutingKey := "order.create"
def orderRetryExchange := "hmdp.order.retry.exchange"
def orderRetryQueue := "hmdp.order.retry.queue"
def orderRetryRoutingKey := "order.retry"
def orderFailedExchange := "hmdp.order.failed.exchange"
def orderFailedQueue := "hmdp.order.failed.queue"
def orderFailedRoutingKey := "order.failed"
def orderFailedParkingExchange := "hmdp.order.failed.parking.exchange"
def orderFailedParkingQueue := "hmdp.order.failed.parking.queue"
def orderFailedParkingRoutingKey := "order.failed.parking"
def cacheInvalidateExchange := "hmdp.cache.invalidate.exchange"
def cacheInvalidateQueuePrefix := "hmdp.cache.invalidate."
def cacheInvalidateParkingExchange := "hmdp.cache.invalidate.parking.exchange"
def cacheInvalidateParkingQueue := "hmdp.cache.invalidate.parking.queue"
def cacheInvalidateParkingRoutingKey := "cache.invalidate.parking"

end RabbitMqConstants

/-- `QueueBuilder.durable(name).build()`. -/
def durableQueue (name : String) : Queue := ⟨name, true, false, false, none, none, none⟩

/-- `BindingBuilder.bind(queue).to(exchange).with(routingKey)`. -/
def bindTo (queue : Queue) (exchange : Exchange) (routingKey : String) : Binding :=
  ⟨queue.name, exchange.name, routingKey⟩

namespace RabbitMqConfig
open RabbitMqConstants (orderRoutingKey orderRetryRoutingKey orderFailedRoutingKey
  orderFailedParkingRoutingKey cacheInvalidateParkingRoutingKey)

def orderExchange : Exchange := ⟨RabbitMqConstants.orderExchange, .direct⟩

def orderQueue : Queue := { durableQueue RabbitMqConstants.orderQueue with
  deadLetterExchange := some RabbitMqConstants.orderRetryExchange
  deadLetterRoutingKey := some orderRetryRoutingKey }

def orderBinding : Binding := bindTo orderQueue orderExchange orderRoutingKey

def orderRetryExchange : Exchange := ⟨RabbitMqConstants.orderRetryExchange, .direct⟩

def orderRetryQueue : Queue := { durableQueue RabbitMqConstants.orderRetryQueue with
  messageTtl := some 5000
  deadLetterExchange := some RabbitMqConstants.orderExchange
  deadLetterRoutingKey := some orderRoutingKey }

def orderRetryBinding : Binding := bindTo orderRetryQueue orderRetryExchange orderRetryRoutingKey

def orderFailedExchange : Exchange := ⟨RabbitMqConstants.orderFailedExchange, .direct⟩

def orderFailedQueue : Queue := durableQueue RabbitMqConstants.orderFailedQueue

def orderFailedBinding : Binding :=
  bindTo orderFailedQueue orderFailedExchange orderFailedRoutingKey

def orderFailedParkingExchange : Exchange :=
  ⟨RabbitMqConstants.orderFailedParkingExchange, .direct⟩

def orderFailedParkingQueue : Queue := durableQueue RabbitMqConstants.orderFailedParkingQueue

def orderFailedParkingBinding : Binding :=
  bindTo orderFailedParkingQueue orderFailedParkingExchange orderFailedParkingRoutingKey

def cacheInvalidateExchange : Exchange := ⟨RabbitMqConstants.cacheInvalidateExchange, .fanout⟩

/-- `QueueBuilder.nonDurable(name).exclusive().autoDelete().build()`. -/
def cacheInvalidateQueue (instanceId : String) : Queue :=
  ⟨RabbitMqConstants.cacheInvalidateQueuePrefix ++ instanceId, false, true, true, none, none, none⟩

def cacheInvalidateBinding (instanceId : String) : Binding :=
  bindTo (cacheInvalidateQueue instanceId) cacheInvalidateExchange ""

def cacheInvalidateParkingExchange : Exchange :=
  ⟨RabbitMqConstants.cacheInvalidateParkingExchange, .direct⟩

def cacheInvalidateParkingQueue : Queue :=
  durableQueue RabbitMqConstants.cacheInvalidateParkingQueue

def cacheInvalidateParkingBinding : Binding :=
  bindTo cacheInvalidateParkingQueue cacheInvalidateParkingExchange cacheInvalidateParkingRoutingKey

/-- What is the same for every instance. -/
def common : Topology where
  exchanges := [orderExchange, orderRetryExchange, orderFailedExchange, orderFailedParkingExchange,
    cacheInvalidateExchange, cacheInvalidateParkingExchange]
  queues := [orderQueue, orderRetryQueue, orderFailedQueue, orderFailedParkingQueue,
    cacheInvalidateParkingQueue]
  bindings := [orderBinding, orderRetryBinding, orderFailedBinding, orderFailedParkingBinding,
    cacheInvalidateParkingBinding]

/-- What the running instances have declared together. -/
def declared (instanceIds : List String) : Topology where
  exchanges := common.exchanges
  queues := common.queues ++ instanceIds.map cacheInvalidateQueue
  bindings := common.bindings ++ instanceIds.map cacheInvalidateBinding

section Routes
variable (instanceIds : List String)

/-- The queues of the instances are bound to the broadcast exchange only. -/
theorem bound_direct {e : Exchange} (he : e.name ≠ cacheInvalidateExchange.name)
    (key queue : String) : (declared instanceIds).bound e key queue = common.bound e key queue := by
  have hnone : ((instanceIds.map cacheInvalidateBinding).any fun b =>
      decide (b.queue = queue ∧ e.Takes key b)) = false := by
    rw [List.any_eq_false]
    intro b hb
    obtain ⟨i, -, rfl⟩ := List.mem_map.mp hb
    simpa [Exchange.Takes, cacheInvalidateBinding, bindTo] using fun _ h => absurd h.symm he
  simp only [Topology.bound, declared, List.any_append, hnone, Bool.or_false]

/-- The name of an instance's queue. -/
theorem instanceQueue_ne {name : String}
    (h : RabbitMqConstants.cacheInvalidateQueuePrefix.toList.isPrefixOf name.toList = false)
    (i : String) : name ≠ (cacheInvalidateQueue i).name := by
  rintro rfl
  have hprefix : RabbitMqConstants.cacheInvalidateQueuePrefix.toList <+:
      (cacheInvalidateQueue i).name.toList := by
    simp [cacheInvalidateQueue]
  rw [List.isPrefixOf_iff_prefix.mpr hprefix] at h
  cases h

/-- What this direct exchange takes under the key goes to no queue of an instance. -/
def Fixed (e : Exchange) (key : String) : Prop :=
  e.name ≠ cacheInvalidateExchange.name ∧ ∀ b ∈ common.bindings, e.Takes key b →
    RabbitMqConstants.cacheInvalidateQueuePrefix.toList.isPrefixOf b.queue.toList = false

instance (e : Exchange) (key : String) : Decidable (Fixed e key) :=
  inferInstanceAs (Decidable (_ ∧ ∀ b ∈ _, _ → _))

theorem route_fixed {exchange key : String} {e : Exchange}
    (he : common.exchanges.find? (fun e => e.name = exchange) = some e) (hfixed : Fixed e key) :
    (declared instanceIds).route exchange key = common.route exchange key := by
  have hinstances : (instanceIds.map cacheInvalidateQueue).filter
      (fun q => common.bound e key q.name) = [] := by
    rw [List.filter_eq_nil_iff]
    intro q hq
    obtain ⟨i, -, rfl⟩ := List.mem_map.mp hq
    rw [Bool.not_eq_true, Topology.bound, List.any_eq_false]
    intro b hb
    rw [decide_eq_true_eq]
    rintro ⟨hname, htakes⟩
    exact instanceQueue_ne (hfixed.2 b hb htakes) i hname
  have hexchanges : (declared instanceIds).exchanges = common.exchanges := rfl
  have hqueues : (declared instanceIds).queues =
      common.queues ++ instanceIds.map cacheInvalidateQueue := rfl
  simp only [Topology.route, hexchanges, he, bound_direct instanceIds hfixed.1, hqueues,
    List.filter_append, hinstances, List.append_nil]

theorem route_order : (declared instanceIds).route RabbitMqConstants.orderExchange orderRoutingKey =
    [orderQueue.name] := by
  rw [route_fixed instanceIds (e := orderExchange) (by decide) (by decide +kernel)]
  decide

theorem route_retry : (declared instanceIds).route RabbitMqConstants.orderRetryExchange
    orderRetryRoutingKey = [orderRetryQueue.name] := by
  rw [route_fixed instanceIds (e := orderRetryExchange) (by decide) (by decide +kernel)]
  decide

theorem route_failed : (declared instanceIds).route RabbitMqConstants.orderFailedExchange
    orderFailedRoutingKey = [orderFailedQueue.name] := by
  rw [route_fixed instanceIds (e := orderFailedExchange) (by decide) (by decide +kernel)]
  decide

theorem route_parking : (declared instanceIds).route RabbitMqConstants.orderFailedParkingExchange
    orderFailedParkingRoutingKey = [orderFailedParkingQueue.name] := by
  rw [route_fixed instanceIds (e := orderFailedParkingExchange) (by decide)
    (by decide)]
  decide

/-- The id under which an instance would take the parking queue for its own. -/
def parkingId : String := "parking.queue"

theorem cacheInvalidateQueue_name_injective {i j : String}
    (h : (cacheInvalidateQueue i).name = (cacheInvalidateQueue j).name) : i = j := by
  have h := congrArg String.toList h
  simp only [cacheInvalidateQueue, String.toList_append] at h
  exact String.toList_inj.mp (List.append_cancel_left h)

/-- The broadcast reaches every instance once and nothing else. -/
theorem route_broadcast (hnodup : instanceIds.Nodup) (hid : parkingId ∉ instanceIds) (key : String) :
    (declared instanceIds).route RabbitMqConstants.cacheInvalidateExchange key =
        instanceIds.map (fun i => RabbitMqConstants.cacheInvalidateQueuePrefix ++ i) ∧
      ((declared instanceIds).route RabbitMqConstants.cacheInvalidateExchange key).Nodup := by
  have hfind : common.exchanges.find?
      (fun e => e.name = RabbitMqConstants.cacheInvalidateExchange) = some cacheInvalidateExchange := by
    decide
  have hbound : ∀ queue : String, (declared instanceIds).bound cacheInvalidateExchange key queue = true ↔
      ∃ i ∈ instanceIds, (cacheInvalidateQueue i).name = queue := by
    intro queue
    have hcommon : common.bindings.any (fun b =>
        decide (b.queue = queue ∧ cacheInvalidateExchange.Takes key b)) = false := by
      have hother : ∀ b ∈ common.bindings, b.exchange ≠ cacheInvalidateExchange.name := by
        decide
      rw [List.any_eq_false]
      intro b hb
      rw [decide_eq_true_eq]
      rintro ⟨-, hname, -⟩
      exact hother b hb hname
    rw [Topology.bound, declared, List.any_append, hcommon, Bool.false_or, List.any_map,
      List.any_eq_true]
    refine exists_congr fun i => and_congr_right fun _ => ?_
    rw [Function.comp_apply, decide_eq_true_eq]
    exact and_iff_left ⟨rfl, .inl rfl⟩
  have hqueues : ((declared instanceIds).queues.filter fun q =>
      (declared instanceIds).bound cacheInvalidateExchange key q.name) =
        instanceIds.map cacheInvalidateQueue := by
    have hfixed : common.queues.filter (fun q =>
        (declared instanceIds).bound cacheInvalidateExchange key q.name) = [] := by
      have hnames : ∀ q ∈ common.queues, q.name = (cacheInvalidateQueue parkingId).name ∨
          RabbitMqConstants.cacheInvalidateQueuePrefix.toList.isPrefixOf q.name.toList = false := by
        decide
      rw [List.filter_eq_nil_iff]
      intro q hq htaken
      obtain ⟨i, hi, hname⟩ := (hbound q.name).mp htaken
      rcases hnames q hq with hparking | hother
      · exact hid (cacheInvalidateQueue_name_injective (hname.trans hparking) ▸ hi)
      · exact instanceQueue_ne hother i hname.symm
    have hinstances : (instanceIds.map cacheInvalidateQueue).filter (fun q =>
        (declared instanceIds).bound cacheInvalidateExchange key q.name) =
          instanceIds.map cacheInvalidateQueue := by
      rw [List.filter_eq_self]
      intro q hq
      obtain ⟨i, hi, rfl⟩ := List.mem_map.mp hq
      exact (hbound _).mpr ⟨i, hi, rfl⟩
    show (common.queues ++ instanceIds.map cacheInvalidateQueue).filter _ = _
    rw [List.filter_append, hfixed, hinstances, List.nil_append]
  have hroute : (declared instanceIds).route RabbitMqConstants.cacheInvalidateExchange key =
      instanceIds.map (fun i => RabbitMqConstants.cacheInvalidateQueuePrefix ++ i) := by
    have hexchanges : (declared instanceIds).exchanges = common.exchanges := rfl
    simp only [Topology.route, hexchanges, hfind, hqueues, List.map_map]
    rfl
  refine ⟨hroute, ?_⟩
  rw [hroute]
  exact (List.nodup_map_iff fun i j h => cacheInvalidateQueue_name_injective h).mpr hnodup

theorem route_broadcast_two :
    (declared ["app-1", "app-2"]).route
      RabbitMqConstants.cacheInvalidateExchange "" =
      ["hmdp.cache.invalidate.app-1", "hmdp.cache.invalidate.app-2"] :=
  (route_broadcast _ (by decide) (by decide +kernel) "").1

theorem queue?_common {q : Queue} (name : String) (h : common.queue? name = some q) :
    (declared instanceIds).queue? name = some q := by
  simp only [Topology.queue?, declared, List.find?_append] at h ⊢
  rw [h]
  rfl

end Routes
end RabbitMqConfig
end HmDianPing.Seckill
