import HmDianPing.Seckill.PendingOrderService

/-! # The producer callbacks and the two consumers

`VoucherOrderProducer`, `VoucherOrderConsumer`, `VoucherOrderFailedConsumer`, and
what `RabbitMqConfig` puts around the last: a stateless retry interceptor and a
recoverer. Both containers acknowledge manually.
-/
namespace HmDianPing.Seckill
open Interleaving Program

/-- The id of a `CorrelationData`: of an order message, of a forwarded one, or anything else. -/
inductive CorrelationId where
  | order (orderId voucherId : Long)
  | failed (orderId : Long)
  | unknown
deriving DecidableEq

def sendOrderMessage (orderMessage : Message) : Handler Unit :=
  perform (Cmd.sendOrder orderMessage)

def confirm (correlation : Option CorrelationId) (ack : Bool) (cause : Option String) :
    Handler Unit :=
  match correlation with
  | some (.order orderId voucherId) =>
    if ack then markSendSuccess voucherId orderId else markSendFailed voucherId orderId cause
  | _ => pure ()

def returnReason (replyCode : ℤ) (replyText exchange routingKey : String) : String :=
  "return replyCode=" ++ toString replyCode ++ ", replyText=" ++ replyText ++
    ", exchange=" ++ exchange ++ ", routingKey=" ++ routingKey

/-- `VoucherOrderProducer.returnedMessage`; no message when it cannot be converted. -/
def returnedMessage (failedPurpose : Bool) (converted : Option Message) (replyCode : ℤ)
    (replyText exchange routingKey : String) : Handler Unit :=
  if failedPurpose then pure () else
  match converted with
  | none => pure ()
  | some orderMessage =>
    markRouteFailed orderMessage (some (returnReason replyCode replyText exchange routingKey))

def maxRetryCount : ℕ := 3

/-- The count of the first death in the order queue by rejection. -/
def getRetryCount (xDeath : List XDeath) : ℕ :=
  match xDeath.find? fun x => x.queue = .order ∧ x.reason = .rejected with
  | some x => x.count
  | none => 0

def sendToFailedQueueAndWaitForConfirm (orderMessage : Message) : Handler Unit := do
  let correlationData ← perform (Cmd.sendFailed orderMessage)
  let confirm ← perform (Cmd.awaitConfirm correlationData)
  match confirm with
  | none => throw ⟨.amqp, "失败订单消息未被Broker确认，orderId=" ++ toString orderMessage.orderId ++
      "，reason=confirm is null"⟩
  | some confirm =>
    if confirm.ack = false then
      throw ⟨.amqp, "失败订单消息未被Broker确认，orderId=" ++ toString orderMessage.orderId ++
        "，reason=" ++ confirm.reason⟩
    match confirm.returned with
    | none => pure ()
    | some replyText => throw ⟨.amqp, "失败订单消息无法路由，orderId=" ++
        toString orderMessage.orderId ++ "，replyText=" ++ replyText⟩

/-- The `try` of `listenVoucherOrder`. -/
def consumeOrder (orderMessage : Message) (deliveryTag : ℕ) : Handler Unit := do
  let now ← currentTimeMillis
  markConsuming orderMessage.voucherId orderMessage.orderId now
  perform (Cmd.createVouchOrder orderMessage.order)
  let committedAt ← currentTimeMillis
  removePendingAt orderMessage.voucherId orderMessage.orderId committedAt
  perform (Cmd.basicAck deliveryTag)

/-- The `catch (DuplicateKeyException e)` of `listenVoucherOrder`. -/
def consumeDuplicate (orderMessage : Message) (deliveryTag : ℕ) : Handler Unit := do
  removePending orderMessage.voucherId orderMessage.orderId
  perform (Cmd.basicAck deliveryTag)

/-- The `catch (Exception e)` of `listenVoucherOrder`. -/
def consumeFailure (orderMessage : Message) (xDeath : List XDeath) (deliveryTag : ℕ) :
    Handler Unit :=
  if getRetryCount xDeath ≥ maxRetryCount then
    tryCatch (do
      sendToFailedQueueAndWaitForConfirm orderMessage
      perform (Cmd.basicAck deliveryTag)) fun _ => perform (Cmd.basicNack deliveryTag true)
  else perform (Cmd.basicReject deliveryTag false)

def listenVoucherOrder (orderMessage : Message) (xDeath : List XDeath) (deliveryTag : ℕ) :
    Handler Unit :=
  tryCatch (consumeOrder orderMessage deliveryTag) fun e =>
    if e.kind = .duplicateKey then consumeDuplicate orderMessage deliveryTag
    else consumeFailure orderMessage xDeath deliveryTag

/-- `VoucherOrderFailedConsumer.listenFailedOrder`; its `catch` only logs and throws again. -/
def listenFailedOrder (orderMessage : Message) (tag : ℕ) : Handler Unit := do
  let order ← perform (Cmd.getById orderMessage.orderId)
  if order.isSome then
    removePending orderMessage.voucherId orderMessage.orderId
    perform (Cmd.basicAck tag)
  else
    let restored ← perform
      (Cmd.redis orderMessage.voucherId (.restore orderMessage.userId orderMessage.orderId))
    match restored with
    | none => throw ⟨.illegalState, "Redis恢复脚本未返回结果，orderId=" ++ toString orderMessage.orderId⟩
    | some restored =>
      markFailed orderMessage.voucherId orderMessage.orderId
        (some ("consume failed, redis restored=" ++ toString restored))
      perform (Cmd.basicAck tag)

def failedOrderMessageRecoverer (orderMessage : Message) : Handler Unit := do
  perform (Cmd.park orderMessage)
  throw ⟨.rejectAndDontRequeue false, "失败消息已确认转发到停车队列"⟩

/-- A stateless retry interceptor with `retries` attempts after the first. -/
def retrying (recoverer : Exn → Handler Unit) (listener : Handler Unit) : ℕ → Handler Unit
  | 0 => tryCatch listener recoverer
  | retries + 1 => tryCatch listener fun _ => retrying recoverer listener retries

/-- `listenFailedOrder` under `failedOrderRetryInterceptor`, whose `maxAttempts` is 4. -/
def listenFailedOrderRetrying (orderMessage : Message) (tag : ℕ) : Handler Unit :=
  retrying (fun _ => failedOrderMessageRecoverer orderMessage) (listenFailedOrder orderMessage tag) 3

/-- A container in acknowledge mode `MANUAL` settles a delivery itself only on a rejection that
asks for it. -/
def manualContainer (tag : ℕ) (listener : Handler Unit) : Handler Unit :=
  tryCatch listener fun e =>
    if e.kind = .rejectAndDontRequeue true then perform (Cmd.basicReject tag false) else pure ()

structure ConsumerCalls (P : Cmd → Prop) (m : Message) : Prop where
  time : P .currentTimeMillis
  consuming : ∀ now, (markConsuming m.voucherId m.orderId now).Calls P
  created : ∀ committedAt, (removePendingAt m.voucherId m.orderId committedAt).Calls P
  failed : ∀ reason, (markFailed m.voucherId m.orderId reason).Calls P
  row : P (.getById m.orderId)
  restore : P (.redis m.voucherId (.restore m.userId m.orderId))
  forward : P (.sendFailed m) ∧ (∀ correlation, P (.awaitConfirm correlation)) ∧ P (.park m)
  settle : ∀ tag, P (.basicAck tag) ∧ P (.basicReject tag false) ∧ P (.basicNack tag true)

namespace ConsumerCalls
variable {P : Cmd → Prop} {m : Message} (h : ConsumerCalls P m) (tag : ℕ)
include h

theorem ack : (perform (Cmd.basicAck tag) : Handler Unit).Calls P :=
  (calls_perform _).mpr (h.settle tag).1

theorem removePending : (removePending m.voucherId m.orderId).Calls P :=
  (calls_perform_bind _ _).mpr ⟨h.time, h.created⟩

theorem sendToFailedQueue : (sendToFailedQueueAndWaitForConfirm m).Calls P := by
  refine (calls_perform_bind _ _).mpr ⟨h.forward.1, fun _ => (calls_perform_bind _ _).mpr
    ⟨h.forward.2.1 _, fun confirm => ?_⟩⟩
  cases confirm with
  | none => exact calls_throw _
  | some confirm =>
    by_cases hack : confirm.ack = false
    · simp only [if_pos hack]
      exact calls_throw _
    · simp only [if_neg hack]
      cases confirm.returned with
      | none => exact calls_pure _
      | some text => exact calls_throw _

theorem manualContainer {l : Handler Unit} (hl : l.Calls P) : (manualContainer tag l).Calls P :=
  hl.tryCatch fun _ => (calls_ite _ _ _).mpr
    ⟨fun _ => (calls_perform _).mpr (h.settle tag).2.1, fun _ => calls_pure _⟩

theorem listenVoucherOrder (hcreate : P (.createVouchOrder m.order)) (xDeath : List XDeath) :
    (listenVoucherOrder m xDeath tag).Calls P := by
  refine Calls.tryCatch ?_ fun e => (calls_ite _ _ _).mpr ⟨fun _ => ?_, fun _ => ?_⟩
  · refine (calls_perform_bind _ _).mpr ⟨h.time, fun now => (h.consuming now).bind fun _ => ?_⟩
    refine (calls_perform_bind _ _).mpr ⟨hcreate, fun _ => (calls_perform_bind _ _).mpr ⟨h.time, ?_⟩⟩
    exact fun at_ => (h.created at_).bind fun _ => h.ack tag
  · exact h.removePending.bind fun _ => h.ack tag
  · refine (calls_ite _ _ _).mpr ⟨fun _ => ?_, fun _ => (calls_perform _).mpr (h.settle tag).2.1⟩
    exact (h.sendToFailedQueue.bind fun _ => h.ack tag).tryCatch
      fun _ => (calls_perform _).mpr (h.settle tag).2.2

theorem listenFailedOrder : (listenFailedOrder m tag).Calls P := by
  refine (calls_perform_bind _ _).mpr ⟨h.row, fun order => (calls_ite _ _ _).mpr
    ⟨fun _ => h.removePending.bind fun _ => h.ack tag, fun _ => ?_⟩⟩
  refine (calls_perform_bind _ _).mpr ⟨h.restore, fun restored => ?_⟩
  cases restored with
  | none => exact calls_throw _
  | some n => exact (h.failed _).bind fun _ => h.ack tag

theorem listenFailedOrderRetrying : (listenFailedOrderRetrying m tag).Calls P := by
  have hrecover : ∀ _ : Exn, (failedOrderMessageRecoverer m).Calls P := fun _ =>
    (calls_perform_bind _ _).mpr ⟨h.forward.2.2, fun _ => calls_throw _⟩
  have hretrying : ∀ retries, (retrying (fun _ => failedOrderMessageRecoverer m)
      (Seckill.listenFailedOrder m tag) retries).Calls P := by
    intro retries
    induction retries with
    | zero => exact (h.listenFailedOrder tag).tryCatch hrecover
    | succ retries ih => exact (h.listenFailedOrder tag).tryCatch fun _ => ih
  exact hretrying 3

end ConsumerCalls
end HmDianPing.Seckill
