import HmDianPing.Seckill.Messaging

/-! # `VoucherOrderServiceImpl` and `PendingOrderRepublishTask`

The request, the synchronous path, the status query and the republish scan.
-/
namespace HmDianPing.Seckill
open Interleaving Program

/-- `Result`; its field `total` is never set on these paths. -/
structure Result where
  success : Bool
  errorMsg : Option String
  data : Option Long
deriving DecidableEq

def Result.ok (data : Long) : Result := ⟨true, none, some data⟩

def Result.fail (errorMsg : String) : Result := ⟨false, some errorMsg, none⟩

/-- `seckillFailureMessage`, on the replies that reach it. -/
def seckillFailureMessage : SeckillReply → String
  | .soldOut => "库存不足"
  | .notStarted => "秒杀尚未开始"
  | .ended => "秒杀已经结束"
  | .uninitialised => "秒杀活动未初始化"
  | _ => "秒杀请求异常"

/-- The compensation in the two `catch` blocks of `createOrderSynchronously`. -/
def compensate (order : VoucherOrder) (reason errorMsg : String) : Handler Result := do
  let _ ← restorePreDeduct order.id order.userId order.voucherId
  markFailed order.voucherId order.id (some reason)
  return .fail errorMsg

/-- `createOrderSynchronously`. It calls `createVouchOrder` on `this`, past the transactional
proxy, so every statement commits by itself. -/
def createOrderSynchronously (orderId userId voucherId : Long) : Handler Result :=
  let voucherOrder : VoucherOrder := ⟨orderId, userId, voucherId⟩
  tryCatch (do
    lift Cmd.statement (createVouchOrder voucherOrder)
    removePending voucherId orderId
    return .ok orderId) fun e =>
    if e.kind = .duplicateKey then
      compensate voucherOrder ("sync duplicate order: " ++ e.message) "不能重复下单"
    else compensate voucherOrder ("sync create order failed: " ++ e.message) "秒杀服务异常"

/-- What `seckillVoucher` does once the script has accepted the request. -/
def afterAccepted (seckillAsyncEnabled : Bool) (orderId userId voucherId : Long) : Handler Result :=
  if seckillAsyncEnabled = false then createOrderSynchronously orderId userId voucherId
  else
    tryCatch (do
      sendOrderMessage ⟨orderId, userId, voucherId⟩
      return .ok orderId) fun e =>
      if e.kind = .amqp then do
        markSendFailed voucherId orderId (some ("convertAndSend exception: " ++ e.message))
        return .ok orderId
      else throw e

/-- `seckillVoucher`, for the user of the request. -/
def seckillVoucher (seckillAsyncEnabled : Bool) (userId voucherId : Long) : Handler Result := do
  let orderId ← perform Cmd.nextId
  let now ← currentTimeMillis
  let result ← perform (Cmd.seckill userId voucherId orderId now)
  match result with
  | none => return .fail "秒杀服务异常"
  | some (.exists _) => return .fail "该用户已经抢到优惠券，无法再抢"
  | some .legacyExists => return .fail "不能重复下单"
  | some .accepted => afterAccepted seckillAsyncEnabled orderId userId voucherId
  | some code => return .fail (seckillFailureMessage code)

inductive OrderStatus where
  | processing | completed | failed | notFound
deriving DecidableEq, Repr

structure SeckillOrderStatusDTO where
  orderId : Long
  status : OrderStatus
  pipelineStatus : Option Value
  acceptedAt : Option Long
  consumeStartedAt : Option Long
  dbCommittedAt : Option Long
  queueDelayMillis : Option Long
  dbProcessMillis : Option Long
  endToEndMillis : Option Long
  failureReason : Option Value

def SeckillOrderStatusDTO.bare (orderId : Long) (status : OrderStatus) : SeckillOrderStatusDTO :=
  ⟨orderId, status, none, none, none, none, none, none, none, none⟩

def notFound (orderId : Long) : SeckillOrderStatusDTO := .bare orderId .notFound

/-- The client's status for a pipeline status. -/
def clientStatus (pipelineStatus : Option Value) : OrderStatus :=
  if pipelineStatus = some (.status .orderCreated) then .completed
  else if pipelineStatus = some (.status .failed) then .failed
  else .processing

section ClientStatus
variable {x : Option Value}

theorem clientStatus_eq_completed :
    clientStatus x = .completed ↔ x = some (.status .orderCreated) := by
  unfold clientStatus
  split
  · simpa
  · next h => split <;> simp [h]

theorem clientStatus_eq_failed : clientStatus x = .failed ↔ x = some (.status .failed) := by
  unfold clientStatus
  split
  · next h => simp [h]
  · split
    · simpa
    · next h => simp [h]

theorem clientStatus_ne_notFound (x : Option Value) : clientStatus x ≠ .notFound := by
  unfold clientStatus
  split
  · simp
  · split <;> simp

end ClientStatus

def buildStatus (orderId : Long) (data : PendingData) : SeckillOrderStatusDTO where
  orderId := orderId
  status := clientStatus (data.lookup .status)
  pipelineStatus := data.lookup .status
  acceptedAt := longValue (data.lookup .createTime)
  consumeStartedAt := longValue (data.lookup .consumeStartTime)
  dbCommittedAt := longValue (data.lookup .dbCommittedTime)
  queueDelayMillis := longValue (data.lookup .queueDelayMillis)
  dbProcessMillis := longValue (data.lookup .dbProcessMillis)
  endToEndMillis := longValue (data.lookup .endToEndMillis)
  failureReason := data.lookup .lastError

def belongsToUser (storedUserId : Option Value) (userId : Long) : Prop :=
  storedUserId = some (.number userId)

instance (storedUserId : Option Value) (userId : Long) :
    Decidable (belongsToUser storedUserId userId) :=
  inferInstanceAs (Decidable (_ = _))

def querySeckillOrderStatus (orderId userId voucherId : Long) : Handler SeckillOrderStatusDTO := do
  let pendingData ← getData voucherId orderId
  if pendingData.entries ≠ [] then
    if ¬ belongsToUser (pendingData.lookup .userId) userId then
      return notFound orderId
    return buildStatus orderId pendingData
  let order ← perform (Cmd.getById orderId)
  match order with
  | none => return notFound orderId
  | some order =>
    if userId ≠ order.userId then
      return notFound orderId
    return { SeckillOrderStatusDTO.bare orderId .completed with
      pipelineStatus := some (.status .orderCreated) }

/-- The query, run at one moment, answers with `dto`. -/
def Answers (w : World) (orderId userId voucherId : Long) (dto : SeckillOrderStatusDTO) : Prop :=
  ∃ es w', Trace World.exec Eq w (querySeckillOrderStatus orderId userId voucherId) es w' (.ok dto)

def World.queriedStatus (w : World) (orderId userId voucherId : Long) : SeckillOrderStatusDTO :=
  let data := ((w.redis voucherId).pendingData orderId).hash
  if data.entries ≠ [] then
    if ¬ belongsToUser (data.lookup .userId) userId then notFound orderId
    else buildStatus orderId data
  else match w.db.row orderId with
    | none => notFound orderId
    | some order =>
      if userId ≠ order.userId then notFound orderId
      else { SeckillOrderStatusDTO.bare orderId .completed with
        pipelineStatus := some (.status .orderCreated) }

section Query
variable {w w' : World} {orderId userId voucherId : Long} {dto : SeckillOrderStatusDTO} {f : Choice}

theorem exec_hgetall_ok {data : PendingData}
    (h : World.exec (.redis voucherId (.hgetall orderId)) f w = some (.ok data, w')) :
    data = ((w.redis voucherId).pendingData orderId).hash ∧ w' = w := by
  cases f with
  | performed =>
    cases h
    exact ⟨rfl, by simp [World.setRedis, RedisCmd.run]⟩
  | _ => cases h

theorem exec_getById_ok {order : Option VoucherOrder}
    (h : World.exec (.getById orderId) f w = some (.ok order, w')) :
    order = w.db.row orderId ∧ w' = w := by
  cases f with
  | performed => cases h; exact ⟨rfl, rfl⟩
  | _ => cases h

theorem Answers.eq_queriedStatus (h : Answers w orderId userId voucherId dto) :
    dto = w.queriedStatus orderId userId voucherId := by
  obtain ⟨es, w', h⟩ := h
  rcases Trace.of_bind h with ⟨data, _, _, w₁, -, hdata, hrest⟩ | ⟨e, he, -⟩
  swap
  · cases he
  obtain ⟨_, f, rfl, hexec, -⟩ := Trace.of_perform hdata
  obtain ⟨rfl, rfl⟩ := exec_hgetall_ok hexec
  unfold World.queriedStatus
  by_cases hempty : ((w₁.redis voucherId).pendingData orderId).hash.entries ≠ []
  · rw [if_pos hempty] at hrest ⊢
    by_cases hown : ¬ belongsToUser
        (((w₁.redis voucherId).pendingData orderId).hash.lookup .userId) userId
    · rw [if_pos hown] at hrest ⊢
      exact Except.ok.inj (Trace.of_pure hrest).2.2
    · rw [if_neg hown] at hrest ⊢
      exact Except.ok.inj (Trace.of_pure hrest).2.2
  · rw [if_neg hempty] at hrest ⊢
    rcases Trace.of_bind hrest with ⟨order, _, _, w₂, -, horder, hrest⟩ | ⟨e, he, -⟩
    swap
    · cases he
    obtain ⟨_, f, rfl, hexec, -⟩ := Trace.of_perform horder
    obtain ⟨rfl, rfl⟩ := exec_getById_ok hexec
    cases hrow : w₂.db.row orderId with
    | none =>
      rw [hrow] at hrest
      exact Except.ok.inj (Trace.of_pure hrest).2.2
    | some order =>
      simp only [hrow] at hrest ⊢
      by_cases hu : userId ≠ order.userId
      · rw [if_pos hu] at hrest ⊢
        exact Except.ok.inj (Trace.of_pure hrest).2.2
      · rw [if_neg hu] at hrest ⊢
        exact Except.ok.inj (Trace.of_pure hrest).2.2

theorem answers_iff :
    Answers w orderId userId voucherId dto ↔ dto = w.queriedStatus orderId userId voucherId := by
  refine ⟨Answers.eq_queriedStatus, ?_⟩
  rintro rfl
  have hdata : World.exec (.redis voucherId (.hgetall orderId)) .performed w =
      some (.ok ((w.redis voucherId).pendingData orderId).hash, w) := by
    simp [World.answer, World.setRedis, RedisCmd.run]
  refine Trace.perform_bind rfl hdata ?_
  unfold World.queriedStatus
  by_cases hempty : ((w.redis voucherId).pendingData orderId).hash.entries ≠ []
  · rw [if_pos hempty, if_pos hempty]
    by_cases hown : ¬ belongsToUser
        (((w.redis voucherId).pendingData orderId).hash.lookup .userId) userId
    · rw [if_pos hown, if_pos hown]
      exact ⟨[], w, .done⟩
    · rw [if_neg hown, if_neg hown]
      exact ⟨[], w, .done⟩
  · rw [if_neg hempty, if_neg hempty]
    have hrow : World.exec (.getById orderId) .performed w = some (.ok (w.db.row orderId), w) := rfl
    refine Trace.perform_bind rfl hrow ?_
    cases w.db.row orderId with
    | none => exact ⟨[], w, .done⟩
    | some order =>
      by_cases hu : userId ≠ order.userId
      · simp only [if_pos hu]
        exact ⟨[], w, .done⟩
      · simp only [if_neg hu]
        exact ⟨[], w, .done⟩

end Query

def batchSize : ℕ := 100

def maxRepublishCount : ℤ := 10

def numberFormatException (value : Option Value) : Exn :=
  ⟨.numberFormat, match value with
    | none => "For input string: \"null\""
    | some _ => "For input string"⟩

/-- `Long.valueOf(String.valueOf(value))`. -/
def requireLong (value : Option Value) : Handler Long :=
  match longValue value with
  | some n => pure n
  | none => throw (numberFormatException value)

def requireInt (value : Option Value) : Handler ℤ :=
  match value with
  | none => pure 0
  | some v => match parseInt v with
    | some n => pure n
    | none => throw (numberFormatException value)

section Parse
variable {K : Type} {L : Logic Cmd Cmd.Reply Exn K} {κ : K} (value : Option Value)

theorem requireLong_wp {Q : K → Except Exn Long → Prop}
    (hok : ∀ n, value = some (.number n) → Q κ (.ok n)) (herror : ∀ e, Q κ (.error e)) :
    L.wp (requireLong value) Q κ := by
  unfold requireLong
  split
  · next n h => exact hok n (longValue_eq_some h)
  · exact herror _

theorem requireInt_wp {Q : K → Except Exn ℤ → Prop}
    (hok : ∀ n, (∀ n', value = some (.number n') → n' = n) → Q κ (.ok n))
    (herror : ∀ e, Q κ (.error e)) : L.wp (requireInt value) Q κ := by
  unfold requireInt
  split
  · exact hok 0 fun n' h => by cases h
  · next v =>
    split
    · next n h =>
      obtain rfl := parseInt_eq_some h
      exact hok n fun n' h' => by cases h'; rfl
    · exact herror _

end Parse

/-- `republishOne`, on an order past `MAX_REPUBLISH_COUNT`. -/
def giveUp (voucherId orderId : Long) (data : PendingData) : Handler Unit := do
  let userId ← requireLong (data.lookup .userId)
  let restored ← restorePreDeduct orderId userId voucherId
  match restored with
  | none => throw ⟨.illegalState, "Redis恢复脚本未返回结果，orderId=" ++ toString orderId⟩
  | some restored =>
    markFailed voucherId orderId
      (some ("republish retry exhausted, redis restored=" ++ toString restored))

def republishOne (voucherId orderId : Long) : Handler Unit := do
  let order ← perform (Cmd.getById orderId)
  if order.isSome then
    removePending voucherId orderId
  else
    let data ← getData voucherId orderId
    if data.entries = [] then
      markFailed voucherId orderId (some "pending data missing")
    else
      let retryCount ← requireInt (data.lookup .retryCount)
      if retryCount ≥ maxRepublishCount then
        giveUp voucherId orderId data
      else
        let userId ← requireLong (data.lookup .userId)
        beforeRepublish voucherId orderId
        sendOrderMessage ⟨orderId, userId, voucherId⟩

/-- `PendingOrderRepublishTask.republishPendingOrders`. -/
def republishPendingOrders : Handler Unit := do
  let now ← currentTimeMillis
  let vouchers ← perform Cmd.listVouchers
  forEach vouchers fun voucherId => do
    let orderIds ← listDueOrderIds voucherId now batchSize
    forEach orderIds fun orderId =>
      tryCatch (republishOne voucherId orderId) fun e =>
        markSendFailed voucherId orderId (some ("republish exception: " ++ e.message))

end HmDianPing.Seckill
