import HmDianPing.Interleaving.Trace
import HmDianPing.Seckill.World

/-! # `PendingOrderService`

The delivery state of an order in Redis. Each operation is its Redis commands in
the order of the source; nothing makes them atomic together.
-/
namespace HmDianPing.Seckill
open Interleaving Program

abbrev CallEvent := Event World Cmd Cmd.Reply Exn

abbrev currentTimeMillis : Handler ℤ := perform Cmd.currentTimeMillis

abbrev hget (voucherId orderId : Long) (field : Field) : Handler (Option Value) :=
  perform (Cmd.redis voucherId (.hget orderId field))

abbrev hset (voucherId orderId : Long) (field : Field) (value : Value) : Handler Unit :=
  perform (Cmd.redis voucherId (.hset orderId field value))

abbrev zaddPending (voucherId orderId : Long) (score : ℤ) : Handler Unit :=
  perform (Cmd.redis voucherId (.zaddPending orderId score))

abbrev zremPending (voucherId orderId : Long) : Handler Unit :=
  perform (Cmd.redis voucherId (.zremPending orderId))

def refreshDataTtl (voucherId orderId : Long) : Handler Unit :=
  perform (Cmd.redis voucherId (.expire orderId dataTtlMillis))

/-- `safe`: no text for none, and at most 500 characters. -/
def safe (reason : Option String) : String :=
  match reason with
  | none => ""
  | some text => if text.length > 500 then String.ofList (text.toList.take 500) else text

/-- `Integer.parseInt`. -/
def parseInt : Value → Option ℤ
  | .number n => if -2 ^ 31 ≤ n ∧ n < 2 ^ 31 then some n else none
  | _ => none

/-- `Long.valueOf`, of a stored value that may be missing. -/
def longValue : Option Value → Option Long
  | some (.number n) => if -2 ^ 63 ≤ n ∧ n < 2 ^ 63 then some n else none
  | _ => none

theorem longValue_eq_some {value : Option Value} {n : Long} (h : longValue value = some n) :
    value = some (.number n) := by
  unfold longValue at h
  split at h
  · simp only [Option.ite_none_right_eq_some, Option.some.injEq] at h
    rw [h.2]
  · cases h

theorem parseInt_eq_some {value : Value} {n : ℤ} (h : parseInt value = some n) :
    value = .number n := by
  unfold parseInt at h
  split at h
  · simp only [Option.ite_none_right_eq_some, Option.some.injEq] at h
    rw [h.2]
  · cases h

/-- `INITIAL_RETRY_DELAY_MILLIS * 2 ^ exponent`, capped by `MAX_RETRY_DELAY_MILLIS`. -/
def retryDelay (retryCount : ℤ) : ℤ :=
  min (10000 * 2 ^ (min (max retryCount 0) 5).toNat) 300000

def calculateRetryDelay (voucherId orderId : Long) : Handler ℤ := do
  let retryCountValue ← hget voucherId orderId .retryCount
  return retryDelay ((retryCountValue.bind parseInt).getD 0)

def readLong (voucherId orderId : Long) (field : Field) : Handler (Option Long) := do
  let value ← hget voucherId orderId field
  return longValue value

def markSendSuccess (voucherId orderId : Long) : Handler Unit := do
  let status ← hget voucherId orderId .status
  if status ∈ [some (.status .routeFailed), some (.status .brokerNack), some (.status .consuming),
      some (.status .orderCreated), some (.status .failed)] then
    return ()
  zremPending voucherId orderId
  hset voucherId orderId .status (.status .sent)
  let now ← currentTimeMillis
  hset voucherId orderId .sentTime (.number now)
  refreshDataTtl voucherId orderId

def markSendFailed (voucherId orderId : Long) (reason : Option String) : Handler Unit := do
  let now ← currentTimeMillis
  let retryDelay ← calculateRetryDelay voucherId orderId
  let nextRetryTime := now + retryDelay
  hset voucherId orderId .status (.status .brokerNack)
  hset voucherId orderId .lastError (.text (safe reason))
  hset voucherId orderId .retryDelayMillis (.number retryDelay)
  hset voucherId orderId .nextRetryTime (.number nextRetryTime)
  zaddPending voucherId orderId nextRetryTime
  refreshDataTtl voucherId orderId

def markRouteFailed (orderMessage : Message) (reason : Option String) : Handler Unit := do
  let voucherId := orderMessage.voucherId
  let orderId := orderMessage.orderId
  let now ← currentTimeMillis
  let retryDelay ← calculateRetryDelay voucherId orderId
  let nextRetryTime := now + retryDelay
  hset voucherId orderId .orderId (.number orderId)
  hset voucherId orderId .userId (.number orderMessage.userId)
  hset voucherId orderId .voucherId (.number voucherId)
  hset voucherId orderId .status (.status .routeFailed)
  hset voucherId orderId .lastError (.text (safe reason))
  hset voucherId orderId .retryDelayMillis (.number retryDelay)
  hset voucherId orderId .nextRetryTime (.number nextRetryTime)
  zaddPending voucherId orderId nextRetryTime
  refreshDataTtl voucherId orderId

def beforeRepublish (voucherId orderId : Long) : Handler Unit := do
  let retryCount ← perform (Cmd.redis voucherId (.hincrBy orderId .retryCount 1))
  hset voucherId orderId .status (.status .republishing)
  let now ← currentTimeMillis
  hset voucherId orderId .lastRetryTime (.number now)
  hset voucherId orderId .retryCount (.number retryCount)
  refreshDataTtl voucherId orderId

def markFailed (voucherId orderId : Long) (reason : Option String) : Handler Unit := do
  let now ← currentTimeMillis
  zremPending voucherId orderId
  perform (Cmd.redis voucherId (.zaddFailed orderId now))
  hset voucherId orderId .status (.status .failed)
  hset voucherId orderId .lastError (.text (safe reason))
  hset voucherId orderId .failedTime (.number now)
  refreshDataTtl voucherId orderId

def restorePreDeduct (orderId userId voucherId : Long) : Handler (Option ℤ) :=
  perform (Cmd.redis voucherId (.restore userId orderId))

def markConsuming (voucherId orderId : Long) (consumeStartedAt : ℤ) : Handler Unit := do
  let status ← hget voucherId orderId .status
  if status ∈ [some (.status .orderCreated), some (.status .failed)] then
    return ()
  hset voucherId orderId .status (.status .consuming)
  perform (Cmd.redis voucherId (.hsetnx orderId .consumeStartTime (.number consumeStartedAt)))
  refreshDataTtl voucherId orderId

/-- The write of one duration, when both of its ends are known. -/
def putDuration (voucherId orderId : Long) (field : Field) (upto : ℤ) (since : Option Long) :
    Handler Unit :=
  match since with
  | some since => hset voucherId orderId field (.number (max 0 (upto - since)))
  | none => pure ()

/-- `removePending` with the time of the database commit. -/
def removePendingAt (voucherId orderId : Long) (dbCommittedAt : ℤ) : Handler Unit := do
  let acceptedAt ← readLong voucherId orderId .createTime
  let consumeStartedAt ← readLong voucherId orderId .consumeStartTime
  zremPending voucherId orderId
  hset voucherId orderId .status (.status .orderCreated)
  hset voucherId orderId .dbCommittedTime (.number dbCommittedAt)
  putDuration voucherId orderId .endToEndMillis dbCommittedAt acceptedAt
  match consumeStartedAt with
  | some consumeStartedAt =>
    putDuration voucherId orderId .queueDelayMillis consumeStartedAt acceptedAt
  | none => pure ()
  putDuration voucherId orderId .dbProcessMillis dbCommittedAt consumeStartedAt
  refreshDataTtl voucherId orderId

def removePending (voucherId orderId : Long) : Handler Unit := do
  let now ← currentTimeMillis
  removePendingAt voucherId orderId now

def listDueOrderIds (voucherId : Long) (now : ℤ) (limit : ℕ) : Handler (List Long) :=
  perform (Cmd.redis voucherId (.rangeByScore 0 now limit))

def getData (voucherId orderId : Long) : Handler PendingData :=
  perform (Cmd.redis voucherId (.hgetall orderId))

section Calls
variable {P : Cmd → Prop} {voucherId orderId : Long}

/-- The fields of a data hash that name its order or decide about it. -/
def Field.deciding : Field → Prop
  | .userId | .status | .retryCount => True
  | _ => False

theorem putDuration_calls {field : Field} (hput : ∀ value, P (.redis voucherId (.hset orderId field value)))
    (upto : ℤ) (since : Option Long) : (putDuration voucherId orderId field upto since).Calls P := by
  cases since with
  | none => exact calls_pure ()
  | some since => exact (calls_perform _).mpr (hput _)

/-- What `removePendingAt` calls, for any set of calls that has them. -/
theorem removePendingAt_calls (hread : ∀ field, P (.redis voucherId (.hget orderId field)))
    (hremove : P (.redis voucherId (.zremPending orderId)))
    (hstatus : P (.redis voucherId (.hset orderId .status (.status .orderCreated))))
    (hput : ∀ field value, ¬ field.deciding → P (.redis voucherId (.hset orderId field value)))
    (hexpire : P (.redis voucherId (.expire orderId dataTtlMillis))) (committedAt : ℤ) :
    (removePendingAt voucherId orderId committedAt).Calls P := by
  have hreadLong : ∀ field, (readLong voucherId orderId field).Calls P := fun field => by
    simpa [readLong] using hread field
  have htail : ∀ since, (putDuration voucherId orderId .dbProcessMillis committedAt since >>= fun _ =>
      refreshDataTtl voucherId orderId).Calls P := fun since =>
    (putDuration_calls (fun value => hput _ value id) _ _).bind fun _ => (calls_perform _).mpr hexpire
  refine (hreadLong .createTime).bind fun acceptedAt =>
    (hreadLong .consumeStartTime).bind fun startedAt => ?_
  simp only [calls_perform_bind]
  refine ⟨hremove, fun _ => ⟨hstatus, fun _ => ⟨hput _ _ id, fun _ => ?_⟩⟩⟩
  refine (putDuration_calls (fun value => hput _ value id) _ _).bind fun _ => ?_
  cases startedAt with
  | none => exact htail none
  | some startedAt =>
    exact (putDuration_calls (fun value => hput _ value id) _ _).bind fun _ => htail (some startedAt)

end Calls

/-- The calls by which `PendingOrderService` records a status. -/
def Cmd.Bookkeeping : Cmd → Prop
  | .currentTimeMillis => True
  | .redis _ (.restore _ _) => False
  | .redis _ _ => True
  | _ => False

section Bookkeeping
variable (voucherId orderId : Long)

theorem markConsuming_plain (startedAt : ℤ) :
    (markConsuming voucherId orderId startedAt).Plain Cmd.Bookkeeping := by
  simp [markConsuming, refreshDataTtl, Cmd.Bookkeeping]

theorem markFailed_plain (reason : Option String) :
    (markFailed voucherId orderId reason).Plain Cmd.Bookkeeping := by
  simp [markFailed, refreshDataTtl, Cmd.Bookkeeping]

theorem putDuration_plain (field : Field) (upto : ℤ) (since : Option Long) :
    (putDuration voucherId orderId field upto since).Plain Cmd.Bookkeeping := by
  cases since <;> simp [putDuration, Cmd.Bookkeeping]

theorem readLong_plain (field : Field) :
    (readLong voucherId orderId field).Plain Cmd.Bookkeeping := by
  simp [readLong, Cmd.Bookkeeping]

theorem removePendingAt_plain (committedAt : ℤ) :
    (removePendingAt voucherId orderId committedAt).Plain Cmd.Bookkeeping := by
  refine (readLong_plain _ _ _).bind fun _ => (readLong_plain _ _ _).bind fun startedAt => ?_
  simp only [plain_perform_bind, Cmd.Bookkeeping, true_and]
  intro _ _ _
  refine (putDuration_plain _ _ _ _ _).bind fun _ => ?_
  cases startedAt with
  | none => simpa [refreshDataTtl, Cmd.Bookkeeping] using
      (putDuration_plain _ _ _ _ _).bind fun _ => by simp [Cmd.Bookkeeping]
  | some startedAt =>
    refine (putDuration_plain _ _ _ _ _).bind fun _ => (putDuration_plain _ _ _ _ _).bind fun _ => ?_
    simp [refreshDataTtl, Cmd.Bookkeeping]

theorem removePending_plain : (removePending voucherId orderId).Plain Cmd.Bookkeeping := by
  simp only [removePending, plain_perform_bind]
  exact ⟨trivial, fun now => removePendingAt_plain voucherId orderId now⟩

/-- Records of a status change neither the tables nor stock and reservations. -/
theorem bookkeeping_exec {c : Cmd} {f : Choice} {r : Except Exn c.Reply} {w w' : World}
    (hc : c.Bookkeeping) (h : World.exec c f w = some (r, w')) :
    w'.db = w.db ∧ ∀ v, (w.redis v).SameLedger (w'.redis v) := by
  rcases World.exec_cases h with rfl | ⟨r', ha⟩ | ⟨m, fate, rfl, -⟩ | ⟨m, fate, rfl, -⟩
  · exact ⟨rfl, fun v => .refl _⟩
  · cases c with
    | currentTimeMillis => cases ha; exact ⟨rfl, fun v => .refl _⟩
    | redis v c =>
      cases ha
      refine ⟨rfl, fun v' => ?_⟩
      by_cases hv : v' = v
      · subst hv
        simp only [World.setRedis, Function.update_self]
        exact RedisCmd.run_ledger (fun u o he => by subst he; exact hc) _ _
      · simpa [World.setRedis, Function.update_of_ne hv] using VoucherKeys.SameLedger.refl _
    | _ => exact hc.elim
  · exact hc.elim
  · exact hc.elim

end Bookkeeping

end HmDianPing.Seckill
