import HmDianPing.Interleaving.Machine
import HmDianPing.Text.Decimal
import Mathlib.Data.List.Sort
import Mathlib.Data.List.Nodup
import Mathlib.Logic.Function.Basic
import Mathlib.Algebra.Ring.Int.Defs
import Mathlib.Data.Int.Order.Basic

/-! # The outbox of cache invalidations

The table `tb_cache_invalidate_outbox`, the statements of its mapper and the scan
that works it off. Any number of scans run at once; times are in nanoseconds.
-/
namespace HmDianPing.Cache
open Interleaving Program
open Text (longValueOf)

abbrev Long := ℤ

inductive OutboxStatus where
  | pending | processing | completed | dead
deriving DecidableEq, Repr

structure CacheInvalidationOutbox where
  id : Long
  cacheName : String
  cacheKey : String
  /-- 0 first invalidation, 1 delayed second invalidation. -/
  stage : Option ℤ
  status : OutboxStatus
  retryCount : Option ℤ
  /-- When the event is due; while it is processed, when the lease ends. A whole second. -/
  nextRetryTime : ℤ
  lastError : Option String
deriving DecidableEq

def stageInitial : ℤ := 0

def stageDelayed : ℤ := 1

/-- What a `DATETIME` column stores: the nearest second, half a second being rounded up. -/
def datetime (t : ℤ) : ℤ := (t + 500000000) / 1000000000 * 1000000000

def plusSeconds (t seconds : ℤ) : ℤ := t + seconds * 1000000000

/-- The product of two `long`s, of which 64 bits are kept. -/
def longMul (m n : Long) : Long := (m * n).bmod 18446744073709551616

/-- The `SET` clause of an update; none of them touches the id. -/
structure Assignment where
  apply : CacheInvalidationOutbox → CacheInvalidationOutbox
  id_apply : ∀ r, (apply r).id = r.id

/-- `tb_cache_invalidate_outbox`, with its primary key. -/
structure OutboxTable where
  rows : List CacheInvalidationOutbox
  unique : (rows.map CacheInvalidationOutbox.id).Nodup

namespace OutboxTable

def row (t : OutboxTable) (id : Long) : Option CacheInvalidationOutbox :=
  t.rows.find? fun r => r.id = id

/-- `UPDATE … SET … WHERE …`, with the number of rows that match. -/
def update (t : OutboxTable) (cond : CacheInvalidationOutbox → Bool) (set : Assignment) :
    ℕ × OutboxTable :=
  (t.rows.countP cond, ⟨t.rows.map fun r => if cond r then set.apply r else r, by
    have hid : CacheInvalidationOutbox.id ∘ (fun r => if cond r then set.apply r else r) =
        CacheInvalidationOutbox.id := by
      funext r
      by_cases hr : cond r <;> simp [hr, set.id_apply]
    rw [List.map_map, hid]
    exact t.unique⟩)

def insert (t : OutboxTable) (event : CacheInvalidationOutbox)
    (h : event.id ∉ t.rows.map CacheInvalidationOutbox.id) : OutboxTable :=
  ⟨event :: t.rows, List.nodup_cons.mpr ⟨h, t.unique⟩⟩

section
variable (t : OutboxTable) (id : Long)

theorem row_update (cond : CacheInvalidationOutbox → Bool) (set : Assignment) :
    (t.update cond set).2.row id =
      (t.row id).map fun r => if cond r then set.apply r else r := by
  have hid : ((fun r : CacheInvalidationOutbox => decide (r.id = id)) ∘
      fun r => if cond r then set.apply r else r) = fun r => decide (r.id = id) := by
    funext r
    by_cases hr : cond r <;> simp [hr, set.id_apply]
  simp only [row, update, List.find?_map, hid]

theorem row_id {t : OutboxTable} {id : Long} {r : CacheInvalidationOutbox}
    (h : t.row id = some r) : r.id = id := by
  simpa using List.find?_some h

theorem row_insert {event : CacheInvalidationOutbox}
    (h : event.id ∉ t.rows.map CacheInvalidationOutbox.id) :
    (t.insert event h).row id = if event.id = id then some event else t.row id := by
  by_cases he : event.id = id <;> simp [row, insert, he]

end

end OutboxTable

/-- The statements of `CacheInvalidationOutboxMapper` and the other calls of the scan. -/
inductive OutboxStatement where
  | localNow
  | recoverExpiredClaims (now : ℤ)
  | findDue (now : ℤ) (limit : ℕ)
  | claim (id : Long) (leaseDeadline : ℤ)
  | invalidateShop (eventId shopId : Long)
  | scheduleDelayedStage (id : Long) (nextRetryTime : ℤ)
  | markCompleted (id : Long)
  | markRetry (id : Long) (retryCount nextRetryTime : ℤ) (lastError : String)
  | markDead (id : Long) (retryCount : ℤ) (lastError : String)

abbrev OutboxStatement.Reply : OutboxStatement → Type
  | .localNow => ℤ
  | .findDue _ _ => List CacheInvalidationOutbox
  | .invalidateShop _ _ => Unit
  | _ => ℕ

/-- An exception, as what `toString` makes of it. -/
abbrev Failure := String

abbrev OutboxProgram := Program OutboxStatement OutboxStatement.Reply Failure

namespace OutboxTable

def atStatus (id : Long) (status : OutboxStatus) (r : CacheInvalidationOutbox) : Bool :=
  r.id = id ∧ r.status = status

def recoverExpiredClaims (t : OutboxTable) (now : ℤ) : ℕ × OutboxTable :=
  t.update (fun r => r.status = .processing ∧ r.nextRetryTime ≤ now)
    ⟨fun r => { r with status := .pending, lastError := some "processing lease expired" },
      fun _ => rfl⟩

def findDue (t : OutboxTable) (now : ℤ) (limit : ℕ) : List CacheInvalidationOutbox :=
  ((t.rows.filter fun r => r.status = .pending ∧ r.nextRetryTime ≤ now).insertionSort
    fun r r' => r.id ≤ r'.id).take limit

def claim (t : OutboxTable) (id : Long) (leaseDeadline : ℤ) : ℕ × OutboxTable :=
  t.update (atStatus id .pending)
    ⟨fun r => { r with status := .processing, nextRetryTime := datetime leaseDeadline,
                       lastError := none },
      fun _ => rfl⟩

def scheduleDelayedStage (t : OutboxTable) (id : Long) (nextRetryTime : ℤ) : ℕ × OutboxTable :=
  t.update (atStatus id .processing)
    ⟨fun r => { r with status := .pending, stage := some stageDelayed, retryCount := some 0,
                       nextRetryTime := datetime nextRetryTime, lastError := none }, fun _ => rfl⟩

def markCompleted (t : OutboxTable) (id : Long) : ℕ × OutboxTable :=
  t.update (atStatus id .processing)
    ⟨fun r => { r with status := .completed, lastError := none }, fun _ => rfl⟩

def markRetry (t : OutboxTable) (id : Long) (retryCount nextRetryTime : ℤ) (lastError : String) :
    ℕ × OutboxTable :=
  t.update (atStatus id .processing)
    ⟨fun r => { r with status := .pending, retryCount := some retryCount,
                       nextRetryTime := datetime nextRetryTime, lastError := some lastError },
      fun _ => rfl⟩

def markDead (t : OutboxTable) (id : Long) (retryCount : ℤ) (lastError : String) :
    ℕ × OutboxTable :=
  t.update (atStatus id .processing)
    ⟨fun r => { r with status := .dead, retryCount := some retryCount,
                       lastError := some lastError }, fun _ => rfl⟩

section
variable {t : OutboxTable} {id : Long} {r : CacheInvalidationOutbox}
  {cond : CacheInvalidationOutbox → Bool} {set : Assignment}

/-- An update that leaves no row processing leaves alone the rows that are processing after it. -/
theorem row_of_update (hset : ∀ r, (set.apply r).status ≠ .processing)
    (h : (t.update cond set).2.row id = some r) (hr : r.status = .processing) :
    t.row id = some r := by
  rw [row_update] at h
  obtain ⟨r', hr', rfl⟩ := Option.map_eq_some_iff.mp h
  by_cases hw : cond r'
  · simp only [hw, if_true] at hr
    exact absurd hr (hset r')
  · simpa [hw] using hr'

theorem cond_of_update (h : (t.update cond set).2.row id ≠ t.row id) :
    ∃ r, t.row id = some r ∧ cond r = true := by
  rw [row_update] at h
  cases hr : t.row id with
  | none => simp [hr] at h
  | some r =>
    by_cases hw : cond r
    · exact ⟨r, rfl, hw⟩
    · simp [hr, hw] at h

theorem countP_atStatus {l : List CacheInvalidationOutbox} {status : OutboxStatus}
    (hl : (l.map CacheInvalidationOutbox.id).Nodup) : l.countP (atStatus id status) = 1 ↔
      ∃ r, l.find? (fun r => r.id = id) = some r ∧ r.status = status := by
  induction l with
  | nil => simp
  | cons a l ih =>
    obtain ⟨ha, hl⟩ := List.nodup_cons.mp hl
    by_cases hid : a.id = id
    · have hrest : l.countP (atStatus id status) = 0 := by
        refine List.countP_eq_zero.mpr fun b hb hat => ha ?_
        have hbid : b.id = id := (of_decide_eq_true hat).1
        exact List.mem_map.mpr ⟨b, hb, hbid.trans hid.symm⟩
      by_cases hs : a.status = status <;> simp [atStatus, hid, hs, hrest]
    · simpa [List.countP_cons, atStatus, hid] using ih hl

theorem claim_eq_one {leaseDeadline : ℤ} : (t.claim id leaseDeadline).1 = 1 ↔
    ∃ r, t.row id = some r ∧ r.status = .pending :=
  countP_atStatus t.unique

end

end OutboxTable

/-- The properties of the task. -/
structure OutboxConfig where
  batchSize : ℕ
  leaseSeconds : ℤ
  maxRetries : ℤ
  maxBackoffSeconds : ℤ
  doubleDeleteDelayMs : ℤ

/-- The values of `application.yaml`. -/
def defaultConfig : OutboxConfig := ⟨50, 30, 8, 60, 1000⟩

def cacheInvalidationException (message : String) : Failure :=
  "com.hmdp.mq.CacheInvalidationException: " ++ message

def requireShopId (cacheKey : String) : OutboxProgram Long :=
  match longValueOf cacheKey with
  | some shopId => pure shopId
  | none => throw ("java.lang.NumberFormatException: For input string: " ++ cacheKey)

/-- `CacheInvalidationOutboxTask.abbreviate`. -/
def abbreviate (value : String) : String :=
  if value.length ≤ 512 then value else String.ofList (value.toList.take 512)

section Task
variable (config : OutboxConfig)

def handleFailure (event : CacheInvalidationOutbox) (failure : Failure) : OutboxProgram Unit := do
  let retryCount := match event.retryCount with
    | none => 1
    | some n => n + 1
  let error := abbreviate failure
  if retryCount ≥ config.maxRetries then
    let _ ← perform (OutboxStatement.markDead event.id retryCount error)
    return ()
  let backoffSeconds := min config.maxBackoffSeconds (2 ^ (min (retryCount - 1) 20).toNat)
  let now ← perform OutboxStatement.localNow
  let _ ← perform
    (OutboxStatement.markRetry event.id retryCount (plusSeconds now backoffSeconds) error)
  return ()

/-- The `try` of `processOne`. -/
def invalidateAndAdvance (event : CacheInvalidationOutbox) : OutboxProgram Unit := do
  if event.cacheName ≠ "shop" then
    throw (cacheInvalidationException ("不支持的缓存名称：" ++ event.cacheName))
  let shopId ← requireShopId event.cacheKey
  perform (OutboxStatement.invalidateShop event.id shopId)
  if event.stage = some stageInitial then
    let now ← perform OutboxStatement.localNow
    let _ ← perform
      (OutboxStatement.scheduleDelayedStage event.id
        (now + longMul config.doubleDeleteDelayMs 1000000))
    return ()
  let _ ← perform (OutboxStatement.markCompleted event.id)
  return ()

def processOne (event : CacheInvalidationOutbox) : OutboxProgram Unit := do
  let now ← perform OutboxStatement.localNow
  let claimed ← perform (OutboxStatement.claim event.id (plusSeconds now config.leaseSeconds))
  if claimed ≠ 1 then
    return ()
  tryCatch (invalidateAndAdvance config event) fun e => handleFailure config event e

def processDueEvents : OutboxProgram Unit := do
  let now ← perform OutboxStatement.localNow
  let _ ← perform (OutboxStatement.recoverExpiredClaims now)
  let events ← perform (OutboxStatement.findDue now config.batchSize)
  forEach events fun event => processOne config event

end Task

structure OutboxCall where
  worker : ℕ
  statement : OutboxStatement

abbrev OutboxCall.Reply (c : OutboxCall) : Type := c.statement.Reply

structure OutboxWorld where
  clock : ℤ
  outbox : OutboxTable
  nextWorker : ℕ
  /-- History: who claimed the event last. -/
  lastClaim : Long → Option ℕ

namespace OutboxWorld

/-- The claim of this worker is the current one. -/
def HoldsClaim (w : OutboxWorld) (worker : ℕ) (id : Long) : Prop :=
  (∃ r, w.outbox.row id = some r ∧ r.status = .processing) ∧ w.lastClaim id = some worker

def withOutbox (w : OutboxWorld) (p : ℕ × OutboxTable) : Except Failure ℕ × OutboxWorld :=
  (.ok p.1, { w with outbox := p.2 })

def answer (w : OutboxWorld) : (c : OutboxCall) → Except Failure c.Reply × OutboxWorld
  | ⟨_, .localNow⟩ => (.ok w.clock, w)
  | ⟨_, .recoverExpiredClaims now⟩ => w.withOutbox (w.outbox.recoverExpiredClaims now)
  | ⟨_, .findDue now limit⟩ => (.ok (w.outbox.findDue now limit), w)
  | ⟨worker, .claim id leaseDeadline⟩ =>
    let p := w.outbox.claim id leaseDeadline
    (.ok p.1, { w with
      outbox := p.2
      lastClaim := if p.1 = 1 then Function.update w.lastClaim id (some worker) else w.lastClaim })
  | ⟨_, .invalidateShop _ _⟩ => (.ok (), w)
  | ⟨_, .scheduleDelayedStage id nextRetryTime⟩ =>
    w.withOutbox (w.outbox.scheduleDelayedStage id nextRetryTime)
  | ⟨_, .markCompleted id⟩ => w.withOutbox (w.outbox.markCompleted id)
  | ⟨_, .markRetry id retryCount nextRetryTime lastError⟩ =>
    w.withOutbox (w.outbox.markRetry id retryCount nextRetryTime lastError)
  | ⟨_, .markDead id retryCount lastError⟩ =>
    w.withOutbox (w.outbox.markDead id retryCount lastError)

end OutboxWorld

/-- A call succeeds, fails, or is performed and loses its reply. -/
inductive OutboxChoice where
  | performed
  | fails (e : Failure)
  | failsAfter (e : Failure)

def OutboxWorld.exec (c : OutboxCall) :
    OutboxChoice → OutboxWorld → Option (Except Failure c.Reply × OutboxWorld)
  | .performed, w => some (w.answer c)
  | .fails e, w => some (.error e, w)
  | .failsAfter e, w => some (.error e, (w.answer c).2)

/-- What happens beside the scans: one starts, a shop update commits its event, time passes. -/
inductive OutboxAction where
  | scan
  | recordShopInvalidation (id shopId : Long)
  | tick (clock : ℤ)

def newEvent (id shopId : Long) (now : ℤ) : CacheInvalidationOutbox where
  id := id
  cacheName := "shop"
  cacheKey := toString shopId
  stage := some stageInitial
  status := .pending
  retryCount := some 0
  nextRetryTime := datetime now
  lastError := none

/-- Scans on any instances over one table; every scan is a worker of its own. -/
def outboxWorkers (config : OutboxConfig) :
    Machine OutboxWorld OutboxCall OutboxCall.Reply Failure ℕ OutboxChoice OutboxAction where
  exec := OutboxWorld.exec
  act
    | .scan, w => some ({ w with nextWorker := w.nextWorker + 1 },
        [⟨w.nextWorker, (processDueEvents config).lift (OutboxCall.mk w.nextWorker)⟩])
    | .recordShopInvalidation id shopId, w =>
      if h : id ∉ w.outbox.rows.map CacheInvalidationOutbox.id then
        some ({ w with outbox := w.outbox.insert (newEvent id shopId w.clock) h }, [])
      else none
    | .tick clock, w => some ({ w with clock := clock }, [])

end HmDianPing.Cache
