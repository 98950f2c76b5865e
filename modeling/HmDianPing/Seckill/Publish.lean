import HmDianPing.Seckill.Database

/-! # Publishing a seckill voucher

`addSeckillVoucher` inserts two rows in one transaction, and writes the stock and the
activity time to Redis before the transaction ends. A rollback takes the rows back and
nothing else.
-/
namespace HmDianPing.Seckill
open Interleaving Program

/-- `java.time.LocalDateTime`, as the milliseconds since the epoch that it is at UTC. -/
abbrev LocalDateTime := ℤ

structure Voucher where
  shopId : Option Long
  title : Option String
  subTitle : Option String
  rules : Option String
  payValue : Option Long
  actualValue : Option Long
  type : Option ℤ
  status : Option ℤ
  stock : Option ℤ
  beginTime : Option LocalDateTime
  endTime : Option LocalDateTime

structure VoucherRow where
  shopId : Option Long
  title : String
  subTitle : Option String
  rules : Option String
  payValue : Long
  actualValue : Long
  type : ℤ
  status : ℤ

structure SeckillVoucherRow where
  stock : ℤ
  beginTime : LocalDateTime
  endTime : LocalDateTime

structure VoucherTables where
  tbVoucher : Long → Option VoucherRow
  tbSeckillVoucher : Long → Option SeckillVoucherRow

inductive PublishCommand where
  | start
  | saveVoucher (voucher : Voucher)
  | saveSeckillVoucher (voucherId : Long) (stock : Option ℤ)
      (beginTime endTime : Option LocalDateTime)
  /-- `SET` of `stockKey`. -/
  | set (voucherId : Long) (stock : ℤ)
  /-- `HSET` of `activityTimeKey`. -/
  | putAll (voucherId : Long) (beginTimeMillis endTimeMillis : ℤ)
  | commit
  | rollback

/-- A command of the request; each comes once. -/
inductive PublishPoint where
  | start | saveVoucher | saveSeckillVoucher | set | putAll | commit | rollback
deriving DecidableEq

def PublishCommand.point : PublishCommand → PublishPoint
  | .start => .start
  | .saveVoucher _ => .saveVoucher
  | .saveSeckillVoucher _ _ _ _ => .saveSeckillVoucher
  | .set _ _ => .set
  | .putAll _ _ _ => .putAll
  | .commit => .commit
  | .rollback => .rollback

abbrev PublishCommand.Reply : PublishCommand → Type
  | .saveVoucher _ => Long
  | _ => Unit

abbrev PublishProgram (α : Type) := Program PublishCommand PublishCommand.Reply Exn α

/-- `atZone(ZoneId.systemDefault()).toInstant().toEpochMilli()`, which throws beyond a `long`. -/
def toEpochMilli (zone : LocalDateTime → ℤ) (time : LocalDateTime) : Option ℤ :=
  if -9223372036854775808 ≤ zone time ∧ zone time ≤ 9223372036854775807 then some (zone time)
  else none

def longOverflow : Exn := ⟨.other, "long overflow"⟩

def cacheActivityTime (zone : LocalDateTime → ℤ) (voucherId : Long)
    (beginTime endTime : Option LocalDateTime) : PublishProgram Unit :=
  match beginTime, endTime with
  | some beginTime, some endTime =>
    match toEpochMilli zone beginTime, toEpochMilli zone endTime with
    | some beginTimeMillis, some endTimeMillis =>
      perform (PublishCommand.putAll voucherId beginTimeMillis endTimeMillis)
    | _, _ => throw longOverflow
  | _, _ => throw ⟨.other, "秒杀活动必须设置开始和结束时间"⟩

/-- `addSeckillVoucher`, from where both rows are inserted. -/
def cacheVoucher (zone : LocalDateTime → ℤ) (voucher : Voucher) (voucherId : Long) :
    PublishProgram Unit :=
  match voucher.stock with
  | none => throw ⟨.other, "java.lang.NullPointerException"⟩
  | some stock => do
    perform (PublishCommand.set voucherId stock)
    cacheActivityTime zone voucherId voucher.beginTime voucher.endTime

/-- The id is what the controller answers with. -/
def addSeckillVoucher (zone : LocalDateTime → ℤ) (voucher : Voucher) : PublishProgram Long := do
  let voucherId ← perform (PublishCommand.saveVoucher voucher)
  perform (PublishCommand.saveSeckillVoucher voucherId voucher.stock voucher.beginTime
    voucher.endTime)
  cacheVoucher zone voucher voucherId
  return voucherId

/-- What `@Transactional` does around a method body. -/
def publish (body : PublishProgram Long) : PublishProgram Long := do
  perform PublishCommand.start
  let voucherId ← tryCatch body fun e => do
    perform PublishCommand.rollback
    throw e
  perform PublishCommand.commit
  return voucherId

structure VoucherStores where
  /-- What is committed. -/
  tables : VoucherTables
  /-- The tables as the open transaction sees them. -/
  pending : Option VoucherTables
  /-- `AUTO_INCREMENT` of `tb_voucher`, which no rollback takes back. -/
  nextId : Long
  redis : Long → VoucherKeys

/-- A row without a column that has no default is rejected in strict mode. -/
def Voucher.complete (voucher : Voucher) : Bool :=
  voucher.title.isSome && voucher.payValue.isSome && voucher.actualValue.isSome

def Voucher.row (voucher : Voucher) : VoucherRow where
  shopId := voucher.shopId
  title := voucher.title.getD ""
  subTitle := voucher.subTitle
  rules := voucher.rules
  payValue := voucher.payValue.getD 0
  actualValue := voucher.actualValue.getD 0
  type := voucher.type.getD 0
  status := voucher.status.getD 1

def noDefault : Exn := ⟨.other, "Field doesn't have a default value"⟩

namespace VoucherStores
variable (s : VoucherStores)

def current : VoucherTables := s.pending.getD s.tables

def setTables (t : VoucherTables) : VoucherStores :=
  match s.pending with
  | none => { s with tables := t }
  | some _ => { s with pending := some t }

def setStock (voucherId : Long) (stock : ℤ) : VoucherStores :=
  { s with
    redis := Function.update s.redis voucherId { s.redis voucherId with stock := some stock } }

def setActivityTime (voucherId : Long) (time : ActivityTime) : VoucherStores :=
  { s with
    redis := Function.update s.redis voucherId { s.redis voucherId with activityTime := time } }

/-- What MySQL does not take. -/
def rejects (strict : Bool) : PublishCommand → Option Exn
  | .saveVoucher voucher =>
    if (s.current.tbVoucher s.nextId).isSome then some ⟨.duplicateKey, "PRIMARY"⟩
    else if strict && !voucher.complete then some noDefault
    else none
  | .saveSeckillVoucher voucherId stock _ _ =>
    if (s.current.tbSeckillVoucher voucherId).isSome then some ⟨.duplicateKey, "PRIMARY"⟩
    else if strict && stock.isNone then some noDefault
    else none
  | _ => none

def apply (now : LocalDateTime) : PublishCommand → VoucherStores
  | .start => { s with pending := some s.tables }
  | .saveVoucher voucher =>
    { s.setTables { s.current with
        tbVoucher := Function.update s.current.tbVoucher s.nextId (some voucher.row) } with
      nextId := s.nextId + 1 }
  | .saveSeckillVoucher voucherId stock beginTime endTime =>
    s.setTables { s.current with
      tbSeckillVoucher := Function.update s.current.tbSeckillVoucher voucherId
        (some ⟨stock.getD 0, beginTime.getD now, endTime.getD now⟩) }
  | .set voucherId stock => s.setStock voucherId stock
  | .putAll voucherId beginTimeMillis endTimeMillis =>
    s.setActivityTime voucherId ⟨some beginTimeMillis, some endTimeMillis⟩
  | .commit => { s with tables := s.current, pending := none }
  | .rollback => { s with pending := none }

def reply : (c : PublishCommand) → c.Reply
  | .saveVoucher _ => s.nextId
  | .start => ()
  | .saveSeckillVoucher _ _ _ _ => ()
  | .set _ _ => ()
  | .putAll _ _ _ => ()
  | .commit => ()
  | .rollback => ()

/-- A command without effect; when the transaction does not end well, its connection is closed. -/
def fail : PublishCommand → VoucherStores
  | .commit | .rollback => { s with pending := none }
  | _ => s

end VoucherStores

/-- What becomes of a command. -/
inductive PublishFault where
  | none
  /-- It fails and has no effect. -/
  | fails (e : Exn)
  /-- It takes effect, and its reply is lost. -/
  | failsAfter (e : Exn)

def PublishFault.effective : PublishFault → Bool
  | .fails _ => false
  | _ => true

section Run
variable (strict : Bool) (now : LocalDateTime) (faults : PublishPoint → PublishFault)

def VoucherStores.answer (c : PublishCommand) (s : VoucherStores) :
    Except Exn c.Reply × VoucherStores :=
  match s.rejects strict c with
  | some e => (.error e, s)
  | none => match faults c.point with
    | .none => (.ok (s.reply c), s.apply now c)
    | .fails e => (.error e, s.fail c)
    | .failsAfter e => (.error e, s.apply now c)

def runPublish (zone : LocalDateTime → ℤ) (voucher : Voucher) (s : VoucherStores) :
    Except Exn Long × VoucherStores :=
  (publish (addSeckillVoucher zone voucher)).run (VoucherStores.answer strict now faults) s

end Run

/-- Neither the tables nor the two keys of any voucher differ. -/
def VoucherStores.Same (s s' : VoucherStores) : Prop :=
  s'.tables = s.tables ∧ ∀ voucherId, (s'.redis voucherId).stock = (s.redis voucherId).stock ∧
    (s'.redis voucherId).activityTime = (s.redis voucherId).activityTime

/-- The voucher has one stock in both stores, and both times. -/
def VoucherStores.Carries (s : VoucherStores) (voucherId : Long) : Prop :=
  (∃ row ∈ s.tables.tbSeckillVoucher voucherId, (s.redis voucherId).stock = some row.stock) ∧
    (s.redis voucherId).activityTime.beginTimeMillis ≠ none ∧
    (s.redis voucherId).activityTime.endTimeMillis ≠ none

/-- A request that completes has published the voucher, any other has left the stores alone. -/
def PublishAtomic (strict : Bool) (now : LocalDateTime) (faults : PublishPoint → PublishFault)
    (zone : LocalDateTime → ℤ) (voucher : Voucher) (s : VoucherStores) : Prop :=
  match runPublish strict now faults zone voucher s with
  | (.ok voucherId, s') => s'.Carries voucherId
  | (.error _, s') => s.Same s'

section Commands
variable {strict : Bool} {now : LocalDateTime} {faults : PublishPoint → PublishFault}
  {s : VoucherStores} {c : PublishCommand} {α : Type} {k : c.Reply → PublishProgram α}

theorem run_unstopped (hreject : s.rejects strict c = none) (hfault : faults c.point = .none) :
    (perform c >>= k).run (VoucherStores.answer strict now faults) s =
      (k (s.reply c)).run (VoucherStores.answer strict now faults) (s.apply now c) := by
  rw [run_bind, run_perform, VoucherStores.answer, hreject, hfault]

theorem run_stopped (h : ¬ (s.rejects strict c = none ∧ faults c.point = .none)) :
    ∃ e s', (perform c >>= k).run (VoucherStores.answer strict now faults) s = (.error e, s') ∧
      (s' = s ∨ s' = s.fail c ∨ s' = s.apply now c) := by
  rw [run_bind, run_perform, VoucherStores.answer]
  cases hreject : s.rejects strict c with
  | some e => exact ⟨e, s, rfl, .inl rfl⟩
  | none =>
    cases hfault : faults c.point with
    | none => exact absurd ⟨hreject, hfault⟩ h
    | fails e => exact ⟨e, _, rfl, .inr (.inl rfl)⟩
    | failsAfter e => exact ⟨e, _, rfl, .inr (.inr rfl)⟩

end Commands

/-- The activity time that is cached; none when a time is missing or has no instant. -/
def Voucher.activityTime (zone : LocalDateTime → ℤ) (voucher : Voucher) : Option ActivityTime := do
  let beginTime ← voucher.beginTime
  let endTime ← voucher.endTime
  let beginTimeMillis ← toEpochMilli zone beginTime
  let endTimeMillis ← toEpochMilli zone endTime
  return ⟨some beginTimeMillis, some endTimeMillis⟩

section Outcome
variable {strict : Bool} {now : LocalDateTime} {faults : PublishPoint → PublishFault}
  {zone : LocalDateTime → ℤ} {voucher : Voucher} {s : VoucherStores} {voucherId : Long}

structure Inserts (strict : Bool) (faults : PublishPoint → PublishFault) (voucher : Voucher)
    (s : VoucherStores) : Prop where
  start : faults .start = .none
  newVoucher : s.tables.tbVoucher s.nextId = none
  complete : strict = true → voucher.complete = true
  saveVoucher : faults .saveVoucher = .none
  newSeckillVoucher : s.tables.tbSeckillVoucher s.nextId = none
  stock : strict = true → voucher.stock ≠ none
  saveSeckillVoucher : faults .saveSeckillVoucher = .none

/-- How far the writes to Redis get. -/
inductive CacheOutcome (faults : PublishPoint → PublishFault) (zone : LocalDateTime → ℤ)
    (voucher : Voucher) (voucherId : Long) (s : VoucherStores) :
    Except Exn Unit × VoucherStores → Prop
  | nothing (e : Exn) (refused : voucher.stock ≠ none → (faults .set).effective = false) :
    CacheOutcome faults zone voucher voucherId s (.error e, s)
  | stock (e : Exn) {stock : ℤ} (given : voucher.stock = some stock)
      (set : (faults .set).effective = true)
      (stopped : faults .set = .none → voucher.activityTime zone ≠ none →
        (faults .putAll).effective = false) :
    CacheOutcome faults zone voucher voucherId s (.error e, s.setStock voucherId stock)
  | lost (e : Exn) {stock : ℤ} {time : ActivityTime} (given : voucher.stock = some stock)
      (times : voucher.activityTime zone = some time) (set : faults .set = .none)
      (putAll : faults .putAll = .failsAfter e) :
    CacheOutcome faults zone voucher voucherId s
      (.error e, (s.setStock voucherId stock).setActivityTime voucherId time)
  | both {stock : ℤ} {time : ActivityTime} (given : voucher.stock = some stock)
      (times : voucher.activityTime zone = some time) (set : faults .set = .none)
      (putAll : faults .putAll = .none) :
    CacheOutcome faults zone voucher voucherId s
      (.ok (), (s.setStock voucherId stock).setActivityTime voucherId time)

theorem cacheActivityTime_cases (zone : LocalDateTime → ℤ) (voucher : Voucher) (voucherId : Long) :
    (∃ beginTimeMillis endTimeMillis,
      voucher.activityTime zone = some ⟨some beginTimeMillis, some endTimeMillis⟩ ∧
      cacheActivityTime zone voucherId voucher.beginTime voucher.endTime =
        perform (PublishCommand.putAll voucherId beginTimeMillis endTimeMillis)) ∨
    (voucher.activityTime zone = none ∧
      ∃ e, cacheActivityTime zone voucherId voucher.beginTime voucher.endTime = throw e) := by
  unfold Voucher.activityTime cacheActivityTime
  cases voucher.beginTime with
  | none => exact .inr ⟨rfl, _, rfl⟩
  | some beginTime =>
    cases voucher.endTime with
    | none => exact .inr ⟨rfl, _, rfl⟩
    | some endTime =>
      cases hbegin : toEpochMilli zone beginTime with
      | none => exact .inr ⟨by simp [hbegin], longOverflow, by simp [hbegin]⟩
      | some beginTimeMillis =>
        cases hend : toEpochMilli zone endTime with
        | none => exact .inr ⟨by simp [hend], longOverflow, by simp [hend]⟩
        | some endTimeMillis =>
          refine .inl ⟨beginTimeMillis, endTimeMillis, ?_, ?_⟩
          · simp [hbegin, hend]
          · simp [hbegin, hend]

theorem cacheVoucher_outcome (strict : Bool) (now : LocalDateTime)
    (faults : PublishPoint → PublishFault) (zone : LocalDateTime → ℤ) (voucher : Voucher)
    (voucherId : Long) (s : VoucherStores) :
    CacheOutcome faults zone voucher voucherId s
      ((cacheVoucher zone voucher voucherId).run (VoucherStores.answer strict now faults) s) := by
  unfold cacheVoucher
  cases hstock : voucher.stock with
  | none => exact .nothing _ fun h => absurd hstock h
  | some stock =>
    simp only [run_bind, run_perform, VoucherStores.answer, VoucherStores.rejects,
      PublishCommand.point]
    cases hset : faults .set with
    | fails e => exact .nothing e fun _ => by rw [hset]; rfl
    | failsAfter e => exact .stock e hstock (by rw [hset]; rfl) fun h => by simp [hset] at h
    | none =>
      obtain ⟨b, e, htimes, hwrite⟩ | ⟨hnone, e, hthrow⟩ :=
        cacheActivityTime_cases zone voucher voucherId
      · simp only [hwrite, run_perform, VoucherStores.answer, VoucherStores.rejects,
          PublishCommand.point]
        cases hput : faults .putAll with
        | none => exact .both hstock htimes hset hput
        | fails e => exact .stock e hstock (by rw [hset]; rfl) fun _ _ => by rw [hput]; rfl
        | failsAfter e => exact .lost e hstock htimes hset hput
      · simp only [hthrow, run_throw]
        exact .stock e hstock (by rw [hset]; rfl) fun _ h => absurd hnone h

def VoucherStores.inserted (s : VoucherStores) (now : LocalDateTime) (voucher : Voucher) :
    VoucherStores where
  tables := s.tables
  pending := some {
    tbVoucher := Function.update s.tables.tbVoucher s.nextId (some voucher.row)
    tbSeckillVoucher := Function.update s.tables.tbSeckillVoucher s.nextId
      (some ⟨voucher.stock.getD 0, voucher.beginTime.getD now, voucher.endTime.getD now⟩) }
  nextId := s.nextId + 1
  redis := s.redis

theorem rollback_run (strict : Bool) (now : LocalDateTime) (faults : PublishPoint → PublishFault)
    (s : VoucherStores) (e : Exn) : ∃ e' s',
      (do perform PublishCommand.rollback; throw e : PublishProgram Long).run
        (VoucherStores.answer strict now faults) s = (.error e', s') ∧
      s'.tables = s.tables ∧ s'.redis = s.redis := by
  simp only [run_bind, run_perform, VoucherStores.answer, VoucherStores.rejects,
    PublishCommand.point]
  cases faults .rollback with
  | none => exact ⟨_, _, rfl, rfl, rfl⟩
  | fails e => exact ⟨_, _, rfl, rfl, rfl⟩
  | failsAfter e => exact ⟨_, _, rfl, rfl, rfl⟩

theorem rejects_saveVoucher : (s.apply now .start).rejects strict (.saveVoucher voucher) = none ↔
    s.tables.tbVoucher s.nextId = none ∧ (strict = true → voucher.complete = true) := by
  simp only [VoucherStores.rejects, VoucherStores.apply, VoucherStores.current]
  cases h : s.tables.tbVoucher s.nextId <;> cases strict <;> cases voucher.complete <;> simp [h]

theorem rejects_saveSeckillVoucher : ((s.apply now .start).apply now (.saveVoucher voucher)).rejects
      strict (.saveSeckillVoucher s.nextId voucher.stock voucher.beginTime voucher.endTime) = none ↔
    s.tables.tbSeckillVoucher s.nextId = none ∧ (strict = true → voucher.stock ≠ none) := by
  simp only [VoucherStores.rejects, VoucherStores.apply, VoucherStores.current,
    VoucherStores.setTables]
  cases h : s.tables.tbSeckillVoucher s.nextId <;> cases strict <;> cases voucher.stock <;>
    simp [h]

theorem addSeckillVoucher_run (h : Inserts strict faults voucher s) :
    (addSeckillVoucher zone voucher).run (VoucherStores.answer strict now faults)
        (s.apply now .start) =
      (cacheVoucher zone voucher s.nextId >>= fun _ => pure s.nextId).run
        (VoucherStores.answer strict now faults) (s.inserted now voucher) := by
  refine (run_unstopped (rejects_saveVoucher.mpr ⟨h.newVoucher, h.complete⟩)
    h.saveVoucher).trans ?_
  exact run_unstopped (rejects_saveSeckillVoucher.mpr ⟨h.newSeckillVoucher, h.stock⟩)
    h.saveSeckillVoucher

theorem addSeckillVoucher_stopped (hstart : faults .start = .none)
    (h : ¬ Inserts strict faults voucher s) :
    ∃ e s', (addSeckillVoucher zone voucher).run (VoucherStores.answer strict now faults)
        (s.apply now .start) = (.error e, s') ∧ s'.tables = s.tables ∧ s'.redis = s.redis := by
  by_cases hvoucher : (s.apply now .start).rejects strict (.saveVoucher voucher) = none ∧
      faults .saveVoucher = .none
  · by_cases hseckill : ((s.apply now .start).apply now (.saveVoucher voucher)).rejects strict
        (.saveSeckillVoucher s.nextId voucher.stock voucher.beginTime voucher.endTime) = none ∧
        faults .saveSeckillVoucher = .none
    · obtain ⟨hnew, hcomplete⟩ := rejects_saveVoucher.mp hvoucher.1
      obtain ⟨hnewSeckill, hstock⟩ := rejects_saveSeckillVoucher.mp hseckill.1
      exact absurd ⟨hstart, hnew, hcomplete, hvoucher.2, hnewSeckill, hstock, hseckill.2⟩ h
    · obtain ⟨e, s', hrun, hs'⟩ := run_stopped hseckill
      refine ⟨e, s', (run_unstopped hvoucher.1 hvoucher.2).trans hrun, ?_⟩
      rcases hs' with rfl | rfl | rfl <;> exact ⟨rfl, rfl⟩
  · obtain ⟨e, s', hrun, hs'⟩ := run_stopped hvoucher
    refine ⟨e, s', hrun, ?_⟩
    rcases hs' with rfl | rfl | rfl <;> exact ⟨rfl, rfl⟩

theorem publish_not_inserted (now : LocalDateTime) (zone : LocalDateTime → ℤ)
    (h : ¬ Inserts strict faults voucher s) :
    ∃ e s', runPublish strict now faults zone voucher s = (.error e, s') ∧ s.Same s' := by
  by_cases hstart : faults .start = .none
  · obtain ⟨e, s', hbody, htables, hredis⟩ := addSeckillVoucher_stopped hstart h
    obtain ⟨e', s'', hrollback, htables', hredis'⟩ := rollback_run strict now faults s' e
    refine ⟨e', s'', ?_, htables'.trans htables, fun id => ?_⟩
    · refine (run_unstopped rfl hstart).trans ?_
      rw [run_bind, run_tryCatch, hbody]
      simp only [hrollback]
    · rw [hredis', hredis]
      exact ⟨rfl, rfl⟩
  · have hstop : ¬ (s.rejects strict .start = none ∧ faults PublishCommand.start.point = .none) :=
      fun hboth => hstart hboth.2
    obtain ⟨e, s', hrun, hs'⟩ := run_stopped hstop
    refine ⟨e, s', hrun, ?_⟩
    rcases hs' with rfl | rfl | rfl <;> exact ⟨rfl, fun _ => ⟨rfl, rfl⟩⟩

theorem publish_of_error {e : Exn} {s' : VoucherStores} (h : Inserts strict faults voucher s)
    (hcache : (cacheVoucher zone voucher s.nextId).run (VoucherStores.answer strict now faults)
      (s.inserted now voucher) = (.error e, s')) :
    ∃ e' s'', runPublish strict now faults zone voucher s = (.error e', s'') ∧
      s''.tables = s'.tables ∧ s''.redis = s'.redis := by
  obtain ⟨e', s'', hrollback, htables, hredis⟩ := rollback_run strict now faults s' e
  refine ⟨e', s'', ?_, htables, hredis⟩
  refine (run_unstopped rfl h.start).trans ?_
  rw [run_bind, run_tryCatch, addSeckillVoucher_run h, run_bind, hcache]
  simp only [hrollback]

theorem publish_of_ok {s' : VoucherStores} (h : Inserts strict faults voucher s)
    (hcache : (cacheVoucher zone voucher s.nextId).run (VoucherStores.answer strict now faults)
      (s.inserted now voucher) = (.ok (), s')) :
    runPublish strict now faults zone voucher s = match faults .commit with
      | .none => (.ok s.nextId, s'.apply now .commit)
      | .fails e => (.error e, s'.fail .commit)
      | .failsAfter e => (.error e, s'.apply now .commit) := by
  have hbody : runPublish strict now faults zone voucher s =
      (perform PublishCommand.commit >>= fun _ => pure s.nextId).run
        (VoucherStores.answer strict now faults) s' := by
    refine (run_unstopped rfl h.start).trans ?_
    rw [run_bind, run_tryCatch, addSeckillVoucher_run h, run_bind, hcache]
    rfl
  rw [hbody, run_bind, run_perform, VoucherStores.answer]
  simp only [VoucherStores.rejects, PublishCommand.point]
  cases faults .commit <;> rfl

def VoucherStores.cached (s : VoucherStores) (now : LocalDateTime) (voucher : Voucher)
    (stock : ℤ) (time : ActivityTime) : VoucherStores :=
  ((s.inserted now voucher).setStock s.nextId stock).setActivityTime s.nextId time

theorem redis_cached (s : VoucherStores) (now : LocalDateTime) (voucher : Voucher) (stock : ℤ)
    (time : ActivityTime) :
    (s.cached now voucher stock time).redis = Function.update s.redis s.nextId
      { s.redis s.nextId with stock := some stock, activityTime := time } := by
  simp [VoucherStores.cached, VoucherStores.inserted, VoucherStores.setStock,
    VoucherStores.setActivityTime]

theorem redis_cached_self (s : VoucherStores) (now : LocalDateTime) (voucher : Voucher) (stock : ℤ)
    (time : ActivityTime) :
    (s.cached now voucher stock time).redis s.nextId =
      { s.redis s.nextId with stock := some stock, activityTime := time } := by
  rw [redis_cached, Function.update_self]

theorem same_iff {s' : VoucherStores} {keys : VoucherKeys} (htables : s'.tables = s.tables)
    (hredis : s'.redis = Function.update s.redis voucherId keys) :
    s.Same s' ↔ (s.redis voucherId).stock = keys.stock ∧
      (s.redis voucherId).activityTime = keys.activityTime := by
  constructor
  · rintro ⟨-, hkeys⟩
    simpa [hredis, eq_comm] using hkeys voucherId
  · intro hkeys
    refine ⟨htables, fun id => ?_⟩
    by_cases hid : id = voucherId
    · subst hid
      simpa [hredis, eq_comm] using hkeys
    · simp [hredis, hid]

end Outcome

section Atomic
variable (strict : Bool) (now : LocalDateTime) (faults : PublishPoint → PublishFault)
  (zone : LocalDateTime → ℤ) (voucher : Voucher) (s : VoucherStores)

/-- Nothing goes wrong after the stock is in Redis. -/
def Completes : Prop :=
  faults .set = .none ∧ voucher.activityTime zone ≠ none ∧ faults .putAll = .none ∧
    faults .commit = .none

/-- Redis has had what is written, and the transaction is not committed. -/
def Rewrites (stock : ℤ) : Prop :=
  (s.redis s.nextId).stock = some stock ∧
    (faults .set = .none → ∀ time, voucher.activityTime zone = some time →
      (faults .putAll).effective = true → (s.redis s.nextId).activityTime = time ∧
        (faults .putAll = .none → (faults .commit).effective = false))

variable {strict now faults zone voucher s}

theorem publishAtomic_of_both {stock : ℤ} {time : ActivityTime}
    (h : Inserts strict faults voucher s) (hstock : voucher.stock = some stock)
    (htime : voucher.activityTime zone = some time)
    (hcache : (cacheVoucher zone voucher s.nextId).run (VoucherStores.answer strict now faults)
      (s.inserted now voucher) = (.ok (), s.cached now voucher stock time)) :
    PublishAtomic strict now faults zone voucher s ↔ faults .commit = .none ∨
      (s.redis s.nextId).stock = some stock ∧ (s.redis s.nextId).activityTime = time ∧
        (faults .commit).effective = false := by
  have hrun := publish_of_ok h hcache
  have hsame : ∀ s' : VoucherStores, s'.tables = s.tables →
      s'.redis = (s.cached now voucher stock time).redis →
      (s.Same s' ↔ (s.redis s.nextId).stock = some stock ∧
        (s.redis s.nextId).activityTime = time) := fun s' htables hredis =>
    same_iff htables (hredis.trans (redis_cached s now voucher stock time))
  unfold PublishAtomic
  rw [hrun]
  cases hcommit : faults .commit with
  | none =>
    have hkeys := redis_cached_self s now voucher stock time
    obtain ⟨b, e, htimes, -⟩ | ⟨hnone, -⟩ := cacheActivityTime_cases zone voucher s.nextId
    · obtain rfl := Option.some.inj (htime.symm.trans htimes)
      refine iff_of_true ⟨⟨_, Function.update_self .., ?_⟩, ?_⟩ (.inl rfl)
      · refine (congrArg VoucherKeys.stock hkeys).trans ?_
        simp [hstock]
      · refine ⟨?_, ?_⟩
        · exact fun h => by cases (congrArg (·.activityTime.beginTimeMillis) hkeys).symm.trans h
        · exact fun h => by cases (congrArg (·.activityTime.endTimeMillis) hkeys).symm.trans h
    · rw [hnone] at htime
      cases htime
  | fails e =>
    refine (hsame ((s.cached now voucher stock time).fail .commit) rfl rfl).trans ?_
    simp [PublishFault.effective]
  | failsAfter e =>
    refine iff_of_false (fun hkept => ?_) (by simp [PublishFault.effective])
    -- the row of the voucher is there, and it was not
    have hrow := congrArg (fun t => t.tbVoucher s.nextId) hkept.1
    rw [h.newVoucher] at hrow
    have hsome : (Function.update s.tables.tbVoucher s.nextId (some voucher.row)) s.nextId = none :=
      hrow
    simp at hsome

/-- `addSeckillVoucher` is atomic on error exactly when it stops before the stock is in Redis, or
completes, or has nothing to change in Redis and is not committed. -/
theorem addSeckillVoucher_atomic_iff (strict : Bool) (now : LocalDateTime)
    (faults : PublishPoint → PublishFault) (zone : LocalDateTime → ℤ) (voucher : Voucher)
    (s : VoucherStores) :
    PublishAtomic strict now faults zone voucher s ↔
      (Inserts strict faults voucher s → (faults .set).effective = true →
        ∀ stock, voucher.stock = some stock →
          Completes faults zone voucher ∨ Rewrites faults zone voucher s stock) := by
  by_cases h : Inserts strict faults voucher s
  swap
  · obtain ⟨e, s', hrun, hsame⟩ := publish_not_inserted now zone h
    simp [PublishAtomic, hrun, hsame, h]
  have houtcome := cacheVoucher_outcome strict now faults zone voucher s.nextId
    (s.inserted now voucher)
  generalize hcache : (cacheVoucher zone voucher s.nextId).run
    (VoucherStores.answer strict now faults) (s.inserted now voucher) = r at houtcome
  cases houtcome with
  | nothing e refused =>
    obtain ⟨e', s', hrun, htables, hredis⟩ := publish_of_error h hcache
    have hsame : s.Same s' := ⟨htables, fun id => by rw [hredis]; exact ⟨rfl, rfl⟩⟩
    simp only [PublishAtomic, hrun, hsame, true_iff]
    intro _ heffective stock hstock
    simp [refused (by simp [hstock])] at heffective
  | @stock e stock given set stopped =>
    obtain ⟨e', s', hrun, htables, hredis⟩ := publish_of_error h hcache
    have hredis : s'.redis = Function.update s.redis s.nextId
      { s.redis s.nextId with stock := some stock } := hredis
    have htables : s'.tables = s.tables := htables
    simp only [PublishAtomic, hrun, same_iff htables hredis, and_true]
    have hdone : ¬ Completes faults zone voucher := fun hc => by
      have hput := stopped hc.1 hc.2.1
      rw [hc.2.2.1] at hput
      cases hput
    constructor
    · intro hstock _ _ stock' hstock'
      obtain rfl := Option.some.inj (given.symm.trans hstock')
      refine .inr ⟨hstock, fun hset time htime hput => ?_⟩
      rw [stopped hset (by simp [htime])] at hput
      cases hput
    · intro hall
      exact ((hall h set stock given).resolve_left hdone).1
  | @lost e stock time given times set putAll =>
    obtain ⟨e', s', hrun, htables, hredis⟩ := publish_of_error h hcache
    have hredis : s'.redis = Function.update s.redis s.nextId
      { s.redis s.nextId with stock := some stock, activityTime := time } :=
        hredis.trans (redis_cached s now voucher stock time)
    have htables : s'.tables = s.tables := htables
    simp only [PublishAtomic, hrun, same_iff htables hredis]
    simp [h, given, times, set, putAll, Completes, Rewrites, PublishFault.effective]
  | @both stock time given times set putAll =>
    rw [publishAtomic_of_both h given times hcache]
    simp [h, given, times, set, putAll, Completes, Rewrites, PublishFault.effective]

end Atomic

def withoutBegin : Voucher where
  shopId := some 1
  title := some "100元代金券"
  subTitle := none
  rules := none
  payValue := some 8000
  actualValue := some 10000
  type := some 1
  status := some 1
  stock := some 100
  beginTime := none
  endTime := some 1785484800000

def noVouchers : VoucherStores where
  tables := ⟨fun _ => none, fun _ => none⟩
  pending := none
  nextId := 12
  redis _ := ⟨none, ∅, ∅, ∅, ∅, fun _ => .absent, ⟨none, none⟩⟩

/-- The rows are rolled back when the times are checked, and the stock stays in Redis. -/
theorem publishAtomic_fails : ¬ ∀ (strict : Bool) (now : LocalDateTime)
    (faults : PublishPoint → PublishFault) (zone : LocalDateTime → ℤ) (voucher : Voucher)
    (s : VoucherStores), PublishAtomic strict now faults zone voucher s := by
  intro h
  have hsame : noVouchers.Same (runPublish true 0 (fun _ => .none) id withoutBegin noVouchers).2 :=
    h true 0 (fun _ => .none) id withoutBegin noVouchers
  have hstock : ((runPublish true 0 (fun _ => .none) id withoutBegin noVouchers).2.redis 12).stock =
      some 100 := by
    decide +kernel
  rw [(hsame.2 12).1] at hstock
  cases hstock

end HmDianPing.Seckill
