import HmDianPing.Seckill.Agreement
import HmDianPing.Seckill.Ownership
import HmDianPing.Seckill.Publish
import HmDianPing.Seckill.Release

/-! # From publishing to selling

The protocol opens on what requests to publish have left in MySQL and Redis. A
published voucher is sold in its number and in its time. One that is not published
is not sold, also where a failed request has left a stock in Redis.
-/
namespace HmDianPing.Seckill
open Interleaving Program

structure PublishRequest where
  voucher : Voucher
  now : LocalDateTime
  faults : PublishPoint → PublishFault

/-- Requests one after the other: the answer to each, and what they leave. -/
def publishAll (strict : Bool) (zone : LocalDateTime → ℤ) : List PublishRequest → VoucherStores →
    List (PublishRequest × Except Exn Long) × VoucherStores
  | [], s => ([], s)
  | request :: requests, s =>
    let p := runPublish strict request.now request.faults zone request.voucher s
    let q := publishAll strict zone requests p.2
    ((request, p.1) :: q.1, q.2)

/-- Nobody has ordered the voucher, and nobody had before reservations existed. -/
structure VoucherKeys.Unsold (k : VoucherKeys) : Prop where
  reservation : k.reservation = ∅
  legacyOrder : k.legacyOrder = ∅
  pending : k.pending = ∅
  data : ∀ o, k.pendingData o = .absent

inductive PublishStage where
  | idle | opened | saved

/-- A request writes the id that its first insert is given, inside a transaction. -/
def publishing (id : Long) : Logic PublishCommand PublishCommand.Reply Exn PublishStage where
  pre
    | .idle, c => c = .start
    | .opened, .saveVoucher _ => True
    | .saved, .saveSeckillVoucher voucherId _ _ _ => voucherId = id
    | .saved, .set voucherId _ => voucherId = id
    | .saved, .putAll voucherId _ _ => voucherId = id
    | _, .commit => True
    | _, .rollback => True
    | _, _ => False
  meets
    | _, .saveVoucher _, .ok voucherId => voucherId = id
    | _, _, _ => True
  learn
    | _, .start, .ok _ => .opened
    | _, .saveVoucher _, _ => .saved
    | κ, _, _ => κ

/-- What a request that has begun in `s` may have changed. -/
structure VoucherStores.Publishes (s : VoucherStores) (stage : PublishStage)
    (s' : VoucherStores) : Prop where
  drawn : stage ≠ .saved → s'.nextId = s.nextId
  nextId : s.nextId ≤ s'.nextId
  unsold : ∀ v, (s.redis v).Unsold → (s'.redis v).Unsold
  redis : ∀ v, v ≠ s.nextId → s'.redis v = s.redis v
  tables : ∀ v, v ≠ s.nextId → s'.tables.tbSeckillVoucher v = s.tables.tbSeckillVoucher v
  current : stage ≠ .idle → ∀ v, v ≠ s.nextId →
    s'.current.tbSeckillVoucher v = s.tables.tbSeckillVoucher v

section Request
variable {strict : Bool} {now : LocalDateTime} {faults : PublishPoint → PublishFault}
  {zone : LocalDateTime → ℤ} {voucher : Voucher} {s s' : VoucherStores} {id : Long}
  {stage : PublishStage}

theorem cacheVoucher_writes {Q : PublishStage → Except Exn Unit → Prop} (hQ : ∀ r, Q .saved r) :
    (publishing id).wp (cacheVoucher zone voucher id) Q .saved := by
  refine Logic.wp_of_neutralAt ?_ hQ
  unfold cacheVoucher
  cases voucher.stock with
  | none => trivial
  | some stock =>
    refine (calls_perform_bind _ _).mpr ⟨⟨rfl, fun r _ => rfl⟩, fun _ => ?_⟩
    obtain ⟨b, e, -, hwrite⟩ | ⟨-, e, hthrow⟩ := cacheActivityTime_cases zone voucher id
    · rw [hwrite]
      exact (calls_perform _).mpr ⟨rfl, fun r _ => rfl⟩
    · rw [hthrow]
      trivial

theorem addSeckillVoucher_writes {Q : PublishStage → Except Exn Long → Prop}
    (hQ : ∀ r, Q .saved r) :
    (publishing id).wp (addSeckillVoucher zone voucher) Q .opened := by
  refine (Logic.wp_perform_bind _ _).mpr ⟨trivial, fun voucherId hid => ?_, fun _ _ => hQ _⟩
  obtain rfl : voucherId = id := hid
  refine (Logic.wp_perform_bind _ _).mpr ⟨rfl, fun _ _ => ?_, fun _ _ => hQ _⟩
  rw [Logic.wp_bind]
  refine cacheVoucher_writes fun r => ?_
  cases r with
  | ok a => exact hQ _
  | error e => exact hQ _

theorem publish_writes : (publishing id).wp (publish (addSeckillVoucher zone voucher))
    (fun _ _ => True) .idle := by
  refine (Logic.wp_perform_bind _ _).mpr ⟨rfl, fun _ _ => ?_, fun _ _ => trivial⟩
  rw [Logic.wp_bind, Logic.wp_tryCatch]
  refine addSeckillVoucher_writes fun r => ?_
  cases r with
  | ok voucherId =>
    exact (Logic.wp_perform_bind _ _).mpr ⟨trivial, fun _ _ => trivial, fun _ _ => trivial⟩
  | error e =>
    exact (Logic.wp_perform_bind _ _).mpr ⟨trivial, fun _ _ => trivial, fun _ _ => trivial⟩

theorem VoucherKeys.Unsold.published {k : VoucherKeys} (h : k.Unsold) (stock : Option ℤ)
    (time : ActivityTime) : { k with stock := stock, activityTime := time }.Unsold :=
  ⟨h.reservation, h.legacyOrder, h.pending, h.data⟩

theorem VoucherStores.setTables_cases (s : VoucherStores) (t : VoucherTables) :
    (s.setTables t).nextId = s.nextId ∧ (s.setTables t).redis = s.redis ∧
      (s.setTables t).current = t ∧
      ((s.setTables t).tables = t ∨ (s.setTables t).tables = s.tables) := by
  unfold setTables current
  cases s.pending with
  | none => exact ⟨rfl, rfl, rfl, .inl rfl⟩
  | some _ => exact ⟨rfl, rfl, rfl, .inr rfl⟩

theorem VoucherStores.Publishes.setTables (h : s.Publishes stage s') (hstage : stage ≠ .idle)
    {t : VoucherTables}
    (ht : ∀ v, v ≠ s.nextId → t.tbSeckillVoucher v = s'.current.tbSeckillVoucher v) :
    s.Publishes stage (s'.setTables t) := by
  obtain ⟨hnextId, hredis, hcurrent, htables⟩ := s'.setTables_cases t
  have hrow : ∀ v, v ≠ s.nextId → t.tbSeckillVoucher v = s.tables.tbSeckillVoucher v :=
    fun v hv => (ht v hv).trans (h.current hstage v hv)
  refine ⟨fun hs => hnextId.trans (h.drawn hs), hnextId ▸ h.nextId, hredis ▸ h.unsold,
    hredis ▸ h.redis, fun v hv => ?_, fun _ v hv => ?_⟩
  · obtain htables | htables := htables
    · rw [htables]; exact hrow v hv
    · rw [htables]; exact h.tables v hv
  · rw [hcurrent]
    exact hrow v hv

theorem VoucherStores.Publishes.setKeys (h : s.Publishes stage s') {k : VoucherKeys}
    (hk : (s'.redis s.nextId).Unsold → k.Unsold) :
    s.Publishes stage { s' with redis := Function.update s'.redis s.nextId k } := by
  refine ⟨h.drawn, h.nextId, fun v hv => ?_, fun v hv => ?_, h.tables, h.current⟩
  · by_cases hid : v = s.nextId
    · subst hid
      simpa using hk (h.unsold _ hv)
    · simpa [hid] using h.unsold v hv
  · simpa [hv] using h.redis v hv

theorem VoucherStores.Publishes.apply (h : s.Publishes stage s') {c : PublishCommand}
    (hpre : (publishing s.nextId).pre stage c) (r : Except Exn c.Reply) :
    s.Publishes ((publishing s.nextId).learn stage c r) (s'.apply now c) := by
  cases stage with
  | idle =>
    obtain rfl : c = .start := hpre
    have hdrawn := h.drawn (by simp)
    cases r with
    | ok a => exact ⟨fun _ => hdrawn, h.nextId, h.unsold, h.redis, h.tables, fun _ => h.tables⟩
    | error e =>
      exact ⟨fun _ => hdrawn, h.nextId, h.unsold, h.redis, h.tables, fun _ => h.tables⟩
  | opened =>
    have hcurrent := h.current (by simp)
    cases c with
    | saveVoucher voucher =>
      obtain ⟨hdrawn, -, hunsold, hredis, htables, hcurrent⟩ := h.setTables (by simp)
        (t := { s'.current with
          tbVoucher := Function.update s'.current.tbVoucher s'.nextId (some voucher.row) })
        fun _ _ => rfl
      exact ⟨fun hs => absurd rfl hs, Int.le_add_one h.nextId, hunsold, hredis, htables,
        fun _ => hcurrent (by simp)⟩
    | commit => exact ⟨h.drawn, h.nextId, h.unsold, h.redis, hcurrent, fun _ => hcurrent⟩
    | rollback => exact ⟨h.drawn, h.nextId, h.unsold, h.redis, h.tables, fun _ => h.tables⟩
    | _ => exact hpre.elim
  | saved =>
    have hcurrent := h.current (by simp)
    cases c with
    | saveSeckillVoucher voucherId stock beginTime endTime =>
      obtain rfl : voucherId = s.nextId := hpre
      exact h.setTables (by simp) fun v hv => Function.update_of_ne hv _ _
    | set voucherId stock =>
      obtain rfl : voucherId = s.nextId := hpre
      exact h.setKeys fun hk => hk.published (some stock) _
    | putAll voucherId beginTimeMillis endTimeMillis =>
      obtain rfl : voucherId = s.nextId := hpre
      exact h.setKeys fun hk => hk.published _ ⟨some beginTimeMillis, some endTimeMillis⟩
    | commit => exact ⟨h.drawn, h.nextId, h.unsold, h.redis, hcurrent, fun _ => hcurrent⟩
    | rollback => exact ⟨h.drawn, h.nextId, h.unsold, h.redis, h.tables, fun _ => h.tables⟩
    | _ => exact hpre.elim

theorem VoucherStores.Publishes.late (h : s.Publishes .opened s') : s.Publishes .saved s' :=
  ⟨fun hs => absurd rfl hs, h.nextId, h.unsold, h.redis, h.tables, fun _ => h.current (by simp)⟩

theorem VoucherStores.Publishes.fail (h : s.Publishes stage s') {c : PublishCommand}
    (hpre : (publishing s.nextId).pre stage c) (e : Exn) :
    s.Publishes ((publishing s.nextId).learn stage c (.error e)) (s'.fail c) ∧
      s.Publishes ((publishing s.nextId).learn stage c (.error e)) s' := by
  have hclosed : stage ≠ .idle → s.Publishes stage { s' with pending := none } := fun _ =>
    ⟨h.drawn, h.nextId, h.unsold, h.redis, h.tables, fun _ => h.tables⟩
  cases stage with
  | idle =>
    obtain rfl : c = .start := hpre
    exact ⟨h, h⟩
  | opened =>
    cases c with
    | saveVoucher voucher => exact ⟨h.late, h.late⟩
    | commit | rollback => exact ⟨hclosed (by simp), h⟩
    | _ => exact hpre.elim
  | saved =>
    cases c with
    | saveSeckillVoucher | set | putAll => exact ⟨h, h⟩
    | commit | rollback => exact ⟨hclosed (by simp), h⟩
    | _ => exact hpre.elim

theorem meets_error {c : PublishCommand} (e : Exn) : (publishing id).meets stage c (.error e) := by
  cases c <;> trivial

theorem VoucherStores.Publishes.meets_reply (h : s.Publishes stage s') {c : PublishCommand}
    (hpre : (publishing s.nextId).pre stage c) :
    (publishing s.nextId).meets stage c (.ok (s'.reply c)) := by
  cases c with
  | saveVoucher voucher =>
    cases stage with
    | opened => exact h.drawn (by simp)
    | idle | saved => cases hpre
  | _ => trivial

theorem VoucherStores.Publishes.answer (h : s.Publishes stage s') {c : PublishCommand}
    (hpre : (publishing s.nextId).pre stage c) :
    (publishing s.nextId).meets stage c (s'.answer strict now faults c).1 ∧
      s.Publishes ((publishing s.nextId).learn stage c (s'.answer strict now faults c).1)
        (s'.answer strict now faults c).2 := by
  unfold VoucherStores.answer
  cases s'.rejects strict c with
  | some e => exact ⟨meets_error e, (h.fail hpre e).2⟩
  | none =>
    cases faults c.point with
    | none => exact ⟨h.meets_reply hpre, h.apply hpre _⟩
    | fails e => exact ⟨meets_error e, (h.fail hpre e).1⟩
    | failsAfter e => exact ⟨meets_error e, h.apply hpre _⟩

theorem runPublish_publishes (strict : Bool) (now : LocalDateTime)
    (faults : PublishPoint → PublishFault) (zone : LocalDateTime → ℤ) (voucher : Voucher)
    (s : VoucherStores) :
    ∃ stage, s.Publishes stage (runPublish strict now faults zone voucher s).2 := by
  have hstart : s.Publishes .idle s :=
    ⟨fun _ => rfl, le_refl _, fun _ => id, fun _ _ => rfl, fun _ _ => rfl, fun h => absurd rfl h⟩
  obtain ⟨stage, h, -⟩ := Logic.run_of_wp (fun _ _ _ hpre h => h.answer hpre) publish_writes hstart
  exact ⟨stage, h⟩

/-- A request that is answered with an id has published the voucher under it. -/
theorem runPublish_ok (h : runPublish strict now faults zone voucher s = (.ok id, s')) :
    id = s.nextId ∧ ∃ stock time, voucher.stock = some stock ∧
      voucher.activityTime zone = some time ∧
      s' = (s.cached now voucher stock time).apply now .commit := by
  by_cases hinserts : Inserts strict faults voucher s
  swap
  · obtain ⟨e, s'', hrun, -⟩ := publish_not_inserted now zone hinserts
    cases hrun.symm.trans h
  have houtcome := cacheVoucher_outcome strict now faults zone voucher s.nextId
    (s.inserted now voucher)
  generalize hcache : (cacheVoucher zone voucher s.nextId).run
    (VoucherStores.answer strict now faults) (s.inserted now voucher) = r at houtcome
  cases houtcome with
  | nothing | stock | lost =>
    obtain ⟨e', s'', hrun, -⟩ := publish_of_error hinserts hcache
    cases hrun.symm.trans h
  | @both stock time given times =>
    have hrun := (publish_of_ok hinserts hcache).symm.trans h
    cases hcommit : faults .commit with
    | none =>
      rw [hcommit] at hrun
      cases hrun
      exact ⟨rfl, stock, time, given, times, rfl⟩
    | fails e | failsAfter e =>
      rw [hcommit] at hrun
      cases hrun

/-- The voucher is in both stores with this stock, and in Redis with this time. -/
structure VoucherStores.Holds (s : VoucherStores) (id : Long) (stock : ℤ) (time : ActivityTime) :
    Prop where
  row : (s.tables.tbSeckillVoucher id).map (·.stock) = some stock
  stock : (s.redis id).stock = some stock
  time : (s.redis id).activityTime = time

theorem holds_cached (s : VoucherStores) (now : LocalDateTime) {voucher : Voucher} {stock : ℤ}
    (hstock : voucher.stock = some stock) (time : ActivityTime) :
    ((s.cached now voucher stock time).apply now .commit).Holds s.nextId stock time := by
  have hkeys := redis_cached_self s now voucher stock time
  refine ⟨?_, congrArg VoucherKeys.stock hkeys, congrArg VoucherKeys.activityTime hkeys⟩
  simp [VoucherStores.apply, VoucherStores.current, VoucherStores.cached, VoucherStores.inserted,
    VoucherStores.setStock, VoucherStores.setActivityTime, hstock]

end Request

section Requests
variable {strict : Bool} {zone : LocalDateTime → ℤ} {requests : List PublishRequest}
  {request : PublishRequest} {s : VoucherStores} {id : Long}

/-- An id that has been given is given to nobody else, and its voucher stays. -/
theorem publishAll_keeps (requests : List PublishRequest) (s : VoucherStores) :
    (∀ v, (s.redis v).Unsold → ((publishAll strict zone requests s).2.redis v).Unsold) ∧
    ∀ id stock time, id < s.nextId → s.Holds id stock time →
      (publishAll strict zone requests s).2.Holds id stock time := by
  induction requests generalizing s with
  | nil => exact ⟨fun _ hv => hv, fun _ _ _ _ hs => hs⟩
  | cons request requests ih =>
    obtain ⟨stage, h⟩ := runPublish_publishes strict request.now request.faults zone
      request.voucher s
    obtain ⟨hunsold, hholds⟩ := ih (runPublish strict request.now request.faults zone
      request.voucher s).2
    refine ⟨fun v hv => hunsold v (h.unsold v hv), fun id stock time hid hs => ?_⟩
    have hne : id ≠ s.nextId := ne_of_lt hid
    refine hholds id stock time (lt_of_lt_of_le hid h.nextId) ⟨?_, ?_, ?_⟩
    · rw [h.tables id hne]; exact hs.row
    · rw [h.redis id hne]; exact hs.stock
    · rw [h.redis id hne]; exact hs.time

/-- What a request was answered with is there when all have been served. -/
theorem publishAll_holds (h : (request, .ok id) ∈ (publishAll strict zone requests s).1) :
    ∃ stock time, request.voucher.stock = some stock ∧
      request.voucher.activityTime zone = some time ∧
      (publishAll strict zone requests s).2.Holds id stock time := by
  induction requests generalizing s with
  | nil => cases h
  | cons first requests ih =>
    rcases List.mem_cons.mp h with hfirst | hlater
    · obtain ⟨rfl, hanswer⟩ := Prod.mk.inj hfirst
      have hrun : runPublish strict request.now request.faults zone request.voucher s =
          (.ok id, (runPublish strict request.now request.faults zone request.voucher s).2) :=
        Prod.ext hanswer.symm rfl
      obtain ⟨rfl, stock, time, hstock, htime, hs⟩ := runPublish_ok hrun
      refine ⟨stock, time, hstock, htime, (publishAll_keeps requests _).2 _ stock time ?_ ?_⟩
      · rw [hs]
        exact Int.lt_succ s.nextId
      · rw [hs]
        exact holds_cached s request.now hstock time
    · exact ih hlater

end Requests

/-- The protocol opens on these stores, and nobody has ordered. -/
structure VoucherStores.OpenedBy (s : VoucherStores) (w : World) : Prop where
  start : w = .start s.redis w.db
  rows : w.db.orders.rows = []
  stock : ∀ v, w.db.stock.lookup v = (s.tables.tbSeckillVoucher v).map (·.stock)

theorem VoucherStores.OpenedBy.opening {s : VoucherStores} {w : World} (h : s.OpenedBy w)
    (hs : ∀ v, (s.redis v).Unsold) : w.Opening := by
  have hredis : w.redis = s.redis := congrArg World.redis h.start
  refine ⟨hredis ▸ h.start, h.rows, fun v => ?_, fun v => ?_, fun v o => ?_⟩
  · rw [hredis]; exact (hs v).reservation
  · rw [hredis]; exact (hs v).pending
  · rw [hredis]; exact (hs v).data o

/-- What lasts of the keys of a voucher while it is sold. -/
structure VoucherKeys.Keeps (k k' : VoucherKeys) : Prop where
  total : k'.total = k.total
  legacyOrder : k'.legacyOrder ⊆ k.legacyOrder
  inStock : 0 ≤ k.stockValue → 0 ≤ k'.stockValue
  time : k'.activityTime = k.activityTime

section Keeps
variable {k k' k'' : VoucherKeys} {w w' : World} {cmd : Cmd}

theorem VoucherKeys.Keeps.refl (k : VoucherKeys) : k.Keeps k :=
  ⟨rfl, Finset.Subset.refl _, id, rfl⟩

theorem VoucherKeys.Keeps.trans (h : k.Keeps k') (h' : k'.Keeps k'') : k.Keeps k'' :=
  ⟨h'.total.trans h.total, h'.legacyOrder.trans h.legacyOrder, fun hk => h'.inStock (h.inStock hk),
    h'.time.trans h.time⟩

theorem keeps_seckill {userId voucherId orderId nowMillis : Long} {time : ℤ × ℤ}
    {reply : SeckillReply} (h : seckillLua userId voucherId orderId nowMillis time k = (reply, k')) :
    k.Keeps k' := by
  obtain ⟨-, rfl⟩ | ⟨stock, -, hfree, -, hstock, hpos, rfl⟩ := seckillLua_cases h
  · exact .refl _
  · refine ⟨total_reserve hfree hstock _ _ _ _, Finset.Subset.refl _, fun _ => ?_, rfl⟩
    simp only [VoucherKeys.stockValue, VoucherKeys.reserve, Option.getD_some]
    omega

theorem keeps_restore {userId orderId : Long} {n : ℤ}
    (h : seckillRestoreLua userId orderId k = some (n, k')) : k.Keeps k' := by
  have htotal := total_restore h
  obtain ⟨-, -, rfl⟩ | ⟨-, -, -, rfl⟩ | ⟨-, -, -, rfl⟩ := seckillRestoreLua_cases h
  · refine ⟨htotal, Finset.Subset.refl _, fun hk => ?_, rfl⟩
    simp only [VoucherKeys.stockValue, VoucherKeys.zremPending, Option.getD_some] at hk ⊢
    omega
  · refine ⟨htotal, Finset.erase_subset _ _, fun hk => ?_, rfl⟩
    simp only [VoucherKeys.stockValue, VoucherKeys.zremPending, Option.getD_some] at hk ⊢
    omega
  · exact ⟨htotal, Finset.Subset.refl _, id, rfl⟩

theorem activityTime_run {c : RedisCmd} (hc : ∀ u o, c ≠ .restore u o) (now : ℤ) :
    (c.run now k).2.activityTime = k.activityTime := by
  cases c with
  | hsetnx o field value =>
    simp only [RedisCmd.run]
    split <;> rfl
  | hincrBy o field delta =>
    simp only [RedisCmd.run]
    split <;> rfl
  | restore u o => exact absurd rfl (hc u o)
  | _ => rfl

theorem keeps_run (c : RedisCmd) (now : ℤ) (k : VoucherKeys) : k.Keeps (c.run now k).2 := by
  by_cases hc : ∃ u o, c = .restore u o
  · obtain ⟨u, o, rfl⟩ := hc
    simp only [RedisCmd.run]
    split
    · next hrun => exact keeps_restore hrun
    · exact .refl k
  · push Not at hc
    obtain ⟨hstock, hres, hleg⟩ := RedisCmd.run_ledger hc now k
    refine ⟨?_, legacyOrder_run, fun hk => ?_, activityTime_run hc now⟩
    · simp only [VoucherKeys.total, VoucherKeys.stockValue, VoucherKeys.reserved, hstock, hres, hleg]
    · simpa only [VoucherKeys.stockValue, hstock] using hk

theorem keeps_setRedis {v : Long} {k : VoucherKeys} (hk : (w.redis v).Keeps k) (v' : Long) :
    (w.redis v').Keeps ((w.setRedis v k).redis v') := by
  by_cases hv : v' = v
  · subst hv
    simpa [World.setRedis] using hk
  · simpa [World.setRedis, hv] using VoucherKeys.Keeps.refl (w.redis v')

theorem Effect.keeps (he : Effect w cmd w') (v : Long) : (w.redis v).Keeps (w'.redis v) := by
  cases he with
  | @offer u v' o now fresh => exact keeps_setRedis (keeps_seckill rfl) v
  | redis v' c => exact keeps_setRedis (keeps_run c _ _) v
  | publish m fate => cases fate <;> exact .refl _
  | forward m fate => unfold World.forward; split <;> exact .refl _
  | reject tag requeue | nack tag requeue => rw [(sameStores_reject w tag requeue).redis]; exact .refl _
  | _ => exact .refl _

theorem act_keeps {a : ProtocolAction} {started : List ProtocolThread}
    (ha : World.act a w = some (w', started)) (v : Long) : (w.redis v).Keeps (w'.redis v) := by
  obtain ⟨hs, -, -⟩ | ⟨v', o, -, -, rfl, -⟩ := act_stores ha
  · rw [hs.redis]
    exact .refl _
  · have hkeys : (w.redis v').Keeps ((w.redis v').updateData o fun _ => .absent) :=
      ⟨rfl, Finset.Subset.refl _, id, rfl⟩
    exact keeps_setRedis hkeys v

end Keeps

/-- Of the stores a run has opened on, the tables and the keys account for every sale. -/
structure Selling (w₀ : World) (c : ProtocolConfig) : Prop where
  sales : SalesTraced w₀.db c
  keys : ∀ v, (w₀.redis v).Keeps (c.shared.redis v)

/-- The voucher is sold in this number and in this time. -/
structure SoldAsPublished (c : ProtocolConfig) (id : Long) (stock : ℤ) (time : ActivityTime) :
    Prop where
  rows : c.shared.db.stockOf id + c.shared.db.ordersOf id = stock
  reservations : (c.shared.redis id).stockValue + (c.shared.redis id).reserved = stock
  inStock : 0 ≤ stock → 0 ≤ c.shared.db.stockOf id ∧ 0 ≤ (c.shared.redis id).stockValue
  inTime : ∀ mv c', seckillProtocol.step c mv = some c' → ∀ m ∈ c'.shared.accepted,
    m ∉ c.shared.accepted → m.voucherId = id → ∃ b ∈ time.beginTimeMillis,
      ∃ e ∈ time.endTimeMillis, b ≤ c.shared.redisNow ∧ c.shared.redisNow ≤ e

section Sales
variable {w₀ w w' : World} {cmd : Cmd} {c c' : ProtocolConfig} {mv : Move Choice ProtocolAction}
  {m : Message} {id : Long} {stock : ℤ} {time : ActivityTime} {s : VoucherStores}

theorem Selling.step (h : Selling w₀ c) (hf : seckillProtocol.Fires c mv c') : Selling w₀ c' := by
  refine ⟨h.sales.step hf, fun v => (h.keys v).trans ?_⟩
  cases hf with
  | run hi hexec =>
    obtain ⟨-, hexec⟩ := Option.ite_none_right_eq_some.mp hexec
    exact (effect_of_exec hexec).keeps v
  | crash hb => exact .refl _
  | act ha => exact act_keeps ha v

/-- An order is accepted only by the script, and only while it admits the user. -/
theorem Effect.admits (he : Effect w cmd w') (hm : m ∈ w'.accepted) (hnew : m ∉ w.accepted) :
    (w.redis m.voucherId).Admits m.userId w.redisNow := by
  cases he with
  | @offer u v o now fresh =>
    simp only [World.offer] at hm
    split at hm
    · next hreply =>
      obtain rfl | hm := List.mem_cons.mp hm
      · exact seckillLua_accepted_iff.mp hreply
      · exact absurd hm hnew
    · exact absurd hm hnew
  | publish m' fate => cases fate <;> exact absurd hm hnew
  | forward m' fate =>
    unfold World.forward at hm
    split at hm <;> exact absurd hm hnew
  | reject tag requeue | nack tag requeue =>
    rw [(sameStores_reject w tag requeue).accepted] at hm
    exact absurd hm hnew
  | _ => exact absurd hm hnew

theorem admits_of_fires (hf : seckillProtocol.Fires c mv c') (hm : m ∈ c'.shared.accepted)
    (hnew : m ∉ c.shared.accepted) :
    (c.shared.redis m.voucherId).Admits m.userId c.shared.redisNow := by
  cases hf with
  | run hi hexec =>
    obtain ⟨-, hexec⟩ := Option.ite_none_right_eq_some.mp hexec
    exact (effect_of_exec hexec).admits hm hnew
  | crash hb => exact absurd hm hnew
  | act ha => exact absurd (act_accepted ha ▸ hm) hnew

theorem Selling.soldAsPublished (h : Selling w c) (hs : s.OpenedBy w)
    (hunsold : (s.redis id).Unsold) (hholds : s.Holds id stock time) :
    SoldAsPublished c id stock time := by
  have hredis : w.redis id = s.redis id := congrFun (congrArg World.redis hs.start) id
  have hkeys := h.keys id
  rw [hredis] at hkeys
  have hstock : w.db.stockOf id = stock := by
    rw [Database.stockOf, hs.stock, hholds.row]
    rfl
  have hvalue : (s.redis id).stockValue = stock := by
    rw [VoucherKeys.stockValue, hholds.stock]
    rfl
  refine ⟨(h.sales.balance id).trans hstock, ?_, fun h₀ => ⟨?_, ?_⟩, ?_⟩
  · have hlegacy : (c.shared.redis id).legacyOrder = ∅ :=
      Finset.subset_empty.mp (hunsold.legacyOrder ▸ hkeys.legacyOrder)
    have htotal := hkeys.total
    simp only [VoucherKeys.total, VoucherKeys.reserved, hlegacy, hunsold.legacyOrder,
      hunsold.reservation, hvalue] at htotal ⊢
    simpa using htotal
  · exact h.sales.inStock id (hstock.symm ▸ h₀)
  · exact hkeys.inStock (hvalue.symm ▸ h₀)
  · rintro mv c' hstep m hm hnew rfl
    obtain ⟨-, -, ⟨b, hb, e, he, hwithin⟩, -⟩ :=
      admits_of_fires (Machine.fires_of_step hstep) hm hnew
    rw [hkeys.time, hholds.time] at hb he
    exact ⟨b, hb, e, he, hwithin⟩

end Sales

/-- However the requests to publish have gone, and however the orders go afterwards: each voucher
whose id was answered is sold in the number and the time it was published with, and a voucher
without a committed row has no order. -/
theorem published_sales {strict : Bool} {zone : LocalDateTime → ℤ}
    {requests : List PublishRequest} {s₀ : VoucherStores} {w : World} {c : ProtocolConfig}
    (hs₀ : ∀ v, (s₀.redis v).Unsold) (hw : (publishAll strict zone requests s₀).2.OpenedBy w)
    (hrun : ProtocolRun (fun _ _ => True) ⟨w, []⟩ c) :
    (∀ request id, (request, .ok id) ∈ (publishAll strict zone requests s₀).1 →
      ∃ stock time, request.voucher.stock = some stock ∧
        request.voucher.activityTime zone = some time ∧ SoldAsPublished c id stock time) ∧
    ∀ id, (publishAll strict zone requests s₀).2.tables.tbSeckillVoucher id = none →
      c.shared.db.ordersOf id = 0 := by
  have hunsold : ∀ v, ((publishAll strict zone requests s₀).2.redis v).Unsold := fun v =>
    (publishAll_keeps requests s₀).1 v (hs₀ v)
  have hopening := hw.opening hunsold
  have hselling : Selling w c := hrun.invariant ⟨.opening hopening, fun v => .refl _⟩
    fun _ _ _ hd _ hf => hd.step hf
  constructor
  · intro request id hanswer
    obtain ⟨stock, time, hstock, htime, hholds⟩ := publishAll_holds hanswer
    exact ⟨stock, time, hstock, htime, hselling.soldAsPublished hw (hunsold id) hholds⟩
  · intro id hrow
    have hstock : w.db.stockOf id = 0 := by
      rw [Database.stockOf, hw.stock, hrow]
      rfl
    have hbalance := hselling.sales.balance id
    have hleft := hselling.sales.inStock id (le_of_eq hstock.symm)
    omega

/-- The first request lacks a time and leaves its stock, the second is answered with the id 13. -/
def publishedTwice : List (PublishRequest × Except Exn Long) × VoucherStores :=
  publishAll true id
    [⟨withoutBegin, 0, fun _ => .none⟩,
      ⟨{ withoutBegin with stock := some 2, beginTime := some 0, endTime := some 10000 }, 0,
        fun _ => .none⟩] noVouchers

def publishedWorld : World :=
  .start publishedTwice.2.redis { twoLeft with stock := (∅ : Hash Long ℤ).insert 13 2 }

theorem publishedTwice_opened : publishedTwice.2.OpenedBy publishedWorld := by
  refine ⟨rfl, rfl, fun v => ?_⟩
  by_cases hv : v = 13
  · subst hv
    rfl
  · have hrow : publishedTwice.2.tables.tbSeckillVoucher v = none := Function.update_of_ne hv _ _
    rw [hrow]
    exact AList.lookup_insert_ne hv

def soldOnce : Option ProtocolConfig :=
  seckillProtocol.play (fun _ _ => true) ⟨publishedWorld, []⟩
    ([.act (.request 7 13), .run 0 (.drawn 100)] ++ performs 0 3 ++
      [.act (.deliver .order 0)] ++ performs 1 17)

theorem published_sales_soldOnce : ∃ c, soldOnce = some c ∧ c.shared.db.ordersOf 13 = 1 ∧
    SoldAsPublished c 13 2 ⟨some 0, some 10000⟩ ∧ c.shared.db.ordersOf 12 = 0 := by
  have hplay : soldOnce.map (fun c => decide (c.shared.db.ordersOf 13 = 1)) = some true := by
    decide
  obtain ⟨c, hc, hstate⟩ := Option.map_eq_some_iff.mp hplay
  have hrun : ProtocolRun (fun _ _ => True) ⟨publishedWorld, []⟩ c :=
    Machine.run_of_play (fun _ _ _ => trivial) hc
  obtain ⟨hsold, hunsold⟩ := published_sales (fun _ => ⟨rfl, rfl, rfl, fun _ => rfl⟩)
    publishedTwice_opened hrun
  obtain ⟨stock, time, hstock, htime, hpublished⟩ :=
    hsold _ 13 (List.mem_cons_of_mem _ List.mem_cons_self)
  obtain rfl : 2 = stock := Option.some.inj hstock
  obtain rfl : ⟨some 0, some 10000⟩ = time := Option.some.inj htime
  exact ⟨c, hc, of_decide_eq_true hstate, hpublished, hunsold 12 rfl⟩

end HmDianPing.Seckill
