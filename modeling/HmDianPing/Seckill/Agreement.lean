import HmDianPing.Seckill.Drain

/-! # The two modes of a seckill request

Where the script refuses a request, both modes leave everything as it was. Where
it accepts one, they never agree: a created order is counted only after the
transactional proxy has committed it, a taken key is compensated only in the
synchronous mode, and a row without stock is rolled back only in the other one.
-/
namespace HmDianPing.Seckill
open Interleaving Program

/-- The script accepts the user: nothing held yet, within the time of the activity, and in stock. -/
def VoucherKeys.Admits (k : VoucherKeys) (userId : Long) (nowMillis : ℤ) : Prop :=
  userId ∉ k.reservation ∧ userId ∉ k.legacyOrder ∧
    (∃ beginTimeMillis ∈ k.activityTime.beginTimeMillis,
      ∃ endTimeMillis ∈ k.activityTime.endTimeMillis,
        beginTimeMillis ≤ nowMillis ∧ nowMillis ≤ endTimeMillis) ∧
    ∃ stock ∈ k.stock, 0 < stock

/-- Nothing is under way, the order id is new, and the stock in Redis is a 64-bit integer. -/
structure Backend.Ready (s : Backend) (orderId voucherId : Long) : Prop where
  idle : s.Idle
  fresh : orderId ∉ s.world.issued
  stock : ∀ stock ∈ (s.world.redis voucherId).stock, stock < 2 ^ 63

/-- The same orders, stocks, reservations and daily counts, and the same answer about the order. -/
structure Agree (s s' : Backend) (orderId userId voucherId : Long) : Prop where
  rows : ∀ row, row ∈ s.world.db.orders.rows ↔ row ∈ s'.world.db.orders.rows
  stock : ∀ v, s.world.db.stockOf v = s'.world.db.stockOf v
  redisStock : ∀ v, (s.world.redis v).stock = (s'.world.redis v).stock
  reservation : ∀ v u, (s.world.redis v).reservation.lookup u = (s'.world.redis v).reservation.lookup u
  dailyOrderCount : ∀ date, (s.dailyOrderCount date).value = (s'.dailyOrderCount date).value
  status : (s.world.queriedStatus orderId userId voucherId).status =
    (s'.world.queriedStatus orderId userId voucherId).status

theorem seckillLua_accepted_iff {userId voucherId orderId nowMillis : Long} {time : ℤ × ℤ}
    {k : VoucherKeys} : (seckillLua userId voucherId orderId nowMillis time k).1 = .accepted ↔
      k.Admits userId (redisNowMillis time) := by
  unfold seckillLua VoucherKeys.Admits
  rw [← AList.lookup_eq_none]
  cases hres : k.reservation.lookup userId with
  | some existingOrderId => simp
  | none =>
    by_cases hlegacy : userId ∈ k.legacyOrder
    · simp [hlegacy]
    cases hbegin : k.activityTime.beginTimeMillis with
    | none => simp [hlegacy]
    | some beginTimeMillis =>
      cases hend : k.activityTime.endTimeMillis with
      | none => simp [hlegacy]
      | some endTimeMillis =>
        by_cases hearly : redisNowMillis time < beginTimeMillis
        · simp [hlegacy, hearly]
        by_cases hlate : redisNowMillis time > endTimeMillis
        · simp [hlegacy, hearly, hlate]
        cases hstock : k.stock with
        | none => simp [hlegacy, hearly, hlate]
        | some stock =>
          by_cases hsold : stock ≤ 0
          · simp [hlegacy, hearly, hlate, hsold]
          · simp [hlegacy, hearly, hlate, hsold]
            omega

section Script
variable {date : ℤ → ℤ} {orderId userId voucherId : Long} {s s' : Backend} {enabled : Bool}

theorem drains_script (hready : s.Ready orderId voucherId)
    (h : Drains date enabled s orderId userId voucherId s') : ∃ c', c'.shared = s' ∧ Drained c' ∧
      ((s.world.offer userId voucherId orderId s.world.clock).1 = .accepted ∧
        DrainRun date orderId ⟨{ s with
          world := (s.world.offer userId voucherId orderId s.world.clock).2 },
          [⟨.request userId voucherId, do
            let _ ← afterAccepted enabled orderId userId voucherId⟩]⟩ c' ∨
       (s.world.offer userId voucherId orderId s.world.clock).1 ≠ .accepted ∧ ∃ reply,
        DrainRun date orderId ⟨{ s with
          world := (s.world.offer userId voucherId orderId s.world.clock).2 },
          [⟨.request userId voucherId, .done reply⟩]⟩ c') := by
  obtain ⟨threads, hrun, hend⟩ := h
  refine ⟨_, rfl, hend, ?_⟩
  have hrun := fresh_call hrun hend hready.idle hready.fresh rfl rfl
  have hrun := fresh_call hrun hend hready.idle hready.fresh rfl rfl
  have hscript : World.exec (.seckill userId voucherId orderId s.world.clock) .performed s.world =
      some (.ok (some (s.world.offer userId voucherId orderId s.world.clock).1),
        (s.world.offer userId voucherId orderId s.world.clock).2) := by
    rw [World.exec_performed]
    exact if_neg hready.fresh
  have hrun := fresh_call hrun hend hready.idle hready.fresh rfl hscript
  generalize hoffer : (s.world.offer userId voucherId orderId s.world.clock).1 = reply at hrun ⊢
  cases reply with
  | accepted => exact .inl ⟨rfl, hrun⟩
  | _ => exact .inr ⟨by simp, _, hrun⟩

theorem ready_offered (hready : s.Ready orderId voucherId) : Backend.Idle { s with
    world := (s.world.offer userId voucherId orderId s.world.clock).2 } :=
  ⟨hready.idle.queues, hready.idle.unacked, hready.idle.unconfirmed, hready.idle.tasks⟩

theorem refused_unchanged (hready : s.Ready orderId voucherId)
    (h : Drains date enabled s orderId userId voucherId s')
    (hrefused : (s.world.offer userId voucherId orderId s.world.clock).1 ≠ .accepted) :
    s'.world.redis = s.world.redis ∧ s'.world.db = s.world.db ∧
      s'.dailyOrderCount = s.dailyOrderCount := by
  obtain ⟨c', rfl, hend, ⟨haccepted, -⟩ | ⟨-, reply, hrun⟩⟩ := drains_script hready h
  · exact absurd haccepted hrefused
  refine alone_invariant (P := fun _ => False) (I := fun x => x.world.redis = s.world.redis ∧
    x.world.db = s.world.db ∧ x.dailyOrderCount = s.dailyOrderCount) hrun (ready_offered hready)
    trivial (fun _ h => h.elim) ?_ (fun _ _ _ hx => hx) fun _ _ _ _ h => h.elim
  rcases s.world.offer_cases userId voucherId orderId s.world.clock with ⟨-, hoffer⟩ | ⟨_, hacc, -⟩
  · rw [hoffer]
    exact ⟨rfl, rfl, rfl⟩
  · exact absurd hacc hrefused

theorem drains_accepted (hready : s.Ready orderId voucherId)
    (h : Drains date enabled s orderId userId voucherId s')
    (haccepted : (s.world.offer userId voucherId orderId s.world.clock).1 = .accepted) :
    ∃ c', c'.shared = s' ∧ Drained c' ∧ DrainRun date orderId ⟨{ s with
      world := (s.world.offer userId voucherId orderId s.world.clock).2 },
      [⟨.request userId voucherId, do
        let _ ← afterAccepted enabled orderId userId voucherId⟩]⟩ c' := by
  obtain ⟨c', hshared, hend, ⟨-, hrun⟩ | ⟨hrefused, -⟩⟩ := drains_script hready h
  · exact ⟨c', hshared, hend, hrun⟩
  · exact absurd haccepted hrefused

end Script

section Synchronous
variable {date : ℤ → ℤ} {orderId userId voucherId : Long} {s s' : Backend}

theorem bookkeeping_local {c : Cmd} (hc : c.Bookkeeping) : c.Local := by
  cases c with
  | currentTimeMillis | redis => trivial
  | _ => exact hc.elim

theorem compensate_local (order : VoucherOrder) (reason errorMsg : String) :
    (compensate order reason errorMsg).Calls Cmd.Local := by
  refine (calls_perform_bind _ _).mpr ⟨trivial, fun _ => Calls.bind ?_ fun _ => calls_pure _⟩
  exact (markFailed_plain _ _ _).calls.mono fun _ => bookkeeping_local

theorem createOrderSynchronously_local :
    (createOrderSynchronously orderId userId voucherId).Calls Cmd.Local := by
  refine Calls.tryCatch (Calls.bind ?_ fun _ => Calls.bind ?_ fun _ => calls_pure _) fun e => ?_
  · exact calls_lift (fun _ => trivial) _
  · exact (removePending_plain _ _).calls.mono fun _ => bookkeeping_local
  · exact (calls_ite _ _ _).mpr ⟨fun _ => compensate_local _ _ _, fun _ => compensate_local _ _ _⟩

theorem afterAccepted_local : (do
    let _ ← afterAccepted false orderId userId voucherId : Handler Unit).Calls Cmd.Local :=
  createOrderSynchronously_local.bind fun _ => calls_pure _

theorem synchronous_count (hready : s.Ready orderId voucherId)
    (h : Drains date false s orderId userId voucherId s') : s'.dailyOrderCount = s.dailyOrderCount := by
  by_cases haccepted : (s.world.offer userId voucherId orderId s.world.clock).1 = .accepted
  · obtain ⟨c', rfl, hend, hrun⟩ := drains_accepted hready h haccepted
    refine alone_invariant (P := Cmd.Local) (I := fun x => x.dailyOrderCount = s.dailyOrderCount)
      hrun (ready_offered hready) afterAccepted_local (fun _ hc => hc) rfl (fun _ _ _ hx => hx) ?_
    intro c x x' r hc hx hexec
    exact (exec_backend hexec).2.2.trans hx
  · exact (refused_unchanged hready h haccepted).2.2

/-- A row is inserted unless its key is taken, whatever happens after. -/
theorem synchronous_row (hready : s.Ready orderId voucherId)
    (h : Drains date false s orderId userId voucherId s')
    (haccepted : (s.world.offer userId voucherId orderId s.world.clock).1 = .accepted)
    {db₁ : Database} (hsave : s.world.db.save ⟨orderId, userId, voucherId⟩ = some db₁) :
    (⟨orderId, userId, voucherId⟩ : VoucherOrder) ∈ s'.world.db.orders.rows := by
  obtain ⟨c', rfl, hend, hrun⟩ := drains_accepted hready h haccepted
  obtain ⟨s₁, r, s₂, hlater, hcall, hrun⟩ := next_call hrun hend (ready_offered hready)
  have hidle : s₂.Idle := (hlater.idle (ready_offered hready)).exec (c := .statement _) trivial hcall
  refine alone_invariant (P := Cmd.Local)
    (I := fun x => (⟨orderId, userId, voucherId⟩ : VoucherOrder) ∈ x.world.db.orders.rows)
    hrun hidle (afterAccepted_local.2 r) (fun _ hc => hc) ?_ (fun _ _ _ hx => hx) ?_
  · have hdb : s₁.world.db = s.world.db := hlater.stores.1.db
    have hanswer := answer_backend hcall (by simp)
    simp only [World.answer, Statement.run, hdb, hsave, Option.some.injEq, Prod.mk.injEq] at hanswer
    rw [← hanswer.2, (Database.save_eq_some hsave).2.1]
    exact List.mem_cons_self
  · intro c x x' r hc hx hexec
    exact World.rows_subset_exec (exec_backend hexec).1 hx

theorem restore_offered (hready : s.Ready orderId voucherId)
    (haccepted : (s.world.offer userId voucherId orderId s.world.clock).1 = .accepted) :
    ∃ stock, (s.world.redis voucherId).stock = some stock ∧
      ((s.world.offer userId voucherId orderId s.world.clock).2.redis voucherId).stock =
        some (stock - 1) ∧
      ∃ k, k.stock = some stock ∧ seckillRestoreLua userId orderId
        ((s.world.offer userId voucherId orderId s.world.clock).2.redis voucherId) = some (1, k) := by
  rcases s.world.offer_cases userId voucherId orderId s.world.clock with
    ⟨hrefused, -⟩ | ⟨stock, -, -, -, hstock, hpos, hoffer⟩
  · exact absurd haccepted hrefused
  have hbound := hready.stock stock hstock
  have hincr : incrBy (some (stock - 1)) 1 = some stock := by
    simp only [incrBy, Option.getD_some]
    rw [if_pos (by omega), sub_add_cancel]
  refine ⟨stock, hstock, ?_, ?_⟩
  · rw [hoffer]
    simp [World.setRedis, VoucherKeys.reserve]
  · rw [hoffer]
    simp [World.setRedis, VoucherKeys.reserve, seckillRestoreLua, hincr, VoucherKeys.zremPending]

/-- A taken key makes the request give its piece back to Redis. -/
theorem synchronous_restored (hready : s.Ready orderId voucherId)
    (h : Drains date false s orderId userId voucherId s')
    (haccepted : (s.world.offer userId voucherId orderId s.world.clock).1 = .accepted)
    (hsave : s.world.db.save ⟨orderId, userId, voucherId⟩ = none) :
    (s'.world.redis voucherId).stock = (s.world.redis voucherId).stock := by
  obtain ⟨c', rfl, hend, hrun⟩ := drains_accepted hready h haccepted
  obtain ⟨s₁, r, s₂, hlater, hcall, hrun⟩ := next_call hrun hend (ready_offered hready)
  have hidle : s₂.Idle := (hlater.idle (ready_offered hready)).exec (c := .statement _) trivial hcall
  have hdb : s₁.world.db = s.world.db := hlater.stores.1.db
  have hanswer := answer_backend hcall (by simp)
  simp only [World.answer, Statement.run, hdb, hsave, Option.some.injEq, Prod.mk.injEq] at hanswer
  obtain ⟨rfl, hw⟩ := hanswer
  obtain ⟨s₃, r', s₄, hlater', hcall', hrun⟩ := next_call hrun hend hidle
  have hidle' : s₄.Idle := (hlater'.idle hidle).exec (c := .redis _ _) trivial hcall'
  obtain ⟨stock, hstock, -, keys, hkeys', hrestore⟩ := restore_offered hready haccepted
  have hkeys : s₃.world.redis = (s.world.offer userId voucherId orderId s.world.clock).2.redis := by
    rw [hlater'.stores.1.redis, ← hw]
    exact hlater.stores.1.redis
  have hanswer' := answer_backend hcall' (by simp)
  simp only [World.answer, RedisCmd.run, hkeys, hrestore, Option.some.injEq, Prod.mk.injEq] at hanswer'
  obtain ⟨rfl, hw'⟩ := hanswer'
  rw [hstock]
  refine alone_invariant (P := Cmd.Bookkeeping)
    (I := fun x => (x.world.redis voucherId).stock = some stock) hrun hidle' ?_
    (fun _ => bookkeeping_local) ?_ (fun _ _ _ hx => hx) ?_
  · exact ((markFailed_plain _ _ _).calls.bind fun _ => calls_pure _).bind fun _ => calls_pure _
  · rw [← hw']
    simpa [World.setRedis] using hkeys'
  · intro c x x' r hc hx hexec
    exact ((bookkeeping_exec hc (exec_backend hexec).1).2 voucherId).1.trans hx

end Synchronous

/-- What the handlers of one message may call. -/
def Cmd.Serves (m : Message) : Cmd → Prop
  | .createVouchOrder order => order = m.order
  | .sendOrder m' | .sendFailed m' | .park m' => m' = m
  | .nextId | .seckill _ _ _ _ | .listVouchers | .statement _ => False
  | _ => True

def Cmd.Steady : Cmd → Prop
  | .currentTimeMillis => True
  | .redis _ (.restore _ _) | .redis _ (.hincrBy _ _ _) => False
  | .redis _ _ => True
  | _ => False

/-- The replies to performed calls; `created` are those of `createVouchOrder`. -/
def Performed (created : Except Exn Unit → Prop) : (c : Cmd) → Except Exn c.Reply → Prop
  | .createVouchOrder _, r => created r
  | c, r => c.Steady → ∃ a, r = .ok a

def performing (allowed : Cmd → Prop) (created : Except Exn Unit → Prop) :
    Logic Cmd Cmd.Reply Exn Prop where
  pre _ c := allowed c
  meets _ c r := Performed created c r
  learn κ c _ := κ ∨ ∃ order, c = .createVouchOrder order

section Handlers
variable {m : Message} {allowed : Cmd → Prop} {created : Except Exn Unit → Prop} {κ : Prop}

theorem performing_growing : (performing allowed created).Growing :=
  ⟨fun _ _ _ => Or.inl, fun _ _ _ _ h => h⟩

theorem steady_ok {c : Cmd} {r : Except Exn c.Reply} (hc : c.Steady) (h : Performed created c r) :
    ∃ a, r = .ok a := by
  cases c with
  | currentTimeMillis | redis => exact h hc
  | _ => exact hc.elim

theorem bookkeeping_serves {c : Cmd} (hc : c.Bookkeeping) : c.Serves m := by
  cases c with
  | currentTimeMillis | redis => trivial
  | _ => exact hc.elim

theorem markConsuming_steady (v o startedAt : ℤ) :
    (markConsuming v o startedAt).Plain Cmd.Steady := by
  simp [markConsuming, refreshDataTtl, Cmd.Steady]

theorem consumeOrder_performing {Q : Prop → Except Exn Unit → Prop} (tag : ℕ)
    (hbook : ∀ c, Cmd.Bookkeeping c → allowed c)
    (hcreate : ∀ κ', (performing allowed created).wp (do
      perform (Cmd.createVouchOrder m.order)
      let committedAt ← currentTimeMillis
      removePendingAt m.voucherId m.orderId committedAt
      perform (Cmd.basicAck tag)) Q κ') :
    (performing allowed created).wp (consumeOrder m tag) Q κ := by
  refine (Logic.wp_perform_bind _ _).mpr ⟨hbook _ trivial, fun now _ => ?_, fun e he => ?_⟩
  swap
  · obtain ⟨a, ha⟩ := he trivial
    cases ha
  rw [Logic.wp_bind]
  refine performing_growing.wp_of_plain (F := fun _ => False) (markConsuming_steady _ _ now)
    ((markConsuming_plain _ _ now).calls.mono hbook) ?_ ?_
  · intro κ' c e hc he
    obtain ⟨a, ha⟩ := steady_ok hc he
    cases ha
  rintro κ' (e | _) - hthrown
  · exact (hthrown e rfl).elim
  · exact hcreate κ'

theorem markSendSuccess_bookkeeping {v o : Long} : (markSendSuccess v o).Calls Cmd.Bookkeeping := by
  simp [markSendSuccess, refreshDataTtl, Cmd.Bookkeeping]

theorem consumers_serve : ConsumerCalls (Cmd.Serves m) m where
  time := trivial
  consuming now := (markConsuming_plain _ _ now).calls.mono fun _ => bookkeeping_serves
  created at_ := (removePendingAt_plain _ _ at_).calls.mono fun _ => bookkeeping_serves
  failed reason := (markFailed_plain _ _ reason).calls.mono fun _ => bookkeeping_serves
  row := trivial
  restore := trivial
  forward := ⟨rfl, fun _ => trivial, rfl⟩
  settle _ := ⟨trivial, trivial, trivial⟩

end Handlers

/-- The calls that neither give a piece back nor forward the message. -/
def Cmd.Keeping : Cmd → Prop
  | .redis _ (.restore _ _) | .sendFailed _ | .park _ => False
  | _ => True

/-- The logic of handlers that always find the key of the order taken. -/
def duplicating : Logic Cmd Cmd.Reply Exn Prop :=
  performing Cmd.Keeping fun r => ∃ e, r = .error e ∧ e.kind = .duplicateKey

section Duplicate
variable {m : Message} {κ : Prop}

theorem bookkeeping_keeping {c : Cmd} (hc : c.Bookkeeping) : c.Keeping := by
  cases c with
  | currentTimeMillis => trivial
  | redis v c =>
    cases c with
    | restore => exact hc.elim
    | _ => trivial
  | _ => exact hc.elim

theorem consumeOrder_duplicating (tag : ℕ) : duplicating.wp (consumeOrder m tag)
    (fun _ r => ∃ e, r = .error e ∧ e.kind = .duplicateKey) κ := by
  refine consumeOrder_performing tag (fun _ => bookkeeping_keeping) fun κ' => ?_
  refine (Logic.wp_perform_bind _ _).mpr ⟨trivial, fun _ hcreated => ?_, fun e hcreated => ?_⟩
  · obtain ⟨e, he, -⟩ := hcreated
    cases he
  · exact hcreated

theorem consumer_duplicating (xDeath : List XDeath) (tag : ℕ) :
    duplicating.Safe (manualContainer tag (listenVoucherOrder m xDeath tag)) κ := by
  refine performing_growing.safe_tryCatch ?_ fun κ' e _ => ?_
  · rw [Logic.Safe, listenVoucherOrder, Logic.wp_tryCatch]
    refine Logic.wp_mono (consumeOrder_duplicating tag) ?_
    rintro κ' _ ⟨e, rfl, hkind⟩
    rw [Logic.orElse_error, if_pos hkind]
    refine performing_growing.safe_of_calls (Calls.bind ?_ fun _ => (calls_perform _).mpr trivial)
    exact (removePending_plain _ _).calls.mono fun _ => bookkeeping_keeping
  · exact performing_growing.safe_of_calls ((calls_ite _ _ _).mpr
      ⟨fun _ => (calls_perform _).mpr trivial, fun _ => calls_pure _⟩)

end Duplicate

/-- The logic in which a handler can be shown to call `createVouchOrder` before it ends. -/
def creating : Logic Cmd Cmd.Reply Exn Prop := performing (fun _ => True) fun _ => True

def Creates (p : Handler Unit) : Prop := creating.wp p (fun created _ => created) False

section Creates
variable {m : Message}

theorem wp_of_created {κ : Prop} (hκ : κ) (p : Handler Unit) :
    creating.wp p (fun created _ => created) κ :=
  performing_growing.wp_of_calls (calls_true p) fun _ _ h => h hκ

theorem Creates.tryCatch {p : Handler Unit} (hp : Creates p) (h : Exn → Handler Unit) :
    Creates (tryCatch p h) := by
  exact Logic.wp_tryCatch_of hp (fun _ _ hκ => hκ) fun _ e hκ => wp_of_created hκ (h e)

theorem not_creates_of_ended {p : Handler Unit} (hp : p.ended = true) : ¬ Creates p := by
  obtain ⟨r, rfl⟩ := exists_done_of_ended hp
  exact id

theorem consumeOrder_creates (tag : ℕ) : Creates (consumeOrder m tag) :=
  consumeOrder_performing tag (fun _ _ => trivial) fun _ =>
    ⟨trivial, fun _ _ => wp_of_created (.inr ⟨m.order, rfl⟩) _⟩

theorem consumer_creates (xDeath : List XDeath) (tag : ℕ) :
    Creates (manualContainer tag (listenVoucherOrder m xDeath tag)) :=
  ((consumeOrder_creates tag).tryCatch _).tryCatch _

end Creates

/-- Everything under way is about one message. -/
structure Serving (m : Message) (c : BackendConfig) : Prop where
  threads : ∀ t ∈ c.threads, t.program.Calls (Cmd.Serves m)
  tagged : c.shared.world.Tagged
  copies : ∀ side m', c.shared.world.CopyOn side m' → m' = m

section Served
variable {date : ℤ → ℤ} {orderId : Long} {m : Message} {c c' : BackendConfig}
  {mv : Move Unit DrainAction}

theorem Serving.step (h : Serving m c) (hfires : (draining date orderId).Fires c mv c') :
    Serving m c' := by
  cases hfires with
  | @run i f tag cmd k r s hthread hexec =>
    have hprogram := h.threads _ (List.mem_of_getElem? hthread)
    have heffect := effect_of_exec (exec_backend hexec).1
    refine ⟨fun t ht => ?_, h.tagged.of_sublist heffect.unacked.1 heffect.unacked.2,
      fun side m' hm' => ?_⟩
    · rcases Machine.mem_set_thread ht with rfl | ⟨j, -, hj⟩
      · exact hprogram.2 r
      · exact h.threads t (List.mem_of_getElem? hj)
    · rcases heffect.copyOn_of hm' with hcopy | ⟨-, rfl⟩ | ⟨-, rfl | rfl⟩
      · exact h.copies side m' hcopy
      · exact hprogram.1
      · exact hprogram.1
      · exact hprogram.1
  | crash =>
    exact ⟨fun t ht => h.threads t (List.mem_of_mem_eraseIdx ht), h.tagged, h.copies⟩
  | @act a s started hact =>
    have hstarted : ∀ t ∈ started, t.program.Calls (Cmd.Serves m) := by
      refine act_backend_started hact (fun copy hcopy tag => ?_) (fun copy hcopy tag => ?_) fun v o => ?_
      · rw [h.copies .order _ (.inl ⟨.order, rfl, copy, hcopy, rfl⟩)]
        exact consumers_serve.manualContainer _ (consumers_serve.listenVoucherOrder _ rfl _)
      · rw [h.copies .failed _ (.inl ⟨.failed, rfl, copy, hcopy, rfl⟩)]
        exact consumers_serve.manualContainer _ (consumers_serve.listenFailedOrderRetrying _)
      · exact markSendSuccess_bookkeeping.mono fun _ => bookkeeping_serves
    have hthreads : ∀ t ∈ c.threads ++ started, t.program.Calls (Cmd.Serves m) := fun t ht =>
      (List.mem_append.mp ht).elim (h.threads t) (hstarted t)
    rcases act_backend hact with ⟨n, -, -, rfl, rfl⟩ | ⟨pa, hpa, hw, -⟩
    · exact ⟨hthreads, h.tagged, h.copies⟩
    · exact ⟨hthreads, h.tagged.act hw,
        fun side m' hm' => h.copies side m' ((act_copyOn hw h.tagged).mp hm')⟩

theorem served_db {s s' : Backend} {cmd : Cmd} {r : Except Exn cmd.Reply} (hc : cmd.Serves m)
    (hexec : s.exec orderId cmd = some (r, s')) : s'.world.db = s.world.db ∨
      cmd = .createVouchOrder m.order ∧ s'.world = (s.world.commit m.order).2 := by
  have hne : cmd ≠ .nextId := by
    rintro rfl
    exact hc
  have hanswer := answer_backend hexec hne
  rcases World.answer_db hanswer with hdb | ⟨order, rfl, -⟩ | ⟨statement, rfl, -⟩
  · exact .inl hdb
  · obtain rfl : order = m.order := hc
    obtain ⟨-, hw⟩ := Prod.mk.inj (Option.some.inj hanswer)
    exact .inr ⟨rfl, hw.symm⟩
  · exact hc.elim

theorem act_backend_db {s s' : Backend} {a : DrainAction} {started : List ProtocolThread}
    (hact : Backend.act date a s = some (s', started)) : s'.world.db = s.world.db := by
  rcases act_backend hact with ⟨n, -, -, rfl, -⟩ | ⟨pa, -, -, hstores, -⟩
  · rfl
  · exact hstores.db

theorem Serving.rolledBack {db : Database} (h : DrainRun date orderId c c') (hserving : Serving m c)
    (hdb : c.shared.world.db = db) (hfails : ∀ db₁ db₂, db.save m.order = some db₁ →
      db₁.decrementStock m.voucherId ≠ some db₂) : c'.shared.world.db = db := by
  have hboth : Serving m c' ∧ c'.shared.world.db = db := by
    refine h.invariant (I := fun c => Serving m c ∧ c.shared.world.db = db) ⟨hserving, hdb⟩ ?_
    rintro d mv d' ⟨hserving, hdb⟩ - hfires
    refine ⟨hserving.step hfires, ?_⟩
    cases hfires with
    | @run i f tag cmd k r s hthread hexec =>
      have hprogram := hserving.threads _ (List.mem_of_getElem? hthread)
      rcases served_db hprogram.1 hexec with hsame | ⟨-, hcommit⟩
      · exact hsame.trans hdb
      · rcases d.shared.world.commit_cases m.order with ⟨db₁, db₂, h₁, h₂, -⟩ | ⟨-, he⟩ | ⟨-, he⟩
        · rw [hdb] at h₁
          exact absurd h₂ (hfails db₁ db₂ h₁)
        · rw [hcommit, he, hdb]
        · rw [hcommit, he, hdb]
    | crash => exact hdb
    | act hact => exact (act_backend_db hact).trans hdb
  exact hboth.2

theorem performed_of_exec {created : Except Exn Unit → Prop} {s s' : Backend} {cmd : Cmd}
    {r : Except Exn cmd.Reply} (hc : cmd.Serves m) (hexec : s.exec orderId cmd = some (r, s'))
    (hcreated : created (s.world.commit m.order).1) : Performed created cmd r := by
  have hne : cmd ≠ .nextId := by
    rintro rfl
    exact hc
  have hanswer := answer_backend hexec hne
  cases cmd with
  | createVouchOrder order =>
    obtain rfl : order = m.order := hc
    obtain ⟨rfl, -⟩ := Prod.mk.inj (Option.some.inj hanswer)
    exact hcreated
  | currentTimeMillis =>
    obtain ⟨rfl, -⟩ := Prod.mk.inj (Option.some.inj hanswer)
    exact fun _ => ⟨_, rfl⟩
  | redis v cmd =>
    obtain ⟨rfl, -⟩ := Prod.mk.inj (Option.some.inj hanswer)
    intro hsteady
    cases cmd with
    | restore | hincrBy => exact hsteady.elim
    | _ => exact ⟨_, rfl⟩
  | _ => exact fun hsteady => hsteady.elim

theorem StoreEffect.kept_stock {w w' : World} {cmd : Cmd} (h : StoreEffect w cmd w')
    (hc : cmd.Serves m) (hkeeping : cmd.Keeping) (v : Long) :
    (w'.redis v).stock = (w.redis v).stock := by
  cases h with
  | same h => rw [h.redis]
  | refused | reserved | statement => exact hc.elim
  | redis v' cmd =>
    by_cases hv : v = v'
    · subst hv
      have hledger : (w.redis v).SameLedger (cmd.run w.redisNow (w.redis v)).2 :=
        RedisCmd.run_ledger (fun u o he => by subst he; exact hkeeping) _ _
      simpa [World.setRedis] using hledger.1
    · simp [World.setRedis, hv]
  | inserted => rfl

/-- What a handler finds that serves an order whose key is taken. -/
structure Duplicated (m : Message) (stock : Option ℤ) (c : BackendConfig) : Prop where
  serving : Serving m c
  knows : Machine.Knows duplicating (fun _ _ _ => True) c
  taken : c.shared.world.db.save m.order = none
  forwarded : ∀ m', ¬ c.shared.world.CopyOn .failed m'
  stock : (c.shared.world.redis m.voucherId).stock = stock

theorem commit_taken {w : World} {order : VoucherOrder} (h : w.db.save order = none) :
    w.commit order = (.error (duplicateKeyException order), w) := by
  simp [World.commit, transact, createVouchOrder, Statement.run, h]

theorem Duplicated.step {stock : Option ℤ} (h : Duplicated m stock c)
    (hallowed : Undisturbed orderId c mv) (hfires : (draining date orderId).Fires c mv c') :
    Duplicated m stock c' := by
  have hserving := h.serving.step hfires
  cases hfires with
  | @run i f tag cmd k r s hthread hexec =>
    have hserves := (h.serving.threads _ (List.mem_of_getElem? hthread)).1
    have heffect := effect_of_exec (exec_backend hexec).1
    obtain ⟨κ, -, hkeeping, -⟩ := h.knows.thread hthread
    have hcommit := commit_taken h.taken
    refine ⟨hserving, h.knows.run hthread (fun _ _ _ _ _ _ => trivial) fun κ _ _ => ⟨?_, trivial⟩,
      ?_, fun m' hm' => ?_, ?_⟩
    · exact performed_of_exec hserves hexec ⟨_, by rw [hcommit], rfl⟩
    · rcases served_db hserves hexec with hdb | ⟨-, hw⟩
      · rw [hdb]
        exact h.taken
      · rw [hw, hcommit]
        exact h.taken
    · rcases heffect.copyOn_of hm' with hcopy | ⟨hside, -⟩ | ⟨-, rfl | rfl⟩
      · exact h.forwarded m' hcopy
      · cases hside
      · exact hkeeping
      · exact hkeeping
    · exact (heffect.stores.kept_stock hserves hkeeping m.voucherId).trans h.stock
  | crash => exact hallowed.elim
  | @act a s started hact =>
    have hstarted : ∀ t ∈ started, duplicating.Safe t.program False := by
      refine act_backend_started hact (P := fun p => duplicating.Safe p False)
        (fun copy _ tag => consumer_duplicating _ tag) (fun copy hcopy _ => ?_) fun v o => ?_
      · exact absurd (.inl ⟨.failed, rfl, copy, hcopy, rfl⟩) (h.forwarded copy.message)
      · exact performing_growing.safe_of_calls
          (markSendSuccess_bookkeeping.mono fun _ => bookkeeping_keeping)
    have hknows : Machine.Knows duplicating (fun _ _ _ => True) ⟨s, c.threads ++ started⟩ :=
      h.knows.act (fun _ _ _ => trivial) fun t ht => ⟨False, trivial, hstarted t ht⟩
    rcases act_backend hact with ⟨n, -, -, rfl, rfl⟩ | ⟨pa, -, hw, hstores, -⟩
    · exact ⟨hserving, hknows, h.taken, h.forwarded, h.stock⟩
    · refine ⟨hserving, hknows, ?_, fun m' hm' => ?_, ?_⟩
      · rw [hstores.db]
        exact h.taken
      · exact h.forwarded m' ((act_copyOn hw h.serving.tagged).mp hm')
      · rw [hstores.redis]
        exact h.stock

/-- The created order has a task for the daily counter, or has been counted. -/
def Counted (s₀ s : Backend) : Prop :=
  s.tasks ≠ [] ∨ ∃ date, (s₀.dailyOrderCount date).value < (s.dailyOrderCount date).value

/-- What leads to the count of an order that can be created. -/
structure Counting (m : Message) (s₀ : Backend) (c : BackendConfig) : Prop where
  serving : Serving m c
  growing : ∀ date, (s₀.dailyOrderCount date).value ≤ (c.shared.dailyOrderCount date).value
  counted : Counted s₀ c.shared ∨ c.shared.world.db = s₀.world.db ∧
    (c.shared.world.queues .order ≠ [] ∨ ∃ t ∈ c.threads, Creates t.program)

theorem Effect.queue_ne_nil {w w' : World} {cmd : Cmd} (h : Effect w cmd w') {q : QueueName}
    (hq : w.queues q ≠ []) : w'.queues q ≠ [] := by
  have henqueue : ∀ (w : World) (q' : QueueName) (copy : Copy), w.queues q ≠ [] →
      (w.enqueue q' copy).queues q ≠ [] := by
    intro w q' copy hq
    by_cases hqq : q = q'
    · subst hqq
      simp [World.enqueue]
    · simpa [World.enqueue, hqq] using hq
  cases h with
  | none | offer | redis | commit | statement | settle => exact hq
  | publish m fate =>
    cases fate with
    | stored => exact henqueue _ _ _ hq
    | returned | lost => exact hq
  | forward m fate =>
    unfold World.forward
    split
    · exact henqueue _ _ _ hq
    · exact hq
  | park m => exact henqueue _ _ _ hq
  | reject tag requeue | nack tag requeue =>
    rcases w.reject_cases tag requeue with he | ⟨d, -, -, ⟨q', copy, -, -, he⟩ | ⟨-, -, he⟩⟩
    · rwa [he]
    · rw [he]
      exact henqueue _ _ _ hq
    · rw [he]
      exact hq

theorem Counting.call {s₀ : Backend} (h : Counting m s₀ c) {db₁ db₂ : Database}
    (hsave : s₀.world.db.save m.order = some db₁) (hsold : db₁.decrementStock m.voucherId = some db₂)
    {i : ℕ} {tag : HandlerTag} {cmd : Cmd} {k : Except Exn cmd.Reply → Handler Unit}
    {r : Except Exn cmd.Reply} {s : Backend} (hthread : c.threads[i]? = some ⟨tag, .call cmd k⟩)
    (hexec : c.shared.exec orderId cmd = some (r, s)) :
    Counted s₀ s ∨ s.world.db = s₀.world.db ∧
      (s.world.queues .order ≠ [] ∨ ∃ t ∈ c.threads.set i ⟨tag, k r⟩, Creates t.program) := by
  obtain ⟨hcall, htasks, hcount⟩ := exec_backend hexec
  rcases h.counted with (hleft | ⟨date, hlt⟩) | ⟨hdb, hway⟩
  · exact .inl (.inl (by simp [htasks, hleft]))
  · exact .inl (.inr ⟨date, by rwa [hcount]⟩)
  have hserves := (h.serving.threads _ (List.mem_of_getElem? hthread)).1
  by_cases hcreate : cmd = .createVouchOrder m.order
  · subst hcreate
    have hok : (transact c.shared.world.clock (createVouchOrder m.order) c.shared.world.db).1 =
        .ok () := by
      rw [hdb]
      have hsold' : db₁.decrementStock m.order.voucherId = some db₂ := hsold
      simp [transact, createVouchOrder, Statement.run, hsave, hsold']
    rw [Cmd.events, committedEvents_createVouchOrder, if_pos hok] at htasks
    exact .inl (.inl (by simp [htasks]))
  have hnot : ¬ ∃ order, cmd = .createVouchOrder order := by
    rintro ⟨order, rfl⟩
    have horder : order = m.order := hserves
    exact hcreate (by rw [horder])
  rcases served_db hserves hexec with hsame | ⟨he, -⟩
  swap
  · exact absurd he hcreate
  refine .inr ⟨hsame.trans hdb, ?_⟩
  rcases hway with hqueue | ⟨t, ht, hcreates⟩
  · exact .inl ((effect_of_exec hcall).queue_ne_nil hqueue)
  obtain ⟨j, hj⟩ := List.mem_iff_getElem?.mp ht
  by_cases hij : i = j
  · subst hij
    obtain rfl : t = ⟨tag, .call cmd k⟩ := Option.some.inj (hj.symm.trans hthread)
    have hnext := hcreates.2 r (performed_of_exec hserves hexec trivial)
    have hfalse : (False ∨ ∃ order, cmd = .createVouchOrder order) = False := by simp [hnot]
    refine .inr ⟨⟨tag, k r⟩, List.mem_set (List.getElem?_eq_some_iff.mp hj).1 _, ?_⟩
    rw [Creates, ← hfalse]
    exact hnext
  · refine .inr ⟨t, List.mem_of_getElem? (i := j) ?_, hcreates⟩
    rw [List.getElem?_set_ne hij]
    exact hj

theorem act_queued {s s' : Backend} {a : DrainAction} {started : List ProtocolThread}
    (hact : Backend.act date a s = some (s', started)) (hqueue : s.world.queues .order ≠ []) :
    s'.world.queues .order ≠ [] ∨ ∃ t ∈ started, Creates t.program := by
  rcases act_backend hact with ⟨n, -, -, rfl, -⟩ | ⟨pa, hpa, hw, -⟩
  · exact .inl hqueue
  cases a with
  | deliver q n =>
    cases hpa
    obtain ⟨copy, t, -, hlistener, hw', rfl⟩ := act_deliver hw
    cases q with
    | order =>
      cases hlistener
      exact .inr ⟨_, List.mem_singleton_self _, consumer_creates _ _⟩
    | failed =>
      rw [hw']
      exact .inl (by simpa [World.deliver, World.removeCopy] using hqueue)
    | retry | parking => cases hlistener
  | expireRetry n =>
    cases hpa
    obtain ⟨copy, -, hw', -⟩ := act_expireRetry hw
    rw [hw']
    exact .inl (by simp [World.expireRetry, World.enqueue])
  | confirm n =>
    cases hpa
    obtain ⟨p, -, -, hw', -⟩ := act_confirm hw
    rw [hw']
    exact .inl hqueue
  | runTask n => cases hpa
  | tick clock redisTime =>
    cases hact
    exact .inl hqueue

theorem Counting.step {s₀ : Backend} (h : Counting m s₀ c) {db₁ db₂ : Database}
    (hsave : s₀.world.db.save m.order = some db₁) (hsold : db₁.decrementStock m.voucherId = some db₂)
    (hallowed : Undisturbed orderId c mv) (hfires : (draining date orderId).Fires c mv c') :
    Counting m s₀ c' := by
  have hserving := h.serving.step hfires
  cases hfires with
  | run hthread hexec =>
    refine ⟨hserving, ?_, h.call hsave hsold hthread hexec⟩
    rw [(exec_backend hexec).2.2]
    exact h.growing
  | crash => exact hallowed.elim
  | @act a s started hact =>
    rcases act_backend hact with ⟨n, -, hn, rfl, rfl⟩ | ⟨pa, hpa, hw, hstores, htasks, hcount⟩
    · refine ⟨hserving, fun date' => ?_, .inl (.inr ⟨date c.shared.world.clock, ?_⟩)⟩
      · by_cases hdate : date' = date c.shared.world.clock
        · subst hdate
          simpa [Backend.handle] using Int.le_add_one (h.growing (date c.shared.world.clock))
        · simpa [Backend.handle, hdate] using h.growing date'
      · simpa [Backend.handle] using Int.lt_add_one_of_le (h.growing (date c.shared.world.clock))
    · refine ⟨hserving, by rw [hcount]; exact h.growing, ?_⟩
      rcases h.counted with (hleft | ⟨date, hlt⟩) | ⟨hdb, hway⟩
      · exact .inl (.inl (by rwa [htasks]))
      · exact .inl (.inr ⟨date, by rwa [hcount]⟩)
      refine .inr ⟨hstores.db.trans hdb, ?_⟩
      rcases hway with hqueue | ⟨t, ht, hcreates⟩
      · rcases act_queued hact hqueue with hqueue' | ⟨t, ht, hcreates⟩
        · exact .inl hqueue'
        · exact .inr ⟨t, List.mem_append_right _ ht, hcreates⟩
      · exact .inr ⟨t, List.mem_append_left _ ht, hcreates⟩

end Served

/-- The message of an accepted request has been published, and its request is through. -/
structure Published (m : Message) (s₀ : Backend) (c : BackendConfig) : Prop where
  serving : Serving m c
  requests : ∀ t ∈ c.threads, t.program = .done (.ok ())
  queued : c.shared.world.queues .order ≠ []
  forwarded : ∀ m', ¬ c.shared.world.CopyOn .failed m'
  db : c.shared.world.db = s₀.world.db
  dailyOrderCount : c.shared.dailyOrderCount = s₀.dailyOrderCount

section Asynchronous
variable {date : ℤ → ℤ} {orderId userId voucherId : Long} {s s' : Backend}

theorem Backend.Idle.no_copies (h : s.Idle) (side : Side) (m : Message) :
    ¬ s.world.CopyOn side m := by
  rintro (⟨q, -, copy, hcopy, -⟩ | ⟨d, hd, -⟩)
  · rw [h.queues] at hcopy
    cases hcopy
  · rw [h.unacked] at hd
    cases hd

theorem asynchronous_published (hready : s.Ready orderId voucherId)
    (h : Drains date true s orderId userId voucherId s')
    (haccepted : (s.world.offer userId voucherId orderId s.world.clock).1 = .accepted) :
    ∃ c c', c'.shared = s' ∧ Drained c' ∧ Published ⟨orderId, userId, voucherId⟩ s c ∧
      c.shared.world.redis = (s.world.offer userId voucherId orderId s.world.clock).2.redis ∧
      DrainRun date orderId c c' := by
  obtain ⟨c', rfl, hend, hrun⟩ := drains_accepted hready h haccepted
  obtain ⟨s₁, r, s₂, hlater, hcall, hrun⟩ := next_call hrun hend (ready_offered hready)
  have hidle := hlater.idle (ready_offered hready)
  obtain ⟨hcall, hs₂⟩ := exec_without_events hcall rfl
  obtain ⟨rfl, hw⟩ := Prod.mk.inj (Option.some.inj hcall)
  have hcopies : ∀ side m', s₂.world.CopyOn side m' →
      side = .order ∧ m' = ⟨orderId, userId, voucherId⟩ := by
    intro side m' hm'
    rw [← hw] at hm'
    rcases (World.copyOn_enqueue _ _).mp hm' with ⟨hside, rfl⟩ | hm'
    · exact ⟨hside.symm, rfl⟩
    · exact absurd hm' (hidle.no_copies side m')
  have hunacked : s₂.world.unacked = [] := by
    rw [← hw]
    exact hidle.unacked
  refine ⟨_, c', rfl, hend, ⟨⟨?_, ?_, ?_⟩, ?_, ?_, ?_, ?_, ?_⟩, ?_, hrun⟩
  · intro t ht
    obtain rfl := List.mem_singleton.mp ht
    trivial
  · exact ⟨by simp [hunacked], by simp [hunacked]⟩
  · exact fun side m' hm' => (hcopies side m' hm').2
  · intro t ht
    obtain rfl := List.mem_singleton.mp ht
    rfl
  · rw [← hw]
    simp [World.publish, World.enqueue]
  · intro m' hm'
    cases (hcopies .failed m' hm').1
  · rw [← hw]
    exact hlater.stores.1.db
  · rw [hs₂]
    exact hlater.stores.2
  · rw [← hw]
    exact hlater.stores.1.redis

/-- An order that can be created is counted. -/
theorem asynchronous_counted (hready : s.Ready orderId voucherId)
    (h : Drains date true s orderId userId voucherId s')
    (haccepted : (s.world.offer userId voucherId orderId s.world.clock).1 = .accepted)
    {db₁ db₂ : Database} (hsave : s.world.db.save ⟨orderId, userId, voucherId⟩ = some db₁)
    (hsold : db₁.decrementStock voucherId = some db₂) :
    ∃ date, (s.dailyOrderCount date).value < (s'.dailyOrderCount date).value := by
  obtain ⟨c, c', rfl, hend, hpublished, -, hrun⟩ := asynchronous_published hready h haccepted
  have hstart : Counting ⟨orderId, userId, voucherId⟩ s c :=
    ⟨hpublished.serving, by simp [hpublished.dailyOrderCount],
      .inr ⟨hpublished.db, .inl hpublished.queued⟩⟩
  have hcounting : Counting ⟨orderId, userId, voucherId⟩ s c' :=
    hrun.invariant hstart fun d mv d' hd hallowed hfires => hd.step hsave hsold hallowed hfires
  rcases hcounting.counted with (htasks | hcounted) | ⟨-, hqueue | ⟨t, ht, hcreates⟩⟩
  · exact absurd hend.tasks htasks
  · exact hcounted
  · exact absurd (hend.queues .order (by simp)) hqueue
  · exact absurd hcreates (not_creates_of_ended (hend.threads t ht))

theorem asynchronous_db (hready : s.Ready orderId voucherId)
    (h : Drains date true s orderId userId voucherId s')
    (haccepted : (s.world.offer userId voucherId orderId s.world.clock).1 = .accepted)
    (hfails : ∀ db₁ db₂, s.world.db.save ⟨orderId, userId, voucherId⟩ = some db₁ →
      db₁.decrementStock voucherId ≠ some db₂) : s'.world.db = s.world.db := by
  obtain ⟨c, c', rfl, -, hpublished, -, hrun⟩ := asynchronous_published hready h haccepted
  exact hpublished.serving.rolledBack hrun hpublished.db hfails

/-- An order whose key is taken keeps its piece. -/
theorem asynchronous_stock (hready : s.Ready orderId voucherId)
    (h : Drains date true s orderId userId voucherId s')
    (haccepted : (s.world.offer userId voucherId orderId s.world.clock).1 = .accepted)
    (hsave : s.world.db.save ⟨orderId, userId, voucherId⟩ = none) :
    (s'.world.redis voucherId).stock =
      ((s.world.offer userId voucherId orderId s.world.clock).2.redis voucherId).stock := by
  obtain ⟨c, c', rfl, -, hpublished, hredis, hrun⟩ := asynchronous_published hready h haccepted
  have hstart : Duplicated ⟨orderId, userId, voucherId⟩
      ((s.world.offer userId voucherId orderId s.world.clock).2.redis voucherId).stock c := by
    refine ⟨hpublished.serving, fun t ht => ⟨False, trivial, ?_⟩, ?_, hpublished.forwarded, ?_⟩
    · rw [hpublished.requests t ht]
      trivial
    · rw [hpublished.db]
      exact hsave
    · rw [hredis]
  have hduplicated := hrun.invariant hstart fun d mv d' hd hallowed hfires => hd.step hallowed hfires
  exact hduplicated.stock

end Asynchronous

theorem queriedStatus_congr {w w' : World} (hredis : w'.redis = w.redis) (hdb : w'.db = w.db)
    (orderId userId voucherId : Long) : w'.queriedStatus orderId userId voucherId =
      w.queriedStatus orderId userId voucherId := by
  rw [World.queriedStatus, World.queriedStatus, hredis, hdb]

/-- The two modes agree exactly on the requests that the script refuses. -/
theorem seckill_modes_agree_iff (date : ℤ → ℤ) (s s₁ s₂ : Backend) (orderId userId voucherId : Long)
    (hready : s.Ready orderId voucherId) (hasync : Drains date true s orderId userId voucherId s₁)
    (hsync : Drains date false s orderId userId voucherId s₂) :
    Agree s₁ s₂ orderId userId voucherId ↔
      ¬ (s.world.redis voucherId).Admits userId s.world.redisNow := by
  have haccepted : (s.world.offer userId voucherId orderId s.world.clock).1 = .accepted ↔
      (s.world.redis voucherId).Admits userId s.world.redisNow := seckillLua_accepted_iff
  rw [← haccepted]
  constructor
  · intro hagree haccepted
    cases hsave : s.world.db.save ⟨orderId, userId, voucherId⟩ with
    | none =>
      -- only the synchronous mode gives the piece back
      obtain ⟨stock, hstock, htaken, -⟩ := restore_offered hready haccepted
      have hsame := hagree.redisStock voucherId
      rw [asynchronous_stock hready hasync haccepted hsave, htaken,
        synchronous_restored hready hsync haccepted hsave, hstock] at hsame
      have hstocks := Option.some.inj hsame
      omega
    | some db₁ =>
      cases hsold : db₁.decrementStock voucherId with
      | none =>
        -- only the synchronous mode keeps the row
        have hdb := asynchronous_db hready hasync haccepted fun db db₂ hdb => by
          rw [hsave] at hdb
          cases hdb
          simp [hsold]
        have hrow := synchronous_row hready hsync haccepted hsave
        rw [← hagree.rows, hdb] at hrow
        exact (Database.save_eq_some hsave).1 _ hrow (.inl rfl)
      | some db₂ =>
        -- only the asynchronous mode counts the order
        obtain ⟨day, hlt⟩ := asynchronous_counted hready hasync haccepted hsave hsold
        have hsame := hagree.dailyOrderCount day
        rw [synchronous_count hready hsync] at hsame
        omega
  · intro hrefused
    obtain ⟨hredis₁, hdb₁, hcount₁⟩ := refused_unchanged hready hasync hrefused
    obtain ⟨hredis₂, hdb₂, hcount₂⟩ := refused_unchanged hready hsync hrefused
    refine ⟨fun row => ?_, fun v => ?_, fun v => ?_, fun v u => ?_, fun day => ?_, ?_⟩
    · rw [hdb₁, hdb₂]
    · rw [hdb₁, hdb₂]
    · rw [hredis₁, hredis₂]
    · rw [hredis₁, hredis₂]
    · rw [hcount₁, hcount₂]
    · rw [queriedStatus_congr hredis₁ hdb₁, queriedStatus_congr hredis₂ hdb₂]

def SeckillModesAgree : Prop :=
  ∀ (date : ℤ → ℤ) (s s₁ s₂ : Backend) (orderId userId voucherId : Long), s.Ready orderId voucherId →
    Drains date true s orderId userId voucherId s₁ →
    Drains date false s orderId userId voucherId s₂ → Agree s₁ s₂ orderId userId voucherId

def sampleBackend : Backend := ⟨sampleWorld, [], fun _ => ⟨0, none⟩⟩

theorem sampleBackend_ready : sampleBackend.Ready 100 1 where
  idle := ⟨fun _ => rfl, rfl, rfl, rfl⟩
  fresh := by simp [sampleBackend, sampleWorld, World.start]
  stock stock hstock := by
    cases hstock
    norm_num

/-- Neither a crash nor the passing of time. -/
def undisturbed : Move Unit DrainAction → Bool
  | .crash _ | .act (.tick _ _) => false
  | _ => true

theorem undisturbed_of_check {orderId : Long} {c : BackendConfig} {mv : Move Unit DrainAction}
    (h : undisturbed mv = true) : Undisturbed orderId c mv := by
  cases mv with
  | run i f => trivial
  | crash i => cases h
  | act a =>
    cases a with
    | tick => cases h
    | _ => trivial

def drained (c : BackendConfig) : Bool :=
  decide ((∀ t ∈ c.threads, t.program.ended = true) ∧
    (∀ q ∈ [QueueName.order, .retry, .failed], c.shared.world.queues q = []) ∧
    c.shared.world.unconfirmed = [] ∧ c.shared.tasks.isEmpty = true)

theorem drained_of_check {c : BackendConfig} (h : drained c = true) : Drained c := by
  obtain ⟨hthreads, hqueues, hunconfirmed, htasks⟩ := of_decide_eq_true h
  refine ⟨hthreads, fun q hq => hqueues q ?_, hunconfirmed, List.isEmpty_iff.mp htasks⟩
  cases q with
  | parking => exact absurd rfl hq
  | _ => simp

/-- A request for order 100 on voucher 1, by the date in UTC. -/
def sampleRequest (seckillAsyncEnabled : Bool) (userId : Long) (moves : List (Move Unit DrainAction)) :
    Option BackendConfig :=
  (draining (fun clock => clock / 86400000) 100).play (fun _ => undisturbed)
    (requested seckillAsyncEnabled sampleBackend userId 1) moves

theorem drains_of_sample {enabled : Bool} {userId : Long} {moves : List (Move Unit DrainAction)}
    {c : BackendConfig} (hplay : sampleRequest enabled userId moves = some c)
    (hend : drained c = true) : Drains (fun clock => clock / 86400000) enabled sampleBackend 100 userId 1
      c.shared :=
  ⟨c.threads, Machine.run_of_play (fun _ _ => undisturbed_of_check) hplay, drained_of_check hend⟩

def calls (i n : ℕ) : List (Move Unit DrainAction) := List.replicate n (.run i ())

/-- User 9 is refused in both modes. -/
theorem seckill_modes_agree_iff_refused : ∃ s₁ s₂, Agree s₁ s₂ 100 9 1 := by
  have hasync : (sampleRequest true 9 (calls 0 3)).map drained = some true := by decide +kernel
  have hsync : (sampleRequest false 9 (calls 0 3)).map drained = some true := by decide +kernel
  obtain ⟨c₁, hplay₁, hend₁⟩ := Option.map_eq_some_iff.mp hasync
  obtain ⟨c₂, hplay₂, hend₂⟩ := Option.map_eq_some_iff.mp hsync
  refine ⟨c₁.shared, c₂.shared, (seckill_modes_agree_iff _ sampleBackend c₁.shared c₂.shared 100 9 1
    sampleBackend_ready (drains_of_sample hplay₁ hend₁) (drains_of_sample hplay₂ hend₂)).mpr ?_⟩
  rintro ⟨-, hlegacy, -⟩
  exact hlegacy (by decide)

/-- User 7 is served in both modes, and only the asynchronous one counts the order. -/
theorem seckillModesAgree_fails : ¬ SeckillModesAgree := by
  intro h
  have hasync : (sampleRequest true 7 (calls 0 4 ++ [.act (.confirm 0)] ++ calls 1 6 ++
      [.act (.deliver .order 0)] ++ calls 2 17 ++ [.act (.runTask 0)])).map (fun c =>
        (drained c, (c.shared.dailyOrderCount 0).value)) = some (true, 1) := by decide +kernel
  have hsync : (sampleRequest false 7 (calls 0 15)).map (fun c =>
      (drained c, (c.shared.dailyOrderCount 0).value)) = some (true, 0) := by decide +kernel
  obtain ⟨c₁, hplay₁, hend₁⟩ := Option.map_eq_some_iff.mp hasync
  obtain ⟨c₂, hplay₂, hend₂⟩ := Option.map_eq_some_iff.mp hsync
  obtain ⟨hend₁, hcount₁⟩ := Prod.mk.inj hend₁
  obtain ⟨hend₂, hcount₂⟩ := Prod.mk.inj hend₂
  have hagree := h _ sampleBackend c₁.shared c₂.shared 100 7 1 sampleBackend_ready
    (drains_of_sample hplay₁ hend₁) (drains_of_sample hplay₂ hend₂)
  have hsame := hagree.dailyOrderCount 0
  omega

end HmDianPing.Seckill
