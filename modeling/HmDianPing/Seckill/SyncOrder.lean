import HmDianPing.Seckill.Service

/-! # Synchronous order creation

What `createOrderSynchronously` leaves behind in the three stores, for every
outcome of every call after the script accepted the request.
-/
namespace HmDianPing.Seckill
open Interleaving Program

/-- The insert and the stock update may fail without an effect, the restore script does not fail,
and any other Redis call may fail with or without its effect. -/
def syncAllowed : Cmd → Choice → Bool
  | .statement (.save _), .nothing => true
  | .statement (.save _), .fails _ => true
  | .statement (.decrementStock _), .fails _ => true
  | .redis _ (.restore _ _), f => match f with
    | .performed => true
    | _ => false
  | .redis _ _, .fails _ => true
  | .redis _ _, .failsAfter _ => true
  | _, .performed => true
  | _, _ => false

def syncExec (c : Cmd) (f : Choice) (w : World) : Option (Except Exn c.Reply × World) :=
  if syncAllowed c f then World.exec c f w else none

abbrev SyncRun {α : Type} := @Trace World Cmd Cmd.Reply Exn Choice syncExec Eq α

/-- The insert of the order wrote its row. -/
def wroteRow : (c : Cmd) → Except Exn c.Reply → Bool
  | .statement (.save _), .ok saved => saved
  | _, _ => false

def RowWritten (es : List CallEvent) : Prop := ∃ ev ∈ es, wroteRow ev.cmd ev.reply = true

def Placed (w₀ w' : World) (order : VoucherOrder) (result : Result) : Prop :=
  result = .ok order.id ∧ order ∈ w'.db.orders.rows ∧
    w'.db.stockOf order.voucherId = w₀.db.stockOf order.voucherId - 1 ∧
    (w'.redis order.voucherId).reservation.lookup order.userId = some order.id

def Undone (w₀ w' : World) (order : VoucherOrder) (result : Result) : Prop :=
  result.success = false ∧ ¬ w'.db.Persisted order.id ∧
    w'.db.stockOf order.voucherId = w₀.db.stockOf order.voucherId ∧
    (∀ userId, (w'.redis order.voucherId).reservation.lookup userId =
      (w₀.redis order.voucherId).reservation.lookup userId) ∧
    (w'.redis order.voucherId).stockValue = (w₀.redis order.voucherId).stockValue

section Runs
variable {w w' : World} {order : VoucherOrder} {es : List CallEvent} {x : Except Exn Unit}

theorem exec_of_sync {c : Cmd} {f : Choice} {r : Except Exn c.Reply}
    (h : syncExec c f w = some (r, w')) : syncAllowed c f = true ∧ World.exec c f w = some (r, w') := by
  simpa [syncExec, Option.ite_none_right_eq_some] using h

theorem sync_save {f : Choice} {r : Except Exn Bool}
    (h : syncExec (.statement (.save order)) f w = some (r, w')) :
    (r = .ok true ∧ ∃ db₁, w.db.save order = some db₁ ∧ w' = { w with db := db₁ }) ∨
      (r ≠ .ok true ∧ w' = w) := by
  obtain ⟨ha, h⟩ := exec_of_sync h
  cases f with
  | performed =>
    simp only [World.exec, World.answer, Statement.run] at h
    split at h
    · next db₁ hsave => cases h; exact .inl ⟨rfl, db₁, hsave, rfl⟩
    · cases h; exact .inr ⟨by simp, rfl⟩
  | nothing => cases h; exact .inr ⟨by simp, rfl⟩
  | fails e => cases h; exact .inr ⟨by simp, rfl⟩
  | _ => cases ha

theorem sync_decrementStock {v : Long} {f : Choice} {r : Except Exn Bool}
    (h : syncExec (.statement (.decrementStock v)) f w = some (r, w')) :
    (r = .ok true ∧ ∃ db₂, w.db.decrementStock v = some db₂ ∧ w' = { w with db := db₂ }) ∨
      (r = .ok false ∧ w.db.stockOf v ≤ 0 ∧ w' = w) ∨ ((∃ e, r = .error e) ∧ w' = w) := by
  obtain ⟨ha, h⟩ := exec_of_sync h
  cases f with
  | performed =>
    simp only [World.exec, World.answer, Statement.run] at h
    split at h
    · next db₂ hdec => cases h; exact .inl ⟨rfl, db₂, hdec, rfl⟩
    · next hdec => cases h; exact .inr (.inl ⟨rfl, Database.decrementStock_eq_none.mp hdec, rfl⟩)
  | fails e => cases h; exact .inr (.inr ⟨⟨e, rfl⟩, rfl⟩)
  | _ => cases ha

theorem publish_trace {v : VoucherOrder}
    (h : SyncRun w (do
      let now ← perform (Cmd.statement Statement.currentTimeMillis)
      perform (Cmd.statement (Statement.publishEvent ⟨v.id, v.userId, v.voucherId, now⟩))) es w' x) :
    w' = w ∧ failures es = [] ∧ x = .ok () ∧ ¬ RowWritten es := by
  rcases Trace.of_bind h with ⟨now, es₁, es₂, w₁, rfl, h₁, h₂⟩ | ⟨e, rfl, h₁⟩
  · obtain ⟨_, f, rfl, he, rfl⟩ := Trace.of_perform h₁
    obtain ⟨_, f', rfl, he', rfl⟩ := Trace.of_perform h₂
    obtain ⟨ha, he⟩ := exec_of_sync he
    obtain ⟨ha', he'⟩ := exec_of_sync he'
    cases f <;> cases ha
    cases f' <;> cases ha'
    cases he
    cases he'
    exact ⟨rfl, rfl, rfl, by simp [RowWritten, wroteRow]⟩
  · obtain ⟨_, f, rfl, he, rfl⟩ := Trace.of_perform h₁
    obtain ⟨ha, he⟩ := exec_of_sync he
    cases f <;> cases ha
    cases he

/-- `createVouchOrder` outside a transaction: no row, a row without its stock, or both writes. -/
theorem create_trace (h : SyncRun w (lift Cmd.statement (createVouchOrder order)) es w' x) :
    w'.redis = w.redis ∧ (
      (¬ RowWritten es ∧ w'.db = w.db ∧ ∃ e, x = .error e) ∨
      RowWritten es ∧ ∃ db₁, w.db.save order = some db₁ ∧ (
        (w'.db = db₁ ∧ (db₁.stockOf order.voucherId ≤ 0 ∨ failures es ≠ []) ∧ ∃ e, x = .error e) ∨
        db₁.decrementStock order.voucherId = some w'.db ∧ failures es = [] ∧ x = .ok ())) := by
  simp only [createVouchOrder, lift_bind, lift_perform, lift_ite, lift_throw] at h
  rcases Trace.of_bind h with ⟨saved, es₁, es₂, w₁, rfl, h₁, h₂⟩ | ⟨e, rfl, h₁⟩
  · obtain ⟨_, f, rfl, he, rfl⟩ := Trace.of_perform h₁
    rcases sync_save he with ⟨hr, db₁, hsave, rfl⟩ | ⟨hr, rfl⟩
    · cases hr
      rw [if_neg (by simp)] at h₂
      rcases Trace.of_bind h₂ with ⟨matched, es₃, es₄, w₂, rfl, h₃, h₄⟩ | ⟨e, rfl, h₃⟩
      · obtain ⟨_, f', rfl, he', rfl⟩ := Trace.of_perform h₃
        rcases sync_decrementStock he' with ⟨hr, db₂, hdec, rfl⟩ | ⟨hr, hstock, rfl⟩ | ⟨⟨e, hr⟩, -⟩
        · cases hr
          rw [if_neg (by simp)] at h₄
          obtain ⟨rfl, hf, rfl, -⟩ := publish_trace h₄
          exact ⟨rfl, .inr ⟨by simp [RowWritten, wroteRow], db₁, hsave, .inr ⟨hdec, by simp [hf], rfl⟩⟩⟩
        · cases hr
          rw [if_pos rfl] at h₄
          rcases Trace.of_bind h₄ with ⟨_, _, _, _, _, ht, _⟩ | ⟨e, rfl, ht⟩
          · obtain ⟨-, -, he⟩ := Trace.of_throw ht
            cases he
          · obtain ⟨-, rfl, -⟩ := Trace.of_throw ht
            exact ⟨rfl, .inr ⟨by simp [RowWritten, wroteRow], db₁, hsave,
              .inl ⟨rfl, .inl hstock, e, rfl⟩⟩⟩
        · cases hr
      · obtain ⟨_, f', rfl, he', rfl⟩ := Trace.of_perform h₃
        rcases sync_decrementStock he' with ⟨hr, -⟩ | ⟨hr, -⟩ | ⟨-, rfl⟩
        · cases hr
        · cases hr
        · exact ⟨rfl, .inr ⟨by simp [RowWritten, wroteRow], db₁, hsave,
            .inl ⟨rfl, .inr (by simp), e, rfl⟩⟩⟩
    · cases saved with
      | true => exact absurd rfl hr
      | false =>
        rw [if_pos rfl] at h₂
        rcases Trace.of_bind h₂ with ⟨_, _, _, _, _, ht, _⟩ | ⟨e, rfl, ht⟩
        · obtain ⟨-, -, he⟩ := Trace.of_throw ht
          cases he
        · obtain ⟨rfl, rfl, -⟩ := Trace.of_throw ht
          exact ⟨rfl, .inl ⟨by simp [RowWritten, wroteRow], rfl, e, rfl⟩⟩
  · obtain ⟨_, f, rfl, he, rfl⟩ := Trace.of_perform h₁
    rcases sync_save he with ⟨hr, -⟩ | ⟨-, rfl⟩
    · cases hr
    · exact ⟨rfl, .inl ⟨by simp [RowWritten, wroteRow], rfl, e, rfl⟩⟩

theorem bookkeeping_trace {α : Type} {p : Handler α} {x : Except Exn α}
    (hp : p.Plain Cmd.Bookkeeping) (h : SyncRun w p es w' x) :
    w'.db = w.db ∧ ∀ v, (w.redis v).SameLedger (w'.redis v) := by
  refine h.invariant (fun w' => w'.db = w.db ∧ ∀ v, (w.redis v).SameLedger (w'.redis v)) hp.calls
    ?_ ?_ ⟨rfl, fun v => .refl _⟩
  · rintro a _ rfl ha
    exact ha
  · intro c f a r b hc hexec ha
    obtain ⟨hdb, hledger⟩ := bookkeeping_exec hc (exec_of_sync hexec).2
    exact ⟨hdb.trans ha.1, fun v => (ha.2 v).trans (hledger v)⟩

/-- The compensation gives back the reservation and its piece, and reports a failure. -/
theorem compensate_trace {reason errorMsg : String} {result : Result}
    (hown : (w.redis order.voucherId).reservation.lookup order.userId = some order.id)
    (h : SyncRun w (compensate order reason errorMsg) es w' (.ok result)) :
    result.success = false ∧ w'.db = w.db ∧
      (w'.redis order.voucherId).stockValue = (w.redis order.voucherId).stockValue + 1 ∧
      (w'.redis order.voucherId).reservation =
        (w.redis order.voucherId).reservation.erase order.userId := by
  rcases Trace.of_bind h with ⟨restored, es₁, es₂, w₁, rfl, h₁, h₂⟩ | ⟨e, he, -⟩
  · rcases Trace.of_bind h₂ with ⟨u, es₃, es₄, w₂, rfl, h₃, h₄⟩ | ⟨e, he, -⟩
    · obtain ⟨rfl, rfl, hresult⟩ := Trace.of_pure h₄
      cases hresult
      obtain ⟨hdb, hledger⟩ := bookkeeping_trace (markFailed_plain _ _ _) h₃
      obtain ⟨_, f, rfl, he, rfl⟩ := Trace.of_perform h₁
      obtain ⟨ha, he⟩ := exec_of_sync he
      cases f with
      | performed =>
        simp only [World.exec, World.answer, RedisCmd.run] at he
        split at he
        · next n k' hrun =>
          cases he
          have hk := hledger order.voucherId
          simp only [World.setRedis, Function.update_self] at hk
          rcases seckillRestoreLua_cases hrun with ⟨-, -, rfl⟩ | ⟨-, hnone, -⟩ | ⟨-, hne, -⟩
          · refine ⟨rfl, by simpa [World.setRedis] using hdb, ?_, hk.2.1⟩
            rw [VoucherKeys.stockValue, hk.1]
            rfl
          · rw [AList.lookup_eq_none.mpr hnone] at hown
            cases hown
          · exact absurd hown hne
        · cases he
      | _ => cases ha
    · cases he
  · cases he

theorem offer_accepted {w₀ : World} {u v o now : Long} (h : (w₀.offer u v o now).1 = .accepted) :
    (w₀.offer u v o now).2.db = w₀.db ∧ u ∉ (w₀.redis v).reservation ∧
      ((w₀.offer u v o now).2.redis v).reservation = (w₀.redis v).reservation.insert u o ∧
      ((w₀.offer u v o now).2.redis v).stockValue = (w₀.redis v).stockValue - 1 := by
  cases hs : seckillLua u v o now w₀.redisTime (w₀.redis v) with | mk reply k =>
  simp only [World.offer, hs] at h ⊢
  rcases seckillLua_cases hs with ⟨hne, -⟩ | ⟨stock, -, hres, -, hstock, -, rfl⟩
  · exact absurd h hne
  · refine ⟨rfl, hres, ?_, ?_⟩
    · simp [World.setRedis, VoucherKeys.reserve]
    · simp [World.setRedis, VoucherKeys.reserve, VoucherKeys.stockValue, hstock]

/-- After the compensation the order is undone exactly when MySQL is as before. -/
theorem undone_of_compensated {w₀ : World} {result : Result} {now : Long}
    (haccepted : (w₀.offer order.userId order.voucherId order.id now).1 = .accepted)
    (hledger : ((w₀.offer order.userId order.voucherId order.id now).2.redis
      order.voucherId).SameLedger (w.redis order.voucherId))
    {reason errorMsg : String} (h : SyncRun w (compensate order reason errorMsg) es w' (.ok result)) :
    result.success = false ∧ (Undone w₀ w' order result ↔ ¬ w.db.Persisted order.id ∧
      w.db.stockOf order.voucherId = w₀.db.stockOf order.voucherId) := by
  obtain ⟨-, hfree, hres, hstock⟩ := offer_accepted haccepted
  rw [← hledger.2.1] at hres
  rw [VoucherKeys.stockValue, ← hledger.1] at hstock
  change (w.redis order.voucherId).stockValue = _ at hstock
  obtain ⟨hfail, hdb, hstock', hres'⟩ := compensate_trace (by rw [hres, AList.lookup_insert]) h
  refine ⟨hfail, ?_⟩
  unfold Undone
  rw [hdb, hstock', hstock, hres', hres]
  refine ⟨fun hu => ⟨hu.2.1, hu.2.2.1⟩, fun hu => ⟨hfail, hu.1, hu.2, fun userId => ?_, by ring⟩⟩
  by_cases hu' : userId = order.userId
  · subst hu'
    rw [AList.lookup_erase, AList.lookup_eq_none.mpr hfree]
  · rw [AList.lookup_erase_ne hu', AList.lookup_insert_ne hu']

theorem not_placed_of_failure {w₀ : World} {result : Result} (h : result.success = false) :
    ¬ Placed w₀ w' order result := by
  rintro ⟨rfl, -⟩
  cases h

@[simp] theorem rowWritten_append {es' : List CallEvent} :
    RowWritten (es ++ es') ↔ RowWritten es ∨ RowWritten es' := by
  simp [RowWritten, or_and_right, exists_or]

theorem not_rowWritten (h : ∀ ev ∈ es, ∀ s, ev.cmd ≠ .statement s) : ¬ RowWritten es := by
  rintro ⟨⟨w, c, r, w'⟩, hev, hw⟩
  cases c with
  | statement s => exact h _ hev s rfl
  | _ => cases hw

theorem compensate_not_rowWritten {reason errorMsg : String} {result : Except Exn Result}
    (h : SyncRun w (compensate order reason errorMsg) es w' result) : ¬ RowWritten es := by
  have hcalls : (compensate order reason errorMsg).Calls fun c => ∀ s, c ≠ .statement s := by
    refine Calls.bind (by simp [restorePreDeduct]) fun _ => Calls.bind ?_ fun _ => calls_pure _
    refine (markFailed_plain _ _ _).calls.mono fun c hc s he => ?_
    subst he
    exact hc
  exact not_rowWritten (Trace.calls hcalls h)

theorem Database.persisted_of_save {db db₁ : Database} (h : db.save order = some db₁) :
    db₁.Persisted order.id ∧ ¬ db.Persisted order.id := by
  obtain ⟨hfree, hrows, -⟩ := Database.save_eq_some h
  refine ⟨⟨order, by rw [hrows]; exact List.mem_cons_self, rfl⟩, ?_⟩
  rintro ⟨row, hrow, hid⟩
  exact hfree row hrow (.inl hid.symm)

theorem Database.persisted_of_decrement {db db₁ : Database} {v o : Long}
    (h : db.decrementStock v = some db₁) : db₁.Persisted o ↔ db.Persisted o := by
  rw [Database.Persisted, (Database.decrementStock_eq_some h).2.1, Database.Persisted]

theorem syncBody_trace {result : Except Exn Result}
    (h : SyncRun w (do
      lift Cmd.statement (createVouchOrder order)
      removePending order.voucherId order.id
      return Result.ok order.id) es w' result) :
    (∀ v, (w.redis v).SameLedger (w'.redis v)) ∧ (
      (¬ RowWritten es ∧ w'.db = w.db ∧ ∃ e, result = .error e) ∨
      RowWritten es ∧ ∃ db₁, w.db.save order = some db₁ ∧ (
        (w'.db.Persisted order.id ∧ (w.db.stockOf order.voucherId ≤ 0 ∨ failures es ≠ []) ∧
          ∃ e, result = .error e) ∨
        db₁.decrementStock order.voucherId = some w'.db ∧ failures es = [] ∧
          result = .ok (.ok order.id))) := by
  rcases Trace.of_bind h with ⟨_, es₁, es₂, w₁, rfl, h₁, h₂⟩ | ⟨e, rfl, h₁⟩
  · obtain ⟨hredis, hcreate⟩ := create_trace h₁
    obtain ⟨-, -, e, he⟩ | ⟨hwritten, db₁, hsave, ⟨-, -, e, he⟩ | ⟨hdec, hf, -⟩⟩ := hcreate
    · cases he
    · cases he
    · have hrow : w₁.db.Persisted order.id :=
        (Database.persisted_of_decrement hdec).mpr (Database.persisted_of_save hsave).1
      rcases Trace.of_bind h₂ with ⟨_, es₃, es₄, w₂, rfl, h₃, h₄⟩ | ⟨e, rfl, h₃⟩
      · obtain ⟨hdb, hledger⟩ := bookkeeping_trace (removePending_plain _ _) h₃
        obtain ⟨-, hend⟩ := Trace.of_plain (removePending_plain _ _) h₃
        obtain ⟨rfl, rfl, rfl⟩ := Trace.of_pure h₄
        rw [hredis] at hledger
        refine ⟨hledger, .inr ⟨by simp [hwritten], db₁, hsave, .inr ⟨hdb ▸ hdec, ?_, rfl⟩⟩⟩
        rcases hend with ⟨hf', -⟩ | ⟨e, -, he⟩
        · simp [hf, hf']
        · cases he
      · obtain ⟨hdb, hledger⟩ := bookkeeping_trace (removePending_plain _ _) h₃
        obtain ⟨-, hend⟩ := Trace.of_plain (removePending_plain _ _) h₃
        rw [hredis] at hledger
        refine ⟨hledger, .inr ⟨by simp [hwritten], db₁, hsave, .inl ⟨hdb ▸ hrow, .inr ?_, e, rfl⟩⟩⟩
        rcases hend with ⟨-, a, ha⟩ | ⟨e', hf', -⟩
        · cases ha
        · simp [hf']
  · obtain ⟨hredis, hcreate⟩ := create_trace h₁
    refine ⟨fun v => hredis ▸ .refl _, ?_⟩
    obtain ⟨hwritten, hdb, -⟩ | ⟨hwritten, db₁, hsave, ⟨rfl, hwhy, -⟩ | ⟨-, -, he⟩⟩ := hcreate
    · exact .inl ⟨hwritten, hdb, e, rfl⟩
    · rw [Database.save_stockOf hsave] at hwhy
      exact .inr ⟨hwritten, _, hsave, .inl ⟨(Database.persisted_of_save hsave).1, hwhy, e, rfl⟩⟩
    · cases he

end Runs

/-- When the synchronous path leaves the order in all stores or in none: no row of that id exists
yet, and either the insert writes no row, or there is stock and no later call fails. -/
theorem createOrderSynchronously_all_or_nothing_iff (w₀ w' : World) (orderId userId voucherId now : Long)
    (es : List CallEvent) (result : Result)
    (haccepted : (w₀.offer userId voucherId orderId now).1 = .accepted)
    (hrun : SyncRun (w₀.offer userId voucherId orderId now).2
      (createOrderSynchronously orderId userId voucherId) es w' (.ok result)) :
    Xor (Placed w₀ w' ⟨orderId, userId, voucherId⟩ result)
        (Undone w₀ w' ⟨orderId, userId, voucherId⟩ result) ↔
      ¬ w₀.db.Persisted orderId ∧
        (¬ RowWritten es ∨ 0 < w₀.db.stockOf voucherId ∧ failures es = []) := by
  obtain ⟨hdb₀, -, hres, -⟩ := offer_accepted haccepted
  rcases Trace.of_tryCatch hrun with ⟨_, hr, hok⟩ | ⟨e, es₁, es₂, w₁, rfl, hbody, hcatch⟩
  · cases hr
    obtain ⟨hledger, ⟨-, -, e, he⟩ | ⟨hwritten, db₁, hsave, ⟨-, -, e, he⟩ | ⟨hdec, hf, hr⟩⟩⟩ :=
      syncBody_trace hok
    · cases he
    · cases he
    · cases hr
      rw [hdb₀] at hsave
      have hstock := (Database.decrementStock_eq_some hdec).1
      rw [Database.save_stockOf hsave] at hstock
      refine iff_of_true (.inl ⟨⟨rfl, ?_, ?_, ?_⟩, fun hu => nomatch hu.1⟩)
        ⟨(Database.persisted_of_save hsave).2, .inr ⟨hstock, hf⟩⟩
      · rw [(Database.decrementStock_eq_some hdec).2.1, (Database.save_eq_some hsave).2.1]
        exact List.mem_cons_self
      · rw [Database.decrementStock_stockOf hdec, if_pos rfl, Database.save_stockOf hsave]
      · rw [(hledger voucherId).2.1, hres, AList.lookup_insert]
  · -- every path through a `catch` compensates
    have hcomp : ∃ reason errorMsg,
        SyncRun w₁ (compensate ⟨orderId, userId, voucherId⟩ reason errorMsg) es₂ w' (.ok result) := by
      split at hcatch <;> exact ⟨_, _, hcatch⟩
    obtain ⟨reason, errorMsg, hcomp⟩ := hcomp
    have hnone := compensate_not_rowWritten hcomp
    obtain ⟨hledger, hend⟩ := syncBody_trace hbody
    obtain ⟨hfail, hundone⟩ := undone_of_compensated haccepted (hledger voucherId) hcomp
    have hplaced : ¬ Placed w₀ w' ⟨orderId, userId, voucherId⟩ result :=
      not_placed_of_failure hfail
    have hxor : Xor (Placed w₀ w' ⟨orderId, userId, voucherId⟩ result)
        (Undone w₀ w' ⟨orderId, userId, voucherId⟩ result) ↔
        Undone w₀ w' ⟨orderId, userId, voucherId⟩ result := by
      rw [xor_def]
      exact ⟨fun h => h.elim (fun h => absurd h.1 hplaced) And.left, fun h => .inr ⟨h, hplaced⟩⟩
    rw [hxor, hundone, rowWritten_append, failures_append, List.append_eq_nil_iff]
    obtain ⟨hnot, hdb, -⟩ | ⟨hwritten, db₁, hsave, ⟨hrow, hwhy, -⟩ | ⟨-, -, he⟩⟩ := hend
    · rw [hdb, hdb₀]
      exact ⟨fun h => ⟨h.1, .inl (by simp [hnot, hnone])⟩, fun h => ⟨h.1, rfl⟩⟩
    · rw [hdb₀] at hwhy
      refine iff_of_false (fun h => h.1 hrow) fun h => ?_
      rcases h.2 with h | ⟨hpos, hf, -⟩
      · exact h (.inl hwritten)
      · exact hwhy.elim (fun h => absurd hpos (not_lt.mpr h)) fun h => h hf
    · cases he

/-- What was promised of the synchronous path. -/
def SyncAllOrNothing : Prop :=
  ∀ (w₀ w' : World) (orderId userId voucherId now : Long) (es : List CallEvent) (result : Result),
    (w₀.offer userId voucherId orderId now).1 = .accepted →
    SyncRun (w₀.offer userId voucherId orderId now).2
      (createOrderSynchronously orderId userId voucherId) es w' (.ok result) →
    Xor (Placed w₀ w' ⟨orderId, userId, voucherId⟩ result)
      (Undone w₀ w' ⟨orderId, userId, voucherId⟩ result)

def soldOutWorld : World :=
  { sampleWorld with db := { twoLeft with stock := (∅ : Hash Long ℤ).insert 1 0 } }

/-- Order 100 of user 7 on voucher 1, with every call performed as the stores have it. -/
def syncOrderIn (w₀ : World) : Option (List CallEvent × World × Except Exn Result) :=
  playTrace syncExec (createOrderSynchronously 100 7 1) (List.replicate 20 .performed)
    (w₀.offer 7 1 100 0).2

theorem syncAllOrNothing_fails : ¬ SyncAllOrNothing := by
  intro h
  have hplay : ((syncOrderIn soldOutWorld).map fun q => (decide (q.2.1.db.Persisted 100),
      q.2.2.toOption)) = some (true, some (.fail "秒杀服务异常")) := by decide +kernel
  obtain ⟨⟨es, w', x⟩, hq, hend⟩ := Option.map_eq_some_iff.mp hplay
  obtain ⟨hrow, hx⟩ := Prod.mk.inj hend
  cases x with
  | error e => cases hx
  | ok result =>
    cases hx
    rcases h soldOutWorld w' 100 7 1 0 es _ (by decide +kernel) (trace_of_play (fun _ => rfl) hq)
      with ⟨hplaced, -⟩ | ⟨hundone, -⟩
    · cases hplaced.1
    · exact hundone.2.1 (of_decide_eq_true hrow)

/-- With pieces left everywhere the order is placed. -/
theorem createOrderSynchronously_all_or_nothing_iff_placed :
    ∃ w' : World, Xor (Placed sampleWorld w' ⟨100, 7, 1⟩ (.ok 100))
      (Undone sampleWorld w' ⟨100, 7, 1⟩ (.ok 100)) := by
  have hplay : ((syncOrderIn sampleWorld).map fun q => (decide (failures q.1 = []),
      q.2.2.toOption)) = some (true, some (.ok 100)) := by decide +kernel
  obtain ⟨⟨es, w', x⟩, hq, hend⟩ := Option.map_eq_some_iff.mp hplay
  obtain ⟨hf, hx⟩ := Prod.mk.inj hend
  cases x with
  | error e => cases hx
  | ok result =>
    cases hx
    exact ⟨w', (createOrderSynchronously_all_or_nothing_iff sampleWorld w' 100 7 1 0 es _
      (by decide +kernel) (trace_of_play (fun _ => rfl) hq)).mpr
        ⟨by decide +kernel, .inr ⟨by decide +kernel, of_decide_eq_true hf⟩⟩⟩

end HmDianPing.Seckill
