import HmDianPing.Seckill.Barrier

/-! # No persisted order is released

The failed consumer and the republish scan give a reservation back after they
have found no row, and nothing stops the consumer from writing the row afterwards.
Rows and reservations agree as long as an order is released only when it is closed.
-/
namespace HmDianPing.Seckill
open Interleaving Program

def Releases (w : World) (f : Choice) (cmd : Cmd) (m : Message) : Prop :=
  cmd = .redis m.voucherId (.restore m.userId m.orderId) ∧ f.Takes ∧ w.Reserves m ∧
    (seckillRestoreLua m.userId m.orderId (w.redis m.voucherId)).isSome

/-- The order is out of the pending set, as the restore script leaves it. -/
def World.unlist (w : World) (m : Message) : World :=
  w.setRedis m.voucherId ((w.redis m.voucherId).zremPending m.orderId)

/-- A reservation is given back only when its order has no row and can get none. -/
def ReleasesClosed (c : ProtocolConfig) : Move Choice ProtocolAction → Prop
  | .run i f => ∀ tag cmd k m, c.threads[i]? = some ⟨tag, .call cmd k⟩ →
      Releases c.shared f cmd m →
      ∃ B : Barrier, B.Lasting ∧ B.Up (c.shared.unlist m) m ∧ Seals B c i k m
  | _ => True

/-- The accepted orders of a run from `w₀` are reserved or closed, and its stocks are accounted for. -/
structure Accounted (w₀ : World) (c : ProtocolConfig) : Prop where
  traced : Traced (fun _ _ _ => True) c
  kept : ∀ m ∈ c.shared.accepted, c.shared.Reserves m ∨ Closed c m
  oldEntries : ∀ v, (c.shared.redis v).legacyOrder = (w₀.redis v).legacyOrder
  redisStock : ∀ v, (c.shared.redis v).total = (w₀.redis v).total
  sqlStock : ∀ v, c.shared.db.stockOf v + c.shared.db.ordersOf v = w₀.db.stockOf v

section Calls
variable {w w' : World} {cmd : Cmd} {m : Message} {κ : Set Fact}

/-- A reservation ends only by the restore script for its own order. -/
theorem StoreEffect.keeps_reservation (h : StoreEffect w cmd w') (hr : w.Reserves m) :
    w'.Reserves m ∨ (cmd = .redis m.voucherId (.restore m.userId m.orderId) ∧
      ∃ n k, seckillRestoreLua m.userId m.orderId (w.redis m.voucherId) = some (n, k) ∧
        w' = w.setRedis m.voucherId k) := by
  cases h with
  | same h => exact .inl (by rwa [World.Reserves, h.redis])
  | @reserved u v o now stock fresh free =>
    refine .inl ?_
    by_cases hv : m.voucherId = v
    · subst hv
      have hu : m.userId ≠ u := by
        rintro rfl
        exact free (AList.lookup_isSome.mp (by rw [show _ = _ from hr]; rfl))
      simpa [World.Reserves, World.setRedis, VoucherKeys.reserve, AList.lookup_insert_ne hu] using hr
    · simpa [World.Reserves, World.setRedis, hv] using hr
  | redis v c =>
    by_cases hv : m.voucherId = v
    · subst hv
      by_cases hc : ∃ u o, c = .restore u o
      · obtain ⟨u, o, rfl⟩ := hc
        simp only [RedisCmd.run]
        split
        · next n k hrun =>
          rcases seckillRestoreLua_cases hrun with ⟨-, hown, hk⟩ | ⟨-, -, -, hk⟩ | ⟨-, -, -, hk⟩
          · by_cases hu : m.userId = u
            · subst hu
              obtain rfl : m.orderId = o := Option.some.inj (hr.symm.trans hown)
              exact .inr ⟨rfl, n, k, hrun, rfl⟩
            · left
              simpa [World.Reserves, World.setRedis, hk, VoucherKeys.zremPending,
                AList.lookup_erase_ne hu] using hr
          · left; simpa [World.Reserves, World.setRedis, hk, VoucherKeys.zremPending] using hr
          · left; simpa [World.Reserves, World.setRedis, hk, VoucherKeys.zremPending] using hr
        · left; simpa [World.Reserves, World.setRedis] using hr
      · push Not at hc
        left
        simpa [World.Reserves, World.setRedis, (RedisCmd.run_ledger hc _ _).2.1] using hr
    · exact .inl (by simpa [World.Reserves, World.setRedis, hv] using hr)
  | _ => exact .inl hr

theorem StoreEffect.reserves_new (h : StoreEffect w cmd w') (hm : m ∈ w'.accepted)
    (hnew : m ∉ w.accepted) : w'.Reserves m := by
  cases h with
  | same h => rw [h.accepted] at hm; exact absurd hm hnew
  | reserved =>
    rcases List.mem_cons.mp hm with rfl | hm
    · simp [World.Reserves, World.setRedis, VoucherKeys.reserve]
    · exact absurd hm hnew
  | _ => exact absurd hm hnew

theorem StoreEffect.redisStock (h : StoreEffect w cmd w') (hw : Provenance w)
    (hj : justified κ cmd) (hκ : ∀ x ∈ κ, originOf w x) (v : Long) :
    (w'.redis v).legacyOrder = (w.redis v).legacyOrder ∧ (w'.redis v).total = (w.redis v).total := by
  cases h with
  | same h => rw [h.redis]; exact ⟨rfl, rfl⟩
  | @reserved u v' o now stock fresh free new inStock =>
    by_cases hv : v = v'
    · subst hv
      simp only [World.setRedis, Function.update_self]
      exact ⟨rfl, total_reserve free inStock _ _ _ _⟩
    · simp [World.setRedis, hv]
  | redis v' c =>
    by_cases hv : v = v'
    · subst hv
      simp only [World.setRedis, Function.update_self]
      by_cases hc : ∃ u o, c = .restore u o
      · obtain ⟨u, o, rfl⟩ := hc
        have hnot := (hw.keys v).legacy _ (hκ _ hj) rfl
        simp only [RedisCmd.run]
        split
        · next n k hrun =>
          refine ⟨?_, total_restore hrun⟩
          rcases seckillRestoreLua_cases hrun with ⟨-, -, rfl⟩ | ⟨-, -, hleg, -⟩ | ⟨-, -, -, rfl⟩
          · rfl
          · exact absurd hleg hnot
          · rfl
        · exact ⟨rfl, rfl⟩
      · push Not at hc
        obtain ⟨hstock, hres, hleg⟩ := RedisCmd.run_ledger hc w.redisNow (w.redis v)
        refine ⟨hleg, ?_⟩
        simp only [VoucherKeys.total, VoucherKeys.stockValue, VoucherKeys.reserved, hstock, hres, hleg]
    · simp [World.setRedis, hv]
  | _ => exact ⟨rfl, rfl⟩

theorem StoreEffect.sqlStock (h : StoreEffect w cmd w') (hj : justified κ cmd) (v : Long) :
    w'.db.stockOf v + w'.db.ordersOf v = w.db.stockOf v + w.db.ordersOf v := by
  cases h with
  | same h => rw [h.db]
  | @inserted order db₁ db₂ h₁ h₂ =>
    change db₂.stockOf v + db₂.ordersOf v = _
    rw [Database.decrementStock_ordersOf h₂, Database.decrementStock_stockOf h₂,
      Database.save_ordersOf h₁, Database.save_stockOf h₁]
    by_cases hv : order.voucherId = v
    · simp [hv]
    · simp [hv, Ne.symm hv]
  | statement s => exact hj.elim
  | _ => rfl

theorem Barrier.Lasting.up_restore {B : Barrier} (hB : B.Lasting) {u : Long} {n : ℤ}
    {k : VoucherKeys} (hrun : seckillRestoreLua u m.orderId (w.redis m.voucherId) = some (n, k))
    (hup : B.Up (w.unlist m) m) : B.Up (w.setRedis m.voucherId k) m := by
  have hkeys : k.pending = ((w.redis m.voucherId).zremPending m.orderId).pending ∧
      k.pendingData = (w.redis m.voucherId).pendingData := by
    rcases seckillRestoreLua_cases hrun with ⟨-, -, rfl⟩ | ⟨-, -, -, rfl⟩ | ⟨-, -, -, rfl⟩ <;>
      exact ⟨rfl, rfl⟩
  rcases hB with rfl | rfl
  · refine ⟨?_, hup.2⟩
    have hlisted := hup.1
    simp only [World.unlist, World.setRedis, Function.update_self] at hlisted ⊢
    rwa [hkeys.1]
  · refine ⟨?_, hup.2⟩
    have hexhausted := hup.1
    simp only [World.unlist, World.setRedis, Function.update_self] at hexhausted ⊢
    rwa [hkeys.2]

end Calls

section Run
variable {w₀ w : World} {c c' : ProtocolConfig} {mv : Move Choice ProtocolAction}

theorem Accounted.call (h : Accounted w₀ c) {i : ℕ} {f : Choice} {tag : HandlerTag} {cmd : Cmd}
    {k : Except Exn cmd.Reply → Handler Unit} {r : Except Exn cmd.Reply}
    (hg : ReleasesClosed c (.run i f)) (hi : c.threads[i]? = some ⟨tag, .call cmd k⟩)
    (hexec : seckillProtocol.exec cmd f c.shared = some (r, w)) :
    Accounted w₀ ⟨w, c.threads.set i ⟨tag, k r⟩⟩ := by
  have hf : seckillProtocol.Fires c (.run i f) ⟨w, c.threads.set i ⟨tag, k r⟩⟩ := .run hi hexec
  obtain ⟨-, hexec'⟩ := Option.ite_none_right_eq_some.mp hexec
  obtain ⟨κ, hκ, hj, -⟩ := h.traced.told.thread hi
  have hs := (effect_of_exec hexec').stores
  have hstock := hs.redisStock h.traced.world hj hκ.origin
  refine ⟨h.traced.step hf, fun m hm => ?_, fun v => (hstock v).1.trans (h.oldEntries v),
    fun v => (hstock v).2.trans (h.redisStock v), fun v => (hs.sqlStock hj v).trans (h.sqlStock v)⟩
  by_cases hold : m ∈ c.shared.accepted
  · rcases h.kept m hold with hr | hclosed
    · rcases hs.keeps_reservation hr with hr' | ⟨rfl, n, k', hrun, rfl⟩
      · exact .inl hr'
      · rcases exec_redis_cases hexec' with hsame | ⟨htakes, -⟩
        · exact .inl (by rw [hsame]; exact hr)
        · obtain ⟨B, hB, hup, hseals⟩ :=
            hg tag _ k m hi ⟨rfl, htakes, hr, Option.isSome_iff_exists.mpr ⟨_, hrun⟩⟩
          exact .inr ⟨B, hB, hB.up_restore hrun hup, hseals.barred hexec'⟩
    · exact .inr (hclosed.step h.traced hold hf)
  · exact .inl (hs.reserves_new hm hold)

theorem Accounted.act (h : Accounted w₀ c) {a : ProtocolAction} {started : List ProtocolThread}
    (ha : World.act a c.shared = some (w, started)) : Accounted w₀ ⟨w, c.threads ++ started⟩ := by
  have hf : seckillProtocol.Fires c (.act a) ⟨w, c.threads ++ started⟩ := .act ha
  have hkeys : ∀ v, (w.redis v).reservation = (c.shared.redis v).reservation ∧
      (w.redis v).legacyOrder = (c.shared.redis v).legacyOrder ∧
      (w.redis v).total = (c.shared.redis v).total := by
    rcases act_stores ha with ⟨hs, -⟩ | ⟨v, o, -, -, rfl, -⟩
    · rw [hs.redis]; exact fun v => ⟨rfl, rfl, rfl⟩
    · intro v'
      by_cases hv : v' = v
      · subst hv
        simp [World.expireData, World.setRedis, VoucherKeys.updateData, VoucherKeys.total,
          VoucherKeys.stockValue, VoucherKeys.reserved]
      · simp [World.expireData, World.setRedis, hv]
  refine ⟨h.traced.step hf, fun m hm => ?_, fun v => (hkeys v).2.1.trans (h.oldEntries v),
    fun v => (hkeys v).2.2.trans (h.redisStock v), fun v => ?_⟩
  · have hold : m ∈ c.shared.accepted := act_accepted ha ▸ hm
    refine (h.kept m hold).imp (fun hr => ?_) fun hclosed => hclosed.step h.traced hold hf
    show (w.redis m.voucherId).reservation.lookup m.userId = _
    rw [(hkeys _).1]
    exact hr
  · show w.db.stockOf v + w.db.ordersOf v = _
    rw [act_db ha]
    exact h.sqlStock v

theorem Accounted.step (h : Accounted w₀ c) (hg : ReleasesClosed c mv)
    (hf : seckillProtocol.Fires c mv c') : Accounted w₀ c' := by
  cases hf with
  | run hi hexec => exact h.call hg hi hexec
  | crash hb =>
    exact ⟨h.traced.crash _, fun m hm => (h.kept m hm).imp id fun hclosed =>
      hclosed.step h.traced hm (.crash hb), h.oldEntries, h.redisStock, h.sqlStock⟩
  | act ha => exact h.act ha

theorem Accounted.opening (h : w.Opening) : Accounted w ⟨w, []⟩ := by
  refine ⟨.opening h, ?_, fun _ => rfl, fun _ => rfl, fun v => ?_⟩
  · rw [h.start]; simp [World.start]
  · simp [Database.ordersOf, h.rows]

/-- Every row is one of an order that is still reserved. -/
theorem Accounted.row_reserved (h : Accounted w₀ c) {r : VoucherOrder}
    (hr : r ∈ c.shared.db.orders.rows) :
    (c.shared.redis r.voucherId).reservation.lookup r.userId = some r.id := by
  rcases h.kept _ (h.traced.world.rows r hr) with hres | ⟨B, -, -, hbarred⟩
  · exact hres
  · exact absurd ⟨r, hr, rfl⟩ hbarred.row

theorem Accounted.rows_le_reserved (h : Accounted w₀ c) (v : Long) :
    c.shared.db.ordersOf v ≤ (c.shared.redis v).reservation.keys.length := by
  have hsub : ((c.shared.db.orders.rows.filter fun r => r.voucherId = v).map VoucherOrder.userId) ⊆
      (c.shared.redis v).reservation.keys := by
    intro u hu
    obtain ⟨r, hr, rfl⟩ := List.mem_map.mp hu
    obtain ⟨hrow, hv⟩ := List.mem_filter.mp hr
    obtain rfl : r.voucherId = v := of_decide_eq_true hv
    exact AList.mem_keys.mp (AList.lookup_isSome.mp (by rw [h.row_reserved hrow]; rfl))
  have hnodup :
      ((c.shared.db.orders.rows.filter fun r => r.voucherId = v).map VoucherOrder.userId).Nodup := by
    refine List.pairwise_map.mpr (List.pairwise_filter.mpr ?_)
    refine c.shared.db.orders.unique.imp fun hne hr hr' hu => hne (.inr ⟨hu, ?_⟩)
    exact (of_decide_eq_true hr).trans (of_decide_eq_true hr').symm
  have hle := (List.subperm_of_subset hnodup hsub).length_le
  rwa [List.length_map, ← List.countP_eq_length_filter] at hle

end Run

def World.RowsReserved (w : World) : Prop :=
  (∀ r ∈ w.db.orders.rows, (w.redis r.voucherId).reservation.lookup r.userId = some r.id) ∧
    ∀ v, (w.redis v).stockValue ≤ w.db.stockOf v

def World.EqualStocks (w : World) : Prop := ∀ v, (w.redis v).stockValue = w.db.stockOf v

/-- No persisted order is released, in a run that releases closed orders only. -/
theorem no_persisted_released {w : World} {c : ProtocolConfig} (hw : w.Opening)
    (hequal : w.EqualStocks) (hrun : ProtocolRun ReleasesClosed ⟨w, []⟩ c) :
    c.shared.RowsReserved := by
  have h : Accounted w c := hrun.invariant (.opening hw) fun _ _ _ hd hg hf => hd.step hg hf
  refine ⟨fun r hr => h.row_reserved hr, fun v => ?_⟩
  have hredis := h.redisStock v
  have hsql := h.sqlStock v
  have hle := h.rows_le_reserved v
  have hopen : (w.redis v).reserved = 0 := by simp [VoucherKeys.reserved, hw.reservation v]
  simp only [VoucherKeys.total, h.oldEntries v, hopen, hequal v] at hredis
  simp only [VoucherKeys.reserved] at hredis
  omega

def equalStocks : World := .start (fun v => openedVoucher (twoLeft.stockOf v)) twoLeft

theorem equalStocks_opening : equalStocks.Opening :=
  ⟨rfl, rfl, fun _ => rfl, fun _ => rfl, fun _ _ => rfl⟩

def FailedConsumersAllowed (c : ProtocolConfig) : Prop :=
  ∀ t ∈ c.threads, ∀ m', t.tag = .failedConsumer m' → ∀ B m, t.program.Calls (Barrier.allows B m)

theorem FailedConsumersAllowed.step {c c' : ProtocolConfig} {mv : Move Choice ProtocolAction}
    (h : FailedConsumersAllowed c) (hf : seckillProtocol.Fires c mv c') :
    FailedConsumersAllowed c' := by
  intro t ht m' htag B m
  cases hf with
  | @run i f tag cmd k r s hi hexec =>
    rcases Machine.mem_set_thread ht with rfl | ⟨j, -, hj⟩
    · exact (h _ (List.mem_of_getElem? hi) m' htag B m).2 r
    · exact h t (List.mem_of_getElem? hj) m' htag B m
  | crash => exact h t (List.mem_of_mem_eraseIdx ht) m' htag B m
  | act ha =>
    rcases List.mem_append.mp ht with ht | ht
    · exact h t ht m' htag B m
    · cases act_starts ha t ht with
      | @failed _ copy _ =>
        have hcalls : ConsumerCalls (B.allows m) copy.message := Barrier.consumers_allowed
        exact hcalls.manualContainer _ (hcalls.listenFailedOrderRetrying _)
      | _ => cases htag

/-- The failed consumer restores an order that has no row, all other handlers have ended, and the
broker holds nothing but deliveries of the failed queue. -/
def restoresAlone (c : ProtocolConfig) : Move Choice ProtocolAction → Bool
  | .run i _ => match c.threads[i]? with
    | some ⟨.failedConsumer _, .call (.redis _ (.restore _ o)) _⟩ =>
      decide (¬ c.shared.db.Persisted o) && (c.threads.eraseIdx i).all (fun t => t.program.ended) &&
        (c.shared.queues .order).isEmpty && (c.shared.queues .retry).isEmpty &&
        c.shared.unacked.all (fun d => d.queue.side = .failed) &&
        c.shared.unconfirmed.isEmpty && c.shared.unreturned.isEmpty
    | some ⟨_, .call (.redis _ (.restore _ _)) _⟩ => false
    | _ => true
  | _ => true

theorem releasesClosed_of_restoresAlone {c : ProtocolConfig} {mv : Move Choice ProtocolAction}
    (hc : FailedConsumersAllowed c) (h : restoresAlone c mv = true) : ReleasesClosed c mv := by
  cases mv with
  | run i f =>
    rintro tag cmd k m hi ⟨rfl, -⟩
    cases tag with
    | failedConsumer m' =>
      simp only [restoresAlone, hi, Bool.and_eq_true, decide_eq_true_eq, List.isEmpty_iff] at h
      obtain ⟨⟨⟨⟨⟨⟨hrow, hended⟩, horder⟩, hretry⟩, hunacked⟩, hunconfirmed⟩, hunreturned⟩ := h
      refine ⟨.unlisted, .inl rfl, ⟨?_, ?_, ?_⟩, hrow, ?_, fun j t hji hj => ?_, fun r => ?_⟩
      · simp [World.unlist, World.setRedis]
      · simp [World.unlist, World.setRedis, hunconfirmed]
      · simp [World.unlist, World.setRedis, hunreturned]
      · rintro (⟨q, hq, copy, hcopy, -⟩ | ⟨d, hd, hq, -⟩)
        · cases q with
          | order => simp [horder] at hcopy
          | retry => simp [hretry] at hcopy
          | failed | parking => cases hq
        · rw [of_decide_eq_true (List.all_eq_true.mp hunacked d hd)] at hq
          cases hq
      · obtain ⟨r, hr⟩ := Machine.exists_done_of_others hended hji hj
        rw [hr]
        trivial
      · have hcalls := hc _ (List.mem_of_getElem? hi) m' rfl .unlisted m
        exact Barrier.safe_of_allowed (hcalls.2 r)
    | _ => simp [restoresAlone, hi] at h
  | _ => trivial

def publishes : List (Move Choice ProtocolAction) :=
  [.act (.request 7 1), .run 0 (.drawn 100)] ++ performs 0 3

/-- MySQL fails under the consumer, handler `i`, and the message comes back through the retry queue. -/
def retried (i : ℕ) : List (Move Choice ProtocolAction) :=
  [.act (.deliver .order 0)] ++ performs i 5 ++ [.run i (.fails ⟨.other, "timeout"⟩)] ++
    performs i 1 ++ [.act (.expireRetry 0)]

/-- The fourth delivery fails too, and the order goes to the failed queue, where it is released;
then user 8 orders. -/
def releasedOnce : Option ProtocolConfig :=
  seckillProtocol.play restoresAlone ⟨equalStocks, []⟩ <|
    publishes ++ [.act (.confirm 0 true none)] ++ performs 1 6 ++ retried 2 ++ retried 3 ++
    retried 4 ++ [.act (.deliver .order 0)] ++ performs 5 5 ++
    [.run 5 (.fails ⟨.other, "timeout"⟩)] ++ performs 5 3 ++ [.act (.deliver .failed 0)] ++
    performs 6 10 ++ [.act (.request 8 1), .run 7 (.drawn 101)] ++ performs 7 3 ++
    [.act (.deliver .order 0)] ++ performs 8 6

theorem releasedOnce_rows : releasedOnce.map (fun c => decide (
    c.shared.db.orders.rows = [⟨101, 8, 1⟩] ∧ ⟨100, 7, 1⟩ ∈ c.shared.accepted ∧
      (c.shared.redis 1).reservation.lookup 7 = none)) = some true := by decide +kernel

theorem no_persisted_released_releasedOnce : ∃ c, releasedOnce = some c ∧
    c.shared.db.orders.rows = [⟨101, 8, 1⟩] ∧
    (c.shared.redis 1).reservation.lookup 7 = none ∧ c.shared.RowsReserved := by
  obtain ⟨c, hc, hstate⟩ := Option.map_eq_some_iff.mp releasedOnce_rows
  obtain ⟨hrows, -, hreleased⟩ := of_decide_eq_true hstate
  have hrun := (Machine.run_of_play (fun _ _ h => h) hc).strengthen
    (I := FailedConsumersAllowed) (by rintro t (⟨⟩ : t ∈ [])) (fun _ _ _ h _ => h.step)
    fun _ _ => releasesClosed_of_restoresAlone
  exact ⟨c, hc, hrows, hreleased, no_persisted_released equalStocks_opening (fun _ => rfl) hrun⟩

/-- The fourth delivery fails too. The failed queue stores the copy but its confirm does not come, so
the message is requeued; the failed consumer finds no row and restores; then the consumer inserts. -/
def releasedThenCreated : Option ProtocolConfig :=
  seckillProtocol.play (fun _ _ => true) ⟨equalStocks, []⟩ <|
    publishes ++ retried 1 ++ retried 2 ++ retried 3 ++
    [.act (.deliver .order 0)] ++ performs 4 5 ++ [.run 4 (.fails ⟨.other, "timeout"⟩)] ++
    performs 4 1 ++ [.run 4 (.fails ⟨.amqp, "no confirm"⟩)] ++ performs 4 1 ++
    [.act (.deliver .failed 0)] ++ performs 5 2 ++
    [.act (.deliver .order 0)] ++ performs 6 6

theorem releasedThenCreated_row : releasedThenCreated.map (fun c => decide (
    ⟨100, 7, 1⟩ ∈ c.shared.db.orders.rows ∧ (c.shared.redis 1).reservation.lookup 7 = none ∧
      c.shared.db.stockOf 1 < (c.shared.redis 1).stockValue)) = some true := by decide +kernel

theorem noPersistedReleased_fails : ¬ ∀ w c, World.Opening w → w.EqualStocks →
    ProtocolRun (fun _ _ => True) ⟨w, []⟩ c → c.shared.RowsReserved := by
  intro h
  obtain ⟨c, hc, hstate⟩ := Option.map_eq_some_iff.mp releasedThenCreated_row
  obtain ⟨hrow, hres, -⟩ := of_decide_eq_true hstate
  have hkept := (h equalStocks c equalStocks_opening (fun _ => rfl)
    (Machine.run_of_play (fun _ _ _ => trivial) hc)).1 _ hrow
  rw [hres] at hkept
  cases hkept

end HmDianPing.Seckill
