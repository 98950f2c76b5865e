import HmDianPing.Seckill.Barrier

/-! # The status query and the order table

The query reads the data hash and only asks MySQL when there is none. It is right
as long as the hash of an order with a row keeps its owner and never shows
`FAILED`; both can be lost to a late write, so such a write must find the order closed.
-/
namespace HmDianPing.Seckill
open Interleaving Program

/-- A handler that counts an order as persisted has seen its row. -/
def rowOf (w : World) (_ : HandlerTag) : Fact → Prop
  | .persisted o => w.db.Persisted o
  | _ => True

/-- The command, on these keys, makes the query answer `FAILED` or `NOT_FOUND`. -/
def Barrier.RaisedBy (B : Barrier) (k : VoucherKeys) (o : Long) (c : RedisCmd) : Prop :=
  match B with
  | .failed => c = .hset o .status (.status .failed)
  | .ownerless => (k.pendingData o).hash.entries = [] ∧ ∃ field, field ≠ .userId ∧ c.Writes o field
  | _ => False

/-- An insert meets no row of another order of the same user and voucher; and a hash gets the status
`FAILED`, or is made anew without its owner, only when its order has no row and can get none. -/
def KeepsStatus (c : ProtocolConfig) : Move Choice ProtocolAction → Prop
  | .run i f => ∀ tag cmd k, c.threads[i]? = some ⟨tag, .call cmd k⟩ →
      (∀ order, cmd = .createVouchOrder order →
        ∀ row ∈ c.shared.db.orders.rows, row.userId = order.userId →
          row.voucherId = order.voucherId → row.id = order.id) ∧
      ∀ B : Barrier, ∀ m ∈ c.shared.accepted, ∀ rc, cmd = .redis m.voucherId rc → f.Takes →
        B.RaisedBy (c.shared.redis m.voucherId) m.orderId rc → Seals B c i k m
  | _ => True

/-- The barriers that show in the answer of the query. -/
def Barrier.Visible (B : Barrier) : Prop := B = .failed ∨ B = .ownerless

structure Truthful (c : ProtocolConfig) : Prop where
  traced : Traced rowOf c
  completed : ∀ m ∈ c.shared.accepted,
    (c.shared.redis m.voucherId).hget m.orderId .status = some (.status .orderCreated) →
      c.shared.db.Persisted m.orderId
  barred : ∀ B : Barrier, B.Visible → ∀ m ∈ c.shared.accepted, B.Up c.shared m → Barred B c m

section Keys
variable {k : VoucherKeys} {c : RedisCmd} {now : ℤ} {o : Long}

theorem RedisCmd.run_hash (hc : ∀ field, ¬ c.Writes o field) :
    ((c.run now k).2.pendingData o).hash = (k.pendingData o).hash := by
  have hset : ∀ o' field value, o ≠ o' →
      ((k.hset o' field value).pendingData o).hash = (k.pendingData o).hash := by
    intro o' field value ho
    simp [VoucherKeys.hset, VoucherKeys.updateData, ho]
  cases c with
  | hset o' field value => exact hset _ _ _ fun ho => hc field ⟨ho.symm, rfl⟩
  | hsetnx o' field value =>
    simp only [RedisCmd.run]
    split
    · rfl
    · exact hset _ _ _ fun ho => hc field ⟨ho.symm, rfl⟩
  | hincrBy o' field delta =>
    simp only [RedisCmd.run]
    split
    · exact hset _ _ _ fun ho => hc field ⟨ho.symm, rfl⟩
    · rfl
  | expire o' ttl =>
    by_cases ho : o = o'
    · subst ho
      simp only [RedisCmd.run, VoucherKeys.expire, VoucherKeys.updateData, Function.update_self]
      split <;> rfl
    · simp [RedisCmd.run, VoucherKeys.expire, VoucherKeys.updateData, ho]
  | restore u o' =>
    simp only [RedisCmd.run]
    split
    · next hrun =>
      rcases seckillRestoreLua_cases hrun with ⟨-, -, rfl⟩ | ⟨-, -, -, rfl⟩ | ⟨-, -, -, rfl⟩ <;> rfl
    · rfl
  | _ => rfl

theorem unowned_run {κ : Set Fact} {v : Long} (hj : justified κ (.redis v c))
    (h : (c.run now k).2.hget o .userId = none) :
    ¬ c.Writes o .userId ∧ k.hget o .userId = none := by
  have hc : ¬ c.Writes o .userId := by
    intro hw
    cases c with
    | hset o' field value =>
      obtain ⟨rfl, rfl⟩ := hw
      simp [RedisCmd.run, VoucherKeys.hget_hset] at h
    | hsetnx o' field value => exact hj.1 hw.2
    | hincrBy o' field delta => exact hj.1 hw.2
    | _ => exact hw
  exact ⟨hc, by rwa [RedisCmd.run_hget hc] at h⟩

end Keys

section Calls
variable {w w' : World} {cmd : Cmd} {m : Message} {κ : Set Fact} {B : Barrier}

/-- A visible barrier is up because it was, or because a command has just raised it. -/
theorem StoreEffect.raises (h : StoreEffect w cmd w') (hB : B.Visible) (hm : m.orderId ∈ w.issued)
    (hj : justified κ cmd) (hup : B.Up w' m) : B.Up w m ∨
      ∃ rc, cmd = .redis m.voucherId rc ∧ B.RaisedBy (w.redis m.voucherId) m.orderId rc := by
  rcases hB with rfl | rfl
  · by_cases hw : ∃ rc, cmd = .redis m.voucherId rc ∧ rc.Writes m.orderId .status
    · obtain ⟨rc, rfl, hw⟩ := hw
      cases rc with
      | hset o field value =>
        obtain ⟨rfl, rfl⟩ := hw
        cases h with
        | same hs => exact .inl (by rwa [Barrier.Up, hs.redis] at hup)
        | redis =>
          have hvalue : value = .status .failed := by
            simpa [Barrier.Up, World.setRedis, RedisCmd.run, VoucherKeys.hget_hset] using hup
          exact .inr ⟨_, rfl, by rw [hvalue]; rfl⟩
      | hsetnx o field value => exact absurd hw.2 hj.2
      | hincrBy o field delta => exact absurd hw.2 hj.2
      | _ => exact hw.elim
    · refine .inl ((h.hget hm fun rc hc hw' => hw ⟨rc, hc, hw'⟩).symm.trans hup)
  · cases h with
    | same hs => exact .inl (by rwa [Barrier.Up, hs.redis] at hup)
    | @reserved u v o now stock fresh =>
      refine .inl ?_
      by_cases hv : m.voucherId = v
      · subst hv
        have ho : m.orderId ≠ o := fun ho => fresh (ho ▸ hm)
        simpa [Barrier.Up, World.setRedis, VoucherKeys.hget, VoucherKeys.reserve, ho] using hup
      · simpa [Barrier.Up, World.setRedis, hv] using hup
    | redis v c =>
      by_cases hv : m.voucherId = v
      · subst hv
        simp only [Barrier.Up, World.setRedis, Function.update_self] at hup
        obtain ⟨hnot, howner⟩ := unowned_run hj hup.2
        by_cases hempty : ((w.redis m.voucherId).pendingData m.orderId).hash.entries = []
        · by_cases hw : ∃ field, c.Writes m.orderId field
          · obtain ⟨field, hw⟩ := hw
            exact .inr ⟨c, rfl, hempty, field, fun hf => hnot (hf ▸ hw), hw⟩
          · push Not at hw
            rw [RedisCmd.run_hash hw] at hup
            exact absurd hempty hup.1
        · exact .inl ⟨hempty, howner⟩
      · exact .inl (by simpa [Barrier.Up, World.setRedis, hv] using hup)
    | _ => exact .inl hup

theorem Effect.new_order (he : Effect w cmd w') (hm : m ∈ w'.accepted) (hnew : m ∉ w.accepted) :
    (w'.redis m.voucherId).hget m.orderId .status = some (.status .pending) ∧
      (w'.redis m.voucherId).hget m.orderId .userId = some (.number m.userId) := by
  obtain ⟨now, stock, hkeys⟩ := he.stores.reserved_new hm hnew
  rw [hkeys]
  exact ⟨hget_reserve_status .., hget_reserve_userId ..⟩

theorem StoreEffect.status_created (h : StoreEffect w cmd w') (hm : m.orderId ∈ w.issued)
    (hj : justified κ cmd)
    (hs : (w'.redis m.voucherId).hget m.orderId .status = some (.status .orderCreated)) :
    (w.redis m.voucherId).hget m.orderId .status = some (.status .orderCreated) ∨
      .persisted m.orderId ∈ κ := by
  by_cases hw : ∃ rc, cmd = .redis m.voucherId rc ∧ rc.Writes m.orderId .status
  · obtain ⟨rc, rfl, hw⟩ := hw
    cases rc with
    | hset o field value =>
      obtain ⟨rfl, rfl⟩ := hw
      cases h with
      | same hsame => exact .inl (by rwa [hsame.redis] at hs)
      | redis =>
        refine .inr (hj ?_)
        simpa [World.setRedis, RedisCmd.run, VoucherKeys.hget_hset] using hs
    | hsetnx o field value => exact absurd hw.2 hj.2
    | hincrBy o field delta => exact absurd hw.2 hj.2
    | _ => exact hw.elim
  · exact .inl ((h.hget hm fun rc hc hw' => hw ⟨rc, hc, hw'⟩).symm.trans hs)

end Calls

section Replies
variable {w w' : World} {cmd : Cmd} {f : Choice} {r : Except Exn cmd.Reply} {κ : Set Fact}

theorem rowOf_of_rowFacts {tag : HandlerTag} {o : Long} {x : Fact}
    (h : x = .persisted o → w.db.Persisted o) (hx : x ∈ rowFacts o) : rowOf w tag x := by
  rcases hx with rfl | rfl | rfl | rfl
  · exact h rfl
  all_goals trivial

theorem rowOf_taught (hf : f.Genuine) (hexec : World.exec cmd f w = some (r, w'))
    (hinsert : ∀ order, cmd = .createVouchOrder order → ∀ row ∈ w.db.orders.rows,
      row.userId = order.userId → row.voucherId = order.voucherId → row.id = order.id)
    {tag : HandlerTag} {x : Fact} (hx : x ∈ taught κ cmd r) : rowOf w' tag x := by
  cases taught_cases hx with
  | accepted | issued | listed | status | owner | expired => trivial
  | restored hrow hpersisted => exact rowOf_of_rowFacts (fun h => absurd h hpersisted) hrow
  | found hrow =>
    obtain ⟨hread, rfl⟩ := exec_getById_ok hexec
    exact rowOf_of_rowFacts (fun _ => ⟨_, Database.persisted_of_row hread.symm⟩) hrow
  | created hrow => exact rowOf_of_rowFacts (fun _ => ⟨_, exec_createVouchOrder_row hexec, rfl⟩) hrow
  | @duplicate order e x hkind hfact =>
    obtain ⟨row, hrow, hclash⟩ := exec_createVouchOrder_duplicate hf hkind hexec
    refine rowOf_of_rowFacts (fun _ => ⟨row, World.rows_subset_exec hexec hrow, ?_⟩) hfact
    rcases hclash with hid | ⟨hu, hv⟩
    · exact hid.symm
    · exact hinsert order rfl row hrow hu.symm hv.symm
  | forwarded _ hfact => rcases hfact with rfl | rfl <;> trivial

end Replies

section Run
variable {w : World} {c c' : ProtocolConfig} {mv : Move Choice ProtocolAction}

theorem Truthful.call (h : Truthful c) {i : ℕ} {f : Choice} {tag : HandlerTag} {cmd : Cmd}
    {k : Except Exn cmd.Reply → Handler Unit} {r : Except Exn cmd.Reply}
    (hg : KeepsStatus c (.run i f)) (hi : c.threads[i]? = some ⟨tag, .call cmd k⟩)
    (hexec : seckillProtocol.exec cmd f c.shared = some (r, w)) :
    Truthful ⟨w, c.threads.set i ⟨tag, k r⟩⟩ := by
  obtain ⟨hf, hexec'⟩ := Option.ite_none_right_eq_some.mp hexec
  have he := effect_of_exec hexec'
  have hw := h.traced.world
  have hrows := World.rows_subset_exec hexec'
  obtain ⟨κ, hκ, hj, -⟩ := h.traced.told.thread hi
  obtain ⟨hinsert, hseals⟩ := hg tag cmd k hi
  have hpersisted : ∀ o, c.shared.db.Persisted o → w.db.Persisted o := fun o ⟨row, hr, hid⟩ =>
    ⟨row, hrows hr, hid⟩
  refine ⟨h.traced.run hi hexec (fun tag x hx => ?_) (fun κ' _ _ x hx =>
    rowOf_taught hf hexec' hinsert hx), fun m hm hstatus => ?_, fun B hB m hm hup => ?_⟩
  · cases x with
    | persisted o => exact hpersisted o hx
    | _ => trivial
  · by_cases hold : m ∈ c.shared.accepted
    · rcases he.stores.status_created (hw.issued m hold) hj hstatus with hs | hκ'
      · exact hpersisted _ (h.completed m hold hs)
      · exact hpersisted _ (hκ _ hκ').2
    · have hnew : (w.redis m.voucherId).hget m.orderId .status = _ := (he.new_order hm hold).1
      exact absurd (hnew.symm.trans hstatus) (by simp)
  · by_cases hold : m ∈ c.shared.accepted
    · by_cases hbefore : B.Up c.shared m
      · exact (h.barred B hB m hold hbefore).call h.traced hold hi hexec' hbefore hup
      · rcases he.stores.raises hB (hw.issued m hold) hj hup with hup' | ⟨rc, rfl, hraised⟩
        · exact absurd hup' hbefore
        · rcases exec_redis_cases hexec' with rfl | ⟨htakes, -⟩
          · exact absurd hup hbefore
          · exact (hseals B m hold rc rfl htakes hraised).barred hexec'
    · obtain ⟨hstatus, howner⟩ := he.new_order hm hold
      rcases hB with rfl | rfl
      · exact absurd (hstatus.symm.trans hup) (by simp)
      · exact absurd (howner.symm.trans hup.2) (by simp)

theorem act_data {a : ProtocolAction} {started : List ProtocolThread} {w w' : World}
    (ha : World.act a w = some (w', started)) (v o : Long) :
    ((w'.redis v).pendingData o).hash = ((w.redis v).pendingData o).hash ∨
      ((w'.redis v).pendingData o).hash = ∅ := by
  rcases act_stores ha with ⟨hs, -⟩ | ⟨v', o', -, -, rfl, -⟩
  · rw [hs.redis]; exact .inl rfl
  · by_cases hv : v = v'
    · subst hv
      by_cases ho : o = o'
      · subst ho
        right; simp [World.expireData, World.setRedis, VoucherKeys.updateData, PendingEntry.absent]
      · left; simp [World.expireData, World.setRedis, VoucherKeys.updateData, ho]
    · left; simp [World.expireData, World.setRedis, hv]

theorem act_status {a : ProtocolAction} {started : List ProtocolThread} {w w' : World} {v o : Long}
    (ha : World.act a w = some (w', started)) {x : Value}
    (hx : (w'.redis v).hget o .status = some x) : (w.redis v).hget o .status = some x := by
  rcases act_data ha v o with hsame | hgone
  · rwa [VoucherKeys.hget, hsame] at hx
  · rw [VoucherKeys.hget, hgone] at hx; cases hx

theorem act_visible {a : ProtocolAction} {started : List ProtocolThread} {w w' : World} {m : Message}
    (ha : World.act a w = some (w', started)) {B : Barrier} (hB : B.Visible) (hup : B.Up w' m) :
    B.Up w m := by
  rcases hB with rfl | rfl
  · exact act_status ha hup
  · rcases act_data ha m.voucherId m.orderId with hsame | hgone
    · rwa [Barrier.Up, VoucherKeys.hget, hsame] at hup
    · exact absurd (by rw [hgone]; rfl) hup.1

theorem Truthful.act (h : Truthful c) {a : ProtocolAction} {started : List ProtocolThread}
    (ha : World.act a c.shared = some (w, started)) : Truthful ⟨w, c.threads ++ started⟩ := by
  have hdb := act_db ha
  refine ⟨h.traced.act ha (fun tag x hx => ?_) (fun tag x hx => ?_), fun m hm hs => ?_,
    fun B hB m hm hup => ?_⟩
  · cases x with
    | persisted o => rw [rowOf, hdb]; exact hx
    | _ => trivial
  · cases x with
    | persisted o => exact hx.elim
    | _ => trivial
  · show w.db.Persisted m.orderId
    rw [hdb]
    exact h.completed m (act_accepted ha ▸ hm) (act_status ha hs)
  · have hold : m ∈ c.shared.accepted := act_accepted ha ▸ hm
    have hbefore := act_visible ha hB hup
    exact (h.barred B hB m hold hbefore).act h.traced hold ha hbefore

theorem Truthful.step (h : Truthful c) (hg : KeepsStatus c mv) (hf : seckillProtocol.Fires c mv c') :
    Truthful c' := by
  cases hf with
  | run hi hexec => exact h.call hg hi hexec
  | crash hb =>
    refine ⟨h.traced.crash _, h.completed, fun B hB m hm hup => ?_⟩
    exact (h.barred B hB m hm hup).step h.traced hm (.crash hb) hup hup
  | act ha => exact h.act ha

theorem Truthful.opening (h : w.Opening) : Truthful ⟨w, []⟩ := by
  refine ⟨.opening h, ?_, fun B _ => ?_⟩ <;> (rw [h.start]; simp [World.start])

end Run

/-- Whatever the query answers an accepted order's user agrees with the order table. -/
def World.AnswersTruly (w : World) : Prop :=
  ∀ m ∈ w.accepted, ∀ dto, Answers w m.orderId m.userId m.voucherId dto →
    (dto.status = .completed → ∃ r ∈ w.db.orders.rows, r.id = m.orderId ∧ r.userId = m.userId) ∧
    ((∃ r ∈ w.db.orders.rows, r.id = m.orderId ∧ r.userId = m.userId) →
      dto.status ≠ .failed ∧ dto.status ≠ .notFound)

section Query
variable {c : ProtocolConfig} {m : Message}

theorem Truthful.row_user (h : Truthful c) (hm : m ∈ c.shared.accepted) {r : VoucherOrder}
    (hr : r ∈ c.shared.db.orders.rows) (hid : r.id = m.orderId) : r.userId = m.userId :=
  congrArg Message.userId (h.traced.world.unique _ (h.traced.world.rows r hr) m hm hid)

/-- With a row, a data hash that is there shows its user and not `FAILED`. -/
theorem Truthful.hash_of_row (h : Truthful c) (hm : m ∈ c.shared.accepted)
    (hrow : c.shared.db.Persisted m.orderId)
    (hdata : ((c.shared.redis m.voucherId).pendingData m.orderId).hash.entries ≠ []) :
    belongsToUser (((c.shared.redis m.voucherId).pendingData m.orderId).hash.lookup .userId) m.userId ∧
      (c.shared.redis m.voucherId).hget m.orderId .status ≠ some (.status .failed) := by
  refine ⟨?_, fun hfailed => (h.barred .failed (.inl rfl) m hm hfailed).row hrow⟩
  cases howner : (c.shared.redis m.voucherId).hget m.orderId .userId with
  | none => exact absurd hrow (h.barred .ownerless (.inr rfl) m hm ⟨hdata, howner⟩).row
  | some x =>
    obtain ⟨u, rfl, hacc⟩ := (h.traced.world.keys m.voucherId).owner _ _ howner
    obtain rfl : u = m.userId := congrArg Message.userId (h.traced.world.unique _ hacc m hm rfl)
    exact howner

theorem Truthful.queried (h : Truthful c) (hm : m ∈ c.shared.accepted) :
    ((c.shared.queriedStatus m.orderId m.userId m.voucherId).status = .completed →
      c.shared.db.Persisted m.orderId) ∧
    (c.shared.db.Persisted m.orderId →
      (c.shared.queriedStatus m.orderId m.userId m.voucherId).status ≠ .failed ∧
      (c.shared.queriedStatus m.orderId m.userId m.voucherId).status ≠ .notFound) := by
  unfold World.queriedStatus
  by_cases hdata : ((c.shared.redis m.voucherId).pendingData m.orderId).hash.entries ≠ []
  · simp only [if_pos hdata]
    split
    · next hforeign =>
      refine ⟨nofun, fun hrow => absurd (h.hash_of_row hm hrow hdata).1 hforeign⟩
    · refine ⟨fun hc => h.completed m hm (clientStatus_eq_completed.mp hc), fun hrow => ⟨fun hf => ?_,
        clientStatus_ne_notFound _⟩⟩
      exact (h.hash_of_row hm hrow hdata).2 (clientStatus_eq_failed.mp hf)
  · simp only [if_neg hdata]
    cases hread : c.shared.db.row m.orderId with
    | none => exact ⟨nofun, fun hrow => absurd hrow (Database.row_eq_none.mp hread)⟩
    | some r =>
      obtain ⟨hr, hid⟩ := Database.persisted_of_row hread
      simp only [if_neg (not_not_intro (h.row_user hm hr hid).symm)]
      exact ⟨fun _ => ⟨r, hr, hid⟩, fun _ => ⟨nofun, nofun⟩⟩

end Query

theorem status_truthful {w : World} {c : ProtocolConfig} (hw : w.Opening)
    (hrun : ProtocolRun KeepsStatus ⟨w, []⟩ c) : c.shared.AnswersTruly := by
  have h : Truthful c := hrun.invariant (.opening hw) fun _ _ _ hd hg hf => hd.step hg hf
  intro m hm dto hdto
  obtain rfl := hdto.eq_queriedStatus
  obtain ⟨hcompleted, hrow⟩ := h.queried hm
  refine ⟨fun hc => ?_, fun ⟨r, hr, hid, _⟩ => hrow ⟨r, hr, hid⟩⟩
  obtain ⟨r, hr, hid⟩ := hcompleted hc
  exact ⟨r, hr, hid, h.row_user hm hr hid⟩

/-- Orders are created only in an empty table, and hashes are written only where they are, and with
another status than `FAILED`. -/
def keepsStatus (c : ProtocolConfig) : Move Choice ProtocolAction → Bool
  | .run i _ => match c.threads[i]? with
    | some ⟨_, .call (.createVouchOrder _) _⟩ => c.shared.db.orders.rows.isEmpty
    | some ⟨_, .call (.redis v (.hset o _ value)) _⟩ =>
      decide (value ≠ .status .failed ∧ ((c.shared.redis v).pendingData o).hash.entries ≠ [])
    | some ⟨_, .call (.redis v (.hsetnx o _ _)) _⟩ | some ⟨_, .call (.redis v (.hincrBy o _ _)) _⟩ =>
      decide (((c.shared.redis v).pendingData o).hash.entries ≠ [])
    | _ => true
  | _ => true

theorem keepsStatus_of_check {c : ProtocolConfig} {mv : Move Choice ProtocolAction}
    (h : keepsStatus c mv = true) : KeepsStatus c mv := by
  cases mv with
  | run i f =>
    intro tag cmd k hi
    simp only [keepsStatus, hi] at h
    refine ⟨?_, ?_⟩
    · rintro order rfl row hrow
      rw [List.isEmpty_iff.mp h] at hrow
      cases hrow
    · rintro B m - rc rfl - hraised
      cases B with
      | failed =>
        obtain rfl := hraised
        exact absurd rfl (of_decide_eq_true h).1
      | ownerless =>
        obtain ⟨hempty, field, -, hw⟩ := hraised
        cases rc with
        | hset o f value =>
          obtain ⟨rfl, rfl⟩ := hw
          exact absurd hempty (of_decide_eq_true h).2
        | hsetnx o f value | hincrBy o f value =>
          obtain ⟨rfl, rfl⟩ := hw
          exact absurd hempty (of_decide_eq_true h)
        | _ => exact hw.elim
      | unlisted | exhausted => exact hraised.elim
  | _ => trivial

/-- The order is published, and consumed at the first delivery. -/
def completes : List (Move Choice ProtocolAction) :=
  [.act (.request 7 1), .run 0 (.drawn 100)] ++ performs 0 3 ++
    [.act (.deliver .order 0)] ++ performs 1 17

def consumedOnce : Option ProtocolConfig :=
  seckillProtocol.play keepsStatus ⟨sampleWorld, []⟩ completes

theorem status_truthful_consumedOnce : ∃ c, consumedOnce = some c ∧
    (∃ r ∈ c.shared.db.orders.rows, r.id = 100 ∧ r.userId = 7) ∧
    (c.shared.queriedStatus 100 7 1).status ≠ .failed := by
  have hplay : consumedOnce.map (fun c => decide (sampleMessage ∈ c.shared.accepted ∧
      (c.shared.queriedStatus 100 7 1).status = .completed)) = some true := by decide +kernel
  obtain ⟨c, hc, hstate⟩ := Option.map_eq_some_iff.mp hplay
  obtain ⟨hacc, hcompleted⟩ := of_decide_eq_true hstate
  obtain ⟨hrow, hanswer⟩ := status_truthful sampleWorld_opening
    (Machine.run_of_play (fun _ _ => keepsStatus_of_check) hc) sampleMessage hacc _
    (answers_iff.mpr rfl)
  exact ⟨c, hc, hrow hcompleted, (hanswer (hrow hcompleted)).1⟩

/-- The data hash of the consumed order expires before the broker's confirm arrives; the confirm
handler then makes a new hash with nothing but the status. -/
def confirmedExpired : Option ProtocolConfig :=
  seckillProtocol.play (fun _ _ => true) ⟨sampleWorld, []⟩ <|
    completes ++ [.act (.tick dataTtlMillis (86400, 0)), .act (.expireData 1 100),
      .act (.confirm 0 true none)] ++ performs 2 3

theorem confirmedExpired_notFound : confirmedExpired.map (fun c => decide (
    sampleMessage ∈ c.shared.accepted ∧ ⟨100, 7, 1⟩ ∈ c.shared.db.orders.rows ∧
      (c.shared.queriedStatus 100 7 1).status = .notFound)) = some true := by decide +kernel

theorem statusTruthful_fails : ¬ ∀ w c, World.Opening w →
    ProtocolRun (fun _ _ => True) ⟨w, []⟩ c → c.shared.AnswersTruly := by
  intro h
  obtain ⟨c, hc, hstate⟩ := Option.map_eq_some_iff.mp confirmedExpired_notFound
  obtain ⟨hacc, hrow, hanswer⟩ := of_decide_eq_true hstate
  have htruth := (h sampleWorld c sampleWorld_opening (Machine.run_of_play (fun _ _ _ => trivial) hc)
    sampleMessage hacc _ (answers_iff.mpr rfl)).2
  exact (htruth ⟨_, hrow, rfl, rfl⟩).2 hanswer

end HmDianPing.Seckill
