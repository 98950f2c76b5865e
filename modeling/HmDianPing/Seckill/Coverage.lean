import HmDianPing.Seckill.Provenance

/-! # Every reservation keeps a driver

An accepted order is settled, or a copy of its message is somewhere, or it is
pending with its data hash still there. The republish scan drops a pending order
whose hash is gone, so the last case must not end by expiry.
-/
namespace HmDianPing.Seckill
open Interleaving Program

namespace World

def Settled (w : World) (m : Message) : Prop := w.db.Persisted m.orderId ∨ ¬ w.Reserves m

def Filed (w : World) (m : Message) : Prop := w.Settled m ∨ w.CopyOn .failed m

def Covered (w : World) (m : Message) : Prop := w.Filed m ∨ w.CopyOn .order m

/-- The republish scan can still publish the order. -/
def PendingWithData (w : World) (m : Message) : Prop :=
  m.orderId ∈ (w.redis m.voucherId).pending ∧
    ((w.redis m.voucherId).pendingData m.orderId).hash.entries ≠ []

/-- A copy in the order, retry, failed or parking queue, or an unacknowledged delivery. -/
def HasCopy (w : World) (m : Message) : Prop :=
  (∃ q, ∃ c ∈ w.queues q, c.message = m) ∨ ∃ d ∈ w.unacked, d.copy.message = m

end World

/-- The fact is about an accepted order, of which `P` holds. -/
def AboutOrder (w : World) (P : Message → Prop) (o : Long) : Prop :=
  ∃ m ∈ w.accepted, m.orderId = o ∧ P m

def coverOf (w : World) (tag : HandlerTag) : Fact → Prop
  | .settled o => AboutOrder w w.Settled o
  | .filed o => AboutOrder w w.Filed o
  | .covered o => AboutOrder w w.Covered o
  | .returned o => ∃ p, tag = .confirm p ∧ p.fate = .returned ∧ p.message ∈ w.accepted ∧
      p.message.orderId = o
  | _ => True

/-- A hash expires only when something else covers its order; the insert of a reserved order meets
no row of another order of its user; and a confirm of a returned message reads the status only
once the return has been recorded, or when something else covers the order. -/
def KeepsDriver (c : ProtocolConfig) : Move Choice ProtocolAction → Prop
  | .act (.expireData v o) =>
      ∀ m ∈ c.shared.accepted, m.voucherId = v → m.orderId = o → c.shared.Covered m
  | .run i _ => ∀ tag cmd k, c.threads[i]? = some ⟨tag, .call cmd k⟩ →
      (∀ order, cmd = .createVouchOrder order →
        c.shared.Reserves ⟨order.id, order.userId, order.voucherId⟩ →
        ∀ row ∈ c.shared.db.orders.rows, row.userId = order.userId →
          row.voucherId = order.voucherId → row.id = order.id) ∧
      ∀ p v o, tag = .confirm p → p.fate = .returned → cmd = .redis v (.hget o .status) →
        (c.shared.redis v).hget o .status ∈ afterSending ∨ c.shared.Covered p.message
  | _ => True

/-- Every accepted order is covered or can be published again, and a stored message covers. -/
structure Driven (c : ProtocolConfig) : Prop where
  traced : Traced coverOf c
  driven : ∀ m ∈ c.shared.accepted, c.shared.Covered m ∨ c.shared.PendingWithData m
  stored : ∀ p ∈ c.shared.unconfirmed, p.fate = .stored → c.shared.Covered p.message

section Keys
variable {k : VoucherKeys} {o : Long}

theorem pending_run (c : RedisCmd) (now : ℤ) (h : o ∈ k.pending) : o ∈ (c.run now k).2.pending ∨ c = .zremPending o ∨
    ∃ u, c = .restore u o ∧ (c.run now k).2.reservation.lookup u ≠ some o := by
  cases c with
  | zaddPending o' score => exact .inl ((VoucherKeys.mem_pending_zaddPending _ _ _ _).mpr (.inr h))
  | zremPending o' =>
    by_cases ho : o = o'
    · subst ho; exact .inr (.inl rfl)
    · exact .inl ((VoucherKeys.mem_pending_zremPending _ _ _).mpr ⟨ho, h⟩)
  | restore u o' =>
    simp only [RedisCmd.run]
    split
    · next hrun =>
      by_cases ho : o = o'
      · subst ho
        exact .inr (.inr ⟨u, rfl, seckillRestoreLua_releases hrun⟩)
      · rcases seckillRestoreLua_cases hrun with ⟨-, -, rfl⟩ | ⟨-, -, -, rfl⟩ | ⟨-, -, -, rfl⟩ <;>
          exact .inl ((VoucherKeys.mem_pending_zremPending _ _ _).mpr ⟨ho, h⟩)
    · exact .inl h
  | hsetnx o' field value => simp only [RedisCmd.run]; split <;> exact .inl h
  | hincrBy o' field delta => simp only [RedisCmd.run]; split <;> exact .inl h
  | _ => exact .inl h

theorem entries_ne_nil {data : PendingData} {field : Field} {x : Value}
    (h : data.lookup field = some x) : data.entries ≠ [] := by
  intro he
  rw [AList.lookup, he] at h
  cases h

theorem hset_data (o' : Long) (field : Field) (value : Value)
    (h : (k.pendingData o).hash.entries ≠ []) :
    ((k.hset o' field value).pendingData o).hash.entries ≠ [] := by
  by_cases ho : o = o'
  · subst ho
    have hset : (((k.hset o field value).pendingData o).hash).lookup field = some value := by
      simp [VoucherKeys.hset, VoucherKeys.updateData]
    exact entries_ne_nil hset
  · simpa [VoucherKeys.hset, VoucherKeys.updateData, ho] using h

theorem data_run (c : RedisCmd) (now : ℤ) (h : (k.pendingData o).hash.entries ≠ []) :
    ((c.run now k).2.pendingData o).hash.entries ≠ [] := by
  cases c with
  | hset o' field value => exact hset_data o' field value h
  | hsetnx o' field value => simp only [RedisCmd.run]; split <;> [exact h; exact hset_data _ _ _ h]
  | hincrBy o' field delta => simp only [RedisCmd.run]; split <;> [exact hset_data _ _ _ h; exact h]
  | expire o' ttl =>
    by_cases ho : o = o'
    · subst ho
      simp only [RedisCmd.run, VoucherKeys.expire, VoucherKeys.updateData, Function.update_self]
      split <;> exact h
    · simpa [RedisCmd.run, VoucherKeys.expire, VoucherKeys.updateData, ho] using h
  | restore u o' =>
    simp only [RedisCmd.run]
    split
    · next hrun =>
      rcases seckillRestoreLua_cases hrun with ⟨-, -, rfl⟩ | ⟨-, -, -, rfl⟩ | ⟨-, -, -, rfl⟩ <;>
        exact h
    · exact h
  | _ => exact h

theorem reserve_data (u v o now : Long) (time : ℤ × ℤ) (stock : ℤ) (o' : Long)
    (h : o' = o ∨ (k.pendingData o').hash.entries ≠ []) :
    ((k.reserve u v o now time stock).pendingData o').hash.entries ≠ [] := by
  by_cases ho : o' = o
  · subst ho
    exact entries_ne_nil (hget_reserve_userId u v o' now k time stock)
  · simpa [VoucherKeys.reserve, ho] using h.resolve_left ho

end Keys

section Calls
variable {w w' : World} {c : Cmd} {κ : Set Fact} {m : Message}

theorem StoreEffect.reserves (h : StoreEffect w c w') (hw : Provenance w) (hm : m ∈ w.accepted)
    (hr : w'.Reserves m) : w.Reserves m := by
  cases h with
  | same h => rwa [World.Reserves, h.redis] at hr
  | @reserved u v o now stock fresh =>
    by_cases hv : m.voucherId = v
    · subst hv
      by_cases hu : m.userId = u
      · subst hu
        obtain rfl : o = m.orderId := by
          simpa [World.Reserves, World.setRedis, VoucherKeys.reserve] using hr
        exact absurd (hw.issued m hm) fresh
      · simpa [World.Reserves, World.setRedis, VoucherKeys.reserve, AList.lookup_insert_ne hu]
          using hr
    · simpa [World.Reserves, World.setRedis, hv] using hr
  | redis v c =>
    by_cases hv : m.voucherId = v
    · subst hv
      exact reservation_run (by simpa [World.Reserves, World.setRedis] using hr)
    · simpa [World.Reserves, World.setRedis, hv] using hr
  | _ => exact hr

theorem settled_call (he : Effect w c w') (hw : Provenance w) (hm : m ∈ w.accepted)
    (hrows : w.db.orders.rows ⊆ w'.db.orders.rows) (h : w.Settled m) : w'.Settled m :=
  h.imp (fun ⟨r, hr, hid⟩ => ⟨r, hrows hr, hid⟩) fun hn hr => hn (he.stores.reserves hw hm hr)

/-- A settled delivery was one of a message that is settled, or filed for the order queue. -/
theorem filed_of_drops {tag : HandlerTag} {d : Delivery} (hw : Provenance w)
    (hκ : Told coverOf w tag κ) (hc : justified κ c) (hd : d ∈ w.unacked) (hdrop : Drops d c) :
    (d.queue = .order ∧ w.Filed d.copy.message) ∨ (d.queue = .failed ∧ w.Settled d.copy.message) := by
  have hdel : ∀ q m, Fact.delivery d.tag q m ∈ κ → d.queue = q ∧ d.copy.message = m :=
    fun q m h => (hκ _ h).1.2 d hd rfl
  have hacc : d.copy.message ∈ w.accepted := hw.copies d.queue.side _ (.inr ⟨d, hd, rfl, rfl⟩)
  have habout : ∀ P : Message → Prop, AboutOrder w P d.copy.message.orderId → P d.copy.message := by
    rintro P ⟨m, hm, hid, hP⟩
    rwa [← hw.unique m hm _ hacc hid]
  rcases hdrop with rfl | ⟨hq, rfl | rfl⟩
  · rcases hc with ⟨m, hm, hf⟩ | ⟨m, hm, hs⟩
    · obtain ⟨hq, rfl⟩ := hdel _ _ hm
      exact .inl ⟨hq, habout _ (hκ _ hf).2⟩
    · obtain ⟨hq, rfl⟩ := hdel _ _ hm
      exact .inr ⟨hq, habout _ (hκ _ hs).2⟩
  · obtain ⟨m, hm⟩ := hc.resolve_left (by simp)
    exact absurd (hdel _ _ hm).1 hq
  · obtain ⟨m, hm⟩ := hc.resolve_left (by simp)
    exact absurd (hdel _ _ hm).1 hq

theorem filed_call {tag : HandlerTag} (he : Effect w c w') (hw : Provenance w)
    (hκ : Told coverOf w tag κ) (hc : justified κ c) (hm : m ∈ w.accepted)
    (hrows : w.db.orders.rows ⊆ w'.db.orders.rows) (h : w.Filed m) : w'.Filed m := by
  rcases h with h | h
  · exact .inl (settled_call he hw hm hrows h)
  · rcases he.copyOn hw.tagged h with h | ⟨d, hd, hdrop, hs, rfl⟩
    · exact .inr h
    · rcases filed_of_drops hw hκ hc hd hdrop with ⟨hq, -⟩ | ⟨-, h⟩
      · rw [hq] at hs; cases hs
      · exact .inl (settled_call he hw hm hrows h)

theorem covered_call {tag : HandlerTag} (he : Effect w c w') (hw : Provenance w)
    (hκ : Told coverOf w tag κ) (hc : justified κ c) (hm : m ∈ w.accepted)
    (hrows : w.db.orders.rows ⊆ w'.db.orders.rows) (h : w.Covered m) : w'.Covered m := by
  rcases h with h | h
  · exact .inl (filed_call he hw hκ hc hm hrows h)
  · rcases he.copyOn hw.tagged h with h | ⟨d, hd, hdrop, hs, rfl⟩
    · exact .inr h
    · rcases filed_of_drops hw hκ hc hd hdrop with ⟨-, h⟩ | ⟨hq, -⟩
      · exact .inl (filed_call he hw hκ hc hm hrows h)
      · rw [hq] at hs; cases hs

theorem AboutOrder.imp {P P' : Message → Prop} {o : Long} (h : AboutOrder w P o)
    (hsub : w.accepted ⊆ w'.accepted) (hP : ∀ m ∈ w.accepted, P m → P' m) : AboutOrder w' P' o :=
  let ⟨m, hm, hid, h⟩ := h
  ⟨m, hsub hm, hid, hP m hm h⟩

theorem coverOf_call {tag tag' : HandlerTag} {x : Fact} (he : Effect w c w') (hw : Provenance w)
    (hκ : Told coverOf w tag κ) (hc : justified κ c)
    (hrows : w.db.orders.rows ⊆ w'.db.orders.rows) (hx : coverOf w tag' x) : coverOf w' tag' x := by
  have hsub := he.stores.accepted_subset
  cases x with
  | settled o => exact hx.imp hsub fun m hm => settled_call he hw hm hrows
  | filed o => exact hx.imp hsub fun m hm => filed_call he hw hκ hc hm hrows
  | covered o => exact hx.imp hsub fun m hm => covered_call he hw hκ hc hm hrows
  | returned o => exact hx.imp fun p ⟨ht, hf, hm, ho⟩ => ⟨ht, hf, hsub hm, ho⟩
  | _ => trivial

theorem driven_call {tag : HandlerTag} (he : Effect w c w') (hw : Provenance w)
    (hκ : Told coverOf w tag κ) (hc : justified κ c) (hrows : w.db.orders.rows ⊆ w'.db.orders.rows)
    (h : ∀ m ∈ w.accepted, w.Covered m ∨ w.PendingWithData m) (hm : m ∈ w.accepted) :
    w'.Covered m ∨ w'.PendingWithData m := by
  rcases h m hm with h | ⟨hpending, hdata⟩
  · exact .inl (covered_call he hw hκ hc hm hrows h)
  cases he.stores with
  | same hs => exact .inr (by rw [World.PendingWithData, hs.redis]; exact ⟨hpending, hdata⟩)
  | @reserved u v o now stock =>
    by_cases hv : m.voucherId = v
    · subst hv
      refine .inr ⟨?_, ?_⟩
      · simpa [World.setRedis, VoucherKeys.reserve, AList.mem_insert] using Or.inr hpending
      · simpa [World.setRedis] using reserve_data u _ o now w.redisTime stock _ (.inr hdata)
    · exact .inr (by simpa [World.PendingWithData, World.setRedis, hv] using ⟨hpending, hdata⟩)
  | redis v c =>
    by_cases hv : m.voucherId = v
    · subst hv
      have hdata' := data_run c w.redisNow hdata
      rcases pending_run c w.redisNow hpending with hpending' | rfl | ⟨u, rfl, hres⟩
      · exact .inr (by simpa [World.PendingWithData, World.setRedis] using ⟨hpending', hdata'⟩)
      · obtain ⟨m', hm', hid, hcov⟩ := (hκ _ hc).2
        rw [hw.unique m' hm' m hm hid] at hcov
        exact .inl (covered_call he hw hκ hc hm hrows hcov)
      · have hu := hw.unique ⟨m.orderId, u, m.voucherId⟩ (hκ _ hc).1 m hm rfl
        obtain rfl : u = m.userId := congrArg Message.userId hu
        exact .inl (.inl (.inl (.inr (by simpa [World.Reserves, World.setRedis] using hres))))
    · exact .inr (by simpa [World.PendingWithData, World.setRedis, hv] using ⟨hpending, hdata⟩)
  | _ => exact .inr ⟨hpending, hdata⟩

theorem driven_new (he : Effect w c w') (hm : m ∈ w'.accepted) (hnew : m ∉ w.accepted) :
    w'.PendingWithData m := by
  obtain ⟨now, stock, hkeys⟩ := he.stores.reserved_new hm hnew
  refine ⟨by simp [hkeys, VoucherKeys.reserve], ?_⟩
  rw [hkeys]
  exact reserve_data m.userId m.voucherId m.orderId now w.redisTime stock m.orderId (.inl rfl)

end Calls

section Replies
variable {w w' : World} {c : Cmd} {f : Choice} {r : Except Exn c.Reply} {κ : Set Fact}
  {tag : HandlerTag}

theorem coverOf_rowFacts {o : Long} (h : AboutOrder w w.Settled o) :
    ∀ x ∈ rowFacts o, coverOf w tag x := by
  rintro x (rfl | rfl | rfl | rfl)
  · trivial
  · exact h
  · exact h.imp (List.Subset.refl _) fun _ _ => .inl
  · exact h.imp (List.Subset.refl _) fun _ _ h => .inl (.inl h)

theorem aboutOrder_of_row {row : VoucherOrder} (hw : Provenance w)
    (hrow : row ∈ w.db.orders.rows) : AboutOrder w w.Settled row.id :=
  ⟨_, hw.rows row hrow, rfl, .inl ⟨row, hrow, rfl⟩⟩

/-- What a reply tells about the cover of an order is true after the call. -/
theorem coverOf_taught (hw : Provenance w) (hw' : Provenance w')
    (hdriven : ∀ m ∈ w.accepted, w.Covered m ∨ w.PendingWithData m)
    (hκ : Told coverOf w tag κ) (hc : justified κ c) (hf : f.Genuine)
    (hexec : World.exec c f w = some (r, w'))
    (hinsert : ∀ order, c = .createVouchOrder order →
      w.Reserves ⟨order.id, order.userId, order.voucherId⟩ →
      ∀ row ∈ w.db.orders.rows, row.userId = order.userId → row.voucherId = order.voucherId →
        row.id = order.id)
    (hconfirm : ∀ p v o, tag = .confirm p → p.fate = .returned →
      c = .redis v (.hget o .status) →
        (w.redis v).hget o .status ∈ afterSending ∨ w.Covered p.message)
    {x : Fact} (hx : x ∈ taught κ c r) : coverOf w' tag x := by
  have he := effect_of_exec hexec
  have hrows := World.rows_subset_exec hexec
  have hframe : ∀ x, coverOf w tag x → coverOf w' tag x := fun x =>
    coverOf_call he hw hκ hc hrows
  cases taught_cases hx with
  | accepted | issued | listed | owner => trivial
  | @status v o status hreturned hstatus =>
    obtain ⟨p, rfl, hfate, hacc, rfl⟩ := (hκ _ hreturned).2
    have hread := (exec_redis_ok (fun _ _ => by simp) hexec).1
    simp only [RedisCmd.run, Except.ok.injEq] at hread
    have hcov := (hconfirm p v _ rfl hfate rfl).resolve_left (hread ▸ hstatus)
    exact hframe _ ⟨p.message, hacc, rfl, hcov⟩
  | expired hempty hknown =>
    obtain ⟨rfl, -⟩ := exec_hgetall_ok hexec
    obtain ⟨u, hacc⟩ := (hκ _ hknown).1
    have hcov := (hdriven _ hacc).resolve_right fun h => h.2 hempty
    exact hframe _ ⟨_, hacc, rfl, hcov⟩
  | @restored v u o n x hrow =>
    have hacc : ⟨o, u, v⟩ ∈ w.accepted := (hκ _ hc).1
    obtain ⟨k, hrun, rfl⟩ := exec_restore_ok hexec
    refine coverOf_rowFacts ⟨⟨o, u, v⟩, he.stores.accepted_subset hacc, rfl, .inr ?_⟩ x hrow
    simpa [World.Reserves, World.setRedis] using seckillRestoreLua_releases hrun
  | found hrow =>
    obtain ⟨hread, rfl⟩ := exec_getById_ok hexec
    obtain ⟨hmem, rfl⟩ := Database.persisted_of_row hread.symm
    exact coverOf_rowFacts (aboutOrder_of_row hw hmem) x hrow
  | created hrow => exact coverOf_rowFacts (aboutOrder_of_row hw' (exec_createVouchOrder_row hexec)) x hrow
  | @duplicate order e x hkind hfact =>
    obtain ⟨row, hrow, hclash⟩ := exec_createVouchOrder_duplicate hf hkind hexec
    have hacc : ⟨order.id, order.userId, order.voucherId⟩ ∈ w.accepted := (hκ _ hc).1
    refine hframe x (coverOf_rowFacts ?_ x hfact)
    by_cases hres : w.Reserves ⟨order.id, order.userId, order.voucherId⟩
    · have hid : row.id = order.id := by
        rcases hclash with hid | ⟨hu, hv⟩
        · exact hid.symm
        · exact hinsert order rfl hres row hrow hu.symm hv.symm
      exact ⟨_, hacc, rfl, .inl ⟨row, hrow, hid⟩⟩
    · exact ⟨_, hacc, rfl, .inr hres⟩
  | @forwarded m correlation x hfate hfact =>
    have hacc : m ∈ w'.accepted := he.stores.accepted_subset (hκ _ hc).1
    have hcopy : w'.CopyOn .failed m := by
      rw [exec_sendFailed_ok hexec, World.forward, if_pos hfate]
      exact (World.copyOn_enqueue _ _).mpr (.inl ⟨rfl, rfl⟩)
    rcases hfact with rfl | rfl
    · exact ⟨m, hacc, rfl, .inr hcopy⟩
    · exact ⟨m, hacc, rfl, .inl (.inr hcopy)⟩

end Replies

section Acts
variable {w w' : World} {a : ProtocolAction} {started : List ProtocolThread} {m : Message}

theorem act_settled (ha : World.act a w = some (w', started)) (h : w.Settled m) : w'.Settled m := by
  rcases act_stores ha with ⟨hs, -⟩ | ⟨v, o, -, -, rfl, -⟩
  · rwa [World.Settled, World.Reserves, hs.db, hs.redis]
  · refine h.imp id fun hn hr => hn ?_
    by_cases hv : m.voucherId = v
    · subst hv
      simpa [World.Reserves, World.expireData, World.setRedis, VoucherKeys.updateData] using hr
    · simpa [World.Reserves, World.expireData, World.setRedis, hv] using hr

theorem act_filed (ha : World.act a w = some (w', started)) (ht : w.Tagged) (h : w.Filed m) :
    w'.Filed m :=
  h.imp (act_settled ha) (act_copyOn ha ht).mpr

theorem act_covered (ha : World.act a w = some (w', started)) (ht : w.Tagged) (h : w.Covered m) :
    w'.Covered m :=
  h.imp (act_filed ha ht) (act_copyOn ha ht).mpr

theorem coverOf_act {tag : HandlerTag} {x : Fact} (ha : World.act a w = some (w', started))
    (ht : w.Tagged) (hx : coverOf w tag x) : coverOf w' tag x := by
  have hsub : w.accepted ⊆ w'.accepted := (act_accepted ha).symm ▸ List.Subset.refl _
  cases x with
  | settled o => exact hx.imp hsub fun _ _ => act_settled ha
  | filed o => exact hx.imp hsub fun _ _ => act_filed ha ht
  | covered o => exact hx.imp hsub fun _ _ => act_covered ha ht
  | returned o => exact hx.imp fun p ⟨ht, hf, hm, ho⟩ => ⟨ht, hf, hsub hm, ho⟩
  | _ => trivial

theorem act_pendingWithData (ha : World.act a w = some (w', started))
    (hexpire : ∀ v o, a = .expireData v o → m.voucherId = v → m.orderId ≠ o)
    (h : w.PendingWithData m) : w'.PendingWithData m := by
  rcases act_stores ha with ⟨hs, -⟩ | ⟨v, o, rfl, -, rfl, -⟩
  · rwa [World.PendingWithData, hs.redis]
  · by_cases hv : m.voucherId = v
    · subst hv
      simpa [World.PendingWithData, World.expireData, World.setRedis, VoucherKeys.updateData,
        hexpire _ o rfl rfl] using h
    · simpa [World.PendingWithData, World.expireData, World.setRedis, hv] using h

end Acts

section Run
variable {c c' : ProtocolConfig} {mv : Move Choice ProtocolAction}

theorem Driven.call (h : Driven c) {i : ℕ} {f : Choice} {tag : HandlerTag} {cmd : Cmd}
    {k : Except Exn cmd.Reply → Handler Unit} {r : Except Exn cmd.Reply} {w : World}
    (hg : KeepsDriver c (.run i f)) (hi : c.threads[i]? = some ⟨tag, .call cmd k⟩)
    (hexec : seckillProtocol.exec cmd f c.shared = some (r, w)) :
    Driven ⟨w, c.threads.set i ⟨tag, k r⟩⟩ := by
  obtain ⟨hf, hexec'⟩ := Option.ite_none_right_eq_some.mp hexec
  have he := effect_of_exec hexec'
  have hw := h.traced.world
  have hrows := World.rows_subset_exec hexec'
  obtain ⟨κ, hκ, hc, -⟩ := h.traced.told.thread hi
  obtain ⟨hinsert, hconfirm⟩ := hg tag cmd k hi
  have hw' : Provenance w := hw.call hc hκ.origin he
  refine ⟨h.traced.run hi hexec (fun _ _ => coverOf_call he hw hκ hc hrows) ?_, ?_, ?_⟩
  · intro κ' hκ' hc' x hx
    exact coverOf_taught hw hw' h.driven hκ' hc' hf hexec' hinsert hconfirm hx
  · intro m hm
    by_cases hold : m ∈ c.shared.accepted
    · exact driven_call he hw hκ hc hrows h.driven hold
    · exact .inr (driven_new he hm hold)
  · intro p hp hstored
    rcases he.callbacks.1 p hp with hp | ⟨-, rfl⟩
    · exact covered_call he hw hκ hc (hw.unconfirmed p hp) hrows (h.stored p hp hstored)
    · right
      show (c.shared.publish p.message p.fate).CopyOn .order p.message
      rw [hstored]
      exact (World.copyOn_enqueue _ _).mpr (.inl ⟨rfl, rfl⟩)

theorem Driven.act (h : Driven c) {a : ProtocolAction} {w : World} {started : List ProtocolThread}
    (hg : KeepsDriver c (.act a)) (ha : World.act a c.shared = some (w, started)) :
    Driven ⟨w, c.threads ++ started⟩ := by
  have hw := h.traced.world
  have hcov : ∀ m, c.shared.Covered m → w.Covered m := fun m => act_covered ha hw.tagged
  refine ⟨h.traced.act ha (fun _ _ => coverOf_act ha hw.tagged) ?_, ?_, ?_⟩
  · intro tag x hx
    have hsub : c.shared.accepted ⊆ w.accepted := (act_accepted ha).symm ▸ List.Subset.refl _
    cases x with
    | covered o =>
      obtain ⟨p, -, hp, hstored, rfl⟩ := hx
      exact ⟨p.message, hsub (hw.unconfirmed p hp), rfl, hcov _ (h.stored p hp hstored)⟩
    | returned o =>
      obtain ⟨p, ht, hp, hf, ho⟩ := hx
      exact ⟨p, ht, hf, hsub (hw.unconfirmed p hp), ho⟩
    | settled o | filed o => exact hx.elim
    | _ => trivial
  · intro m hm
    rw [act_accepted ha] at hm
    rcases h.driven m hm with h | hpending
    · exact .inl (hcov m h)
    · by_cases he : ∃ v o, a = .expireData v o ∧ m.voucherId = v ∧ m.orderId = o
      · obtain ⟨v, o, rfl, hv, ho⟩ := he
        exact .inl (hcov m (hg m hm hv ho))
      · exact .inr (act_pendingWithData ha (fun v o ha hv ho => he ⟨v, o, ha, hv, ho⟩) hpending)
  · intro p hp hstored
    rcases act_stores ha with ⟨-, hsub, -⟩ | ⟨v, o, -, -, rfl, -⟩
    · exact hcov _ (h.stored p (hsub hp) hstored)
    · exact hcov _ (h.stored p hp hstored)

theorem Driven.step (h : Driven c) (hg : KeepsDriver c mv) (hf : seckillProtocol.Fires c mv c') :
    Driven c' := by
  cases hf with
  | run hi hexec => exact h.call hg hi hexec
  | crash hb => exact ⟨h.traced.crash _, h.driven, h.stored⟩
  | act ha => exact h.act hg ha

theorem Driven.opening {w : World} (h : w.Opening) : Driven ⟨w, []⟩ := by
  refine ⟨.opening h, ?_, ?_⟩ <;> (rw [h.start]; simp [World.start])

end Run

/-- What can still settle an order whose reservation stands and which has no row; `handled` is what
counts as a running handler of the order. -/
def NoOrphanReservation (handled : ProtocolConfig → Message → Prop)
    (guard : ProtocolConfig → Move Choice ProtocolAction → Prop) : Prop :=
  ∀ w c, w.Opening → ProtocolRun guard ⟨w, []⟩ c → ∀ v u o,
    (c.shared.redis v).reservation.lookup u = some o → ¬ c.shared.db.Persisted o →
    o ∈ (c.shared.redis v).pending ∨ c.shared.HasCopy ⟨o, u, v⟩ ∨ handled c ⟨o, u, v⟩

theorem World.CopyOn.hasCopy {w : World} {s : Side} {m : Message} (h : w.CopyOn s m) : w.HasCopy m :=
  h.imp (fun ⟨q, _, hq⟩ => ⟨q, hq⟩) fun ⟨d, hd, _, hm⟩ => ⟨d, hd, hm⟩

/-- Whatever counts as a running handler, none is needed. -/
theorem no_orphan_reservation (handled : ProtocolConfig → Message → Prop) :
    NoOrphanReservation handled KeepsDriver := by
  intro w c hw hrun v u o hres hrow
  have h : Driven c := hrun.invariant (.opening hw) fun _ _ _ hd hg hf => hd.step hg hf
  have hacc := (h.traced.world.keys v).reserved u o hres
  rcases h.driven ⟨o, u, v⟩ hacc with ((hsettled | hcopy) | hcopy) | hpending
  · exact absurd (hsettled.resolve_left hrow) (not_not_intro hres)
  · exact .inr (.inl hcopy.hasCopy)
  · exact .inr (.inl hcopy.hasCopy)
  · exact .inl hpending.1

/-- No hash expires, no confirm reads a status, and orders are created only in an empty table. -/
def keepsDriver (c : ProtocolConfig) : Move Choice ProtocolAction → Bool
  | .act (.expireData _ _) => false
  | .run i _ => match c.threads[i]? with
    | some ⟨_, .call (.createVouchOrder _) _⟩ => c.shared.db.orders.rows.isEmpty
    | some ⟨.confirm _, .call (.redis _ (.hget _ .status)) _⟩ => false
    | _ => true
  | _ => true

theorem keepsDriver_of_check {c : ProtocolConfig} {mv : Move Choice ProtocolAction}
    (h : keepsDriver c mv = true) : KeepsDriver c mv := by
  cases mv with
  | run i f =>
    intro tag cmd k hi
    simp only [keepsDriver, hi] at h
    refine ⟨?_, ?_⟩
    · rintro order rfl - row hrow
      rw [List.isEmpty_iff.mp h] at hrow
      cases hrow
    · rintro p v o rfl - rfl
      cases h
  | crash i => trivial
  | act a =>
    cases a with
    | expireData v o => cases h
    | _ => trivial

/-- The order is accepted and published; its first delivery fails in MySQL and is rejected. -/
def rejectedOnce : Option ProtocolConfig :=
  seckillProtocol.play keepsDriver ⟨sampleWorld, []⟩ <|
    [.act (.request 7 1), .run 0 (.drawn 100)] ++ performs 0 3 ++
    [.act (.deliver .order 0)] ++ performs 1 5 ++ [.run 1 (.fails ⟨.other, "timeout"⟩)] ++
    performs 1 1

theorem no_orphan_reservation_rejectedOnce : ∃ c, rejectedOnce = some c ∧
    (100 ∈ (c.shared.redis 1).pending ∨ c.shared.HasCopy sampleMessage ∨ False) := by
  have hplay : rejectedOnce.map (fun c => decide ((c.shared.redis 1).reservation.lookup 7 = some 100 ∧
      ¬ c.shared.db.Persisted 100)) = some true := by decide +kernel
  obtain ⟨c, hc, hstate⟩ := Option.map_eq_some_iff.mp hplay
  obtain ⟨hres, hrow⟩ := of_decide_eq_true hstate
  exact ⟨c, hc, no_orphan_reservation (fun _ _ => False) sampleWorld c sampleWorld_opening
    (Machine.run_of_play (fun _ _ => keepsDriver_of_check) hc) 1 7 100 hres hrow⟩

/-- The request handler is lost before it publishes, the data hash expires, and the scan drops the
order. -/
def droppedByScan : Option ProtocolConfig :=
  seckillProtocol.play (fun _ _ => true) ⟨sampleWorld, []⟩ <|
    [.act (.request 7 1), .run 0 (.drawn 100)] ++ performs 0 2 ++
    [.crash 0, .act (.tick dataTtlMillis (86400, 0)), .act (.expireData 1 100), .act .republish] ++
    performs 0 12

/-- Nothing is left of the order but its reservation. -/
def orphaned (c : ProtocolConfig) : Bool :=
  decide ((c.shared.redis 1).reservation.lookup 7 = some 100 ∧ ¬ c.shared.db.Persisted 100 ∧
    100 ∉ (c.shared.redis 1).pending ∧ (∀ q ∈ [QueueName.order, .retry, .failed, .parking],
      c.shared.queues q = []) ∧ c.shared.unacked = [] ∧ ∀ t ∈ c.threads, t.program.ended = true)

theorem droppedByScan_orphaned : droppedByScan.map orphaned = some true := by decide +kernel

/-- Even any unfinished handler counted, the order is lost. -/
theorem noOrphanReservation_fails : ¬ NoOrphanReservation
    (fun c _ => ∃ t ∈ c.threads, t.program.ended = false) fun _ _ => True := by
  intro h
  obtain ⟨c, hc, horphaned⟩ := Option.map_eq_some_iff.mp droppedByScan_orphaned
  obtain ⟨hres, hrow, hpending, hqueues, hunacked, hended⟩ := of_decide_eq_true horphaned
  rcases h sampleWorld c sampleWorld_opening (Machine.run_of_play (fun _ _ _ => trivial) hc)
    1 7 100 hres hrow with hp | (⟨q, copy, hcopy, -⟩ | ⟨d, hd, -⟩) | ⟨t, ht, hrun⟩
  · exact hpending hp
  · rw [hqueues q (by cases q <;> simp)] at hcopy
    cases hcopy
  · rw [hunacked] at hd
    cases hd
  · rw [hended t ht] at hrun
    cases hrun

end HmDianPing.Seckill
