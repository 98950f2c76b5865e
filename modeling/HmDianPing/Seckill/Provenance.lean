import HmDianPing.Seckill.Evidence

/-! # Where orders come from

Every reservation, pending member, owner field, message and row belongs to an
order that `seckill.lua` has accepted for that user and voucher. This holds in
every run, and what the handlers have been told about it stays true.
-/
namespace HmDianPing.Seckill
open Interleaving Program

/-- The keys of one voucher name accepted orders only, and no accepted user is an old buyer. -/
structure KeysTraced (accepted : List Message) (v : Long) (k : VoucherKeys) : Prop where
  pending : ∀ o ∈ k.pending, ∃ u, ⟨o, u, v⟩ ∈ accepted
  owner : ∀ o x, k.hget o .userId = some x → ∃ u, x = .number u ∧ ⟨o, u, v⟩ ∈ accepted
  reserved : ∀ u o, k.reservation.lookup u = some o → ⟨o, u, v⟩ ∈ accepted
  legacy : ∀ m ∈ accepted, m.voucherId = v → m.userId ∉ k.legacyOrder

structure Provenance (w : World) : Prop where
  tagged : w.Tagged
  issued : ∀ m ∈ w.accepted, m.orderId ∈ w.issued
  unique : ∀ m ∈ w.accepted, ∀ m' ∈ w.accepted, m.orderId = m'.orderId → m = m'
  copies : ∀ s m, w.CopyOn s m → m ∈ w.accepted
  unconfirmed : ∀ p ∈ w.unconfirmed, p.message ∈ w.accepted
  unreturned : ∀ m ∈ w.unreturned, m ∈ w.accepted
  keys : ∀ v, KeysTraced w.accepted v (w.redis v)
  rows : ∀ r ∈ w.db.orders.rows, ⟨r.id, r.userId, r.voucherId⟩ ∈ w.accepted

/-- What the facts about accepted orders and deliveries mean. -/
def originOf (w : World) : Fact → Prop
  | .accepted m => m ∈ w.accepted
  | .known v o => ∃ u, ⟨o, u, v⟩ ∈ w.accepted
  | .delivery tag q m => tag < w.nextTag ∧
      ∀ d ∈ w.unacked, d.tag = tag → d.queue = q ∧ d.copy.message = m
  | _ => True

section Keys
variable {accepted : List Message} {v : Long} {k : VoucherKeys} {κ : Set Fact}

theorem KeysTraced.cons {m : Message} (h : KeysTraced accepted v k)
    (hm : m.voucherId = v → m.userId ∉ k.legacyOrder) : KeysTraced (m :: accepted) v k where
  pending o ho := (h.pending o ho).imp fun _ => List.mem_cons_of_mem m
  owner o x hx := (h.owner o x hx).imp fun _ => And.imp_right (List.mem_cons_of_mem m)
  reserved u o ho := List.mem_cons_of_mem m (h.reserved u o ho)
  legacy m' hm' := by
    rcases List.mem_cons.mp hm' with rfl | hm'
    · exact hm
    · exact h.legacy m' hm'

theorem KeysTraced.reserve (h : KeysTraced accepted v k) {u o now : Long} (time : ℤ × ℤ) (stock : ℤ)
    (hleg : u ∉ k.legacyOrder) :
    KeysTraced (⟨o, u, v⟩ :: accepted) v (k.reserve u v o now time stock) := by
  have h' : KeysTraced (⟨o, u, v⟩ :: accepted) v k := h.cons fun _ => hleg
  refine ⟨fun o' ho' => ?_, fun o' x hx => ?_, fun u' o' ho' => ?_, h'.legacy⟩
  · rcases (AList.mem_insert _).mp ho' with rfl | ho'
    · exact ⟨u, List.mem_cons_self⟩
    · exact h'.pending o' ho'
  · by_cases ho : o' = o
    · subst ho
      rw [hget_reserve_userId] at hx
      exact ⟨u, (Option.some.inj hx).symm, List.mem_cons_self⟩
    · rw [hget_reserve_ne _ _ _ _ _ _ _ ho] at hx
      exact h'.owner o' x hx
  · by_cases hu : u' = u
    · subst hu
      obtain rfl : o = o' := by simpa [VoucherKeys.reserve] using ho'
      exact List.mem_cons_self
    · exact h'.reserved u' o' (by simpa [VoucherKeys.reserve, AList.lookup_insert_ne hu] using ho')

theorem reservation_run {c : RedisCmd} {now : ℤ} {u o : Long}
    (h : (c.run now k).2.reservation.lookup u = some o) : k.reservation.lookup u = some o := by
  by_cases hc : ∃ u' o', c = .restore u' o'
  · obtain ⟨u', o', rfl⟩ := hc
    simp only [RedisCmd.run] at h
    split at h
    · next hrun =>
      rcases seckillRestoreLua_cases hrun with ⟨-, -, rfl⟩ | ⟨-, -, -, rfl⟩ | ⟨-, -, -, rfl⟩
      · by_cases hu : u = u'
        · subst hu
          simp [VoucherKeys.zremPending] at h
        · simpa [VoucherKeys.zremPending, AList.lookup_erase_ne hu] using h
      · exact h
      · exact h
    · exact h
  · push Not at hc
    rwa [← (RedisCmd.run_ledger hc now k).2.1]

theorem legacyOrder_run {c : RedisCmd} {now : ℤ} : (c.run now k).2.legacyOrder ⊆ k.legacyOrder := by
  by_cases hc : ∃ u' o', c = .restore u' o'
  · obtain ⟨u', o', rfl⟩ := hc
    simp only [RedisCmd.run]
    split
    · next hrun =>
      rcases seckillRestoreLua_cases hrun with ⟨-, -, rfl⟩ | ⟨-, -, -, rfl⟩ | ⟨-, -, -, rfl⟩
      · exact Finset.Subset.refl _
      · exact Finset.erase_subset _ _
      · exact Finset.Subset.refl _
    · exact Finset.Subset.refl _
  · push Not at hc
    rw [(RedisCmd.run_ledger hc now k).2.2]

theorem KeysTraced.run {w : World} {c : RedisCmd} {now : ℤ} (h : KeysTraced w.accepted v k)
    (hc : justified κ (.redis v c)) (hκ : ∀ x ∈ κ, originOf w x) :
    KeysTraced w.accepted v (c.run now k).2 where
  pending o ho := by
    rcases RedisCmd.run_pending ho with ho | ⟨score, rfl⟩
    · exact h.pending o ho
    · exact hκ _ hc
  owner o x hx := by
    by_cases hw : c.Writes o .userId
    · cases c with
      | hset o' field value =>
        obtain ⟨rfl, rfl⟩ := hw
        obtain ⟨u, rfl, hacc⟩ := hc
        simp only [RedisCmd.run, VoucherKeys.hget_hset, and_self, if_true, Option.some.injEq] at hx
        exact ⟨u, hx.symm, hκ _ hacc⟩
      | hsetnx o' field value => obtain ⟨rfl, rfl⟩ := hw; exact absurd rfl hc.1
      | hincrBy o' field value => obtain ⟨rfl, rfl⟩ := hw; exact absurd rfl hc.1
      | _ => exact hw.elim
    · rw [RedisCmd.run_hget hw] at hx
      exact h.owner o x hx
  reserved u o ho := h.reserved u o (reservation_run ho)
  legacy m hm hv hu := h.legacy m hm hv (legacyOrder_run hu)

theorem KeysTraced.expire (h : KeysTraced accepted v k) (o : Long) :
    KeysTraced accepted v (k.updateData o fun _ => .absent) where
  pending := h.pending
  owner o' x hx := by
    by_cases ho : o' = o
    · subst ho
      simp [VoucherKeys.hget, VoucherKeys.updateData, PendingEntry.absent] at hx
    · exact h.owner o' x (by simpa [VoucherKeys.hget, VoucherKeys.updateData, ho] using hx)
  reserved := h.reserved
  legacy := h.legacy

end Keys

section Calls
variable {w w' : World} {c : Cmd} {κ : Set Fact}

theorem StoreEffect.accepted_subset (h : StoreEffect w c w') : w.accepted ⊆ w'.accepted := by
  cases h with
  | same h => rw [h.accepted]; exact List.Subset.refl _
  | reserved => exact List.subset_cons_self _ _
  | _ => exact List.Subset.refl _

/-- A publication comes from publishing, a returned message from one that finds no queue. -/
theorem Effect.callbacks (h : Effect w c w') :
    (∀ p ∈ w'.unconfirmed, p ∈ w.unconfirmed ∨
      (c = .sendOrder p.message ∧ w' = w.publish p.message p.fate)) ∧
    ∀ m ∈ w'.unreturned, m ∈ w.unreturned ∨ c = .sendOrder m := by
  cases h with
  | @offer u v o now fresh =>
    rcases w.offer_cases u v o now with ⟨-, he⟩ | ⟨stock, -, -, -, -, -, he⟩ <;>
      (rw [he]; exact ⟨fun _ => .inl, fun _ => .inl⟩)
  | commit order =>
    rcases w.commit_cases order with ⟨_, _, -, -, hc⟩ | ⟨-, hc⟩ | ⟨-, hc⟩ <;>
      (rw [hc]; exact ⟨fun _ => .inl, fun _ => .inl⟩)
  | publish m fate =>
    have hun : (w.publish m fate).unconfirmed = w.unconfirmed ++ [⟨m, fate⟩] := by cases fate <;> rfl
    refine ⟨fun p hp => ?_, fun m' hm' => ?_⟩
    · rw [hun] at hp
      rcases List.mem_append.mp hp with hp | hp
      · exact .inl hp
      · obtain rfl := List.mem_singleton.mp hp
        exact .inr ⟨rfl, rfl⟩
    · cases fate with
      | returned =>
        rcases List.mem_append.mp hm' with hm' | hm'
        · exact .inl hm'
        · exact .inr (by rw [List.mem_singleton.mp hm'])
      | stored | lost => exact .inl hm'
  | forward m fate => unfold World.forward; split <;> exact ⟨fun _ => .inl, fun _ => .inl⟩
  | reject tag requeue | nack tag requeue =>
    rcases w.reject_cases tag requeue with he | ⟨d, -, -, ⟨q, c, -, -, he⟩ | ⟨-, -, he⟩⟩ <;>
      (rw [he]; exact ⟨fun _ => .inl, fun _ => .inl⟩)
  | _ => exact ⟨fun _ => .inl, fun _ => .inl⟩

/-- Only `createVouchOrder` writes rows, of its own order. -/
theorem StoreEffect.rows (h : StoreEffect w c w') (hs : ∀ s, c ≠ .statement s) :
    ∀ r ∈ w'.db.orders.rows, r ∈ w.db.orders.rows ∨ c = .createVouchOrder r := by
  cases h with
  | same h => rw [h.db]; exact fun _ => .inl
  | @inserted order db₁ db₂ h₁ h₂ =>
    intro r hr
    rw [show db₂.orders = db₁.orders from (Database.decrementStock_eq_some h₂).2.1,
      (Database.save_eq_some h₁).2.1] at hr
    rcases List.mem_cons.mp hr with rfl | hr
    · exact .inr rfl
    · exact .inl hr
  | statement s => exact absurd rfl (hs s)
  | _ => exact fun _ => .inl

/-- New accepted orders have new ids. -/
theorem StoreEffect.accepted (h : StoreEffect w c w') : ∀ m ∈ w'.accepted,
    m ∈ w.accepted ∨ (m.orderId ∉ w.issued ∧ w'.accepted = m :: w.accepted) := by
  cases h with
  | same h => rw [h.accepted]; exact fun _ => .inl
  | reserved fresh =>
    intro m hm
    rcases List.mem_cons.mp hm with rfl | hm
    · exact .inr ⟨fresh, rfl⟩
    · exact .inl hm
  | _ => exact fun _ => .inl

theorem StoreEffect.issued (h : StoreEffect w c w') (hw : ∀ m ∈ w.accepted, m.orderId ∈ w.issued) :
    ∀ m ∈ w'.accepted, m.orderId ∈ w'.issued := by
  cases h with
  | same h => rw [h.accepted, h.issued]; exact hw
  | refused => exact fun m hm => List.mem_cons_of_mem _ (hw m hm)
  | reserved =>
    intro m hm
    rcases List.mem_cons.mp hm with rfl | hm
    · exact List.mem_cons_self
    · exact List.mem_cons_of_mem _ (hw m hm)
  | _ => exact hw

theorem Provenance.keys_effect (h : Provenance w) (hc : justified κ c)
    (hκ : ∀ x ∈ κ, originOf w x) (he : StoreEffect w c w') :
    ∀ v, KeysTraced w'.accepted v (w'.redis v) := by
  intro v
  cases he with
  | same he => rw [he.accepted, he.redis]; exact h.keys v
  | @reserved u v' o now stock _ _ new _ =>
    by_cases hv : v = v'
    · subst hv
      simpa [World.setRedis] using (h.keys v).reserve w.redisTime stock new
    · simpa [World.setRedis, hv] using (h.keys v).cons fun hv' => absurd hv'.symm hv
  | redis v' c =>
    by_cases hv : v = v'
    · subst hv
      simpa [World.setRedis] using (h.keys v).run hc hκ
    · simpa [World.setRedis, hv] using h.keys v
  | _ => exact h.keys v

/-- A call made on true evidence keeps every order traced. -/
theorem Provenance.call (h : Provenance w) (hc : justified κ c) (hκ : ∀ x ∈ κ, originOf w x)
    (he : Effect w c w') : Provenance w' := by
  have hsub := he.stores.accepted_subset
  have hs : ∀ s, c ≠ .statement s := by rintro s rfl; exact hc
  have hsent : ∀ m, c = .sendOrder m ∨ c = .sendFailed m ∨ c = .park m → m ∈ w.accepted := by
    rintro m (rfl | rfl | rfl) <;> exact hκ _ hc
  refine ⟨h.tagged.of_sublist he.unacked.1 he.unacked.2, he.stores.issued h.issued, ?_, ?_, ?_, ?_,
    h.keys_effect hc hκ he.stores, ?_⟩
  · intro m hm m' hm' hid
    rcases he.stores.accepted m hm with hm | ⟨hfresh, hacc⟩
    · rcases he.stores.accepted m' hm' with hm' | ⟨hfresh', -⟩
      · exact h.unique m hm m' hm' hid
      · exact absurd (hid ▸ h.issued m hm) hfresh'
    · rw [hacc] at hm'
      rcases List.mem_cons.mp hm' with rfl | hm'
      · rfl
      · exact absurd (hid ▸ h.issued m' hm') hfresh
  · intro s m hm
    rcases he.copyOn_of hm with hm | ⟨-, hm⟩ | ⟨-, hm⟩
    · exact hsub (h.copies s m hm)
    · exact hsub (hsent m (.inl hm))
    · exact hsub (hsent m (.inr hm))
  · intro p hp
    rcases he.callbacks.1 p hp with hp | ⟨hp, -⟩
    · exact hsub (h.unconfirmed p hp)
    · exact hsub (hsent _ (.inl hp))
  · intro m hm
    rcases he.callbacks.2 m hm with hm | hm
    · exact hsub (h.unreturned m hm)
    · exact hsub (hsent m (.inl hm))
  · intro r hr
    rcases he.stores.rows hs r hr with hr | rfl
    · exact hsub (h.rows r hr)
    · exact hsub (hκ _ hc)

theorem originOf_call {x : Fact} (hx : originOf w x) (he : Effect w c w') : originOf w' x := by
  have hsub := he.stores.accepted_subset
  cases x with
  | accepted m => exact hsub hx
  | known v o => exact hx.imp fun _ h => hsub h
  | delivery tag q m =>
    exact ⟨he.unacked.2.symm ▸ hx.1, fun d hd => hx.2 d (he.unacked.1.subset hd)⟩
  | _ => trivial

end Calls

section Acts
variable {w w' : World} {a : ProtocolAction} {started : List ProtocolThread}

theorem Provenance.act (h : Provenance w) (ha : World.act a w = some (w', started)) :
    Provenance w' := by
  have hcopies : ∀ s m, w'.CopyOn s m → m ∈ w.accepted := fun s m hm =>
    h.copies s m ((act_copyOn ha h.tagged).mp hm)
  rcases act_stores ha with ⟨hs, hun, hre⟩ | ⟨v, o, -, -, rfl, -⟩
  · have hacc := hs.accepted
    refine ⟨h.tagged.act ha, ?_, ?_, ?_, ?_, ?_, ?_, ?_⟩
    · rw [hs.accepted, hs.issued]; exact h.issued
    · rw [hs.accepted]; exact h.unique
    · rw [hs.accepted]; exact hcopies
    · rw [hs.accepted]; exact fun p hp => h.unconfirmed p (hun hp)
    · rw [hs.accepted]; exact fun m hm => h.unreturned m (hre hm)
    · rw [hs.accepted, hs.redis]; exact h.keys
    · rw [hs.accepted, hs.db]; exact h.rows
  · refine ⟨h.tagged.act ha, h.issued, h.unique, hcopies, h.unconfirmed, h.unreturned, ?_, h.rows⟩
    intro v'
    by_cases hv : v' = v
    · subst hv
      simpa [World.expireData, World.setRedis] using (h.keys v').expire o
    · simpa [World.expireData, World.setRedis, hv] using h.keys v'

theorem act_accepted (ha : World.act a w = some (w', started)) : w'.accepted = w.accepted := by
  rcases act_stores ha with ⟨hs, -, -⟩ | ⟨v, o, -, -, rfl, -⟩
  · exact hs.accepted
  · rfl

/-- The deliveries after an action: those before it, and one with a new tag. -/
theorem act_unacked (ha : World.act a w = some (w', started)) : w.nextTag ≤ w'.nextTag ∧
    ∀ d ∈ w'.unacked, d ∈ w.unacked ∨ d.tag = w.nextTag := by
  cases a with
  | deliver q n =>
    obtain ⟨c, t, -, -, rfl, -⟩ := act_deliver ha
    refine ⟨Nat.le_succ _, fun d hd => ?_⟩
    rcases List.mem_cons.mp hd with rfl | hd
    · exact .inr rfl
    · exact .inl hd
  | requeue tag =>
    cases ha
    obtain ⟨hsub, hnext⟩ := unacked_reject_sublist w tag true
    exact ⟨hnext.ge, fun d hd => .inl (hsub.subset hd)⟩
  | expireRetry n =>
    obtain ⟨c, -, rfl, -⟩ := act_expireRetry ha
    exact ⟨le_refl _, fun _ => .inl⟩
  | confirm n ack cause =>
    obtain ⟨p, -, -, rfl, -⟩ := act_confirm ha
    exact ⟨le_refl _, fun _ => .inl⟩
  | returned n code text exchange key =>
    obtain ⟨m', -, rfl, -⟩ := act_returned ha
    exact ⟨le_refl _, fun _ => .inl⟩
  | expireData v o =>
    obtain ⟨-, rfl, -⟩ := act_expireData ha
    exact ⟨le_refl _, fun _ => .inl⟩
  | request u v | republish | tick clock redisTime =>
    cases ha
    exact ⟨le_refl _, fun _ => .inl⟩

theorem originOf_act {x : Fact} (hx : originOf w x) (ha : World.act a w = some (w', started)) :
    originOf w' x := by
  cases x with
  | accepted m | known v o => rw [originOf, act_accepted ha]; exact hx
  | delivery tag q m =>
    obtain ⟨hnext, hun⟩ := act_unacked ha
    refine ⟨hx.1.trans_le hnext, fun d hd ht => ?_⟩
    rcases hun d hd with hd | hd
    · exact hx.2 d hd ht
    · exact absurd hx.1 (by omega)
  | _ => trivial

end Acts

section Replies
variable {w w' : World} {c : Cmd} {f : Choice} {r : Except Exn c.Reply} {κ : Set Fact}

theorem receives_exec (hc : justified κ c) (hf : f.Genuine) (h : World.exec c f w = some (r, w')) :
    receives κ c r := by
  cases r with
  | ok a =>
    cases c with
    | awaitConfirm correlation =>
      cases a with
      | none => trivial
      | some confirm => exact fun hack hreturned => exec_awaitConfirm_ok hack hreturned h
    | _ => trivial
  | error e =>
    have herror := exec_error h
    have hforeign : ∀ e : Exn, e.foreign = true → e.kind ≠ .rejectAndDontRequeue true := by
      intro e he hk; simp [Exn.foreign, hk] at he
    cases c with
    | createVouchOrder order =>
      rcases herror with ht | ha
      · exact hforeign e (hf e ht)
      · have ha : w.commit order = (.error e, w') := Option.some.inj ha
        rcases w.commit_cases order with ⟨_, _, -, -, hc⟩ | ⟨-, hc⟩ | ⟨-, hc⟩ <;>
          (rw [hc] at ha; cases ha; try (intro hk; cases hk))
    | redis v c =>
      rcases herror with ht | ha
      · exact hf e ht
      · cases c with
        | hincrBy o field delta =>
          simp only [World.answer, RedisCmd.run] at ha
          split at ha <;> cases ha
          rfl
        | restore u o =>
          simp only [World.answer, RedisCmd.run] at ha
          split at ha <;> cases ha
          rfl
        | _ => cases ha
    | statement s => exact hc.elim
    | awaitConfirm correlation =>
      rcases herror with ht | ha
      · exact hf e ht
      · obtain ⟨_, -, hp⟩ := Option.map_eq_some_iff.mp ha
        cases hp
    | seckill u v o now =>
      rcases herror with ht | ha
      · exact hf e ht
      · simp only [World.answer, Option.ite_none_left_eq_some, Option.some.injEq] at ha
        cases ha.2
    | _ =>
      rcases herror with ht | ha
      · exact hf e ht
      · cases ha

theorem mem_pending_of_rangeByScore {v lo hi : ℤ} {limit : ℕ} {os : List Long} {o : Long}
    (h : World.exec (.redis v (.rangeByScore lo hi limit)) f w = some (.ok os, w')) (ho : o ∈ os) :
    o ∈ (w.redis v).pending := by
  have hos := (exec_redis_ok (fun _ _ => by simp) h).1
  simp only [RedisCmd.run, Except.ok.injEq] at hos
  exact ZSet.mem_of_mem_rangeByScore (hos ▸ ho)

/-- What a reply tells about accepted orders is true. -/
theorem originOf_taught (h : Provenance w) (hexec : World.exec c f w = some (r, w')) {x : Fact}
    (hx : x ∈ taught κ c r) : originOf w' x := by
  have hsub := (effect_of_exec hexec).stores.accepted_subset
  cases taught_cases hx with
  | @accepted u v o now | @issued u v o now =>
    obtain ⟨-, hacc, rfl⟩ := exec_seckill_accepted hexec
    have hmem : ⟨o, u, v⟩ ∈ (w.offer u v o now).2.accepted := by
      simp only [World.offer] at hacc ⊢
      rw [if_pos hacc]
      exact List.mem_cons_self
    first | exact hmem | exact ⟨u, hmem⟩
  | listed ho =>
    obtain ⟨u, hu⟩ := (h.keys _).pending _ (mem_pending_of_rangeByScore hexec ho)
    exact ⟨u, hsub hu⟩
  | owner hu =>
    obtain ⟨rfl, -⟩ := exec_hgetall_ok hexec
    obtain ⟨u', hu', hacc⟩ := (h.keys _).owner _ _ hu
    cases hu'
    exact hsub hacc
  | status | expired => trivial
  | restored hrow | found hrow | created hrow | duplicate _ hrow =>
    rcases hrow with rfl | rfl | rfl | rfl <;> trivial
  | forwarded _ hfact => rcases hfact with rfl | rfl <;> trivial

end Replies

/-- The facts a handler starts with, beyond those about accepted orders. -/
def startsWith (w : World) (tag : HandlerTag) : Fact → Prop
  | .covered o => ∃ p, tag = .confirm p ∧ p ∈ w.unconfirmed ∧ p.fate = .stored ∧ p.message.orderId = o
  | .returned o => ∃ p, tag = .confirm p ∧ p ∈ w.unconfirmed ∧ p.fate = .returned ∧ p.message.orderId = o
  | .settled _ | .filed _ | .persisted _ => False
  | _ => True

theorem delivered_facts {w : World} (h : Provenance w) {q : QueueName} {n : ℕ} {copy : Copy}
    {tag : HandlerTag} (hcopy : (w.queues q)[n]? = some copy) :
    ∀ x ∈ ({.accepted copy.message, .delivery w.nextTag q copy.message} : Set Fact),
      originOf (w.deliver q n copy) x ∧ startsWith w tag x := by
  have hacc : copy.message ∈ w.accepted :=
    h.copies q.side _ (.inl ⟨q, rfl, copy, List.mem_of_getElem? hcopy, rfl⟩)
  rintro x (rfl | rfl)
  · exact ⟨hacc, trivial⟩
  · refine ⟨⟨Nat.lt_succ_self _, fun d hd htag => ?_⟩, trivial⟩
    rcases List.mem_cons.mp hd with rfl | hd
    · exact ⟨rfl, rfl⟩
    · exact absurd (h.tagged.drawn d hd) (by rw [htag]; exact Nat.lt_irrefl _)

theorem act_started {w w' : World} {a : ProtocolAction} {started : List ProtocolThread}
    (h : Provenance w) (ha : World.act a w = some (w', started)) : ∀ t ∈ started, ∃ κ,
      (∀ x ∈ κ, originOf w' x ∧ startsWith w t.tag x) ∧ evidence.Safe t.program κ := by
  intro t ht
  cases act_starts ha t ht with
  | request u v => exact ⟨∅, by simp, (seckillVoucher_safe u v).bind fun _ _ => trivial⟩
  | republish => exact ⟨∅, by simp, republishPendingOrders_safe⟩
  | @returned _ m hm code text exchange key =>
    have hacc := h.unreturned m (List.mem_of_getElem? hm)
    refine ⟨{.accepted m, .known m.voucherId m.orderId}, ?_,
      returnedMessage_safe (by simp) (by simp) code text exchange key⟩
    rintro x (rfl | rfl)
    · exact ⟨hacc, trivial⟩
    · exact ⟨⟨m.userId, hacc⟩, trivial⟩
  | @confirm _ p hp ack hfate cause =>
    have hp := List.mem_of_getElem? hp
    refine ⟨{x | x = .known p.message.voucherId p.message.orderId ∨
      (x = .covered p.message.orderId ∧ p.fate = .stored) ∨
      (x = .returned p.message.orderId ∧ p.fate = .returned)}, ?_, ?_⟩
    · rintro x (rfl | ⟨rfl, hf⟩ | ⟨rfl, hf⟩)
      · exact ⟨⟨p.message.userId, h.unconfirmed p hp⟩, trivial⟩
      · exact ⟨trivial, p, rfl, hp, hf, rfl⟩
      · exact ⟨trivial, p, rfl, hp, hf, rfl⟩
    · refine confirm_safe cause (fun hack => ?_) fun _ => .inl rfl
      cases hf : p.fate with
      | stored => exact .inl (.inr (.inl ⟨rfl, rfl⟩))
      | returned => exact .inr (.inr (.inr ⟨rfl, rfl⟩))
      | lost => exact absurd hf (hfate hack)
  | order hcopy => exact ⟨_, delivered_facts h hcopy, listenVoucherOrder_safe (by simp) (by simp) _⟩
  | failed hcopy => exact ⟨_, delivered_facts h hcopy, listenFailedOrder_safe (by simp) (by simp)⟩

/-- The handlers' facts are true, those about accepted orders and those `extra` reads. -/
def Told (extra : World → HandlerTag → Fact → Prop) (w : World) (tag : HandlerTag)
    (κ : Set Fact) : Prop :=
  ∀ x ∈ κ, originOf w x ∧ extra w tag x

structure Traced (extra : World → HandlerTag → Fact → Prop) (c : ProtocolConfig) : Prop where
  world : Provenance c.shared
  told : Machine.Knows evidence (Told extra) c

section Traced
variable {extra : World → HandlerTag → Fact → Prop} {c : ProtocolConfig} {w : World}

theorem Told.origin {tag : HandlerTag} {κ : Set Fact} (h : Told extra w tag κ) :
    ∀ x ∈ κ, originOf w x := fun x hx => (h x hx).1

theorem Traced.run (h : Traced extra c) {i : ℕ} {f : Choice} {tag : HandlerTag} {cmd : Cmd}
    {k : Except Exn cmd.Reply → Handler Unit} {r : Except Exn cmd.Reply}
    (hi : c.threads[i]? = some ⟨tag, .call cmd k⟩)
    (hexec : seckillProtocol.exec cmd f c.shared = some (r, w))
    (frame : ∀ tag x, extra c.shared tag x → extra w tag x)
    (reply : ∀ κ, Told extra c.shared tag κ → justified κ cmd → ∀ x ∈ taught κ cmd r, extra w tag x) :
    Traced extra ⟨w, c.threads.set i ⟨tag, k r⟩⟩ := by
  obtain ⟨hf, hexec⟩ := Option.ite_none_right_eq_some.mp hexec
  have he := effect_of_exec hexec
  obtain ⟨κ, hκ, hj, -⟩ := h.told.thread hi
  have hframe : ∀ tag κ, Told extra c.shared tag κ → Told extra w tag κ := fun tag κ hκ x hx =>
    ⟨originOf_call (hκ x hx).1 he, frame tag x (hκ x hx).2⟩
  refine ⟨h.world.call hj hκ.origin he, h.told.run hi (fun _ _ _ _ => hframe _) ?_⟩
  intro κ hκ hj
  refine ⟨receives_exec hj hf hexec, fun x hx => ?_⟩
  rcases hx with hx | hx
  · exact hframe tag κ hκ x hx
  · exact ⟨originOf_taught h.world hexec hx, reply κ hκ hj x hx⟩

theorem Traced.crash (h : Traced extra c) (i : ℕ) :
    Traced extra ⟨c.shared, c.threads.eraseIdx i⟩ := ⟨h.world, h.told.crash i⟩

theorem Traced.act (h : Traced extra c) {a : ProtocolAction} {started : List ProtocolThread}
    (ha : World.act a c.shared = some (w, started))
    (frame : ∀ tag x, extra c.shared tag x → extra w tag x)
    (start : ∀ tag x, startsWith c.shared tag x → extra w tag x) :
    Traced extra ⟨w, c.threads ++ started⟩ := by
  refine ⟨h.world.act ha, h.told.act (fun tag κ hκ x hx => ?_) fun t ht => ?_⟩
  · exact ⟨originOf_act (hκ x hx).1 ha, frame tag x (hκ x hx).2⟩
  · obtain ⟨κ, hκ, hsafe⟩ := act_started h.world ha t ht
    exact ⟨κ, fun x hx => ⟨(hκ x hx).1, start _ x (hκ x hx).2⟩, hsafe⟩

theorem Traced.opening {w : World} (h : w.Opening) : Traced extra ⟨w, []⟩ := by
  refine ⟨?_, by simp [Machine.Knows]⟩
  have hpending := h.pending
  have hres := h.reservation
  have hdata := h.data
  have hrows := h.rows
  rw [h.start] at hpending hres hdata hrows ⊢
  refine ⟨⟨List.nodup_nil, by simp [World.start]⟩, by simp [World.start], by simp [World.start], ?_,
    by simp [World.start], by simp [World.start], fun v => ⟨?_, ?_, ?_, by simp [World.start]⟩, ?_⟩
  · rintro s m (⟨q, -, c, hc, -⟩ | ⟨d, hd, -⟩)
    · cases hc
    · cases hd
  · intro o ho; rw [hpending v] at ho; exact absurd ho (AList.notMem_empty o)
  · intro o x hx; rw [VoucherKeys.hget, hdata v o] at hx; cases hx
  · intro u o ho; rw [hres v] at ho; cases ho
  · intro r hr; rw [hrows] at hr; cases hr

end Traced

/-- Provenance alone holds in every run. -/
theorem Traced.step {c c' : ProtocolConfig} {mv : Move Choice ProtocolAction}
    (h : Traced (fun _ _ _ => True) c) (hf : seckillProtocol.Fires c mv c') :
    Traced (fun _ _ _ => True) c' := by
  cases hf with
  | run hi hexec => exact h.run hi hexec (fun _ _ h => h) fun _ _ _ _ _ => trivial
  | crash hb => exact h.crash _
  | act ha => exact h.act ha (fun _ _ h => h) fun _ _ _ => trivial

end HmDianPing.Seckill
