import HmDianPing.Seckill.Coverage
import HmDianPing.Seckill.Redelivery

/-! # Recovery after failures

Whatever failures a run has seen, its queues can be emptied without another one. The
instances are restarted, which loses their handlers and gives back their deliveries,
and the copies are then delivered one after the other.
-/
namespace HmDianPing.Seckill
open Interleaving Program

/-- The moves after a restart: nothing fails any more, and no request comes. -/
def Recovering (_ : ProtocolConfig) : Move Choice ProtocolAction → Prop
  | .run _ f => f = .performed
  | .act (.requeue _) | .act (.deliver _ _) | .act (.expireRetry _) => True
  | _ => False

/-- In a run from `w₀` every voucher keeps its stock, reserved or not. -/
structure Kept (w₀ : World) (c : ProtocolConfig) : Prop where
  traced : Traced (fun _ _ _ => True) c
  conserved : ∀ v, Conserved (w₀.redis v).total (c.shared.redis v)

section Kept
variable {w₀ w w' : World} {cmd : Cmd} {c c' : ProtocolConfig}

theorem Conserved.run_redis {total : ℤ} {k : VoucherKeys} (h : Conserved total k) (c : RedisCmd)
    (now : ℤ) : Conserved total (c.run now k).2 := by
  by_cases hc : ∃ u o, c = .restore u o
  · obtain ⟨u, o, rfl⟩ := hc
    simp only [RedisCmd.run]
    split
    · next n k' hrun => exact h.restore hrun
    · exact h
  · push Not at hc
    obtain ⟨hstock, hres, hleg⟩ := RedisCmd.run_ledger hc now k
    obtain ⟨hsum, hnonneg, hdisjoint⟩ := h
    simp only [VoucherKeys.stockValue, VoucherKeys.reserved] at hsum hnonneg
    refine ⟨?_, ?_, ?_⟩
    · simpa only [VoucherKeys.stockValue, VoucherKeys.reserved, hstock, hres, hleg] using hsum
    · simpa only [VoucherKeys.stockValue, hstock] using hnonneg
    · simpa only [hres, hleg] using hdisjoint

theorem Effect.conserved {total : Long → ℤ} (he : Effect w cmd w')
    (h : ∀ v, Conserved (total v) (w.redis v)) (v : Long) : Conserved (total v) (w'.redis v) := by
  have hset : ∀ v' k, Conserved (total v') k → Conserved (total v) ((w.setRedis v' k).redis v) := by
    intro v' k hk
    by_cases hv : v = v'
    · subst hv
      simpa [World.setRedis] using hk
    · simpa [World.setRedis, hv] using h v
  cases he with
  | @offer u v' o now fresh =>
    have hkeys : Conserved (total v') (seckillLua u v' o now w.redisTime (w.redis v')).2 :=
      (h v').seckill rfl
    exact hset v' _ hkeys
  | redis v' c => exact hset v' _ ((h v').run_redis c _)
  | publish m fate => cases fate <;> exact h v
  | forward m fate => unfold World.forward; split <;> exact h v
  | reject tag requeue | nack tag requeue => rw [(sameStores_reject w tag requeue).redis]; exact h v
  | _ => exact h v

theorem Kept.step {mv : Move Choice ProtocolAction} (h : Kept w₀ c)
    (hf : seckillProtocol.Fires c mv c') : Kept w₀ c' := by
  refine ⟨h.traced.step hf, fun v => ?_⟩
  cases hf with
  | run hi hexec =>
    obtain ⟨-, hexec⟩ := Option.ite_none_right_eq_some.mp hexec
    exact (effect_of_exec hexec).conserved h.conserved v
  | crash hb => exact h.conserved v
  | act ha =>
    rcases act_stores ha with ⟨hs, -, -⟩ | ⟨v', o, -, -, rfl, -⟩
    · exact hs.redis ▸ h.conserved v
    · by_cases hv : v = v'
      · subst hv
        have hkeys := h.conserved v
        simp only [World.expireData, World.setRedis, Function.update_self]
        exact ⟨hkeys.sum, hkeys.nonneg, hkeys.disjoint⟩
      · simpa [World.expireData, World.setRedis, hv] using h.conserved v

theorem Kept.run {guard : ProtocolConfig → Move Choice ProtocolAction → Prop} (h : Kept w₀ c)
    (hrun : seckillProtocol.Run guard c c') : Kept w₀ c' :=
  hrun.invariant h fun _ _ _ hd _ hf => hd.step hf

theorem Kept.opening (hw : w.Opening) (hcount : w.Countable) : Kept w ⟨w, []⟩ := by
  refine ⟨.opening hw, fun v => ⟨rfl, (hcount v).1, fun u _ hres => ?_⟩⟩
  rw [hw.reservation v] at hres
  exact absurd hres (AList.notMem_empty u)

theorem Kept.countable (h : Kept w₀ c) (hcount : w₀.Countable) : c.shared.Countable := by
  intro v
  refine ⟨(h.conserved v).nonneg, ?_⟩
  have htotal : (c.shared.redis v).total = (w₀.redis v).total := (h.conserved v).sum
  rw [htotal]
  exact (hcount v).2

theorem Kept.restart (h : Kept w₀ c) : Kept w₀ ⟨c.shared, []⟩ :=
  ⟨⟨h.traced.world, by simp [Machine.Knows]⟩, h.conserved⟩

end Kept

section Rounds
variable {w₀ w w' w'' : World} {ts : List ProtocolThread}

theorem Accounts.refl (w : World) : Accounts w w := ⟨rfl, fun _ _ => id⟩

theorem Accounts.trans (h : Accounts w w') (h' : Accounts w' w'') : Accounts w w'' :=
  ⟨h'.accepted.trans h.accepted, fun m hm hw =>
    h'.accounted m (h.accepted ▸ hm) (h.accounted m hm hw)⟩

theorem requeue_head {d : Delivery} {ds : List Delivery} (hunacked : w.unacked = d :: ds)
    (ht : w.Tagged) : w.reject d.tag true = (w.settle d.tag).enqueue d.queue d.copy ∧
      (w.settle d.tag).unacked = ds := by
  refine ⟨by simp [World.reject, hunacked], ?_⟩
  have hnodup := ht.nodup
  rw [hunacked, List.map_cons, List.nodup_cons] at hnodup
  simp only [World.settle, hunacked]
  rw [List.filter_cons_of_neg (by simp), List.filter_eq_self]
  intro d' hd'
  have hne : d'.tag ≠ d.tag := fun heq => hnodup.1 (heq ▸ List.mem_map_of_mem hd')
  simpa using hne

theorem waits_requeue {d : Delivery} {ds : List Delivery} {m : Message}
    (hunacked : w.unacked = d :: ds) (ht : w.Tagged) (hw : w.Waits m) :
    (w.reject d.tag true).Waits m := by
  obtain ⟨hreject, hsettle⟩ := requeue_head hunacked ht
  rw [hreject]
  rcases hw with hq | ⟨d', hd', hq, hm⟩
  · exact World.Waits.enqueue (.inl hq)
  · rw [hunacked] at hd'
    rcases List.mem_cons.mp hd' with rfl | hd'
    · exact hm ▸ waits_enqueue hq
    · exact World.Waits.enqueue (.inr ⟨d', hsettle ▸ hd', hq, hm⟩)

theorem exists_requeue (ds : List Delivery) (hkept : Kept w₀ ⟨w, ts⟩) (hunacked : w.unacked = ds) :
    ∃ w', seckillProtocol.Run Recovering ⟨w, ts⟩ ⟨w', ts⟩ ∧ w'.unacked = [] ∧ Accounts w w' := by
  induction ds generalizing w with
  | nil => exact ⟨w, .refl, hunacked, .refl w⟩
  | cons d ds ih =>
    have ht := hkept.traced.world.tagged
    obtain ⟨hreject, hsettle⟩ := requeue_head hunacked ht
    have hfirst : seckillProtocol.Run Recovering ⟨w, ts⟩ ⟨w.reject d.tag true, ts⟩ := by
      refine .tail .refl (m := .act (.requeue d.tag)) trivial ?_
      simp [Machine.step, seckillProtocol, World.act]
    obtain ⟨w', hrun, hclosed, haccounts⟩ :=
      ih (hkept.run hfirst) (by rw [hreject]; exact hsettle)
    have hstores := sameStores_reject w d.tag true
    refine ⟨w', hfirst.trans hrun, hclosed, Accounts.trans ⟨hstores.accepted, fun m _ hw => ?_⟩
      haccounts⟩
    refine hw.imp (waits_requeue hunacked ht) fun hresolved => ?_
    simpa only [World.Resolved, hstores.redis, hstores.db] using hresolved

/-- A delivered copy runs through its consumer without a failure. -/
theorem exists_delivery (ts : List ProtocolThread) {q : QueueName} {n : ℕ} {copy : Copy}
    {t : ProtocolThread} (hcopy : (w.queues q)[n]? = some copy)
    (hlistener : listener q copy w.nextTag = some t)
    (hfinish : Finishes t.program (fun _ w' => Progress w w') (w.deliver q n copy)) :
    ∃ w' r, seckillProtocol.Run Recovering ⟨w, ts⟩ ⟨w', ts ++ [⟨t.tag, .done r⟩]⟩ ∧
      Progress w w' := by
  have hfirst : seckillProtocol.Run Recovering ⟨w, ts⟩ ⟨w.deliver q n copy, ts ++ [t]⟩ := by
    refine .tail .refl (m := .act (.deliver q n)) trivial ?_
    simp [Machine.step, seckillProtocol, World.act, hcopy, hlistener]
  have hlast : (ts ++ [t])[ts.length]? = some ⟨t.tag, t.program⟩ := by simp
  have hperformed : ∀ c, Recovering c (.run ts.length .performed) := fun _ => rfl
  obtain ⟨r, w', hprogress, hrun⟩ := hfinish.exists_run hlast hperformed
  refine ⟨w', r, hfirst.trans ?_, hprogress⟩
  simpa using hrun

/-- While a copy is in one of the three queues, there is a move that makes the load lighter. -/
theorem exists_round (hkept : Kept w₀ ⟨w, ts⟩) (hcount : w₀.Countable) (hunacked : w.unacked = [])
    (hload : 0 < w.load) : ∃ w' started,
      seckillProtocol.Run Recovering ⟨w, ts⟩ ⟨w', ts ++ started⟩ ∧
      (∀ t ∈ started, t.program.ended = true) ∧ Progress w w' := by
  have hp := hkept.traced.world
  have hcount := hkept.countable hcount
  have hnonempty : ∃ q, q ≠ QueueName.parking ∧ ∃ copy, (w.queues q)[0]? = some copy := by
    by_contra! hnone
    have hempty : ∀ q, q ≠ QueueName.parking → w.queues q = [] := fun q hq =>
      List.eq_nil_iff_forall_not_mem.mpr fun copy hcopy => by
        cases hqs : w.queues q with
        | nil => rw [hqs] at hcopy; cases hcopy
        | cons c cs => exact hnone q hq c (by simp [hqs])
    simp [World.load, hempty .order (by decide), hempty .retry (by decide),
      hempty .failed (by decide)] at hload
  obtain ⟨q, hq, copy, hcopy⟩ := hnonempty
  cases q with
  | order =>
    obtain ⟨w', r, hrun, hprogress⟩ :=
      exists_delivery ts hcopy rfl (listenVoucherOrder_finishes hp hcopy hunacked)
    exact ⟨w', _, hrun, by simp [Program.ended], hprogress⟩
  | failed =>
    obtain ⟨w', r, hrun, hprogress⟩ :=
      exists_delivery ts hcopy rfl (listenFailedOrderRetrying_finishes hp hcount hcopy hunacked)
    exact ⟨w', _, hrun, by simp [Program.ended], hprogress⟩
  | retry =>
    refine ⟨w.expireRetry 0 copy, [], ?_, by simp, expireRetry_progress hcopy hunacked⟩
    refine .tail .refl (m := .act (.expireRetry 0)) trivial ?_
    simp [Machine.step, seckillProtocol, World.act, hcopy]
  | parking => exact absurd rfl hq

theorem exists_emptied (load : ℕ) (hkept : Kept w₀ ⟨w, ts⟩) (hcount : w₀.Countable)
    (hunacked : w.unacked = []) (hload : w.load ≤ load)
    (hended : ∀ t ∈ ts, t.program.ended = true) :
    ∃ c, seckillProtocol.Run Recovering ⟨w, ts⟩ c ∧ (∀ t ∈ c.threads, t.program.ended = true) ∧
      c.shared.Emptied ∧ Accounts w c.shared := by
  induction load generalizing w ts with
  | zero =>
    exact ⟨⟨w, ts⟩, .refl, hended, World.emptied_of_load (Nat.le_zero.mp hload) hunacked, .refl w⟩
  | succ load ih =>
    rcases Nat.eq_zero_or_pos w.load with hzero | hpos
    · exact ⟨⟨w, ts⟩, .refl, hended, World.emptied_of_load hzero hunacked, .refl w⟩
    · obtain ⟨w', started, hrun, hstarted, hprogress⟩ := exists_round hkept hcount hunacked hpos
      have hlighter := hprogress.lighter
      obtain ⟨c, hrest, hall, hemptied, haccounts⟩ :=
        ih (hkept.run hrun) hprogress.unacked (by omega) fun t ht =>
          (List.mem_append.mp ht).elim (hended t) (hstarted t)
      exact ⟨c, hrun.trans hrest, hall, hemptied, hprogress.toAccounts.trans haccounts⟩

theorem World.Emptied.not_waits (h : w.Emptied) (m : Message) : ¬ w.Waits m := by
  rintro (⟨q, hq, c, hc, -⟩ | ⟨d, hd, -⟩)
  · cases q with
    | order => rw [h.order] at hc; cases hc
    | retry => rw [h.retry] at hc; cases hc
    | failed => rw [h.failed] at hc; cases hc
    | parking => exact hq rfl
  · rw [h.unacked] at hd
    cases hd

end Rounds

/-- Every reachable state can be recovered from: after a restart the deliveries can go on, without
a failure, until every handler has ended and no queue but the parking queue holds a copy, and then
each order of a message that waited has its row, or clashes with one, or has failed and given its
reservation back. -/
theorem pipeline_recovers {w : World} {c : ProtocolConfig} (hw : w.Opening) (hcount : w.Countable)
    (hrun : ProtocolRun (fun _ _ => True) ⟨w, []⟩ c) :
    ∃ c', seckillProtocol.Run Recovering ⟨c.shared, []⟩ c' ∧
      (∀ t ∈ c'.threads, t.program.ended = true) ∧ c'.shared.Emptied ∧
      ∀ m, c.shared.Waits m → c'.shared.Resolved m := by
  have hkept := ((Kept.opening hw hcount).run hrun).restart
  obtain ⟨w₁, hback, hclosed, hrequeued⟩ := exists_requeue _ hkept rfl
  obtain ⟨c', hrounds, hended, hemptied, haccounts⟩ :=
    exists_emptied w₁.load (hkept.run hback) hcount hclosed le_rfl (by simp)
  refine ⟨c', hback.trans hrounds, hended, hemptied, fun m hwaits => ?_⟩
  have hm : m ∈ c.shared.accepted := by
    rcases hwaits with ⟨q, -, copy, hcopy, hmessage⟩ | ⟨d, hd, -, hmessage⟩
    · exact hkept.traced.world.copies q.side m (.inl ⟨q, rfl, copy, hcopy, hmessage⟩)
    · exact hkept.traced.world.copies d.queue.side m (.inr ⟨d, hd, rfl, hmessage⟩)
  have hdone := (hrequeued.trans haccounts).accounted m hm (.inl hwaits)
  exact hdone.resolve_left (hemptied.not_waits m)

theorem sampleWorld_countable : sampleWorld.Countable := by
  intro v
  show 0 ≤ (openedVoucher 2).stockValue ∧ (openedVoucher 2).total < 2 ^ 63
  decide

/-- The copy that `rejectedOnce` has left in the retry queue. -/
theorem pipeline_recovers_rejectedOnce : ∃ c, rejectedOnce = some c ∧
    ∃ c', seckillProtocol.Run Recovering ⟨c.shared, []⟩ c' ∧ c'.shared.Emptied ∧
      c'.shared.Resolved sampleMessage := by
  have hplay : rejectedOnce.map (fun c => decide
      ((c.shared.queues .retry).map Copy.message = [sampleMessage])) = some true := by
    decide
  obtain ⟨c, hc, hretry⟩ := Option.map_eq_some_iff.mp hplay
  have hretry := of_decide_eq_true hretry
  have hrun : ProtocolRun (fun _ _ => True) ⟨sampleWorld, []⟩ c :=
    Machine.run_of_play (fun _ _ _ => trivial) hc
  obtain ⟨c', hrecovered, -, hemptied, hresolved⟩ :=
    pipeline_recovers sampleWorld_opening sampleWorld_countable hrun
  refine ⟨c, hc, c', hrecovered, hemptied, hresolved _ (.inl ⟨.retry, by decide, ?_⟩)⟩
  have hmem : sampleMessage ∈ (c.shared.queues .retry).map Copy.message := by
    rw [hretry]
    exact List.mem_singleton_self _
  exact List.mem_map.mp hmem

end HmDianPing.Seckill
