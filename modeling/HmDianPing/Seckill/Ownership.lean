import HmDianPing.Interleaving.Trace
import HmDianPing.Seckill.StatusTruth

/-! # Whose order it is

What the status query tells is told to the user whose order it is, also when the
pipeline goes on between its two reads. What MySQL sells is what `seckill.lua` has
accepted, and no more than there was.
-/
namespace HmDianPing.Seckill
open Interleaving Program

/-- The tables have sold what is missing from their first stock, and nothing untraced. -/
structure SalesTraced (db₀ : Database) (c : ProtocolConfig) : Prop where
  traced : Traced (fun _ _ _ => True) c
  balance : ∀ v, c.shared.db.stockOf v + c.shared.db.ordersOf v = db₀.stockOf v
  inStock : ∀ v, 0 ≤ db₀.stockOf v → 0 ≤ c.shared.db.stockOf v

section Stock
variable {db db₁ db₂ : Database} {order : VoucherOrder}

theorem sold_balance (h₁ : db.save order = some db₁)
    (h₂ : db₁.decrementStock order.voucherId = some db₂) (v : Long) :
    db₂.stockOf v + db₂.ordersOf v = db.stockOf v + db.ordersOf v ∧
      (0 ≤ db.stockOf v → 0 ≤ db₂.stockOf v) := by
  have hpos : ¬ db₁.stockOf order.voucherId ≤ 0 := fun h => by
    rw [Database.decrementStock_eq_none.mpr h] at h₂
    cases h₂
  have hstock := Database.decrementStock_stockOf (w := v) h₂
  have horders := Database.decrementStock_ordersOf (w := v) h₂
  rw [Database.save_stockOf h₁] at hstock hpos
  rw [Database.save_ordersOf h₁] at horders
  by_cases hv : v = order.voucherId
  · subst hv
    simp only [if_true] at hstock horders
    omega
  · simp only [hv, if_false, Ne.symm hv] at hstock horders
    omega

theorem StoreEffect.balance {w w' : World} {c : Cmd} (h : StoreEffect w c w')
    (hs : ∀ s, c ≠ .statement s) (v : Long) :
    w'.db.stockOf v + w'.db.ordersOf v = w.db.stockOf v + w.db.ordersOf v ∧
      (0 ≤ w.db.stockOf v → 0 ≤ w'.db.stockOf v) := by
  cases h with
  | same h => rw [h.db]; exact ⟨rfl, id⟩
  | inserted h₁ h₂ => exact sold_balance h₁ h₂ v
  | statement s => exact absurd rfl (hs s)
  | _ => exact ⟨rfl, id⟩

end Stock

section Run
variable {db₀ : Database} {c c' : ProtocolConfig} {w : World} {mv : Move Choice ProtocolAction}

theorem SalesTraced.step (h : SalesTraced db₀ c) (hf : seckillProtocol.Fires c mv c') :
    SalesTraced db₀ c' := by
  have htraced := h.traced.step hf
  cases hf with
  | run hi hexec =>
    obtain ⟨-, hexec⟩ := Option.ite_none_right_eq_some.mp hexec
    obtain ⟨κ, -, hj, -⟩ := h.traced.told.thread hi
    have hsold := (effect_of_exec hexec).stores.balance (by rintro s rfl; exact hj)
    exact ⟨htraced, fun v => (hsold v).1.trans (h.balance v),
      fun v h₀ => (hsold v).2 (h.inStock v h₀)⟩
  | crash hb => exact ⟨htraced, h.balance, h.inStock⟩
  | act ha =>
    refine ⟨htraced, fun v => ?_, fun v => ?_⟩
    · rw [act_db ha]; exact h.balance v
    · rw [act_db ha]; exact h.inStock v

theorem SalesTraced.opening (hw : w.Opening) : SalesTraced w.db ⟨w, []⟩ := by
  refine ⟨.opening hw, fun v => ?_, fun _ => id⟩
  simp [Database.ordersOf, hw.rows]

theorem salesTraced_of_run (hw : w.Opening) (hrun : ProtocolRun (fun _ _ => True) ⟨w, []⟩ c) :
    SalesTraced w.db c :=
  hrun.invariant (.opening hw) fun _ _ _ hd _ hf => hd.step hf

end Run

/-- Every row is an order of this run with the user and voucher it was accepted for, no two rows
have the same user and voucher, and the rows of a voucher are what has left its stock. -/
theorem rows_accepted_and_in_stock {w : World} {c : ProtocolConfig} (hw : w.Opening)
    (hrun : ProtocolRun (fun _ _ => True) ⟨w, []⟩ c) :
    (∀ r ∈ c.shared.db.orders.rows, ⟨r.id, r.userId, r.voucherId⟩ ∈ c.shared.accepted) ∧
    (c.shared.db.orders.rows.Pairwise fun r r' =>
      ¬ (r.userId = r'.userId ∧ r.voucherId = r'.voucherId)) ∧
    ∀ v, c.shared.db.ordersOf v = w.db.stockOf v - c.shared.db.stockOf v ∧
      (0 ≤ w.db.stockOf v → 0 ≤ c.shared.db.stockOf v) := by
  have h := salesTraced_of_run hw hrun
  refine ⟨h.traced.world.rows, ?_, fun v => ⟨?_, h.inStock v⟩⟩
  · exact c.shared.db.orders.unique.imp fun hclash hsame => hclash (.inr hsame)
  · have := h.balance v
    omega

theorem rows_accepted_and_in_stock_consumedOnce : ∃ c, consumedOnce = some c ∧
    c.shared.db.ordersOf 1 = 2 - c.shared.db.stockOf 1 ∧ 0 ≤ c.shared.db.stockOf 1 := by
  obtain ⟨c, hc⟩ := Option.isSome_iff_exists.mp (show consumedOnce.isSome = true by decide)
  have hrun : ProtocolRun (fun _ _ => True) ⟨sampleWorld, []⟩ c :=
    Machine.run_of_play (fun _ _ _ => trivial) hc
  obtain ⟨hsold, hstock⟩ := (rows_accepted_and_in_stock sampleWorld_opening hrun).2.2 1
  exact ⟨c, hc, hsold, hstock (by decide)⟩

/-- Between two calls of a query the protocol may go on. -/
def MeetsRun (w₀ w w' : World) : Prop :=
  ∃ c c', c.shared = w ∧ c'.shared = w' ∧ ProtocolRun (fun _ _ => True) ⟨w₀, []⟩ c ∧
    ProtocolRun (fun _ _ => True) c c'

section Query
variable {w₀ w w' : World} {orderId userId voucherId : Long}

theorem MeetsRun.provenance (hw : w₀.Opening) (h : MeetsRun w₀ w w') : Provenance w' := by
  obtain ⟨c, c', -, rfl, hc, hc'⟩ := h
  exact (salesTraced_of_run hw (hc.trans hc')).traced.world

theorem Provenance.accepted_of_belongsToUser (h : Provenance w)
    (hown : belongsToUser (((w.redis voucherId).pendingData orderId).hash.lookup .userId) userId) :
    ⟨orderId, userId, voucherId⟩ ∈ w.accepted := by
  obtain ⟨u, hu, hacc⟩ := (h.keys voucherId).owner orderId _ hown
  cases hu
  exact hacc

theorem Provenance.accepted_of_row (h : Provenance w) {order : VoucherOrder}
    (hrow : w.db.row orderId = some order) :
    ⟨orderId, order.userId, order.voucherId⟩ ∈ w.accepted := by
  obtain ⟨hmem, rfl⟩ := Database.persisted_of_row hrow
  exact h.rows order hmem

/-- When the call is made, an order of this id has been accepted for the user. -/
def SeenOwn (orderId userId : Long) (ev : Event World Cmd Cmd.Reply Exn) : Prop :=
  ∃ voucherId, ⟨orderId, userId, voucherId⟩ ∈ ev.before.accepted

/-- Nobody learns of another user's order: whatever the pipeline does before the query and between
its two reads, a user for whom no order of this id has been accepted is answered as for an order
that does not exist. -/
theorem foreign_order_notFound (hw : w₀.Opening) {es : List (Event World Cmd Cmd.Reply Exn)}
    {dto : SeckillOrderStatusDTO}
    (hquery : Trace World.exec (MeetsRun w₀) w
      (querySeckillOrderStatus orderId userId voucherId) es w' (.ok dto))
    (hforeign : ∀ ev ∈ es, ¬ SeenOwn orderId userId ev) : dto = notFound orderId := by
  rcases Trace.of_bind hquery with ⟨data, _, es₂, w₁, rfl, hdata, hrest⟩ | ⟨e, he, -⟩
  swap
  · cases he
  obtain ⟨w₂, f, hrely, hexec, rfl⟩ := Trace.of_perform hdata
  obtain ⟨rfl, rfl⟩ := exec_hgetall_ok hexec
  have hseen := hforeign _ (List.mem_append_left _ (List.mem_singleton_self _))
  by_cases hempty : ((w₁.redis voucherId).pendingData orderId).hash.entries ≠ []
  · rw [if_pos hempty] at hrest
    by_cases hown : ¬ belongsToUser
        (((w₁.redis voucherId).pendingData orderId).hash.lookup .userId) userId
    · rw [if_pos hown] at hrest
      exact Except.ok.inj (Trace.of_pure hrest).2.2
    · exact absurd ⟨_, (hrely.provenance hw).accepted_of_belongsToUser (not_not.mp hown)⟩ hseen
  · rw [if_neg hempty] at hrest
    rcases Trace.of_bind hrest with ⟨order, _, es₃, w₃, rfl, horder, hanswer⟩ | ⟨e, he, -⟩
    swap
    · cases he
    obtain ⟨w₄, f', hrely', hexec', rfl⟩ := Trace.of_perform horder
    obtain ⟨rfl, rfl⟩ := exec_getById_ok hexec'
    have hseen' := hforeign _
      (List.mem_append_right _ (List.mem_append_left _ (List.mem_singleton_self _)))
    cases hrow : w₃.db.row orderId with
    | none =>
      rw [hrow] at hanswer
      exact Except.ok.inj (Trace.of_pure hanswer).2.2
    | some order =>
      simp only [hrow] at hanswer
      by_cases hu : userId ≠ order.userId
      · rw [if_pos hu] at hanswer
        exact Except.ok.inj (Trace.of_pure hanswer).2.2
      · obtain rfl := not_not.mp hu
        exact absurd ⟨_, (hrely'.provenance hw).accepted_of_row hrow⟩ hseen'

end Query

theorem foreign_order_notFound_consumedOnce : ∃ c, consumedOnce = some c ∧ ∃ dto,
    (∃ es w', Trace World.exec (MeetsRun sampleWorld) c.shared (querySeckillOrderStatus 100 8 1)
      es w' (.ok dto)) ∧ dto = notFound 100 := by
  have hplay : consumedOnce.map (fun c => decide (
      (((c.shared.redis 1).pendingData 100).hash.entries ≠ [] ∧
      ¬ belongsToUser (((c.shared.redis 1).pendingData 100).hash.lookup .userId) 8) ∧
      c.shared.accepted = [sampleMessage])) = some true := by decide
  obtain ⟨c, hc, hstate⟩ := Option.map_eq_some_iff.mp hplay
  obtain ⟨⟨hdata, hown⟩, hacc⟩ := of_decide_eq_true hstate
  have hrun : ProtocolRun (fun _ _ => True) ⟨sampleWorld, []⟩ c :=
    Machine.run_of_play (fun _ _ _ => trivial) hc
  have hread : World.exec (.redis 1 (.hgetall 100)) .performed c.shared =
      some (.ok ((c.shared.redis 1).pendingData 100).hash, c.shared) := by
    simp [World.answer, World.setRedis, RedisCmd.run]
  have hquery : Trace World.exec (MeetsRun sampleWorld) c.shared (querySeckillOrderStatus 100 8 1)
      [⟨c.shared, .redis 1 (.hgetall 100), .ok ((c.shared.redis 1).pendingData 100).hash, c.shared⟩]
      c.shared (.ok (notFound 100)) := by
    refine .call ⟨c, c, rfl, rfl, hrun, .refl⟩ hread ?_
    show Trace _ _ _ (ite _ _ _) _ _ _
    rw [if_pos hdata, if_pos hown]
    exact .done
  refine ⟨c, hc, _, ⟨_, _, hquery⟩, foreign_order_notFound sampleWorld_opening hquery ?_⟩
  rintro ev hev ⟨v, hv⟩
  obtain rfl := List.mem_singleton.mp hev
  have hv : (⟨100, 8, v⟩ : Message) ∈ [sampleMessage] := hacc ▸ hv
  cases List.mem_singleton.mp hv

end HmDianPing.Seckill
