import HmDianPing.Seckill.Provenance

/-! # Orders that can get no row any more

A barrier is a state of the Redis keys after which an order must not be created.
It is sealed when no copy of the message can reach the consumer and no handler in
flight can get round it: a handler that would publish the order first has to see
that the barrier is down.
-/
namespace HmDianPing.Seckill
open Interleaving Program

inductive Barrier where
  /-- Not pending, and no callback left that could make it so. -/
  | unlisted
  /-- Its data hash shows the republishes used up, or no owner to publish it for. -/
  | exhausted
  /-- Its status is `FAILED`. -/
  | failed
  /-- Its data hash has no owner. -/
  | ownerless
deriving DecidableEq

/-- The calls and their replies that concern this order's keys. -/
def Message.At (m : Message) (v o : Long) : Prop := v = m.voucherId ∧ o = m.orderId

/-- A data hash from which the scan never publishes. -/
def Exhausted (data : PendingData) : Prop :=
  data.lookup .userId = none ∨
    ∃ n, data.lookup .retryCount = some (.number n) ∧ n ≥ maxRepublishCount

namespace Barrier

/-- What a handler may do that has not seen the barrier down. -/
def allows (B : Barrier) (m : Message) : Cmd → Prop
  | .createVouchOrder order => ¬ m.At order.voucherId order.id
  | .sendOrder m' => ¬ m.At m'.voucherId m'.orderId
  | .redis v (.zaddPending o _) => B = .unlisted → ¬ m.At v o
  | .redis v (.hset o field _) | .redis v (.hsetnx o field _) | .redis v (.hincrBy o field _) =>
      B = .exhausted → m.At v o → field ≠ .userId ∧ field ≠ .retryCount
  | _ => True

/-- The reply, or the call itself, shows the barrier down. -/
def shownDown (B : Barrier) (m : Message) : (c : Cmd) → Except Exn c.Reply → Prop
  | .seckill _ _ o _, .ok (some .accepted) => o = m.orderId
  | .redis v (.rangeByScore _ _ _), .ok os => B = .unlisted ∧ v = m.voucherId ∧ m.orderId ∈ os
  | .redis v (.hgetall o), .ok data => m.At v o ∧
      ((B = .exhausted ∧ ¬ Exhausted data) ∨ (B = .ownerless ∧ data.lookup .userId ≠ none))
  | .redis v (.hset o field value), .ok () => m.At v o ∧
      ((B = .failed ∧ field = .status ∧ value ≠ .status .failed) ∨
        (B = .ownerless ∧ field = .userId))
  | _, _ => False

/-- The knowledge is whether the barrier has been seen down. -/
def logic (B : Barrier) (m : Message) : Logic Cmd Cmd.Reply Exn Prop where
  pre κ c := κ ∨ B.allows m c
  meets _ _ _ := True
  learn κ c r := κ ∨ B.shownDown m c r

variable {B : Barrier} {m : Message} {κ : Prop} {v o : Long}

theorem growing (B : Barrier) (m : Message) : (B.logic m).Growing :=
  ⟨fun _ _ _ => Or.inl, fun _ _ _ h => Or.imp_left h⟩

theorem safe_of_allowed {α : Type} {p : Handler α} (hp : p.Calls (B.allows m)) :
    (B.logic m).Safe p κ :=
  (growing B m).safe_of_calls (hp.mono fun _ => Or.inr)

theorem safe_of_down {α : Type} (p : Handler α) (h : κ) : (B.logic m).Safe p κ :=
  (growing B m).safe_of_calls ((calls_true p).mono fun _ _ => Or.inl h)

section Operations

theorem markSendSuccess_allowed : (markSendSuccess v o).Calls (B.allows m) := by
  simp [markSendSuccess, refreshDataTtl, allows]

theorem calculateRetryDelay_allowed : (calculateRetryDelay v o).Calls (B.allows m) := by
  simp [calculateRetryDelay, allows]

theorem markSendFailed_allowed (h : B = .unlisted → ¬ m.At v o) (reason : Option String) :
    (markSendFailed v o reason).Calls (B.allows m) := by
  refine (calls_perform_bind _ _).mpr ⟨trivial, fun now => ?_⟩
  refine calculateRetryDelay_allowed.bind fun delay => ?_
  simpa [refreshDataTtl, allows] using h

theorem markRouteFailed_allowed {m' : Message}
    (h : B = .unlisted ∨ B = .exhausted → ¬ m.At m'.voucherId m'.orderId) (reason : Option String) :
    (markRouteFailed m' reason).Calls (B.allows m) := by
  have hunlisted : B = .unlisted → ¬ m.At m'.voucherId m'.orderId := fun hB => h (.inl hB)
  have hexhausted : B = .exhausted → ¬ m.At m'.voucherId m'.orderId := fun hB => h (.inr hB)
  refine (calls_perform_bind _ _).mpr ⟨trivial, fun now => ?_⟩
  refine calculateRetryDelay_allowed.bind fun delay => ?_
  simp only [refreshDataTtl, calls_perform_bind, calls_perform, allows]
  simpa using ⟨hexhausted, hunlisted⟩

theorem beforeRepublish_allowed (h : B = .exhausted → ¬ m.At v o) :
    (beforeRepublish v o).Calls (B.allows m) := by
  simpa [beforeRepublish, refreshDataTtl, allows] using h

theorem markFailed_allowed (reason : Option String) : (markFailed v o reason).Calls (B.allows m) := by
  simp [markFailed, refreshDataTtl, allows]

theorem markConsuming_allowed (startedAt : ℤ) :
    (markConsuming v o startedAt).Calls (B.allows m) := by
  simp [markConsuming, refreshDataTtl, allows]

theorem removePendingAt_allowed (committedAt : ℤ) :
    (removePendingAt v o committedAt).Calls (B.allows m) := by
  refine removePendingAt_calls (fun _ => trivial) trivial (fun _ _ => by simp) ?_ trivial committedAt
  exact fun field value hf _ _ => ⟨by rintro rfl; exact hf trivial, by rintro rfl; exact hf trivial⟩

theorem removePending_allowed : (removePending v o).Calls (B.allows m) :=
  (calls_perform_bind _ _).mpr ⟨trivial, fun now => removePendingAt_allowed now⟩

end Operations

section Handlers
variable {m' : Message}

theorem consumers_allowed : ConsumerCalls (B.allows m) m' where
  time := trivial
  consuming := markConsuming_allowed
  created := removePendingAt_allowed
  failed := markFailed_allowed
  row := trivial
  restore := trivial
  forward := ⟨trivial, fun _ => trivial, trivial⟩
  settle _ := ⟨trivial, trivial, trivial⟩

theorem confirm_allowed (h : B = .unlisted → ¬ m.At v o) (ack : Bool) (cause : Option String) :
    (confirm (some (.order o v)) ack cause).Calls (B.allows m) := by
  cases ack with
  | true => exact markSendSuccess_allowed
  | false => exact markSendFailed_allowed h cause

/-- A request can only meet an order id that has not been seen before. -/
theorem seckillVoucher_safe (u v : Long) : (B.logic m).Safe (seckillVoucher true u v) κ := by
  refine (Logic.wp_perform_bind _ _).mpr ⟨.inr trivial, fun o _ => ?_, fun _ _ => trivial⟩
  refine (Logic.wp_perform_bind _ _).mpr ⟨.inr trivial, fun now _ => ?_, fun _ _ => trivial⟩
  refine (Logic.wp_perform_bind _ _).mpr ⟨.inr trivial, fun reply _ => ?_, fun _ _ => trivial⟩
  cases reply with
  | none => trivial
  | some reply =>
    cases reply with
    | accepted =>
      by_cases ho : o = m.orderId
      · exact safe_of_down _ (.inr ho)
      · have hne : ∀ v, ¬ m.At v o := fun v h => ho h.2
        refine safe_of_allowed ?_
        change (afterAccepted true o u v).Calls (B.allows m)
        rw [afterAccepted, if_neg (by simp)]
        refine Calls.tryCatch ((calls_perform_bind _ _).mpr ⟨hne _, fun _ => calls_pure _⟩) fun e => ?_
        refine (calls_ite _ _ _).mpr ⟨fun _ => ?_, fun _ => calls_throw _⟩
        exact (markSendFailed_allowed (fun _ => hne v) _).bind fun _ => calls_pure _
    | _ => trivial

theorem giveUp_allowed (data : PendingData) : (giveUp v o data).Calls (B.allows m) := by
  have hlong : (requireLong (data.lookup .userId)).Calls (B.allows m) := by
    unfold requireLong; split <;> trivial
  refine hlong.bind fun u => (calls_perform_bind _ _).mpr ⟨trivial, fun restored => ?_⟩
  cases restored with
  | none => exact calls_throw _
  | some n => exact markFailed_allowed _

theorem beforeRepublish_safe {u : Long} (h : B = .failed ∨ κ ∨ ¬ m.At v o) :
    (B.logic m).Safe (do
      beforeRepublish v o
      sendOrderMessage ⟨o, u, v⟩) κ := by
  rcases h with rfl | hκ | hne
  · by_cases hat_ : m.At v o
    · -- A failed order gets the status `REPUBLISHING` before it is sent.
      have hincr : allows .failed m (.redis v (.hincrBy o .retryCount 1)) := fun h => by cases h
      have hstatus : allows .failed m (.redis v (.hset o .status (.status .republishing))) :=
        fun h => by cases h
      rw [beforeRepublish, bind_assoc]
      refine (Logic.wp_perform_bind _ _).mpr ⟨.inr hincr, fun count _ => ?_, fun _ _ => trivial⟩
      rw [bind_assoc]
      refine (Logic.wp_perform_bind _ _).mpr ⟨.inr hstatus, fun _ _ => ?_, fun _ _ => trivial⟩
      exact safe_of_down _ (.inr ⟨hat_, .inl ⟨rfl, rfl, by simp⟩⟩)
    · exact safe_of_allowed ((beforeRepublish_allowed fun _ => hat_).bind fun _ =>
        (calls_perform _).mpr hat_)
  · exact safe_of_down _ hκ
  · exact safe_of_allowed ((beforeRepublish_allowed fun _ => hne).bind fun _ =>
      (calls_perform _).mpr hne)

/-- The scan publishes only an order that it has found not exhausted, and after a new status. -/
theorem republishOne_safe (h : B = .unlisted → κ ∨ ¬ m.At v o) :
    (B.logic m).Safe (republishOne v o) κ := by
  refine (Logic.wp_perform_bind _ _).mpr ⟨.inr trivial, fun order _ => ?_, fun _ _ => trivial⟩
  refine (Logic.wp_ite _ _ _).mpr ⟨fun _ => safe_of_allowed removePending_allowed, fun _ => ?_⟩
  refine (Logic.wp_perform_bind _ _).mpr ⟨.inr trivial, fun data _ => ?_, fun _ _ => trivial⟩
  refine (Logic.wp_ite _ _ _).mpr ⟨fun _ => safe_of_allowed (markFailed_allowed _), fun _ => ?_⟩
  rw [Logic.wp_bind]
  refine requireInt_wp _ (fun retryCount hcount => ?_) fun _ => trivial
  refine (Logic.wp_ite _ _ _).mpr ⟨fun _ => safe_of_allowed (giveUp_allowed _), fun hless => ?_⟩
  rw [Logic.wp_bind]
  refine requireLong_wp _ (fun u howner => beforeRepublish_safe ?_) fun _ => trivial
  have hlive : ¬ Exhausted data := by
    rintro (hnone | ⟨n, hn, hge⟩)
    · rw [hnone] at howner; cases howner
    · exact hless (hcount n hn ▸ hge)
  by_cases hat_ : m.At v o
  · cases B with
    | failed => exact .inl rfl
    | unlisted => exact .inr (.inl (.inl (.inl ((h rfl).resolve_right (not_not_intro hat_)))))
    | exhausted => exact .inr (.inl (.inr ⟨hat_, .inl ⟨rfl, hlive⟩⟩))
    | ownerless => exact .inr (.inl (.inr ⟨hat_, .inr ⟨rfl, by rw [howner]; simp⟩⟩))
  · exact .inr (.inr hat_)

theorem republishPendingOrders_safe : (B.logic m).Safe republishPendingOrders κ := by
  refine (Logic.wp_perform_bind _ _).mpr ⟨.inr trivial, fun now _ => ?_, fun _ _ => trivial⟩
  refine (Logic.wp_perform_bind _ _).mpr ⟨.inr trivial, fun vouchers _ => ?_, fun _ _ => trivial⟩
  refine (growing B m).safe_forEach fun κ₁ v _ _ => ?_
  refine (Logic.wp_perform_bind _ _).mpr ⟨.inr trivial, fun orderIds _ => ?_, fun _ _ => trivial⟩
  refine (growing B m).safe_forEach fun κ₂ o ho hκ => ?_
  -- Whoever finds the order in the pending set has seen it listed.
  have hlisted : B = .unlisted → κ₂ ∨ ¬ m.At v o := by
    rintro rfl
    by_cases hat_ : m.At v o
    · exact .inl (hκ (.inr ⟨rfl, hat_.1, hat_.2 ▸ ho⟩))
    · exact .inr hat_
  refine (growing B m).safe_tryCatch (republishOne_safe hlisted) fun κ₃ e h₃ => ?_
  by_cases hdown : κ₃
  · exact safe_of_down _ hdown
  · exact safe_of_allowed (markSendFailed_allowed (fun hB =>
      (hlisted hB).resolve_left fun h => hdown (h₃ h)) _)

end Handlers

/-- The state of the keys, and of the callbacks that are still due, that makes the barrier. -/
def Up (B : Barrier) (w : World) (m : Message) : Prop :=
  match B with
  | .unlisted => m.orderId ∉ (w.redis m.voucherId).pending ∧
      (∀ p ∈ w.unconfirmed, p.message ≠ m) ∧ m ∉ w.unreturned
  | .exhausted => Exhausted ((w.redis m.voucherId).pendingData m.orderId).hash ∧ m ∉ w.unreturned
  | .failed => (w.redis m.voucherId).hget m.orderId .status = some (.status .failed)
  | .ownerless => ((w.redis m.voucherId).pendingData m.orderId).hash.entries ≠ [] ∧
      (w.redis m.voucherId).hget m.orderId .userId = none

end Barrier

/-- No row, no copy for the consumer, and no handler in flight can get round the barrier. -/
structure Barred (B : Barrier) (c : ProtocolConfig) (m : Message) : Prop where
  row : ¬ c.shared.db.Persisted m.orderId
  copies : ¬ c.shared.CopyOn .order m
  handlers : ∀ t ∈ c.threads, (B.logic m).Safe t.program False

section Call
variable {B : Barrier} {m : Message} {w w' : World} {cmd : Cmd} {f : Choice}
  {r : Except Exn cmd.Reply} {κ : Set Fact}

/-- Nothing shows a barrier down that is up before and after the call. -/
theorem not_shownDown (hw : Provenance w) (hm : m ∈ w.accepted) (hup : B.Up w m) (hup' : B.Up w' m)
    (hexec : World.exec cmd f w = some (r, w')) : ¬ B.shownDown m cmd r := by
  intro h
  cases r with
  | error e =>
    cases cmd with
    | redis v c => cases c <;> exact h
    | _ => exact h
  | ok a =>
    cases cmd with
    | seckill u v o now =>
      cases a with
      | none => exact h
      | some reply =>
        cases reply with
        | accepted =>
          obtain rfl : o = m.orderId := h
          exact (exec_seckill_accepted hexec).1 (hw.issued m hm)
        | _ => exact h
    | redis v c =>
      cases c with
      | rangeByScore lo hi limit =>
        obtain ⟨rfl, rfl, ho⟩ := h
        exact hup.1 (mem_pending_of_rangeByScore hexec ho)
      | hgetall o =>
        obtain ⟨rfl, -⟩ := exec_hgetall_ok hexec
        obtain ⟨⟨rfl, rfl⟩, ⟨rfl, hlive⟩ | ⟨rfl, howner⟩⟩ := h
        · exact hlive hup.1
        · exact howner hup.2
      | hset o field value =>
        obtain ⟨-, rfl⟩ := exec_redis_ok (fun _ _ => by simp) hexec
        obtain ⟨⟨rfl, rfl⟩, ⟨rfl, rfl, hne⟩ | ⟨rfl, rfl⟩⟩ := h
        · refine hne (Option.some.inj (hup'.symm.trans ?_)).symm
          simp [World.setRedis, RedisCmd.run, VoucherKeys.hget_hset]
        · have hnone := hup'.2
          simp [World.setRedis, RedisCmd.run, VoucherKeys.hget_hset] at hnone
      | _ => exact h
    | _ => exact h

theorem allows_of_safe {k : Except Exn cmd.Reply → Handler Unit}
    (h : (B.logic m).Safe (.call cmd k) False) :
    B.allows m cmd ∧ ∀ r, (B.logic m).Safe (k r) (False ∨ B.shownDown m cmd r) :=
  ⟨h.1.resolve_left id, fun r => h.2 r trivial⟩

/-- A call that the barrier allows creates neither a row of the order nor a copy of its message. -/
theorem Effect.keeps_absent (he : Effect w cmd w') (hw : Provenance w) (hm : m ∈ w.accepted)
    (hκ : ∀ x ∈ κ, originOf w x) (hj : justified κ cmd) (ha : B.allows m cmd)
    (hrow : ¬ w.db.Persisted m.orderId) (hcopies : ¬ w.CopyOn .order m) :
    ¬ w'.db.Persisted m.orderId ∧ ¬ w'.CopyOn .order m := by
  constructor
  · rintro ⟨row, hr, hid⟩
    rcases he.stores.rows (by rintro s rfl; exact hj) row hr with hr | rfl
    · exact hrow ⟨row, hr, hid⟩
    · have hacc := hw.unique _ (hκ _ hj) m hm hid
      exact ha ⟨congrArg Message.voucherId hacc, hid⟩
  · intro h
    rcases he.copyOn_of h with h | ⟨-, rfl⟩ | ⟨hs, -⟩
    · exact hcopies h
    · exact ha ⟨rfl, rfl⟩
    · cases hs

end Call

section Run
variable {B : Barrier} {m : Message} {c c' : ProtocolConfig} {w : World}
  {extra : World → HandlerTag → Fact → Prop}

theorem Barred.call (h : Barred B c m) (ht : Traced extra c) (hm : m ∈ c.shared.accepted) {i : ℕ}
    {f : Choice} {tag : HandlerTag} {cmd : Cmd} {k : Except Exn cmd.Reply → Handler Unit}
    {r : Except Exn cmd.Reply} (hi : c.threads[i]? = some ⟨tag, .call cmd k⟩)
    (hexec : World.exec cmd f c.shared = some (r, w)) (hup : B.Up c.shared m) (hup' : B.Up w m) :
    Barred B ⟨w, c.threads.set i ⟨tag, k r⟩⟩ m := by
  obtain ⟨ha, hk⟩ := allows_of_safe (h.handlers _ (List.mem_of_getElem? hi))
  obtain ⟨κ, hκ, hj, -⟩ := ht.told.thread hi
  obtain ⟨hrow, hcopies⟩ := (effect_of_exec hexec).keeps_absent ht.world hm hκ.origin hj ha
    h.row h.copies
  refine ⟨hrow, hcopies, fun t ht' => ?_⟩
  rcases Machine.mem_set_thread ht' with rfl | ⟨j, -, hj⟩
  · have hr := hk r
    rwa [false_or, eq_false (not_shownDown ht.world hm hup hup' hexec)] at hr
  · exact h.handlers t (List.mem_of_getElem? hj)

theorem started_safe {a : ProtocolAction} {started : List ProtocolThread} (hm : m ∈ w.accepted)
    (hcopies : ¬ w.CopyOn .order m) (hp : Provenance w)
    (hnack : B = .unlisted → ∀ p ∈ w.unconfirmed, p.message ≠ m)
    (hreturn : B = .unlisted ∨ B = .exhausted → m ∉ w.unreturned) {w' : World}
    (ha : World.act a w = some (w', started)) :
    ∀ t ∈ started, (B.logic m).Safe t.program False := by
  have hother : ∀ m' ∈ w.accepted, m' ≠ m → ¬ m.At m'.voucherId m'.orderId := fun m' hm' hne h =>
    hne (hp.unique m' hm' m hm h.2)
  intro t ht
  cases act_starts ha t ht with
  | request u v => exact (Barrier.seckillVoucher_safe u v).bind fun _ _ => trivial
  | republish => exact Barrier.republishPendingOrders_safe
  | @returned _ m' hm' =>
    have hm' := List.mem_of_getElem? hm'
    refine Barrier.safe_of_allowed (Barrier.markRouteFailed_allowed (fun hB => ?_) _)
    exact hother m' (hp.unreturned m' hm') fun he => hreturn hB (he ▸ hm')
  | @confirm _ p hp' ack _ cause =>
    have hp' := List.mem_of_getElem? hp'
    refine Barrier.safe_of_allowed (Barrier.confirm_allowed (fun hB => ?_) ack cause)
    exact hother p.message (hp.unconfirmed p hp') (hnack hB p hp')
  | @order _ copy hcopy =>
    have hon : w.CopyOn .order copy.message :=
      .inl ⟨.order, rfl, copy, List.mem_of_getElem? hcopy, rfl⟩
    have hcalls : ConsumerCalls (B.allows m) copy.message := Barrier.consumers_allowed
    refine Barrier.safe_of_allowed (hcalls.manualContainer _
      (hcalls.listenVoucherOrder _ (hother _ (hp.copies _ _ hon) ?_) _))
    exact fun he => hcopies (he ▸ hon)
  | @failed _ copy hcopy =>
    have hcalls : ConsumerCalls (B.allows m) copy.message := Barrier.consumers_allowed
    exact Barrier.safe_of_allowed (hcalls.manualContainer _ (hcalls.listenFailedOrderRetrying _))

theorem act_db {a : ProtocolAction} {started : List ProtocolThread} {w w' : World}
    (ha : World.act a w = some (w', started)) : w'.db = w.db := by
  rcases act_stores ha with ⟨hs, -⟩ | ⟨v, o, -, -, rfl, -⟩
  · exact hs.db
  · rfl

theorem Barred.act (h : Barred B c m) (ht : Traced extra c) (hm : m ∈ c.shared.accepted)
    {a : ProtocolAction} {started : List ProtocolThread}
    (ha : World.act a c.shared = some (w, started)) (hup : B.Up c.shared m) :
    Barred B ⟨w, c.threads ++ started⟩ m := by
  refine ⟨?_, fun hcopy => h.copies ((act_copyOn ha ht.world.tagged).mp hcopy), fun t ht' => ?_⟩
  · show ¬ w.db.Persisted m.orderId
    rw [act_db ha]; exact h.row
  · rcases List.mem_append.mp ht' with ht' | ht'
    · exact h.handlers t ht'
    · refine started_safe hm h.copies ht.world ?_ ?_ ha t ht'
      · rintro rfl; exact hup.2.1
      · rintro (rfl | rfl)
        · exact hup.2.2
        · exact hup.2

theorem Barred.step (h : Barred B c m) (ht : Traced extra c) (hm : m ∈ c.shared.accepted)
    {mv : Move Choice ProtocolAction} (hf : seckillProtocol.Fires c mv c')
    (hup : B.Up c.shared m) (hup' : B.Up c'.shared m) : Barred B c' m := by
  cases hf with
  | run hi hexec =>
    exact h.call ht hm hi (Option.ite_none_right_eq_some.mp hexec).2 hup hup'
  | crash hb => exact ⟨h.row, h.copies, fun t ht => h.handlers t (List.mem_of_mem_eraseIdx ht)⟩
  | act ha => exact h.act ht hm ha hup

/-- Once the call of handler `i` has raised the barrier, nothing can get round it. -/
structure Seals (B : Barrier) (c : ProtocolConfig) (i : ℕ) {α : Type}
    (k : Except Exn α → Handler Unit) (m : Message) : Prop where
  row : ¬ c.shared.db.Persisted m.orderId
  copies : ¬ c.shared.CopyOn .order m
  others : ∀ j t, j ≠ i → c.threads[j]? = some t → (B.logic m).Safe t.program False
  own : ∀ r, (B.logic m).Safe (k r) False

theorem Seals.barred {i : ℕ} {f : Choice} {tag : HandlerTag} {v : Long} {cmd : RedisCmd}
    {k : Except Exn cmd.Reply → Handler Unit} {r : Except Exn cmd.Reply}
    (h : Seals B c i k m) (hexec : World.exec (.redis v cmd) f c.shared = some (r, w)) :
    Barred B ⟨w, c.threads.set i ⟨tag, k r⟩⟩ m := by
  have he := effect_of_exec hexec
  refine ⟨?_, fun hcopy => ?_, fun t ht => ?_⟩
  · rintro ⟨row, hr, hid⟩
    rcases he.stores.rows (by simp) row hr with hr | hr
    · exact h.row ⟨row, hr, hid⟩
    · cases hr
  · rcases he.copyOn_of hcopy with hcopy | ⟨-, hc⟩ | ⟨hs, -⟩
    · exact h.copies hcopy
    · cases hc
    · cases hs
  · rcases Machine.mem_set_thread ht with rfl | ⟨j, hji, hj⟩
    · exact h.own r
    · exact h.others j t hji hj

end Run

section Lasting
variable {w w' : World} {cmd : Cmd} {m : Message} {B : Barrier}

theorem hget_setRedis (w : World) (v : Long) (k : VoucherKeys) (o : Long) (field : Field) :
    ((w.setRedis v k).redis m.voucherId).hget o field =
      if m.voucherId = v then k.hget o field else (w.redis m.voucherId).hget o field := by
  by_cases hv : m.voucherId = v
  · subst hv; simp [World.setRedis]
  · simp [World.setRedis, hv]

theorem StoreEffect.hget (h : StoreEffect w cmd w') (hm : m.orderId ∈ w.issued) {field : Field}
    (hw : ∀ c, cmd = .redis m.voucherId c → ¬ c.Writes m.orderId field) :
    (w'.redis m.voucherId).hget m.orderId field = (w.redis m.voucherId).hget m.orderId field := by
  cases h with
  | same h => rw [h.redis]
  | @reserved u v o now stock fresh =>
    change ((w.setRedis v _).redis m.voucherId).hget m.orderId field = _
    rw [hget_setRedis]
    by_cases hv : m.voucherId = v
    · subst hv
      rw [if_pos rfl, hget_reserve_ne]
      exact fun ho => fresh (ho ▸ hm)
    · rw [if_neg hv]
  | redis v c =>
    rw [hget_setRedis]
    by_cases hv : m.voucherId = v
    · subst hv
      rw [if_pos rfl, RedisCmd.run_hget (hw c rfl)]
    · rw [if_neg hv]
  | _ => rfl

theorem StoreEffect.pending (h : StoreEffect w cmd w') (hm : m.orderId ∈ w.issued)
    (hp : m.orderId ∈ (w'.redis m.voucherId).pending) :
    m.orderId ∈ (w.redis m.voucherId).pending ∨
      ∃ score, cmd = .redis m.voucherId (.zaddPending m.orderId score) := by
  cases h with
  | same h => rw [h.redis] at hp; exact .inl hp
  | @reserved u v o now stock fresh =>
    by_cases hv : m.voucherId = v
    · subst hv
      have hp : m.orderId ∈
          ((w.redis m.voucherId).reserve u m.voucherId o now w.redisTime stock).pending := by
        simpa [World.setRedis] using hp
      rcases (AList.mem_insert _).mp hp with ho | hp
      · exact absurd (ho ▸ hm) fresh
      · exact .inl hp
    · exact .inl (by simpa [World.setRedis, hv] using hp)
  | redis v c =>
    by_cases hv : m.voucherId = v
    · subst hv
      refine (RedisCmd.run_pending (by simpa [World.setRedis] using hp)).imp id ?_
      rintro ⟨score, rfl⟩
      exact ⟨score, rfl⟩
    · exact .inl (by simpa [World.setRedis, hv] using hp)
  | _ => exact .inl hp

/-- The barriers that no one can take down again. -/
def Barrier.Lasting (B : Barrier) : Prop := B = .unlisted ∨ B = .exhausted

theorem Barrier.Lasting.call (hB : B.Lasting) (hw : Provenance w) (hm : m ∈ w.accepted)
    (hup : B.Up w m) (ha : B.allows m cmd) (he : Effect w cmd w') : B.Up w' m := by
  have hissued := hw.issued m hm
  have hun : m ∈ w'.unreturned → m ∈ w.unreturned := fun h =>
    (he.callbacks.2 m h).resolve_right fun hc => by subst hc; exact ha ⟨rfl, rfl⟩
  rcases hB with rfl | rfl
  · refine ⟨fun hp => ?_, fun p hp hpm => ?_, fun h => hup.2.2 (hun h)⟩
    · rcases he.stores.pending hissued hp with hp | ⟨score, rfl⟩
      · exact hup.1 hp
      · exact ha rfl ⟨rfl, rfl⟩
    · rcases he.callbacks.1 p hp with hp | ⟨rfl, -⟩
      · exact hup.2.1 p hp hpm
      · exact ha (hpm ▸ ⟨rfl, rfl⟩)
  · have hkeep : ∀ field, field = .userId ∨ field = .retryCount →
        (w'.redis m.voucherId).hget m.orderId field = (w.redis m.voucherId).hget m.orderId field := by
      intro field hfield
      refine he.stores.hget hissued fun c hc hwrites => ?_
      subst hc
      cases c with
      | hset o f value | hsetnx o f value | hincrBy o f value =>
        obtain ⟨rfl, rfl⟩ := hwrites
        obtain ⟨hu, hr⟩ := ha rfl ⟨rfl, rfl⟩
        exact hfield.elim hu hr
      | _ => exact hwrites
    refine ⟨?_, fun h => hup.2 (hun h)⟩
    exact hup.1.imp (fun h => (hkeep _ (.inl rfl)).trans h)
      (Exists.imp fun n hn => ⟨(hkeep _ (.inr rfl)).trans hn.1, hn.2⟩)

theorem Barrier.Lasting.act {a : ProtocolAction} {started : List ProtocolThread} (hB : B.Lasting)
    (hup : B.Up w m) (ha : World.act a w = some (w', started)) : B.Up w' m := by
  rcases act_stores ha with ⟨hs, hun, hre⟩ | ⟨v, o, -, -, rfl, -⟩
  · rcases hB with rfl | rfl
    · exact ⟨hs.redis ▸ hup.1, fun p hp => hup.2.1 p (hun hp), fun h => hup.2.2 (hre h)⟩
    · exact ⟨hs.redis ▸ hup.1, fun h => hup.2 (hre h)⟩
  · by_cases hv : m.voucherId = v
    · subst hv
      rcases hB with rfl | rfl
      · exact ⟨by simpa [World.expireData, World.setRedis, VoucherKeys.updateData] using hup.1,
          hup.2.1, hup.2.2⟩
      · refine ⟨?_, hup.2⟩
        by_cases ho : m.orderId = o
        · subst ho
          left
          simp [World.expireData, World.setRedis, VoucherKeys.updateData, PendingEntry.absent]
        · simpa [World.expireData, World.setRedis, VoucherKeys.updateData, ho] using hup.1
    · have hredis : (w.expireData v o).redis m.voucherId = w.redis m.voucherId := by
        simp [World.expireData, World.setRedis, hv]
      rcases hB with rfl | rfl
      · exact ⟨hredis ▸ hup.1, hup.2.1, hup.2.2⟩
      · exact ⟨hredis ▸ hup.1, hup.2⟩

/-- The order has no row and can get none. -/
def Closed (c : ProtocolConfig) (m : Message) : Prop :=
  ∃ B : Barrier, B.Lasting ∧ B.Up c.shared m ∧ Barred B c m

theorem Closed.step {extra : World → HandlerTag → Fact → Prop} {c c' : ProtocolConfig}
    {mv : Move Choice ProtocolAction} (h : Closed c m) (ht : Traced extra c)
    (hm : m ∈ c.shared.accepted) (hf : seckillProtocol.Fires c mv c') : Closed c' m := by
  obtain ⟨B, hB, hup, hbarred⟩ := h
  have hup' : B.Up c'.shared m := by
    cases hf with
    | run hi hexec =>
      obtain ⟨ha, -⟩ := allows_of_safe (hbarred.handlers _ (List.mem_of_getElem? hi))
      exact hB.call ht.world hm hup ha (effect_of_exec (Option.ite_none_right_eq_some.mp hexec).2)
    | crash => exact hup
    | act ha => exact hB.act hup ha
  exact ⟨B, hB, hup', hbarred.step ht hm hf hup hup'⟩

end Lasting
end HmDianPing.Seckill
