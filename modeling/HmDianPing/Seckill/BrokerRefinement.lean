import Mathlib.Data.List.Forall2
import HmDianPing.Seckill.Copies
import HmDianPing.Seckill.RabbitMqConfig
import HmDianPing.Seckill.RetryCount

/-! # The queues of the model on the declared topology

The stores of the protocol have four queues and say by themselves where a message
goes. A broker that knows nothing but the declared exchanges, queues and bindings
does the same with every call, and keeps in its headers what the model counts.
-/
namespace HmDianPing.Seckill
open Amqp Interleaving List

section Lists
variable {α β : Type} {R : α → β → Prop} {l : List α} {l' : List β}

theorem forall₂_find? {p : α → Bool} {p' : β → Bool} (h : Forall₂ R l l')
    (hp : ∀ a b, R a b → p a = p' b) : Option.Rel R (l.find? p) (l'.find? p') := by
  induction h with
  | nil => exact .none
  | @cons a b l l' hab _ ih =>
    rw [find?_cons, find?_cons, hp a b hab]
    cases p' b with
    | true => exact .some hab
    | false => exact ih

theorem forall₂_getElem? (h : Forall₂ R l l') (n : ℕ) : Option.Rel R l[n]? l'[n]? := by
  induction h generalizing n with
  | nil => exact .none
  | cons hab _ ih =>
    cases n with
    | zero => exact .some hab
    | succ n => exact ih n

theorem forall₂_eraseIdx (h : Forall₂ R l l') (n : ℕ) :
    Forall₂ R (l.eraseIdx n) (l'.eraseIdx n) := by
  rw [eraseIdx_eq_take_drop_succ, eraseIdx_eq_take_drop_succ]
  exact rel_append (forall₂_take n h) (forall₂_drop (n + 1) h)

end Lists

/-- The table tells what the entry of the model says; its other fields are not read. -/
structure Shows (x : XDeath) (t : FieldTable) : Prop where
  queue : t "queue" = some (.string x.queue.text)
  reason : t "reason" = some (.string x.reason.text)
  count : t "count" = some (.number x.count)

/-- The message with its header; in the order queue it has only ever died by rejection. -/
structure Carries (c : Copy) (e : Envelope Message) : Prop where
  body : e.body = c.message
  deaths : Forall₂ Shows c.xDeath e.deaths.tables
  rejected : ∀ x ∈ c.xDeath, x.queue = .order → x.reason = .rejected

section Headers
variable {x : XDeath} {t : FieldTable} {c : Copy} {e : Envelope Message}


theorem Shows.describes (h : Shows x t) (q : QueueName) (reason : DeathReason) :
    decide (x.queue = q ∧ x.reason = reason) = describes q.text reason.text t := by
  simp [Amqp.describes, h.queue, h.reason, queueText_injective.eq_iff, reasonText_injective.eq_iff]

theorem Carries.exists_shows (h : Carries c e) (ht : t ∈ e.deaths.tables) :
    ∃ x ∈ c.xDeath, Shows x t := by
  have hdeaths := h.deaths
  generalize c.xDeath = xs at hdeaths ⊢
  generalize e.deaths.tables = tables at hdeaths ht
  induction hdeaths with
  | nil => cases ht
  | @cons x t' xs tables hx _ ih =>
    rcases mem_cons.mp ht with rfl | ht
    · exact ⟨x, mem_cons_self, hx⟩
    · obtain ⟨x', hx', hshows⟩ := ih ht
      exact ⟨x', mem_cons_of_mem _ hx', hshows⟩

/-- The broker's header keeps telling what the model counts, whatever else the broker notes. -/
theorem Carries.die (h : Carries c e) (q : QueueName) (reason : DeathReason)
    (hq : q = .order → reason = .rejected) (details : FieldTable) (key : String) : Carries (c.die q reason)
      ⟨e.body, key, e.deaths.record ⟨q.text, reason.text, details⟩⟩ := by
  refine ⟨h.body, ?_, fun x hx => ?_⟩
  swap
  · rcases mem_cons.mp hx with rfl | hx
    · exact hq
    · exact h.rejected x (mem_of_mem_filter hx)
  have hsame : ∀ x t, Shows x t → decide (x.queue = q ∧ x.reason = reason) =
      describes q.text reason.text t := fun x t hx => hx.describes q reason
  have hfind := forall₂_find? h.deaths hsame
  refine .cons ?_ (rel_filter (fun x t hx => ?_) h.deaths)
  · simp only [Death.entry]
    generalize hmine : c.xDeath.find? (fun x => decide (x.queue = q ∧ x.reason = reason)) = mine
      at hfind ⊢
    generalize e.deaths.tables.find? (describes q.text reason.text) = entry at hfind ⊢
    cases hfind with
    | none =>
      exact ⟨by simp [withCount, Death.fresh], by simp [withCount, Death.fresh], by simp [withCount]⟩
    | @some x t hx =>
      obtain ⟨rfl, rfl⟩ : x.queue = q ∧ x.reason = reason := by simpa using find?_some hmine
      have hcount : countOf t = x.count := by simp [countOf, hx.count]
      exact ⟨by simp [withCount, hx.queue], by simp [withCount, hx.reason],
        by simp [withCount, hcount]⟩
  · show (!decide (x.queue = q ∧ x.reason = reason)) = true ↔ _
    rw [hsame x t hx]

theorem Shows.legible (h : Shows x t) (queue reason : String) : Legible queue reason t := by
  intro hqueue hreason
  rw [h.queue] at hqueue
  rw [h.reason] at hreason
  obtain rfl : x.queue.text = queue := hqueue
  obtain rfl : x.reason.text = reason := hreason
  exact ⟨describes_iff.mpr ⟨h.queue, h.reason⟩, x.count, h.count⟩

/-- What the consumer reads off the header is what the model hands it. -/
theorem Carries.retryCount (h : Carries c e) :
    VoucherOrderConsumer.getRetryCount e.deaths = getRetryCount c.xDeath := by
  have hlegible : ∀ t ∈ e.deaths.tables, Legible QueueName.order.text "rejected" t := by
    intro t ht
    obtain ⟨x, -, hx⟩ := h.exists_shows ht
    exact hx.legible _ _
  have hfind := forall₂_find? h.deaths fun x t hx =>
    hx.describes .order .rejected
  rw [getRetryCount_eq hlegible, DeathHeader.deathCount, getRetryCount]
  change (Option.map countOf (find? (describes QueueName.order.text DeathReason.rejected.text)
    e.deaths.tables)).getD 0 = _
  generalize e.deaths.tables.find? (describes _ _) = entry at hfind ⊢
  generalize c.xDeath.find? _ = mine at hfind ⊢
  cases hfind with
  | none => rfl
  | some hx => simp [countOf, hx.count]

/-- The consumer handles the broker's message as the model's. -/
theorem Carries.listenVoucherOrder (h : Carries c e) (tag : ℕ) :
    VoucherOrderConsumer.listenVoucherOrder e.body e.deaths tag =
      listenVoucherOrder c.message c.xDeath tag := by
  have hfailure : VoucherOrderConsumer.consumeFailure c.message e.deaths tag =
      consumeFailure c.message c.xDeath tag := by
    simp only [VoucherOrderConsumer.consumeFailure, consumeFailure, h.retryCount, ge_iff_le,
      Nat.cast_le]
  simp only [VoucherOrderConsumer.listenVoucherOrder, Seckill.listenVoucherOrder, h.body, hfailure]

/-- A message that goes back to the order queue was rejected there before. -/
theorem Carries.not_automaticCycle (h : Carries c e) :
    automaticCycle QueueName.order.text e.deaths.tables = false := by
  refine automaticCycle_eq_false fun t ht hqueue => ?_
  obtain ⟨x, hx, hshows⟩ := h.exists_shows ht
  rw [hshows.queue] at hqueue
  have horder : x.queue = .order := queueText_injective (by simpa using hqueue)
  rw [hshows.reason, h.rejected x hx horder]
  rfl

end Headers

section DeadLetters
variable (instanceIds : List String) (key reason : String) {tables : List FieldTable}

theorem deadLetters_order :
    (RabbitMqConfig.declared instanceIds).deadLetters QueueName.order.text "rejected" key tables =
      ([QueueName.retry.text], RabbitMqConstants.orderRetryRoutingKey) := by
  have hqueue := RabbitMqConfig.queue?_common (q := RabbitMqConfig.orderQueue) instanceIds
    QueueName.order.text (by decide)
  have hroute := RabbitMqConfig.route_retry instanceIds
  simp only [Topology.deadLetters, hqueue]
  simp only [RabbitMqConfig.orderQueue, Option.getD_some, hroute, decide_true, Bool.true_or,
    filter_true]
  rfl

theorem deadLetters_retry (h : automaticCycle QueueName.order.text tables = false) :
    (RabbitMqConfig.declared instanceIds).deadLetters QueueName.retry.text reason key tables =
      ([QueueName.order.text], RabbitMqConstants.orderRoutingKey) := by
  have hqueue := RabbitMqConfig.queue?_common (q := RabbitMqConfig.orderRetryQueue) instanceIds
    QueueName.retry.text (by decide)
  have hroute : (RabbitMqConfig.declared instanceIds).route RabbitMqConstants.orderExchange
      RabbitMqConstants.orderRoutingKey = [QueueName.order.text] :=
    RabbitMqConfig.route_order instanceIds
  simp only [Topology.deadLetters, hqueue]
  simp [RabbitMqConfig.orderRetryQueue, hroute, h]

theorem deadLetters_none {q : QueueName} (h : q = .failed ∨ q = .parking) :
    (RabbitMqConfig.declared instanceIds).deadLetters q.text reason key tables = ([], key) := by
  rcases h with rfl | rfl
  · have hqueue := RabbitMqConfig.queue?_common (q := RabbitMqConfig.orderFailedQueue) instanceIds
      QueueName.failed.text (by decide)
    simp only [Topology.deadLetters, hqueue]
    rfl
  · have hqueue := RabbitMqConfig.queue?_common
      (q := RabbitMqConfig.orderFailedParkingQueue) instanceIds QueueName.parking.text
      (by decide)
    simp only [Topology.deadLetters, hqueue]
    rfl

end DeadLetters

structure Opens (d : Delivery) (u : Unacked Message) : Prop where
  tag : u.tag = d.tag
  queue : u.queue = d.queue.text
  carries : Carries d.copy u.envelope
  consumed : d.queue ≠ .retry

/-- The broker's order queues and open deliveries are those of the model. -/
structure Mirrors (w : World) (b : Broker Message) : Prop where
  ready : ∀ q, Forall₂ Carries (w.queues q) (b.ready q.text)
  unacked : Forall₂ Opens w.unacked b.unacked
  nextTag : b.nextTag = w.nextTag

section Mirrors
variable (instanceIds : List String) {w w' : World} {b : Broker Message} {q : QueueName} {c : Copy} {e : Envelope Message}

theorem Mirrors.of_eq (h : Mirrors w b) (hqueues : w'.queues = w.queues)
    (hunacked : w'.unacked = w.unacked) (htag : w'.nextTag = w.nextTag) : Mirrors w' b :=
  ⟨by rw [hqueues]; exact h.ready, by rw [hunacked]; exact h.unacked, by rw [htag]; exact h.nextTag⟩

theorem Mirrors.enqueue (h : Mirrors w b) (hc : Carries c e) :
    Mirrors (w.enqueue q c) (b.enqueue [q.text] e) := by
  refine ⟨fun q' => ?_, h.unacked, h.nextTag⟩
  by_cases hq : q' = q
  · subst hq
    simpa [World.enqueue, Broker.enqueue] using rel_append (h.ready q') (.cons hc .nil)
  · have htext : q'.text ≠ q.text := fun ht => hq (queueText_injective ht)
    simpa [World.enqueue, Broker.enqueue, hq, htext] using h.ready q'

theorem Mirrors.enqueue_nil (h : Mirrors w b) : Mirrors w (b.enqueue [] e) := by
  simpa [Broker.enqueue] using h

theorem Mirrors.settle (h : Mirrors w b) (tag : ℕ) : Mirrors (w.settle tag) (b.settle tag) := by
  refine ⟨h.ready, ?_, h.nextTag⟩
  refine rel_filter (fun d u hd => ?_) h.unacked
  simp [hd.tag]

theorem Mirrors.removeCopy (h : Mirrors w b) (n : ℕ) :
    Mirrors (w.removeCopy q n) (b.removeReady q.text n) := by
  refine ⟨fun q' => ?_, h.unacked, h.nextTag⟩
  by_cases hq : q' = q
  · subst hq
    simpa [World.removeCopy, Broker.removeReady] using forall₂_eraseIdx (h.ready q') n
  · have htext : q'.text ≠ q.text := fun ht => hq (queueText_injective ht)
    simpa [World.removeCopy, Broker.removeReady, hq, htext] using h.ready q'

theorem Mirrors.deliver (h : Mirrors w b) {n : ℕ} (hcopy : (w.queues q)[n]? = some c)
    (hq : q ≠ .retry) : ∃ b', b.step (RabbitMqConfig.declared instanceIds) (.deliver q.text n) =
      some b' ∧ Mirrors (w.deliver q n c) b' := by
  have hready := forall₂_getElem? (h.ready q) n
  rw [hcopy] at hready
  simp only [Broker.step]
  generalize (b.ready q.text)[n]? = e at hready ⊢
  cases hready with
  | some hc =>
    have hremoved := h.removeCopy (q := q) n
    refine ⟨_, rfl, hremoved.ready, .cons ⟨h.nextTag, rfl, hc, hq⟩ h.unacked, ?_⟩
    exact congrArg (· + 1) h.nextTag

theorem Mirrors.reject (h : Mirrors w b) (tag : ℕ) (requeue : Bool) (details : FieldTable) :
    ∃ b', b.step (RabbitMqConfig.declared instanceIds) (.reject tag requeue details) = some b' ∧
      Mirrors (w.reject tag requeue) b' := by
  have hsame : ∀ d u, Opens d u → decide (d.tag = tag) = decide (u.tag = tag) := by
    intro d u hd
    rw [hd.tag]
  have hfind := forall₂_find? h.unacked hsame
  have hsettled := h.settle tag
  simp only [Broker.step, World.reject]
  generalize w.unacked.find? (fun d => decide (d.tag = tag)) = mine at hfind ⊢
  generalize b.unacked.find? (fun u => decide (u.tag = tag)) = theirs at hfind ⊢
  cases hfind with
  | none => exact ⟨b, rfl, h⟩
  | @some d u hd =>
    cases requeue with
    | true => exact ⟨_, rfl, hd.queue ▸ hsettled.enqueue hd.carries⟩
    | false =>
      refine ⟨_, rfl, ?_⟩
      simp only [Bool.false_eq_true, if_false, Broker.die, hd.queue]
      by_cases horder : d.queue = .order
      · simp only [horder, if_true, deadLetters_order]
        exact hsettled.enqueue (hd.carries.die .order .rejected (fun _ => rfl) details _)
      · have hlast : d.queue = .failed ∨ d.queue = .parking := by
          have hretry := hd.consumed
          revert horder hretry
          cases d.queue <;> simp
        simp only [horder, if_false, deadLetters_none instanceIds _ _ hlast]
        exact hsettled.enqueue_nil

theorem Mirrors.expireRetry (h : Mirrors w b) {n : ℕ} (hcopy : (w.queues .retry)[n]? = some c)
    (details : FieldTable) : ∃ b', b.step (RabbitMqConfig.declared instanceIds)
      (.expire QueueName.retry.text n details) = some b' ∧ Mirrors (w.expireRetry n c) b' := by
  have hready := forall₂_getElem? (h.ready .retry) n
  rw [hcopy] at hready
  have hqueue := RabbitMqConfig.queue?_common (q := RabbitMqConfig.orderRetryQueue) instanceIds
    QueueName.retry.text (by decide)
  have hremoved := h.removeCopy (q := .retry) n
  simp only [Broker.step, hqueue]
  generalize (b.ready QueueName.retry.text)[n]? = e at hready ⊢
  cases hready with
  | @some _ e hc =>
    have hdied := hc.die .retry .expired nofun details RabbitMqConstants.orderRoutingKey
    have hcycle : automaticCycle QueueName.order.text
        (e.deaths.record ⟨QueueName.retry.text, "expired", details⟩).tables = false :=
      hdied.not_automaticCycle
    refine ⟨_, rfl, ?_⟩
    simp only [Broker.die, deadLetters_retry instanceIds _ _ hcycle]
    exact hremoved.enqueue hdied

end Mirrors
def Cmd.command (details : FieldTable) : Cmd → Option (Command Message)
  | .sendOrder m => some (.publish RabbitMqConstants.orderExchange
      RabbitMqConstants.orderRoutingKey m)
  | .sendFailed m => some (.publish RabbitMqConstants.orderFailedExchange
      RabbitMqConstants.orderFailedRoutingKey m)
  | .park m => some (.publish RabbitMqConstants.orderFailedParkingExchange
      RabbitMqConstants.orderFailedParkingRoutingKey m)
  | .basicAck tag => some (.ack tag)
  | .basicReject tag requeue | .basicNack tag requeue => some (.reject tag requeue details)
  | _ => none

def ProtocolAction.command (details : FieldTable) : ProtocolAction → Option (Command Message)
  | .deliver q n => some (.deliver q.text n)
  | .requeue tag => some (.reject tag true details)
  | .expireRetry n => some (.expire QueueName.retry.text n details)
  | _ => none

/-- What a move of the protocol tells the broker; `details` is what the broker notes of a death. -/
def moveCommand (details : FieldTable) (c : ProtocolConfig) :
    Move Choice ProtocolAction → Option (Command Message)
  | .run i _ => match c.threads[i]? with
    | some ⟨_, .call cmd _⟩ => cmd.command details
    | _ => none
  | .crash _ => none
  | .act a => a.command details

/-- The broker does what it is told, or a call does not get through to it. -/
def Follows (T : Topology) (b : Broker Message) (told : Option (Command Message))
    (b' : Broker Message) : Prop :=
  b' = b ∨ ∃ command, told = some command ∧ b.step T command = some b'

section Simulation
variable (instanceIds : List String) (details : FieldTable) {w w' : World} {b : Broker Message}

theorem Mirrors.publish (h : Mirrors w b) {q : QueueName} {exchange key : String}
    (hroute : (RabbitMqConfig.declared instanceIds).route exchange key = [q.text]) (m : Message) :
    ∃ b', b.step (RabbitMqConfig.declared instanceIds) (.publish exchange key m) = some b' ∧
      Mirrors (w.enqueue q ⟨m, []⟩) b' := by
  refine ⟨_, rfl, ?_⟩
  rw [hroute]
  exact h.enqueue ⟨rfl, .nil, nofun⟩

theorem Mirrors.effect (h : Mirrors w b) {cmd : Cmd} (he : Effect w cmd w') :
    ∃ b', Follows (RabbitMqConfig.declared instanceIds) b (cmd.command details) b' ∧
      Mirrors w' b' := by
  have same : ∀ w', w'.queues = w.queues → w'.unacked = w.unacked → w'.nextTag = w.nextTag →
      ∃ b', Follows (RabbitMqConfig.declared instanceIds) b (cmd.command details) b' ∧
        Mirrors w' b' := fun w' hq hu ht => ⟨b, .inl rfl, h.of_eq hq hu ht⟩
  cases he with
  | publish m fate =>
    cases fate with
    | stored =>
      obtain ⟨b', hstep, hb'⟩ := h.publish (q := .order) instanceIds
        (RabbitMqConfig.route_order instanceIds) m
      exact ⟨b', .inr ⟨_, rfl, hstep⟩, hb'.of_eq rfl rfl rfl⟩
    | returned | lost => exact same _ rfl rfl rfl
  | forward m fate =>
    cases fate with
    | stored =>
      obtain ⟨b', hstep, hb'⟩ := h.publish (q := .failed) instanceIds
        (RabbitMqConfig.route_failed instanceIds) m
      exact ⟨b', .inr ⟨_, rfl, hstep⟩, hb'.of_eq rfl rfl rfl⟩
    | returned | lost => exact same _ rfl rfl rfl
  | park m =>
    obtain ⟨b', hstep, hb'⟩ := h.publish (q := .parking) instanceIds
      (RabbitMqConfig.route_parking instanceIds) m
    exact ⟨b', .inr ⟨_, rfl, hstep⟩, hb'⟩
  | settle tag => exact ⟨_, .inr ⟨_, rfl, rfl⟩, h.settle tag⟩
  | reject tag requeue | nack tag requeue =>
    obtain ⟨b', hstep, hb'⟩ := h.reject instanceIds tag requeue details
    exact ⟨b', .inr ⟨_, rfl, hstep⟩, hb'⟩
  | @offer u v o now fresh =>
    rcases w.offer_cases u v o now with ⟨-, he⟩ | ⟨stock, -, -, -, -, -, he⟩
    · rw [he]; exact same _ rfl rfl rfl
    · rw [he]; exact same _ rfl rfl rfl
  | commit order =>
    rcases w.commit_cases order with ⟨_, _, -, -, hc⟩ | ⟨-, hc⟩ | ⟨-, hc⟩
    · rw [hc]; exact same _ rfl rfl rfl
    · rw [hc]; exact same _ rfl rfl rfl
    · rw [hc]; exact same _ rfl rfl rfl
  | _ => exact same _ rfl rfl rfl

theorem Mirrors.act (h : Mirrors w b) {a : ProtocolAction} {started : List ProtocolThread}
    (ha : World.act a w = some (w', started)) :
    ∃ b', Follows (RabbitMqConfig.declared instanceIds) b (a.command details) b' ∧
      Mirrors w' b' := by
  cases a with
  | deliver q n =>
    obtain ⟨c, t, hcopy, hlistener, rfl, -⟩ := act_deliver ha
    have hq : q ≠ .retry := by rintro rfl; cases hlistener
    obtain ⟨b', hstep, hb'⟩ := h.deliver instanceIds hcopy hq
    exact ⟨b', .inr ⟨_, rfl, hstep⟩, hb'⟩
  | requeue tag =>
    cases ha
    obtain ⟨b', hstep, hb'⟩ := h.reject instanceIds tag true details
    exact ⟨b', .inr ⟨_, rfl, hstep⟩, hb'⟩
  | expireRetry n =>
    obtain ⟨c, hcopy, rfl, -⟩ := act_expireRetry ha
    obtain ⟨b', hstep, hb'⟩ := h.expireRetry instanceIds hcopy details
    exact ⟨b', .inr ⟨_, rfl, hstep⟩, hb'⟩
  | confirm n ack cause =>
    obtain ⟨p, -, -, rfl, -⟩ := act_confirm ha
    exact ⟨b, .inl rfl, h.of_eq rfl rfl rfl⟩
  | returned n code text exchange key =>
    obtain ⟨m, -, rfl, -⟩ := act_returned ha
    exact ⟨b, .inl rfl, h.of_eq rfl rfl rfl⟩
  | expireData v o =>
    obtain ⟨-, rfl, -⟩ := act_expireData ha
    exact ⟨b, .inl rfl, h.of_eq rfl rfl rfl⟩
  | request u v | republish | tick clock redisTime =>
    cases ha
    exact ⟨b, .inl rfl, h.of_eq rfl rfl rfl⟩

/-- Every move of the protocol is one command to the broker, or none. -/
theorem Mirrors.fires {c c' : ProtocolConfig} {mv : Move Choice ProtocolAction}
    (h : Mirrors c.shared b) (hf : seckillProtocol.Fires c mv c') :
    ∃ b', Follows (RabbitMqConfig.declared instanceIds) b (moveCommand details c mv) b' ∧
      Mirrors c'.shared b' := by
  cases hf with
  | run hi hexec =>
    obtain ⟨-, hexec⟩ := Option.ite_none_right_eq_some.mp hexec
    rw [moveCommand, hi]
    exact h.effect instanceIds details (effect_of_exec hexec)
  | crash hb => exact ⟨b, .inl rfl, h⟩
  | act ha => exact h.act instanceIds details ha

theorem Mirrors.opening (hw : w.Opening) : Mirrors w .start := by
  rw [hw.start]
  exact ⟨fun _ => .nil, .nil, rfl⟩

def commands (details : ℕ → FieldTable) :
    ProtocolConfig → List (Move Choice ProtocolAction) → List (Option (Command Message))
  | _, [] => []
  | c, mv :: mvs => moveCommand (details mvs.length) c mv :: match seckillProtocol.step c mv with
    | some c' => commands details c' mvs
    | none => []

inductive FollowsAll (T : Topology) :
    Broker Message → List (Option (Command Message)) → Broker Message → Prop
  | nil (b : Broker Message) : FollowsAll T b [] b
  | cons {b b' b'' : Broker Message} {told : Option (Command Message)}
      {rest : List (Option (Command Message))} (head : Follows T b told b')
      (tail : FollowsAll T b' rest b'') : FollowsAll T b (told :: rest) b''

theorem Mirrors.play (details : ℕ → FieldTable) {c c' : ProtocolConfig}
    {mvs : List (Move Choice ProtocolAction)} (h : Mirrors c.shared b)
    (hplay : seckillProtocol.play (fun _ _ => true) c mvs = some c') :
    ∃ b', FollowsAll (RabbitMqConfig.declared instanceIds) b (commands details c mvs) b' ∧
      Mirrors c'.shared b' := by
  induction mvs generalizing c b with
  | nil => cases hplay; exact ⟨b, .nil b, h⟩
  | cons mv mvs ih =>
    simp only [Machine.play, if_true] at hplay
    obtain ⟨d, hstep, hrest⟩ := Option.bind_eq_some_iff.mp hplay
    obtain ⟨b₁, hfollows, hb₁⟩ := h.fires instanceIds (details mvs.length)
      (Machine.fires_of_step hstep)
    obtain ⟨b', hall, hb'⟩ := ih hb₁ hrest
    refine ⟨b', ?_, hb'⟩
    rw [commands, hstep]
    exact .cons hfollows hall

/-- A broker that has the declared topology and nothing else follows every schedule of the protocol:
each move is at most the one command it names, at the end the queues and the open deliveries are
those of the model, and the consumer does with the broker's header what it does in the model. -/
theorem schedule_on_declared_topology (details : ℕ → FieldTable) {c : ProtocolConfig}
    {mvs : List (Move Choice ProtocolAction)} (hw : w.Opening)
    (hplay : seckillProtocol.play (fun _ _ => true) ⟨w, []⟩ mvs = some c) :
    ∃ b, FollowsAll (RabbitMqConfig.declared instanceIds) .start (commands details ⟨w, []⟩ mvs) b ∧
      Mirrors c.shared b ∧ ∀ d u, Opens d u → ∀ tag,
        VoucherOrderConsumer.listenVoucherOrder u.envelope.body u.envelope.deaths tag =
          listenVoucherOrder d.copy.message d.copy.xDeath tag := by
  obtain ⟨b, hfollows, hb⟩ := (Mirrors.opening hw).play instanceIds details hplay
  exact ⟨b, hfollows, hb, fun _ _ hd tag => hd.carries.listenVoucherOrder tag⟩

end Simulation

/-- A schedule in which the order is rejected once and comes back. -/
def comesBack : List (Move Choice ProtocolAction) :=
  [.act (.request 7 1), .run 0 (.drawn 100)] ++ performs 0 3 ++
    [.act (.deliver .order 0), .run 1 .performed, .run 1 (.fails ⟨.other, "timeout"⟩)] ++
    performs 1 1 ++ [.act (.expireRetry 0)]

theorem schedule_on_declared_topology_comesBack : ∃ c,
    seckillProtocol.play (fun _ _ => true) ⟨sampleWorld, []⟩ comesBack = some c ∧
    ∃ b, FollowsAll (RabbitMqConfig.declared ["app-1"]) .start
      (commands (fun _ _ => none) ⟨sampleWorld, []⟩ comesBack) b ∧ Mirrors c.shared b := by
  have hplay : (seckillProtocol.play (fun _ _ => true) ⟨sampleWorld, []⟩ comesBack).isSome = true := by
    decide
  obtain ⟨c, hc⟩ := Option.isSome_iff_exists.mp hplay
  obtain ⟨b, hfollows, hb, -⟩ := schedule_on_declared_topology ["app-1"]
    (fun _ _ => none) sampleWorld_opening hc
  exact ⟨c, hc, b, hfollows, hb⟩

end HmDianPing.Seckill
