import Mathlib.Logic.Relation
import HmDianPing.Amqp.DeadLetter
import HmDianPing.Seckill.Settlement
import HmDianPing.Seckill.Protocol

/-! # The retries of one copy

A copy of an order message goes round between the order queue and its retry queue.
The consumer knows how often only from the header the broker keeps, so the bound on
the rounds is one on the history of dead-letterings behind that header.
-/
namespace HmDianPing.Seckill
open Interleaving Program Amqp Relation

/-- `RabbitMqConstants.ORDER_QUEUE`, `ORDER_RETRY_QUEUE`, `ORDER_FAILED_QUEUE` and
`ORDER_FAILED_PARKING_QUEUE`. -/
def QueueName.text : QueueName → String
  | .order => "hmdp.order.create.queue"
  | .retry => "hmdp.order.retry.queue"
  | .failed => "hmdp.order.failed.queue"
  | .parking => "hmdp.order.failed.parking.queue"

def DeathReason.text : DeathReason → String
  | .rejected => "rejected"
  | .expired => "expired"

namespace VoucherOrderConsumer

/-- The body of the loop of `getRetryCount`, which goes on when a count is no number. -/
def retryCountOf (xDeath : FieldTable) : Option Long :=
  if valueOf (xDeath "queue") = QueueName.order.text ∧ valueOf (xDeath "reason") = "rejected" then
    match xDeath "count" with
    | some (.number count) => some count
    | _ => none
  else none

def getRetryCount (xDeath : DeathHeader) : Long := (xDeath.tables.findSome? retryCountOf).getD 0

def consumeFailure (orderMessage : Message) (xDeath : DeathHeader) (deliveryTag : ℕ) :
    Handler Unit :=
  if getRetryCount xDeath ≥ maxRetryCount then
    tryCatch (do
      sendToFailedQueueAndWaitForConfirm orderMessage
      perform (Cmd.basicAck deliveryTag)) fun _ => perform (Cmd.basicNack deliveryTag true)
  else perform (Cmd.basicReject deliveryTag false)

def listenVoucherOrder (orderMessage : Message) (xDeath : DeathHeader) (deliveryTag : ℕ) :
    Handler Unit :=
  tryCatch (consumeOrder orderMessage deliveryTag) fun e =>
    if e.kind = .duplicateKey then consumeDuplicate orderMessage deliveryTag
    else consumeFailure orderMessage xDeath deliveryTag

end VoucherOrderConsumer

section Header
variable {t : FieldTable} {h : DeathHeader}

/-- What was never rejected from the order queue has no entry for it. -/
def NeverRejected (h : DeathHeader) : Prop :=
  ∀ t ∈ h.tables, ¬ (valueOf (t "queue") = QueueName.order.text ∧ valueOf (t "reason") = "rejected")

theorem retryCountOf_eq (ht : Legible QueueName.order.text "rejected" t) :
    VoucherOrderConsumer.retryCountOf t =
      if describes QueueName.order.text "rejected" t then some (countOf t) else none := by
  unfold VoucherOrderConsumer.retryCountOf
  by_cases hread : valueOf (t "queue") = QueueName.order.text ∧ valueOf (t "reason") = "rejected"
  · obtain ⟨hdesc, n, hcount⟩ := ht hread.1 hread.2
    simp [hread, hdesc, hcount, countOf]
  · have hdesc : ¬ describes QueueName.order.text "rejected" t = true := by
      intro hdesc
      obtain ⟨hq, hr⟩ := describes_iff.mp hdesc
      exact hread ⟨by rw [hq]; rfl, by rw [hr]; rfl⟩
    simp [hread, hdesc]

/-- The search of the consumer finds the count of the broker. -/
theorem getRetryCount_eq (hl : ∀ t ∈ h.tables, Legible QueueName.order.text "rejected" t) :
    VoucherOrderConsumer.getRetryCount h = h.deathCount QueueName.order.text "rejected" := by
  unfold VoucherOrderConsumer.getRetryCount DeathHeader.deathCount
  generalize h.tables = tables at hl
  congr 1
  induction tables with
  | nil => rfl
  | cons t tables ih =>
    rw [List.forall_mem_cons] at hl
    rw [List.findSome?_cons, List.find?_cons, retryCountOf_eq hl.1]
    cases hdesc : describes QueueName.order.text "rejected" t with
    | true => simp
    | false => simpa using ih hl.2

theorem NeverRejected.legible (hn : NeverRejected h) :
    ∀ t ∈ h.tables, Legible QueueName.order.text "rejected" t :=
  fun t ht hq hr => absurd ⟨hq, hr⟩ (hn t ht)

theorem NeverRejected.deathCount (hn : NeverRejected h) :
    h.deathCount QueueName.order.text "rejected" = 0 := by
  have hnone : h.tables.find? (describes QueueName.order.text "rejected") = none := by
    rw [List.find?_eq_none]
    intro t ht hdesc
    obtain ⟨hq, hr⟩ := describes_iff.mp hdesc
    exact hn t ht ⟨by rw [hq]; rfl, by rw [hr]; rfl⟩
  simp [DeathHeader.deathCount, hnone]

end Header

def XDeath.table (x : XDeath) : FieldTable :=
  withCount (Death.fresh ⟨x.queue.text, x.reason.text, fun _ => none⟩) x.count

section Tables
variable (xs : List XDeath)

theorem queueText_injective : Function.Injective QueueName.text := by
  intro q q' h
  cases q <;> cases q' <;> first
    | rfl
    | exact absurd h (by decide)

theorem reasonText_injective : Function.Injective DeathReason.text := by
  intro r r' h
  cases r <;> cases r' <;> first
    | rfl
    | exact absurd h (by decide)

theorem table_fields (x : XDeath) : x.table "queue" = some (.string x.queue.text) ∧
    x.table "reason" = some (.string x.reason.text) ∧ x.table "count" = some (.number x.count) := by
  simp [XDeath.table, withCount, Death.fresh]

theorem describes_table (queue : QueueName) (reason : DeathReason) :
    describes queue.text reason.text ∘ XDeath.table =
      fun x => decide (x.queue = queue ∧ x.reason = reason) := by
  funext x
  obtain ⟨hq, hr, -⟩ := table_fields x
  simp [describes, hq, hr, queueText_injective.eq_iff, reasonText_injective.eq_iff]

theorem legible_tables : ∀ t ∈ (DeathHeader.events (xs.map XDeath.table)).tables,
    Legible QueueName.order.text "rejected" t := by
  intro t ht
  obtain ⟨x, -, rfl⟩ := List.mem_map.mp ht
  obtain ⟨hq, hr, hcount⟩ := table_fields x
  intro hqueue hreason
  rw [hq] at hqueue
  rw [hr] at hreason
  exact ⟨describes_iff.mpr ⟨hq.trans (congrArg (some ∘ FieldValue.string) hqueue),
    hr.trans (congrArg (some ∘ FieldValue.string) hreason)⟩, x.count, hcount⟩

theorem getRetryCount_tables :
    VoucherOrderConsumer.getRetryCount (.events (xs.map XDeath.table)) = getRetryCount xs := by
  have hfind : (xs.map XDeath.table).find? (describes QueueName.order.text "rejected") =
      (xs.find? fun x => x.queue = .order ∧ x.reason = .rejected).map XDeath.table := by
    rw [List.find?_map]
    exact congrArg (Option.map XDeath.table ∘ fun p => xs.find? p) (describes_table .order .rejected)
  have hcount : ∀ x : XDeath, countOf x.table = x.count := by
    intro x
    simp [XDeath.table]
  rw [getRetryCount_eq (legible_tables xs), DeathHeader.deathCount, DeathHeader.tables, hfind,
    getRetryCount]
  cases xs.find? fun x => x.queue = .order ∧ x.reason = .rejected with
  | none => rfl
  | some x => exact hcount x

theorem listenVoucherOrder_tables (orderMessage : Message) (deliveryTag : ℕ) :
    VoucherOrderConsumer.listenVoucherOrder orderMessage (.events (xs.map XDeath.table))
      deliveryTag = listenVoucherOrder orderMessage xs deliveryTag := by
  have hfailure : VoucherOrderConsumer.consumeFailure orderMessage (.events (xs.map XDeath.table))
      deliveryTag = consumeFailure orderMessage xs deliveryTag := by
    simp only [VoucherOrderConsumer.consumeFailure, consumeFailure, getRetryCount_tables, ge_iff_le,
      Nat.cast_le]
  simp only [VoucherOrderConsumer.listenVoucherOrder, listenVoucherOrder, hfailure]

theorem record_tables (c : Copy) (queue : QueueName) (reason : DeathReason) :
    DeathHeader.record (.events (c.xDeath.map XDeath.table))
      ⟨queue.text, reason.text, fun _ => none⟩ =
        .events ((c.die queue reason).xDeath.map XDeath.table) := by
  have hfilter : (c.xDeath.map XDeath.table).filter
      (fun t => !describes queue.text reason.text t) =
        (c.xDeath.filter fun x => !decide (x.queue = queue ∧ x.reason = reason)).map
          XDeath.table := by
    rw [List.filter_map]
    exact congrArg (fun p => (c.xDeath.filter fun x => !p x).map XDeath.table)
      (describes_table queue reason)
  have hentry : Death.entry ⟨queue.text, reason.text, fun _ => none⟩ (c.xDeath.map XDeath.table) =
      XDeath.table ⟨queue, reason, ((c.xDeath.find? fun x =>
        decide (x.queue = queue ∧ x.reason = reason)).map XDeath.count).getD 0 + 1⟩ := by
    rw [Death.entry, List.find?_map]
    simp only [describes_table]
    cases hx : c.xDeath.find? fun x => decide (x.queue = queue ∧ x.reason = reason) with
    | none => simp [XDeath.table]
    | some x =>
      have hsame : x.queue = queue ∧ x.reason = reason := by simpa using List.find?_some hx
      simp [XDeath.table, hsame]
  rw [DeathHeader.record]
  simp only [DeathHeader.tables, hfilter, hentry, Copy.die, List.map_cons]

end Tables

/-- A call of an attempt: what a store or the broker throws is its own, and anything may happen
between two calls. -/
def attemptExec (c : Cmd) (f : Choice) (w : World) : Option (Except Exn c.Reply × World) :=
  if f.Genuine then World.exec c f w else none

abbrev Attempt {α : Type} := @Trace World Cmd Cmd.Reply Exn Choice attemptExec (fun _ _ => True) α

/-- The consumer's container handles a delivery of this header. -/
def Handles (m : Message) (xDeath : DeathHeader) (tag : ℕ) (es : List CallEvent) : Prop :=
  ∃ w w' x, Attempt w
    (manualContainer tag (VoucherOrderConsumer.listenVoucherOrder m xDeath tag)) es w' x

/-- Another exception than that of the unique keys ends the `try` of the consumer. -/
def FailedAttempt (es : List CallEvent) : Prop :=
  ∃ e later, failures es = e :: later ∧ e.kind ≠ .duplicateKey

section Attempts
variable {m : Message} {xDeath : DeathHeader} {tag : ℕ} {w w' : World} {es : List CallEvent}
  {x : Except Exn Unit}

theorem attemptExec_kind {c : Cmd} {f : Choice} {e : Exn}
    (h : attemptExec c f w = some (.error e, w')) : e.kind ≠ .rejectAndDontRequeue true := by
  simp only [attemptExec, Option.ite_none_right_eq_some] at h
  rcases exec_error h.2 with ht | ha
  · intro hkind
    have hforeign := h.1 e ht
    simp [Exn.foreign, hkind] at hforeign
  · exact answer_error_kind ha

/-- What the `try` and the first `catch` call. -/
def Cmd.Consuming (tag : ℕ) (c : Cmd) : Prop := c.BeforeAck ∨ c = .basicAck tag

theorem Cmd.Consuming.not_reject {c : Cmd} (h : c.Consuming tag) : c ≠ .basicReject tag false := by
  rintro rfl
  rcases h with h | h
  · exact h.not_settles tag rfl
  · cases h

theorem consumeOrder_plain : (consumeOrder m tag).Plain (Cmd.Consuming tag) := by
  rw [consumeOrder_eq]
  refine (createAndRecord_plain.mono fun _ => Or.inl).bind fun _ => ?_
  exact (plain_perform _).mpr (.inr rfl)

theorem consumeDuplicate_plain : (consumeDuplicate m tag).Plain (Cmd.Consuming tag) := by
  refine ((removePending_plain _ _).mono fun c hc => .inl (.inl hc)).bind fun _ => ?_
  exact (plain_perform _).mpr (.inr rfl)

/-- The last `catch` rejects, or forwards first and then acks or nacks. -/
theorem consumeFailure_attempt
    (h : Attempt w (VoucherOrderConsumer.consumeFailure m xDeath tag) es w' x) :
    (VoucherOrderConsumer.getRetryCount xDeath < maxRetryCount ∨
      (∀ ev ∈ es, ev.cmd ≠ .basicReject tag false) ∧ ∃ ev ∈ es, ev.cmd = .sendFailed m) ∧
    ∀ e, x = .error e → e.kind ≠ .rejectAndDontRequeue true := by
  have hlast : ∀ {c : Cmd} {w w' : World} {es : List CallEvent} {x : Except Exn c.Reply},
      Attempt w (perform c) es w' x → ∀ e, x = .error e → e.kind ≠ .rejectAndDontRequeue true := by
    rintro c w w' es x h e rfl
    obtain ⟨_, f, -, hexec, -⟩ := Trace.of_perform h
    exact attemptExec_kind hexec
  unfold VoucherOrderConsumer.consumeFailure at h
  split at h
  · have hforward : ∀ {es w' x}, Attempt w (do
        sendToFailedQueueAndWaitForConfirm m
        perform (Cmd.basicAck tag)) es w' x →
          (∀ ev ∈ es, ev.cmd ≠ .basicReject tag false) ∧ ∃ ev ∈ es, ev.cmd = .sendFailed m := by
      intro es w' x h
      have hcalls : Calls (fun c => c ≠ .basicReject tag false) (do
          sendToFailedQueueAndWaitForConfirm m
          perform (Cmd.basicAck tag)) := by
        refine ((sendToFailed_calls tag).mono ?_).bind fun _ => ?_
        · rintro c hc rfl
          exact hc rfl
        · exact (calls_perform _).mpr nofun
      refine ⟨Trace.calls hcalls h, ?_⟩
      rw [sendToFailedQueueAndWaitForConfirm, bind_assoc] at h
      exact h.calls_first
    rcases Trace.of_tryCatch h with ⟨u, rfl, hok⟩ | ⟨e, es₁, es₂, w₁, rfl, h₁, h₂⟩
    · exact ⟨.inr (hforward hok), nofun⟩
    · obtain ⟨hnone, ev, hev, hsent⟩ := hforward h₁
      obtain ⟨w₂, f, -, -, rfl⟩ := Trace.of_perform h₂
      refine ⟨.inr ⟨?_, ev, List.mem_append_left _ hev, hsent⟩, hlast h₂⟩
      intro ev' hev'
      rcases List.mem_append.mp hev' with hev' | hev'
      · exact hnone ev' hev'
      · rw [List.mem_singleton.mp hev']
        exact nofun
  next hcount => exact ⟨.inl (not_le.mp hcount), hlast h⟩

theorem plain_attempt {p : Handler Unit} (hp : p.Plain (Cmd.Consuming tag))
    (h : Attempt w p es w' x) : (∀ ev ∈ es, ev.cmd ≠ .basicReject tag false) ∧
      ((failures es = [] ∧ x = .ok ()) ∨
        ∃ e, failures es = [e] ∧ x = .error e ∧ e.kind ≠ .rejectAndDontRequeue true) := by
  obtain ⟨hcalls, hend⟩ := Trace.of_plain hp h
  refine ⟨fun ev hev => (hcalls ev hev).not_reject, ?_⟩
  rcases hend with ⟨hf, u, hx⟩ | ⟨e, hf, hx⟩
  · exact .inl ⟨hf, hx⟩
  · refine .inr ⟨e, hf, hx, ?_⟩
    exact h.thrown (fun _ _ _ _ _ => attemptExec_kind) e (by simp [hf])

/-- Only an attempt below the maximum rejects, and from there on a failing one forwards. -/
structure AttemptSpec (m : Message) (xDeath : DeathHeader) (tag : ℕ) (es : List CallEvent) :
    Prop where
  reject : ∀ ev ∈ es, ev.cmd = .basicReject tag false →
    VoucherOrderConsumer.getRetryCount xDeath < maxRetryCount
  forward : FailedAttempt es → maxRetryCount ≤ VoucherOrderConsumer.getRetryCount xDeath →
    ∃ ev ∈ es, ev.cmd = .sendFailed m

theorem listenVoucherOrder_attempt
    (h : Attempt w (VoucherOrderConsumer.listenVoucherOrder m xDeath tag) es w' x) :
    AttemptSpec m xDeath tag es ∧ ∀ e, x = .error e → e.kind ≠ .rejectAndDontRequeue true := by
  rcases Trace.of_tryCatch h with ⟨u, rfl, hok⟩ | ⟨e, es₁, es₂, w₁, rfl, h₁, h₂⟩
  · obtain ⟨hnone, ⟨hf, -⟩ | ⟨e, -, hx, -⟩⟩ := plain_attempt consumeOrder_plain hok
    · refine ⟨⟨fun ev hev hcmd => absurd hcmd (hnone ev hev), ?_⟩, nofun⟩
      rintro ⟨e, later, he, -⟩ -
      rw [hf] at he
      cases he
    · cases hx
  · obtain ⟨hnone, ⟨-, hx⟩ | ⟨e', hf, hx, -⟩⟩ := plain_attempt consumeOrder_plain h₁
    · cases hx
    obtain rfl : e = e' := Except.error.inj hx
    by_cases hdup : e.kind = .duplicateKey
    · rw [if_pos hdup] at h₂
      obtain ⟨hnone₂, hend⟩ := plain_attempt consumeDuplicate_plain h₂
      refine ⟨⟨fun ev hev hcmd => ?_, ?_⟩, fun e' he' => ?_⟩
      · rcases List.mem_append.mp hev with hev | hev
        · exact absurd hcmd (hnone ev hev)
        · exact absurd hcmd (hnone₂ ev hev)
      · rintro ⟨e', later, he', hkind⟩ -
        rw [failures_append, hf] at he'
        cases he'
        exact absurd hdup hkind
      · rcases hend with ⟨-, hx₂⟩ | ⟨e'', -, hx₂, hkind⟩
        · rw [hx₂] at he'
          cases he'
        · rw [hx₂] at he'
          cases he'
          exact hkind
    · rw [if_neg hdup] at h₂
      obtain ⟨hend, hkind⟩ := consumeFailure_attempt h₂
      refine ⟨⟨fun ev hev hcmd => ?_, fun _ hcount => ?_⟩, hkind⟩
      · rcases hend with hlt | ⟨hnone₂, -⟩
        · exact hlt
        · rcases List.mem_append.mp hev with hev | hev
          · exact absurd hcmd (hnone ev hev)
          · exact absurd hcmd (hnone₂ ev hev)
      · rcases hend with hlt | ⟨-, ev, hev, hsent⟩
        · exact absurd hcount (not_le.mpr hlt)
        · exact ⟨ev, List.mem_append_right _ hev, hsent⟩

theorem Handles.spec (h : Handles m xDeath tag es) : AttemptSpec m xDeath tag es := by
  obtain ⟨w, w', x, h⟩ := h
  rcases Trace.of_tryCatch h with ⟨u, rfl, hok⟩ | ⟨e, es₁, es₂, w₁, rfl, h₁, h₂⟩
  · exact (listenVoucherOrder_attempt hok).1
  · obtain ⟨hspec, hkind⟩ := listenVoucherOrder_attempt h₁
    rw [if_neg (hkind e rfl)] at h₂
    obtain ⟨rfl, -, -⟩ := Trace.of_pure h₂
    rwa [List.append_nil]

end Attempts

inductive Place where
  | order | retry | settled
deriving DecidableEq, Repr

/-- A copy on its way, with the history of its dead-letterings. -/
structure Tracked where
  place : Place
  xDeath : DeathHeader
  deaths : List Death

/-- How often the copy was rejected into the retry queue. -/
def Tracked.rejections (c : Tracked) : ℕ :=
  c.deaths.countP fun d => d.queue = QueueName.order.text ∧ d.reason = "rejected"

def Tracked.die (c : Tracked) (place : Place) (d : Death) : Tracked :=
  ⟨place, c.xDeath.record d, d :: c.deaths⟩

/-- What happens to a copy. An attempt is settled by what the broker saw of it, or by nothing. -/
inductive CopyStep (m : Message) (c : Tracked) : Tracked → Prop where
  | requeued (place : c.place = .order) : CopyStep m c c
  | acked {tag : ℕ} {es : List CallEvent} (place : c.place = .order)
      (attempt : Handles m c.xDeath tag es) (ack : ∃ ev ∈ es, ev.cmd = .basicAck tag) :
      CopyStep m c { c with place := .settled }
  | nacked {tag : ℕ} {es : List CallEvent} (place : c.place = .order)
      (attempt : Handles m c.xDeath tag es) (nack : ∃ ev ∈ es, ev.cmd = .basicNack tag true) :
      CopyStep m c c
  | rejected {tag : ℕ} {es : List CallEvent} (place : c.place = .order)
      (attempt : Handles m c.xDeath tag es) (reject : ∃ ev ∈ es, ev.cmd = .basicReject tag false)
      (details : FieldTable) : CopyStep m c (c.die .retry ⟨QueueName.order.text, "rejected", details⟩)
  /-- The retry queue gives the copy back, mostly because its time to live is over. -/
  | deadLettered (place : c.place = .retry) (reason : String) (details : FieldTable) :
      CopyStep m c (c.die .order ⟨QueueName.retry.text, reason, details⟩)

/-- The copies that one published with this header can become. -/
def CopyRun (m : Message) (published : DeathHeader) : Tracked → Prop :=
  ReflTransGen (CopyStep m) ⟨.order, published, []⟩

section Runs
variable {m : Message} {published : DeathHeader} {c c' : Tracked}

/-- The header is the published one after the history, and the history has no rejection that the
consumer did not allow. -/
structure Tallied (published : DeathHeader) (c : Tracked) : Prop where
  header : c.xDeath = published.after c.deaths
  bound : c.rejections ≤ maxRetryCount

theorem Tallied.retryCount (hn : NeverRejected published) (hc : Tallied published c) :
    VoucherOrderConsumer.getRetryCount c.xDeath = c.rejections := by
  rw [hc.header, getRetryCount_eq (DeathHeader.legible_after _ _ hn.legible c.deaths),
    DeathHeader.deathCount_after, hn.deathCount, zero_add]
  rfl

theorem rejections_die (c : Tracked) (place : Place) (d : Death) :
    (c.die place d).rejections = c.rejections +
      if d.queue = QueueName.order.text ∧ d.reason = "rejected" then 1 else 0 := by
  simp [Tracked.rejections, Tracked.die, List.countP_cons]

theorem rejections_die_retry (c : Tracked) (place : Place) (reason : String)
    (details : FieldTable) :
    (c.die place ⟨QueueName.retry.text, reason, details⟩).rejections = c.rejections := by
  have hother : ¬ (QueueName.retry.text = QueueName.order.text ∧ reason = "rejected") := by
    rintro ⟨hqueue, -⟩
    exact absurd (queueText_injective hqueue) (by decide)
  rw [rejections_die, if_neg hother, add_zero]

theorem Tallied.step (hn : NeverRejected published) (hc : Tallied published c)
    (h : CopyStep m c c') : Tallied published c' := by
  cases h with
  | requeued place => exact hc
  | acked place attempt ack => exact ⟨hc.header, hc.bound⟩
  | nacked place attempt nack => exact hc
  | rejected place attempt reject details =>
    obtain ⟨ev, hev, hcmd⟩ := reject
    have hlt := attempt.spec.reject ev hev hcmd
    rw [hc.retryCount hn] at hlt
    refine ⟨congrArg (DeathHeader.record · _) hc.header, ?_⟩
    rw [rejections_die, if_pos ⟨rfl, rfl⟩]
    exact_mod_cast hlt
  | deadLettered place reason details =>
    refine ⟨congrArg (DeathHeader.record · _) hc.header, ?_⟩
    rw [rejections_die_retry]
    exact hc.bound

theorem CopyRun.counted (hn : NeverRejected published) (h : CopyRun m published c) :
    Tallied published c := by
  induction h with
  | refl => exact ⟨rfl, Nat.zero_le _⟩
  | tail _ hstep ih => exact ih.step hn hstep

theorem retryCount_step (hn : NeverRejected published) (hc : Tallied published c)
    (h : CopyStep m c c') (hplace : c'.place ≠ .retry) :
    VoucherOrderConsumer.getRetryCount c'.xDeath = VoucherOrderConsumer.getRetryCount c.xDeath := by
  cases h with
  | requeued place => rfl
  | acked place attempt ack => rfl
  | nacked place attempt nack => rfl
  | rejected place attempt reject details => exact absurd rfl hplace
  | deadLettered place reason details =>
    have hstep := (hc.step (m := m) hn (.deadLettered place reason details)).retryCount hn
    rw [hstep, hc.retryCount hn, rejections_die_retry]

end Runs

/-- The count of the consumer is the number of rejections, there are no more of them than the
maximum, from there on a failing attempt forwards the message, and what is no rejection leaves
the count as it is. -/
theorem retries_counted (m : Message) (published : DeathHeader) (hn : NeverRejected published)
    (c : Tracked) (h : CopyRun m published c) :
    VoucherOrderConsumer.getRetryCount c.xDeath = c.rejections ∧
    c.rejections ≤ maxRetryCount ∧
    (∀ tag es, Handles m c.xDeath tag es → c.rejections = maxRetryCount →
      (∀ ev ∈ es, ev.cmd ≠ .basicReject tag false) ∧
      (FailedAttempt es → ∃ ev ∈ es, ev.cmd = .sendFailed m)) ∧
    ∀ c', CopyStep m c c' → c'.place ≠ .retry →
      VoucherOrderConsumer.getRetryCount c'.xDeath =
        VoucherOrderConsumer.getRetryCount c.xDeath := by
  have hc := h.counted hn
  have hcount := hc.retryCount hn
  refine ⟨hcount, hc.bound, ?_, fun c' hstep hplace => retryCount_step hn hc hstep hplace⟩
  intro tag es hes hmax
  rw [hmax] at hcount
  refine ⟨fun ev hev hcmd => ?_, fun hfail => hes.spec.forward hfail (le_of_eq hcount.symm)⟩
  have hlt := hes.spec.reject ev hev hcmd
  rw [hcount] at hlt
  exact lt_irrefl _ hlt

/-- Redis is away, and the fresh copy is rejected. -/
def rejectedDelivery : Option (List CallEvent × World × Except Exn Unit) :=
  playTrace attemptExec
    (manualContainer 3 (VoucherOrderConsumer.listenVoucherOrder sampleMessage .absent 3))
    [.performed, .fails ⟨.other, "connection refused"⟩, .performed] sampleWorld

def Cmd.rejects (tag : ℕ) : Cmd → Bool
  | .basicReject t requeue => t = tag ∧ requeue = false
  | _ => false

theorem Cmd.eq_of_rejects {tag : ℕ} {c : Cmd} (h : c.rejects tag = true) :
    c = .basicReject tag false := by
  cases c with
  | basicReject t requeue =>
    simp only [rejects, decide_eq_true_eq] at h
    rw [h.1, h.2]
  | _ => cases h

theorem rejectedDelivery_isSome : rejectedDelivery.isSome := by decide +kernel

def rejectedCopy : Tracked :=
  (⟨.order, .absent, []⟩ : Tracked).die .retry ⟨QueueName.order.text, "rejected", fun _ => none⟩

theorem rejectedCopy_run : CopyRun sampleMessage .absent rejectedCopy := by
  refine .single (.rejected rfl ⟨sampleWorld, _, _, trace_of_play_isSome (fun _ => trivial)
    rejectedDelivery_isSome⟩ ?_ _)
  have hany : (rejectedDelivery.get rejectedDelivery_isSome).1.any
      (fun ev => ev.cmd.rejects 3) = true := by decide +kernel
  obtain ⟨ev, hev, hcmd⟩ := List.any_eq_true.mp hany
  exact ⟨ev, hev, Cmd.eq_of_rejects hcmd⟩

theorem retries_counted_rejectedCopy :
    VoucherOrderConsumer.getRetryCount rejectedCopy.xDeath = rejectedCopy.rejections ∧
      rejectedCopy.rejections = 1 :=
  ⟨(retries_counted sampleMessage .absent nofun rejectedCopy rejectedCopy_run).1,
    by decide +kernel⟩

end HmDianPing.Seckill
