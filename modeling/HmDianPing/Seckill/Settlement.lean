import HmDianPing.Interleaving.Trace
import HmDianPing.Seckill.Messaging

/-! # Every delivery is settled once

One handling of a delivery is a trace of its calls, with every outcome of every
call and anything else happening in between, except that nobody removes order rows.
-/
namespace HmDianPing.Seckill
open Interleaving Program

/-- The calls on the channel that settle the delivery. -/
def Cmd.Settles (tag : ℕ) : Cmd → Prop
  | .basicAck t | .basicReject t _ | .basicNack t _ => t = tag
  | _ => False

instance (tag : ℕ) : DecidablePred (Cmd.Settles tag) := fun c => by
  cases c <;> unfold Cmd.Settles <;> infer_instance

def Cmd.onChannel : Cmd → Bool
  | .basicAck _ | .basicReject _ _ | .basicNack _ _ => true
  | _ => false

/-- Channel calls succeed, and no client throws the exception that asks the container to reject. -/
def Choice.Allowed (c : Cmd) (f : Choice) : Prop :=
  (c.onChannel = true → f.thrown = none) ∧
    ∀ e ∈ f.thrown, e.kind ≠ .rejectAndDontRequeue true

instance (c : Cmd) (f : Choice) : Decidable (f.Allowed c) :=
  inferInstanceAs (Decidable (_ ∧ ∀ e ∈ f.thrown, _))

def handlingExec (c : Cmd) (f : Choice) (w : World) : Option (Except Exn c.Reply × World) :=
  if f.Allowed c then World.exec c f w else none

/-- What the rest of the system may do meanwhile. -/
def World.Keeps (w w' : World) : Prop :=
  w.db.orders.rows ⊆ w'.db.orders.rows ∧ w.forwarded ⊆ w'.forwarded

abbrev Handling {α : Type} := @Trace World Cmd Cmd.Reply Exn Choice handlingExec World.Keeps α

def settlements (tag : ℕ) (es : List CallEvent) : ℕ :=
  es.countP fun ev => ev.cmd.Settles tag

def RowFor (m : Message) (db : Database) : Prop :=
  ∃ row ∈ db.orders.rows, row.userId = m.userId ∧ row.voucherId = m.voucherId

/-- The broker confirmed a forwarded copy that it did not return. -/
def Confirmed (ev : CallEvent) : Prop :=
  match ev with
  | ⟨_, .awaitConfirm _, .ok (some confirm), _⟩ => confirm.ack = true ∧ confirm.returned = none
  | _ => False

/-- Why an ack may be given: the row, or a confirmed copy in the failed queue. -/
def AckJustified (m : Message) (es : List CallEvent) (ev : CallEvent) : Prop :=
  RowFor m ev.before.db ∨ m ∈ ev.before.forwarded ∧ ∃ ev' ∈ es, Confirmed ev'

/-- The property of one handling by the main consumer. -/
def SettledJustly (m : Message) (tag : ℕ) (es : List CallEvent) : Prop :=
  settlements tag es = 1 ∧ ∀ ev ∈ es, ev.cmd = .basicAck tag → AckJustified m es ev

/-- If the first call to fail throws `DuplicateKeyException`, no later call fails, and in the end
there is a row for the user and the voucher. -/
def DuplicateHandled (m : Message) (es : List CallEvent) (w' : World) : Prop :=
  ∀ e later, failures es = e :: later → e.kind = .duplicateKey → later = [] ∧ RowFor m w'.db

/-- A call that throws, or a restore script that returns nothing. -/
def missed : (c : Cmd) → Except Exn c.Reply → Bool
  | .redis _ (.restore _ _), r => match r with
    | .ok (some _) => false
    | _ => true
  | _, .ok _ => false
  | _, .error _ => true

def misses (es : List CallEvent) : ℕ := es.countP fun ev => missed ev.cmd ev.reply

section Exec
variable {c : Cmd} {f : Choice} {w w' : World}

theorem exec_of_handling {r : Except Exn c.Reply} (h : handlingExec c f w = some (r, w')) :
    f.Allowed c ∧ World.exec c f w = some (r, w') := by
  simpa [handlingExec, Option.ite_none_right_eq_some] using h

theorem keeps_of_exec {r : Except Exn c.Reply} (h : handlingExec c f w = some (r, w')) :
    w.Keeps w' :=
  ⟨World.rows_subset_exec (exec_of_handling h).2, World.forwarded_subset_exec (exec_of_handling h).2⟩

theorem channel_reply {r : Except Exn c.Reply} (hc : c.onChannel = true)
    (h : handlingExec c f w = some (r, w')) : ∃ a, r = .ok a := by
  obtain ⟨⟨hf, -⟩, h⟩ := exec_of_handling h
  cases r with
  | ok a => exact ⟨a, rfl⟩
  | error e =>
    rcases exec_error h with ht | ha
    · rw [hf hc] at ht
      cases ht
    · cases c with
      | basicAck | basicReject | basicNack => cases ha
      | _ => cases hc

theorem answer_error_kind {e : Exn} (ha : w.answer c = some (.error e, w')) :
    e.kind ≠ .rejectAndDontRequeue true := by
  cases c with
  | redis v c =>
    cases c with
    | hincrBy o field delta =>
      simp only [World.answer, RedisCmd.run] at ha
      split at ha <;> cases ha
      simp [redisException]
    | restore u o =>
      simp only [World.answer, RedisCmd.run] at ha
      split at ha <;> cases ha
      simp [redisException]
    | _ => cases ha
  | createVouchOrder order =>
    rcases w.commit_cases order with ⟨_, _, _, _, hc⟩ | ⟨-, hc⟩ | ⟨-, hc⟩ <;>
      (simp only [World.answer, hc] at ha; cases ha)
    · simp [duplicateKeyException]
    · simp
  | statement s =>
    cases s with
    | save order =>
      simp only [World.answer, Statement.run] at ha
      split at ha <;> cases ha
      simp [duplicateKeyException]
    | decrementStock v =>
      simp only [World.answer, Statement.run] at ha
      split at ha <;> cases ha
    | _ => cases ha
  | seckill u v o now =>
    simp only [World.answer, Option.ite_none_left_eq_some, Option.some.injEq] at ha
    cases ha.2
  | awaitConfirm correlation =>
    obtain ⟨_, -, hp⟩ := Option.map_eq_some_iff.mp ha
    cases hp
  | _ => cases ha

theorem error_kind {e : Exn} (h : handlingExec c f w = some (.error e, w')) :
    e.kind ≠ .rejectAndDontRequeue true := by
  obtain ⟨⟨-, hf⟩, h⟩ := exec_of_handling h
  rcases exec_error h with ht | ha
  · exact hf e ht
  · exact answer_error_kind ha

theorem row_of_created {order : VoucherOrder} {u : Unit}
    (h : handlingExec (.createVouchOrder order) f w = some (.ok u, w')) :
    order ∈ w'.db.orders.rows :=
  exec_createVouchOrder_row (exec_of_handling h).2

theorem forwarded_of_sent {m : Message} {correlation : CorrelationData}
    (h : handlingExec (.sendFailed m) f w = some (.ok correlation, w'))
    (hfate : correlation.fate = .stored) : m ∈ w'.forwarded := by
  rw [exec_sendFailed_ok (exec_of_handling h).2, hfate]
  exact List.mem_cons_self

theorem stored_of_confirmed {correlation : CorrelationData} {confirm : Confirm}
    (h : handlingExec (.awaitConfirm correlation) f w = some (.ok (some confirm), w'))
    (hack : confirm.ack = true) (hret : confirm.returned = none) : correlation.fate = .stored :=
  exec_awaitConfirm_ok hack hret (exec_of_handling h).2

end Exec

section Counting
variable {tag : ℕ} {es es' : List CallEvent}

@[simp] theorem settlements_append :
    settlements tag (es ++ es') = settlements tag es + settlements tag es' := List.countP_append

theorem settlements_eq_zero (h : ∀ ev ∈ es, ¬ ev.cmd.Settles tag) : settlements tag es = 0 := by
  simpa [settlements] using h

@[simp] theorem settlements_cons (ev : CallEvent) : settlements tag (ev :: es) =
    settlements tag es + if ev.cmd.Settles tag then 1 else 0 := by
  simp [settlements, List.countP_cons]

@[simp] theorem settlements_nil : settlements tag [] = 0 := rfl

@[simp] theorem misses_nil : misses [] = 0 := rfl

@[simp] theorem misses_append : misses (es ++ es') = misses es + misses es' := List.countP_append

@[simp] theorem misses_cons (ev : CallEvent) :
    misses (ev :: es) = misses es + if missed ev.cmd ev.reply then 1 else 0 := List.countP_cons

end Counting

/-- The calls before an ack: records of a status, and the transaction. -/
def Cmd.BeforeAck (c : Cmd) : Prop := c.Bookkeeping ∨ ∃ order, c = .createVouchOrder order

theorem Cmd.BeforeAck.not_settles {c : Cmd} (h : c.BeforeAck) (tag : ℕ) : ¬ c.Settles tag := by
  rcases h with h | ⟨order, rfl⟩
  · cases c <;> first | exact h.elim | exact id
  · exact id

theorem Cmd.BeforeAck.not_confirmed {ev : CallEvent} (h : ev.cmd.BeforeAck) : ¬ Confirmed ev := by
  obtain ⟨_, c, _, _⟩ := ev
  rcases h with h | ⟨order, rfl⟩
  · cases c <;> first | exact h.elim | exact id
  · exact id

section Handling
variable {m : Message} {tag : ℕ} {w w' : World} {es : List CallEvent} {x : Except Exn Unit}

theorem ack_trace (h : Handling w (perform (Cmd.basicAck tag)) es w' x) :
    ∃ w₁, w.Keeps w₁ ∧ x = .ok () ∧ w' = w₁.settle tag ∧
      es = [⟨w₁, .basicAck tag, .ok (), w'⟩] := by
  obtain ⟨w₁, f, hk, he, rfl⟩ := Trace.of_perform h
  obtain ⟨u, rfl⟩ := channel_reply rfl he
  obtain ⟨⟨hf, -⟩, he⟩ := exec_of_handling he
  have hf := hf rfl
  cases f with
  | performed => cases he; exact ⟨w₁, hk, rfl, rfl, rfl⟩
  | fails e => cases hf
  | failsAfter e => cases hf
  | _ => cases he

/-- Records, and then an ack: one settlement, or none when a record fails. -/
theorem recordThenAck_trace {p : Handler Unit} (hp : p.Plain Cmd.BeforeAck)
    (h : Handling w (p >>= fun _ => perform (Cmd.basicAck tag)) es w' x) :
    (x = .ok () ∧ failures es = [] ∧ settlements tag es = 1 ∧ ∃ es₁ w₁ w₂,
      Handling w p es₁ w₁ (.ok ()) ∧ w₁.Keeps w₂ ∧ w' = w₂.settle tag ∧
      (∀ ev ∈ es₁, ev.cmd.BeforeAck) ∧ es = es₁ ++ [⟨w₂, .basicAck tag, .ok (), w'⟩]) ∨
    ∃ e, x = .error e ∧ failures es = [e] ∧ ∀ ev ∈ es, ev.cmd.BeforeAck := by
  rcases Trace.of_bind h with ⟨u, es₁, es₂, w₁, rfl, h₁, h₂⟩ | ⟨e, rfl, h₁⟩
  · obtain ⟨hcalls, ⟨hf, -⟩ | ⟨e, -, he⟩⟩ := Trace.of_plain hp h₁
    · obtain ⟨w₂, hk, rfl, hw', rfl⟩ := ack_trace h₂
      refine .inl ⟨rfl, by simp [hf], ?_, es₁, w₁, w₂, h₁, hk, hw', hcalls, rfl⟩
      rw [settlements_append, settlements_eq_zero fun ev hev => (hcalls ev hev).not_settles tag]
      simp [settlements, Cmd.Settles]
    · cases he
  · obtain ⟨hcalls, ⟨-, a, ha⟩ | ⟨e', hf, he⟩⟩ := Trace.of_plain hp h₁
    · cases ha
    · cases he; exact .inr ⟨e, rfl, hf, hcalls⟩

/-- The part of `consumeOrder` before the ack. -/
def createAndRecord (orderMessage : Message) : Handler Unit := do
  let now ← currentTimeMillis
  markConsuming orderMessage.voucherId orderMessage.orderId now
  perform (Cmd.createVouchOrder orderMessage.order)
  let committedAt ← currentTimeMillis
  removePendingAt orderMessage.voucherId orderMessage.orderId committedAt

theorem consumeOrder_eq : consumeOrder m tag =
    createAndRecord m >>= fun _ => perform (Cmd.basicAck tag) := by
  simp only [consumeOrder, createAndRecord, bind_assoc]

theorem createAndRecord_plain : (createAndRecord m).Plain Cmd.BeforeAck := by
  have hbook : ∀ c : Cmd, c.Bookkeeping → c.BeforeAck := fun c => Or.inl
  simp only [createAndRecord, plain_perform_bind]
  refine ⟨.inl trivial, fun now => ((markConsuming_plain _ _ _).mono hbook).bind fun _ => ?_⟩
  simp only [plain_perform_bind]
  exact ⟨.inr ⟨_, rfl⟩, fun _ => ⟨.inl trivial, fun _ => (removePendingAt_plain _ _ _).mono hbook⟩⟩

theorem createAndRecord_row (h : Handling w (createAndRecord m) es w' (.ok ())) :
    m.order ∈ w'.db.orders.rows := by
  rcases Trace.of_bind h with ⟨now, es₁, es₂, w₁, -, -, h⟩ | ⟨e, he, -⟩
  · rcases Trace.of_bind h with ⟨u, es₁, es₂, w₂, -, -, h⟩ | ⟨e, he, -⟩
    · rcases Trace.of_bind h with ⟨u, es₁, es₂, w₃, -, hc, h⟩ | ⟨e, he, -⟩
      · obtain ⟨w₄, f, -, hexec, -⟩ := Trace.of_perform hc
        refine h.invariant (fun w => m.order ∈ w.db.orders.rows) (calls_true _)
          (fun a b hk ha => hk.1 ha) (fun c f a r b _ hab ha => (keeps_of_exec hab).1 ha)
          (row_of_created hexec)
      · cases he
    · cases he
  · cases he

theorem RowFor.of_mem {db : Database} (h : m.order ∈ db.orders.rows) : RowFor m db :=
  ⟨m.order, h, rfl, rfl⟩

theorem sendToFailed_calls (tag : ℕ) :
    (sendToFailedQueueAndWaitForConfirm m).Calls fun c => ¬ c.Settles tag := by
  refine Calls.bind (by simp [Cmd.Settles]) fun _ => Calls.bind (by simp [Cmd.Settles]) fun c => ?_
  cases c with
  | none => exact calls_throw _
  | some confirm =>
    simp only []
    split
    · exact calls_throw _
    · cases confirm.returned with
      | none => exact calls_pure _
      | some text => exact calls_throw _

/-- The forward succeeds only when a copy is in the failed queue and its confirm says so. -/
theorem sendToFailed_confirmed
    (h : Handling w (sendToFailedQueueAndWaitForConfirm m) es w' (.ok ())) :
    m ∈ w'.forwarded ∧ ∃ ev ∈ es, Confirmed ev := by
  rcases Trace.of_bind h with ⟨correlation, es₁, es₂, w₁, rfl, h₁, hrest⟩ | ⟨e, he, -⟩
  · rcases Trace.of_bind hrest with ⟨confirm, es₃, es₄, w₂, rfl, h₂, h₃⟩ | ⟨e, he, -⟩
    · obtain ⟨w₃, f, hk, hsent, rfl⟩ := Trace.of_perform h₁
      obtain ⟨w₄, f', hk', hconf, rfl⟩ := Trace.of_perform h₂
      cases confirm with
      | none =>
        obtain ⟨-, -, he⟩ := Trace.of_throw h₃
        cases he
      | some confirm =>
        simp only [] at h₃
        split at h₃
        · obtain ⟨-, -, he⟩ := Trace.of_throw h₃
          cases he
        · next hack =>
          cases hret : confirm.returned with
          | some text =>
            rw [hret] at h₃
            obtain ⟨-, -, he⟩ := Trace.of_throw h₃
            cases he
          | none =>
            rw [hret] at h₃
            obtain ⟨rfl, rfl, -⟩ := Trace.of_pure h₃
            have hack : confirm.ack = true := by simpa using hack
            have hmem := forwarded_of_sent hsent (stored_of_confirmed hconf hack hret)
            refine ⟨(keeps_of_exec hconf).2 (hk'.2 hmem),
              ⟨w₄, .awaitConfirm correlation, .ok (some confirm), w'⟩, by simp, ?_⟩
            exact ⟨hack, hret⟩
    · cases he
  · cases he

theorem AckJustified.mono {es' : List CallEvent} {ev : CallEvent} (h : AckJustified m es ev)
    (hsub : es ⊆ es') : AckJustified m es' ev :=
  h.imp id fun ⟨hm, ev', hev', hc⟩ => ⟨hm, ev', hsub hev', hc⟩

theorem settle_trace {c : Cmd} {x : Except Exn c.Reply} (h : Handling w (perform c) es w' x)
    (hc : c.onChannel = true) (hs : c.Settles tag) :
    ∃ w₁ a, x = .ok a ∧ w.Keeps w₁ ∧ es = [⟨w₁, c, .ok a, w'⟩] ∧ settlements tag es = 1 := by
  obtain ⟨w₁, f, hk, he, rfl⟩ := Trace.of_perform h
  obtain ⟨a, rfl⟩ := channel_reply hc he
  exact ⟨w₁, a, rfl, hk, rfl, by simp [settlements, hs]⟩

theorem consumeFailure_trace {xDeath : List XDeath}
    (h : Handling w (consumeFailure m xDeath tag) es w' x) :
    x = .ok () ∧ SettledJustly m tag es := by
  unfold consumeFailure at h
  split at h
  · rcases Trace.of_tryCatch h with ⟨a, rfl, hok⟩ | ⟨e, es₁, es₂, w₁, rfl, h₁, h₂⟩
    · rcases Trace.of_bind hok with ⟨u, es₁, es₂, w₁, rfl, h₁, h₂⟩ | ⟨e, he, -⟩
      · obtain ⟨w₂, hk, -, -, rfl⟩ := ack_trace h₂
        have hnone := Trace.calls (sendToFailed_calls tag) h₁
        obtain ⟨hm, ev, hev, hconf⟩ := sendToFailed_confirmed h₁
        refine ⟨rfl, ?_, fun ack hack hcmd => ?_⟩
        · rw [settlements_append, settlements_eq_zero hnone]
          simp [settlements, Cmd.Settles]
        · rcases List.mem_append.mp hack with hack | hack
          · exact absurd (by rw [hcmd]; rfl) (hnone ack hack)
          · rw [List.mem_singleton.mp hack]
            exact .inr ⟨hk.2 hm, ev, List.mem_append_left _ hev, hconf⟩
      · cases he
    · have hzero : settlements tag es₁ = 0 ∧ ∀ ev ∈ es₁, ev.cmd ≠ .basicAck tag := by
        rcases Trace.of_bind h₁ with ⟨u, es₃, es₄, w₂, rfl, -, h₃⟩ | ⟨e', -, h₃⟩
        · obtain ⟨_, -, he, -⟩ := ack_trace h₃
          cases he
        · have hnone := Trace.calls (sendToFailed_calls tag) h₃
          exact ⟨settlements_eq_zero hnone, fun ev hev hcmd => hnone ev hev (by rw [hcmd]; rfl)⟩
      obtain ⟨w₂, a, rfl, -, rfl, hone⟩ := settle_trace h₂ rfl rfl
      refine ⟨rfl, by rw [settlements_append, hzero.1, hone], fun ack hack hcmd => ?_⟩
      rcases List.mem_append.mp hack with hack | hack
      · exact absurd hcmd (hzero.2 ack hack)
      · rw [List.mem_singleton.mp hack] at hcmd
        cases hcmd
  · obtain ⟨w₂, a, rfl, -, rfl, hone⟩ := settle_trace h rfl rfl
    refine ⟨rfl, hone, fun ack hack hcmd => ?_⟩
    rw [List.mem_singleton.mp hack] at hcmd
    cases hcmd

theorem consumeDuplicate_trace {es₁ es₂ : List CallEvent} {e : Exn} (hf₁ : failures es₁ = [e])
    (hcalls₁ : ∀ ev ∈ es₁, ev.cmd.BeforeAck) (hdup : e.kind = .duplicateKey)
    (h₂ : Handling w (consumeDuplicate m tag) es₂ w' x) :
    (SettledJustly m tag (es₁ ++ es₂) ↔ DuplicateHandled m (es₁ ++ es₂) w') ∧
      ∀ e, x = .error e → e.kind ≠ .rejectAndDontRequeue true := by
  have hzero := settlements_eq_zero fun ev hev => (hcalls₁ ev hev).not_settles tag
  have hplain : (removePending m.voucherId m.orderId).Plain Cmd.BeforeAck :=
    (removePending_plain _ _).mono fun _ => Or.inl
  rcases recordThenAck_trace hplain h₂ with
    ⟨rfl, hf, hone, es₃, w₂, w₃, -, hk, rfl, hcalls, rfl⟩ | ⟨e', rfl, hf, hcalls⟩
  · refine ⟨⟨fun hs e' later he _ => ?_, fun hd => ⟨by
      rw [settlements_append, hzero, hone], fun ack hack hcmd => ?_⟩⟩, fun e he => nomatch he⟩
    · rw [failures_append, hf₁, hf] at he
      cases he
      have hack := hs.2 ⟨w₃, .basicAck tag, .ok (), w₃.settle tag⟩ (by simp) rfl
      rcases hack with hrow | ⟨-, ev, hev, hconf⟩
      · exact ⟨rfl, hrow⟩
      · simp only [List.mem_append, List.mem_singleton] at hev
        rcases hev with hev | hev | rfl
        · exact absurd hconf (hcalls₁ ev hev).not_confirmed
        · exact absurd hconf (hcalls ev hev).not_confirmed
        · exact hconf.elim
    · have hrow : RowFor m (w₃.settle tag).db :=
        (hd e [] (by rw [failures_append, hf₁, hf]; rfl) hdup).2
      simp only [List.mem_append, List.mem_singleton] at hack
      rcases hack with hack | hack | rfl
      · exact absurd (by rw [hcmd]; rfl) ((hcalls₁ ack hack).not_settles tag)
      · exact absurd (by rw [hcmd]; rfl) ((hcalls ack hack).not_settles tag)
      · exact .inl hrow
  · refine ⟨iff_of_false (fun hs => ?_) (fun hd => ?_), fun e'' he => ?_⟩
    · have hone := hs.1
      rw [settlements_append, hzero,
        settlements_eq_zero fun ev hev => (hcalls ev hev).not_settles tag] at hone
      cases hone
    · have hlater := (hd e [e'] (by rw [failures_append, hf₁, hf]; rfl) hdup).1
      cases hlater
    · cases he
      exact h₂.thrown (fun _ _ _ _ _ => error_kind) e' (by simp [hf])

theorem listenVoucherOrder_trace {xDeath : List XDeath}
    (h : Handling w (listenVoucherOrder m xDeath tag) es w' x) :
    (SettledJustly m tag es ↔ DuplicateHandled m es w') ∧
      ∀ e, x = .error e → e.kind ≠ .rejectAndDontRequeue true := by
  rcases Trace.of_tryCatch h with ⟨u, rfl, hok⟩ | ⟨e, es₁, es₂, w₁, rfl, h₁, h₂⟩
  · -- the order is created, recorded and acked
    rw [consumeOrder_eq] at hok
    rcases recordThenAck_trace createAndRecord_plain hok with
      ⟨-, hf, hone, es₁, w₁, w₂, hp, hk, -, hcalls, rfl⟩ | ⟨e, he, -⟩
    · refine ⟨iff_of_true ⟨hone, fun ack hack hcmd => ?_⟩ fun e later he => ?_, fun e he => nomatch he⟩
      · rcases List.mem_append.mp hack with hack | hack
        · exact absurd (by rw [hcmd]; rfl) ((hcalls ack hack).not_settles tag)
        · rw [List.mem_singleton.mp hack]
          exact .inl (.of_mem (hk.1 (createAndRecord_row hp)))
      · rw [hf] at he
        cases he
    · cases he
  · rw [consumeOrder_eq] at h₁
    rcases recordThenAck_trace createAndRecord_plain h₁ with ⟨he, -⟩ | ⟨e', he, hf₁, hcalls₁⟩
    · cases he
    · cases he
      have hzero := settlements_eq_zero fun ev hev => (hcalls₁ ev hev).not_settles tag
      by_cases hdup : e.kind = .duplicateKey
      · rw [if_pos hdup] at h₂
        exact consumeDuplicate_trace hf₁ hcalls₁ hdup h₂
      · rw [if_neg hdup] at h₂
        obtain ⟨rfl, hone, hacks⟩ := consumeFailure_trace h₂
        refine ⟨iff_of_true ⟨by rw [settlements_append, hzero, hone], fun ack hack hcmd => ?_⟩
          fun e' later he hk => ?_, fun e he => nomatch he⟩
        · rcases List.mem_append.mp hack with hack | hack
          · exact absurd (by rw [hcmd]; rfl) ((hcalls₁ ack hack).not_settles tag)
          · exact (hacks ack hack hcmd).mono (List.subset_append_right _ _)
        · rw [failures_append, hf₁] at he
          cases he
          exact absurd hk hdup

theorem misses_of_beforeAck (h : ∀ ev ∈ es, ev.cmd.BeforeAck) : misses es = (failures es).length := by
  induction es with
  | nil => rfl
  | cons ev es ih =>
    obtain ⟨hev, hes⟩ := List.forall_mem_cons.mp h
    obtain ⟨w, c, r, w'⟩ := ev
    have hm : missed c r = true ↔ ∃ e, r = .error e := by
      rcases hev with hc | ⟨order, rfl⟩
      · cases c with
        | redis v c => cases c <;> first | exact hc.elim | cases r <;> simp [missed]
        | currentTimeMillis => cases r <;> simp [missed]
        | _ => exact hc.elim
      · cases r <;> simp [missed]
    cases r with
    | ok a => simp [ih hes, show missed c (.ok a) = false by simpa using hm]
    | error e => simp [ih hes, hm.mpr ⟨e, rfl⟩]

theorem listenFailedOrder_trace (h : Handling w (listenFailedOrder m tag) es w' x) :
    (x = .ok () ∧ settlements tag es = 1 ∧ misses es = 0) ∨
      ∃ e, x = .error e ∧ settlements tag es = 0 ∧ misses es = 1 := by
  have hbook : ∀ c : Cmd, c.Bookkeeping → c.BeforeAck := fun c => Or.inl
  have hrecord : ∀ {p : Handler Unit} {w w' : World} {es : List CallEvent} {x : Except Exn Unit},
      p.Plain Cmd.BeforeAck → Handling w (p >>= fun _ => perform (Cmd.basicAck tag)) es w' x →
      (x = .ok () ∧ settlements tag es = 1 ∧ misses es = 0) ∨
        ∃ e, x = .error e ∧ settlements tag es = 0 ∧ misses es = 1 := by
    intro p w w' es x hp hh
    rcases recordThenAck_trace hp hh with
      ⟨rfl, hf, hone, es₁, w₁, w₂, -, -, -, hcalls, rfl⟩ | ⟨e, rfl, hf, hcalls⟩
    · refine .inl ⟨rfl, hone, ?_⟩
      rw [failures_append, List.append_eq_nil_iff] at hf
      simp [misses_of_beforeAck hcalls, hf.1, missed]
    · refine .inr ⟨e, rfl, settlements_eq_zero fun ev hev => (hcalls ev hev).not_settles tag, ?_⟩
      simp [misses_of_beforeAck hcalls, hf]
  rcases Trace.of_bind h with ⟨order, es₁, es₂, w₁, rfl, h₁, h₂⟩ | ⟨e, rfl, h₁⟩
  · obtain ⟨w₂, f, -, -, rfl⟩ := Trace.of_perform h₁
    have hget : settlements tag [⟨w₂, .getById m.orderId, .ok order, w₁⟩] = 0 := rfl
    rw [settlements_append, misses_append, hget, misses_cons]
    simp only [missed, Nat.zero_add, Bool.false_eq_true, if_false]
    split at h₂
    · simpa using hrecord ((removePending_plain _ _).mono hbook) h₂
    · rcases Trace.of_bind h₂ with ⟨restored, es₃, es₄, w₃, rfl, h₃, h₄⟩ | ⟨e, rfl, h₃⟩
      · obtain ⟨w₄, f', -, -, rfl⟩ := Trace.of_perform h₃
        rw [settlements_append, misses_append, misses_cons]
        cases restored with
        | none =>
          obtain ⟨rfl, -, rfl⟩ := Trace.of_throw h₄
          exact .inr ⟨_, rfl, rfl, rfl⟩
        | some n =>
          have h := hrecord ((markFailed_plain _ _ _).mono hbook) h₄
          simpa [missed, Cmd.Settles] using h
      · obtain ⟨w₄, f', -, -, rfl⟩ := Trace.of_perform h₃
        exact .inr ⟨e, rfl, rfl, rfl⟩
  · obtain ⟨w₂, f, -, -, rfl⟩ := Trace.of_perform h₁
    exact .inr ⟨e, rfl, rfl, rfl⟩

/-- The recoverer never settles, and never asks the container to. -/
theorem recoverer_trace (h : Handling w (failedOrderMessageRecoverer m) es w' x) :
    ∃ e, x = .error e ∧ e.kind ≠ .rejectAndDontRequeue true ∧ settlements tag es = 0 := by
  rcases Trace.of_bind h with ⟨u, es₁, es₂, w₁, rfl, h₁, h₂⟩ | ⟨e, rfl, h₁⟩
  · obtain ⟨w₂, f, -, -, rfl⟩ := Trace.of_perform h₁
    obtain ⟨rfl, -, rfl⟩ := Trace.of_throw h₂
    exact ⟨_, rfl, by simp, rfl⟩
  · obtain ⟨w₂, f, -, hexec, rfl⟩ := Trace.of_perform h₁
    exact ⟨e, rfl, error_kind hexec, rfl⟩

theorem retrying_trace (retries : ℕ)
    (h : Handling w (retrying (fun _ => failedOrderMessageRecoverer m) (listenFailedOrder m tag)
      retries) es w' x) :
    (x = .ok () ∧ settlements tag es = 1 ∧ misses es ≤ retries) ∨
      ∃ e, x = .error e ∧ e.kind ≠ .rejectAndDontRequeue true ∧ settlements tag es = 0 ∧
        retries < misses es := by
  induction retries generalizing w es with
  | zero =>
    rcases Trace.of_tryCatch h with ⟨u, rfl, h₁⟩ | ⟨e, es₁, es₂, w₁, rfl, h₁, h₂⟩
    · rcases listenFailedOrder_trace h₁ with ⟨-, hone, hm⟩ | ⟨e, he, -⟩
      · exact .inl ⟨rfl, hone, hm.le⟩
      · cases he
    · rcases listenFailedOrder_trace h₁ with ⟨he, -⟩ | ⟨-, -, hzero, hm⟩
      · cases he
      · obtain ⟨e', rfl, hk, hzero'⟩ := recoverer_trace h₂
        exact .inr ⟨e', rfl, hk, by rw [settlements_append, hzero, hzero'],
          by rw [misses_append, hm]; omega⟩
  | succ retries ih =>
    rcases Trace.of_tryCatch h with ⟨u, rfl, h₁⟩ | ⟨e, es₁, es₂, w₁, rfl, h₁, h₂⟩
    · rcases listenFailedOrder_trace h₁ with ⟨-, hone, hm⟩ | ⟨e, he, -⟩
      · exact .inl ⟨rfl, hone, by omega⟩
      · cases he
    · rcases listenFailedOrder_trace h₁ with ⟨he, -⟩ | ⟨-, -, hzero, hm⟩
      · cases he
      · rw [settlements_append, misses_append, hzero, hm]
        rcases ih h₂ with ⟨rfl, hone, hle⟩ | ⟨e', rfl, hk, hzero', hlt⟩
        · exact .inl ⟨rfl, by omega, by omega⟩
        · exact .inr ⟨e', rfl, hk, by omega, by omega⟩

/-- A manual container adds no settlement to a listener that does not ask for one. -/
theorem manualContainer_trace {listener : Handler Unit}
    (h : Handling w (manualContainer tag listener) es w' x)
    (hkind : ∀ {es w' e}, Handling w listener es w' (.error e) → e.kind ≠ .rejectAndDontRequeue true) :
    ∃ x', Handling w listener es w' x' := by
  rcases Trace.of_tryCatch h with ⟨u, rfl, h₁⟩ | ⟨e, es₁, es₂, w₁, rfl, h₁, h₂⟩
  · exact ⟨_, h₁⟩
  · rw [if_neg (hkind h₁)] at h₂
    obtain ⟨rfl, rfl, -⟩ := Trace.of_pure h₂
    exact ⟨_, by simpa using h₁⟩

end Handling

/-- Exactly when a delivery is settled once and its ack justified: in the main consumer, unless the
first failure was a duplicate key whose record then fails, or that has no row for the user and
the voucher; in the failed consumer, unless all four attempts miss. -/
theorem delivery_settled_iff (m : Message) (xDeath : List XDeath) (tag : ℕ) (w w' : World)
    (es : List CallEvent) (x : Except Exn Unit) :
    (Handling w (manualContainer tag (listenVoucherOrder m xDeath tag)) es w' x →
      (SettledJustly m tag es ↔ DuplicateHandled m es w')) ∧
    (Handling w (manualContainer tag (listenFailedOrderRetrying m tag)) es w' x →
      (settlements tag es = 1 ↔ misses es < 4)) := by
  constructor
  · intro h
    obtain ⟨x', h'⟩ := manualContainer_trace h fun h' => (listenVoucherOrder_trace h').2 _ rfl
    exact (listenVoucherOrder_trace h').1
  · intro h
    have hkind : ∀ {es w' e}, Handling w (listenFailedOrderRetrying m tag) es w' (.error e) →
        e.kind ≠ .rejectAndDontRequeue true := by
      intro es w' e h'
      rcases retrying_trace 3 h' with ⟨he, -⟩ | ⟨e', he, hk, -⟩
      · cases he
      · cases he; exact hk
    obtain ⟨x', h'⟩ := manualContainer_trace h hkind
    rcases retrying_trace 3 h' with ⟨-, hone, hm⟩ | ⟨-, -, -, hzero, hm⟩
    · exact iff_of_true hone (by omega)
    · exact iff_of_false (by omega) (by omega)

/-- What was promised of every handling, by either consumer. -/
def EveryDeliverySettled : Prop :=
  ∀ (m : Message) (xDeath : List XDeath) (tag : ℕ) (w w' : World) (es : List CallEvent)
    (x : Except Exn Unit),
    (Handling w (manualContainer tag (listenVoucherOrder m xDeath tag)) es w' x →
      SettledJustly m tag es) ∧
    (Handling w (manualContainer tag (listenFailedOrderRetrying m tag)) es w' x →
      settlements tag es = 1)

def parkedDelivery : Option (List CallEvent × World × Except Exn Unit) :=
  playTrace handlingExec (manualContainer 3 (listenFailedOrderRetrying sampleMessage 3))
    (List.replicate 4 (.fails ⟨.other, "connection refused"⟩) ++ [.performed]) sampleWorld

/-- A first delivery on which every call succeeds. -/
def firstDelivery : Option (List CallEvent × World × Except Exn Unit) :=
  playTrace handlingExec (manualContainer 3 (listenVoucherOrder sampleMessage [] 3))
    (List.replicate 20 .performed) sampleWorld

theorem keeps_refl (w : World) : w.Keeps w := ⟨List.Subset.refl _, List.Subset.refl _⟩

theorem everyDeliverySettled_fails : ¬ EveryDeliverySettled := by
  intro h
  have hplay : (parkedDelivery.map fun q => settlements 3 q.1) = some 0 := by decide +kernel
  obtain ⟨⟨es, w', x⟩, hq, hzero⟩ := Option.map_eq_some_iff.mp hplay
  have hone := (h sampleMessage [] 3 sampleWorld w' es x).2 (trace_of_play keeps_refl hq)
  rw [hone] at hzero
  cases hzero

theorem firstDelivery_isSome : firstDelivery.isSome := by decide +kernel

theorem parkedDelivery_isSome : parkedDelivery.isSome := by decide +kernel

/-- The first delivery is settled justly; the parked one is not settled. -/
theorem delivery_settled_iff_samples :
    SettledJustly sampleMessage 3 (firstDelivery.get firstDelivery_isSome).1 ∧
      settlements 3 (parkedDelivery.get parkedDelivery_isSome).1 ≠ 1 := by
  constructor
  · refine ((delivery_settled_iff sampleMessage [] 3 sampleWorld _ _ _).1
      (trace_of_play_isSome keeps_refl firstDelivery_isSome)).mpr fun e later he => ?_
    have hf : (failures (firstDelivery.get firstDelivery_isSome).1).length = 0 := by decide +kernel
    exact absurd (hf.symm.trans (congrArg List.length he)) (by simp)
  · refine ((delivery_settled_iff sampleMessage [] 3 sampleWorld _ _ _).2
      (trace_of_play_isSome keeps_refl parkedDelivery_isSome)).not.mpr ?_
    decide +kernel

end HmDianPing.Seckill
