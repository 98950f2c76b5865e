import HmDianPing.Seckill.Copies

/-! # What a handler has been told

The replies of its calls tell a handler facts about orders, and it makes certain
calls only on such facts: it publishes only accepted orders, drops a pending order
only when something else covers it, and acknowledges only a message that is settled
or stored on the failed side. What the facts mean is left to the invariants.
-/
namespace HmDianPing.Seckill
open Interleaving Program

inductive Fact where
  /-- `seckill.lua` accepted this order. -/
  | accepted (m : Message)
  /-- It accepted an order with this id, of some user. -/
  | known (voucherId orderId : Long)
  | delivery (tag : ℕ) (queue : QueueName) (m : Message)
  /-- The broker returned the publication the handler was started for. -/
  | returned (orderId : Long)
  /-- A row, or the reservation given back. -/
  | settled (orderId : Long)
  /-- Settled, or a copy on the failed side. -/
  | filed (orderId : Long)
  /-- Filed, or a copy the consumer can still get. -/
  | covered (orderId : Long)
  | persisted (orderId : Long)

/-- The statuses under which `markSendSuccess` changes nothing. -/
abbrev afterSending : List (Option Value) :=
  [some (.status .routeFailed), some (.status .brokerNack), some (.status .consuming),
    some (.status .orderCreated), some (.status .failed)]

/-- What a row with this id says. -/
def rowFacts (o : Long) : Set Fact := {.persisted o, .settled o, .filed o, .covered o}

/-- The calls a handler may make on what it has been told. -/
def justified (κ : Set Fact) : Cmd → Prop
  | .createVouchOrder order => .accepted ⟨order.id, order.userId, order.voucherId⟩ ∈ κ
  | .statement _ => False
  | .sendOrder m | .sendFailed m | .park m => .accepted m ∈ κ
  | .redis v (.restore u o) => .accepted ⟨o, u, v⟩ ∈ κ
  | .redis v (.zaddPending o _) => .known v o ∈ κ
  | .redis _ (.zremPending o) => .covered o ∈ κ
  | .redis v (.hset o .userId value) => ∃ u, value = .number u ∧ .accepted ⟨o, u, v⟩ ∈ κ
  | .redis _ (.hset o .status value) => value = .status .orderCreated → .persisted o ∈ κ
  | .redis _ (.hsetnx _ field _) | .redis _ (.hincrBy _ field _) =>
      field ≠ .userId ∧ field ≠ .status
  | .basicAck tag => (∃ m, .delivery tag .order m ∈ κ ∧ .filed m.orderId ∈ κ) ∨
      ∃ m, .delivery tag .failed m ∈ κ ∧ .settled m.orderId ∈ κ
  | .basicReject tag requeue | .basicNack tag requeue =>
      requeue = true ∨ ∃ m, .delivery tag .order m ∈ κ
  | _ => True

/-- The replies a handler can get: a duplicate key only from the insert, no rejection it has not
thrown itself, and a clean confirm only for a stored message. -/
def receives (_ : Set Fact) : (c : Cmd) → Except Exn c.Reply → Prop
  | .createVouchOrder _, .error e => e.kind ≠ .rejectAndDontRequeue true
  | .awaitConfirm correlation, .ok (some confirm) =>
      confirm.ack = true → confirm.returned = none → correlation.fate = .stored
  | _, .error e => e.foreign = true
  | _, _ => True

/-- What a reply tells. -/
def taught (κ : Set Fact) : (c : Cmd) → Except Exn c.Reply → Set Fact
  | .seckill u v o _, .ok (some .accepted) => {.accepted ⟨o, u, v⟩, .known v o}
  | .redis v (.rangeByScore _ _ _), .ok os => {x | ∃ o ∈ os, x = .known v o}
  | .redis _ (.hget o .status), .ok status =>
      {x | x = .covered o ∧ .returned o ∈ κ ∧ status ∉ afterSending}
  | .redis v (.hgetall o), .ok data =>
      {x | (∃ u, x = .accepted ⟨o, u, v⟩ ∧ data.lookup .userId = some (.number u)) ∨
        (x = .covered o ∧ data.entries = [] ∧ .known v o ∈ κ)}
  | .redis _ (.restore _ o), .ok (some _) => {.settled o, .filed o, .covered o}
  | .getById o, .ok (some _) => rowFacts o
  | .createVouchOrder order, .ok () => rowFacts order.id
  | .createVouchOrder order, .error e => {x | e.kind = .duplicateKey ∧ x ∈ rowFacts order.id}
  | .sendFailed m, .ok correlation =>
      {x | correlation.fate = .stored ∧ (x = .filed m.orderId ∨ x = .covered m.orderId)}
  | _, _ => ∅

/-- Every way in which a reply tells a fact. -/
inductive Taught (κ : Set Fact) : (c : Cmd) → Except Exn c.Reply → Fact → Prop
  | accepted {u v o : Long} {now : ℤ} :
      Taught κ (.seckill u v o now) (.ok (some .accepted)) (.accepted ⟨o, u, v⟩)
  | issued {u v o : Long} {now : ℤ} :
      Taught κ (.seckill u v o now) (.ok (some .accepted)) (.known v o)
  | listed {v lo hi : ℤ} {limit : ℕ} {os : List Long} {o : Long} (mem : o ∈ os) :
      Taught κ (.redis v (.rangeByScore lo hi limit)) (.ok os) (.known v o)
  | status {v o : Long} {status : Option Value} (returned : .returned o ∈ κ)
      (before : status ∉ afterSending) :
      Taught κ (.redis v (.hget o .status)) (.ok status) (.covered o)
  | owner {v o u : Long} {data : PendingData} (owner : data.lookup .userId = some (.number u)) :
      Taught κ (.redis v (.hgetall o)) (.ok data) (.accepted ⟨o, u, v⟩)
  | expired {v o : Long} {data : PendingData} (empty : data.entries = []) (known : .known v o ∈ κ) :
      Taught κ (.redis v (.hgetall o)) (.ok data) (.covered o)
  | restored {v u o n : Long} {x : Fact} (mem : x ∈ rowFacts o) (persisted : x ≠ .persisted o) :
      Taught κ (.redis v (.restore u o)) (.ok (some n)) x
  | found {o : Long} {order : VoucherOrder} {x : Fact} (mem : x ∈ rowFacts o) :
      Taught κ (.getById o) (.ok (some order)) x
  | created {order : VoucherOrder} {x : Fact} (mem : x ∈ rowFacts order.id) :
      Taught κ (.createVouchOrder order) (.ok ()) x
  | duplicate {order : VoucherOrder} {e : Exn} {x : Fact} (kind : e.kind = .duplicateKey)
      (mem : x ∈ rowFacts order.id) : Taught κ (.createVouchOrder order) (.error e) x
  | forwarded {m : Message} {correlation : CorrelationData} {x : Fact} (fate : correlation.fate = .stored)
      (mem : x = .filed m.orderId ∨ x = .covered m.orderId) :
      Taught κ (.sendFailed m) (.ok correlation) x

theorem taught_cases {κ : Set Fact} {c : Cmd} {r : Except Exn c.Reply} {x : Fact}
    (h : x ∈ taught κ c r) : Taught κ c r x := by
  cases r with
  | error e =>
    cases c with
    | createVouchOrder order => exact .duplicate h.1 h.2
    | redis v c =>
      cases c with
      | hget o field => cases field <;> cases h
      | _ => cases h
    | _ => cases h
  | ok a =>
    cases c with
    | seckill u v o now =>
      cases a with
      | none => cases h
      | some reply =>
        cases reply with
        | accepted =>
          rcases h with rfl | rfl
          · exact .accepted
          · exact .issued
        | _ => cases h
    | redis v c =>
      cases c with
      | rangeByScore lo hi limit =>
        obtain ⟨o, ho, rfl⟩ := h
        exact .listed ho
      | hget o field =>
        cases field with
        | status =>
          obtain ⟨rfl, hreturned, hstatus⟩ := h
          exact .status hreturned hstatus
        | _ => cases h
      | hgetall o =>
        rcases h with ⟨u, rfl, hu⟩ | ⟨rfl, hempty, hknown⟩
        · exact .owner hu
        · exact .expired hempty hknown
      | restore u o =>
        cases a with
        | none => cases h
        | some n => rcases h with rfl | rfl | rfl <;> exact .restored (by simp [rowFacts]) (by simp)
      | _ => cases h
    | getById o =>
      cases a with
      | none => cases h
      | some order => exact .found h
    | createVouchOrder order => exact .created h
    | sendFailed m => exact .forwarded h.1 h.2
    | _ => cases h

def evidence : Logic Cmd Cmd.Reply Exn (Set Fact) where
  pre := justified
  meets := receives
  learn κ c r := κ ∪ taught κ c r

@[simp] theorem evidence_pre : evidence.pre = justified := rfl

@[simp] theorem evidence_meets : evidence.meets = receives := rfl

@[simp] theorem evidence_learn (κ : Set Fact) (c : Cmd) (r : Except Exn c.Reply) :
    evidence.learn κ c r = κ ∪ taught κ c r := rfl

theorem justified_mono {κ κ' : Set Fact} {c : Cmd} (h : κ ⊆ κ') (hc : justified κ c) :
    justified κ' c := by
  cases c with
  | redis v c =>
    cases c with
    | hset o field value =>
      cases field with
      | userId => exact hc.imp fun _ hu => hu.imp_right fun ha => h ha
      | status => exact fun hv => h (hc hv)
      | _ => trivial
    | hsetnx | hincrBy => exact hc
    | zaddPending | zremPending | restore => exact h hc
    | _ => trivial
  | createVouchOrder | sendOrder | sendFailed | park => exact h hc
  | statement => exact hc
  | basicAck tag =>
    exact hc.imp (fun ⟨m, hm, hf⟩ => ⟨m, h hm, h hf⟩) fun ⟨m, hm, hs⟩ => ⟨m, h hm, h hs⟩
  | basicReject | basicNack => exact hc.imp_right fun ⟨m, hm⟩ => ⟨m, h hm⟩
  | _ => trivial

theorem evidence_growing : evidence.Growing :=
  ⟨fun _ _ _ => Set.subset_union_left, fun _ _ _ => justified_mono⟩

section Operations
variable {κ : Set Fact} {v o : Long}

theorem calculateRetryDelay_justified : (calculateRetryDelay v o).Calls (justified κ) := by
  simp [calculateRetryDelay, justified]

theorem markSendFailed_justified (hknown : .known v o ∈ κ) (reason : Option String) :
    (markSendFailed v o reason).Calls (justified κ) := by
  refine (calls_perform_bind _ _).mpr ⟨trivial, fun now => ?_⟩
  refine calculateRetryDelay_justified.bind fun delay => ?_
  simp [refreshDataTtl, justified, hknown]

theorem markRouteFailed_justified {m : Message} (hacc : .accepted m ∈ κ)
    (hknown : .known m.voucherId m.orderId ∈ κ) (reason : Option String) :
    (markRouteFailed m reason).Calls (justified κ) := by
  refine (calls_perform_bind _ _).mpr ⟨trivial, fun now => ?_⟩
  refine calculateRetryDelay_justified.bind fun delay => ?_
  simp [refreshDataTtl, justified, hknown, hacc]

theorem beforeRepublish_justified : (beforeRepublish v o).Calls (justified κ) := by
  simp [beforeRepublish, refreshDataTtl, justified]

theorem markFailed_justified (hcovered : .covered o ∈ κ) (reason : Option String) :
    (markFailed v o reason).Calls (justified κ) := by
  simp [markFailed, refreshDataTtl, justified, hcovered]

theorem markConsuming_justified (startedAt : ℤ) :
    (markConsuming v o startedAt).Calls (justified κ) := by
  simp [markConsuming, refreshDataTtl, justified]

theorem removePendingAt_justified (hrow : rowFacts o ⊆ κ) (committedAt : ℤ) :
    (removePendingAt v o committedAt).Calls (justified κ) := by
  refine removePendingAt_calls (fun _ => trivial) (hrow (by simp [rowFacts]))
    (fun _ => hrow (by simp [rowFacts])) (fun field value hf => ?_) trivial committedAt
  cases field <;> first | trivial | exact absurd trivial hf

theorem removePending_justified (hrow : rowFacts o ⊆ κ) :
    (removePending v o).Calls (justified κ) :=
  (calls_perform_bind _ _).mpr ⟨trivial, fun now => removePendingAt_justified hrow now⟩

end Operations

section Handlers
variable {κ : Set Fact} {v o : Long} {m : Message} {tag : ℕ}

theorem markSendSuccess_safe (h : .covered o ∈ κ ∨ .returned o ∈ κ) :
    evidence.Safe (markSendSuccess v o) κ := by
  refine (Logic.wp_perform_bind _ _).mpr ⟨trivial, fun status _ => ?_, fun _ _ => trivial⟩
  refine (Logic.wp_ite _ _ _).mpr ⟨fun _ => trivial, fun hs => ?_⟩
  have hcovered : .covered o ∈ κ ∪ taught κ (.redis v (.hget o .status)) (.ok status) :=
    h.imp id fun hr => ⟨rfl, hr, hs⟩
  refine evidence_growing.wp_of_calls ?_ fun _ _ _ => trivial
  simpa [refreshDataTtl, justified] using hcovered

theorem confirm_safe {ack : Bool} (cause : Option String)
    (hack : ack = true → .covered o ∈ κ ∨ .returned o ∈ κ)
    (hnack : ack = false → .known v o ∈ κ) :
    evidence.Safe (confirm (some (.order o v)) ack cause) κ := by
  cases ack with
  | true => exact markSendSuccess_safe (hack rfl)
  | false =>
    exact evidence_growing.wp_of_calls (markSendFailed_justified (hnack rfl) cause)
      fun _ _ _ => trivial

theorem returnedMessage_safe (hacc : .accepted m ∈ κ) (hknown : .known m.voucherId m.orderId ∈ κ)
    (code : ℤ) (text exchange key : String) :
    evidence.Safe (returnedMessage false (some m) code text exchange key) κ :=
  evidence_growing.wp_of_calls (markRouteFailed_justified hacc hknown _) fun _ _ _ => trivial

theorem afterAccepted_safe {u : Long} (hacc : .accepted ⟨o, u, v⟩ ∈ κ) (hknown : .known v o ∈ κ) :
    evidence.Safe (afterAccepted true o u v) κ := by
  rw [Logic.Safe, afterAccepted, if_neg (by simp), Logic.wp_tryCatch]
  refine (Logic.wp_perform_bind _ _).mpr ⟨hacc, fun _ _ => trivial, fun e _ => ?_⟩
  refine (Logic.wp_ite _ _ _).mpr ⟨fun _ => ?_, fun _ => trivial⟩
  exact evidence_growing.wp_bind_of_calls (markSendFailed_justified (.inl hknown) _)
    (fun _ _ _ => trivial) fun _ _ _ => trivial

theorem seckillVoucher_safe (u v : Long) : evidence.Safe (seckillVoucher true u v) κ := by
  refine (Logic.wp_perform_bind _ _).mpr ⟨trivial, fun o _ => ?_, fun _ _ => trivial⟩
  refine (Logic.wp_perform_bind _ _).mpr ⟨trivial, fun now _ => ?_, fun _ _ => trivial⟩
  refine (Logic.wp_perform_bind _ _).mpr ⟨trivial, fun reply _ => ?_, fun _ _ => trivial⟩
  cases reply with
  | none => trivial
  | some reply =>
    cases reply with
    | accepted => exact afterAccepted_safe (.inr (by simp [taught])) (.inr (by simp [taught]))
    | _ => trivial

/-- Only a listener that throws a manual rejection makes its container reject the delivery. -/
theorem manualContainer_safe {listener : Handler Unit}
    (h : evidence.wp listener (fun κ' r => ∀ e, r = .error e →
      e.kind = .rejectAndDontRequeue true → justified κ' (.basicReject tag false)) κ) :
    evidence.Safe (manualContainer tag listener) κ := by
  refine Logic.wp_tryCatch_of h (fun _ _ _ => trivial) fun κ' e hr => ?_
  exact (Logic.wp_ite _ _ _).mpr ⟨fun hk => ⟨hr e rfl hk, fun _ _ => trivial⟩, fun _ => trivial⟩

/-- A duplicate key shows the row of this order or of its user. -/
theorem consumeOrder_wp (hacc : .accepted m ∈ κ) (hdel : .delivery tag .order m ∈ κ) :
    evidence.wp (consumeOrder m tag) (fun κ' r => κ ⊆ κ' ∧
      ∀ e, r = .error e → e.kind = .duplicateKey → rowFacts m.orderId ⊆ κ') κ := by
  have hforeign : ∀ e : Exn, e.foreign = true → e.kind ≠ .duplicateKey := by
    intro e he hk; simp [Exn.foreign, hk] at he
  refine (Logic.wp_perform_bind _ _).mpr ⟨trivial, fun now _ => ?_, fun e he =>
    ⟨Set.subset_union_left, fun e' he' hk => by cases he'; exact absurd hk (hforeign e he)⟩⟩
  rw [Logic.wp_bind]
  refine evidence_growing.wp_of_plain (F := fun e => e.kind ≠ .duplicateKey)
    (markConsuming_plain _ _ _) (markConsuming_justified now) ?_ ?_
  · intro κ' c e hc he
    cases c with
    | currentTimeMillis | redis => exact hforeign e he
    | _ => exact hc.elim
  rintro κ₁ (e | _) hκ hthrown
  · exact ⟨Set.subset_union_left.trans hκ, fun e' he' hk => by cases he'; exact absurd hk (hthrown e rfl)⟩
  have hκ₁ : κ ⊆ κ₁ := Set.subset_union_left.trans hκ
  refine (Logic.wp_perform_bind _ _).mpr ⟨hκ₁ hacc, fun _ _ => ?_, fun e _ =>
    ⟨hκ₁.trans Set.subset_union_left, fun e' he' hk => ?_⟩⟩
  · have hrow : rowFacts m.orderId ⊆ evidence.learn κ₁ (.createVouchOrder m.order) (.ok ()) :=
      Set.subset_union_right
    refine evidence_growing.wp_of_calls ?_ fun κ' r h => ?_
    · refine (calls_perform_bind _ _).mpr ⟨trivial, fun committedAt => ?_⟩
      refine (removePendingAt_justified hrow committedAt).bind fun _ => (calls_perform _).mpr ?_
      exact .inl ⟨m, .inl (hκ₁ hdel), hrow (by simp [rowFacts])⟩
    · exact ⟨(hκ₁.trans Set.subset_union_left).trans h, fun _ _ _ => hrow.trans h⟩
  · cases he'
    exact fun x hx => .inr ⟨hk, hx⟩

theorem consumeDuplicate_justified (hrow : rowFacts m.orderId ⊆ κ)
    (hdel : .delivery tag .order m ∈ κ) : (consumeDuplicate m tag).Calls (justified κ) :=
  (removePending_justified hrow).bind fun _ =>
    (calls_perform _).mpr (.inl ⟨m, hdel, hrow (by simp [rowFacts])⟩)

/-- The forward returns normally only once the failed side holds a copy. -/
theorem sendToFailedQueue_wp (hacc : .accepted m ∈ κ) :
    evidence.wp (sendToFailedQueueAndWaitForConfirm m)
      (fun κ' r => κ ⊆ κ' ∧ ∀ u, r = .ok u → .filed m.orderId ∈ κ') κ := by
  have herror : ∀ (κ' : Set Fact) (e : Exn), κ ⊆ κ' → κ ⊆ κ' ∧
      ∀ u : Unit, (Except.error e : Except Exn Unit) = .ok u → .filed m.orderId ∈ κ' :=
    fun κ' e h => ⟨h, fun u hu => by cases hu⟩
  refine (Logic.wp_perform_bind _ _).mpr ⟨hacc, fun correlation _ => ?_, fun e _ =>
    herror _ e Set.subset_union_left⟩
  refine (Logic.wp_perform_bind _ _).mpr ⟨trivial, fun confirm hclean => ?_, fun e _ =>
    herror _ e (Set.subset_union_left.trans Set.subset_union_left)⟩
  have hκ : κ ⊆ evidence.learn (evidence.learn κ (.sendFailed m) (.ok correlation))
      (.awaitConfirm correlation) (.ok confirm) :=
    Set.subset_union_left.trans Set.subset_union_left
  cases confirm with
  | none => exact herror _ _ hκ
  | some confirm =>
    by_cases hack : confirm.ack = false
    · simp only [if_pos hack]
      exact herror _ _ hκ
    · simp only [if_neg hack]
      cases hreturned : confirm.returned with
      | some text => exact herror _ _ hκ
      | none =>
        have hstored : correlation.fate = .stored := hclean (by simpa using hack) hreturned
        exact ⟨hκ, fun _ _ => .inl (.inr ⟨hstored, .inl rfl⟩)⟩

theorem consumeFailure_wp (hacc : .accepted m ∈ κ) (hdel : .delivery tag .order m ∈ κ)
    (xDeath : List XDeath) :
    evidence.wp (consumeFailure m xDeath tag) (fun κ' _ => κ ⊆ κ') κ := by
  refine (Logic.wp_ite _ _ _).mpr ⟨fun _ => ?_, fun _ => ?_⟩
  · rw [Logic.wp_tryCatch, Logic.wp_bind]
    refine Logic.wp_mono (sendToFailedQueue_wp hacc) fun κ' r hr => ?_
    have hnack : ∀ κ', κ ⊆ κ' → evidence.wp (perform (.basicNack tag true))
        (fun κ'' _ => κ ⊆ κ'') κ' := fun κ' h => ⟨.inl rfl, fun _ _ => h.trans Set.subset_union_left⟩
    cases r with
    | error e => exact hnack κ' hr.1
    | ok u =>
      refine ⟨.inl ⟨m, hr.1 hdel, hr.2 u rfl⟩, fun r _ => ?_⟩
      cases r with
      | ok _ => exact hr.1.trans Set.subset_union_left
      | error e => exact hnack _ (hr.1.trans Set.subset_union_left)
  · exact ⟨.inr ⟨m, hdel⟩, fun _ _ => Set.subset_union_left⟩

theorem listenVoucherOrder_safe (hacc : .accepted m ∈ κ) (hdel : .delivery tag .order m ∈ κ)
    (xDeath : List XDeath) :
    evidence.Safe (manualContainer tag (listenVoucherOrder m xDeath tag)) κ := by
  refine manualContainer_safe (Logic.wp_mono (Q := fun κ' _ => κ ⊆ κ') ?_
    fun κ' _ h _ _ _ => .inr ⟨m, h hdel⟩)
  refine Logic.wp_tryCatch_of (consumeOrder_wp hacc hdel) (fun _ _ hr => hr.1) fun κ' e hr => ?_
  refine (Logic.wp_ite _ _ _).mpr ⟨fun hk => ?_, fun _ => ?_⟩
  · exact evidence_growing.wp_of_calls (consumeDuplicate_justified (hr.2 e rfl hk) (hr.1 hdel))
      fun _ _ h => hr.1.trans h
  · exact Logic.wp_mono (consumeFailure_wp (hr.1 hacc) (hr.1 hdel) xDeath)
        fun _ _ h => hr.1.trans h

theorem listenFailedOrder_wp (hacc : .accepted m ∈ κ) (hdel : .delivery tag .failed m ∈ κ) :
    evidence.wp (listenFailedOrder m tag) (fun κ' _ => κ ⊆ κ') κ := by
  refine (Logic.wp_perform_bind _ _).mpr ⟨trivial, fun order _ => ?_, fun _ _ =>
    Set.subset_union_left⟩
  cases order with
  | some order =>
    have hrow : rowFacts m.orderId ⊆ evidence.learn κ (.getById m.orderId) (.ok (some order)) :=
      Set.subset_union_right
    refine evidence_growing.wp_of_calls ?_ fun _ _ h => Set.subset_union_left.trans h
    refine (removePending_justified hrow).bind fun _ => (calls_perform _).mpr ?_
    exact .inr ⟨m, .inl hdel, hrow (by simp [rowFacts])⟩
  | none =>
    refine (Logic.wp_perform_bind _ _).mpr ⟨.inl hacc, fun restored _ => ?_, fun _ _ =>
      Set.subset_union_left.trans Set.subset_union_left⟩
    cases restored with
    | none => exact Set.subset_union_left.trans Set.subset_union_left
    | some n =>
      refine evidence_growing.wp_of_calls ?_ fun _ _ h =>
        (Set.subset_union_left.trans Set.subset_union_left).trans h
      refine (markFailed_justified (.inr (by simp [taught])) _).bind fun _ => (calls_perform _).mpr ?_
      exact .inr ⟨m, .inl (.inl hdel), .inr (by simp [taught])⟩

/-- All attempts of the interceptor fail, or none of their exceptions is seen. -/
theorem retrying_wp {recoverer : Exn → Handler Unit} {l : Handler Unit}
    {Q : Set Fact → Except Exn Unit → Prop} (hl : ∀ κ', κ ⊆ κ' → evidence.wp l (fun κ'' _ => κ ⊆ κ'') κ')
    (hr : ∀ κ' e, κ ⊆ κ' → evidence.wp (recoverer e) Q κ') (hok : ∀ κ' u, Q κ' (.ok u))
    (retries : ℕ) {κ' : Set Fact} (hκ : κ ⊆ κ') : evidence.wp (retrying recoverer l retries) Q κ' := by
  induction retries generalizing κ' with
  | zero =>
    exact Logic.wp_tryCatch_of (hl κ' hκ) (fun κ'' u _ => hok κ'' u) fun κ'' e h => hr κ'' e h
  | succ retries ih =>
    exact Logic.wp_tryCatch_of (hl κ' hκ) (fun κ'' u _ => hok κ'' u) fun κ'' e h => ih h

theorem listenFailedOrder_safe (hacc : .accepted m ∈ κ) (hdel : .delivery tag .failed m ∈ κ) :
    evidence.Safe (manualContainer tag (listenFailedOrderRetrying m tag)) κ := by
  refine manualContainer_safe (retrying_wp (κ := κ) ?_ ?_ (fun _ _ _ he => by cases he) 3 subset_rfl)
  · exact fun κ' h => Logic.wp_mono (listenFailedOrder_wp (h hacc) (h hdel)) fun _ _ h' => h.trans h'
  · intro κ' e h
    refine (Logic.wp_perform_bind _ _).mpr ⟨h hacc, fun _ _ e' he' hk => ?_, fun e'' he e' he' hk => ?_⟩
    · cases he'; cases hk
    · cases he'
      simp [receives, Exn.foreign, hk] at he

theorem giveUp_wp {κ₀ : Set Fact} {data : PendingData}
    (howner : ∀ u, data.lookup .userId = some (.number u) → .accepted ⟨o, u, v⟩ ∈ κ)
    (hκ : κ₀ ⊆ κ) : evidence.wp (giveUp v o data) (fun κ' _ => κ₀ ⊆ κ') κ := by
  rw [giveUp, Logic.wp_bind]
  refine requireLong_wp _ (fun u hu => ?_) fun _ => hκ
  refine (Logic.wp_perform_bind _ _).mpr ⟨howner u hu, fun restored _ => ?_, fun _ _ =>
    hκ.trans Set.subset_union_left⟩
  cases restored with
  | none => exact hκ.trans Set.subset_union_left
  | some n =>
    exact evidence_growing.wp_of_calls (markFailed_justified (.inr (by simp [taught])) _)
      fun _ _ h => (hκ.trans Set.subset_union_left).trans h

/-- What follows once the data hash of the order is there. -/
theorem republishData_wp {κ₀ : Set Fact} {data : PendingData}
    (howner : ∀ u, data.lookup .userId = some (.number u) → .accepted ⟨o, u, v⟩ ∈ κ)
    (hκ : κ₀ ⊆ κ) : evidence.wp (do
      let retryCount ← requireInt (data.lookup .retryCount)
      if retryCount ≥ maxRepublishCount then
        giveUp v o data
      else
        let userId ← requireLong (data.lookup .userId)
        beforeRepublish v o
        sendOrderMessage ⟨o, userId, v⟩) (fun κ' _ => κ₀ ⊆ κ') κ := by
  have hint : ∀ value, (requireInt value).Calls (justified κ) := by
    intro value
    unfold requireInt
    cases value with
    | none => exact calls_pure _
    | some value => dsimp only; split <;> trivial
  refine evidence_growing.wp_bind_of_calls (hint _) (fun κ₁ retryCount h₁ => ?_)
    fun _ _ h => hκ.trans h
  have howner₁ := fun u hu => h₁ (howner u hu)
  refine (Logic.wp_ite _ _ _).mpr ⟨fun _ => giveUp_wp howner₁ (hκ.trans h₁), fun _ => ?_⟩
  rw [Logic.wp_bind]
  refine requireLong_wp _ (fun u hu => ?_) fun _ => hκ.trans h₁
  refine evidence_growing.wp_bind_of_calls beforeRepublish_justified (fun κ₂ _ h₂ => ?_)
    fun _ _ h => (hκ.trans h₁).trans h
  exact ⟨h₂ (howner₁ u hu), fun _ _ => ((hκ.trans h₁).trans h₂).trans Set.subset_union_left⟩

theorem republishOne_wp (hknown : .known v o ∈ κ) :
    evidence.wp (republishOne v o) (fun κ' _ => κ ⊆ κ') κ := by
  refine (Logic.wp_perform_bind _ _).mpr ⟨trivial, fun order _ => ?_, fun _ _ =>
    Set.subset_union_left⟩
  have hκ := Set.subset_union_left (s := κ) (t := taught κ (.getById o) (.ok order))
  cases order with
  | some order =>
    exact evidence_growing.wp_of_calls (removePending_justified Set.subset_union_right)
      fun _ _ h => hκ.trans h
  | none =>
    refine (Logic.wp_perform_bind _ _).mpr ⟨trivial, fun data _ => ?_, fun _ _ =>
      hκ.trans Set.subset_union_left⟩
    have hkept := hκ.trans (Set.subset_union_left
      (t := taught (evidence.learn κ (.getById o) (.ok none)) (.redis v (.hgetall o)) (.ok data)))
    refine (Logic.wp_ite _ _ _).mpr ⟨fun hempty => ?_, fun _ => ?_⟩
    · exact evidence_growing.wp_of_calls
        (markFailed_justified (.inr (.inr ⟨rfl, hempty, hκ hknown⟩)) _) fun _ _ h => hkept.trans h
    · exact republishData_wp (fun u hu => .inr (.inl ⟨u, rfl, hu⟩)) hkept

theorem republishPendingOrders_safe : evidence.Safe republishPendingOrders κ := by
  refine (Logic.wp_perform_bind _ _).mpr ⟨trivial, fun now _ => ?_, fun _ _ => trivial⟩
  refine (Logic.wp_perform_bind _ _).mpr ⟨trivial, fun vouchers _ => ?_, fun _ _ => trivial⟩
  refine Logic.wp_forEach (fun _ _ => True) (fun _ _ => trivial) ?_ trivial
  rintro κ v - -
  refine (Logic.wp_perform_bind _ _).mpr ⟨trivial, fun orderIds _ => ?_, fun _ _ => by simp⟩
  refine Logic.wp_forEach (fun κ' os => ∀ o ∈ os, Fact.known v o ∈ κ') (fun _ _ => by simp) ?_ ?_
  swap
  · exact fun o ho => .inr ⟨o, ho, rfl⟩
  intro κ' o os hos
  have hknown := hos o (by simp)
  have hrest : ∀ κ'', κ' ⊆ κ'' → ∀ o' ∈ os, Fact.known v o' ∈ κ'' :=
    fun κ'' h o' ho' => h (hos o' (by simp [ho']))
  refine Logic.wp_tryCatch_of (republishOne_wp hknown) (fun κ₁ _ h => ?_) fun κ₁ e h => ?_
  · exact ⟨fun _ _ => hrest κ₁ h, fun e he => by cases he⟩
  · refine evidence_growing.wp_of_calls (markSendFailed_justified (h hknown) _) fun κ₂ r h₂ => ?_
    exact ⟨fun _ _ => hrest κ₂ (h.trans h₂), fun _ _ => by simp⟩

end Handlers
end HmDianPing.Seckill
