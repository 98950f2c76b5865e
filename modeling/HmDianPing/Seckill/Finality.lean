import HmDianPing.Interleaving.Machine
import HmDianPing.Seckill.Service

/-! # Terminal statuses

The operations on the delivery state of one order, run by any number of threads,
command by command. A terminal status stays as long as no operation that overlaps
its write, or starts later, can still write the status or the pending set.
-/
namespace HmDianPing.Seckill
open Interleaving Program

/-- The operations the callbacks, the republish task and the consumers issue for one order. -/
inductive StatusOp where
  | markSendSuccess
  | markSendFailed (reason : Option String)
  | markRouteFailed (reason : Option String)
  | beforeRepublish
  | markConsuming (consumeStartedAt : ℤ)
  | removePending
  | markFailed (reason : Option String)

def StatusOp.program (m : Message) : StatusOp → Handler Unit
  | .markSendSuccess => Seckill.markSendSuccess m.voucherId m.orderId
  | .markSendFailed reason => Seckill.markSendFailed m.voucherId m.orderId reason
  | .markRouteFailed reason => Seckill.markRouteFailed m reason
  | .beforeRepublish => Seckill.beforeRepublish m.voucherId m.orderId
  | .markConsuming at_ => Seckill.markConsuming m.voucherId m.orderId at_
  | .removePending => Seckill.removePending m.voucherId m.orderId
  | .markFailed reason => Seckill.markFailed m.voucherId m.orderId reason

inductive StatusAction where
  | start (op : StatusOp)
  | tick (clock : ℤ) (redisTime : ℤ × ℤ)

/-- Redis serves every command, and the data hash does not expire. A call that throws ends its
operation, as a crash does. -/
def statusOperations (m : Message) :
    Machine World Cmd Cmd.Reply Exn StatusOp Unit StatusAction where
  exec c _ w := World.exec c .performed w
  act
    | .start op, w => some (w, [⟨op, op.program m⟩])
    | .tick clock redisTime, w => some ({ w with clock := clock, redisTime := redisTime }, [])

abbrev StatusConfig := Config World Cmd Cmd.Reply Exn StatusOp

def World.status (w : World) (m : Message) : Option Value :=
  (w.redis m.voucherId).hget m.orderId .status

def Terminal (s : PendingStatus) : Prop := s = .orderCreated ∨ s = .failed

instance (s : PendingStatus) : Decidable (Terminal s) := inferInstanceAs (Decidable (_ ∨ _))

/-- The terminal status a field value spells. -/
def terminalOf : Option Value → Option PendingStatus
  | some (.status s) => if Terminal s then some s else none
  | _ => none

theorem terminalOf_eq_some {v : Option Value} {s : PendingStatus} :
    terminalOf v = some s ↔ Terminal s ∧ v = some (.status s) := by
  unfold terminalOf
  split
  · next s' =>
    simp only [Option.ite_none_right_eq_some, Option.some.injEq, Value.status.injEq]
    constructor
    · rintro ⟨ht, rfl⟩; exact ⟨ht, rfl⟩
    · rintro ⟨ht, rfl⟩; exact ⟨ht, rfl⟩
  · next hs => simpa using fun _ h => hs s h

/-- The terminal status the order has, if it has one. -/
def World.finalStatus (w : World) (m : Message) : Option PendingStatus := terminalOf (w.status m)

/-- The call, with the order's status already final in `final`, may be made: it is a record of a
status, and it changes neither the final status nor the pending set. -/
def finalAllows (m : Message) (final : Option PendingStatus) : Cmd → Prop
  | .currentTimeMillis => True
  | .redis v (.hset o .status value) => v = m.voucherId → o = m.orderId →
      ∀ s ∈ final, value = .status s
  | .redis _ (.hsetnx _ .status _) => False
  | .redis _ (.hincrBy _ .status _) => False
  | .redis v (.zaddPending o _) => v = m.voucherId → o = m.orderId → final = none
  | .redis _ (.restore _ _) => False
  | .redis _ _ => True
  | _ => False

def finalMeets (m : Message) (final : Option PendingStatus) :
    (c : Cmd) → Except Exn c.Reply → Prop
  | .redis v (.hget o .status), r => v = m.voucherId → o = m.orderId →
      ∀ s ∈ final, r = .ok (some (.status s))
  | _, _ => True

def finalLearn (m : Message) (final : Option PendingStatus) :
    (c : Cmd) → Except Exn c.Reply → Option PendingStatus
  | .redis v (.hset o .status value), _ =>
      if v = m.voucherId ∧ o = m.orderId then terminalOf (some value) else final
  | _, _ => final

/-- What an operation may do once it knows the status to be final. -/
def finality (m : Message) : Logic Cmd Cmd.Reply Exn (Option PendingStatus) :=
  ⟨finalAllows m, finalMeets m, finalLearn m⟩

section Safe
variable (m : Message) {κ : Option PendingStatus}

@[simp] theorem finality_pre : (finality m).pre = finalAllows m := rfl

@[simp] theorem finality_meets : (finality m).meets = finalMeets m := rfl

@[simp] theorem finality_learn : (finality m).learn = finalLearn m := rfl

theorem neutral_hset {field : Field} (hf : field ≠ .status) (v o : Long) (value : Value) :
    (finality m).Neutral (.redis v (.hset o field value)) := by
  cases field <;> first | exact absurd rfl hf | exact fun _ => ⟨trivial, fun _ _ => rfl⟩

theorem putDuration_neutral {field : Field} (hf : field ≠ .status) (v o : Long) (upto : ℤ)
    (since : Option Long) : (putDuration v o field upto since).Calls (finality m).Neutral := by
  cases since with
  | none => exact calls_pure _
  | some since => exact (calls_perform _).mpr (neutral_hset m hf v o _)

theorem removePending_safe (hκ : ∀ s ∈ κ, s = .orderCreated) :
    (finality m).Safe (removePending m.voucherId m.orderId) κ := by
  have hstatus : ∀ s, κ = some s → PendingStatus.orderCreated = s := fun s hs => (hκ s hs).symm
  simp [Logic.Safe, removePending, removePendingAt, readLong, forall_except, finalAllows,
    finalMeets, finalLearn]
  intro now acceptedAt consumeStartedAt
  refine ⟨hstatus, ?_⟩
  rw [← Logic.wp_bind]
  refine Logic.wp_of_neutral ?_ fun _ => trivial
  refine Calls.bind (putDuration_neutral m (by simp) _ _ _ _) fun _ => ?_
  have htail : ∀ since, (putDuration m.voucherId m.orderId .dbProcessMillis now since
      >>= fun _ => refreshDataTtl m.voucherId m.orderId).Calls (finality m).Neutral := fun since =>
    Calls.bind (putDuration_neutral m (by simp) _ _ _ _) fun _ =>
      (calls_perform _).mpr fun _ => ⟨trivial, fun _ _ => rfl⟩
  cases longValue consumeStartedAt with
  | none => exact htail none
  | some startedAt =>
    exact Calls.bind (putDuration_neutral m (by simp) _ _ _ _) fun _ => htail (some startedAt)

theorem markFailed_safe (reason : Option String) (hκ : ∀ s ∈ κ, s = .failed) :
    (finality m).Safe (markFailed m.voucherId m.orderId reason) κ := by
  have hstatus : ∀ s, κ = some s → PendingStatus.failed = s := fun s hs => (hκ s hs).symm
  simpa [Logic.Safe, markFailed, refreshDataTtl, forall_except, finalAllows, finalMeets,
    finalLearn] using hstatus

theorem StatusOp.safe (op : StatusOp) : (finality m).Safe (op.program m) none := by
  cases op with
  | markSendSuccess =>
    simp [Logic.Safe, StatusOp.program, Seckill.markSendSuccess, refreshDataTtl, forall_except,
      finalAllows, finalMeets, finalLearn, terminalOf, Logic.wp_ite, Terminal]
  | markSendFailed reason =>
    simp [Logic.Safe, StatusOp.program, Seckill.markSendFailed, calculateRetryDelay,
      refreshDataTtl, forall_except, finalAllows, finalMeets, finalLearn, terminalOf, Terminal]
  | markRouteFailed reason =>
    simp [Logic.Safe, StatusOp.program, Seckill.markRouteFailed, calculateRetryDelay,
      refreshDataTtl, forall_except, finalAllows, finalMeets, finalLearn, terminalOf, Terminal]
  | beforeRepublish =>
    simp [Logic.Safe, StatusOp.program, Seckill.beforeRepublish, refreshDataTtl, forall_except,
      finalAllows, finalMeets, finalLearn, terminalOf, Terminal]
  | markConsuming startedAt =>
    simp [Logic.Safe, StatusOp.program, Seckill.markConsuming, refreshDataTtl, forall_except,
      finalAllows, finalMeets, finalLearn, terminalOf, Logic.wp_ite, Terminal]
  | markFailed reason => exact markFailed_safe m reason (by simp)
  | removePending => exact removePending_safe m (by simp)

/-- Operations that leave a final status `s` alone when they start under it. -/
def StatusOp.Harmless (s : PendingStatus) : StatusOp → Prop
  | .markSendSuccess | .markConsuming _ => True
  | .removePending => s = .orderCreated
  | .markFailed _ => s = .failed
  | _ => False

theorem StatusOp.Harmless.safe {op : StatusOp} {s : PendingStatus} (h : op.Harmless s)
    (hs : Terminal s) : (finality m).Safe (op.program m) (some s) := by
  cases op with
  | markSendSuccess =>
    rcases hs with rfl | rfl <;>
      simp [Logic.Safe, StatusOp.program, Seckill.markSendSuccess, finalAllows, finalMeets, finalLearn]
  | markConsuming startedAt =>
    rcases hs with rfl | rfl <;>
      simp [Logic.Safe, StatusOp.program, Seckill.markConsuming, finalAllows, finalMeets, finalLearn]
  | removePending => exact removePending_safe m fun s' hs' => by cases hs'; exact h
  | markFailed reason => exact markFailed_safe m reason fun s' hs' => by cases hs'; exact h
  | _ => exact h.elim

end Safe

section Exec
variable {m : Message} {w w' : World} {c : Cmd} {r : Except Exn c.Reply}

theorem finalAllows_writes {κ : Option PendingStatus} {c : RedisCmd}
    (ha : finalAllows m κ (.redis m.voucherId c)) (hw : c.Writes m.orderId .status) :
    ∃ value, c = .hset m.orderId .status value := by
  cases c with
  | hset o field value => obtain ⟨rfl, rfl⟩ := hw; exact ⟨value, rfl⟩
  | hsetnx o field value => obtain ⟨rfl, rfl⟩ := hw; exact ha.elim
  | hincrBy o field delta => obtain ⟨rfl, rfl⟩ := hw; exact ha.elim
  | _ => exact hw.elim

theorem finalLearn_of_not_writes {κ : Option PendingStatus} {v : Long} {c : RedisCmd}
    {r : Except Exn c.Reply} (hw : v = m.voucherId → ¬ c.Writes m.orderId .status) :
    finalLearn m κ (.redis v c) r = κ := by
  cases c with
  | hset o field value =>
    cases field with
    | status =>
      simp only [finalLearn]
      rw [if_neg fun h => hw h.1 ⟨h.2, rfl⟩]
    | _ => rfl
  | _ => rfl

theorem final_exec (ha : finalAllows m (w.finalStatus m) c)
    (h : World.exec c .performed w = some (r, w')) :
    finalMeets m (w.finalStatus m) c r ∧ w'.finalStatus m = finalLearn m (w.finalStatus m) c r ∧
      (m.orderId ∈ (w'.redis m.voucherId).pending → w.finalStatus m ≠ none →
        m.orderId ∈ (w.redis m.voucherId).pending) := by
  rw [World.exec_performed] at h
  cases c with
  | currentTimeMillis => cases h; exact ⟨trivial, rfl, fun h _ => h⟩
  | redis v c =>
    cases h
    by_cases hv : v = m.voucherId
    · subst hv
      refine ⟨?_, ?_, ?_⟩
      · cases c with
        | hget o field =>
          cases field with
          | status =>
            rintro - rfl s hs
            exact congrArg Except.ok (terminalOf_eq_some.mp hs).2
          | _ => trivial
        | _ => trivial
      · by_cases hw : c.Writes m.orderId .status
        · obtain ⟨value, rfl⟩ := finalAllows_writes ha hw
          simp [World.finalStatus, World.status, World.setRedis, RedisCmd.run, finalLearn,
            VoucherKeys.hget_hset]
        · rw [finalLearn_of_not_writes fun _ => hw]
          simp only [World.finalStatus, World.status, World.setRedis, Function.update_self]
          rw [RedisCmd.run_hget hw]
      · intro hmem hfinal
        simp only [World.setRedis, Function.update_self] at hmem
        rcases RedisCmd.run_pending hmem with hmem | ⟨score, rfl⟩
        · exact hmem
        · exact absurd (ha rfl rfl) hfinal
    · have hsame : ∀ k, (w.setRedis v k).redis m.voucherId = w.redis m.voucherId :=
        fun k => Function.update_of_ne (Ne.symm hv) _ _
      refine ⟨?_, ?_, fun hmem _ => by rwa [hsame] at hmem⟩
      · cases c with
        | hget o field => cases field <;> first | exact fun h => absurd h hv | trivial
        | _ => trivial
      · rw [finalLearn_of_not_writes fun h => absurd h hv]
        simp only [World.finalStatus, World.status, hsame]
  | _ => exact ha.elim

end Exec

/-- The terminal status of this order that the next call of a thread writes. -/
def nextFinal (m : Message) : Handler Unit → Option PendingStatus
  | .call (.redis v (.hset o .status value)) _ =>
      if v = m.voucherId ∧ o = m.orderId then terminalOf (some value) else none
  | _ => none

/-- A terminal status is written only when no other operation in flight can still write another
status or the pending set, and under it no operation starts that would. -/
def NoLateWriter (m : Message) (c : StatusConfig) : Move Unit StatusAction → Prop
  | .run i _ => ∀ t, c.threads[i]? = some t → ∀ s ∈ nextFinal m t.program,
      ∀ j t', j ≠ i → c.threads[j]? = some t' → (finality m).Safe t'.program (some s)
  | .act (.start op) => ∀ s ∈ c.shared.finalStatus m, op.Harmless s
  | _ => True

def AllHarmless (m : Message) (c : StatusConfig) : Prop :=
  ∀ t ∈ c.threads, (finality m).Safe t.program (c.shared.finalStatus m)

section Run
variable {m : Message} {c c' : StatusConfig} {mv : Move Unit StatusAction}

theorem nextFinal_of_learn {κ : Option PendingStatus} {cmd : Cmd}
    {k : Except Exn cmd.Reply → Handler Unit} {r : Except Exn cmd.Reply}
    (hκ : ∀ s ∈ κ, Terminal s) (ha : finalAllows m κ cmd) (hne : finalLearn m κ cmd r ≠ κ) :
    ∃ s, finalLearn m κ cmd r = some s ∧ s ∈ nextFinal m (.call cmd k) ∧ κ = none := by
  cases cmd with
  | redis v c =>
    cases c with
    | hset o field value =>
      cases field with
      | status =>
        by_cases h : v = m.voucherId ∧ o = m.orderId
        · simp only [finalLearn, nextFinal, if_pos h] at hne ⊢
          cases hv : terminalOf (some value) with
          | none =>
            cases κ with
            | none => exact absurd hv hne
            | some s =>
              obtain rfl : value = .status s := ha h.1 h.2 s rfl
              rw [terminalOf_eq_some.mpr ⟨hκ s rfl, rfl⟩] at hv
              cases hv
          | some s =>
            cases κ with
            | none => exact ⟨s, rfl, rfl, rfl⟩
            | some s' =>
              obtain rfl : value = .status s' := ha h.1 h.2 s' rfl
              obtain ⟨-, heq⟩ := terminalOf_eq_some.mp hv
              cases heq
              exact absurd hv hne
        · simp only [finalLearn, if_neg h] at hne
          exact absurd rfl hne
      | _ => exact absurd rfl hne
    | _ => exact absurd rfl hne
  | _ => exact absurd rfl hne

theorem terminal_of_finalStatus {w : World} : ∀ s ∈ w.finalStatus m, Terminal s :=
  fun _ hs => (terminalOf_eq_some.mp hs).1

/-- What one move does: the operations stay harmless, a final status stays, and under it the order
does not come back into the pending set. -/
theorem AllHarmless.fires (hc : AllHarmless m c) (hg : NoLateWriter m c mv)
    (h : (statusOperations m).Fires c mv c') :
    AllHarmless m c' ∧ (∀ s, c.shared.finalStatus m = some s →
      c'.shared.finalStatus m = some s ∧ (m.orderId ∈ (c'.shared.redis m.voucherId).pending →
        m.orderId ∈ (c.shared.redis m.voucherId).pending)) := by
  cases h with
  | @run i f tag cmd k r w hi hexec =>
    have hs := hc _ (List.mem_of_getElem? hi)
    obtain ⟨hmeets, hfinal, hpending⟩ := final_exec hs.1 hexec
    refine ⟨fun t ht => ?_, fun s hfs => ⟨?_, fun hmem => hpending hmem (by simp [hfs])⟩⟩
    · show (finality m).Safe t.program (w.finalStatus m)
      rcases Machine.mem_set_thread ht with rfl | ⟨j, hji, hj⟩
      · rw [hfinal]
        exact hs.2 r hmeets
      · by_cases hl : finalLearn m (c.shared.finalStatus m) cmd r = c.shared.finalStatus m
        · rw [hfinal, hl]
          exact hc t (List.mem_of_getElem? hj)
        · obtain ⟨s, hls, hnext, -⟩ :=
            nextFinal_of_learn (k := k) terminal_of_finalStatus hs.1 hl
          rw [hfinal, hls]
          exact hg _ hi s hnext j t hji hj
    · show w.finalStatus m = some s
      by_cases hl : finalLearn m (c.shared.finalStatus m) cmd r = c.shared.finalStatus m
      · rw [hfinal, hl, hfs]
      · obtain ⟨_, -, -, hnone⟩ := nextFinal_of_learn (k := k) terminal_of_finalStatus hs.1 hl
        rw [hfs] at hnone
        cases hnone
  | crash hb => exact ⟨fun t ht => hc t (List.mem_of_mem_eraseIdx ht), fun s hs => ⟨hs, id⟩⟩
  | @act a w started hact =>
    cases a with
    | start op =>
      cases hact
      refine ⟨fun t ht => ?_, fun s hs => ⟨hs, id⟩⟩
      rcases List.mem_append.mp ht with ht | ht
      · exact hc t ht
      · obtain rfl := List.mem_singleton.mp ht
        show (finality m).Safe (op.program m) (c.shared.finalStatus m)
        cases hfs : c.shared.finalStatus m with
        | none => exact op.safe m
        | some s => exact (hg s hfs).safe m (terminal_of_finalStatus s hfs)
    | tick clock redisTime =>
      cases hact
      exact ⟨fun t ht => hc t (by simpa using ht), fun s hs => ⟨hs, id⟩⟩

theorem allHarmless_of_run (h : (statusOperations m).Run (NoLateWriter m) c c')
    (hc : AllHarmless m c) : AllHarmless m c' :=
  h.invariant hc fun _ _ _ hd hg hf => (hd.fires hg hf).1

/-- From any moment of a run on, a final status stays and the order is not pending again. -/
theorem finalStatus_of_run (h : (statusOperations m).Run (NoLateWriter m) c c')
    (hc : AllHarmless m c) {s : PendingStatus} (hs : c.shared.finalStatus m = some s) :
    c'.shared.finalStatus m = some s ∧ (m.orderId ∈ (c'.shared.redis m.voucherId).pending →
      m.orderId ∈ (c.shared.redis m.voucherId).pending) := by
  refine (h.invariant (I := fun d => AllHarmless m d ∧ d.shared.finalStatus m = some s ∧
    (m.orderId ∈ (d.shared.redis m.voucherId).pending →
      m.orderId ∈ (c.shared.redis m.voucherId).pending)) ⟨hc, hs, id⟩ ?_).2
  rintro d mv d' ⟨hd, hds, hmem⟩ hg hf
  obtain ⟨hd', hstep⟩ := hd.fires hg hf
  exact ⟨hd', (hstep s hds).1, fun h => hmem ((hstep s hds).2 h)⟩

end Run

section Query
variable {m : Message} {w : World}

def World.HasData (w : World) (m : Message) : Prop :=
  ((w.redis m.voucherId).pendingData m.orderId).hash.entries ≠ []

instance (w : World) (m : Message) : Decidable (w.HasData m) := inferInstanceAs (Decidable (_ ≠ _))

theorem queriedStatus_of_hasData (userId : Long) (h : w.HasData m) :
    (w.queriedStatus m.orderId userId m.voucherId).status = .notFound ∨
      (w.queriedStatus m.orderId userId m.voucherId).status = clientStatus (w.status m) := by
  simp only [World.queriedStatus, if_pos (show _ ≠ [] from h)]
  split
  · exact .inl rfl
  · exact .inr rfl

theorem hasData_of_finalStatus {s : PendingStatus} (h : w.finalStatus m = some s) :
    w.HasData m := by
  intro hempty
  have hs := (terminalOf_eq_some.mp h).2
  rw [World.status, VoucherKeys.hget, AList.lookup, hempty] at hs
  cases hs

theorem finalStatus_of_clientStatus :
    (clientStatus (w.status m) = .completed ↔ w.finalStatus m = some .orderCreated) ∧
      (clientStatus (w.status m) = .failed ↔ w.finalStatus m = some .failed) := by
  simp only [World.finalStatus, terminalOf_eq_some, clientStatus]
  split
  · next h => simp [h, Terminal]
  · split
    · next h => simp [h, Terminal]
    · next h₁ h₂ => simp [h₁, h₂]

end Query

/-- After a terminal answer the query gives no other one, and from a terminal status on the order
is not pending again, in all runs that obey `guard`. -/
def TerminalStatesFinal (m : Message) (guard : StatusConfig → Move Unit StatusAction → Prop) :
    Prop :=
  ∀ (w : World) (c₁ c₂ : StatusConfig), (statusOperations m).Run guard ⟨w, []⟩ c₁ →
    (statusOperations m).Run guard c₁ c₂ →
    (∀ u₁ u₂ dto₁ dto₂, c₁.shared.HasData m →
      Answers c₁.shared m.orderId u₁ m.voucherId dto₁ →
      Answers c₂.shared m.orderId u₂ m.voucherId dto₂ →
      (dto₁.status = .completed → dto₂.status ≠ .processing ∧ dto₂.status ≠ .failed) ∧
      (dto₁.status = .failed → dto₂.status ≠ .processing ∧ dto₂.status ≠ .completed)) ∧
    (c₁.shared.finalStatus m ≠ none → m.orderId ∈ (c₂.shared.redis m.voucherId).pending →
      m.orderId ∈ (c₁.shared.redis m.voucherId).pending)

theorem terminal_states_final (m : Message) : TerminalStatesFinal m (NoLateWriter m) := by
  intro w c₁ c₂ h₁ h₂
  have hc : AllHarmless m c₁ := allHarmless_of_run h₁ (by simp [AllHarmless])
  refine ⟨fun u₁ u₂ dto₁ dto₂ hdata ha₁ ha₂ => ?_, fun hs hmem => ?_⟩
  · obtain rfl := ha₁.eq_queriedStatus
    obtain rfl := ha₂.eq_queriedStatus
    have hq₁ := queriedStatus_of_hasData u₁ hdata
    constructor
    · intro hcompleted
      have hs : c₁.shared.finalStatus m = some .orderCreated :=
        finalStatus_of_clientStatus.1.mp (by rcases hq₁ with h | h <;> simp_all)
      have hs₂ := (finalStatus_of_run h₂ hc hs).1
      rcases queriedStatus_of_hasData u₂ (hasData_of_finalStatus hs₂) with h | h
      · rw [h]; simp
      · rw [h, finalStatus_of_clientStatus.1.mpr hs₂]; simp
    · intro hfailed
      have hs : c₁.shared.finalStatus m = some .failed :=
        finalStatus_of_clientStatus.2.mp (by rcases hq₁ with h | h <;> simp_all)
      have hs₂ := (finalStatus_of_run h₂ hc hs).1
      rcases queriedStatus_of_hasData u₂ (hasData_of_finalStatus hs₂) with h | h
      · rw [h]; simp
      · rw [h, finalStatus_of_clientStatus.2.mpr hs₂]; simp
  · obtain ⟨s, hs⟩ := Option.ne_none_iff_exists'.mp hs
    exact (finalStatus_of_run h₂ hc hs).2 hmem

/-- The sample message, accepted a moment ago. -/
def acceptedWorld : World := (sampleWorld.offer 7 1 100 5).2

instance (s : PendingStatus) : (op : StatusOp) → Decidable (op.Harmless s)
  | .markSendSuccess => inferInstanceAs (Decidable True)
  | .markConsuming _ => inferInstanceAs (Decidable True)
  | .removePending => inferInstanceAs (Decidable (s = .orderCreated))
  | .markFailed _ => inferInstanceAs (Decidable (s = .failed))
  | .markSendFailed _ => inferInstanceAs (Decidable False)
  | .markRouteFailed _ => inferInstanceAs (Decidable False)
  | .beforeRepublish => inferInstanceAs (Decidable False)

/-- One operation at a time, and under a final status only harmless ones. -/
def oneAtATime (m : Message) (c : StatusConfig) : Move Unit StatusAction → Bool
  | .run i _ => (c.threads.eraseIdx i).all fun t => t.program.ended
  | .act (.start op) => decide (∀ s ∈ c.shared.finalStatus m, op.Harmless s)
  | _ => true

theorem noLateWriter_of_oneAtATime {m : Message} {c : StatusConfig} {mv : Move Unit StatusAction}
    (h : oneAtATime m c mv = true) : NoLateWriter m c mv := by
  cases mv with
  | run i f =>
    intro t _ s _ j t' hji hj
    obtain ⟨r, hp⟩ := Machine.exists_done_of_others h hji hj
    rw [hp]
    trivial
  | crash i => trivial
  | act a =>
    cases a with
    | start op =>
      have hop : ∀ s ∈ c.shared.finalStatus m, op.Harmless s := of_decide_eq_true h
      exact hop
    | tick clock redisTime => trivial

def alone (op : StatusOp) (i calls : ℕ) : List (Move Unit StatusAction) :=
  .act (.start op) :: List.replicate calls (.run i ())

def orderSettled : Option StatusConfig :=
  (statusOperations sampleMessage).play (oneAtATime sampleMessage) ⟨acceptedWorld, []⟩
    (alone .removePending 0 8)

/-- A positive confirm arrives after the order is settled. -/
def confirmedLate : Option StatusConfig :=
  orderSettled.bind fun c => (statusOperations sampleMessage).play (oneAtATime sampleMessage) c
    (alone .markSendSuccess 1 1)

/-- The broker answers with a nack after the order is settled. -/
def nackedLate : Option StatusConfig :=
  orderSettled.bind fun c => (statusOperations sampleMessage).play (fun _ _ => true) c
    (alone (.markSendFailed (some "Connection closed by broker")) 1 8)

def completedIn (c : StatusConfig) : Bool :=
  decide (c.shared.HasData sampleMessage ∧ (c.shared.queriedStatus 100 7 1).status = .completed)

theorem completed_of_orderSettled {c : StatusConfig} (h : orderSettled = some c) :
    c.shared.HasData sampleMessage ∧ (c.shared.queriedStatus 100 7 1).status = .completed := by
  have hcompleted : orderSettled.map completedIn = some true := by decide +kernel
  rw [h] at hcompleted
  exact of_decide_eq_true (Option.some.inj hcompleted)

theorem terminal_states_final_confirmedLate : ∃ c, confirmedLate = some c ∧
    (c.shared.queriedStatus 100 7 1).status ≠ .processing ∧
    (c.shared.queriedStatus 100 7 1).status ≠ .failed := by
  have hplay : confirmedLate.isSome := by decide +kernel
  obtain ⟨c₂, h₂⟩ := Option.isSome_iff_exists.mp hplay
  obtain ⟨c₁, h₁, hlate⟩ := Option.bind_eq_some_iff.mp h₂
  obtain ⟨hdata, hstatus⟩ := completed_of_orderSettled h₁
  have hfinal := (terminal_states_final sampleMessage acceptedWorld c₁ c₂
    (Machine.run_of_play (fun _ _ => noLateWriter_of_oneAtATime) h₁)
    (Machine.run_of_play (fun _ _ => noLateWriter_of_oneAtATime) hlate)).1
    7 7 _ _ hdata (answers_iff.mpr rfl) (answers_iff.mpr rfl)
  exact ⟨c₂, h₂, hfinal.1 hstatus⟩

/-- A nack after the order is settled makes a completed order a processing one. -/
theorem terminalStatesFinal_fails :
    ¬ TerminalStatesFinal sampleMessage fun _ _ => True := by
  intro h
  have hplay : nackedLate.map (fun c => decide ((c.shared.queriedStatus 100 7 1).status =
      .processing)) = some true := by decide +kernel
  obtain ⟨c₂, h₂, hprocessing⟩ := Option.map_eq_some_iff.mp hplay
  obtain ⟨c₁, h₁, hlate⟩ := Option.bind_eq_some_iff.mp h₂
  obtain ⟨hdata, hstatus⟩ := completed_of_orderSettled h₁
  have hfinal := (h acceptedWorld c₁ c₂ (Machine.run_of_play (fun _ _ _ => trivial) h₁)
    (Machine.run_of_play (fun _ _ _ => trivial) hlate)).1
    7 7 _ _ hdata (answers_iff.mpr rfl) (answers_iff.mpr rfl)
  exact (hfinal.1 hstatus).1 (of_decide_eq_true hprocessing)

end HmDianPing.Seckill
