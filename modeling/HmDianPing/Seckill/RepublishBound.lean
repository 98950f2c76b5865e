import HmDianPing.Seckill.Republish

/-! # How many scans an order can stay for

No handler writes a retry count below zero, and a scan that leaves an order pending
has raised its count towards the limit. So the count bounds the number of such scans,
as long as nothing else lowers it in between.
-/
namespace HmDianPing.Seckill
open Interleaving Program

/-- Retry counts are written as numbers that are not negative, and only ever raised. -/
def Cmd.CountsUp : Cmd → Prop
  | .redis _ (.hset _ field value) | .redis _ (.hsetnx _ field value) =>
      field = .retryCount → ∀ n, value = .number n → 0 ≤ n
  | .redis _ (.hincrBy _ field delta) => field = .retryCount → 0 ≤ delta
  | _ => True

/-- A raised retry count is not negative. -/
def CountReply : (c : Cmd) → Except Exn c.Reply → Prop
  | .redis _ (.hincrBy _ field _), .ok n => field = .retryCount → 0 ≤ n
  | _, _ => True

/-- What the handlers know about retry counts: only the reply to `HINCRBY`. -/
def counting : Logic Cmd Cmd.Reply Exn Unit where
  pre _ c := c.CountsUp
  meets _ c r := CountReply c r
  learn _ _ _ := ()

section Handlers
variable {v o : Long} {m : Message}

theorem counting_growing : counting.Growing := ⟨fun _ _ _ => le_refl _, fun _ _ _ _ h => h⟩

theorem counting_safe {α : Type} {p : Handler α} (hp : p.Calls Cmd.CountsUp) :
    counting.Safe p () :=
  counting_growing.safe_of_calls hp

theorem markSendSuccess_countsUp : (markSendSuccess v o).Calls Cmd.CountsUp := by
  simp [markSendSuccess, refreshDataTtl, Cmd.CountsUp]

theorem calculateRetryDelay_countsUp : (calculateRetryDelay v o).Calls Cmd.CountsUp := by
  simp [calculateRetryDelay, Cmd.CountsUp]

theorem markSendFailed_countsUp (reason : Option String) :
    (markSendFailed v o reason).Calls Cmd.CountsUp := by
  refine (calls_perform_bind _ _).mpr ⟨trivial, fun now => ?_⟩
  refine calculateRetryDelay_countsUp.bind fun delay => ?_
  simp [refreshDataTtl, Cmd.CountsUp]

theorem markRouteFailed_countsUp (reason : Option String) :
    (markRouteFailed m reason).Calls Cmd.CountsUp := by
  refine (calls_perform_bind _ _).mpr ⟨trivial, fun now => ?_⟩
  refine calculateRetryDelay_countsUp.bind fun delay => ?_
  simp [refreshDataTtl, Cmd.CountsUp]

theorem markFailed_countsUp (reason : Option String) :
    (markFailed v o reason).Calls Cmd.CountsUp := by
  simp [markFailed, refreshDataTtl, Cmd.CountsUp]

theorem removePendingAt_countsUp (committedAt : ℤ) :
    (removePendingAt v o committedAt).Calls Cmd.CountsUp :=
  removePendingAt_calls (fun _ => trivial) trivial (fun h => by cases h)
    (fun _ _ hf hr => absurd (by rw [hr]; trivial) hf) trivial committedAt

theorem consumers_countUp : ConsumerCalls Cmd.CountsUp m where
  time := trivial
  consuming _ := by simp [markConsuming, refreshDataTtl, Cmd.CountsUp]
  created := removePendingAt_countsUp
  failed := markFailed_countsUp
  row := trivial
  restore := trivial
  forward := ⟨trivial, fun _ => trivial, trivial⟩
  settle _ := ⟨trivial, trivial, trivial⟩

theorem confirm_countsUp (ack : Bool) (cause : Option String) :
    (confirm (some (.order o v)) ack cause).Calls Cmd.CountsUp := by
  cases ack with
  | true => exact markSendSuccess_countsUp
  | false => exact markSendFailed_countsUp cause

theorem seckillVoucher_countsUp (u : Long) : (seckillVoucher true u v).Calls Cmd.CountsUp := by
  refine (calls_perform_bind _ _).mpr ⟨trivial, fun o => (calls_perform_bind _ _).mpr
    ⟨trivial, fun now => (calls_perform_bind _ _).mpr ⟨trivial, fun reply => ?_⟩⟩⟩
  cases reply with
  | none => trivial
  | some reply =>
    cases reply with
    | accepted =>
      change (afterAccepted true o u v).Calls Cmd.CountsUp
      rw [afterAccepted, if_neg (by simp)]
      refine Calls.tryCatch ((calls_perform_bind _ _).mpr ⟨trivial, fun _ => calls_pure _⟩) ?_
      refine fun e => (calls_ite _ _ _).mpr ⟨fun _ => ?_, fun _ => calls_throw _⟩
      exact (markSendFailed_countsUp _).bind fun _ => calls_pure _
    | _ => trivial

/-- The count that is put back is the reply to its raise. -/
theorem beforeRepublish_counting : counting.Safe (beforeRepublish v o) () := by
  refine (Logic.wp_perform_bind _ _).mpr ⟨fun _ => by decide, fun count hcount => ?_,
    fun _ _ => trivial⟩
  refine counting_safe ?_
  have hput : Cmd.CountsUp (.redis v (.hset o .retryCount (.number count))) := by
    rintro - n ⟨⟩
    exact hcount rfl
  simpa [refreshDataTtl, Cmd.CountsUp] using hput rfl

theorem republishOne_counting : counting.Safe (republishOne v o) () := by
  refine (Logic.wp_perform_bind _ _).mpr ⟨trivial, fun order _ => ?_, fun _ _ => trivial⟩
  refine (Logic.wp_ite _ _ _).mpr ⟨fun _ => ?_, fun _ => ?_⟩
  · exact counting_safe ((calls_perform_bind _ _).mpr ⟨trivial, removePendingAt_countsUp⟩)
  refine (Logic.wp_perform_bind _ _).mpr ⟨trivial, fun data _ => ?_, fun _ _ => trivial⟩
  refine (Logic.wp_ite _ _ _).mpr ⟨fun _ => counting_safe (markFailed_countsUp _), fun _ => ?_⟩
  refine counting_growing.safe_bind (counting_safe (requireInt_calls _)) fun _ n _ => ?_
  refine (Logic.wp_ite _ _ _).mpr ⟨fun _ => counting_safe ?_, fun _ => ?_⟩
  · refine (requireLong_calls _).bind fun u => (calls_perform_bind _ _).mpr ⟨trivial, ?_⟩
    intro restored
    cases restored with
    | none => trivial
    | some n => exact markFailed_countsUp _
  · refine counting_growing.safe_bind (counting_safe (requireLong_calls _)) fun _ u _ => ?_
    refine counting_growing.safe_bind beforeRepublish_counting fun _ _ _ => ?_
    exact counting_safe ((calls_perform _).mpr trivial)

theorem republishPendingOrders_counting : counting.Safe republishPendingOrders () := by
  refine (Logic.wp_perform_bind _ _).mpr ⟨trivial, fun now _ => ?_, fun _ _ => trivial⟩
  refine (Logic.wp_perform_bind _ _).mpr ⟨trivial, fun vouchers _ => ?_, fun _ _ => trivial⟩
  refine counting_growing.safe_forEach fun _ v _ _ => ?_
  refine (Logic.wp_perform_bind _ _).mpr ⟨trivial, fun os _ => ?_, fun _ _ => trivial⟩
  refine counting_growing.safe_forEach fun _ o _ _ => ?_
  exact counting_growing.safe_tryCatch republishOne_counting fun _ e _ =>
    counting_safe (markSendFailed_countsUp _)

end Handlers

/-- No stored retry count is negative. -/
def World.Counted (w : World) : Prop :=
  ∀ v o n, (w.redis v).hget o .retryCount = some (.number n) → 0 ≤ n

section Counted
variable {w w' : World} {c : Cmd} {v o : Long}

theorem counter_eq_some {value : Option Value} {n : ℤ} (h : counter value = some n) :
    value = none ∧ n = 0 ∨ value = some (.number n) := by
  unfold counter at h
  split at h
  · exact .inl ⟨rfl, (Option.some.inj h).symm⟩
  · rw [Option.some.inj h]
    exact .inr rfl
  · cases h

theorem incremented {k : VoucherKeys} {delta n : ℤ}
    (hk : ∀ n, k.hget o .retryCount = some (.number n) → 0 ≤ n) (hd : 0 ≤ delta)
    (h : ((counter (k.hget o .retryCount)).bind fun n => incrBy (some n) delta) = some n) :
    0 ≤ n := by
  obtain ⟨m, hm, hincr⟩ := Option.bind_eq_some_iff.mp h
  have hpos : 0 ≤ m := by
    rcases counter_eq_some hm with ⟨-, rfl⟩ | hm
    · exact le_refl _
    · exact hk m hm
  obtain ⟨-, hn⟩ := Option.ite_none_right_eq_some.mp hincr
  obtain rfl := Option.some.inj hn
  exact Int.add_nonneg hpos hd

/-- Every reply to a raise is counted, and every write keeps the counts as they should be. -/
theorem counted_run {k : VoucherKeys} {c : RedisCmd} {now : ℤ}
    (hk : ∀ o n, k.hget o .retryCount = some (.number n) → 0 ≤ n)
    (hc : Cmd.CountsUp (.redis v c)) :
    (∀ o n, (c.run now k).2.hget o .retryCount = some (.number n) → 0 ≤ n) ∧
      CountReply (.redis v c) (c.run now k).1 := by
  constructor
  · intro o n hn
    by_cases hw : c.Writes o .retryCount
    · cases c with
      | hset o' field value =>
        obtain ⟨rfl, rfl⟩ := hw
        simp only [RedisCmd.run, VoucherKeys.hget_hset, and_self, if_true] at hn
        exact hc rfl n (Option.some.inj hn)
      | hsetnx o' field value =>
        obtain ⟨rfl, rfl⟩ := hw
        simp only [RedisCmd.run] at hn
        split at hn
        · exact hk _ n hn
        · simp only [VoucherKeys.hget_hset, and_self, if_true] at hn
          exact hc rfl n (Option.some.inj hn)
      | hincrBy o' field delta =>
        obtain ⟨rfl, rfl⟩ := hw
        simp only [RedisCmd.run] at hn
        split at hn
        next m hm =>
          simp only [VoucherKeys.hget_hset, and_self, if_true, Option.some.injEq,
            Value.number.injEq] at hn
          exact hn ▸ incremented (hk _) (hc rfl) hm
        next => exact hk _ n hn
      | _ => exact hw.elim
    · rw [RedisCmd.run_hget hw] at hn
      exact hk o n hn
  · cases c with
    | hincrBy o field delta =>
      simp only [RedisCmd.run]
      split
      next m hm =>
        rintro rfl
        exact incremented (hk o) (hc rfl) hm
      next => trivial
    | _ => trivial

theorem hget_reserve_retryCount (k : VoucherKeys) (u v o now : Long) (time : ℤ × ℤ) (stock : ℤ) :
    (k.reserve u v o now time stock).hget o .retryCount = some (.number 0) := by
  simp [VoucherKeys.hget, VoucherKeys.reserve, newPendingFields, AList.lookup_insert_ne]

theorem World.Counted.call (h : w.Counted) (hc : c.CountsUp) (he : StoreEffect w c w') :
    w'.Counted := by
  intro v o n hn
  cases he with
  | same hs =>
    rw [hs.redis] at hn
    exact h v o n hn
  | @reserved u v' o' now stock =>
    by_cases hv : v = v'
    · subst hv
      simp only [World.setRedis, Function.update_self] at hn
      by_cases ho : o = o'
      · subst ho
        rw [hget_reserve_retryCount] at hn
        cases hn
        exact le_refl _
      · rw [hget_reserve_ne _ _ _ _ _ _ _ ho] at hn
        exact h v o n hn
    · simp only [World.setRedis, Function.update_of_ne hv] at hn
      exact h v o n hn
  | redis v' rc =>
    by_cases hv : v = v'
    · subst hv
      simp only [World.setRedis, Function.update_self] at hn
      exact (counted_run (h v) hc).1 o n hn
    · simp only [World.setRedis, Function.update_of_ne hv] at hn
      exact h v o n hn
  | _ => exact h v o n hn

theorem World.Counted.reply {f : Choice} {r : Except Exn c.Reply} (h : w.Counted)
    (hc : c.CountsUp) (hexec : World.exec c f w = some (r, w')) : CountReply c r := by
  cases c with
  | redis v rc =>
    cases r with
    | error e => cases rc <;> trivial
    | ok a =>
      cases rc with
      | hincrBy o field delta =>
        have hcount : CountReply (.redis v (.hincrBy o field delta))
            (RedisCmd.run w.redisNow (w.redis v) (.hincrBy o field delta)).1 :=
          (counted_run (h v) hc).2
        rwa [(exec_redis_ok (by simp) hexec).1] at hcount
      | _ => trivial
  | _ => cases r <;> trivial

end Counted

/-- No count is negative, and no handler will write one that is. -/
structure CountsHold (c : ProtocolConfig) : Prop where
  world : c.shared.Counted
  handlers : Machine.Knows counting (fun _ _ _ => True) c

section Runs
variable {w w' : World} {c c' d : ProtocolConfig} {v o : Long} {n : ℕ}
  {mv : Move Choice ProtocolAction}

theorem started_counting {a : ProtocolAction} {started : List ProtocolThread}
    (ha : World.act a w = some (w', started)) : ∀ t ∈ started, counting.Safe t.program () := by
  intro t ht
  cases act_starts ha t ht with
  | request u v => exact counting_safe ((seckillVoucher_countsUp u).bind fun _ => calls_pure _)
  | republish => exact republishPendingOrders_counting
  | returned => exact counting_safe (markRouteFailed_countsUp _)
  | @confirm _ p _ ack _ cause => exact counting_safe (confirm_countsUp ack cause)
  | @order _ copy hcopy =>
    have hcalls : ConsumerCalls Cmd.CountsUp copy.message := consumers_countUp
    exact counting_safe (hcalls.manualContainer _ (hcalls.listenVoucherOrder _ trivial _))
  | @failed _ copy hcopy =>
    have hcalls : ConsumerCalls Cmd.CountsUp copy.message := consumers_countUp
    exact counting_safe (hcalls.manualContainer _ (hcalls.listenFailedOrderRetrying _))

theorem hget_expireData {o' : Long} {v' : Long} (h : ¬ (v' = v ∧ o' = o)) (field : Field) :
    ((w.expireData v o).redis v').hget o' field = (w.redis v').hget o' field := by
  by_cases hv : v' = v
  · subst hv
    have ho : o' ≠ o := fun ho => h ⟨rfl, ho⟩
    simp [World.expireData, World.setRedis, VoucherKeys.updateData, VoucherKeys.hget, ho]
  · simp [World.expireData, World.setRedis, hv]

theorem World.Counted.act {a : ProtocolAction} {started : List ProtocolThread} (h : w.Counted)
    (ha : World.act a w = some (w', started)) : w'.Counted := by
  intro v o n hn
  rcases act_stores ha with ⟨hs, -⟩ | ⟨v', o', -, -, rfl, -⟩
  · rw [hs.redis] at hn
    exact h v o n hn
  · by_cases hvo : v = v' ∧ o = o'
    · obtain ⟨rfl, rfl⟩ := hvo
      simp [World.expireData, World.setRedis, VoucherKeys.updateData, VoucherKeys.hget,
        PendingEntry.absent] at hn
    · rw [hget_expireData hvo] at hn
      exact h v o n hn

theorem CountsHold.step (h : CountsHold c) (hf : seckillProtocol.Fires c mv c') :
    CountsHold c' := by
  cases hf with
  | run hi hexec =>
    obtain ⟨_, -, hpre, -⟩ := h.handlers.thread hi
    replace hexec := (Option.ite_none_right_eq_some.mp hexec).2
    refine ⟨h.world.call hpre (effect_of_exec hexec).stores, ?_⟩
    exact h.handlers.run hi (fun _ _ _ _ _ _ => trivial) fun _ _ hpre =>
      ⟨h.world.reply hpre hexec, trivial⟩
  | crash hb => exact ⟨h.world, h.handlers.crash _⟩
  | act ha =>
    refine ⟨h.world.act ha, h.handlers.act (fun _ _ _ => trivial) fun t ht => ?_⟩
    exact ⟨(), trivial, started_counting ha t ht⟩

theorem CountsHold.opening (h : w.Opening) : CountsHold ⟨w, []⟩ := by
  refine ⟨fun v o n hn => ?_, fun t ht => by cases ht⟩
  simp [VoucherKeys.hget, h.data, PendingEntry.absent] at hn

theorem CountsHold.retryCount_nonneg (h : CountsHold c) (v o : Long) :
    0 ≤ (c.shared.redis v).retryCount o := by
  unfold VoucherKeys.retryCount
  cases hget : (c.shared.redis v).hget o .retryCount with
  | none => exact le_refl _
  | some value =>
    rw [readCount]
    cases hn : parseInt value with
    | none => exact le_refl _
    | some n =>
      obtain rfl := parseInt_eq_some hn
      exact h.world v o n hget

/-- A move that does not lower the order's retry count: its data hash does not expire, and no
call writes a smaller count. -/
def KeepsCount (v o : Long) (c : ProtocolConfig) : Move Choice ProtocolAction → Prop
  | .run i _ => ∀ t, c.threads[i]? = some t → t.program.Next fun cmd => ∀ rc, cmd = .redis v rc →
      (c.shared.redis v).retryCount o ≤
        (rc.run c.shared.redisNow (c.shared.redis v)).2.retryCount o
  | .crash _ => True
  | .act a => a ≠ .expireData v o

/-- `n` answered scans that handled the order, could read its data hash and still left it pending,
among moves that keep its retry count. -/
inductive Republished (v o : Long) (c : ProtocolConfig) : ℕ → ProtocolConfig → Prop
  | start : Republished v o c 0 c
  | other {n : ℕ} {d d' : ProtocolConfig} {mv : Move Choice ProtocolAction}
      (init : Republished v o c n d) (keeps : KeepsCount v o d mv)
      (last : seckillProtocol.step d mv = some d') : Republished v o c n d'
  | scan {n : ℕ} {d : ProtocolConfig} {es : List CallEvent} {w' : World} {x : Except Exn Unit}
      (init : Republished v o c n d) (row : d.shared.db.row o = none)
      (scanned : d.shared.Scans v o) (readable : Republishable (d.shared.redis v) o)
      (last : AnsweredRun d.shared republishPendingOrders es w' x)
      (stays : o ∈ (w'.redis v).pending) : Republished v o c (n + 1) ⟨w', d.threads⟩

theorem StoreEffect.mem_issued {cmd : Cmd} (h : StoreEffect w cmd w') (ho : o ∈ w.issued) :
    o ∈ w'.issued := by
  cases h with
  | same h => rwa [h.issued]
  | refused | reserved => exact List.mem_cons_of_mem _ ho
  | _ => exact ho

theorem retryCount_congr {k k' : VoucherKeys}
    (h : k'.hget o .retryCount = k.hget o .retryCount) : k'.retryCount o = k.retryCount o := by
  rw [VoucherKeys.retryCount, h, VoucherKeys.retryCount]

theorem KeepsCount.step (hk : KeepsCount v o c mv) (ho : o ∈ c.shared.issued)
    (hf : seckillProtocol.Fires c mv c') :
    o ∈ c'.shared.issued ∧ (c.shared.redis v).retryCount o ≤ (c'.shared.redis v).retryCount o := by
  cases hf with
  | @run i f tag cmd k r s hi hexec =>
    have he := (effect_of_exec (Option.ite_none_right_eq_some.mp hexec).2).stores
    refine ⟨he.mem_issued ho, ?_⟩
    by_cases hc : ∃ rc, cmd = .redis v rc
    · obtain ⟨rc, rfl⟩ := hc
      cases he with
      | same hs => rw [hs.redis]
      | redis => simpa [World.setRedis] using hk _ hi rc rfl
    · have hget : (s.redis v).hget o .retryCount = (c.shared.redis v).hget o .retryCount :=
        he.hget (m := ⟨o, 0, v⟩) ho fun rc hrc => absurd ⟨rc, hrc⟩ hc
      exact (retryCount_congr hget).ge
  | crash hb => exact ⟨ho, le_refl _⟩
  | act ha =>
    rcases act_stores ha with ⟨hs, -⟩ | ⟨v', o', rfl, -, rfl, -⟩
    · rw [hs.issued, hs.redis]
      exact ⟨ho, le_refl _⟩
    · have hvo : ¬ (v = v' ∧ o = o') := by
        rintro ⟨rfl, rfl⟩
        exact hk rfl
      exact ⟨ho, (retryCount_congr (hget_expireData hvo _)).ge⟩

/-- A scan that handles the order and leaves it pending has raised its count towards the limit. -/
theorem raised_of_scan {es : List CallEvent} {x : Except Exn Unit} (hrow : w.db.row o = none)
    (hscan : w.Scans v o) (hrep : Republishable (w.redis v) o)
    (h : AnsweredRun w republishPendingOrders es w' x) (hstays : o ∈ (w'.redis v).pending) :
    Raised o (w.redis v) (w'.redis v) := by
  have hpending : o ∈ (w.redis v).pending := ZSet.mem_of_mem_rangeByScore hscan.2
  have hhandled := (republishPendingOrders_trace hrow hpending h).1 hscan
  exact (hhandled.1 hrep).resolve_left (not_not_intro hstays)

theorem mem_issued_of_run {α : Type} {p : Handler α} {es : List CallEvent} {x : Except Exn α}
    (h : AnsweredRun w p es w' x) (ho : o ∈ w.issued) : o ∈ w'.issued := by
  refine h.invariant (fun s => o ∈ s.issued) (calls_true p) ?_ ?_ ho
  · rintro a _ rfl ha
    exact ha
  · rintro c f a r b - hexec ha
    exact (effect_of_exec (exec_of_answered hexec).1).stores.mem_issued ha

theorem Republished.count (h : Republished v o c n d) (ho : o ∈ c.shared.issued) :
    o ∈ d.shared.issued ∧
      (c.shared.redis v).retryCount o + n ≤ (d.shared.redis v).retryCount o ∧
      (n = 0 ∨ (c.shared.redis v).retryCount o + n ≤ maxRepublishCount) := by
  induction h with
  | start => exact ⟨ho, by simp, .inl rfl⟩
  | other _ hkeeps hlast ih =>
    obtain ⟨hissued, hcount, hmax⟩ := ih
    obtain ⟨hissued', hle⟩ := hkeeps.step hissued (Machine.fires_of_step hlast)
    exact ⟨hissued', hcount.trans hle, hmax⟩
  | scan _ hrow hscan hrep hlast hstays ih =>
    obtain ⟨hissued, hcount, -⟩ := ih
    obtain ⟨hlt, hraised⟩ := raised_of_scan hrow hscan hrep hlast hstays
    refine ⟨mem_issued_of_run hlast hissued, ?_, .inr ?_⟩
    · rw [hraised]
      push_cast
      omega
    · push_cast
      omega

/-- From every reachable state: an answered scan moves a pending order without a row on exactly
when it handles the order and can read its data hash, and there are at most `maxRepublishCount`
scans that handle the order, can read its hash and leave it pending. -/
theorem republish_bounded (hw : w.Opening) (hrun : ProtocolRun (fun _ _ => True) ⟨w, []⟩ c)
    (hpending : o ∈ (c.shared.redis v).pending) :
    (c.shared.db.row o = none → ∀ es w' x, AnsweredRun c.shared republishPendingOrders es w' x →
      (MovesOn o (c.shared.redis v) (w'.redis v) ↔
        c.shared.Scans v o ∧ Republishable (c.shared.redis v) o)) ∧
    ∀ n d, Republished v o c n d → (n : ℤ) ≤ maxRepublishCount := by
  refine ⟨fun hrow es w' x h => scan_moves_on_iff hrow hpending h, fun n d h => ?_⟩
  have htraced : Traced (fun _ _ _ => True) c :=
    hrun.invariant (Traced.opening hw) fun _ _ _ h _ hf => h.step hf
  have hcounts : CountsHold c := hrun.invariant (.opening hw) fun _ _ _ h _ hf => h.step hf
  obtain ⟨u, haccepted⟩ := (htraced.world.keys v).pending o hpending
  obtain ⟨-, -, rfl | hmax⟩ := h.count (htraced.world.issued _ haccepted)
  · decide
  · have hpos := hcounts.retryCount_nonneg v o
    omega

end Runs

instance (w : World) (v o : Long) : Decidable (w.Scans v o) :=
  inferInstanceAs (Decidable (_ ∧ _))

instance (k : VoucherKeys) (o : Long) : Decidable (Republishable k o) :=
  inferInstanceAs (Decidable (_ ∨ _))

/-- A whole scan, every call of which is performed; spare choices are left over. -/
def scanned (w : World) : Option (List CallEvent × World × Except Exn Unit) :=
  playTrace answeredExec republishPendingOrders (List.replicate 15 Choice.performed) w

/-- An order has been accepted, and its request is lost before it sends anything. -/
def acceptedOnce : Option ProtocolConfig :=
  seckillProtocol.play (fun _ _ => true) ⟨sampleWorld, []⟩ <|
    [.act (.request 7 1), .run 0 (.drawn 100)] ++ performs 0 2 ++ [.crash 0]

theorem republish_bounded_acceptedOnce : ∃ c w', acceptedOnce = some c ∧
    Republished 1 100 c 1 ⟨w', c.threads⟩ ∧ MovesOn 100 (c.shared.redis 1) (w'.redis 1) ∧
    ∀ n d, Republished 1 100 c n d → (n : ℤ) ≤ maxRepublishCount := by
  have hplay : acceptedOnce.map (fun c => decide (c.shared.db.row 100 = none ∧
      c.shared.Scans 1 100 ∧ Republishable (c.shared.redis 1) 100) &&
      (scanned c.shared).any fun p => decide (100 ∈ (p.2.1.redis 1).pending)) = some true := by
    decide +kernel
  obtain ⟨c, hc, hstate⟩ := Option.map_eq_some_iff.mp hplay
  obtain ⟨hstate, hscan⟩ := Bool.and_eq_true_iff.mp hstate
  obtain ⟨hrow, hscans, hrep⟩ := of_decide_eq_true hstate
  obtain ⟨⟨es, w', x⟩, hp, hstays⟩ := Option.any_eq_true _ _ |>.mp hscan
  have h : AnsweredRun c.shared republishPendingOrders es w' x :=
    trace_of_play (fun _ => rfl) hp
  obtain ⟨hmoves, hbound⟩ := republish_bounded sampleWorld_opening
    (Machine.run_of_play (fun _ _ _ => trivial) hc) (ZSet.mem_of_mem_rangeByScore hscans.2)
  refine ⟨c, w', hc, ?_, (hmoves hrow es w' x h).mpr ⟨hscans, hrep⟩, hbound⟩
  exact .scan .start hrow hscans hrep h (of_decide_eq_true hstays)

/-- The order's data hash expires while its message is lost, and MySQL does not answer the next
scan: its catch block makes a new hash with no user in it. -/
def userLost : Option ProtocolConfig :=
  seckillProtocol.play (fun _ _ => true) ⟨sampleWorld, []⟩ <|
    [.act (.request 7 1), .run 0 (.drawn 100)] ++ performs 0 2 ++ [.crash 0,
      .act (.tick dataTtlMillis (86400, 0)), .act (.expireData 1 100), .act .republish] ++
      performs 0 3 ++ [.run 0 (.fails ⟨.other, "CannotGetJdbcConnection"⟩)] ++ performs 0 8 ++
      [.act (.tick (dataTtlMillis + 10000) (86410, 0))]

theorem userLost_stays : userLost.map (fun c => decide (c.shared.db.row 100 = none ∧
    c.shared.Scans 1 100 ∧ ¬ Republishable (c.shared.redis 1) 100) &&
    (scanned c.shared).isSome) = some true := by decide +kernel

/-- Every answered scan moves on every order that is due and has no row. -/
def World.MovesOnDue (w : World) : Prop :=
  ∀ v o, (w.redis v).Due w.clock o → w.db.row o = none → ∀ es w' x,
    AnsweredRun w republishPendingOrders es w' x → MovesOn o (w.redis v) (w'.redis v)

theorem republishBounded_fails : ¬ ∀ w c, World.Opening w →
    ProtocolRun (fun _ _ => True) ⟨w, []⟩ c → c.shared.MovesOnDue := by
  intro h
  obtain ⟨c, hc, hstate⟩ := Option.map_eq_some_iff.mp userLost_stays
  obtain ⟨hstate, hscan⟩ := Bool.and_eq_true_iff.mp hstate
  obtain ⟨hrow, hscans, hlost⟩ := of_decide_eq_true hstate
  obtain ⟨⟨es, w', x⟩, hp⟩ := Option.isSome_iff_exists.mp hscan
  have hrun : AnsweredRun c.shared republishPendingOrders es w' x :=
    trace_of_play (fun _ => rfl) hp
  have hpending : 100 ∈ (c.shared.redis 1).pending := ZSet.mem_of_mem_rangeByScore hscans.2
  have hmoves := h sampleWorld c sampleWorld_opening (Machine.run_of_play (fun _ _ _ => trivial) hc)
    1 100 (VoucherKeys.due_of_mem_batch hscans.2) hrow es w' x hrun
  exact hlost ((scan_moves_on_iff hrow hpending hrun).mp hmoves).2

end HmDianPing.Seckill
