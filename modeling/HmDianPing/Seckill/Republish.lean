import HmDianPing.Seckill.StatusTruth
import HmDianPing.Seckill.Coverage

/-! # The bound on republishing

A scan moves a pending order on by raising its retry count, until the count is spent
and the order is given up. It reads the count and the user from the data hash before
it raises anything: an order whose hash has lost the user is put back as it was.
-/
namespace HmDianPing.Seckill
open Interleaving Program

/-- MySQL and Redis answer; the broker may take a message or not. -/
def answers : (c : Cmd) → Except Exn c.Reply → Bool
  | .sendOrder _, _ => true
  | .redis _ (.restore _ _), .ok (some _) => true
  | .redis _ (.restore _ _), _ => false
  | _, .ok _ => true
  | _, .error _ => false

def answeredExec (c : Cmd) (f : Choice) (w : World) : Option (Except Exn c.Reply × World) :=
  (seckillProtocol.exec c f w).filter fun p => answers c p.1

abbrev AnsweredRun {α : Type} := @Trace World Cmd Cmd.Reply Exn Choice answeredExec Eq α

/-- The body of the inner loop of `republishPendingOrders`. -/
def republishCatching (voucherId orderId : Long) : Handler Unit :=
  tryCatch (republishOne voucherId orderId) fun e =>
    markSendFailed voucherId orderId (some ("republish exception: " ++ e.message))

/-- The retry count as `republishOne` reads it; a missing one counts as zero. -/
def readCount : Option Value → Option ℤ
  | none => some 0
  | some value => parseInt value

def VoucherKeys.retryCount (k : VoucherKeys) (o : Long) : ℤ :=
  (readCount (k.hget o .retryCount)).getD 0

/-- The order has left the pending set, or its retry count has been raised. -/
def MovesOn (o : Long) (k k' : VoucherKeys) : Prop :=
  o ∉ k'.pending ∨ k.retryCount o < k'.retryCount o

/-- The retry count has not been spent, and has been raised by one. -/
def Raised (o : Long) (k k' : VoucherKeys) : Prop :=
  k.retryCount o < maxRepublishCount ∧ k'.retryCount o = k.retryCount o + 1

/-- The order is pending, with its retry count as it was. -/
def Stays (o : Long) (k k' : VoucherKeys) : Prop :=
  o ∈ k'.pending ∧ k'.retryCount o = k.retryCount o

/-- The data hash is gone, or has a user, and a retry count that is a number or missing. -/
def Republishable (k : VoucherKeys) (o : Long) : Prop :=
  (k.pendingData o).hash.entries = [] ∨
    (readCount (k.hget o .retryCount)).isSome ∧ (longValue (k.hget o .userId)).isSome

/-- The calls on the keys of one order. -/
def RedisCmd.On (o : Long) : RedisCmd → Prop
  | .hget o' _ | .hset o' _ _ | .hsetnx o' _ _ | .hincrBy o' _ _ | .hgetall o' | .expire o' _
  | .zaddPending o' _ | .zremPending o' | .zaddFailed o' _ | .restore _ o' => o' = o
  | .rangeByScore _ _ _ => False

/-- The calls a scan makes for one order. -/
def Cmd.Handles (v o : Long) : Cmd → Prop
  | .currentTimeMillis | .getById _ | .sendOrder _ => True
  | .redis v' c => v' = v ∧ c.On o
  | _ => False

/-- What concerns the order in Redis and MySQL is the same. -/
structure World.SameOrder (v o : Long) (w w' : World) : Prop where
  db : w'.db = w.db
  pending : o ∈ (w'.redis v).pending ↔ o ∈ (w.redis v).pending
  hash : ((w'.redis v).pendingData o).hash = ((w.redis v).pendingData o).hash

section Answered
variable {w w' : World} {c : Cmd} {f : Choice} {r : Except Exn c.Reply} {v o : Long}

theorem exec_of_answered (h : answeredExec c f w = some (r, w')) :
    World.exec c f w = some (r, w') ∧ answers c r = true := by
  obtain ⟨hexec, hr⟩ := Option.filter_eq_some_iff.mp h
  exact ⟨(Option.ite_none_right_eq_some.mp hexec).2, hr⟩

theorem ok_of_answered (hc : ∀ m, c ≠ .sendOrder m) (h : answeredExec c f w = some (r, w')) :
    ∃ a, r = .ok a := by
  have hr := (exec_of_answered h).2
  cases r with
  | ok a => exact ⟨a, rfl⟩
  | error e =>
    cases c with
    | sendOrder m => exact absurd rfl (hc m)
    | redis v c => cases c <;> cases hr
    | _ => cases hr

theorem RedisCmd.On.writes {c : RedisCmd} {o' : Long} {field : Field} (hc : c.On o')
    (hw : c.Writes o field) : o' = o := by
  cases c with
  | hset | hsetnx | hincrBy => exact hc.symm.trans hw.1
  | _ => exact hw.elim

theorem RedisCmd.On.pending {c : RedisCmd} {o' now : Long} {k : VoucherKeys} (hc : c.On o')
    (ho : o' ≠ o) : o ∈ (c.run now k).2.pending ↔ o ∈ k.pending := by
  constructor
  · intro h
    rcases RedisCmd.run_pending h with h | ⟨score, rfl⟩
    · exact h
    · exact absurd hc.symm ho
  · intro h
    rcases pending_run c now h with h | rfl | ⟨u, rfl, -⟩
    · exact h
    · exact absurd hc.symm ho
    · exact absurd hc.symm ho

theorem sameOrder_of_answered {v' o' : Long} (hc : c.Handles v' o') (hne : ¬ (v' = v ∧ o' = o))
    (h : answeredExec c f w = some (r, w')) : w.SameOrder v o w' := by
  cases effect_of_exec (exec_of_answered h).1 with
  | none c => exact ⟨rfl, Iff.rfl, rfl⟩
  | publish m fate => cases fate <;> exact ⟨rfl, Iff.rfl, rfl⟩
  | redis v₁ c =>
    obtain ⟨rfl, hon⟩ := hc
    by_cases hv : v = v₁
    · subst hv
      have ho : o' ≠ o := fun ho => hne ⟨rfl, ho⟩
      refine ⟨rfl, ?_, ?_⟩
      · simpa [World.setRedis] using hon.pending ho
      · simpa [World.setRedis] using RedisCmd.run_hash fun field hw => ho (hon.writes hw)
    · exact ⟨rfl, by simp [World.setRedis, hv], by simp [World.setRedis, hv]⟩
  | _ => exact hc.elim

theorem World.SameOrder.refl (v o : Long) (w : World) : w.SameOrder v o w := ⟨rfl, Iff.rfl, rfl⟩

theorem World.SameOrder.trans {w'' : World} (h : w.SameOrder v o w') (h' : w'.SameOrder v o w'') :
    w.SameOrder v o w'' :=
  ⟨h'.db.trans h.db, h'.pending.trans h.pending, h'.hash.trans h.hash⟩

end Answered

section Calls
variable {P : Cmd → Prop} {v o : Long}

theorem markSendFailed_plain (reason : Option String) :
    (markSendFailed v o reason).Plain fun c => c.Handles v o ∧ (∀ m, c ≠ .sendOrder m) := by
  refine (plain_perform_bind _ _).mpr ⟨by simp [Cmd.Handles], fun now => ?_⟩
  have hdelay : (calculateRetryDelay v o).Plain
      fun c => c.Handles v o ∧ (∀ m, c ≠ .sendOrder m) := by
    simp [calculateRetryDelay, Cmd.Handles, RedisCmd.On]
  refine hdelay.bind fun delay => ?_
  simp [refreshDataTtl, Cmd.Handles, RedisCmd.On]

theorem markFailed_handles (reason : Option String) :
    (markFailed v o reason).Calls (Cmd.Handles v o) := by
  simp [markFailed, refreshDataTtl, Cmd.Handles, RedisCmd.On]

theorem removePending_handles : (removePending v o).Calls (Cmd.Handles v o) :=
  (calls_perform_bind _ _).mpr ⟨trivial, fun now => removePendingAt_calls (fun _ => ⟨rfl, rfl⟩)
    ⟨rfl, rfl⟩ ⟨rfl, rfl⟩ (fun _ _ _ => ⟨rfl, rfl⟩) ⟨rfl, rfl⟩ now⟩

theorem requireLong_calls (value : Option Value) : (requireLong value).Calls P := by
  unfold requireLong
  split <;> trivial

theorem requireInt_calls (value : Option Value) : (requireInt value).Calls P := by
  unfold requireInt
  cases value with
  | none => trivial
  | some value =>
    dsimp only
    split <;> trivial

theorem republishOne_handles : (republishOne v o).Calls (Cmd.Handles v o) := by
  refine (calls_perform_bind _ _).mpr ⟨trivial, fun order => (calls_ite _ _ _).mpr
    ⟨fun _ => removePending_handles, fun _ => (calls_perform_bind _ _).mpr ⟨⟨rfl, rfl⟩, fun data =>
      (calls_ite _ _ _).mpr ⟨fun _ => markFailed_handles _, fun _ => ?_⟩⟩⟩⟩
  refine (requireInt_calls _).bind fun n => (calls_ite _ _ _).mpr ⟨fun _ => ?_, fun _ => ?_⟩
  · refine (requireLong_calls _).bind fun u => (calls_perform_bind _ _).mpr ⟨⟨rfl, rfl⟩, ?_⟩
    intro restored
    cases restored with
    | none => trivial
    | some n => exact markFailed_handles _
  · refine (requireLong_calls _).bind fun u => Calls.bind ?_ fun _ => ?_
    · simp [beforeRepublish, refreshDataTtl, Cmd.Handles, RedisCmd.On]
    · exact (calls_perform _).mpr trivial

theorem republishCatching_handles : (republishCatching v o).Calls (Cmd.Handles v o) :=
  republishOne_handles.tryCatch fun _ => (markSendFailed_plain _).calls.mono fun _ h => h.1

end Calls

section Handling
variable {w w' : World} {v o : Long} {es : List CallEvent}

theorem sameOrder_of_run {α : Type} {p : Handler α} {x : Except Exn α} {v' o' : Long}
    (hp : p.Calls (Cmd.Handles v' o')) (hne : ¬ (v' = v ∧ o' = o))
    (h : AnsweredRun w p es w' x) : w.SameOrder v o w' := by
  refine h.invariant (fun s => w.SameOrder v o s) hp ?_ ?_ (.refl v o w)
  · rintro a _ rfl ha
    exact ha
  · intro c f a r b hc hexec ha
    exact ha.trans (sameOrder_of_answered hc hne hexec)

/-- The calls for an order that neither write its retry count nor take it out of the pending set. -/
def Cmd.Holds (v o : Long) (c : Cmd) : Prop :=
  c.Handles v o ∧ ∀ c', c = .redis v c' → ¬ c'.Writes o .retryCount ∧ c' ≠ .zremPending o ∧
    ∀ u, c' ≠ .restore u o

theorem stays_of_answered {c : Cmd} {f : Choice} {r : Except Exn c.Reply} (hc : c.Holds v o)
    (h : answeredExec c f w = some (r, w')) :
    (o ∈ (w.redis v).pending → o ∈ (w'.redis v).pending) ∧
      (w'.redis v).retryCount o = (w.redis v).retryCount o := by
  obtain ⟨hhandles, hholds⟩ := hc
  cases effect_of_exec (exec_of_answered h).1 with
  | none c => exact ⟨fun hp => hp, rfl⟩
  | publish m fate => cases fate <;> exact ⟨fun hp => hp, rfl⟩
  | redis v₁ c =>
    obtain ⟨rfl, hon⟩ := hhandles
    obtain ⟨hwrites, hrem, hrestore⟩ := hholds c rfl
    simp only [World.setRedis, Function.update_self]
    refine ⟨fun hp => ?_, ?_⟩
    · rcases pending_run c w.redisNow hp with hp | rfl | ⟨u, rfl, -⟩
      · exact hp
      · exact absurd rfl hrem
      · exact absurd rfl (hrestore u)
    · rw [VoucherKeys.retryCount, RedisCmd.run_hget hwrites]
      rfl
  | _ => exact hhandles.elim

theorem stays_of_run {α : Type} {p : Handler α} {x : Except Exn α} (hp : p.Calls (Cmd.Holds v o))
    (h : AnsweredRun w p es w' x) : (o ∈ (w.redis v).pending → o ∈ (w'.redis v).pending) ∧
      (w'.redis v).retryCount o = (w.redis v).retryCount o := by
  refine h.invariant (fun s => (o ∈ (w.redis v).pending → o ∈ (s.redis v).pending) ∧
    (s.redis v).retryCount o = (w.redis v).retryCount o) hp ?_ ?_ ⟨fun hp => hp, rfl⟩
  · rintro a _ rfl ha
    exact ha
  · intro c f a r b hc hexec ha
    obtain ⟨hpending, hcount⟩ := stays_of_answered hc hexec
    exact ⟨fun hp => hpending (ha.1 hp), hcount.trans ha.2⟩

theorem markSendFailed_holds (reason : Option String) :
    (markSendFailed v o reason).Calls (Cmd.Holds v o) := by
  refine (calls_perform_bind _ _).mpr ⟨by simp [Cmd.Holds, Cmd.Handles], fun now => ?_⟩
  have hdelay : (calculateRetryDelay v o).Calls (Cmd.Holds v o) := by
    simp [calculateRetryDelay, Cmd.Holds, Cmd.Handles, RedisCmd.On, RedisCmd.Writes]
  refine hdelay.bind fun delay => ?_
  simp [refreshDataTtl, Cmd.Holds, Cmd.Handles, RedisCmd.On, RedisCmd.Writes]

theorem markSendFailed_ok {reason : Option String} {x : Except Exn Unit}
    (h : AnsweredRun w (markSendFailed v o reason) es w' x) : x = .ok () := by
  obtain ⟨a, rfl⟩ := h.ok_of_plain (markSendFailed_plain reason)
    fun c f s r s' hc hexec => ok_of_answered hc.2 hexec
  rfl

theorem not_pending_of_run {α : Type} {p : Handler α} {x : Except Exn α}
    (hp : p.Calls fun c => c.Handles v o ∧ ∀ score, c ≠ .redis v (.zaddPending o score))
    (h : AnsweredRun w p es w' x) (hout : o ∉ (w.redis v).pending) : o ∉ (w'.redis v).pending := by
  refine h.invariant (fun s => o ∉ (s.redis v).pending) hp ?_ ?_ hout
  · rintro a _ rfl ha
    exact ha
  · rintro c f a r b ⟨hhandles, hadd⟩ hexec ha hb
    cases effect_of_exec (exec_of_answered hexec).1 with
    | none c => exact ha hb
    | publish m fate => cases fate <;> exact ha hb
    | redis v₁ c =>
      obtain ⟨rfl, hon⟩ := hhandles
      simp only [World.setRedis, Function.update_self] at hb
      rcases RedisCmd.run_pending hb with hb | ⟨score, rfl⟩
      · exact ha hb
      · exact hadd score rfl
    | _ => exact hhandles.elim

theorem of_answered_bind {α : Type} {c : Cmd} {k : c.Reply → Handler α} {x : Except Exn α}
    (hc : ∀ m, c ≠ .sendOrder m) (h : AnsweredRun w (perform c >>= k) es w' x) :
    ∃ a f w₁ es', answeredExec c f w = some (.ok a, w₁) ∧ AnsweredRun w₁ (k a) es' w' x := by
  rcases Trace.of_bind h with ⟨a, es₁, es₂, w₁, rfl, h₁, h₂⟩ | ⟨e, -, h₁⟩
  · obtain ⟨_, f, rfl, hexec, -⟩ := Trace.of_perform h₁
    exact ⟨a, f, w₁, es₂, hexec, h₂⟩
  · obtain ⟨_, f, rfl, hexec, -⟩ := Trace.of_perform h₁
    obtain ⟨a, ha⟩ := ok_of_answered hc hexec
    cases ha

theorem markFailed_trace {reason : Option String} {x : Except Exn Unit}
    (h : AnsweredRun w (markFailed v o reason) es w' x) : o ∉ (w'.redis v).pending := by
  obtain ⟨now, _, w₁, es₁, -, h⟩ := of_answered_bind (by simp) h
  obtain ⟨u, f, w₂, es₂, hexec, h⟩ := of_answered_bind (by simp) h
  obtain ⟨-, rfl⟩ := exec_redis_ok (by simp) (exec_of_answered hexec).1
  refine not_pending_of_run ?_ h ?_
  · simp [refreshDataTtl, Cmd.Handles, RedisCmd.On]
  · simp [World.setRedis, RedisCmd.run]

theorem retryCount_of_hget {k : VoucherKeys} {n : ℤ} (h : k.hget o .retryCount = some (.number n))
    (hn : -2 ^ 31 ≤ n ∧ n < 2 ^ 31) : k.retryCount o = n := by
  rw [VoucherKeys.retryCount, h, readCount, parseInt, if_pos hn]
  rfl

theorem counter_of_readCount {value : Option Value} {n : ℤ} (h : readCount value = some n) :
    counter value = some n ∧ -2 ^ 31 ≤ n ∧ n < 2 ^ 31 := by
  cases value with
  | none =>
    obtain rfl := Option.some.inj h
    exact ⟨rfl, by decide⟩
  | some value =>
    obtain rfl := parseInt_eq_some h
    refine ⟨rfl, ?_⟩
    simpa [readCount, parseInt] using h

theorem beforeRepublish_trace {x : Except Exn Unit} {n : ℤ}
    (hn : readCount ((w.redis v).hget o .retryCount) = some n) (hlt : n < maxRepublishCount)
    (h : AnsweredRun w (beforeRepublish v o) es w' x) : (w'.redis v).retryCount o = n + 1 := by
  obtain ⟨hcounter, hlow, -⟩ := counter_of_readCount hn
  have hmax : maxRepublishCount = 10 := rfl
  have hraised : incrBy (some n) 1 = some (n + 1) := by
    rw [incrBy, if_pos]
    · rfl
    · constructor <;> simp <;> omega
  obtain ⟨m, f, w₁, es₁, hexec, h⟩ := of_answered_bind (by simp) h
  obtain ⟨hreply, rfl⟩ := exec_redis_ok (by simp) (exec_of_answered hexec).1
  simp only [RedisCmd.run, hcounter, Option.bind_some, hraised] at hreply h
  obtain rfl := Except.ok.inj hreply
  refine retryCount_of_hget ?_ ⟨by omega, by omega⟩
  refine h.invariant (P := fun c => c.Handles v o ∧ ∀ c', c = .redis v c' →
      c'.Writes o .retryCount → c' = .hset o .retryCount (.number (n + 1)))
    (fun s => (s.redis v).hget o .retryCount = some (.number (n + 1))) ?_ ?_ ?_ ?_
  · simp [refreshDataTtl, Cmd.Handles, RedisCmd.On, RedisCmd.Writes]
  · rintro a _ rfl ha
    exact ha
  · rintro c f a r b ⟨hhandles, hwrites⟩ hexec ha
    cases effect_of_exec (exec_of_answered hexec).1 with
    | none c => exact ha
    | publish m fate => cases fate <;> exact ha
    | redis v₁ c =>
      obtain ⟨rfl, -⟩ := hhandles
      simp only [World.setRedis, Function.update_self]
      by_cases hw : c.Writes o .retryCount
      · obtain rfl := hwrites c rfl hw
        simp [RedisCmd.run, VoucherKeys.hget_hset]
      · rw [RedisCmd.run_hget hw]
        exact ha
    | _ => exact hhandles.elim
  · simp [World.setRedis, VoucherKeys.hget_hset]

theorem requireInt_eq (value : Option Value) : requireInt value =
    match readCount value with
    | some n => pure n
    | none => throw (numberFormatException value) := by
  cases value with
  | none => rfl
  | some value => rfl

theorem markFailed_ok {reason : Option String} {x : Except Exn Unit}
    (h : AnsweredRun w (markFailed v o reason) es w' x) : x = .ok () := by
  obtain ⟨a, rfl⟩ := h.ok_of_plain (markFailed_plain _ _ reason) fun c f s r s' hc hexec =>
    ok_of_answered (by rintro m rfl; exact hc) hexec
  rfl

theorem giveUp_trace {data : PendingData} {x : Except Exn Unit}
    (h : AnsweredRun w (giveUp v o data) es w' x) :
    ((longValue (data.lookup .userId)).isSome ∧ x = .ok () ∧ o ∉ (w'.redis v).pending) ∨
      longValue (data.lookup .userId) = none ∧ w' = w ∧ ∃ e, x = .error e := by
  rw [giveUp, requireLong] at h
  cases hu : longValue (data.lookup .userId) with
  | none =>
    rw [hu] at h
    obtain ⟨-, rfl, rfl⟩ := Trace.of_throw h
    exact .inr ⟨rfl, rfl, _, rfl⟩
  | some u =>
    rw [hu] at h
    obtain ⟨restored, f, w₁, es', hexec, hrest⟩ := of_answered_bind (by simp) h
    cases restored with
    | none => cases (exec_of_answered hexec).2
    | some n => exact .inl ⟨rfl, markFailed_ok hrest, markFailed_trace hrest⟩

theorem resend_trace {x : Except Exn Unit} {n : ℤ} {m : Message}
    (hn : readCount ((w.redis v).hget o .retryCount) = some n) (hlt : n < maxRepublishCount)
    (h : AnsweredRun w (beforeRepublish v o >>= fun _ => sendOrderMessage m) es w' x) :
    Raised o (w.redis v) (w'.redis v) := by
  have hcount : (w.redis v).retryCount o = n := by
    rw [VoucherKeys.retryCount, hn]
    rfl
  refine ⟨hcount ▸ hlt, ?_⟩
  rw [hcount]
  rcases Trace.of_bind h with ⟨_, es₁, es₂, w₁, rfl, h₁, h₂⟩ | ⟨e, -, h₁⟩
  · have hsend : (sendOrderMessage m).Calls (Cmd.Holds v o) :=
      (calls_perform _).mpr ⟨trivial, by simp⟩
    exact (stays_of_run hsend h₂).2.trans (beforeRepublish_trace hn hlt h₁)
  · exact beforeRepublish_trace hn hlt h₁

/-- Each order a scan handles leaves the pending set or has its retry count raised, when its data
hash can be read; otherwise nothing happens to it before the exception. -/
theorem republishOne_trace {x : Except Exn Unit} (hrow : w.db.row o = none)
    (h : AnsweredRun w (republishOne v o) es w' x) :
    (Republishable (w.redis v) o ∧
      (x = .ok () ∧ o ∉ (w'.redis v).pending ∨ Raised o (w.redis v) (w'.redis v))) ∨
    ¬ Republishable (w.redis v) o ∧ w' = w ∧ ∃ e, x = .error e := by
  obtain ⟨order, f, w₁, es₁, hexec, h⟩ := of_answered_bind (by simp) h
  obtain ⟨rfl, rfl⟩ := exec_getById_ok (exec_of_answered hexec).1
  rw [hrow, if_neg (by simp)] at h
  obtain ⟨data, f, w₂, es₂, hexec, h⟩ := of_answered_bind (by simp) h
  obtain ⟨rfl, rfl⟩ := exec_hgetall_ok (exec_of_answered hexec).1
  by_cases hempty : ((w₂.redis v).pendingData o).hash.entries = []
  · rw [if_pos hempty] at h
    exact .inl ⟨.inl hempty, .inl ⟨markFailed_ok h, markFailed_trace h⟩⟩
  rw [if_neg hempty, requireInt_eq] at h
  have hread : readCount (((w₂.redis v).pendingData o).hash.lookup .retryCount) =
      readCount ((w₂.redis v).hget o .retryCount) := rfl
  have huser : longValue (((w₂.redis v).pendingData o).hash.lookup .userId) =
      longValue ((w₂.redis v).hget o .userId) := rfl
  have hmiss (hnone : ¬ ((readCount ((w₂.redis v).hget o .retryCount)).isSome ∧
      (longValue ((w₂.redis v).hget o .userId)).isSome)) : ¬ Republishable (w₂.redis v) o :=
    fun hrep => hrep.elim hempty hnone
  rw [hread] at h
  cases hn : readCount ((w₂.redis v).hget o .retryCount) with
  | none =>
    rw [hn] at h
    obtain ⟨-, rfl, rfl⟩ := Trace.of_throw h
    exact .inr ⟨hmiss (by simp [hn]), rfl, _, rfl⟩
  | some n =>
    rw [hn] at h
    replace h : AnsweredRun w₂ (if n ≥ maxRepublishCount then giveUp v o _ else
        requireLong _ >>= fun userId => beforeRepublish v o >>= fun _ =>
          sendOrderMessage ⟨o, userId, v⟩) es₂ w' x := h
    by_cases hmax : n ≥ maxRepublishCount
    · rw [if_pos hmax] at h
      rcases giveUp_trace h with ⟨hu, rfl, hout⟩ | ⟨hu, rfl, he⟩
      · exact .inl ⟨.inr ⟨by simp [hn], hu⟩, .inl ⟨rfl, hout⟩⟩
      · exact .inr ⟨hmiss (by simp [← huser, hu]), rfl, he⟩
    · rw [if_neg hmax, requireLong, huser] at h
      cases hu : longValue ((w₂.redis v).hget o .userId) with
      | none =>
        rw [hu] at h
        obtain ⟨-, rfl, rfl⟩ := Trace.of_throw h
        exact .inr ⟨hmiss (by simp [hu]), rfl, _, rfl⟩
      | some u =>
        rw [hu] at h
        exact .inl ⟨.inr ⟨by simp [hn], by simp [hu]⟩, .inr (resend_trace hn (not_le.mp hmax) h)⟩

/-- What a scan makes of one order that it handles. -/
def Handled (v o : Long) (w w' : World) : Prop :=
  (Republishable (w.redis v) o →
    o ∉ (w'.redis v).pending ∨ Raised o (w.redis v) (w'.redis v)) ∧
  (¬ Republishable (w.redis v) o → Stays o (w.redis v) (w'.redis v))

theorem republishCatching_trace {x : Except Exn Unit} (hrow : w.db.row o = none)
    (hpending : o ∈ (w.redis v).pending) (h : AnsweredRun w (republishCatching v o) es w' x) :
    Handled v o w w' := by
  rcases Trace.of_tryCatch h with ⟨u, -, h⟩ | ⟨e, es₁, es₂, w₁, rfl, h₁, h₂⟩
  · rcases republishOne_trace hrow h with ⟨hrep, ⟨-, hout⟩ | hraised⟩ | ⟨-, -, e, he⟩
    · exact ⟨fun _ => .inl hout, fun hnot => absurd hrep hnot⟩
    · exact ⟨fun _ => .inr hraised, fun hnot => absurd hrep hnot⟩
    · cases he
  · obtain ⟨hkeep, hsame⟩ := stays_of_run (markSendFailed_holds _) h₂
    rcases republishOne_trace hrow h₁ with ⟨hrep, ⟨he, -⟩ | hraised⟩ | ⟨hnot, rfl, -⟩
    · cases he
    · exact ⟨fun _ => .inr ⟨hraised.1, hsame.trans hraised.2⟩, fun hnot => absurd hrep hnot⟩
    · exact ⟨fun hrep => absurd hrep hnot, fun _ => ⟨hkeep hpending, hsame⟩⟩

theorem republishCatching_ok {x : Except Exn Unit}
    (h : AnsweredRun w (republishCatching v o) es w' x) : x = .ok () := by
  rcases Trace.of_tryCatch h with ⟨u, rfl, -⟩ | ⟨e, es₁, es₂, w₁, rfl, -, h₂⟩
  · rfl
  · exact markSendFailed_ok h₂

theorem World.SameOrder.hget (h : w.SameOrder v o w') (field : Field) :
    (w'.redis v).hget o field = (w.redis v).hget o field := by
  rw [VoucherKeys.hget, h.hash]
  rfl

theorem World.SameOrder.retryCount (h : w.SameOrder v o w') :
    (w'.redis v).retryCount o = (w.redis v).retryCount o := by
  rw [VoucherKeys.retryCount, h.hget]
  rfl

theorem World.SameOrder.republishable (h : w.SameOrder v o w') :
    Republishable (w'.redis v) o ↔ Republishable (w.redis v) o := by
  rw [Republishable, h.hash, h.hget, h.hget]
  rfl

theorem Handled.of_same {w₁ : World} (h : Handled v o w₁ w') (hsame : w.SameOrder v o w₁) :
    Handled v o w w' := by
  rw [Handled, Raised, Stays, hsame.republishable, hsame.retryCount] at h
  exact h

theorem Handled.same {w₁ : World} (h : Handled v o w w₁) (hsame : w₁.SameOrder v o w') :
    Handled v o w w' := by
  rw [Handled, Raised, Stays, hsame.pending, hsame.retryCount]
  exact h

theorem republishAll_trace {x : Except Exn Unit} {os : List Long} (hos : os.Nodup)
    (hrow : w.db.row o = none) (hpending : o ∈ (w.redis v).pending)
    (h : AnsweredRun w (forEach os (republishCatching v)) es w' x) :
    x = .ok () ∧ (o ∈ os → Handled v o w w') ∧ (o ∉ os → w.SameOrder v o w') := by
  have hother (o' : Long) (ho : o' ≠ o) (s : World) (es : List CallEvent) (s' : World)
      (x : Except Exn Unit) (h : AnsweredRun s (republishCatching v o') es s' x) :
      s.SameOrder v o s' :=
    sameOrder_of_run republishCatching_handles (fun hsame => ho hsame.2) h
  by_cases hmem : o ∈ os
  · have hat (s : World) (es : List CallEvent) (s' : World) (x : Except Exn Unit)
        (hs : w.SameOrder v o s) (h : AnsweredRun s (republishCatching v o) es s' x) :
        x = .ok () ∧ Handled v o w s' := by
      refine ⟨republishCatching_ok h, ?_⟩
      refine (republishCatching_trace ?_ (hs.pending.mpr hpending) h).of_same hs
      rw [hs.db]
      exact hrow
    obtain ⟨hx, hhandled⟩ := h.forEach_once hos hmem (.refl v o w)
      (fun o' s es s' x ho hs h => ⟨republishCatching_ok h, hs.trans (hother o' ho s es s' x h)⟩) hat
      fun o' s es s' x ho hs h => ⟨republishCatching_ok h, hs.same (hother o' ho s es s' x h)⟩
    exact ⟨hx, fun _ => hhandled, fun hnot => absurd hmem hnot⟩
  · obtain ⟨hx, -, hsame⟩ := h.forEach (fun s is => o ∉ is ∧ w.SameOrder v o s)
      ⟨hmem, .refl v o w⟩ fun s o' is es s' x hs h => by
        obtain ⟨ho, his⟩ := not_or.mp (List.mem_cons.not.mp hs.1)
        exact ⟨republishCatching_ok h, his, hs.2.trans (hother o' (Ne.symm ho) s es s' x h)⟩
    exact ⟨hx, fun h => absurd h hmem, fun _ => hsame⟩

/-- A voucher none of whose keys a call names keeps them, and the tables are the same. -/
structure World.SameVoucher (v : Long) (w w' : World) : Prop where
  db : w'.db = w.db
  redis : w'.redis v = w.redis v

theorem World.SameVoucher.order (h : w.SameVoucher v w') : w.SameOrder v o w' :=
  ⟨h.db, by rw [h.redis], by rw [h.redis]⟩

theorem sameVoucher_of_run {α : Type} {p : Handler α} {x : Except Exn α} {v' o' : Long}
    (hp : p.Calls (Cmd.Handles v' o')) (hne : v' ≠ v) (h : AnsweredRun w p es w' x) :
    w.SameVoucher v w' := by
  refine h.invariant (fun s => w.SameVoucher v s) hp ?_ ?_ ⟨rfl, rfl⟩
  · rintro a _ rfl ha
    exact ha
  · intro c f a r b hc hexec ha
    cases effect_of_exec (exec_of_answered hexec).1 with
    | none c => exact ha
    | publish m fate => cases fate <;> exact ⟨ha.db, ha.redis⟩
    | redis v₁ c =>
      obtain ⟨rfl, -⟩ := hc
      refine ⟨ha.db, ?_⟩
      simp only [World.setRedis, Function.update_of_ne (Ne.symm hne)]
      exact ha.redis
    | _ => exact hc.elim

/-- The body of the outer loop of `republishPendingOrders`. -/
def republishVoucher (now : ℤ) (voucherId : Long) : Handler Unit := do
  let orderIds ← listDueOrderIds voucherId now batchSize
  forEach orderIds (republishCatching voucherId)

def VoucherKeys.batch (k : VoucherKeys) (now : ℤ) : List Long :=
  k.pending.rangeByScore 0 now batchSize

/-- The order is pending, and its time has come. -/
def VoucherKeys.Due (k : VoucherKeys) (now : ℤ) (o : Long) : Prop :=
  ∃ score ∈ k.pending.lookup o, 0 ≤ score ∧ score ≤ now

theorem VoucherKeys.due_of_mem_batch {k : VoucherKeys} {now : ℤ} (h : o ∈ k.batch now) :
    k.Due now o := by
  obtain ⟨p, hp, rfl⟩ := List.mem_map.mp h
  obtain ⟨hmem, hrange⟩ := List.mem_filter.mp
    ((List.mem_insertionSort _).mp (List.mem_of_mem_take hp))
  exact ⟨p.2, AList.mem_lookup_iff.mpr hmem, of_decide_eq_true hrange⟩

theorem nodup_rangeByScore (z : ZSet) (lo hi : ℤ) (limit : ℕ) :
    (z.rangeByScore lo hi limit).Nodup := by
  have hkeys : (z.entries.map Sigma.fst).Nodup := z.nodupKeys
  refine List.Nodup.sublist ((List.take_sublist _ _).map _) ?_
  have hperm := List.perm_insertionSort ZSet.listedBefore
    (z.entries.filter fun p => lo ≤ p.2 ∧ p.2 ≤ hi)
  refine (hperm.map Sigma.fst).nodup_iff.mpr ?_
  exact hkeys.sublist (List.filter_sublist.map _)

/-- What a scan makes of an order in the loop over its voucher. -/
theorem republishVoucher_trace {x : Except Exn Unit} {now : ℤ} (hrow : w.db.row o = none)
    (hpending : o ∈ (w.redis v).pending) (h : AnsweredRun w (republishVoucher now v) es w' x) :
    x = .ok () ∧ (o ∈ (w.redis v).batch now → Handled v o w w') ∧
      (o ∉ (w.redis v).batch now → w.SameOrder v o w') := by
  obtain ⟨os, f, w₁, es₁, hexec, h⟩ := of_answered_bind (by simp) h
  obtain ⟨hos, rfl⟩ := exec_redis_ok (by simp) (exec_of_answered hexec).1
  obtain rfl := Except.ok.inj hos
  have hw : w.setRedis v (RedisCmd.run w.redisNow (w.redis v) (.rangeByScore 0 now batchSize)).2 =
      w := by
    simp [RedisCmd.run, World.setRedis]
  rw [hw] at h
  exact republishAll_trace (nodup_rangeByScore _ _ _ _) hrow hpending h

theorem republishVoucher_other {x : Except Exn Unit} {now : ℤ} {v' : Long} (hv : v' ≠ v)
    (h : AnsweredRun w (republishVoucher now v') es w' x) :
    x = .ok () ∧ w.SameVoucher v w' := by
  obtain ⟨os, f, w₁, es₁, hexec, h⟩ := of_answered_bind (by simp) h
  obtain ⟨hos, rfl⟩ := exec_redis_ok (by simp) (exec_of_answered hexec).1
  refine h.forEach (fun s _ => w.SameVoucher v s) ?_ fun s o' is es s' x hs h => ?_
  · exact ⟨rfl, by simp [World.setRedis, Ne.symm hv]⟩
  · obtain ⟨hdb, hredis⟩ := sameVoucher_of_run republishCatching_handles hv h
    exact ⟨republishCatching_ok h, hdb.trans hs.db, hredis.trans hs.redis⟩

/-- Whether a scan handles the order: its voucher has a row, and the order is among the first that
are due. -/
def World.Scans (w : World) (v o : Long) : Prop :=
  v ∈ w.db.stock.keys ∧ o ∈ (w.redis v).batch w.clock

/-- What a whole scan makes of an order without a row. -/
theorem republishPendingOrders_trace {x : Except Exn Unit} (hrow : w.db.row o = none)
    (hpending : o ∈ (w.redis v).pending) (h : AnsweredRun w republishPendingOrders es w' x) :
    (w.Scans v o → Handled v o w w') ∧ (¬ w.Scans v o → w.SameOrder v o w') := by
  obtain ⟨now, f, w₁, es₁, hexec, h⟩ := of_answered_bind (by simp) h
  obtain ⟨hnow, rfl⟩ := Prod.mk.inj (Option.some.inj
    (answer_of_exec_ok (by simp [Cmd.Drawn]) (exec_of_answered hexec).1))
  obtain rfl := Except.ok.inj hnow
  obtain ⟨vouchers, f, w₂, es₂, hexec, h⟩ := of_answered_bind (by simp) h
  obtain ⟨hvouchers, rfl⟩ := Prod.mk.inj (Option.some.inj
    (answer_of_exec_ok (by simp [Cmd.Drawn]) (exec_of_answered hexec).1))
  obtain rfl := Except.ok.inj hvouchers
  replace h : AnsweredRun w (forEach w.db.stock.keys (republishVoucher w.clock)) es₂ w' x := h
  have hother (v' : Long) (s : World) (es : List CallEvent) (s' : World) (x : Except Exn Unit)
      (hv : v' ≠ v) (h : AnsweredRun s (republishVoucher w.clock v') es s' x) :
      x = .ok () ∧ s.SameVoucher v s' := republishVoucher_other hv h
  by_cases hmem : v ∈ w.db.stock.keys
  · obtain ⟨-, hbatch, hrest⟩ := h.forEach_once (A := fun s => w.SameVoucher v s)
      (B := fun s => (o ∈ (w.redis v).batch w.clock → Handled v o w s) ∧
        (o ∉ (w.redis v).batch w.clock → w.SameOrder v o s))
      w.db.stock.keys_nodup hmem ⟨rfl, rfl⟩
      (fun v' s es s' x hv hs h => by
        obtain ⟨hx, hdb, hredis⟩ := hother v' s es s' x hv h
        exact ⟨hx, hdb.trans hs.db, hredis.trans hs.redis⟩)
      (fun s es s' x hs h => by
        have hrow' : s.db.row o = none := by rw [hs.db]; exact hrow
        have hpending' : o ∈ (s.redis v).pending := by rw [hs.redis]; exact hpending
        have hloop := republishVoucher_trace hrow' hpending' h
        rw [hs.redis] at hloop
        refine ⟨hloop.1, fun ho => ?_, fun ho => ?_⟩
        · exact (hloop.2.1 ho).of_same hs.order
        · exact hs.order.trans (hloop.2.2 ho))
      fun v' s es s' x hv hs h => by
        obtain ⟨hx, hsame⟩ := hother v' s es s' x hv h
        exact ⟨hx, fun ho => (hs.1 ho).same hsame.order, fun ho => (hs.2 ho).trans hsame.order⟩
    exact ⟨fun hs => hbatch hs.2, fun hs => hrest fun ho => hs ⟨hmem, ho⟩⟩
  · obtain ⟨-, -, hsame⟩ := h.forEach (fun s vs => v ∉ vs ∧ w.SameVoucher v s) ⟨hmem, rfl, rfl⟩
      fun s v' vs es s' x hs h => by
        obtain ⟨hv, hvs⟩ := not_or.mp (List.mem_cons.not.mp hs.1)
        obtain ⟨hx, hdb, hredis⟩ := hother v' s es s' x (Ne.symm hv) h
        exact ⟨hx, hvs, hdb.trans hs.2.db, hredis.trans hs.2.redis⟩
    exact ⟨fun hs => absurd hs.1 hmem, fun _ => hsame.order⟩

/-- A scan in which MySQL and Redis answer moves an order without a row on exactly when it handles
the order and can read its data hash. -/
theorem scan_moves_on_iff {x : Except Exn Unit} (hrow : w.db.row o = none)
    (hpending : o ∈ (w.redis v).pending) (h : AnsweredRun w republishPendingOrders es w' x) :
    MovesOn o (w.redis v) (w'.redis v) ↔ w.Scans v o ∧ Republishable (w.redis v) o := by
  obtain ⟨hscanned, hskipped⟩ := republishPendingOrders_trace hrow hpending h
  have hstuck (hstays : Stays o (w.redis v) (w'.redis v)) :
      ¬ MovesOn o (w.redis v) (w'.redis v) := by
    rintro (hout | hlt)
    · exact hout hstays.1
    · exact absurd hlt (by rw [hstays.2]; exact lt_irrefl _)
  by_cases hs : w.Scans v o
  · obtain ⟨hread, hunread⟩ := hscanned hs
    by_cases hrep : Republishable (w.redis v) o
    · refine ⟨fun _ => ⟨hs, hrep⟩, fun _ => (hread hrep).imp_right fun hraised => ?_⟩
      rw [hraised.2]
      exact Int.lt_succ _
    · exact ⟨fun hm => absurd hm (hstuck (hunread hrep)), fun h => absurd h.2 hrep⟩
  · have hsame := hskipped hs
    refine ⟨fun hm => absurd hm (hstuck ⟨?_, hsame.retryCount⟩), fun h => absurd h.1 hs⟩
    exact hsame.pending.mpr hpending

end Handling
end HmDianPing.Seckill
