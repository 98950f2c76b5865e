import HmDianPing.Seckill.Copies

/-! # One request until nothing is left to do

Every call succeeds. A request is followed by the confirms, deliveries, retries
and tasks it gives rise to, call by call and in any order, until none is left.
A task for the daily counter comes only from a transaction that commits, so a
`createVouchOrder` that does not pass the transactional proxy leaves none.
-/
namespace HmDianPing.Seckill
open Interleaving Program

def Statement.published : Statement → List OrderCreatedEvent
  | .publishEvent event => [event]
  | _ => []

/-- What a transaction leaves to the listeners of its commit. -/
def committedEvents (now : ℤ) (p : SqlProgram Unit) (db : Database) : List OrderCreatedEvent :=
  match p.run (fun s x => ((s.run now x.1).1, (s.run now x.1).2, x.2 ++ s.published)) (db, []) with
  | (.ok _, _, events) => events
  | (.error _, _) => []

/-- A key `seckill:analytics:order:created:{date}`; a missing one counts as zero. -/
structure DailyOrderCount where
  value : ℤ
  expireAt : Option ℤ

structure Backend where
  world : World
  /-- The tasks that `orderTaskExecutor` has not run yet. -/
  tasks : List OrderCreatedEvent
  /-- The keys by their date. -/
  dailyOrderCount : ℤ → DailyOrderCount

/-- The id generator draws the given id, and every other call succeeds. -/
def Cmd.outcome (orderId : Long) : Cmd → Choice
  | .nextId => .drawn orderId
  | _ => .performed

def Cmd.events (w : World) : Cmd → List OrderCreatedEvent
  | .createVouchOrder order => committedEvents w.clock (Seckill.createVouchOrder order) w.db
  | _ => []

inductive DrainAction where
  | deliver (queue : QueueName) (n : ℕ)
  | expireRetry (n : ℕ)
  | confirm (n : ℕ)
  | runTask (n : ℕ)
  | tick (clock : ℤ) (redisTime : ℤ × ℤ)

def DrainAction.protocol : DrainAction → Option ProtocolAction
  | .deliver q n => some (.deliver q n)
  | .expireRetry n => some (.expireRetry n)
  | .confirm n => some (.confirm n true none)
  | .runTask _ => none
  | .tick clock redisTime => some (.tick clock redisTime)

namespace Backend

def onOrderCreated (s : Backend) (event : OrderCreatedEvent) : Backend :=
  { s with tasks := s.tasks ++ [event] }

/-- `OrderCreatedEventListener.handle`; `date` is the date of a moment at the server. -/
def handle (date : ℤ → ℤ) (s : Backend) : Backend :=
  let key := date s.world.clock
  let count : DailyOrderCount :=
    ⟨(s.dailyOrderCount key).value + 1, some (s.world.redisNow + 3 * 86400 * 1000)⟩
  { s with dailyOrderCount := Function.update s.dailyOrderCount key count }

def exec (orderId : Long) (c : Cmd) (s : Backend) : Option (Except Exn c.Reply × Backend) :=
  (World.exec c (c.outcome orderId) s.world).map fun p =>
    (p.1, (c.events s.world).foldl onOrderCreated { s with world := p.2 })

def act (date : ℤ → ℤ) (a : DrainAction) (s : Backend) : Option (Backend × List ProtocolThread) :=
  match a, a.protocol with
  | _, some a => (World.act a s.world).map fun p => ({ s with world := p.1 }, p.2)
  | .runTask n, none =>
    if n < s.tasks.length then some (handle date { s with tasks := s.tasks.eraseIdx n }, []) else none
  | _, none => none

def tick (s : Backend) (clock : ℤ) (redisTime : ℤ × ℤ) : Backend :=
  { s with world := { s.world with clock := clock, redisTime := redisTime } }

end Backend

abbrev BackendConfig := Config Backend Cmd Cmd.Reply Exn HandlerTag

def draining (date : ℤ → ℤ) (orderId : Long) :
    Machine Backend Cmd Cmd.Reply Exn HandlerTag Unit DrainAction where
  exec c _ s := s.exec orderId c
  act := Backend.act date

/-- No handler is lost, and time passes only once the script has seen the order. -/
def Undisturbed (orderId : Long) (c : BackendConfig) : Move Unit DrainAction → Prop
  | .crash _ => False
  | .act (.tick _ _) => orderId ∈ c.shared.world.issued
  | _ => True

abbrev DrainRun (date : ℤ → ℤ) (orderId : Long) := (draining date orderId).Run (Undisturbed orderId)

structure Backend.Idle (s : Backend) : Prop where
  queues : ∀ q, s.world.queues q = []
  unacked : s.world.unacked = []
  unconfirmed : s.world.unconfirmed = []
  tasks : s.tasks = []

/-- Nothing is left to do; parked copies stay. -/
structure Drained (c : BackendConfig) : Prop where
  threads : ∀ t ∈ c.threads, t.program.ended = true
  queues : ∀ q, q ≠ .parking → c.shared.world.queues q = []
  unconfirmed : c.shared.world.unconfirmed = []
  tasks : c.shared.tasks = []

def requested (seckillAsyncEnabled : Bool) (s : Backend) (userId voucherId : Long) : BackendConfig :=
  ⟨s, [⟨.request userId voucherId, do
    let _ ← seckillVoucher seckillAsyncEnabled userId voucherId⟩]⟩

/-- A run of one request that gets `orderId` can end in `s'`. -/
def Drains (date : ℤ → ℤ) (seckillAsyncEnabled : Bool) (s : Backend) (orderId userId voucherId : Long)
    (s' : Backend) : Prop :=
  ∃ threads, DrainRun date orderId (requested seckillAsyncEnabled s userId voucherId) ⟨s', threads⟩ ∧
    Drained ⟨s', threads⟩

section Calls
variable {date : ℤ → ℤ} {orderId : Long} {s s' : Backend} {c : Cmd} {r : Except Exn c.Reply}

theorem foldl_onOrderCreated (events : List OrderCreatedEvent) (s : Backend) :
    events.foldl Backend.onOrderCreated s = { s with tasks := s.tasks ++ events } := by
  induction events generalizing s with
  | nil => simp
  | cons event events ih =>
    rw [List.foldl_cons, ih]
    simp [Backend.onOrderCreated]

/-- What a call does: its effect on the stores and the broker, and its tasks. -/
theorem exec_backend (h : s.exec orderId c = some (r, s')) :
    World.exec c (c.outcome orderId) s.world = some (r, s'.world) ∧
      s'.tasks = s.tasks ++ c.events s.world ∧ s'.dailyOrderCount = s.dailyOrderCount := by
  obtain ⟨⟨r', w⟩, hexec, hp⟩ := Option.map_eq_some_iff.mp h
  rw [foldl_onOrderCreated] at hp
  cases hp
  exact ⟨hexec, rfl, rfl⟩

theorem exec_without_events (h : s.exec orderId c = some (r, s')) (hevents : c.events s.world = []) :
    World.exec c (c.outcome orderId) s.world = some (r, s'.world) ∧
      s' = { s with world := s'.world } := by
  obtain ⟨hexec, htasks, hcount⟩ := exec_backend h
  rw [hevents, List.append_nil] at htasks
  refine ⟨hexec, ?_⟩
  rw [← htasks, ← hcount]

theorem outcome_of_ne (hc : c ≠ .nextId) : c.outcome orderId = .performed := by
  cases c with
  | nextId => exact absurd rfl hc
  | _ => rfl

theorem answer_backend (h : s.exec orderId c = some (r, s')) (hc : c ≠ .nextId) :
    s.world.answer c = some (r, s'.world) := by
  obtain ⟨hexec, -, -⟩ := exec_backend h
  rwa [outcome_of_ne hc, World.exec_performed] at hexec

theorem committedEvents_createVouchOrder (now : ℤ) (order : VoucherOrder) (db : Database) :
    committedEvents now (createVouchOrder order) db =
      if (transact now (createVouchOrder order) db).1 = .ok () then
        [⟨order.id, order.userId, order.voucherId, now⟩] else [] := by
  cases hsave : db.save order with
  | none => simp [committedEvents, transact, createVouchOrder, Statement.run, hsave]
  | some db₁ =>
    cases hdec : db₁.decrementStock order.voucherId with
    | none => simp [committedEvents, transact, createVouchOrder, Statement.run, hsave, hdec]
    | some db₂ =>
      simp [committedEvents, transact, createVouchOrder, Statement.run, Statement.published, hsave,
        hdec]

end Calls
/-- Calls that neither the broker nor the listeners see. -/
def Cmd.Local : Cmd → Prop
  | .currentTimeMillis | .redis _ _ | .statement _ => True
  | _ => False

/-- The same moment, or a later one if the script has seen the order. -/
def Backend.Later (orderId : Long) (s s' : Backend) : Prop :=
  s' = s ∨ orderId ∈ s.world.issued ∧ ∃ clock redisTime, s' = s.tick clock redisTime

section Acts
variable {date : ℤ → ℤ} {orderId : Long} {s s' : Backend} {started : List ProtocolThread}

theorem act_backend {a : DrainAction} (h : Backend.act date a s = some (s', started)) :
    (∃ n, a = .runTask n ∧ n < s.tasks.length ∧
      s' = Backend.handle date { s with tasks := s.tasks.eraseIdx n } ∧ started = []) ∨
    ∃ pa, a.protocol = some pa ∧ World.act pa s.world = some (s'.world, started) ∧
      s.world.SameStores s'.world ∧ s'.tasks = s.tasks ∧ s'.dailyOrderCount = s.dailyOrderCount := by
  cases hpa : a.protocol with
  | none =>
    cases a with
    | runTask n =>
      simp only [Backend.act, DrainAction.protocol, Option.ite_none_right_eq_some,
        Option.some.injEq, Prod.mk.injEq] at h
      exact .inl ⟨n, rfl, h.1, h.2.1.symm, h.2.2.symm⟩
    | _ => cases hpa
  | some pa =>
    have hact : (World.act pa s.world).map (fun p => ({ s with world := p.1 }, p.2)) =
        some (s', started) := by
      rw [← h]
      cases a <;> cases hpa <;> rfl
    obtain ⟨⟨w, started'⟩, hw, hp⟩ := Option.map_eq_some_iff.mp hact
    cases hp
    refine .inr ⟨pa, rfl, hw, ?_, rfl, rfl⟩
    rcases act_stores hw with ⟨hs, -⟩ | ⟨v, o, rfl, -⟩
    · exact hs
    · cases a <;> cases hpa

/-- What starts by itself: the consumer of a queued copy, or the confirm of a publication. -/
theorem act_backend_started {a : DrainAction} (h : Backend.act date a s = some (s', started))
    {P : Handler Unit → Prop}
    (horder : ∀ copy ∈ s.world.queues .order, ∀ tag,
      P (manualContainer tag (listenVoucherOrder copy.message copy.xDeath tag)))
    (hfailed : ∀ copy ∈ s.world.queues .failed, ∀ tag,
      P (manualContainer tag (listenFailedOrderRetrying copy.message tag)))
    (hconfirm : ∀ voucherId orderId, P (markSendSuccess voucherId orderId)) :
    ∀ t ∈ started, P t.program := by
  intro t ht
  rcases act_backend h with ⟨n, -, -, -, rfl⟩ | ⟨pa, hpa, hw, -⟩
  · cases ht
  cases a with
  | deliver q n =>
    cases hpa
    obtain ⟨copy, t', hcopy, hlistener, -, rfl⟩ := act_deliver hw
    obtain rfl := List.mem_singleton.mp ht
    have hmem := List.mem_of_getElem? hcopy
    cases q with
    | order => cases hlistener; exact horder copy hmem _
    | failed => cases hlistener; exact hfailed copy hmem _
    | retry | parking => cases hlistener
  | expireRetry n =>
    cases hpa
    obtain ⟨_, -, -, rfl⟩ := act_expireRetry hw
    cases ht
  | confirm n =>
    cases hpa
    obtain ⟨p, -, -, -, rfl⟩ := act_confirm hw
    obtain rfl := List.mem_singleton.mp ht
    exact hconfirm _ _
  | runTask n => cases hpa
  | tick clock redisTime =>
    cases h
    cases ht

theorem Backend.Idle.act {a : DrainAction} (h : s.Idle)
    (hact : Backend.act date a s = some (s', started)) :
    ∃ clock redisTime, a = .tick clock redisTime ∧ s' = s.tick clock redisTime ∧ started = [] := by
  rcases act_backend hact with ⟨n, -, hn, -⟩ | ⟨pa, hpa, hw, -⟩
  · rw [h.tasks] at hn
    cases hn
  · cases a with
    | deliver q n =>
      cases hpa
      obtain ⟨c, t, hc, -⟩ := act_deliver hw
      rw [h.queues] at hc
      cases hc
    | expireRetry n =>
      cases hpa
      obtain ⟨c, hc, -⟩ := act_expireRetry hw
      rw [h.queues] at hc
      cases hc
    | confirm n =>
      cases hpa
      obtain ⟨p, hp, -⟩ := act_confirm hw
      rw [h.unconfirmed] at hp
      cases hp
    | runTask n => cases hpa
    | tick clock redisTime =>
      cases hact
      exact ⟨clock, redisTime, rfl, rfl, rfl⟩

theorem Backend.Idle.tick (h : s.Idle) (clock : ℤ) (redisTime : ℤ × ℤ) :
    (s.tick clock redisTime).Idle :=
  ⟨h.queues, h.unacked, h.unconfirmed, h.tasks⟩

theorem Backend.Later.idle (h : s.Later orderId s') (hidle : s.Idle) : s'.Idle := by
  rcases h with rfl | ⟨-, clock, redisTime, rfl⟩
  · exact hidle
  · exact hidle.tick clock redisTime

theorem Backend.Later.stores (h : s.Later orderId s') :
    s.world.SameStores s'.world ∧ s'.dailyOrderCount = s.dailyOrderCount := by
  rcases h with rfl | ⟨-, clock, redisTime, rfl⟩
  · exact ⟨.refl _, rfl⟩
  · exact ⟨⟨rfl, rfl, rfl, rfl⟩, rfl⟩

theorem Backend.Later.eq_of_fresh (h : s.Later orderId s') (hfresh : orderId ∉ s.world.issued) :
    s' = s :=
  h.resolve_right fun h => hfresh h.1

theorem Cmd.Local.events {c : Cmd} (hc : c.Local) (w : World) : c.events w = [] := by
  cases c with
  | createVouchOrder order => exact hc.elim
  | _ => rfl

theorem Backend.Idle.exec {c : Cmd} {r : Except Exn c.Reply} (h : s.Idle) (hc : c.Local)
    (hexec : s.exec orderId c = some (r, s')) : s'.Idle := by
  have htasks := (exec_backend hexec).2.1
  rw [hc.events, List.append_nil, h.tasks] at htasks
  cases c with
  | currentTimeMillis | redis | statement =>
    have hanswer := answer_backend hexec (by simp)
    obtain ⟨-, hw⟩ := Prod.mk.inj (Option.some.inj hanswer)
    refine ⟨?_, ?_, ?_, htasks⟩
    · rw [← hw]; exact h.queues
    · rw [← hw]; exact h.unacked
    · rw [← hw]; exact h.unconfirmed
  | _ => exact hc.elim

end Acts

section Alone
variable {date : ℤ → ℤ} {orderId : Long} {s : Backend} {c' : BackendConfig}

/-- A handler that is alone, with nothing under way, makes its next call. -/
theorem next_call {tag : HandlerTag} {cmd : Cmd} {k : Except Exn cmd.Reply → Handler Unit}
    (hrun : DrainRun date orderId ⟨s, [⟨tag, .call cmd k⟩]⟩ c') (hend : Drained c')
    (hidle : s.Idle) : ∃ s₁ r s₂, s.Later orderId s₁ ∧ s₁.exec orderId cmd = some (r, s₂) ∧
      DrainRun date orderId ⟨s₂, [⟨tag, k r⟩]⟩ c' := by
  refine Machine.Run.head_induction (P := fun d => ∀ s, s.Idle → d = ⟨s, [⟨tag, .call cmd k⟩]⟩ →
    ∃ s₁ r s₂, s.Later orderId s₁ ∧ s₁.exec orderId cmd = some (r, s₂) ∧
      DrainRun date orderId ⟨s₂, [⟨tag, k r⟩]⟩ c') hrun ?_ ?_ s hidle rfl
  · rintro s - rfl
    have hended := hend.threads ⟨tag, .call cmd k⟩ (by simp)
    cases hended
  · intro d m d' hallowed hstep hrest ih s hidle hd
    subst hd
    cases Machine.fires_of_step hstep with
    | @run i f tag' cmd' k' r s' hthread hexec =>
      cases i with
      | zero =>
        cases hthread
        exact ⟨s, r, s', .inl rfl, hexec, hrest⟩
      | succ i => cases hthread
    | crash => exact hallowed.elim
    | act hact =>
      obtain ⟨clock, redisTime, rfl, rfl, rfl⟩ := hidle.act hact
      obtain ⟨s₁, r, s₂, hlater, hexec, hrun⟩ := ih _ (hidle.tick clock redisTime) rfl
      refine ⟨s₁, r, s₂, .inr ⟨hallowed, ?_⟩, hexec, hrun⟩
      rcases hlater with rfl | ⟨-, clock', redisTime', rfl⟩
      · exact ⟨clock, redisTime, rfl⟩
      · exact ⟨clock', redisTime', rfl⟩

theorem fresh_call {tag : HandlerTag} {cmd : Cmd} {k : Except Exn cmd.Reply → Handler Unit}
    {r : Except Exn cmd.Reply} {w : World}
    (hrun : DrainRun date orderId ⟨s, [⟨tag, .call cmd k⟩]⟩ c') (hend : Drained c') (hidle : s.Idle)
    (hfresh : orderId ∉ s.world.issued) (hevents : cmd.events s.world = [])
    (hexec : World.exec cmd (cmd.outcome orderId) s.world = some (r, w)) :
    DrainRun date orderId ⟨{ s with world := w }, [⟨tag, k r⟩]⟩ c' := by
  obtain ⟨s₁, r', s₂, hlater, hcall, hrest⟩ := next_call hrun hend hidle
  obtain rfl := hlater.eq_of_fresh hfresh
  obtain ⟨hcall, hs₂⟩ := exec_without_events hcall hevents
  obtain ⟨hr, hw⟩ := Prod.mk.inj (Option.some.inj (hexec.symm.trans hcall))
  rw [hr, hw, ← hs₂]
  exact hrest

/-- What the calls of a handler that is alone preserve holds when it is through. -/
theorem alone_invariant {t : ProtocolThread} {I : Backend → Prop} {P : Cmd → Prop}
    (hrun : DrainRun date orderId ⟨s, [t]⟩ c') (hidle : s.Idle) (hcalls : t.program.Calls P)
    (hlocal : ∀ c, P c → c.Local) (hstart : I s)
    (htick : ∀ s clock redisTime, I s → I (s.tick clock redisTime))
    (hcall : ∀ c s s' (r : Except Exn c.Reply), P c → I s → s.exec orderId c = some (r, s') → I s') :
    I c'.shared := by
  have hall : (∀ t ∈ c'.threads, t.program.Calls P) ∧ c'.shared.Idle ∧ I c'.shared := by
    refine hrun.invariant (I := fun c => (∀ t ∈ c.threads, t.program.Calls P) ∧ c.shared.Idle ∧
      I c.shared) ⟨by simpa using hcalls, hidle, hstart⟩ ?_
    rintro d m d' ⟨hthreads, hidle, hI⟩ hallowed hfires
    cases hfires with
    | @run i f tag cmd k r s' hthread hexec =>
      have hprogram := hthreads _ (List.mem_of_getElem? hthread)
      refine ⟨fun t ht => ?_, hidle.exec (hlocal _ hprogram.1) hexec,
        hcall _ _ _ _ hprogram.1 hI hexec⟩
      rcases Machine.mem_set_thread ht with rfl | ⟨j, -, hj⟩
      · exact hprogram.2 r
      · exact hthreads t (List.mem_of_getElem? hj)
    | crash => exact hallowed.elim
    | act hact =>
      obtain ⟨clock, redisTime, rfl, rfl, rfl⟩ := hidle.act hact
      exact ⟨by simpa using hthreads, hidle.tick clock redisTime, htick _ _ _ hI⟩
  exact hall.2.2

end Alone
end HmDianPing.Seckill
