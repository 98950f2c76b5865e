import HmDianPing.Cache.TwoStage

/-! # Attempts at an outbox event

An attempt is a call of `invalidateShop`. The history keeps the rows the scans find, the
claims and the attempts; a worker knows what it has found and how far it is with it.
-/
namespace HmDianPing.Cache
open Interleaving Program

inductive AttemptNote where
  /-- The scan found this row due. -/
  | found (worker : ℕ) (event : CacheInvalidationOutbox)
  /-- The claim took the event. -/
  | claimed (worker : ℕ) (id : Long)
  /-- `invalidateShop` was called; the row of the event then, and the time. -/
  | called (worker : ℕ) (id : Long) (row : Option CacheInvalidationOutbox) (time : ℤ)
  /-- `invalidateShop` returned. -/
  | returned (worker : ℕ) (id : Long) (time : ℤ)
deriving DecidableEq

def OutboxCall.attemptNote (c : OutboxCall) (f : OutboxChoice) (w : OutboxWorld) :
    List AttemptNote :=
  match c.statement, f with
  | .findDue now limit, .performed => (w.outbox.findDue now limit).map (.found c.worker)
  | .claim id _, f =>
    if f.reaches ∧ (w.outbox.row id).any fun r => r.status = .pending then [.claimed c.worker id]
    else []
  | .invalidateShop id _, .performed =>
    [.called c.worker id (w.outbox.row id) w.clock, .returned c.worker id w.clock]
  | .invalidateShop id _, _ => [.called c.worker id (w.outbox.row id) w.clock]
  | _, _ => []

/-- The workers, with a history of their attempts. -/
def attemptHistory (config : OutboxConfig) : Machine (OutboxWorld × List AttemptNote) OutboxCall
    OutboxCall.Reply Failure ℕ OutboxChoice OutboxAction :=
  (outboxWorkers config).recording OutboxCall.attemptNote

namespace AttemptNote

/-- The rows of the event that the worker has found. -/
def foundBy (worker : ℕ) (id : Long) (notes : List AttemptNote) : List CacheInvalidationOutbox :=
  notes.filterMap fun
    | .found worker' event => if worker' = worker ∧ event.id = id then some event else none
    | _ => none

/-- `invalidateShop` has been called since the event was claimed last. -/
def attempted (id : Long) (notes : List AttemptNote) : Bool :=
  notes.foldl (fun b note => match note with
    | .claimed _ id' => if id' = id then false else b
    | .called _ id' _ _ => if id' = id then true else b
    | _ => b) false

/-- An attempt while the event is at this stage and not at its end. -/
def isAttempt (id : Long) (stage : Option ℤ) : AttemptNote → Bool
  | .called _ id' (some r) _ =>
    id' = id ∧ r.stage = stage ∧ r.status ≠ .completed ∧ r.status ≠ .dead
  | _ => false

def attempts (id : Long) (stage : Option ℤ) (notes : List AttemptNote) : ℕ :=
  notes.countP (isAttempt id stage)

end AttemptNote

/-- How far a worker is with its event. -/
inductive Phase where
  | idle | claimed | called | returned

/-- What a worker knows: what its scan has found, once it has, and how far it is. -/
structure WorkerView where
  found : Option (List CacheInvalidationOutbox)
  phase : Phase
  /-- The last reading of the clock; after `invalidateShop` has returned, the last one since. -/
  now : Option ℤ

/-- The worker has found the event in this row. -/
def WorkerView.Finds (κ : WorkerView) (id : Long) (event : CacheInvalidationOutbox) : Prop :=
  (∃ events ∈ κ.found, event ∈ events) ∧ event.id = id

/-- The count `handleFailure` writes back. -/
def nextRetryCount (event : CacheInvalidationOutbox) : ℤ :=
  match event.retryCount with
  | none => 1
  | some n => n + 1

namespace WorkerView
variable (config : OutboxConfig) (id : Long) (κ : WorkerView)

def Needed : OutboxStatement → Prop
  | .findDue now _ => κ.found = none ∧ κ.now = some now
  | .claim id' _ => id' = id → ∃ event, κ.Finds id event
  | .invalidateShop id' _ => id' = id → κ.phase = .claimed
  | .scheduleDelayedStage id' next => id' = id →
    (∃ event, κ.Finds id event ∧ event.stage = some stageInitial) ∧
      κ.phase = .returned ∧
        ∃ now, κ.now = some now ∧ next = now + longMul config.doubleDeleteDelayMs 1000000
  | .markCompleted id' => id' = id → ∃ event, κ.Finds id event ∧ event.stage ≠ some stageInitial
  | .markRetry id' count _ _ => id' = id →
    ∃ event, κ.Finds id event ∧ count = nextRetryCount event ∧ count < config.maxRetries
  | .markDead id' count _ => id' = id → ∃ event, κ.Finds id event ∧ count = nextRetryCount event
  | .localNow | .recoverExpiredClaims _ => True

def learn : (s : OutboxStatement) → Except Failure s.Reply → WorkerView
  | .findDue _ _, .ok events => { κ with found := some events }
  | .claim id' _, .ok n => if id' = id ∧ n = 1 then { κ with phase := .claimed } else κ
  | .invalidateShop id' _, .ok _ =>
    if id' = id then { κ with phase := .returned, now := none } else κ
  | .invalidateShop id' _, .error _ => if id' = id then { κ with phase := .called } else κ
  | .localNow, .ok now => { κ with now := some now }
  | _, _ => κ

/-- One attempt for each claim, and a count that is the one found, raised by one. -/
def logic (worker : ℕ) : Logic OutboxCall OutboxCall.Reply Failure WorkerView where
  pre κ c := c.worker = worker ∧ κ.Needed config id c.statement
  meets _ _ _ := True
  learn κ c r := κ.learn id c.statement r

theorem found_learn (s : OutboxStatement) (r : Except Failure s.Reply)
    (hs : ∀ now limit, s ≠ .findDue now limit) : (κ.learn id s r).found = κ.found := by
  cases s with
  | findDue now limit => exact absurd rfl (hs now limit)
  | claim id' deadline =>
    cases r with
    | ok n =>
      rw [learn]
      split <;> rfl
    | error e => rfl
  | invalidateShop id' shopId =>
    cases r with
    | ok u =>
      rw [learn]
      split <;> rfl
    | error e =>
      rw [learn]
      split <;> rfl
  | _ => cases r <;> rfl

end WorkerView

section Safe
variable {config : OutboxConfig} {id : Long} (worker : ℕ) {κ : WorkerView}
  {event : CacheInvalidationOutbox}

/-- The logic of one worker's statements. -/
abbrev WorkerView.own (config : OutboxConfig) (id : Long) (worker : ℕ) :
    Logic OutboxStatement OutboxStatement.Reply Failure WorkerView :=
  (WorkerView.logic config id worker).comap (OutboxCall.mk worker)

theorem WorkerView.finds_of_found {κ' : WorkerView} (h : κ'.found = κ.found)
    (hevent : κ.Finds event.id event) : κ'.Finds event.id event := by
  rw [Finds, h]
  exact hevent

theorem handleFailure_viewed (e : Failure) (hevent : κ.Finds event.id event) :
    (WorkerView.own config id worker).wp (handleFailure config event e)
      (fun κ' _ => κ'.found = κ.found) κ := by
  simp only [handleFailure, Logic.wp_ite]
  refine ⟨fun _ => ?_, fun hcount => ?_⟩
  · refine (Logic.wp_perform_bind _ _).mpr ⟨⟨rfl, fun hid => ⟨event, hid ▸ hevent, rfl⟩⟩,
      fun _ _ => rfl, fun e _ => rfl⟩
  · refine (Logic.wp_perform_bind _ _).mpr ⟨⟨rfl, trivial⟩, fun now _ => ?_, fun e _ => rfl⟩
    have hfound := κ.found_learn id .localNow (.ok now) (by simp)
    refine (Logic.wp_perform_bind _ _).mpr ⟨⟨rfl, fun hid => ⟨event, ?_, rfl, not_le.mp hcount⟩⟩,
      fun _ _ => hfound, fun e _ => hfound⟩
    subst hid
    exact WorkerView.finds_of_found hfound hevent

theorem invalidateAndAdvance_viewed (hevent : κ.Finds event.id event)
    (hclaimed : event.id = id → κ.phase = .claimed) :
    (WorkerView.own config id worker).wp (invalidateAndAdvance config event)
      (fun κ' _ => κ'.found = κ.found) κ := by
  simp only [invalidateAndAdvance, Logic.wp_ite]
  refine ⟨fun _ => rfl, fun _ => ?_⟩
  unfold requireShopId
  split
  swap
  · rfl
  next shopId hparse =>
    have hfound (r : Except Failure Unit) :=
      κ.found_learn id (.invalidateShop event.id shopId) r (by simp)
    refine (Logic.wp_perform_bind _ _).mpr ⟨⟨rfl, hclaimed⟩, fun u _ => ?_, fun e _ => hfound _⟩
    refine (Logic.wp_ite _ _ _).mpr ⟨fun hstage => ?_, fun hstage => ?_⟩
    · refine (Logic.wp_perform_bind _ _).mpr ⟨⟨rfl, trivial⟩, fun now _ => ?_,
        fun e _ => hfound (.ok u)⟩
      have hfound' := ((κ.learn id (.invalidateShop event.id shopId) (.ok u)).found_learn id
        .localNow (.ok now) (by simp)).trans (hfound (.ok u))
      refine (Logic.wp_perform_bind _ _).mpr ⟨⟨rfl, fun hid =>
        ⟨⟨event, ?_, hstage⟩, ?_, now, rfl, rfl⟩⟩, fun _ _ => hfound', fun e _ => hfound'⟩
      · subst hid
        exact WorkerView.finds_of_found hfound' hevent
      · simp [WorkerView.own, WorkerView.logic, WorkerView.learn, hid]
    · refine (Logic.wp_perform_bind _ _).mpr ⟨⟨rfl, fun hid => ⟨event, ?_, hstage⟩⟩,
        fun _ _ => hfound (.ok u), fun e _ => hfound (.ok u)⟩
      subst hid
      exact WorkerView.finds_of_found (hfound (.ok u)) hevent

theorem processOne_viewed (hevent : κ.Finds event.id event) :
    (WorkerView.own config id worker).wp (processOne config event)
      (fun κ' _ => κ'.found = κ.found) κ := by
  refine (Logic.wp_perform_bind _ _).mpr ⟨⟨rfl, trivial⟩, fun now _ => ?_, fun e _ => rfl⟩
  have hnow := κ.found_learn id .localNow (.ok now) (by simp)
  have hclaim (r : Except Failure ℕ) := ((κ.learn id .localNow (.ok now)).found_learn id
    (.claim event.id (plusSeconds now config.leaseSeconds)) r (by simp)).trans hnow
  refine (Logic.wp_perform_bind _ _).mpr ⟨⟨rfl, fun hid => ⟨event, ?_⟩⟩, fun n _ => ?_,
    fun e _ => hclaim _⟩
  · subst hid
    exact WorkerView.finds_of_found hnow hevent
  refine (Logic.wp_ite _ _ _).mpr ⟨fun _ => hclaim _, fun hn => ?_⟩
  obtain rfl : n = 1 := not_not.mp hn
  have hfinds := WorkerView.finds_of_found (hclaim (.ok 1)) hevent
  refine Logic.wp_tryCatch_of (invalidateAndAdvance_viewed worker hfinds fun hid => ?_)
    (fun κ' u hκ' => hκ'.trans (hclaim _)) fun κ' e hκ' => ?_
  · simp [WorkerView.own, WorkerView.logic, WorkerView.learn, hid]
  · refine Logic.wp_mono (handleFailure_viewed worker e
      (WorkerView.finds_of_found (hκ'.trans (hclaim _)) hevent)) ?_
    exact fun κ'' r hκ'' => hκ''.trans (hκ'.trans (hclaim _))

theorem processDueEvents_viewed : (WorkerView.logic config id worker).Safe
    ((processDueEvents config).lift (OutboxCall.mk worker)) ⟨none, .idle, none⟩ := by
  rw [Logic.Safe, Logic.wp_lift]
  refine (Logic.wp_perform_bind _ _).mpr ⟨⟨rfl, trivial⟩, fun now _ => ?_, fun e _ => trivial⟩
  refine (Logic.wp_perform_bind _ _).mpr ⟨⟨rfl, trivial⟩, fun n _ => ?_, fun e _ => trivial⟩
  refine (Logic.wp_perform_bind _ _).mpr ⟨⟨rfl, rfl, rfl⟩, fun events _ => ?_, fun e _ => trivial⟩
  refine Logic.wp_forEach (fun κ rest => ∀ event ∈ rest, κ.Finds event.id event)
    (fun _ _ => trivial) (fun κ event rest hrest => ?_)
    fun event hevent => ⟨⟨events, rfl, hevent⟩, rfl⟩
  refine Logic.wp_mono (processOne_viewed worker (hrest event (by simp))) fun κ' r hκ' => ?_
  refine ⟨fun _ _ event' hevent' => ?_, fun _ _ => trivial⟩
  exact WorkerView.finds_of_found hκ' (hrest event' (by simp [hevent']))

end Safe

section Notes
open AttemptNote
variable {id : Long} {notes later : List AttemptNote} {stage : Option ℤ}

theorem attempts_append : attempts id stage (notes ++ later) =
    attempts id stage notes + attempts id stage later := List.countP_append

theorem mem_foundBy {worker : ℕ} {event : CacheInvalidationOutbox} :
    event ∈ foundBy worker id notes ↔ .found worker event ∈ notes ∧ event.id = id := by
  rw [foundBy, List.mem_filterMap]
  constructor
  · rintro ⟨note, hnote, heq⟩
    cases note with
    | found worker' event' =>
      obtain ⟨⟨rfl, hid⟩, hevent⟩ := Option.ite_none_right_eq_some.mp heq
      obtain rfl := Option.some.inj hevent
      exact ⟨hnote, hid⟩
    | _ => cases heq
  · rintro ⟨hnote, hid⟩
    exact ⟨_, hnote, by simp [hid]⟩

theorem attempts_claimed {worker : ℕ} {id' : Long} :
    attempts id stage (notes ++ [.claimed worker id']) = attempts id stage notes := by
  simp [attempts, isAttempt]

theorem attempted_claimed {worker : ℕ} {id' : Long} :
    attempted id (notes ++ [.claimed worker id']) =
      if id' = id then false else attempted id notes := by
  simp [attempted]

theorem attempts_found {worker : ℕ} {events : List CacheInvalidationOutbox} :
    attempts id stage (notes ++ events.map (.found worker)) = attempts id stage notes := by
  have hnone : attempts id stage (events.map (.found worker)) = 0 := by
    rw [attempts, List.countP_map]
    exact List.countP_eq_zero.mpr fun event _ => by simp [isAttempt]
  rw [attempts_append, hnone, Nat.add_zero]

theorem attempted_found {worker : ℕ} {events : List CacheInvalidationOutbox} :
    attempted id (notes ++ events.map (.found worker)) = attempted id notes := by
  rw [attempted, List.foldl_append, List.foldl_map]
  induction events with
  | nil => rfl
  | cons event events ih => exact ih

end Notes

section Exec
variable {w w' : OutboxWorld} {c : OutboxCall} {f : OutboxChoice} {id : Long} {κ : WorkerView}

theorem exec_reaches {r : Except Failure c.Reply} (hexec : OutboxWorld.exec c f w = some (r, w')) :
    f.reaches = false ∧ w' = w ∧ (∃ e, r = .error e) ∨ f.reaches = true ∧ w' = (w.answer c).2 ∧
      ((∃ e, r = .error e) ∨ f = .performed ∧ r = (w.answer c).1) := by
  cases f with
  | performed =>
    obtain ⟨rfl, rfl⟩ := Prod.mk.inj (Option.some.inj hexec)
    exact .inr ⟨rfl, rfl, .inr ⟨rfl, rfl⟩⟩
  | fails e =>
    cases hexec
    exact .inl ⟨rfl, rfl, e, rfl⟩
  | failsAfter e =>
    cases hexec
    exact .inr ⟨rfl, rfl, .inl ⟨e, rfl⟩⟩

theorem mem_attemptNote_found {worker : ℕ} {event : CacheInvalidationOutbox} :
    .found worker event ∈ c.attemptNote f w ↔ worker = c.worker ∧ f = .performed ∧
      ∃ now limit, c.statement = .findDue now limit ∧ event ∈ w.outbox.findDue now limit := by
  obtain ⟨worker', s⟩ := c
  cases s with
  | findDue now limit => cases f <;> simp [OutboxCall.attemptNote, eq_comm, and_comm]
  | claim id' deadline => simp [OutboxCall.attemptNote]
  | invalidateShop id' shopId => cases f <;> simp [OutboxCall.attemptNote]
  | _ => simp [OutboxCall.attemptNote]

theorem WorkerView.found_of_learn {s : OutboxStatement} {r : Except Failure s.Reply}
    (h : (κ.learn id s r).found = none) : κ.found = none := by
  cases s with
  | findDue now limit =>
    cases r with
    | ok events => cases h
    | error e => exact h
  | _ => exact (κ.found_learn id _ r (by simp)).symm.trans h

end Exec

abbrev AttemptPool :=
  Config (OutboxWorld × List AttemptNote) OutboxCall OutboxCall.Reply Failure ℕ

def unattempted (clock : ℤ) : AttemptPool := ⟨(.start clock ⟨[], List.nodup_nil⟩, []), []⟩

end HmDianPing.Cache
