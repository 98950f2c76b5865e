import HmDianPing.Cache.Attempts
import Mathlib.Data.Set.Finite.Lemmas
import Mathlib.Order.Bounds.Basic

/-! # The delay of the second delete

A row comes to stage 1 with the time its delay ends, rounded to a second. From then on
the row is due no earlier, or the delay is over: this survives every statement but a
claim ahead of time, after which a retry or a lost lease sets the time anew.
-/
namespace HmDianPing.Cache
open Interleaving Program

/-- `invalidateShop` returned then to a worker that had found the event at stage 0. -/
def FirstDeleted (id : Long) (notes : List AttemptNote) (time : ℤ) : Prop :=
  ∃ worker event, event.id = id ∧ event.stage = some stageInitial ∧
    [.found worker event, .returned worker id time].Sublist notes

/-- The configured delay, in nanoseconds. -/
def OutboxConfig.doubleDeleteDelay (config : OutboxConfig) : ℤ :=
  config.doubleDeleteDelayMs * 1000000

def DelayOver (config : OutboxConfig) (id : Long) (notes : List AttemptNote) (time : ℤ) : Prop :=
  ∃ t, FirstDeleted id notes t ∧ t + config.doubleDeleteDelay ≤ time

/-- A worker that has found the event at stage 1 calls `invalidateShop` no earlier than the delay
after the first delete returned. -/
def SecondDeletesOnTime (config : OutboxConfig) (id : Long) (notes : List AttemptNote) : Prop :=
  ∀ worker event row time, event.id = id → event.stage ≠ some stageInitial →
    [.found worker event, .called worker id row time].Sublist notes →
    ∃ first, IsLeast {t | FirstDeleted id notes t} first ∧ first + config.doubleDeleteDelay ≤ time

/-- The time stored with a move to stage 1 is no earlier than the delay after the clock was read,
and a worker that has found the event at stage 0 does not claim it at stage 1 before that time. -/
def DelaySound (config : OutboxConfig) (id : Long) (w : OutboxWorld) (notes : List AttemptNote)
    (c : OutboxCall) (f : OutboxChoice) : Prop :=
  match c.statement with
  | .claim id' _ => id' = id → f.reaches → ∀ r ∈ w.outbox.row id, r.status = .pending →
      r.stage ≠ some stageInitial → r.nextRetryTime ≤ w.clock ∨
        ∀ event ∈ AttemptNote.foundBy c.worker id notes, event.stage ≠ some stageInitial
  | .scheduleDelayedStage id' next => id' = id → f.reaches → ∀ r ∈ w.outbox.row id,
      r.status = .processing → r.stage = some stageInitial →
        next - longMul config.doubleDeleteDelayMs 1000000 + config.doubleDeleteDelay ≤ datetime next
  | _ => True

/-- What a worker knows of the time is right. -/
structure WorkerView.Timed (id : Long) (w : OutboxWorld) (notes : List AttemptNote) (worker : ℕ)
    (κ : WorkerView) : Prop where
  idle : κ.found = none → κ.phase = .idle
  found : ∀ event, κ.Finds id event → .found worker event ∈ notes
  now : ∀ t, κ.now = some t → t ≤ w.clock
  returned : κ.phase = .returned → ∃ t ≤ w.clock, (∀ now, κ.now = some now → t ≤ now) ∧
    ∀ event, κ.Finds id event → [.found worker event, .returned worker id t].Sublist notes

/-- The event is at stage 1, or found there, only with its delay over, or due when it is. -/
structure Delayed (config : OutboxConfig) (id : Long) (w : OutboxWorld)
    (notes : List AttemptNote) : Prop where
  row : ∀ r, w.outbox.row id = some r → r.stage = some stageInitial ∨
    DelayOver config id notes w.clock ∨
    r.status = .pending ∧ DelayOver config id notes r.nextRetryTime
  found : ∀ worker event, .found worker event ∈ notes → event.id = id →
    event.stage ≠ some stageInitial → DelayOver config id notes w.clock
  called : ∀ worker event row time, event.id = id → event.stage ≠ some stageInitial →
    [.found worker event, .called worker id row time].Sublist notes →
    DelayOver config id notes time

section Notes
variable {config : OutboxConfig} {id : Long} {notes later : List AttemptNote} {time time' : ℤ}

theorem FirstDeleted.append (h : FirstDeleted id notes time) :
    FirstDeleted id (notes ++ later) time := by
  obtain ⟨worker, event, hid, hstage, hsub⟩ := h
  exact ⟨worker, event, hid, hstage, hsub.trans (List.sublist_append_left _ _)⟩

theorem DelayOver.mono (h : DelayOver config id notes time) (hle : time ≤ time') :
    DelayOver config id (notes ++ later) time' := by
  obtain ⟨t, ht, hover⟩ := h
  exact ⟨t, ht.append, hover.trans hle⟩

theorem DelayOver.exists_isLeast (h : DelayOver config id notes time) :
    ∃ first, IsLeast {t | FirstDeleted id notes t} first ∧
      first + config.doubleDeleteDelay ≤ time := by
  have hfinite : {t | FirstDeleted id notes t}.Finite := by
    refine (List.finite_toSet (notes.filterMap fun
      | .returned _ _ t => some t
      | _ => none)).subset ?_
    rintro t ⟨worker, event, -, -, hsub⟩
    exact List.mem_filterMap.mpr ⟨.returned worker id t, hsub.subset (by simp), rfl⟩
  obtain ⟨t, ht, hover⟩ := h
  obtain ⟨first, hfirst, hle⟩ := Set.exists_min_image _ (fun t => t) hfinite ⟨t, ht⟩
  exact ⟨first, ⟨hfirst, fun t ht => hle t ht⟩, (Int.add_le_add_right (hle t ht) _).trans hover⟩

end Notes

section Exec
open AttemptNote
variable {config : OutboxConfig} {id : Long} {w w' : OutboxWorld} {notes later : List AttemptNote}
  {c : OutboxCall} {f : OutboxChoice} {κ : WorkerView} {worker : ℕ}

theorem WorkerView.Timed.mono (h : κ.Timed id w notes worker) (hclock : w.clock ≤ w'.clock) :
    κ.Timed id w' (notes ++ later) worker where
  idle := h.idle
  found event hevent := List.mem_append_left _ (h.found event hevent)
  now t ht := (h.now t ht).trans hclock
  returned hphase := by
    obtain ⟨t, ht, hnow, hsub⟩ := h.returned hphase
    refine ⟨t, ht.trans hclock, hnow, fun event hevent => ?_⟩
    exact (hsub event hevent).trans (List.sublist_append_left _ _)

theorem clock_exec {r : Except Failure c.Reply} (h : OutboxWorld.exec c f w = some (r, w')) :
    w'.clock = w.clock := by
  rcases (exec_cases h).1 with rfl | rfl
  · rfl
  · obtain ⟨worker, s⟩ := c
    cases s <;> rfl

theorem exec_ok {a : c.Reply} (h : OutboxWorld.exec c f w = some (.ok a, w')) :
    f = .performed ∧ .ok a = (w.answer c).1 ∧ w' = (w.answer c).2 := by
  rcases exec_reaches h with ⟨-, -, e, he⟩ | ⟨-, -, ⟨e, he⟩ | ⟨rfl, heq⟩⟩
  · cases he
  · cases he
  · exact ⟨rfl, heq, (Prod.mk.inj (Option.some.inj h)).2.symm⟩

theorem WorkerView.Timed.exec {r : Except Failure c.Reply} (h : κ.Timed id w notes c.worker)
    (hneeded : κ.Needed config id c.statement) (hexec : OutboxWorld.exec c f w = some (r, w')) :
    (κ.learn id c.statement r).Timed id w' (notes ++ c.attemptNote f w) c.worker := by
  have hmono : κ.Timed id w' (notes ++ c.attemptNote f w) c.worker := h.mono (clock_exec hexec).ge
  obtain ⟨worker, s⟩ := c
  cases r with
  | error e =>
    cases s with
    | invalidateShop id' shopId =>
      rw [WorkerView.learn]
      split
      next hid =>
        refine ⟨fun hfound => ?_, hmono.found, hmono.now, fun hphase => (by cases hphase)⟩
        have hclaimed := hneeded hid
        rw [h.idle hfound] at hclaimed
        cases hclaimed
      next => exact hmono
    | _ => exact hmono
  | ok a =>
    obtain ⟨rfl, ha, rfl⟩ := exec_ok hexec
    cases s with
    | localNow =>
      obtain rfl := Except.ok.inj ha
      refine ⟨hmono.idle, hmono.found, fun t ht => (Option.some.inj ht).ge, fun hphase => ?_⟩
      obtain ⟨t, ht, -, hsub⟩ := hmono.returned hphase
      exact ⟨t, ht, fun now hnow => (Option.some.inj hnow) ▸ ht, hsub⟩
    | findDue now limit =>
      obtain rfl := Except.ok.inj ha
      have hidle := h.idle hneeded.1
      refine ⟨fun hfound => (by cases hfound), fun event hevent => ?_, hmono.now, fun hphase => ?_⟩
      · obtain ⟨⟨events, hevents, hmem⟩, -⟩ := hevent
        obtain rfl := Option.some.inj hevents
        exact List.mem_append_right _
          (mem_attemptNote_found.mpr ⟨rfl, rfl, now, limit, rfl, hmem⟩)
      · cases hidle.symm.trans hphase
    | claim id' deadline =>
      rw [WorkerView.learn]
      split
      next hone =>
        obtain ⟨event, ⟨events, hevents, -⟩, -⟩ := hneeded hone.1
        refine ⟨fun hfound => ?_, hmono.found, hmono.now, fun hphase => (by cases hphase)⟩
        cases hevents.symm.trans hfound
      next => exact hmono
    | invalidateShop id' shopId =>
      rw [WorkerView.learn]
      split
      next hid =>
        subst hid
        refine ⟨fun hfound => ?_, hmono.found, fun t ht => (by cases ht), fun _ =>
          ⟨w.clock, le_rfl, fun now hnow => (by cases hnow), fun event hevent => ?_⟩⟩
        · have hclaimed := hneeded rfl
          rw [h.idle hfound] at hclaimed
          cases hclaimed
        · have hsub : [AttemptNote.found worker event].Sublist notes :=
            List.singleton_sublist.mpr (h.found event hevent)
          exact hsub.append (List.sublist_cons_of_sublist _ (List.Sublist.refl _))
      next => exact hmono
    | _ => exact hmono

theorem Delayed.row_answer (h : Delayed config id w notes) (hκ : κ.Timed id w notes c.worker)
    (hneeded : κ.Needed config id c.statement) (hsound : DelaySound config id w notes c f)
    (hf : f.reaches = true) {r' : CacheInvalidationOutbox}
    (hr' : (w.answer c).2.outbox.row id = some r') : r'.stage = some stageInitial ∨
      DelayOver config id notes w.clock ∨
      r'.status = .pending ∧ DelayOver config id notes r'.nextRetryTime := by
  obtain ⟨r, hr, hleaves⟩ := row_of_answer_row hr'
  have hid : r.id = id := OutboxTable.row_id hr
  rcases hleaves with rfl | hchanges
  · exact h.row _ hr
  by_cases hinitial : r.stage = some stageInitial
  · obtain ⟨worker, s⟩ := c
    cases hchanges with
    | @delay next r hstatus =>
      -- the worker has found the event at stage 0, and its call has returned before the reading
      obtain ⟨⟨event, hevent, hstage⟩, hphase, now, hnow, rfl⟩ := hneeded hid
      obtain ⟨t, -, hread, hsub⟩ := hκ.returned hphase
      have hstored := hsound hid hf r hr hstatus hinitial
      refine .inr (.inr ⟨rfl, t, ⟨worker, event, hevent.2, hstage, hsub event hevent⟩, ?_⟩)
      have hle := hread now hnow
      show t + config.doubleDeleteDelay ≤ datetime _
      omega
    | _ => exact .inl hinitial
  · have hover (hstatus : r.status ≠ .pending) : DelayOver config id notes w.clock :=
      ((h.row r hr).resolve_left hinitial).resolve_right fun hp => hstatus hp.1
    obtain ⟨worker, s⟩ := c
    cases hchanges with
    | @claim deadline r hstatus =>
      refine .inr (.inl ?_)
      rcases (h.row r hr).resolve_left hinitial with hclock | ⟨-, hdue⟩
      · exact hclock
      · rcases hsound hid hf r hr hstatus hinitial with hlate | hfresh
        · rw [← List.append_nil notes]
          exact hdue.mono hlate
        · obtain ⟨event, hevent⟩ := hneeded hid
          have hmem := hκ.found event hevent
          exact h.found worker event hmem hevent.2 (hfresh event (mem_foundBy.mpr ⟨hmem, hevent.2⟩))
    | recover hstatus => exact .inr (.inl (hover (by simp [hstatus])))
    | delay hstatus => exact .inr (.inl (hover (by simp [hstatus])))
    | complete hstatus => exact .inr (.inl (hover (by simp [hstatus])))
    | retry hstatus => exact .inr (.inl (hover (by simp [hstatus])))
    | giveUp hstatus => exact .inr (.inl (hover (by simp [hstatus])))

theorem Delayed.found_exec (h : Delayed config id w notes) (hκ : κ.Timed id w notes c.worker)
    (hneeded : κ.Needed config id c.statement) {event : CacheInvalidationOutbox}
    (hevent : .found worker event ∈ c.attemptNote f w) (hid : event.id = id)
    (hstage : event.stage ≠ some stageInitial) : DelayOver config id notes w.clock := by
  obtain ⟨-, -, now, limit, hs, hmem⟩ := mem_attemptNote_found.mp hevent
  rw [hs] at hneeded
  obtain ⟨hpending, hdue⟩ : event.status = .pending ∧ event.nextRetryTime ≤ now :=
    of_decide_eq_true (List.mem_filter.mp
      ((List.mem_insertionSort _).mp (List.mem_of_mem_take hmem))).2
  have hrow : w.outbox.row id = some event := hid ▸ row_of_mem_findDue hmem
  rcases (h.row event hrow).resolve_left hstage with hclock | ⟨-, hover⟩
  · exact hclock
  · rw [← List.append_nil notes]
    exact hover.mono (hdue.trans (hκ.now now hneeded.2))

theorem attemptNote_called {worker : ℕ} {row : Option CacheInvalidationOutbox} {time : ℤ}
    (h : .called worker id row time ∈ c.attemptNote f w) : time = w.clock ∧
      ∀ worker' event, .found worker' event ∉ c.attemptNote f w := by
  obtain ⟨worker', s⟩ := c
  cases s with
  | invalidateShop id' shopId => cases f <;> simp_all [OutboxCall.attemptNote]
  | findDue now limit => cases f <;> simp [OutboxCall.attemptNote] at h
  | claim id' deadline =>
    simp only [OutboxCall.attemptNote] at h
    split at h <;> simp at h
  | _ => simp [OutboxCall.attemptNote] at h

theorem Delayed.exec {r : Except Failure c.Reply} (h : Delayed config id w notes)
    (hκ : κ.Timed id w notes c.worker) (hneeded : κ.Needed config id c.statement)
    (hsound : DelaySound config id w notes c f)
    (hexec : OutboxWorld.exec c f w = some (r, w')) :
    Delayed config id w' (notes ++ c.attemptNote f w) where
  row r' hr' := by
    have hrow : r'.stage = some stageInitial ∨ DelayOver config id notes w.clock ∨
        r'.status = .pending ∧ DelayOver config id notes r'.nextRetryTime := by
      rcases exec_reaches hexec with ⟨-, rfl, -⟩ | ⟨hf, rfl, -⟩
      · exact h.row r' hr'
      · exact h.row_answer hκ hneeded hsound hf hr'
    rw [clock_exec hexec]
    exact hrow.imp_right (Or.imp (fun hover => hover.mono le_rfl)
      fun hover => ⟨hover.1, hover.2.mono le_rfl⟩)
  found worker event hevent hid hstage := by
    rw [clock_exec hexec]
    rcases List.mem_append.mp hevent with hevent | hevent
    · exact (h.found worker event hevent hid hstage).mono le_rfl
    · exact (h.found_exec hκ hneeded hevent hid hstage).mono le_rfl
  called worker event row time hid hstage hsub := by
    obtain ⟨before, after, heq, hbefore, hafter⟩ := List.sublist_append_iff.mp hsub
    rcases before with _ | ⟨note, _ | ⟨note', before⟩⟩
    · obtain rfl : _ = after := heq
      have hcalled : .called worker id row time ∈ c.attemptNote f w := hafter.subset (by simp)
      exact absurd (hafter.subset (by simp)) ((attemptNote_called hcalled).2 worker event)
    · obtain ⟨rfl, rfl⟩ := List.cons.inj heq
      have hfound : .found worker event ∈ notes := hbefore.subset (by simp)
      have hcalled : .called worker id row time ∈ c.attemptNote f w := hafter.subset (by simp)
      rw [(attemptNote_called hcalled).1]
      exact (h.found worker event hfound hid hstage).mono le_rfl
    · simp only [List.cons_append, List.cons.injEq, List.nil_eq, List.append_eq_nil_iff] at heq
      obtain ⟨rfl, rfl, rfl, rfl⟩ := heq
      exact (h.called worker event row time hid hstage hbefore).mono le_rfl

end Exec

/-- The delays are kept, and every worker knows the time rightly. -/
structure DelayKept (config : OutboxConfig) (id : Long) (c : AttemptPool) : Prop where
  delayed : Delayed config id c.shared.1 c.shared.2
  knows : Machine.KnowsOwn (WorkerView.logic config id)
    (fun s worker κ => WorkerView.Timed id s.1 s.2 worker κ) c

def TimePasses (c : AttemptPool) : Move OutboxChoice OutboxAction → Prop
  | .act (.tick clock) => c.shared.1.clock ≤ clock
  | _ => True

def DelaysSound (config : OutboxConfig) (id : Long) (c : AttemptPool) :
    Move OutboxChoice OutboxAction → Prop
  | .run i f => ∀ t ∈ c.threads[i]?, t.program.Next fun cmd =>
      DelaySound config id c.shared.1 c.shared.2 cmd f
  | _ => True

section Run
variable {config : OutboxConfig} {id : Long} {c c' : AttemptPool}
  {m : Move OutboxChoice OutboxAction}

theorem Delayed.later {w w' : OutboxWorld} {notes : List AttemptNote}
    (h : Delayed config id w notes) (hclock : w.clock ≤ w'.clock)
    (hrow : ∀ r, w'.outbox.row id = some r → r.stage = some stageInitial ∨
      w.outbox.row id = some r) : Delayed config id w' notes where
  row r hr := by
    rcases hrow r hr with hstage | hbefore
    · exact .inl hstage
    · refine (h.row r hbefore).imp_right (Or.imp_left fun hover => ?_)
      rw [← List.append_nil notes]
      exact hover.mono hclock
  found worker event hevent hid hstage := by
    rw [← List.append_nil notes]
    exact (h.found worker event hevent hid hstage).mono hclock
  called := h.called

theorem DelayKept.act {a : OutboxAction} {w' : OutboxWorld}
    {started : List (Thread OutboxCall OutboxCall.Reply Failure ℕ)} (h : DelayKept config id c)
    (htime : TimePasses c (.act a))
    (hact : (outboxWorkers config).act a c.shared.1 = some (w', started)) :
    DelayKept config id ⟨(w', c.shared.2), c.threads ++ started⟩ := by
  have hknows (hclock : c.shared.1.clock ≤ w'.clock)
      (hstart : ∀ t ∈ started, ∃ κ, WorkerView.Timed id w' c.shared.2 t.tag κ ∧
        (WorkerView.logic config id t.tag).Safe t.program κ) :
      Machine.KnowsOwn (WorkerView.logic config id)
        (fun s worker κ => WorkerView.Timed id s.1 s.2 worker κ)
        ⟨(w', c.shared.2), c.threads ++ started⟩ := by
    refine h.knows.act (fun worker κ hκ => ?_) hstart
    have hmono : κ.Timed id w' (c.shared.2 ++ []) worker := hκ.mono hclock
    rwa [List.append_nil] at hmono
  cases a with
  | scan =>
    cases hact
    refine ⟨h.delayed.later le_rfl fun r hr => .inr hr, hknows le_rfl fun t ht => ?_⟩
    obtain rfl := List.mem_singleton.mp ht
    refine ⟨⟨none, .idle, none⟩, ⟨fun _ => rfl, fun event hevent => ?_, fun t ht => (by cases ht),
      fun hphase => (by cases hphase)⟩, processDueEvents_viewed _⟩
    obtain ⟨⟨events, hevents, -⟩, -⟩ := hevent
    cases hevents
  | tick clock =>
    cases hact
    exact ⟨h.delayed.later htime fun r hr => .inr hr, hknows htime (by simp)⟩
  | recordShopInvalidation id' shopId =>
    simp only [outboxWorkers] at hact
    split at hact
    swap
    · cases hact
    next hfresh =>
      cases hact
      refine ⟨h.delayed.later le_rfl fun r hr => ?_, hknows le_rfl (by simp)⟩
      replace hr := (OutboxTable.row_insert c.shared.1.outbox id hfresh).symm.trans hr
      split at hr
      · obtain rfl := Option.some.inj hr
        exact .inl rfl
      · exact .inr hr

theorem DelayKept.step (h : DelayKept config id c) (htime : TimePasses c m)
    (hsound : DelaysSound config id c m) (hfires : (attemptHistory config).Fires c m c') :
    DelayKept config id c' := by
  cases hfires with
  | @run i f tag cmd k r s hi hexec =>
    obtain ⟨hexec', hnotes⟩ := Machine.exec_recording hexec
    obtain ⟨w', notes'⟩ := s
    obtain rfl : notes' = c.shared.2 ++ cmd.attemptNote f c.shared.1 := hnotes
    obtain ⟨κ, hκ, ⟨hworker, hneeded⟩, -⟩ := h.knows.thread hi
    obtain rfl : cmd.worker = tag := hworker
    refine ⟨h.delayed.exec hκ hneeded (hsound _ hi) hexec',
      h.knows.run hi (fun j t _ _ κ' hκ' => ?_) fun κ' hκ' hpre => ?_⟩
    · exact hκ'.mono (clock_exec hexec').ge
    · exact ⟨trivial, hκ'.exec hpre.2 hexec'⟩
  | crash bound => exact ⟨h.delayed, h.knows.crash _⟩
  | @act a s started hact =>
    obtain ⟨⟨w', started'⟩, hact', hq⟩ := Option.map_eq_some_iff.mp hact
    cases hq
    exact h.act htime hact'

theorem delayKept_unattempted (clock : ℤ) : DelayKept config id (unattempted clock) where
  delayed := {
    row := fun r hr => by cases hr
    found := by simp [unattempted]
    called := by simp [unattempted] }
  knows := by simp [Machine.KnowsOwn, unattempted]

/-- In all runs that obey `guard`, the second deletes of the event are on time. -/
def SecondDeleteOnTime (config : OutboxConfig) (id : Long)
    (guard : AttemptPool → Move OutboxChoice OutboxAction → Prop) : Prop :=
  ∀ clock (c : AttemptPool),
    (attemptHistory config).Run (fun d m => TimePasses d m ∧ guard d m) (unattempted clock) c →
    SecondDeletesOnTime config id c.shared.2

theorem second_delete_on_time (config : OutboxConfig) (id : Long) :
    SecondDeleteOnTime config id (DelaysSound config id) := by
  intro clock c hrun worker event row time hid hstage hsub
  have hkept : DelayKept config id c :=
    hrun.invariant (delayKept_unattempted clock) fun d m d' hd hg hfires =>
      hd.step hg.1 hg.2 hfires
  exact (hkept.delayed.called worker event row time hid hstage hsub).exists_isLeast

instance (config : OutboxConfig) (id : Long) (w : OutboxWorld) (notes : List AttemptNote) :
    (c : OutboxCall) → (f : OutboxChoice) → Decidable (DelaySound config id w notes c f)
  | ⟨_, .claim _ _⟩, _ | ⟨_, .scheduleDelayedStage _ _⟩, _ => inferInstanceAs (Decidable (_ → _))
  | ⟨_, .invalidateShop _ _⟩, _ | ⟨_, .markCompleted _⟩, _ | ⟨_, .markRetry _ _ _ _⟩, _
  | ⟨_, .markDead _ _ _⟩, _ | ⟨_, .recoverExpiredClaims _⟩, _ | ⟨_, .localNow⟩, _
  | ⟨_, .findDue _ _⟩, _ => inferInstanceAs (Decidable True)

instance (c : AttemptPool) : (m : Move OutboxChoice OutboxAction) → Decidable (TimePasses c m)
  | .act (.tick clock) => inferInstanceAs (Decidable (c.shared.1.clock ≤ clock))
  | .act .scan | .act (.recordShopInvalidation _ _) | .run _ _ | .crash _ =>
    inferInstanceAs (Decidable True)

instance (config : OutboxConfig) (id : Long) (c : AttemptPool) :
    (m : Move OutboxChoice OutboxAction) → Decidable (DelaysSound config id c m)
  | .run i f => inferInstanceAs (Decidable (∀ t ∈ c.threads[i]?, t.program.Next fun cmd =>
      DelaySound config id c.shared.1 c.shared.2 cmd f))
  | .crash _ | .act _ => inferInstanceAs (Decidable True)

def deletedTwice (clock : ℤ) : List (Move OutboxChoice OutboxAction) :=
  .act (.recordShopInvalidation 1 9) :: .act .scan :: List.replicate 8 (.run 0 .performed) ++
    .act (.tick clock) :: .act .scan :: List.replicate 7 (.run 1 .performed)

def CalledLater (c : AttemptPool) (event : CacheInvalidationOutbox) (time : ℤ) : Prop :=
  event.id = 1 ∧ event.stage ≠ some stageInitial ∧
    ∃ row ∈ c.shared.2.filterMap fun
      | .called _ _ row _ => some row
      | _ => none, [.found 1 event, .called 1 1 row time].Sublist c.shared.2

instance (c : AttemptPool) (event : CacheInvalidationOutbox) (time : ℤ) :
    Decidable (CalledLater c event time) := inferInstanceAs (Decidable (_ ∧ _ ∧ _))

/-- The event of shop 9 between its stages. -/
def betweenStages (due : ℤ) : CacheInvalidationOutbox :=
  { newEvent 1 9 0 with stage := some stageDelayed, nextRetryTime := due }

/-- At 0 s the delay ends at 1 s, which is stored as it is. -/
def deletedOnTime : Option AttemptPool :=
  (attemptHistory defaultConfig).play
    (fun d m => decide (TimePasses d m ∧ DelaysSound defaultConfig 1 d m))
    (unattempted 0) (deletedTwice 1000000000)

theorem second_delete_on_time_deletedOnTime : ∃ c, deletedOnTime = some c ∧
    CalledLater c (betweenStages 1000000000) 1000000000 ∧
    ∃ first, IsLeast {t | FirstDeleted 1 c.shared.2 t} first ∧ first + 1000000000 ≤ 1000000000 := by
  have hplay : (deletedOnTime.map fun c =>
      decide (CalledLater c (betweenStages 1000000000) 1000000000)) = some true := by
    decide +kernel
  obtain ⟨c, hc, hcalled⟩ := Option.map_eq_some_iff.mp hplay
  have hrun : (attemptHistory defaultConfig).Run
      (fun d m => TimePasses d m ∧ DelaysSound defaultConfig 1 d m) (unattempted 0) c :=
    Machine.run_of_play (fun _ _ => of_decide_eq_true) hc
  obtain ⟨hid, hstage, row, -, hsub⟩ := of_decide_eq_true hcalled
  refine ⟨c, hc, of_decide_eq_true hcalled, ?_⟩
  exact second_delete_on_time defaultConfig 1 0 c hrun 1 _ row _ hid hstage hsub

/-- At 1.4 s the delay ends at 2.4 s, which is stored as 2 s. -/
def deletedEarly : Option AttemptPool :=
  (attemptHistory defaultConfig).play (fun d m => decide (TimePasses d m))
    (unattempted 1400000000) (deletedTwice 2000000000)

/-- The second delete follows the first after 0.6 s. -/
theorem secondDeleteOnTime_fails : ¬ ∀ config id, 0 ≤ config.doubleDeleteDelayMs →
    SecondDeleteOnTime config id fun _ _ => True := by
  intro h
  have hplay : (deletedEarly.map fun c =>
      decide (CalledLater c (betweenStages 2000000000) 2000000000 ∧
        ∀ time ∈ c.shared.2.filterMap fun
          | .returned _ _ time => some time
          | _ => none, 1400000000 ≤ time)) = some true := by
    decide +kernel
  obtain ⟨c, hc, hcalled⟩ := Option.map_eq_some_iff.mp hplay
  have hrun : (attemptHistory defaultConfig).Run (fun d m => TimePasses d m ∧ True)
      (unattempted 1400000000) c :=
    Machine.run_of_play (fun _ _ hd => ⟨of_decide_eq_true hd, trivial⟩) hc
  obtain ⟨⟨hid, hstage, row, -, hsub⟩, htimes⟩ := of_decide_eq_true hcalled
  obtain ⟨first, ⟨⟨worker, event, -, -, hreturned⟩, -⟩, hle⟩ :=
    h defaultConfig 1 (by decide) 1400000000 c hrun 1 _ row _ hid hstage hsub
  have hnote : AttemptNote.returned worker 1 first ∈ c.shared.2 := hreturned.subset (by simp)
  have hfirst : 1400000000 ≤ first := htimes first (List.mem_filterMap.mpr ⟨_, hnote, rfl⟩)
  have hdelay : defaultConfig.doubleDeleteDelay = 1000000000 := rfl
  omega

end Run

end HmDianPing.Cache
