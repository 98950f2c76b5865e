import HmDianPing.Cache.Lease
import HmDianPing.Interleaving.History
import Mathlib.Data.Set.Lattice

/-! # Both stages of an outbox event

A worker acts on the stage it read before its claim, and the claim asks for the
status alone. What makes a completed event have gone through both invalidations is
that a stage never goes back, so that a worker that read 1 read it after the move.
-/
namespace HmDianPing.Cache
open Interleaving Program
open Text (longValueOf)

inductive OutboxNote where
  /-- The claim took the event, whose row was at this stage. -/
  | claimed (worker : ℕ) (id : Long) (stage : Option ℤ)
  /-- `invalidateShop` returned. -/
  | invalidated (worker : ℕ) (id shopId : Long)
  /-- The row was moved from stage 0 to stage 1. -/
  | delayed (worker : ℕ) (id : Long)
deriving DecidableEq

def OutboxChoice.reaches : OutboxChoice → Bool
  | .fails _ => false
  | _ => true

def OutboxCall.note (c : OutboxCall) (f : OutboxChoice) (w : OutboxWorld) : List OutboxNote :=
  match c.statement, f with
  | .claim id _, f =>
    match w.outbox.row id with
    | some r => if f.reaches ∧ r.status = .pending then [.claimed c.worker id r.stage] else []
    | none => []
  | .invalidateShop id shopId, .performed => [.invalidated c.worker id shopId]
  | .scheduleDelayedStage id _, f =>
    match w.outbox.row id with
    | some r =>
      if f.reaches ∧ r.status = .processing ∧ r.stage = some stageInitial then [.delayed c.worker id]
      else []
    | none => []
  | _, _ => []

/-- The workers, with a history of what they did. -/
def outboxHistory (config : OutboxConfig) : Machine (OutboxWorld × List OutboxNote) OutboxCall
    OutboxCall.Reply Failure ℕ OutboxChoice OutboxAction :=
  (outboxWorkers config).recording OutboxCall.note

/-- A worker that claimed the event at stage 0 invalidated the shop and moved the event on. -/
def FirstStage (worker : ℕ) (id shopId : Long) : List OutboxNote :=
  [.claimed worker id (some stageInitial), .invalidated worker id shopId, .delayed worker id]

/-- A worker claimed the event at stage 1 and invalidated the shop. -/
def SecondStage (worker : ℕ) (id shopId : Long) : List OutboxNote :=
  [.claimed worker id (some stageDelayed), .invalidated worker id shopId]

/-- What a worker has seen or done, and the history shows. -/
inductive Fact where
  | key (id : Long) (cacheKey : String)
  | delayed (id : Long)
  | claimed (id : Long)
  | claimedDelayed (id : Long)
  | invalidated (id : Long)
  | invalidatedDelayed (id : Long)

/-- What a reply adds to the facts. -/
def Fact.gained (κ : Set Fact) : (s : OutboxStatement) → Except Failure s.Reply → Set Fact
  | .findDue _ _, .ok events => {fact | ∃ event ∈ events, fact = .key event.id event.cacheKey ∨
      event.stage ≠ some stageInitial ∧ fact = .delayed event.id}
  | .claim id _, .ok n => {fact | n = 1 ∧ (fact = .claimed id ∨
      .delayed id ∈ κ ∧ fact = .claimedDelayed id)}
  | .invalidateShop id _, .ok _ => {fact | fact = .invalidated id ∨
      .claimedDelayed id ∈ κ ∧ fact = .invalidatedDelayed id}
  | _, _ => ∅

def Fact.needed (κ : Set Fact) : OutboxStatement → Prop
  | .invalidateShop id shopId =>
    .claimed id ∈ κ ∧ ∃ cacheKey, .key id cacheKey ∈ κ ∧ longValueOf cacheKey = some shopId
  | .scheduleDelayedStage id _ => .invalidated id ∈ κ
  | .markCompleted id => .invalidatedDelayed id ∈ κ
  | _ => True

/-- A worker moves an event on after it has invalidated the shop, and completes it only when it read
it at stage 1 before. -/
def diligence (worker : ℕ) : Logic OutboxCall OutboxCall.Reply Failure (Set Fact) where
  pre κ c := c.worker = worker ∧ Fact.needed κ c.statement
  meets _ _ _ := True
  learn κ c r := κ ∪ Fact.gained κ c.statement r

section Safe
variable (worker : ℕ) (config : OutboxConfig) (event : CacheInvalidationOutbox) {κ : Set Fact}

theorem diligence_growing : ((diligence worker).comap (OutboxCall.mk worker)).Growing where
  learn κ c r := Set.subset_union_left
  pre κ κ' c hle hpre := by
    obtain ⟨hworker, hneeded⟩ := hpre
    refine ⟨hworker, ?_⟩
    cases c with
    | invalidateShop id shopId =>
      obtain ⟨hclaimed, cacheKey, hkey, hparse⟩ := hneeded
      exact ⟨hle hclaimed, cacheKey, hle hkey, hparse⟩
    | scheduleDelayedStage id next => exact hle hneeded
    | markCompleted id => exact hle hneeded
    | _ => trivial

theorem handleFailure_diligent (e : Failure) :
    ((diligence worker).comap (OutboxCall.mk worker)).Safe (handleFailure config event e) κ := by
  apply (diligence_growing worker).safe_of_calls
  simp [handleFailure, diligence, Fact.needed]

theorem invalidateAndAdvance_diligent (hkey : Fact.key event.id event.cacheKey ∈ κ)
    (hclaimed : Fact.claimed event.id ∈ κ)
    (hdelayed : event.stage ≠ some stageInitial → Fact.claimedDelayed event.id ∈ κ) :
    ((diligence worker).comap (OutboxCall.mk worker)).Safe (invalidateAndAdvance config event) κ := by
  simp only [invalidateAndAdvance, Logic.Safe, Logic.wp_ite]
  refine ⟨fun _ => trivial, fun _ => ?_⟩
  unfold requireShopId
  split
  swap
  · trivial
  next shopId hparse =>
    refine (Logic.wp_perform_bind _ _).mpr ⟨⟨rfl, hclaimed, event.cacheKey, hkey, hparse⟩,
      fun _ _ => ?_, fun e _ => trivial⟩
    refine (Logic.wp_ite _ _ _).mpr ⟨fun hstage => ?_, fun hstage => ?_⟩
    · have hcalls : (do
          let now ← perform OutboxStatement.localNow
          let _ ← perform
            (OutboxStatement.scheduleDelayedStage event.id
              (now + longMul config.doubleDeleteDelayMs 1000000))
          return () : OutboxProgram Unit).Calls (((diligence worker).comap (OutboxCall.mk worker)).pre
            (κ ∪ Fact.gained κ (.invalidateShop event.id shopId) (.ok ()))) := by
        simp [diligence, Fact.needed, Fact.gained]
      exact (diligence_growing worker).safe_of_calls hcalls
    · have hcalls : (do
          let _ ← perform (OutboxStatement.markCompleted event.id)
          return () : OutboxProgram Unit).Calls (((diligence worker).comap (OutboxCall.mk worker)).pre
            (κ ∪ Fact.gained κ (.invalidateShop event.id shopId) (.ok ()))) := by
        simp [diligence, Fact.needed, Fact.gained, hdelayed hstage]
      exact (diligence_growing worker).safe_of_calls hcalls

theorem processOne_diligent (hkey : Fact.key event.id event.cacheKey ∈ κ)
    (hdelayed : event.stage ≠ some stageInitial → Fact.delayed event.id ∈ κ) :
    ((diligence worker).comap (OutboxCall.mk worker)).Safe (processOne config event) κ := by
  refine (Logic.wp_perform_bind _ _).mpr ⟨⟨rfl, trivial⟩, fun now _ => ?_, fun e _ => trivial⟩
  refine (Logic.wp_perform_bind _ _).mpr ⟨⟨rfl, trivial⟩, fun n _ => ?_, fun e _ => trivial⟩
  refine (Logic.wp_ite _ _ _).mpr ⟨fun _ => trivial, fun hn => ?_⟩
  obtain rfl : n = 1 := not_not.mp hn
  apply (diligence_growing worker).safe_tryCatch
  · apply invalidateAndAdvance_diligent
    · simp [diligence, hkey]
    · simp [diligence, Fact.gained]
    · intro hstage
      simp [diligence, Fact.gained, hdelayed hstage]
  · intro κ' e _
    exact handleFailure_diligent worker config event e

theorem processDueEvents_diligent : (diligence worker).Safe
    ((processDueEvents config).lift (OutboxCall.mk worker)) κ := by
  rw [Logic.Safe, Logic.wp_lift]
  refine (Logic.wp_perform_bind _ _).mpr ⟨⟨rfl, trivial⟩, fun now _ => ?_, fun e _ => trivial⟩
  refine (Logic.wp_perform_bind _ _).mpr ⟨⟨rfl, trivial⟩, fun n _ => ?_, fun e _ => trivial⟩
  refine (Logic.wp_perform_bind _ _).mpr ⟨⟨rfl, trivial⟩, fun events _ => ?_, fun e _ => trivial⟩
  apply (diligence_growing worker).safe_forEach
  intro κ' event hevent hle
  apply processOne_diligent
  · exact hle (.inr ⟨event, hevent, .inl rfl⟩)
  · exact fun hstage => hle (.inr ⟨event, hevent, .inr ⟨hstage, rfl⟩⟩)

end Safe

section Rows

/-- Everything a statement can do to a row that it changes. -/
inductive OutboxStatement.Changes :
    OutboxStatement → CacheInvalidationOutbox → CacheInvalidationOutbox → Prop
  | recover {now : ℤ} {r : CacheInvalidationOutbox} (status : r.status = .processing) :
      Changes (.recoverExpiredClaims now) r
        { r with status := .pending, lastError := some "processing lease expired" }
  | claim {deadline : ℤ} {r : CacheInvalidationOutbox} (status : r.status = .pending) :
      Changes (.claim r.id deadline) r
        { r with status := .processing, nextRetryTime := datetime deadline, lastError := none }
  | delay {next : ℤ} {r : CacheInvalidationOutbox} (status : r.status = .processing) :
      Changes (.scheduleDelayedStage r.id next) r
        { r with status := .pending, stage := some stageDelayed, retryCount := some 0,
                 nextRetryTime := datetime next, lastError := none }
  | complete {r : CacheInvalidationOutbox} (status : r.status = .processing) :
      Changes (.markCompleted r.id) r { r with status := .completed, lastError := none }
  | retry {count next : ℤ} {error : String} {r : CacheInvalidationOutbox}
      (status : r.status = .processing) :
      Changes (.markRetry r.id count next error) r
        { r with status := .pending, retryCount := some count, nextRetryTime := datetime next,
                 lastError := some error }
  | giveUp {count : ℤ} {error : String} {r : CacheInvalidationOutbox}
      (status : r.status = .processing) :
      Changes (.markDead r.id count error) r
        { r with status := .dead, retryCount := some count, lastError := some error }

def OutboxStatement.Leaves (s : OutboxStatement) (r r' : CacheInvalidationOutbox) : Prop :=
  r' = r ∨ s.Changes r r'

variable {w w' : OutboxWorld} {c : OutboxCall} {f : OutboxChoice} {r : Except Failure c.Reply}

theorem row_update_leaves {t : OutboxTable} {cond : CacheInvalidationOutbox → Bool}
    {set : Assignment} {s : OutboxStatement} (h : ∀ r, cond r = true → s.Changes r (set.apply r))
    (id : Long) : Option.Rel s.Leaves (t.row id) ((t.update cond set).2.row id) := by
  rw [OutboxTable.row_update]
  cases t.row id with
  | none => exact .none
  | some r =>
    refine .some ?_
    by_cases hr : cond r = true
    · change s.Leaves r (if cond r = true then set.apply r else r)
      rw [if_pos hr]
      exact .inr (h r hr)
    · change s.Leaves r (if cond r = true then set.apply r else r)
      rw [if_neg hr]
      exact .inl rfl

theorem row_refl_leaves (t : OutboxTable) (s : OutboxStatement) (id : Long) :
    Option.Rel s.Leaves (t.row id) (t.row id) := by
  cases t.row id with
  | none => exact .none
  | some r => exact .some (.inl rfl)

theorem row_answer_leaves (w : OutboxWorld) (c : OutboxCall) (id : Long) :
    Option.Rel c.statement.Leaves (w.outbox.row id) ((w.answer c).2.outbox.row id) := by
  obtain ⟨worker, s⟩ := c
  cases s with
  | localNow => exact row_refl_leaves _ _ id
  | findDue now limit => exact row_refl_leaves _ _ id
  | invalidateShop eventId shopId => exact row_refl_leaves _ _ id
  | recoverExpiredClaims now =>
    refine row_update_leaves (fun r hr => ?_) id
    exact .recover (of_decide_eq_true hr).1
  | claim id' deadline =>
    refine row_update_leaves (fun r hr => ?_) id
    obtain ⟨rfl, hstatus⟩ := of_decide_eq_true hr
    exact .claim hstatus
  | scheduleDelayedStage id' next =>
    refine row_update_leaves (fun r hr => ?_) id
    obtain ⟨rfl, hstatus⟩ := of_decide_eq_true hr
    exact .delay hstatus
  | markCompleted id' =>
    refine row_update_leaves (fun r hr => ?_) id
    obtain ⟨rfl, hstatus⟩ := of_decide_eq_true hr
    exact .complete hstatus
  | markRetry id' count next error =>
    refine row_update_leaves (fun r hr => ?_) id
    obtain ⟨rfl, hstatus⟩ := of_decide_eq_true hr
    exact .retry hstatus
  | markDead id' count error =>
    refine row_update_leaves (fun r hr => ?_) id
    obtain ⟨rfl, hstatus⟩ := of_decide_eq_true hr
    exact .giveUp hstatus

/-- What is never undone: the shop of an event, its second stage, its end. -/
structure Advances (r r' : CacheInvalidationOutbox) : Prop where
  cacheKey : r'.cacheKey = r.cacheKey
  stage : r.stage = some stageDelayed → r'.stage = some stageDelayed
  completed : r.status = .completed → r'.status = .completed
  dead : r.status = .dead → r'.status = .dead

theorem OutboxStatement.Leaves.advances {s : OutboxStatement} {r r' : CacheInvalidationOutbox}
    (h : s.Leaves r r') : Advances r r' := by
  rcases h with rfl | h
  · exact ⟨rfl, id, id, id⟩
  · cases h with
    | delay status => exact ⟨rfl, fun _ => rfl, by simp [status], by simp [status]⟩
    | _ => exact ⟨rfl, id, by simp [*], by simp [*]⟩

end Rows

/-- The history shows what a worker knows. -/
def Fact.Shown (w : OutboxWorld) (notes : List OutboxNote) (worker : ℕ) : Fact → Prop
  | .key id cacheKey => ∃ r, w.outbox.row id = some r ∧ r.cacheKey = cacheKey
  | .delayed id => ∃ a shopId, (FirstStage a id shopId).Sublist notes
  | .claimed id => ∃ stage, OutboxNote.claimed worker id stage ∈ notes
  | .claimedDelayed id => ∃ a shopId,
      (FirstStage a id shopId ++ [OutboxNote.claimed worker id (some stageDelayed)]).Sublist notes
  | .invalidated id => ∃ stage shopId,
      [OutboxNote.claimed worker id stage, OutboxNote.invalidated worker id shopId].Sublist notes
  | .invalidatedDelayed id => ∃ a shopId shopId',
      (FirstStage a id shopId ++ SecondStage worker id shopId').Sublist notes

/-- A row is at stage 1 only after the first stage, and completed only after both. -/
structure Staged (w : OutboxWorld) (notes : List OutboxNote) : Prop where
  stage : ∀ id r, w.outbox.row id = some r → r.stage = some stageInitial ∨
    r.stage = some stageDelayed ∧ ∃ a shopId, (FirstStage a id shopId).Sublist notes
  completed : ∀ id r, w.outbox.row id = some r → r.status = .completed →
    ∃ a b shopId shopId', (FirstStage a id shopId ++ SecondStage b id shopId').Sublist notes
  claimed : ∀ a id stage, OutboxNote.claimed a id stage ∈ notes → stage = some stageInitial ∨
    stage = some stageDelayed ∧ ∃ r, w.outbox.row id = some r ∧ r.stage = some stageDelayed
  delayed : ∀ a id, OutboxNote.delayed a id ∈ notes →
    ∃ r, w.outbox.row id = some r ∧ r.stage = some stageDelayed
  shop : ∀ a id shopId, OutboxNote.invalidated a id shopId ∈ notes →
    ∃ r, w.outbox.row id = some r ∧ longValueOf r.cacheKey = some shopId

section Notes
variable {w w' : OutboxWorld} {notes later : List OutboxNote} {worker : ℕ} {id : Long}

/-- The rows that were there have only gone forward. -/
def Forward (w w' : OutboxWorld) : Prop :=
  ∀ id r, w.outbox.row id = some r → ∃ r', w'.outbox.row id = some r' ∧ Advances r r'

theorem Forward.refl (w : OutboxWorld) : Forward w w := by
  intro id r hr
  exact ⟨r, hr, rfl, fun h => h, fun h => h, fun h => h⟩

theorem Forward.trans {w₁ w₂ w₃ : OutboxWorld} (h : Forward w₁ w₂) (h' : Forward w₂ w₃) :
    Forward w₁ w₃ := by
  intro id r hr
  obtain ⟨r', hr', hadv⟩ := h id r hr
  obtain ⟨r'', hr'', hadv'⟩ := h' id r' hr'
  refine ⟨r'', hr'', hadv'.cacheKey.trans hadv.cacheKey, fun hs => ?_, fun hs => ?_, fun hs => ?_⟩
  · exact hadv'.stage (hadv.stage hs)
  · exact hadv'.completed (hadv.completed hs)
  · exact hadv'.dead (hadv.dead hs)

theorem Fact.Shown.mono {fact : Fact} (h : fact.Shown w notes worker) (hw : Forward w w') :
    fact.Shown w' (notes ++ later) worker := by
  have hgrow : notes.Sublist (notes ++ later) := List.sublist_append_left notes later
  cases fact with
  | key id cacheKey =>
    obtain ⟨r, hr, hkey⟩ := h
    obtain ⟨r', hr', hadv⟩ := hw id r hr
    exact ⟨r', hr', hadv.cacheKey.trans hkey⟩
  | delayed id =>
    obtain ⟨a, shopId, hsub⟩ := h
    exact ⟨a, shopId, hsub.trans hgrow⟩
  | claimed id =>
    obtain ⟨stage, hmem⟩ := h
    exact ⟨stage, List.mem_append_left _ hmem⟩
  | claimedDelayed id =>
    obtain ⟨a, shopId, hsub⟩ := h
    exact ⟨a, shopId, hsub.trans hgrow⟩
  | invalidated id =>
    obtain ⟨stage, shopId, hsub⟩ := h
    exact ⟨stage, shopId, hsub.trans hgrow⟩
  | invalidatedDelayed id =>
    obtain ⟨a, shopId, shopId', hsub⟩ := h
    exact ⟨a, shopId, shopId', hsub.trans hgrow⟩

theorem Forward.at_delayed (hw : Forward w w')
    (h : ∃ r, w.outbox.row id = some r ∧ r.stage = some stageDelayed) :
    ∃ r, w'.outbox.row id = some r ∧ r.stage = some stageDelayed := by
  obtain ⟨r, hr, hstage⟩ := h
  obtain ⟨r', hr', hadv⟩ := hw id r hr
  exact ⟨r', hr', hadv.stage hstage⟩

theorem Staged.at_delayed (h : Staged w notes) {a : ℕ} {shopId : Long}
    (hsub : (FirstStage a id shopId).Sublist notes) :
    ∃ r, w.outbox.row id = some r ∧ r.stage = some stageDelayed :=
  h.delayed a id (hsub.subset (by simp [FirstStage]))

/-- A statement keeps the stages in order, if its worker knows what it needs to know and the notes
say what it has done. -/
theorem Staged.append (h : Staged w notes) (hw : Forward w w')
    (hstage : ∀ id r, w'.outbox.row id = some r → r.stage = some stageInitial ∨
      r.stage = some stageDelayed ∧ ∃ a shopId, (FirstStage a id shopId).Sublist (notes ++ later))
    (hcompleted : ∀ id r, w'.outbox.row id = some r → r.status = .completed →
      ∃ a b shopId shopId', (FirstStage a id shopId ++ SecondStage b id shopId').Sublist
        (notes ++ later))
    (hclaimed : ∀ a id stage, OutboxNote.claimed a id stage ∈ later → stage = some stageInitial ∨
      stage = some stageDelayed ∧ ∃ r, w'.outbox.row id = some r ∧ r.stage = some stageDelayed)
    (hdelayed : ∀ a id, OutboxNote.delayed a id ∈ later →
      ∃ r, w'.outbox.row id = some r ∧ r.stage = some stageDelayed)
    (hshop : ∀ a id shopId, OutboxNote.invalidated a id shopId ∈ later →
      ∃ r, w'.outbox.row id = some r ∧ longValueOf r.cacheKey = some shopId) :
    Staged w' (notes ++ later) where
  stage := hstage
  completed := hcompleted
  claimed a id stage hmem := by
    rcases List.mem_append.mp hmem with hmem | hmem
    · exact (h.claimed a id stage hmem).imp_right fun hd => ⟨hd.1, hw.at_delayed hd.2⟩
    · exact hclaimed a id stage hmem
  delayed a id hmem := by
    rcases List.mem_append.mp hmem with hmem | hmem
    · exact hw.at_delayed (h.delayed a id hmem)
    · exact hdelayed a id hmem
  shop a id shopId hmem := by
    rcases List.mem_append.mp hmem with hmem | hmem
    · obtain ⟨r, hr, hparse⟩ := h.shop a id shopId hmem
      obtain ⟨r', hr', hadv⟩ := hw id r hr
      exact ⟨r', hr', hadv.cacheKey ▸ hparse⟩
    · exact hshop a id shopId hmem

end Notes

section Exec
variable {w w' : OutboxWorld} {c : OutboxCall} {f : OutboxChoice} {notes : List OutboxNote}
  {κ : Set Fact} {id : Long}

theorem note_fails (c : OutboxCall) (e : Failure) (w : OutboxWorld) : c.note (.fails e) w = [] := by
  obtain ⟨worker, s⟩ := c
  cases s with
  | claim id deadline => cases hr : w.outbox.row id <;> simp [OutboxCall.note, OutboxChoice.reaches, hr]
  | scheduleDelayedStage id next =>
    cases hr : w.outbox.row id <;> simp [OutboxCall.note, OutboxChoice.reaches, hr]
  | _ => rfl

inductive OutboxCall.Notes (w : OutboxWorld) : OutboxCall → OutboxNote → Prop
  | claimed {worker : ℕ} {id : Long} {deadline : ℤ} {r : CacheInvalidationOutbox}
      (row : w.outbox.row id = some r) :
      Notes w ⟨worker, .claim id deadline⟩ (.claimed worker id r.stage)
  | delayed {worker : ℕ} {id : Long} {next : ℤ} {r : CacheInvalidationOutbox}
      (row : w.outbox.row id = some r) (status : r.status = .processing) :
      Notes w ⟨worker, .scheduleDelayedStage id next⟩ (.delayed worker id)
  | invalidated {worker : ℕ} {id shopId : Long} :
      Notes w ⟨worker, .invalidateShop id shopId⟩ (.invalidated worker id shopId)

theorem notes_of_mem_note {n : OutboxNote} (h : n ∈ c.note f w) : c.Notes w n := by
  obtain ⟨worker, s⟩ := c
  cases s with
  | claim id' deadline =>
    cases hr : w.outbox.row id' with
    | none => simp [OutboxCall.note, hr] at h
    | some r =>
      simp only [OutboxCall.note, hr] at h
      split at h
      · obtain rfl := List.mem_singleton.mp h
        exact .claimed hr
      · cases h
  | scheduleDelayedStage id' next =>
    cases hr : w.outbox.row id' with
    | none => simp [OutboxCall.note, hr] at h
    | some r =>
      simp only [OutboxCall.note, hr] at h
      split at h
      next hstatus =>
        obtain rfl := List.mem_singleton.mp h
        exact .delayed hr hstatus.2.1
      next => cases h
  | invalidateShop id' shopId' =>
    cases f with
    | performed =>
      obtain rfl := List.mem_singleton.mp h
      exact .invalidated
    | _ => simp [OutboxCall.note] at h
  | _ => simp [OutboxCall.note] at h

theorem row_of_answer_row {r' : CacheInvalidationOutbox}
    (h : (w.answer c).2.outbox.row id = some r') :
    ∃ r, w.outbox.row id = some r ∧ c.statement.Leaves r r' := by
  have hrel := row_answer_leaves w c id
  rw [h] at hrel
  cases hr : w.outbox.row id with
  | none => rw [hr] at hrel; cases hrel
  | some r =>
    rw [hr] at hrel
    cases hrel with
    | some hleaves => exact ⟨r, rfl, hleaves⟩

theorem answer_row_of_row {r : CacheInvalidationOutbox} (h : w.outbox.row id = some r) :
    ∃ r', (w.answer c).2.outbox.row id = some r' ∧ c.statement.Leaves r r' := by
  have hrel := row_answer_leaves w c id
  rw [h] at hrel
  cases hr' : (w.answer c).2.outbox.row id with
  | none => rw [hr'] at hrel; cases hrel
  | some r' =>
    rw [hr'] at hrel
    cases hrel with
    | some hleaves => exact ⟨r', rfl, hleaves⟩

theorem forward_answer (w : OutboxWorld) (c : OutboxCall) : Forward w (w.answer c).2 := by
  intro id r hr
  obtain ⟨r', hr', hleaves⟩ := answer_row_of_row (c := c) hr
  exact ⟨r', hr', hleaves.advances⟩

theorem Staged.answer (h : Staged w notes) (hκ : ∀ fact ∈ κ, fact.Shown w notes c.worker)
    (hneeded : Fact.needed κ c.statement) (hf : f.reaches = true) :
    Staged (w.answer c).2 (notes ++ c.note f w) := by
  have hw := forward_answer w c
  have hgrow : notes.Sublist (notes ++ c.note f w) := List.sublist_append_left notes _
  refine h.append hw (fun id r' hr' => ?_) (fun id r' hr' hend => ?_) (fun a id stage hmem => ?_)
    (fun a id hmem => ?_) fun a id shopId hmem => ?_
  · obtain ⟨r, hr, hleaves⟩ := row_of_answer_row hr'
    have hbefore : r.stage = some stageInitial ∨ r.stage = some stageDelayed ∧
        ∃ a shopId, (FirstStage a id shopId).Sublist (notes ++ c.note f w) := by
      refine (h.stage id r hr).imp_right ?_
      rintro ⟨hstage, a, shopId, hsub⟩
      exact ⟨hstage, a, shopId, hsub.trans hgrow⟩
    rcases hleaves with rfl | hchanges
    · exact hbefore
    · obtain ⟨worker, s⟩ := c
      cases hchanges with
      | @delay next r hstatus =>
        obtain rfl : r.id = id := OutboxTable.row_id hr
        refine .inr ⟨rfl, ?_⟩
        by_cases hstage : r.stage = some stageInitial
        · -- the worker claimed the row at stage 0, for it has not been at stage 1 yet
          obtain ⟨stage, shopId, hsub⟩ := hκ _ hneeded
          have hclaim : stage = some stageInitial := by
            refine (h.claimed worker r.id stage (hsub.subset (by simp))).resolve_right ?_
            rintro ⟨-, r₁, hr₁, hstage₁⟩
            obtain rfl : r = r₁ := Option.some.inj (hr.symm.trans hr₁)
            exact absurd (hstage.symm.trans hstage₁) (by decide)
          have hnote : OutboxCall.note ⟨worker, .scheduleDelayedStage r.id next⟩ f w =
              [.delayed worker r.id] := by
            simp [OutboxCall.note, hr, hf, hstatus, hstage]
          rw [hnote]
          subst hclaim
          exact ⟨worker, shopId, hsub.append (List.Sublist.refl [OutboxNote.delayed worker r.id])⟩
        · exact (hbefore.resolve_left hstage).2
      | _ => exact hbefore
  · obtain ⟨r, hr, hleaves⟩ := row_of_answer_row hr'
    rcases hleaves with rfl | hchanges
    · obtain ⟨a, b, shopId, shopId', hsub⟩ := h.completed id _ hr hend
      exact ⟨a, b, shopId, shopId', hsub.trans hgrow⟩
    · obtain ⟨worker, s⟩ := c
      cases hchanges with
      | complete hstatus =>
        obtain rfl : r.id = id := OutboxTable.row_id hr
        obtain ⟨a, shopId, shopId', hsub⟩ := hκ _ hneeded
        exact ⟨a, worker, shopId, shopId', hsub.trans hgrow⟩
      | _ => cases hend
  · cases notes_of_mem_note hmem with
    | claimed hr =>
      refine (h.stage id _ hr).imp_right fun hstage => ⟨hstage.1, ?_⟩
      exact hw.at_delayed ⟨_, hr, hstage.1⟩
  · cases notes_of_mem_note hmem with
    | delayed hr hstatus =>
      have hid := OutboxTable.row_id hr
      refine ⟨_, (OutboxTable.row_update _ id _ _).trans (congrArg _ hr), ?_⟩
      simp [OutboxTable.atStatus, hid, hstatus]
  · cases notes_of_mem_note hmem with
    | invalidated =>
      obtain ⟨-, cacheKey, hkey, hparse⟩ := hneeded
      obtain ⟨r, hr, rfl⟩ := hκ _ hkey
      obtain ⟨r', hr', hadv⟩ := hw id r hr
      exact ⟨r', hr', hadv.cacheKey ▸ hparse⟩

theorem gained_error (κ : Set Fact) (s : OutboxStatement) (e : Failure) :
    Fact.gained κ s (.error e) = ∅ := by
  cases s <;> rfl

theorem row_of_mem_findDue {t : OutboxTable} {now : ℤ} {limit : ℕ} {event : CacheInvalidationOutbox}
    (h : event ∈ t.findDue now limit) : t.row event.id = some event := by
  have hmem : event ∈ t.rows :=
    (List.mem_filter.mp ((List.mem_insertionSort _).mp (List.mem_of_mem_take h))).1
  cases hr : t.row event.id with
  | none => simpa using List.find?_eq_none.mp hr event hmem
  | some r =>
    rw [List.inj_on_of_nodup_map t.unique (List.mem_of_find?_eq_some hr) hmem
      (OutboxTable.row_id hr)]

theorem Staged.gained (h : Staged w notes) (hκ : ∀ fact ∈ κ, fact.Shown w notes c.worker)
    (hneeded : Fact.needed κ c.statement) :
    ∀ fact ∈ Fact.gained κ c.statement (w.answer c).1,
      fact.Shown (w.answer c).2 (notes ++ c.note .performed w) c.worker := by
  obtain ⟨worker, s⟩ := c
  intro fact hfact
  cases s with
  | findDue now limit =>
    obtain ⟨event, hevent, hcase⟩ := hfact
    have hrow : w.outbox.row event.id = some event := row_of_mem_findDue hevent
    rcases hcase with rfl | ⟨hstage, rfl⟩
    · exact ⟨event, hrow, rfl⟩
    · obtain ⟨-, a, shopId, hsub⟩ := (h.stage event.id event hrow).resolve_left hstage
      exact ⟨a, shopId, hsub.trans (List.sublist_append_left _ _)⟩
  | claim id deadline =>
    obtain ⟨hone, hcase⟩ := hfact
    obtain ⟨r, hr, hpending⟩ := OutboxTable.claim_eq_one.mp hone
    have hnote : OutboxCall.note ⟨worker, .claim id deadline⟩ .performed w =
        [.claimed worker id r.stage] := by
      simp [OutboxCall.note, hr, hpending, OutboxChoice.reaches]
    rw [hnote]
    rcases hcase with rfl | ⟨hdelayed, rfl⟩
    · exact ⟨r.stage, by simp⟩
    · obtain ⟨a, shopId, hsub⟩ := hκ _ hdelayed
      obtain ⟨r₁, hr₁, hstage⟩ := h.at_delayed hsub
      obtain rfl : r = r₁ := Option.some.inj (hr.symm.trans hr₁)
      rw [hstage]
      exact ⟨a, shopId, hsub.append (List.Sublist.refl _)⟩
  | invalidateShop id shopId =>
    have hnote : OutboxCall.note ⟨worker, .invalidateShop id shopId⟩ .performed w =
        [.invalidated worker id shopId] := rfl
    rw [hnote]
    rcases hfact with rfl | ⟨hclaimed, rfl⟩
    · obtain ⟨stage, hmem⟩ := hκ _ hneeded.1
      have hsub : [OutboxNote.claimed worker id stage].Sublist notes := List.singleton_sublist.mpr hmem
      exact ⟨stage, shopId, hsub.append (List.Sublist.refl [OutboxNote.invalidated worker id shopId])⟩
    · obtain ⟨a, shopId', hsub⟩ := hκ _ hclaimed
      refine ⟨a, shopId', shopId, ?_⟩
      exact hsub.append (List.Sublist.refl [OutboxNote.invalidated worker id shopId])
  | _ => cases hfact

end Exec

abbrev RecordedPool :=
  Config (OutboxWorld × List OutboxNote) OutboxCall OutboxCall.Reply Failure ℕ

/-- The stages are in order, and every worker knows only what the history shows. -/
structure InOrder (c : RecordedPool) : Prop where
  staged : Staged c.shared.1 c.shared.2
  knows : ∀ t ∈ c.threads, ∃ κ, (∀ fact ∈ κ, fact.Shown c.shared.1 c.shared.2 t.tag) ∧
    (diligence t.tag).Safe t.program κ

section Run
variable {config : OutboxConfig} {c c' : RecordedPool} {m : Move OutboxChoice OutboxAction}

theorem Staged.exec {w w' : OutboxWorld} {cmd : OutboxCall} {f : OutboxChoice}
    {r : Except Failure cmd.Reply} {notes : List OutboxNote} {κ : Set Fact} (h : Staged w notes)
    (hκ : ∀ fact ∈ κ, fact.Shown w notes cmd.worker) (hneeded : Fact.needed κ cmd.statement)
    (hexec : OutboxWorld.exec cmd f w = some (r, w')) :
    Staged w' (notes ++ cmd.note f w) ∧ Forward w w' ∧
      ∀ fact ∈ κ ∪ Fact.gained κ cmd.statement r,
        fact.Shown w' (notes ++ cmd.note f w) cmd.worker := by
  cases f with
  | performed =>
    obtain ⟨rfl, rfl⟩ := Prod.mk.inj (Option.some.inj hexec)
    refine ⟨h.answer hκ hneeded rfl, forward_answer w cmd, fun fact hfact => ?_⟩
    rcases hfact with hfact | hfact
    · exact (hκ fact hfact).mono (forward_answer w cmd)
    · exact h.gained hκ hneeded fact hfact
  | fails e =>
    cases hexec
    rw [note_fails, List.append_nil, gained_error, Set.union_empty]
    exact ⟨h, Forward.refl w, hκ⟩
  | failsAfter e =>
    cases hexec
    rw [gained_error, Set.union_empty]
    exact ⟨h.answer hκ hneeded rfl, forward_answer w cmd,
      fun fact hfact => (hκ fact hfact).mono (forward_answer w cmd)⟩

theorem Staged.act {w w' : OutboxWorld} {notes : List OutboxNote} {a : OutboxAction}
    {started : List (Thread OutboxCall OutboxCall.Reply Failure ℕ)} (h : Staged w notes)
    (hact : (outboxWorkers config).act a w = some (w', started)) :
    Staged w' notes ∧ Forward w w' ∧ ∀ t ∈ started, (diligence t.tag).Safe t.program ∅ := by
  cases a with
  | scan =>
    cases hact
    refine ⟨⟨h.stage, h.completed, h.claimed, h.delayed, h.shop⟩, Forward.refl w, fun t ht => ?_⟩
    obtain rfl := List.mem_singleton.mp ht
    exact processDueEvents_diligent w.nextWorker config
  | tick clock =>
    cases hact
    exact ⟨⟨h.stage, h.completed, h.claimed, h.delayed, h.shop⟩, Forward.refl w, by simp⟩
  | recordShopInvalidation id shopId =>
    simp only [outboxWorkers] at hact
    split at hact
    swap
    · cases hact
    next hfresh =>
      cases hact
      set w' : OutboxWorld := { w with outbox := w.outbox.insert (newEvent id shopId w.clock) hfresh }
      have hrow : ∀ id', w'.outbox.row id' =
          if id = id' then some (newEvent id shopId w.clock) else w.outbox.row id' :=
        fun id' => OutboxTable.row_insert _ id' hfresh
      have hforward : Forward w w' := by
        intro id' r hr
        have hne : id ≠ id' := by
          rintro rfl
          apply hfresh
          exact List.mem_map.mpr ⟨r, List.mem_of_find?_eq_some hr, OutboxTable.row_id hr⟩
        refine ⟨r, ?_, rfl, fun h => h, fun h => h, fun h => h⟩
        rw [hrow, if_neg hne, hr]
      have hstaged : Staged w' (notes ++ []) := by
        refine h.append hforward (fun id' r hr => ?_) (fun id' r hr hend => ?_) (by simp) (by simp)
          (by simp)
        · rw [hrow] at hr
          split at hr
          · obtain rfl := Option.some.inj hr
            exact .inl rfl
          · rw [List.append_nil]
            exact h.stage id' r hr
        · rw [hrow] at hr
          split at hr
          · obtain rfl := Option.some.inj hr
            cases hend
          · rw [List.append_nil]
            exact h.completed id' r hr hend
      rw [List.append_nil] at hstaged
      exact ⟨hstaged, hforward, by simp⟩

theorem InOrder.step (h : InOrder c) (hfires : (outboxHistory config).Fires c m c') :
    InOrder c' ∧ Forward c.shared.1 c'.shared.1 := by
  obtain ⟨hstaged, hknows⟩ := h
  cases hfires with
  | @run i f tag cmd k r s hi hexec =>
    obtain ⟨hexec', hnotes⟩ := Machine.exec_recording hexec
    obtain ⟨w', notes'⟩ := s
    obtain rfl : notes' = c.shared.2 ++ cmd.note f c.shared.1 := hnotes
    obtain ⟨κ, hκ, ⟨hworker, hneeded⟩, hsafe⟩ := hknows _ (List.mem_of_getElem? hi)
    obtain rfl : cmd.worker = tag := hworker
    obtain ⟨hstaged', hforward, hshown⟩ := hstaged.exec hκ hneeded hexec'
    refine ⟨⟨hstaged', fun t ht => ?_⟩, hforward⟩
    rcases Machine.mem_set_thread ht with rfl | ⟨j, -, hj⟩
    · exact ⟨_, hshown, hsafe r trivial⟩
    · obtain ⟨κ', hκ', hsafe'⟩ := hknows t (List.mem_of_getElem? hj)
      exact ⟨κ', fun fact hfact => (hκ' fact hfact).mono hforward, hsafe'⟩
  | crash bound =>
    exact ⟨⟨hstaged, fun t ht => hknows t (List.mem_of_mem_eraseIdx ht)⟩, Forward.refl _⟩
  | @act a s started hact =>
    obtain ⟨⟨w', started'⟩, hact', hq⟩ := Option.map_eq_some_iff.mp hact
    cases hq
    obtain ⟨hstaged', hforward, hstarted⟩ := hstaged.act hact'
    refine ⟨⟨hstaged', fun t ht => ?_⟩, hforward⟩
    rcases List.mem_append.mp ht with ht | ht
    · obtain ⟨κ, hκ, hsafe⟩ := hknows t ht
      refine ⟨κ, fun fact hfact => ?_, hsafe⟩
      have hmono : fact.Shown w' (c.shared.2 ++ []) t.tag := (hκ fact hfact).mono hforward
      rwa [List.append_nil] at hmono
    · exact ⟨∅, by simp, hstarted t ht⟩

theorem InOrder.run (h : InOrder c)
    (hrun : (outboxHistory config).Run (fun _ _ => True) c c') :
    InOrder c' ∧ Forward c.shared.1 c'.shared.1 := by
  refine hrun.invariant (I := fun d => InOrder d ∧ Forward c.shared.1 d.shared.1)
    ⟨h, Forward.refl _⟩ ?_
  rintro d m d' ⟨hd, hforward⟩ - hfires
  obtain ⟨hd', hstep⟩ := hd.step hfires
  exact ⟨hd', hforward.trans hstep⟩

def emptyPool (clock : ℤ) : RecordedPool := ⟨(.start clock ⟨[], List.nodup_nil⟩, []), []⟩

theorem inOrder_emptyPool (clock : ℤ) : InOrder (emptyPool clock) where
  staged := {
    stage := fun id r hr => by cases hr
    completed := fun id r hr => by cases hr
    claimed := by simp [emptyPool]
    delayed := by simp [emptyPool]
    shop := by simp [emptyPool] }
  knows := by simp [emptyPool]

/-- The notes show the first stage of the event, and after it the second, for the event's shop. -/
def BothStages (event : CacheInvalidationOutbox) (notes : List OutboxNote) : Prop :=
  ∃ a b shopId, longValueOf event.cacheKey = some shopId ∧
    (FirstStage a event.id shopId ++ SecondStage b event.id shopId).Sublist notes

theorem Staged.bothStages {w : OutboxWorld} {notes : List OutboxNote} (h : Staged w notes)
    {id : Long} {r : CacheInvalidationOutbox} (hr : w.outbox.row id = some r)
    (hend : r.status = .completed) : BothStages r notes := by
  obtain ⟨a, b, shopId, shopId', hsub⟩ := h.completed id r hr hend
  obtain rfl : r.id = id := OutboxTable.row_id hr
  have hshop : ∀ worker s, OutboxNote.invalidated worker r.id s ∈ notes →
      longValueOf r.cacheKey = some s := by
    intro worker s hmem
    obtain ⟨r', hr', hparse⟩ := h.shop worker r.id s hmem
    obtain rfl : r = r' := Option.some.inj (hr.symm.trans hr')
    exact hparse
  have hfirst : longValueOf r.cacheKey = some shopId :=
    hshop a shopId (hsub.subset (by simp [FirstStage]))
  have hsecond : longValueOf r.cacheKey = some shopId' :=
    hshop b shopId' (hsub.subset (by simp [SecondStage]))
  obtain rfl : shopId = shopId' := Option.some.inj (hfirst.symm.trans hsecond)
  exact ⟨a, b, shopId, hfirst, hsub⟩

/-- Whatever the workers do, a completed event has gone through both stages, and no event goes back
from stage 1 or out of its end. -/
theorem completed_after_both_stages (config : OutboxConfig) (clock : ℤ) (c : RecordedPool)
    (h : (outboxHistory config).Run (fun _ _ => True) (emptyPool clock) c) :
    (∀ id r, c.shared.1.outbox.row id = some r → r.status = .completed →
      BothStages r c.shared.2) ∧
    ∀ c' : OutboxPool, (outboxWorkers config).Run (fun _ _ => True) c.forget c' →
      Forward c.shared.1 c'.shared := by
  obtain ⟨hin, -⟩ := (inOrder_emptyPool clock).run h
  refine ⟨fun id r hr hend => hin.staged.bothStages hr hend, fun c' hlater => ?_⟩
  obtain ⟨d, hrun, rfl⟩ := Machine.Run.remember hlater
  exact (hin.run hrun).2

/-- An event of shop 9 goes through both stages, by one scan each. -/
def invalidatedTwice : Option RecordedPool :=
  (outboxHistory defaultConfig).play (fun _ _ => true) (emptyPool 0)
    (.act (.recordShopInvalidation 1 9) :: .act .scan :: List.replicate 8 (.run 0 .performed) ++
      .act (.tick 2000000000) :: .act .scan :: List.replicate 7 (.run 1 .performed))

theorem completed_after_both_stages_invalidatedTwice : ∃ c r, invalidatedTwice = some c ∧
    c.shared.1.outbox.row 1 = some r ∧ r.status = .completed ∧ BothStages r c.shared.2 := by
  have hplay : (invalidatedTwice.bind fun c => (c.shared.1.outbox.row 1).map fun r =>
      decide (r.status = .completed)) = some true := by decide +kernel
  obtain ⟨c, hc, hrow⟩ := Option.bind_eq_some_iff.mp hplay
  obtain ⟨r, hr, hend⟩ := Option.map_eq_some_iff.mp hrow
  have hrun : (outboxHistory defaultConfig).Run (fun _ _ => True) (emptyPool 0) c :=
    Machine.run_of_play (fun _ _ _ => trivial) hc
  refine ⟨c, r, hc, hr, of_decide_eq_true hend, ?_⟩
  exact (completed_after_both_stages defaultConfig 0 c hrun).1 1 r hr (of_decide_eq_true hend)

end Run
end HmDianPing.Cache
