import HmDianPing.Cache.Outbox

/-! # Leases of outbox events

A finishing update names the event and asks for status 1, not for the claim it
belongs to. It is the claimant's own as long as no event is claimed again while an
earlier claimant can still finish it.
-/
namespace HmDianPing.Cache
open Interleaving Program

/-- A finishing update of this event. -/
def OutboxStatement.Finishes (id : Long) : OutboxStatement → Prop
  | .scheduleDelayedStage id' _ | .markCompleted id' | .markRetry id' _ _ _ | .markDead id' _ _ =>
      id' = id
  | _ => False

def learnClaim (id : Long) (claimed : Bool) :
    (s : OutboxStatement) → Except Failure s.Reply → Bool
  | .claim id' _, .ok n => if id' = id ∧ n = 1 then true else claimed
  | _, _ => claimed

@[simp] theorem learnClaim_error (id : Long) (claimed : Bool) (s : OutboxStatement) (e : Failure) :
    learnClaim id claimed s (.error e) = claimed := by
  cases s <;> rfl

@[simp] theorem learnClaim_true (id : Long) (s : OutboxStatement) (r : Except Failure s.Reply) :
    learnClaim id true s r = true := by
  cases s <;> cases r <;> simp [learnClaim]

/-- A worker finishes the event only after it has claimed it. -/
def ownership (worker : ℕ) (id : Long) : Logic OutboxCall OutboxCall.Reply Failure Bool where
  pre claimed c := c.worker = worker ∧ (c.statement.Finishes id → claimed = true)
  meets _ _ _ := True
  learn claimed c r := learnClaim id claimed c.statement r

section Safe
variable (worker : ℕ) (id : Long) (config : OutboxConfig) {claimed : Bool}
  {Q : Bool → Except Failure Unit → Prop} (event : CacheInvalidationOutbox)

theorem handleFailure_wp (e : Failure) (h : event.id = id → claimed = true)
    (hQ : ∀ b r, Q b r) :
    ((ownership worker id).comap (OutboxCall.mk worker)).wp (handleFailure config event e) Q
      claimed := by
  simp only [handleFailure, Logic.wp_ite]
  refine ⟨fun _ => ?_, fun _ => ?_⟩
  · simpa [ownership, OutboxStatement.Finishes, learnClaim, forall_except, hQ] using h
  · simpa [ownership, OutboxStatement.Finishes, learnClaim, forall_except, hQ] using h

theorem invalidateAndAdvance_wp (h : event.id = id → claimed = true) (hQ : ∀ r, Q claimed r) :
    ((ownership worker id).comap (OutboxCall.mk worker)).wp (invalidateAndAdvance config event) Q
      claimed := by
  simp only [invalidateAndAdvance, Logic.wp_ite]
  refine ⟨fun _ => hQ _, fun _ => ?_⟩
  unfold requireShopId
  split
  swap
  · exact hQ _
  refine (Logic.wp_perform_bind _ _).mpr ⟨⟨rfl, fun h => h.elim⟩, fun _ _ => ?_, fun e _ => hQ _⟩
  refine (Logic.wp_ite _ _ _).mpr ⟨fun _ => ?_, fun _ => ?_⟩
  · simpa [ownership, OutboxStatement.Finishes, learnClaim, forall_except, hQ] using h
  · simpa [ownership, OutboxStatement.Finishes, learnClaim, forall_except, hQ] using h

theorem processOne_wp (hQ : ∀ b r, Q b r) :
    ((ownership worker id).comap (OutboxCall.mk worker)).wp (processOne config event) Q
      claimed := by
  refine (Logic.wp_perform_bind _ _).mpr
    ⟨⟨rfl, fun h => h.elim⟩, fun now _ => ?_, fun e _ => hQ _ _⟩
  refine (Logic.wp_perform_bind _ _).mpr
    ⟨⟨rfl, fun h => h.elim⟩, fun n _ => ?_, fun e _ => hQ _ _⟩
  refine (Logic.wp_ite _ _ _).mpr ⟨fun _ => hQ _ _, fun hn => ?_⟩
  obtain rfl : n = 1 := not_not.mp hn
  rw [Logic.wp_tryCatch]
  refine invalidateAndAdvance_wp worker id config event (fun he => ?_) fun r => ?_
  · simp [ownership, learnClaim, he]
  · cases r with
    | ok u => exact hQ _ _
    | error e =>
      refine handleFailure_wp worker id config event e (fun he => ?_) hQ
      simp [ownership, learnClaim, he]

theorem processDueEvents_safe :
    (ownership worker id).Safe ((processDueEvents config).lift (OutboxCall.mk worker)) claimed := by
  rw [Logic.Safe, Logic.wp_lift]
  refine (Logic.wp_perform_bind _ _).mpr
    ⟨⟨rfl, fun h => h.elim⟩, fun now _ => ?_, fun e _ => trivial⟩
  refine (Logic.wp_perform_bind _ _).mpr
    ⟨⟨rfl, fun h => h.elim⟩, fun n _ => ?_, fun e _ => trivial⟩
  refine (Logic.wp_perform_bind _ _).mpr
    ⟨⟨rfl, fun h => h.elim⟩, fun events _ => ?_, fun e _ => trivial⟩
  refine Logic.wp_forEach (fun _ _ => True) (fun _ _ => trivial) (fun b event _ _ => ?_) trivial
  exact processOne_wp worker id config event fun _ _ => ⟨fun _ _ => trivial, fun _ _ => trivial⟩

end Safe

section Exec
variable {w w' : OutboxWorld} {c : OutboxCall} {worker : ℕ} {id : Long}

/-- While the event is processed, its last claim is this worker's. -/
def OutboxWorld.OwnIfProcessing (w : OutboxWorld) (worker : ℕ) (id : Long) : Prop :=
  ∀ r, w.outbox.row id = some r → r.status = .processing → w.lastClaim id = some worker

def OutboxWorld.Claimable (w : OutboxWorld) (id : Long) : Prop :=
  ∃ r, w.outbox.row id = some r ∧ r.status = .pending

/-- Only a claim that takes the event starts its processing. -/
theorem row_of_answer {r : CacheInvalidationOutbox}
    (hc : ∀ deadline, c.statement = .claim id deadline → ¬ w.Claimable id)
    (h : (w.answer c).2.outbox.row id = some r) (hr : r.status = .processing) :
    w.outbox.row id = some r ∧ (w.answer c).2.lastClaim id = w.lastClaim id := by
  obtain ⟨worker, s⟩ := c
  cases s with
  | localNow => exact ⟨h, rfl⟩
  | findDue now limit => exact ⟨h, rfl⟩
  | invalidateShop eventId shopId => exact ⟨h, rfl⟩
  | claim id' deadline =>
    have hsame : ¬ (∃ r', w.outbox.row id = some r' ∧
        OutboxTable.atStatus id' .pending r' = true) := by
      rintro ⟨r', hr', hat⟩
      obtain ⟨hid', hpending⟩ := of_decide_eq_true hat
      obtain rfl : id' = id := hid'.symm.trans (OutboxTable.row_id hr')
      exact hc deadline rfl ⟨r', hr', hpending⟩
    have hrow : (w.outbox.claim id' deadline).2.row id = w.outbox.row id := by
      by_contra hne
      exact hsame (OutboxTable.cond_of_update hne)
    refine ⟨hrow ▸ h, ?_⟩
    show (if (w.outbox.claim id' deadline).1 = 1 then _ else _ : Long → Option ℕ) id = _
    split
    · next hone =>
      obtain ⟨r', hr', hpending⟩ := OutboxTable.claim_eq_one.mp hone
      refine Function.update_of_ne (fun hid => ?_) _ _
      subst hid
      exact hc deadline rfl ⟨r', hr', hpending⟩
    · rfl
  | _ => exact ⟨OutboxTable.row_of_update (by simp) h hr, rfl⟩

theorem ownIfProcessing_answer (h : w.OwnIfProcessing worker id)
    (hc : ∀ deadline, c.statement = .claim id deadline → ¬ w.Claimable id) :
    (w.answer c).2.OwnIfProcessing worker id := by
  intro r hr hp
  obtain ⟨hrow, hlast⟩ := row_of_answer hc hr hp
  rw [hlast]
  exact h r hrow hp

theorem ownIfProcessing_learn {claimed : Bool} (h : claimed = true → w.OwnIfProcessing c.worker id)
    (hl : learnClaim id claimed c.statement (w.answer c).1 = true) :
    (w.answer c).2.OwnIfProcessing c.worker id := by
  obtain ⟨worker, s⟩ := c
  cases s with
  | claim id' deadline =>
    simp only [OutboxWorld.answer, learnClaim] at hl
    by_cases hown : id' = id ∧ (w.outbox.claim id' deadline).1 = 1
    · obtain ⟨rfl, hone⟩ := hown
      intro r hr hp
      simp [OutboxWorld.answer, hone]
    · rw [if_neg hown] at hl
      refine ownIfProcessing_answer (h hl) fun d hd hpending => hown ?_
      cases hd
      exact ⟨rfl, OutboxTable.claim_eq_one.mpr hpending⟩
  | _ => exact ownIfProcessing_answer (h hl) (by simp)

theorem processing_of_finishes (hf : c.statement.Finishes id)
    (hne : (w.answer c).2.outbox.row id ≠ w.outbox.row id) :
    ∃ r, w.outbox.row id = some r ∧ r.status = .processing := by
  have hat : ∀ id', (∃ r, w.outbox.row id = some r ∧
      OutboxTable.atStatus id' .processing r = true) →
      ∃ r, w.outbox.row id = some r ∧ r.status = .processing :=
    fun id' ⟨r, hr, h⟩ => ⟨r, hr, (of_decide_eq_true h).2⟩
  obtain ⟨worker, s⟩ := c
  cases s with
  | scheduleDelayedStage id' next => exact hat _ (OutboxTable.cond_of_update hne)
  | markCompleted id' => exact hat _ (OutboxTable.cond_of_update hne)
  | markRetry id' n next e => exact hat _ (OutboxTable.cond_of_update hne)
  | markDead id' n e => exact hat _ (OutboxTable.cond_of_update hne)
  | _ => exact hf.elim

end Exec

abbrev OutboxPool := Config OutboxWorld OutboxCall OutboxCall.Reply Failure ℕ

/-- The next statement of a thread is a claim of this event. -/
def ClaimsNext (id : Long) : Program OutboxCall OutboxCall.Reply Failure Unit → Prop
  | .call ⟨_, .claim id' _⟩ _ => id' = id
  | _ => False

/-- An event is claimed only when no other worker can still finish it on an earlier claim. -/
def NoStaleWorker (id : Long) (c : OutboxPool) : Move OutboxChoice OutboxAction → Prop
  | .run i _ => ∀ t, c.threads[i]? = some t → ClaimsNext id t.program → c.shared.Claimable id →
      ∀ j t', j ≠ i → c.threads[j]? = some t' → (ownership t'.tag id).Safe t'.program false
  | _ => True

/-- Every worker knows whether it may finish the event, and knows it rightly. -/
def Owned (id : Long) (c : OutboxPool) : Prop :=
  ∀ t ∈ c.threads, ∃ claimed, (claimed = true → c.shared.OwnIfProcessing t.tag id) ∧
    (ownership t.tag id).Safe t.program claimed

section Run
variable {config : OutboxConfig} {id : Long} {c c' : OutboxPool}
  {mv : Move OutboxChoice OutboxAction}

theorem exec_cases {cmd : OutboxCall} {f : OutboxChoice} {w w' : OutboxWorld}
    {r : Except Failure cmd.Reply} (h : OutboxWorld.exec cmd f w = some (r, w')) :
    (w' = w ∨ w' = (w.answer cmd).2) ∧
      ((∃ e, r = .error e) ∨ r = (w.answer cmd).1 ∧ w' = (w.answer cmd).2) := by
  cases f with
  | performed =>
    obtain ⟨rfl, rfl⟩ := Prod.mk.inj (Option.some.inj h)
    exact ⟨.inr rfl, .inr ⟨rfl, rfl⟩⟩
  | fails e => cases h; exact ⟨.inl rfl, .inl ⟨e, rfl⟩⟩
  | failsAfter e => cases h; exact ⟨.inr rfl, .inl ⟨e, rfl⟩⟩

theorem claimsNext_iff {cmd : OutboxCall}
    {k : Except Failure cmd.Reply → Program OutboxCall OutboxCall.Reply Failure Unit} :
    ClaimsNext id (.call cmd k) ↔ ∃ deadline, cmd.statement = .claim id deadline := by
  obtain ⟨worker, s⟩ := cmd
  cases s <;> simp [ClaimsNext]

theorem ownIfProcessing_exec {cmd : OutboxCall} {f : OutboxChoice} {w w' : OutboxWorld}
    {r : Except Failure cmd.Reply} {worker : ℕ} (h : OutboxWorld.exec cmd f w = some (r, w'))
    (hc : ∀ deadline, cmd.statement = .claim id deadline → ¬ w.Claimable id)
    (hw : w.OwnIfProcessing worker id) : w'.OwnIfProcessing worker id := by
  rcases (exec_cases h).1 with rfl | rfl
  · exact hw
  · exact ownIfProcessing_answer hw hc

theorem Owned.fires (hc : Owned id c) (hg : NoStaleWorker id c mv)
    (h : (outboxWorkers config).Fires c mv c') : Owned id c' := by
  cases h with
  | @run i f tag cmd k r w hi hexec =>
    intro t ht
    rcases Machine.mem_set_thread ht with rfl | ⟨j, hji, hj⟩
    · obtain ⟨claimed, hown, ⟨hworker, -⟩, hsafe⟩ := hc _ (List.mem_of_getElem? hi)
      obtain rfl : cmd.worker = tag := hworker
      refine ⟨_, fun hl => ?_, hsafe r trivial⟩
      rcases exec_cases hexec with ⟨hw, ⟨e, rfl⟩ | ⟨rfl, rfl⟩⟩
      · have hclaimed : claimed = true := (learnClaim_error id claimed _ e).symm.trans hl
        rcases hw with rfl | rfl
        · exact hown hclaimed
        · exact ownIfProcessing_learn (c := cmd) (fun (_ : true = true) => hown hclaimed) (by simp)
      · exact ownIfProcessing_learn hown hl
    · obtain ⟨claimed, hown, hsafe⟩ := hc t (List.mem_of_getElem? hj)
      by_cases hclaim : ∃ deadline, cmd.statement = .claim id deadline
      · by_cases hclaimable : c.shared.Claimable id
        · exact ⟨false, by simp, hg _ hi (claimsNext_iff.mpr hclaim) hclaimable j t hji hj⟩
        · exact ⟨claimed, fun h => ownIfProcessing_exec hexec (fun _ _ => hclaimable) (hown h), hsafe⟩
      · exact ⟨claimed, fun h => ownIfProcessing_exec hexec
          (fun d hd => absurd ⟨d, hd⟩ hclaim) (hown h), hsafe⟩
  | crash hb => exact fun t ht => hc t (List.mem_of_mem_eraseIdx ht)
  | @act a w started hact =>
    cases a with
    | scan =>
      cases hact
      intro t ht
      rcases List.mem_append.mp ht with ht | ht
      · exact hc t ht
      · obtain rfl := List.mem_singleton.mp ht
        exact ⟨false, by simp, processDueEvents_safe _ id config⟩
    | recordShopInvalidation id' shopId =>
      simp only [outboxWorkers] at hact
      split at hact
      · next hfresh =>
        cases hact
        intro t ht
        obtain ⟨claimed, hown, hsafe⟩ := hc t (by simpa using ht)
        refine ⟨claimed, fun hcl r hr hp => ?_, hsafe⟩
        replace hr := (OutboxTable.row_insert c.shared.outbox id hfresh).symm.trans hr
        split at hr
        · cases hr
          cases hp
        · exact hown hcl r hr hp
      · cases hact
    | tick clock =>
      cases hact
      intro t ht
      obtain ⟨claimed, hown, hsafe⟩ := hc t (by simpa using ht)
      exact ⟨claimed, hown, hsafe⟩

theorem owned_of_run (h : (outboxWorkers config).Run (NoStaleWorker id) c c') (hc : Owned id c) :
    Owned id c' :=
  h.invariant hc fun _ _ _ hd hg hf => hd.fires hg hf

end Run

def OutboxWorld.start (clock : ℤ) (outbox : OutboxTable) : OutboxWorld :=
  ⟨clock, outbox, 0, fun _ => none⟩

/-- The next statement of a thread is a finishing update of this event by this worker. -/
def FinishesNext (id : Long) (worker : ℕ) :
    Program OutboxCall OutboxCall.Reply Failure Unit → Prop
  | .call c _ => c.worker = worker ∧ c.statement.Finishes id
  | _ => False

/-- In all runs that obey `guard`, a finishing update that changes the event is its claimant's. -/
def FinishedByClaimant (id : Long)
    (guard : OutboxPool → Move OutboxChoice OutboxAction → Prop) : Prop :=
  ∀ config clock outbox worker i f t (c c' : OutboxPool),
    (outboxWorkers config).Run guard ⟨.start clock outbox, []⟩ c →
    (outboxWorkers config).step c (.run i f) = some c' → c.threads[i]? = some t →
    FinishesNext id worker t.program →
    c'.shared.outbox.row id ≠ c.shared.outbox.row id → c.shared.HoldsClaim worker id

theorem finished_by_claimant (id : Long) : FinishedByClaimant id (NoStaleWorker id) := by
  intro config clock outbox worker i f t c c' hrun hstep ht hnext hne
  have howned : Owned id c := owned_of_run hrun (by simp [Owned])
  cases Machine.fires_of_step hstep with
  | @run _ _ tag cmd k r w hi hexec =>
    obtain rfl : t = ⟨tag, .call cmd k⟩ := Option.some.inj (ht.symm.trans hi)
    obtain ⟨hworker, hf⟩ := hnext
    obtain ⟨claimed, hown, ⟨htag, hclaimed⟩, -⟩ := howned _ (List.mem_of_getElem? hi)
    obtain rfl : worker = tag := hworker.symm.trans htag
    rcases (exec_cases hexec).1 with rfl | rfl
    · exact absurd rfl hne
    · obtain ⟨r', hr', hp⟩ := processing_of_finishes hf hne
      exact ⟨⟨r', hr', hp⟩, hown (hclaimed hf) r' hr' hp⟩

/-- An event of shop 9 that has failed seven times. -/
def failingEvent : CacheInvalidationOutbox := { newEvent 1 9 0 with retryCount := some 7 }

def oneEvent : OutboxTable := ⟨[failingEvent], List.nodup_singleton 1⟩

instance (id : Long) : (s : OutboxStatement) → Decidable (s.Finishes id)
  | .scheduleDelayedStage id' _ => inferInstanceAs (Decidable (id' = id))
  | .markCompleted id' => inferInstanceAs (Decidable (id' = id))
  | .markRetry id' _ _ _ => inferInstanceAs (Decidable (id' = id))
  | .markDead id' _ _ => inferInstanceAs (Decidable (id' = id))
  | .localNow => inferInstanceAs (Decidable False)
  | .recoverExpiredClaims _ => inferInstanceAs (Decidable False)
  | .findDue _ _ => inferInstanceAs (Decidable False)
  | .claim _ _ => inferInstanceAs (Decidable False)
  | .invalidateShop _ _ => inferInstanceAs (Decidable False)

instance (id : Long) (worker : ℕ) :
    (p : Program OutboxCall OutboxCall.Reply Failure Unit) → Decidable (FinishesNext id worker p)
  | .call _ _ => inferInstanceAs (Decidable (_ ∧ _))
  | .done _ => inferInstanceAs (Decidable False)

def FinishesSample (c c' : OutboxPool) : Prop :=
  (∃ t ∈ c.threads[0]?, FinishesNext 1 0 t.program) ∧
    c'.shared.outbox.row 1 ≠ c.shared.outbox.row 1

instance (c c' : OutboxPool) : Decidable (FinishesSample c c') := inferInstanceAs (Decidable (_ ∧ _))

def claiming (worker : ℕ) : List (Move OutboxChoice OutboxAction) :=
  .act .scan :: List.replicate 5 (.run worker .performed)

def othersEnded (c : OutboxPool) : Move OutboxChoice OutboxAction → Bool
  | .run i _ => (c.threads.eraseIdx i).all fun t => t.program.ended
  | _ => true

theorem noStaleWorker_of_othersEnded {id : Long} {c : OutboxPool}
    {mv : Move OutboxChoice OutboxAction} (h : othersEnded c mv = true) :
    NoStaleWorker id c mv := by
  cases mv with
  | run i f =>
    intro t _ _ _ j t' hji hj
    obtain ⟨r, hp⟩ := Machine.exists_done_of_others h hji hj
    rw [hp]
    trivial
  | _ => trivial

/-- One worker has claimed the event and invalidated the shop. -/
def invalidated : Option OutboxPool :=
  (outboxWorkers defaultConfig).play othersEnded ⟨.start 0 oneEvent, []⟩
    (claiming 0 ++ List.replicate 2 (.run 0 .performed))

/-- The lease of worker 0 runs out, worker 1 claims the event, then the invalidation of worker 0
fails. -/
def failedLate : Option OutboxPool :=
  (outboxWorkers defaultConfig).play (fun _ _ => true) ⟨.start 0 oneEvent, []⟩
    (claiming 0 ++ .act (.tick 40000000000) :: claiming 1 ++ [.run 0 (.fails "confirm timed out")])

def lastMove (c : OutboxPool) : Option OutboxPool :=
  (outboxWorkers defaultConfig).step c (.run 0 .performed)

theorem finished_by_claimant_invalidated :
    ∃ c, invalidated = some c ∧ c.shared.HoldsClaim 0 1 := by
  have hplay : (invalidated.bind fun c => (lastMove c).map fun c' =>
      decide (FinishesSample c c')) = some true := by decide +kernel
  obtain ⟨c, hc, hlast⟩ := Option.bind_eq_some_iff.mp hplay
  obtain ⟨c', hc', hfinish⟩ := Option.map_eq_some_iff.mp hlast
  obtain ⟨⟨t, ht, hnext⟩, hne⟩ : FinishesSample c c' := of_decide_eq_true hfinish
  exact ⟨c, hc, finished_by_claimant 1 defaultConfig 0 oneEvent 0 0 .performed t c c'
    (Machine.run_of_play (fun _ _ => noStaleWorker_of_othersEnded) hc) hc' ht hnext hne⟩

/-- Worker 0 marks the event dead although worker 1 has claimed it. -/
theorem finishedByClaimant_fails : ¬ FinishedByClaimant 1 fun _ _ => True := by
  intro h
  have hplay : (failedLate.bind fun c => (lastMove c).map fun c' =>
      decide (FinishesSample c c' ∧ c.shared.lastClaim 1 = some 1)) = some true := by decide +kernel
  obtain ⟨c, hc, hlast⟩ := Option.bind_eq_some_iff.mp hplay
  obtain ⟨c', hc', hfinish⟩ := Option.map_eq_some_iff.mp hlast
  obtain ⟨⟨⟨t, ht, hnext⟩, hne⟩, hclaim⟩ :
    FinishesSample c c' ∧ c.shared.lastClaim 1 = some 1 := of_decide_eq_true hfinish
  have hholds := (h defaultConfig 0 oneEvent 0 0 .performed t c c'
    (Machine.run_of_play (fun _ _ _ => trivial) hc) hc' ht hnext hne).2
  rw [hclaim] at hholds
  cases hholds

end HmDianPing.Cache
