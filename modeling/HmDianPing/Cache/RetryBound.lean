import HmDianPing.Cache.Attempts

/-! # The bound on the attempts

A worker counts a failed attempt by writing back the count it has read, raised by one;
an attempt that is lost with its instance is not counted at all. The retry count bounds
the attempts of a stage while no claim is taken back after its attempt.
-/
namespace HmDianPing.Cache
open Interleaving Program

/-- The statements on the event stay with the current claim: it is made with the row as it is, its
worker alone attempts and finishes the event, and it is taken back only before its attempt. -/
def AttemptSound (id : Long) (w : OutboxWorld) (notes : List AttemptNote) (c : OutboxCall)
    (f : OutboxChoice) : Prop :=
  match c.statement with
  | .claim id' _ => id' = id → f.reaches → ∀ r ∈ w.outbox.row id, r.status = .pending →
      ∀ event ∈ AttemptNote.foundBy c.worker id notes,
        event.stage = r.stage ∧ event.retryCount = r.retryCount
  | .invalidateShop id' _ => id' = id → w.HoldsClaim c.worker id
  | .scheduleDelayedStage id' _ | .markCompleted id' | .markRetry id' _ _ _ | .markDead id' _ _ =>
      id' = id → f.reaches → w.OwnIfProcessing c.worker id
  | .recoverExpiredClaims now => f.reaches → ∀ r ∈ w.outbox.row id,
      r.status = .processing → r.nextRetryTime ≤ now → AttemptNote.attempted id notes = false
  | .localNow | .findDue _ _ => True

structure WorkerView.Right (id : Long) (w : OutboxWorld) (notes : List AttemptNote) (worker : ℕ)
    (κ : WorkerView) : Prop where
  unscanned : κ.found = none → w.lastClaim id ≠ some worker
  found : ∀ event, κ.Finds id event → .found worker event ∈ notes
  claimed : κ.phase = .claimed → w.lastClaim id = some worker →
    AttemptNote.attempted id notes = false

/-- The retry count bounds the attempts of the stage the event is at, but for the attempt of the
current claim. -/
structure Counted (config : OutboxConfig) (id : Long) (w : OutboxWorld)
    (notes : List AttemptNote) : Prop where
  bound : ∀ stage, (AttemptNote.attempts id stage notes : ℤ) ≤ config.maxRetries
  absent : w.outbox.row id = none → ∀ stage, AttemptNote.attempts id stage notes = 0
  stage : ∀ r, w.outbox.row id = some r →
    r.stage = some stageInitial ∧ AttemptNote.attempts id (some stageDelayed) notes = 0 ∨
      r.stage = some stageDelayed
  count : ∀ r, w.outbox.row id = some r → ∃ n, r.retryCount = some n ∧
    (r.status = .pending → n < config.maxRetries ∧
      (AttemptNote.attempts id r.stage notes : ℤ) ≤ n) ∧
    (r.status = .processing → n < config.maxRetries ∧
      (AttemptNote.attempts id r.stage notes : ℤ) ≤
        n + if AttemptNote.attempted id notes then 1 else 0)
  claimant : ∀ r, w.outbox.row id = some r → r.status = .processing →
    ∃ worker, w.lastClaim id = some worker ∧ ∀ event, .found worker event ∈ notes →
      event.id = id → event.stage = r.stage ∧ event.retryCount = r.retryCount

/-- Within a stage the retry count does not go down, and a stage is not gone back to. -/
def Grows (r r' : CacheInvalidationOutbox) : Prop :=
  r'.stage = r.stage ∧ (∀ n ∈ r.retryCount, ∃ n' ∈ r'.retryCount, n ≤ n') ∨
    r.stage = some stageInitial ∧ r'.stage = some stageDelayed

def OutboxWorld.Raises (id : Long) (w w' : OutboxWorld) : Prop :=
  ∀ r, w.outbox.row id = some r → ∃ r', w'.outbox.row id = some r' ∧ Grows r r'

theorem Grows.of_eq {r r' : CacheInvalidationOutbox} (hstage : r'.stage = r.stage)
    (hcount : r'.retryCount = r.retryCount) : Grows r r' :=
  .inl ⟨hstage, fun n hn => ⟨n, hcount ▸ hn, le_rfl⟩⟩

theorem Grows.trans {r r' r'' : CacheInvalidationOutbox} (h : Grows r r') (h' : Grows r' r'') :
    Grows r r'' := by
  rcases h with ⟨hstage, hcount⟩ | ⟨hinitial, hdelayed⟩ <;>
    rcases h' with ⟨hstage', hcount'⟩ | ⟨hinitial', hdelayed'⟩
  · refine .inl ⟨hstage'.trans hstage, fun n hn => ?_⟩
    obtain ⟨n', hn', hle⟩ := hcount n hn
    obtain ⟨n'', hn'', hle'⟩ := hcount' n' hn'
    exact ⟨n'', hn'', hle.trans hle'⟩
  · exact .inr ⟨hstage ▸ hinitial', hdelayed'⟩
  · exact .inr ⟨hinitial, hstage'.trans hdelayed⟩
  · exact absurd (hdelayed.symm.trans hinitial') (by decide)

theorem OutboxWorld.Raises.of_eq {id : Long} {w w' : OutboxWorld}
    (h : w'.outbox.row id = w.outbox.row id) : w.Raises id w' :=
  fun r hr => ⟨r, h.trans hr, .of_eq rfl rfl⟩

theorem OutboxWorld.Raises.trans {id : Long} {w w' w'' : OutboxWorld} (h : w.Raises id w')
    (h' : w'.Raises id w'') : w.Raises id w'' := by
  intro r hr
  obtain ⟨r', hr', hgrows⟩ := h r hr
  obtain ⟨r'', hr'', hgrows'⟩ := h' r' hr'
  exact ⟨r'', hr'', hgrows.trans hgrows'⟩

section Exec
open AttemptNote
variable {config : OutboxConfig} {id : Long} {w w' : OutboxWorld} {notes notes' : List AttemptNote}
  {c : OutboxCall} {f : OutboxChoice} {κ : WorkerView}

theorem Counted.frame (h : Counted config id w notes)
    (hrow : w'.outbox.row id = w.outbox.row id) (hlast : w'.lastClaim id = w.lastClaim id)
    (hattempts : ∀ stage, attempts id stage notes' = attempts id stage notes)
    (hattempted : attempted id notes' = attempted id notes)
    (hfound : ∀ worker event, w.lastClaim id = some worker → .found worker event ∈ notes' →
      event.id = id → .found worker event ∈ notes) : Counted config id w' notes' where
  bound stage := hattempts stage ▸ h.bound stage
  absent hnone stage := hattempts stage ▸ h.absent (hrow ▸ hnone) stage
  stage r hr := by
    rw [hattempts]
    exact h.stage r (hrow ▸ hr)
  count r hr := by
    rw [hattempts, hattempted]
    exact h.count r (hrow ▸ hr)
  claimant r hr hstatus := by
    obtain ⟨worker, hworker, hfresh⟩ := h.claimant r (hrow ▸ hr) hstatus
    refine ⟨worker, hlast ▸ hworker, fun event hevent hid => ?_⟩
    exact hfresh event (hfound worker event hworker hevent hid) hid

theorem Counted.claimed {r : CacheInvalidationOutbox} {deadline : ℤ} {worker : ℕ}
    (h : Counted config id w notes) (hr : w.outbox.row id = some r) (hstatus : r.status = .pending)
    (hfresh : ∀ event ∈ foundBy worker id notes,
      event.stage = r.stage ∧ event.retryCount = r.retryCount) :
    Counted config id (w.answer ⟨worker, .claim id deadline⟩).2 (notes ++ [.claimed worker id]) ∧
      w.Raises id (w.answer ⟨worker, .claim id deadline⟩).2 := by
  have hrid : r.id = id := OutboxTable.row_id hr
  have hrow : (w.answer ⟨worker, .claim id deadline⟩).2.outbox.row id = some { r with
      status := .processing, nextRetryTime := datetime deadline, lastError := none } := by
    refine (OutboxTable.row_update _ _ _ _).trans ?_
    simp [hr, OutboxTable.atStatus, hrid, hstatus]
  have hlast : (w.answer ⟨worker, .claim id deadline⟩).2.lastClaim id = some worker := by
    simp [OutboxWorld.answer, OutboxTable.claim_eq_one.mpr ⟨r, hr, hstatus⟩]
  obtain ⟨n, hn, hpending, -⟩ := h.count r hr
  refine ⟨⟨fun stage => ?_, fun hnone => ?_, fun r' hr' => ?_, fun r' hr' => ?_,
    fun r' hr' hstatus' => ?_⟩, fun r' hr' => ?_⟩
  · rw [attempts_claimed]
    exact h.bound stage
  · rw [hrow] at hnone
    cases hnone
  · obtain rfl := Option.some.inj (hrow.symm.trans hr')
    rw [attempts_claimed]
    exact h.stage r hr
  · obtain rfl := Option.some.inj (hrow.symm.trans hr')
    rw [attempts_claimed, attempted_claimed]
    refine ⟨n, hn, fun hp => (by cases hp), fun _ => ⟨(hpending hstatus).1, ?_⟩⟩
    simpa using (hpending hstatus).2
  · obtain rfl := Option.some.inj (hrow.symm.trans hr')
    refine ⟨worker, hlast, fun event hevent hid => hfresh event (mem_foundBy.mpr ⟨?_, hid⟩)⟩
    simpa using hevent
  · obtain rfl := Option.some.inj (hr.symm.trans hr')
    exact ⟨_, hrow, .of_eq rfl rfl⟩

theorem Counted.called {worker : ℕ} {time : ℤ} {later : List AttemptNote}
    (h : Counted config id w notes) (hholds : w.HoldsClaim worker id)
    (hfirst : attempted id notes = false)
    (hlater : later = [] ∨ ∃ time, later = [.returned worker id time]) :
    Counted config id w (notes ++ .called worker id (w.outbox.row id) time :: later) := by
  obtain ⟨⟨r, hr, hstatus⟩, hlast⟩ := hholds
  have hattempts (stage : Option ℤ) : attempts id stage
      (notes ++ .called worker id (w.outbox.row id) time :: later) =
      attempts id stage notes + if r.stage = stage then 1 else 0 := by
    rcases hlater with rfl | ⟨time', rfl⟩ <;>
      simp [attempts, isAttempt, List.countP_cons, hr, hstatus]
  have hattempted : attempted id
      (notes ++ .called worker id (w.outbox.row id) time :: later) = true := by
    rcases hlater with rfl | ⟨time', rfl⟩ <;> simp [attempted]
  have hfound (worker' : ℕ) (event : CacheInvalidationOutbox) :
      .found worker' event ∈ notes ++ .called worker id (w.outbox.row id) time :: later →
        .found worker' event ∈ notes := by
    rcases hlater with rfl | ⟨time', rfl⟩ <;> simp
  obtain ⟨n, hn, -, hprocessing⟩ := h.count r hr
  obtain ⟨hmax, hcount⟩ := hprocessing hstatus
  rw [hfirst] at hcount
  refine ⟨fun stage => ?_, fun hnone => ?_, fun r' hr' => ?_, fun r' hr' => ?_,
    fun r' hr' hstatus' => ?_⟩
  · rw [hattempts]
    have := h.bound stage
    split
    next hstage =>
      subst hstage
      simp at hcount
      push_cast
      omega
    next => simpa using this
  · rw [hr] at hnone
    cases hnone
  · obtain rfl := Option.some.inj (hr.symm.trans hr')
    rw [hattempts]
    refine (h.stage r hr).imp_left fun hstage => ⟨hstage.1, ?_⟩
    rw [hstage.2, hstage.1]
    rfl
  · obtain rfl := Option.some.inj (hr.symm.trans hr')
    rw [hattempts, hattempted]
    refine ⟨n, hn, fun hp => absurd (hstatus.symm.trans hp) (by decide), fun _ => ⟨hmax, ?_⟩⟩
    simp at hcount ⊢
    omega
  · obtain rfl := Option.some.inj (hr.symm.trans hr')
    obtain ⟨worker', hworker', hfresh⟩ := h.claimant r hr hstatus
    exact ⟨worker', hworker', fun event hevent => hfresh event (hfound worker' event hevent)⟩

theorem Counted.leave {r r' : CacheInvalidationOutbox} (h : Counted config id w notes)
    (hr : w.outbox.row id = some r) (hr' : w'.outbox.row id = some r')
    (hstatus : r'.status ≠ .processing)
    (hstage : r'.stage = r.stage ∨ r.stage = some stageInitial ∧ r'.stage = some stageDelayed)
    (hcount : ∃ n, r'.retryCount = some n ∧ (r'.status = .pending → n < config.maxRetries ∧
      (attempts id r'.stage notes : ℤ) ≤ n)) : Counted config id w' notes where
  bound := h.bound
  absent hnone := by
    rw [hr'] at hnone
    cases hnone
  stage r'' hr'' := by
    obtain rfl := Option.some.inj (hr'.symm.trans hr'')
    rcases hstage with hstage | ⟨-, hstage⟩
    · rw [hstage]
      exact h.stage r hr
    · exact .inr hstage
  count r'' hr'' := by
    obtain rfl := Option.some.inj (hr'.symm.trans hr'')
    obtain ⟨n, hn, hpending⟩ := hcount
    exact ⟨n, hn, hpending, fun hp => absurd hp hstatus⟩
  claimant r'' hr'' hp := by
    obtain rfl := Option.some.inj (hr'.symm.trans hr'')
    exact absurd hp hstatus

theorem Counted.fresh {r event : CacheInvalidationOutbox} (h : Counted config id w notes)
    (hκ : κ.Right id w notes c.worker) (hown : w.OwnIfProcessing c.worker id)
    (hr : w.outbox.row id = some r) (hstatus : r.status = .processing)
    (hevent : κ.Finds id event) :
    event.stage = r.stage ∧ ∃ n, r.retryCount = some n ∧ nextRetryCount event = n + 1 := by
  obtain ⟨worker, hworker, hfresh⟩ := h.claimant r hr hstatus
  obtain rfl : c.worker = worker := Option.some.inj ((hown r hr hstatus).symm.trans hworker)
  obtain ⟨hstage, hretry⟩ := hfresh event (hκ.found event hevent) hevent.2
  obtain ⟨n, hn, -⟩ := h.count r hr
  exact ⟨hstage, n, hn, by rw [nextRetryCount, hretry, hn]⟩

theorem lastClaim_answer (hclaim : ∀ id' deadline, c.statement ≠ .claim id' deadline) :
    (w.answer c).2.lastClaim = w.lastClaim := by
  obtain ⟨worker, s⟩ := c
  cases s with
  | claim id' deadline => exact absurd rfl (hclaim id' deadline)
  | _ => rfl

theorem expired_of_recovered {t : OutboxTable} {now : ℤ} {r r' : CacheInvalidationOutbox}
    (hr : t.row id = some r) (hr' : (t.recoverExpiredClaims now).2.row id = some r')
    (hstatus : r'.status ≠ r.status) : r.nextRetryTime ≤ now := by
  have hne : (t.recoverExpiredClaims now).2.row id ≠ t.row id := by
    intro heq
    obtain rfl := Option.some.inj (hr'.symm.trans (heq.trans hr))
    exact hstatus rfl
  obtain ⟨r₁, hr₁, hcond⟩ := OutboxTable.cond_of_update hne
  obtain rfl := Option.some.inj (hr.symm.trans hr₁)
  exact (of_decide_eq_true hcond).2

/-- A statement that is no claim, no attempt and no scan leaves the attempts counted. -/
theorem Counted.answer (h : Counted config id w notes) (hmax : 1 ≤ config.maxRetries)
    (hκ : κ.Right id w notes c.worker) (hneeded : κ.Needed config id c.statement)
    (hsound : AttemptSound id w notes c f) (hf : f.reaches = true)
    (hclaim : ∀ id' deadline, c.statement ≠ .claim id' deadline) :
    Counted config id (w.answer c).2 notes ∧ w.Raises id (w.answer c).2 := by
  have hlast := lastClaim_answer (w := w) hclaim
  cases hr : w.outbox.row id with
  | none =>
    cases hr' : (w.answer c).2.outbox.row id with
    | some r' =>
      obtain ⟨r, hsome, -⟩ := row_of_answer_row hr'
      rw [hr] at hsome
      cases hsome
    | none =>
      refine ⟨?_, .of_eq (hr'.trans hr.symm)⟩
      exact h.frame (hr'.trans hr.symm) (congrFun hlast id) (fun _ => rfl) rfl fun _ _ _ h _ => h
  | some r =>
    obtain ⟨r', hr', hleaves⟩ := answer_row_of_row (c := c) hr
    rcases hleaves with rfl | hchanges
    · refine ⟨?_, .of_eq (hr'.trans hr.symm)⟩
      exact h.frame (hr'.trans hr.symm) (congrFun hlast id) (fun _ => rfl) rfl fun _ _ _ h _ => h
    · have raises (hgrows : Grows r r') : w.Raises id (w.answer c).2 := by
        intro r₁ hr₁
        obtain rfl := Option.some.inj (hr.symm.trans hr₁)
        exact ⟨r', hr', hgrows⟩
      have hid : r.id = id := OutboxTable.row_id hr
      obtain ⟨n, hn, -, hprocessing⟩ := h.count r hr
      obtain ⟨worker, s⟩ := c
      cases hchanges with
      | claim => exact absurd rfl (hclaim _ _)
      | @recover now _ hstatus =>
        have hexpired := expired_of_recovered hr hr' (by simp [hstatus])
        have hfirst := hsound hf r hr hstatus hexpired
        refine ⟨?_, raises (.of_eq rfl rfl)⟩
        refine h.leave hr hr' (by simp) (.inl rfl) ⟨n, hn, fun _ => ⟨(hprocessing hstatus).1, ?_⟩⟩
        simpa [hfirst] using (hprocessing hstatus).2
      | delay hstatus =>
        obtain ⟨⟨event, hevent, hinitial⟩, -⟩ := hneeded hid
        obtain ⟨hstage, -⟩ := h.fresh hκ (hsound hid hf) hr hstatus hevent
        have hr0 : r.stage = some stageInitial := hstage ▸ hinitial
        refine ⟨?_, raises (.inr ⟨hr0, rfl⟩)⟩
        refine h.leave hr hr' (by simp) (.inr ⟨hr0, rfl⟩) ⟨0, rfl, fun _ => ⟨by omega, ?_⟩⟩
        obtain ⟨-, hnone⟩ := (h.stage r hr).resolve_right fun h1 =>
          absurd (hr0.symm.trans h1) (by decide)
        simp [hnone]
      | complete hstatus =>
        refine ⟨?_, raises (.of_eq rfl rfl)⟩
        exact h.leave hr hr' (by simp) (.inl rfl) ⟨n, hn, fun hp => by cases hp⟩
      | retry hstatus =>
        obtain ⟨event, hevent, rfl, hlt⟩ := hneeded hid
        obtain ⟨-, n', hn', hnext⟩ := h.fresh hκ (hsound hid hf) hr hstatus hevent
        obtain rfl : n = n' := Option.some.inj (hn.symm.trans hn')
        refine ⟨?_, raises (.inl ⟨rfl, fun m hm => ⟨_, rfl, ?_⟩⟩)⟩
        swap
        · obtain rfl := Option.some.inj (hn.symm.trans hm)
          omega
        refine h.leave hr hr' (by simp) (.inl rfl) ⟨_, rfl, fun _ => ⟨hlt, ?_⟩⟩
        have hcount := (hprocessing hstatus).2
        change (attempts id r.stage notes : ℤ) ≤ nextRetryCount event
        rw [hnext]
        split at hcount <;> omega
      | giveUp hstatus =>
        obtain ⟨event, hevent, rfl⟩ := hneeded hid
        obtain ⟨-, n', hn', hnext⟩ := h.fresh hκ (hsound hid hf) hr hstatus hevent
        refine ⟨?_, raises (.inl ⟨rfl, fun m hm => ⟨_, rfl, ?_⟩⟩)⟩
        · exact h.leave hr hr' (by simp) (.inl rfl) ⟨_, rfl, fun hp => by cases hp⟩
        · obtain rfl := Option.some.inj (hn'.symm.trans hm)
          omega

theorem lastClaim_claim {worker : ℕ} {id' : Long} {deadline : ℤ}
    (h : ¬ (id' = id ∧ ∃ r, w.outbox.row id = some r ∧ r.status = .pending)) :
    (w.answer ⟨worker, .claim id' deadline⟩).2.lastClaim id = w.lastClaim id := by
  show (if (w.outbox.claim id' deadline).1 = 1 then _ else _ : Long → Option ℕ) id = _
  split
  next hone =>
    refine Function.update_of_ne (fun hid => h ?_) _ _
    subst hid
    exact ⟨rfl, OutboxTable.claim_eq_one.mp hone⟩
  next => rfl

/-- A claim that takes the event notes it and makes its worker the claimant; no other statement
touches the claims. -/
theorem lastClaim_exec (id : Long) {r : Except Failure c.Reply}
    (hexec : OutboxWorld.exec c f w = some (r, w')) :
    w'.lastClaim id = w.lastClaim id ∨ w'.lastClaim id = some c.worker ∧
      (∃ deadline, c.statement = .claim id deadline) ∧
      c.attemptNote f w = [.claimed c.worker id] := by
  rcases exec_reaches hexec with ⟨-, rfl, -⟩ | ⟨hf, rfl, -⟩
  · exact .inl rfl
  · obtain ⟨worker, s⟩ := c
    cases s with
    | claim id' deadline =>
      by_cases htaken : id' = id ∧ ∃ r, w.outbox.row id = some r ∧ r.status = .pending
      · obtain ⟨rfl, r, hr, hstatus⟩ := htaken
        refine .inr ⟨?_, ⟨deadline, rfl⟩, ?_⟩
        · simp [OutboxWorld.answer, OutboxTable.claim_eq_one.mpr ⟨r, hr, hstatus⟩]
        · simp [OutboxCall.attemptNote, hf, hr, hstatus]
      · exact .inl (lastClaim_claim htaken)
    | _ => exact .inl rfl

theorem attempted_exec (id : Long) (c : OutboxCall) (f : OutboxChoice) (w : OutboxWorld)
    (notes : List AttemptNote) :
    attempted id (notes ++ c.attemptNote f w) = attempted id notes ∨
      ((∃ deadline, c.statement = .claim id deadline) ∧
        attempted id (notes ++ c.attemptNote f w) = false) ∨
      ∃ shopId, c.statement = .invalidateShop id shopId := by
  obtain ⟨worker, s⟩ := c
  cases s with
  | claim id' deadline =>
    simp only [OutboxCall.attemptNote]
    split
    · rw [attempted_claimed]
      split
      next hid => exact .inr (.inl ⟨⟨deadline, by rw [hid]⟩, rfl⟩)
      next => exact .inl rfl
    · exact .inl (by rw [List.append_nil])
  | invalidateShop id' shopId =>
    by_cases hid : id' = id
    · exact .inr (.inr ⟨shopId, by rw [hid]⟩)
    · left
      cases f <;> simp [OutboxCall.attemptNote, attempted, hid]
  | findDue now limit =>
    left
    cases f with
    | performed => exact attempted_found
    | fails e => exact congrArg _ (List.append_nil notes)
    | failsAfter e => exact congrArg _ (List.append_nil notes)
  | _ => exact .inl (congrArg _ (List.append_nil notes))

theorem Counted.keep (h : Counted config id w notes) :
    Counted config id w (notes ++ []) ∧ w.Raises id w :=
  ⟨(List.append_nil notes).symm ▸ h, .of_eq rfl⟩

theorem Counted.claim {worker : ℕ} {id' : Long} {deadline : ℤ} (h : Counted config id w notes)
    (hsound : AttemptSound id w notes ⟨worker, .claim id' deadline⟩ f) (hf : f.reaches = true) :
    Counted config id (w.answer ⟨worker, .claim id' deadline⟩).2
        (notes ++ OutboxCall.attemptNote ⟨worker, .claim id' deadline⟩ f w) ∧
      w.Raises id (w.answer ⟨worker, .claim id' deadline⟩).2 := by
  by_cases htaken : id' = id ∧ ∃ r, w.outbox.row id = some r ∧ r.status = .pending
  · obtain ⟨rfl, r, hr, hstatus⟩ := htaken
    have hnote : OutboxCall.attemptNote ⟨worker, .claim id' deadline⟩ f w =
        [.claimed worker id'] := by
      simp [OutboxCall.attemptNote, hf, hr, hstatus]
    rw [hnote]
    exact h.claimed hr hstatus (hsound rfl hf r hr hstatus)
  · have hrow : (w.answer ⟨worker, .claim id' deadline⟩).2.outbox.row id = w.outbox.row id := by
      by_contra hne
      obtain ⟨r, hr, hat⟩ := OutboxTable.cond_of_update hne
      obtain ⟨hid, hstatus⟩ := of_decide_eq_true hat
      exact htaken ⟨hid.symm.trans (OutboxTable.row_id hr), r, hr, hstatus⟩
    refine ⟨?_, .of_eq hrow⟩
    simp only [OutboxCall.attemptNote]
    split
    next hnote =>
      have hne : id' ≠ id := by
        rintro rfl
        refine htaken ⟨rfl, ?_⟩
        cases hr : w.outbox.row id' with
        | none => simp [hr] at hnote
        | some r => exact ⟨r, rfl, by simpa [hr] using hnote.2⟩
      refine h.frame hrow (lastClaim_claim htaken) (fun _ => attempts_claimed) ?_ ?_
      · rw [attempted_claimed, if_neg hne]
      · intro worker' event _ hevent _
        simpa using hevent
    next =>
      rw [List.append_nil]
      exact h.frame hrow (lastClaim_claim htaken) (fun _ => rfl) rfl fun _ _ _ h _ => h

theorem Counted.invalidateShop {worker : ℕ} {id' shopId : Long} (h : Counted config id w notes)
    (hκ : κ.Right id w notes worker) (hneeded : id' = id → κ.phase = .claimed)
    (hsound : id' = id → w.HoldsClaim worker id) :
    Counted config id w
      (notes ++ OutboxCall.attemptNote ⟨worker, .invalidateShop id' shopId⟩ f w) := by
  obtain ⟨later, hlater, hnote⟩ : ∃ later : List AttemptNote,
      (later = [] ∨ ∃ time, later = [.returned worker id' time]) ∧
        OutboxCall.attemptNote ⟨worker, .invalidateShop id' shopId⟩ f w =
          .called worker id' (w.outbox.row id') w.clock :: later := by
    cases f with
    | performed => exact ⟨_, .inr ⟨w.clock, rfl⟩, rfl⟩
    | fails e => exact ⟨[], .inl rfl, rfl⟩
    | failsAfter e => exact ⟨[], .inl rfl, rfl⟩
  rw [hnote]
  by_cases hid : id' = id
  · subst hid
    have hholds := hsound rfl
    exact h.called hholds (hκ.claimed (hneeded rfl) hholds.2) hlater
  · refine h.frame rfl rfl (fun stage => ?_) ?_ fun worker' event _ hevent _ => ?_
    · rcases hlater with rfl | ⟨time, rfl⟩ <;> cases w.outbox.row id' <;>
        simp [attempts, isAttempt, hid]
    · rcases hlater with rfl | ⟨time, rfl⟩ <;> simp [attempted, hid]
    · rcases hlater with rfl | ⟨time, rfl⟩ <;> simpa using hevent

theorem Counted.exec {r : Except Failure c.Reply} (h : Counted config id w notes)
    (hmax : 1 ≤ config.maxRetries) (hκ : κ.Right id w notes c.worker)
    (hneeded : κ.Needed config id c.statement) (hsound : AttemptSound id w notes c f)
    (hexec : OutboxWorld.exec c f w = some (r, w')) :
    Counted config id w' (notes ++ c.attemptNote f w) ∧ w.Raises id w' := by
  obtain ⟨worker, s⟩ := c
  cases s with
  | claim id' deadline =>
    rcases exec_reaches hexec with ⟨hf, rfl, -⟩ | ⟨hf, rfl, -⟩
    · have hnote (v : OutboxWorld) :
          OutboxCall.attemptNote ⟨worker, .claim id' deadline⟩ f v = [] := by
        simp [OutboxCall.attemptNote, hf]
      rw [hnote]
      exact h.keep
    · exact h.claim hsound hf
  | invalidateShop id' shopId =>
    obtain rfl : w = w' := by
      rcases (exec_cases hexec).1 with rfl | rfl <;> rfl
    exact ⟨h.invalidateShop hκ hneeded hsound, .of_eq rfl⟩
  | findDue now limit =>
    obtain rfl : w = w' := by
      rcases (exec_cases hexec).1 with rfl | rfl <;> rfl
    refine ⟨?_, .of_eq rfl⟩
    cases f with
    | performed =>
      refine h.frame rfl rfl (fun _ => attempts_found) attempted_found ?_
      intro worker' event hlast hevent _
      rcases List.mem_append.mp hevent with hevent | hevent
      · exact hevent
      · obtain ⟨_, _, heq⟩ := List.mem_map.mp hevent
        cases heq
        exact absurd hlast (hκ.unscanned hneeded.1)
    | fails e => exact h.keep.1
    | failsAfter e => exact h.keep.1
  | _ =>
    simp only [OutboxCall.attemptNote, List.append_nil]
    rcases exec_reaches hexec with ⟨-, rfl, -⟩ | ⟨hf, rfl, -⟩
    · exact ⟨h, .of_eq rfl⟩
    · exact h.answer hmax hκ hneeded hsound hf (by simp)

/-- The claim of the event is the worker's own, or it has not changed. -/
theorem WorkerView.Right.claimed_exec {r : Except Failure c.Reply} {worker : ℕ}
    (hexec : OutboxWorld.exec c f w = some (r, w'))
    (hshop : ∀ shopId, c.statement = .invalidateShop id shopId → w'.lastClaim id ≠ some worker)
    (hfirst : w.lastClaim id = some worker → attempted id notes = false)
    (hlast : w'.lastClaim id = some worker) :
    attempted id (notes ++ c.attemptNote f w) = false := by
  rcases attempted_exec id c f w notes with
    hsame | ⟨-, hclaim⟩ | ⟨shopId, hs⟩
  · rcases lastClaim_exec id hexec with hkeep | ⟨-, -, hnote⟩
    · rw [hsame]
      exact hfirst (hkeep ▸ hlast)
    · rw [hnote, attempted_claimed, if_pos rfl]
  · exact hclaim
  · exact absurd hlast (hshop shopId hs)

/-- A call of another worker leaves what a worker knows right. -/
theorem WorkerView.Right.frame {r : Except Failure c.Reply} {worker : ℕ}
    (h : κ.Right id w notes worker) (hworker : worker ≠ c.worker)
    (hsound : AttemptSound id w notes c f) (hexec : OutboxWorld.exec c f w = some (r, w')) :
    κ.Right id w' (notes ++ c.attemptNote f w) worker := by
  have hlast : w'.lastClaim id = some worker → w.lastClaim id = some worker := by
    intro hlast
    rcases lastClaim_exec id hexec with hkeep | ⟨hown, -⟩
    · exact hkeep ▸ hlast
    · exact absurd (Option.some.inj (hlast.symm.trans hown)) hworker
  refine ⟨fun hfound hclaim => h.unscanned hfound (hlast hclaim), fun event hevent => ?_,
    fun hphase => claimed_exec hexec (fun shopId hs hclaim => ?_) (h.claimed hphase)⟩
  · exact List.mem_append_left _ (h.found event hevent)
  · rw [AttemptSound, hs] at hsound
    have hholds := (hsound rfl).2
    rw [hlast hclaim] at hholds
    exact hworker (Option.some.inj hholds)

/-- What its own call teaches a worker is right. -/
theorem WorkerView.Right.exec {r : Except Failure c.Reply} (h : κ.Right id w notes c.worker)
    (hneeded : κ.Needed config id c.statement) (hexec : OutboxWorld.exec c f w = some (r, w')) :
    (κ.learn id c.statement r).Right id w' (notes ++ c.attemptNote f w) c.worker where
  unscanned hfound hclaim := by
    have hnone := WorkerView.found_of_learn hfound
    rcases lastClaim_exec id hexec with hkeep | ⟨-, ⟨deadline, hs⟩, -⟩
    · exact h.unscanned hnone (hkeep ▸ hclaim)
    · rw [hs] at hneeded
      obtain ⟨event, ⟨events, hevents, -⟩, -⟩ := hneeded rfl
      rw [hnone] at hevents
      cases hevents
  found event hevent := by
    by_cases hs : ∃ now limit, c.statement = .findDue now limit
    · obtain ⟨now, limit, hs⟩ := hs
      obtain ⟨worker, s⟩ := c
      subst hs
      cases r with
      | error e => exact List.mem_append_left _ (h.found event hevent)
      | ok events =>
        rcases exec_reaches hexec with ⟨-, -, e, he⟩ | ⟨-, -, ⟨e, he⟩ | ⟨rfl, heq⟩⟩
        · cases he
        · cases he
        · obtain rfl := Except.ok.inj heq
          obtain ⟨⟨found, hfound, hmem⟩, -⟩ := hevent
          obtain rfl := Option.some.inj hfound
          exact List.mem_append_right _
            (mem_attemptNote_found.mpr ⟨rfl, rfl, now, limit, rfl, hmem⟩)
    · refine List.mem_append_left _ (h.found event ?_)
      have hsame := κ.found_learn id c.statement r fun now limit heq => hs ⟨now, limit, heq⟩
      rwa [WorkerView.Finds, hsame] at hevent
  claimed hphase hclaim := by
    obtain ⟨worker, s⟩ := c
    have hsame (hkeep : κ.phase = .claimed) (hs : ∀ shopId, s ≠ .invalidateShop id shopId) :
        attempted id (notes ++ OutboxCall.attemptNote ⟨worker, s⟩ f w) = false :=
      claimed_exec hexec (fun shopId heq => absurd heq (hs shopId)) (h.claimed hkeep) hclaim
    cases s with
    | claim id' deadline =>
      cases r with
      | error e => exact hsame hphase (by simp)
      | ok n =>
        rw [WorkerView.learn] at hphase
        split at hphase
        next hone =>
          obtain ⟨rfl, rfl⟩ := hone
          rcases exec_reaches hexec with ⟨-, -, e, he⟩ | ⟨-, -, ⟨e, he⟩ | ⟨rfl, heq⟩⟩
          · cases he
          · cases he
          · obtain ⟨r, hr, hstatus⟩ := OutboxTable.claim_eq_one.mp (Except.ok.inj heq).symm
            simp [OutboxCall.attemptNote, OutboxChoice.reaches, hr, hstatus, attempted]
        next => exact hsame hphase (by simp)
    | invalidateShop id' shopId =>
      by_cases hid : id' = id
      · cases r <;> simp [WorkerView.learn, hid] at hphase
      · refine hsame ?_ (by simp [hid])
        cases r <;> simpa [WorkerView.learn, hid] using hphase
    | _ => exact hsame (by cases r <;> exact hphase) (by simp)

end Exec

/-- The attempts are counted, and every worker knows rightly how far it is with the event. -/
structure Accounted (config : OutboxConfig) (id : Long) (c : AttemptPool) : Prop where
  counted : Counted config id c.shared.1 c.shared.2
  nodup : (c.threads.map fun t => t.tag).Nodup
  numbered : ∀ t ∈ c.threads, t.tag < c.shared.1.nextWorker
  claimant : ∀ worker, c.shared.1.lastClaim id = some worker → worker < c.shared.1.nextWorker
  knows : Machine.KnowsOwn (WorkerView.logic config id)
    (fun s worker κ => WorkerView.Right id s.1 s.2 worker κ) c

def AttemptsSound (id : Long) (c : AttemptPool) : Move OutboxChoice OutboxAction → Prop
  | .run i f => ∀ t ∈ c.threads[i]?, t.program.Next fun cmd =>
      AttemptSound id c.shared.1 c.shared.2 cmd f
  | _ => True

section Run
variable {config : OutboxConfig} {id : Long} {c c' : AttemptPool}
  {m : Move OutboxChoice OutboxAction}

theorem nextWorker_exec {w w' : OutboxWorld} {cmd : OutboxCall} {f : OutboxChoice}
    {r : Except Failure cmd.Reply} (h : OutboxWorld.exec cmd f w = some (r, w')) :
    w'.nextWorker = w.nextWorker := by
  rcases (exec_cases h).1 with rfl | rfl
  · rfl
  · obtain ⟨worker, s⟩ := cmd
    cases s <;> rfl

theorem Counted.record {w : OutboxWorld} {notes : List AttemptNote} {id' shopId : Long}
    (h : Counted config id w notes) (hmax : 1 ≤ config.maxRetries)
    (hfresh : id' ∉ w.outbox.rows.map CacheInvalidationOutbox.id) :
    Counted config id { w with outbox := w.outbox.insert (newEvent id' shopId w.clock) hfresh }
        notes ∧
      w.Raises id { w with outbox := w.outbox.insert (newEvent id' shopId w.clock) hfresh } := by
  have hrow : (w.outbox.insert (newEvent id' shopId w.clock) hfresh).row id =
      if id' = id then some (newEvent id' shopId w.clock) else w.outbox.row id :=
    OutboxTable.row_insert _ id hfresh
  by_cases hid : id' = id
  · subst hid
    rw [if_pos rfl] at hrow
    have hnone : w.outbox.row id' = none := by
      refine List.find?_eq_none.mpr fun r hr heq => hfresh ?_
      exact List.mem_map.mpr ⟨r, hr, of_decide_eq_true heq⟩
    have hzero := h.absent hnone
    refine ⟨⟨h.bound, fun _ => hzero, fun r hr => ?_, fun r hr => ?_, fun r hr hp => ?_⟩,
      fun r hr => ?_⟩
    · obtain rfl := Option.some.inj (hrow.symm.trans hr)
      exact .inl ⟨rfl, hzero _⟩
    · obtain rfl := Option.some.inj (hrow.symm.trans hr)
      refine ⟨0, rfl, fun _ => ⟨by omega, ?_⟩, fun hp => by cases hp⟩
      simp [hzero]
    · obtain rfl := Option.some.inj (hrow.symm.trans hr)
      cases hp
    · rw [hnone] at hr
      cases hr
  · rw [if_neg hid] at hrow
    refine ⟨?_, .of_eq hrow⟩
    exact h.frame hrow rfl (fun _ => rfl) rfl fun _ _ _ h _ => h

theorem Accounted.act {a : OutboxAction} {w' : OutboxWorld}
    {started : List (Thread OutboxCall OutboxCall.Reply Failure ℕ)} (h : Accounted config id c)
    (hmax : 1 ≤ config.maxRetries)
    (hact : (outboxWorkers config).act a c.shared.1 = some (w', started)) :
    Accounted config id ⟨(w', c.shared.2), c.threads ++ started⟩ ∧ c.shared.1.Raises id w' := by
  obtain ⟨hcounted, hnodup, hnumbered, hclaimant, hknows⟩ := h
  cases a with
  | scan =>
    cases hact
    refine ⟨⟨⟨hcounted.bound, hcounted.absent, hcounted.stage, hcounted.count, hcounted.claimant⟩,
      Machine.nodup_append_fresh (g := fun n : ℕ => n) hnodup hnumbered rfl,
      Machine.lt_append_fresh (g := fun n : ℕ => n) hnumbered rfl,
      fun worker hworker => Nat.lt_succ_of_lt (hclaimant worker hworker),
      hknows.act (fun _ κ hκ => ⟨hκ.unscanned, hκ.found, hκ.claimed⟩) fun t ht => ?_⟩, .of_eq rfl⟩
    obtain rfl := List.mem_singleton.mp ht
    refine ⟨⟨none, .idle, none⟩, ⟨fun _ hworker => ?_, fun event hevent => ?_, fun hphase => ?_⟩,
      processDueEvents_viewed _⟩
    · exact absurd (hclaimant _ hworker) (lt_irrefl _)
    · obtain ⟨⟨events, hevents, -⟩, -⟩ := hevent
      cases hevents
    · cases hphase
  | tick clock =>
    cases hact
    refine ⟨⟨⟨hcounted.bound, hcounted.absent, hcounted.stage, hcounted.count, hcounted.claimant⟩,
      by simpa using hnodup, by simpa using hnumbered, hclaimant,
      hknows.act (fun _ κ hκ => ⟨hκ.unscanned, hκ.found, hκ.claimed⟩) (by simp)⟩, .of_eq rfl⟩
  | recordShopInvalidation id' shopId =>
    simp only [outboxWorkers] at hact
    split at hact
    swap
    · cases hact
    next hfresh =>
      cases hact
      obtain ⟨hcounted', hraises⟩ := hcounted.record hmax hfresh
      exact ⟨⟨hcounted', by simpa using hnodup, by simpa using hnumbered, hclaimant,
        hknows.act (fun _ κ hκ => ⟨hκ.unscanned, hκ.found, hκ.claimed⟩) (by simp)⟩, hraises⟩

theorem Accounted.step (h : Accounted config id c) (hmax : 1 ≤ config.maxRetries)
    (hsound : AttemptsSound id c m) (hfires : (attemptHistory config).Fires c m c') :
    Accounted config id c' ∧ c.shared.1.Raises id c'.shared.1 := by
  cases hfires with
  | @run i f tag cmd k r s hi hexec =>
    obtain ⟨hcounted, hnodup, hnumbered, hclaimant, hknows⟩ := h
    obtain ⟨hexec', hnotes⟩ := Machine.exec_recording hexec
    obtain ⟨w', notes'⟩ := s
    obtain rfl : notes' = c.shared.2 ++ cmd.attemptNote f c.shared.1 := hnotes
    obtain ⟨κ, hκ, ⟨hworker, hneeded⟩, -⟩ := hknows.thread hi
    obtain rfl : cmd.worker = tag := hworker
    have hsound' : AttemptSound id c.shared.1 c.shared.2 cmd f := hsound _ hi
    obtain ⟨hcounted', hraises⟩ := hcounted.exec hmax hκ hneeded hsound' hexec'
    have hnext : w'.nextWorker = c.shared.1.nextWorker := nextWorker_exec hexec'
    have hrunning := hnumbered _ (List.mem_of_getElem? hi)
    refine ⟨⟨hcounted', ?_, fun t ht => ?_, fun worker hlast => ?_,
      hknows.run hi (fun j t hji hj κ' hκ' => ?_) fun κ' hκ' hpre => ?_⟩, hraises⟩
    · rw [Machine.map_tag_set (g := fun n : ℕ => n) hi]
      exact hnodup
    · rw [hnext]
      rcases Machine.mem_set_thread ht with rfl | ⟨j, -, hj⟩
      · exact hrunning
      · exact hnumbered t (List.mem_of_getElem? hj)
    · rw [hnext]
      rcases lastClaim_exec id hexec' with hkeep | ⟨hown, -⟩
      · exact hclaimant worker (hkeep ▸ hlast)
      · obtain rfl := Option.some.inj (hlast.symm.trans hown)
        exact hrunning
    · have hne := Machine.tag_ne_of_nodup (g := fun n : ℕ => n) hnodup hi hj hji
      exact hκ'.frame hne hsound' hexec'
    · exact ⟨trivial, hκ'.exec hpre.2 hexec'⟩
  | crash bound =>
    refine ⟨⟨h.counted, ?_, fun t ht => h.numbered t (List.mem_of_mem_eraseIdx ht), h.claimant,
      h.knows.crash _⟩, .of_eq rfl⟩
    exact h.nodup.sublist ((List.eraseIdx_sublist _ _).map _)
  | @act a s started hact =>
    obtain ⟨⟨w', started'⟩, hact', hq⟩ := Option.map_eq_some_iff.mp hact
    cases hq
    exact h.act hmax hact'

theorem Accounted.run (h : Accounted config id c) (hmax : 1 ≤ config.maxRetries)
    (hrun : (attemptHistory config).Run (AttemptsSound id) c c') :
    Accounted config id c' ∧ c.shared.1.Raises id c'.shared.1 := by
  refine hrun.invariant (I := fun d => Accounted config id d ∧ c.shared.1.Raises id d.shared.1)
    ⟨h, .of_eq rfl⟩ ?_
  rintro d m d' ⟨hd, hraises⟩ hsound hfires
  obtain ⟨hd', hstep⟩ := hd.step hmax hsound hfires
  exact ⟨hd', hraises.trans hstep⟩

theorem accounted_unattempted (hmax : 1 ≤ config.maxRetries) (clock : ℤ) :
    Accounted config id (unattempted clock) where
  counted := {
    bound := fun stage => by
      show ((0 : ℕ) : ℤ) ≤ config.maxRetries
      omega
    absent := fun _ _ => rfl
    stage := fun r hr => by cases hr
    count := fun r hr => by cases hr
    claimant := fun r hr => by cases hr }
  nodup := List.nodup_nil
  numbered := by simp [unattempted]
  claimant := by simp [unattempted, OutboxWorld.start]
  knows := by simp [Machine.KnowsOwn, unattempted]

/-- In all runs that obey `guard`, the attempts at a stage of the event are at most `maxRetries`,
and within a stage its retry count does not go down. -/
def AttemptsBounded (config : OutboxConfig) (id : Long)
    (guard : AttemptPool → Move OutboxChoice OutboxAction → Prop) : Prop :=
  ∀ clock (c : AttemptPool), (attemptHistory config).Run guard (unattempted clock) c →
    (∀ stage, (AttemptNote.attempts id stage c.shared.2 : ℤ) ≤ config.maxRetries) ∧
    ∀ c', (attemptHistory config).Run guard c c' → c.shared.1.Raises id c'.shared.1

theorem attempts_bounded (config : OutboxConfig) (id : Long) (hmax : 1 ≤ config.maxRetries) :
    AttemptsBounded config id (AttemptsSound id) := by
  intro clock c hrun
  obtain ⟨hc, -⟩ := (accounted_unattempted hmax clock).run hmax hrun
  exact ⟨hc.counted.bound, fun c' hlater => (hc.run hmax hlater).2⟩

instance (w : OutboxWorld) (worker : ℕ) (id : Long) : Decidable (w.HoldsClaim worker id) :=
  inferInstanceAs (Decidable ((∃ r ∈ w.outbox.row id, r.status = .processing) ∧
    w.lastClaim id = some worker))

instance (w : OutboxWorld) (worker : ℕ) (id : Long) : Decidable (w.OwnIfProcessing worker id) :=
  inferInstanceAs (Decidable (∀ r ∈ w.outbox.row id, r.status = .processing →
    w.lastClaim id = some worker))

instance (id : Long) (w : OutboxWorld) (notes : List AttemptNote) :
    (c : OutboxCall) → (f : OutboxChoice) → Decidable (AttemptSound id w notes c f)
  | ⟨_, .claim _ _⟩, _ | ⟨_, .invalidateShop _ _⟩, _ | ⟨_, .scheduleDelayedStage _ _⟩, _
  | ⟨_, .markCompleted _⟩, _ | ⟨_, .markRetry _ _ _ _⟩, _ | ⟨_, .markDead _ _ _⟩, _
  | ⟨_, .recoverExpiredClaims _⟩, _ => inferInstanceAs (Decidable (_ → _))
  | ⟨_, .localNow⟩, _ | ⟨_, .findDue _ _⟩, _ => inferInstanceAs (Decidable True)

instance (id : Long) (c : AttemptPool) :
    (m : Move OutboxChoice OutboxAction) → Decidable (AttemptsSound id c m)
  | .run i f => inferInstanceAs (Decidable (∀ t ∈ c.threads[i]?, t.program.Next fun cmd =>
      AttemptSound id c.shared.1 c.shared.2 cmd f))
  | .crash _ | .act _ => inferInstanceAs (Decidable True)

/-- The shop of an event is invalidated at the second attempt; the first is retried. -/
def retriedOnce : Option AttemptPool :=
  (attemptHistory defaultConfig).play (fun c m => decide (AttemptsSound 1 c m)) (unattempted 0)
    (.act (.recordShopInvalidation 1 9) :: .act .scan :: List.replicate 5 (.run 0 .performed) ++
      .run 0 (.fails "confirm timed out") :: List.replicate 2 (.run 0 .performed) ++
      .act (.tick 2000000000) :: .act .scan :: List.replicate 8 (.run 1 .performed))

theorem attempts_bounded_retriedOnce : ∃ c, retriedOnce = some c ∧
    AttemptNote.attempts 1 (some stageInitial) c.shared.2 = 2 ∧
    ∀ stage, (AttemptNote.attempts 1 stage c.shared.2 : ℤ) ≤ 8 := by
  have hplay : (retriedOnce.map fun c =>
      AttemptNote.attempts 1 (some stageInitial) c.shared.2) = some 2 := by decide +kernel
  obtain ⟨c, hc, hattempts⟩ := Option.map_eq_some_iff.mp hplay
  have hrun : (attemptHistory defaultConfig).Run (AttemptsSound 1) (unattempted 0) c :=
    Machine.run_of_play (fun _ _ => of_decide_eq_true) hc
  exact ⟨c, hc, hattempts, (attempts_bounded defaultConfig 1 (by decide) 0 c hrun).1⟩

/-- A scan claims the event and invalidates the shop, its instance is lost, the lease expires. -/
def lostAttempt (clock : ℤ) : List (Move OutboxChoice OutboxAction) :=
  .act .scan :: List.replicate 6 (.run 0 .performed) ++
    [.crash 0, .act (.tick (clock + 40000000000))]

/-- Nine instances are lost, each after it has invalidated the shop. -/
def lostAttempts : Option AttemptPool :=
  (attemptHistory defaultConfig).play (fun _ _ => true) (unattempted 0)
    (.act (.recordShopInvalidation 1 9) ::
      (List.range 9).flatMap fun n => lostAttempt (40000000000 * n))

/-- An attempt that is lost is not counted. -/
theorem attemptsBounded_fails : ¬ ∀ config id, 1 ≤ config.maxRetries →
    AttemptsBounded config id fun _ _ => True := by
  intro h
  have hplay : (lostAttempts.map fun c =>
      AttemptNote.attempts 1 (some stageInitial) c.shared.2) = some 9 := by decide +kernel
  obtain ⟨c, hc, hattempts⟩ := Option.map_eq_some_iff.mp hplay
  have hrun : (attemptHistory defaultConfig).Run (fun _ _ => True) (unattempted 0) c :=
    Machine.run_of_play (fun _ _ _ => trivial) hc
  have hbound := (h defaultConfig 1 (by decide) 0 c hrun).1 (some stageInitial)
  rw [hattempts] at hbound
  exact absurd hbound (by decide)

end Run

end HmDianPing.Cache
