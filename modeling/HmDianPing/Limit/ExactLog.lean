import HmDianPing.Limit.SlidingWindow

/-! # The limiter as a sliding log

While the timestamps do not go back, the records that `rate_limit.lua` counts are those
of the requests it has let through in its window. The key expires after a call, and by
then none of its records counts any more.
-/
namespace HmDianPing.Limit
open Redis

/-- One execution of the script, at a time of the Redis clock in milliseconds. -/
structure Execution where
  request : LimitRequest
  clock : ℤ
deriving DecidableEq

structure LogState where
  state : LimitState
  /-- The Redis clock at the last `EXPIRE`. -/
  setAt : ℤ

def LogState.start : LogState := ⟨.start, 0⟩

def LimitState.forget (s : LimitState) : LimitState := ⟨⟨∅, none⟩, s.admitted⟩

/-- The state that a command finds at `clock`, after the TTL has run out or not. -/
def LogState.found (s : LogState) (clock : ℤ) : LimitState :=
  match s.state.key.ttlSeconds with
  | none => s.state
  | some ttl => if s.setAt + ttl * 1000 < clock then s.state.forget else s.state

def Limiter.execute (l : Limiter) (s : LogState) (e : Execution) : LogState :=
  let served := l.serve (s.found e.clock) e.request
  ⟨if l.ttlSeconds ≤ 0 then served.forget else served, e.clock⟩

def Limiter.executeAll (l : Limiter) (s : LogState) (es : List Execution) : LogState :=
  es.foldl l.execute s

def Limiter.returned (l : Limiter) (s : LogState) (e : Execution) : ℤ :=
  (l.rateLimit (s.found e.clock).key e.request).1

/-- The records are those of the log that are not too old at `time`. -/
structure Limiter.Exact (l : Limiter) (s : LimitState) (time : ℤ) : Prop where
  recorded : Recorded s
  erased : l.ErasedBy s time
  bounded : ∀ a ∈ s.admitted, 0 ≤ a.now ∧ a.now ≤ time

section Exact
variable {l : Limiter} {s : LimitState} {r : LimitRequest} {time : ℤ}

theorem exact_start (l : Limiter) (time : ℤ) : l.Exact .start time :=
  ⟨recorded_start, erasedBy_start l time, fun a ha => absurd ha (by simp [LimitState.start])⟩

theorem Limiter.Exact.later (h : l.Exact s time) (hle : time ≤ r.now) : l.Exact s r.now := by
  refine ⟨h.recorded, ?_, ?_⟩
  · intro a ha
    refine (h.erased a ha).imp_right fun hold => ?_
    omega
  · intro a ha
    have hb := h.bounded a ha
    omega

/-- A key may go once all its records are too old. -/
theorem Limiter.Exact.forget (h : l.Exact s time)
    (hold : ∀ a ∈ s.admitted, a.now ≤ time - l.windowMillis) : l.Exact s.forget time := by
  refine ⟨⟨?_, h.recorded.distinct⟩, fun a ha => .inr (hold a ha), h.bounded⟩
  intro p hp
  simp [LimitState.forget, SortedSet.members] at hp

theorem Limiter.Exact.serve (h : l.Exact s time) (hle : time ≤ r.now) (hr : 0 ≤ r.now)
    (hnew : r.requestId ∉ s.admitted.map LimitRequest.requestId) : l.Exact (l.serve s r) r.now := by
  refine ⟨h.recorded.serve hnew, h.erased.serve hle hnew, ?_⟩
  have hb := (h.later hle).bounded
  rcases serve_cases (l := l) (s := s) (r := r) with ⟨-, hs⟩ | ⟨-, hs⟩
  · rw [hs]
    exact hb
  · rw [hs]
    intro a ha
    rcases List.mem_cons.mp ha with rfl | ha
    · exact ⟨hr, le_refl _⟩
    · exact hb a ha

theorem Limiter.Exact.zcard_current (h : l.Exact s r.now) :
    (l.current s.key r).zcard = l.admittedIn s r.now := by
  have hmember : ∀ p ∈ s.key.records.members, 0 ≤ p.2 ∧ p.2 ≤ r.now := fun p hp =>
    h.bounded _ (h.recorded.admitted p hp)
  have hrecord : ∀ a ∈ s.admitted, l.InWindow r.now a.now →
      s.key.records.zscore a.requestId = some a.now := by
    intro a ha hin
    refine (h.erased a ha).resolve_right fun hold => ?_
    have hlow := hin.1
    omega
  rw [← SortedSet.length_members, Limiter.current, SortedSet.members_zremRangeByScore,
    ← List.countP_eq_length_filter, Limiter.admittedIn]
  calc s.key.records.members.countP (fun p => ¬ (0 ≤ p.2 ∧ p.2 ≤ r.now - l.windowMillis))
      = s.key.records.members.countP fun p => l.InWindow r.now p.2 := by
        refine List.countP_congr fun p hp => ?_
        have hb := hmember p hp
        have hiff : ¬ (0 ≤ p.2 ∧ p.2 ≤ r.now - l.windowMillis) ↔ l.InWindow r.now p.2 := by
          unfold Limiter.InWindow
          omega
        simp only [decide_eq_true_eq]
        exact hiff
    _ = s.admitted.countP (fun a => l.InWindow r.now a.now ∧
          s.key.records.zscore a.requestId = some a.now) := h.recorded.countP_recorded.symm
    _ = s.admitted.countP fun a => l.InWindow r.now a.now := by
        refine List.countP_congr fun a ha => ?_
        simpa using hrecord a ha

/-- An exact key lets a request through when the log has room for it in its window. -/
theorem Limiter.Exact.rateLimit_eq (h : l.Exact s r.now) :
    (l.rateLimit s.key r).1 = if l.admittedIn s r.now < l.maxCount then 1 else 0 := by
  rw [← h.zcard_current, Limiter.rateLimit]
  split
  · next hfull => rw [if_neg (Nat.not_lt.mpr hfull)]
  · next hfree => rw [if_pos (Nat.lt_of_not_le hfree)]

theorem Limiter.Exact.serve_admitted (h : l.Exact s r.now) : (l.serve s r).admitted =
    if l.admittedIn s r.now < l.maxCount then r :: s.admitted else s.admitted := by
  rw [Limiter.serve]
  simp only [h.rateLimit_eq]
  split <;> simp

end Exact

section Run
variable {l : Limiter} {s : LogState} {e : Execution} {time : ℤ}

/-- The key is exact and outlives the window of the request that it was left by. -/
structure Limiter.Logged (l : Limiter) (s : LogState) (time : ℤ) : Prop where
  exact : l.Exact s.state time
  ttl : ∀ ttl ∈ s.state.key.ttlSeconds, l.windowMillis ≤ ttl * 1000

theorem Limiter.Logged.found (h : l.Logged s time)
    (hclock : s.state.key.ttlSeconds ≠ none → e.clock - s.setAt ≤ e.request.now - time)
    (hle : time ≤ e.request.now) : l.Exact (s.found e.clock) e.request.now := by
  have hlater := h.exact.later hle
  unfold LogState.found
  split
  · exact hlater
  · next ttl httl =>
    split_ifs with hgone
    · refine hlater.forget fun a ha => ?_
      have hb := h.exact.bounded a ha
      have hwindow := h.ttl ttl httl
      have hc := hclock (by simp [httl])
      omega
    · exact hlater

theorem found_admitted (s : LogState) (clock : ℤ) :
    (s.found clock).admitted = s.state.admitted := by
  unfold LogState.found
  split
  · rfl
  · split_ifs <;> rfl

theorem execute_admitted (h : l.Exact (s.found e.clock) e.request.now) :
    (l.execute s e).state.admitted =
      if l.admittedIn s.state e.request.now < l.maxCount then e.request :: s.state.admitted
      else s.state.admitted := by
  have hserve := h.serve_admitted
  rw [Limiter.admittedIn, found_admitted] at hserve
  rw [← Limiter.admittedIn] at hserve
  unfold Limiter.execute
  dsimp only
  split
  · exact hserve
  · exact hserve

theorem serve_ttl (l : Limiter) (s : LimitState) (r : LimitRequest) :
    (l.serve s r).key.ttlSeconds = some l.ttlSeconds := by
  rcases serve_cases (l := l) (s := s) (r := r) with ⟨-, hs⟩ | ⟨-, hs⟩ <;> rw [hs]

theorem Limiter.Exact.execute (h : l.Exact (s.found e.clock) e.request.now)
    (hwindow : l.windowMillis ≤ l.ttlSeconds * 1000) (hr : 0 ≤ e.request.now)
    (hnew : e.request.requestId ∉ s.state.admitted.map LimitRequest.requestId) :
    l.Logged (l.execute s e) e.request.now := by
  have hserve := h.serve (le_refl _) hr (by rwa [found_admitted])
  unfold Limiter.execute
  dsimp only
  split_ifs with hpos
  · refine ⟨hserve.forget fun a ha => ?_, by simp [LimitState.forget]⟩
    have hb := hserve.bounded a ha
    omega
  · refine ⟨hserve, fun ttl httl => ?_⟩
    rw [serve_ttl] at httl
    obtain rfl : l.ttlSeconds = ttl := by simpa using httl
    exact hwindow

/-- Timestamps do not go back, and the Redis clock does not outrun them. -/
def Steady (e f : Execution) : Prop :=
  e.request.now ≤ f.request.now ∧ f.clock - e.clock ≤ f.request.now - e.request.now

instance (e f : Execution) : Decidable (Steady e f) := inferInstanceAs (Decidable (_ ∧ _))

structure LogState.Follows (s : LogState) (time : ℤ) (es : List Execution) : Prop where
  nonneg : 0 ≤ time
  first : ∀ e ∈ es, time ≤ e.request.now ∧
    (s.state.key.ttlSeconds ≠ none → e.clock - s.setAt ≤ e.request.now - time)
  steady : es.Pairwise Steady
  fresh : Fresh s.state (es.map Execution.request)

theorem fresh_execute {es : List Execution} (h : Fresh s.state ((e :: es).map Execution.request)) :
    Fresh (l.execute s e).state (es.map Execution.request) := by
  have hfound : Fresh (s.found e.clock) (e.request :: es.map Execution.request) := by
    rw [Fresh, found_admitted]
    exact h
  have hserve : Fresh (l.serve (s.found e.clock) e.request) (es.map Execution.request) := hfound.serve
  unfold Limiter.execute
  dsimp only
  split
  · exact hserve
  · exact hserve

theorem LogState.Follows.execute {es : List Execution} (h : s.Follows time (e :: es)) :
    (l.execute s e).Follows e.request.now es where
  nonneg := h.nonneg.trans (h.first e List.mem_cons_self).1
  first f hf := by
    have hef := (List.pairwise_cons.mp h.steady).1 f hf
    exact ⟨hef.1, fun _ => hef.2⟩
  steady := (List.pairwise_cons.mp h.steady).2
  fresh := fresh_execute h.fresh

theorem Limiter.Logged.found_head {es : List Execution} (h : l.Logged s time)
    (hes : s.Follows time (e :: es)) : l.Exact (s.found e.clock) e.request.now := by
  obtain ⟨hle, hclock⟩ := hes.first e List.mem_cons_self
  exact h.found hclock hle

theorem Limiter.Logged.execute {es : List Execution} (h : l.Logged s time)
    (hwindow : l.windowMillis ≤ l.ttlSeconds * 1000) (hes : s.Follows time (e :: es)) :
    l.Logged (l.execute s e) e.request.now :=
  (h.found_head hes).execute hwindow (hes.nonneg.trans (hes.first e List.mem_cons_self).1) hes.fresh.head

theorem Limiter.Logged.exact_run {es : List Execution} (h : l.Logged s time)
    (hwindow : l.windowMillis ≤ l.ttlSeconds * 1000) (hes : s.Follows time es) :
    ∀ pre e post, es = pre ++ e :: post →
      l.Exact ((l.executeAll s pre).found e.clock) e.request.now := by
  induction es generalizing s time with
  | nil => intro pre e post he; simp at he
  | cons e₁ es ih =>
    intro pre e post he
    cases pre with
    | nil =>
      obtain ⟨rfl, -⟩ := List.cons.inj he
      exact h.found_head hes
    | cons e₂ pre =>
      obtain ⟨rfl, htail⟩ := List.cons.inj he
      exact ih (h.execute hwindow hes) hes.execute pre e post htail

/-- A key that keeps its records for ever lets the same requests through. -/
theorem Limiter.Logged.same_run {es : List Execution} (h : l.Logged s time)
    (hwindow : l.windowMillis ≤ l.ttlSeconds * 1000) (hes : s.Follows time es) {u : LimitState}
    (hu : l.Exact u time) (hsame : u.admitted = s.state.admitted) :
    ∀ pre e post, es = pre ++ e :: post →
      l.Exact (l.run u (pre.map Execution.request)) e.request.now ∧
        (l.run u (pre.map Execution.request)).admitted = (l.executeAll s pre).state.admitted := by
  induction es generalizing s u time with
  | nil => intro pre e post he; simp at he
  | cons e₁ es ih =>
    have hle : time ≤ e₁.request.now := (hes.first e₁ List.mem_cons_self).1
    intro pre e post he
    cases pre with
    | nil =>
      obtain ⟨rfl, -⟩ := List.cons.inj he
      exact ⟨hu.later hle, hsame⟩
    | cons e₂ pre =>
      obtain ⟨rfl, htail⟩ := List.cons.inj he
      have hnew : e₁.request.requestId ∉ u.admitted.map LimitRequest.requestId :=
        hsame ▸ hes.fresh.head
      have hserved : (l.serve u e₁.request).admitted = (l.execute s e₁).state.admitted := by
        rw [(hu.later hle).serve_admitted, execute_admitted (h.found_head hes), Limiter.admittedIn,
          Limiter.admittedIn, hsame]
      exact ih (h.execute hwindow hes) hes.execute (hu.serve hle (hes.nonneg.trans hle) hnew) hserved
        pre e post htail

/-- The limiter is an exact sliding log of what it has let through, and its TTL changes no answer. -/
theorem rate_limit_exact (windowSeconds M : ℤ) (es : List Execution)
    (hids : (es.map fun e => e.request.requestId).Nodup) (hnow : ∀ e ∈ es, 0 ≤ e.request.now)
    (hsteady : es.Pairwise Steady) (pre : List Execution) (e : Execution) (post : List Execution)
    (hes : es = pre ++ e :: post) :
    let l := Limiter.ofRule M.toNat windowSeconds
    (l.returned (l.executeAll .start pre) e = 1 ↔
      (l.admittedIn (l.executeAll .start pre).state e.request.now : ℤ) < M) ∧
    l.returned (l.executeAll .start pre) e =
      (l.rateLimit (l.run .start (pre.map Execution.request)).key e.request).1 := by
  intro l
  have hstart : l.Logged .start 0 := ⟨exact_start l 0, by simp [LogState.start, LimitState.start]⟩
  have hwindow : l.windowMillis ≤ l.ttlSeconds * 1000 := by
    simp only [l, Limiter.ofRule]
    omega
  have hfollows : LogState.start.Follows 0 es :=
    ⟨le_refl _, fun e he => ⟨hnow e he, by simp [LogState.start, LimitState.start]⟩, hsteady, by
      simpa [Fresh, LogState.start, LimitState.start, Function.comp_def] using hids⟩
  have hexact := hstart.exact_run hwindow hfollows pre e post hes
  obtain ⟨hforever, hsame⟩ :=
    hstart.same_run hwindow hfollows (exact_start l 0) rfl pre e post hes
  have hcount : l.admittedIn (l.run .start (pre.map Execution.request)) e.request.now =
      l.admittedIn ((l.executeAll .start pre).found e.clock) e.request.now := by
    rw [Limiter.admittedIn, Limiter.admittedIn, hsame, found_admitted]
  have hreturned := hexact.rateLimit_eq
  constructor
  · rw [Limiter.returned, hreturned, Limiter.admittedIn, found_admitted, ← Limiter.admittedIn]
    have hm : l.maxCount = M.toNat := rfl
    split_ifs <;> omega
  · rw [Limiter.returned, hreturned, hforever.rateLimit_eq, hcount]

theorem rate_limit_exact_expired :
    let l := Limiter.ofRule 1 1
    l.returned (l.executeAll .start [⟨⟨"a", 1000⟩, 0⟩, ⟨⟨"b", 1999⟩, 999⟩]) ⟨⟨"c", 5000⟩, 4000⟩ = 1 := by
  have h := rate_limit_exact 1 1 [⟨⟨"a", 1000⟩, 0⟩, ⟨⟨"b", 1999⟩, 999⟩, ⟨⟨"c", 5000⟩, 4000⟩] (by decide)
    (by decide) (by decide) [⟨⟨"a", 1000⟩, 0⟩, ⟨⟨"b", 1999⟩, 999⟩] ⟨⟨"c", 5000⟩, 4000⟩ [] rfl
  exact h.1.mpr (by decide)

/-- The timestamps have to be those of a clock: the range that the script deletes starts at 0. -/
theorem rateLimitExact_fails : ¬ ∀ (windowSeconds M : ℤ) (es : List Execution),
    (es.map fun e => e.request.requestId).Nodup → es.Pairwise Steady →
      ∀ pre e post, es = pre ++ e :: post →
        let l := Limiter.ofRule M.toNat windowSeconds
        (l.returned (l.executeAll .start pre) e = 1 ↔
          (l.admittedIn (l.executeAll .start pre).state e.request.now : ℤ) < M) := by
  intro h
  have hlog := h 1 1 [⟨⟨"a", -5000⟩, 0⟩, ⟨⟨"b", -3000⟩, 0⟩] (by decide) (by decide)
    [⟨⟨"a", -5000⟩, 0⟩] ⟨⟨"b", -3000⟩, 0⟩ [] rfl
  exact absurd hlog (by decide)

end Run

end HmDianPing.Limit
