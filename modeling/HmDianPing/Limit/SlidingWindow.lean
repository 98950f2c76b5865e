import HmDianPing.Redis.SortedSet

/-! # The sliding window limit

`rate_limit.lua` forgets what is too old for the request it serves. Instances with
clocks of their own send timestamps out of order, and a record that is too old for
one request can still count for another that comes later.
-/
namespace HmDianPing.Limit
open Redis

/-- The key of a limiter; `EXPIRE` is only noted, no key expires here. -/
structure LimitKey where
  records : SortedSet String
  ttlSeconds : Option ℤ

/-- What `RateLimitAspect.around` makes of a rule. -/
structure Limiter where
  windowMillis : ℤ
  maxCount : ℕ
  ttlSeconds : ℤ

def Limiter.ofRule (maxCount : ℕ) (windowSeconds : ℤ) : Limiter :=
  ⟨windowSeconds * 1000, maxCount, windowSeconds + 1⟩

structure LimitRequest where
  requestId : String
  now : ℤ
deriving DecidableEq

section Script
variable (l : Limiter) (k : LimitKey) (r : LimitRequest)

/-- The records that are left when those outside the request's window are deleted. -/
def Limiter.current : SortedSet String := k.records.zremRangeByScore 0 (r.now - l.windowMillis)

/-- `rate_limit.lua`. -/
def Limiter.rateLimit : ℤ × LimitKey :=
  let records := l.current k r
  if records.zcard ≥ l.maxCount then (0, ⟨records, some l.ttlSeconds⟩)
  else (1, ⟨records.zadd r.now r.requestId, some l.ttlSeconds⟩)

end Script

structure LimitState where
  key : LimitKey
  /-- History: the requests that were let through. -/
  admitted : List LimitRequest

def LimitState.start : LimitState := ⟨⟨∅, none⟩, []⟩

def Limiter.serve (l : Limiter) (s : LimitState) (r : LimitRequest) : LimitState :=
  let p := l.rateLimit s.key r
  ⟨p.2, if p.1 = 1 then r :: s.admitted else s.admitted⟩

def Limiter.run (l : Limiter) (s : LimitState) (rs : List LimitRequest) : LimitState :=
  rs.foldl l.serve s

def Limiter.InWindow (l : Limiter) (t time : ℤ) : Prop := t - l.windowMillis < time ∧ time ≤ t

instance (l : Limiter) (t time : ℤ) : Decidable (l.InWindow t time) :=
  inferInstanceAs (Decidable (_ ∧ _))

def Limiter.admittedIn (l : Limiter) (s : LimitState) (t : ℤ) : ℕ :=
  s.admitted.countP fun a => l.InWindow t a.now

def Limiter.erasedIn (l : Limiter) (s : LimitState) (t : ℤ) : ℕ :=
  s.admitted.countP fun a => l.InWindow t a.now ∧ s.key.records.zscore a.requestId ≠ some a.now

/-- The records that count for the request although they are outside `(t - W, t]`. -/
def Limiter.outside (l : Limiter) (s : LimitState) (r : LimitRequest) (t : ℤ) : ℕ :=
  (l.current s.key r).members.countP fun p => ¬ l.InWindow t p.2

/-- When fewer than `M` records count for the request, every window of its timestamp has lost at
most as many records as there are outside it. -/
def Limiter.Covers (l : Limiter) (s : LimitState) (r : LimitRequest) : Prop :=
  (l.current s.key r).zcard < l.maxCount →
    ∀ t, l.InWindow t r.now → l.erasedIn s t ≤ l.outside s r t

/-- Every record is of a request that was let through, and these have ids of their own. -/
structure Recorded (s : LimitState) : Prop where
  admitted : ∀ p ∈ s.key.records.members, ⟨p.1, p.2⟩ ∈ s.admitted
  distinct : (s.admitted.map LimitRequest.requestId).Nodup

section Serve
variable {l : Limiter} {s : LimitState} {r : LimitRequest} {t : ℤ}

theorem serve_cases : ((l.current s.key r).zcard ≥ l.maxCount ∧
      l.serve s r = ⟨⟨l.current s.key r, some l.ttlSeconds⟩, s.admitted⟩) ∨
    ((l.current s.key r).zcard < l.maxCount ∧
      l.serve s r = ⟨⟨(l.current s.key r).zadd r.now r.requestId, some l.ttlSeconds⟩,
        r :: s.admitted⟩) := by
  by_cases hfull : (l.current s.key r).zcard ≥ l.maxCount
  · exact .inl ⟨hfull, by simp [Limiter.serve, Limiter.rateLimit, hfull]⟩
  · exact .inr ⟨Nat.lt_of_not_le hfull, by simp [Limiter.serve, Limiter.rateLimit, hfull]⟩

theorem mem_current {p : String × ℤ} (h : p ∈ (l.current s.key r).members) :
    p ∈ s.key.records.members := by
  rw [Limiter.current, SortedSet.members_zremRangeByScore] at h
  exact List.mem_of_mem_filter h

theorem countP_current (ht : l.InWindow t r.now) :
    (l.current s.key r).members.countP (fun p => l.InWindow t p.2) =
      s.key.records.members.countP fun p => l.InWindow t p.2 := by
  rw [Limiter.current, SortedSet.members_zremRangeByScore, List.countP_filter]
  refine List.countP_congr fun p _ => ?_
  simp only [Bool.and_eq_true, decide_eq_true_eq, and_iff_left_iff_imp]
  rintro ⟨hlow, -⟩ ⟨-, hold⟩
  have hnow := ht.2
  omega

theorem Recorded.countP_recorded (h : Recorded s) :
    s.admitted.countP (fun a => l.InWindow t a.now ∧
        s.key.records.zscore a.requestId = some a.now) =
      s.key.records.members.countP fun p => l.InWindow t p.2 := by
  have hinj : Function.Injective fun a : LimitRequest => (a.requestId, a.now) := by
    rintro ⟨i, x⟩ ⟨j, y⟩ hij
    cases hij
    rfl
  have hperm : ((s.admitted.filter fun a => s.key.records.zscore a.requestId = some a.now).map
      fun a => (a.requestId, a.now)).Perm s.key.records.members := by
    refine (List.perm_ext_iff_of_nodup ?_ s.key.records.members_nodup).mpr fun p => ?_
    · exact ((List.Nodup.of_map _ h.distinct).filter _).map hinj
    · constructor
      · intro hp
        obtain ⟨a, ha, rfl⟩ := List.mem_map.mp hp
        exact SortedSet.mem_members _ |>.mpr (of_decide_eq_true (List.mem_filter.mp ha).2)
      · intro hp
        have hscore := (SortedSet.mem_members _).mp hp
        exact List.mem_map.mpr ⟨⟨p.1, p.2⟩, List.mem_filter.mpr ⟨h.admitted p hp, by simpa⟩, rfl⟩
  rw [← hperm.countP_eq, List.countP_map, List.countP_filter]
  exact List.countP_congr fun a _ => by simp

theorem Recorded.admittedIn_eq (h : Recorded s) (ht : l.InWindow t r.now) :
    l.admittedIn s t + l.outside s r t = l.erasedIn s t + (l.current s.key r).zcard := by
  have hsplit : l.admittedIn s t = l.erasedIn s t +
      s.key.records.members.countP (fun p => l.InWindow t p.2) := by
    rw [Limiter.admittedIn, List.countP_eq_countP_filter_add _ _
      (fun a => s.key.records.zscore a.requestId ≠ some a.now), ← h.countP_recorded, Limiter.erasedIn,
      List.countP_filter, List.countP_filter]
    congr 1 <;> exact List.countP_congr fun a _ => by simp
  have hlength : (l.current s.key r).zcard =
      (l.current s.key r).members.countP (fun p => l.InWindow t p.2) + l.outside s r t := by
    rw [← SortedSet.length_members, List.length_eq_countP_add_countP
      (fun p : String × ℤ => l.InWindow t p.2)]
    congr 1
    exact List.countP_congr fun p _ => by simp
  rw [countP_current ht] at hlength
  omega

theorem Recorded.serve (h : Recorded s) (hnew : r.requestId ∉ s.admitted.map LimitRequest.requestId) :
    Recorded (l.serve s r) := by
  rcases serve_cases (l := l) (s := s) (r := r) with ⟨-, hs⟩ | ⟨-, hs⟩
  · rw [hs]
    exact ⟨fun p hp => h.admitted p (mem_current hp), h.distinct⟩
  · have habsent : (l.current s.key r).zscore r.requestId = none := by
      refine Option.eq_none_iff_forall_ne_some.mpr fun x hx => hnew ?_
      have hp : (r.requestId, x) ∈ (l.current s.key r).members := (SortedSet.mem_members _).mpr hx
      exact List.mem_map.mpr ⟨_, h.admitted _ (mem_current hp), rfl⟩
    rw [hs]
    refine ⟨fun p hp => ?_, List.nodup_cons.mpr ⟨hnew, h.distinct⟩⟩
    rw [SortedSet.members_zadd _ habsent] at hp
    rcases List.mem_cons.mp hp with rfl | hp
    · exact List.mem_cons_self
    · exact List.mem_cons_of_mem _ (h.admitted p (mem_current hp))

theorem Recorded.limit_serve (h : Recorded s) (hc : l.Covers s r)
    (hlimit : ∀ t, l.admittedIn s t ≤ l.maxCount) (t : ℤ) :
    l.admittedIn (l.serve s r) t ≤ l.maxCount := by
  rcases serve_cases (l := l) (s := s) (r := r) with ⟨-, hs⟩ | ⟨hfree, hs⟩
  · rw [hs]; exact hlimit t
  · rw [hs]
    by_cases ht : l.InWindow t r.now
    · have hcount := h.admittedIn_eq (r := r) ht
      have hcovered := hc hfree t ht
      have hone : l.admittedIn ⟨⟨(l.current s.key r).zadd r.now r.requestId, some l.ttlSeconds⟩,
          r :: s.admitted⟩ t = l.admittedIn s t + 1 := by
        simp [Limiter.admittedIn, ht]
      omega
    · simpa [Limiter.admittedIn, ht] using hlimit t

end Serve

section Run
variable {l : Limiter} {s : LimitState} {rs : List LimitRequest}

def Fresh (s : LimitState) (rs : List LimitRequest) : Prop :=
  (s.admitted.map LimitRequest.requestId ++ rs.map LimitRequest.requestId).Nodup

theorem Fresh.head {r : LimitRequest} (h : Fresh s (r :: rs)) :
    r.requestId ∉ s.admitted.map LimitRequest.requestId := by
  intro hmem
  exact (List.nodup_append.mp h).2.2 _ hmem _ List.mem_cons_self rfl

theorem Fresh.serve {r : LimitRequest} (h : Fresh s (r :: rs)) : Fresh (l.serve s r) rs := by
  rcases serve_cases (l := l) (s := s) (r := r) with ⟨-, hs⟩ | ⟨-, hs⟩
  · rw [hs]
    exact h.sublist (List.Sublist.append_left (List.sublist_cons_self _ _) _)
  · rw [hs]
    exact (List.perm_middle.nodup_iff.mp h)

/-- Requests that are covered when they are served keep the limit. -/
theorem Recorded.limit_run (h : Recorded s) (hfresh : Fresh s rs)
    (hlimit : ∀ t, l.admittedIn s t ≤ l.maxCount)
    (hc : ∀ pre r post, rs = pre ++ r :: post → l.Covers (l.run s pre) r) (t : ℤ) :
    l.admittedIn (l.run s rs) t ≤ l.maxCount := by
  induction rs generalizing s with
  | nil => exact hlimit t
  | cons r rs ih =>
    refine ih (h.serve hfresh.head) hfresh.serve (h.limit_serve (hc [] r rs rfl) hlimit) ?_
    rintro pre r' post rfl
    exact hc (r :: pre) r' post rfl

end Run

theorem recorded_start : Recorded .start :=
  ⟨fun p hp => absurd hp (by simp [LimitState.start, SortedSet.members]), List.nodup_nil⟩

/-- At most `M` admitted requests in every window, whatever order the timestamps come in, when
every request is covered. -/
theorem sliding_window_limit (l : Limiter) (rs : List LimitRequest)
    (hids : (rs.map LimitRequest.requestId).Nodup)
    (hc : ∀ pre r post, rs = pre ++ r :: post → l.Covers (l.run .start pre) r) (t : ℤ) :
    l.admittedIn (l.run .start rs) t ≤ l.maxCount :=
  recorded_start.limit_run hids (fun t => by simp [Limiter.admittedIn, LimitState.start]) hc t

section Tight
variable {l : Limiter} {s : LimitState} {r r' : LimitRequest} {t : ℤ}

theorem Recorded.current_serve (h : Recorded s)
    (hnew : r'.requestId ∉ s.admitted.map LimitRequest.requestId) (htime : r'.now = r.now)
    (ht : l.InWindow t r.now) (hfree : (l.current s.key r).zcard < l.maxCount) :
    (l.current (l.serve s r').key r).members =
      (r'.requestId, r.now) :: (l.current s.key r).members := by
  have hsame : l.current s.key r' = l.current s.key r := by rw [Limiter.current, htime]; rfl
  rcases serve_cases (l := l) (s := s) (r := r') with ⟨hfull, -⟩ | ⟨-, hs⟩
  · rw [hsame] at hfull; omega
  · have habsent : (l.current s.key r).zscore r'.requestId = none := by
      refine Option.eq_none_iff_forall_ne_some.mpr fun x hx => hnew ?_
      have hp : (r'.requestId, x) ∈ (l.current s.key r).members := (SortedSet.mem_members _).mpr hx
      exact List.mem_map.mpr ⟨_, h.admitted _ (mem_current hp), rfl⟩
    have hwindow : 0 < l.windowMillis := by have hlow := ht.1; have hup := ht.2; omega
    rw [hs, hsame, htime, Limiter.current, SortedSet.members_zremRangeByScore,
      SortedSet.members_zadd _ habsent]
    have hkeep : ¬ (0 ≤ r.now ∧ r.now ≤ r.now - l.windowMillis) := by omega
    rw [List.filter_cons, if_pos (decide_eq_true hkeep)]
    congr 1
    rw [Limiter.current, SortedSet.members_zremRangeByScore, List.filter_filter]
    simp

theorem Recorded.exceeds (h : Recorded s) (ht : l.InWindow t r.now)
    (hlost : l.outside s r t < l.erasedIn s t) (ids : List String)
    (hfresh : Fresh s (ids.map fun i => ⟨i, r.now⟩))
    (hlength : (l.current s.key r).zcard + ids.length = l.maxCount) :
    l.maxCount < l.admittedIn (l.run s (ids.map fun i => ⟨i, r.now⟩)) t := by
  induction ids generalizing s with
  | nil =>
    have hcount := h.admittedIn_eq (r := r) ht
    simp only [List.length_nil] at hlength
    show l.maxCount < l.admittedIn s t
    omega
  | cons i ids ih =>
    have hhead : i ∉ s.admitted.map LimitRequest.requestId := hfresh.head
    have hfree : (l.current s.key r).zcard < l.maxCount := by
      simp only [List.length_cons] at hlength
      omega
    have hcurrent : (l.current (l.serve s ⟨i, r.now⟩).key r).members =
        (i, r.now) :: (l.current s.key r).members := h.current_serve hhead rfl ht hfree
    have hrecorded : Recorded (l.serve s ⟨i, r.now⟩) := h.serve hhead
    have hcard : (l.current (l.serve s ⟨i, r.now⟩).key r).zcard = (l.current s.key r).zcard + 1 := by
      rw [← SortedSet.length_members, hcurrent, List.length_cons, SortedSet.length_members]
    have houtside : l.outside (l.serve s ⟨i, r.now⟩) r t = l.outside s r t := by
      rw [Limiter.outside, hcurrent]
      simp [Limiter.outside, ht]
    have hadmitted : l.admittedIn (l.serve s ⟨i, r.now⟩) t = l.admittedIn s t + 1 := by
      rcases serve_cases (l := l) (s := s) (r := ⟨i, r.now⟩) with ⟨hfull, -⟩ | ⟨-, hs⟩
      · exact absurd hfull (Nat.not_le.mpr hfree)
      · rw [hs]
        simp [Limiter.admittedIn, ht]
    have hbefore := h.admittedIn_eq (r := r) ht
    have hafter := hrecorded.admittedIn_eq (r := r) ht
    have hserved : Fresh (l.serve s ⟨i, r.now⟩) (ids.map fun i => ⟨i, r.now⟩) := hfresh.serve
    have hlost' : l.outside (l.serve s ⟨i, r.now⟩) r t < l.erasedIn (l.serve s ⟨i, r.now⟩) t := by
      omega
    have hlength' : (l.current (l.serve s ⟨i, r.now⟩).key r).zcard + ids.length = l.maxCount := by
      simp only [List.length_cons] at hlength
      omega
    exact ih hrecorded hlost' hserved hlength'

/-- The condition is tight: a request that is not covered exceeds the limit when it is repeated. -/
theorem Recorded.exceeds_of_uncovered (h : Recorded s) (hc : ¬ l.Covers s r) :
    ∃ t n, ∀ ids : List String, ids.length = n → Fresh s (ids.map fun i => ⟨i, r.now⟩) →
      l.maxCount < l.admittedIn (l.run s (ids.map fun i => ⟨i, r.now⟩)) t := by
  simp only [Limiter.Covers, not_forall, Nat.not_le] at hc
  obtain ⟨hfree, t, ht, hlost⟩ := hc
  refine ⟨t, l.maxCount - (l.current s.key r).zcard, fun ids hn hfresh => ?_⟩
  exact h.exceeds ht hlost ids hfresh (by omega)

end Tight

section Ordered
variable {l : Limiter} {s : LimitState} {r : LimitRequest} {time : ℤ}

/-- Only records that are too old at this time have been deleted. -/
def Limiter.ErasedBy (l : Limiter) (s : LimitState) (time : ℤ) : Prop :=
  ∀ a ∈ s.admitted, s.key.records.zscore a.requestId = some a.now ∨ a.now ≤ time - l.windowMillis

theorem Limiter.ErasedBy.covers (h : l.ErasedBy s time) (hle : time ≤ r.now) : l.Covers s r := by
  intro _ t ht
  have hnone : l.erasedIn s t = 0 := by
    refine List.countP_eq_zero.mpr fun a ha => ?_
    simp only [decide_eq_true_eq, not_and, not_not]
    rintro ⟨hlow, -⟩
    refine (h a ha).resolve_right fun hold => ?_
    have hnow := ht.2
    omega
  rw [hnone]
  exact Nat.zero_le _

theorem Limiter.ErasedBy.serve (h : l.ErasedBy s time) (hle : time ≤ r.now)
    (hnew : r.requestId ∉ s.admitted.map LimitRequest.requestId) :
    l.ErasedBy (l.serve s r) r.now := by
  have hkept : ∀ a ∈ s.admitted, (l.current s.key r).zscore a.requestId = some a.now ∨
      a.now ≤ r.now - l.windowMillis := by
    intro a ha
    rcases h a ha with hrecord | hold
    · by_cases hage : a.now ≤ r.now - l.windowMillis
      · exact .inr hage
      · left
        have hmem : (a.requestId, a.now) ∈ (l.current s.key r).members := by
          rw [Limiter.current, SortedSet.members_zremRangeByScore, List.mem_filter]
          exact ⟨(SortedSet.mem_members _).mpr hrecord, decide_eq_true fun hle => hage hle.2⟩
        exact (SortedSet.mem_members _).mp hmem
    · exact .inr (by omega)
  rcases serve_cases (l := l) (s := s) (r := r) with ⟨-, hs⟩ | ⟨-, hs⟩
  · rw [hs]; exact hkept
  · rw [hs]
    intro a ha
    rcases List.mem_cons.mp ha with rfl | ha
    · exact .inl (AList.lookup_insert _)
    · refine (hkept a ha).imp_left fun hrecord => ?_
      have hne : a.requestId ≠ r.requestId := fun he => hnew (List.mem_map.mpr ⟨a, ha, he⟩)
      exact (AList.lookup_insert_ne hne).trans hrecord

theorem Limiter.ErasedBy.covers_run (h : l.ErasedBy s time) {rs : List LimitRequest}
    (hfresh : Fresh s rs) (hordered : (time :: rs.map LimitRequest.now).Pairwise (· ≤ ·)) :
    ∀ pre r post, rs = pre ++ r :: post → l.Covers (l.run s pre) r := by
  induction rs generalizing s time with
  | nil => intro pre r post hrs; simp at hrs
  | cons r₁ rs ih =>
    obtain ⟨hmin, hrest⟩ := List.pairwise_cons.mp hordered
    have hle : time ≤ r₁.now := hmin _ List.mem_cons_self
    intro pre r post hrs
    cases pre with
    | nil =>
      obtain ⟨rfl, -⟩ := List.cons.inj hrs
      exact h.covers hle
    | cons r₂ pre =>
      obtain ⟨rfl, htail⟩ := List.cons.inj hrs
      exact ih (h.serve hle hfresh.head) hfresh.serve hrest pre r post htail

theorem erasedBy_start (l : Limiter) (time : ℤ) : l.ErasedBy .start time :=
  fun a ha => absurd ha (by simp [LimitState.start])

end Ordered

def twoPerSecond : Limiter := .ofRule 2 1

theorem sliding_window_limit_ordered : twoPerSecond.admittedIn
    (twoPerSecond.run .start [⟨"a", 1000⟩, ⟨"b", 1000⟩, ⟨"c", 1400⟩, ⟨"d", 2100⟩]) 1900 ≤ 2 :=
  sliding_window_limit twoPerSecond [⟨"a", 1000⟩, ⟨"b", 1000⟩, ⟨"c", 1400⟩, ⟨"d", 2100⟩] (by decide)
    ((erasedBy_start twoPerSecond 0).covers_run (by unfold Fresh; decide) (by decide)) 1900

/-- An instance whose clock is ahead deletes both records, and a third request of the first second
is let through. -/
theorem slidingWindowLimit_fails : ¬ ∀ (l : Limiter) (rs : List LimitRequest),
    1 ≤ l.maxCount → (rs.map LimitRequest.requestId).Nodup →
      ∀ t, l.admittedIn (l.run .start rs) t ≤ l.maxCount := by
  intro h
  have hlimit := h twoPerSecond [⟨"a", 1000⟩, ⟨"b", 1001⟩, ⟨"c", 2500⟩, ⟨"d", 1200⟩] (by decide)
    (by decide) 1200
  exact absurd hlimit (by decide)

end HmDianPing.Limit
