import Mathlib.Data.List.Infix
import Mathlib.Data.List.Count
import HmDianPing.Redis.Expiring

/-! # The quota of login codes

`sms_reserve.lua` keeps two keys for a phone: one that says a code was sent lately, and
a counter of the day. They expire on their own, and a run of the script sees what is left.
-/
namespace HmDianPing.Login
open Redis

/-- `sms:send:{phone}:cooldown` and `sms:send:{phone}:daily`. -/
inductive SmsKey where
  | cooldown | daily
deriving DecidableEq, Repr

abbrev SmsKeys := Keyspace SmsKey ℤ

section Script
variable (interval maximum now : ℤ)

/-- `sms_reserve.lua`; no reply when `SET` refuses the interval. -/
def smsReserve (db : SmsKeys) : Option ℤ × SmsKeys :=
  if db.existsKey now .cooldown then (some 0, db) else
  let count := (db.get now .daily).getD 0
  if count ≥ maximum then (some (-1), db) else
  match db.setEx now .cooldown 1 interval with
  | none => (none, db)
  | some db =>
    let total := db.incr now .daily
    (some 1, if total.1 = 1 then total.2.expire now .daily 86400 else total.2)

def countedUp (now : ℤ) : Option (Entry ℤ) → Entry ℤ
  | none => ⟨1, some (now + 86400000)⟩
  | some e => ⟨e.value + 1, if e.value + 1 = 1 then some (now + 86400000) else e.expireAt⟩

theorem smsReserve_cases (db : SmsKeys) :
    ((smsReserve interval maximum now db).1 ≠ some 1 ∧
      (smsReserve interval maximum now db).2 = db) ∨
    ((smsReserve interval maximum now db).1 = some 1 ∧ db.found now .cooldown = none ∧
      (db.get now .daily).getD 0 < maximum ∧
      (smsReserve interval maximum now db).2 =
        Function.update (Function.update db .cooldown (some ⟨1, some (now + 1000 * interval)⟩))
          .daily (some (countedUp now (db.found now .daily)))) := by
  unfold smsReserve
  by_cases hcool : db.existsKey now .cooldown
  · exact .inl (by simp [hcool])
  by_cases hcount : (db.get now .daily).getD 0 ≥ maximum
  · exact .inl (by simp [hcool, hcount])
  by_cases hvalid : ValidExpiry now interval
  · have hnone : db.found now .cooldown = none := by simpa [Keyspace.existsKey] using hcool
    refine .inr ?_
    simp only [hcool, hcount, if_false, Keyspace.setEx, if_pos hvalid, Bool.false_eq_true]
    refine ⟨trivial, hnone, not_le.mp hcount, ?_⟩
    have hdaily : Keyspace.found (Function.update db .cooldown
        (some ⟨1, some (now + 1000 * interval)⟩)) now .daily = db.found now .daily :=
      Keyspace.found_update_of_ne (by decide) _
    rw [Keyspace.incr, hdaily]
    cases hfound : db.found now .daily with
    | none =>
      simp only [if_true, countedUp]
      rw [Keyspace.expire_update_self]
      · rfl
      · rfl
    | some e =>
      have hlive : e.live now = true := (Keyspace.found_eq_some.mp hfound).2
      by_cases hone : e.value + 1 = 1
      · simp only [hone, if_true, countedUp]
        rw [Keyspace.expire_update_self]
        · rfl
        · exact hlive
      · simp only [hone, if_false, countedUp]
  · exact .inl (by simp [hcool, hcount, Keyspace.setEx, hvalid])

theorem smsReserve_grants {db : SmsKeys} (hcool : db.found now .cooldown = none)
    (hdaily : db.found now .daily = none) (hmax : 1 ≤ maximum) (hvalid : ValidExpiry now interval) :
    (smsReserve interval maximum now db).1 = some 1 := by
  have hlt : ¬ (0 : ℤ) ≥ maximum := by omega
  simp [smsReserve, Keyspace.existsKey, Keyspace.get, hcool, hdaily, hlt, Keyspace.setEx, hvalid]

end Script

/-- One execution of the script, at a time of the Redis clock in milliseconds. -/
structure SmsExecution where
  time : ℤ
  reply : Option ℤ
  before : SmsKeys
  after : SmsKeys

def SmsExecution.Granted (e : SmsExecution) : Prop := e.reply = some 1

instance (e : SmsExecution) : Decidable e.Granted := inferInstanceAs (Decidable (_ = _))

def SmsExecution.CreatesDaily (e : SmsExecution) : Prop :=
  e.Granted ∧ e.before.found e.time .daily = none

def reserveAt (interval maximum now : ℤ) (db : SmsKeys) : SmsExecution :=
  ⟨now, (smsReserve interval maximum now db).1, db, (smsReserve interval maximum now db).2⟩

/-- The executions from `start` on, the latest first, while the clock does not go back. -/
inductive SmsRun (interval maximum : ℤ) (start : SmsKeys) : List SmsExecution → SmsKeys → Prop where
  | nil : SmsRun interval maximum start [] start
  | execute {es : List SmsExecution} {db : SmsKeys} (run : SmsRun interval maximum start es db)
      (now : ℤ) (later : ∀ e ∈ es, e.time ≤ now) :
      SmsRun interval maximum start (reserveAt interval maximum now db :: es)
        (reserveAt interval maximum now db).after

def noKeys : SmsKeys := fun _ => none

section Step
variable {interval maximum now : ℤ} {db : SmsKeys}

theorem reserveAt_cases (interval maximum now : ℤ) (db : SmsKeys) :
    (¬ (reserveAt interval maximum now db).Granted ∧
      (reserveAt interval maximum now db).after = db) ∨
    ((reserveAt interval maximum now db).Granted ∧ db.found now .cooldown = none ∧
      (db.get now .daily).getD 0 < maximum ∧
      (reserveAt interval maximum now db).after .cooldown =
        some ⟨1, some (now + 1000 * interval)⟩ ∧
      (reserveAt interval maximum now db).after .daily =
        some (countedUp now (db.found now .daily))) := by
  obtain ⟨hne, hsame⟩ | ⟨hone, hcool, hcount, hafter⟩ := smsReserve_cases interval maximum now db
  · exact .inl ⟨hne, hsame⟩
  · refine .inr ⟨hone, hcool, hcount, ?_, ?_⟩
    · simp [reserveAt, hafter]
    · simp [reserveAt, hafter]

end Step

section Runs
variable {interval maximum : ℤ} {start db : SmsKeys} {es : List SmsExecution}

theorem SmsRun.split {later earlier : List SmsExecution} {g : SmsExecution}
    (h : SmsRun interval maximum start (later ++ g :: earlier) db) :
    SmsRun interval maximum start earlier g.before ∧
      g = reserveAt interval maximum g.time g.before ∧
      SmsRun interval maximum g.after later db := by
  induction later generalizing db with
  | nil =>
    cases h with
    | execute run now hlater => exact ⟨run, rfl, .nil⟩
  | cons e later ih =>
    cases h with
    | execute run now hlater =>
      obtain ⟨hbefore, hg, hafter⟩ := ih run
      refine ⟨hbefore, hg, .execute hafter now fun e he => ?_⟩
      exact hlater e (List.mem_append_left _ he)

theorem SmsRun.cooldown (h : SmsRun interval maximum noKeys es db) :
    (∀ e ∈ es, e.Granted → ∃ d, db .cooldown = some ⟨1, some d⟩ ∧ e.time + 1000 * interval ≤ d) ∧
    ∀ entry, db .cooldown = some entry →
      ∃ e ∈ es, entry.expireAt = some (e.time + 1000 * interval) := by
  induction h with
  | nil => exact ⟨nofun, nofun⟩
  | @execute es db run now later ih =>
    obtain ⟨hno, hsame⟩ | ⟨hyes, -, -, hcool, -⟩ := reserveAt_cases interval maximum now db
    · rw [hsame]
      refine ⟨?_, fun entry hentry => ?_⟩
      · intro e he hgranted
        rcases List.mem_cons.mp he with rfl | he
        · exact absurd hgranted hno
        · exact ih.1 e he hgranted
      · obtain ⟨e, he, hd⟩ := ih.2 entry hentry
        exact ⟨e, List.mem_cons_of_mem _ he, hd⟩
    · rw [hcool]
      refine ⟨?_, ?_⟩
      · intro e he _
        refine ⟨now + 1000 * interval, rfl, ?_⟩
        rcases List.mem_cons.mp he with rfl | he
        · exact le_refl _
        · have := later e he
          omega
      · rintro entry hentry
        cases hentry
        exact ⟨_, List.mem_cons_self, rfl⟩

/-- Two grants are an interval apart. -/
theorem SmsRun.spaced (h : SmsRun interval maximum noKeys es db) :
    es.Pairwise fun later earlier => later.Granted → earlier.Granted →
      earlier.time + 1000 * interval ≤ later.time := by
  induction h with
  | nil => exact List.Pairwise.nil
  | @execute es db run now later ih =>
    refine List.pairwise_cons.mpr ⟨fun e he hnew hold => ?_, ih⟩
    obtain ⟨hno, -⟩ | ⟨-, hgone, -⟩ := reserveAt_cases interval maximum now db
    · exact absurd hnew hno
    · obtain ⟨d, hd, hle⟩ := run.cooldown.1 e he hold
      rw [Keyspace.found_of_deadline hd rfl] at hgone
      have hpast : ¬ now ≤ d := by
        intro hlive
        rw [if_pos hlive] at hgone
        cases hgone
      change e.time + 1000 * interval ≤ now
      omega

theorem SmsRun.daily (h : SmsRun interval maximum noKeys es db) {entry : Entry ℤ}
    (hentry : db .daily = some entry) :
    1 ≤ entry.value ∧ ∃ later g earlier, es = later ++ g :: earlier ∧ g.CreatesDaily ∧
      (∀ e ∈ later, ¬ e.CreatesDaily) ∧ entry.expireAt = some (g.time + 86400000) := by
  induction h generalizing entry with
  | nil => cases hentry
  | @execute es db run now later ih =>
    obtain ⟨hno, hsame⟩ | ⟨hyes, -, -, -, hdaily⟩ := reserveAt_cases interval maximum now db
    · rw [hsame] at hentry
      obtain ⟨hpos, post, g, pre, rfl, hg, hpost, hd⟩ := ih hentry
      refine ⟨hpos, _ :: post, g, pre, rfl, hg, ?_, hd⟩
      rw [List.forall_mem_cons]
      exact ⟨fun hcreates => hno hcreates.1, hpost⟩
    · rw [hdaily] at hentry
      cases hfound : db.found now .daily with
      | none =>
        rw [hfound] at hentry
        cases hentry
        exact ⟨le_refl _, [], _, es, rfl, ⟨hyes, hfound⟩, nofun, rfl⟩
      | some e =>
        rw [hfound] at hentry
        cases hentry
        obtain ⟨hpos, post, g, pre, rfl, hg, hpost, hd⟩ := ih (Keyspace.found_eq_some.mp hfound).1
        have hkeep : e.value + 1 ≠ 1 := by omega
        refine ⟨?_, _ :: post, g, pre, rfl, hg, ?_, ?_⟩
        · simp only [countedUp]
          omega
        · rw [List.forall_mem_cons]
          refine ⟨fun hcreates => ?_, hpost⟩
          have hnone := hcreates.2
          simp only [reserveAt] at hnone
          rw [hfound] at hnone
          cases hnone
        · simp only [countedUp, if_neg hkeep]
          exact hd

theorem SmsRun.window {n d : ℤ} (h : SmsRun interval maximum start es db)
    (hstart : start .daily = some ⟨n, some d⟩) (hpos : 1 ≤ n) (hmax : n ≤ maximum) :
    n + es.countP (fun e => e.Granted ∧ e.time ≤ d) ≤ maximum ∧
      ((∀ e ∈ es, e.time ≤ d) → db .daily =
        some ⟨n + es.countP (fun e => e.Granted ∧ e.time ≤ d), some d⟩) := by
  induction h with
  | nil => simpa using ⟨hmax, hstart⟩
  | @execute es db run now later ih =>
    obtain ⟨hle, hcounter⟩ := ih
    rw [List.countP_cons]
    obtain ⟨hno, hsame⟩ | ⟨hyes, -, hcount, -, hdaily⟩ := reserveAt_cases interval maximum now db
    · have hskip : ¬ ((reserveAt interval maximum now db).Granted ∧
          (reserveAt interval maximum now db).time ≤ d) := fun hboth => hno hboth.1
      rw [hsame]
      simp only [hskip, decide_false, Bool.false_eq_true, if_false, Nat.add_zero]
      refine ⟨hle, fun hall => hcounter ?_⟩
      exact (List.forall_mem_cons.mp hall).2
    · by_cases hlive : now ≤ d
      · have hfound : db.found now .daily =
            some ⟨n + es.countP (fun e => e.Granted ∧ e.time ≤ d), some d⟩ := by
          rw [Keyspace.found_of_deadline (hcounter fun e he => (later e he).trans hlive) rfl,
            if_pos hlive]
        have hone : (reserveAt interval maximum now db).Granted ∧
            (reserveAt interval maximum now db).time ≤ d := ⟨hyes, hlive⟩
        rw [hfound] at hdaily
        simp only [Keyspace.get, hfound, Option.map_some, Option.getD_some] at hcount
        simp only [hone, and_self, decide_true, if_true]
        refine ⟨by push_cast; omega, fun _ => ?_⟩
        have hkeep : n + (es.countP (fun e => e.Granted ∧ e.time ≤ d) : ℤ) + 1 ≠ 1 := by omega
        rw [hdaily, countedUp, if_neg hkeep]
        push_cast
        rw [add_assoc]
      · have hskip : ¬ ((reserveAt interval maximum now db).Granted ∧
            (reserveAt interval maximum now db).time ≤ d) := fun hboth => hlive hboth.2
        simp only [hskip, decide_false, Bool.false_eq_true, if_false, Nat.add_zero]
        refine ⟨hle, fun hall => ?_⟩
        exact absurd ((List.forall_mem_cons.mp hall).1) hlive

theorem SmsRun.reserved (h : SmsRun interval maximum start es db) {e : SmsExecution} (he : e ∈ es) :
    e = reserveAt interval maximum e.time e.before := by
  obtain ⟨later, earlier, rfl⟩ := List.append_of_mem he
  exact h.split.2.1

theorem SmsRun.countP_window (hinterval : 1 ≤ interval) (h : SmsRun interval maximum noKeys es db)
    {g : SmsExecution} (hg : g ∈ es) (hcreates : g.CreatesDaily) :
    (es.countP fun e => e.Granted ∧ g.time ≤ e.time ∧ e.time ≤ g.time + 86400000) ≤ maximum := by
  obtain ⟨later, earlier, rfl⟩ := List.append_of_mem hg
  obtain ⟨-, hreserve, hafter⟩ := h.split
  -- what came before the grant is an interval away
  have hearlier : (earlier.countP fun e =>
      e.Granted ∧ g.time ≤ e.time ∧ e.time ≤ g.time + 86400000) = 0 := by
    rw [List.countP_eq_zero]
    intro e he hwindow
    simp only [decide_eq_true_eq] at hwindow
    have hspaced := List.pairwise_cons.mp (List.pairwise_append.mp h.spaced).2.1
    have := hspaced.1 e he hcreates.1 hwindow.1
    omega
  have hlater : (later.countP fun e =>
      e.Granted ∧ g.time ≤ e.time ∧ e.time ≤ g.time + 86400000) ≤
        later.countP fun e => e.Granted ∧ e.time ≤ g.time + 86400000 := by
    refine List.countP_mono_left fun e _ hwindow => ?_
    simp only [decide_eq_true_eq] at hwindow ⊢
    exact ⟨hwindow.1, hwindow.2.2⟩
  obtain ⟨hno, -⟩ | ⟨-, -, hcount, -, hdaily⟩ :=
    reserveAt_cases interval maximum g.time g.before
  · exact absurd hcreates.1 (hreserve ▸ hno)
  · rw [← hreserve, hcreates.2] at hdaily
    rw [Keyspace.get, hcreates.2] at hcount
    have hmax : 1 ≤ maximum := hcount
    have hbound := (hafter.window hdaily (le_refl 1) hmax).1
    have hself : g.Granted ∧ g.time ≤ g.time ∧ g.time ≤ g.time + 86400000 :=
      ⟨hcreates.1, le_refl _, by omega⟩
    rw [List.countP_append, List.countP_cons, hearlier, if_pos (decide_eq_true hself)]
    push_cast
    omega

theorem SmsRun.expired (h : SmsRun interval maximum noKeys es db) {now : ℤ}
    (hlate : ∀ e ∈ es, e.time + 1000 * interval < now ∧ e.time + 86400000 < now) :
    db.found now .cooldown = none ∧ db.found now .daily = none := by
  constructor
  · refine Keyspace.found_eq_none fun entry hentry => ?_
    obtain ⟨e, he, hd⟩ := h.cooldown.2 entry hentry
    exact ⟨_, hd, (hlate e he).1⟩
  · refine Keyspace.found_eq_none fun entry hentry => ?_
    obtain ⟨-, later, g, earlier, rfl, -, -, hd⟩ := h.daily hentry
    exact ⟨_, hd, (hlate g (by simp)).2⟩

end Runs

/-- What holds of every sequence of executions: grants are an interval apart, a day from the grant
that made the counter on has no more of them than the maximum, without a grant nothing changes,
the counter expires a day after that grant, and when both keys have expired the script grants. -/
theorem smsReserve_guarantees (interval maximum : ℤ) (hinterval : 1 ≤ interval)
    (es : List SmsExecution) (db : SmsKeys) (h : SmsRun interval maximum noKeys es db) :
    (es.Pairwise fun later earlier => later.Granted → earlier.Granted →
      earlier.time + 1000 * interval ≤ later.time) ∧
    (∀ g ∈ es, g.CreatesDaily →
      (es.countP fun e => e.Granted ∧ g.time ≤ e.time ∧ e.time ≤ g.time + 86400000) ≤ maximum) ∧
    (∀ e ∈ es, ¬ e.Granted → e.after = e.before) ∧
    (∀ entry, db .daily = some entry → ∃ later g earlier, es = later ++ g :: earlier ∧
      g.CreatesDaily ∧ (∀ e ∈ later, ¬ e.CreatesDaily) ∧
      entry.expireAt = some (g.time + 86400000)) ∧
    (1 ≤ maximum → ∀ now, (∀ e ∈ es, e.time + 1000 * interval < now ∧ e.time + 86400000 < now) →
      ValidExpiry now interval → (smsReserve interval maximum now db).1 = some 1) := by
  refine ⟨h.spaced, fun g hg hcreates => h.countP_window hinterval hg hcreates, ?_,
    fun entry hentry => (h.daily hentry).2, fun hmax now hlate hvalid => ?_⟩
  · intro e he hno
    have hreserve := h.reserved he
    obtain ⟨-, hsame⟩ | ⟨hyes, -⟩ := reserveAt_cases interval maximum e.time e.before
    · rwa [← hreserve] at hsame
    · exact absurd (hreserve ▸ hyes) hno
  · obtain ⟨hcool, hdaily⟩ := h.expired hlate
    exact smsReserve_grants interval maximum now hcool hdaily hmax hvalid

/-- A code, a second request too early, and one after the cooldown. -/
def threeRequests : List SmsExecution :=
  let first := reserveAt 60 10 1000 noKeys
  let second := reserveAt 60 10 2000 first.after
  [reserveAt 60 10 61001 second.after, second, first]

theorem smsReserve_guarantees_threeRequests :
    (threeRequests.countP fun e => e.Granted ∧ 1000 ≤ e.time ∧ e.time ≤ 1000 + 86400000) ≤ (10 : ℤ) ∧
      threeRequests.map SmsExecution.reply = [some 1, some 0, some 1] := by
  refine ⟨?_, by decide +kernel⟩
  have hrun := SmsRun.execute (.execute (.execute (@SmsRun.nil 60 10 noKeys) 1000 nofun) 2000
    (by simp [reserveAt])) 61001 (by simp [reserveAt])
  exact (smsReserve_guarantees 60 10 (by decide) threeRequests _ hrun).2.1
    (reserveAt 60 10 1000 noKeys) (by simp [threeRequests]) ⟨by decide +kernel, rfl⟩

end HmDianPing.Login
