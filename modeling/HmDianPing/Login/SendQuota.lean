import HmDianPing.Login.SmsCode
import HmDianPing.Login.SmsQuota
import HmDianPing.Text.Decimal

/-! # The provider within the quota

Calls of `sendCode` over the keys that `sms_reserve.lua` keeps. Whatever overlaps, fails or is
cut off, the provider is asked at most once for a grant of the script, and what the grants are
limited to limits what it is asked.
-/
namespace HmDianPing.Login
open Interleaving Program Redis

/-- A grant in the day that begins with `t`. -/
def SmsExecution.InDay (t : ℤ) (e : SmsExecution) : Prop :=
  e.Granted ∧ t ≤ e.time ∧ e.time ≤ t + 86400000

instance (t : ℤ) (e : SmsExecution) : Decidable (e.InDay t) := inferInstanceAs (Decidable (_ ∧ _ ∧ _))

instance (e : SmsExecution) : Decidable e.CreatesDaily := inferInstanceAs (Decidable (_ ∧ _ = none))

section Day
variable {interval maximum t : ℤ} {start db : SmsKeys} {es : List SmsExecution}

theorem SmsRun.ordered (h : SmsRun interval maximum start es db) :
    es.Pairwise fun later earlier => earlier.time ≤ later.time := by
  induction h with
  | nil => exact List.Pairwise.nil
  | execute run now later ih => exact List.pairwise_cons.mpr ⟨later, ih⟩

/-- Grants of a day in which no counter is made are all counted by one that was there before. -/
theorem SmsRun.countP_counted (hinterval : 1 ≤ interval) (h : SmsRun interval maximum noKeys es db)
    (hnone : ∀ e ∈ es, e.InDay t → ¬ e.CreatesDaily) :
    es.countP (fun e => e.InDay t) ≤ maximum.toNat := by
  cases hfind : es.find? fun e => e.InDay t with
  | none =>
    have hzero : es.countP (fun e => e.InDay t) = 0 := by
      rw [List.countP_eq_zero]
      exact List.find?_eq_none.mp hfind
    omega
  | some e =>
    -- the last of the grants, and the grant that made the counter it found
    obtain ⟨hday, later, earlier, rfl, hlater⟩ := List.find?_eq_some_iff_append.mp hfind
    have hday : e.InDay t := of_decide_eq_true hday
    have hmem : e ∈ later ++ e :: earlier := by simp
    obtain ⟨entry, hfound⟩ : ∃ entry, e.before.found e.time .daily = some entry :=
      Option.ne_none_iff_exists'.mp fun hgone => hnone e hmem hday ⟨hday.1, hgone⟩
    obtain ⟨hentry, hlive⟩ := Keyspace.found_eq_some.mp hfound
    obtain ⟨-, post, g, pre, rfl, hcreates, -, hexpire⟩ := h.split.1.daily hentry
    have hdeadline : e.time ≤ g.time + 86400000 := by simpa [Entry.live, hexpire] using hlive
    have hbehind := (List.pairwise_cons.mp (List.pairwise_append.mp h.ordered).2.1).1
    have hgmem : g ∈ later ++ e :: (post ++ g :: pre) := by simp
    have hbefore : g.time < t := by
      have hle := hbehind g (by simp)
      by_contra hge
      exact hnone g hgmem ⟨hcreates.1, not_lt.mp hge, hle.trans hday.2.2⟩ hcreates
    have hwindow := h.countP_window hinterval hgmem hcreates
    have hsub : (later ++ e :: (post ++ g :: pre)).countP (fun e => e.InDay t) ≤
        (later ++ e :: (post ++ g :: pre)).countP fun e =>
          e.Granted ∧ g.time ≤ e.time ∧ e.time ≤ g.time + 86400000 := by
      refine List.countP_mono_left fun x hx hxday => ?_
      have hxday : x.InDay t := of_decide_eq_true hxday
      have hxle : x.time ≤ e.time := by
        rcases List.mem_append.mp hx with hx | hx
        · exact absurd (decide_eq_true hxday) (by simpa using hlater x hx)
        · rcases List.mem_cons.mp hx with rfl | hx
          · exact le_refl _
          · exact hbehind x hx
      exact decide_eq_true ⟨hxday.1, by have := hxday.2.1; omega, hxle.trans hdeadline⟩
    omega

/-- No day has more than twice the maximum: its grants are of two counters at most. -/
theorem SmsRun.countP_day (hinterval : 1 ≤ interval) (h : SmsRun interval maximum noKeys es db) (t : ℤ) :
    es.countP (fun e => e.InDay t) ≤ 2 * maximum.toNat := by
  cases hfind : es.reverse.find? fun e => e.InDay t ∧ e.CreatesDaily with
  | none =>
    have hnone : ∀ e ∈ es, e.InDay t → ¬ e.CreatesDaily := by
      intro e he hday hcreates
      have hnot := List.find?_eq_none.mp hfind e (List.mem_reverse.mpr he)
      simp [hday, hcreates] at hnot
    have := h.countP_counted hinterval hnone
    omega
  | some g =>
    -- the first counter that is made in the day
    obtain ⟨hg, post, pre, hsplit, hpost⟩ := List.find?_eq_some_iff_append.mp hfind
    obtain ⟨hday, hcreates⟩ : g.InDay t ∧ g.CreatesDaily := of_decide_eq_true hg
    obtain rfl : es = pre.reverse ++ g :: post.reverse := by
      simpa using congrArg List.reverse hsplit
    have hearlier := h.split.1.countP_counted hinterval (t := t) fun e he hin hc => by
      have hnot := hpost e (List.mem_reverse.mp he)
      simp [hin, hc] at hnot
    have hwindow := h.countP_window hinterval (List.mem_append_right _ List.mem_cons_self) hcreates
    have hlater : (pre.reverse ++ [g]).countP (fun e => e.InDay t) ≤
        (pre.reverse ++ g :: post.reverse).countP fun e =>
          e.Granted ∧ g.time ≤ e.time ∧ e.time ≤ g.time + 86400000 := by
      have hprefix : pre.reverse ++ [g] <+: pre.reverse ++ g :: post.reverse := ⟨post.reverse, by simp⟩
      refine le_trans (List.countP_mono_left fun x hx hxday => ?_) hprefix.sublist.countP_le
      obtain ⟨hgranted, -, hend⟩ : x.InDay t := of_decide_eq_true hxday
      have hle : g.time ≤ x.time := by
        rcases List.mem_append.mp hx with hx | hx
        · exact (List.pairwise_append.mp h.ordered).2.2 x hx g List.mem_cons_self
        · rw [List.mem_singleton.mp hx]
      exact decide_eq_true ⟨hgranted, hle, by have := hday.2.1; omega⟩
    rw [List.append_cons, List.countP_append]
    omega

end Day

def smsKeys (quota : Keyspace String ℤ) (keys : List String) : SmsKeys
  | .cooldown => quota (keys.getD 0 "")
  | .daily => quota (keys.getD 1 "")

/-- `tonumber(ARGV[i])`, of an integer. -/
def argument (args : List String) (i : ℕ) : ℤ := (Text.longValueOf (args.getD i "")).getD 0

/-- One execution of the script on the keys of all phones. -/
def reserveScript (keys args : List String) (now : ℤ) (quota : Keyspace String ℤ) : SmsExecution :=
  reserveAt (argument args 0) (argument args 1) now (smsKeys quota keys)

structure QuotaWorld where
  sms : SmsWorld
  /-- The keys `sms:send:{phone}:…`. -/
  quota : Keyspace String ℤ
  /-- History: the executions of the script with their callers, the latest first. -/
  executions : List (SmsCall × SmsExecution)

namespace QuotaWorld

def execution (w : QuotaWorld) (keys args : List String) : SmsExecution :=
  reserveScript keys args w.sms.now w.quota

def reserve (w : QuotaWorld) (caller : SmsCall) (keys args : List String) : QuotaWorld :=
  let e := w.execution keys args
  { w with
    quota := Function.update (Function.update w.quota (keys.getD 0 "") (e.after .cooldown))
      (keys.getD 1 "") (e.after .daily)
    executions := (caller, e) :: w.executions }

/-- A script that Redis aborts is answered with an exception. -/
def scriptReply : Option ℤ → Except SmsFailure (Option ℤ)
  | none => .error .dataAccess
  | some n => .ok (some n)

def exec : (s : SmsStep) → SmsChoice → QuotaWorld → Option (Except SmsFailure s.Reply × QuotaWorld)
  | ⟨caller, .reserve keys args⟩, .done, w =>
    some (scriptReply (w.execution keys args).reply, w.reserve caller keys args)
  | ⟨caller, .reserve keys args⟩, .lost, w => some (.error .dataAccess, w.reserve caller keys args)
  | ⟨_, .reserve _ _⟩, .refused, w => some (.error .dataAccess, w)
  | ⟨_, .reserve _ _⟩, _, _ => none
  | s, f, w => (w.sms.exec s f).map fun q => (q.1, { w with sms := q.2 })

end QuotaWorld

/-- Calls of `sendCode` on any number of workers, with the keys of their quota. -/
def quotaCalls (p : SmsProperties) :
    Machine QuotaWorld SmsStep SmsStep.Reply SmsFailure SmsCall SmsChoice SmsAction where
  exec := QuotaWorld.exec
  act a w := ((smsCalls p).act a w.sms).map fun q => ({ w with sms := q.1 }, q.2)

abbrev QuotaPool := Config QuotaWorld SmsStep SmsStep.Reply SmsFailure SmsCall

def noQuota (now : ℤ) : QuotaPool := ⟨⟨⟨now, fun _ => none, 0, []⟩, fun _ => none, []⟩, []⟩

def handedCalls (notes : List (SmsCall × SmsNote)) : List SmsCall :=
  notes.filterMap fun n => match n.2 with
    | .handed _ => some n.1
    | _ => none

/-- When the sends of the phone that went to the provider were reserved. -/
def QuotaWorld.sendTimes (w : QuotaWorld) (phone : String) : List ℤ :=
  (w.executions.filter fun x => x.1.phone = phone ∧ x.1 ∈ handedCalls w.sms.notes).map fun x => x.2.time

/-- How far a call has come. -/
inductive SendStage where
  | asking | granted | spent

def reserveKey (phone : String) : SmsKey → String
  | .cooldown => "sms:send:\x7b" ++ phone ++ "\x7d:" ++ "cooldown"
  | .daily => "sms:send:\x7b" ++ phone ++ "\x7d:" ++ "daily"

/-- A call runs the script once, and asks the provider once, after a grant. -/
def reserving (p : SmsProperties) (call : SmsCall) :
    Logic SmsStep SmsStep.Reply SmsFailure SendStage where
  pre κ s := s.call = call ∧ match κ, s.command with
    | .asking, .reserve keys args =>
      keys = [reserveKey call.phone .cooldown, reserveKey call.phone .daily] ∧
        args = [toString p.sendIntervalSeconds, toString p.maxSendsPerDay]
    | .granted, .send _ _ => True
    | _, .reserve _ _ => False
    | _, .send _ _ => False
    | _, _ => True
  meets _ _ _ := True
  learn
    | .asking, ⟨_, .reserve _ _⟩, .ok (some 1) => .granted
    | .asking, ⟨_, .reserve _ _⟩, _ => .spent
    | .granted, ⟨_, .send _ _⟩, _ => .spent
    | κ, _, _ => κ

section Safe
variable {p : SmsProperties} {call : SmsCall} {κ : SendStage}

def SmsCommand.Local : SmsCommand → Prop
  | .reserve _ _ | .send _ _ => False
  | _ => True

theorem neutral_of_local {c : SmsCommand} (h : c.Local) :
    ((reserving p call).comap (SmsStep.mk call)).Neutral c := by
  intro κ
  cases c with
  | reserve keys args => exact h.elim
  | send phone code => exact h.elim
  | _ => cases κ <;> exact ⟨⟨rfl, trivial⟩, fun r _ => rfl⟩

theorem deleteFailedCode_local (key code : String) :
    (deleteFailedCode key code).Calls SmsCommand.Local := by
  refine Calls.tryCatch ((calls_perform_bind _ _).mpr ⟨trivial, fun _ => trivial⟩) fun e => ?_
  cases e <;> trivial

theorem onFailure_reserving (key code : String) (e : SmsFailure) :
    ((reserving p call).comap (SmsStep.mk call)).Safe (onFailure key code e) κ := by
  refine Logic.safe_of_neutral (Calls.mono ?_ fun _ => neutral_of_local)
  cases e with
  | send => exact (deleteFailedCode_local key code).bind fun _ => trivial
  | dataAccess => exact (deleteFailedCode_local key code).bind fun _ => trivial

theorem sendReserved_reserving (phone : String) :
    ((reserving p call).comap (SmsStep.mk call)).Safe (sendReserved phone) .granted := by
  refine (Logic.wp_perform_bind _ _).mpr ⟨⟨rfl, trivial⟩, fun n _ => ?_, fun _ _ => trivial⟩
  rw [Logic.wp_tryCatch]
  refine (Logic.wp_perform_bind _ _).mpr
    ⟨⟨rfl, trivial⟩, fun _ _ => ?_, fun e _ => onFailure_reserving _ _ e⟩
  exact (Logic.wp_perform_bind _ _).mpr
    ⟨⟨rfl, trivial⟩, fun _ _ => trivial, fun e _ => onFailure_reserving _ _ e⟩

theorem reserveAndSend_reserving :
    ((reserving p call).comap (SmsStep.mk call)).Safe (reserveAndSend p call.phone) .asking := by
  rw [Logic.Safe, reserveAndSend, Logic.wp_bind, Logic.wp_tryCatch, reserveSend, Logic.wp_perform,
    forall_except]
  refine ⟨⟨rfl, rfl, rfl⟩, fun reply _ => ?_, fun e _ => ?_⟩
  · by_cases hone : reply = some 1
    · subst hone
      exact sendReserved_reserving call.phone
    · obtain ⟨r, hr⟩ : ∃ r, sendIfReserved call.phone reply = pure r := by
        unfold sendIfReserved
        split
        · exact ⟨_, rfl⟩
        · exact ⟨_, rfl⟩
        · exact absurd rfl hone
        · exact ⟨_, rfl⟩
      show Logic.wp _ (sendIfReserved call.phone reply) _ _
      rw [hr]
      trivial
  · cases e <;> trivial

theorem sendCode_reserving : (reserving p call).Safe
    ((respond (sendCode p call.phone)).lift (SmsStep.mk call)) .asking := by
  rw [Logic.Safe, Logic.wp_lift]
  refine Logic.Safe.bind ?_ fun κ r => ?_
  · unfold sendCode
    split
    · trivial
    · exact reserveAndSend_reserving
  · cases κ <;> exact ⟨⟨rfl, trivial⟩, fun _ _ => trivial⟩

end Safe

section Keys
variable {phone phone' : String} {k k' : SmsKey} {quota : Keyspace String ℤ} {e : SmsExecution}

theorem reserveKey_inj (h : reserveKey phone k = reserveKey phone' k') : phone = phone' ∧ k = k' := by
  have hends : ∀ phone phone', reserveKey phone .cooldown ≠ reserveKey phone' .daily := by
    intro phone phone' heq
    have hlast := congrArg (fun key : String => key.toList.getLast?) heq
    have hcooldown : "cooldown".toList.getLast? = some 'n' := by decide
    have hdaily : "daily".toList.getLast? = some 'y' := by decide
    unfold reserveKey at hlast
    simp only [String.toList_append, List.getLast?_append] at hlast
    rw [hcooldown, hdaily] at hlast
    cases hlast
  cases k <;> cases k'
  case cooldown.daily => exact absurd h (hends _ _)
  case daily.cooldown => exact absurd h.symm (hends _ _)
  all_goals
    unfold reserveKey at h
    refine ⟨?_, rfl⟩
    exact (String.append_right_inj _).mp
      ((String.append_left_inj _).mp ((String.append_left_inj _).mp h))

theorem smsKeys_reserve (k : SmsKey) : Function.update (Function.update quota
      (reserveKey phone .cooldown) (e.after .cooldown)) (reserveKey phone .daily) (e.after .daily)
    (reserveKey phone' k) = if phone' = phone then e.after k else quota (reserveKey phone' k) := by
  split
  · next hphone =>
    subst hphone
    cases k with
    | cooldown =>
      have hne : reserveKey phone' .cooldown ≠ reserveKey phone' .daily :=
        fun h => by cases (reserveKey_inj h).2
      rw [Function.update_of_ne hne, Function.update_self]
    | daily => rw [Function.update_self]
  · next hphone =>
    have hne : ∀ k', reserveKey phone' k ≠ reserveKey phone k' := fun k' h =>
      hphone (reserveKey_inj h).1
    rw [Function.update_of_ne (hne _), Function.update_of_ne (hne _)]

end Keys

/-- The commands that are as without a quota: only a send adds to what the provider was asked. -/
theorem exec_handed {w w' : SmsWorld} {s : SmsStep} {f : SmsChoice} {r : Except SmsFailure s.Reply}
    (h : w.exec s f = some (r, w')) : w'.now = w.now ∧ w'.nextCall = w.nextCall ∧
      (handedCalls w'.notes = handedCalls w.notes ∨
        (∃ phone code, s.command = .send phone code) ∧
          handedCalls w'.notes = s.call :: handedCalls w.notes) := by
  obtain ⟨call, command⟩ := s
  cases command with
  | reserve keys args =>
    cases f with
    | reserved reply | refused => cases h; exact ⟨rfl, rfl, .inl rfl⟩
    | drawn n | done | lost => cases h
  | nextInt =>
    cases f with
    | drawn n => cases h; exact ⟨rfl, rfl, .inl rfl⟩
    | reserved reply | done | refused | lost => cases h
  | set key code minutes =>
    cases f with
    | done =>
      simp only [SmsWorld.exec] at h
      split at h <;> (cases h; exact ⟨rfl, rfl, .inl rfl⟩)
    | refused | lost => cases h; exact ⟨rfl, rfl, .inl rfl⟩
    | reserved reply | drawn n => cases h
  | send phone code =>
    cases f with
    | done | refused => cases h; exact ⟨rfl, rfl, .inr ⟨⟨_, _, rfl⟩, rfl⟩⟩
    | reserved reply | drawn n | lost => cases h
  | deleteCode key code =>
    cases f with
    | done | lost => cases h; exact ⟨rfl, rfl, .inl rfl⟩
    | refused => cases h; exact ⟨rfl, rfl, .inl rfl⟩
    | reserved reply | drawn n => cases h
  | answer r =>
    cases f with
    | done => cases h; exact ⟨rfl, rfl, .inl rfl⟩
    | reserved reply | drawn n | refused | lost => cases h

def SmsProperties.reserveKeys (phone : String) : List String :=
  [reserveKey phone .cooldown, reserveKey phone .daily]

def SmsProperties.reserveArgs (p : SmsProperties) : List String :=
  [toString p.sendIntervalSeconds, toString p.maxSendsPerDay]

/-- Everything a command of a call can do to the quota and to what the provider was asked. -/
inductive QuotaStep (p : SmsProperties) (call : SmsCall) (w : QuotaWorld) :
    SendStage → QuotaWorld → SendStage → Prop
  | quiet {κ κ' : SendStage} {sms : SmsWorld} (now : sms.now = w.sms.now)
      (nextCall : sms.nextCall = w.sms.nextCall)
      (handed : handedCalls sms.notes = handedCalls w.sms.notes) (stage : κ' = κ ∨ κ' = .spent) :
    QuotaStep p call w κ { w with sms := sms } κ'
  | reserved {κ' : SendStage} (stage : κ' ≠ .asking) (granted : κ' = .granted →
      (w.execution (SmsProperties.reserveKeys call.phone) p.reserveArgs).Granted) :
    QuotaStep p call w .asking
      (w.reserve call (SmsProperties.reserveKeys call.phone) p.reserveArgs) κ'
  | sent {sms : SmsWorld} (now : sms.now = w.sms.now) (nextCall : sms.nextCall = w.sms.nextCall)
      (handed : handedCalls sms.notes = call :: handedCalls w.sms.notes) :
    QuotaStep p call w .granted { w with sms := sms } .spent

theorem quotaStep_of_exec {p : SmsProperties} {call : SmsCall} {w w' : QuotaWorld} {κ : SendStage}
    {s : SmsStep} {f : SmsChoice} {r : Except SmsFailure s.Reply}
    (hpre : (reserving p call).pre κ s) (hexec : QuotaWorld.exec s f w = some (r, w')) :
    QuotaStep p call w κ w' ((reserving p call).learn κ s r) := by
  obtain ⟨caller, command⟩ := s
  obtain ⟨rfl, hpre⟩ := hpre
  cases command with
  | reserve keys args =>
    cases κ with
    | granted | spent => exact hpre.elim
    | asking =>
      obtain ⟨hkeys, hargs⟩ : keys = SmsProperties.reserveKeys caller.phone ∧ args = p.reserveArgs :=
        hpre
      subst hkeys hargs
      cases f with
      | done =>
        cases hexec
        cases hreply : (w.execution (SmsProperties.reserveKeys caller.phone) p.reserveArgs).reply with
        | none => exact .reserved (by simp [reserving, QuotaWorld.scriptReply]) nofun
        | some n =>
          by_cases hone : n = 1
          · subst hone
            exact .reserved (by simp [reserving, QuotaWorld.scriptReply]) fun _ => hreply
          · have hspent : (reserving p caller).learn .asking
                ⟨caller, .reserve (SmsProperties.reserveKeys caller.phone) p.reserveArgs⟩
                (QuotaWorld.scriptReply (some n)) = .spent := by
              simp [reserving, QuotaWorld.scriptReply, hone]
            rw [hspent]
            exact .reserved nofun nofun
      | lost => cases hexec; exact .reserved nofun nofun
      | refused => cases hexec; exact .quiet rfl rfl rfl (.inr rfl)
      | reserved reply | drawn n => cases hexec
  | send phone code =>
    cases κ with
    | asking | spent => exact hpre.elim
    | granted =>
      obtain ⟨q, hq, hw⟩ := Option.map_eq_some_iff.mp hexec
      cases hw
      obtain ⟨hnow, hnext, hhanded | ⟨-, hhanded⟩⟩ := exec_handed hq
      · exact .quiet hnow hnext hhanded (.inr rfl)
      · exact .sent hnow hnext hhanded
  | nextInt | set | deleteCode | answer =>
    obtain ⟨q, hq, hw⟩ := Option.map_eq_some_iff.mp hexec
    cases hw
    obtain ⟨hnow, hnext, hhanded | ⟨⟨_, _, hsend⟩, -⟩⟩ := exec_handed hq
    · exact .quiet hnow hnext hhanded (.inl (by cases κ <;> rfl))
    · cases hsend

def QuotaWorld.Stands (w : QuotaWorld) (call : SmsCall) : SendStage → Prop
  | .asking => call ∉ w.executions.map Prod.fst ∧ call ∉ handedCalls w.sms.notes
  | .granted => (∃ e, (call, e) ∈ w.executions ∧ e.Granted) ∧ call ∉ handedCalls w.sms.notes
  | .spent => True

/-- The executions for a phone are a run of the script over its keys, and every send has a grant
of its own. -/
structure QuotaWorld.Accounts (p : SmsProperties) (w : QuotaWorld) : Prop where
  runs : ∀ phone, SmsRun p.sendIntervalSeconds p.maxSendsPerDay noKeys
    ((w.executions.filter fun x => x.1.phone = phone).map Prod.snd) fun k => w.quota (reserveKey phone k)
  past : ∀ x ∈ w.executions, x.2.time ≤ w.sms.now
  once : (w.executions.map Prod.fst).Nodup
  handedOnce : (handedCalls w.sms.notes).Nodup
  granted : ∀ call ∈ handedCalls w.sms.notes, ∃ e, (call, e) ∈ w.executions ∧ e.Granted

structure SmsProperties.Fits (p : SmsProperties) : Prop where
  interval : -2 ^ 63 ≤ p.sendIntervalSeconds ∧ p.sendIntervalSeconds < 2 ^ 63
  maximum : -2 ^ 63 ≤ p.maxSendsPerDay ∧ p.maxSendsPerDay < 2 ^ 63

section Steps
variable {p : SmsProperties} {call other : SmsCall} {w w' : QuotaWorld} {κ κ' : SendStage}

/-- The script reads the numbers that the properties give. -/
theorem execution_eq (hp : p.Fits) (w : QuotaWorld) (phone : String) :
    w.execution (SmsProperties.reserveKeys phone) p.reserveArgs =
      reserveAt p.sendIntervalSeconds p.maxSendsPerDay w.sms.now
        fun k => w.quota (reserveKey phone k) := by
  have hinterval : argument p.reserveArgs 0 = p.sendIntervalSeconds :=
    congrArg (Option.getD · 0) (Text.longValueOf_toString hp.interval)
  have hmaximum : argument p.reserveArgs 1 = p.maxSendsPerDay :=
    congrArg (Option.getD · 0) (Text.longValueOf_toString hp.maximum)
  have hkeys : smsKeys w.quota (SmsProperties.reserveKeys phone) =
      fun k => w.quota (reserveKey phone k) := by
    funext k
    cases k <;> rfl
  rw [QuotaWorld.execution, reserveScript, hinterval, hmaximum, hkeys]

theorem QuotaWorld.Accounts.reserve (hp : p.Fits) (h : w.Accounts p)
    (hnew : call ∉ w.executions.map Prod.fst) :
    (w.reserve call (SmsProperties.reserveKeys call.phone) p.reserveArgs).Accounts p := by
  have hexecution := execution_eq hp w call.phone
  refine ⟨fun phone => ?_, fun x hx => ?_, ?_, h.handedOnce, fun call' hcall' => ?_⟩
  · have hkeys : ∀ k, (w.reserve call (SmsProperties.reserveKeys call.phone) p.reserveArgs).quota
        (reserveKey phone k) = if phone = call.phone then
          (w.execution (SmsProperties.reserveKeys call.phone) p.reserveArgs).after k
        else w.quota (reserveKey phone k) := fun k => smsKeys_reserve k
    by_cases hphone : phone = call.phone
    · subst hphone
      have hafter : (fun k => (w.reserve call (SmsProperties.reserveKeys call.phone)
          p.reserveArgs).quota (reserveKey call.phone k)) =
          (w.execution (SmsProperties.reserveKeys call.phone) p.reserveArgs).after :=
        funext fun k => (hkeys k).trans (if_pos rfl)
      rw [hafter]
      simp only [QuotaWorld.reserve, hexecution, decide_true, List.filter_cons_of_pos, List.map_cons]
      refine (h.runs call.phone).execute w.sms.now fun e he => ?_
      obtain ⟨x, hx, rfl⟩ := List.mem_map.mp he
      exact h.past x (List.mem_filter.mp hx).1
    · have hsame : (fun k => (w.reserve call (SmsProperties.reserveKeys call.phone)
          p.reserveArgs).quota (reserveKey phone k)) = fun k => w.quota (reserveKey phone k) :=
        funext fun k => (hkeys k).trans (if_neg hphone)
      rw [hsame]
      simpa [QuotaWorld.reserve, Ne.symm hphone] using h.runs phone
  · obtain rfl | hx := List.mem_cons.mp hx
    · rw [hexecution]
      exact le_refl w.sms.now
    · exact h.past x hx
  · exact List.nodup_cons.mpr ⟨hnew, h.once⟩
  · obtain ⟨e, he, hgranted⟩ := h.granted call' hcall'
    exact ⟨e, List.mem_cons_of_mem _ he, hgranted⟩

theorem QuotaWorld.Accounts.step (hp : p.Fits) (h : w.Accounts p) (hstands : w.Stands call κ)
    (hstep : QuotaStep p call w κ w' κ') : w'.Accounts p ∧ w'.Stands call κ' := by
  cases hstep with
  | @quiet κ κ' sms now nextCall handed stage =>
    refine ⟨⟨h.runs, ?_, h.once, ?_, ?_⟩, ?_⟩
    · rw [now]; exact h.past
    · rw [handed]; exact h.handedOnce
    · rw [handed]; exact h.granted
    · obtain rfl | rfl := stage
      · unfold Stands at hstands ⊢
        rwa [handed]
      · trivial
  | @reserved κ' stage granted =>
    obtain ⟨hnew, hunsent⟩ := hstands
    refine ⟨h.reserve hp hnew, ?_⟩
    cases κ' with
    | asking => exact absurd rfl stage
    | granted => exact ⟨⟨_, List.mem_cons_self, granted rfl⟩, hunsent⟩
    | spent => trivial
  | @sent sms now nextCall handed =>
    obtain ⟨hgrant, hunsent⟩ := hstands
    refine ⟨⟨h.runs, ?_, h.once, ?_, ?_⟩, trivial⟩
    · rw [now]; exact h.past
    · rw [handed]; exact List.nodup_cons.mpr ⟨hunsent, h.handedOnce⟩
    · rw [handed]
      intro call' hcall'
      obtain rfl | hcall' := List.mem_cons.mp hcall'
      · exact hgrant
      · exact h.granted call' hcall'

theorem QuotaWorld.Stands.frame {stage : SendStage} (h : w.Stands other stage) (hne : other ≠ call)
    (hstep : QuotaStep p call w κ w' κ') : w'.Stands other stage := by
  have hgrow : (∀ x, x ∈ w.executions → x ∈ w'.executions) ∧
      (∀ x ∈ w'.executions, x ∈ w.executions ∨ x.1 = call) ∧
      (other ∈ handedCalls w'.sms.notes → other ∈ handedCalls w.sms.notes) := by
    cases hstep with
    | quiet now nextCall handed stage =>
      exact ⟨fun _ => id, fun _ => .inl, by rw [handed]; exact id⟩
    | reserved stage granted =>
      refine ⟨fun x => List.mem_cons_of_mem _, fun x hx => ?_, id⟩
      exact (List.mem_cons.mp hx).symm.imp_right fun hx => congrArg Prod.fst hx
    | sent now nextCall handed =>
      refine ⟨fun _ => id, fun _ => .inl, ?_⟩
      rw [handed]
      exact fun hother => (List.mem_cons.mp hother).resolve_left hne
  obtain ⟨hkept, hold, hhanded⟩ := hgrow
  cases stage with
  | asking =>
    refine ⟨fun hmem => ?_, fun hsent => h.2 (hhanded hsent)⟩
    obtain ⟨x, hx, hxother⟩ := List.mem_map.mp hmem
    obtain hx | hx := hold x hx
    · exact h.1 (List.mem_map.mpr ⟨x, hx, hxother⟩)
    · exact hne (hxother.symm.trans hx)
  | granted =>
    obtain ⟨⟨e, he, hgranted⟩, hunsent⟩ := h
    exact ⟨⟨e, hkept _ he, hgranted⟩, fun hsent => hunsent (hhanded hsent)⟩
  | spent => trivial

end Steps

section Pool
variable {p : SmsProperties} {c c' : QuotaPool} {m : Move SmsChoice SmsAction}

/-- The sends are accounted for, and each call is at its stage on a thread of its own. -/
structure QuotaPool.Within (p : SmsProperties) (c : QuotaPool) : Prop where
  world : c.shared.Accounts p
  tags : (c.threads.map fun t => t.tag.number).Nodup
  old : ∀ t ∈ c.threads, t.tag.number < c.shared.sms.nextCall
  started : ∀ x ∈ c.shared.executions, x.1.number < c.shared.sms.nextCall
  calls : Machine.KnowsOwn (reserving p) QuotaWorld.Stands c

theorem QuotaPool.within_noQuota (p : SmsProperties) (now : ℤ) :
    QuotaPool.Within p (noQuota now) := by
  refine ⟨⟨fun phone => ?_, nofun, List.nodup_nil, List.nodup_nil, nofun⟩, List.nodup_nil, nofun,
    nofun, nofun⟩
  have hkeys : (fun k => (noQuota now).shared.quota (reserveKey phone k)) = noKeys := rfl
  rw [hkeys]
  exact .nil

theorem QuotaStep.nextCall_eq {call : SmsCall} {w w' : QuotaWorld} {κ κ' : SendStage}
    (h : QuotaStep p call w κ w' κ') : w'.sms.nextCall = w.sms.nextCall ∧
      ∀ x ∈ w'.executions, x ∈ w.executions ∨ x.1 = call := by
  cases h with
  | quiet now nextCall => exact ⟨nextCall, fun _ => .inl⟩
  | sent now nextCall => exact ⟨nextCall, fun _ => .inl⟩
  | reserved => exact ⟨rfl, fun x hx => (List.mem_cons.mp hx).symm.imp_right (congrArg Prod.fst)⟩

theorem QuotaPool.Within.step (hp : p.Fits) (h : QuotaPool.Within p c)
    (hfires : (quotaCalls p).Fires c m c') : QuotaPool.Within p c' := by
  cases hfires with
  | @run i f tag s k r w' thread hexec =>
    obtain ⟨κ, hstands, hpre, -⟩ := h.calls.thread thread
    have hstep := quotaStep_of_exec hpre hexec
    obtain ⟨hnextCall, hexecutions⟩ := hstep.nextCall_eq
    have htag := h.old _ (List.mem_of_getElem? thread)
    refine ⟨(h.world.step hp hstands hstep).1, ?_, ?_, ?_, ?_⟩
    · rw [Machine.map_tag_set SmsCall.number thread]
      exact h.tags
    · intro t ht
      rw [hnextCall]
      rcases Machine.mem_set_thread ht with rfl | ⟨j, -, hj⟩
      · exact htag
      · exact h.old t (List.mem_of_getElem? hj)
    · intro x hx
      rw [hnextCall]
      obtain hx | hx := hexecutions x hx
      · exact h.started x hx
      · rw [hx]; exact htag
    · refine h.calls.run thread (fun j t hji hj κ hκ => ?_) fun κ hκ hpreκ => ⟨trivial, ?_⟩
      · have hne : t.tag.number ≠ tag.number := Machine.tag_ne_of_nodup h.tags thread hj hji
        exact hκ.frame (fun heq => hne (congrArg SmsCall.number heq)) hstep
      · exact (h.world.step hp hκ (quotaStep_of_exec hpreκ hexec)).2
  | crash bound =>
    refine ⟨h.world, ?_, fun t ht => h.old t (List.mem_of_mem_eraseIdx ht), h.started, h.calls.crash _⟩
    exact h.tags.sublist ((List.eraseIdx_sublist _ _).map _)
  | @act a w started hact =>
    obtain ⟨q, hq, hw⟩ := Option.map_eq_some_iff.mp hact
    cases hw
    cases a with
    | request phone =>
      cases hq
      refine ⟨⟨h.world.runs, h.world.past, h.world.once, h.world.handedOnce, h.world.granted⟩,
        Machine.nodup_append_fresh (g := SmsCall.number) h.tags h.old rfl,
        Machine.lt_append_fresh (g := SmsCall.number) h.old rfl,
        fun x hx => Nat.lt_succ_of_lt (h.started x hx), ?_⟩
      refine h.calls.act (fun tag κ hκ => ?_) fun t ht => ⟨.asking, ?_, ?_⟩
      · cases κ <;> exact hκ
      · obtain rfl := List.mem_singleton.mp ht
        have hfresh : (⟨c.shared.sms.nextCall, phone⟩ : SmsCall) ∉ c.shared.executions.map Prod.fst := by
          intro hmem
          obtain ⟨x, hx, hcall⟩ := List.mem_map.mp hmem
          have hlt := h.started x hx
          rw [hcall] at hlt
          exact lt_irrefl _ hlt
        refine ⟨hfresh, fun hsent => ?_⟩
        obtain ⟨e, he, -⟩ := h.world.granted _ hsent
        exact hfresh (List.mem_map.mpr ⟨_, he, rfl⟩)
      · obtain rfl := List.mem_singleton.mp ht
        exact sendCode_reserving
    | pass milliseconds =>
      cases hq
      refine ⟨⟨h.world.runs, fun x hx => ?_, h.world.once, h.world.handedOnce, h.world.granted⟩, ?_,
        ?_, h.started, ?_⟩
      · have := h.world.past x hx
        show x.2.time ≤ c.shared.sms.now + milliseconds
        omega
      · rw [List.append_nil]; exact h.tags
      · rw [List.append_nil]; exact h.old
      · refine h.calls.act (fun tag κ hκ => ?_) nofun
        cases κ <;> exact hκ

end Pool

section Sends
variable {p : SmsProperties} {w : QuotaWorld} {x : SmsCall × SmsExecution}

theorem QuotaWorld.Accounts.granted_of_handed (h : w.Accounts p) (hx : x ∈ w.executions)
    (hsent : x.1 ∈ handedCalls w.sms.notes) : x.2.Granted := by
  obtain ⟨e, he, hgranted⟩ := h.granted x.1 hsent
  have hsame : (x.1, e) = x := List.inj_on_of_nodup_map h.once he hx rfl
  rw [← hsame]
  exact hgranted

theorem QuotaWorld.Accounts.length_sendTimes (h : w.Accounts p) (phone : String) :
    ((handedCalls w.sms.notes).filter fun call => call.phone = phone).length =
      (w.sendTimes phone).length := by
  have hsent : ((handedCalls w.sms.notes).filter fun call => call.phone = phone).Nodup :=
    h.handedOnce.filter _
  have hexecuted : ((w.executions.filter fun x =>
      x.1.phone = phone ∧ x.1 ∈ handedCalls w.sms.notes).map Prod.fst).Nodup :=
    h.once.sublist (List.filter_sublist.map _)
  have hperm := (List.perm_ext_iff_of_nodup hsent hexecuted).mpr fun call => ?_
  · simpa [sendTimes] using hperm.length_eq
  · simp only [List.mem_filter, decide_eq_true_eq, List.mem_map]
    constructor
    · rintro ⟨hcall, hphone⟩
      obtain ⟨e, he, -⟩ := h.granted call hcall
      exact ⟨(call, e), ⟨he, hphone, hcall⟩, rfl⟩
    · rintro ⟨x, ⟨-, hphone, hcall⟩, rfl⟩
      exact ⟨hcall, hphone⟩

theorem QuotaWorld.Accounts.pairwise_sendTimes (h : w.Accounts p) (phone : String) :
    (w.sendTimes phone).Pairwise fun later earlier =>
      earlier + 1000 * p.sendIntervalSeconds ≤ later := by
  have hspaced := List.pairwise_map.mp (h.runs phone).spaced
  have hfilter : (w.executions.filter fun x =>
      x.1.phone = phone ∧ x.1 ∈ handedCalls w.sms.notes).Sublist
        (w.executions.filter fun x => x.1.phone = phone) :=
    List.monotone_filter_right _ fun x hx => by simp at hx ⊢; exact hx.1
  refine List.pairwise_map.mpr ((hspaced.sublist hfilter).imp_of_mem fun hx hy hxy => ?_)
  obtain ⟨hx, hxsent⟩ := List.mem_filter.mp hx
  obtain ⟨hy, hysent⟩ := List.mem_filter.mp hy
  exact hxy (h.granted_of_handed hx (of_decide_eq_true hxsent).2)
    (h.granted_of_handed hy (of_decide_eq_true hysent).2)

theorem QuotaWorld.Accounts.countP_sendTimes (h : w.Accounts p) (hinterval : 1 ≤ p.sendIntervalSeconds)
    (phone : String) (t : ℤ) :
    (w.sendTimes phone).countP (fun time => t ≤ time ∧ time ≤ t + 86400000) ≤
      2 * p.maxSendsPerDay.toNat := by
  refine le_trans ?_ ((h.runs phone).countP_day hinterval t)
  rw [sendTimes, List.countP_map, List.countP_map, List.countP_filter, List.countP_filter]
  refine List.countP_mono_left fun x hx hsent => ?_
  simp only [Function.comp_apply, Bool.and_eq_true, decide_eq_true_eq] at hsent ⊢
  exact ⟨⟨h.granted_of_handed hx hsent.2.2, hsent.1⟩, hsent.2.1⟩

end Sends

/-- What the provider is asked for one phone, whatever overlaps, fails or is cut off: each send was
reserved at a time of its own, two of these times are an interval apart, and no day has more than
twice the daily maximum of them. -/
theorem sends_within_quota {p : SmsProperties} (hp : p.Fits) (hinterval : 1 ≤ p.sendIntervalSeconds)
    {now : ℤ} {c : QuotaPool} (hrun : (quotaCalls p).Run (fun _ _ => True) (noQuota now) c)
    (phone : String) :
    ((handedCalls c.shared.sms.notes).filter fun call => call.phone = phone).length =
      (c.shared.sendTimes phone).length ∧
    ((c.shared.sendTimes phone).Pairwise fun later earlier =>
      earlier + 1000 * p.sendIntervalSeconds ≤ later) ∧
    ∀ t, (c.shared.sendTimes phone).countP (fun time => t ≤ time ∧ time ≤ t + 86400000) ≤
      2 * p.maxSendsPerDay.toNat := by
  have h : QuotaPool.Within p c :=
    hrun.invariant (QuotaPool.within_noQuota p now) fun _ _ _ hd _ hf => hd.step hp hf
  exact ⟨h.world.length_sendTimes phone, h.world.pairwise_sendTimes phone,
    h.world.countP_sendTimes hinterval phone⟩

/-- Three calls for a phone: one that sends, one in its cooldown, and one that sends later. -/
def sentTwice : Option QuotaPool :=
  (quotaCalls {}).play (fun _ _ => true) (noQuota 0)
    [.act (.request "13800000000"), .run 0 .done, .run 0 (.drawn ⟨123456, by decide⟩), .run 0 .done,
      .run 0 .done, .act (.request "13800000000"), .run 1 .done, .act (.pass 60001),
      .act (.request "13800000000"), .run 2 .done, .run 2 (.drawn ⟨7, by decide⟩), .run 2 .done,
      .run 2 .refused]

theorem sends_within_quota_sentTwice : ∃ c, sentTwice = some c ∧
    c.shared.sendTimes "13800000000" = [60001, 0] ∧
    ((handedCalls c.shared.sms.notes).filter fun call => call.phone = "13800000000").length = 2 ∧
    (c.shared.sendTimes "13800000000").countP (fun time => 0 ≤ time ∧ time ≤ 0 + 86400000) ≤ 20 := by
  have hplay : sentTwice.map (fun c => decide (c.shared.sendTimes "13800000000" = [60001, 0])) =
      some true := by decide
  obtain ⟨c, hc, htimes⟩ := Option.map_eq_some_iff.mp hplay
  have htimes := of_decide_eq_true htimes
  have hrun : (quotaCalls {}).Run (fun _ _ => True) (noQuota 0) c :=
    Machine.run_of_play (fun _ _ _ => trivial) hc
  obtain ⟨hsends, -, hday⟩ :=
    sends_within_quota ⟨by decide, by decide⟩ (by decide) hrun "13800000000"
  refine ⟨c, hc, htimes, ?_, hday 0⟩
  rw [hsends, htimes]
  rfl

end HmDianPing.Login
