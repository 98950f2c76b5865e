import HmDianPing.Limit.ExactLog
import HmDianPing.Text.Decimal

/-! # The guarded endpoints

`RateLimitAspect.around` in front of the two methods that carry `@RateLimit`. All limiters
are keys of one Redis, and a request id is the scope, the time and a random number. Behind
the keys each address and each voucher has a sliding log of its own, whatever the others
send.
-/
namespace HmDianPing.Limit
open Redis Text

inductive RateLimitScope where
  | GLOBAL | USER | IP

def RateLimitScope.lowerName : RateLimitScope → String
  | .GLOBAL => "global"
  | .USER => "user"
  | .IP => "ip"

/-- The annotation, once its placeholders are resolved. -/
structure RateLimit where
  key : String
  maxCount : ℤ
  windowSeconds : ℤ
  scope : RateLimitScope
  message : String

/-- The properties that the placeholders name. -/
structure RateLimitProperties where
  enabled : Bool
  ipMaxCount : ℤ
  seckillMaxCount : ℤ
  seckillWindowSeconds : ℤ

inductive Endpoint where
  | sendCode (phone : String)
  | seckillVoucher (voucherId : ℤ)

def Endpoint.rateLimit (p : RateLimitProperties) : Endpoint → RateLimit
  | .sendCode _ => ⟨"sms:send", p.ipMaxCount, 60, .IP, "验证码请求过于频繁，请稍后重试"⟩
  | .seckillVoucher _ => ⟨"'seckill:' + #p0", p.seckillMaxCount, p.seckillWindowSeconds, .GLOBAL,
      "当前抢购人数过多，请稍后再试"⟩

/-- What becomes of the execution of the script. -/
inductive ScriptFault where
  | none
  /-- Redis does not get it. -/
  | fails (e : String)
  /-- It is executed, and its reply is lost. -/
  | failsAfter (e : String)
  /-- It is executed, and the client returns `null`. -/
  | nothing

/-- A request for one of the two methods, as the aspect finds it. -/
structure Call where
  endpoint : Endpoint
  user : Option ℤ
  /-- None outside of a servlet request. -/
  remoteAddr : Option String
  /-- `System.currentTimeMillis()` of the server. -/
  now : ℤ
  random : ℤ
  /-- The Redis clock. -/
  clock : ℤ
  fault : ScriptFault

inductive Outcome where
  | proceeds
  | failed (message : String)
  | thrown (e : String)
deriving DecidableEq

section Aspect
variable (evaluate : String → Endpoint → String) (p : RateLimitProperties)

/-- A key with `#` is an expression over the arguments. -/
def parseKey (endpoint : Endpoint) (keyExpression : String) : String :=
  if '#' ∉ keyExpression.toList then keyExpression else evaluate keyExpression endpoint

namespace Call
variable (call : Call)

def resolveScope : RateLimitScope → String
  | .GLOBAL => "global"
  | .USER => match call.user with
    | none => "anonymous"
    | some id => toString id
  | .IP => match call.remoteAddr with
    | none => "unknown"
    | some address => address

def rateLimit : RateLimit := call.endpoint.rateLimit p

def scopeValue : String := call.resolveScope (call.rateLimit p).scope

def redisKey : String :=
  "rate:limit:" ++ parseKey evaluate call.endpoint (call.rateLimit p).key ++ ":" ++
    (call.rateLimit p).scope.lowerName ++ ":" ++ call.scopeValue p

def requestId : String :=
  call.scopeValue p ++ ":" ++ toString call.now ++ ":" ++ toString call.random

def limiter : Limiter := .ofRule (call.rateLimit p).maxCount.toNat (call.rateLimit p).windowSeconds

def execution : Execution := ⟨⟨call.requestId p, call.now⟩, call.clock⟩

/-- `around`, over the keys of all limiters. -/
def around (keys : String → LogState) : Outcome × (String → LogState) :=
  if p.enabled = false then (.proceeds, keys)
  else
    let s := keys (call.redisKey evaluate p)
    let executed := Function.update keys (call.redisKey evaluate p)
      ((call.limiter p).execute s (call.execution p))
    match call.fault with
    | .fails e => (.thrown e, keys)
    | .failsAfter e => (.thrown e, executed)
    | .nothing => (.failed (call.rateLimit p).message, executed)
    | .none =>
      if (call.limiter p).returned s (call.execution p) = 0 then
        (.failed (call.rateLimit p).message, executed)
      else (.proceeds, executed)

end Call

/-- The outcomes of calls that Redis gets one after the other, and what they leave. -/
def aroundAll : List Call → (String → LogState) → List Outcome × (String → LogState)
  | [], keys => ([], keys)
  | call :: calls, keys =>
    let q := call.around evaluate p keys
    let rest := aroundAll calls q.2
    (q.1 :: rest.1, rest.2)

end Aspect

/-- Whom a limit is for: an address that asks for codes, or a voucher that is on sale. -/
inductive Source where
  | address (host : String)
  | voucher (voucherId : ℤ)
deriving DecidableEq

def Call.source (call : Call) : Source :=
  match call.endpoint with
  | .sendCode _ => .address (call.resolveScope .IP)
  | .seckillVoucher voucherId => .voucher voucherId

namespace Source
variable (p : RateLimitProperties)

def maxCount : Source → ℤ
  | .address _ => p.ipMaxCount
  | .voucher _ => p.seckillMaxCount

def windowSeconds : Source → ℤ
  | .address _ => 60
  | .voucher _ => p.seckillWindowSeconds

/-- `time` is in the window that ends with `now`. -/
def InWindow (s : Source) (now time : ℤ) : Prop :=
  now - s.windowSeconds p * 1000 < time ∧ time ≤ now

instance (s : Source) (now time : ℤ) : Decidable (s.InWindow p now time) :=
  inferInstanceAs (Decidable (_ ∧ _))

/-- What the log has of the source in the window. -/
def used (s : Source) (log : List (Source × ℤ)) (now : ℤ) : ℕ :=
  log.countP fun a => a.1 = s ∧ s.InWindow p now a.2

/-- There is room in the window. -/
def Admits (s : Source) (log : List (Source × ℤ)) (now : ℤ) : Prop :=
  (s.used p log now : ℤ) < s.maxCount p

instance (s : Source) (log : List (Source × ℤ)) (now : ℤ) : Decidable (s.Admits p log now) :=
  inferInstanceAs (Decidable (_ < _))

end Source

def Call.admitted (p : RateLimitProperties) (call : Call) (log : List (Source × ℤ)) :
    List (Source × ℤ) :=
  if call.source.Admits p log call.now then (call.source, call.now) :: log else log

/-- A log for each source, without keys, records or expiry. -/
def Call.limited (p : RateLimitProperties) (call : Call) (log : List (Source × ℤ)) :
    Outcome × List (Source × ℤ) :=
  if p.enabled = false then (.proceeds, log)
  else
    match call.fault with
    | .fails e => (.thrown e, log)
    | .failsAfter e => (.thrown e, call.admitted p log)
    | .nothing => (.failed (call.rateLimit p).message, call.admitted p log)
    | .none =>
      if call.source.Admits p log call.now then (.proceeds, call.admitted p log)
      else (.failed (call.rateLimit p).message, call.admitted p log)

def limitedAll (p : RateLimitProperties) : List Call → List (Source × ℤ) →
    List Outcome × List (Source × ℤ)
  | [], log => ([], log)
  | call :: calls, log =>
    let q := call.limited p log
    let rest := limitedAll p calls q.2
    (q.1 :: rest.1, rest.2)

section Keys
variable {evaluate : String → Endpoint → String} {p : RateLimitProperties} {call call' : Call}

/-- The expression language puts the first argument behind the text. -/
def Evaluates (evaluate : String → Endpoint → String) : Prop :=
  ∀ voucherId, evaluate "'seckill:' + #p0" (.seckillVoucher voucherId) =
    "seckill:" ++ toString voucherId

namespace Source

def redisKey : Source → String
  | .address host => "rate:limit:sms:send:ip:" ++ host
  | .voucher voucherId => "rate:limit:seckill:" ++ toString voucherId ++ ":global:global"

def scopeValue : Source → String
  | .address host => host
  | .voucher _ => "global"

def limiter (p : RateLimitProperties) (s : Source) : Limiter :=
  .ofRule (s.maxCount p).toNat (s.windowSeconds p)

theorem redisKey_injective : Function.Injective redisKey := by
  have happart : ∀ host voucherId, redisKey (.address host) ≠ redisKey (.voucher voucherId) := by
    intro host voucherId h
    have hlist := congrArg String.toList h
    unfold redisKey at hlist
    rw [String.toList_append, String.toList_append, String.toList_append, List.append_assoc] at hlist
    -- the keys differ in their thirteenth letter
    have hletters : "rate:limit:sms:send:ip:".toList.take 13 = "rate:limit:seckill:".toList.take 13 := by
      have htake := congrArg (List.take 13) hlist
      rwa [List.take_append_of_le_length (by decide),
        List.take_append_of_le_length (by decide)] at htake
    revert hletters
    decide
  intro s s' h
  cases s with
  | address host =>
    cases s' with
    | address host' =>
      unfold redisKey at h
      rw [(String.append_right_inj _).mp h]
    | voucher voucherId => exact absurd h (happart host voucherId)
  | voucher voucherId =>
    cases s' with
    | address host => exact absurd h.symm (happart host voucherId)
    | voucher voucherId' =>
      unfold redisKey at h
      have htext := (String.append_right_inj _).mp ((String.append_left_inj _).mp h)
      rw [decimal_injective (congrArg lit htext)]

end Source

theorem redisKey_eq (hevaluate : Evaluates evaluate) :
    call.redisKey evaluate p = call.source.redisKey := by
  unfold Call.redisKey Call.scopeValue Call.rateLimit Call.source
  cases call.endpoint with
  | sendCode phone =>
    have hkey : parseKey evaluate (.sendCode phone) "sms:send" = "sms:send" :=
      if_pos (by decide)
    have htext : "rate:limit:" ++ "sms:send" ++ ":" ++ "ip" ++ ":" = "rate:limit:sms:send:ip:" := by
      decide
    show "rate:limit:" ++ parseKey evaluate (.sendCode phone) "sms:send" ++ ":" ++ "ip" ++ ":" ++ _ = _
    rw [hkey, htext]
    rfl
  | seckillVoucher voucherId =>
    have hkey : parseKey evaluate (.seckillVoucher voucherId) "'seckill:' + #p0" =
        "seckill:" ++ toString voucherId :=
      (if_neg (by decide)).trans (hevaluate voucherId)
    have hbefore : "rate:limit:" ++ "seckill:" = "rate:limit:seckill:" := by decide
    have hbehind : ":" ++ ("global" ++ (":" ++ "global")) = ":global:global" := by decide
    show "rate:limit:" ++ parseKey evaluate (.seckillVoucher voucherId) "'seckill:' + #p0" ++ ":" ++
      "global" ++ ":" ++ "global" = "rate:limit:seckill:" ++ toString voucherId ++ ":global:global"
    rw [hkey, ← hbefore, ← hbehind]
    simp only [String.append_assoc]

theorem limiter_eq : call.limiter p = call.source.limiter p := by
  unfold Call.limiter Call.rateLimit Call.source
  cases call.endpoint <;> rfl

end Keys

def ScriptFault.executes : ScriptFault → Bool
  | .fails _ => false
  | _ => true

def executions (p : RateLimitProperties) (s : Source) (calls : List Call) : List Execution :=
  (calls.filter fun call => call.source = s ∧ call.fault.executes).map (Call.execution p)

/-- The timestamps for one source do not go back, the Redis clock does not outrun them, and no
number is drawn twice in a millisecond. -/
def Call.Before (c d : Call) : Prop :=
  c.source = d.source → c.now ≤ d.now ∧ d.clock - c.clock ≤ d.now - c.now ∧
    (c.now = d.now → c.random ≠ d.random)

instance (c d : Call) : Decidable (c.Before d) := inferInstanceAs (Decidable (_ → _ ∧ _ ∧ (_ → _)))

/-- Behind its key each source has what the log has of it, and the calls go on from there. -/
def Tracks (p : RateLimitProperties) (keys : String → LogState) (log : List (Source × ℤ))
    (calls : List Call) : Prop :=
  ∀ s : Source, ∃ time, (s.limiter p).Logged (keys s.redisKey) time ∧
    (keys s.redisKey).Follows time (executions p s calls) ∧
    (keys s.redisKey).state.admitted.map LimitRequest.now =
      (log.filter fun a => a.1 = s).map Prod.snd

section Refinement
variable {evaluate : String → Endpoint → String} {p : RateLimitProperties} {call : Call}
  {calls : List Call} {keys : String → LogState} {log : List (Source × ℤ)} {s : Source}

theorem admittedIn_eq {state : LimitState} (h : state.admitted.map LimitRequest.now =
    (log.filter fun a => a.1 = s).map Prod.snd) (now : ℤ) :
    (s.limiter p).admittedIn state now = s.used p log now := by
  calc (s.limiter p).admittedIn state now
      = (state.admitted.map LimitRequest.now).countP fun time => s.InWindow p now time := by
        rw [List.countP_map]
        rfl
    _ = s.used p log now := by
        rw [h, List.countP_map, List.countP_filter, Source.used]
        refine List.countP_congr fun a _ => ?_
        simp [and_comm]

theorem executions_cons_of_ne (h : call.source ≠ s) :
    executions p s (call :: calls) = executions p s calls := by
  simp [executions, h]

theorem executions_cons_of_fails (h : call.fault.executes = false) :
    executions p s (call :: calls) = executions p s calls := by
  simp [executions, h]

theorem executions_cons (h : call.fault.executes = true) :
    executions p call.source (call :: calls) =
      call.execution p :: executions p call.source calls := by
  simp [executions, h]

theorem Tracks.execute (h : Tracks p keys log (call :: calls)) (hexec : call.fault.executes = true) :
    ((call.source.limiter p).returned (keys call.source.redisKey) (call.execution p) = 0 ↔
      ¬ call.source.Admits p log call.now) ∧
    Tracks p (Function.update keys call.source.redisKey
      ((call.source.limiter p).execute (keys call.source.redisKey) (call.execution p)))
      (call.admitted p log) calls := by
  obtain ⟨time, hlogged, hfollows, hlog⟩ := h call.source
  rw [executions_cons hexec] at hfollows
  have hfound := hlogged.found_head hfollows
  have hroom : (call.source.limiter p).admittedIn (keys call.source.redisKey).state
      (call.execution p).request.now < (call.source.limiter p).maxCount ↔
        call.source.Admits p log call.now := by
    rw [admittedIn_eq hlog]
    change call.source.used p log call.now < (call.source.maxCount p).toNat ↔
      (call.source.used p log call.now : ℤ) < call.source.maxCount p
    omega
  refine ⟨?_, fun s => ?_⟩
  · rw [Limiter.returned, hfound.rateLimit_eq, Limiter.admittedIn, found_admitted,
      ← Limiter.admittedIn]
    by_cases hadmits : call.source.Admits p log call.now
    · rw [if_pos (hroom.mpr hadmits)]
      simp [hadmits]
    · rw [if_neg (mt hroom.mp hadmits)]
      simp [hadmits]
  by_cases hs : call.source = s
  · subst hs
    have hwindow : (call.source.limiter p).windowMillis ≤ (call.source.limiter p).ttlSeconds * 1000 := by
      simp only [Source.limiter, Limiter.ofRule]
      omega
    rw [Function.update_self]
    refine ⟨call.now, hlogged.execute hwindow hfollows, hfollows.execute, ?_⟩
    rw [execute_admitted hfound, Call.admitted]
    by_cases hadmits : call.source.Admits p log call.now
    · rw [if_pos (hroom.mpr hadmits), if_pos hadmits]
      simpa [Call.execution] using hlog
    · rw [if_neg (mt hroom.mp hadmits), if_neg hadmits]
      exact hlog
  · obtain ⟨time', hlogged', hfollows', hlog'⟩ := h s
    rw [executions_cons_of_ne hs] at hfollows'
    rw [Function.update_of_ne (Source.redisKey_injective.ne (Ne.symm hs))]
    refine ⟨time', hlogged', hfollows', hlog'.trans ?_⟩
    unfold Call.admitted
    split
    · simp [hs]
    · rfl

theorem Tracks.around (hevaluate : Evaluates evaluate) (henabled : p.enabled = true)
    (h : Tracks p keys log (call :: calls)) :
    (call.around evaluate p keys).1 = (call.limited p log).1 ∧
      Tracks p (call.around evaluate p keys).2 (call.limited p log).2 calls := by
  have hswitch : ¬ p.enabled = false := by simp [henabled]
  unfold Call.around Call.limited
  rw [if_neg hswitch, if_neg hswitch, redisKey_eq hevaluate, limiter_eq]
  cases hfault : call.fault with
  | fails e =>
    refine ⟨rfl, fun s => ?_⟩
    obtain ⟨time, hlogged, hfollows, hlog⟩ := h s
    rw [executions_cons_of_fails (by rw [hfault]; rfl)] at hfollows
    exact ⟨time, hlogged, hfollows, hlog⟩
  | failsAfter e => exact ⟨rfl, (h.execute (by rw [hfault]; rfl)).2⟩
  | nothing => exact ⟨rfl, (h.execute (by rw [hfault]; rfl)).2⟩
  | none =>
    obtain ⟨hreturned, hnext⟩ := h.execute (by rw [hfault]; rfl)
    dsimp only
    by_cases hadmits : call.source.Admits p log call.now
    · rw [if_neg (mt hreturned.mp (not_not.mpr hadmits)), if_pos hadmits]
      exact ⟨rfl, hnext⟩
    · rw [if_pos (hreturned.mpr hadmits), if_neg hadmits]
      exact ⟨rfl, hnext⟩

theorem Tracks.aroundAll (hevaluate : Evaluates evaluate) (henabled : p.enabled = true)
    (h : Tracks p keys log calls) :
    (aroundAll evaluate p calls keys).1 = (limitedAll p calls log).1 := by
  induction calls generalizing keys log with
  | nil => rfl
  | cons call calls ih =>
    obtain ⟨houtcome, hnext⟩ := h.around hevaluate henabled
    exact congrArg₂ List.cons houtcome (ih hnext)

end Refinement

section Window
variable {p : RateLimitProperties} {call : Call} {calls : List Call} {log : List (Source × ℤ)}
  {s : Source} {now t : ℤ}

/-- The call went through, for the source and with a timestamp in the window. -/
def Passed (p : RateLimitProperties) (s : Source) (t : ℤ) (x : Call × Outcome) : Prop :=
  x.1.source = s ∧ x.2 = .proceeds ∧ s.InWindow p t x.1.now

instance (s : Source) (t : ℤ) (x : Call × Outcome) : Decidable (Passed p s t x) :=
  inferInstanceAs (Decidable (_ ∧ _ ∧ _))

/-- The log keeps the limit, and its entries are not later than what is still to come. -/
structure WithinLimit (p : RateLimitProperties) (log : List (Source × ℤ)) (calls : List Call) :
    Prop where
  earlier : ∀ a ∈ log, ∀ call ∈ calls, call.source = a.1 → a.2 ≤ call.now
  limit : ∀ (s : Source) t, s.used p log t ≤ (s.maxCount p).toNat

theorem used_le (h : ∀ a ∈ log, a.1 = s → a.2 ≤ now) (ht : s.InWindow p t now) :
    s.used p log t ≤ s.used p log now := by
  refine List.countP_mono_left fun a ha hin => ?_
  obtain ⟨hsource, hwindow, -⟩ : a.1 = s ∧ s.InWindow p t a.2 := of_decide_eq_true hin
  obtain ⟨-, hlate⟩ := ht
  exact decide_eq_true ⟨hsource, by omega, h a ha hsource⟩

theorem WithinLimit.admitted (h : WithinLimit p log (call :: calls))
    (hcalls : (call :: calls).Pairwise Call.Before) : WithinLimit p (call.admitted p log) calls := by
  have hrest : WithinLimit p log calls :=
    ⟨fun a ha c hc => h.earlier a ha c (List.mem_cons_of_mem _ hc), h.limit⟩
  unfold Call.admitted
  split
  swap
  · exact hrest
  next hadmits =>
  refine ⟨fun a ha c hc hsource => ?_, fun s t => ?_⟩
  · obtain rfl | ha := List.mem_cons.mp ha
    · exact ((List.pairwise_cons.mp hcalls).1 c hc hsource.symm).1
    · exact hrest.earlier a ha c hc hsource
  · rw [Source.used, List.countP_cons, ← Source.used]
    have hlimit := h.limit s t
    split
    swap
    · simpa using hlimit
    next hin =>
    obtain ⟨rfl, ht⟩ : call.source = s ∧ s.InWindow p t call.now := of_decide_eq_true hin
    have hle := used_le (fun a ha ha' => h.earlier a ha call List.mem_cons_self ha'.symm) ht
    have hroom : (call.source.used p log call.now : ℤ) < call.source.maxCount p := hadmits
    omega

/-- What goes through is in the log. -/
theorem limited_cases (henabled : p.enabled = true) (call : Call) (log : List (Source × ℤ)) :
    ((call.limited p log).1 = .proceeds ∧ (call.limited p log).2 = (call.source, call.now) :: log ∧
      (call.limited p log).2 = call.admitted p log) ∨
    ((call.limited p log).1 ≠ .proceeds ∧
      ((call.limited p log).2 = log ∨ (call.limited p log).2 = call.admitted p log)) := by
  unfold Call.limited
  rw [if_neg (by simp [henabled])]
  cases call.fault with
  | fails e => exact .inr ⟨by simp, .inl rfl⟩
  | failsAfter e | nothing => exact .inr ⟨by simp, .inr rfl⟩
  | none =>
    dsimp only
    split
    · next hadmits => exact .inl ⟨rfl, if_pos hadmits, rfl⟩
    · exact .inr ⟨by simp, .inr rfl⟩

theorem used_admitted (p : RateLimitProperties) (call : Call) (log : List (Source × ℤ)) (s : Source)
    (t : ℤ) : s.used p log t ≤ s.used p (call.admitted p log) t := by
  unfold Call.admitted
  split
  · exact (List.sublist_cons_self _ _).countP_le
  · exact le_refl _

theorem WithinLimit.limitedAll (henabled : p.enabled = true) (h : WithinLimit p log calls)
    (hcalls : calls.Pairwise Call.Before) (s : Source) (t : ℤ) :
    (calls.zip (limitedAll p calls log).1).countP (fun x => Passed p s t x) + s.used p log t ≤
      (s.maxCount p).toNat := by
  induction calls generalizing log with
  | nil => simpa [Limit.limitedAll] using h.limit s t
  | cons call calls ih =>
    have hlater := (List.pairwise_cons.mp hcalls).2
    have hadmitted := h.admitted hcalls
    simp only [Limit.limitedAll, List.zip_cons_cons, List.countP_cons]
    obtain ⟨-, hlog, hlog'⟩ | ⟨hrefused, hlog⟩ := limited_cases henabled call log
    · have hrest := ih (hlog'.symm ▸ hadmitted) hlater
      rw [hlog] at hrest ⊢
      rw [Source.used, List.countP_cons, ← Source.used] at hrest
      by_cases hpassed : Passed p s t (call, (call.limited p log).1)
      · rw [if_pos (decide_eq_true hpassed)]
        rw [if_pos (decide_eq_true ⟨hpassed.1, hpassed.2.2⟩)] at hrest
        omega
      · rw [if_neg (by simpa using hpassed)]
        omega
    · have hnot : ¬ Passed p s t (call, (call.limited p log).1) := fun hp => hrefused hp.2.1
      rw [if_neg (by simpa using hnot)]
      obtain hlog | hlog := hlog
      · rw [hlog]
        exact ih ⟨fun a ha c hc => h.earlier a ha c (List.mem_cons_of_mem _ hc), h.limit⟩ hlater
      · rw [hlog]
        have hrest := ih hadmitted hlater
        have hused := used_admitted p call log s t
        omega

end Window

end HmDianPing.Limit
