import HmDianPing.Login.Session
import Mathlib.Data.List.Induction

/-! # The identity of a request

The logged in user is kept in a thread local that outlives the request. It is set
before a Redis call that can fail, and cleared in a callback that is not made for
an interceptor that fails.
-/
namespace HmDianPing.Login
open Interleaving

/-- The `ThreadLocal` of one worker thread. -/
structure UserHolder where
  user : Option UserDTO
  /-- History: what `getUser` answers while `LoginInterceptor` or a handler runs. -/
  seen : List (Option UserDTO)

def UserHolder.look (h : UserHolder) : UserHolder := { h with seen := h.seen ++ [h.user] }

/-- What handlers do to the holder. -/
inductive HolderCall where
  /-- `logout`. -/
  | removeUser
  /-- `updateProfile`, when it succeeds; a null icon is kept as it is. -/
  | saveProfile (nickName : String) (icon : Option String)

def HolderCall.apply (h : UserHolder) : HolderCall → UserHolder
  | .removeUser => { h with user := none }
  | .saveProfile nickName icon =>
    match h.user with
    | some ⟨some id, _, oldIcon⟩ => { h with user := some ⟨some id, some nickName, icon <|> oldIcon⟩ }
    | _ => h

/-- A request, and what Redis answers when it is served. -/
structure Request where
  /-- The header `authorization`. -/
  token : Option String
  /-- `login:token:{token}`. -/
  sessions : String → UserMap
  entriesFails : Bool
  expireFails : Bool
  /-- The path is not excluded from `LoginInterceptor`. -/
  intercepted : Bool
  handler : List HolderCall

namespace Request
variable (r : Request)

def userMap : UserMap := if isBlank r.token then .empty else r.sessions (r.token.getD "")

def answer : (c : LoginCommand) → UserHolder → Except Failure c.Reply × UserHolder
  | .entries _, h =>
    if r.entriesFails then (.error "RedisConnectionFailureException", h) else (.ok r.userMap, h)
  | .expire _, h =>
    if r.expireFails then (.error "RedisConnectionFailureException", h) else (.ok (), h)
  | .saveUser user, h => (.ok (), { h with user := some user })
  | .getUser, h => (.ok h.user, h.look)
  | .removeUser, h => (.ok (), { h with user := none })
  | .getInfoById _, h => (.ok none, h)
  | .delete _, h => (.ok (), h)
  | .putAll _ _, h => (.ok (), h)
  | .put _ _ _, h => (.ok (), h)
  | .updateUser _ _ _, h => (.ok (), h)
  | .saveInfo _, h => (.ok (), h)
  | .updateInfoById _, h => (.ok (), h)

def storedUser : Option UserDTO := if r.userMap.isEmpty then none else some r.userMap.toUserDTO

/-- The handler runs, and may look up the user before and after each of its calls. -/
def handle (h : UserHolder) : UserHolder :=
  r.handler.foldl (fun h call => (call.apply h).look) h.look

end Request

/-- An interceptor, as what its callbacks do to the holder. -/
structure HandlerInterceptor where
  preHandle : Request → UserHolder → Except Failure Bool × UserHolder
  afterCompletion : UserHolder → UserHolder

def refreshTokenInterceptor : HandlerInterceptor where
  preHandle r h := (refreshPreHandle r.token).run r.answer h
  afterCompletion h := { h with user := none }

def loginInterceptor : HandlerInterceptor where
  preHandle r h := loginPreHandle.run r.answer h
  afterCompletion h := h

/-- `MvcConfig.addInterceptors`, for the path of the request. -/
def interceptors (r : Request) : List HandlerInterceptor :=
  refreshTokenInterceptor :: if r.intercepted then [loginInterceptor] else []

/-- `triggerAfterCompletion`, for the interceptors whose `preHandle` returned true, last one first. -/
def triggerAfterCompletion (completed : List HandlerInterceptor) (h : UserHolder) : UserHolder :=
  completed.foldl (fun h i => i.afterCompletion h) h

/-- The handler runs when every `preHandle` returns true. -/
def doDispatch (r : Request) :
    List HandlerInterceptor → List HandlerInterceptor → UserHolder → UserHolder
  | [], completed, h => triggerAfterCompletion completed (r.handle h)
  | i :: rest, completed, h =>
    match i.preHandle r h with
    | (.ok true, h) => doDispatch r rest (i :: completed) h
    | (_, h) => triggerAfterCompletion completed h

def serve (user : Option UserDTO) (r : Request) : UserHolder :=
  doDispatch r (interceptors r) [] ⟨user, []⟩

def holderAfter (rs : List Request) : Option UserDTO := rs.foldl (fun user r => (serve user r).user) none

def seenBy (before : List Request) (r : Request) : List (Option UserDTO) :=
  (serve (holderAfter before) r).seen

def SeesOwnUser (before : List Request) (r : Request) : Prop :=
  ∀ u, some u ∈ seenBy before r → ∃ own, r.storedUser = some own ∧ u.id = own.id

def OwnIdentities (rs : List Request) : Prop :=
  ∀ before r after, rs = before ++ r :: after → SeesOwnUser before r

namespace Request
variable (r : Request)

/-- `preHandle` saves the user, then fails. -/
def LeavesUser : Prop :=
  isBlank r.token = false ∧ r.entriesFails = false ∧ r.userMap ≠ .empty ∧ r.expireFails = true

/-- `preHandle` fails before it saves a user. -/
def FailsEarly : Prop := isBlank r.token = false ∧ r.entriesFails = true

def FindsNoUser : Prop := isBlank r.token = true ∨ r.entriesFails = false ∧ r.userMap = .empty

def FindsUser : Prop :=
  isBlank r.token = false ∧ r.entriesFails = false ∧ r.userMap ≠ .empty ∧ r.expireFails = false

end Request

/-- No request that finds no user comes after one that has left its user, with none between them but
such as fail early. -/
def NobodyLeft (rs : List Request) : Prop :=
  ∀ before q between r after, rs = before ++ q :: (between ++ r :: after) → q.LeavesUser →
    (∀ m ∈ between, m.FailsEarly) → ¬ r.FindsNoUser

section Serve
variable {r : Request} {user u : Option UserDTO}

/-- Once `RefreshTokenInterceptor` has let the request pass, with this user. -/
def entered (r : Request) (user : Option UserDTO) : UserHolder :=
  doDispatch r (if r.intercepted then [loginInterceptor] else []) [refreshTokenInterceptor] ⟨user, []⟩

theorem Request.cases (r : Request) :
    r.LeavesUser ∨ r.FailsEarly ∨ r.FindsNoUser ∨ r.FindsUser := by
  unfold LeavesUser FailsEarly FindsNoUser FindsUser
  by_cases hempty : r.userMap = .empty
  all_goals
    cases isBlank r.token <;> cases r.entriesFails <;> cases r.expireFails <;> simp [hempty]

/-- What `RefreshTokenInterceptor.preHandle` comes to. -/
theorem run_refreshPreHandle (r : Request) (h : UserHolder) :
    (refreshPreHandle r.token).run r.answer h =
      if isBlank r.token then (.ok true, h)
      else if r.entriesFails then (.error "RedisConnectionFailureException", h)
      else if r.userMap = .empty then (.ok true, h)
      else if r.expireFails then
        (.error "RedisConnectionFailureException", { h with user := some r.userMap.toUserDTO })
      else (.ok true, { h with user := some r.userMap.toUserDTO }) := by
  unfold refreshPreHandle
  by_cases hblank : isBlank r.token = true
  · simp [hblank]
  · by_cases hentries : r.entriesFails = true
    · simp [hblank, hentries, Request.answer]
    · by_cases hempty : r.userMap = .empty
      · simp [hblank, hentries, hempty, Request.answer, UserMap.isEmpty]
      · by_cases hexpire : r.expireFails = true <;>
          simp [hblank, hentries, hempty, hexpire, Request.answer, UserMap.isEmpty]

theorem serve_of_leavesUser (h : r.LeavesUser) :
    serve user r = ⟨some r.userMap.toUserDTO, []⟩ := by
  obtain ⟨hblank, hentries, hfound, hexpire⟩ := h
  simp [serve, interceptors, doDispatch, refreshTokenInterceptor, run_refreshPreHandle, hblank,
    hentries, hfound, hexpire, triggerAfterCompletion]

theorem serve_of_failsEarly (h : r.FailsEarly) : serve user r = ⟨user, []⟩ := by
  obtain ⟨hblank, hentries⟩ := h
  simp [serve, interceptors, doDispatch, refreshTokenInterceptor, run_refreshPreHandle, hblank,
    hentries, triggerAfterCompletion]

theorem serve_of_findsNoUser (h : r.FindsNoUser) : serve user r = entered r user := by
  rw [serve, interceptors, doDispatch]
  rcases h with hblank | ⟨hentries, hempty⟩
  · simp [refreshTokenInterceptor, run_refreshPreHandle, hblank, entered]
  · by_cases hblank : isBlank r.token = true <;>
      simp [refreshTokenInterceptor, run_refreshPreHandle, hblank, hentries, hempty, entered]

theorem serve_of_findsUser (h : r.FindsUser) :
    serve user r = entered r (some r.userMap.toUserDTO) := by
  obtain ⟨hblank, hentries, hfound, hexpire⟩ := h
  rw [serve, interceptors, doDispatch]
  simp [refreshTokenInterceptor, run_refreshPreHandle, hblank, hentries, hfound, hexpire, entered]

theorem storedUser_of_findsNoUser (h : r.FindsNoUser) : r.storedUser = none := by
  have hempty : r.userMap = .empty := by
    rcases h with hblank | ⟨-, hempty⟩
    · simp [Request.userMap, hblank]
    · exact hempty
  simp [Request.storedUser, UserMap.isEmpty, hempty]

theorem storedUser_of_findsUser (h : r.FindsUser) :
    r.storedUser = some r.userMap.toUserDTO := by
  simp [Request.storedUser, UserMap.isEmpty, h.2.2.1]

end Serve

section Seen
variable {r : Request} {user : Option UserDTO} {h : UserHolder}

/-- Whoever is held, now or when it was looked up, has the id of this user. -/
structure Knows (user : Option UserDTO) (h : UserHolder) : Prop where
  held : ∀ u, h.user = some u → ∃ own, user = some own ∧ u.id = own.id
  seen : ∀ u, some u ∈ h.seen → ∃ own, user = some own ∧ u.id = own.id

theorem Knows.look (hk : Knows user h) : Knows user h.look where
  held := hk.held
  seen u hu := by
    rcases List.mem_append.mp hu with hu | hu
    · exact hk.seen u hu
    · exact hk.held u (List.mem_singleton.mp hu).symm

theorem Knows.apply (hk : Knows user h) (call : HolderCall) : Knows user (call.apply h) := by
  cases call with
  | removeUser => exact ⟨(fun u hu => by cases hu), hk.seen⟩
  | saveProfile nickName icon =>
    simp only [HolderCall.apply]
    split
    next id old oldIcon hheld =>
      refine ⟨fun u hu => ?_, hk.seen⟩
      obtain ⟨own, hown, hid⟩ := hk.held _ hheld
      cases hu
      exact ⟨own, hown, hid⟩
    next => exact hk

theorem user_logout (r : Request) (token : Option String) (h : UserHolder) :
    ((logout token).run r.answer h).2.user =
      if isBlank token then h.user else (HolderCall.removeUser.apply h).user := by
  unfold logout
  split <;> rfl

theorem user_updateProfile (r : Request) (profile : Option UserProfileUpdateDTO)
    (token : Option String) (h : UserHolder) :
    ((updateProfile profile token).run r.answer h).2.user = h.user ∨
      ∃ nickName icon, ((updateProfile profile token).run r.answer h).2.user =
        ((HolderCall.saveProfile nickName icon).apply h).user := by
  obtain ⟨user, seen⟩ := h
  match user with
  | none => exact .inl rfl
  | some ⟨none, oldNickName, oldIcon⟩ => exact .inl rfl
  | some ⟨some userId, oldNickName, oldIcon⟩ =>
    cases hcheck : checkProfile profile with
    | error errorMsg =>
      left
      simp [updateProfile, Request.answer, UserHolder.look, hcheck]
    | ok checked =>
      obtain ⟨checked, nickName, introduce⟩ := checked
      by_cases hblank : isBlank token = true
      · refine .inr ⟨nickName, if isBlank checked.icon then none else checked.icon, ?_⟩
        simp [updateProfile, Request.answer, UserHolder.look, hcheck, saveOrUpdateInfo, putProfile,
          hblank, HolderCall.apply]
      · by_cases hexpire : r.expireFails = true
        · left
          simp [updateProfile, Request.answer, UserHolder.look, hcheck, saveOrUpdateInfo, putProfile,
            hblank, hexpire]
        · refine .inr ⟨nickName, if isBlank checked.icon then none else checked.icon, ?_⟩
          simp [updateProfile, Request.answer, UserHolder.look, hcheck, saveOrUpdateInfo, putProfile,
            hblank, hexpire, HolderCall.apply]

theorem Knows.handle (hk : Knows user h) (r : Request) : Knows user (r.handle h) := by
  rw [Request.handle]
  generalize r.handler = calls
  replace hk := hk.look
  generalize h.look = h₁ at hk
  induction calls generalizing h₁ with
  | nil => exact hk
  | cons call calls ih => exact ih _ (hk.apply call).look

theorem Knows.afterRefresh (hk : Knows user h) :
    Knows user (refreshTokenInterceptor.afterCompletion h) :=
  ⟨(fun u hu => by cases hu), hk.seen⟩

theorem knows_entered (r : Request) (user : Option UserDTO) : Knows user (entered r user) := by
  have hstart : Knows user ⟨user, []⟩ := ⟨fun u hu => ⟨u, hu, rfl⟩, by simp⟩
  rw [entered]
  cases r.intercepted with
  | false => exact (hstart.handle r).afterRefresh
  | true =>
    cases user with
    | none => exact hstart.look.afterRefresh
    | some u => exact (hstart.look.handle r).afterRefresh

theorem user_entered (r : Request) (user : Option UserDTO) : (entered r user).user = none := by
  rw [entered]
  cases r.intercepted with
  | false => rfl
  | true => cases user <;> rfl

theorem seen_apply (call : HolderCall) (h : UserHolder) : (call.apply h).seen = h.seen := by
  cases call with
  | removeUser => rfl
  | saveProfile nickName icon =>
    simp only [HolderCall.apply]
    split <;> rfl

theorem seen_handle (r : Request) (h : UserHolder) :
    ∃ later, (r.handle h).seen = h.seen ++ h.user :: later := by
  have hfold : ∀ (calls : List HolderCall) (h₁ : UserHolder),
      ∃ later, (calls.foldl (fun h call => (call.apply h).look) h₁).seen = h₁.seen ++ later := by
    intro calls
    induction calls with
    | nil => exact fun h₁ => ⟨[], (List.append_nil _).symm⟩
    | cons call calls ih =>
      intro h₁
      obtain ⟨later, hlater⟩ := ih (call.apply h₁).look
      refine ⟨(call.apply h₁).user :: later, hlater.trans ?_⟩
      rw [UserHolder.look, seen_apply, List.append_assoc]
      rfl
  obtain ⟨later, hlater⟩ := hfold r.handler h.look
  refine ⟨later, hlater.trans ?_⟩
  rw [UserHolder.look, List.append_assoc]
  rfl

theorem mem_seen_entered (r : Request) (user : Option UserDTO) : user ∈ (entered r user).seen := by
  rw [entered]
  cases r.intercepted with
  | false =>
    obtain ⟨later, hlater⟩ := seen_handle r ⟨user, []⟩
    have hseen : (r.handle ⟨user, []⟩).seen = user :: later := hlater
    change user ∈ (r.handle ⟨user, []⟩).seen
    rw [hseen]
    exact List.mem_cons_self
  | true =>
    cases user with
    | none => exact List.mem_cons_self
    | some u =>
      obtain ⟨later, hlater⟩ := seen_handle r ⟨some u, [some u]⟩
      have hseen : (r.handle ⟨some u, [some u]⟩).seen = some u :: some u :: later := hlater
      change some u ∈ (r.handle ⟨some u, [some u]⟩).seen
      rw [hseen]
      exact List.mem_cons_self

end Seen

section Sequence
variable {rs : List Request} {r : Request}

/-- The user is left by the last request but for some that fail early. -/
def LeftBy (q : Request) (rs : List Request) : Prop :=
  ∃ before between, rs = before ++ q :: between ∧ q.LeavesUser ∧ ∀ m ∈ between, m.FailsEarly

theorem leftBy_append {q : Request} : LeftBy q (rs ++ [r]) ↔
    (q = r ∧ r.LeavesUser) ∨ (r.FailsEarly ∧ LeftBy q rs) := by
  constructor
  · rintro ⟨before, between, hrs, hleaves, hbetween⟩
    rcases List.eq_nil_or_concat between with rfl | ⟨between, r', rfl⟩
    · obtain ⟨-, hr⟩ := List.append_inj' hrs rfl
      cases hr
      exact .inl ⟨rfl, hleaves⟩
    · rw [List.concat_eq_append, ← List.cons_append, ← List.append_assoc] at hrs
      obtain ⟨hinit, hr⟩ := List.append_inj' hrs rfl
      cases hr
      refine .inr ⟨hbetween r (by simp), before, between, hinit, hleaves, fun m hm => ?_⟩
      exact hbetween m (by simp [hm])
  · rintro (⟨rfl, hleaves⟩ | ⟨hfails, before, between, rfl, hleaves, hbetween⟩)
    · exact ⟨rs, [], rfl, hleaves, by simp⟩
    · refine ⟨before, between ++ [r], by simp, hleaves, fun m hm => ?_⟩
      rcases List.mem_append.mp hm with hm | hm
      · exact hbetween m hm
      · rw [List.mem_singleton.mp hm]
        exact hfails

theorem not_failsEarly_of_admitted (h : r.FindsNoUser ∨ r.FindsUser) : ¬ r.FailsEarly := by
  rintro ⟨hblank, hentries⟩
  rcases h with (hblank' | ⟨hentries', -⟩) | ⟨-, hentries', -⟩ <;> simp_all

theorem not_leavesUser_of_admitted (h : r.FindsNoUser ∨ r.FindsUser) : ¬ r.LeavesUser := by
  rintro ⟨hblank, hentries, hfound, hexpire⟩
  rcases h with (hblank' | ⟨-, hempty⟩) | ⟨-, -, -, hexpire'⟩ <;> simp_all

theorem holderAfter_append (rs : List Request) (r : Request) :
    holderAfter (rs ++ [r]) = (serve (holderAfter rs) r).user := by
  rw [holderAfter, List.foldl_append]
  rfl

theorem holderAfter_ne_none : holderAfter rs ≠ none ↔ ∃ q, LeftBy q rs := by
  induction rs using List.reverseRecOn with
  | nil => simp [holderAfter, LeftBy]
  | append_singleton rs r ih =>
    simp only [holderAfter_append, leftBy_append]
    rcases r.cases with hleaves | hfails | hadmitted | hadmitted
    · rw [serve_of_leavesUser hleaves]
      exact iff_of_true (by simp) ⟨r, .inl ⟨rfl, hleaves⟩⟩
    · rw [serve_of_failsEarly hfails, ih]
      refine exists_congr fun q => ⟨fun h => .inr ⟨hfails, h⟩, ?_⟩
      rintro (⟨-, hleaves⟩ | ⟨-, h⟩)
      · exact absurd (hfails.2.symm.trans hleaves.2.1) (by decide)
      · exact h
    · have hnone := user_entered r (holderAfter rs)
      rw [serve_of_findsNoUser hadmitted, hnone]
      refine iff_of_false (by simp) ?_
      rintro ⟨q, ⟨-, hleaves⟩ | ⟨hfails, -⟩⟩
      · exact not_leavesUser_of_admitted (.inl hadmitted) hleaves
      · exact not_failsEarly_of_admitted (.inl hadmitted) hfails
    · have hnone := user_entered r (some r.userMap.toUserDTO)
      rw [serve_of_findsUser hadmitted, hnone]
      refine iff_of_false (by simp) ?_
      rintro ⟨q, ⟨-, hleaves⟩ | ⟨hfails, -⟩⟩
      · exact not_leavesUser_of_admitted (.inr hadmitted) hleaves
      · exact not_failsEarly_of_admitted (.inr hadmitted) hfails

theorem NobodyLeft.holderAfter_eq_none (h : NobodyLeft rs) {before after : List Request}
    (hrs : rs = before ++ r :: after) (hnone : r.FindsNoUser) : holderAfter before = none := by
  by_contra hheld
  obtain ⟨q, before', between, rfl, hleaves, hbetween⟩ := holderAfter_ne_none.mp hheld
  exact h before' q between r after (by simpa using hrs) hleaves hbetween hnone

theorem ownIdentities_iff : OwnIdentities rs ↔ NobodyLeft rs := by
  constructor
  · intro hown before q between r after hrs hleaves hbetween hnone
    have hheld : holderAfter (before ++ q :: between) ≠ none :=
      holderAfter_ne_none.mpr ⟨q, before, between, rfl, hleaves, hbetween⟩
    obtain ⟨u, hu⟩ := Option.ne_none_iff_exists'.mp hheld
    have hseen : some u ∈ seenBy (before ++ q :: between) r := by
      rw [seenBy, serve_of_findsNoUser hnone, hu]
      exact mem_seen_entered r (some u)
    obtain ⟨own, hstored, -⟩ := hown _ r after (by simpa using hrs) u hseen
    rw [storedUser_of_findsNoUser hnone] at hstored
    cases hstored
  · intro hleft before r after hrs u hu
    rw [seenBy] at hu
    rcases r.cases with hcase | hcase | hcase | hcase
    · rw [serve_of_leavesUser hcase] at hu
      cases hu
    · rw [serve_of_failsEarly hcase] at hu
      cases hu
    · rw [serve_of_findsNoUser hcase, hleft.holderAfter_eq_none hrs hcase] at hu
      obtain ⟨own, hown, -⟩ := (knows_entered r none).seen u hu
      cases hown
    · rw [serve_of_findsUser hcase] at hu
      obtain ⟨own, hown, hid⟩ := (knows_entered r _).seen u hu
      exact ⟨own, (storedUser_of_findsUser hcase).trans hown, hid⟩

/-- What a request sees depends on the ones before it only through a user they have left. -/
theorem seenBy_eq {before before' : List Request} (h : NobodyLeft (before ++ [r]))
    (h' : NobodyLeft (before' ++ [r])) : seenBy before r = seenBy before' r := by
  rw [seenBy, seenBy]
  rcases r.cases with hcase | hcase | hcase | hcase
  · rw [serve_of_leavesUser hcase, serve_of_leavesUser hcase]
  · rw [serve_of_failsEarly hcase, serve_of_failsEarly hcase]
  · rw [h.holderAfter_eq_none rfl hcase, h'.holderAfter_eq_none rfl hcase]
  · rw [serve_of_findsUser hcase, serve_of_findsUser hcase]

end Sequence

/-- Every request sees nobody or its own user, and the last one sees the same after either
sequence, exactly when no user is left to a request without one. -/
theorem identity_stays_with_request (before before' : List Request) (r : Request) :
    (OwnIdentities (before ++ [r]) ∧ OwnIdentities (before' ++ [r]) ∧
      seenBy before r = seenBy before' r) ↔
    NobodyLeft (before ++ [r]) ∧ NobodyLeft (before' ++ [r]) := by
  constructor
  · rintro ⟨hown, hown', -⟩
    exact ⟨ownIdentities_iff.mp hown, ownIdentities_iff.mp hown'⟩
  · rintro ⟨hleft, hleft'⟩
    exact ⟨ownIdentities_iff.mpr hleft, ownIdentities_iff.mpr hleft', seenBy_eq hleft hleft'⟩

def refreshFails (token : Option String) : Request where
  token := token
  sessions key := if key = "t1" then ⟨some 7, some "user_7", none⟩ else .empty
  entriesFails := false
  expireFails := true
  intercepted := true
  handler := []

def anonymous : Request := { refreshFails none with expireFails := false }

def SameButTokens : List Request → List Request → Prop :=
  List.Forall₂ fun r r' => { r with token := none } = { r' with token := none }

/-- The user of the first request is let in without a token. -/
theorem identityStaysWithRequest_fails : ¬ ∀ (before before' : List Request) (r : Request),
    SameButTokens before before' → OwnIdentities (before ++ [r]) ∧ OwnIdentities (before' ++ [r]) ∧
      seenBy before r = seenBy before' r := by
  intro h
  have hsame : SameButTokens [refreshFails (some "t1")] [refreshFails none] := .cons rfl .nil
  obtain ⟨-, -, hseen⟩ := h _ _ anonymous hsame
  exact absurd hseen (by decide +kernel)

end HmDianPing.Login
