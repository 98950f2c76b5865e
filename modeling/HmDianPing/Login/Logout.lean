import HmDianPing.Interleaving.Machine
import HmDianPing.Login.Session
import Mathlib.Logic.Function.Basic
import Mathlib.Data.List.Nodup

/-! # Logout

A request looks at its session once and goes on. One that updates the profile writes
the session again, field by field, whatever has happened to it since.
-/
namespace HmDianPing.Login
open Interleaving Program

inductive Handler where
  | login (token : String) (user : UserDTO)
  | logout
  | updateProfile (profile : Option UserProfileUpdateDTO)
  /-- A handler that leaves sessions alone, and whether its path needs a login. -/
  | other (intercepted : Bool)

/-- The path is not excluded from `LoginInterceptor`. -/
def Handler.intercepted : Handler → Bool
  | .login _ _ => false
  | .other intercepted => intercepted
  | _ => true

def Handler.run (token : Option String) : Handler → LoginProgram Result
  | .login newToken user => Login.login newToken user
  | .logout => Login.logout token
  | .updateProfile profile => Login.updateProfile profile token
  | .other _ => pure .ok

/-- The interceptors, the handler, and `afterCompletion`. -/
def handleRequest (token : Option String) (handler : Handler) : LoginProgram Unit := do
  let _ ← refreshPreHandle token
  let admitted ← if handler.intercepted then loginPreHandle else pure true
  if admitted then
    let _ ← handler.run token
    perform LoginCommand.removeUser
  else perform LoginCommand.removeUser

structure SessionCall where
  request : ℕ
  command : LoginCommand

abbrev SessionCall.Reply (c : SessionCall) : Type := c.command.Reply

structure SessionWorld where
  /-- `login:token:{token}`. -/
  sessions : String → UserMap
  /-- The `ThreadLocal` of the thread that serves the request. -/
  holders : ℕ → Option UserDTO
  nextRequest : ℕ
  /-- History: the tokens that were logged out after their last login. -/
  loggedOut : String → Bool
  /-- History: the requests that read a session whose token was logged out. -/
  lateReaders : List ℕ
  /-- History: the requests a `getUser` of which found a user, as `LoginInterceptor` wants it. -/
  admitted : List ℕ

namespace SessionWorld

def start (sessions : String → UserMap) : SessionWorld :=
  ⟨sessions, fun _ => none, 0, fun _ => false, [], []⟩

variable (w : SessionWorld)

def setSession (token : String) (m : UserMap) : SessionWorld :=
  { w with sessions := Function.update w.sessions token m }

def setHolder (request : ℕ) (user : Option UserDTO) : SessionWorld :=
  { w with holders := Function.update w.holders request user }

def setLoggedOut (token : String) (b : Bool) : SessionWorld :=
  { w with loggedOut := Function.update w.loggedOut token b }

def read (request : ℕ) (token : String) : SessionWorld :=
  { w with lateReaders := if w.loggedOut token then request :: w.lateReaders else w.lateReaders }

def look (request : ℕ) : SessionWorld :=
  { w with admitted := if w.holders request = none then w.admitted else request :: w.admitted }

end SessionWorld

def UserMap.put (m : UserMap) (value : String) : ProfileField → UserMap
  | .nickName => { m with nickName := some value }
  | .icon => { m with icon := some value }

/-- `HSET` of the fields that are there. -/
def UserMap.putAll (m m' : UserMap) : UserMap :=
  ⟨m'.id <|> m.id, m'.nickName <|> m.nickName, m'.icon <|> m.icon⟩

/-- A command that is performed; the environment decides which profile MySQL finds. -/
def SessionWorld.exec : (c : SessionCall) → Option UserInfo → SessionWorld →
    Option (Except Failure c.Reply × SessionWorld)
  | ⟨request, .entries token⟩, _, w => some (.ok (w.sessions token), w.read request token)
  | ⟨_, .expire _⟩, _, w => some (.ok (), w)
  | ⟨_, .delete token⟩, _, w => some (.ok (), (w.setSession token .empty).setLoggedOut token true)
  | ⟨_, .putAll token m⟩, _, w =>
    some (.ok (), (w.setSession token ((w.sessions token).putAll m)).setLoggedOut token false)
  | ⟨_, .put token field value⟩, _, w =>
    some (.ok (), w.setSession token ((w.sessions token).put value field))
  | ⟨request, .saveUser user⟩, _, w => some (.ok (), w.setHolder request (some user))
  | ⟨request, .getUser⟩, _, w => some (.ok (w.holders request), w.look request)
  | ⟨request, .removeUser⟩, _, w => some (.ok (), w.setHolder request none)
  | ⟨_, .updateUser _ _ _⟩, _, w => some (.ok (), w)
  | ⟨_, .getInfoById _⟩, info, w => some (.ok info, w)
  | ⟨_, .saveInfo _⟩, _, w => some (.ok (), w)
  | ⟨_, .updateInfoById _⟩, _, w => some (.ok (), w)

/-- A request comes in, or a session expires. -/
inductive SessionAction where
  | request (token : Option String) (handler : Handler)
  | expire (token : String)

/-- Any number of requests over the same sessions, each on a thread of its own. -/
def loginRequests : Machine SessionWorld SessionCall SessionCall.Reply Failure ℕ (Option UserInfo)
    SessionAction where
  exec := SessionWorld.exec
  act
    | .request token handler, w => some ({ w with nextRequest := w.nextRequest + 1 },
        [⟨w.nextRequest, (handleRequest token handler).lift (SessionCall.mk w.nextRequest)⟩])
    | .expire token, w => some (w.setSession token .empty, [])

abbrev SessionPool := Config SessionWorld SessionCall SessionCall.Reply Failure ℕ

abbrev SessionProgram := Program SessionCall SessionCall.Reply Failure Unit

/-- The next command does not write a field of a session that is logged out. -/
def PutsInTime (w : SessionWorld) : SessionProgram → Prop
  | .call ⟨_, .put token _ _⟩ _ => w.loggedOut token = false
  | _ => True

/-- An update of the profile writes its session before a logout deletes it. -/
def NoLatePut (c : SessionPool) : Move (Option UserInfo) SessionAction → Prop
  | .run i _ => ∀ t ∈ c.threads[i]?, PutsInTime c.shared t.program
  | _ => True

instance (w : SessionWorld) : (p : SessionProgram) → Decidable (PutsInTime w p)
  | .call ⟨_, .put _ _ _⟩ _ => inferInstanceAs (Decidable (_ = _))
  | .call ⟨_, .entries _⟩ _ => inferInstanceAs (Decidable True)
  | .call ⟨_, .expire _⟩ _ => inferInstanceAs (Decidable True)
  | .call ⟨_, .delete _⟩ _ => inferInstanceAs (Decidable True)
  | .call ⟨_, .putAll _ _⟩ _ => inferInstanceAs (Decidable True)
  | .call ⟨_, .saveUser _⟩ _ => inferInstanceAs (Decidable True)
  | .call ⟨_, .getUser⟩ _ => inferInstanceAs (Decidable True)
  | .call ⟨_, .removeUser⟩ _ => inferInstanceAs (Decidable True)
  | .call ⟨_, .updateUser _ _ _⟩ _ => inferInstanceAs (Decidable True)
  | .call ⟨_, .getInfoById _⟩ _ => inferInstanceAs (Decidable True)
  | .call ⟨_, .saveInfo _⟩ _ => inferInstanceAs (Decidable True)
  | .call ⟨_, .updateInfoById _⟩ _ => inferInstanceAs (Decidable True)
  | .done _ => inferInstanceAs (Decidable True)

instance (c : SessionPool) : (m : Move (Option UserInfo) SessionAction) → Decidable (NoLatePut c m)
  | .run i _ => inferInstanceAs (Decidable (∀ t ∈ c.threads[i]?, _))
  | .crash _ => inferInstanceAs (Decidable True)
  | .act _ => inferInstanceAs (Decidable True)

section Knowledge

/-- What a request knows of its session. -/
inductive Stage where
  | unread | anonymous | recognized
deriving DecidableEq

/-- A request reads its session once, and holds a user only when it has found one there. -/
def recognition (request : ℕ) : Logic SessionCall SessionCall.Reply Failure Stage where
  pre stage c := c.request = request ∧ match c.command with
    | .entries _ => stage = .unread
    | .saveUser _ => stage = .recognized
    | _ => True
  meets
    | stage, ⟨_, .getUser⟩, .ok (some _) => stage = .recognized
    | _, _, _ => True
  learn
    | _, ⟨_, .entries _⟩, .ok userMap => if userMap.isEmpty then .anonymous else .recognized
    | stage, _, _ => stage

def Plain : LoginCommand → Prop
  | .entries _ => False
  | .saveUser _ => False
  | .getUser => False
  | _ => True

variable (request : ℕ)

theorem neutral_of_plain {c : LoginCommand} (h : Plain c) :
    ((recognition request).comap (SessionCall.mk request)).Neutral c := by
  intro stage
  cases c with
  | entries token => exact h.elim
  | saveUser user => exact h.elim
  | getUser => exact h.elim
  | _ => exact ⟨⟨rfl, trivial⟩, fun r _ => rfl⟩

theorem refreshPreHandle_wp (token : Option String)
    {Q : Stage → Except Failure Bool → Prop} (hQ : ∀ stage r, Q stage r) :
    ((recognition request).comap (SessionCall.mk request)).wp (refreshPreHandle token) Q .unread := by
  unfold refreshPreHandle
  by_cases hblank : isBlank token = true
  · simp [hblank, hQ]
  · rw [if_neg hblank, Logic.wp_perform_bind]
    refine ⟨⟨rfl, rfl⟩, fun userMap _ => ?_, fun e _ => hQ _ _⟩
    by_cases hempty : userMap.isEmpty = true
    · simp [hempty, hQ]
    · rw [if_neg hempty, Logic.wp_perform_bind]
      refine ⟨⟨rfl, ?_⟩, fun _ _ => ?_, fun e _ => hQ _ _⟩
      · exact if_neg hempty
      · rw [Logic.wp_perform_bind]
        exact ⟨⟨rfl, trivial⟩, fun _ _ => hQ _ _, fun e _ => hQ _ _⟩

theorem loginPreHandle_safe (stage : Stage) :
    ((recognition request).comap (SessionCall.mk request)).Safe loginPreHandle stage := by
  rw [Logic.Safe, loginPreHandle, Logic.wp_perform_bind]
  exact ⟨⟨rfl, trivial⟩, fun _ _ => trivial, fun _ _ => trivial⟩

theorem updateProfile_safe (profile : Option UserProfileUpdateDTO) (token : Option String)
    (stage : Stage) : ((recognition request).comap (SessionCall.mk request)).Safe
      (updateProfile profile token) stage := by
  unfold updateProfile
  rw [Logic.Safe, Logic.wp_perform_bind]
  refine ⟨⟨rfl, trivial⟩, fun currentUser hfound => ?_, fun e _ => trivial⟩
  cases hid : currentUser.bind UserDTO.id with
  | none => trivial
  | some userId =>
    have hstage : stage = .recognized := by
      cases currentUser with
      | none => cases hid
      | some user => exact hfound
    subst hstage
    cases hcheck : checkProfile profile with
    | error errorMsg => trivial
    | ok checked =>
      apply Logic.wp_of_neutralAt _ fun _ => trivial
      have hplain : ∀ c, Plain c →
          ((recognition request).comap (SessionCall.mk request)).NeutralAt .recognized c :=
        fun c hc => neutral_of_plain request hc _
      have hsave : ∀ user, ((recognition request).comap (SessionCall.mk request)).NeutralAt
          .recognized (.saveUser user) := fun user => ⟨⟨rfl, rfl⟩, fun _ _ => rfl⟩
      refine (calls_perform_bind _ _).mpr ⟨hplain _ trivial, fun _ => ?_⟩
      refine (calls_perform_bind _ _).mpr ⟨hplain _ trivial, fun found => ?_⟩
      refine Calls.bind ?_ fun _ => Calls.bind ?_ fun _ => ?_
      · have hinfo : ∀ info, (saveOrUpdateInfo info).Calls Plain := by simp [saveOrUpdateInfo, Plain]
        exact (hinfo _).mono hplain
      · have hput : ∀ nickName icon, (putProfile token nickName icon).Calls Plain := by
          simp [putProfile, Plain]
        exact (hput _ _).mono hplain
      · exact (calls_perform_bind _ _).mpr ⟨hsave _, fun _ => trivial⟩

theorem handler_safe (token : Option String) (handler : Handler) (stage : Stage) :
    ((recognition request).comap (SessionCall.mk request)).Safe (handler.run token) stage := by
  cases handler with
  | login newToken user =>
    have hplain : (login newToken user).Calls Plain := by simp [login, Plain]
    exact Logic.safe_of_neutral (hplain.mono fun c => neutral_of_plain request)
  | logout =>
    have hplain : (logout token).Calls Plain := by simp [logout, Plain]
    exact Logic.safe_of_neutral (hplain.mono fun c => neutral_of_plain request)
  | updateProfile profile => exact updateProfile_safe request profile token stage
  | other intercepted => trivial

theorem handleRequest_safe (token : Option String) (handler : Handler) : (recognition request).Safe
    ((handleRequest token handler).lift (SessionCall.mk request)) .unread := by
  rw [Logic.Safe, Logic.wp_lift, handleRequest, Logic.wp_bind]
  refine refreshPreHandle_wp request token fun stage r => ?_
  cases r with
  | error e => trivial
  | ok passed =>
    have hremove : ∀ stage, ((recognition request).comap (SessionCall.mk request)).Safe
        (perform LoginCommand.removeUser) stage :=
      fun stage => ⟨⟨rfl, trivial⟩, fun _ _ => trivial⟩
    have hrest : ∀ (admitted : Bool) stage, ((recognition request).comap
        (SessionCall.mk request)).Safe (if admitted = true then do
          let _ ← handler.run token
          perform LoginCommand.removeUser
        else perform LoginCommand.removeUser) stage := by
      intro admitted stage
      split
      · exact Logic.Safe.bind (handler_safe request token handler stage) fun stage _ => hremove stage
      · exact hremove stage
    rw [Logic.andThen_ok]
    split
    · exact Logic.Safe.bind (loginPreHandle_safe request stage) fun stage admitted =>
        hrest admitted stage
    · exact hrest true stage

end Knowledge

/-- What is known of a request, and known rightly. -/
def Recognized (w : SessionWorld) (request : ℕ) (stage : Stage) : Prop :=
  (stage ≠ .recognized → w.holders request = none) ∧
    (stage ≠ .anonymous → request ∉ w.lateReaders) ∧ (stage = .unread → request ∉ w.admitted)

/-- A session that is logged out is gone, and nobody who came for it later was let in. -/
structure LoggedOut (c : SessionPool) : Prop where
  gone : ∀ token, c.shared.loggedOut token = true → c.shared.sessions token = .empty
  admitted : ∀ request ∈ c.shared.admitted, request ∉ c.shared.lateReaders
  tags : (c.threads.map Thread.tag).Nodup
  old : (∀ t ∈ c.threads, t.tag < c.shared.nextRequest) ∧
    ∀ request, c.shared.nextRequest ≤ request → Recognized c.shared request .unread
  recognized : ∀ t ∈ c.threads, ∃ stage, Recognized c.shared t.tag stage ∧
    (recognition t.tag).Safe t.program stage

section Run
variable {c c' : SessionPool} {w w' : SessionWorld} {call : SessionCall} {info : Option UserInfo}
  {r : Except Failure call.Reply}

theorem Recognized.frame {request : ℕ} {stage : Stage} (h : Recognized w request stage)
    (hexec : w.exec call info = some (r, w')) (hne : request ≠ call.request) :
    Recognized w' request stage := by
  obtain ⟨other, command⟩ := call
  change request ≠ other at hne
  obtain ⟨hheld, hlate, hunread⟩ := h
  cases command with
  | entries token =>
    cases hexec
    refine ⟨hheld, fun hstage => ?_, hunread⟩
    by_cases hout : w.loggedOut token = true
    · simpa [SessionWorld.read, hout, hne] using hlate hstage
    · simpa [SessionWorld.read, hout] using hlate hstage
  | getUser =>
    cases hexec
    refine ⟨hheld, hlate, fun hstage => ?_⟩
    by_cases hnone : w.holders other = none
    · simpa [SessionWorld.look, hnone] using hunread hstage
    · simpa [SessionWorld.look, hnone, hne] using hunread hstage
  | saveUser user =>
    cases hexec
    exact ⟨fun hstage => by simpa [SessionWorld.setHolder, hne] using hheld hstage, hlate, hunread⟩
  | removeUser =>
    cases hexec
    exact ⟨fun hstage => by simpa [SessionWorld.setHolder, hne] using hheld hstage, hlate, hunread⟩
  | _ =>
    cases hexec
    exact ⟨hheld, hlate, hunread⟩

theorem Recognized.exec {stage : Stage} (h : Recognized w call.request stage)
    (hgone : ∀ token, w.loggedOut token = true → w.sessions token = .empty)
    (hexec : w.exec call info = some (r, w')) (hpre : (recognition call.request).pre stage call) :
    (recognition call.request).meets stage call r ∧
      Recognized w' call.request ((recognition call.request).learn stage call r) := by
  obtain ⟨request, command⟩ := call
  obtain ⟨hheld, hlate, hunread⟩ := h
  cases command with
  | entries token =>
    obtain ⟨-, hstage⟩ := hpre
    have hstage : stage = .unread := hstage
    subst hstage
    cases hexec
    have hnone : w.holders request = none := hheld (by decide)
    by_cases hempty : (w.sessions token).isEmpty = true
    · have hlearn : (recognition request).learn .unread ⟨request, .entries token⟩
          (.ok (w.sessions token)) = .anonymous := if_pos hempty
      rw [hlearn]
      exact ⟨trivial, fun _ => hnone, fun hfalse => absurd rfl hfalse, nofun⟩
    · have hlearn : (recognition request).learn .unread ⟨request, .entries token⟩
          (.ok (w.sessions token)) = .recognized := if_neg hempty
      have hin : w.loggedOut token ≠ true := by
        intro hout
        rw [hgone token hout] at hempty
        exact hempty rfl
      rw [hlearn]
      refine ⟨trivial, fun hfalse => absurd rfl hfalse, fun _ => ?_, nofun⟩
      simpa [SessionWorld.read, hin] using hlate (by decide)
  | getUser =>
    cases hexec
    have hmeets : (recognition request).meets stage ⟨request, .getUser⟩ (.ok (w.holders request)) := by
      cases hfound : w.holders request with
      | none => trivial
      | some user =>
        by_contra hstage
        rw [hheld hstage] at hfound
        cases hfound
    refine ⟨hmeets, hheld, hlate, fun hstage => ?_⟩
    have hstage : stage = .unread := hstage
    subst hstage
    simpa [SessionWorld.look, hheld] using hunread rfl
  | saveUser user =>
    obtain ⟨-, hstage⟩ := hpre
    have hstage : stage = .recognized := hstage
    subst hstage
    cases hexec
    exact ⟨trivial, fun hstage => absurd rfl hstage, hlate, hunread⟩
  | removeUser =>
    cases hexec
    exact ⟨trivial, fun _ => by simp [SessionWorld.setHolder], hlate, hunread⟩
  | _ =>
    cases hexec
    exact ⟨trivial, hheld, hlate, hunread⟩

/-- A command that is not late keeps the sessions that are logged out away. -/
theorem gone_exec (hgone : ∀ token, w.loggedOut token = true → w.sessions token = .empty)
    (hexec : w.exec call info = some (r, w'))
    (hput : ∀ token field value, call.command = .put token field value → w.loggedOut token = false) :
    ∀ token, w'.loggedOut token = true → w'.sessions token = .empty := by
  obtain ⟨request, command⟩ := call
  intro token hout
  cases command with
  | delete token' =>
    cases hexec
    by_cases ht : token = token'
    · simp [SessionWorld.setLoggedOut, SessionWorld.setSession, ht]
    · simp only [SessionWorld.setLoggedOut, SessionWorld.setSession, Function.update_of_ne ht] at hout ⊢
      exact hgone token hout
  | putAll token' m =>
    cases hexec
    by_cases ht : token = token'
    · simp [SessionWorld.setLoggedOut, SessionWorld.setSession, ht] at hout
    · simp only [SessionWorld.setLoggedOut, SessionWorld.setSession, Function.update_of_ne ht] at hout ⊢
      exact hgone token hout
  | put token' field value =>
    cases hexec
    by_cases ht : token = token'
    · have hin := hput token' field value rfl
      subst ht
      exact absurd (hin.symm.trans hout) (by decide)
    · simp only [SessionWorld.setSession, Function.update_of_ne ht] at hout ⊢
      exact hgone token hout
  | _ =>
    cases hexec
    exact hgone token hout

theorem admitted_exec {stage : Stage} (h : Recognized w call.request stage)
    (hadmitted : ∀ request ∈ w.admitted, request ∉ w.lateReaders)
    (hexec : w.exec call info = some (r, w')) (hpre : (recognition call.request).pre stage call) :
    ∀ request ∈ w'.admitted, request ∉ w'.lateReaders := by
  obtain ⟨request, command⟩ := call
  obtain ⟨hheld, hlate, hunread⟩ := h
  intro other hother
  cases command with
  | entries token =>
    have hnew : request ∉ w.admitted := hunread hpre.2
    cases hexec
    have hne : other ≠ request := by
      rintro rfl
      exact hnew hother
    by_cases hout : w.loggedOut token = true
    · simpa [SessionWorld.read, hout, hne] using hadmitted other hother
    · simpa [SessionWorld.read, hout] using hadmitted other hother
  | getUser =>
    cases hexec
    by_cases hnone : w.holders request = none
    · exact hadmitted other (by simpa [SessionWorld.look, hnone] using hother)
    · have hstage : stage = .recognized := by
        by_contra hstage
        exact hnone (hheld hstage)
      simp only [SessionWorld.look, hnone, if_false, List.mem_cons] at hother
      rcases hother with rfl | hother
      · exact hlate (by rw [hstage]; decide)
      · exact hadmitted other hother
  | _ =>
    cases hexec
    exact hadmitted other hother

theorem nextRequest_exec (hexec : w.exec call info = some (r, w')) :
    w'.nextRequest = w.nextRequest := by
  obtain ⟨request, command⟩ := call
  cases command <;> cases hexec <;> rfl

theorem LoggedOut.exec {i : ℕ} {k : Except Failure call.Reply →
    Program SessionCall SessionCall.Reply Failure Unit} (h : LoggedOut c)
    (hthread : c.threads[i]? = some ⟨call.request, .call call k⟩)
    (hput : ∀ token field value, call.command = .put token field value →
      c.shared.loggedOut token = false)
    (hexec : c.shared.exec call info = some (r, w')) :
    LoggedOut ⟨w', c.threads.set i ⟨call.request, k r⟩⟩ := by
  obtain ⟨stage, hstage, hpre, hk⟩ := h.recognized _ (List.mem_of_getElem? hthread)
  have hnext := nextRequest_exec hexec
  have htags : (c.threads.set i ⟨call.request, k r⟩).map (fun t => id t.tag) =
      c.threads.map fun t => id t.tag := Machine.map_tag_set id hthread
  refine ⟨gone_exec h.gone hexec hput, admitted_exec hstage h.admitted hexec hpre, htags ▸ h.tags,
    ⟨fun t ht => ?_, fun request hrequest => ?_⟩, fun t ht => ?_⟩
  · rw [hnext]
    rcases Machine.mem_set_thread ht with rfl | ⟨j, -, hj⟩
    · exact h.old.1 ⟨call.request, .call call k⟩ (List.mem_of_getElem? hthread)
    · exact h.old.1 t (List.mem_of_getElem? hj)
  · have hlt : call.request < c.shared.nextRequest := h.old.1 _ (List.mem_of_getElem? hthread)
    rw [hnext] at hrequest
    exact (h.old.2 request hrequest).frame hexec (by omega)
  · rcases Machine.mem_set_thread ht with rfl | ⟨j, hji, hj⟩
    · obtain ⟨hmeets, hstage'⟩ := hstage.exec h.gone hexec hpre
      exact ⟨_, hstage', hk r hmeets⟩
    · obtain ⟨stage', hstage', hsafe⟩ := h.recognized t (List.mem_of_getElem? hj)
      have hne : t.tag ≠ call.request := Machine.tag_ne_of_nodup (g := id) h.tags hthread hj hji
      exact ⟨stage', hstage'.frame hexec hne, hsafe⟩

theorem LoggedOut.crash (h : LoggedOut c) (i : ℕ) :
    LoggedOut ⟨c.shared, c.threads.eraseIdx i⟩ where
  gone := h.gone
  admitted := h.admitted
  tags := h.tags.sublist ((List.eraseIdx_sublist _ _).map _)
  old := ⟨fun t ht => h.old.1 t (List.mem_of_mem_eraseIdx ht), h.old.2⟩
  recognized t ht := h.recognized t (List.mem_of_mem_eraseIdx ht)

theorem LoggedOut.arrive (h : LoggedOut c) (token : Option String) (handler : Handler) :
    LoggedOut ⟨{ c.shared with nextRequest := c.shared.nextRequest + 1 },
      c.threads ++ [⟨c.shared.nextRequest,
        (handleRequest token handler).lift (SessionCall.mk c.shared.nextRequest)⟩]⟩ where
  gone := h.gone
  admitted := h.admitted
  tags := Machine.nodup_append_fresh (g := id) h.tags h.old.1 rfl
  old := ⟨Machine.lt_append_fresh (g := id) h.old.1 rfl,
    fun request hrequest => h.old.2 request (Nat.le_of_succ_le hrequest)⟩
  recognized t ht := by
    rcases List.mem_append.mp ht with ht | ht
    · exact h.recognized t ht
    · rw [List.mem_singleton.mp ht]
      exact ⟨.unread, h.old.2 _ le_rfl, handleRequest_safe _ token handler⟩

theorem LoggedOut.expire (h : LoggedOut c) (token : String) :
    LoggedOut ⟨c.shared.setSession token .empty, c.threads⟩ where
  gone token' hout := by
    by_cases ht : token' = token
    · simp [SessionWorld.setSession, ht]
    · simpa [SessionWorld.setSession, ht] using h.gone token' hout
  admitted := h.admitted
  tags := h.tags
  old := h.old
  recognized := h.recognized

theorem LoggedOut.step {m : Move (Option UserInfo) SessionAction} (h : LoggedOut c)
    (hm : NoLatePut c m) (hfires : loginRequests.Fires c m c') : LoggedOut c' := by
  cases hfires with
  | @run i info tag call k r w' hthread hexec =>
    obtain ⟨stage, -, hpre, -⟩ := h.recognized _ (List.mem_of_getElem? hthread)
    obtain rfl : call.request = tag := hpre.1
    refine h.exec hthread (fun token field value hput => ?_) hexec
    have hlate := hm _ hthread
    obtain ⟨request, command⟩ := call
    cases hput
    exact hlate
  | @crash i bound => exact h.crash i
  | @act a s started hact =>
    cases a with
    | request token handler =>
      cases hact
      exact h.arrive token handler
    | expire token =>
      cases hact
      rw [List.append_nil]
      exact h.expire token

end Run

/-- A logout is final as long as no update of the profile writes the session after it. -/
theorem logout_is_final (sessions : String → UserMap) (c : SessionPool)
    (hrun : loginRequests.Run NoLatePut ⟨.start sessions, []⟩ c) :
    ∀ request ∈ c.shared.admitted, request ∉ c.shared.lateReaders := by
  have hstart : LoggedOut ⟨.start sessions, []⟩ := by
    refine ⟨nofun, nofun, List.nodup_nil, ⟨nofun, fun request _ => ?_⟩, nofun⟩
    exact ⟨fun _ => rfl, fun _ => by simp [SessionWorld.start], fun _ => by simp [SessionWorld.start]⟩
  exact (hrun.invariant hstart fun _ _ _ hI hm hfires => hI.step hm hfires).admitted

def loggedIn (token : String) : UserMap := if token = "t1" then ⟨some 7, some "user_7", none⟩ else .empty

def newProfile : UserProfileUpdateDTO := ⟨some "moon", none, none, none, none, none⟩

def updateThenLogout : List (Move (Option UserInfo) SessionAction) :=
  .act (.request (some "t1") (.updateProfile (some newProfile))) ::
    (List.replicate 14 (.run 0 none) ++ .act (.request (some "t1") .logout) ::
      List.replicate 7 (.run 1 none) ++ .act (.request (some "t1") (.other true)) ::
      List.replicate 3 (.run 2 none))

def logoutThenPut : List (Move (Option UserInfo) SessionAction) :=
  .act (.request (some "t1") (.updateProfile (some newProfile))) ::
    (List.replicate 9 (.run 0 none) ++ .act (.request (some "t1") .logout) ::
      List.replicate 7 (.run 1 none) ++ List.replicate 5 (.run 0 none) ++
      .act (.request (some "t1") (.other true)) :: List.replicate 5 (.run 2 none))

theorem logout_is_final_updateThenLogout : ∃ c,
    loginRequests.play (fun c m => decide (NoLatePut c m)) ⟨.start loggedIn, []⟩ updateThenLogout =
      some c ∧ ∀ request ∈ c.shared.admitted, request ∉ c.shared.lateReaders := by
  have hplay : (loginRequests.play (fun c m => decide (NoLatePut c m)) ⟨.start loggedIn, []⟩
      updateThenLogout).isSome := by decide +kernel
  obtain ⟨c, hc⟩ := Option.isSome_iff_exists.mp hplay
  exact ⟨c, hc, logout_is_final loggedIn c (Machine.run_of_play (fun _ _ => of_decide_eq_true) hc)⟩

/-- The third request comes after the logout and is let in as a user without an id. -/
theorem logoutIsFinal_fails : ¬ ∀ (sessions : String → UserMap) (c : SessionPool),
    loginRequests.Run (fun _ _ => True) ⟨.start sessions, []⟩ c →
      ∀ request ∈ c.shared.admitted, request ∉ c.shared.lateReaders := by
  intro h
  have hplay : (loginRequests.play (fun _ _ => true) ⟨.start loggedIn, []⟩ logoutThenPut).map
      (fun c => decide (2 ∈ c.shared.admitted ∧ 2 ∈ c.shared.lateReaders)) = some true := by
    decide +kernel
  obtain ⟨c, hc, hend⟩ := Option.map_eq_some_iff.mp hplay
  obtain ⟨hadmitted, hlate⟩ := of_decide_eq_true hend
  exact h loggedIn c (Machine.run_of_play (fun _ _ _ => trivial) hc) 2 hadmitted hlate

end HmDianPing.Login
