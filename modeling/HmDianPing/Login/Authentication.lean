import Mathlib.Data.List.Pairwise
import HmDianPing.Login.DrawnCodes
import HmDianPing.Login.Logout

/-! # Who a request is taken for

A login looks a code up, finds or creates the user of the phone and stores a session;
later requests are taken for the user of the session they name. The codes are those
of the calls of `sendCode`, which go on at the same time.
-/
namespace HmDianPing.Login
open Interleaving Program Redis

/-- `LoginFormDTO`, without the password that nobody reads. -/
structure LoginFormDTO where
  phone : Option String
  code : Option String
deriving DecidableEq

/-- A row of `tb_user`, in the columns that are read. -/
structure User where
  id : Long
  phone : String
  nickName : String
  icon : String
deriving DecidableEq

/-- `BeanUtil.copyProperties(user, UserDTO.class)`. -/
def User.toUserDTO (u : User) : UserDTO := ⟨some u.id, some u.nickName, some u.icon⟩

/-- `tb_user`, with `PRIMARY`, `uniqe_key_phone` and `AUTO_INCREMENT`. -/
structure UserTable where
  rows : List User
  nextId : Long
  unique : rows.Pairwise fun a b => a.id ≠ b.id ∧ a.phone ≠ b.phone
  below : ∀ row ∈ rows, row.id < nextId

namespace UserTable

/-- `SELECT … WHERE phone = ?`. -/
def findByPhone (t : UserTable) (phone : String) : Option User :=
  t.rows.find? fun row => row.phone = phone

/-- `INSERT`; the result is the new key, and none when the phone is taken. -/
def insert (t : UserTable) (phone nickName icon : String) : Option (Long × UserTable) :=
  if h : ∀ row ∈ t.rows, row.phone ≠ phone then
    some (t.nextId,
      { rows := ⟨t.nextId, phone, nickName, icon⟩ :: t.rows
        nextId := t.nextId + 1
        unique := List.pairwise_cons.mpr
          ⟨fun row hrow => ⟨(t.below row hrow).ne', (h row hrow).symm⟩, t.unique⟩
        below := by
          rw [List.forall_mem_cons]
          exact ⟨Int.lt_succ _, fun row hrow => (t.below row hrow).trans (Int.lt_succ _)⟩ })
  else none

def User.setProfile (userId : Long) (nickName icon : String) (u : User) : User :=
  if u.id = userId then { u with nickName, icon } else u

theorem setProfile_key (userId : Long) (nickName icon : String) (u : User) :
    (User.setProfile userId nickName icon u).id = u.id ∧
      (User.setProfile userId nickName icon u).phone = u.phone := by
  unfold User.setProfile
  split <;> exact ⟨rfl, rfl⟩

/-- `UPDATE … SET nick_name = ?, icon = ? WHERE id = ?`. -/
def setProfile (t : UserTable) (userId : Long) (nickName icon : String) : UserTable where
  rows := t.rows.map (User.setProfile userId nickName icon)
  nextId := t.nextId
  unique := by
    rw [List.pairwise_map]
    refine t.unique.imp fun {a b} h => ?_
    rw [(setProfile_key _ _ _ a).1, (setProfile_key _ _ _ b).1, (setProfile_key _ _ _ a).2,
      (setProfile_key _ _ _ b).2]
    exact h
  below := by
    rw [List.forall_mem_map]
    intro row hrow
    rw [(setProfile_key _ _ _ row).1]
    exact t.below row hrow

def Owns (t : UserTable) (userId : Long) (phone : String) : Prop :=
  ∃ row ∈ t.rows, row.id = userId ∧ row.phone = phone

end UserTable

inductive AuthCommand where
  | session (c : LoginCommand)
  /-- `GET login:code:{phone}`. -/
  | getCode (phone : String)
  | findByPhone (phone : String)
  /-- `save(user)`, which sets the id of the bean. -/
  | saveUser (phone nickName icon : String)
  | randomUUID
  /-- `RandomUtil.randomNumbers(length)`. -/
  | randomNumbers (length : ℕ)

abbrev AuthCommand.Reply : AuthCommand → Type
  | .session c => c.Reply
  | .getCode _ => Option String
  | .findByPhone _ => Option User
  | .saveUser _ _ _ => Long
  | .randomUUID | .randomNumbers _ => String

abbrev AuthProgram := Program AuthCommand AuthCommand.Reply Failure

namespace UserServiceImpl

def createUserWithPhone (phone : String) : AuthProgram User := do
  let digits ← perform (AuthCommand.randomNumbers 10)
  let nickName := "user_" ++ digits
  let id ← perform (AuthCommand.saveUser phone nickName "")
  return ⟨id, phone, nickName, ""⟩

/-- `login`, from where the code is accepted. -/
def loginAs (phone : String) : AuthProgram Result := do
  let user ← perform (AuthCommand.findByPhone phone)
  let user ← match user with
    | some user => pure user
    | none => createUserWithPhone phone
  let token ← perform AuthCommand.randomUUID
  (Login.login token user.toUserDTO).lift AuthCommand.session

def login (loginForm : LoginFormDTO) : AuthProgram Result :=
  match loginForm.phone with
  | none => return .fail "手机号格式不正确"
  | some phone =>
    if isPhoneInvalid phone then return .fail "手机号格式不正确"
    else do
      let cacheCode ← perform (AuthCommand.getCode phone)
      if cacheCode = none ∨ cacheCode ≠ loginForm.code then
        return .fail "验证码错误"
      loginAs phone

end UserServiceImpl

/-- What is done with a request; the handlers that leave sessions alone are told apart only by
whether `LoginInterceptor` covers their path. -/
inductive AuthHandler where
  | login (loginForm : LoginFormDTO)
  | logout
  | updateProfile (profile : Option UserProfileUpdateDTO)
  | other (intercepted : Bool)

def AuthHandler.intercepted : AuthHandler → Bool
  | .login _ => false
  | .other intercepted => intercepted
  | _ => true

def AuthHandler.run (token : Option String) : AuthHandler → AuthProgram Result
  | .login loginForm => UserServiceImpl.login loginForm
  | .logout => (Login.logout token).lift .session
  | .updateProfile profile => (Login.updateProfile profile token).lift .session
  | .other _ => pure .ok

/-- The handler, whose exception is answered like a result, and `afterCompletion`. -/
def AuthHandler.complete (token : Option String) (handler : AuthHandler) : AuthProgram Unit := do
  tryCatch (do let _ ← handler.run token) fun _ => pure ()
  perform (AuthCommand.session .removeUser)

/-- A request; `afterCompletion` belongs to an interceptor that has let it through. -/
def AuthHandler.serve (token : Option String) (handler : AuthHandler) : AuthProgram Unit := do
  let _ ← (refreshPreHandle token).lift .session
  let admitted ← if handler.intercepted then loginPreHandle.lift .session else pure true
  if admitted then handler.complete token else perform (AuthCommand.session .removeUser)

/-- What a thread was started for, and the worker whose `ThreadLocal` it uses. -/
structure AuthTag where
  number : ℕ
  worker : ℕ
  handler : AuthHandler

structure AuthCall where
  tag : AuthTag
  command : AuthCommand

abbrev AuthCall.Reply (c : AuthCall) : Type := c.command.Reply

structure AuthWorld where
  sms : SmsPool
  users : UserTable
  /-- `login:token:{token}`. -/
  sessions : String → UserMap
  /-- `UserHolder`, by worker; it outlives a request that does not clean up. -/
  holders : ℕ → Option UserDTO
  nextRequest : ℕ
  /-- History: what each request was for. -/
  requests : List (ℕ × AuthHandler)
  /-- History: the codes that requests found stored for a phone. -/
  codeReads : List (ℕ × String × String)

namespace AuthWorld
variable (w : AuthWorld)

def setSession (token : String) (m : UserMap) : AuthWorld :=
  { w with sessions := Function.update w.sessions token m }

def setHolder (worker : ℕ) (user : Option UserDTO) : AuthWorld :=
  { w with holders := Function.update w.holders worker user }

def storedCode (phone : String) : Option String :=
  (w.sms.shared.codes.get w.sms.shared.now (loginCodeKey phone)).map StoredCode.code

def readCode (number : ℕ) (phone : String) : AuthWorld :=
  match w.storedCode phone with
  | some code => { w with codeReads := (number, phone, code) :: w.codeReads }
  | none => w

def session (worker : ℕ) : (c : LoginCommand) → Option (c.Reply × AuthWorld)
  | .entries token => some (w.sessions token, w)
  | .expire _ => some ((), w)
  | .delete token => some ((), w.setSession token .empty)
  | .putAll token m => some ((), w.setSession token ((w.sessions token).putAll m))
  | .put token field value => some ((), w.setSession token ((w.sessions token).put value field))
  | .saveUser user => some ((), w.setHolder worker (some user))
  | .getUser => some (w.holders worker, w)
  | .removeUser => some ((), w.setHolder worker none)
  | .updateUser userId nickName icon =>
    some ((), { w with users := w.users.setProfile userId nickName icon })
  | .getInfoById _ => none
  | .saveInfo _ => some ((), w)
  | .updateInfoById _ => some ((), w)

def answer : (c : AuthCall) → Option (Except Failure c.Reply × AuthWorld)
  | ⟨tag, .session c⟩ => (w.session tag.worker c).map fun p => (.ok p.1, p.2)
  | ⟨tag, .getCode phone⟩ => some (.ok (w.storedCode phone), w.readCode tag.number phone)
  | ⟨_, .findByPhone phone⟩ => some (.ok (w.users.findByPhone phone), w)
  | ⟨_, .saveUser phone nickName icon⟩ => match w.users.insert phone nickName icon with
    | some (id, users) => some (.ok id, { w with users })
    | none => some (.error "DuplicateKeyException", w)
  | _ => none

end AuthWorld

inductive AuthChoice where
  | done
  /-- The command throws, and has had no effect. -/
  | refused (e : Failure)
  /-- The command throws after it had its effect. -/
  | lost (e : Failure)
  | drawn (text : String)
  | found (info : Option UserInfo)

def AuthWorld.exec : (c : AuthCall) → AuthChoice → AuthWorld →
    Option (Except Failure c.Reply × AuthWorld)
  | c, .done, w => w.answer c
  | _, .refused e, w => some (.error e, w)
  | c, .lost e, w => (w.answer c).map fun p => (.error e, p.2)
  | ⟨_, .randomUUID⟩, .drawn text, w => some (.ok text, w)
  | ⟨_, .randomNumbers _⟩, .drawn text, w => some (.ok text, w)
  | ⟨_, .session (.getInfoById _)⟩, .found info, w => some (.ok info, w)
  | _, _, _ => none

inductive AuthAction where
  /-- A request comes in and is given to a worker. -/
  | request (worker : ℕ) (token : Option String) (handler : AuthHandler)
  /-- A move of the calls of `sendCode`, or of the clock. -/
  | sms (m : Move SmsChoice SmsAction)
  | expireSession (token : String)

/-- Any number of requests on any number of workers, beside the calls of `sendCode`. -/
def authentication (p : SmsProperties) :
    Machine AuthWorld AuthCall AuthCall.Reply Failure AuthTag AuthChoice AuthAction where
  exec := AuthWorld.exec
  act
    | .request worker token handler, w =>
      some ({ w with
          nextRequest := w.nextRequest + 1
          requests := (w.nextRequest, handler) :: w.requests },
        [⟨⟨w.nextRequest, worker, handler⟩,
          (handler.serve token).lift (AuthCall.mk ⟨w.nextRequest, worker, handler⟩)⟩])
    | .sms m, w => ((smsCalls p).step w.sms m).map fun sms => ({ w with sms }, [])
    | .expireSession token, w => some (w.setSession token .empty, [])

abbrev AuthPool := Config AuthWorld AuthCall AuthCall.Reply Failure AuthTag

/-- The user's phone is one for which a login entered the very code it found stored there, and a
call of `sendCode` for this phone had drawn that code. -/
def AuthWorld.Entitled (w : AuthWorld) (userId : Long) : Prop :=
  ∃ phone code number, w.users.Owns userId phone ∧
    (number, .login ⟨some phone, some code⟩) ∈ w.requests ∧ (number, phone, code) ∈ w.codeReads ∧
    ∃ call : SmsCall, call.phone = phone ∧ (call, .drew code) ∈ w.sms.shared.notes

inductive AuthFact where
  | entitled (userId : Long)
  | codeRead (phone code : String)
  | owns (userId : Long) (phone : String)

/-- A request may act for this user: it was told so, or it is a login that has found the code it was
given, and the user of the phone. -/
def MayAct (tag : AuthTag) (κ : Set AuthFact) (userId : Long) : Prop :=
  .entitled userId ∈ κ ∨ ∃ phone code, tag.handler = .login ⟨some phone, some code⟩ ∧
    .codeRead phone code ∈ κ ∧ .owns userId phone ∈ κ

def told : (c : AuthCommand) → Except Failure c.Reply → Set AuthFact
  | .session (.entries _), .ok m => {x | ∃ u ∈ m.id, x = .entitled u}
  | .session .getUser, .ok user => {x | ∃ u ∈ user.bind UserDTO.id, x = .entitled u}
  | .getCode phone, .ok code => {x | ∃ c ∈ code, x = .codeRead phone c}
  | .findByPhone phone, .ok user => {x | ∃ u ∈ user, x = .owns u.id phone}
  | .saveUser phone _ _, .ok id => {.owns id phone}
  | _, _ => ∅

def acting (tag : AuthTag) : Logic AuthCall AuthCall.Reply Failure (Set AuthFact) where
  pre κ c := c.tag = tag ∧ match c.command with
    | .session (.putAll _ m) => ∀ u ∈ m.id, MayAct tag κ u
    | .session (.saveUser user) => ∀ u ∈ user.id, MayAct tag κ u
    | _ => True
  meets _ _ _ := True
  learn κ c r := κ ∪ told c.command r

theorem acting_growing (tag : AuthTag) : (acting tag).Growing where
  learn _ _ _ := Set.subset_union_left
  pre κ κ' c h hpre := by
    have hmay : ∀ u, MayAct tag κ u → MayAct tag κ' u := fun u hu =>
      hu.imp (fun hx => h hx) fun ⟨phone, code, hh, hr, ho⟩ => ⟨phone, code, hh, h hr, h ho⟩
    obtain ⟨htag, hpre⟩ := hpre
    refine ⟨htag, ?_⟩
    obtain ⟨_, command⟩ := c
    cases command with
    | session c =>
      cases c with
      | putAll token m => exact fun u hu => hmay u (hpre u hu)
      | saveUser user => exact fun u hu => hmay u (hpre u hu)
      | _ => trivial
    | _ => trivial

section Safe
variable (tag : AuthTag) {κ : Set AuthFact}

/-- The logic of the commands of one request, and of those on sessions. -/
abbrev actingAs : Logic AuthCommand AuthCommand.Reply Failure (Set AuthFact) :=
  (acting tag).comap (AuthCall.mk tag)

abbrev actingOn : Logic LoginCommand LoginCommand.Reply Failure (Set AuthFact) :=
  (actingAs tag).comap AuthCommand.session

theorem actingAs_growing : (actingAs tag).Growing := (acting_growing tag).comap _

theorem actingOn_growing : (actingOn tag).Growing := (actingAs_growing tag).comap _

theorem actingOn_pre {c : LoginCommand} (hput : ∀ token m, c ≠ .putAll token m)
    (hsave : ∀ user, c ≠ .saveUser user) : (actingOn tag).pre κ c := by
  refine ⟨rfl, ?_⟩
  cases c with
  | putAll token m => exact absurd rfl (hput token m)
  | saveUser user => exact absurd rfl (hsave user)
  | _ => trivial

theorem refreshPreHandle_acting (token : Option String) :
    (actingOn tag).Safe (refreshPreHandle token) κ := by
  unfold refreshPreHandle
  split
  · trivial
  refine (Logic.wp_perform_bind _ _).mpr ⟨⟨rfl, trivial⟩, fun m _ => ?_, fun _ _ => trivial⟩
  split
  · trivial
  refine (Logic.wp_perform_bind _ _).mpr ⟨⟨rfl, fun u hu => ?_⟩, fun _ _ => ?_, fun _ _ => trivial⟩
  · exact .inl (.inr ⟨u, hu, rfl⟩)
  · exact (Logic.wp_perform_bind _ _).mpr ⟨⟨rfl, trivial⟩, fun _ _ => trivial, fun _ _ => trivial⟩

theorem updateProfile_acting (profile : Option UserProfileUpdateDTO) (token : Option String) :
    (actingOn tag).Safe (updateProfile profile token) κ := by
  unfold updateProfile
  refine (Logic.wp_perform_bind _ _).mpr ⟨⟨rfl, trivial⟩, fun currentUser _ => ?_,
    fun _ _ => trivial⟩
  cases hid : currentUser.bind UserDTO.id with
  | none => trivial
  | some userId =>
    cases hcheck : checkProfile profile with
    | error errorMsg => trivial
    | ok checked =>
      apply (actingOn_growing tag).safe_of_calls
      have hown : ∀ nickName icon, (actingOn tag).pre
          ((actingOn tag).learn κ .getUser (.ok currentUser))
          (.saveUser ⟨some userId, nickName, icon⟩) := by
        intro nickName icon
        refine ⟨rfl, fun u hu => .inl (.inr ?_)⟩
        cases hu
        exact ⟨userId, hid, rfl⟩
      have hplain : ∀ c : LoginCommand, Plain c → (∀ token m, c ≠ .putAll token m) →
          (actingOn tag).pre ((actingOn tag).learn κ .getUser (.ok currentUser)) c :=
        fun c hc hput => actingOn_pre tag hput (by rintro user rfl; exact hc)
      refine (calls_perform_bind _ _).mpr ⟨hplain _ trivial nofun, fun _ => ?_⟩
      refine (calls_perform_bind _ _).mpr ⟨actingOn_pre tag nofun nofun, fun found => ?_⟩
      refine Calls.bind ?_ fun _ => Calls.bind ?_ fun _ => ?_
      · unfold saveOrUpdateInfo
        refine (calls_perform_bind _ _).mpr ⟨actingOn_pre tag nofun nofun, fun found => ?_⟩
        split <;> exact (calls_perform _).mpr (actingOn_pre tag nofun nofun)
      · unfold putProfile
        split
        · trivial
        refine (calls_perform_bind _ _).mpr ⟨actingOn_pre tag nofun nofun, fun _ => ?_⟩
        refine (calls_perform_bind _ _).mpr ⟨actingOn_pre tag nofun nofun, fun _ => ?_⟩
        exact (calls_perform _).mpr (actingOn_pre tag nofun nofun)
      · exact (calls_perform_bind _ _).mpr ⟨hown _ _, fun _ => trivial⟩

theorem logout_acting (token : Option String) : (actingOn tag).Safe (logout token) κ := by
  unfold logout
  split
  · trivial
  · refine (actingOn_growing tag).safe_of_calls ?_
    refine (calls_perform_bind _ _).mpr ⟨actingOn_pre tag nofun nofun, fun _ => ?_⟩
    exact (calls_perform_bind _ _).mpr ⟨actingOn_pre tag nofun nofun, fun _ => trivial⟩

/-- Whoever has entered the code of the phone is logged in as its user. -/
theorem loginAs_acting {phone code : String}
    (hhandler : tag.handler = .login ⟨some phone, some code⟩) (hread : .codeRead phone code ∈ κ) :
    (actingAs tag).Safe (UserServiceImpl.loginAs phone) κ := by
  have hlogin : ∀ (κ' : Set AuthFact) (user : User), κ ≤ κ' → .owns user.id phone ∈ κ' →
      (actingAs tag).Safe (do
        let token ← perform AuthCommand.randomUUID
        (Login.login token user.toUserDTO).lift AuthCommand.session) κ' := by
    intro κ' user hle howns
    refine (Logic.wp_perform_bind _ _).mpr ⟨⟨rfl, trivial⟩, fun token _ => ?_, fun _ _ => trivial⟩
    rw [Logic.wp_lift]
    refine (actingOn_growing tag).safe_of_calls ?_
    refine (calls_perform_bind _ _).mpr ⟨⟨rfl, fun u hu => ?_⟩, fun _ =>
      (calls_perform_bind _ _).mpr ⟨⟨rfl, trivial⟩, fun _ => trivial⟩⟩
    obtain rfl : user.id = u := Option.some.inj hu
    exact .inr ⟨phone, code, hhandler, .inl (hle hread), .inl howns⟩
  refine (Logic.wp_perform_bind _ _).mpr ⟨⟨rfl, trivial⟩, fun found _ => ?_, fun _ _ => trivial⟩
  cases found with
  | some user =>
    exact hlogin _ user Set.subset_union_left (.inr ⟨user, rfl, rfl⟩)
  | none =>
    rw [Logic.wp_bind]
    refine (Logic.wp_perform_bind _ _).mpr ⟨⟨rfl, trivial⟩, fun digits _ => ?_, fun _ _ => trivial⟩
    refine (Logic.wp_perform_bind _ _).mpr ⟨⟨rfl, trivial⟩, fun id _ => ?_, fun _ _ => trivial⟩
    refine hlogin _ ⟨id, phone, "user_" ++ digits, ""⟩ ?_ (.inr rfl)
    exact fun x hx => .inl (.inl (.inl hx))

theorem login_acting {loginForm : LoginFormDTO} (hhandler : tag.handler = .login loginForm) :
    (actingAs tag).Safe (UserServiceImpl.login loginForm) κ := by
  unfold UserServiceImpl.login
  split
  · trivial
  · next phone hphone =>
    split
    · trivial
    refine (Logic.wp_perform_bind _ _).mpr ⟨⟨rfl, trivial⟩, fun cacheCode _ => ?_,
      fun _ _ => trivial⟩
    by_cases hcode : cacheCode = none ∨ cacheCode ≠ loginForm.code
    · rw [if_pos hcode]; trivial
    · rw [if_neg hcode]
      obtain ⟨hsome, hsame⟩ := not_or.mp hcode
      obtain ⟨code, rfl⟩ := Option.ne_none_iff_exists'.mp hsome
      have hform : loginForm = ⟨some phone, some code⟩ := by
        cases loginForm
        simp_all
      exact loginAs_acting tag (hform ▸ hhandler) (.inr ⟨code, rfl, rfl⟩)

theorem handler_acting (token : Option String) :
    (actingAs tag).Safe (tag.handler.run token) κ := by
  cases hhandler : tag.handler with
  | login loginForm => exact login_acting tag hhandler
  | logout => exact (Logic.wp_lift _ _).mpr (logout_acting tag token)
  | updateProfile profile => exact (Logic.wp_lift _ _).mpr (updateProfile_acting tag profile token)
  | other intercepted => trivial

theorem removeUser_acting :
    (actingAs tag).Safe (perform (AuthCommand.session .removeUser)) κ :=
  ⟨⟨rfl, trivial⟩, fun _ _ => trivial⟩

theorem complete_acting (token : Option String) :
    (actingAs tag).Safe (tag.handler.complete token) κ := by
  refine Logic.Safe.bind ?_ fun _ _ => removeUser_acting tag
  refine (actingAs_growing tag).safe_tryCatch ?_ fun _ _ _ => trivial
  exact (handler_acting tag token).bind fun _ _ => trivial

theorem serve_acting (token : Option String) :
    (acting tag).Safe ((tag.handler.serve token).lift (AuthCall.mk tag)) κ := by
  rw [Logic.Safe, Logic.wp_lift]
  refine Logic.Safe.bind ((Logic.wp_lift _ _).mpr (refreshPreHandle_acting tag token)) fun κ _ => ?_
  have hrest : ∀ (admitted : Bool) (κ : Set AuthFact), (actingAs tag).Safe
      (if admitted = true then tag.handler.complete token
        else perform (AuthCommand.session .removeUser)) κ := by
    intro admitted κ
    split
    · exact complete_acting tag token
    · exact removeUser_acting tag
  split
  · refine Logic.Safe.bind ((Logic.wp_lift _ _).mpr ?_) fun κ admitted => hrest admitted κ
    exact (Logic.wp_perform_bind _ _).mpr ⟨⟨rfl, trivial⟩, fun _ _ => trivial, fun _ _ => trivial⟩
  · exact hrest true κ

end Safe

def AuthWorld.Means (w : AuthWorld) (tag : AuthTag) : AuthFact → Prop
  | .entitled u => w.Entitled u
  | .codeRead phone code => (tag.number, phone, code) ∈ w.codeReads ∧
      ∃ call : SmsCall, call.phone = phone ∧ (call, .drew code) ∈ w.sms.shared.notes
  | .owns u phone => w.users.Owns u phone

def KnowsRightly (w : AuthWorld) (tag : AuthTag) (κ : Set AuthFact) : Prop :=
  (tag.number, tag.handler) ∈ w.requests ∧ ∀ x ∈ κ, w.Means tag x

/-- Sessions and holders are those of entitled users. -/
structure AuthWorld.Sound (w : AuthWorld) : Prop where
  sms : w.sms.Drawn
  sessions : ∀ token, ∀ u ∈ (w.sessions token).id, w.Entitled u
  holders : ∀ worker, ∀ user ∈ w.holders worker, ∀ u ∈ user.id, w.Entitled u

structure AuthPool.Sound (c : AuthPool) : Prop where
  world : c.shared.Sound
  threads : Machine.KnowsOwn acting KnowsRightly c

/-- Nothing that makes a user entitled is ever undone. -/
structure AuthWorld.Extends (w w' : AuthWorld) : Prop where
  owns : ∀ u phone, w.users.Owns u phone → w'.users.Owns u phone
  requests : w.requests ⊆ w'.requests
  codeReads : w.codeReads ⊆ w'.codeReads
  notes : w.sms.shared.notes ⊆ w'.sms.shared.notes

section Extends
variable {w w' : AuthWorld} {tag : AuthTag}

theorem AuthWorld.Extends.of_eq (husers : w'.users = w.users) (hrequests : w'.requests = w.requests)
    (hreads : w'.codeReads = w.codeReads) (hsms : w'.sms = w.sms) : w.Extends w' :=
  ⟨by rw [husers]; exact fun _ _ => id, by rw [hrequests]; exact List.Subset.refl _,
    by rw [hreads]; exact List.Subset.refl _, by rw [hsms]; exact List.Subset.refl _⟩

theorem AuthWorld.Entitled.mono {u : Long} (h : w.Entitled u) (he : w.Extends w') :
    w'.Entitled u := by
  obtain ⟨phone, code, number, howns, hrequest, hread, call, hphone, hdrew⟩ := h
  exact ⟨phone, code, number, he.owns u phone howns, he.requests hrequest, he.codeReads hread, call,
    hphone, he.notes hdrew⟩

theorem KnowsRightly.mono {κ : Set AuthFact} (h : KnowsRightly w tag κ) (he : w.Extends w') :
    KnowsRightly w' tag κ := by
  refine ⟨he.requests h.1, fun x hx => ?_⟩
  have hmeans := h.2 x hx
  cases x with
  | entitled u => exact AuthWorld.Entitled.mono hmeans he
  | codeRead phone code =>
    obtain ⟨hread, call, hphone, hdrew⟩ := hmeans
    exact ⟨he.codeReads hread, call, hphone, he.notes hdrew⟩
  | owns u phone => exact he.owns u phone hmeans

theorem MayAct.entitled {κ : Set AuthFact} {u : Long} (h : MayAct tag κ u)
    (hκ : KnowsRightly w tag κ) : w.Entitled u := by
  rcases h with h | ⟨phone, code, hhandler, hread, howns⟩
  · exact hκ.2 _ h
  · obtain ⟨hreads, hdrew⟩ := hκ.2 _ hread
    have hrequest := hκ.1
    rw [hhandler] at hrequest
    exact ⟨phone, code, tag.number, hκ.2 _ howns, hrequest, hreads, hdrew⟩

end Extends

section Users
variable {t t' : UserTable} {u id : Long} {phone nickName icon : String}

theorem UserTable.owns_of_find {user : User} (h : t.findByPhone phone = some user) :
    t.Owns user.id phone :=
  ⟨user, List.mem_of_find?_eq_some h, rfl, by simpa using List.find?_some h⟩

theorem UserTable.insert_eq (h : t.insert phone nickName icon = some (id, t')) :
    t'.rows = ⟨id, phone, nickName, icon⟩ :: t.rows := by
  unfold insert at h
  split at h
  · cases h; rfl
  · cases h

theorem UserTable.Owns.insert (h : t.Owns u phone) {phone' : String}
    (hinsert : t.insert phone' nickName icon = some (id, t')) : t'.Owns u phone := by
  obtain ⟨row, hrow, hown⟩ := h
  exact ⟨row, by rw [insert_eq hinsert]; exact List.mem_cons_of_mem _ hrow, hown⟩

theorem UserTable.owns_of_insert (h : t.insert phone nickName icon = some (id, t')) :
    t'.Owns id phone :=
  ⟨_, by rw [insert_eq h]; exact List.mem_cons_self, rfl, rfl⟩

theorem UserTable.Owns.setProfile (h : t.Owns u phone) (userId : Long) (nickName icon : String) :
    (t.setProfile userId nickName icon).Owns u phone := by
  obtain ⟨row, hrow, hid, hphone⟩ := h
  obtain ⟨hkey, hkey'⟩ := setProfile_key userId nickName icon row
  exact ⟨_, List.mem_map_of_mem hrow, hkey.trans hid, hkey'.trans hphone⟩

end Users

section World
variable {w w' : AuthWorld} {tag : AuthTag} {κ : Set AuthFact}

theorem AuthWorld.Sound.mono (h : w.Sound) (he : w.Extends w') (hsms : w'.sms.Drawn)
    (hsessions : w'.sessions = w.sessions) (hholders : w'.holders = w.holders) : w'.Sound where
  sms := hsms
  sessions token u hu := (h.sessions token u (hsessions ▸ hu)).mono he
  holders worker user huser u hu := (h.holders worker user (hholders ▸ huser) u hu).mono he

theorem AuthWorld.Sound.setSession (h : w.Sound) (token : String) {m : UserMap}
    (hm : ∀ u ∈ m.id, w.Entitled u) : (w.setSession token m).Sound where
  sms := h.sms
  sessions token' u hu := by
    by_cases htoken : token' = token
    · subst htoken
      simp only [AuthWorld.setSession, Function.update_self] at hu
      exact hm u hu
    · simp only [AuthWorld.setSession, Function.update_of_ne htoken] at hu
      exact h.sessions token' u hu
  holders := h.holders

theorem AuthWorld.Sound.setHolder (h : w.Sound) (worker : ℕ) {holder : Option UserDTO}
    (hm : ∀ user ∈ holder, ∀ u ∈ user.id, w.Entitled u) : (w.setHolder worker holder).Sound where
  sms := h.sms
  sessions := h.sessions
  holders worker' user huser u hu := by
    by_cases hworker : worker' = worker
    · subst hworker
      simp only [AuthWorld.setHolder, Function.update_self] at huser
      exact hm user huser u hu
    · simp only [AuthWorld.setHolder, Function.update_of_ne hworker] at huser
      exact h.holders worker' user huser u hu

/-- What one command on sessions and holders does, made by a request that may make it. -/
theorem AuthWorld.Sound.session (h : w.Sound) (hκ : KnowsRightly w tag κ) {c : LoginCommand}
    (hpre : (actingOn tag).pre κ c) {reply : c.Reply}
    (hc : w.session tag.worker c = some (reply, w')) :
    w.Extends w' ∧ w'.Sound ∧ ∀ x ∈ told (.session c) (.ok reply), w'.Means tag x := by
  cases c with
  | entries token =>
    cases hc
    refine ⟨.of_eq rfl rfl rfl rfl, h, ?_⟩
    rintro x ⟨u, hu, rfl⟩
    exact h.sessions token u hu
  | getUser =>
    cases hc
    refine ⟨.of_eq rfl rfl rfl rfl, h, ?_⟩
    rintro x ⟨u, hu, rfl⟩
    obtain ⟨user, huser, hid⟩ := Option.bind_eq_some_iff.mp hu
    exact h.holders tag.worker user huser u hid
  | delete token =>
    cases hc
    exact ⟨.of_eq rfl rfl rfl rfl, h.setSession token nofun, nofun⟩
  | putAll token m =>
    cases hc
    refine ⟨.of_eq rfl rfl rfl rfl, h.setSession token fun u hu => ?_, nofun⟩
    obtain ⟨-, hm⟩ := hpre
    cases hid : m.id with
    | none =>
      rw [UserMap.putAll, hid] at hu
      exact h.sessions token u hu
    | some id =>
      rw [UserMap.putAll, hid] at hu
      exact (hm u (hid.trans hu)).entitled hκ
  | put token field value =>
    cases hc
    refine ⟨.of_eq rfl rfl rfl rfl, h.setSession token fun u hu => ?_, nofun⟩
    cases field <;> exact h.sessions token u hu
  | saveUser user =>
    cases hc
    refine ⟨.of_eq rfl rfl rfl rfl, h.setHolder _ ?_, nofun⟩
    rintro _ ⟨⟩ u hu
    exact (hpre.2 u hu).entitled hκ
  | removeUser =>
    cases hc
    exact ⟨.of_eq rfl rfl rfl rfl, h.setHolder _ nofun, nofun⟩
  | updateUser userId nickName icon =>
    cases hc
    have he : w.Extends { w with users := w.users.setProfile userId nickName icon } :=
      ⟨fun _ _ howns => howns.setProfile userId nickName icon, List.Subset.refl _,
        List.Subset.refl _, List.Subset.refl _⟩
    exact ⟨he, h.mono he h.sms rfl rfl, nofun⟩
  | getInfoById userId => cases hc
  | expire token | saveInfo info | updateInfoById info =>
    cases hc
    exact ⟨.of_eq rfl rfl rfl rfl, h, nofun⟩

theorem AuthWorld.Sound.answer (h : w.Sound) {c : AuthCall} (hκ : KnowsRightly w c.tag κ)
    (hpre : (acting c.tag).pre κ c) {r : Except Failure c.Reply} (hc : w.answer c = some (r, w')) :
    w.Extends w' ∧ w'.Sound ∧ ∀ x ∈ told c.command r, w'.Means c.tag x := by
  obtain ⟨tag, command⟩ := c
  cases command with
  | session c =>
    obtain ⟨⟨reply, w₁⟩, hsession, hr⟩ := Option.map_eq_some_iff.mp hc
    cases hr
    exact h.session hκ hpre hsession
  | getCode phone =>
    cases hc
    cases hcode : w.storedCode phone with
    | none =>
      simp only [readCode, hcode]
      exact ⟨.of_eq rfl rfl rfl rfl, h, nofun⟩
    | some code =>
      simp only [readCode, hcode]
      have he : w.Extends { w with codeReads := (tag.number, phone, code) :: w.codeReads } :=
        ⟨fun _ _ => id, List.Subset.refl _, List.subset_cons_self _ _, List.Subset.refl _⟩
      refine ⟨he, h.mono he h.sms rfl rfl, ?_⟩
      rintro x ⟨code', hcode', rfl⟩
      cases hcode'
      exact ⟨List.mem_cons_self, h.sms.codes.get hcode⟩
  | findByPhone phone =>
    cases hc
    refine ⟨.of_eq rfl rfl rfl rfl, h, ?_⟩
    rintro x ⟨user, huser, rfl⟩
    exact UserTable.owns_of_find huser
  | saveUser phone nickName icon =>
    simp only [AuthWorld.answer] at hc
    split at hc
    · next id users hinsert =>
      cases hc
      have he : w.Extends { w with users } :=
        ⟨fun _ _ howns => howns.insert hinsert, List.Subset.refl _, List.Subset.refl _,
          List.Subset.refl _⟩
      refine ⟨he, h.mono he h.sms rfl rfl, ?_⟩
      rintro x rfl
      exact UserTable.owns_of_insert hinsert
    · cases hc
      exact ⟨.of_eq rfl rfl rfl rfl, h, nofun⟩
  | randomUUID => cases hc
  | randomNumbers length => cases hc

@[simp] theorem told_error (c : AuthCommand) (e : Failure) : told c (.error e) = ∅ := by
  cases c with
  | session c => cases c <;> rfl
  | _ => rfl

/-- Failing calls do what they do, and tell nothing. -/
theorem AuthWorld.Sound.exec (h : w.Sound) {c : AuthCall} {f : AuthChoice}
    (hκ : KnowsRightly w c.tag κ) (hpre : (acting c.tag).pre κ c) {r : Except Failure c.Reply}
    (hexec : w.exec c f = some (r, w')) :
    w.Extends w' ∧ w'.Sound ∧ ∀ x ∈ told c.command r, w'.Means c.tag x := by
  cases f with
  | done => exact h.answer hκ hpre hexec
  | refused e =>
    cases hexec
    exact ⟨.of_eq rfl rfl rfl rfl, h, by simp⟩
  | lost e =>
    obtain ⟨⟨r', w₁⟩, hanswer, hr⟩ := Option.map_eq_some_iff.mp hexec
    cases hr
    obtain ⟨he, hsound, -⟩ := h.answer hκ hpre hanswer
    exact ⟨he, hsound, by simp⟩
  | drawn text =>
    obtain ⟨tag, command⟩ := c
    cases command with
    | randomUUID => cases hexec; exact ⟨.of_eq rfl rfl rfl rfl, h, nofun⟩
    | randomNumbers length => cases hexec; exact ⟨.of_eq rfl rfl rfl rfl, h, nofun⟩
    | _ => cases hexec
  | found info =>
    obtain ⟨tag, command⟩ := c
    cases command with
    | session c =>
      cases c with
      | getInfoById userId => cases hexec; exact ⟨.of_eq rfl rfl rfl rfl, h, nofun⟩
      | _ => cases hexec
    | _ => cases hexec

end World

section Run
variable {p : SmsProperties} {c c' : AuthPool} {m : Move AuthChoice AuthAction}

theorem smsCalls_notes {sms sms' : SmsPool} {m : Move SmsChoice SmsAction}
    (h : (smsCalls p).Fires sms m sms') : sms.shared.notes ⊆ sms'.shared.notes := by
  cases h with
  | run thread hexec => exact SmsWorld.notes_subset hexec
  | crash bound => exact List.Subset.refl _
  | @act a w started hact => cases a <;> cases hact <;> exact List.Subset.refl _

theorem AuthPool.Sound.step (h : AuthPool.Sound c) (hfires : (authentication p).Fires c m c') :
    AuthPool.Sound c' := by
  cases hfires with
  | run thread hexec =>
    obtain ⟨κ, hκ, hpre, -⟩ := h.threads.thread thread
    have htag := hpre.1
    subst htag
    obtain ⟨he, hsound, -⟩ := h.world.exec hκ hpre hexec
    refine ⟨hsound, h.threads.run thread (fun _ _ _ _ _ hκ => hκ.mono he) fun κ hκ hpre =>
      ⟨trivial, (hκ.mono he).1, fun x hx => ?_⟩⟩
    rcases hx with hx | hx
    · exact (hκ.mono he).2 x hx
    · exact (h.world.exec hκ hpre hexec).2.2 x hx
  | crash bound => exact ⟨h.world, h.threads.crash _⟩
  | @act a w started hact =>
    cases a with
    | request worker token handler =>
      cases hact
      have he : c.shared.Extends { c.shared with
          nextRequest := c.shared.nextRequest + 1
          requests := (c.shared.nextRequest, handler) :: c.shared.requests } :=
        ⟨fun _ _ => id, List.subset_cons_self _ _, List.Subset.refl _, List.Subset.refl _⟩
      refine ⟨h.world.mono he h.world.sms rfl rfl,
        h.threads.act (fun _ _ hκ => hκ.mono he) fun t ht => ?_⟩
      obtain rfl := List.mem_singleton.mp ht
      exact ⟨∅, ⟨List.mem_cons_self, nofun⟩,
        serve_acting ⟨c.shared.nextRequest, worker, handler⟩ token⟩
    | sms mv =>
      obtain ⟨sms, hstep, hp⟩ := Option.map_eq_some_iff.mp hact
      cases hp
      have hsms := Machine.fires_of_step hstep
      have he : c.shared.Extends { c.shared with sms } :=
        ⟨fun _ _ => id, List.Subset.refl _, List.Subset.refl _, smsCalls_notes hsms⟩
      exact ⟨h.world.mono he (h.world.sms.step hsms) rfl rfl,
        h.threads.act (fun _ _ hκ => hκ.mono he) nofun⟩
    | expireSession token =>
      cases hact
      exact ⟨h.world.setSession token nofun,
        h.threads.act (fun _ _ hκ => hκ.mono (.of_eq rfl rfl rfl rfl)) nofun⟩

end Run

end HmDianPing.Login
