import HmDianPing.Interleaving.Footprint
import HmDianPing.Login.Session
import Mathlib.Data.List.DropRight
import Mathlib.Logic.Function.Basic

/-! # An update of the profile, and the stores it leaves

`updateProfile` writes a row of each of two tables and two fields of the session, one
after another and without a transaction. Every call may fail, before it has taken
effect or after.
-/
namespace HmDianPing.Login
open Interleaving Program

def UserMap.get (m : UserMap) : ProfileField → Option String
  | .nickName => m.nickName
  | .icon => m.icon

/-- What strict mode stores in a `varchar(n)`: spaces beyond it are cut off, anything else there
is rejected. -/
def varchar (n : ℕ) (value : String) : Option String :=
  if (value.toList.drop n).all (· = ' ') then some (String.ofList (value.toList.take n)) else none

theorem varchar_eq_some {n : ℕ} {value : String} (h : value.length ≤ n) :
    varchar n value = some value := by
  have hlen : value.toList.length ≤ n := by rwa [String.length_toList]
  simp [varchar, List.drop_eq_nil_of_le hlen, List.take_of_length_le hlen]

/-- A trimmed text ends in no space, so nothing is cut off. -/
theorem varchar_trim {n : ℕ} {value : String} (h : varchar n (trim value) ≠ none) :
    varchar n (trim value) = some (trim value) := by
  have hlist : (trim value).toList =
      (value.toList.dropWhile isBlankChar).rdropWhile isBlankChar := by
    simp [trim, List.rdropWhile]
  have hspaces : ((trim value).toList.drop n).all (· = ' ') := by
    by_contra hnot
    exact h (by rw [varchar, if_neg hnot])
  by_cases hdrop : (trim value).toList.drop n = []
  · apply varchar_eq_some
    rw [← String.length_toList]
    exact List.drop_eq_nil_iff.mp hdrop
  · exfalso
    have hne : (trim value).toList ≠ [] := by
      intro hnil
      simp [hnil] at hdrop
    have hlast : (trim value).toList.getLast hne = ' ' := by
      rw [← List.getLast_drop hdrop]
      simpa using List.all_eq_true.mp hspaces _ (List.getLast_mem hdrop)
    have hblank : ¬ isBlankChar ((trim value).toList.getLast hne) := by
      simp only [hlist] at hne ⊢
      exact List.rdropWhile_last_not _ _ hne
    rw [hlast] at hblank
    exact hblank (by decide)

theorem length_le_utf16Length (value : String) : value.length ≤ utf16Length value := by
  rw [← String.length_toList, utf16Length]
  induction value.toList with
  | nil => rfl
  | cons c cs ih =>
    rw [List.length_cons, List.map_cons, List.sum_cons]
    split <;> omega

structure UserRow where
  nickName : Option String
  icon : Option String
deriving DecidableEq

/-- The texts as their columns store them. -/
def UserInfo.stored (info : UserInfo) : UserInfo :=
  { info with city := info.city.bind (varchar 64), introduce := info.introduce.bind (varchar 128) }

attribute [ext] UserMap

@[ext]
structure ProfileStores where
  tbUser : Long → Option UserRow
  tbUserInfo : Long → Option UserInfoRow
  sessions : String → UserMap
  /-- `user_id` is the primary key. -/
  keyed : ∀ userId, ∀ info ∈ tbUserInfo userId, info.userId = userId

inductive ProfilePart where
  | user (userId : Long)
  | info (userId : Long)
  | sessionId (token : String)
  | session (token : String) (field : ProfileField)
deriving DecidableEq

namespace ProfileStores
variable (s : ProfileStores)

def setInfo (userId : Long) (row : Option UserInfoRow) (h : ∀ info ∈ row, info.userId = userId) :
    ProfileStores :=
  { s with
    tbUserInfo := Function.update s.tbUserInfo userId row
    keyed := fun userId' info hinfo => by
      by_cases hid : userId' = userId
      · subst hid
        exact h info (by simpa using hinfo)
      · exact s.keyed userId' info (by simpa [hid] using hinfo) }

/-- The stores after a call that takes effect. -/
def apply : LoginCommand → ProfileStores
  | .updateUser userId nickName icon => { s with
      tbUser := Function.update s.tbUser userId
        ((s.tbUser userId).map fun _ => ⟨varchar 32 nickName, varchar 255 icon⟩) }
  | .saveInfo info => s.setInfo info.userId (some info.stored.withDefaults) (by
      rintro _ ⟨⟩
      rfl)
  | .updateInfoById info =>
    s.setInfo info.userId ((s.tbUserInfo info.userId).map fun row => row.updatedBy info.stored) (by
      intro info' hinfo'
      obtain ⟨row, hrow, rfl⟩ := Option.mem_map.mp hinfo'
      exact s.keyed _ row hrow)
  | .put token .nickName value => { s with
      sessions := Function.update s.sessions token { s.sessions token with nickName := some value } }
  | .put token .icon value => { s with
      sessions := Function.update s.sessions token { s.sessions token with icon := some value } }
  | .putAll token m => { s with
      sessions := Function.update s.sessions token
        ⟨m.id <|> (s.sessions token).id, m.nickName <|> (s.sessions token).nickName,
          m.icon <|> (s.sessions token).icon⟩ }
  | .delete token => { s with sessions := Function.update s.sessions token .empty }
  | .entries _ | .expire _ | .saveUser _ | .getUser | .removeUser | .getInfoById _ => s

def parts : LoginCommand → List ProfilePart
  | .updateUser userId _ _ => [.user userId]
  | .saveInfo info | .updateInfoById info => [.info info.userId]
  | .put token field _ => [.session token field]
  | .putAll token _ | .delete token =>
    [.sessionId token, .session token .nickName, .session token .icon]
  | .entries _ | .expire _ | .saveUser _ | .getUser | .removeUser | .getInfoById _ => []

abbrev Contents : ProfilePart → Type
  | .user _ => Option UserRow
  | .info _ => Option UserInfoRow
  | .sessionId _ => Option Long
  | .session _ _ => Option String

def contents : (p : ProfilePart) → ProfileStores → Contents p
  | .user userId, s => s.tbUser userId
  | .info userId, s => s.tbUserInfo userId
  | .sessionId token, s => (s.sessions token).id
  | .session token field, s => (s.sessions token).get field

section
variable {s t : ProfileStores} {p : ProfilePart} {c : LoginCommand}

theorem contents_sessions_update {token : String} {m : UserMap} (h : p ∉ [ProfilePart.sessionId token,
    .session token .nickName, .session token .icon]) :
    contents p { s with sessions := Function.update s.sessions token m } = contents p s := by
  cases p with
  | user userId | info userId => rfl
  | sessionId token' =>
    have ht : token' ≠ token := by rintro rfl; simp at h
    exact congrArg UserMap.id (Function.update_of_ne ht _ _)
  | session token' field =>
    have ht : token' ≠ token := by rintro rfl; cases field <;> simp at h
    exact congrArg (UserMap.get · field) (Function.update_of_ne ht _ _)

theorem contents_put {token : String} {field : ProfileField} {value : String}
    (h : p ≠ .session token field) : contents p (s.apply (.put token field value)) = contents p s := by
  by_cases ht : p ∈ [ProfilePart.sessionId token, .session token .nickName, .session token .icon]
  · rw [List.mem_cons, List.mem_cons, List.mem_singleton] at ht
    rcases ht with rfl | rfl | rfl <;> cases field <;>
      simp_all [contents, apply, UserMap.get]
  · cases field <;> exact contents_sessions_update ht

theorem contents_apply_elsewhere (h : p ∉ parts c) : contents p (s.apply c) = contents p s := by
  cases c with
  | updateUser userId nickName icon =>
    cases p with
    | user userId' => exact Function.update_of_ne (by simpa [parts] using h) _ _
    | info userId' | sessionId token | session token field => rfl
  | saveInfo info | updateInfoById info =>
    cases p with
    | info userId' => exact Function.update_of_ne (by simpa [parts] using h) _ _
    | user userId' | sessionId token | session token field => rfl
  | put token field value => exact contents_put (by simpa [parts] using h)
  | putAll token m | delete token => exact contents_sessions_update h
  | entries token | expire token | saveUser user | getUser | removeUser | getInfoById userId => rfl

theorem contents_apply_within (h : p ∈ parts c) (hst : contents p s = contents p t) :
    contents p (s.apply c) = contents p (t.apply c) := by
  cases c with
  | updateUser userId nickName icon | saveInfo info | updateInfoById info =>
    obtain rfl := List.mem_singleton.mp h
    simp_all [contents, apply, setInfo]
  | put token field value =>
    obtain rfl := List.mem_singleton.mp h
    cases field <;> simp [contents, apply, UserMap.get]
  | putAll token m | delete token =>
    rw [parts, List.mem_cons, List.mem_cons, List.mem_singleton] at h
    rcases h with rfl | rfl | rfl <;> simp_all [contents, apply, UserMap.get]
  | entries token | expire token | saveUser user | getUser | removeUser | getInfoById userId =>
    cases h

theorem ext_contents (h : ∀ p, contents p s = contents p t) : s = t := by
  ext1
  · funext userId
    exact h (.user userId)
  · funext userId
    exact h (.info userId)
  · funext token
    have hid : (s.sessions token).id = (t.sessions token).id := h (.sessionId token)
    have hget (field : ProfileField) :
        (s.sessions token).get field = (t.sessions token).get field := h (.session token field)
    exact UserMap.ext hid (hget .nickName) (hget .icon)

end

def footprint : Footprint ProfileStores LoginCommand ProfilePart where
  apply := apply
  parts := parts
  Contents := Contents
  contents := contents
  elsewhere := contents_apply_elsewhere
  within := contents_apply_within
  ext := ext_contents

/-- What the strict mode of MySQL rejects. -/
def Rejects : LoginCommand → Prop
  | .updateUser userId nickName icon =>
    s.tbUser userId ≠ none ∧ (varchar 32 nickName = none ∨ varchar 255 icon = none)
  | .saveInfo info => varchar 64 (info.city.getD "") = none ∨
      varchar 128 (info.introduce.getD "") = none
  | .updateInfoById info => s.tbUserInfo info.userId ≠ none ∧
      (varchar 64 (info.city.getD "") = none ∨ varchar 128 (info.introduce.getD "") = none)
  | _ => False

instance : DecidablePred s.Rejects := fun c => by
  cases c <;> unfold Rejects <;> infer_instance

/-- `getById` of `tb_user_info`. -/
def foundInfo (userId : Long) : Option UserInfo := (s.tbUserInfo userId).map UserInfoRow.entity

def answer (user : Option UserDTO) : (c : LoginCommand) → c.Reply
  | .entries token => s.sessions token
  | .getUser => user
  | .getInfoById userId => s.foundInfo userId
  | .expire _ | .delete _ | .putAll _ _ | .put _ _ _ | .saveUser _ | .removeUser | .updateUser _ _ _
  | .saveInfo _ | .updateInfoById _ => ()

end ProfileStores

inductive Fault where
  | none
  /-- It fails and has no effect. -/
  | refused (e : Failure)
  /-- It takes effect, and its reply is lost. -/
  | lost (e : Failure)

structure ProfileRun where
  stores : ProfileStores
  /-- History: how many calls on MySQL and Redis have been answered. -/
  calls : ℕ

namespace ProfileRun
variable (user : Option UserDTO) (faults : ℕ → Fault)

/-- The `n`-th call on a store meets the `n`-th fault; a call on the thread's own user meets none. -/
def answer (c : LoginCommand) (r : ProfileRun) : Except Failure c.Reply × ProfileRun :=
  match c with
  | .getUser => (.ok user, r)
  | .saveUser _ => (.ok (), r)
  | .removeUser => (.ok (), r)
  | c =>
    if r.stores.Rejects c then (.error "Data too long for column", r)
    else match faults r.calls with
      | .none => (.ok (r.stores.answer user c), ⟨r.stores.apply c, r.calls + 1⟩)
      | .refused e => (.error e, r)
      | .lost e => (.error e, { r with stores := r.stores.apply c })

end ProfileRun

/-- What an update sets out to store. -/
structure NewProfile where
  userId : Long
  nickName : String
  /-- The icon that was sent, unless it is blank. -/
  sentIcon : Option String
  icon : String
  city : String
  introduce : Option String
  gender : Option Bool
  birthday : Option String

/-- Nothing, when there is no user or a check fails. -/
def NewProfile.of (user : Option UserDTO) (profile : Option UserProfileUpdateDTO) :
    Option NewProfile := do
  let userId ← user.bind UserDTO.id
  let (profile, nickName, introduce) ← (checkProfile profile).toOption
  let sentIcon := if isBlank profile.icon then none else profile.icon
  return {
    userId, nickName, sentIcon, introduce
    icon := (sentIcon <|> user.bind UserDTO.icon).getD ""
    city := if isBlank (profile.city.map trim) then "广州" else (profile.city.map trim).getD ""
    gender := profile.gender
    birthday := profile.birthday }

/-- The two rows and the session have the new profile; what was not sent may be anything. -/
structure Carries (s : ProfileStores) (p : NewProfile) (token : Option String) : Prop where
  user : s.tbUser p.userId = some ⟨some p.nickName, some p.icon⟩
  info : ∃ row ∈ s.tbUserInfo p.userId, row.city = some p.city ∧
    (p.introduce ≠ none → row.introduce = p.introduce) ∧
    (p.gender ≠ none → row.gender = p.gender) ∧ (p.birthday ≠ none → row.birthday = p.birthday)
  session : isBlank token = false → (s.sessions (token.getD "")).nickName = some p.nickName ∧
    (s.sessions (token.getD "")).icon = some p.icon

/-- An update that returns `ok` has stored the new profile, any other has left the stores alone. -/
def Atomic (s : ProfileStores) (user : Option UserDTO) (profile : Option UserProfileUpdateDTO)
    (token : Option String) (faults : ℕ → Fault) : Prop :=
  let (result, r) := (updateProfile profile token).run (ProfileRun.answer user faults) ⟨s, 0⟩
  match result with
  | .ok .ok => ∃ p ∈ NewProfile.of user profile, Carries r.stores p token
  | _ => r.stores = s

/-- The row of `tb_user_info` that is sent, from the one that was read. -/
def NewProfile.info (p : NewProfile) (found : Option UserInfo) : UserInfo :=
  { found.getD (.new p.userId) with
    city := some p.city
    introduce := p.introduce
    gender := p.gender
    birthday := p.birthday }

def ProfileStores.infoWrite (s : ProfileStores) (info : UserInfo) : LoginCommand :=
  if s.tbUserInfo info.userId = none then .saveInfo info else .updateInfoById info

/-- The calls of an update that nothing stops. -/
def profileCalls (s : ProfileStores) (p : NewProfile) (token : Option String) :
    List LoginCommand :=
  let info := p.info (s.foundInfo p.userId)
  [.updateUser p.userId p.nickName (p.sentIcon.getD ""), .getInfoById p.userId,
    .getInfoById info.userId, s.infoWrite info] ++
  if isBlank token then [] else
    [.put (token.getD "") .nickName p.nickName, .put (token.getD "") .icon p.icon,
      .expire (token.getD "")]

/-- No call of the list is rejected or meets a fault, from the `n`-th one on. -/
def AllAnswered (faults : ℕ → Fault) : ProfileStores → ℕ → List LoginCommand → Prop
  | _, _, [] => True
  | s, n, c :: cs => ¬ s.Rejects c ∧ faults n = .none ∧ AllAnswered faults (s.apply c) (n + 1) cs

/-- The calls that take effect until one fails. -/
def effective (faults : ℕ → Fault) : ProfileStores → ℕ → List LoginCommand → List LoginCommand
  | _, _, [] => []
  | s, n, c :: cs =>
    if s.Rejects c then [] else
    match faults n with
    | .none => c :: effective faults (s.apply c) (n + 1) cs
    | .refused _ => []
    | .lost _ => [c]

section
variable {s : ProfileStores} {user : Option UserDTO} {faults : ℕ → Fault} {token : Option String}

/-- The program makes these calls, one after another, and then returns `ok`. -/
def Issues (user : Option UserDTO) (faults : ℕ → Fault) (p : LoginProgram Result)
    (r : ProfileRun) (cs : List LoginCommand) : Prop :=
  (p.run (ProfileRun.answer user faults) r).2.stores =
      ProfileStores.footprint.applyAll r.stores (effective faults r.stores r.calls cs) ∧
    (AllAnswered faults r.stores r.calls cs →
      (p.run (ProfileRun.answer user faults) r).1 = .ok .ok) ∧
    (¬ AllAnswered faults r.stores r.calls cs →
      ∃ e, (p.run (ProfileRun.answer user faults) r).1 = .error e)

def OnStores (c : LoginCommand) : Prop := c ≠ .getUser ∧ c ≠ .removeUser ∧ ∀ u, c ≠ .saveUser u

theorem answer_onStores {c : LoginCommand} (hc : OnStores c) (r : ProfileRun) :
    ProfileRun.answer user faults c r =
      if r.stores.Rejects c then (.error "Data too long for column", r)
      else match faults r.calls with
        | .none => (.ok (r.stores.answer user c), ⟨r.stores.apply c, r.calls + 1⟩)
        | .refused e => (.error e, r)
        | .lost e => (.error e, { r with stores := r.stores.apply c }) := by
  cases c with
  | getUser => exact absurd rfl hc.1
  | removeUser => exact absurd rfl hc.2.1
  | saveUser u => exact absurd rfl (hc.2.2 u)
  | _ => rfl

theorem issues_saveUser (u : UserDTO) (r : ProfileRun) :
    Issues user faults (perform (LoginCommand.saveUser u) >>= fun _ => pure .ok) r [] :=
  ⟨rfl, fun _ => rfl, fun h => absurd trivial h⟩

theorem Issues.call {c : LoginCommand} {cs : List LoginCommand} {r : ProfileRun}
    {k : c.Reply → LoginProgram Result} (hc : OnStores c)
    (hk : Issues user faults (k (r.stores.answer user c)) ⟨r.stores.apply c, r.calls + 1⟩ cs) :
    Issues user faults (perform c >>= k) r (c :: cs) := by
  unfold Issues
  rw [run_bind, run_perform, answer_onStores hc, AllAnswered, effective]
  by_cases hreject : r.stores.Rejects c
  · simp [hreject, Footprint.applyAll]
  · rcases hf : faults r.calls with _ | e | e
    · obtain ⟨hstores, hok, herror⟩ := hk
      simp only [hreject, if_false, not_false_eq_true, true_and]
      exact ⟨hstores, hok, herror⟩
    · simp [hreject, Footprint.applyAll]
    · simp [hreject, Footprint.applyAll, ProfileStores.footprint]

theorem issues_getUser {k : Option UserDTO → LoginProgram Result} {r : ProfileRun}
    {cs : List LoginCommand} (h : Issues user faults (k user) r cs) :
    Issues user faults (perform LoginCommand.getUser >>= k) r cs := h

theorem of_eq_some {profile : Option UserProfileUpdateDTO} {p : NewProfile}
    (hp : NewProfile.of user profile = some p) : ∃ profile' nickName introduce,
      user.bind UserDTO.id = some p.userId ∧
      checkProfile profile = .ok (profile', nickName, introduce) ∧
      p.nickName = nickName ∧ p.introduce = introduce ∧
      p.sentIcon = (if isBlank profile'.icon then none else profile'.icon) ∧
      p.icon = (p.sentIcon <|> user.bind UserDTO.icon).getD "" ∧
      some p.city = (if isBlank (profile'.city.map trim) then some "广州"
        else profile'.city.map trim) ∧
      p.gender = profile'.gender ∧ p.birthday = profile'.birthday := by
  unfold NewProfile.of at hp
  cases hid : user.bind UserDTO.id with
  | none => simp [hid] at hp
  | some userId =>
    cases hcheck : checkProfile profile with
    | error e => simp [hid, hcheck, Except.toOption] at hp
    | ok checked =>
      obtain ⟨profile', nickName, introduce⟩ := checked
      simp only [hid, hcheck, Except.toOption] at hp
      obtain rfl := Option.some.inj hp
      refine ⟨profile', nickName, introduce, rfl, rfl, rfl, rfl, rfl, rfl, ?_, rfl, rfl⟩
      cases hcity : profile'.city with
      | none => simp [isBlank]
      | some city => simp [apply_ite some]

theorem ProfileStores.foundInfo_eq_none (s : ProfileStores) (userId : Long) :
    s.foundInfo userId = none ↔ s.tbUserInfo userId = none :=
  Option.map_eq_none_iff

theorem ProfileStores.userId_getD (s : ProfileStores) (userId : Long) :
    ((s.foundInfo userId).getD (.new userId)).userId = userId := by
  cases h : s.tbUserInfo userId with
  | none => rw [(s.foundInfo_eq_none userId).mpr h]; rfl
  | some row =>
    rw [foundInfo, h]
    exact s.keyed userId row h

theorem issues_putProfile {r : ProfileRun} {nickName : String} {icon : Option String}
    {k : Unit → LoginProgram Result} (hk : ∀ r, Issues user faults (k ()) r []) :
    Issues user faults (putProfile token nickName icon >>= k) r
      (if isBlank token then [] else
        [.put (token.getD "") .nickName nickName, .put (token.getD "") .icon (icon.getD ""),
          .expire (token.getD "")]) := by
  unfold putProfile
  cases hblank : isBlank token with
  | true => exact hk r
  | false =>
    simp only [Bool.false_eq_true, if_false]
    rw [bind_assoc, bind_assoc]
    apply Issues.call (by simp [OnStores])
    apply Issues.call (by simp [OnStores])
    apply Issues.call (by simp [OnStores])
    exact hk _

theorem issues_saveOrUpdateInfo {r : ProfileRun} {info : UserInfo} {cs : List LoginCommand}
    {k : Unit → LoginProgram Result} (hk : ∀ r, Issues user faults (k ()) r cs) :
    Issues user faults (saveOrUpdateInfo info >>= k) r
      (.getInfoById info.userId :: r.stores.infoWrite info :: cs) := by
  unfold saveOrUpdateInfo ProfileStores.infoWrite
  rw [bind_assoc]
  apply Issues.call (by simp [OnStores])
  have hfound : r.stores.answer user (.getInfoById info.userId) =
    r.stores.foundInfo info.userId := rfl
  simp only [hfound, ProfileStores.foundInfo_eq_none]
  split <;> apply Issues.call (by simp [OnStores]) <;> exact hk _

theorem issues_updateProfile (s : ProfileStores) (faults : ℕ → Fault) (token : Option String)
    {profile : Option UserProfileUpdateDTO} {p : NewProfile}
    (hp : NewProfile.of user profile = some p) :
    Issues user faults (updateProfile profile token) ⟨s, 0⟩ (profileCalls s p token) := by
  obtain ⟨profile', nickName, introduce, hid, hcheck, rfl, rfl, hsent, hicon, hcity, hgender,
    hbirthday⟩ := of_eq_some hp
  unfold updateProfile
  apply issues_getUser
  simp only [hid, hcheck]
  rw [← hsent, ← hcity, ← hgender, ← hbirthday]
  unfold profileCalls
  rw [hicon]
  apply Issues.call (by simp [OnStores])
  apply Issues.call (by simp [OnStores])
  apply issues_saveOrUpdateInfo
  intro r
  apply issues_putProfile
  exact issues_saveUser _

theorem effective_of_allAnswered {n : ℕ} {cs : List LoginCommand} (h : AllAnswered faults s n cs) :
    effective faults s n cs = cs := by
  induction cs generalizing s n with
  | nil => rfl
  | cons c cs ih =>
    obtain ⟨hreject, hfault, hcs⟩ := h
    simp [effective, hreject, hfault, ih hcs]

theorem effective_prefix (s : ProfileStores) (faults : ℕ → Fault) (n : ℕ) (cs : List LoginCommand) :
    effective faults s n cs <+: cs := by
  induction cs generalizing s n with
  | nil => exact List.prefix_rfl
  | cons c cs ih =>
    rw [effective]
    split
    · exact List.nil_prefix
    · cases faults n with
      | none => exact List.cons_prefix_cons.mpr ⟨rfl, ih _ _⟩
      | refused e => exact List.nil_prefix
      | lost e => exact List.cons_prefix_cons.mpr ⟨rfl, List.nil_prefix⟩

section after
open ProfileStores
variable (s token) (p : NewProfile) (info : UserInfo)

@[simp] theorem parts_infoWrite : parts (s.infoWrite info) = [.info info.userId] := by
  unfold infoWrite
  split <;> rfl

theorem nodup_parts_profileCalls : ((profileCalls s p token).flatMap parts).Nodup := by
  rw [profileCalls]
  split
  · simp only [List.append_nil, List.flatMap_cons, List.flatMap_nil, parts_infoWrite]
    change [ProfilePart.user _, .info _].Nodup
    simp
  · simp only [List.cons_append, List.nil_append, List.flatMap_cons, List.flatMap_nil,
      parts_infoWrite]
    change [ProfilePart.user _, .info _, .session _ .nickName, .session _ .icon].Nodup
    simp

theorem contents_after {c : LoginCommand} {part : ProfilePart} (hc : c ∈ profileCalls s p token)
    (hpart : part ∈ parts c) :
    contents part (footprint.applyAll s (profileCalls s p token)) = contents part (s.apply c) :=
  Footprint.applyAll_within (f := footprint) (nodup_parts_profileCalls s token p) hc hpart

theorem tbUser_after : (footprint.applyAll s (profileCalls s p token)).tbUser p.userId =
    (s.tbUser p.userId).map fun _ =>
      ⟨varchar 32 p.nickName, varchar 255 (p.sentIcon.getD "")⟩ := by
  have hc : .updateUser p.userId p.nickName (p.sentIcon.getD "") ∈ profileCalls s p token := by
    simp [profileCalls]
  refine (contents_after s token p hc (List.mem_singleton.mpr rfl)).trans ?_
  exact Function.update_self ..

theorem session_after (htoken : isBlank token = false) :
    ((footprint.applyAll s (profileCalls s p token)).sessions (token.getD "")).nickName =
        some p.nickName ∧
      ((footprint.applyAll s (profileCalls s p token)).sessions (token.getD "")).icon =
        some p.icon := by
  have hname : .put (token.getD "") .nickName p.nickName ∈ profileCalls s p token := by
    simp [profileCalls, htoken]
  have hicon : .put (token.getD "") .icon p.icon ∈ profileCalls s p token := by
    simp [profileCalls, htoken]
  constructor
  · refine (contents_after s token p hname (List.mem_singleton.mpr rfl)).trans ?_
    simp [contents, apply, UserMap.get]
  · refine (contents_after s token p hicon (List.mem_singleton.mpr rfl)).trans ?_
    simp [contents, apply, UserMap.get]

theorem tbUserInfo_after :
    (footprint.applyAll s (profileCalls s p token)).tbUserInfo p.userId =
      (s.apply (s.infoWrite (p.info (s.foundInfo p.userId)))).tbUserInfo p.userId := by
  have hkey : (p.info (s.foundInfo p.userId)).userId = p.userId := s.userId_getD p.userId
  have hc : s.infoWrite (p.info (s.foundInfo p.userId)) ∈ profileCalls s p token := by
    simp [profileCalls]
  have hpart : .info p.userId ∈ parts (s.infoWrite (p.info (s.foundInfo p.userId))) := by
    simp [hkey]
  exact contents_after s token p hc hpart

end after

theorem lengths_of_checkProfile {profile : Option UserProfileUpdateDTO}
    {profile' : UserProfileUpdateDTO} {nickName : String} {introduce : Option String}
    (h : checkProfile profile = .ok (profile', nickName, introduce)) :
    utf16Length nickName ≤ 32 ∧ utf16Length (introduce.getD "") ≤ 128 := by
  cases profile with
  | none => cases h
  | some profile =>
    simp only [checkProfile] at h
    by_cases hblank : isBlank (some ((profile.nickName.map trim).getD ""))
    · simp [hblank] at h
      cases h
    · by_cases hname : utf16Length ((profile.nickName.map trim).getD "") > 32
      · simp [hblank, hname] at h
        cases h
      · by_cases hintroduce : utf16Length ((profile.introduce.map trim).getD "") > 128
        · simp [hblank, hname, hintroduce] at h
          cases h
        · simp [hblank, hname, hintroduce] at h
          cases h
          exact ⟨not_lt.mp hname, not_lt.mp hintroduce⟩

structure NewProfile.Checked (p : NewProfile) : Prop where
  nickName : p.nickName.length ≤ 32
  introduce : (p.introduce.getD "").length ≤ 128
  city : p.city = "广州" ∨ ∃ city, p.city = trim city

theorem checked_of_checkProfile {profile : Option UserProfileUpdateDTO} {p : NewProfile}
    (hp : NewProfile.of user profile = some p) : p.Checked := by
  obtain ⟨profile', nickName, introduce, hid, hcheck, rfl, rfl, hsent, hicon, hcity, hgender,
    hbirthday⟩ := of_eq_some hp
  obtain ⟨hname, hintroduce⟩ := lengths_of_checkProfile hcheck
  refine ⟨(length_le_utf16Length _).trans hname, (length_le_utf16Length _).trans hintroduce, ?_⟩
  · split at hcity
    · exact .inl (Option.some.inj hcity)
    · obtain ⟨city, -, hcity⟩ := Option.map_eq_some_iff.mp hcity.symm
      exact .inr ⟨city, hcity.symm⟩

theorem varchar_city {p : NewProfile} (hp : p.Checked)
    (hall : AllAnswered faults s 0 (profileCalls s p token)) : varchar 64 p.city = some p.city := by
  have hreject : varchar 64 p.city ≠ none := by
    obtain ⟨-, -, -, -, -, -, hinfo, -⟩ := hall
    intro hcity
    apply hinfo
    unfold ProfileStores.infoWrite
    split
    next => exact .inl hcity
    next hfound => exact ⟨hfound, .inl hcity⟩
  rcases hp.city with hcity | ⟨city, hcity⟩
  · rw [hcity]
    decide
  · rw [hcity] at hreject ⊢
    exact varchar_trim hreject

theorem stored_info {p : NewProfile} (hp : p.Checked)
    (hcity : varchar 64 p.city = some p.city) (found : Option UserInfo) :
    (p.info found).stored = p.info found := by
  have hintroduce : p.introduce.bind (varchar 128) = p.introduce := by
    cases h : p.introduce with
    | none => rfl
    | some introduce => exact varchar_eq_some (by simpa [h] using hp.introduce)
  simp [UserInfo.stored, NewProfile.info, hcity, hintroduce]

theorem carries_info {p : NewProfile} (hp : p.Checked)
    (hcity : varchar 64 p.city = some p.city) :
    ∃ row ∈ (s.apply (s.infoWrite (p.info (s.foundInfo p.userId)))).tbUserInfo p.userId,
      row.city = some p.city ∧ (p.introduce ≠ none → row.introduce = p.introduce) ∧
      (p.gender ≠ none → row.gender = p.gender) ∧
      (p.birthday ≠ none → row.birthday = p.birthday) := by
  have hkey : (p.info (s.foundInfo p.userId)).userId = p.userId := s.userId_getD p.userId
  have hstored := stored_info hp hcity (s.foundInfo p.userId)
  cases hfound : s.tbUserInfo p.userId with
  | none =>
    rw [(s.foundInfo_eq_none p.userId).mpr hfound] at hkey hstored ⊢
    refine ⟨(p.info none).withDefaults, ?_, rfl, fun _ => rfl, fun h => ?_, fun _ => rfl⟩
    · simp [ProfileStores.infoWrite, ProfileStores.apply, ProfileStores.setInfo, hkey, hfound,
        hstored]
    · obtain ⟨gender, hgender⟩ := Option.ne_none_iff_exists'.mp h
      simp [UserInfo.withDefaults, NewProfile.info, hgender]
  | some row =>
    have hread : s.foundInfo p.userId = some row.entity := congrArg (Option.map _) hfound
    rw [hread] at hkey hstored ⊢
    refine ⟨row.updatedBy (p.info row.entity), ?_, rfl, fun h => ?_, fun h => ?_, fun h => ?_⟩
    · simp [ProfileStores.infoWrite, ProfileStores.apply, ProfileStores.setInfo, hkey, hfound,
        hstored]
    all_goals
      obtain ⟨value, hvalue⟩ := Option.ne_none_iff_exists'.mp h
      simp [UserInfoRow.updatedBy, NewProfile.info, hvalue]

/-- The update that nothing stops stores the profile, but for two things about `tb_user`. -/
theorem carries_iff {p : NewProfile} (hp : p.Checked)
    (hall : AllAnswered faults s 0 (profileCalls s p token)) :
    Carries (ProfileStores.footprint.applyAll s (profileCalls s p token)) p token ↔
      s.tbUser p.userId ≠ none ∧ varchar 255 (p.sentIcon.getD "") = some p.icon := by
  have hname : varchar 32 p.nickName = some p.nickName := varchar_eq_some hp.nickName
  have huser := tbUser_after s token p
  rw [hname] at huser
  constructor
  · intro h
    rw [h.user] at huser
    obtain ⟨row, hrow, hcolumns⟩ := Option.map_eq_some_iff.mp huser.symm
    simp [hrow] at hcolumns ⊢
    exact hcolumns
  · rintro ⟨hrow, hicon⟩
    obtain ⟨row, hrow⟩ := Option.ne_none_iff_exists'.mp hrow
    refine ⟨?_, ?_, session_after s token p⟩
    · rw [huser, hrow, hicon]
      rfl
    · rw [tbUserInfo_after]
      exact carries_info hp (varchar_city hp hall)

theorem updateProfile_refuses (r : ProfileRun) (faults : ℕ → Fault) (token : Option String)
    {profile : Option UserProfileUpdateDTO} (hp : NewProfile.of user profile = none) :
    ∃ errorMsg, (updateProfile profile token).run (ProfileRun.answer user faults) r =
      (.ok (.fail errorMsg), r) := by
  unfold updateProfile
  rw [run_bind, run_perform, ProfileRun.answer]
  cases hid : user.bind UserDTO.id with
  | none => exact ⟨"请先登录", by simp only [hid, run_pure]⟩
  | some userId =>
    cases hcheck : checkProfile profile with
    | error errorMsg => exact ⟨errorMsg, by simp only [hid, run_pure]⟩
    | ok checked => simp [NewProfile.of, hid, hcheck, Except.toOption] at hp

/-- `updateProfile` is atomic on error exactly when the row of `tb_user` is there to be written and
takes the right icon, in case no call fails, and when in the other case what took effect before
changes nothing. -/
theorem updateProfile_atomic_iff (s : ProfileStores) (user : Option UserDTO)
    (profile : Option UserProfileUpdateDTO) (token : Option String) (faults : ℕ → Fault) :
    Atomic s user profile token faults ↔ ∀ p ∈ NewProfile.of user profile,
      (AllAnswered faults s 0 (profileCalls s p token) →
        s.tbUser p.userId ≠ none ∧ varchar 255 (p.sentIcon.getD "") = some p.icon) ∧
      (¬ AllAnswered faults s 0 (profileCalls s p token) →
        ∀ c ∈ effective faults s 0 (profileCalls s p token), s.apply c = s) := by
  cases hp : NewProfile.of user profile with
  | none =>
    obtain ⟨errorMsg, hrun⟩ := updateProfile_refuses ⟨s, 0⟩ faults token hp
    simp [Atomic, hrun]
  | some p =>
    have hnodup := nodup_parts_profileCalls s token p
    obtain ⟨rest, hrest⟩ := effective_prefix s faults 0 (profileCalls s p token)
    rw [← hrest, List.flatMap_append] at hnodup
    have hidle := Footprint.applyAll_eq_iff (f := ProfileStores.footprint) (s := s)
      hnodup.of_append_left
    obtain ⟨hstores, hok, herror⟩ := issues_updateProfile s faults token hp
    unfold Atomic
    by_cases hall : AllAnswered faults s 0 (profileCalls s p token)
    · rw [effective_of_allAnswered hall] at hstores
      simp [hok hall, hp, hstores, hall, carries_iff (checked_of_checkProfile hp) hall]
    · obtain ⟨e, he⟩ := herror hall
      simp only [he, hstores, hall, hidle, Option.mem_some_iff, forall_eq', false_imp_iff,
        not_false_eq_true, true_imp_iff, true_and]
      rfl

end

def oldStores : ProfileStores where
  tbUser userId := if userId = 1 then some ⟨some "a", some ""⟩ else none
  tbUserInfo _ := none
  sessions _ := ⟨some 1, some "a", some ""⟩
  keyed _ _ h := by cases h

/-- A profile whose city is one character longer than its column. -/
def longCity : UserProfileUpdateDTO where
  nickName := some "b"
  icon := none
  introduce := none
  gender := none
  city := some (String.ofList (List.replicate 65 'c'))
  birthday := none

theorem Atomic.stores_eq {s : ProfileStores} {user : Option UserDTO}
    {profile : Option UserProfileUpdateDTO} {token : Option String} {faults : ℕ → Fault}
    {e : Failure} (h : Atomic s user profile token faults)
    (herror : ((updateProfile profile token).run (ProfileRun.answer user faults) ⟨s, 0⟩).1 =
      .error e) :
    ((updateProfile profile token).run (ProfileRun.answer user faults) ⟨s, 0⟩).2.stores = s := by
  simpa only [Atomic, herror] using h

/-- The new nickname is stored, and then the row of `tb_user_info` is rejected. -/
theorem updateProfile_stores_half :
    ¬ ∀ (s : ProfileStores) (user : Option UserDTO) (profile : Option UserProfileUpdateDTO)
      (token : Option String) (faults : ℕ → Fault), Atomic s user profile token faults := by
  intro h
  have herror : ((updateProfile (some longCity) (some "t")).run (ProfileRun.answer
      (some ⟨some 1, some "a", some ""⟩) fun _ => .none) ⟨oldStores, 0⟩).1 =
      .error "Data too long for column" := by
    decide +kernel
  have hrow : ((updateProfile (some longCity) (some "t")).run (ProfileRun.answer
      (some ⟨some 1, some "a", some ""⟩) fun _ => .none) ⟨oldStores, 0⟩).2.stores.tbUser 1 =
      some ⟨some "b", some ""⟩ := by
    decide +kernel
  rw [(h oldStores _ _ _ _).stores_eq herror] at hrow
  exact absurd hrow (by decide)

end HmDianPing.Login
