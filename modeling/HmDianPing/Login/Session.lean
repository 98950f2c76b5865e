import HmDianPing.Interleaving.Program
import Mathlib.Algebra.GroupWithZero.Nat
import Mathlib.Data.Int.Order.Basic

/-! # Login sessions

A session is a hash under `login:token:{token}`. The interceptors read it, a login
writes it, a logout deletes it, and an update of the profile writes two of its
fields.
-/
namespace HmDianPing.Login
open Interleaving Program

abbrev Long := ℤ

/-- An exception, as what `toString` makes of it. -/
abbrev Failure := String

structure UserDTO where
  id : Option Long
  nickName : Option String
  icon : Option String
deriving DecidableEq

/-- The fields of a session; the id is kept as what its text spells. -/
structure UserMap where
  id : Option Long
  nickName : Option String
  icon : Option String
deriving DecidableEq

namespace UserMap

/-- The key does not exist. -/
def empty : UserMap := ⟨none, none, none⟩

def isEmpty (m : UserMap) : Bool := m = empty

/-- `BeanUtil.fillBeanWithMap(userMap, new UserDTO(), false)`. -/
def toUserDTO (m : UserMap) : UserDTO := ⟨m.id, m.nickName, m.icon⟩

end UserMap

def UserDTO.toUserMap (u : UserDTO) : UserMap := ⟨u.id, u.nickName, u.icon⟩

/-- `CharUtil.isBlankChar` of Hutool 5.7.17. -/
def isBlankChar (c : Char) : Bool :=
  c.toNat ≤ 0x20 ∧ (c.toNat = 0 ∨ 0x9 ≤ c.toNat ∧ c.toNat ≤ 0xD ∨ 0x1C ≤ c.toNat) ∨
    c.toNat ∈ [0xA0, 0x1680, 0x180E, 0x2028, 0x2029, 0x202A, 0x202F, 0x205F, 0x3000, 0xFEFF] ∨
    0x2000 ≤ c.toNat ∧ c.toNat ≤ 0x200A

def isBlank : Option String → Bool
  | none => true
  | some s => s.toList.all isBlankChar

def trim (s : String) : String :=
  String.ofList (((s.toList.dropWhile isBlankChar).reverse.dropWhile isBlankChar).reverse)

/-- `String.length()`, which counts UTF-16 units. -/
def utf16Length (s : String) : ℕ :=
  (s.toList.map fun c => if c.toNat < 0x10000 then 1 else 2).sum

/-- The columns of `tb_user_info`; the level is a number there and a `Boolean` in the entity. -/
structure UserInfoOf (Level : Type) where
  userId : Long
  city : Option String
  introduce : Option String
  fans : Option ℤ
  followee : Option ℤ
  gender : Option Bool
  birthday : Option String
  credits : Option ℤ
  level : Option Level
deriving DecidableEq

abbrev UserInfo := UserInfoOf Bool

abbrev UserInfoRow := UserInfoOf UInt8

def UserInfo.new (userId : Long) : UserInfo :=
  ⟨userId, none, none, none, none, none, none, none, none⟩

/-- An inserted row: the columns that are not given take their defaults. -/
def UserInfo.withDefaults (info : UserInfo) : UserInfoRow where
  userId := info.userId
  city := info.city <|> some ""
  introduce := info.introduce
  fans := info.fans <|> some 0
  followee := info.followee <|> some 0
  gender := info.gender <|> some false
  birthday := info.birthday
  credits := info.credits <|> some 0
  level := info.level.map Bool.toUInt8 <|> some 0

def UserInfoRow.updatedBy (row : UserInfoRow) (info : UserInfo) : UserInfoRow where
  userId := row.userId
  city := info.city <|> row.city
  introduce := info.introduce <|> row.introduce
  fans := info.fans <|> row.fans
  followee := info.followee <|> row.followee
  gender := info.gender <|> row.gender
  birthday := info.birthday <|> row.birthday
  credits := info.credits <|> row.credits
  level := info.level.map Bool.toUInt8 <|> row.level

/-- The entity that `getById` makes of a row: every level but 0 is `TRUE`. -/
def UserInfoRow.entity (row : UserInfoRow) : UserInfo :=
  { row with level := row.level.map (· ≠ 0) }

structure UserProfileUpdateDTO where
  nickName : Option String
  icon : Option String
  introduce : Option String
  gender : Option Bool
  city : Option String
  birthday : Option String

inductive ProfileField where
  | nickName | icon
deriving DecidableEq

inductive LoginCommand where
  | entries (token : String)
  | expire (token : String)
  | delete (token : String)
  | putAll (token : String) (userMap : UserMap)
  | put (token : String) (field : ProfileField) (value : String)
  | saveUser (user : UserDTO)
  | getUser
  | removeUser
  | updateUser (userId : Long) (nickName icon : String)
  | getInfoById (userId : Long)
  | saveInfo (info : UserInfo)
  | updateInfoById (info : UserInfo)

abbrev LoginCommand.Reply : LoginCommand → Type
  | .entries _ => UserMap
  | .getUser => Option UserDTO
  | .getInfoById _ => Option UserInfo
  | _ => Unit

abbrev LoginProgram := Program LoginCommand LoginCommand.Reply Failure

/-- `RefreshTokenInterceptor.preHandle`. -/
def refreshPreHandle (token : Option String) : LoginProgram Bool := do
  if isBlank token then
    return true
  let key := token.getD ""
  let userMap ← perform (LoginCommand.entries key)
  if userMap.isEmpty then
    return true
  perform (LoginCommand.saveUser userMap.toUserDTO)
  perform (LoginCommand.expire key)
  return true

/-- `LoginInterceptor.preHandle`. -/
def loginPreHandle : LoginProgram Bool := do
  let user ← perform LoginCommand.getUser
  return user ≠ none

/-- What a handler answers; the data of a success is left out. -/
inductive Result where
  | ok
  | fail (errorMsg : String)
deriving DecidableEq

/-- `login`, from where the user is known and the token is generated. -/
def login (token : String) (user : UserDTO) : LoginProgram Result := do
  perform (LoginCommand.putAll token user.toUserMap)
  perform (LoginCommand.expire token)
  return .ok

def logout (token : Option String) : LoginProgram Result := do
  if isBlank token then
    return .ok
  perform (LoginCommand.delete (token.getD ""))
  perform LoginCommand.removeUser
  return .ok

def saveOrUpdateInfo (info : UserInfo) : LoginProgram Unit := do
  let found ← perform (LoginCommand.getInfoById info.userId)
  if found = none then perform (LoginCommand.saveInfo info)
  else perform (LoginCommand.updateInfoById info)

def putProfile (token : Option String) (nickName : String) (icon : Option String) :
    LoginProgram Unit := do
  if isBlank token then
    return ()
  let tokenKey := token.getD ""
  perform (LoginCommand.put tokenKey .nickName nickName)
  perform (LoginCommand.put tokenKey .icon (icon.getD ""))
  perform (LoginCommand.expire tokenKey)

def checkProfile (profile : Option UserProfileUpdateDTO) :
    Except String (UserProfileUpdateDTO × String × Option String) := do
  match profile with
  | none => throw "资料不能为空"
  | some profile =>
    let nickName := (profile.nickName.map trim).getD ""
    if isBlank (some nickName) then
      throw "昵称不能为空"
    if utf16Length nickName > 32 then
      throw "昵称不能超过32个字符"
    let introduce := profile.introduce.map trim
    if utf16Length (introduce.getD "") > 128 then
      throw "个人介绍不能超过128个字符"
    return (profile, nickName, introduce)

def updateProfile (profile : Option UserProfileUpdateDTO) (token : Option String) :
    LoginProgram Result := do
  let currentUser ← perform LoginCommand.getUser
  match currentUser.bind UserDTO.id with
  | none => return .fail "请先登录"
  | some userId =>
    match checkProfile profile with
    | .error errorMsg => return .fail errorMsg
    | .ok (profile, nickName, introduce) =>
      let icon := if isBlank profile.icon then none else profile.icon
      -- a new `User` has an empty icon, which `updateById` writes like any other
      perform (LoginCommand.updateUser userId nickName (icon.getD ""))
      let found ← perform (LoginCommand.getInfoById userId)
      saveOrUpdateInfo { found.getD (.new userId) with
        city := if isBlank (profile.city.map trim) then some "广州" else profile.city.map trim
        introduce := introduce
        gender := profile.gender
        birthday := profile.birthday }
      let icon := icon <|> currentUser.bind UserDTO.icon
      putProfile token nickName icon
      perform (LoginCommand.saveUser ⟨some userId, some nickName, icon⟩)
      return .ok

end HmDianPing.Login
