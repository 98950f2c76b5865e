import HmDianPing.Login.Session
import HmDianPing.Social.Likes

/-! # Follows, their counters and their set

A follow is one transaction: it checks the relation, writes it, moves two counters
and then writes the set in Redis, before the commit. Beside the transactions
`updateProfile` reads a row of `tb_user_info` and later writes back all of it. A
statement waits while another open transaction holds what it needs.
-/
namespace HmDianPing.Social
open Interleaving Program
open Login (UserInfo UserInfoOf UserInfoRow UserDTO LoginCommand UserProfileUpdateDTO)

/-- A counter of `tb_user_info`. -/
inductive Counter where
  | fans | followee
deriving DecidableEq

def Counter.get {Level : Type} (info : UserInfoOf Level) : Counter → Option ℤ
  | .fans => info.fans
  | .followee => info.followee

def Counter.modify (counter : Counter) (g : Option ℤ → Option ℤ) (info : UserInfoRow) :
    UserInfoRow :=
  match counter with
  | .fans => { info with fans := g info.fans }
  | .followee => { info with followee := g info.followee }

theorem Counter.userId_modify (counter : Counter) (g : Option ℤ → Option ℤ) (info : UserInfoRow) :
    (counter.modify g info).userId = info.userId := by
  cases counter <;> rfl

/-- What `follow` calls. -/
inductive FollowStatement where
  | count (userId followUserId : Long)
  | save (userId followUserId : Long)
  | remove (userId followUserId : Long)
  | getInfoById (userId : Long)
  | saveInfo (info : UserInfo)
  | increment (counter : Counter) (userId : Long)
  | decrement (counter : Counter) (userId : Long)
  | sadd (userId followUserId : Long)
  | srem (userId followUserId : Long)

abbrev FollowStatement.Reply : FollowStatement → Type
  | .count _ _ => ℕ
  | .save _ _ => Bool
  | .remove _ _ => Bool
  | .getInfoById _ => Option UserInfo
  | _ => Unit

abbrev FollowProgram := Program FollowStatement FollowStatement.Reply Failure

section Service
variable (userId followUserId : Long)

def ensureUserInfo : FollowProgram Unit := do
  let found ← perform (FollowStatement.getInfoById userId)
  if found ≠ none then
    return ()
  perform (FollowStatement.saveInfo (.new userId))

def incrementFans : FollowProgram Unit := perform (FollowStatement.increment .fans userId)

def decrementFans : FollowProgram Unit := perform (FollowStatement.decrement .fans userId)

def incrementFollowee : FollowProgram Unit := perform (FollowStatement.increment .followee userId)

def decrementFollowee : FollowProgram Unit := perform (FollowStatement.decrement .followee userId)

/-- The first branch of `follow`, from the insertion on. -/
def addFollow : FollowProgram Unit := do
  let isSuccess ← perform (FollowStatement.save userId followUserId)
  if isSuccess = false then
    return ()
  ensureUserInfo userId
  ensureUserInfo followUserId
  incrementFollowee userId
  incrementFans followUserId
  perform (FollowStatement.sadd userId followUserId)

/-- The second branch of `follow`, from the deletion on. -/
def removeFollow : FollowProgram Unit := do
  let isSuccess ← perform (FollowStatement.remove userId followUserId)
  if isSuccess = false then
    return ()
  decrementFollowee userId
  decrementFans followUserId
  perform (FollowStatement.srem userId followUserId)

def follow (isFollow : Bool) : FollowProgram Unit := do
  let count ← perform (FollowStatement.count userId followUserId)
  if isFollow = true then
    if count > 0 then
      return ()
    addFollow userId followUserId
  else
    if count = 0 then
      return ()
    removeFollow userId followUserId

end Service

/-- The rows of `tb_follow` as pairs, there is no key on them, and `tb_user_info` by its key. -/
structure FollowTables where
  tbFollow : List (Long × Long)
  tbUserInfo : Long → Option UserInfoRow
  keyed : ∀ userId info, tbUserInfo userId = some info → info.userId = userId

inductive FollowWrite where
  | insert (pair : Long × Long)
  | delete (pair : Long × Long)
  | saveInfo (info : UserInfo)
  | updateInfo (info : UserInfo)
  | increment (counter : Counter) (userId : Long)
  | decrement (counter : Counter) (userId : Long)
deriving DecidableEq

namespace FollowWrite

def userInfo : FollowWrite → Option Long
  | .saveInfo info | .updateInfo info => some info.userId
  | .increment _ userId | .decrement _ userId => some userId
  | _ => none

/-- Two writes that need the same row; two insertions of a pair are two rows. -/
def Locks : FollowWrite → FollowWrite → Prop
  | .insert p, .delete q | .delete p, .insert q | .delete p, .delete q => p = q
  | a, b => ∃ userId ∈ a.userInfo, userId ∈ b.userInfo

instance : (a b : FollowWrite) → Decidable (a.Locks b) := by
  intro a b
  cases a <;> cases b <;> unfold Locks <;> infer_instance

end FollowWrite

namespace FollowTables
variable (t : FollowTables)

def setInfo (userId : Long) (info : Option UserInfoRow) (h : ∀ row ∈ info, row.userId = userId) :
    FollowTables where
  tbFollow := t.tbFollow
  tbUserInfo := Function.update t.tbUserInfo userId info
  keyed x row hrow := by
    by_cases hx : x = userId
    · subst hx
      exact h row (by simpa using hrow)
    · exact t.keyed x row (by simpa [hx] using hrow)

def updateRow (userId : Long) (g : UserInfoRow → UserInfoRow)
    (h : ∀ row, (g row).userId = row.userId) : FollowTables :=
  t.setInfo userId ((t.tbUserInfo userId).map g) fun row hrow => by
    obtain ⟨old, hold, rfl⟩ := Option.map_eq_some_iff.mp hrow
    exact (h old).trans (t.keyed userId old hold)

def write : FollowWrite → FollowTables
  | .insert pair => { t with tbFollow := pair :: t.tbFollow }
  | .delete pair => { t with tbFollow := t.tbFollow.filter fun p => p ≠ pair }
  | .saveInfo info =>
    if t.tbUserInfo info.userId = none then
      t.setInfo info.userId (some (UserInfo.withDefaults info)) fun row hrow => by cases hrow; rfl
    else t
  | .updateInfo info =>
    t.updateRow info.userId (fun row => UserInfoRow.updatedBy row info) fun _ => rfl
  | .increment counter userId =>
    t.updateRow userId (counter.modify fun n => some (n.getD 0 + 1))
      (counter.userId_modify _)
  | .decrement counter userId =>
    t.updateRow userId (counter.modify fun n => if n.getD 0 > 0 then n.map (· - 1) else some 0)
      (counter.userId_modify _)

def writeAll (writes : List FollowWrite) : FollowTables := writes.foldl write t

def answer : (s : FollowStatement) → Except Failure s.Reply
  | .count userId followUserId => .ok (t.tbFollow.count (userId, followUserId))
  | .save _ _ => .ok true
  | .remove userId followUserId => .ok (decide ((userId, followUserId) ∈ t.tbFollow))
  | .getInfoById userId => .ok ((t.tbUserInfo userId).map UserInfoRow.entity)
  | .saveInfo info =>
    if t.tbUserInfo info.userId = none then .ok ()
    else .error "org.springframework.dao.DuplicateKeyException"
  | .increment counter userId =>
    if ∀ row ∈ t.tbUserInfo userId, (counter.get row).getD 0 + 1 ≤ maxUnsigned then .ok ()
    else .error "com.mysql.cj.jdbc.exceptions.MysqlDataTruncation"
  | .decrement _ _ => .ok ()
  | .sadd _ _ => .ok ()
  | .srem _ _ => .ok ()

end FollowTables

def FollowStatement.writes : (s : FollowStatement) → s.Reply → List FollowWrite
  | .save userId followUserId, true => [.insert (userId, followUserId)]
  | .remove userId followUserId, true => [.delete (userId, followUserId)]
  | .saveInfo info, _ => [.saveInfo info]
  | .increment counter userId, _ => [.increment counter userId]
  | .decrement counter userId, _ => [.decrement counter userId]
  | _, _ => []

/-- What a statement makes of the sets `follows:{userId}`. -/
def FollowStatement.publish (follows : Long → Finset Long) : FollowStatement → Long → Finset Long
  | .sadd userId followUserId =>
    Function.update follows userId (insert followUserId (follows userId))
  | .srem userId followUserId =>
    Function.update follows userId ((follows userId).erase followUserId)
  | _ => follows

/-- The statement is a write to Redis. -/
def FollowStatement.publishes : FollowStatement → Bool
  | .sadd _ _ | .srem _ _ => true
  | _ => false

/-- A transaction that has not ended. -/
structure OpenFollow where
  writes : List FollowWrite
  /-- History: it has written to Redis. -/
  published : Bool

def OpenFollow.after (o : OpenFollow) (s : FollowStatement) (a : s.Reply) : OpenFollow :=
  ⟨o.writes ++ s.writes a, o.published || s.publishes⟩

structure FollowWorld where
  /-- What is committed. -/
  tables : FollowTables
  opened : ℕ → Option OpenFollow
  follows : Long → Finset Long
  nextTx : ℕ

/-- What the proxy around `follow` sends over its connection, and the commands of `updateProfile`,
whose statements are committed one by one. -/
inductive FollowCommand where
  | start (tx : ℕ)
  | statement (tx : ℕ) (s : FollowStatement)
  | commit (tx : ℕ)
  | rollback (tx : ℕ)
  | profile (tx : ℕ) (user : Option UserDTO) (command : LoginCommand)

abbrev FollowCommand.Reply : FollowCommand → Type
  | .statement _ s => s.Reply
  | .profile _ _ command => command.Reply
  | _ => Unit

inductive FollowChoice where
  | performed
  | fails (e : Failure)

namespace FollowWorld

def start (tables : FollowTables) (follows : Long → Finset Long) : FollowWorld :=
  ⟨tables, fun _ => none, follows, 0⟩

variable (w : FollowWorld)

/-- Another open transaction holds what the writes need. -/
def Waits (tx : ℕ) (writes : List FollowWrite) : Prop :=
  ∃ other < w.nextTx, other ≠ tx ∧
    ∃ o ∈ w.opened other, ∃ a ∈ o.writes, ∃ b ∈ writes, a.Locks b

instance (tx : ℕ) (writes : List FollowWrite) : Decidable (w.Waits tx writes) :=
  inferInstanceAs (Decidable (∃ other < w.nextTx, _))

def setOpened (tx : ℕ) (o : Option OpenFollow) : FollowWorld :=
  { w with opened := Function.update w.opened tx o }

@[simp] theorem follows_setOpened (tx : ℕ) (o : Option OpenFollow) :
    (w.setOpened tx o).follows = w.follows := rfl

def statement (tx : ℕ) (s : FollowStatement) : Option (Except Failure s.Reply × FollowWorld) :=
  (w.opened tx).bind fun o =>
    match (w.tables.writeAll o.writes).answer s with
    | .error e => some (.error e, w)
    | .ok a =>
      if w.Waits tx (s.writes a) then none
      else some (.ok a, { w.setOpened tx (some (o.after s a)) with follows := s.publish w.follows })

def commit (tx : ℕ) : Option FollowWorld :=
  (w.opened tx).map fun o => { w.setOpened tx none with tables := w.tables.writeAll o.writes }

/-- A statement outside a transaction. -/
def autocommit (tx : ℕ) (x : FollowWrite) : Option (Except Failure Unit × FollowWorld) :=
  if w.Waits tx [x] then none else some (.ok (), { w with tables := w.tables.write x })

/-- A command of `updateProfile`; what it does outside `tb_user_info` is left out. -/
def profile (tx : ℕ) (user : Option UserDTO) :
    (c : LoginCommand) → Option (Except Failure c.Reply × FollowWorld)
  | .getUser => some (.ok user, w)
  | .getInfoById userId => some (.ok ((w.tables.tbUserInfo userId).map UserInfoRow.entity), w)
  | .saveInfo info =>
    if w.tables.tbUserInfo info.userId = none then w.autocommit tx (.saveInfo info)
    else some (.error "org.springframework.dao.DuplicateKeyException", w)
  | .updateInfoById info => w.autocommit tx (.updateInfo info)
  | .entries _ => some (.ok .empty, w)
  | .expire _ => some (.ok (), w)
  | .delete _ => some (.ok (), w)
  | .putAll _ _ => some (.ok (), w)
  | .put _ _ _ => some (.ok (), w)
  | .saveUser _ => some (.ok (), w)
  | .removeUser => some (.ok (), w)
  | .updateUser _ _ _ => some (.ok (), w)

def exec : (c : FollowCommand) → FollowChoice → FollowWorld →
    Option (Except Failure c.Reply × FollowWorld)
  | .start tx, .performed, w => some (.ok (), w.setOpened tx (some ⟨[], false⟩))
  | .statement tx s, .performed, w => w.statement tx s
  | .commit tx, .performed, w => (w.commit tx).map fun w' => (.ok (), w')
  | .commit tx, .fails e, w => some (.error e, w.setOpened tx none)
  | .rollback tx, _, w => some (.ok (), w.setOpened tx none)
  | .profile tx user command, .performed, w => w.profile tx user command
  | _, .fails e, w => some (.error e, w)

end FollowWorld

/-- What the transactional proxy does around `follow`. -/
def transactional (tx : ℕ) (body : FollowProgram Unit) :
    Program FollowCommand FollowCommand.Reply Failure Unit := do
  perform (FollowCommand.start tx)
  try
    lift (FollowCommand.statement tx) body
  catch e =>
    perform (FollowCommand.rollback tx)
    throw e
  perform (FollowCommand.commit tx)

inductive FollowRequest where
  | follow (userId followUserId : Long) (isFollow : Bool)
  | updateProfile (user : Option UserDTO) (profile : Option UserProfileUpdateDTO)
      (token : Option String)

structure FollowTag where
  tx : ℕ
  request : FollowRequest

def FollowRequest.run (tx : ℕ) :
    FollowRequest → Program FollowCommand FollowCommand.Reply Failure Unit
  | .follow userId followUserId isFollow => transactional tx (Social.follow userId followUserId isFollow)
  | .updateProfile user profile token => do
    let _ ← (Login.updateProfile profile token).lift (FollowCommand.profile tx user)
    return ()

/-- Requests of any users over the same tables and sets. -/
def followRequests : Machine FollowWorld FollowCommand FollowCommand.Reply Failure FollowTag
    FollowChoice FollowRequest where
  exec := FollowWorld.exec
  act request w := some ({ w with nextTx := w.nextTx + 1 },
    [⟨⟨w.nextTx, request⟩, request.run w.nextTx⟩])

abbrev FollowPool := Config FollowWorld FollowCommand FollowCommand.Reply Failure FollowTag

end HmDianPing.Social
