import HmDianPing.Interleaving.Machine
import Mathlib.Logic.Function.Basic

/-! # The cached row of one shop

Every instance keeps the row in a Caffeine cache of its own; all share one Redis
key. A row carries the number of the commit that wrote it, which no program reads.
Caffeine's `get` is atomic for the key, so a load holds the key until it ends.
-/
namespace HmDianPing.Cache
open Interleaving Program

/-- A value and the commit it stems from. -/
structure Versioned (α : Type) where
  version : ℕ
  value : α

inductive RedisText (Shop : Type) where
  | blank
  | json (shop : Shop)
  /-- Text that is no shop, a shop without an id, or one whose decoding throws. -/
  | malformed

inductive CacheCmd (Shop : Type) where
  | getIfPresent
  /-- Caffeine's `get`: the value that is present, or none and the key is held for the loader. -/
  | computeBegin
  /-- The loader's value is stored, unless it is null, and the key released. -/
  | computeEnd (loaded : Option (Versioned Shop))
  | computeAbort
  | put (shop : Versioned Shop)
  | invalidate
  | redisGet
  | redisSet (text : Versioned (RedisText Shop))
  | redisDelete
  | dbFallback
  | send

abbrev CacheCmd.Reply {Shop : Type} : CacheCmd Shop → Type
  | .getIfPresent => Option (Versioned Shop)
  | .computeBegin => Option (Versioned Shop)
  | .redisGet => Option (Versioned (RedisText Shop))
  | .dbFallback => Versioned (Option Shop)
  | _ => Unit

abbrev CacheProgram (Shop : Type) := Program (CacheCmd Shop) CacheCmd.Reply String

/-- Only `dbFallback` throws. -/
def Foreseen {Shop : Type} : (c : CacheCmd Shop) → Except String c.Reply → Prop
  | .dbFallback, _ => True
  | _, .ok _ => True
  | _, .error _ => False

/-- The outcome of a call whose exception is caught. -/
def attempt {Shop α : Type} (p : CacheProgram Shop α) : CacheProgram Shop (Except String α) :=
  tryCatch (do
    let a ← p
    return .ok a) fun e => pure (.error e)

section Programs
variable {Shop : Type}

@[simp] theorem run_attempt {S α : Type}
    {answer : (c : CacheCmd Shop) → S → Except String c.Reply × S} (p : CacheProgram Shop α) (s : S) :
    (attempt p).run answer s = (.ok (p.run answer s).1, (p.run answer s).2) := by
  rw [attempt, run_tryCatch, run_bind]
  rcases p.run answer s with ⟨r | r, s'⟩ <;> rfl

def Versioned.shop (row : Versioned (Option Shop)) : Option (Versioned Shop) :=
  row.value.map fun shop => ⟨row.version, shop⟩

/-- The end of `queryRedisAndDb`, when Redis has no answer. -/
def loadFromDb : CacheProgram Shop (Option (Versioned Shop)) := do
  let row ← perform CacheCmd.dbFallback
  match row.value with
  | none =>
    let _ ← attempt (perform (.redisSet ⟨row.version, .blank⟩))
    return none
  | some shop =>
    let _ ← attempt (perform (.redisSet ⟨row.version, .json shop⟩))
    return some ⟨row.version, shop⟩

def queryRedisAndDb : CacheProgram Shop (Option (Versioned Shop)) := do
  let json ← attempt (perform CacheCmd.redisGet)
  match json with
  | .ok (some ⟨version, .json shop⟩) => return some ⟨version, shop⟩
  | .ok (some ⟨_, .malformed⟩) =>
    let _ ← attempt (perform CacheCmd.redisDelete)
    loadFromDb
  | .ok (some ⟨_, .blank⟩) => return none
  | _ => loadFromDb

def loadAndCacheBestEffort : CacheProgram Shop (Option (Versioned Shop)) := do
  let loaded ← queryRedisAndDb
  match loaded with
  | none => return none
  | some shop =>
    let _ ← attempt (perform (.put shop))
    return some shop

/-- `shopLocalCache.get` with its loader, and what `queryShopById` makes of its exceptions. -/
def getOrLoad : CacheProgram Shop (Option (Versioned Shop)) := do
  let present ← attempt (perform CacheCmd.computeBegin)
  match present with
  | .error _ => queryRedisAndDb
  | .ok (some shop) => return some shop
  | .ok none =>
    let loaded ← attempt queryRedisAndDb
    match loaded with
    | .error e =>
      let aborted ← attempt (perform CacheCmd.computeAbort)
      match aborted with
      | .ok _ => throw e
      | .error _ => queryRedisAndDb
    | .ok loaded =>
      let stored ← attempt (perform (.computeEnd loaded))
      match stored, loaded with
      | .error _, none => queryRedisAndDb
      | _, loaded => return loaded

def queryShopById (shopLocalCacheEnabled : Bool) : CacheProgram Shop (Option (Versioned Shop)) := do
  if shopLocalCacheEnabled = false then
    queryRedisAndDb
  else
    let present ← attempt (perform CacheCmd.getIfPresent)
    match present with
    | .error _ => loadAndCacheBestEffort
    | .ok (some shop) => return some shop
    | .ok none => getOrLoad

/-- `ShopCacheService.invalidateLocal`. -/
def invalidateLocal : CacheProgram Shop Unit := perform CacheCmd.invalidate

def throwFailures (message : String) (steps : List (Except String Unit)) : CacheProgram Shop Unit :=
  if steps.all fun s => s.isOk then pure () else throw message

/-- `CacheInvalidatePublisher.invalidateShop`. -/
def invalidateShop : CacheProgram Shop Unit := do
  let deleted ← attempt (perform CacheCmd.redisDelete)
  let cleared ← attempt invalidateLocal
  let sent ← attempt (perform CacheCmd.send)
  throwFailures "商户缓存失效存在失败步骤" [deleted, cleared, sent]

/-- `CacheInvalidateConsumer.onCacheInvalidate`. -/
def onCacheInvalidate (cacheName : String) : CacheProgram Shop Unit := do
  if cacheName ≠ "shop" then
    return ()
  let deleted ← attempt (perform CacheCmd.redisDelete)
  let cleared ← attempt invalidateLocal
  throwFailures "消费端商户缓存失效失败" [deleted, cleared]

end Programs

/-- One `invalidateShop` of the outbox event of an update. -/
structure Invalidation where
  serial : ℕ
  update : ℕ
  stage : ℕ
deriving DecidableEq

inductive Purpose where
  | query
  | publish (k : Invalidation)
  | consume (k : Invalidation)
deriving DecidableEq

structure Caller (Inst : Type) where
  serial : ℕ
  inst : Inst
  purpose : Purpose

structure CacheCall (Shop Inst : Type) where
  caller : Caller Inst
  cmd : CacheCmd Shop

abbrev CacheCall.Reply {Shop Inst : Type} (c : CacheCall Shop Inst) : Type := c.cmd.Reply

/-- What a handler is in the middle of. -/
structure Progress where
  /-- It holds the Caffeine key of its instance. -/
  locked : Bool
  /-- The version Redis or MySQL last gave it. -/
  source : Option ℕ
  /-- The version it has read from MySQL and not yet set in Redis. -/
  unset : Option ℕ
  /-- It has deleted the Redis key. -/
  deleted : Bool

def Progress.start : Progress := ⟨false, none, none, false⟩

def Progress.after {Shop : Type} (p : Progress) :
    (c : CacheCmd Shop) → Except String c.Reply → Progress
  | .computeBegin, .ok none => { p with locked := true, source := none }
  | .computeEnd _, _ => { p with locked := false }
  | .computeAbort, _ => { p with locked := false }
  | .redisGet, .ok (some text) => { p with source := some text.version }
  | .dbFallback, .ok row => { p with source := some row.version, unset := some row.version }
  | .redisSet _, _ => { p with unset := none }
  | .redisDelete, .ok _ => { p with deleted := true }
  | _, _ => p

structure CacheWorld (Shop Inst : Type) where
  /-- The commits so far; the outbox event of update `n` exists from commit `n` on. -/
  version : ℕ
  row : Option Shop
  redis : Option (Versioned (RedisText Shop))
  caffeine : Inst → Option (Versioned Shop)
  /-- A load holds the key of this instance. -/
  held : Inst → Bool
  queues : Inst → List Invalidation
  nextSerial : ℕ
  /-- History: the progress of every handler. -/
  progress : ℕ → Progress
  /-- History: the invalidations whose worker has deleted the Redis key. -/
  deleted : List Invalidation
  /-- History: the instances that have handled an invalidation. -/
  handled : List (Invalidation × Inst)

section World
variable {Shop Inst : Type} [DecidableEq Inst]

/-- Calls on the caches and the broker succeed; `dbFallback` may fail. -/
inductive CacheChoice where
  | performed
  | databaseFails (e : String)

namespace CacheWorld

/-- The stores after a call that is performed; none while a load makes it wait. -/
def answer (w : CacheWorld Shop Inst) (i : Inst) :
    (c : CacheCmd Shop) → Option (c.Reply × CacheWorld Shop Inst)
  | .getIfPresent => some (w.caffeine i, w)
  | .computeBegin =>
    if w.held i then none
    else match w.caffeine i with
      | some shop => some (some shop, w)
      | none => some (none, { w with held := Function.update w.held i true })
  | .computeEnd loaded => some ((), { w with
      caffeine := Function.update w.caffeine i loaded
      held := Function.update w.held i false })
  | .computeAbort => some ((), { w with held := Function.update w.held i false })
  | .put shop => some ((), { w with caffeine := Function.update w.caffeine i (some shop) })
  | .invalidate =>
    if w.held i then none
    else some ((), { w with caffeine := Function.update w.caffeine i none })
  | .redisGet => some (w.redis, w)
  | .redisSet text => some ((), { w with redis := some text })
  | .redisDelete => some ((), { w with redis := none })
  | .dbFallback => some (⟨w.version, w.row⟩, w)
  | .send => some ((), w)

def record (w : CacheWorld Shop Inst) (c : CacheCall Shop Inst) (r : Except String c.Reply) :
    CacheWorld Shop Inst :=
  let after := (w.progress c.caller.serial).after c.cmd r
  let w' := { w with progress := Function.update w.progress c.caller.serial after }
  match c.caller.purpose, c.cmd with
  | .publish k, .redisDelete => { w' with deleted := k :: w.deleted }
  | .publish k, .invalidate => { w' with handled := (k, c.caller.inst) :: w.handled }
  | .consume k, .invalidate => { w' with handled := (k, c.caller.inst) :: w.handled }
  | .publish k, .send => { w' with queues := fun i => w.queues i ++ [k] }
  | _, _ => w'

def exec (c : CacheCall Shop Inst) :
    CacheChoice → CacheWorld Shop Inst → Option (Except String c.Reply × CacheWorld Shop Inst)
  | .performed, w => (w.answer c.caller.inst c.cmd).map fun p => (.ok p.1, p.2.record c (.ok p.1))
  | .databaseFails e, w => match c.cmd with
    | .dbFallback => some (.error e, w.record c (.error e))
    | _ => none

end CacheWorld

inductive CacheAction (Shop Inst : Type) where
  | update (row : Option Shop)
  | query (i : Inst) (shopLocalCacheEnabled : Bool)
  /-- A worker of this instance processes the outbox event of an update. -/
  | process (i : Inst) (update stage : ℕ)
  /-- A message is delivered; the broker may deliver it again. -/
  | deliver (i : Inst) (k : Invalidation) (again : Bool)
  | expireRedis
  | expireLocal (i : Inst)

namespace CacheWorld
variable (w : CacheWorld Shop Inst)

def spawn (i : Inst) (purpose : Purpose) (p : CacheProgram Shop Unit) :
    CacheWorld Shop Inst × List (Thread (CacheCall Shop Inst) CacheCall.Reply String (Caller Inst)) :=
  let caller : Caller Inst := ⟨w.nextSerial, i, purpose⟩
  ({ w with
      nextSerial := w.nextSerial + 1
      progress := Function.update w.progress w.nextSerial .start },
    [⟨caller, p.lift (CacheCall.mk caller)⟩])

def dequeue (i : Inst) (k : Invalidation) (again : Bool) : CacheWorld Shop Inst :=
  if again then w else { w with queues := Function.update w.queues i ((w.queues i).erase k) }

def act : CacheAction Shop Inst →
    Option (CacheWorld Shop Inst ×
      List (Thread (CacheCall Shop Inst) CacheCall.Reply String (Caller Inst)))
  | .update row => some ({ w with version := w.version + 1, row := row }, [])
  | .query i enabled => some (w.spawn i .query do let _ ← queryShopById enabled)
  | .process i update stage =>
    if update ≤ w.version then
      some (w.spawn i (.publish ⟨w.nextSerial, update, stage⟩) invalidateShop)
    else none
  | .deliver i k again =>
    if k ∈ w.queues i then
      some ((w.dequeue i k again).spawn i (.consume k) (onCacheInvalidate "shop"))
    else none
  | .expireRedis => some ({ w with redis := none }, [])
  | .expireLocal i => some ({ w with caffeine := Function.update w.caffeine i none }, [])

def start (version : ℕ) (row : Option Shop) (redis : Option (Versioned (RedisText Shop)))
    (caffeine : Inst → Option (Versioned Shop)) : CacheWorld Shop Inst where
  version := version
  row := row
  redis := redis
  caffeine := caffeine
  held _ := false
  queues _ := []
  nextSerial := 0
  progress _ := .start
  deleted := []
  handled := []

end CacheWorld

/-- Any number of instances with their loads, workers and consumers. -/
def shopCaches (Shop Inst : Type) [DecidableEq Inst] :
    Machine (CacheWorld Shop Inst) (CacheCall Shop Inst) CacheCall.Reply String (Caller Inst)
      CacheChoice (CacheAction Shop Inst) where
  exec := CacheWorld.exec
  act a w := w.act a

end World

section Exec
variable {Shop Inst : Type} {w w' : CacheWorld Shop Inst} {c : CacheCall Shop Inst}
  {r : Except String c.Reply}

namespace CacheWorld

@[simp] theorem record_version : (w.record c r).version = w.version := by
  unfold record; split <;> rfl

@[simp] theorem record_redis : (w.record c r).redis = w.redis := by
  unfold record; split <;> rfl

@[simp] theorem record_caffeine : (w.record c r).caffeine = w.caffeine := by
  unfold record; split <;> rfl

@[simp] theorem record_held : (w.record c r).held = w.held := by
  unfold record; split <;> rfl

@[simp] theorem record_progress : (w.record c r).progress = Function.update w.progress
    c.caller.serial ((w.progress c.caller.serial).after c.cmd r) := by
  unfold record; split <;> rfl

variable [DecidableEq Inst]

theorem answer_histories {i : Inst} {c : CacheCmd Shop} {a : c.Reply}
    (h : w.answer i c = some (a, w')) : w'.progress = w.progress ∧ w'.nextSerial = w.nextSerial ∧
      w'.deleted = w.deleted ∧ w'.handled = w.handled ∧ w'.queues = w.queues := by
  cases c with
  | computeBegin =>
    simp only [answer, Option.ite_none_left_eq_some] at h
    obtain ⟨-, h⟩ := h
    split at h <;> cases h <;> exact ⟨rfl, rfl, rfl, rfl, rfl⟩
  | invalidate =>
    simp only [answer, Option.ite_none_left_eq_some] at h
    cases h.2
    exact ⟨rfl, rfl, rfl, rfl, rfl⟩
  | _ => cases h; exact ⟨rfl, rfl, rfl, rfl, rfl⟩

theorem exec_cases {f : CacheChoice} (h : exec c f w = some (r, w')) :
    (∃ a w₁, w.answer c.caller.inst c.cmd = some (a, w₁) ∧ r = .ok a ∧ w' = w₁.record c r) ∨
      (c.cmd = .dbFallback ∧ (∃ e, r = .error e) ∧ w' = w.record c r) := by
  obtain ⟨caller, cmd⟩ := c
  cases f with
  | performed =>
    obtain ⟨⟨a, w₁⟩, ha, hp⟩ := Option.map_eq_some_iff.mp h
    cases hp
    exact .inl ⟨a, w₁, ha, rfl, rfl⟩
  | databaseFails e =>
    cases cmd with
    | dbFallback => cases h; exact .inr ⟨rfl, ⟨e, rfl⟩, rfl⟩
    | _ => cases h

theorem exec_foreseen {f : CacheChoice} (h : exec c f w = some (r, w')) : Foreseen c.cmd r := by
  rcases exec_cases h with ⟨a, w₁, -, rfl, -⟩ | ⟨hc, -⟩
  · obtain ⟨caller, cmd⟩ := c
    cases cmd <;> trivial
  · obtain ⟨caller, cmd⟩ := c
    cases hc
    trivial

end CacheWorld
end Exec

end HmDianPing.Cache
