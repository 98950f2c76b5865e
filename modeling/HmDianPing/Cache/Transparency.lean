import HmDianPing.Cache.ShopCache
import Mathlib.Data.List.Induction

/-! # The cache and the table, one request after another

Requests follow each other, and before the next one the outbox event of an update
has gone through both stages on every instance. What is left in the caches is then
the row, or a note in Redis that there is none; an update removes the note, an
insertion does not.
-/
namespace HmDianPing.Cache
open Interleaving Program

abbrev ShopId := ℤ

/-- What MySQL makes of a request body; none when it rejects the row. -/
structure ShopSql (Shop Body : Type) where
  inserted : ShopId → Body → Option Shop
  updated : Shop → Body → Option Shop

/-- Who works off the event of an update: a worker for each stage, and the instances that handle its
message, in their order. -/
structure Settlement (Inst : Type) where
  worker : Inst
  delayedWorker : Inst
  handlers : List Inst
  delayedHandlers : List Inst
  everyone : ∀ i, i ∈ handlers ∧ i ∈ delayedHandlers

/-- The requests, and the entries that expire between them. -/
inductive ShopOp (Body Inst : Type) where
  | get (i : Inst) (id : ShopId)
  /-- The id is the one that MySQL assigns. -/
  | post (id : ShopId) (body : Body)
  | put (id : Option ShopId) (body : Body) (settlement : Settlement Inst)
  | expireRedis (id : ShopId)
  | expireLocal (i : Inst) (id : ShopId)

inductive ShopResult (Shop : Type) where
  | ok (shop : Shop)
  | fail (errorMsg : String)
deriving DecidableEq

def ShopResult.ofRow {Shop : Type} : Option Shop → ShopResult Shop
  | none => .fail "商铺不存在"
  | some shop => .ok shop

def queryById {Shop : Type} (shopLocalCacheEnabled : Bool) : CacheProgram Shop (ShopResult Shop) := do
  let shop ← queryShopById shopLocalCacheEnabled
  match shop with
  | none => return .fail "商铺不存在"
  | some shop => return .ok shop.value

section Stack
variable {Shop Body Inst : Type} [DecidableEq Inst]

namespace CacheWorld

/-- A call of a handler that runs alone; only a call that found its own key held would wait. -/
def alone (i : Inst) (c : CacheCmd Shop) (w : CacheWorld Shop Inst) :
    Except String c.Reply × CacheWorld Shop Inst :=
  match w.answer i c with
  | some (a, w') => (.ok a, w')
  | none => (.error "waits", w)

def commit (w : CacheWorld Shop Inst) (row : Option Shop) : CacheWorld Shop Inst :=
  { w with version := w.version + 1, row := row }

/-- One stage of the event: the worker's invalidation, then every delivery of its message. -/
def invalidateEverywhere (w : CacheWorld Shop Inst) (worker : Inst) (handlers : List Inst) :
    CacheWorld Shop Inst :=
  handlers.foldl (fun w j => ((onCacheInvalidate "shop").run (alone j) w).2)
    (invalidateShop.run (alone worker) w).2

def settle (w : CacheWorld Shop Inst) (settlement : Settlement Inst) : CacheWorld Shop Inst :=
  (w.invalidateEverywhere settlement.worker settlement.handlers).invalidateEverywhere
    settlement.delayedWorker settlement.delayedHandlers

end CacheWorld

structure ShopStack (Shop Inst : Type) where
  shops : ShopId → CacheWorld Shop Inst
  /-- `AUTO_INCREMENT` of `tb_shop`. -/
  autoIncrement : ShopId

namespace ShopStack

def cold (rows : ShopId → Option Shop) (autoIncrement : ShopId) : ShopStack Shop Inst :=
  ⟨fun id => .start 0 (rows id) none fun _ => none, autoIncrement⟩

variable (s : ShopStack Shop Inst) (sql : ShopSql Shop Body) (shopLocalCacheEnabled : Bool)

def setShop (id : ShopId) (w : CacheWorld Shop Inst) : ShopStack Shop Inst :=
  { s with shops := Function.update s.shops id w }

def query (i : Inst) (id : ShopId) : Except String (ShopResult Shop) × CacheWorld Shop Inst :=
  (queryById shopLocalCacheEnabled).run (CacheWorld.alone i) (s.shops id)

def saveShop (id : ShopId) (body : Body) : ShopStack Shop Inst :=
  if s.autoIncrement ≤ id ∧ (s.shops id).row = none then
    match sql.inserted id body with
    | some shop => { s.setShop id ((s.shops id).commit (some shop)) with autoIncrement := id + 1 }
    | none => s
  else s

/-- `ShopServiceImpl.update`, and the work on its event; it throws when there is no row. -/
def update (id : Option ShopId) (body : Body) (settlement : Settlement Inst) : ShopStack Shop Inst :=
  match id with
  | none => s
  | some id =>
    match (s.shops id).row with
    | none => s
    | some old =>
      match sql.updated old body with
      | none => s
      | some shop => s.setShop id (((s.shops id).commit (some shop)).settle settlement)

def step (s : ShopStack Shop Inst) : ShopOp Body Inst → ShopStack Shop Inst
  | .get i id => s.setShop id (s.query shopLocalCacheEnabled i id).2
  | .post id body => s.saveShop sql id body
  | .put id body settlement => s.update sql id body settlement
  | .expireRedis id => s.setShop id { s.shops id with redis := none }
  | .expireLocal i id => s.setShop id
      { s.shops id with caffeine := Function.update (s.shops id).caffeine i none }

def run (ops : List (ShopOp Body Inst)) : ShopStack Shop Inst :=
  ops.foldl (step sql shopLocalCacheEnabled) s

end ShopStack

structure ShopTable (Shop : Type) where
  rows : ShopId → Option Shop
  autoIncrement : ShopId

namespace ShopTable

def step (sql : ShopSql Shop Body) (t : ShopTable Shop) : ShopOp Body Inst → ShopTable Shop
  | .post id body =>
    match sql.inserted id body with
    | some shop =>
      if t.autoIncrement ≤ id ∧ t.rows id = none then
        ⟨Function.update t.rows id (some shop), id + 1⟩
      else t
    | none => t
  | .put (some id) body _ =>
    match (t.rows id).bind fun old => sql.updated old body with
    | some shop => { t with rows := Function.update t.rows id (some shop) }
    | none => t
  | _ => t

def run (sql : ShopSql Shop Body) (t : ShopTable Shop) (ops : List (ShopOp Body Inst)) :
    ShopTable Shop :=
  ops.foldl (step sql) t

end ShopTable

end Stack

section Entries
variable {Shop Inst : Type} {w : CacheWorld Shop Inst}

/-- Redis holds the note that there is no row. -/
def CacheWorld.Blank (w : CacheWorld Shop Inst) : Prop := ∃ version, w.redis = some ⟨version, .blank⟩

/-- No load is running, and the caches hold the row, or a note in Redis alone. -/
structure CacheWorld.Faithful (w : CacheWorld Shop Inst) : Prop where
  free : ∀ i, w.held i = false
  caffeine : ∀ i shop, w.caffeine i = some shop → w.row = some shop.value
  json : ∀ version shop, w.redis = some ⟨version, .json shop⟩ → w.row = some shop
  wellFormed : ∀ version, w.redis ≠ some ⟨version, .malformed⟩
  blank : w.Blank → ∀ i, w.caffeine i = none

theorem CacheWorld.setRedis_self {text : Option (Versioned (RedisText Shop))} (h : w.redis = text) :
    { w with redis := text } = w := by
  subst h
  rfl

structure Queried (w : CacheWorld Shop Inst) (answer : Except String (ShopResult Shop))
    (w' : CacheWorld Shop Inst) : Prop where
  row : w'.row = w.row
  faithful : w'.Faithful
  blank : w'.Blank ↔ w.Blank ∨ w.row = none
  clean : ¬ w.Blank → answer = .ok (.ofRow w.row)
  noted : w.Blank → answer = .ok (.ofRow none)

theorem CacheWorld.Faithful.caffeine_eq_none (h : w.Faithful) (hnone : w.Blank ∨ w.row = none)
    (i : Inst) : w.caffeine i = none := by
  rcases hnone with hblank | hrow
  · exact h.blank hblank i
  · cases hcaffeine : w.caffeine i with
    | none => rfl
    | some shop =>
      have hsome := h.caffeine i shop hcaffeine
      rw [hrow] at hsome
      cases hsome

theorem queried_none (hnone : w.Blank ∨ w.row = none)
    (version : ℕ) {caffeine : Inst → Option (Versioned Shop)} {held : Inst → Bool}
    (hcaffeine : ∀ j, caffeine j = none) (hheld : ∀ j, held j = false) :
    Queried w (.ok (.ofRow none)) { w with
      redis := some ⟨version, .blank⟩, caffeine := caffeine, held := held } where
  row := rfl
  faithful := {
    free := hheld
    caffeine := fun j shop hshop => by
      have hempty : some shop = none := hshop.symm.trans (hcaffeine j)
      cases hempty
    json := fun version shop hredis => by cases hredis
    wellFormed := fun version hredis => by cases hredis
    blank := fun _ => hcaffeine }
  blank := ⟨fun _ => hnone, fun _ => ⟨version, rfl⟩⟩
  clean hblank := by rw [hnone.resolve_left hblank]
  noted _ := rfl

theorem queried_some {shop : Versioned Shop} (hblank : ¬ w.Blank)
    (hrow : w.row = some shop.value) {caffeine : Inst → Option (Versioned Shop)} {held : Inst → Bool}
    (hcaffeine : ∀ j shop, caffeine j = some shop → w.row = some shop.value)
    (hheld : ∀ j, held j = false) : Queried w (.ok (.ok shop.value)) { w with
      redis := some ⟨shop.version, .json shop.value⟩, caffeine := caffeine, held := held } where
  row := rfl
  faithful := {
    free := hheld
    caffeine := hcaffeine
    json := fun version shop' hredis => by cases hredis; exact hrow
    wellFormed := fun version hredis => by cases hredis
    blank := fun ⟨version, hredis⟩ => by cases hredis }
  blank := by
    constructor
    · rintro ⟨version, hredis⟩
      cases hredis
    · rintro (hblank' | hnone)
      · exact absurd hblank' hblank
      · rw [hrow] at hnone
        cases hnone
  clean _ := by rw [hrow]; rfl
  noted h := absurd h hblank

structure CacheWorld.Cleared (w : CacheWorld Shop Inst) (cleared : Inst → Prop) : Prop where
  free : ∀ j, w.held j = false
  redis : w.redis = none
  caffeine : ∀ j, cleared j → w.caffeine j = none

theorem CacheWorld.Cleared.faithful (h : w.Cleared fun _ => True) : w.Faithful ∧ ¬ w.Blank := by
  have hblank : ¬ w.Blank := by
    rintro ⟨version, hredis⟩
    rw [h.redis] at hredis
    cases hredis
  refine ⟨⟨h.free, fun j shop hshop => ?_, fun version shop hredis => ?_, fun version hredis => ?_,
    fun hb => absurd hb hblank⟩, hblank⟩
  · rw [h.caffeine j trivial] at hshop
    cases hshop
  · rw [h.redis] at hredis
    cases hredis
  · rw [h.redis] at hredis
    cases hredis

theorem CacheWorld.Faithful.inserted {w : CacheWorld Shop Inst} (h : w.Faithful)
    (hrow : w.row = none) (shop : Shop) : (w.commit (some shop)).Faithful where
  free := h.free
  caffeine i shop' hshop' := by
    have hempty : w.caffeine i = some shop' := hshop'
    rw [h.caffeine_eq_none (.inr hrow) i] at hempty
    cases hempty
  json version shop' hredis := by
    have hsome := h.json version shop' hredis
    rw [hrow] at hsome
    cases hsome
  wellFormed := h.wellFormed
  blank := h.blank

theorem CacheWorld.Faithful.expireRedis {w : CacheWorld Shop Inst} (h : w.Faithful) :
    CacheWorld.Faithful { w with redis := none } where
  free := h.free
  caffeine := h.caffeine
  json version shop hredis := by cases hredis
  wellFormed version hredis := by cases hredis
  blank := fun ⟨version, hredis⟩ => by cases hredis

end Entries

section Calls
variable {Shop Inst : Type} [DecidableEq Inst] {w : CacheWorld Shop Inst} {i : Inst}

/-- A load finds no row, or a note that there is none, and leaves a note; or it finds the row and
leaves the row. -/
theorem load_cases (hjson : ∀ version shop, w.redis = some ⟨version, .json shop⟩ → w.row = some shop)
    (hwellFormed : ∀ version, w.redis ≠ some ⟨version, .malformed⟩) :
    (∃ version, (w.Blank ∨ w.row = none) ∧ queryRedisAndDb.run (CacheWorld.alone i) w =
      (.ok none, { w with redis := some ⟨version, .blank⟩ })) ∨
    ∃ shop : Versioned Shop, ¬ w.Blank ∧ w.row = some shop.value ∧
      queryRedisAndDb.run (CacheWorld.alone i) w =
        (.ok (some shop), { w with redis := some ⟨shop.version, .json shop.value⟩ }) := by
  rw [queryRedisAndDb, run_bind, run_attempt, run_perform]
  cases hredis : w.redis with
  | none =>
    have hblank : ¬ w.Blank := by
      rintro ⟨version, hversion⟩
      rw [hredis] at hversion
      cases hversion
    cases hrow : w.row with
    | none =>
      refine .inl ⟨w.version, .inr rfl, ?_⟩
      simp [CacheWorld.alone, CacheWorld.answer, hredis, loadFromDb, hrow]
    | some shop =>
      refine .inr ⟨⟨w.version, shop⟩, hblank, rfl, ?_⟩
      simp [CacheWorld.alone, CacheWorld.answer, hredis, loadFromDb, hrow]
  | some text =>
    obtain ⟨version, text⟩ := text
    cases text with
    | blank =>
      refine .inl ⟨version, .inl ⟨version, hredis⟩, ?_⟩
      rw [CacheWorld.setRedis_self hredis]
      simp [CacheWorld.alone, CacheWorld.answer, hredis]
    | json shop =>
      refine .inr ⟨⟨version, shop⟩, ?_, hjson version shop hredis, ?_⟩
      · rintro ⟨version', hversion'⟩
        rw [hredis] at hversion'
        cases hversion'
      · rw [CacheWorld.setRedis_self hredis]
        simp [CacheWorld.alone, CacheWorld.answer, hredis]
    | malformed => exact absurd hredis (hwellFormed version)

/-- The same when the load goes through Caffeine, which keeps a row and no note. -/
theorem getOrLoad_cases (h : w.Faithful) (hcaffeine : w.caffeine i = none) :
    (∃ version, (w.Blank ∨ w.row = none) ∧ getOrLoad.run (CacheWorld.alone i) w = (.ok none, { w with
      redis := some ⟨version, .blank⟩
      caffeine := Function.update w.caffeine i none
      held := Function.update w.held i false })) ∨
    ∃ shop : Versioned Shop, ¬ w.Blank ∧ w.row = some shop.value ∧
      getOrLoad.run (CacheWorld.alone i) w = (.ok (some shop), { w with
        redis := some ⟨shop.version, .json shop.value⟩
        caffeine := Function.update w.caffeine i (some shop)
        held := Function.update w.held i false }) := by
  rcases load_cases (w := { w with held := Function.update w.held i true }) (i := i) h.json
    h.wellFormed with ⟨version, hnone, hload⟩ | ⟨shop, hblank, hrow, hload⟩
  · refine .inl ⟨version, hnone, ?_⟩
    simp [getOrLoad, CacheWorld.alone, CacheWorld.answer, hcaffeine, h.free i, hload]
  · refine .inr ⟨shop, hblank, hrow, ?_⟩
    simp [getOrLoad, CacheWorld.alone, CacheWorld.answer, hcaffeine, h.free i, hload]

theorem CacheWorld.Faithful.query_hit (h : w.Faithful) {shop : Versioned Shop}
    (hcaffeine : w.caffeine i = some shop) :
    Queried w ((queryById true).run (CacheWorld.alone i) w).1
      ((queryById true).run (CacheWorld.alone i) w).2 := by
  have hrow : w.row = some shop.value := h.caffeine i shop hcaffeine
  have hrun : (queryById true).run (CacheWorld.alone i) w = (.ok (.ok shop.value), w) := by
    simp [queryById, queryShopById, CacheWorld.alone, CacheWorld.answer, hcaffeine]
  have hblank : ¬ w.Blank := by
    intro hblank
    have hempty := h.blank hblank i
    rw [hcaffeine] at hempty
    cases hempty
  rw [hrun]
  refine ⟨rfl, h, ?_, fun _ => ?_, fun h => absurd h hblank⟩
  · simp [hrow]
  · rw [hrow]
    rfl

theorem CacheWorld.Faithful.query_miss (h : w.Faithful) (hcaffeine : w.caffeine i = none) :
    Queried w ((queryById true).run (CacheWorld.alone i) w).1
      ((queryById true).run (CacheWorld.alone i) w).2 := by
  have hrun : (queryById true).run (CacheWorld.alone i) w =
      (getOrLoad >>= fun shop => match shop with
        | none => pure (.fail "商铺不存在")
        | some shop => pure (.ok shop.value) : CacheProgram Shop (ShopResult Shop)).run
        (CacheWorld.alone i) w := by
    simp [queryById, queryShopById, CacheWorld.alone, CacheWorld.answer, hcaffeine]
  have hheld : ∀ j, Function.update w.held i false j = false := by
    intro j
    by_cases hj : j = i <;> simp [hj, h.free]
  rw [hrun]
  rcases getOrLoad_cases h hcaffeine with ⟨version, hnone, hload⟩ | ⟨shop, hblank, hrow, hload⟩
  · have hempty : ∀ j, Function.update w.caffeine i none j = none := by
      intro j
      by_cases hj : j = i <;> simp [hj, h.caffeine_eq_none hnone]
    simp only [run_bind, hload, run_pure]
    exact queried_none hnone version hempty hheld
  · simp only [run_bind, hload, run_pure]
    refine queried_some hblank hrow (fun j shop' hshop' => ?_) hheld
    by_cases hj : j = i
    · subst hj
      obtain rfl : shop = shop' := by simpa using hshop'
      exact hrow
    · exact h.caffeine j shop' (by simpa [hj] using hshop')

theorem CacheWorld.Faithful.query (h : w.Faithful) (shopLocalCacheEnabled : Bool) :
    Queried w ((queryById shopLocalCacheEnabled).run (CacheWorld.alone i) w).1
      ((queryById shopLocalCacheEnabled).run (CacheWorld.alone i) w).2 := by
  cases shopLocalCacheEnabled with
  | false =>
    simp only [queryById, queryShopById, if_true, run_bind]
    rcases load_cases (i := i) h.json h.wellFormed with
      ⟨version, hnone, hload⟩ | ⟨shop, hblank, hrow, hload⟩
    · simp only [hload, run_pure]
      exact queried_none hnone version (h.caffeine_eq_none hnone) h.free
    · simp only [hload, run_pure]
      exact queried_some hblank hrow h.caffeine h.free
  | true =>
    cases hcaffeine : w.caffeine i with
    | some shop => exact h.query_hit hcaffeine
    | none => exact h.query_miss hcaffeine

theorem run_invalidateShop (hfree : ∀ j, w.held j = false) :
    ((invalidateShop : CacheProgram Shop Unit).run (CacheWorld.alone i) w).2 =
      { w with redis := none, caffeine := Function.update w.caffeine i none } := by
  simp [invalidateShop, invalidateLocal, throwFailures, CacheWorld.alone, CacheWorld.answer, hfree,
    Except.isOk, Except.toBool]

theorem run_onCacheInvalidate (hfree : ∀ j, w.held j = false) :
    ((onCacheInvalidate "shop" : CacheProgram Shop Unit).run (CacheWorld.alone i) w).2 =
      { w with redis := none, caffeine := Function.update w.caffeine i none } := by
  simp [onCacheInvalidate, invalidateLocal, throwFailures, CacheWorld.alone, CacheWorld.answer, hfree,
    Except.isOk, Except.toBool]

theorem CacheWorld.Cleared.handle {cleared : Inst → Prop} (h : w.Cleared cleared) (j : Inst) :
    (((onCacheInvalidate "shop" : CacheProgram Shop Unit).run (CacheWorld.alone j) w).2.Cleared
      fun k => cleared k ∨ k = j) ∧
      ((onCacheInvalidate "shop" : CacheProgram Shop Unit).run (CacheWorld.alone j) w).2.row =
        w.row := by
  rw [run_onCacheInvalidate h.free]
  refine ⟨⟨h.free, rfl, fun k hk => ?_⟩, rfl⟩
  by_cases hkj : k = j
  · simp [hkj]
  · simpa [hkj] using h.caffeine k (hk.resolve_right hkj)

theorem CacheWorld.Cleared.handleAll {cleared : Inst → Prop} (h : w.Cleared cleared)
    (handlers : List Inst) :
    ((handlers.foldl (fun w j =>
      ((onCacheInvalidate "shop" : CacheProgram Shop Unit).run (CacheWorld.alone j) w).2) w).Cleared
      fun k => cleared k ∨ k ∈ handlers) ∧
    (handlers.foldl (fun w j =>
      ((onCacheInvalidate "shop" : CacheProgram Shop Unit).run (CacheWorld.alone j) w).2) w).row =
      w.row := by
  induction handlers generalizing w cleared with
  | nil => simpa using h
  | cons j handlers ih =>
    obtain ⟨hcleared, hrow⟩ := h.handle j
    obtain ⟨hall, hrows⟩ := ih hcleared
    refine ⟨?_, hrows.trans hrow⟩
    simpa [or_assoc] using hall

theorem CacheWorld.invalidateEverywhere_cleared (hfree : ∀ j, w.held j = false) (worker : Inst)
    (handlers : List Inst) :
    ((w.invalidateEverywhere worker handlers).Cleared fun k => k ∈ handlers) ∧
      (w.invalidateEverywhere worker handlers).row = w.row := by
  have hstart : ((invalidateShop : CacheProgram Shop Unit).run (CacheWorld.alone worker) w).2.Cleared
      fun _ => False := by
    rw [run_invalidateShop hfree]
    exact ⟨hfree, rfl, fun _ h => h.elim⟩
  obtain ⟨hcleared, hrow⟩ := hstart.handleAll handlers
  refine ⟨by simpa [invalidateEverywhere] using hcleared, hrow.trans ?_⟩
  rw [run_invalidateShop hfree]

theorem CacheWorld.settle_cleared (hfree : ∀ j, w.held j = false) (settlement : Settlement Inst) :
    ((w.settle settlement).Cleared fun _ => True) ∧ (w.settle settlement).row = w.row := by
  obtain ⟨hfirst, hrow⟩ :=
    invalidateEverywhere_cleared hfree settlement.worker settlement.handlers
  obtain ⟨hsecond, hrow'⟩ :=
    invalidateEverywhere_cleared hfirst.free settlement.delayedWorker settlement.delayedHandlers
  refine ⟨⟨hsecond.free, hsecond.redis, fun j _ => ?_⟩, hrow'.trans hrow⟩
  exact hsecond.caffeine j (settlement.everyone j).2

theorem CacheWorld.Faithful.expireLocal {w : CacheWorld Shop Inst} (h : w.Faithful) (i : Inst) :
    CacheWorld.Faithful { w with caffeine := Function.update w.caffeine i none } where
  free := h.free
  caffeine j shop hshop := by
    by_cases hj : j = i
    · simp [hj] at hshop
    · exact h.caffeine j shop (by simpa [hj] using hshop)
  json := h.json
  wellFormed := h.wellFormed
  blank hblank j := by
    by_cases hj : j = i
    · simp [hj]
    · simpa [hj] using h.blank hblank j

end Calls

section Notes
variable {Shop Body Inst : Type}

/-- The note in Redis goes: its key expires, or an update of the row succeeds. -/
def ShopOp.Clears (sql : ShopSql Shop Body) (t : ShopTable Shop) (id : ShopId) :
    ShopOp Body Inst → Prop
  | .expireRedis id' => id' = id
  | .put (some id') body _ => id' = id ∧ ∃ old, t.rows id = some old ∧ sql.updated old body ≠ none
  | _ => False

/-- A request for the id came when it had no row, and nothing has cleared the note since. -/
def NoteLeft (sql : ShopSql Shop Body) (t : ShopTable Shop) (id : ShopId)
    (ops : List (ShopOp Body Inst)) : Prop :=
  ∃ before i between, ops = before ++ .get i id :: between ∧ (t.run sql before).rows id = none ∧
    ∀ first op rest, between = first ++ op :: rest →
      ¬ op.Clears sql (t.run sql (before ++ .get i id :: first)) id

theorem noteLeft_append {sql : ShopSql Shop Body} {ops : List (ShopOp Body Inst)}
    (t : ShopTable Shop) (id : ShopId) (op : ShopOp Body Inst) :
    NoteLeft sql t id (ops ++ [op]) ↔ (∃ i, op = .get i id ∧ (t.run sql ops).rows id = none) ∨
      NoteLeft sql t id ops ∧ ¬ op.Clears sql (t.run sql ops) id := by
  constructor
  · rintro ⟨before, i, between, hops, hrow, hkept⟩
    rcases List.eq_nil_or_concat between with rfl | ⟨between, last, rfl⟩
    · obtain ⟨rfl, hop⟩ := List.append_inj' hops rfl
      exact .inl ⟨i, List.singleton_inj.mp hop, hrow⟩
    · rw [List.concat_eq_append, ← List.cons_append, ← List.append_assoc] at hops
      obtain ⟨rfl, hop⟩ := List.append_inj' hops rfl
      obtain rfl : op = last := List.singleton_inj.mp hop
      refine .inr ⟨⟨before, i, between, rfl, hrow, fun first op' rest heq => ?_⟩,
        hkept between op [] (by simp)⟩
      exact hkept first op' (rest ++ [op]) (by simp [heq])
  · rintro (⟨i, rfl, hrow⟩ | ⟨⟨before, i, between, rfl, hrow, hkept⟩, hlast⟩)
    · exact ⟨ops, i, [], rfl, hrow, fun first op' rest heq => by simp at heq⟩
    · refine ⟨before, i, between ++ [op], by simp, hrow, fun first op' rest heq => ?_⟩
      rcases List.eq_nil_or_concat rest with rfl | ⟨rest, last, rfl⟩
      · obtain ⟨rfl, hop⟩ := List.append_inj' heq rfl
        obtain rfl : op = op' := List.singleton_inj.mp hop
        exact hlast
      · rw [List.concat_eq_append, ← List.cons_append, ← List.append_assoc] at heq
        obtain ⟨hbetween, -⟩ := List.append_inj' heq rfl
        exact hkept first op' rest hbetween

end Notes

section Mirrors
variable {Shop Inst : Type} {s : ShopStack Shop Inst} {t : ShopTable Shop}

/-- The stack holds the rows of the table. -/
structure Mirrors (s : ShopStack Shop Inst) (t : ShopTable Shop) : Prop where
  rows : ∀ id, (s.shops id).row = t.rows id
  autoIncrement : s.autoIncrement = t.autoIncrement
  faithful : ∀ id, (s.shops id).Faithful

theorem Mirrors.setShop (h : Mirrors s t) (id : ShopId) {w : CacheWorld Shop Inst}
    {rows : ShopId → Option Shop} {autoIncrement : ShopId} (hrow : w.row = rows id)
    (hfaithful : w.Faithful) (hother : ∀ id', id' ≠ id → rows id' = t.rows id') :
    Mirrors { s.setShop id w with autoIncrement := autoIncrement } ⟨rows, autoIncrement⟩ where
  rows id' := by
    by_cases hid : id' = id
    · subst hid
      simpa [ShopStack.setShop] using hrow
    · have hsame : (s.shops id').row = rows id' := (h.rows id').trans (hother id' hid).symm
      simpa [ShopStack.setShop, hid] using hsame
  autoIncrement := rfl
  faithful id' := by
    by_cases hid : id' = id
    · subst hid
      simpa [ShopStack.setShop] using hfaithful
    · simpa [ShopStack.setShop, hid] using h.faithful id'

theorem blank_setShop (id id' : ShopId) (w : CacheWorld Shop Inst) :
    ((s.setShop id w).shops id').Blank ↔ if id' = id then w.Blank else (s.shops id').Blank := by
  by_cases hid : id' = id
  · subst hid
    simp [ShopStack.setShop]
  · simp [ShopStack.setShop, hid]

theorem Mirrors.refresh (h : Mirrors s t) (id : ShopId) {w : CacheWorld Shop Inst}
    (hrow : w.row = (s.shops id).row) (hfaithful : w.Faithful) : Mirrors (s.setShop id w) t := by
  have hset : Mirrors { s.setShop id w with autoIncrement := s.autoIncrement }
      ⟨t.rows, s.autoIncrement⟩ :=
    h.setShop id (hrow.trans (h.rows id)) hfaithful fun _ _ => rfl
  exact ⟨hset.rows, h.autoIncrement, hset.faithful⟩

theorem mirrors_cold (rows : ShopId → Option Shop) (autoIncrement : ShopId) :
    Mirrors (.cold rows autoIncrement : ShopStack Shop Inst) ⟨rows, autoIncrement⟩ where
  rows _ := rfl
  autoIncrement := rfl
  faithful id := by
    have hcleared : ((.cold rows autoIncrement : ShopStack Shop Inst).shops id).Cleared
        fun _ => True := ⟨fun _ => rfl, rfl, fun _ _ => rfl⟩
    exact hcleared.faithful.1

variable {Body : Type} {sql : ShopSql Shop Body} {op : ShopOp Body Inst} {id : ShopId}

/-- Where the notes are after an operation. -/
def NotesAfter (sql : ShopSql Shop Body) (t : ShopTable Shop) (op : ShopOp Body Inst)
    (s s' : ShopStack Shop Inst) : Prop :=
  ∀ id, (s'.shops id).Blank ↔
    (∃ i, op = .get i id ∧ t.rows id = none) ∨ (s.shops id).Blank ∧ ¬ op.Clears sql t id

theorem notesAfter_self (hget : ∀ i id, op ≠ .get i id) (hkept : ∀ id, ¬ op.Clears sql t id) :
    NotesAfter sql t op s s := by
  intro id
  simp [hget, hkept]

theorem notesAfter_setShop {w : CacheWorld Shop Inst} (autoIncrement : ShopId)
    (hother : ∀ id', id' ≠ id → (∀ i, op ≠ .get i id') ∧ ¬ op.Clears sql t id')
    (hid : w.Blank ↔
      (∃ i, op = .get i id ∧ t.rows id = none) ∨ (s.shops id).Blank ∧ ¬ op.Clears sql t id) :
    NotesAfter sql t op s { s.setShop id w with autoIncrement := autoIncrement } := by
  intro id'
  change ((s.setShop id w).shops id').Blank ↔ _
  rw [blank_setShop]
  by_cases heq : id' = id
  · subst heq
    rw [if_pos rfl]
    exact hid
  · obtain ⟨hget, hkept⟩ := hother id' heq
    simp [heq, hget, hkept]

theorem notesAfter_put (settlement : Settlement Inst) {body : Body}
    (hrow : ∀ old, t.rows id = some old → sql.updated old body = none) :
    NotesAfter sql t (.put (some id) body settlement) s s := by
  apply notesAfter_self
  · exact fun i id' => by simp
  · rintro id' ⟨rfl, old, hold, hwritten⟩
    exact hwritten (hrow old hold)

theorem Mirrors.expireRedis (h : Mirrors s t) (sql : ShopSql Shop Body) (id : ShopId) :
    Mirrors (s.setShop id { s.shops id with redis := none }) t ∧
      NotesAfter sql t (.expireRedis id) s (s.setShop id { s.shops id with redis := none }) := by
  refine ⟨h.refresh id rfl (h.faithful id).expireRedis, ?_⟩
  refine notesAfter_setShop s.autoIncrement (fun id' hid => ?_) ?_
  · simp [ShopOp.Clears, Ne.symm hid]
  · simp [ShopOp.Clears, CacheWorld.Blank]

/-- An insertion leaves the note where it is. -/
theorem Mirrors.saveShop (h : Mirrors s t) (sql : ShopSql Shop Body) (id : ShopId) (body : Body) :
    Mirrors (s.saveShop sql id body) (t.step sql (.post id body : ShopOp Body Inst)) ∧
      NotesAfter sql t (.post id body) s (s.saveShop sql id body) := by
  have hsame : NotesAfter sql t (.post id body) s s :=
    notesAfter_self (fun i id' => by simp) fun id' => by simp [ShopOp.Clears]
  simp only [ShopStack.saveShop, ShopTable.step, h.rows, h.autoIncrement]
  cases hinserted : sql.inserted id body with
  | none => simp [h, hsame]
  | some shop =>
    by_cases hnew : t.autoIncrement ≤ id ∧ t.rows id = none
    · simp only [hnew, and_self, if_true]
      have hrow : (s.shops id).row = none := (h.rows id).trans hnew.2
      refine ⟨h.setShop id (by simp [CacheWorld.commit]) ((h.faithful id).inserted hrow shop)
        fun id' hid => by simp [hid], ?_⟩
      refine notesAfter_setShop (id + 1) (fun id' hid => ?_) ?_
      · simp [ShopOp.Clears]
      · simp [ShopOp.Clears, CacheWorld.Blank, CacheWorld.commit]
    · simp [hnew, h, hsame]

end Mirrors

section Run
variable {Shop Body Inst : Type} [DecidableEq Inst] {s : ShopStack Shop Inst} {t : ShopTable Shop}

theorem Mirrors.get (h : Mirrors s t) (sql : ShopSql Shop Body) (shopLocalCacheEnabled : Bool)
    (i : Inst) (id : ShopId) :
    Mirrors (s.setShop id (s.query shopLocalCacheEnabled i id).2) t ∧
      NotesAfter sql t (.get i id) s (s.setShop id (s.query shopLocalCacheEnabled i id).2) := by
  have hquery := (h.faithful id).query (i := i) shopLocalCacheEnabled
  refine ⟨h.refresh id hquery.row hquery.faithful, ?_⟩
  refine notesAfter_setShop s.autoIncrement (fun id' hid => ?_) (hquery.blank.trans ?_)
  · simp [ShopOp.Clears, Ne.symm hid]
  · simp [ShopOp.Clears, h.rows, or_comm]

theorem Mirrors.expireLocal (h : Mirrors s t) (sql : ShopSql Shop Body) (i : Inst) (id : ShopId) :
    Mirrors (s.setShop id
      { s.shops id with caffeine := Function.update (s.shops id).caffeine i none }) t ∧
    NotesAfter sql t (.expireLocal i id) s (s.setShop id
      { s.shops id with caffeine := Function.update (s.shops id).caffeine i none }) := by
  refine ⟨h.refresh id rfl ((h.faithful id).expireLocal i), ?_⟩
  refine notesAfter_setShop s.autoIncrement (fun id' hid => ?_) ?_
  · simp [ShopOp.Clears]
  · simp [ShopOp.Clears, CacheWorld.Blank]

/-- An update takes the note along. -/
theorem Mirrors.update (h : Mirrors s t) (sql : ShopSql Shop Body) (id : Option ShopId) (body : Body)
    (settlement : Settlement Inst) :
    Mirrors (s.update sql id body settlement) (t.step sql (.put id body settlement)) ∧
      NotesAfter sql t (.put id body settlement) s (s.update sql id body settlement) := by
  cases id with
  | none => exact ⟨h, notesAfter_self (fun i id' => by simp) fun id' => by simp [ShopOp.Clears]⟩
  | some id =>
    simp only [ShopStack.update, ShopTable.step, h.rows]
    cases hrow : t.rows id with
    | none => exact ⟨h, notesAfter_put settlement fun old hold => by simp [hrow] at hold⟩
    | some old =>
      cases hupdated : sql.updated old body with
      | none =>
        simp only [Option.bind_some, hupdated]
        refine ⟨h, notesAfter_put settlement fun old' hold => ?_⟩
        obtain rfl : old = old' := Option.some.inj (hrow.symm.trans hold)
        exact hupdated
      | some shop =>
        simp only [Option.bind_some, hupdated]
        have hcommit : ∀ j, ((s.shops id).commit (some shop)).held j = false := (h.faithful id).free
        obtain ⟨hcleared, hsettled⟩ := CacheWorld.settle_cleared hcommit settlement
        obtain ⟨hfaithful, hblank⟩ := hcleared.faithful
        have hrowset : (((s.shops id).commit (some shop)).settle settlement).row =
            Function.update t.rows id (some shop) id := by
          rw [hsettled]
          simp [CacheWorld.commit]
        have hset : Mirrors { s.setShop id (((s.shops id).commit (some shop)).settle settlement) with
            autoIncrement := s.autoIncrement }
            ⟨Function.update t.rows id (some shop), s.autoIncrement⟩ :=
          h.setShop id hrowset hfaithful fun id' hid => by simp [hid]
        refine ⟨⟨hset.rows, h.autoIncrement, hset.faithful⟩, ?_⟩
        refine notesAfter_setShop s.autoIncrement (fun id' hid => ?_) ?_
        · simp [ShopOp.Clears, Ne.symm hid]
        · simp [ShopOp.Clears, hrow, hupdated, hblank]

theorem Mirrors.step (h : Mirrors s t) (sql : ShopSql Shop Body) (shopLocalCacheEnabled : Bool)
    (op : ShopOp Body Inst) :
    Mirrors (s.step sql shopLocalCacheEnabled op) (t.step sql op) ∧
      NotesAfter sql t op s (s.step sql shopLocalCacheEnabled op) := by
  cases op with
  | get i id => exact h.get sql shopLocalCacheEnabled i id
  | post id body => exact h.saveShop sql id body
  | put id body settlement => exact h.update sql id body settlement
  | expireRedis id => exact h.expireRedis sql id
  | expireLocal i id => exact h.expireLocal sql i id

/-- After any operations the stack holds the rows of the table, and notes exactly where they were
left. -/
theorem mirrors_run (sql : ShopSql Shop Body) (shopLocalCacheEnabled : Bool)
    (rows : ShopId → Option Shop) (autoIncrement : ShopId) (ops : List (ShopOp Body Inst)) :
    Mirrors ((ShopStack.cold rows autoIncrement).run sql shopLocalCacheEnabled ops)
      (ShopTable.run sql ⟨rows, autoIncrement⟩ ops) ∧
    ∀ id, (((ShopStack.cold rows autoIncrement).run sql shopLocalCacheEnabled ops).shops id).Blank ↔
      NoteLeft sql ⟨rows, autoIncrement⟩ id ops := by
  induction ops using List.reverseRecOn with
  | nil =>
    refine ⟨mirrors_cold rows autoIncrement, fun id => ⟨?_, ?_⟩⟩
    · rintro ⟨version, hredis⟩
      cases hredis
    · rintro ⟨before, i, between, hops, -⟩
      simp at hops
  | append_singleton ops op ih =>
    obtain ⟨hmirrors, hblank⟩ := ih
    obtain ⟨hstep, hnote⟩ := hmirrors.step sql shopLocalCacheEnabled op
    simp only [ShopStack.run, ShopTable.run, List.foldl_append, List.foldl_cons, List.foldl_nil]
    refine ⟨hstep, fun id => ?_⟩
    rw [noteLeft_append, ← hblank]
    exact hnote id

/-- Every request is answered by the row that MySQL holds at that moment. -/
def AnsweredByRows (sql : ShopSql Shop Body) (shopLocalCacheEnabled : Bool)
    (s : ShopStack Shop Inst) (ops : List (ShopOp Body Inst)) : Prop :=
  ∀ before i id after, ops = before ++ .get i id :: after →
    ((s.run sql shopLocalCacheEnabled before).query shopLocalCacheEnabled i id).1 =
      .ok (.ofRow ((s.run sql shopLocalCacheEnabled before).shops id).row)

/-- The cache is transparent up to the notes: a request is answered wrong exactly when an insertion
has left a note behind. -/
theorem shop_cache_transparent (sql : ShopSql Shop Body) (shopLocalCacheEnabled : Bool)
    (rows : ShopId → Option Shop) (autoIncrement : ShopId) (ops : List (ShopOp Body Inst)) :
    AnsweredByRows sql shopLocalCacheEnabled (.cold rows autoIncrement) ops ↔
      ∀ before i id after, ops = before ++ .get i id :: after →
        (ShopTable.run sql ⟨rows, autoIncrement⟩ before).rows id ≠ none →
        ¬ NoteLeft sql ⟨rows, autoIncrement⟩ id before := by
  constructor
  · intro hanswered before i id after hops hrow hnote
    obtain ⟨hmirrors, hblank⟩ := mirrors_run sql shopLocalCacheEnabled rows autoIncrement before
    have hanswer := hanswered before i id after hops
    have hquery := (hmirrors.faithful id).query (i := i) shopLocalCacheEnabled
    have hfail := hquery.noted ((hblank id).mpr hnote)
    rw [ShopStack.query, hfail, hmirrors.rows id] at hanswer
    cases hrows : (ShopTable.run sql ⟨rows, autoIncrement⟩ before).rows id with
    | none => exact hrow hrows
    | some shop =>
      rw [hrows] at hanswer
      cases hanswer
  · intro hfresh before i id after hops
    obtain ⟨hmirrors, hblank⟩ := mirrors_run sql shopLocalCacheEnabled rows autoIncrement before
    have hquery := (hmirrors.faithful id).query (i := i) shopLocalCacheEnabled
    by_cases hnote : NoteLeft sql ⟨rows, autoIncrement⟩ id before
    · have hnone : (ShopTable.run sql ⟨rows, autoIncrement⟩ before).rows id = none := by
        by_contra hrow
        exact hfresh before i id after hops hrow hnote
      rw [hmirrors.rows id, hnone]
      exact hquery.noted ((hblank id).mpr hnote)
    · exact hquery.clean fun h => hnote ((hblank id).mp h)

/-- A shop is asked for before it exists, created, and asked for again: the note that the first
request left answers the second. -/
theorem shopCacheTransparent_fails :
    ¬ AnsweredByRows ⟨fun _ body => some body, fun _ body => some body⟩ true
      (.cold (fun _ => none) 1 : ShopStack String Unit) [.get () 1, .post 1 "cafe", .get () 1] := by
  intro hanswered
  have hanswer := hanswered [.get () 1, .post 1 "cafe"] () 1 [] rfl
  cases hanswer

end Run
end HmDianPing.Cache
