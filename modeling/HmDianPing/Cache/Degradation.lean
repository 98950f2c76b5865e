import HmDianPing.Cache.ShopCache

/-! # Reads while the caches fail

`queryShopById` against caches and a database that answer every call as they like,
with what they hold or with an exception. What the read should give is a function of
these answers.
-/
namespace HmDianPing.Cache
open Interleaving Program

/-- A call and what it was answered. -/
structure Exchange (Shop : Type) where
  cmd : CacheCmd Shop
  reply : Except String cmd.Reply

/-- Answers to every call, whatever has been answered before. -/
abbrev Environment (Shop : Type) :=
  List (Exchange Shop) → (c : CacheCmd Shop) → Except String c.Reply

section Spec
variable {Shop : Type}

def Environment.answer (env : Environment Shop) (c : CacheCmd Shop) (es : List (Exchange Shop)) :
    Except String c.Reply × List (Exchange Shop) :=
  (env es c, es ++ [⟨c, env es c⟩])

namespace Environment
variable (env : Environment Shop) (es : List (Exchange Shop))

def after (c : CacheCmd Shop) : List (Exchange Shop) := (env.answer c es).2

/-- `dbFallback` returns a shop or throws. -/
def FindsShop : Prop := ∀ version, env es .dbFallback ≠ .ok ⟨version, none⟩

def AnswersBlank : Prop := ∃ version, env es .redisGet = .ok (some ⟨version, .blank⟩)

/-- Redis answers with neither a blank text nor a shop, and then `dbFallback` finds something. -/
def Reloads : Prop :=
  match env es .redisGet with
  | .ok (some ⟨_, .blank⟩) | .ok (some ⟨_, .json _⟩) => False
  | .ok (some ⟨_, .malformed⟩) => env.FindsShop (env.after (env.after es .redisGet) .redisDelete)
  | _ => env.FindsShop (env.after es .redisGet)

end Environment

namespace Exchange

def localEntry : Exchange Shop → Option (Versioned Shop)
  | ⟨.getIfPresent, .ok shop⟩ => shop
  | ⟨.computeBegin, .ok shop⟩ => shop
  | _ => none

def decoded : Exchange Shop → Option (Versioned Shop)
  | ⟨.redisGet, .ok (some ⟨version, .json shop⟩)⟩ => some ⟨version, shop⟩
  | _ => none

def isBlank : Exchange Shop → Bool
  | ⟨.redisGet, .ok (some ⟨_, .blank⟩)⟩ => true
  | _ => false

def database : Exchange Shop → Option (Except String (Option (Versioned Shop)))
  | ⟨.dbFallback, .ok row⟩ => some (.ok row.shop)
  | ⟨.dbFallback, .error e⟩ => some (.error e)
  | _ => none

end Exchange

/-- The local entry if it was read, else the shop in Redis, else null when the text there is blank,
else the result of `dbFallback`. -/
def expected (es : List (Exchange Shop)) : Option (Except String (Option (Versioned Shop))) :=
  match es.findSome? Exchange.localEntry with
  | some shop => some (.ok (some shop))
  | none =>
    match es.findSome? Exchange.decoded with
    | some shop => some (.ok (some shop))
    | none =>
      if es.any Exchange.isBlank then some (.ok none) else (es.filterMap Exchange.database).getLast?

end Spec

section Reads
variable {Shop : Type} {env : Environment Shop} {es es' : List (Exchange Shop)}
  {x x' : Except String (Option (Versioned Shop))}

def Contradicts (es : List (Exchange Shop)) : Prop :=
  ∃ found ∈ es.filterMap Exchange.database, found ≠ .ok none

inductive Asked (es : List (Exchange Shop)) : Except String (Option (Versioned Shop)) → Prop
  | decoded {shop : Versioned Shop} (hl : es.findSome? Exchange.localEntry = none)
      (hd : es.findSome? Exchange.decoded = some shop) (hb : es.any Exchange.isBlank = false)
      (hf : es.filterMap Exchange.database = []) : Asked es (.ok (some shop))
  | blank (hl : es.findSome? Exchange.localEntry = none)
      (hd : es.findSome? Exchange.decoded = none) (hb : es.any Exchange.isBlank = true)
      (hf : es.filterMap Exchange.database = []) : Asked es (.ok none)
  | loaded {x : Except String (Option (Versioned Shop))}
      (hl : es.findSome? Exchange.localEntry = none) (hd : es.findSome? Exchange.decoded = none)
      (hb : es.any Exchange.isBlank = false) (hf : es.filterMap Exchange.database = [x]) : Asked es x

theorem loadFromDb_run (env : Environment Shop) (h : List (Exchange Shop)) :
    ∃ es x, loadFromDb.run env.answer h = (x, h ++ es) ∧ Asked es x ∧
      es.any Exchange.isBlank = false ∧ (Contradicts es ↔ env.FindsShop h) := by
  cases hrow : env h .dbFallback with
  | error e =>
    refine ⟨[⟨.dbFallback, .error e⟩], .error e, by simp [loadFromDb, Environment.answer, hrow],
      .loaded rfl rfl rfl rfl, rfl, ?_⟩
    simp [Contradicts, Exchange.database, Environment.FindsShop, hrow]
  | ok row =>
    obtain ⟨version, value⟩ := row
    cases value with
    | none =>
      let db : Exchange Shop := ⟨.dbFallback, .ok ⟨version, none⟩⟩
      let set : CacheCmd Shop := .redisSet ⟨version, .blank⟩
      refine ⟨[db, ⟨set, env (h ++ [db]) set⟩], .ok none, ?_, .loaded rfl rfl rfl rfl, rfl, ?_⟩
      · simp [loadFromDb, Environment.answer, hrow, db, set]
      · simp [Contradicts, Exchange.database, Environment.FindsShop, hrow, db, set, Versioned.shop]
    | some shop =>
      let db : Exchange Shop := ⟨.dbFallback, .ok ⟨version, some shop⟩⟩
      let set : CacheCmd Shop := .redisSet ⟨version, .json shop⟩
      refine ⟨[db, ⟨set, env (h ++ [db]) set⟩], .ok (some ⟨version, shop⟩), ?_,
        .loaded rfl rfl rfl rfl, rfl, ?_⟩
      · simp [loadFromDb, Environment.answer, hrow, db, set]
      · simp [Contradicts, Exchange.database, Environment.FindsShop, hrow, db, set, Versioned.shop]

def Exchange.Silent (ev : Exchange Shop) : Prop :=
  ev.localEntry = none ∧ ev.decoded = none ∧ ev.isBlank = false ∧ ev.database = none

theorem Exchange.Silent.contradicts_cons {ev : Exchange Shop} (hev : ev.Silent) :
    Contradicts (ev :: es) ↔ Contradicts es := by
  rw [Contradicts, List.filterMap_cons_none hev.2.2.2]
  rfl

theorem Asked.after {ev : Exchange Shop} (hev : ev.Silent) (h : Asked es x) : Asked (ev :: es) x := by
  obtain ⟨hl, hd, hb, hf⟩ := hev
  cases h with
  | decoded hl' hd' hb' hf' =>
    exact .decoded (by simp [hl, hl']) (by simp [hd, hd']) (by simp [hb, hb']) (by simp [hf, hf'])
  | blank hl' hd' hb' hf' =>
    exact .blank (by simp [hl, hl']) (by simp [hd, hd']) (by simp [hb']) (by simp [hf, hf'])
  | loaded hl' hd' hb' hf' =>
    exact .loaded (by simp [hl, hl']) (by simp [hd, hd']) (by simp [hb, hb']) (by simp [hf, hf'])

/-- A query after the exchanges `h`, and what its own ones tell of the answers. -/
structure QueryLog (env : Environment Shop) (h es : List (Exchange Shop))
    (x : Except String (Option (Versioned Shop))) : Prop where
  asked : Asked es x
  blank : es.any Exchange.isBlank = true ↔ env.AnswersBlank h
  contradicts : Contradicts es ↔ env.Reloads h
  blank_alone : env.AnswersBlank h → h ++ es = env.after h .redisGet

theorem queryRedisAndDb_run (env : Environment Shop) (h : List (Exchange Shop)) :
    ∃ es x, queryRedisAndDb.run env.answer h = (x, h ++ es) ∧ QueryLog env h es x := by
  obtain ⟨es, x, hload, hasked, hblank, hfinds⟩ :=
    loadFromDb_run env (h ++ [⟨.redisGet, env h .redisGet⟩])
  rcases hget : env h .redisGet with e | _ | ⟨version, _ | shop | _⟩
  · rw [hget] at hload hfinds
    refine ⟨⟨.redisGet, .error e⟩ :: es, x, ?_, hasked.after ⟨rfl, rfl, rfl, rfl⟩, ?_, ?_, ?_⟩
    · simpa [queryRedisAndDb, Environment.answer, hget] using hload
    · simp [Exchange.isBlank, hblank, Environment.AnswersBlank, hget]
    · rw [Exchange.Silent.contradicts_cons ⟨rfl, rfl, rfl, rfl⟩, hfinds]
      simp [Environment.Reloads, Environment.after, Environment.answer, hget]
    · simp [Environment.AnswersBlank, hget]
  · rw [hget] at hload hfinds
    refine ⟨⟨.redisGet, .ok none⟩ :: es, x, ?_, hasked.after ⟨rfl, rfl, rfl, rfl⟩, ?_, ?_, ?_⟩
    · simpa [queryRedisAndDb, Environment.answer, hget] using hload
    · simp [Exchange.isBlank, hblank, Environment.AnswersBlank, hget]
    · rw [Exchange.Silent.contradicts_cons ⟨rfl, rfl, rfl, rfl⟩, hfinds]
      simp [Environment.Reloads, Environment.after, Environment.answer, hget]
    · simp [Environment.AnswersBlank, hget]
  · refine ⟨[⟨.redisGet, .ok (some ⟨version, .blank⟩)⟩], .ok none, ?_, .blank rfl rfl rfl rfl,
      ?_, ?_, ?_⟩
    · simp [queryRedisAndDb, Environment.answer, hget]
    · simp [Exchange.isBlank, Environment.AnswersBlank, hget]
    · simp [Contradicts, Exchange.database, Environment.Reloads, hget]
    · simp [Environment.after, Environment.answer, hget]
  · refine ⟨[⟨.redisGet, .ok (some ⟨version, .json shop⟩)⟩], .ok (some ⟨version, shop⟩), ?_,
      .decoded rfl rfl rfl rfl, ?_, ?_, ?_⟩
    · simp [queryRedisAndDb, Environment.answer, hget]
    · simp [Exchange.isBlank, Environment.AnswersBlank, hget]
    · simp [Contradicts, Exchange.database, Environment.Reloads, hget]
    · simp [Environment.AnswersBlank, hget]
  · let get : Exchange Shop := ⟨.redisGet, .ok (some ⟨version, .malformed⟩)⟩
    let delete : Exchange Shop := ⟨.redisDelete, env (h ++ [get]) .redisDelete⟩
    obtain ⟨es, x, hload, hasked, hblank, hfinds⟩ := loadFromDb_run env (h ++ [get, delete])
    refine ⟨get :: delete :: es, x, ?_,
      (hasked.after ⟨rfl, rfl, rfl, rfl⟩).after ⟨rfl, rfl, rfl, rfl⟩, ?_, ?_, ?_⟩
    · simpa [queryRedisAndDb, Environment.answer, hget, get, delete] using hload
    · simp [Exchange.isBlank, hblank, Environment.AnswersBlank, hget, get, delete]
    · rw [Exchange.Silent.contradicts_cons ⟨rfl, rfl, rfl, rfl⟩,
        Exchange.Silent.contradicts_cons ⟨rfl, rfl, rfl, rfl⟩, hfinds]
      simp [Environment.Reloads, Environment.after, Environment.answer, hget, get, delete]
    · simp [Environment.AnswersBlank, hget]

theorem not_contradicts (h : es.filterMap Exchange.database = []) : ¬ Contradicts es := by
  simp [Contradicts, h]

/-- One query gives what it should. -/
theorem Asked.answers (h : Asked es x) : expected es = some x := by
  cases h with
  | decoded hl hd hb hf => simp only [expected, hl, hd]
  | blank hl hd hb hf => simp only [expected, hl, hd, hb, if_true]
  | loaded hl hd hb hf =>
    simp only [expected, hl, hd, hb, hf]
    rfl

theorem Asked.not_local (h : Asked es x) : es.findSome? Exchange.localEntry = none := by
  cases h <;> assumption

/-- A second query, after one that has found nothing, gives what it should unless the first one read
a blank text and the second one asks the database and finds something. -/
theorem Asked.answers_again {x₁ : Except String (Option (Versioned Shop))} {ev : Exchange Shop}
    (h₁ : Asked es x₁) (hnone : ∀ shop, x₁ ≠ .ok (some shop)) (hev : ev.Silent) (h₂ : Asked es' x) :
    expected (es ++ ev :: es') = some x ↔ ¬ (es.any Exchange.isBlank = true ∧ Contradicts es') := by
  have h₂' := h₂.after hev
  rw [← hev.contradicts_cons, expected, List.findSome?_append, h₁.not_local, List.findSome?_append,
    List.any_append, List.filterMap_append]
  cases h₁ with
  | decoded => exact absurd rfl (hnone _)
  | blank hl₁ hd₁ hb₁ hf₁ =>
    cases h₂' with
    | decoded hl hd hb hf => simp [hl, hd₁, hd, not_contradicts hf]
    | blank hl hd hb hf => simp [hl, hd₁, hd, hb₁, not_contradicts hf]
    | loaded hl hd hb hf => simp [hl, hd₁, hd, hb₁, Contradicts, hf, eq_comm]
  | loaded hl₁ hd₁ hb₁ hf₁ =>
    cases h₂' with
    | decoded hl hd hb hf => simp [hl, hd₁, hd, hb₁]
    | blank hl hd hb hf => simp [hl, hd₁, hd, hb, hb₁]
    | loaded hl hd hb hf => simp [hl, hd₁, hd, hb, hb₁, hf₁, hf]

theorem QueryLog.again {h : List (Exchange Shop)} {x₁ : Except String (Option (Versioned Shop))}
    {ev : Exchange Shop} (h₁ : QueryLog env h es x₁) (hnone : ∀ shop, x₁ ≠ .ok (some shop))
    (hev : ev.Silent) : ∃ es' x, queryRedisAndDb.run env.answer (h ++ es ++ [ev]) = (x, h ++ es') ∧
      (expected es' = some x ↔ ¬ (env.AnswersBlank h ∧ env.Reloads (h ++ es ++ [ev]))) := by
  obtain ⟨es', x, hquery, h₂⟩ := queryRedisAndDb_run env (h ++ es ++ [ev])
  refine ⟨es ++ ev :: es', x, by simpa using hquery, ?_⟩
  rw [← h₁.blank, ← h₂.contradicts]
  exact h₁.asked.answers_again hnone hev h₂.asked

end Reads

end HmDianPing.Cache
