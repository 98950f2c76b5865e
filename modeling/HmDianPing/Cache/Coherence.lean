import HmDianPing.Cache.ShopCache
import Mathlib.Data.List.Nodup

/-! # Coherence after the delayed second delete

The delete in Redis comes before every local invalidation, in the worker and in the
consumer. So once no load holds an older row for Redis, old rows are left only in
Caffeine caches, and each local invalidation removes one of them for good.
-/
namespace HmDianPing.Cache
open Interleaving Program

section Programs
variable {Shop : Type}

/-- What a handler may call, by what it is in the middle of. -/
def Progress.Allows (p : Progress) (purpose : Purpose) : CacheCmd Shop → Prop
  | .computeEnd loaded => p.locked = true ∧ ∀ shop ∈ loaded, p.source = some shop.version
  | .computeAbort => p.locked = true
  | .put _ => False
  | .redisSet text => p.unset = some text.version
  | .invalidate | .send => ∀ k, purpose = .publish k → p.deleted = true
  | _ => True

def handling (purpose : Purpose) : Logic (CacheCmd Shop) CacheCmd.Reply String Progress where
  pre p c := p.Allows purpose c
  meets _ c r := Foreseen c r
  learn p c r := p.after c r

variable {α β : Type} {purpose : Purpose} {p : Progress} {Q : Progress → Except String β → Prop}

theorem wp_attempt {L : Logic (CacheCmd Shop) CacheCmd.Reply String Progress}
    (q : CacheProgram Shop α) (f : Except String α → CacheProgram Shop β) :
    L.wp (attempt q >>= f) Q p = L.wp q (fun p r => L.wp (f r) Q p) p := by
  rw [attempt, Logic.wp_bind, Logic.wp_tryCatch, Logic.wp_bind]
  congr 1
  funext p r
  cases r <;> rfl

theorem wp_attempt_perform {c : CacheCmd Shop} (hc : ∀ e, ¬ Foreseen c (.error e))
    (f : Except String c.Reply → CacheProgram Shop β) :
    (handling purpose).wp (attempt (perform c) >>= f) Q p ↔ p.Allows purpose c ∧
      ∀ a, Foreseen c (.ok a) → (handling purpose).wp (f (.ok a)) Q (p.after c (.ok a)) := by
  rw [wp_attempt, Logic.wp_perform, forall_except]
  exact and_congr_right fun _ => ⟨fun h => h.1, fun h => ⟨h, fun e he => (hc e he).elim⟩⟩

/-- The value a load ends with is the one Redis or MySQL gave it last. -/
def Loaded (locked : Bool) (p : Progress) (r : Except String (Option (Versioned Shop))) : Prop :=
  p.locked = locked ∧ ∀ a, r = .ok a → ∀ shop ∈ a, p.source = some shop.version

theorem loadFromDb_wp : (handling purpose).wp (@loadFromDb Shop) (Loaded p.locked) p := by
  refine (Logic.wp_perform_bind _ _).mpr ⟨trivial, fun row _ => ?_, fun e _ => ⟨rfl, by simp⟩⟩
  obtain ⟨version, value⟩ := row
  cases value with
  | none =>
    refine (wp_attempt_perform (fun _ => id) _).mpr ⟨rfl, fun _ _ => ⟨rfl, ?_⟩⟩
    simp
  | some shop =>
    refine (wp_attempt_perform (fun _ => id) _).mpr ⟨rfl, fun _ _ => ⟨rfl, ?_⟩⟩
    rintro _ ⟨⟩ _ ⟨⟩
    rfl

theorem queryRedisAndDb_wp :
    (handling purpose).wp (@queryRedisAndDb Shop) (Loaded p.locked) p := by
  refine (wp_attempt_perform (fun _ => id) _).mpr ⟨trivial, fun json _ => ?_⟩
  rcases json with - | ⟨version, text⟩
  · exact loadFromDb_wp
  cases text with
  | blank => exact ⟨rfl, by simp⟩
  | json shop => exact ⟨rfl, by rintro _ ⟨⟩ _ ⟨⟩; rfl⟩
  | malformed =>
    refine (wp_attempt_perform (fun _ => id) _).mpr ⟨trivial, fun _ _ => ?_⟩
    exact loadFromDb_wp

theorem getOrLoad_safe : (@handling Shop purpose).Safe getOrLoad p := by
  refine (wp_attempt_perform (fun _ => id) _).mpr ⟨trivial, fun present _ => ?_⟩
  cases present with
  | some shop => trivial
  | none =>
    rw [wp_attempt]
    refine Logic.wp_mono queryRedisAndDb_wp fun p' r hr => ?_
    cases r with
    | error e =>
      exact (wp_attempt_perform (fun _ => id) _).mpr ⟨hr.1, fun _ _ => trivial⟩
    | ok loaded =>
      refine (wp_attempt_perform (fun _ => id) _).mpr ⟨⟨hr.1, hr.2 loaded rfl⟩, fun _ _ => ?_⟩
      trivial

theorem queryShopById_safe (enabled : Bool) :
    (@handling Shop purpose).Safe (queryShopById enabled) p := by
  refine (Logic.wp_ite _ _ _).mpr ⟨fun _ => ?_, fun _ => ?_⟩
  · exact Logic.wp_mono queryRedisAndDb_wp fun _ _ _ => trivial
  · refine (wp_attempt_perform (fun _ => id) _).mpr ⟨trivial, fun present _ => ?_⟩
    cases present with
    | some shop => trivial
    | none => exact getOrLoad_safe

theorem throwFailures_safe (message : String) (steps : List (Except String Unit)) :
    (@handling Shop purpose).Safe (throwFailures message steps) p := by
  unfold throwFailures
  split <;> trivial

/-- The worker deletes the Redis key before it clears its cache and tells the other instances. -/
theorem invalidateShop_safe : (@handling Shop purpose).Safe invalidateShop p := by
  refine (wp_attempt_perform (fun _ => id) _).mpr ⟨trivial, fun _ _ => ?_⟩
  refine (wp_attempt_perform (fun _ => id) _).mpr ⟨fun _ _ => rfl, fun _ _ => ?_⟩
  refine (wp_attempt_perform (fun _ => id) _).mpr ⟨fun _ _ => rfl, fun _ _ => ?_⟩
  exact throwFailures_safe _ _

theorem onCacheInvalidate_safe (cacheName : String) :
    (@handling Shop purpose).Safe (onCacheInvalidate cacheName) p := by
  refine (Logic.wp_ite _ _ _).mpr ⟨fun _ => trivial, fun _ => ?_⟩
  refine (wp_attempt_perform (fun _ => id) _).mpr ⟨trivial, fun _ _ => ?_⟩
  refine (wp_attempt_perform (fun _ => id) _).mpr ⟨fun _ _ => rfl, fun _ _ => ?_⟩
  exact throwFailures_safe _ _

end Programs

section Pool
variable {Shop Inst : Type}

abbrev CachePool (Shop Inst : Type) :=
  Config (CacheWorld Shop Inst) (CacheCall Shop Inst) CacheCall.Reply String (Caller Inst)

/-- The logic of all handlers; each makes its own calls. -/
def handlers (Shop Inst : Type) :
    Logic (CacheCall Shop Inst) CacheCall.Reply String (Caller Inst × Progress) where
  pre k c := c.caller = k.1 ∧ k.2.Allows k.1.purpose c.cmd
  meets _ c r := Foreseen c.cmd r
  learn k c r := (k.1, k.2.after c.cmd r)

theorem handlers_safe {caller : Caller Inst} {α : Type} {q : CacheProgram Shop α} {p : Progress}
    (h : (handling caller.purpose).Safe q p) :
    (handlers Shop Inst).Safe (q.lift (CacheCall.mk caller)) (caller, p) := by
  induction q generalizing p with
  | done r => trivial
  | call c k ih => exact ⟨⟨rfl, h.1⟩, fun r hr => ih r (h.2 r hr)⟩

/-- The histories tell what a handler is in the middle of. -/
def InProgress (w : CacheWorld Shop Inst) (caller : Caller Inst) (k : Caller Inst × Progress) :
    Prop :=
  k = (caller, w.progress caller.serial)

/-- A handler that holds the Caffeine key of its instance. -/
def CacheWorld.Locked (w : CacheWorld Shop Inst) (a : Caller Inst) : Prop :=
  (w.progress a.serial).locked = true

/-- What holds of the handlers that run, in every run. -/
structure Orderly (w : CacheWorld Shop Inst) (callers : List (Caller Inst)) : Prop where
  serials : (callers.map Caller.serial).Nodup
  fresh : ∀ a ∈ callers, a.serial < w.nextSerial
  held : ∀ a ∈ callers, w.Locked a → w.held a.inst = true
  exclusive : ∀ a ∈ callers, ∀ b ∈ callers, w.Locked a → w.Locked b → a.inst = b.inst → a = b
  deleting : ∀ a ∈ callers, ∀ k, a.purpose = .publish k →
    (w.progress a.serial).deleted = true → k ∈ w.deleted
  consumed : ∀ a ∈ callers, ∀ k, a.purpose = .consume k → k ∈ w.deleted
  committed : ∀ a ∈ callers, ∀ k, a.purpose = .publish k → k.update ≤ w.version
  queued : ∀ i, ∀ k ∈ w.queues i, k ∈ w.deleted
  handled : ∀ k i, (k, i) ∈ w.handled → k ∈ w.deleted

theorem Orderly.eq_of_serial {w : CacheWorld Shop Inst} {callers : List (Caller Inst)}
    (h : Orderly w callers) {a b : Caller Inst} (ha : a ∈ callers) (hb : b ∈ callers)
    (hab : a.serial = b.serial) : a = b :=
  List.inj_on_of_nodup_map h.serials ha hb hab

theorem record_histories (w : CacheWorld Shop Inst) (c : CacheCall Shop Inst)
    (r : Except String c.Reply) : (w.record c r).nextSerial = w.nextSerial ∧
    w.deleted ⊆ (w.record c r).deleted ∧
    (∀ k i, (k, i) ∈ (w.record c r).handled → (k, i) ∈ w.handled ∨ i = c.caller.inst ∧
      c.cmd = .invalidate ∧ (c.caller.purpose = .publish k ∨ c.caller.purpose = .consume k)) ∧
    (∀ i, ∀ k ∈ (w.record c r).queues i, k ∈ w.queues i ∨
      c.cmd = .send ∧ c.caller.purpose = .publish k) ∧
    (∀ k, c.caller.purpose = .publish k → c.cmd = .redisDelete →
      k ∈ (w.record c r).deleted) := by
  unfold CacheWorld.record
  split
  · next k hp hc =>
    refine ⟨rfl, List.subset_cons_self _ _, fun _ _ => .inl, fun _ _ => .inl, fun k' hk' _ => ?_⟩
    obtain rfl : k = k' := by simpa [hp] using hk'
    exact List.mem_cons_self
  · next k hp hc =>
    refine ⟨rfl, List.Subset.refl _, fun k' i hk' => ?_, fun _ _ => .inl, by simp [hc]⟩
    rcases List.mem_cons.mp hk' with heq | hk'
    · cases heq; exact .inr ⟨rfl, hc, .inl hp⟩
    · exact .inl hk'
  · next k hp hc =>
    refine ⟨rfl, List.Subset.refl _, fun k' i hk' => ?_, fun _ _ => .inl, by simp [hc]⟩
    rcases List.mem_cons.mp hk' with heq | hk'
    · cases heq; exact .inr ⟨rfl, hc, .inr hp⟩
    · exact .inl hk'
  · next k hp hc =>
    refine ⟨rfl, List.Subset.refl _, fun _ _ => .inl, fun i k' hk' => ?_, by simp [hc]⟩
    rcases List.mem_append.mp hk' with hk' | hk'
    · exact .inl hk'
    · obtain rfl := List.mem_singleton.mp hk'
      exact .inr ⟨hc, hp⟩
  · next hother _ _ _ =>
    exact ⟨rfl, List.Subset.refl _, fun _ _ => .inl, fun _ _ => .inl,
      fun k hp hc => (hother k hp hc).elim⟩

/-- What a call on instance `i` leaves behind is what was there or what the caller had in hand. -/
structure Passes (w w' : CacheWorld Shop Inst) (i : Inst) (p p' : Progress) : Prop where
  version : w'.version = w.version
  redis : ∀ text ∈ w'.redis, text ∈ w.redis ∨ p.unset = some text.version
  caffeine : ∀ j, ∀ shop ∈ w'.caffeine j, shop ∈ w.caffeine j ∨
    j = i ∧ p.locked = true ∧ p.source = some shop.version
  unset : ∀ v ∈ p'.unset, v ∈ p.unset ∨ v = w.version
  source : p'.locked = true → ∀ v ∈ p'.source, p.locked = true ∧ v ∈ p.source ∨ v = w.version ∨
    ∃ text ∈ w.redis, v = text.version

theorem Passes.refl (w : CacheWorld Shop Inst) (i : Inst) (p : Progress) : Passes w w i p p :=
  ⟨rfl, fun _ => .inl, fun _ _ => .inl, fun _ => .inl, fun hl _ hv => .inl ⟨hl, hv⟩⟩

theorem record_deleted {w : CacheWorld Shop Inst} {c : CacheCall Shop Inst}
    {r : Except String c.Reply} {k : Invalidation} (h : k ∈ (w.record c r).deleted) :
    k ∈ w.deleted ∨ c.cmd = .redisDelete ∧ c.caller.purpose = .publish k := by
  unfold CacheWorld.record at h
  split at h
  · next k' hp hc =>
    rcases List.mem_cons.mp h with rfl | h
    · exact .inr ⟨hc, hp⟩
    · exact .inl h
  all_goals exact .inl h

theorem handled_subset_record (w : CacheWorld Shop Inst) (c : CacheCall Shop Inst)
    (r : Except String c.Reply) : w.handled ⊆ (w.record c r).handled := by
  unfold CacheWorld.record
  split
  · exact List.Subset.refl _
  · exact List.subset_cons_self _ _
  · exact List.subset_cons_self _ _
  · exact List.Subset.refl _
  · exact List.Subset.refl _

section Exec
variable [DecidableEq Inst] {w w' : CacheWorld Shop Inst} {callers : List (Caller Inst)}
  {c : CacheCall Shop Inst} {r : Except String c.Reply} {f : CacheChoice}

theorem progress_exec (h : CacheWorld.exec c f w = some (r, w')) :
    w'.progress = Function.update w.progress c.caller.serial
      ((w.progress c.caller.serial).after c.cmd r) := by
  rcases CacheWorld.exec_cases h with ⟨a, w₁, ha, -, rfl⟩ | ⟨-, -, rfl⟩
  · rw [CacheWorld.record_progress, (CacheWorld.answer_histories ha).1]
  · rw [CacheWorld.record_progress]

theorem held_exec (ha : (w.progress c.caller.serial).Allows c.caller.purpose c.cmd)
    (h : CacheWorld.exec c f w = some (r, w')) :
    (w.held c.caller.inst = false ∧ w'.held = Function.update w.held c.caller.inst true) ∨
    (w.Locked c.caller ∧ ¬ w'.Locked c.caller ∧
      w'.held = Function.update w.held c.caller.inst false) ∨
    (w'.held = w.held ∧ (w'.Locked c.caller ↔ w.Locked c.caller)) := by
  have hp := progress_exec h
  simp only [CacheWorld.Locked, hp, Function.update_self]
  obtain ⟨caller, cmd⟩ := c
  rcases CacheWorld.exec_cases h with ⟨a, w₁, hw, rfl, rfl⟩ | ⟨hc, ⟨e, rfl⟩, rfl⟩
  · simp only [CacheWorld.record_held]
    cases cmd with
    | computeBegin =>
      simp only [CacheWorld.answer, Option.ite_none_left_eq_some, Bool.not_eq_true] at hw
      obtain ⟨hfree, hw⟩ := hw
      split at hw
      · cases hw; exact .inr (.inr ⟨rfl, .rfl⟩)
      · cases hw; exact .inl ⟨hfree, rfl⟩
    | computeEnd loaded => cases hw; exact .inr (.inl ⟨ha.1, by simp [Progress.after], rfl⟩)
    | computeAbort => cases hw; exact .inr (.inl ⟨ha, by simp [Progress.after], rfl⟩)
    | invalidate =>
      simp only [CacheWorld.answer, Option.ite_none_left_eq_some] at hw
      cases hw.2
      exact .inr (.inr ⟨rfl, .rfl⟩)
    | redisGet => cases hw; cases hr : w.redis <;> exact .inr (.inr ⟨rfl, .rfl⟩)
    | _ => cases hw; exact .inr (.inr ⟨rfl, .rfl⟩)
  · cases hc
    exact .inr (.inr ⟨by simp, .rfl⟩)

theorem locked_exec_of_ne (h : CacheWorld.exec c f w = some (r, w')) {a : Caller Inst}
    (ha : a.serial ≠ c.caller.serial) : w'.Locked a ↔ w.Locked a := by
  rw [CacheWorld.Locked, progress_exec h, Function.update_of_ne ha]
  rfl

theorem histories_exec (h : CacheWorld.exec c f w = some (r, w')) :
    w'.nextSerial = w.nextSerial ∧ w.deleted ⊆ w'.deleted ∧
    (∀ k i, (k, i) ∈ w'.handled → (k, i) ∈ w.handled ∨ i = c.caller.inst ∧ c.cmd = .invalidate ∧
      (c.caller.purpose = .publish k ∨ c.caller.purpose = .consume k)) ∧
    (∀ i, ∀ k ∈ w'.queues i, k ∈ w.queues i ∨ c.cmd = .send ∧ c.caller.purpose = .publish k) ∧
    (∀ k, c.caller.purpose = .publish k → c.cmd = .redisDelete → k ∈ w'.deleted) := by
  rcases CacheWorld.exec_cases h with ⟨a, w₁, hw, -, rfl⟩ | ⟨-, -, rfl⟩
  · obtain ⟨-, hs, hd, hh, hq⟩ := CacheWorld.answer_histories hw
    rw [← hs, ← hd, ← hh, ← hq]
    exact record_histories w₁ c r
  · exact record_histories w c r

/-- After a delete of its own, and only then, a worker counts as having deleted the key. -/
theorem deleted_after {p : Progress} {cmd : CacheCmd Shop} {r : Except String cmd.Reply}
    (h : (p.after cmd r).deleted = true) : p.deleted = true ∨ cmd = .redisDelete := by
  unfold Progress.after at h
  split at h <;> first | exact .inr rfl | exact .inl h

/-- Nothing older than version `n` is in Redis, on its way there, or in a cache whose instance has
handled the invalidation `k`, or on its way there. -/
structure Coherent (n : ℕ) (k : Invalidation) (w : CacheWorld Shop Inst)
    (callers : List (Caller Inst)) : Prop where
  version : n ≤ w.version
  redis : ∀ text ∈ w.redis, n ≤ text.version
  unset : ∀ a ∈ callers, ∀ v ∈ (w.progress a.serial).unset, n ≤ v
  caffeine : ∀ i, (k, i) ∈ w.handled → ∀ shop ∈ w.caffeine i, n ≤ shop.version
  source : ∀ a ∈ callers, (k, a.inst) ∈ w.handled → w.Locked a →
    ∀ v ∈ (w.progress a.serial).source, n ≤ v

theorem mem_of_mem_update {g : Inst → Option (Versioned Shop)} {i j : Inst}
    {o : Option (Versioned Shop)} {shop : Versioned Shop}
    (h : shop ∈ Function.update g i o j) : shop ∈ g j ∨ j = i ∧ shop ∈ o := by
  by_cases hj : j = i
  · subst hj
    rw [Function.update_self] at h
    exact .inr ⟨rfl, h⟩
  · rw [Function.update_of_ne hj] at h
    exact .inl h

theorem passes_answer {i : Inst} {p : Progress} {purpose : Purpose} {cmd : CacheCmd Shop}
    {a : cmd.Reply} (ha : p.Allows purpose cmd) (h : w.answer i cmd = some (a, w')) :
    Passes w w' i p (p.after cmd (.ok a)) := by
  have hp := Passes.refl w i p
  cases cmd with
  | getIfPresent => cases h; exact hp
  | computeBegin =>
    simp only [CacheWorld.answer, Option.ite_none_left_eq_some] at h
    obtain ⟨-, h⟩ := h
    split at h
    · cases h; exact hp
    · cases h; exact ⟨rfl, hp.redis, hp.caffeine, hp.unset, by simp [Progress.after]⟩
  | computeEnd loaded =>
    cases h
    refine ⟨rfl, hp.redis, fun j shop hs => ?_, hp.unset, by simp [Progress.after]⟩
    rcases mem_of_mem_update hs with hold | ⟨rfl, hnew⟩
    · exact .inl hold
    · exact .inr ⟨rfl, ha.1, ha.2 shop hnew⟩
  | computeAbort => cases h; exact ⟨rfl, hp.redis, hp.caffeine, hp.unset, by simp [Progress.after]⟩
  | put shop => exact ha.elim
  | invalidate =>
    simp only [CacheWorld.answer, Option.ite_none_left_eq_some] at h
    cases h.2
    refine ⟨rfl, hp.redis, fun j shop hs => ?_, hp.unset, hp.source⟩
    rcases mem_of_mem_update hs with hold | ⟨-, hnone⟩
    · exact .inl hold
    · cases hnone
  | redisGet =>
    cases h
    cases hr : w.redis with
    | none => exact hp
    | some text =>
      refine ⟨rfl, hp.redis, hp.caffeine, hp.unset, fun _ v hv => .inr (.inr ⟨text, hr, ?_⟩)⟩
      exact (Option.mem_some_iff.mp hv).symm
  | redisSet text =>
    cases h
    refine ⟨rfl, fun t ht => .inr ?_, hp.caffeine, by simp [Progress.after], hp.source⟩
    rw [Option.mem_some_iff.mp ht] at ha
    exact ha
  | redisDelete => cases h; exact ⟨rfl, by simp, hp.caffeine, hp.unset, hp.source⟩
  | dbFallback =>
    cases h
    exact ⟨rfl, hp.redis, hp.caffeine, fun v hv => .inr (Option.mem_some_iff.mp hv).symm,
      fun _ v hv => .inr (.inl (Option.mem_some_iff.mp hv).symm)⟩
  | send => cases h; exact hp

theorem passes_exec (ha : (w.progress c.caller.serial).Allows c.caller.purpose c.cmd)
    (h : CacheWorld.exec c f w = some (r, w')) :
    Passes w w' c.caller.inst (w.progress c.caller.serial) (w'.progress c.caller.serial) := by
  rw [progress_exec h, Function.update_self]
  rcases CacheWorld.exec_cases h with ⟨a, w₁, hw, rfl, rfl⟩ | ⟨hc, ⟨e, rfl⟩, rfl⟩
  · obtain ⟨hv, hr, hcaf, hu, hs⟩ := passes_answer ha hw
    exact ⟨by simpa using hv, by simpa using hr, by simpa using hcaf, hu, hs⟩
  · obtain ⟨caller, cmd⟩ := c
    cases hc
    obtain ⟨hv, hr, hcaf, hu, hs⟩ := Passes.refl w caller.inst (w.progress caller.serial)
    exact ⟨by simp, by simpa using hr, by simpa using hcaf, hu, hs⟩

/-- A local invalidation waits for the load that holds the key. -/
theorem invalidate_exec (hc : c.cmd = .invalidate) (h : CacheWorld.exec c f w = some (r, w')) :
    w.held c.caller.inst = false ∧ w'.caffeine c.caller.inst = none ∧
      w'.progress c.caller.serial = w.progress c.caller.serial := by
  rw [progress_exec h, Function.update_self]
  obtain ⟨caller, cmd⟩ := c
  cases hc
  rcases CacheWorld.exec_cases h with ⟨a, w₁, hw, rfl, rfl⟩ | ⟨hdb, -⟩
  · simp only [CacheWorld.answer, Option.ite_none_left_eq_some, Bool.not_eq_true] at hw
    obtain ⟨hfree, hw⟩ := hw
    cases hw
    exact ⟨hfree, by simp, rfl⟩
  · cases hdb

theorem Orderly.locked_exec (ho : Orderly w callers) (hc : c.caller ∈ callers)
    (h : CacheWorld.exec c f w = some (r, w')) :
    ∀ a ∈ callers, a ≠ c.caller → (w'.Locked a ↔ w.Locked a) :=
  fun _ ha hac => locked_exec_of_ne h fun hs => hac (ho.eq_of_serial ha hc hs)

theorem Orderly.held_exec (ho : Orderly w callers) (hc : c.caller ∈ callers)
    (ha : (w.progress c.caller.serial).Allows c.caller.purpose c.cmd)
    (h : CacheWorld.exec c f w = some (r, w')) :
    ∀ a ∈ callers, w'.Locked a → w'.held a.inst = true := by
  have hlocked := ho.locked_exec hc h
  intro a ha' hl
  rcases Cache.held_exec ha h with ⟨hfree, hh⟩ | ⟨hl₀, hl₁, hh⟩ | ⟨hh, hiff⟩
  · rw [hh]
    by_cases hi : a.inst = c.caller.inst
    · rw [hi, Function.update_self]
    · rw [Function.update_of_ne hi]
      have hac : a ≠ c.caller := fun hac => hi (hac ▸ rfl)
      exact ho.held a ha' ((hlocked a ha' hac).mp hl)
  · have hac : a ≠ c.caller := fun hac => hl₁ (hac ▸ hl)
    have hl := (hlocked a ha' hac).mp hl
    rw [hh, Function.update_of_ne fun hi => hac (ho.exclusive a ha' _ hc hl hl₀ hi)]
    exact ho.held a ha' hl
  · rw [hh]
    by_cases hac : a = c.caller
    · subst hac; exact ho.held _ hc (hiff.mp hl)
    · exact ho.held a ha' ((hlocked a ha' hac).mp hl)

theorem Orderly.exclusive_exec (ho : Orderly w callers) (hc : c.caller ∈ callers)
    (ha : (w.progress c.caller.serial).Allows c.caller.purpose c.cmd)
    (h : CacheWorld.exec c f w = some (r, w')) :
    ∀ a ∈ callers, ∀ b ∈ callers, w'.Locked a → w'.Locked b → a.inst = b.inst → a = b := by
  have hlocked := ho.locked_exec hc h
  rcases Cache.held_exec ha h with ⟨hfree, -⟩ | ⟨hl₀, hl₁, -⟩ | ⟨-, hiff⟩
  · have hother : ∀ a ∈ callers, a ≠ c.caller → w'.Locked a → a.inst ≠ c.caller.inst := by
      intro a ha' hac hl hi
      have hheld := ho.held a ha' ((hlocked a ha' hac).mp hl)
      rw [hi, hfree] at hheld
      cases hheld
    intro a ha' b hb hla hlb hi
    by_cases hac : a = c.caller
    · by_cases hbc : b = c.caller
      · rw [hac, hbc]
      · exact absurd (hac ▸ hi.symm) (hother b hb hbc hlb)
    · by_cases hbc : b = c.caller
      · exact absurd (hbc ▸ hi) (hother a ha' hac hla)
      · exact ho.exclusive a ha' b hb ((hlocked a ha' hac).mp hla) ((hlocked b hb hbc).mp hlb) hi
  · intro a ha' b hb hla hlb hi
    have hac : a ≠ c.caller := fun hac => hl₁ (hac ▸ hla)
    have hbc : b ≠ c.caller := fun hbc => hl₁ (hbc ▸ hlb)
    exact ho.exclusive a ha' b hb ((hlocked a ha' hac).mp hla) ((hlocked b hb hbc).mp hlb) hi
  · have hall : ∀ a ∈ callers, w'.Locked a → w.Locked a := by
      intro a ha' hl
      by_cases hac : a = c.caller
      · subst hac; exact hiff.mp hl
      · exact (hlocked a ha' hac).mp hl
    exact fun a ha' b hb hla hlb hi =>
      ho.exclusive a ha' b hb (hall a ha' hla) (hall b hb hlb) hi

theorem Orderly.exec (ho : Orderly w callers) (hc : c.caller ∈ callers)
    (ha : (w.progress c.caller.serial).Allows c.caller.purpose c.cmd)
    (h : CacheWorld.exec c f w = some (r, w')) : Orderly w' callers := by
  obtain ⟨hserial, hdeleted, hhandled, hqueues, hown⟩ := histories_exec h
  refine ⟨ho.serials, fun a ha' => hserial ▸ ho.fresh a ha', ho.held_exec hc ha h,
    ho.exclusive_exec hc ha h, ?deleting, fun a ha' k hk => hdeleted (ho.consumed a ha' k hk),
    fun a ha' k hk => (passes_exec ha h).version ▸ ho.committed a ha' k hk, ?queued, ?handled⟩
  case deleting =>
    intro a ha' k hk hd
    by_cases hac : a = c.caller
    · subst hac
      rw [progress_exec h, Function.update_self] at hd
      rcases deleted_after hd with hd | hcmd
      · exact hdeleted (ho.deleting _ hc k hk hd)
      · exact hown k hk hcmd
    · rw [progress_exec h, Function.update_of_ne fun hs => hac (ho.eq_of_serial ha' hc hs)] at hd
      exact hdeleted (ho.deleting a ha' k hk hd)
  case queued =>
    intro i k hk
    rcases hqueues i k hk with hk | ⟨hcmd, hp⟩
    · exact hdeleted (ho.queued i k hk)
    · rw [hcmd] at ha
      exact hdeleted (ho.deleting _ hc k hp (ha k hp))
  case handled =>
    intro k i hk
    rcases hhandled k i hk with hk | ⟨-, hcmd, hp | hp⟩
    · exact hdeleted (ho.handled k i hk)
    · rw [hcmd] at ha
      exact hdeleted (ho.deleting _ hc k hp (ha k hp))
    · exact hdeleted (ho.consumed _ hc k hp)

theorem Coherent.exec {n : ℕ} {k : Invalidation} (hk : Coherent n k w callers)
    (ho : Orderly w callers) (hc : c.caller ∈ callers)
    (ha : (w.progress c.caller.serial).Allows c.caller.purpose c.cmd)
    (h : CacheWorld.exec c f w = some (r, w')) : Coherent n k w' callers := by
  have hpasses := passes_exec ha h
  obtain ⟨-, -, hhandled, -, -⟩ := histories_exec h
  have hne : ∀ a ∈ callers, a ≠ c.caller → w'.progress a.serial = w.progress a.serial :=
    fun a ha' hac => by
      rw [progress_exec h, Function.update_of_ne fun hs => hac (ho.eq_of_serial ha' hc hs)]
  refine ⟨hpasses.version ▸ hk.version, ?redis, ?unset, ?caffeine, ?source⟩
  case redis =>
    intro text ht
    rcases hpasses.redis text ht with ht | hu
    · exact hk.redis text ht
    · exact hk.unset _ hc _ hu
  case unset =>
    intro a ha' v hv
    by_cases hac : a = c.caller
    · subst hac
      rcases hpasses.unset v hv with hv | rfl
      · exact hk.unset _ hc v hv
      · exact hk.version
    · rw [hne a ha' hac] at hv
      exact hk.unset a ha' v hv
  case caffeine =>
    intro i hi shop hs
    rcases hhandled k i hi with hi | ⟨rfl, hcmd, -⟩
    · rcases hpasses.caffeine i shop hs with hs | ⟨rfl, hl, hv⟩
      · exact hk.caffeine i hi shop hs
      · exact hk.source _ hc hi hl _ hv
    · rw [(invalidate_exec hcmd h).2.1] at hs
      cases hs
  case source =>
    intro a ha' hi hl v hv
    rcases hhandled k a.inst hi with hi | ⟨hinst, hcmd, -⟩
    · by_cases hac : a = c.caller
      · subst hac
        rcases hpasses.source hl v hv with ⟨hl, hv⟩ | rfl | ⟨text, ht, rfl⟩
        · exact hk.source _ hc hi hl v hv
        · exact hk.version
        · exact hk.redis text ht
      · rw [CacheWorld.Locked, hne a ha' hac] at hl
        rw [hne a ha' hac] at hv
        exact hk.source a ha' hi hl v hv
    · -- an instance clears its cache only while no load holds the key
      obtain ⟨hfree, -, hsame⟩ := invalidate_exec hcmd h
      have hl : w.Locked a := by
        by_cases hac : a = c.caller
        · subst hac; rwa [CacheWorld.Locked, hsame] at hl
        · rwa [CacheWorld.Locked, hne a ha' hac] at hl
      have hheld := ho.held a ha' hl
      rw [hinst, hfree] at hheld
      cases hheld

/-- When a worker counts as having deleted the Redis key, it is gone. -/
theorem deleted_exec (h : CacheWorld.exec c f w = some (r, w')) {k : Invalidation}
    (hk : k ∈ w'.deleted) : k ∈ w.deleted ∨ w'.redis = none ∧ w'.handled = w.handled ∧
      (w'.progress c.caller.serial).unset = (w.progress c.caller.serial).unset ∧
      c.caller.purpose = .publish k ∧ w'.version = w.version := by
  rcases CacheWorld.exec_cases h with ⟨a, w₁, hw, rfl, rfl⟩ | ⟨hdb, -, rfl⟩
  · rcases record_deleted hk with hk | ⟨hcmd, hp⟩
    · rw [(CacheWorld.answer_histories hw).2.2.1] at hk
      exact .inl hk
    · obtain ⟨⟨serial, i, purpose⟩, cmd⟩ := c
      cases hcmd
      cases hp
      cases hw
      refine .inr ⟨rfl, rfl, ?_, rfl, rfl⟩
      simp [Progress.after]
  · rcases record_deleted hk with hk | ⟨hcmd, -⟩
    · exact .inl hk
    · rw [hdb] at hcmd
      cases hcmd

theorem handled_exec (h : CacheWorld.exec c f w = some (r, w')) : w.handled ⊆ w'.handled := by
  rcases CacheWorld.exec_cases h with ⟨a, w₁, hw, -, rfl⟩ | ⟨-, -, rfl⟩
  · rw [← (CacheWorld.answer_histories hw).2.2.2.1]
    exact handled_subset_record w₁ c r
  · exact handled_subset_record w c r

end Exec

section Callers
variable {w : CacheWorld Shop Inst} {callers callers' : List (Caller Inst)} {n : ℕ}
  {k : Invalidation}

theorem Orderly.sublist (ho : Orderly w callers) (h : callers'.Sublist callers) :
    Orderly w callers' where
  serials := ho.serials.sublist (h.map Caller.serial)
  fresh a ha := ho.fresh a (h.subset ha)
  held a ha := ho.held a (h.subset ha)
  exclusive a ha b hb := ho.exclusive a (h.subset ha) b (h.subset hb)
  deleting a ha := ho.deleting a (h.subset ha)
  consumed a ha := ho.consumed a (h.subset ha)
  committed a ha := ho.committed a (h.subset ha)
  queued := ho.queued
  handled := ho.handled

theorem Coherent.sublist (hk : Coherent n k w callers) (h : callers'.Sublist callers) :
    Coherent n k w callers' where
  version := hk.version
  redis := hk.redis
  unset a ha := hk.unset a (h.subset ha)
  caffeine := hk.caffeine
  source a ha := hk.source a (h.subset ha)

theorem progress_spawn (w : CacheWorld Shop Inst) (i : Inst) (purpose : Purpose)
    (p : CacheProgram Shop Unit) {a : Caller Inst} (ha : a.serial < w.nextSerial) :
    (w.spawn i purpose p).1.progress a.serial = w.progress a.serial :=
  Function.update_of_ne (ne_of_lt ha) _ _

theorem Orderly.spawn (ho : Orderly w callers) {i : Inst} {purpose : Purpose}
    {p : CacheProgram Shop Unit} (hconsume : ∀ k, purpose = .consume k → k ∈ w.deleted)
    (hpublish : ∀ k, purpose = .publish k → k.update ≤ w.version) :
    Orderly (w.spawn i purpose p).1 (callers ++ [⟨w.nextSerial, i, purpose⟩]) := by
  have hold : ∀ a ∈ callers, (w.spawn i purpose p).1.progress a.serial = w.progress a.serial :=
    fun a ha => progress_spawn w i purpose p (ho.fresh a ha)
  have hnew : (w.spawn i purpose p).1.progress w.nextSerial = .start := Function.update_self _ _ _
  have hmem : ∀ a ∈ callers ++ [⟨w.nextSerial, i, purpose⟩],
      a ∈ callers ∨ a = ⟨w.nextSerial, i, purpose⟩ := by simp
  have hlocked : ∀ a ∈ callers ++ [⟨w.nextSerial, i, purpose⟩],
      (w.spawn i purpose p).1.Locked a → a ∈ callers ∧ w.Locked a := by
    intro a ha hl
    rcases hmem a ha with ha | rfl
    · rw [CacheWorld.Locked, hold a ha] at hl
      exact ⟨ha, hl⟩
    · rw [CacheWorld.Locked, hnew] at hl
      cases hl
  refine ⟨?_, fun a ha => ?_, fun a ha hl => ?_, fun a ha b hb hla hlb => ?_, fun a ha k hk hd => ?_,
    fun a ha k hk => ?_, fun a ha k hk => ?_, ho.queued, ho.handled⟩
  · rw [List.map_append, List.nodup_append]
    refine ⟨ho.serials, List.nodup_singleton _, fun s hs s' hs' => ?_⟩
    obtain ⟨a, ha, rfl⟩ := List.mem_map.mp hs
    obtain rfl := List.mem_singleton.mp hs'
    exact ne_of_lt (ho.fresh a ha)
  · rcases hmem a ha with ha | rfl
    · exact Nat.lt_succ_of_lt (ho.fresh a ha)
    · exact Nat.lt_succ_self _
  · obtain ⟨ha, hl⟩ := hlocked a ha hl
    exact ho.held a ha hl
  · obtain ⟨ha, hla⟩ := hlocked a ha hla
    obtain ⟨hb, hlb⟩ := hlocked b hb hlb
    exact ho.exclusive a ha b hb hla hlb
  · rcases hmem a ha with ha | rfl
    · rw [hold a ha] at hd
      exact ho.deleting a ha k hk hd
    · rw [hnew] at hd
      cases hd
  · rcases hmem a ha with ha | rfl
    · exact ho.consumed a ha k hk
    · exact hconsume k hk
  · rcases hmem a ha with ha | rfl
    · exact ho.committed a ha k hk
    · exact hpublish k hk

theorem Coherent.spawn (hk : Coherent n k w callers) (ho : Orderly w callers) (i : Inst)
    (purpose : Purpose) (p : CacheProgram Shop Unit) :
    Coherent n k (w.spawn i purpose p).1 (callers ++ [⟨w.nextSerial, i, purpose⟩]) := by
  have hold : ∀ a ∈ callers, (w.spawn i purpose p).1.progress a.serial = w.progress a.serial :=
    fun a ha => progress_spawn w i purpose p (ho.fresh a ha)
  have hnew : (w.spawn i purpose p).1.progress w.nextSerial = .start := Function.update_self _ _ _
  refine ⟨hk.version, hk.redis, fun a ha v hv => ?_, hk.caffeine, fun a ha hi hl v hv => ?_⟩
  · rcases List.mem_append.mp ha with ha | ha
    · rw [hold a ha] at hv
      exact hk.unset a ha v hv
    · obtain rfl := List.mem_singleton.mp ha
      rw [hnew] at hv
      cases hv
  · rcases List.mem_append.mp ha with ha | ha
    · rw [CacheWorld.Locked, hold a ha] at hl
      rw [hold a ha] at hv
      exact hk.source a ha hi hl v hv
    · obtain rfl := List.mem_singleton.mp ha
      rw [CacheWorld.Locked, hnew] at hl
      cases hl

end Callers

section Run
variable {c : CachePool Shop Inst}

def callers (c : CachePool Shop Inst) : List (Caller Inst) := c.threads.map fun t => t.tag

/-- The invariant of every run. -/
structure WellRun (c : CachePool Shop Inst) : Prop where
  orderly : Orderly c.shared (callers c)
  knows : Machine.Knows (handlers Shop Inst) InProgress c

theorem spawn_safe {w : CacheWorld Shop Inst} {i : Inst} {purpose : Purpose}
    {p : CacheProgram Shop Unit} (hp : (handling purpose).Safe p .start) :
    ∀ t ∈ (w.spawn i purpose p).2, ∃ κ, InProgress (w.spawn i purpose p).1 t.tag κ ∧
      (handlers Shop Inst).Safe t.program κ := by
  intro t ht
  obtain rfl := List.mem_singleton.mp ht
  refine ⟨_, rfl, handlers_safe ?_⟩
  rw [show (w.spawn i purpose p).1.progress w.nextSerial = .start from Function.update_self _ _ _]
  exact hp

theorem WellRun.serials (hc : WellRun c) : (c.threads.map fun t => t.tag.serial).Nodup := by
  simpa [callers, Function.comp_def] using hc.orderly.serials

theorem WellRun.beside (hc : WellRun c) {w : CacheWorld Shop Inst}
    (hprogress : w.progress = c.shared.progress) (hserial : w.nextSerial = c.shared.nextSerial)
    (hheld : w.held = c.shared.held) (hdeleted : w.deleted = c.shared.deleted)
    (hhandled : w.handled = c.shared.handled) (hqueues : ∀ i, w.queues i ⊆ c.shared.queues i)
    (hversion : c.shared.version ≤ w.version) : WellRun ⟨w, c.threads⟩ := by
  have ho := hc.orderly
  refine ⟨⟨ho.serials, hserial ▸ ho.fresh, ?_, ?_, ?_, hdeleted ▸ ho.consumed,
    fun a ha k hk => (ho.committed a ha k hk).trans hversion,
    fun i k hk => hdeleted ▸ ho.queued i k (hqueues i hk), ?_⟩, ?_⟩
  · intro a ha hl
    rw [CacheWorld.Locked, hprogress] at hl
    rw [hheld]
    exact ho.held a ha hl
  · intro a ha b hb hla hlb
    rw [CacheWorld.Locked, hprogress] at hla hlb
    exact ho.exclusive a ha b hb hla hlb
  · intro a ha k hk hd
    rw [hprogress] at hd
    exact hdeleted ▸ ho.deleting a ha k hk hd
  · intro k i hk
    rw [hhandled] at hk
    exact hdeleted ▸ ho.handled k i hk
  · intro t ht
    obtain ⟨κ, hκ, hs⟩ := hc.knows t ht
    exact ⟨κ, hκ.trans (by rw [hprogress]), hs⟩

theorem WellRun.spawn (hc : WellRun c) {i : Inst} {purpose : Purpose} {p : CacheProgram Shop Unit}
    (hconsume : ∀ k, purpose = .consume k → k ∈ c.shared.deleted)
    (hpublish : ∀ k, purpose = .publish k → k.update ≤ c.shared.version)
    (hp : (handling purpose).Safe p .start) :
    WellRun ⟨(c.shared.spawn i purpose p).1, c.threads ++ (c.shared.spawn i purpose p).2⟩ := by
  refine ⟨?_, ?_⟩
  · have ho := hc.orderly.spawn (i := i) (p := p) hconsume hpublish
    simpa [callers, CacheWorld.spawn] using ho
  · intro t ht
    rcases List.mem_append.mp ht with ht | ht
    · obtain ⟨κ, hκ, hs⟩ := hc.knows t ht
      have hold := progress_spawn c.shared i purpose p
        (hc.orderly.fresh t.tag (List.mem_map_of_mem ht))
      exact ⟨κ, hκ.trans (by rw [hold]), hs⟩
    · exact spawn_safe hp t ht

/-- A call of the thread that runs, as the invariant sees it. -/
theorem WellRun.call (hc : WellRun c) {i : ℕ} {tag : Caller Inst} {cmd : CacheCall Shop Inst}
    {k : Except String cmd.Reply → Program (CacheCall Shop Inst) CacheCall.Reply String Unit}
    (hi : c.threads[i]? = some ⟨tag, .call cmd k⟩) : cmd.caller = tag ∧ cmd.caller ∈ callers c ∧
      (c.shared.progress cmd.caller.serial).Allows cmd.caller.purpose cmd.cmd := by
  obtain ⟨κ, rfl, ⟨hcaller, hallows⟩, -⟩ := hc.knows.thread hi
  have hcaller : cmd.caller = tag := hcaller
  refine ⟨hcaller, ?_, hcaller ▸ hallows⟩
  rw [hcaller]
  exact List.mem_map_of_mem (f := fun t => t.tag) (List.mem_of_getElem? hi)

theorem Coherent.spawned {n : ℕ} {k : Invalidation} (hk : Coherent n k c.shared (callers c))
    (hc : WellRun c) {i : Inst} {purpose : Purpose} {p : CacheProgram Shop Unit} :
    Coherent n k (c.shared.spawn i purpose p).1
      (callers ⟨(c.shared.spawn i purpose p).1, c.threads ++ (c.shared.spawn i purpose p).2⟩) := by
  have h := hk.spawn hc.orderly i purpose p
  simpa [callers, CacheWorld.spawn] using h

variable [DecidableEq Inst] {c' : CachePool Shop Inst} {mv : Move CacheChoice (CacheAction Shop Inst)}

theorem CacheWorld.act_process {w : CacheWorld Shop Inst} {i : Inst} {update stage : ℕ}
    {p : CacheWorld Shop Inst ×
      List (Thread (CacheCall Shop Inst) CacheCall.Reply String (Caller Inst))}
    (h : w.act (.process i update stage) = some p) : update ≤ w.version ∧
      p = w.spawn i (.publish ⟨w.nextSerial, update, stage⟩) invalidateShop := by
  simp only [act, Option.ite_none_right_eq_some, Option.some.injEq] at h
  exact ⟨h.1, h.2.symm⟩

theorem CacheWorld.act_deliver {w : CacheWorld Shop Inst} {i : Inst} {k : Invalidation}
    {again : Bool} {p : CacheWorld Shop Inst ×
      List (Thread (CacheCall Shop Inst) CacheCall.Reply String (Caller Inst))}
    (h : w.act (.deliver i k again) = some p) : k ∈ w.queues i ∧
      p = (w.dequeue i k again).spawn i (.consume k) (onCacheInvalidate "shop") := by
  simp only [act, Option.ite_none_right_eq_some, Option.some.injEq] at h
  exact ⟨h.1, h.2.symm⟩

@[simp] theorem CacheWorld.deleted_dequeue (w : CacheWorld Shop Inst) (i : Inst) (k : Invalidation)
    (again : Bool) : (w.dequeue i k again).deleted = w.deleted := by
  unfold dequeue
  split <;> rfl

@[simp] theorem CacheWorld.handled_dequeue (w : CacheWorld Shop Inst) (i : Inst) (k : Invalidation)
    (again : Bool) : (w.dequeue i k again).handled = w.handled := by
  unfold dequeue
  split <;> rfl

theorem WellRun.dequeue (hc : WellRun c) (i : Inst) (k : Invalidation) (again : Bool) :
    WellRun ⟨c.shared.dequeue i k again, c.threads⟩ := by
  unfold CacheWorld.dequeue
  split
  · exact hc
  · refine hc.beside rfl rfl rfl rfl rfl (fun j => ?_) (Nat.le_refl _)
    by_cases hj : j = i
    · subst hj
      simpa using List.erase_subset
    · simp [Function.update_of_ne hj]

theorem WellRun.fires (hc : WellRun c) (h : (shopCaches Shop Inst).Fires c mv c') : WellRun c' := by
  cases h with
  | @run i f tag cmd k r w hi hexec =>
    obtain ⟨hcaller, hmem, hallows⟩ := hc.call hi
    refine ⟨?_, hc.knows.run hi (fun j t hji hj κ hκ => ?_) fun κ hκ _ => ⟨?_, ?_⟩⟩
    · have ho := hc.orderly.exec hmem hallows hexec
      rwa [callers, ← Machine.map_tag_set (fun a => a) hi] at ho
    · have hne := Machine.tag_ne_of_nodup (g := Caller.serial) hc.serials hi hj hji
      rw [InProgress, progress_exec hexec, Function.update_of_ne (hcaller ▸ hne)]
      exact hκ
    · exact CacheWorld.exec_foreseen hexec
    · obtain rfl := hκ
      rw [InProgress, progress_exec hexec, hcaller, Function.update_self]
      rfl
  | @crash i hb =>
    have hsub : (callers ⟨c.shared, c.threads.eraseIdx i⟩).Sublist (callers c) :=
      (List.eraseIdx_sublist c.threads i).map _
    exact ⟨hc.orderly.sublist hsub, hc.knows.crash _⟩
  | @act a w started hact =>
    cases a with
    | update row =>
      cases hact
      rw [List.append_nil]
      exact hc.beside rfl rfl rfl rfl rfl (fun _ => List.Subset.refl _) (Nat.le_succ _)
    | query i enabled =>
      cases hact
      exact hc.spawn (by simp) (by simp) ((queryShopById_safe enabled).bind fun _ _ => trivial)
    | process i update stage =>
      obtain ⟨hle, hact⟩ := CacheWorld.act_process hact
      cases hact
      exact hc.spawn (by simp) (by rintro _ ⟨⟩; exact hle) invalidateShop_safe
    | deliver i k again =>
      obtain ⟨hmem, hact⟩ := CacheWorld.act_deliver hact
      cases hact
      refine (hc.dequeue i k again).spawn ?_ (by simp) (onCacheInvalidate_safe "shop")
      rintro _ ⟨⟩
      simpa using hc.orderly.queued i k hmem
    | expireRedis =>
      cases hact
      rw [List.append_nil]
      exact hc.beside rfl rfl rfl rfl rfl (fun _ => List.Subset.refl _) (Nat.le_refl _)
    | expireLocal i =>
      cases hact
      rw [List.append_nil]
      exact hc.beside rfl rfl rfl rfl rfl (fun _ => List.Subset.refl _) (Nat.le_refl _)

/-- The histories of handled invalidations only grow. -/
theorem handled_fires (h : (shopCaches Shop Inst).Fires c mv c') :
    c.shared.handled ⊆ c'.shared.handled := by
  cases h with
  | run hi hexec => exact handled_exec hexec
  | crash hb => exact List.Subset.refl _
  | @act a w started hact =>
    cases a with
    | process i update stage =>
      cases (CacheWorld.act_process hact).2
      exact List.Subset.refl _
    | deliver i k again =>
      cases (CacheWorld.act_deliver hact).2
      exact CacheWorld.handled_dequeue c.shared i k again ▸ List.Subset.refl _
    | _ => cases hact; exact List.Subset.refl _

variable {n : ℕ} {k : Invalidation}

theorem Coherent.fires (hk : Coherent n k c.shared (callers c)) (hc : WellRun c)
    (h : (shopCaches Shop Inst).Fires c mv c') : Coherent n k c'.shared (callers c') := by
  cases h with
  | @run i f tag cmd _ r w hi hexec =>
    obtain ⟨hcaller, hmem, hallows⟩ := hc.call hi
    have h := hk.exec hc.orderly hmem hallows hexec
    rwa [callers, ← Machine.map_tag_set (fun a => a) hi] at h
  | @crash i hb => exact hk.sublist ((List.eraseIdx_sublist c.threads i).map _)
  | @act a w started hact =>
    cases a with
    | update row =>
      cases hact
      rw [List.append_nil]
      exact ⟨Nat.le_succ_of_le hk.version, hk.redis, hk.unset, hk.caffeine, hk.source⟩
    | query i enabled =>
      cases hact
      exact hk.spawned hc
    | process i update stage =>
      cases (CacheWorld.act_process hact).2
      exact hk.spawned hc
    | deliver i k' again =>
      cases (CacheWorld.act_deliver hact).2
      refine Coherent.spawned (c := ⟨c.shared.dequeue i k' again, c.threads⟩) ?_
        (hc.dequeue i k' again)
      show Coherent n k (c.shared.dequeue i k' again) (callers c)
      unfold CacheWorld.dequeue
      split
      · exact hk
      · exact ⟨hk.version, hk.redis, hk.unset, hk.caffeine, hk.source⟩
    | expireRedis =>
      cases hact
      rw [List.append_nil]
      exact ⟨hk.version, by simp, hk.unset, hk.caffeine, hk.source⟩
    | expireLocal i =>
      cases hact
      rw [List.append_nil]
      refine ⟨hk.version, hk.redis, hk.unset, fun j hj shop hs => ?_, hk.source⟩
      rcases mem_of_mem_update hs with hold | ⟨-, hnone⟩
      · exact hk.caffeine j hj shop hold
      · cases hnone

/-- When a worker deletes the Redis key and no load has an older row for it, all is coherent. -/
theorem coherent_of_delete (hc : WellRun c) (h : (shopCaches Shop Inst).Fires c mv c')
    (hbefore : k ∉ c.shared.deleted) (hafter : k ∈ c'.shared.deleted)
    (hloads : ∀ t ∈ c.threads, ∀ v ∈ (c.shared.progress t.tag.serial).unset, k.update ≤ v) :
    Coherent k.update k c'.shared (callers c') := by
  have hunset : ∀ a ∈ callers c, ∀ v ∈ (c.shared.progress a.serial).unset, k.update ≤ v := by
    intro a ha v hv
    obtain ⟨t, ht, rfl⟩ := List.mem_map.mp ha
    exact hloads t ht v hv
  cases h with
  | @run i f tag cmd _ r w hi hexec =>
    obtain ⟨hcaller, hmem, hallows⟩ := hc.call hi
    rcases deleted_exec hexec hafter with hk | ⟨hredis, hhandled, hown, hpurpose, hversion⟩
    · exact absurd hk hbefore
    have hnot : ∀ i, (k, i) ∉ w.handled := fun i hi =>
      hbefore (hc.orderly.handled k i (hhandled ▸ hi))
    refine ⟨?_, ?_, fun a ha v hv => ?_, fun i hi => absurd hi (hnot i), fun a _ hi => absurd hi (hnot _)⟩
    · exact hversion ▸ hc.orderly.committed _ hmem k hpurpose
    · intro text ht
      have ht : text ∈ w.redis := ht
      rw [hredis] at ht
      cases ht
    · have ha : a ∈ callers c := by
        rwa [callers, Machine.map_tag_set (fun a => a) hi] at ha
      by_cases hac : a = cmd.caller
      · subst hac
        exact hunset _ ha v (hown ▸ hv)
      · refine hunset a ha v ?_
        have hne : a.serial ≠ cmd.caller.serial := fun hs =>
          hac (hc.orderly.eq_of_serial ha hmem hs)
        have hsame : w.progress a.serial = c.shared.progress a.serial := by
          rw [progress_exec hexec, Function.update_of_ne hne]
        exact hsame ▸ hv
  | crash hb => exact absurd hafter hbefore
  | @act a w started hact =>
    refine absurd ?_ hbefore
    cases a with
    | process i update stage =>
      cases (CacheWorld.act_process hact).2
      exact hafter
    | deliver i k' again =>
      cases (CacheWorld.act_deliver hact).2
      exact CacheWorld.deleted_dequeue c.shared i k' again ▸ hafter
    | _ => cases hact; exact hafter

end Run

/-- The delayed second delete restores coherence: if every load that read a version older than
update `n` has set it in Redis before the worker of the event deletes the key, then neither Redis
nor any Caffeine cache holds such a version once every instance has handled the invalidation. -/
theorem delayed_delete_restores_coherence [DecidableEq Inst] (version : ℕ) (row : Option Shop)
    (redis : Option (Versioned (RedisText Shop))) (caffeine : Inst → Option (Versioned Shop))
    (k : Invalidation) (mv : Move CacheChoice (CacheAction Shop Inst))
    (c c₁ c₂ c₃ : CachePool Shop Inst)
    (hrun : (shopCaches Shop Inst).Run (fun _ _ => True) ⟨.start version row redis caffeine, []⟩ c)
    (hdelete : (shopCaches Shop Inst).step c mv = some c₁)
    (hbefore : k ∉ c.shared.deleted) (hafter : k ∈ c₁.shared.deleted)
    (hloads : ∀ t ∈ c.threads, ∀ v ∈ (c.shared.progress t.tag.serial).unset, k.update ≤ v)
    (hspread : (shopCaches Shop Inst).Run (fun _ _ => True) c₁ c₂)
    (hhandled : ∀ i, (k, i) ∈ c₂.shared.handled)
    (hlater : (shopCaches Shop Inst).Run (fun _ _ => True) c₂ c₃) :
    (∀ text ∈ c₃.shared.redis, k.update ≤ text.version) ∧
      ∀ i, ∀ shop ∈ c₃.shared.caffeine i, k.update ≤ shop.version := by
  have hstart : WellRun (⟨.start version row redis caffeine, []⟩ : CachePool Shop Inst) := by
    refine ⟨⟨List.nodup_nil, ?_, ?_, ?_, ?_, ?_, ?_, ?_, ?_⟩, fun t ht => by cases ht⟩ <;>
      simp [callers, CacheWorld.start]
  have hc : WellRun c := hrun.invariant hstart fun _ _ _ hd _ hf => hd.fires hf
  have hfires := Machine.fires_of_step hdelete
  have h₁ : WellRun c₁ ∧ Coherent k.update k c₁.shared (callers c₁) :=
    ⟨hc.fires hfires, coherent_of_delete hc hfires hbefore hafter hloads⟩
  have h₃ : WellRun c₃ ∧ Coherent k.update k c₃.shared (callers c₃) :=
    (hspread.trans hlater).invariant
      (I := fun d => WellRun d ∧ Coherent k.update k d.shared (callers d)) h₁
      fun _ _ _ hd _ hf => ⟨hd.1.fires hf, hd.2.fires hd.1 hf⟩
  have hkept : c₂.shared.handled ⊆ c₃.shared.handled :=
    hlater.invariant (I := fun d => c₂.shared.handled ⊆ d.shared.handled) (List.Subset.refl _)
      fun _ _ _ hd _ hf => List.Subset.trans hd (handled_fires hf)
  exact ⟨h₃.2.redis, fun i => h₃.2.caffeine i (hkept (hhandled i))⟩

end Pool

/-- Two instances, and shop names as rows. -/
abbrev twoInstances := shopCaches String Bool

def secondDelete : Invalidation := ⟨1, 1, 1⟩

/-- Instance 0 caches version 0, version 1 is committed and its event reaches a worker of instance 1. -/
def outdated : Option (CachePool String Bool) :=
  twoInstances.play (fun _ _ => true) ⟨.start 0 (some "old") none fun _ => none, []⟩ <|
    .act (.query false true) :: List.replicate 6 (.run 0 .performed) ++
      [.act (.update (some "new")), .act (.process true 1 1)]

def refreshed (c : CachePool String Bool) : Option (CachePool String Bool) :=
  twoInstances.play (fun _ _ => true) c <|
    List.replicate 2 (.run 1 .performed) ++ .act (.deliver false secondDelete false) ::
      List.replicate 2 (.run 2 .performed)

def reloaded (c : CachePool String Bool) : Option (CachePool String Bool) :=
  twoInstances.play (fun _ _ => true) c <|
    .act (.query false true) :: List.replicate 6 (.run 3 .performed)

/-- The whole run: the outdated caches, the second delete, and a load after it. -/
def secondDeleteRun : Option (CachePool String Bool) :=
  outdated.bind fun c => (twoInstances.step c (.run 1 .performed)).bind fun c₁ =>
    (refreshed c₁).bind reloaded

/-- What the four moments have to be for the second delete to be complete. -/
def Complete (c c₁ c₂ c₃ : CachePool String Bool) : Prop :=
  secondDelete ∉ c.shared.deleted ∧ secondDelete ∈ c₁.shared.deleted ∧
    (∀ t ∈ c.threads, ∀ v ∈ (c.shared.progress t.tag.serial).unset, secondDelete.update ≤ v) ∧
    (∀ i, (secondDelete, i) ∈ c₂.shared.handled) ∧ (c₃.shared.caffeine false).isSome

instance (c c₁ c₂ c₃ : CachePool String Bool) : Decidable (Complete c c₁ c₂ c₃) :=
  inferInstanceAs (Decidable (_ ∧ _))

theorem delayed_delete_restores_coherence_reloaded : ∃ c, secondDeleteRun = some c ∧
    ∃ shop ∈ c.shared.caffeine false, 1 ≤ shop.version := by
  have hplay : (outdated.bind fun c => (twoInstances.step c (.run 1 .performed)).bind fun c₁ =>
      (refreshed c₁).bind fun c₂ => (reloaded c₂).map fun c₃ =>
        decide (Complete c c₁ c₂ c₃)) = some true := by decide +kernel
  obtain ⟨c, hc, hplay⟩ := Option.bind_eq_some_iff.mp hplay
  obtain ⟨c₁, hc₁, hplay⟩ := Option.bind_eq_some_iff.mp hplay
  obtain ⟨c₂, hc₂, hplay⟩ := Option.bind_eq_some_iff.mp hplay
  obtain ⟨c₃, hc₃, hcomplete⟩ := Option.map_eq_some_iff.mp hplay
  obtain ⟨hbefore, hafter, hloads, hhandled, hpresent⟩ : Complete c c₁ c₂ c₃ :=
    of_decide_eq_true hcomplete
  obtain ⟨shop, hshop⟩ := Option.isSome_iff_exists.mp hpresent
  have hcoherent := delayed_delete_restores_coherence 0 (some "old") none (fun _ => none)
    secondDelete (.run 1 .performed) c c₁ c₂ c₃
    (Machine.run_of_play (fun _ _ _ => trivial) hc) hc₁ hbefore hafter hloads
    (Machine.run_of_play (fun _ _ _ => trivial) hc₂) hhandled
    (Machine.run_of_play (fun _ _ _ => trivial) hc₃)
  refine ⟨c₃, ?_, shop, hshop, hcoherent.2 false shop hshop⟩
  simp only [secondDeleteRun, hc, hc₁, hc₂, hc₃, Option.bind_some]

end HmDianPing.Cache
