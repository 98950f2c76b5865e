import HmDianPing.Interleaving.Program
import Mathlib.Data.List.Nodup

/-! # Pools of programs over a shared state

A machine runs a pool of threads, one command at a time, in any order. Between
two commands a thread may be lost for good, and the environment may act on the
shared state and start new threads. Runs are restricted by a guard on the state
before each move, so that a law can be stated for every run that obeys it.
-/
namespace HmDianPing.Interleaving
open Program

/-- A running handler; the tag says what it was started for. -/
structure Thread (C : Type) (R : C → Type) (E T : Type) where
  tag : T
  program : Program C R E Unit

structure Config (S C : Type) (R : C → Type) (E T : Type) where
  shared : S
  threads : List (Thread C R E T)

/-- `F` is what the environment decides about one call, `A` what it does by itself. -/
structure Machine (S C : Type) (R : C → Type) (E T F A : Type) where
  exec : (c : C) → F → S → Option (Except E (R c) × S)
  act : A → S → Option (S × List (Thread C R E T))

inductive Move (F A : Type) where
  | run (thread : ℕ) (choice : F)
  | crash (thread : ℕ)
  | act (action : A)

namespace Machine
variable {S C : Type} {R : C → Type} {E T F A K : Type}

def runThread (M : Machine S C R E T F A) (c : Config S C R E T) (i : ℕ) (f : F) :
    Thread C R E T → Option (Config S C R E T)
  | ⟨_, .done _⟩ => none
  | ⟨tag, .call cmd k⟩ => (M.exec cmd f c.shared).map fun p =>
      ⟨p.2, c.threads.set i ⟨tag, k p.1⟩⟩

def step (M : Machine S C R E T F A) (c : Config S C R E T) :
    Move F A → Option (Config S C R E T)
  | .run i f => c.threads[i]?.bind (M.runThread c i f)
  | .crash i => if i < c.threads.length then some ⟨c.shared, c.threads.eraseIdx i⟩ else none
  | .act a => (M.act a c.shared).map fun p => ⟨p.1, c.threads ++ p.2⟩

/-- Everything a move can do, one case for each kind. -/
inductive Fires (M : Machine S C R E T F A) (c : Config S C R E T) :
    Move F A → Config S C R E T → Prop
  | run {i : ℕ} {f : F} {tag : T} {cmd : C} {k : Except E (R cmd) → Program C R E Unit}
      {r : Except E (R cmd)} {s : S} (thread : c.threads[i]? = some ⟨tag, .call cmd k⟩)
      (exec : M.exec cmd f c.shared = some (r, s)) :
      M.Fires c (.run i f) ⟨s, c.threads.set i ⟨tag, k r⟩⟩
  | crash {i : ℕ} (bound : i < c.threads.length) :
      M.Fires c (.crash i) ⟨c.shared, c.threads.eraseIdx i⟩
  | act {a : A} {s : S} {started : List (Thread C R E T)}
      (act : M.act a c.shared = some (s, started)) :
      M.Fires c (.act a) ⟨s, c.threads ++ started⟩

theorem fires_of_step {M : Machine S C R E T F A} {c c' : Config S C R E T} {m : Move F A}
    (h : M.step c m = some c') : M.Fires c m c' := by
  cases m with
  | run i f =>
    obtain ⟨⟨tag, program⟩, hi, hrun⟩ := Option.bind_eq_some_iff.mp h
    cases program with
    | done r => cases hrun
    | call cmd k =>
      obtain ⟨⟨r, s⟩, hexec, rfl⟩ := Option.map_eq_some_iff.mp hrun
      exact .run hi hexec
  | crash i =>
    simp only [step, Option.ite_none_right_eq_some, Option.some.injEq] at h
    obtain ⟨hb, rfl⟩ := h
    exact .crash hb
  | act a =>
    obtain ⟨⟨s, started⟩, hact, rfl⟩ := Option.map_eq_some_iff.mp h
    exact .act hact

/-- The runs whose every move meets `guard` in the state before it. -/
inductive Run (M : Machine S C R E T F A) (guard : Config S C R E T → Move F A → Prop)
    (c : Config S C R E T) : Config S C R E T → Prop
  | refl : M.Run guard c c
  | tail {c' c'' : Config S C R E T} {m : Move F A} (init : M.Run guard c c')
      (allowed : guard c' m) (last : M.step c' m = some c'') : M.Run guard c c''

variable {M : Machine S C R E T F A} {guard : Config S C R E T → Move F A → Prop}
  {c c' c'' : Config S C R E T}

/-- What every allowed move preserves holds at the end of every run. -/
theorem Run.invariant {I : Config S C R E T → Prop} (h : M.Run guard c c') (h0 : I c)
    (hstep : ∀ d m d', I d → guard d m → M.Fires d m d' → I d') : I c' := by
  induction h with
  | refl => exact h0
  | tail _ hg hs ih => exact hstep _ _ _ ih hg (fires_of_step hs)

theorem Run.strengthen {guard' : Config S C R E T → Move F A → Prop} {I : Config S C R E T → Prop}
    (h : M.Run guard c c') (h0 : I c) (hstep : ∀ d m d', I d → guard d m → M.Fires d m d' → I d')
    (hguard : ∀ d m, I d → guard d m → guard' d m) : M.Run guard' c c' := by
  induction h with
  | refl => exact .refl
  | tail init hg hs ih => exact ih.tail (hguard _ _ (init.invariant h0 hstep) hg) hs

theorem Run.trans (h : M.Run guard c c') (h' : M.Run guard c' c'') : M.Run guard c c'' := by
  induction h' with
  | refl => exact h
  | tail _ ha hs ih => exact .tail ih ha hs

theorem Run.head_induction {P : Config S C R E T → Prop} (h : M.Run guard c c') (hend : P c')
    (hhead : ∀ d m d', guard d m → M.step d m = some d' → M.Run guard d' c' → P d' → P d) : P c := by
  induction h with
  | refl => exact hend
  | tail _ ha hs ih =>
    refine ih (hhead _ _ _ ha hs .refl hend) fun d m d' hg hstep hrun hd => ?_
    exact hhead d m d' hg hstep (hrun.tail ha hs) hd

/-- Plays a schedule, checking every move first. -/
def play (M : Machine S C R E T F A) (check : Config S C R E T → Move F A → Bool) :
    Config S C R E T → List (Move F A) → Option (Config S C R E T)
  | c, [] => some c
  | c, m :: ms => if check c m then (M.step c m).bind fun c' => M.play check c' ms else none

theorem run_of_play {check : Config S C R E T → Move F A → Bool} {ms : List (Move F A)}
    (hc : ∀ d m, check d m = true → guard d m) (h : M.play check c ms = some c') :
    M.Run guard c c' := by
  induction ms generalizing c with
  | nil => cases h; exact .refl
  | cons m ms ih =>
    simp only [play, Option.ite_none_right_eq_some] at h
    obtain ⟨hm, hb⟩ := h
    obtain ⟨d, hs, hp⟩ := Option.bind_eq_some_iff.mp hb
    exact (Run.tail .refl (hc _ _ hm) hs).trans (ih hp)

theorem mem_set_thread {ts : List (Thread C R E T)} {i : ℕ} {t t' : Thread C R E T}
    (h : t' ∈ ts.set i t) : t' = t ∨ ∃ j, j ≠ i ∧ ts[j]? = some t' := by
  obtain ⟨j, hj⟩ := List.mem_iff_getElem?.mp h
  rw [List.getElem?_set] at hj
  split at hj
  · split at hj
    · left; simpa using hj.symm
    · cases hj
  · right; exact ⟨j, fun hij => by simp_all, hj⟩

theorem run_of_play_isSome {check : Config S C R E T → Move F A → Bool} {ms : List (Move F A)}
    (hc : ∀ d m, check d m = true → guard d m) (h : (M.play check c ms).isSome) :
    M.Run guard c ((M.play check c ms).get h) :=
  run_of_play hc (Option.some_get h).symm

theorem map_tag_set {ts : List (Thread C R E T)} {i : ℕ} {tag : T} {p p' : Program C R E Unit}
    {β : Type} (g : T → β) (hi : ts[i]? = some ⟨tag, p⟩) :
    (ts.set i ⟨tag, p'⟩).map (fun t => g t.tag) = ts.map fun t => g t.tag := by
  obtain ⟨hb, hi⟩ := List.getElem?_eq_some_iff.mp hi
  have hb' : i < (ts.map fun t => g t.tag).length := by simpa using hb
  have hg : (ts.map fun t => g t.tag)[i] = g tag := by simp [hi]
  rw [List.map_set, ← hg, List.set_getElem_self]

theorem tag_ne_of_nodup {ts : List (Thread C R E T)} {i j : ℕ} {t t' : Thread C R E T} {β : Type}
    {g : T → β} (h : (ts.map fun t => g t.tag).Nodup) (hi : ts[i]? = some t)
    (hj : ts[j]? = some t') (hne : j ≠ i) : g t'.tag ≠ g t.tag := by
  intro heq
  have hb : j < (ts.map fun t => g t.tag).length := by
    simpa using (List.getElem?_eq_some_iff.mp hj).1
  exact hne ((List.getElem?_inj hb h).mp (by simp [hi, hj, heq]))

section Fresh
variable {ts : List (Thread C R E T)} {t : Thread C R E T} {g : T → ℕ} {n : ℕ}

theorem nodup_append_fresh (h : (ts.map fun t => g t.tag).Nodup) (hold : ∀ t ∈ ts, g t.tag < n)
    (hnew : g t.tag = n) : ((ts ++ [t]).map fun t => g t.tag).Nodup := by
  rw [List.map_append]
  refine List.nodup_append.mpr ⟨h, List.nodup_singleton _, ?_⟩
  rintro tag htag tag' htag' rfl
  obtain ⟨t', ht', rfl⟩ := List.mem_map.mp htag
  have hsame : g t'.tag = n := (List.mem_singleton.mp htag').trans hnew
  exact absurd hsame (hold t' ht').ne

theorem lt_append_fresh (hold : ∀ t ∈ ts, g t.tag < n) (hnew : g t.tag = n) :
    ∀ t' ∈ ts ++ [t], g t'.tag < n + 1 := by
  intro t' ht'
  rcases List.mem_append.mp ht' with ht' | ht'
  · exact Nat.lt_succ_of_lt (hold t' ht')
  · rw [List.mem_singleton.mp ht', hnew]
    exact Nat.lt_succ_self n

end Fresh

theorem exists_done_of_others {ts : List (Thread C R E T)} {i j : ℕ} {t : Thread C R E T}
    (h : ((ts.eraseIdx i).all fun t => t.program.ended) = true) (hji : j ≠ i)
    (hj : ts[j]? = some t) : ∃ r, t.program = .done r := by
  apply Program.exists_done_of_ended
  exact List.all_eq_true.mp h t (List.mem_eraseIdx_iff_getElem?.mpr ⟨j, hji, hj⟩)

section KnowsOwn
variable {L : T → Logic C R E K} {holds : S → T → K → Prop}

/-- Every thread stays inside the logic of its tag, from knowledge that is true of the shared
state. -/
def KnowsOwn (L : T → Logic C R E K) (holds : S → T → K → Prop) (c : Config S C R E T) : Prop :=
  ∀ t ∈ c.threads, ∃ κ, holds c.shared t.tag κ ∧ (L t.tag).Safe t.program κ

theorem KnowsOwn.thread (h : KnowsOwn L holds c) {i : ℕ} {tag : T} {cmd : C}
    {k : Except E (R cmd) → Program C R E Unit} (hi : c.threads[i]? = some ⟨tag, .call cmd k⟩) :
    ∃ κ, holds c.shared tag κ ∧ (L tag).pre κ cmd ∧
      ∀ r, (L tag).meets κ cmd r → (L tag).Safe (k r) ((L tag).learn κ cmd r) := by
  obtain ⟨κ, hκ, hs⟩ := h _ (List.mem_of_getElem? hi)
  exact ⟨κ, hκ, hs.1, hs.2⟩

/-- A call keeps the pool inside the logic if it leaves the knowledge of the other threads true
and its reply is one the caller foresees. -/
theorem KnowsOwn.run (h : KnowsOwn L holds c) {i : ℕ} {tag : T} {cmd : C}
    {k : Except E (R cmd) → Program C R E Unit} {r : Except E (R cmd)} {s : S}
    (hi : c.threads[i]? = some ⟨tag, .call cmd k⟩)
    (frame : ∀ j t, j ≠ i → c.threads[j]? = some t →
      ∀ κ, holds c.shared t.tag κ → holds s t.tag κ)
    (reply : ∀ κ, holds c.shared tag κ → (L tag).pre κ cmd →
      (L tag).meets κ cmd r ∧ holds s tag ((L tag).learn κ cmd r)) :
    KnowsOwn L holds ⟨s, c.threads.set i ⟨tag, k r⟩⟩ := by
  intro t ht
  rcases mem_set_thread ht with rfl | ⟨j, hji, hj⟩
  · obtain ⟨κ, hκ, hpre, hk⟩ := h.thread hi
    exact ⟨_, (reply κ hκ hpre).2, hk r (reply κ hκ hpre).1⟩
  · obtain ⟨κ, hκ, hs⟩ := h t (List.mem_of_getElem? hj)
    exact ⟨κ, frame j t hji hj κ hκ, hs⟩

theorem KnowsOwn.crash (h : KnowsOwn L holds c) (i : ℕ) :
    KnowsOwn L holds ⟨c.shared, c.threads.eraseIdx i⟩ :=
  fun t ht => h t (List.mem_of_mem_eraseIdx ht)

theorem KnowsOwn.act (h : KnowsOwn L holds c) {s : S} {started : List (Thread C R E T)}
    (frame : ∀ tag κ, holds c.shared tag κ → holds s tag κ)
    (start : ∀ t ∈ started, ∃ κ, holds s t.tag κ ∧ (L t.tag).Safe t.program κ) :
    KnowsOwn L holds ⟨s, c.threads ++ started⟩ := by
  intro t ht
  rcases List.mem_append.mp ht with ht | ht
  · obtain ⟨κ, hκ, hs⟩ := h t ht
    exact ⟨κ, frame _ _ hκ, hs⟩
  · exact start t ht

end KnowsOwn

section Knows
variable {L : Logic C R E K} {holds : S → T → K → Prop}

/-- Every thread stays inside the logic, from knowledge that is true of the shared state. -/
def Knows (L : Logic C R E K) (holds : S → T → K → Prop) (c : Config S C R E T) : Prop :=
  ∀ t ∈ c.threads, ∃ κ, holds c.shared t.tag κ ∧ L.Safe t.program κ

theorem Knows.thread (h : Knows L holds c) {i : ℕ} {tag : T} {cmd : C}
    {k : Except E (R cmd) → Program C R E Unit} (hi : c.threads[i]? = some ⟨tag, .call cmd k⟩) :
    ∃ κ, holds c.shared tag κ ∧ L.pre κ cmd ∧
      ∀ r, L.meets κ cmd r → L.Safe (k r) (L.learn κ cmd r) :=
  KnowsOwn.thread (L := fun _ => L) h hi

theorem Knows.run (h : Knows L holds c) {i : ℕ} {tag : T} {cmd : C}
    {k : Except E (R cmd) → Program C R E Unit} {r : Except E (R cmd)} {s : S}
    (hi : c.threads[i]? = some ⟨tag, .call cmd k⟩)
    (frame : ∀ j t, j ≠ i → c.threads[j]? = some t →
      ∀ κ, holds c.shared t.tag κ → holds s t.tag κ)
    (reply : ∀ κ, holds c.shared tag κ → L.pre κ cmd →
      L.meets κ cmd r ∧ holds s tag (L.learn κ cmd r)) :
    Knows L holds ⟨s, c.threads.set i ⟨tag, k r⟩⟩ :=
  KnowsOwn.run (L := fun _ => L) h hi frame reply

theorem Knows.crash (h : Knows L holds c) (i : ℕ) :
    Knows L holds ⟨c.shared, c.threads.eraseIdx i⟩ :=
  KnowsOwn.crash (L := fun _ => L) h i

theorem Knows.act (h : Knows L holds c) {s : S} {started : List (Thread C R E T)}
    (frame : ∀ tag κ, holds c.shared tag κ → holds s tag κ)
    (start : ∀ t ∈ started, ∃ κ, holds s t.tag κ ∧ L.Safe t.program κ) :
    Knows L holds ⟨s, c.threads ++ started⟩ :=
  KnowsOwn.act (L := fun _ => L) h frame start

end Knows
end Machine
end HmDianPing.Interleaving
