import Mathlib.Data.List.Nodup

/-! # Writes to separate parts of a state

Each write is about some parts of the state. Writes to different parts leave the state
as it was exactly when each of them does.
-/
namespace HmDianPing.Interleaving

/-- The parts of the state that each write is about, and what a state holds there. -/
structure Footprint (S W P : Type) where
  apply : S → W → S
  parts : W → List P
  Contents : P → Type
  contents : (p : P) → S → Contents p
  elsewhere : ∀ {p s w}, p ∉ parts w → contents p (apply s w) = contents p s
  within : ∀ {p s t w}, p ∈ parts w → contents p s = contents p t →
    contents p (apply s w) = contents p (apply t w)
  /-- The parts make up the whole state. -/
  ext : ∀ {s t}, (∀ p, contents p s = contents p t) → s = t

namespace Footprint
variable {S W P : Type} (f : Footprint S W P)

def applyAll (s : S) (ws : List W) : S := ws.foldl f.apply s

variable {f} {s : S} {p : P} {w : W} {ws : List W}

theorem apply_eq_self (h : ∀ p ∈ f.parts w, f.contents p (f.apply s w) = f.contents p s) :
    f.apply s w = s := by
  apply f.ext
  intro p
  by_cases hp : p ∈ f.parts w
  · exact h p hp
  · exact f.elsewhere hp

theorem applyAll_elsewhere (h : p ∉ ws.flatMap f.parts) :
    f.contents p (f.applyAll s ws) = f.contents p s := by
  induction ws generalizing s with
  | nil => rfl
  | cons w ws ih =>
    rw [List.flatMap_cons, List.mem_append, not_or] at h
    exact (ih h.2).trans (f.elsewhere h.1)

theorem applyAll_within (h : (ws.flatMap f.parts).Nodup) (hw : w ∈ ws) (hp : p ∈ f.parts w) :
    f.contents p (f.applyAll s ws) = f.contents p (f.apply s w) := by
  obtain ⟨pre, post, rfl⟩ := List.append_of_mem hw
  rw [List.flatMap_append, List.flatMap_cons] at h
  obtain ⟨-, hwpost, hdisj⟩ := List.nodup_append'.mp h
  have hpre : p ∉ pre.flatMap f.parts := fun hp' => hdisj hp' (List.mem_append_left _ hp)
  have hpost : p ∉ post.flatMap f.parts := fun hp' => (List.nodup_append'.mp hwpost).2.2 hp hp'
  rw [applyAll, List.foldl_append, List.foldl_cons]
  exact (applyAll_elsewhere hpost).trans (f.within hp (applyAll_elsewhere hpre))

theorem applyAll_eq_of_idle (h : ∀ w ∈ ws, f.apply s w = s) : f.applyAll s ws = s := by
  induction ws with
  | nil => rfl
  | cons w ws ih =>
    rw [applyAll, List.foldl_cons, h w List.mem_cons_self]
    exact ih fun v hv => h v (List.mem_cons_of_mem _ hv)

/-- Writes to different parts do not make up for each other. -/
theorem applyAll_eq_iff (h : (ws.flatMap f.parts).Nodup) :
    f.applyAll s ws = s ↔ ∀ w ∈ ws, f.apply s w = s := by
  constructor
  · intro he w hw
    apply apply_eq_self
    intro p hp
    rw [← applyAll_within h hw hp, he]
  · exact applyAll_eq_of_idle

end Footprint

end HmDianPing.Interleaving
