import HmDianPing.Interleaving.Machine

/-! # Histories of a machine

A machine can be made to note what its calls have done. The notes are only ever
added to, so that what they show once they show for good.
-/
namespace HmDianPing.Interleaving

variable {S C : Type} {R : C → Type} {E T F A H : Type}

namespace Machine

/-- The machine with a history; `note` says what a call adds to it, in the state before it. -/
def recording (M : Machine S C R E T F A) (note : C → F → S → List H) :
    Machine (S × List H) C R E T F A where
  exec c f s := (M.exec c f s.1).map fun p => (p.1, p.2, s.2 ++ note c f s.1)
  act a s := (M.act a s.1).map fun p => ((p.1, s.2), p.2)

end Machine

def Config.forget (c : Config (S × List H) C R E T) : Config S C R E T := ⟨c.shared.1, c.threads⟩

namespace Machine
variable {M : Machine S C R E T F A} {note : C → F → S → List H}
  {guard : Config S C R E T → Move F A → Prop} {c c' : Config (S × List H) C R E T}
  {d : Config S C R E T} {m : Move F A}

theorem step_forget : ((M.recording note).step c m).map Config.forget = M.step c.forget m := by
  cases m with
  | run i f =>
    obtain ⟨shared, threads⟩ := c
    simp only [step, Config.forget, Option.map_bind]
    congr 1
    funext t
    obtain ⟨tag, program⟩ := t
    cases program with
    | done r => rfl
    | call cmd k =>
      simp only [runThread, recording, Function.comp_apply, Option.map_map]
      rfl
  | crash i =>
    by_cases hi : i < c.threads.length <;> simp [step, Config.forget, hi]
  | act a =>
    simp only [step, recording, Config.forget, Option.map_map]
    rfl

/-- Every run has a history. -/
theorem Run.remember (h : M.Run guard c.forget d) :
    ∃ c', (M.recording note).Run (fun c m => guard c.forget m) c c' ∧ c'.forget = d := by
  induction h with
  | refl => exact ⟨c, .refl, rfl⟩
  | @tail d d' m init allowed last ih =>
    obtain ⟨c', hrun, rfl⟩ := ih
    rw [← step_forget] at last
    obtain ⟨c'', hstep, rfl⟩ := Option.map_eq_some_iff.mp last
    exact ⟨c'', hrun.tail allowed hstep, rfl⟩

theorem exec_recording {cmd : C} {f : F} {s s' : S × List H} {r : Except E (R cmd)}
    (h : (M.recording note).exec cmd f s = some (r, s')) :
    M.exec cmd f s.1 = some (r, s'.1) ∧ s'.2 = s.2 ++ note cmd f s.1 := by
  obtain ⟨p, hp, hq⟩ := Option.map_eq_some_iff.mp h
  cases hq
  exact ⟨hp, rfl⟩

end Machine
end HmDianPing.Interleaving
