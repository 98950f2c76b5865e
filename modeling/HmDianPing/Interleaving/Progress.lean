import HmDianPing.Interleaving.Machine
import HmDianPing.Interleaving.Trace

/-! # Programs that come to their end

A program completes when every call it comes to can go the one way it is chosen to
go. A machine can then run its thread to the end without any other move.
-/
namespace HmDianPing.Interleaving
open Program

variable {S C : Type} {R : C → Type} {E T F A α β : Type}

/-- Every call goes as `f` says, and `Q` holds of the result and the state at the end. -/
def Program.Completes (exec : (c : C) → F → S → Option (Except E (R c) × S)) (f : F) :
    Program C R E α → (Except E α → S → Prop) → S → Prop
  | .done r, Q, s => Q r s
  | .call c k, Q, s => ∃ r s', exec c f s = some (r, s') ∧ (k r).Completes exec f Q s'

namespace Program.Completes
variable {exec : (c : C) → F → S → Option (Except E (R c) × S)} {f : F} {s s' : S}
  {p : Program C R E α} {Q Q' : Except E α → S → Prop}

theorem mono (h : p.Completes exec f Q s) (hQ : ∀ r s, Q r s → Q' r s) :
    p.Completes exec f Q' s := by
  induction p generalizing s with
  | done r => exact hQ _ _ h
  | call c k ih =>
    obtain ⟨r, s', hexec, hrest⟩ := h
    exact ⟨r, s', hexec, ih r hrest⟩

theorem perform {c : C} {r : Except E (R c)} {Q : Except E (R c) → S → Prop}
    (hexec : exec c f s = some (r, s')) (h : Q r s') :
    (Program.perform c : Program C R E (R c)).Completes exec f Q s :=
  ⟨r, s', hexec, h⟩

/-- The second half runs on what the first leaves; an exception of the first is the end. -/
theorem bind {g : α → Program C R E β} {P : Except E β → S → Prop}
    (h : p.Completes exec f (fun r s => match r with
      | .ok a => (g a).Completes exec f P s
      | .error e => P (.error e) s) s) : (p >>= g).Completes exec f P s := by
  induction p generalizing s with
  | done r => cases r <;> exact h
  | call c k ih =>
    obtain ⟨r, s', hexec, hrest⟩ := h
    exact ⟨r, s', hexec, ih r hrest⟩

theorem perform_bind {c : C} {a : R c} {g : R c → Program C R E β} {P : Except E β → S → Prop}
    (hexec : exec c f s = some (.ok a, s')) (h : (g a).Completes exec f P s') :
    (Program.perform c >>= g).Completes exec f P s :=
  ⟨.ok a, s', hexec, h⟩

theorem perform_throws {c : C} {e : E} {g : R c → Program C R E β} {P : Except E β → S → Prop}
    (hexec : exec c f s = some (.error e, s')) (h : P (.error e) s') :
    (Program.perform c >>= g).Completes exec f P s :=
  ⟨.error e, s', hexec, h⟩

theorem tryCatch {handler : E → Program C R E α}
    (h : p.Completes exec f (fun r s => match r with
      | .ok a => Q (.ok a) s
      | .error e => (handler e).Completes exec f Q s) s) :
    (MonadExcept.tryCatch p handler).Completes exec f Q s := by
  induction p generalizing s with
  | done r => cases r <;> exact h
  | call c k ih =>
    obtain ⟨r, s', hexec, hrest⟩ := h
    exact ⟨r, s', hexec, ih r hrest⟩

/-- A plain program returns if its calls do; `I` is what they preserve. -/
theorem of_plain {P : C → Prop} (I : S → Prop) (hp : p.Plain P)
    (hcall : ∀ c s, P c → I s → ∃ a s', exec c f s = some (.ok a, s') ∧ I s') (hs : I s) :
    p.Completes exec f (fun r s => (∃ a, r = .ok a) ∧ I s) s := by
  induction p generalizing s with
  | done r =>
    cases r with
    | ok a => exact ⟨⟨a, rfl⟩, hs⟩
    | error e => exact hp.elim
  | call c k ih =>
    obtain ⟨a, s', hexec, hs'⟩ := hcall c s hp.1 hs
    exact ⟨.ok a, s', hexec, ih (.ok a) (hp.2.2 a) hs'⟩

theorem plain_bind {P : C → Prop} (I : S → Prop) {g : α → Program C R E β}
    {Q : Except E β → S → Prop} (hp : p.Plain P)
    (hcall : ∀ c s, P c → I s → ∃ a s', exec c f s = some (.ok a, s') ∧ I s') (hs : I s)
    (hrest : ∀ a s, I s → (g a).Completes exec f Q s) : (p >>= g).Completes exec f Q s := by
  refine bind ((of_plain I hp hcall hs).mono ?_)
  rintro _ s' ⟨⟨a, rfl⟩, hs'⟩
  exact hrest a s' hs'

/-- The thread of a program that completes can be run to its end. -/
theorem exists_run {M : Machine S C R E T F A} {guard : Config S C R E T → Move F A → Prop}
    {p : Program C R E Unit} {Q : Except E Unit → S → Prop} {ts : List (Thread C R E T)} {i : ℕ}
    {tag : T} (h : p.Completes M.exec f Q s) (hi : ts[i]? = some ⟨tag, p⟩)
    (hguard : ∀ c, guard c (.run i f)) :
    ∃ r s', Q r s' ∧ M.Run guard ⟨s, ts⟩ ⟨s', ts.set i ⟨tag, .done r⟩⟩ := by
  induction p generalizing s ts with
  | done r =>
    refine ⟨r, s, h, ?_⟩
    obtain ⟨hb, heq⟩ := List.getElem?_eq_some_iff.mp hi
    rw [← heq, List.set_getElem_self]
    exact .refl
  | call c k ih =>
    obtain ⟨r, s₁, hexec, hrest⟩ := h
    have hset : (ts.set i ⟨tag, k r⟩)[i]? = some ⟨tag, k r⟩ :=
      List.getElem?_set_self (List.getElem?_eq_some_iff.mp hi).1
    obtain ⟨r', s', hQ, hrun⟩ := ih r hrest hset
    rw [List.set_set] at hrun
    refine ⟨r', s', hQ, Machine.Run.trans (.tail .refl (hguard _) ?_) hrun⟩
    simp [Machine.step, hi, Machine.runThread, hexec]

end Program.Completes
end HmDianPing.Interleaving
