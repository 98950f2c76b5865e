import Mathlib.Logic.Basic
import Mathlib.Data.Set.Basic
import Mathlib.Order.Defs.PartialOrder
import Mathlib.Order.CompletePartialOrder
import Mathlib.Data.Set.BooleanAlgebra

/-! # Sequential programs over an effect signature

A program either ends with a value or an exception, or issues one command and
continues with the reply. Commands are uninterpreted here: a store, a broker or
an adversary supplies the replies. Local reasoning is done in a `Logic`, which
says what a program may call, and what a reply teaches it, from what it knows.
-/
namespace HmDianPing.Interleaving

theorem forall_except {E α : Type} {p : Except E α → Prop} :
    (∀ r, p r) ↔ (∀ a, p (.ok a)) ∧ ∀ e, p (.error e) :=
  ⟨fun h => ⟨fun a => h _, fun e => h _⟩, fun h r => by cases r with
    | ok a => exact h.1 a
    | error e => exact h.2 e⟩

/-- A program over the commands `C`, where command `c` replies with `R c` or throws an `E`. -/
inductive Program (C : Type) (R : C → Type) (E α : Type) where
  | done (r : Except E α)
  | call (c : C) (k : Except E (R c) → Program C R E α)

namespace Program
variable {C : Type} {R : C → Type} {E α β ι : Type}

def bind : Program C R E α → (α → Program C R E β) → Program C R E β
  | .done (.ok a), f => f a
  | .done (.error e), _ => .done (.error e)
  | .call c k, f => .call c fun r => (k r).bind f

/-- `try p catch e => h e`. -/
def handle : Program C R E α → (E → Program C R E α) → Program C R E α
  | .done (.ok a), _ => .done (.ok a)
  | .done (.error e), h => h e
  | .call c k, h => .call c fun r => (k r).handle h

instance : Monad (Program C R E) where
  pure a := .done (.ok a)
  bind := bind

instance : MonadExceptOf E (Program C R E) where
  throw e := .done (.error e)
  tryCatch := handle

def perform (c : C) : Program C R E (R c) := .call c .done

theorem bind_assoc {γ : Type} (p : Program C R E α) (f : α → Program C R E β)
    (g : β → Program C R E γ) : p >>= f >>= g = p >>= fun a => f a >>= g := by
  induction p with
  | done r => cases r <;> rfl
  | call c k ih => exact congrArg (Program.call c) (funext ih)

/-- The loop `for (i : is) f(i)`; an exception of the body ends it. -/
def forEach : List ι → (ι → Program C R E Unit) → Program C R E Unit
  | [], _ => pure ()
  | i :: is, f => f i >>= fun _ => forEach is f

def ended : Program C R E α → Bool
  | .done _ => true
  | .call _ _ => false

theorem exists_done_of_ended {p : Program C R E α} (h : p.ended = true) : ∃ r, p = .done r := by
  cases p with
  | done r => exact ⟨r, rfl⟩
  | call c k => cases h

/-- The next command, if there is one, has this property. -/
def Next (P : C → Prop) : Program C R E α → Prop
  | .call c _ => P c
  | .done _ => True

instance (P : C → Prop) [DecidablePred P] : (p : Program C R E α) → Decidable (p.Next P)
  | .call c _ => inferInstanceAs (Decidable (P c))
  | .done _ => inferInstanceAs (Decidable True)

/-- Sends every command of a smaller signature as the command `f` names. -/
def lift {C' : Type} (f : C' → C) : Program C' (fun c => R (f c)) E α → Program C R E α
  | .done r => .done r
  | .call c k => .call (f c) fun r => (k r).lift f

section lift
variable {C' : Type} {f : C' → C}

@[simp] theorem lift_throw (e : E) :
    (throw e : Program C' (fun c => R (f c)) E α).lift f = (throw e : Program C R E α) := rfl

@[simp] theorem lift_perform (c : C') :
    (perform c : Program C' (fun c => R (f c)) E _).lift f =
      (perform (f c) : Program C R E (R (f c))) := rfl

@[simp] theorem lift_bind (p : Program C' (fun c => R (f c)) E α)
    (g : α → Program C' (fun c => R (f c)) E β) :
    (p >>= g).lift f = p.lift f >>= fun a => (g a).lift f := by
  induction p with
  | done r => cases r <;> rfl
  | call c k ih => exact congrArg (Program.call (f c)) (funext ih)

@[simp] theorem lift_ite (b : Prop) [Decidable b] (p q : Program C' (fun c => R (f c)) E α) :
    (if b then p else q).lift f = if b then p.lift f else q.lift f := by
  split <;> rfl

end lift

/-- Runs the program alone, against a store that answers every command. -/
def run {S : Type} (answer : (c : C) → S → Except E (R c) × S) :
    Program C R E α → S → Except E α × S
  | .done r, s => (r, s)
  | .call c k, s => (k (answer c s).1).run answer (answer c s).2

section run
variable {S : Type} {answer : (c : C) → S → Except E (R c) × S} (s : S)

@[simp] theorem run_pure (a : α) : (pure a : Program C R E α).run answer s = (.ok a, s) := rfl

@[simp] theorem run_throw (e : E) :
    (throw e : Program C R E α).run answer s = (.error e, s) := rfl

@[simp] theorem run_perform (c : C) :
    (perform c : Program C R E (R c)).run answer s = answer c s := rfl

@[simp] theorem run_bind (p : Program C R E α) (f : α → Program C R E β) :
    (p >>= f).run answer s = match p.run answer s with
      | (.ok a, s') => (f a).run answer s'
      | (.error e, s') => (.error e, s') := by
  induction p generalizing s with
  | done r => cases r <;> rfl
  | call c k ih => exact ih _ _

@[simp] theorem run_tryCatch (p : Program C R E α) (h : E → Program C R E α) :
    (tryCatch p h).run answer s = match p.run answer s with
      | (.ok a, s') => (.ok a, s')
      | (.error e, s') => (h e).run answer s' := by
  induction p generalizing s with
  | done r => cases r <;> rfl
  | call c k ih => exact ih _ _

end run

/-- Every command the program can issue, whatever the replies, satisfies `P`. -/
def Calls (P : C → Prop) : Program C R E α → Prop
  | .done _ => True
  | .call c k => P c ∧ ∀ r, (k r).Calls P

section Calls
variable {P P' : C → Prop}

@[simp] theorem calls_pure (a : α) : (pure a : Program C R E α).Calls P := trivial

@[simp] theorem calls_throw (e : E) : (throw e : Program C R E α).Calls P := trivial

@[simp] theorem calls_perform (c : C) : (perform c : Program C R E (R c)).Calls P ↔ P c :=
  ⟨And.left, fun h => ⟨h, fun _ => trivial⟩⟩

@[simp] theorem calls_perform_bind (c : C) (f : R c → Program C R E β) :
    (perform c >>= f).Calls P ↔ P c ∧ ∀ a, (f a).Calls P :=
  ⟨fun h => ⟨h.1, fun a => h.2 (.ok a)⟩, fun h => ⟨h.1, fun r => by cases r with
    | ok a => exact h.2 a
    | error e => trivial⟩⟩

@[simp] theorem calls_ite (b : Prop) [Decidable b] (p q : Program C R E α) :
    (if b then p else q).Calls P ↔ (b → p.Calls P) ∧ (¬ b → q.Calls P) := by
  by_cases hb : b <;> simp [hb]

theorem Calls.bind {p : Program C R E α} {f : α → Program C R E β} (hp : p.Calls P)
    (hf : ∀ a, (f a).Calls P) : (p >>= f).Calls P := by
  induction p with
  | done r =>
    cases r with
    | ok a => exact hf a
    | error e => trivial
  | call c k ih => exact ⟨hp.1, fun r => ih r (hp.2 r)⟩

theorem Calls.tryCatch {p : Program C R E α} {h : E → Program C R E α} (hp : p.Calls P)
    (hh : ∀ e, (h e).Calls P) : (tryCatch p h).Calls P := by
  induction p with
  | done r =>
    cases r with
    | ok a => trivial
    | error e => exact hh e
  | call c k ih => exact ⟨hp.1, fun r => ih r (hp.2 r)⟩

theorem calls_true (p : Program C R E α) : p.Calls fun _ => True := by
  induction p with
  | done r => trivial
  | call c k ih => exact ⟨trivial, ih⟩

theorem Calls.mono {p : Program C R E α} (hp : p.Calls P) (h : ∀ c, P c → P' c) :
    p.Calls P' := by
  induction p with
  | done r => trivial
  | call c k ih => exact ⟨h c hp.1, fun r => ih r (hp.2 r)⟩

theorem calls_lift {C' : Type} {f : C' → C} (hf : ∀ c, P (f c))
    (p : Program C' (fun c => R (f c)) E α) : (p.lift f).Calls P := by
  induction p with
  | done r => trivial
  | call c k ih => exact ⟨hf c, ih⟩

end Calls
end Program

/-- What a program may call knowing `κ`, which replies it can meet there, and what it knows after. -/
structure Logic (C : Type) (R : C → Type) (E K : Type) where
  pre : K → C → Prop
  meets : K → (c : C) → Except E (R c) → Prop
  learn : K → (c : C) → Except E (R c) → K

namespace Logic
variable {C : Type} {R : C → Type} {E K α β ι : Type} (L : Logic C R E K)
open Program

/-- Weakest precondition: every call is allowed and `Q` holds at the end. -/
def wp : Program C R E α → (K → Except E α → Prop) → K → Prop
  | .done r, Q, κ => Q κ r
  | .call c k, Q, κ => L.pre κ c ∧ ∀ r, L.meets κ c r → wp (k r) Q (L.learn κ c r)

/-- The postcondition of the first half of a sequence. -/
def andThen (f : α → Program C R E β) (Q : K → Except E β → Prop) : K → Except E α → Prop
  | κ, .ok a => L.wp (f a) Q κ
  | κ, .error e => Q κ (.error e)

/-- The postcondition of the body of a `try`. -/
def orElse (h : E → Program C R E α) (Q : K → Except E α → Prop) : K → Except E α → Prop
  | κ, .ok a => Q κ (.ok a)
  | κ, .error e => L.wp (h e) Q κ

/-- The program stays inside the logic; nothing is asked of its result. -/
def Safe (p : Program C R E α) (κ : K) : Prop := L.wp p (fun _ _ => True) κ

variable {L} {Q Q' : K → Except E β → Prop} {κ : K}

@[simp] theorem andThen_ok (f : α → Program C R E β) (a : α) :
    L.andThen f Q κ (.ok a) = L.wp (f a) Q κ := rfl

@[simp] theorem andThen_error (f : α → Program C R E β) (e : E) :
    L.andThen f Q κ (.error e) = Q κ (.error e) := rfl

@[simp] theorem orElse_ok (h : E → Program C R E β) (b : β) :
    L.orElse h Q κ (.ok b) = Q κ (.ok b) := rfl

@[simp] theorem orElse_error (h : E → Program C R E β) (e : E) :
    L.orElse h Q κ (.error e) = L.wp (h e) Q κ := rfl

@[simp] theorem wp_done (r : Except E β) : L.wp (.done r) Q κ = Q κ r := rfl

@[simp] theorem wp_pure (b : β) : L.wp (pure b) Q κ = Q κ (.ok b) := rfl

@[simp] theorem wp_throw (e : E) : L.wp (throw e) Q κ = Q κ (.error e) := rfl

@[simp] theorem wp_perform (c : C) (Q : K → Except E (R c) → Prop) :
    L.wp (perform c) Q κ =
      (L.pre κ c ∧ ∀ r, L.meets κ c r → Q (L.learn κ c r) r) := rfl

theorem wp_call (c : C) (k : Except E (R c) → Program C R E β) :
    L.wp (.call c k) Q κ =
      (L.pre κ c ∧ ∀ r, L.meets κ c r → L.wp (k r) Q (L.learn κ c r)) := rfl

@[simp] theorem wp_bind (p : Program C R E α) (f : α → Program C R E β) :
    L.wp (p >>= f) Q κ = L.wp p (L.andThen f Q) κ := by
  induction p generalizing κ with
  | done r => cases r <;> rfl
  | call c k ih =>
    change (_ ∧ ∀ r, _ → L.wp (k r >>= f) Q _) = _
    simp only [wp_call, ih]

@[simp] theorem wp_tryCatch (p : Program C R E β) (h : E → Program C R E β) :
    L.wp (tryCatch p h) Q κ = L.wp p (L.orElse h Q) κ := by
  induction p generalizing κ with
  | done r => cases r <;> rfl
  | call c k ih =>
    change (_ ∧ ∀ r, _ → L.wp (tryCatch (k r) h) Q _) = _
    simp only [wp_call, ih]

theorem wp_perform_bind (c : C) (f : R c → Program C R E β) :
    L.wp (perform c >>= f) Q κ ↔ L.pre κ c ∧
      (∀ a, L.meets κ c (.ok a) → L.wp (f a) Q (L.learn κ c (.ok a))) ∧
      ∀ e, L.meets κ c (.error e) → Q (L.learn κ c (.error e)) (.error e) := by
  rw [wp_bind, wp_perform, forall_except]
  rfl

theorem wp_mono {p : Program C R E β} (h : L.wp p Q κ) (hQ : ∀ κ r, Q κ r → Q' κ r) :
    L.wp p Q' κ := by
  induction p generalizing κ with
  | done r => exact hQ _ _ h
  | call c k ih => exact ⟨h.1, fun r hr => ih r (h.2 r hr)⟩

/-- The rule of a caught program. -/
theorem wp_tryCatch_of {P : K → Except E β → Prop} {p : Program C R E β}
    {h : E → Program C R E β} (hp : L.wp p P κ) (hok : ∀ κ b, P κ (.ok b) → Q κ (.ok b))
    (herror : ∀ κ e, P κ (.error e) → L.wp (h e) Q κ) : L.wp (tryCatch p h) Q κ := by
  rw [wp_tryCatch]
  refine wp_mono hp fun κ r hr => ?_
  cases r with
  | ok b => exact hok κ b hr
  | error e => exact herror κ e hr

theorem Safe.bind {p : Program C R E α} {f : α → Program C R E β} (hp : L.Safe p κ)
    (hf : ∀ κ a, L.Safe (f a) κ) : L.Safe (p >>= f) κ := by
  rw [Safe, wp_bind]
  refine wp_mono hp fun κ' r _ => ?_
  cases r with
  | ok a => exact hf κ' a
  | error e => trivial

/-- The logic of a smaller signature whose commands are sent as `f` names them. -/
def comap {C' : Type} (L : Logic C R E K) (f : C' → C) :
    Logic C' (fun c => R (f c)) E K where
  pre κ c := L.pre κ (f c)
  meets κ c r := L.meets κ (f c) r
  learn κ c r := L.learn κ (f c) r

@[simp] theorem comap_pre {C' : Type} (f : C' → C) (κ : K) (c : C') :
    (L.comap f).pre κ c = L.pre κ (f c) := rfl

@[simp] theorem comap_meets {C' : Type} (f : C' → C) (κ : K) (c : C') (r : Except E (R (f c))) :
    (L.comap f).meets κ c r = L.meets κ (f c) r := rfl

@[simp] theorem comap_learn {C' : Type} (f : C' → C) (κ : K) (c : C') (r : Except E (R (f c))) :
    (L.comap f).learn κ c r = L.learn κ (f c) r := rfl

@[simp] theorem wp_lift {C' : Type} (f : C' → C) (p : Program C' (fun c => R (f c)) E β) :
    L.wp (p.lift f) Q κ = (L.comap f).wp p Q κ := by
  induction p generalizing κ with
  | done r => rfl
  | call c k ih =>
    change (_ ∧ ∀ r, _ → L.wp ((k r).lift f) Q _) = _
    simp only [wp_call, ih]
    rfl

theorem wp_ite (b : Prop) [Decidable b] (p q : Program C R E β) :
    L.wp (if b then p else q) Q κ ↔ (b → L.wp p Q κ) ∧ (¬ b → L.wp q Q κ) := by
  by_cases hb : b <;> simp [hb]

/-- The loop rule: `I` speaks about the elements that are left. -/
theorem wp_forEach {Q : K → Except E Unit → Prop} {f : ι → Program C R E Unit}
    (I : K → List ι → Prop) (hnil : ∀ κ, I κ [] → Q κ (.ok ()))
    (hcons : ∀ κ i is, I κ (i :: is) → L.wp (f i)
      (fun κ' r => (∀ u, r = .ok u → I κ' is) ∧ ∀ e, r = .error e → Q κ' (.error e)) κ)
    {is : List ι} (hI : I κ is) : L.wp (forEach is f) Q κ := by
  induction is generalizing κ with
  | nil => exact hnil κ hI
  | cons i is ih =>
    rw [forEach, wp_bind]
    refine wp_mono (hcons κ i is hI) fun κ' r hr => ?_
    cases r with
    | ok u => exact ih (hr.1 u rfl)
    | error e => exact hr.2 e rfl

/-- A program run against a store that answers as the logic expects. -/
theorem run_of_wp {S : Type} {answer : (c : C) → S → Except E (R c) × S} {I : K → S → Prop}
    (hanswer : ∀ κ c s, L.pre κ c → I κ s →
      L.meets κ c (answer c s).1 ∧ I (L.learn κ c (answer c s).1) (answer c s).2)
    {p : Program C R E β} {s : S} (hp : L.wp p Q κ) (hI : I κ s) :
    ∃ κ', I κ' (p.run answer s).2 ∧ Q κ' (p.run answer s).1 := by
  induction p generalizing κ s with
  | done r => exact ⟨κ, hI, hp⟩
  | call c k ih =>
    obtain ⟨hmeets, hnext⟩ := hanswer κ c s hp.1 hI
    exact ih _ (hp.2 _ hmeets) hnext

/-- Commands that need no knowledge and teach nothing. -/
def Neutral (L : Logic C R E K) (c : C) : Prop :=
  ∀ κ, L.pre κ c ∧ ∀ r, L.meets κ c r → L.learn κ c r = κ

/-- Commands that are allowed with this knowledge and add nothing to it. -/
def NeutralAt (L : Logic C R E K) (κ : K) (c : C) : Prop :=
  L.pre κ c ∧ ∀ r, L.meets κ c r → L.learn κ c r = κ

theorem wp_of_neutralAt {p : Program C R E β} (hp : p.Calls (L.NeutralAt κ)) (hQ : ∀ r, Q κ r) :
    L.wp p Q κ := by
  induction p with
  | done r => exact hQ r
  | call c k ih =>
    refine ⟨hp.1.1, fun r hr => ?_⟩
    rw [hp.1.2 r hr]
    exact ih r (hp.2 r)

theorem wp_of_neutral {p : Program C R E β} (hp : p.Calls L.Neutral) (hQ : ∀ r, Q κ r) :
    L.wp p Q κ :=
  wp_of_neutralAt (hp.mono fun _ hc => hc κ) hQ

theorem safe_of_neutral {p : Program C R E β} (hp : p.Calls L.Neutral) : L.Safe p κ :=
  wp_of_neutral hp fun _ => trivial

/-- What is known is never forgotten, and knowing more allows no less. -/
structure Growing {C : Type} {R : C → Type} {E K : Type} [Preorder K] (L : Logic C R E K) :
    Prop where
  learn : ∀ κ c r, κ ≤ L.learn κ c r
  pre : ∀ κ κ' c, κ ≤ κ' → L.pre κ c → L.pre κ' c

section Growing
variable [Preorder K]

theorem Growing.comap {C' : Type} (hL : L.Growing) (f : C' → C) : (L.comap f).Growing where
  learn κ c := hL.learn κ (f c)
  pre κ κ' c := hL.pre κ κ' (f c)

theorem Growing.wp_of_calls (hL : L.Growing) {p : Program C R E β} (hp : p.Calls (L.pre κ))
    (hQ : ∀ κ' r, κ ≤ κ' → Q κ' r) : L.wp p Q κ := by
  induction p generalizing κ with
  | done r => exact hQ κ r (le_refl κ)
  | call c k ih =>
    refine ⟨hp.1, fun r _ => ih r ?_ fun κ' r' h => hQ κ' r' ((hL.learn κ c r).trans h)⟩
    exact (hp.2 r).mono fun c' => hL.pre _ _ c' (hL.learn κ c r)

/-- The same at the head of a sequence. -/
theorem Growing.wp_bind_of_calls (hL : L.Growing) {p : Program C R E α}
    {f : α → Program C R E β} (hp : p.Calls (L.pre κ))
    (hok : ∀ κ' a, κ ≤ κ' → L.wp (f a) Q κ') (herror : ∀ κ' e, κ ≤ κ' → Q κ' (.error e)) :
    L.wp (p >>= f) Q κ := by
  rw [wp_bind]
  refine hL.wp_of_calls hp fun κ' r h => ?_
  cases r with
  | ok a => exact hok κ' a h
  | error e => exact herror κ' e h

/-- A safe program still knows at its end what it knew at its start. -/
theorem Growing.wp_of_safe (hL : L.Growing) {p : Program C R E β} (hp : L.Safe p κ)
    (hQ : ∀ κ' r, κ ≤ κ' → Q κ' r) : L.wp p Q κ := by
  induction p generalizing κ with
  | done r => exact hQ κ r (le_refl κ)
  | call c k ih =>
    exact ⟨hp.1, fun r hr => ih r (hp.2 r hr) fun κ' r' h => hQ κ' r' ((hL.learn κ c r).trans h)⟩

theorem Growing.safe_of_calls (hL : L.Growing) {p : Program C R E β} (hp : p.Calls (L.pre κ)) :
    L.Safe p κ :=
  hL.wp_of_calls hp fun _ _ _ => trivial

theorem Growing.safe_bind (hL : L.Growing) {p : Program C R E α} {f : α → Program C R E β}
    (hp : L.Safe p κ) (hf : ∀ κ' a, κ ≤ κ' → L.Safe (f a) κ') : L.Safe (p >>= f) κ := by
  rw [Safe, wp_bind]
  refine hL.wp_of_safe hp fun κ' r h => ?_
  cases r with
  | ok a => exact hf κ' a h
  | error e => trivial

theorem Growing.safe_tryCatch (hL : L.Growing) {p : Program C R E β} {h : E → Program C R E β}
    (hp : L.Safe p κ) (hh : ∀ κ' e, κ ≤ κ' → L.Safe (h e) κ') : L.Safe (tryCatch p h) κ := by
  rw [Safe, wp_tryCatch]
  refine hL.wp_of_safe hp fun κ' r hle => ?_
  cases r with
  | ok a => trivial
  | error e => exact hh κ' e hle

/-- A loop whose body needs at each element only what was known at the start. -/
theorem Growing.safe_forEach (hL : L.Growing) {is : List ι} {f : ι → Program C R E Unit}
    (hf : ∀ κ' i, i ∈ is → κ ≤ κ' → L.Safe (f i) κ') : L.Safe (forEach is f) κ := by
  induction is generalizing κ with
  | nil => trivial
  | cons i is ih =>
    refine hL.safe_bind (hf κ i (by simp) (le_refl κ)) fun κ' _ h => ih fun κ'' j hj h' => ?_
    exact hf κ'' j (by simp [hj]) (h.trans h')

end Growing
end Logic
end HmDianPing.Interleaving
