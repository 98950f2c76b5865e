import HmDianPing.Interleaving.Program
import Mathlib.Data.List.Basic

/-! # The runs of one program

A trace records every call of one run of a program, with the states around it.
Between two calls the rest of the system may move the state along `rely`.
-/
namespace HmDianPing.Interleaving
open Program

/-- One call, its reply, and the states right before and right after it. -/
structure Event (S C : Type) (R : C → Type) (E : Type) where
  before : S
  cmd : C
  reply : Except E (R cmd)
  after : S

section Trace
variable {S C : Type} {R : C → Type} {E F α β : Type}

/-- `Trace exec rely s p es s' x`: from `s`, program `p` makes the calls `es` and ends with `x` in `s'`. -/
inductive Trace (exec : (c : C) → F → S → Option (Except E (R c) × S)) (rely : S → S → Prop) {α : Type} :
    S → Program C R E α → List (Event S C R E) → S → Except E α → Prop
  | done {s : S} {x : Except E α} : Trace exec rely s (.done x) [] s x
  | call {s s₁ s₂ s' : S} {c : C} {k : Except E (R c) → Program C R E α} {f : F}
      {r : Except E (R c)} {es : List (Event S C R E)} {x : Except E α} (between : rely s s₁)
      (answer : exec c f s₁ = some (r, s₂)) (rest : Trace exec rely s₂ (k r) es s' x) :
      Trace exec rely s (.call c k) (⟨s₁, c, r, s₂⟩ :: es) s' x

variable {exec : (c : C) → F → S → Option (Except E (R c) × S)} {rely : S → S → Prop}
  {s s' : S} {es : List (Event S C R E)}

namespace Trace

theorem of_done {r x : Except E α} (h : Trace exec rely s (.done r) es s' x) :
    es = [] ∧ s' = s ∧ x = r := by
  cases h
  exact ⟨rfl, rfl, rfl⟩

theorem perform_bind {s₁ s₂ : S} {c : C} {f : F} {a : R c} {k : R c → Program C R E α}
    {x : Except E α} (between : rely s s₁) (answer : exec c f s₁ = some (.ok a, s₂))
    (rest : ∃ es s', Trace exec rely s₂ (k a) es s' x) :
    ∃ es s', Trace exec rely s (perform c >>= k) es s' x :=
  let ⟨_, _, h⟩ := rest
  ⟨_, _, .call between answer h⟩

theorem of_pure {a : α} {x : Except E α} (h : Trace exec rely s (pure a) es s' x) :
    es = [] ∧ s' = s ∧ x = .ok a := of_done h

theorem of_throw {e : E} {x : Except E α} (h : Trace exec rely s (throw e) es s' x) :
    es = [] ∧ s' = s ∧ x = .error e := of_done h

theorem of_perform {c : C} {x : Except E (R c)} (h : Trace exec rely s (perform c) es s' x) :
    ∃ s₁ f, rely s s₁ ∧ exec c f s₁ = some (x, s') ∧ es = [⟨s₁, c, x, s'⟩] := by
  cases h with
  | call between answer rest =>
    obtain ⟨rfl, rfl, rfl⟩ := of_done rest
    exact ⟨_, _, between, answer, rfl⟩

theorem calls_first {c : C} {k : R c → Program C R E α} {x : Except E α}
    (h : Trace exec rely s (perform c >>= k) es s' x) : ∃ ev ∈ es, ev.cmd = c := by
  cases h with
  | call between answer rest => exact ⟨_, List.mem_cons_self, rfl⟩

/-- A sequence runs its second half unless the first half fails. -/
theorem of_bind {p : Program C R E α} {f : α → Program C R E β} {x : Except E β}
    (h : Trace exec rely s (p >>= f) es s' x) :
    (∃ a es₁ es₂ s₁, es = es₁ ++ es₂ ∧ Trace exec rely s p es₁ s₁ (.ok a) ∧
      Trace exec rely s₁ (f a) es₂ s' x) ∨
    (∃ e, x = .error e ∧ Trace exec rely s p es s' (.error e)) := by
  induction p generalizing s es with
  | done r =>
    cases r with
    | ok a => exact .inl ⟨a, [], es, s, rfl, .done, h⟩
    | error e =>
      obtain ⟨rfl, rfl, rfl⟩ := of_done (r := .error e) h
      exact .inr ⟨e, rfl, .done⟩
  | call c k ih =>
    cases h with
    | call between answer rest =>
      rcases ih _ rest with ⟨a, es₁, es₂, s₁, rfl, hp, hf⟩ | ⟨e, rfl, hp⟩
      · exact .inl ⟨a, _, es₂, s₁, rfl, .call between answer hp, hf⟩
      · exact .inr ⟨e, rfl, .call between answer hp⟩

theorem of_tryCatch {p : Program C R E α} {h : E → Program C R E α} {x : Except E α}
    (ht : Trace exec rely s (tryCatch p h) es s' x) :
    (∃ a, x = .ok a ∧ Trace exec rely s p es s' (.ok a)) ∨
    (∃ e es₁ es₂ s₁, es = es₁ ++ es₂ ∧ Trace exec rely s p es₁ s₁ (.error e) ∧
      Trace exec rely s₁ (h e) es₂ s' x) := by
  induction p generalizing s es with
  | done r =>
    cases r with
    | ok a =>
      obtain ⟨rfl, rfl, rfl⟩ := of_done (r := .ok a) ht
      exact .inl ⟨a, rfl, .done⟩
    | error e => exact .inr ⟨e, [], es, s, rfl, .done, ht⟩
  | call c k ih =>
    cases ht with
    | call between answer rest =>
      rcases ih _ rest with ⟨a, rfl, hp⟩ | ⟨e, es₁, es₂, s₁, rfl, hp, hh⟩
      · exact .inl ⟨a, rfl, .call between answer hp⟩
      · exact .inr ⟨e, _, es₂, s₁, rfl, .call between answer hp, hh⟩

theorem calls {P : C → Prop} {p : Program C R E α} {x : Except E α} (hp : p.Calls P)
    (h : Trace exec rely s p es s' x) : ∀ ev ∈ es, P ev.cmd := by
  induction h with
  | done => simp
  | call _ _ _ ih =>
    intro ev hev
    rcases List.mem_cons.mp hev with rfl | hev
    · exact hp.1
    · exact ih (hp.2 _) ev hev

/-- What every call of the program and every outside move preserves holds at the end. -/
theorem invariant (I : S → Prop) {P : C → Prop} {p : Program C R E α} {x : Except E α}
    (h : Trace exec rely s p es s' x) (hp : p.Calls P) (hrely : ∀ a b, rely a b → I a → I b)
    (hexec : ∀ c f a r b, P c → exec c f a = some (r, b) → I a → I b) (hs : I s) : I s' := by
  induction h with
  | done => exact hs
  | call between answer rest ih =>
    exact ih (hp.2 _) (hexec _ _ _ _ _ hp.1 answer (hrely _ _ between hs))

theorem forEach {ι : Type} (I : S → List ι → Prop) {f : ι → Program C R E Unit} {is : List ι}
    {x : Except E Unit} (h : Trace exec rely s (Program.forEach is f) es s' x) (hI : I s is)
    (hstep : ∀ s i is es s' x, I s (i :: is) → Trace exec rely s (f i) es s' x →
      x = .ok () ∧ I s' is) : x = .ok () ∧ I s' [] := by
  induction is generalizing s es with
  | nil =>
    obtain ⟨-, rfl, rfl⟩ := of_pure h
    exact ⟨rfl, hI⟩
  | cons i is ih =>
    rcases of_bind h with ⟨u, es₁, es₂, s₁, rfl, hbody, hrest⟩ | ⟨e, rfl, hbody⟩
    · exact ih hrest (hstep s i is es₁ s₁ _ hI hbody).2
    · cases (hstep s i is es s' _ hI hbody).1

theorem forEach_ok {ι : Type} (I : S → List ι → Prop) {f : ι → Program C R E Unit} {is : List ι}
    (h : Trace exec rely s (Program.forEach is f) es s' (.ok ())) (hI : I s is)
    (hstep : ∀ s i is es s', I s (i :: is) → Trace exec rely s (f i) es s' (.ok ()) → I s' is) :
    I s' [] := by
  induction is generalizing s es with
  | nil =>
    obtain ⟨-, rfl, -⟩ := of_pure h
    exact hI
  | cons i is ih =>
    rcases of_bind h with ⟨u, es₁, es₂, s₁, rfl, hbody, hrest⟩ | ⟨e, he, -⟩
    · exact ih hrest (hstep s i is es₁ s₁ hI hbody)
    · cases he

/-- A loop over distinct elements comes to one of them once: `A` holds before, `B` after it. -/
theorem forEach_once {ι : Type} [DecidableEq ι] {A B : S → Prop} {f : ι → Program C R E Unit}
    {is : List ι} {j : ι} {x : Except E Unit} (h : Trace exec rely s (Program.forEach is f) es s' x)
    (hnodup : is.Nodup) (hmem : j ∈ is) (hA : A s)
    (before : ∀ i s es s' x, i ≠ j → A s → Trace exec rely s (f i) es s' x → x = .ok () ∧ A s')
    (atOnce : ∀ s es s' x, A s → Trace exec rely s (f j) es s' x → x = .ok () ∧ B s')
    (after : ∀ i s es s' x, i ≠ j → B s → Trace exec rely s (f i) es s' x → x = .ok () ∧ B s') :
    x = .ok () ∧ B s' := by
  obtain ⟨hx, -, hB⟩ := h.forEach (fun s is => is.Nodup ∧ if j ∈ is then A s else B s)
    ⟨hnodup, by rwa [if_pos hmem]⟩ fun s i is es s' x hI hbody => by
      obtain ⟨hnodup, hs⟩ := hI
      obtain ⟨hi, his⟩ := List.nodup_cons.mp hnodup
      by_cases hij : i = j
      · subst hij
        rw [if_pos List.mem_cons_self] at hs
        rw [if_neg hi]
        exact (atOnce s es s' x hs hbody).imp_right fun hB => ⟨his, hB⟩
      · have hcons : j ∈ i :: is ↔ j ∈ is := by
          simp [Ne.symm hij]
        simp only [hcons] at hs
        split at hs
        next hj =>
          rw [if_pos hj]
          exact (before i s es s' x hij hs hbody).imp_right fun hA => ⟨his, hA⟩
        next hj =>
          rw [if_neg hj]
          exact (after i s es s' x hij hs hbody).imp_right fun hB => ⟨his, hB⟩
  exact ⟨hx, by simpa using hB⟩

end Trace

/-- The exceptions the calls threw, in order. -/
def failures (es : List (Event S C R E)) : List E :=
  es.filterMap fun ev => match ev.reply with
    | .ok _ => none
    | .error e => some e

theorem Trace.thrown {Q : E → Prop} {p : Program C R E α} {x : Except E α}
    (h : Trace exec rely s p es s' x)
    (hexec : ∀ c f a e b, exec c f a = some (.error e, b) → Q e) : ∀ e ∈ failures es, Q e := by
  induction h with
  | done => intro e he; cases he
  | @call _ _ _ _ c _ f r _ _ _ answer _ ih =>
    intro e he
    cases r with
    | ok a => exact ih e he
    | error e' =>
      rcases List.mem_cons.mp he with rfl | he
      · exact hexec _ _ _ _ _ answer
      · exact ih e he

@[simp] theorem failures_nil : failures ([] : List (Event S C R E)) = [] := rfl

@[simp] theorem failures_append (es es' : List (Event S C R E)) :
    failures (es ++ es') = failures es ++ failures es' := List.filterMap_append

@[simp] theorem failures_cons_ok (s s' : S) (c : C) (a : R c) (es : List (Event S C R E)) :
    failures (⟨s, c, .ok a, s'⟩ :: es) = failures es := rfl

@[simp] theorem failures_cons_error (s s' : S) (c : C) (e : E) (es : List (Event S C R E)) :
    failures (⟨s, c, .error e, s'⟩ :: es) = e :: failures es := rfl

/-- A program that calls only `P`, throws what its calls throw, and catches nothing. -/
def Program.Plain (P : C → Prop) : Program C R E α → Prop
  | .done (.ok _) => True
  | .done (.error _) => False
  | .call c k => P c ∧ (∀ e, k (.error e) = .done (.error e)) ∧ ∀ a, (k (.ok a)).Plain P

section Plain
variable {P P' : C → Prop}

@[simp] theorem plain_pure (a : α) : (pure a : Program C R E α).Plain P := trivial

@[simp] theorem plain_perform (c : C) : (perform c : Program C R E (R c)).Plain P ↔ P c :=
  ⟨And.left, fun h => ⟨h, fun _ => rfl, fun _ => trivial⟩⟩

@[simp] theorem plain_perform_bind (c : C) (f : R c → Program C R E β) :
    (perform c >>= f).Plain P ↔ P c ∧ ∀ a, (f a).Plain P :=
  ⟨fun h => ⟨h.1, h.2.2⟩, fun h => ⟨h.1, fun _ => rfl, h.2⟩⟩

@[simp] theorem plain_ite (b : Prop) [Decidable b] (p q : Program C R E α) :
    (if b then p else q).Plain P ↔ (b → p.Plain P) ∧ (¬ b → q.Plain P) := by
  by_cases hb : b <;> simp [hb]

theorem Program.Plain.bind {p : Program C R E α} {f : α → Program C R E β} (hp : p.Plain P)
    (hf : ∀ a, (f a).Plain P) : (p >>= f).Plain P := by
  induction p with
  | done r =>
    cases r with
    | ok a => exact hf a
    | error e => exact hp.elim
  | call c k ih =>
    refine ⟨hp.1, fun e => ?_, fun a => ih (.ok a) (hp.2.2 a)⟩
    change (k (.error e) >>= f) = _
    rw [hp.2.1 e]
    rfl

theorem Program.Plain.mono {p : Program C R E α} (hp : p.Plain P) (h : ∀ c, P c → P' c) :
    p.Plain P' := by
  induction p with
  | done r => cases r <;> exact hp
  | call c k ih => exact ⟨h c hp.1, hp.2.1, fun a => ih (.ok a) (hp.2.2 a)⟩

theorem Program.Plain.calls {p : Program C R E α} (hp : p.Plain P) : p.Calls P := by
  induction p with
  | done r => trivial
  | call c k ih =>
    refine ⟨hp.1, fun r => ?_⟩
    cases r with
    | ok a => exact ih (.ok a) (hp.2.2 a)
    | error e => rw [hp.2.1 e]; trivial

/-- A plain program throws only what its calls throw. -/
theorem Logic.Growing.wp_of_plain {K : Type} [Preorder K] {L : Logic C R E K} (hL : L.Growing)
    {Q : K → Except E α → Prop} {κ : K} {F : E → Prop} {p : Program C R E α} (hp : p.Plain P)
    (hpre : p.Calls (L.pre κ)) (hthrown : ∀ κ' c e, P c → L.meets κ' c (.error e) → F e)
    (hQ : ∀ κ' r, κ ≤ κ' → (∀ e, r = .error e → F e) → Q κ' r) : L.wp p Q κ := by
  induction p generalizing κ with
  | done r =>
    cases r with
    | ok a => exact hQ κ _ (le_refl κ) fun e he => by cases he
    | error e => exact hp.elim
  | call c k ih =>
    have hle := hL.learn κ c
    refine ⟨hpre.1, fun r hr => ?_⟩
    cases r with
    | ok a =>
      refine ih (.ok a) (hp.2.2 a) ((hpre.2 _).mono fun c' => hL.pre _ _ c' (hle _)) ?_
      exact fun κ' r' h => hQ κ' r' ((hle _).trans h)
    | error e =>
      rw [hp.2.1 e]
      refine hQ _ _ (hle _) fun e' he => ?_
      cases he
      exact hthrown κ c e hp.1 hr

/-- A plain program succeeds if no call fails, and otherwise fails with its only failing call. -/
theorem Trace.of_plain {p : Program C R E α} {x : Except E α} (hp : p.Plain P)
    (h : Trace exec rely s p es s' x) :
    (∀ ev ∈ es, P ev.cmd) ∧
      ((failures es = [] ∧ ∃ a, x = .ok a) ∨ ∃ e, failures es = [e] ∧ x = .error e) := by
  induction h with
  | @done s x =>
    cases x with
    | ok a => exact ⟨by simp, .inl ⟨rfl, a, rfl⟩⟩
    | error e => exact hp.elim
  | @call s s₁ s₂ s' c k f r es x _ _ rest ih =>
    cases r with
    | ok a =>
      obtain ⟨hcalls, hend⟩ := ih (hp.2.2 a)
      exact ⟨List.forall_mem_cons.mpr ⟨hp.1, hcalls⟩, by simpa using hend⟩
    | error e =>
      rw [hp.2.1 e] at rest
      obtain ⟨rfl, rfl, rfl⟩ := of_done rest
      exact ⟨by simpa using hp.1, .inr ⟨e, rfl, rfl⟩⟩

theorem Trace.ok_of_plain {p : Program C R E α} {x : Except E α} (hp : p.Plain P)
    (h : Trace exec rely s p es s' x)
    (hok : ∀ c f a r b, P c → exec c f a = some (r, b) → ∃ v, r = .ok v) : ∃ a, x = .ok a := by
  induction h with
  | @done s x =>
    cases x with
    | ok a => exact ⟨a, rfl⟩
    | error e => exact hp.elim
  | call between answer rest ih =>
    obtain ⟨a, rfl⟩ := hok _ _ _ _ _ hp.1 answer
    exact ih (hp.2.2 a)

end Plain

/-- Runs a program undisturbed, with the outcomes of its calls given. -/
def playTrace (exec : (c : C) → F → S → Option (Except E (R c) × S)) {α : Type} :
    Program C R E α → List F → S → Option (List (Event S C R E) × S × Except E α)
  | .done x, _, s => some ([], s, x)
  | .call _ _, [], _ => none
  | .call c k, f :: fs, s => (exec c f s).bind fun p =>
      (playTrace exec (k p.1) fs p.2).map fun q => (⟨s, c, p.1, p.2⟩ :: q.1, q.2)

theorem trace_of_play (hrely : ∀ s, rely s s) {p : Program C R E α} {fs : List F} {x : Except E α}
    (h : playTrace exec p fs s = some (es, s', x)) : Trace exec rely s p es s' x := by
  induction p generalizing fs s es with
  | done r => cases h; exact .done
  | call c k ih =>
    cases fs with
    | nil => cases h
    | cons f fs =>
      obtain ⟨⟨r, s₁⟩, he, hp⟩ := Option.bind_eq_some_iff.mp h
      obtain ⟨⟨es', s₂, x'⟩, hrest, hq⟩ := Option.map_eq_some_iff.mp hp
      cases hq
      exact .call (hrely s) he (ih _ hrest)

theorem trace_of_play_isSome (hrely : ∀ s, rely s s) {p : Program C R E α} {fs : List F}
    (h : (playTrace exec p fs s).isSome) :
    Trace exec rely s p ((playTrace exec p fs s).get h).1 ((playTrace exec p fs s).get h).2.1
      ((playTrace exec p fs s).get h).2.2 :=
  trace_of_play hrely (Option.some_get h).symm

end Trace
end HmDianPing.Interleaving
