import HmDianPing.Login.SmsCode

/-! # Where stored codes come from

Whatever fails, is cut off or overtaken: a code under the key of a phone is one that
a call of `sendCode` for this phone has drawn.
-/
namespace HmDianPing.Login
open Interleaving Program Redis

/-- A call stores only codes it has drawn, under the key of its phone. -/
def drawing (call : SmsCall) : Logic SmsStep SmsStep.Reply SmsFailure (Set String) where
  pre drawn s := s.call = call ∧ match s.command with
    | .set key code _ => key = loginCodeKey call.phone ∧ code ∈ drawn
    | _ => True
  meets _ _ _ := True
  learn
    | drawn, ⟨_, .nextInt⟩, .ok n => insert (codeText n) drawn
    | drawn, _, _ => drawn

section Safe
variable (call : SmsCall) (drawn : Set String)

/-- The commands that draw nothing and store nothing. -/
def SmsCommand.Plain : SmsCommand → Prop
  | .nextInt | .set _ _ _ => False
  | _ => True

theorem neutral_of_smsPlain {c : SmsCommand} (h : c.Plain) :
    ((drawing call).comap (SmsStep.mk call)).Neutral c := by
  intro drawn
  cases c with
  | nextInt => exact h.elim
  | set key code minutes => exact h.elim
  | _ => exact ⟨⟨rfl, trivial⟩, fun r _ => rfl⟩

theorem onFailure_plain (key code : String) (e : SmsFailure) :
    (onFailure key code e).Calls SmsCommand.Plain := by
  have hdelete : (deleteFailedCode key code).Calls SmsCommand.Plain := by
    refine Calls.tryCatch ((calls_perform_bind _ _).mpr ⟨trivial, fun _ => trivial⟩) fun e => ?_
    cases e <;> trivial
  cases e with
  | send => exact hdelete.bind fun _ => trivial
  | dataAccess => exact hdelete.bind fun _ => trivial

theorem storeAndSend_safe {code : String} (hcode : code ∈ drawn) :
    ((drawing call).comap (SmsStep.mk call)).Safe (tryCatch
      (storeAndSend call.phone (loginCodeKey call.phone) code)
      (onFailure (loginCodeKey call.phone) code)) drawn := by
  rw [Logic.Safe, Logic.wp_tryCatch]
  have hfailure : ∀ e, ((drawing call).comap (SmsStep.mk call)).Safe
      (onFailure (loginCodeKey call.phone) code e) drawn := fun e =>
    Logic.safe_of_neutral ((onFailure_plain _ _ e).mono fun _ => neutral_of_smsPlain call)
  refine (Logic.wp_perform_bind _ _).mpr ⟨⟨rfl, rfl, hcode⟩, fun _ _ => ?_, fun e _ => hfailure e⟩
  refine (Logic.wp_perform_bind _ _).mpr ⟨⟨rfl, trivial⟩, fun _ _ => trivial, fun e _ => hfailure e⟩

theorem sendReserved_safe :
    ((drawing call).comap (SmsStep.mk call)).Safe (sendReserved call.phone) drawn := by
  refine (Logic.wp_perform_bind _ _).mpr ⟨⟨rfl, trivial⟩, fun n _ => ?_, fun e _ => trivial⟩
  exact storeAndSend_safe call _ (Set.mem_insert _ _)

theorem sendCode_safe (p : SmsProperties) : (drawing call).Safe
    ((respond (sendCode p call.phone)).lift (SmsStep.mk call)) drawn := by
  have hreserve {h : SmsFailure → SmsProgram (Option ℤ)} (hh : ∀ e, (h e).Calls SmsCommand.Plain) :
      (tryCatch (reserveSend p call.phone) h).Calls SmsCommand.Plain :=
    Calls.tryCatch ((calls_perform _).mpr trivial) hh
  rw [Logic.Safe, Logic.wp_lift]
  refine Logic.Safe.bind ?_ fun drawn r => ⟨⟨rfl, trivial⟩, fun _ _ => trivial⟩
  unfold sendCode
  split
  · trivial
  · refine Logic.Safe.bind ?_ fun drawn reserved => ?_
    · refine Logic.safe_of_neutral ((hreserve fun e => ?_).mono fun _ => neutral_of_smsPlain call)
      cases e <;> trivial
    · rcases sendIfReserved_cases call.phone reserved with hsend | ⟨r, hr⟩
      · rw [hsend]; exact sendReserved_safe call drawn
      · rw [hr]; trivial

end Safe

/-- A code that is stored for a phone was drawn for it. -/
def SmsWorld.Drawn (w : SmsWorld) : Prop :=
  ∀ key e, w.codes key = some e →
    key = loginCodeKey e.value.writer.phone ∧ (e.value.writer, .drew e.value.code) ∈ w.notes

def DrewAll (w : SmsWorld) (call : SmsCall) (drawn : Set String) : Prop :=
  ∀ code ∈ drawn, (call, .drew code) ∈ w.notes

structure SmsPool.Drawn (c : SmsPool) : Prop where
  codes : c.shared.Drawn
  calls : Machine.KnowsOwn drawing DrewAll c

section Run
variable {w w' : SmsWorld} {s : SmsStep} {f : SmsChoice} {r : Except SmsFailure s.Reply}

/-- What is there was there, and no note is lost. -/
theorem SmsWorld.Drawn.shrink (h : w.Drawn) (hcodes : ∀ key e, w'.codes key = some e →
    w.codes key = some e) (hnotes : w.notes ⊆ w'.notes) : w'.Drawn :=
  fun key e he => (h key e (hcodes key e he)).imp_right fun hdrew => hnotes hdrew

theorem SmsWorld.Drawn.note (h : w.Drawn) (call : SmsCall) (n : SmsNote) : (w.note call n).Drawn :=
  h.shrink (fun _ _ => id) (List.subset_cons_self _ _)

theorem SmsWorld.Drawn.set (h : w.Drawn) {call : SmsCall} {code : String} {minutes : ℤ}
    {codes : Keyspace String StoredCode} (hdrew : (call, .drew code) ∈ w.notes)
    (hset : w.codes.setEx w.now (loginCodeKey call.phone) ⟨code, call⟩ (60 * minutes) = some codes) :
    ({ w with codes } : SmsWorld).Drawn := by
  unfold Keyspace.setEx at hset
  split at hset
  swap
  · cases hset
  · cases hset
    intro key e he
    by_cases hkey : key = loginCodeKey call.phone
    · subst hkey
      simp only [Function.update_self, Option.some.injEq] at he
      rw [← he]
      exact ⟨rfl, hdrew⟩
    · simp only [Function.update_of_ne hkey] at he
      exact h key e he

theorem SmsWorld.clean_codes (w : SmsWorld) (call : SmsCall) (key code : String) (k : String)
    (e : Entry StoredCode) (he : (w.clean call key code).2.codes k = some e) :
    w.codes k = some e := by
  unfold clean unlock Keyspace.del at he
  simp only [note] at he
  split at he
  swap
  · exact he
  split at he
  · exact he
  · by_cases hkey : k = key
    · subst hkey
      simp at he
    · simpa [Function.update_of_ne hkey] using he

theorem SmsWorld.Drawn.clean (h : w.Drawn) (call : SmsCall) (key code : String) :
    (w.clean call key code).2.Drawn :=
  h.shrink (w.clean_codes call key code) (List.subset_cons_self _ _)

theorem SmsWorld.notes_subset (h : w.exec s f = some (r, w')) : w.notes ⊆ w'.notes := by
  obtain ⟨call, command⟩ := s
  cases command with
  | set key code minutes =>
    cases f with
    | done =>
      simp only [exec] at h
      split at h <;> (cases h; exact List.Subset.refl _)
    | refused | lost => cases h; exact List.Subset.refl _
    | reserved reply | drawn n => cases h
  | reserve keys args =>
    cases f with
    | reserved reply | refused => cases h; exact List.Subset.refl _
    | drawn n | done | lost => cases h
  | nextInt =>
    cases f with
    | drawn n => cases h; exact List.subset_cons_self _ _
    | reserved reply | done | refused | lost => cases h
  | send phone code =>
    cases f with
    | done | refused => cases h; exact List.subset_cons_self _ _
    | reserved reply | drawn n | lost => cases h
  | deleteCode key code =>
    cases f with
    | done | lost => cases h; exact List.subset_cons_self _ _
    | refused => cases h; exact List.Subset.refl _
    | reserved reply | drawn n => cases h
  | answer r =>
    cases f with
    | done => cases h; exact List.subset_cons_self _ _
    | reserved reply | drawn n | refused | lost => cases h

/-- A command made on codes that were drawn leaves only such codes. -/
theorem SmsWorld.Drawn.exec (h : w.Drawn) {drawn : Set String} (hdrawn : DrewAll w s.call drawn)
    (hpre : (drawing s.call).pre drawn s) (hexec : w.exec s f = some (r, w')) : w'.Drawn := by
  have hnotes := SmsWorld.notes_subset hexec
  obtain ⟨call, command⟩ := s
  cases command with
  | set key code minutes =>
    obtain ⟨-, hkey, hcode⟩ := hpre
    obtain rfl : key = loginCodeKey call.phone := hkey
    have hdrew := hdrawn code hcode
    cases f with
    | done =>
      simp only [SmsWorld.exec] at hexec
      split at hexec
      · next codes hset => cases hexec; exact h.set hdrew hset
      · cases hexec; exact h
    | refused => cases hexec; exact h
    | lost =>
      cases hexec
      cases hset : w.codes.setEx w.now (loginCodeKey call.phone) ⟨code, call⟩ (60 * minutes) with
      | none => exact h
      | some codes => exact h.set hdrew hset
    | reserved reply | drawn n => cases hexec
  | deleteCode key code =>
    cases f with
    | done | lost => cases hexec; exact h.clean call key code
    | refused => cases hexec; exact h
    | reserved reply | drawn n => cases hexec
  | reserve keys args =>
    cases f with
    | reserved reply | refused => cases hexec; exact h
    | drawn n | done | lost => cases hexec
  | nextInt =>
    cases f with
    | drawn n => cases hexec; exact h.note call _
    | reserved reply | done | refused | lost => cases hexec
  | send phone code =>
    cases f with
    | done | refused => cases hexec; exact h.note call _
    | reserved reply | drawn n | lost => cases hexec
  | answer r =>
    cases f with
    | done => cases hexec; exact h.note call _
    | reserved reply | drawn n | refused | lost => cases hexec

theorem DrewAll.mono {call : SmsCall} {drawn : Set String} (h : DrewAll w call drawn)
    (hnotes : w.notes ⊆ w'.notes) : DrewAll w' call drawn := fun code hcode => hnotes (h code hcode)

theorem DrewAll.learn {drawn : Set String} (h : DrewAll w s.call drawn)
    (hexec : w.exec s f = some (r, w')) : DrewAll w' s.call ((drawing s.call).learn drawn s r) := by
  have hnotes := SmsWorld.notes_subset hexec
  obtain ⟨call, command⟩ := s
  cases command with
  | nextInt =>
    cases f with
    | drawn n =>
      cases hexec
      intro code hcode
      rcases hcode with rfl | hcode
      · exact List.mem_cons_self
      · exact hnotes (h code hcode)
    | reserved reply | done | refused | lost => cases hexec
  | _ => exact h.mono hnotes

theorem SmsPool.Drawn.step {p : SmsProperties} {c c' : SmsPool} {m : Move SmsChoice SmsAction}
    (h : SmsPool.Drawn c) (hfires : (smsCalls p).Fires c m c') : SmsPool.Drawn c' := by
  cases hfires with
  | run thread hexec =>
    obtain ⟨drawn, hdrawn, hpre, -⟩ := h.calls.thread thread
    have hcall := hpre.1
    have hnotes := SmsWorld.notes_subset hexec
    refine ⟨?_, h.calls.run thread (fun _ _ _ _ _ hκ => hκ.mono hnotes) fun κ hκ hκpre =>
      ⟨trivial, ?_⟩⟩
    · subst hcall
      exact h.codes.exec hdrawn hpre hexec
    · obtain rfl := hκpre.1
      exact hκ.learn hexec
  | crash bound => exact ⟨h.codes, h.calls.crash _⟩
  | @act a w started hact =>
    cases a with
    | request phone =>
      cases hact
      refine ⟨h.codes, h.calls.act (fun _ _ hκ => hκ) fun t ht => ⟨∅, nofun, ?_⟩⟩
      obtain rfl := List.mem_singleton.mp ht
      exact sendCode_safe ⟨c.shared.nextCall, phone⟩ ∅ p
    | pass milliseconds =>
      cases hact
      exact ⟨h.codes, h.calls.act (fun _ _ hκ => hκ) nofun⟩

/-- The code a login finds for a phone was drawn for it. -/
theorem SmsWorld.Drawn.get (h : w.Drawn) {phone code : String}
    (hget : (w.codes.get w.now (loginCodeKey phone)).map StoredCode.code = some code) :
    ∃ call : SmsCall, call.phone = phone ∧ (call, .drew code) ∈ w.notes := by
  obtain ⟨stored, hstored, rfl⟩ := Option.map_eq_some_iff.mp hget
  obtain ⟨e, hfound, rfl⟩ := Option.map_eq_some_iff.mp hstored
  obtain ⟨hkey, hdrew⟩ := h _ e (Keyspace.found_eq_some.mp hfound).1
  exact ⟨e.value.writer, (loginCodeKey_inj.mp hkey).symm, hdrew⟩

end Run
end HmDianPing.Login
