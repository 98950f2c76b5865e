import HmDianPing.Interleaving.Machine
import HmDianPing.Login.Session
import HmDianPing.Redis.Expiring

/-! # Sending a login code

A code is stored before the provider is asked to send it, and taken back when the provider
refuses. Requests of one phone may overlap, and a later one overwrites the key. The request that
cleans up deletes the key only when it still finds its own code there.
-/
namespace HmDianPing.Login
open Interleaving Program Redis

/-- `PHONE_REGEX` after the first digit. -/
def phonePrefix (c d : Char) : Bool :=
  match c with
  | '3' | '8' => d.isDigit
  | '4' => d ∈ ['5', '7', '9']
  | '5' => d ∈ ['0', '1', '2', '3', ',', '5', '6', '7', '8', '9']
  | '6' => d = '6'
  | '7' => d ∈ ['0', '1', '3', '5', '6', '7', '8']
  | '9' => d ∈ ['8', '9']
  | _ => false

def matchesPhone (phone : String) : Bool :=
  match phone.toList with
  | '1' :: c :: d :: rest => phonePrefix c d && rest.length = 8 && rest.all Char.isDigit
  | _ => false

def isPhoneInvalid (phone : String) : Bool := isBlank (some phone) || !matchesPhone phone

/-- `String.format(Locale.ROOT, "%06d", n)`. -/
def codeText (n : Fin 1000000) : String :=
  let digits := toString n.val
  String.ofList (List.replicate (6 - digits.length) '0') ++ digits

def loginCodeKey (phone : String) : String := "login:code:" ++ phone

theorem loginCodeKey_inj {phone phone' : String} :
    loginCodeKey phone = loginCodeKey phone' ↔ phone = phone' :=
  String.append_right_inj "login:code:"

def loginCodeTtl : ℤ := 2

structure SmsProperties where
  sendIntervalSeconds : ℤ := 60
  maxSendsPerDay : ℤ := 10

/-- `SmsSendException` and `DataAccessException`. -/
inductive SmsFailure where
  | send | dataAccess
deriving DecidableEq

inductive SmsCommand where
  /-- `RESERVE_SCRIPT`. -/
  | reserve (keys args : List String)
  /-- `random.nextInt(1_000_000)`. -/
  | nextInt
  | set (key code : String) (minutes : ℤ)
  | send (phone code : String)
  /-- `DELETE_CODE_SCRIPT`. -/
  | deleteCode (key code : String)
  /-- The response to the client. -/
  | answer (r : Result)

abbrev SmsCommand.Reply : SmsCommand → Type
  | .reserve _ _ => Option ℤ
  | .nextInt => Fin 1000000
  | .deleteCode _ _ => ℤ
  | .set _ _ _ | .send _ _ | .answer _ => Unit

abbrev SmsProgram (α : Type) := Program SmsCommand SmsCommand.Reply SmsFailure α

def unavailable : Result := .fail "验证码服务暂不可用，请稍后重试"

/-- The message of `SmsSendException`. -/
def sendFailed : Result := .fail "短信发送失败，请稍后重试"

def deleteFailedCode (key code : String) : SmsProgram Unit :=
  tryCatch (do let _ ← perform (SmsCommand.deleteCode key code)) fun
    | .dataAccess => pure ()
    | .send => throw .send

/-- The `catch` clauses of `sendCode`. -/
def onFailure (key code : String) : SmsFailure → SmsProgram Result
  | .send => do
    deleteFailedCode key code
    return sendFailed
  | .dataAccess => do
    deleteFailedCode key code
    return unavailable

/-- The body of the `try` of `sendCode`. -/
def storeAndSend (phone codeKey code : String) : SmsProgram Result := do
  perform (SmsCommand.set codeKey code loginCodeTtl)
  perform (SmsCommand.send phone code)
  return .ok

/-- `sendCode`, from where a send is reserved. -/
def sendReserved (phone : String) : SmsProgram Result := do
  let n ← perform SmsCommand.nextInt
  let code := codeText n
  let codeKey := loginCodeKey phone
  tryCatch (storeAndSend phone codeKey code) (onFailure codeKey code)

def reserveSend (p : SmsProperties) (phone : String) : SmsProgram (Option ℤ) :=
  let keyPrefix := "sms:send:\x7b" ++ phone ++ "\x7d:"
  perform (SmsCommand.reserve [keyPrefix ++ "cooldown", keyPrefix ++ "daily"]
    [toString p.sendIntervalSeconds, toString p.maxSendsPerDay])

/-- `sendCode`, by the reply of the script. -/
def sendIfReserved (phone : String) : Option ℤ → SmsProgram Result
  | none => return unavailable
  | some 0 => return .fail "验证码发送过于频繁，请稍后重试"
  | some 1 => sendReserved phone
  | some _ => return .fail "验证码发送次数已达上限，请24小时后再试"

theorem sendIfReserved_cases (phone : String) (reply : Option ℤ) :
    sendIfReserved phone reply = sendReserved phone ∨
      ∃ r, sendIfReserved phone reply = pure r := by
  unfold sendIfReserved
  split
  · exact .inr ⟨_, rfl⟩
  · exact .inr ⟨_, rfl⟩
  · exact .inl rfl
  · exact .inr ⟨_, rfl⟩

/-- `sendCode` of a valid phone. -/
def reserveAndSend (p : SmsProperties) (phone : String) : SmsProgram Result := do
  -- a store that is not available is answered like a script without a reply
  let reserved ← tryCatch (reserveSend p phone) fun
    | .dataAccess => pure none
    | .send => throw .send
  sendIfReserved phone reserved

def sendCode (p : SmsProperties) (phone : String) : SmsProgram Result :=
  if isPhoneInvalid phone then return .fail "手机号格式不正确"
  else reserveAndSend p phone

def respond (program : SmsProgram Result) : SmsProgram Unit :=
  program >>= fun r => perform (SmsCommand.answer r)

structure SmsCall where
  number : ℕ
  phone : String
deriving DecidableEq, Repr

structure SmsStep where
  call : SmsCall
  command : SmsCommand

abbrev SmsStep.Reply (s : SmsStep) : Type := s.command.Reply

structure StoredCode where
  code : String
  /-- History: the call that stored it. -/
  writer : SmsCall
deriving DecidableEq

inductive SmsNote where
  | drew (code : String)
  /-- The provider was asked to send the code. -/
  | handed (code : String)
  /-- The cleanup, and the call whose code it removed. -/
  | cleaned (removed : Option SmsCall)
  | returned (r : Result)
deriving DecidableEq

structure SmsWorld where
  now : ℤ
  /-- `login:code:{phone}`. -/
  codes : Keyspace String StoredCode
  nextCall : ℕ
  /-- History: what the calls did, the latest first. -/
  notes : List (SmsCall × SmsNote)

/-- `unlock.lua`. -/
def unlock (db : Keyspace String StoredCode) (now : ℤ) (key code : String) :
    ℤ × Keyspace String StoredCode :=
  if (db.get now key).map StoredCode.code = some code then db.del now key else (0, db)

namespace SmsWorld
variable (w : SmsWorld)

def note (call : SmsCall) (n : SmsNote) : SmsWorld := { w with notes := (call, n) :: w.notes }

def notesOf (call : SmsCall) : List SmsNote := (w.notes.filter fun p => p.1 = call).map Prod.snd

/-- The script that cleans up. -/
def clean (call : SmsCall) (key code : String) : ℤ × SmsWorld :=
  let unlocked := unlock w.codes w.now key code
  let removed := if unlocked.1 = 1 then (w.codes.get w.now key).map StoredCode.writer else none
  (unlocked.1, { w with codes := unlocked.2 }.note call (.cleaned removed))

end SmsWorld

inductive SmsChoice where
  /-- The reply of the script that reserves a send. -/
  | reserved (reply : Option ℤ)
  | drawn (n : Fin 1000000)
  | done
  /-- The command throws, and has had no effect. -/
  | refused
  /-- The command throws after it had its effect. -/
  | lost

/-- A command that is performed. A provider that refuses may have seen the code. -/
def SmsWorld.exec : (s : SmsStep) → SmsChoice → SmsWorld →
    Option (Except SmsFailure s.Reply × SmsWorld)
  | ⟨_, .reserve _ _⟩, .reserved reply, w => some (.ok reply, w)
  | ⟨_, .reserve _ _⟩, .refused, w => some (.error .dataAccess, w)
  | ⟨caller, .nextInt⟩, .drawn n, w => some (.ok n, w.note caller (.drew (codeText n)))
  | ⟨caller, .set key code minutes⟩, .done, w =>
    match w.codes.setEx w.now key ⟨code, caller⟩ (60 * minutes) with
    | some codes => some (.ok (), { w with codes })
    | none => some (.error .dataAccess, w)
  | ⟨_, .set _ _ _⟩, .refused, w => some (.error .dataAccess, w)
  | ⟨caller, .set key code minutes⟩, .lost, w =>
    some (.error .dataAccess,
      { w with codes := (w.codes.setEx w.now key ⟨code, caller⟩ (60 * minutes)).getD w.codes })
  | ⟨caller, .send _ code⟩, .done, w => some (.ok (), w.note caller (.handed code))
  | ⟨caller, .send _ code⟩, .refused, w => some (.error .send, w.note caller (.handed code))
  | ⟨caller, .deleteCode key code⟩, .done, w =>
    some (.ok (w.clean caller key code).1, (w.clean caller key code).2)
  | ⟨_, .deleteCode _ _⟩, .refused, w => some (.error .dataAccess, w)
  | ⟨caller, .deleteCode key code⟩, .lost, w =>
    some (.error .dataAccess, (w.clean caller key code).2)
  | ⟨caller, .answer r⟩, .done, w => some (.ok (), w.note caller (.returned r))
  | _, _, _ => none

inductive SmsAction where
  | request (phone : String)
  | pass (milliseconds : ℕ)

/-- Any number of calls over the same keys, each on a thread of its own. -/
def smsCalls (p : SmsProperties) :
    Machine SmsWorld SmsStep SmsStep.Reply SmsFailure SmsCall SmsChoice SmsAction where
  exec := SmsWorld.exec
  act
    | .request phone, w => some ({ w with nextCall := w.nextCall + 1 },
        [⟨⟨w.nextCall, phone⟩, (respond (sendCode p phone)).lift (SmsStep.mk ⟨w.nextCall, phone⟩)⟩])
    | .pass milliseconds, w => some ({ w with now := w.now + milliseconds }, [])

abbrev SmsPool := Config SmsWorld SmsStep SmsStep.Reply SmsFailure SmsCall

def noCalls (now : ℤ) : SmsPool := ⟨⟨now, fun _ => none, 0, []⟩, []⟩

def SmsWorld.Works (phone : String) (w : SmsWorld) (f : SmsChoice) (s : SmsStep) : Prop :=
  match s.command, f with
  | .nextInt, .drawn n => s.call.phone = phone →
    ∀ p ∈ w.notes, p.1.phone = phone → p.2 ≠ .drew (codeText n)
  | .send _ _, _ => True
  | _, _ => ∀ reply ∈ w.exec s f, reply.1.isOk = true

instance (phone : String) (w : SmsWorld) (f : SmsChoice) (s : SmsStep) :
    Decidable (w.Works phone f s) := by
  unfold SmsWorld.Works
  split <;> infer_instance

/-- The next command of a call works, and no call is cut off. -/
def SmsAllowed (phone : String) (c : SmsPool) : Move SmsChoice SmsAction → Prop
  | .run i f => ∀ t ∈ c.threads[i]?, t.program.Next (c.shared.Works phone f)
  | .crash _ => False
  | .act _ => True

instance (phone : String) (c : SmsPool) :
    (m : Move SmsChoice SmsAction) → Decidable (SmsAllowed phone c m)
  | .run i f => inferInstanceAs (Decidable (∀ t ∈ c.threads[i]?, t.program.Next fun s =>
      c.shared.Works phone f s))
  | .crash _ => inferInstanceAs (Decidable False)
  | .act _ => inferInstanceAs (Decidable True)

section Points
variable {p : SmsProperties} {phone : String} {call : SmsCall} {w w' : SmsWorld}

/-- Where a call is, with what it has done. -/
inductive SmsPoint where
  | start
  | drawing
  | drawn (code : String)
  | saved (code : String)
  | sent (code : String)
  | failed (code : String)
  | cleaned (code : String) (removed : Option SmsCall)
  | rejected (r : Result)
  | ended (r : Result) (notes : List SmsNote)

def SmsPoint.program (p : SmsProperties) (phone : String) : SmsPoint → SmsProgram Unit
  | .start => respond (reserveAndSend p phone)
  | .drawing => respond (sendReserved phone)
  | .drawn code => respond (tryCatch (storeAndSend phone (loginCodeKey phone) code)
      (onFailure (loginCodeKey phone) code))
  | .saved code => respond (tryCatch (do perform (SmsCommand.send phone code); return .ok)
      (onFailure (loginCodeKey phone) code))
  | .sent _ => respond (pure .ok)
  | .failed code => respond (onFailure (loginCodeKey phone) code .send)
  | .cleaned _ _ => respond (pure sendFailed)
  | .rejected r => respond (pure r)
  | .ended _ _ => pure ()

def SmsPoint.notes : SmsPoint → List SmsNote
  | .start | .drawing | .rejected _ => []
  | .drawn code | .saved code => [.drew code]
  | .sent code | .failed code => [.handed code, .drew code]
  | .cleaned code removed => [.cleaned removed, .handed code, .drew code]
  | .ended r notes => .returned r :: notes

def SmsPoint.answer : SmsPoint → Option Result
  | .sent _ => some .ok
  | .cleaned _ _ => some sendFailed
  | .rejected r => some r
  | _ => none

def SmsPoint.first (phone : String) : SmsPoint :=
  if isPhoneInvalid phone then .rejected (.fail "手机号格式不正确") else .start

theorem SmsPoint.first_program :
    (SmsPoint.first phone).program p phone = respond (sendCode p phone) := by
  rw [first, sendCode]
  split <;> rfl

theorem SmsPoint.first_notes : (SmsPoint.first phone).notes = [] := by
  rw [first]
  split <;> rfl

def SmsWorld.setCode (w : SmsWorld) (phone : String) (e : Option (Entry StoredCode)) : SmsWorld :=
  { w with codes := Function.update w.codes (loginCodeKey phone) e }

theorem SmsWorld.codes_setCode (w : SmsWorld) (phone : String) (e : Option (Entry StoredCode)) :
    (w.setCode phone e).codes = Function.update w.codes (loginCodeKey phone) e := rfl

/-- Everything one command of a call can do. -/
inductive SmsSteps (phone : String) (call : SmsCall) (w : SmsWorld) :
    SmsPoint → SmsWorld → SmsPoint → Prop
  | reserved : SmsSteps phone call w .start w .drawing
  | unreserved (r : Result) : SmsSteps phone call w .start w (.rejected r)
  | drew (n : Fin 1000000) (own : call.phone = phone →
      ∀ p ∈ w.notes, p.1.phone = phone → p.2 ≠ .drew (codeText n)) :
    SmsSteps phone call w .drawing (w.note call (.drew (codeText n))) (.drawn (codeText n))
  | saved (code : String) : SmsSteps phone call w (.drawn code)
      (w.setCode call.phone (some ⟨⟨code, call⟩, some (w.now + 1000 * (60 * loginCodeTtl))⟩))
      (.saved code)
  | sent (code : String) :
    SmsSteps phone call w (.saved code) (w.note call (.handed code)) (.sent code)
  | failed (code : String) :
    SmsSteps phone call w (.saved code) (w.note call (.handed code)) (.failed code)
  | removed (code : String) {e : Entry StoredCode}
      (found : w.codes.found w.now (loginCodeKey call.phone) = some e) (own : e.value.code = code) :
    SmsSteps phone call w (.failed code)
      ((w.setCode call.phone none).note call (.cleaned (some e.value.writer)))
      (.cleaned code (some e.value.writer))
  | kept (code : String) (other : ∀ e, w.codes.found w.now (loginCodeKey call.phone) = some e →
      e.value.code ≠ code) :
    SmsSteps phone call w (.failed code) (w.note call (.cleaned none)) (.cleaned code none)
  | returned {pt : SmsPoint} {r : Result} (answer : pt.answer = some r) :
    SmsSteps phone call w pt (w.note call (.returned r)) (.ended r pt.notes)

/-- The script that cleans up removes the entry it finds, when the code is its own. -/
theorem SmsWorld.clean_cases (w : SmsWorld) (call : SmsCall) (phone code : String) :
    (∃ e, w.codes.found w.now (loginCodeKey phone) = some e ∧ e.value.code = code ∧
      (w.clean call (loginCodeKey phone) code).2 =
        (w.setCode phone none).note call (.cleaned (some e.value.writer))) ∨
    ((∀ e, w.codes.found w.now (loginCodeKey phone) = some e → e.value.code ≠ code) ∧
      (w.clean call (loginCodeKey phone) code).2 = w.note call (.cleaned none)) := by
  cases hfound : w.codes.found w.now (loginCodeKey phone) with
  | none =>
    refine .inr ⟨nofun, ?_⟩
    simp [clean, unlock, Keyspace.get, hfound]
  | some e =>
    by_cases hcode : e.value.code = code
    · refine .inl ⟨e, rfl, hcode, ?_⟩
      simp [clean, unlock, setCode, Keyspace.get, Keyspace.del, hfound, hcode]
    · refine .inr ⟨?_, ?_⟩
      · rintro _ ⟨⟩
        exact hcode
      · simp [clean, unlock, Keyspace.get, hfound, hcode]

theorem SmsSteps.of_exec {pt : SmsPoint} {s : SmsStep} {f : SmsChoice}
    {k : Except SmsFailure s.Reply → Program SmsStep SmsStep.Reply SmsFailure Unit}
    {r : Except SmsFailure s.Reply}
    (hpoint : (pt.program p call.phone).lift (SmsStep.mk call) = .call s k)
    (hexec : w.exec s f = some (r, w')) (hworks : w.Works phone f s) :
    ∃ pt', k r = (pt'.program p call.phone).lift (SmsStep.mk call) ∧
      SmsSteps phone call w pt w' pt' := by
  cases pt with
  | start =>
    cases hpoint
    cases f with
    | reserved reply =>
      cases hexec
      change ∃ pt', lift (R := SmsStep.Reply) (SmsStep.mk call)
        (respond (sendIfReserved call.phone reply)) = _ ∧ _
      obtain hsend | ⟨r, hr⟩ := sendIfReserved_cases call.phone reply
      · rw [hsend]
        exact ⟨.drawing, rfl, .reserved⟩
      · rw [hr]
        exact ⟨.rejected r, rfl, .unreserved r⟩
    | refused =>
      cases hexec
      exact ⟨.rejected unavailable, rfl, .unreserved _⟩
    | drawn n | done | lost => cases hexec
  | drawing =>
    cases hpoint
    cases f with
    | drawn n =>
      cases hexec
      exact ⟨.drawn (codeText n), rfl, .drew n hworks⟩
    | reserved reply | done | refused | lost => cases hexec
  | drawn code =>
    cases hpoint
    cases f with
    | done =>
      by_cases hvalid : ValidExpiry w.now (60 * loginCodeTtl)
      · simp only [SmsWorld.exec, Keyspace.setEx, if_pos hvalid] at hexec
        cases hexec
        exact ⟨.saved code, rfl, .saved code⟩
      · simp [SmsWorld.Works, SmsWorld.exec, Keyspace.setEx, hvalid, Except.isOk, Except.toBool]
          at hworks
    | refused | lost => simp [SmsWorld.Works, SmsWorld.exec, Except.isOk, Except.toBool] at hworks
    | reserved reply | drawn n => cases hexec
  | saved code =>
    cases hpoint
    cases f with
    | done =>
      cases hexec
      exact ⟨.sent code, rfl, .sent code⟩
    | refused =>
      cases hexec
      exact ⟨.failed code, rfl, .failed code⟩
    | reserved reply | drawn n | lost => cases hexec
  | failed code =>
    cases hpoint
    cases f with
    | done =>
      cases hexec
      obtain ⟨e, hfound, hown, hclean⟩ | ⟨hother, hclean⟩ := w.clean_cases call call.phone code
      · rw [hclean]
        exact ⟨.cleaned code (some e.value.writer), rfl, .removed code hfound hown⟩
      · rw [hclean]
        exact ⟨.cleaned code none, rfl, .kept code hother⟩
    | refused | lost => simp [SmsWorld.Works, SmsWorld.exec, Except.isOk, Except.toBool] at hworks
    | reserved reply | drawn n => cases hexec
  | sent code | cleaned code removed | rejected r =>
    cases hpoint
    cases f with
    | done =>
      cases hexec
      exact ⟨.ended _ _, rfl, .returned rfl⟩
    | reserved reply | drawn n | refused | lost => cases hexec
  | ended r notes => cases hpoint

end Points

section Kept
variable {phone : String} {call : SmsCall} {w w' : SmsWorld} {pt pt' : SmsPoint}

theorem SmsWorld.mem_notesOf {n : SmsNote} : n ∈ w.notesOf call ↔ (call, n) ∈ w.notes := by
  simp [notesOf]

@[simp] theorem SmsWorld.notesOf_note (n : SmsNote) :
    (w.note call n).notesOf call = n :: w.notesOf call := by
  simp [notesOf, note]

theorem SmsWorld.notesOf_note_of_ne {other : SmsCall} (h : other ≠ call) (n : SmsNote) :
    (w.note call n).notesOf other = w.notesOf other := by
  simp [notesOf, note, Ne.symm h]

/-- A code that is stored is one of a call that has not cleaned up, and has not failed. -/
def Holding (code : String) (notes : List SmsNote) : Prop :=
  notes ∈ [[.drew code], [.handed code, .drew code], [.returned .ok, .handed code, .drew code]]

theorem Holding.drew_iff {code : String} {notes : List SmsNote} (h : Holding code notes)
    {code' : String} : .drew code' ∈ notes ↔ code' = code := by
  simp only [Holding, List.mem_cons, List.not_mem_nil, or_false] at h
  rcases h with rfl | rfl | rfl <;> simp

structure SmsWorld.Kept (phone : String) (w : SmsWorld) : Prop where
  keys : ∀ key e, w.codes key = some e → key = loginCodeKey e.value.writer.phone
  held : ∀ e, w.codes.found w.now (loginCodeKey phone) = some e →
    Holding e.value.code (w.notesOf e.value.writer)
  distinct : ∀ call call' code, call.phone = phone → call'.phone = phone →
    .drew code ∈ w.notesOf call → .drew code ∈ w.notesOf call' → call = call'
  removed : ∀ call owner, owner.phone = phone →
    .cleaned (some owner) ∈ w.notesOf call → owner = call

theorem SmsWorld.Kept.holds (h : w.Kept phone) {e : Entry StoredCode} {notes : List SmsNote}
    (hw : e.value.writer = call) (hfound : w.codes.found w.now (loginCodeKey phone) = some e)
    (hnotes : w.notesOf call = notes) : Holding e.value.code notes := by
  subst hw
  rw [← hnotes]
  exact h.held e hfound

theorem SmsWorld.Kept.writer_phone (h : w.Kept phone) {phone' : String} {e : Entry StoredCode}
    (hfound : w.codes.found w.now (loginCodeKey phone') = some e) : e.value.writer.phone = phone' :=
  (loginCodeKey_inj.mp (h.keys _ e (Keyspace.found_eq_some.mp hfound).1)).symm

theorem SmsWorld.Kept.note (h : w.Kept phone) {n : SmsNote}
    (hheld : ∀ e, w.codes.found w.now (loginCodeKey phone) = some e → e.value.writer = call →
      Holding e.value.code (n :: w.notesOf call))
    (hdrew : ∀ code, n = .drew code → call.phone = phone → ∀ call', call'.phone = phone →
      .drew code ∉ w.notesOf call')
    (hremoved : ∀ owner, n = .cleaned (some owner) → owner.phone = phone → owner = call) :
    (w.note call n).Kept phone where
  keys := h.keys
  held e he := by
    by_cases hw : e.value.writer = call
    · rw [hw, notesOf_note]
      exact hheld e he hw
    · rw [notesOf_note_of_ne hw]
      exact h.held e he
  distinct a b code ha hb hda hdb := by
    by_cases hac : a = call <;> by_cases hbc : b = call
    · exact hac.trans hbc.symm
    · subst hac
      rw [notesOf_note, List.mem_cons] at hda
      rw [notesOf_note_of_ne hbc] at hdb
      rcases hda with hn | hda
      · exact absurd hdb (hdrew code hn.symm ha b hb)
      · exact h.distinct a b code ha hb hda hdb
    · subst hbc
      rw [notesOf_note, List.mem_cons] at hdb
      rw [notesOf_note_of_ne hac] at hda
      rcases hdb with hn | hdb
      · exact absurd hda (hdrew code hn.symm hb a ha)
      · exact h.distinct a b code ha hb hda hdb
    · rw [notesOf_note_of_ne hac] at hda
      rw [notesOf_note_of_ne hbc] at hdb
      exact h.distinct a b code ha hb hda hdb
  removed a owner howner hmem := by
    by_cases hac : a = call
    · subst hac
      rw [notesOf_note, List.mem_cons] at hmem
      rcases hmem with hn | hmem
      · exact hremoved owner hn.symm howner
      · exact h.removed a owner howner hmem
    · rw [notesOf_note_of_ne hac] at hmem
      exact h.removed a owner howner hmem

theorem SmsWorld.Kept.store (h : w.Kept phone) {code : String} {deadline : Option ℤ}
    (hnotes : w.notesOf call = [.drew code]) :
    (w.setCode call.phone (some ⟨⟨code, call⟩, deadline⟩)).Kept phone where
  keys key e he := by
    by_cases hkey : key = loginCodeKey call.phone
    · subst hkey
      simp only [setCode, Function.update_self, Option.some.injEq] at he
      rw [← he]
    · rw [codes_setCode, Function.update_of_ne hkey] at he
      exact h.keys key e he
  held e he := by
    by_cases hphone : phone = call.phone
    · subst hphone
      have hentry := (Keyspace.found_eq_some.mp he).1
      simp only [setCode, Function.update_self, Option.some.injEq] at hentry
      subst hentry
      change Holding code (w.notesOf call)
      rw [hnotes]
      simp [Holding]
    · have hkey : loginCodeKey phone ≠ loginCodeKey call.phone := fun heq =>
        hphone (loginCodeKey_inj.mp heq)
      rw [setCode, Keyspace.found_update_of_ne hkey] at he
      exact h.held e he
  distinct := h.distinct
  removed := h.removed

theorem SmsWorld.Kept.remove (h : w.Kept phone) (phone' : String) :
    (w.setCode phone' none).Kept phone where
  keys key e he := by
    by_cases hkey : key = loginCodeKey phone'
    · subst hkey
      simp [setCode] at he
    · rw [codes_setCode, Function.update_of_ne hkey] at he
      exact h.keys key e he
  held e he := by
    by_cases hkey : loginCodeKey phone = loginCodeKey phone'
    · rw [setCode, hkey, Keyspace.found_update_self] at he
      cases he
    · rw [setCode, Keyspace.found_update_of_ne hkey] at he
      exact h.held e he
  distinct := h.distinct
  removed := h.removed

theorem SmsWorld.Kept.pass (h : w.Kept phone) (milliseconds : ℕ) :
    ({ w with now := w.now + milliseconds }).Kept phone where
  keys := h.keys
  held e he := by
    obtain ⟨hentry, hlive⟩ := Keyspace.found_eq_some.mp he
    refine h.held e (Keyspace.found_eq_some.mpr ⟨hentry, ?_⟩)
    have hle : w.now ≤ w.now + milliseconds := by omega
    exact Entry.live_of_le hle hlive
  distinct := h.distinct
  removed := h.removed

theorem SmsSteps.frame (h : SmsSteps phone call w pt w' pt') (hnotes : w.notesOf call = pt.notes) :
    w'.notesOf call = pt'.notes ∧ (∀ other, other ≠ call → w'.notesOf other = w.notesOf other) ∧
      w'.nextCall = w.nextCall := by
  have hnote (n : SmsNote) : (∀ other, other ≠ call →
      (w.note call n).notesOf other = w.notesOf other) := fun other hne =>
    SmsWorld.notesOf_note_of_ne hne n
  cases h with
  | reserved | unreserved r | saved code => exact ⟨hnotes, fun _ _ => rfl, rfl⟩
  | removed code hfound hown =>
    have hsame : ∀ other, (w.setCode call.phone none).notesOf other = w.notesOf other :=
      fun _ => rfl
    refine ⟨?_, fun other hne => ?_, rfl⟩
    · rw [SmsWorld.notesOf_note, hsame, hnotes]
      rfl
    · rw [SmsWorld.notesOf_note_of_ne hne, hsame]
  | drew n own | sent code | failed code | kept code other | returned answer =>
    refine ⟨?_, hnote _, rfl⟩
    rw [SmsWorld.notesOf_note, hnotes]
    rfl

theorem SmsWorld.Kept.step (h : w.Kept phone) (hsteps : SmsSteps phone call w pt w' pt')
    (hnotes : w.notesOf call = pt.notes) : w'.Kept phone := by
  cases hsteps with
  | reserved | unreserved r => exact h
  | drew n own =>
    refine h.note (fun e he hw => ?_) (fun code hcode hphone call' hphone' hdrew => ?_) nofun
    · have hnone := h.holds hw he hnotes
      simp [SmsPoint.notes, Holding] at hnone
    · rw [← hcode] at hdrew
      exact own hphone _ (SmsWorld.mem_notesOf.mp hdrew) hphone' rfl
  | saved code => exact h.store hnotes
  | sent code | failed code =>
    refine h.note (fun e he hw => ?_) nofun nofun
    have hcode : code = e.value.code :=
      (h.holds hw he hnotes).drew_iff.mp (by simp [SmsPoint.notes])
    rw [hnotes, ← hcode]
    simp [SmsPoint.notes, Holding]
  | @removed code e hfound hown =>
    have hremove := h.remove call.phone
    refine hremove.note (fun e' he hw => ?_) nofun fun owner howner hphone => ?_
    · obtain rfl : call.phone = phone := by rw [← hw, hremove.writer_phone he]
      rw [SmsWorld.codes_setCode, Keyspace.found_update_self] at he
      cases he
    · cases howner
      obtain rfl : call.phone = phone := by rw [← hphone, h.writer_phone hfound]
      -- the code it finds is its own, so it is the call that drew it
      refine h.distinct _ _ code hphone rfl ((h.held e hfound).drew_iff.mpr hown.symm) ?_
      rw [hnotes]
      simp [SmsPoint.notes]
  | kept code other =>
    refine h.note (fun e he hw => ?_) nofun nofun
    obtain rfl : call.phone = phone := by rw [← hw, h.writer_phone he]
    have hcode : code = e.value.code :=
      (h.holds hw he hnotes).drew_iff.mp (by simp [SmsPoint.notes])
    exact absurd hcode.symm (other e he)
  | @returned pt r answer =>
    refine h.note (fun e he hw => ?_) nofun nofun
    have hholds := h.holds hw he hnotes
    rw [hnotes]
    cases pt with
    | sent code =>
      cases answer
      have hcode : code = e.value.code := hholds.drew_iff.mp (by simp [SmsPoint.notes])
      simp [SmsPoint.notes, Holding, hcode]
    | cleaned code removed | rejected r => simp [SmsPoint.notes, Holding] at hholds
    | _ => cases answer

end Kept

section Pool
variable {p : SmsProperties} {phone : String} {c c' : SmsPool}

/-- Every call is where its thread is, and a call that has done something has a thread. -/
structure SmsPool.Sound (p : SmsProperties) (phone : String) (c : SmsPool) : Prop where
  kept : c.shared.Kept phone
  tags : (c.threads.map fun t => t.tag.number).Nodup
  old : ∀ t ∈ c.threads, t.tag.number < c.shared.nextCall
  points : ∀ t ∈ c.threads, ∃ pt : SmsPoint,
    t.program = (pt.program p t.tag.phone).lift (SmsStep.mk t.tag) ∧
      c.shared.notesOf t.tag = pt.notes
  noted : ∀ call, c.shared.notesOf call ≠ [] → call ∈ c.threads.map fun t => id t.tag

theorem SmsPool.sound_noCalls (now : ℤ) : SmsPool.Sound p phone (noCalls now) := by
  refine ⟨⟨nofun, nofun, ?_, ?_⟩, List.nodup_nil, nofun, nofun, nofun⟩
  · exact fun _ _ _ _ _ hmem => by cases hmem
  · exact fun _ _ _ hmem => by cases hmem

theorem SmsPool.Sound.exec (h : SmsPool.Sound p phone c) {i : ℕ} {tag : SmsCall} {s : SmsStep}
    {f : SmsChoice} {k : Except SmsFailure s.Reply → Program SmsStep SmsStep.Reply SmsFailure Unit}
    {r : Except SmsFailure s.Reply} {w' : SmsWorld}
    (hthread : c.threads[i]? = some ⟨tag, .call s k⟩)
    (hexec : c.shared.exec s f = some (r, w')) (hworks : c.shared.Works phone f s) :
    SmsPool.Sound p phone ⟨w', c.threads.set i ⟨tag, k r⟩⟩ := by
  have hmem := List.mem_of_getElem? hthread
  obtain ⟨pt, hprogram, hnotes⟩ := h.points _ hmem
  obtain ⟨pt', hnext, hsteps⟩ := SmsSteps.of_exec hprogram.symm hexec hworks
  obtain ⟨hown, hothers, hcalls⟩ := hsteps.frame hnotes
  refine ⟨h.kept.step hsteps hnotes, ?_, ?_, ?_, ?_⟩
  · rw [Machine.map_tag_set SmsCall.number hthread]
    exact h.tags
  · intro t ht
    rw [hcalls]
    rcases Machine.mem_set_thread ht with rfl | ⟨j, -, hj⟩
    · have hlt := h.old _ hmem
      exact hlt
    · exact h.old t (List.mem_of_getElem? hj)
  · intro t ht
    rcases Machine.mem_set_thread ht with rfl | ⟨j, hji, hj⟩
    · exact ⟨pt', hnext, hown⟩
    · have hne : t.tag.number ≠ tag.number := Machine.tag_ne_of_nodup h.tags hthread hj hji
      rw [hothers t.tag fun heq => hne (congrArg SmsCall.number heq)]
      exact h.points t (List.mem_of_getElem? hj)
  · intro call hcall
    rw [Machine.map_tag_set id hthread]
    by_cases htag : call = tag
    · exact List.mem_map.mpr ⟨_, hmem, htag.symm⟩
    · rw [hothers call htag] at hcall
      exact h.noted call hcall

theorem SmsPool.Sound.request (h : SmsPool.Sound p phone c) (phone' : String) :
    SmsPool.Sound p phone ⟨{ c.shared with nextCall := c.shared.nextCall + 1 },
      c.threads ++ [⟨⟨c.shared.nextCall, phone'⟩,
        (respond (sendCode p phone')).lift (SmsStep.mk ⟨c.shared.nextCall, phone'⟩)⟩]⟩ where
  kept := ⟨h.kept.keys, h.kept.held, h.kept.distinct, h.kept.removed⟩
  tags := Machine.nodup_append_fresh (g := SmsCall.number) h.tags h.old rfl
  old := Machine.lt_append_fresh (g := SmsCall.number) h.old rfl
  points t ht := by
    rcases List.mem_append.mp ht with ht | ht
    · exact h.points t ht
    · obtain rfl := List.mem_singleton.mp ht
      refine ⟨.first phone', by rw [SmsPoint.first_program], ?_⟩
      rw [SmsPoint.first_notes]
      -- a call that had done something would have an older number
      by_contra hsome
      obtain ⟨t, ht, htag⟩ := List.mem_map.mp (h.noted ⟨c.shared.nextCall, phone'⟩ hsome)
      have hlt := h.old t ht
      rw [show t.tag = _ from htag] at hlt
      exact absurd hlt (lt_irrefl _)
  noted call hcall := by
    rw [List.map_append]
    exact List.mem_append_left _ (h.noted call hcall)

theorem SmsPool.Sound.step {m : Move SmsChoice SmsAction} (h : SmsPool.Sound p phone c)
    (hm : SmsAllowed phone c m) (hfires : (smsCalls p).Fires c m c') :
    SmsPool.Sound p phone c' := by
  cases hfires with
  | run thread exec => exact h.exec thread exec (hm _ thread)
  | crash bound => exact hm.elim
  | @act a s started hact =>
    cases a with
    | request phone' =>
      cases hact
      exact h.request phone'
    | pass milliseconds =>
      cases hact
      rw [List.append_nil]
      exact ⟨h.kept.pass milliseconds, h.tags, h.old, h.points, h.noted⟩

/-- A call that has ended and whose code is stored returned `ok`. -/
theorem SmsPoint.ended_of_holding {pt : SmsPoint} {call : SmsCall} {code : String}
    (hdone : (lift (R := SmsStep.Reply) (SmsStep.mk call) (pt.program p call.phone)).ended = true)
    (hholds : Holding code pt.notes) : pt.notes = [.returned .ok, .handed code, .drew code] := by
  cases pt with
  | ended r notes => simpa [SmsPoint.notes, Holding] using hholds
  | drawn code | saved code | sent code | failed code => cases hdone
  | start | drawing | cleaned code removed | rejected r => simp [SmsPoint.notes, Holding] at hholds

end Pool

/-- No call removes the code that another stored, and while no call for the phone is in progress,
the code that is stored is one that a call drew, handed to the provider and answered with `ok`. -/
theorem loginCode_sent (p : SmsProperties) (phone : String) (now : ℤ) (c : SmsPool)
    (hrun : (smsCalls p).Run (SmsAllowed phone) (noCalls now) c) :
    (∀ call owner, owner.phone = phone → (call, .cleaned (some owner)) ∈ c.shared.notes →
      owner = call) ∧
    ((∀ t ∈ c.threads, t.tag.phone = phone → t.program.ended = true) →
      ∀ stored ∈ c.shared.codes.get c.shared.now (loginCodeKey phone), ∃ call : SmsCall,
        call.phone = phone ∧ (call, .returned .ok) ∈ c.shared.notes ∧
          ∀ code, ((call, .drew code) ∈ c.shared.notes ↔ code = stored.code) ∧
            ((call, .handed code) ∈ c.shared.notes ↔ code = stored.code)) := by
  have h := hrun.invariant (SmsPool.sound_noCalls now) fun _ _ _ hI hm hfires => hI.step hm hfires
  refine ⟨fun call owner howner hnote => ?_, fun hidle stored hstored => ?_⟩
  · exact h.kept.removed call owner howner (SmsWorld.mem_notesOf.mpr hnote)
  · obtain ⟨e, hfound, rfl⟩ := Option.map_eq_some_iff.mp hstored
    have hholds := h.kept.held e hfound
    have hphone := h.kept.writer_phone hfound
    have hsome : c.shared.notesOf e.value.writer ≠ [] :=
      List.ne_nil_of_mem (hholds.drew_iff.mpr rfl)
    obtain ⟨t, ht, htag⟩ := List.mem_map.mp (h.noted _ hsome)
    have htag : t.tag = e.value.writer := htag
    obtain ⟨pt, hprogram, hnotes⟩ := h.points t ht
    have hdone := hidle t ht (htag ▸ hphone)
    rw [htag] at hprogram hnotes
    rw [hprogram] at hdone
    have hlist := SmsPoint.ended_of_holding hdone (hnotes ▸ hholds)
    refine ⟨e.value.writer, hphone, ?_, fun code => ⟨?_, ?_⟩⟩
    all_goals
      rw [← SmsWorld.mem_notesOf, hnotes, hlist]
      simp
/-- Two requests overlap; the provider refuses the first after the second has stored its code. -/
def overlappingSends : List (Move SmsChoice SmsAction) :=
  [.act (.request "13800000000"), .run 0 (.reserved (some 1)), .run 0 (.drawn 7), .run 0 .done,
    .act (.pass 61000), .act (.request "13800000000"), .run 1 (.reserved (some 1)),
    .run 1 (.drawn 42), .run 1 .done, .run 0 .refused, .run 0 .done, .run 0 .done,
    .run 1 .done, .run 1 .done]

theorem loginCode_sent_overlappingSends : ∃ c,
    (smsCalls {}).play (fun c m => decide (SmsAllowed "13800000000" c m)) (noCalls 0)
      overlappingSends = some c ∧
    (c.shared.codes.get c.shared.now (loginCodeKey "13800000000")).map StoredCode.code =
      some "000042" ∧
    ∃ call : SmsCall, (call, .returned .ok) ∈ c.shared.notes ∧
      (call, .handed "000042") ∈ c.shared.notes := by
  have hplay : ((smsCalls {}).play (fun c m => decide (SmsAllowed "13800000000" c m)) (noCalls 0)
      overlappingSends).map (fun c => decide ((∀ t ∈ c.threads, t.program.ended = true) ∧
        (c.shared.codes.get c.shared.now (loginCodeKey "13800000000")).map StoredCode.code =
          some "000042")) = some true := by decide +kernel
  obtain ⟨c, hc, hend⟩ := Option.map_eq_some_iff.mp hplay
  obtain ⟨hdone, hcode⟩ := of_decide_eq_true hend
  obtain ⟨stored, hstored, htext⟩ := Option.map_eq_some_iff.mp hcode
  have hsent := loginCode_sent {} "13800000000" 0 c
    (Machine.run_of_play (fun _ _ => of_decide_eq_true) hc)
  obtain ⟨call, -, hok, hcall⟩ := hsent.2 (fun t ht _ => hdone t ht) stored hstored
  exact ⟨c, hc, hcode, call, hok, (hcall "000042").2.mpr htext.symm⟩

end HmDianPing.Login
