import HmDianPing.Interleaving.History
import HmDianPing.Redis.Lease
import HmDianPing.Text.Decimal
import HmDianPing.Text.Uuid

/-! # The lock over Redis

`tryLock` sets a key to the thread that asks, and `unlock` deletes it in a script that
compares it first. Threads of any number of instances use locks as they like, calls fail
before and after Redis has performed them, and the clock runs past the deadlines.
-/
namespace HmDianPing.Lock
open Interleaving Program Redis Text
open UUID (digits)

abbrev Failure := String

/-- `Thread.currentThread()`; an instance of the program goes by the UUID it has drawn. -/
structure JavaThread where
  jvm : UUID
  id : ℤ
deriving DecidableEq

/-- `UUID.toString(true)`. -/
def simpleString (u : UUID) : Str :=
  digits (u.mostSigBits >>> 32) 8 ++ digits (u.mostSigBits >>> 16) 4 ++ digits u.mostSigBits 4 ++
    digits (u.leastSigBits >>> 48) 4 ++ digits u.leastSigBits 12

def idPrefix (jvm : UUID) : Str := simpleString jvm ++ lit "-"

def threadId (thread : JavaThread) : Str := idPrefix thread.jvm ++ decimal thread.id

def lockKey (name : Str) : Str := lit "lock:" ++ name

inductive LockCommand where
  /-- `opsForValue().setIfAbsent(key, value, timeoutSec, SECONDS)`. -/
  | setIfAbsent (key value : Str) (timeoutSec : ℤ)
  /-- `unlock.lua`. -/
  | unlockScript (key value : Str)

abbrev LockCommand.Reply : LockCommand → Type
  | .setIfAbsent _ _ _ => Option Bool
  | .unlockScript _ _ => ℤ

abbrev LockProgram := Program LockCommand LockCommand.Reply Failure

/-- What a thread can do with a lock. -/
inductive ILock where
  | tryLock (name : Str) (timeoutSec : ℤ)
  | unlock (name : Str)

abbrev ILock.Reply : ILock → Type
  | .tryLock _ _ => Bool
  | .unlock _ => Unit

section SimpleRedisLock
variable (thread : JavaThread) (name : Str)

def tryLock (timeoutSec : ℤ) : LockProgram Bool := do
  let success ← perform (LockCommand.setIfAbsent (lockKey name) (threadId thread) timeoutSec)
  return success == some true

def unlock : LockProgram Unit := do
  let _ ← perform (LockCommand.unlockScript (lockKey name) (threadId thread))
  return ()

def ILock.run : (call : ILock) → LockProgram call.Reply
  | .tryLock name timeoutSec => Lock.tryLock thread name timeoutSec
  | .unlock name => Lock.unlock thread name

end SimpleRedisLock

/-- Redis and its clock, in milliseconds. -/
structure LockWorld where
  db : Keyspace Str Str
  now : ℤ

/-- A call is performed, or fails before or after that. -/
inductive LockChoice where
  | performed
  | fails (e : Failure)
  | lost (e : Failure)

/-- The deadline of `Expiration.from(timeoutSec, SECONDS)`, which is persistent for `-1`; none for a
time that Redis refuses. -/
def deadlineAt (now timeoutSec : ℤ) : Option (Option ℤ) :=
  if timeoutSec = -1 then some none
  else if ValidExpiry now timeoutSec then some (some (now + 1000 * timeoutSec))
  else none

namespace LockWorld

def perform : (c : LockCommand) → LockWorld → Except Failure c.Reply × LockWorld
  | .setIfAbsent key value timeoutSec, w =>
    match deadlineAt w.now timeoutSec with
    | none => (.error "ERR invalid expire time in 'set' command", w)
    | some d =>
      let p := w.db.setNx w.now key value d
      (.ok (some p.1), { w with db := p.2 })
  | .unlockScript key value, w =>
    let p := w.db.delIf w.now key value
    (.ok p.1, { w with db := p.2 })

def answer : LockChoice → (c : LockCommand) → LockWorld → Except Failure c.Reply × LockWorld
  | .performed, c, w => w.perform c
  | .fails e, _, w => (.error e, w)
  | .lost e, c, w => (.error e, (w.perform c).2)

end LockWorld

/-- A lock as one thread sees it. -/
structure LockCall where
  thread : JavaThread
  call : ILock

abbrev LockCall.Reply (c : LockCall) : Type := c.call.Reply

/-- Any use of locks. -/
abbrev LockClient := Program ILock ILock.Reply Failure Unit

inductive LockAction where
  | start (thread : JavaThread) (client : LockClient)
  | tick (milliseconds : ℕ)

def LockWorld.exec (c : LockCall) (f : LockChoice) (w : LockWorld) :
    Except Failure c.Reply × LockWorld :=
  (c.call.run c.thread).run (LockWorld.answer f) w

def lockClients : Machine LockWorld LockCall LockCall.Reply Failure JavaThread
    LockChoice LockAction where
  exec c f w := some (w.exec c f)
  act
    | .start thread client, w => some (w, [⟨thread, client.lift (LockCall.mk thread)⟩])
    | .tick milliseconds, w => some ({ w with now := w.now + milliseconds }, [])

/-- History: a thread was told that it has the lock, until when, or has called `unlock`. -/
inductive LockNote where
  | granted (thread : JavaThread) (key : Str) (deadline : Option ℤ)
  | released (thread : JavaThread) (key : Str)

def LockNote.apply (l : Leases JavaThread Str) : LockNote → Leases JavaThread Str
  | .granted thread key deadline => l.grant thread key deadline
  | .released thread key => l.release thread key

def leases (notes : List LockNote) : Leases JavaThread Str :=
  notes.foldl LockNote.apply fun _ _ => none

def LockCall.note (c : LockCall) (f : LockChoice) (w : LockWorld) : List LockNote :=
  match c with
  | ⟨thread, .tryLock name timeoutSec⟩ =>
    match (w.exec ⟨thread, .tryLock name timeoutSec⟩ f).1, deadlineAt w.now timeoutSec with
    | .ok true, some d => [.granted thread (lockKey name) d]
    | _, _ => []
  | ⟨thread, .unlock name⟩ => [.released thread (lockKey name)]

abbrev LockPool := Config (LockWorld × List LockNote) LockCall LockCall.Reply Failure JavaThread

def recordedClients := lockClients.recording LockCall.note

/-- The thread has been given the lock, has not called `unlock` since and is within its time. -/
def LockPool.Holds (c : LockPool) (thread : JavaThread) (name : Str) : Prop :=
  (leases c.shared.2).Holds c.shared.1.now thread (lockKey name)

section Exclusion

theorem dash_notMem_digits (val : UInt64) (n : ℕ) : 0x2D ∉ digits val n := by
  have hdigit : ∀ d < 16, UUID.hexDigit d ≠ 0x2D := by decide
  intro hmem
  obtain ⟨d, hd, hdash⟩ := UUID.exists_of_mem_digits hmem
  exact hdigit d hd hdash.symm

theorem dash_notMem_simpleString (u : UUID) : 0x2D ∉ simpleString u := by
  simp [simpleString, dash_notMem_digits]

theorem simpleString_injective : Function.Injective simpleString := by
  intro u v h
  obtain ⟨h, h5⟩ := List.append_inj' h (by simp [UUID.length_digits])
  obtain ⟨h, h4⟩ := List.append_inj' h (by simp [UUID.length_digits])
  obtain ⟨h, h3⟩ := List.append_inj' h (by simp [UUID.length_digits])
  obtain ⟨h1, h2⟩ := List.append_inj' h (by simp [UUID.length_digits])
  refine UUID.toStr_inj ?_
  rw [UUID.toStr, UUID.toStr, h1, h2, h3, h4, h5]

theorem threadId_injective : Function.Injective threadId := by
  intro thread thread' h
  have hcut : simpleString thread.jvm ++ 0x2D :: decimal thread.id =
      simpleString thread'.jvm ++ 0x2D :: decimal thread'.id := by
    simpa [threadId, idPrefix, lit] using h
  obtain ⟨hjvm, hid⟩ := append_cons_inj (dash_notMem_simpleString _) (dash_notMem_simpleString _) hcut
  obtain ⟨jvm, id⟩ := thread
  obtain ⟨jvm', id'⟩ := thread'
  obtain rfl : jvm = jvm' := simpleString_injective hjvm
  obtain rfl : id = id' := decimal_injective hid
  rfl

theorem exec_tryLock (w : LockWorld) (thread : JavaThread) (name : Str) (timeoutSec : ℤ)
    (f : LockChoice) :
    ((w.exec ⟨thread, .tryLock name timeoutSec⟩ f).1 ≠ .ok true ∧
      (w.exec ⟨thread, .tryLock name timeoutSec⟩ f).2 = w) ∨
    ∃ d, deadlineAt w.now timeoutSec = some d ∧
      (w.exec ⟨thread, .tryLock name timeoutSec⟩ f).2 =
        { w with db := (w.db.setNx w.now (lockKey name) (threadId thread) d).2 } ∧
      ((w.exec ⟨thread, .tryLock name timeoutSec⟩ f).1 = .ok true →
        (w.db.setNx w.now (lockKey name) (threadId thread) d).1 = true) := by
  cases hd : deadlineAt w.now timeoutSec with
  | none =>
    left
    cases f <;> simp [LockWorld.exec, ILock.run, tryLock, LockWorld.answer, LockWorld.perform, hd]
  | some d =>
    cases f with
    | fails e =>
      left
      simp [LockWorld.exec, ILock.run, tryLock, LockWorld.answer]
    | performed =>
      right
      refine ⟨d, rfl, ?_⟩
      simp [LockWorld.exec, ILock.run, tryLock, LockWorld.answer, LockWorld.perform, hd]
    | lost e =>
      right
      refine ⟨d, rfl, ?_⟩
      simp [LockWorld.exec, ILock.run, tryLock, LockWorld.answer, LockWorld.perform, hd]

theorem note_refused {w : LockWorld} {thread : JavaThread} {name : Str} {timeoutSec : ℤ}
    {f : LockChoice} (h : (w.exec ⟨thread, .tryLock name timeoutSec⟩ f).1 ≠ .ok true) :
    LockCall.note ⟨thread, .tryLock name timeoutSec⟩ f w = [] := by
  simp only [LockCall.note]
  split
  next heq _ => exact absurd heq h
  next => rfl

theorem note_granted {w : LockWorld} {thread : JavaThread} {name : Str} {timeoutSec : ℤ}
    {f : LockChoice} {d : Option ℤ}
    (h : (w.exec ⟨thread, .tryLock name timeoutSec⟩ f).1 = .ok true)
    (hd : deadlineAt w.now timeoutSec = some d) :
    LockCall.note ⟨thread, .tryLock name timeoutSec⟩ f w =
      [.granted thread (lockKey name) d] := by
  simp only [LockCall.note, h, hd]

theorem exec_unlock (w : LockWorld) (thread : JavaThread) (name : Str) (f : LockChoice) :
    (w.exec ⟨thread, .unlock name⟩ f).2 = w ∨
      (w.exec ⟨thread, .unlock name⟩ f).2 = { w with
        db := (w.db.delIf w.now (lockKey name) (threadId thread)).2 } := by
  cases f <;> simp [LockWorld.exec, ILock.run, unlock, LockWorld.answer, LockWorld.perform]

theorem leased_exec {w : LockWorld} {l : Leases JavaThread Str}
    (h : Leased threadId w.db w.now l) (c : LockCall) (f : LockChoice) :
    Leased threadId (w.exec c f).2.db (w.exec c f).2.now ((c.note f w).foldl LockNote.apply l) := by
  obtain ⟨thread, call⟩ := c
  cases call with
  | tryLock name timeoutSec =>
    rcases exec_tryLock w thread name timeoutSec f with ⟨hrefused, hw⟩ | ⟨d, hd, hw, htaken⟩
    · rw [hw, note_refused hrefused]
      exact h
    · rw [hw]
      by_cases hok : (w.exec ⟨thread, .tryLock name timeoutSec⟩ f).1 = .ok true
      · rw [note_granted hok hd]
        exact h.grant (htaken hok)
      · rw [note_refused hok]
        exact h.setNx (lockKey name) (threadId thread) d
  | unlock name =>
    rcases exec_unlock w thread name f with hw | hw <;> rw [hw]
    · exact h.release
    · exact h.delIf threadId_injective

/-- Through every run, whoever holds a lock stands under its key. -/
theorem leased_of_run {w₀ : LockWorld} {c : LockPool}
    (hrun : recordedClients.Run (fun _ _ => True) ⟨(w₀, []), []⟩ c) :
    Leased threadId c.shared.1.db c.shared.1.now (leases c.shared.2) := by
  refine hrun.invariant (I := fun c => Leased threadId c.shared.1.db c.shared.1.now
    (leases c.shared.2)) (fun i k d hd => by cases hd) fun c m c' h _ hfires => ?_
  cases hfires with
  | @run i f tag cmd k r s thread exec =>
    obtain ⟨hexec, hnotes⟩ := Machine.exec_recording exec
    have hworld : s.1 = (c.shared.1.exec cmd f).2 :=
      (congrArg Prod.snd (Option.some.inj hexec)).symm
    rw [hnotes, leases, List.foldl_append, hworld]
    exact leased_exec h cmd f
  | crash bound => exact h
  | @act action s started act =>
    cases action with
    | start thread client =>
      cases act
      exact h
    | tick milliseconds =>
      cases act
      exact h.tick (Int.le_add_of_nonneg_right (Int.natCast_nonneg milliseconds))

end Exclusion

/-- A lock has one holder at a time. While it has one, `tryLock` is true for nobody; when that one
unlocks it, whoever tries first gets it. -/
theorem simpleRedisLock_excludes (w₀ : LockWorld) (c : LockPool)
    (hrun : recordedClients.Run (fun _ _ => True) ⟨(w₀, []), []⟩ c) (thread : JavaThread)
    (name : Str) (hholds : c.Holds thread name) :
    (∀ thread', c.Holds thread' name → thread' = thread) ∧
      (∀ thread' timeoutSec f,
        (c.shared.1.exec ⟨thread', .tryLock name timeoutSec⟩ f).1 ≠ .ok true) ∧
      ∀ thread' timeoutSec, (deadlineAt c.shared.1.now timeoutSec).isSome →
        ((c.shared.1.exec ⟨thread, .unlock name⟩ .performed).2.exec
          ⟨thread', .tryLock name timeoutSec⟩ .performed).1 = .ok true := by
  have hleased := leased_of_run hrun
  refine ⟨fun thread' hholds' => hleased.exclusive threadId_injective hholds' hholds, ?_, ?_⟩
  · intro thread' timeoutSec f hok
    rcases exec_tryLock c.shared.1 thread' name timeoutSec f with ⟨hrefused, -⟩ | ⟨d, -, -, htaken⟩
    · exact hrefused hok
    · have hfree := htaken hok
      rw [hleased.setNx_held hholds] at hfree
      cases hfree
  · intro thread' timeoutSec hvalid
    obtain ⟨d, hd⟩ := Option.isSome_iff_exists.mp hvalid
    have hfree := hleased.found_delIf hholds
    have hunlocked : (c.shared.1.exec ⟨thread, .unlock name⟩ .performed).2 = { c.shared.1 with
        db := (c.shared.1.db.delIf c.shared.1.now (lockKey name) (threadId thread)).2 } := rfl
    rw [hunlocked]
    simp [LockWorld.exec, ILock.run, tryLock, LockWorld.answer, LockWorld.perform, hd,
      Keyspace.setNx, hfree]

def sampleUUID : UUID := ⟨0x123456789abcdef0, 0x0fedcba987654321⟩

/-- Takes the lock for a second and gives it back, whatever the time. -/
def takeAndRelease : LockClient := do
  let success ← perform (ILock.tryLock (lit "order") 1)
  if success = true then
    perform (ILock.unlock (lit "order"))

/-- Thread 1 takes the lock and comes back too late; thread 2 has taken it in between. -/
def lateUnlock : List (Move LockChoice LockAction) :=
  [.act (.start ⟨sampleUUID, 1⟩ takeAndRelease), .act (.start ⟨sampleUUID, 2⟩ takeAndRelease),
    .run 0 .performed, .act (.tick 1500), .run 1 .performed, .run 0 .performed]

theorem simpleRedisLock_excludes_lateUnlock : ∃ c : LockPool,
    recordedClients.play (fun _ _ => true) ⟨(⟨fun _ => none, 0⟩, []), []⟩ lateUnlock = some c ∧
    c.Holds ⟨sampleUUID, 2⟩ (lit "order") ∧
    ∀ thread', c.Holds thread' (lit "order") → thread' = ⟨sampleUUID, 2⟩ := by
  have hplay : (recordedClients.play (fun _ _ => true) ⟨(⟨fun _ => none, 0⟩, []), []⟩ lateUnlock).map
      (fun c => decide (leases c.shared.2 ⟨sampleUUID, 2⟩ (lockKey (lit "order")) = some (some 2500) ∧
        c.shared.1.now = 1500)) = some true := by decide
  obtain ⟨c, hc, hend⟩ := Option.map_eq_some_iff.mp hplay
  obtain ⟨hlease, hnow⟩ := of_decide_eq_true hend
  have hholds : LockPool.Holds c ⟨sampleUUID, 2⟩ (lit "order") := ⟨_, hlease, by simp [hnow]⟩
  have hrun : recordedClients.Run (fun _ _ => True) ⟨(⟨fun _ => none, 0⟩, []), []⟩ c :=
    Machine.run_of_play (fun _ _ _ => trivial) hc
  exact ⟨c, hc, hholds, (simpleRedisLock_excludes _ c hrun _ _ hholds).1⟩

end HmDianPing.Lock
