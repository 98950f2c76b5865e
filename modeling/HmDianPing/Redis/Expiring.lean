import Mathlib.Logic.Function.Basic
import Mathlib.Algebra.Ring.Int.Defs
import Mathlib.Data.Int.Order.Basic

/-! # Keys that expire

A key has a value and at most one deadline, in milliseconds. Redis takes a key for
gone once the clock is past its deadline, whether it has been deleted yet or not.
-/
namespace HmDianPing.Redis

structure Entry (α : Type) where
  value : α
  expireAt : Option ℤ
deriving DecidableEq, Repr

def Entry.live {α : Type} (now : ℤ) (e : Entry α) : Bool :=
  match e.expireAt with
  | none => true
  | some deadline => now ≤ deadline

theorem Entry.live_of_le {α : Type} {e : Entry α} {now later : ℤ} (hle : now ≤ later)
    (h : e.live later = true) : e.live now = true := by
  cases hd : e.expireAt with
  | none => simp [live, hd]
  | some deadline =>
    simp only [live, hd, decide_eq_true_eq] at h ⊢
    omega

abbrev Keyspace (κ α : Type) := κ → Option (Entry α)

/-- The deadline is one that `EX` takes. -/
def ValidExpiry (now seconds : ℤ) : Prop :=
  0 < seconds ∧ seconds ≤ 9223372036854775 ∧ now + 1000 * seconds ≤ 9223372036854775807

instance (now seconds : ℤ) : Decidable (ValidExpiry now seconds) :=
  inferInstanceAs (Decidable (_ ∧ _ ∧ _))

namespace Keyspace
variable {κ α : Type}

/-- What a command finds under a key. -/
def found (db : Keyspace κ α) (now : ℤ) (k : κ) : Option (Entry α) :=
  (db k).filter fun e => e.live now

def get (db : Keyspace κ α) (now : ℤ) (k : κ) : Option α := (db.found now k).map Entry.value

def existsKey (db : Keyspace κ α) (now : ℤ) (k : κ) : Bool := (db.found now k).isSome

section Found
variable {db : Keyspace κ α} {now : ℤ} {k k' : κ} {e : Entry α} {deadline : ℤ}

theorem found_eq_some : db.found now k = some e ↔ db k = some e ∧ e.live now = true :=
  Option.filter_eq_some_iff

theorem found_of_deadline (h : db k = some e) (hd : e.expireAt = some deadline) :
    db.found now k = if now ≤ deadline then some e else none := by
  simp [found, h, Option.filter, Entry.live, hd]

/-- A key without an entry, or past its deadline. -/
theorem found_eq_none (h : ∀ e, db k = some e → ∃ d, e.expireAt = some d ∧ d < now) :
    db.found now k = none := by
  cases hk : db k with
  | none => simp [found, hk]
  | some e =>
    obtain ⟨d, hd, hlt⟩ := h e hk
    rw [found_of_deadline hk hd, if_neg (not_le.mpr hlt)]

end Found

section Commands
variable [DecidableEq κ]

/-- `SET k v EX seconds`; none for an invalid time. -/
def setEx (db : Keyspace κ α) (now : ℤ) (k : κ) (v : α) (seconds : ℤ) : Option (Keyspace κ α) :=
  if ValidExpiry now seconds then
    some (Function.update db k (some ⟨v, some (now + 1000 * seconds)⟩))
  else none

def expire (db : Keyspace κ α) (now : ℤ) (k : κ) (seconds : ℤ) : Keyspace κ α :=
  match db.found now k with
  | none => db
  | some e => Function.update db k (some { e with expireAt := some (now + 1000 * seconds) })

/-- `INCR`, which keeps a deadline and gives none to a new key. -/
def incr (db : Keyspace κ ℤ) (now : ℤ) (k : κ) : ℤ × Keyspace κ ℤ :=
  match db.found now k with
  | none => (1, Function.update db k (some ⟨1, none⟩))
  | some e => (e.value + 1, Function.update db k (some { e with value := e.value + 1 }))

def del (db : Keyspace κ α) (now : ℤ) (k : κ) : ℤ × Keyspace κ α :=
  match db.found now k with
  | none => (0, db)
  | some _ => (1, Function.update db k none)

section Update
variable {db : Keyspace κ α} {now : ℤ} {k k' : κ}

@[simp] theorem found_update_self (v : Option (Entry α)) :
    found (Function.update db k v) now k = v.filter fun e => e.live now := by
  simp [found]

@[simp] theorem found_update_of_ne (h : k' ≠ k) (v : Option (Entry α)) :
    found (Function.update db k v) now k' = db.found now k' := by
  simp [found, h]

theorem expire_update_self {e : Entry α} (h : e.live now = true) (seconds : ℤ) :
    expire (Function.update db k (some e)) now k seconds =
      Function.update db k (some { e with expireAt := some (now + 1000 * seconds) }) := by
  simp [expire, Option.filter, h]

end Update
end Commands
end Keyspace
end HmDianPing.Redis
