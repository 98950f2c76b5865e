import HmDianPing.Text.Utf16
import Mathlib.Algebra.GroupWithZero.Nat

/-! # UUIDs

The text of a UUID has the digits of its two words in five groups. It can be read back,
and no character in it but the dash is no digit.
-/
namespace HmDianPing.Text

structure UUID where
  mostSigBits : UInt64
  leastSigBits : UInt64
deriving DecidableEq

namespace UUID

def hexDigit (n : ℕ) : UInt16 := if n < 10 then 0x30 + n.toUInt16 else 0x57 + n.toUInt16

def digits (val : UInt64) (n : ℕ) : Str :=
  (List.range n).reverse.map fun i => hexDigit (val.toNat / 16 ^ i % 16)

def toStr (u : UUID) : Str :=
  digits (u.mostSigBits >>> 32) 8 ++ lit "-" ++ digits (u.mostSigBits >>> 16) 4 ++ lit "-" ++
    digits u.mostSigBits 4 ++ lit "-" ++ digits (u.leastSigBits >>> 48) 4 ++ lit "-" ++
    digits u.leastSigBits 12

theorem hexDigit_inj : ∀ m < 16, ∀ n < 16, hexDigit m = hexDigit n → m = n := by decide

section Digits
variable {val val' : UInt64} {n : ℕ}

theorem exists_of_mem_digits {c : UInt16} (h : c ∈ digits val n) : ∃ d < 16, c = hexDigit d := by
  obtain ⟨i, -, rfl⟩ := List.mem_map.mp h
  exact ⟨_, Nat.mod_lt _ (by decide), rfl⟩

theorem digits_succ (val : UInt64) (n : ℕ) :
    digits val (n + 1) = hexDigit (val.toNat / 16 ^ n % 16) :: digits val n := by
  simp [digits, List.range_succ]

theorem length_digits (val : UInt64) (n : ℕ) : (digits val n).length = n := by simp [digits]

/-- The last digits of a number are what it leaves when divided by a power of the base. -/
theorem digits_inj (h : digits val n = digits val' n) :
    val.toNat % 16 ^ n = val'.toNat % 16 ^ n := by
  induction n with
  | zero => simp [Nat.mod_one]
  | succ n ih =>
    rw [digits_succ, digits_succ, List.cons.injEq] at h
    have hd := hexDigit_inj _ (Nat.mod_lt _ (by decide)) _ (Nat.mod_lt _ (by decide)) h.1
    rw [Nat.mod_pow_succ, Nat.mod_pow_succ, ih h.2, hd]

end Digits

theorem exists_of_mem_toStr {u : UUID} {c : UInt16} (h : c ∈ u.toStr) :
    c = 0x2D ∨ ∃ d < 16, c = hexDigit d := by
  have hdash : c ∈ lit "-" → c = 0x2D := fun h => List.mem_singleton.mp h
  simp only [toStr, List.mem_append] at h
  rcases h with (((((((h | h) | h) | h) | h) | h) | h) | h) | h
  all_goals first | exact .inr (exists_of_mem_digits h) | exact .inl (hdash h)

theorem toStr_inj {u v : UUID} (h : u.toStr = v.toStr) : u = v := by
  obtain ⟨h, h5⟩ := List.append_inj' h (by simp [length_digits])
  obtain ⟨h, -⟩ := List.append_inj' h rfl
  obtain ⟨h, h4⟩ := List.append_inj' h (by simp [length_digits])
  obtain ⟨h, -⟩ := List.append_inj' h rfl
  obtain ⟨h, h3⟩ := List.append_inj' h (by simp [length_digits])
  obtain ⟨h, -⟩ := List.append_inj' h rfl
  obtain ⟨h, h2⟩ := List.append_inj' h (by simp [length_digits])
  obtain ⟨h1, -⟩ := List.append_inj' h rfl
  have e1 := digits_inj h1
  have e2 := digits_inj h2
  have e3 := digits_inj h3
  have e4 := digits_inj h4
  have e5 := digits_inj h5
  obtain ⟨m, l⟩ := u
  obtain ⟨m', l'⟩ := v
  simp only [UInt64.toNat_shiftRight, Nat.shiftRight_eq_div_pow] at e1 e2 e3 e4 e5
  have hm : m.toNat = m'.toNat := by
    have := m.toNat_lt
    have := m'.toNat_lt
    simp at e1 e2 e3
    omega
  have hl : l.toNat = l'.toNat := by
    have := l.toNat_lt
    have := l'.toNat_lt
    simp at e4 e5
    omega
  rw [UInt64.toNat_inj.mp hm, UInt64.toNat_inj.mp hl]

end UUID
end HmDianPing.Text
