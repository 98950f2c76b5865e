import Mathlib.Order.Bounds.Basic
import Mathlib.Order.Interval.Set.Basic
import Mathlib.Order.Interval.Set.Defs
import Mathlib.Data.Set.Insert
import HmDianPing.Redis.Bitmap

/-! # Sign-in and its streak

The sign-in days of a user and a month are the bits of one string. A day is written
from the front of the string; the streak is read off the low end of a number.
-/
namespace HmDianPing.Login
open Redis

/-- `UserServiceImpl.sign`, on the string under the key of the user and the month. -/
def sign (dayOfMonth : ℕ) (stored : Bitmap) : Bitmap := stored.setBit (dayOfMonth - 1) true

/-- The loop of `signCount`, on a `long`; the shift is the unsigned one. -/
def countSigned (num : BitVec 64) (count : ℕ) : ℕ :=
  if num &&& 1 = 0 then count else countSigned (num >>> 1) (count + 1)
termination_by num.toNat
decreasing_by
  rename_i hbit
  have hpos : num.toNat ≠ 0 := by
    intro hzero
    obtain rfl : num = 0 := BitVec.eq_of_toNat_eq hzero
    exact hbit rfl
  rw [BitVec.toNat_ushiftRight, Nat.shiftRight_eq_div_pow, pow_one]
  exact Nat.div_lt_self (Nat.pos_of_ne_zero hpos) (by decide)

/-- `UserServiceImpl.signCount`, on the reply to `BITFIELD`. -/
def signCount (result : Option (List (Option (BitVec 64)))) : ℕ :=
  match result with
  | none | some [] => 0
  | some (num :: _) =>
    match num with
    | none => 0
    | some num => if num = 0 then 0 else countSigned num 0

def signBits (stored : Bitmap) (dayOfMonth : ℕ) : Option (List (Option (BitVec 64))) :=
  some [some (BitVec.ofNat 64 (stored.getUnsigned 0 dayOfMonth))]

/-- How many days up to this one were signed without a gap. -/
def streak (signed : ℕ → Bool) : ℕ → ℕ
  | 0 => 0
  | day + 1 => if signed (day + 1) then streak signed day + 1 else 0

theorem streak_isGreatest (signed : ℕ → Bool) (day : ℕ) :
    IsGreatest {k | k ≤ day ∧ ∀ d, day - k < d → d ≤ day → signed d = true} (streak signed day) := by
  induction day with
  | zero => exact ⟨⟨le_refl 0, fun d h h' => absurd h (by omega)⟩, fun k hk => hk.1⟩
  | succ day ih =>
    obtain ⟨⟨hle, hrun⟩, hmax⟩ := ih
    by_cases hday : signed (day + 1)
    · rw [streak, if_pos hday]
      refine ⟨⟨by omega, fun d hd hd' => ?_⟩, fun k hk => ?_⟩
      · by_cases hlast : d = day + 1
        · rwa [hlast]
        · exact hrun d (by omega) (by omega)
      · cases k with
        | zero => exact Nat.zero_le _
        | succ k =>
          have hshort : k ≤ streak signed day :=
            hmax ⟨by have := hk.1; omega, fun d hd hd' => hk.2 d (by omega) (by omega)⟩
          omega
    · rw [streak, if_neg hday]
      refine ⟨⟨Nat.zero_le _, fun d hd hd' => absurd hd (by omega)⟩, fun k hk => ?_⟩
      by_contra hpos
      exact hday (hk.2 (day + 1) (by omega) (le_refl _))

theorem and_one_ofNat (n : ℕ) (b : Bool) (h : 2 * n + b.toNat < 18446744073709551616) :
    BitVec.ofNat 64 (2 * n + b.toNat) &&& 1 = 0 ↔ b = false := by
  rw [← BitVec.toNat_inj, BitVec.toNat_and, BitVec.toNat_ofNat, Nat.mod_eq_of_lt h]
  change (2 * n + b.toNat) &&& 1 = 0 ↔ _
  rw [Nat.and_one_is_mod]
  cases b <;> simp

theorem shiftRight_ofNat (n : ℕ) (b : Bool) (h : 2 * n + b.toNat < 18446744073709551616) :
    BitVec.ofNat 64 (2 * n + b.toNat) >>> 1 = BitVec.ofNat 64 n := by
  have hbit := Bool.toNat_le b
  have hn : n < 18446744073709551616 := by omega
  rw [← BitVec.toNat_inj, BitVec.toNat_ushiftRight, BitVec.toNat_ofNat, BitVec.toNat_ofNat,
    Nat.mod_eq_of_lt h, Nat.mod_eq_of_lt hn, Nat.shiftRight_eq_div_pow]
  omega

section Count
variable (stored : Bitmap)

def signedOn (stored : Bitmap) (day : ℕ) : Bool := stored.getBit (day - 1)

theorem countSigned_eq {width : ℕ} (hwidth : width ≤ 63) (count : ℕ) :
    countSigned (BitVec.ofNat 64 (stored.getUnsigned 0 width)) count =
      count + streak (signedOn stored) width := by
  induction width generalizing count with
  | zero =>
    rw [Bitmap.getUnsigned, countSigned]
    rfl
  | succ width ih =>
    have hlow := stored.getUnsigned_lt 0 width
    have hpow := Nat.pow_le_pow_right (n := 2) (by decide) (show width ≤ 62 by omega)
    have hbit := Bool.toNat_le (stored.getBit width)
    have hbound : 2 * stored.getUnsigned 0 width + (stored.getBit width).toNat <
        18446744073709551616 := by
      change 2 ^ width ≤ 4611686018427387904 at hpow
      omega
    have hsigned : signedOn stored (width + 1) = stored.getBit width := rfl
    rw [countSigned, Bitmap.getUnsigned, Nat.zero_add, streak, hsigned,
      shiftRight_ofNat _ _ hbound, ih (by omega)]
    simp only [and_one_ofNat _ _ hbound]
    cases stored.getBit width with
    | false => simp
    | true => simp [Nat.add_assoc, Nat.add_comm]

theorem signCount_eq {dayOfMonth : ℕ} (h : dayOfMonth ≤ 63) :
    signCount (signBits stored dayOfMonth) = streak (signedOn stored) dayOfMonth := by
  have hcount := countSigned_eq stored h 0
  rw [Nat.zero_add] at hcount
  rw [signBits, signCount, hcount]
  split
  next hzero =>
    rw [hzero, countSigned] at hcount
    exact hcount
  next => rfl

theorem signedOn_signs (days : List ℕ) (hdays : ∀ day ∈ days, 1 ≤ day) {day : ℕ} (hday : 1 ≤ day) :
    signedOn (days.foldl (fun s d => sign d s) stored) day = true ↔
      signedOn stored day = true ∨ day ∈ days := by
  induction days generalizing stored with
  | nil => simp
  | cons d days ih =>
    rw [List.forall_mem_cons] at hdays
    have hsame : day - 1 = d - 1 ↔ day = d := by omega
    rw [List.foldl_cons, ih _ hdays.2, signedOn, sign, Bitmap.getBit_setBit, List.mem_cons]
    by_cases hd : day = d
    · simp [hd]
    · simp [hsame, hd, signedOn]

end Count

/-- The count of a day from 1 to 63 is the longest run of signed days that ends with it, whatever
the order they were signed in and however short the string is. -/
theorem signCount_isGreatest (days : List ℕ) (hdays : ∀ day ∈ days, 1 ≤ day) (dayOfMonth : ℕ)
    (h : 1 ≤ dayOfMonth ∧ dayOfMonth ≤ 63) :
    IsGreatest {k | k ≤ dayOfMonth ∧ ∀ day, dayOfMonth - k < day → day ≤ dayOfMonth → day ∈ days}
      (signCount (signBits (days.foldl (fun s day => sign day s) []) dayOfMonth)) := by
  have hsigned : ∀ day, 1 ≤ day →
      (signedOn (days.foldl (fun s d => sign d s) []) day = true ↔ day ∈ days) := by
    intro day hday
    rw [signedOn_signs [] days hdays hday]
    simp [signedOn, Bitmap.getBit_nil]
  have hset : {k | k ≤ dayOfMonth ∧
      ∀ day, dayOfMonth - k < day → day ≤ dayOfMonth → day ∈ days} =
        {k | k ≤ dayOfMonth ∧ ∀ day, dayOfMonth - k < day → day ≤ dayOfMonth →
          signedOn (days.foldl (fun s d => sign d s) []) day = true} := by
    ext k
    refine and_congr_right fun _ => forall_congr' fun day => forall_congr' fun hday => ?_
    rw [hsigned day (by omega)]
  rw [signCount_eq _ h.2, hset]
  exact streak_isGreatest _ dayOfMonth

theorem signCount_isGreatest_gap :
    IsGreatest {k | k ≤ 5 ∧ ∀ day, 5 - k < day → day ≤ 5 → day ∈ [1, 9, 4, 3, 5]}
      (signCount (signBits ([1, 9, 4, 3, 5].foldl (fun s day => sign day s) []) 5)) :=
  signCount_isGreatest [1, 9, 4, 3, 5] (by decide) 5 ⟨by decide, by decide⟩

end HmDianPing.Login
