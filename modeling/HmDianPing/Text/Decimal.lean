import HmDianPing.Text.Utf16
import Mathlib.Algebra.Ring.Int.Defs
import Mathlib.Data.Int.Order.Basic

/-! # Decimal numerals, and texts with separators

`Long.toString` and `Long.parseLong` of Java, and the text before and after the
first separator, which is what a split into two parts and a search for an index give.
-/
namespace HmDianPing.Text

section Cut
variable {c : UInt16} {s t : Str}

/-- The text before the first `c` and the text after it. -/
def cut (c : UInt16) : Str → Option (Str × Str)
  | [] => none
  | d :: s => if d = c then some ([], s) else (cut c s).map fun p => (d :: p.1, p.2)

theorem cut_append (h : c ∉ s) : cut c (s ++ c :: t) = some (s, t) := by
  induction s with
  | nil => simp [cut]
  | cons d s ih =>
    simp only [List.mem_cons, not_or] at h
    simp [cut, Ne.symm h.1, ih h.2]

theorem cut_eq_none (h : c ∉ s) : cut c s = none := by
  induction s with
  | nil => rfl
  | cons d s ih =>
    simp only [List.mem_cons, not_or] at h
    simp [cut, Ne.symm h.1, ih h.2]

theorem append_cons_inj {s' t' : Str} (h : c ∉ s) (h' : c ∉ s')
    (heq : s ++ c :: t = s' ++ c :: t') : s = s' ∧ t = t' := by
  have hcut : some (s, t) = some (s', t') := by
    rw [← cut_append (t := t) h, heq, cut_append h']
  simpa using hcut

end Cut

def decimal (n : ℤ) : Str := lit (toString n)

theorem decimal_natCast (n : ℕ) :
    decimal n = (Nat.toDigits 10 n).map fun c => c.toNat.toUInt16 := by
  have htext : (toString (Int.ofNat n)).toList = Nat.toDigits 10 n := Nat.toList_repr
  simp [decimal, lit, ← htext]

theorem toList_negSucc (n : ℕ) :
    (toString (Int.negSucc n)).toList = '-' :: Nat.toDigits 10 (n + 1) := by
  show ("-" ++ (n + 1).repr).toList = _
  simp [Nat.toList_repr]

theorem decimal_negSucc (n : ℕ) : decimal (Int.negSucc n) = 0x2D :: decimal ((n + 1 : ℕ) : ℤ) := by
  rw [decimal_natCast, decimal, lit, toList_negSucc]
  rfl

/-- The first code units of the decimal digits of the first plane, of Unicode 6.2. -/
def decimalZeros : List ℕ :=
  [0x30, 0x660, 0x6F0, 0x7C0, 0x966, 0x9E6, 0xA66, 0xAE6, 0xB66, 0xBE6, 0xC66, 0xCE6, 0xD66,
    0xE50, 0xED0, 0xF20, 0x1040, 0x1090, 0x17E0, 0x1810, 0x1946, 0x19D0, 0x1A80, 0x1A90, 0x1B50,
    0x1BB0, 0x1C40, 0x1C50, 0xA620, 0xA8D0, 0xA900, 0xA9D0, 0xAA50, 0xABF0, 0xFF10]

/-- `Character.digit` in radix ten. -/
def digit (c : UInt16) : Option ℕ :=
  (decimalZeros.find? fun first => inRange first (first + 9) c).map fun first => c.toNat - first

/-- The value of digits, at least one of them. -/
def digits (s : Str) : Option ℕ :=
  if s = [] then none else s.foldlM (fun n c => (digit c).map fun d => 10 * n + d) 0

def parseLong (s : Str) : Option ℤ :=
  let n : Option ℤ := match s with
    | [] => none
    | c :: cs =>
      if c = 0x2D then (digits cs).map fun n : ℕ => -(n : ℤ)
      else if c = 0x2B then (digits cs).map Int.ofNat
      else (digits s).map Int.ofNat
  n.filter fun n => -9223372036854775808 ≤ n ∧ n < 9223372036854775808

/-- `Long.valueOf`, of a text that has come from outside. -/
def longValueOf (s : String) : Option ℤ := parseLong (utf16 s)

theorem exists_of_mem_decimal {n : ℕ} {c : UInt16} (h : c ∈ decimal n) :
    ∃ d : Char, d.isDigit = true ∧ c = d.toNat.toUInt16 := by
  rw [decimal_natCast] at h
  obtain ⟨d, hd, rfl⟩ := List.mem_map.mp h
  exact ⟨d, Nat.isDigit_of_mem_toDigits (by decide) (by decide) hd, rfl⟩

theorem isDigit_toNat {d : Char} (h : d.isDigit = true) : 48 ≤ d.toNat ∧ d.toNat ≤ 57 := by
  simp only [Char.isDigit, Bool.and_eq_true, decide_eq_true_eq] at h
  exact ⟨h.1, h.2⟩

theorem toNat_code {d : Char} (h : d.isDigit = true) : d.toNat.toUInt16.toNat = d.toNat := by
  have := isDigit_toNat h
  simp
  omega

theorem digit_code {d : Char} (h : d.isDigit = true) :
    digit d.toNat.toUInt16 = some (d.toNat - 48) := by
  have hd := isDigit_toNat h
  have hfirst : inRange 0x30 (0x30 + 9) d.toNat.toUInt16 = true := by
    simp [inRange, toNat_code h]
    exact hd
  have hfind : decimalZeros.find? (fun first => inRange first (first + 9) d.toNat.toUInt16) =
      some 0x30 := by
    rw [decimalZeros, List.find?_cons_of_pos]
    exact hfirst
  rw [digit, hfind, Option.map_some, toNat_code h]

theorem code_ne {d : Char} (h : d.isDigit = true) {c : UInt16} (hc : inRange 0x30 0x39 c = false) :
    d.toNat.toUInt16 ≠ c := by
  rintro rfl
  have hd := isDigit_toNat h
  simp [inRange, toNat_code h] at hc
  omega

/-- The digits of a numeral are between `0` and `9`, and a sign is in front of them only. -/
theorem mem_decimal {n : ℤ} {c : UInt16} (h : c ∈ decimal n) : c = 0x2D ∨ inRange 0x30 0x39 c := by
  have hdigit : ∀ m : ℕ, c ∈ decimal m → inRange 0x30 0x39 c := by
    intro m hm
    obtain ⟨d, hd, rfl⟩ := exists_of_mem_decimal hm
    simp [inRange, toNat_code hd]
    exact isDigit_toNat hd
  cases n with
  | ofNat n => exact .inr (hdigit n h)
  | negSucc n =>
    rw [decimal_negSucc, List.mem_cons] at h
    exact h.imp_right (hdigit (n + 1))

theorem not_mem_decimal {c : UInt16} (n : ℤ) (hsign : c ≠ 0x2D)
    (hdigit : inRange 0x30 0x39 c = false) : c ∉ decimal n := by
  intro h
  obtain rfl | h := mem_decimal h
  · exact hsign rfl
  · simp [hdigit] at h

theorem decimal_ne_nil (n : ℤ) : decimal n ≠ [] := by
  cases n with
  | ofNat n =>
    have h : decimal (n : ℤ) ≠ [] := by simp [decimal_natCast, Nat.toDigits_ne_nil]
    exact h
  | negSucc n => simp [decimal_negSucc]

theorem digits_decimal (n : ℕ) : digits (decimal n) = some n := by
  have hfold : ∀ (cs : List Char) (m : ℕ), (∀ c ∈ cs, c.isDigit = true) →
      (cs.map fun c => c.toNat.toUInt16).foldlM
        (fun n c => (digit c).map fun d => 10 * n + d) m =
      some (cs.foldl (fun n c => 10 * n + (c.toNat - 48)) m) := by
    intro cs
    induction cs with
    | nil => intro m _; rfl
    | cons c cs ih =>
      intro m hcs
      simp only [List.mem_cons, forall_eq_or_imp] at hcs
      simp only [List.map_cons, List.foldlM_cons, digit_code hcs.1, Option.map_some,
        Option.bind_eq_bind, Option.bind_some, List.foldl_cons]
      exact ih _ hcs.2
  have hdigit : ∀ c ∈ Nat.toDigits 10 n, c.isDigit = true := fun c hc =>
    Nat.isDigit_of_mem_toDigits (by decide) (by decide) hc
  rw [digits, if_neg (decimal_ne_nil n), decimal_natCast, hfold _ _ hdigit]
  exact congrArg some Nat.ofDigitChars_ten_toDigits

/-- `Long.parseLong` reads what `Long.toString` writes. -/
theorem parseLong_decimal {n : ℤ} (h : -9223372036854775808 ≤ n ∧ n < 9223372036854775808) :
    parseLong (decimal n) = some n := by
  cases n with
  | ofNat n =>
    change parseLong (decimal (n : ℤ)) = some (n : ℤ)
    change _ ≤ (n : ℤ) ∧ (n : ℤ) < _ at h
    have hvalue := digits_decimal n
    cases hs : decimal (n : ℤ) with
    | nil => exact absurd hs (decimal_ne_nil n)
    | cons c cs =>
      obtain ⟨d, hd, rfl⟩ := exists_of_mem_decimal (hs ▸ List.mem_cons_self)
      have hminus : d.toNat.toUInt16 ≠ 0x2D := code_ne hd rfl
      have hplus : d.toNat.toUInt16 ≠ 0x2B := code_ne hd rfl
      rw [hs] at hvalue
      simp [parseLong, hminus, hplus, hvalue, Option.filter, h]
  | negSucc n =>
    have hvalue : (digits (decimal ((n + 1 : ℕ) : ℤ))).map (fun n : ℕ => -(n : ℤ)) =
        some (Int.negSucc n) := by
      rw [digits_decimal]
      rfl
    rw [decimal_negSucc, parseLong]
    simp only [if_pos, hvalue, Option.filter, h, decide_true, and_self]

theorem utf16_toString (n : ℤ) : utf16 (toString n) = decimal n := by
  have hdigit : ∀ m : ℕ, ∀ c ∈ Nat.toDigits 10 m, c.toNat < 0x10000 := by
    intro m c hc
    have hc_digit := isDigit_toNat (Nat.isDigit_of_mem_toDigits (by decide) (by decide) hc)
    omega
  refine utf16_eq_lit fun c hc => ?_
  cases n with
  | ofNat n =>
    rw [show (toString (Int.ofNat n)).toList = Nat.toDigits 10 n from Nat.toList_repr] at hc
    exact hdigit n c hc
  | negSucc n =>
    rw [toList_negSucc, List.mem_cons] at hc
    rcases hc with rfl | hc
    · decide
    · exact hdigit (n + 1) c hc

/-- `Long.valueOf` reads what `toString` writes. -/
theorem longValueOf_toString {n : ℤ} (h : -2 ^ 63 ≤ n ∧ n < 2 ^ 63) :
    longValueOf (toString n) = some n := by
  rw [longValueOf, utf16_toString]
  exact parseLong_decimal (by simpa using h)

theorem decimal_natCast_inj {m n : ℕ} (h : decimal m = decimal n) : m = n := by
  have hvalue := digits_decimal m
  rw [h, digits_decimal] at hvalue
  exact (Option.some.inj hvalue).symm

theorem decimal_injective : Function.Injective decimal := by
  have hsigned : ∀ m n : ℕ, decimal (m : ℤ) ≠ decimal (Int.negSucc n) := by
    intro m n heq
    have hmem : 0x2D ∈ decimal (m : ℤ) := by simp [heq, decimal_negSucc]
    obtain ⟨d, hd, hcode⟩ := exists_of_mem_decimal hmem
    exact code_ne hd rfl hcode.symm
  intro m n h
  cases m with
  | ofNat m =>
    cases n with
    | ofNat n => exact congrArg Int.ofNat (decimal_natCast_inj h)
    | negSucc n => exact absurd h (hsigned m n)
  | negSucc m =>
    cases n with
    | ofNat n => exact absurd h.symm (hsigned n m)
    | negSucc n =>
      rw [decimal_negSucc, decimal_negSucc, List.cons.injEq] at h
      have hsucc := decimal_natCast_inj h.2
      exact congrArg Int.negSucc (Nat.succ.inj hsucc)

end HmDianPing.Text
