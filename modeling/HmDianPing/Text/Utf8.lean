import HmDianPing.Text.Utf16

/-! # Code points and UTF-8

The code points of a string, their bytes, and the decoder that browsers use: it is
given any bytes, and puts U+FFFD where they are not UTF-8. Code points and bytes are
natural numbers.
-/
namespace HmDianPing.Text

def IsSurrogate (n : ℕ) : Prop := 0xD800 ≤ n ∧ n ≤ 0xDFFF

/-- A code point that is no surrogate. -/
def IsScalar (n : ℕ) : Prop := n < 0x110000 ∧ ¬ IsSurrogate n

instance : DecidablePred IsSurrogate := fun _ => inferInstanceAs (Decidable (_ ∧ _))

instance : DecidablePred IsScalar := fun _ => inferInstanceAs (Decidable (_ ∧ _))

/-- The two units are the halves of one code point. -/
def IsPair (c d : UInt16) : Prop :=
  (0xD800 ≤ c.toNat ∧ c.toNat ≤ 0xDBFF) ∧ 0xDC00 ≤ d.toNat ∧ d.toNat ≤ 0xDFFF

instance (c d : UInt16) : Decidable (IsPair c d) := inferInstanceAs (Decidable (_ ∧ _))

def pairScalar (c d : UInt16) : ℕ := 0x10000 + (c.toNat - 0xD800) * 0x400 + (d.toNat - 0xDC00)

/-- A unit by itself; an unpaired surrogate is read as U+FFFD. -/
def loneScalar (c : UInt16) : ℕ := if IsSurrogate c.toNat then 0xFFFD else c.toNat

def scalars : Str → List ℕ
  | [] => []
  | [c] => [loneScalar c]
  | c :: d :: s =>
    if IsPair c d then pairScalar c d :: scalars s else loneScalar c :: scalars (d :: s)

/-- No surrogate is unpaired. -/
def isWellFormed : Str → Bool
  | [] => true
  | [c] => ¬ IsSurrogate c.toNat
  | c :: d :: s =>
    if IsPair c d then isWellFormed s else ¬ IsSurrogate c.toNat && isWellFormed (d :: s)

section Scalars
variable {s : Str} {c d : UInt16}

theorem unitsOf_toNat (c : UInt16) : unitsOf c.toNat = [c] := by
  have hc : c.toNat < 0x10000 := c.toNat_lt
  simp [unitsOf, hc]

theorem unitsOf_pairScalar (h : IsPair c d) : unitsOf (pairScalar c d) = [c, d] := by
  obtain ⟨⟨hc, hc'⟩, hd, hd'⟩ := h
  have hhigh : 0xD800 + (pairScalar c d - 0x10000) / 0x400 = c.toNat := by
    unfold pairScalar
    omega
  have hlow : 0xDC00 + (pairScalar c d - 0x10000) % 0x400 = d.toNat := by
    unfold pairScalar
    omega
  have hbig : ¬ pairScalar c d < 0x10000 := by
    unfold pairScalar
    omega
  simp [unitsOf, hbig, hhigh, hlow]

theorem units_scalars (h : isWellFormed s = true) : units (scalars s) = s := by
  fun_induction scalars s with
  | case1 => rfl
  | case2 c =>
    have hc : ¬ IsSurrogate c.toNat := by simpa [isWellFormed] using h
    simp [units, loneScalar, hc, unitsOf_toNat]
  | case3 c d s hpair ih =>
    have hs : isWellFormed s = true := by simpa [isWellFormed, hpair] using h
    simpa [units, unitsOf_pairScalar hpair] using ih hs
  | case4 c d s hpair ih =>
    have hs : ¬ IsSurrogate c.toNat ∧ isWellFormed (d :: s) = true := by
      simpa [isWellFormed, hpair] using h
    simpa [units, loneScalar, hs.1, unitsOf_toNat] using ih hs.2

theorem isScalar_loneScalar (c : UInt16) : IsScalar (loneScalar c) := by
  have hc : c.toNat < 0x10000 := c.toNat_lt
  unfold loneScalar
  split_ifs with h
  · exact ⟨by simp, by simp [IsSurrogate]⟩
  · exact ⟨by omega, h⟩

theorem isScalar_of_mem {n : ℕ} (h : n ∈ scalars s) : IsScalar n := by
  fun_induction scalars s with
  | case1 => cases h
  | case2 c =>
    obtain rfl := List.mem_singleton.mp h
    exact isScalar_loneScalar c
  | case3 c d s hpair ih =>
    rcases List.mem_cons.mp h with hn | h
    · obtain ⟨⟨hc, hc'⟩, hd, hd'⟩ := hpair
      unfold pairScalar at hn
      unfold IsScalar IsSurrogate
      omega
    · exact ih h
  | case4 c d s hpair ih =>
    rcases List.mem_cons.mp h with rfl | h
    · exact isScalar_loneScalar c
    · exact ih h

theorem scalars_ascii (h : ∀ c ∈ s, c.toNat < 0x80) : scalars s = s.map UInt16.toNat := by
  fun_induction scalars s with
  | case1 => rfl
  | case2 c =>
    have hc := h c List.mem_cons_self
    have hlone : ¬ IsSurrogate c.toNat := by unfold IsSurrogate; omega
    simp [loneScalar, hlone]
  | case3 c d s hpair ih =>
    have hc := h c List.mem_cons_self
    obtain ⟨⟨hc', -⟩, -⟩ := hpair
    omega
  | case4 c d s hpair ih =>
    have hc := h c List.mem_cons_self
    have hlone : ¬ IsSurrogate c.toNat := by unfold IsSurrogate; omega
    simp [loneScalar, hlone, ih fun c hc => h c (List.mem_cons_of_mem _ hc)]

end Scalars

/-- The bytes of a code point. -/
def utf8 (n : ℕ) : List ℕ :=
  if n < 0x80 then [n]
  else if n < 0x800 then [0xC0 + n / 0x40, 0x80 + n % 0x40]
  else if n < 0x10000 then [0xE0 + n / 0x1000, 0x80 + n / 0x40 % 0x40, 0x80 + n % 0x40]
  else [0xF0 + n / 0x40000, 0x80 + n / 0x1000 % 0x40, 0x80 + n / 0x40 % 0x40, 0x80 + n % 0x40]

/-- The decoder between two bytes: how many more it needs, what they have given so far, and the
range of the next one. -/
structure Utf8State where
  needed : ℕ
  codePoint : ℕ
  lower : ℕ
  upper : ℕ

namespace Utf8State

def start : Utf8State := ⟨0, 0, 0x80, 0xBF⟩

/-- The first byte of a code point, and what it gives out. -/
def lead (b : ℕ) : List ℕ × Utf8State :=
  if b < 0x80 then ([b], start)
  else if 0xC2 ≤ b ∧ b ≤ 0xDF then ([], ⟨1, b - 0xC0, 0x80, 0xBF⟩)
  else if 0xE0 ≤ b ∧ b ≤ 0xEF then
    ([], ⟨2, b - 0xE0, if b = 0xE0 then 0xA0 else 0x80, if b = 0xED then 0x9F else 0xBF⟩)
  else if 0xF0 ≤ b ∧ b ≤ 0xF4 then
    ([], ⟨3, b - 0xF0, if b = 0xF0 then 0x90 else 0x80, if b = 0xF4 then 0x8F else 0xBF⟩)
  else ([0xFFFD], start)

/-- A byte out of range ends the code point, and is read again as a first byte. -/
def step (s : Utf8State) (b : ℕ) : List ℕ × Utf8State :=
  if s.needed = 0 then lead b
  else if s.lower ≤ b ∧ b ≤ s.upper then
    let codePoint := s.codePoint * 0x40 + b % 0x40
    if s.needed = 1 then ([codePoint], start) else ([], ⟨s.needed - 1, codePoint, 0x80, 0xBF⟩)
  else (0xFFFD :: (lead b).1, (lead b).2)

def decode : Utf8State → List ℕ → List ℕ
  | s, [] => if s.needed = 0 then [] else [0xFFFD]
  | s, b :: bs => (s.step b).1 ++ (s.step b).2.decode bs

end Utf8State

def decodeUtf8 (bs : List ℕ) : List ℕ := Utf8State.start.decode bs

section Decode
open Utf8State
variable {n : ℕ}

theorem lead_two (h : 0x80 ≤ n) (h' : n < 0x800) :
    lead (0xC0 + n / 0x40) = ([], ⟨1, n / 0x40, 0x80, 0xBF⟩) := by
  have hlarge : ¬ 0xC0 + n / 0x40 < 0x80 := by omega
  have hrange : 0xC2 ≤ 0xC0 + n / 0x40 ∧ 0xC0 + n / 0x40 ≤ 0xDF := by omega
  rw [lead, if_neg hlarge, if_pos hrange]
  simp

theorem lead_three (h : 0x800 ≤ n) (h' : n < 0x10000) :
    lead (0xE0 + n / 0x1000) = ([], ⟨2, n / 0x1000, if n / 0x1000 = 0 then 0xA0 else 0x80,
      if n / 0x1000 = 0xD then 0x9F else 0xBF⟩) := by
  have hlarge : ¬ 0xE0 + n / 0x1000 < 0x80 := by omega
  have htwo : ¬ (0xC2 ≤ 0xE0 + n / 0x1000 ∧ 0xE0 + n / 0x1000 ≤ 0xDF) := by omega
  have hrange : 0xE0 ≤ 0xE0 + n / 0x1000 ∧ 0xE0 + n / 0x1000 ≤ 0xEF := by omega
  have hlower : 0xE0 + n / 0x1000 = 0xE0 ↔ n / 0x1000 = 0 := by omega
  have hupper : 0xE0 + n / 0x1000 = 0xED ↔ n / 0x1000 = 0xD := by omega
  rw [lead, if_neg hlarge, if_neg htwo, if_pos hrange]
  simp only [hlower, hupper, Nat.add_sub_cancel_left]

theorem lead_four (h : 0x10000 ≤ n) (h' : n < 0x110000) :
    lead (0xF0 + n / 0x40000) = ([], ⟨3, n / 0x40000, if n / 0x40000 = 0 then 0x90 else 0x80,
      if n / 0x40000 = 4 then 0x8F else 0xBF⟩) := by
  have hlarge : ¬ 0xF0 + n / 0x40000 < 0x80 := by omega
  have htwo : ¬ (0xC2 ≤ 0xF0 + n / 0x40000 ∧ 0xF0 + n / 0x40000 ≤ 0xDF) := by omega
  have hthree : ¬ (0xE0 ≤ 0xF0 + n / 0x40000 ∧ 0xF0 + n / 0x40000 ≤ 0xEF) := by omega
  have hrange : 0xF0 ≤ 0xF0 + n / 0x40000 ∧ 0xF0 + n / 0x40000 ≤ 0xF4 := by omega
  have hlower : 0xF0 + n / 0x40000 = 0xF0 ↔ n / 0x40000 = 0 := by omega
  have hupper : 0xF0 + n / 0x40000 = 0xF4 ↔ n / 0x40000 = 4 := by omega
  rw [lead, if_neg hlarge, if_neg htwo, if_neg hthree, if_pos hrange]
  simp only [hlower, hupper, Nat.add_sub_cancel_left]

theorem step_more {needed codePoint lower upper b m : ℕ} (hneeded : 2 ≤ needed)
    (hb : lower ≤ b ∧ b ≤ upper) (hm : codePoint * 0x40 + b % 0x40 = m) :
    step ⟨needed, codePoint, lower, upper⟩ b = ([], ⟨needed - 1, m, 0x80, 0xBF⟩) := by
  have hzero : needed ≠ 0 := by omega
  have hone : needed ≠ 1 := by omega
  simp [step, hzero, hone, hb, hm]

theorem step_last {codePoint lower upper b m : ℕ} (hb : lower ≤ b ∧ b ≤ upper)
    (hm : codePoint * 0x40 + b % 0x40 = m) :
    step ⟨1, codePoint, lower, upper⟩ b = ([m], start) := by
  simp [step, hb, hm]

/-- The decoder gives out a code point after its bytes, and is where it was. -/
theorem decode_utf8 (hn : IsScalar n) (bs : List ℕ) :
    start.decode (utf8 n ++ bs) = n :: start.decode bs := by
  obtain ⟨hmax, hsurrogate⟩ := hn
  unfold IsSurrogate at hsurrogate
  have hstart : ∀ b, start.step b = lead b := fun b => by simp [step, start]
  unfold utf8
  split_ifs with h₁ h₂ h₃
  · simp [decode, hstart, lead, h₁]
  · have hlead := lead_two (by omega) h₂
    have hlast : step ⟨1, n / 0x40, 0x80, 0xBF⟩ (0x80 + n % 0x40) = ([n], start) :=
      step_last (by omega) (by omega)
    simp only [decode, List.cons_append, List.nil_append, hstart, hlead, hlast]
  · have hlead := lead_three (by omega) h₃
    have hsecond : step ⟨2, n / 0x1000, if n / 0x1000 = 0 then 0xA0 else 0x80,
        if n / 0x1000 = 0xD then 0x9F else 0xBF⟩ (0x80 + n / 0x40 % 0x40) =
        ([], ⟨1, n / 0x40, 0x80, 0xBF⟩) := by
      refine step_more (by omega) ⟨?_, ?_⟩ (by omega)
      · split_ifs <;> omega
      · split_ifs <;> omega
    have hlast : step ⟨1, n / 0x40, 0x80, 0xBF⟩ (0x80 + n % 0x40) = ([n], start) :=
      step_last (by omega) (by omega)
    simp only [decode, List.cons_append, List.nil_append, hstart, hlead, hsecond, hlast]
  · have hlead := lead_four (by omega) hmax
    have hsecond : step ⟨3, n / 0x40000, if n / 0x40000 = 0 then 0x90 else 0x80,
        if n / 0x40000 = 4 then 0x8F else 0xBF⟩ (0x80 + n / 0x1000 % 0x40) =
        ([], ⟨2, n / 0x1000, 0x80, 0xBF⟩) := by
      refine step_more (by omega) ⟨?_, ?_⟩ (by omega)
      · split_ifs <;> omega
      · split_ifs <;> omega
    have hthird : step ⟨2, n / 0x1000, 0x80, 0xBF⟩ (0x80 + n / 0x40 % 0x40) =
        ([], ⟨1, n / 0x40, 0x80, 0xBF⟩) := step_more (by omega) (by omega) (by omega)
    have hlast : step ⟨1, n / 0x40, 0x80, 0xBF⟩ (0x80 + n % 0x40) = ([n], start) :=
      step_last (by omega) (by omega)
    simp only [decode, List.cons_append, List.nil_append, hstart, hlead, hsecond, hthird, hlast]

theorem decodeUtf8_flatMap {ns : List ℕ} (h : ∀ n ∈ ns, IsScalar n) :
    decodeUtf8 (ns.flatMap utf8) = ns := by
  induction ns with
  | nil => rfl
  | cons n ns ih =>
    rw [List.flatMap_cons, decodeUtf8, decode_utf8 (h n List.mem_cons_self)]
    exact congrArg (n :: ·) (ih fun n hn => h n (List.mem_cons_of_mem _ hn))

theorem utf8_ascii (h : n < 0x80) : utf8 n = [n] := if_pos h

theorem lt_of_mem_utf8 (hn : IsScalar n) {b : ℕ} (hb : b ∈ utf8 n) : b < 0x100 := by
  have hmax := hn.1
  unfold utf8 at hb
  split_ifs at hb <;> simp only [List.mem_cons, List.not_mem_nil, or_false] at hb <;> omega

end Decode
end HmDianPing.Text
