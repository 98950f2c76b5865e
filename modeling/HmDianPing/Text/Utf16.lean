import Mathlib.Data.List.DropRight
import Mathlib.Data.List.Infix

/-! # Strings of UTF-16 code units

The strings of JavaScript and of Java, unpaired surrogates included, with the
operations on them that both languages have.
-/
namespace HmDianPing.Text

abbrev Str := List UInt16

/-- Membership in a list of strings is decided with this instance. -/
instance : LawfulBEq Str := inferInstanceAs (LawfulBEq (List UInt16))

/-- The string a literal writes; the literals are ASCII or in the first plane. -/
def lit (s : String) : Str := s.toList.map fun c => c.toNat.toUInt16

def unitsOf (n : ℕ) : Str :=
  if n < 0x10000 then [n.toUInt16]
  else [(0xD800 + (n - 0x10000) / 0x400).toUInt16, (0xDC00 + (n - 0x10000) % 0x400).toUInt16]

def units (ns : List ℕ) : Str := ns.flatMap unitsOf

/-- The units of a text without unpaired surrogates. -/
def utf16 (s : String) : Str := units (s.toList.map Char.toNat)

theorem utf16_eq_lit {s : String} (h : ∀ c ∈ s.toList, c.toNat < 0x10000) : utf16 s = lit s := by
  rw [utf16, units, lit, List.flatMap_map]
  generalize s.toList = cs at h
  induction cs with
  | nil => rfl
  | cons c cs ih =>
    have hc : unitsOf c.toNat = [c.toNat.toUInt16] := if_pos (h c List.mem_cons_self)
    rw [List.flatMap_cons, hc, ih fun d hd => h d (List.mem_cons_of_mem c hd)]
    rfl

/-- The class of characters `[lo-hi]`. -/
def inRange (lo hi : ℕ) (c : UInt16) : Bool := lo ≤ c.toNat && c.toNat ≤ hi

def isAsciiAlpha (c : UInt16) : Bool := inRange 0x41 0x5A c || inRange 0x61 0x7A c

/-- The lower case of the ASCII letters. -/
def ignoreCase (s : Str) : Str := s.map fun c => if inRange 0x41 0x5A c then c + 0x20 else c

def slashes (s : Str) : Str := s.map fun c => if c = 0x5C then 0x2F else c

theorem slashes_eq {s : Str} (h : 0x5C ∉ s) : slashes s = s := by
  induction s with
  | nil => rfl
  | cons c s ih =>
    simp only [List.mem_cons, not_or] at h
    simp [slashes, ne_comm.mp h.1] at ih ⊢
    exact ih h.2

def trimBy (p : UInt16 → Bool) (s : Str) : Str := (s.dropWhile p).rdropWhile p

section Trim
variable {p : UInt16 → Bool} {s : Str} {c : UInt16}

theorem trimBy_cons (hc : p c = false) (s : Str) : trimBy p (c :: s) = c :: s.rdropWhile p := by
  have hd : (c :: s).dropWhile p = c :: s := List.dropWhile_cons_of_neg (by simp [hc])
  rw [trimBy, hd]
  induction s using List.reverseRecOn with
  | nil => simp [hc]
  | append_singleton s d ih =>
    rw [← List.cons_append, List.rdropWhile_concat, List.rdropWhile_concat]
    split
    · exact ih (List.dropWhile_cons_of_neg (by simp [hc]))
    · rfl

theorem rdropWhile_append_cons (hc : p c = false) (w s : Str) :
    (w ++ c :: s).rdropWhile p = w ++ c :: s.rdropWhile p := by
  induction s using List.reverseRecOn with
  | nil => simp [hc]
  | append_singleton s d ih =>
    rw [List.rdropWhile_concat, ← List.cons_append, ← List.append_assoc, List.rdropWhile_concat]
    split
    · exact ih
    · simp

theorem head?_filter_rdropWhile {q : UInt16 → Bool} (hc : p c = false) (hq : q c = true) :
    ((s.rdropWhile p).filter q).head? = some c ↔
      ∃ w rest, s = w ++ c :: rest ∧ ∀ d ∈ w, q d = false := by
  constructor
  · intro h
    obtain ⟨t, ht⟩ := List.head?_eq_some_iff.mp h
    obtain ⟨w, rest, hs, hw, -⟩ := List.filter_eq_cons_iff.mp ht
    refine ⟨w, rest ++ s.rtakeWhile p, ?_, fun d hd => by simpa using hw d hd⟩
    rw [← List.cons_append, ← List.append_assoc, ← hs, List.rdropWhile_append_rtakeWhile]
  · rintro ⟨w, rest, rfl, hw⟩
    have hn : w.filter q = [] := List.filter_eq_nil_iff.mpr fun d hd => by simp [hw d hd]
    simp [rdropWhile_append_cons hc, hn, hq]

/-- Neither end is of the kind `p`. -/
def Trimmed (p : UInt16 → Bool) (s : Str) : Prop :=
  (∀ c ∈ s.head?, p c = false) ∧ ∀ c ∈ s.getLast?, p c = false

theorem trimBy_trimmed (p : UInt16 → Bool) (s : Str) : Trimmed p (trimBy p s) := by
  constructor
  · intro c hc
    have hd : (s.dropWhile p).head? = some c := by
      obtain ⟨t, ht⟩ := List.rdropWhile_prefix p (s.dropWhile p)
      rw [← ht, List.head?_append, show ((s.dropWhile p).rdropWhile p).head? = some c from hc]
      rfl
    simpa [hd] using List.head?_dropWhile_not p s
  · intro c hc
    obtain ⟨t, ht⟩ := List.getLast?_eq_some_iff.mp hc
    have hn : trimBy p s ≠ [] := by simp [ht]
    have hl := List.rdropWhile_last_not p (s.dropWhile p) hn
    simpa [show (s.dropWhile p).rdropWhile p = t ++ [c] from ht] using hl

theorem Trimmed.trimBy_eq (h : Trimmed p s) : trimBy p s = s := by
  have hd : s.dropWhile p = s := by
    cases s with
    | nil => rfl
    | cons c s => exact List.dropWhile_cons_of_neg (by simp [h.1 c rfl])
  rw [trimBy, hd, List.rdropWhile_eq_self_iff]
  intro hs
  simpa using h.2 _ (List.getLast?_eq_some_getLast hs)

end Trim

end HmDianPing.Text
