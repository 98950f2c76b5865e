import Mathlib.Data.List.Basic
import Mathlib.Algebra.Order.Group.Nat

/-! # Bits of a string

Redis numbers the bits of a string from the first byte on and within a byte from the
highest bit down. A string is as long as it has to be; what is beyond it reads as zero.
-/
namespace HmDianPing.Redis

abbrev Bitmap := List (BitVec 8)

/-- The `i`-th bit of a byte, from the highest, set to `b`. -/
def setByteBit (i : ℕ) (b : Bool) (byte : BitVec 8) : BitVec 8 :=
  if b then byte ||| (0x80#8 >>> i) else byte &&& ~~~(0x80#8 >>> i)

namespace Bitmap

def getBit (s : Bitmap) (offset : ℕ) : Bool := (s[offset / 8]?.getD 0).getMsbD (offset % 8)

def grow (s : Bitmap) (length : ℕ) : Bitmap := s ++ List.replicate (length - s.length) 0

def setBit (s : Bitmap) (offset : ℕ) (b : Bool) : Bitmap :=
  (s.grow (offset / 8 + 1)).modify (offset / 8) (setByteBit (offset % 8) b)

/-- `BITFIELD … GET u<width> offset`, for a width from 1 to 63. -/
def getUnsigned (s : Bitmap) (offset : ℕ) : ℕ → ℕ
  | 0 => 0
  | width + 1 => 2 * getUnsigned s offset width + (s.getBit (offset + width)).toNat

theorem getMsbD_setByteBit {i j : ℕ} (hi : i < 8) (hj : j < 8) (b : Bool) (byte : BitVec 8) :
    (setByteBit i b byte).getMsbD j = if j = i then b else byte.getMsbD j := by
  have hmask : ∀ i j : Fin 8, (0x80#8 >>> i.val).getMsbD j.val = decide (j = i) := by decide
  have hbit : (0x80#8 >>> i).getMsbD j = decide (j = i) := by
    simpa using hmask ⟨i, hi⟩ ⟨j, hj⟩
  by_cases hji : j = i <;> cases b <;> simp [setByteBit, hbit, hji, hj, hi]

theorem getElem?_grow (s : Bitmap) (length k : ℕ) :
    ((s.grow length)[k]?.getD 0) = s[k]?.getD 0 := by
  rw [grow]
  by_cases hk : k < s.length
  · rw [List.getElem?_append_left hk]
  · have hle : s.length ≤ k := not_lt.mp hk
    rw [List.getElem?_append_right hle, List.getElem?_eq_none hle, List.getElem?_replicate]
    split <;> rfl

theorem length_grow (s : Bitmap) (length : ℕ) : length ≤ (s.grow length).length := by
  simp [grow]
  omega

/-- A bit that is set reads as set, and the others as before. -/
theorem getBit_setBit (s : Bitmap) (offset p : ℕ) (b : Bool) :
    (s.setBit offset b).getBit p = if p = offset then b else s.getBit p := by
  rw [getBit, setBit, List.getElem?_modify]
  by_cases hbyte : offset / 8 = p / 8
  · have hlt : p / 8 < (s.grow (offset / 8 + 1)).length := by
      have := s.length_grow (offset / 8 + 1)
      omega
    have hold := s.getElem?_grow (offset / 8 + 1) (p / 8)
    rw [List.getElem?_eq_getElem hlt] at hold ⊢
    have hsame : p % 8 = offset % 8 ↔ p = offset := by omega
    simp only [hbyte, if_true, Option.map_eq_map, Option.map_some, Option.getD_some] at hold ⊢
    rw [getMsbD_setByteBit (Nat.mod_lt _ (by decide)) (Nat.mod_lt _ (by decide)), hold]
    simp only [hsame, getBit]
  · have hne : p ≠ offset := by
      rintro rfl
      exact hbyte rfl
    simp only [hbyte, if_false, hne, id_map']
    rw [getElem?_grow, getBit]

theorem getBit_nil (p : ℕ) : Bitmap.getBit [] p = false := by
  simp [getBit]

theorem getUnsigned_lt (s : Bitmap) (offset width : ℕ) : s.getUnsigned offset width < 2 ^ width := by
  induction width with
  | zero => simp [getUnsigned]
  | succ width ih =>
    have hbit := Bool.toNat_le (s.getBit (offset + width))
    rw [getUnsigned, Nat.pow_succ]
    omega

end Bitmap
end HmDianPing.Redis
