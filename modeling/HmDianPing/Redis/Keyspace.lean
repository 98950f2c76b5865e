import HmDianPing.Text.Decimal

/-! # What Redis reads off the text of a key

The hash slot a cluster assigns to it, and the glob patterns that `KEYS` and `SCAN`
compare it with. A key is taken as its code units, which are the bytes of an ASCII text.
-/
namespace HmDianPing.Redis
open Text

/-- The part of a key that is hashed: the text between the first `\x7b` and the next
`\x7d`, and the whole key when there is none or it is empty. -/
def hashTag (key : Str) : Str :=
  match cut 0x7B key with
  | none => key
  | some (_, rest) =>
    match cut 0x7D rest with
    | some (c :: tag, _) => c :: tag
    | _ => key

theorem hashTag_eq {s tag t : Str} (hs : 0x7B ∉ s) (htag : 0x7D ∉ tag) (hne : tag ≠ []) :
    hashTag (s ++ 0x7B :: (tag ++ 0x7D :: t)) = tag := by
  obtain ⟨c, tag, rfl⟩ := List.exists_cons_of_ne_nil hne
  rw [hashTag, cut_append hs]
  simp only [cut_append htag]

/-- One bit of `crc16`, whose polynomial is `0x1021`. -/
def crcShift (crc : UInt16) : UInt16 :=
  if crc &&& 0x8000 ≠ 0 then (crc <<< 1) ^^^ 0x1021 else crc <<< 1

def crcByte (crc byte : UInt16) : UInt16 := Nat.iterate crcShift 8 (crc ^^^ (byte <<< 8))

def crc16 (bytes : Str) : UInt16 := bytes.foldl crcByte 0

example : crc16 (lit "123456789") = 0x31C3 := by decide +kernel

def hashSlot (key : Str) : ℕ := (crc16 (hashTag key)).toNat % 16384

inductive ClassItem where
  | one (c : UInt16)
  | range (lo hi : UInt16)

def ClassItem.holds (c : UInt16) : ClassItem → Bool
  | .one d => c = d
  | .range lo hi => min lo hi ≤ c ∧ c ≤ max lo hi

inductive GlobToken where
  | star
  | any
  | cls (negated : Bool) (items : List ClassItem)
  | char (c : UInt16)

/-- The tokens of a pattern; inside brackets, with what the class has so far. A pattern
that ends inside a class ends the class. -/
def globTokens : Option (Bool × List ClassItem) → Str → List GlobToken
  | none, [] => []
  | some (negated, items), [] => [.cls negated items]
  | none, c :: p =>
    if c = 0x2A then .star :: globTokens none p
    else if c = 0x3F then .any :: globTokens none p
    else if c = 0x5B then
      match p with
      | d :: q => if d = 0x5E then globTokens (some (true, [])) q
                  else globTokens (some (false, [])) (d :: q)
      | [] => globTokens (some (false, [])) []
    else if c = 0x5C then
      match p with
      | d :: q => .char d :: globTokens none q
      | [] => [.char c]
    else .char c :: globTokens none p
  | some (negated, items), c :: p =>
    if c = 0x5C ∧ p ≠ [] then
      match p with
      | d :: q => globTokens (some (negated, .one d :: items)) q
      | [] => []
    else if c = 0x5D then .cls negated items :: globTokens none p
    else
      match p with
      | d :: e :: q => if d = 0x2D then globTokens (some (negated, .range c e :: items)) q
                       else globTokens (some (negated, .one c :: items)) (d :: e :: q)
      | q => globTokens (some (negated, .one c :: items)) q

def GlobToken.accepts (c : UInt16) : GlobToken → Bool
  | .star => false
  | .any => true
  | .cls negated items => (items.any (ClassItem.holds c)) != negated
  | .char d => c = d

/-- A star stands for any text, another token for one character. -/
def matchTokens : List GlobToken → Str → Bool
  | [], s => s.isEmpty
  | .star :: ts, s => s.tails.any (matchTokens ts)
  | _ :: _, [] => false
  | t :: ts, c :: s => t.accepts c && matchTokens ts s

/-- `stringmatchlen`. -/
def globMatch (pattern key : Str) : Bool := matchTokens (globTokens none pattern) key

example : globMatch (lit "h[^a-c]l*?") (lit "hello") = true := by decide +kernel

def Plain (c : UInt16) : Prop := c ≠ 0x2A ∧ c ≠ 0x3F ∧ c ≠ 0x5B ∧ c ≠ 0x5C

section Plain
variable {s : Str}

theorem globTokens_append (hs : ∀ c ∈ s, Plain c) (p : Str) :
    globTokens none (s ++ p) = s.map GlobToken.char ++ globTokens none p := by
  induction s with
  | nil => rfl
  | cons c s ih =>
    simp only [List.mem_cons, forall_eq_or_imp] at hs
    obtain ⟨hstar, hany, hclass, hescape⟩ := hs.1
    rw [List.cons_append, globTokens.eq_def]
    simp [hstar, hany, hclass, hescape, ih hs.2]

theorem matchTokens_append (s : Str) (ts : List GlobToken) (key : Str) :
    matchTokens (s.map GlobToken.char ++ ts) key = true ↔
      ∃ t, key = s ++ t ∧ matchTokens ts t = true := by
  induction s generalizing key with
  | nil => simp
  | cons c s ih =>
    cases key with
    | nil => simp [matchTokens]
    | cons d key =>
      simp only [List.map_cons, List.cons_append, matchTokens, GlobToken.accepts, Bool.and_eq_true,
        decide_eq_true_eq, ih, List.cons.injEq, and_assoc]
      exact exists_and_left.symm

theorem matchTokens_star (key : Str) : matchTokens [.star] key = true := by
  rw [matchTokens, List.any_eq_true]
  exact ⟨[], (List.mem_tails [] key).mpr List.nil_suffix, rfl⟩

/-- A plain text with a star behind it matches what begins with the text. -/
theorem globMatch_star (hs : ∀ c ∈ s, Plain c) (key : Str) :
    globMatch (s ++ [0x2A]) key = true ↔ s <+: key := by
  rw [globMatch, globTokens_append hs, matchTokens_append]
  constructor
  · rintro ⟨t, rfl, -⟩
    exact List.prefix_append s t
  · rintro ⟨t, rfl⟩
    exact ⟨t, rfl, matchTokens_star t⟩

end Plain

end HmDianPing.Redis
