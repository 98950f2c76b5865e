import HmDianPing.Text.Utf8

/-! # Percent-encoding and form data

What a script writes into a query, what the browser makes of it when it parses the
address, and what is read out of it again as form data.
-/
namespace HmDianPing.Text

def hexDigit (n : ℕ) : UInt16 := if n < 10 then (0x30 + n).toUInt16 else (0x37 + n).toUInt16

def percentByte (b : ℕ) : Str := [0x25, hexDigit (b / 16), hexDigit (b % 16)]

/-- The code points outside `keep` are written as their bytes; those in `keep` are ASCII. -/
def encodeScalar (keep : ℕ → Bool) (n : ℕ) : Str :=
  if keep n then [n.toUInt16] else (utf8 n).flatMap percentByte

def percentEncode (keep : ℕ → Bool) (s : Str) : Str := (scalars s).flatMap (encodeScalar keep)

def isAlphanumeric (n : ℕ) : Bool :=
  (0x30 ≤ n && n ≤ 0x39) || (0x41 ≤ n && n ≤ 0x5A) || (0x61 ≤ n && n ≤ 0x7A)

/-- What `encodeURIComponent` leaves as it is: letters, digits and the marks `-_.!~*'()`. -/
def isUnescaped (n : ℕ) : Bool :=
  isAlphanumeric n || n ∈ [0x2D, 0x5F, 0x2E, 0x21, 0x7E, 0x2A, 0x27, 0x28, 0x29]

/-- `encodeURIComponent`; a `URIError` for an unpaired surrogate. -/
def encodeURIComponent (s : Str) : Option Str :=
  if isWellFormed s then some (percentEncode isUnescaped s) else none

/-- What the URL parser leaves as it is in the query of an `http` address. -/
def isQueryChar (n : ℕ) : Bool :=
  0x20 < n && n < 0x7F && n ∉ [0x22, 0x23, 0x27, 0x3C, 0x3E]

/-- The query of an address, as the URL parser stores it. -/
def storedQuery (query : Str) : Str := percentEncode isQueryChar query

def hexValue (b : ℕ) : Option ℕ :=
  if 0x30 ≤ b ∧ b ≤ 0x39 then some (b - 0x30)
  else if 0x41 ≤ b ∧ b ≤ 0x46 then some (b - 0x37)
  else if 0x61 ≤ b ∧ b ≤ 0x66 then some (b - 0x57)
  else none

/-- A `%` that is not followed by two digits stays. -/
def percentDecode : List ℕ → List ℕ
  | [] => []
  | 0x25 :: a :: b :: bs =>
    match hexValue a, hexValue b with
    | some x, some y => (16 * x + y) :: percentDecode bs
    | _, _ => 0x25 :: percentDecode (a :: b :: bs)
  | b :: bs => b :: percentDecode bs

def formComponent (bs : List ℕ) : Str :=
  units (decodeUtf8 (percentDecode (bs.map fun b => if b = 0x2B then 0x20 else b)))

def formPair (bs : List ℕ) : Str × Str :=
  (formComponent (bs.takeWhile (· ≠ 0x3D)), formComponent ((bs.dropWhile (· ≠ 0x3D)).drop 1))

/-- The parser of `application/x-www-form-urlencoded`. -/
def parseForm (s : Str) : List (Str × Str) :=
  ((((scalars s).flatMap utf8).splitOn 0x26).filter (· ≠ [])).map formPair

section Decode
variable {keep : ℕ → Bool} {n : ℕ}

theorem toNat_hexDigit (h : n < 16) :
    (hexDigit n).toNat = if n < 10 then 0x30 + n else 0x37 + n := by
  unfold hexDigit
  split_ifs
  · exact Nat.mod_eq_of_lt (by omega)
  · exact Nat.mod_eq_of_lt (by omega)

theorem hexValue_hexDigit (h : n < 16) : hexValue (hexDigit n).toNat = some n := by
  rw [toNat_hexDigit h]
  by_cases hn : n < 10
  · have hrange : 0x30 ≤ 0x30 + n ∧ 0x30 + n ≤ 0x39 := by omega
    rw [if_pos hn, hexValue, if_pos hrange, Nat.add_sub_cancel_left]
  · have hdigit : ¬ (0x30 ≤ 0x37 + n ∧ 0x37 + n ≤ 0x39) := by omega
    have hrange : 0x41 ≤ 0x37 + n ∧ 0x37 + n ≤ 0x46 := by omega
    rw [if_neg hn, hexValue, if_neg hdigit, if_pos hrange, Nat.add_sub_cancel_left]

theorem toNat_percentByte {b : ℕ} (hb : b < 0x100) : ∀ c ∈ percentByte b,
    c.toNat = 0x25 ∨ isAlphanumeric c.toNat = true := by
  have hdigit : ∀ n < 16, isAlphanumeric (hexDigit n).toNat = true := by
    intro n hn
    rw [toNat_hexDigit hn]
    simp only [isAlphanumeric, Bool.or_eq_true, Bool.and_eq_true, decide_eq_true_eq]
    split_ifs <;> omega
  intro c hc
  simp only [percentByte, List.mem_cons, List.not_mem_nil, or_false] at hc
  rcases hc with rfl | rfl | rfl
  · exact .inl rfl
  · exact .inr (hdigit _ (by omega))
  · exact .inr (hdigit _ (by omega))

theorem percentDecode_percentByte {b : ℕ} (hb : b < 0x100) (bs : List ℕ) :
    percentDecode ((percentByte b).map UInt16.toNat ++ bs) = b :: percentDecode bs := by
  have hhigh := hexValue_hexDigit (n := b / 16) (by omega)
  have hlow := hexValue_hexDigit (n := b % 16) (by omega)
  have hsum : 16 * (b / 16) + b % 16 = b := by omega
  show percentDecode (0x25 :: (hexDigit (b / 16)).toNat :: (hexDigit (b % 16)).toNat :: bs) = _
  rw [percentDecode, hhigh, hlow]
  simp [hsum]

theorem percentDecode_cons {b : ℕ} (h : b ≠ 0x25) (bs : List ℕ) :
    percentDecode (b :: bs) = b :: percentDecode bs := by
  rw [percentDecode]
  exact fun _ _ _ hb _ => h hb

theorem percentDecode_flatMap {bytes : List ℕ} (h : ∀ b ∈ bytes, b < 0x100) (bs : List ℕ) :
    percentDecode ((bytes.flatMap percentByte).map UInt16.toNat ++ bs) =
      bytes ++ percentDecode bs := by
  induction bytes with
  | nil => rfl
  | cons b bytes ih =>
    rw [List.flatMap_cons, List.map_append, List.append_assoc,
      percentDecode_percentByte (h b List.mem_cons_self),
      ih fun b hb => h b (List.mem_cons_of_mem _ hb)]
    rfl

end Decode

/-- The code points that stay are ASCII, and none of them means anything in form data. -/
def Harmless (keep : ℕ → Bool) : Prop :=
  ∀ n, keep n = true → n < 0x80 ∧ n ≠ 0x25 ∧ n ≠ 0x26 ∧ n ≠ 0x2B ∧ n ≠ 0x3D

section Encode
variable {keep keep' : ℕ → Bool} {s : Str} {n : ℕ}

/-- A character of an encoded text is a `%`, a letter or a digit, or stays from the text. -/
theorem mem_encodeScalar (hkeep : Harmless keep) (hn : IsScalar n) {c : UInt16}
    (h : c ∈ encodeScalar keep n) :
    c.toNat = 0x25 ∨ isAlphanumeric c.toNat = true ∨ keep c.toNat = true := by
  unfold encodeScalar at h
  split_ifs at h with hk
  · obtain rfl := List.mem_singleton.mp h
    have hsmall := (hkeep n hk).1
    have hnat : n.toUInt16.toNat = n := Nat.mod_eq_of_lt (by omega)
    exact .inr (.inr (by rwa [hnat]))
  · obtain ⟨b, hb, hc⟩ := List.mem_flatMap.mp h
    exact (toNat_percentByte (lt_of_mem_utf8 hn hb) c hc).imp id .inl

theorem mem_percentEncode (hkeep : Harmless keep) {c : UInt16} (h : c ∈ percentEncode keep s) :
    c.toNat = 0x25 ∨ isAlphanumeric c.toNat = true ∨ keep c.toNat = true := by
  obtain ⟨n, hn, hc⟩ := List.mem_flatMap.mp h
  exact mem_encodeScalar hkeep (isScalar_of_mem hn) hc

theorem lt_of_isAlphanumeric (h : isAlphanumeric n = true) :
    n < 0x80 ∧ n ≠ 0x26 ∧ n ≠ 0x2B ∧ n ≠ 0x3D := by
  simp only [isAlphanumeric, Bool.or_eq_true, Bool.and_eq_true, decide_eq_true_eq] at h
  omega

/-- An encoded text is ASCII, and holds none of `&`, `+` and `=`. -/
theorem percentEncode_plain (hkeep : Harmless keep) {c : UInt16} (h : c ∈ percentEncode keep s) :
    c.toNat < 0x80 ∧ c.toNat ≠ 0x26 ∧ c.toNat ≠ 0x2B ∧ c.toNat ≠ 0x3D := by
  rcases mem_percentEncode hkeep h with hc | hc | hc
  · omega
  · exact lt_of_isAlphanumeric hc
  · obtain ⟨hsmall, -, hamp, hplus, heq⟩ := hkeep _ hc
    exact ⟨hsmall, hamp, hplus, heq⟩

theorem percentDecode_encodeScalar (hkeep : Harmless keep) (hn : IsScalar n) (bs : List ℕ) :
    percentDecode ((encodeScalar keep n).map UInt16.toNat ++ bs) = utf8 n ++ percentDecode bs := by
  unfold encodeScalar
  split_ifs with hk
  · obtain ⟨hsmall, hpercent, -⟩ := hkeep n hk
    have hnat : n.toUInt16.toNat = n := Nat.mod_eq_of_lt (by omega)
    rw [List.map_singleton, hnat, utf8_ascii hsmall]
    exact percentDecode_cons hpercent bs
  · exact percentDecode_flatMap (fun b hb => lt_of_mem_utf8 hn hb) bs

theorem percentDecode_encode (hkeep : Harmless keep) {ns : List ℕ} (h : ∀ n ∈ ns, IsScalar n) :
    percentDecode ((ns.flatMap (encodeScalar keep)).map UInt16.toNat) = ns.flatMap utf8 := by
  induction ns with
  | nil => rfl
  | cons n ns ih =>
    rw [List.flatMap_cons, List.map_append,
      percentDecode_encodeScalar hkeep (h n List.mem_cons_self),
      ih fun n hn => h n (List.mem_cons_of_mem _ hn)]
    rfl

theorem formComponent_percentEncode (hkeep : Harmless keep) (h : isWellFormed s = true) :
    formComponent ((percentEncode keep s).map UInt16.toNat) = s := by
  have hplus : ((percentEncode keep s).map UInt16.toNat).map
      (fun b => if b = 0x2B then 0x20 else b) = (percentEncode keep s).map UInt16.toNat := by
    rw [List.map_map]
    refine List.map_congr_left fun c hc => if_neg ?_
    exact (percentEncode_plain hkeep hc).2.2.1
  have hscalars : ∀ n ∈ scalars s, IsScalar n := fun n hn => isScalar_of_mem hn
  rw [formComponent, hplus, percentEncode, percentDecode_encode hkeep hscalars,
    decodeUtf8_flatMap hscalars, units_scalars h]

end Encode

def keptInQuery (keep : ℕ → Bool) (n : ℕ) : Bool := keep n && isQueryChar n

section Stored
variable {keep : ℕ → Bool} {s t : Str} {n : ℕ}

theorem Harmless.keptInQuery (h : Harmless keep) : Harmless (keptInQuery keep) := fun n hn =>
  h n (Bool.and_eq_true_iff.mp hn).1

theorem storedQuery_ascii (h : ∀ c ∈ s, c.toNat < 0x80) :
    storedQuery s = s.flatMap fun c => encodeScalar isQueryChar c.toNat := by
  rw [storedQuery, percentEncode, scalars_ascii h, List.flatMap_map]

theorem encodeScalar_toNat {c : UInt16} (h : isQueryChar c.toNat = true) :
    encodeScalar isQueryChar c.toNat = [c] := by
  simp [encodeScalar, h]

theorem isQueryChar_of_isAlphanumeric (h : isAlphanumeric n = true) : isQueryChar n = true := by
  simp only [isAlphanumeric, Bool.or_eq_true, Bool.and_eq_true, decide_eq_true_eq] at h
  simp only [isQueryChar, Bool.and_eq_true, decide_eq_true_eq, List.mem_cons, List.not_mem_nil,
    or_false]
  omega

/-- The browser encodes what is left of a code point that has been encoded. -/
theorem flatMap_encodeScalar (hkeep : Harmless keep) (hn : IsScalar n) :
    (encodeScalar keep n).flatMap (fun c => encodeScalar isQueryChar c.toNat) =
      encodeScalar (keptInQuery keep) n := by
  by_cases hk : keep n = true
  · have hsmall := (hkeep n hk).1
    have hnat : n.toUInt16.toNat = n := Nat.mod_eq_of_lt (by omega)
    simp [encodeScalar, keptInQuery, hk, hnat]
  · have hbytes : ∀ c ∈ (utf8 n).flatMap percentByte, encodeScalar isQueryChar c.toNat = [c] := by
      intro c hc
      obtain ⟨b, hb, hc⟩ := List.mem_flatMap.mp hc
      refine encodeScalar_toNat ?_
      rcases toNat_percentByte (lt_of_mem_utf8 hn hb) c hc with hc | hc
      · rw [hc]
        decide
      · exact isQueryChar_of_isAlphanumeric hc
    rw [encodeScalar, if_neg hk, encodeScalar, if_neg (by simp [keptInQuery, hk]),
      List.flatMap_congr hbytes, List.flatMap_singleton']

theorem flatMap_percentEncode (hkeep : Harmless keep) :
    (percentEncode keep s).flatMap (fun c => encodeScalar isQueryChar c.toNat) =
      percentEncode (keptInQuery keep) s := by
  rw [percentEncode, List.flatMap_assoc, percentEncode]
  exact List.flatMap_congr fun n hn => flatMap_encodeScalar hkeep (isScalar_of_mem hn)

end Stored

def encodedPair (keep : ℕ → Bool) (p : Str × Str) : Str :=
  percentEncode keep p.1 ++ 0x3D :: percentEncode keep p.2

def encodedPairs (keep : ℕ → Bool) (pairs : List (Str × Str)) : Str :=
  [0x26].intercalate (pairs.map (encodedPair keep))

section Pairs
variable {keep : ℕ → Bool} {p : Str × Str} {pairs : List (Str × Str)}

theorem lt_of_mem_encodedPair (hkeep : Harmless keep) {c : UInt16} (h : c ∈ encodedPair keep p) :
    c.toNat < 0x80 ∧ c.toNat ≠ 0x26 := by
  rcases List.mem_append.mp h with h | h
  · exact ⟨(percentEncode_plain hkeep h).1, (percentEncode_plain hkeep h).2.1⟩
  · rcases List.mem_cons.mp h with rfl | h
    · decide
    · exact ⟨(percentEncode_plain hkeep h).1, (percentEncode_plain hkeep h).2.1⟩

theorem encodedPairs_cons (p q : Str × Str) (pairs : List (Str × Str)) :
    encodedPairs keep (p :: q :: pairs) =
      encodedPair keep p ++ 0x26 :: encodedPairs keep (q :: pairs) := by
  simp [encodedPairs, List.intercalate_cons_cons]

theorem lt_of_mem_encodedPairs (hkeep : Harmless keep) {c : UInt16}
    (h : c ∈ encodedPairs keep pairs) : c.toNat < 0x80 := by
  induction pairs with
  | nil => simp [encodedPairs] at h
  | cons p pairs ih =>
    cases pairs with
    | nil => exact (lt_of_mem_encodedPair hkeep (by simpa [encodedPairs] using h)).1
    | cons q pairs =>
      rw [encodedPairs_cons] at h
      rcases List.mem_append.mp h with h | h
      · exact (lt_of_mem_encodedPair hkeep h).1
      · rcases List.mem_cons.mp h with rfl | h
        · decide
        · exact ih h

theorem flatMap_encodedPair (hkeep : Harmless keep) :
    (encodedPair keep p).flatMap (fun c => encodeScalar isQueryChar c.toNat) =
      encodedPair (keptInQuery keep) p := by
  have hequals : encodeScalar isQueryChar (0x3D : UInt16).toNat = [0x3D] :=
    encodeScalar_toNat (by decide)
  rw [encodedPair, List.flatMap_append, List.flatMap_cons, flatMap_percentEncode hkeep,
    flatMap_percentEncode hkeep, hequals]
  rfl

/-- The pairs as the browser stores them. -/
theorem storedQuery_encodedPairs (hkeep : Harmless keep) :
    storedQuery (encodedPairs keep pairs) = encodedPairs (keptInQuery keep) pairs := by
  rw [storedQuery_ascii fun c hc => lt_of_mem_encodedPairs hkeep hc]
  have hamp : encodeScalar isQueryChar (0x26 : UInt16).toNat = [0x26] :=
    encodeScalar_toNat (by decide)
  induction pairs with
  | nil => rfl
  | cons p pairs ih =>
    cases pairs with
    | nil => simpa [encodedPairs] using flatMap_encodedPair hkeep
    | cons q pairs =>
      rw [encodedPairs_cons, encodedPairs_cons, List.flatMap_append, List.flatMap_cons,
        flatMap_encodedPair hkeep, hamp, ih]
      rfl

theorem formPair_encodedPair (hkeep : Harmless keep) (h : isWellFormed p.1 = true)
    (h' : isWellFormed p.2 = true) : formPair ((encodedPair keep p).map UInt16.toNat) = p := by
  have hname : ∀ b ∈ (percentEncode keep p.1).map UInt16.toNat, decide (b ≠ 0x3D) = true := by
    intro b hb
    obtain ⟨c, hc, rfl⟩ := List.mem_map.mp hb
    exact decide_eq_true (percentEncode_plain hkeep hc).2.2.2
  have hsplit : (encodedPair keep p).map UInt16.toNat =
      (percentEncode keep p.1).map UInt16.toNat ++
        0x3D :: (percentEncode keep p.2).map UInt16.toNat := by
    simp [encodedPair]
  rw [formPair, hsplit, List.takeWhile_append_of_pos hname, List.dropWhile_append_of_pos hname]
  simp [formComponent_percentEncode hkeep h, formComponent_percentEncode hkeep h']

theorem map_toNat_encodedPairs : (encodedPairs keep pairs).map UInt16.toNat =
    [0x26].intercalate (pairs.map fun p => (encodedPair keep p).map UInt16.toNat) := by
  induction pairs with
  | nil => rfl
  | cons p pairs ih =>
    cases pairs with
    | nil => simp [encodedPairs]
    | cons q pairs =>
      rw [encodedPairs_cons, List.map_append, List.map_cons, ih, List.map_cons, List.map_cons,
        List.map_cons, List.intercalate_cons_cons]
      simp

theorem encodedPairs_bytes (hkeep : Harmless keep) :
    (scalars (encodedPairs keep pairs)).flatMap utf8 =
      (encodedPairs keep pairs).map UInt16.toNat := by
  have hascii : ∀ c ∈ encodedPairs keep pairs, c.toNat < 0x80 := fun c hc =>
    lt_of_mem_encodedPairs hkeep hc
  rw [scalars_ascii hascii, List.flatMap_map, List.map_eq_flatMap]
  exact List.flatMap_congr fun c hc => utf8_ascii (hascii c hc)

/-- What is joined is read back. -/
theorem parseForm_encodedPairs (hkeep : Harmless keep)
    (h : ∀ p ∈ pairs, isWellFormed p.1 = true ∧ isWellFormed p.2 = true) :
    parseForm (encodedPairs keep pairs) = pairs := by
  rcases pairs.eq_nil_or_concat with rfl | ⟨_, _, hconcat⟩
  · rfl
  have hne : pairs.map (fun p => (encodedPair keep p).map UInt16.toNat) ≠ [] := by
    simp [hconcat]
  have hsplit : ∀ bs ∈ pairs.map (fun p => (encodedPair keep p).map UInt16.toNat), 0x26 ∉ bs := by
    intro bs hbs hamp
    obtain ⟨p, -, rfl⟩ := List.mem_map.mp hbs
    obtain ⟨c, hc, hc'⟩ := List.mem_map.mp hamp
    exact (lt_of_mem_encodedPair hkeep hc).2 hc'
  have hfilter : ∀ bs ∈ pairs.map (fun p => (encodedPair keep p).map UInt16.toNat),
      decide (bs ≠ []) = true := by
    intro bs hbs
    obtain ⟨p, -, rfl⟩ := List.mem_map.mp hbs
    simp [encodedPair]
  rw [parseForm, encodedPairs_bytes hkeep, map_toNat_encodedPairs,
    List.splitOn_intercalate _ hsplit hne, List.filter_eq_self.mpr hfilter, List.map_map]
  refine (List.map_congr_left fun p hp => ?_).trans (List.map_id pairs)
  exact formPair_encodedPair hkeep (h p hp).1 (h p hp).2

end Pairs
end HmDianPing.Text
