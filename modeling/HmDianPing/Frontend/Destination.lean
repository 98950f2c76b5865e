import HmDianPing.Text.Utf16

/-! # Where a login leads

`util.loginDestination` looks at the redirect parameter as it stands, the browser at
what is left of it when it has dropped the characters that a URL may not contain.
-/
namespace HmDianPing.Frontend
open Text

def getUrlParam (value : Option Str) : Str := value.getD []

/-- `/^\/login2?\.html/`. -/
def IsLoginPage (next : Str) : Prop := lit "/login.html" <+: next ∨ lit "/login2.html" <+: next

instance : DecidablePred IsLoginPage := fun _ => inferInstanceAs (Decidable (_ ∨ _))

/-- What `util.loginDestination` lets through. -/
def Accepted (next : Str) : Prop :=
  lit "/" <+: next ∧ ¬ lit "//" <+: next ∧ 0x5C ∉ next ∧ ¬ IsLoginPage next

instance : DecidablePred Accepted := fun _ => inferInstanceAs (Decidable (_ ∧ _))

def loginDestination (redirect : Option Str) : Str :=
  let next := getUrlParam redirect
  if Accepted next then next else lit "/info.html"

section Browser

def isC0ControlOrSpace (c : UInt16) : Bool := inRange 0 0x20 c

def isTabOrNewline (c : UInt16) : Bool := c = 0x09 ∨ c = 0x0A ∨ c = 0x0D

def isSlash (c : UInt16) : Bool := c = 0x2F ∨ c = 0x5C

def isSchemeChar (c : UInt16) : Bool :=
  isAsciiAlpha c || inRange 0x30 0x39 c || c ∈ lit "+-."

def urlInput (s : Str) : Str := (trimBy isC0ControlOrSpace s).filter fun c => !isTabOrNewline c

def hasScheme : Str → Bool
  | [] => false
  | c :: s => isAsciiAlpha c && ((s.dropWhile isSchemeChar).head? = some 0x3A)

def hasAuthority : Str → Bool
  | c :: d :: _ => isSlash c && isSlash d
  | _ => false

/-- Where a page ends up that is navigated to `s`: on its own origin when the
reference names neither a scheme nor a host. -/
def StaysOnOrigin (s : Str) : Prop :=
  hasScheme (urlInput s) = false ∧ hasAuthority (urlInput s) = false

instance : DecidablePred StaysOnOrigin := fun _ => inferInstanceAs (Decidable (_ ∧ _))

end Browser

/-- A second slash comes right after the first when the tabs and line breaks between
them are dropped. -/
def HidesAuthority (next : Str) : Prop :=
  ∃ blanks rest : Str, blanks ≠ [] ∧ (∀ c ∈ blanks, isTabOrNewline c) ∧ 0x5C ∉ rest ∧
    next = 0x2F :: (blanks ++ 0x2F :: rest)

theorem urlInput_cons {c : UInt16} (hc : isC0ControlOrSpace c = false) (hb : isTabOrNewline c = false)
    (s : Str) : urlInput (c :: s) =
      c :: (s.rdropWhile isC0ControlOrSpace).filter fun d => !isTabOrNewline d := by
  simp [urlInput, trimBy_cons hc, hb]

theorem staysOnOrigin_slash_cons (s : Str) : StaysOnOrigin (0x2F :: s) ↔
    ∀ c, isSlash c = true →
      ((s.rdropWhile isC0ControlOrSpace).filter fun d => !isTabOrNewline d).head? ≠ some c := by
  rw [StaysOnOrigin, urlInput_cons (by decide) (by decide)]
  generalize (s.rdropWhile isC0ControlOrSpace).filter (fun d => !isTabOrNewline d) = t
  have hs : isSlash 0x2F = true := by decide
  have ha : isAsciiAlpha 0x2F = false := by decide
  cases t with
  | nil => simp [hasScheme, hasAuthority, ha]
  | cons d t =>
    have hd : isSlash d = false ↔ ∀ c, isSlash c = true → ¬ d = c := by
      constructor
      · rintro h _ hc rfl
        simp [h] at hc
      · intro h
        simpa using fun hd => h d hd rfl
    simpa [hasScheme, hasAuthority, ha, hs] using hd

theorem head?_input_iff {c : UInt16} (hc : isSlash c = true) (s : Str) :
    ((s.rdropWhile isC0ControlOrSpace).filter fun d => !isTabOrNewline d).head? = some c ↔
      ∃ blanks rest, s = blanks ++ c :: rest ∧ ∀ d ∈ blanks, isTabOrNewline d = true := by
  have h : isC0ControlOrSpace c = false ∧ isTabOrNewline c = false := by
    rcases (by simpa [isSlash] using hc : c = 0x2F ∨ c = 0x5C) with rfl | rfl <;> decide
  simpa using head?_filter_rdropWhile (q := fun d => !isTabOrNewline d) h.1 (by simp [h.2])

theorem ne_of_isTabOrNewline {c d : UInt16} (hc : isTabOrNewline c = true)
    (hd : isTabOrNewline d = false) : c ≠ d := by
  rintro rfl
  simp [hd] at hc

theorem HidesAuthority.accepted {next : Str} (h : HidesAuthority next) : Accepted next := by
  obtain ⟨blanks, rest, hne, hb, hrest, rfl⟩ := h
  obtain ⟨b, blanks, rfl⟩ := List.exists_cons_of_ne_nil hne
  have hb₀ := hb b List.mem_cons_self
  refine ⟨⟨_, rfl⟩, ?_, ?_, ?_⟩
  · rintro ⟨t, ht⟩
    simp [lit] at ht
    exact ne_of_isTabOrNewline hb₀ (by decide) ht.1.symm
  · intro hm
    rcases (by simpa using hm : 0x5C = b ∨ 0x5C ∈ blanks ∨ 0x5C ∈ rest) with h | h | h
    · exact ne_of_isTabOrNewline hb₀ (by decide) h.symm
    · exact ne_of_isTabOrNewline (hb _ (List.mem_cons_of_mem _ h)) (by decide) rfl
    · exact hrest h
  · rintro (⟨t, ht⟩ | ⟨t, ht⟩) <;> simp [lit] at ht <;>
      exact ne_of_isTabOrNewline hb₀ (by decide) ht.1.symm

/-- An accepted reference hides a host exactly when the browser reads two slashes. -/
theorem Accepted.staysOnOrigin_iff {next : Str} (h : Accepted next) :
    StaysOnOrigin next ↔ ¬ HidesAuthority next := by
  obtain ⟨⟨s, rfl⟩, hne, hback, -⟩ := h
  change StaysOnOrigin (0x2F :: s) ↔ ¬ HidesAuthority (0x2F :: s)
  rw [staysOnOrigin_slash_cons]
  constructor
  · rintro h ⟨blanks, rest, -, hb, -, hs⟩
    exact h 0x2F (by decide) ((head?_input_iff (by decide) s).mpr ⟨blanks, rest, by simpa using hs, hb⟩)
  · intro h c hc hhead
    obtain ⟨blanks, rest, rfl, hb⟩ := (head?_input_iff hc s).mp hhead
    have hcs : c = 0x2F := by
      rcases (by simpa [isSlash] using hc : c = 0x2F ∨ c = 0x5C) with rfl | rfl
      · rfl
      · exact absurd (by simp) hback
    subst hcs
    refine h ⟨blanks, rest, ?_, hb, fun hm => hback (by simp [hm]), rfl⟩
    rintro rfl
    exact hne ⟨rest, rfl⟩

/-- A login leads away exactly when a second slash hides behind tabs or line breaks. -/
theorem loginDestination_staysOnOrigin_iff (redirect : Option Str) :
    StaysOnOrigin (loginDestination redirect) ↔ ¬ HidesAuthority (getUrlParam redirect) := by
  unfold loginDestination
  by_cases h : Accepted (getUrlParam redirect)
  · simpa [h] using h.staysOnOrigin_iff
  · have hinfo : StaysOnOrigin (lit "/info.html") := by decide
    simpa [h, hinfo] using fun hh : HidesAuthority _ => h hh.accepted

/-- The parameter `%2F%09%2Fevil.com`. -/
theorem loginDestination_tab_leaves :
    ¬ ∀ redirect : Option Str, StaysOnOrigin (loginDestination redirect) := by
  intro h
  have hd := h (some (lit "/\t/evil.com"))
  revert hd
  decide

end HmDianPing.Frontend
