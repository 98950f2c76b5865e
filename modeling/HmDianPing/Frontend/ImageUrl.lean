import HmDianPing.Text.Utf16

/-! # Addresses of images

`util.imageUrl` turns what an image is called anywhere in the data into an address of
the site, or into nothing.
-/
namespace HmDianPing.Frontend
open Text

def isWhiteSpace (c : UInt16) : Bool :=
  inRange 0x09 0x0D c || inRange 0x2000 0x200A c ||
    c ∈ [0x20, 0xA0, 0x1680, 0x2028, 0x2029, 0x202F, 0x205F, 0x3000, 0xFEFF]

/-- `path.replace(/^\//, '')`. -/
def dropSlash : Str → Str
  | [] => []
  | c :: s => if c = 0x2F then s else c :: s

section Patterns
variable (path : Str)

/-- `/^https?:\/\//i`. -/
def IsHttp : Prop := lit "http://" <+: ignoreCase path ∨ lit "https://" <+: ignoreCase path

/-- `/^data:image\/(png|jpeg|gif|webp);base64,/i`. -/
def IsDataImage : Prop :=
  ∃ type ∈ ["png", "jpeg", "gif", "webp"],
    lit "data:image/" ++ lit type ++ lit ";base64," <+: ignoreCase path

/-- `/^[a-z]+:/i`. -/
def HasProtocol : Prop :=
  path.head?.any isAsciiAlpha ∧ (path.dropWhile isAsciiAlpha).head? = some 0x3A

/-- A host, a protocol or a step upwards, none of which is left in place. -/
def Refused : Prop := lit "//" <+: path ∨ HasProtocol path ∨ lit ".." <:+: path

/-- `/^\/?dir\//`, for one of the directories. -/
def IsUnder (dirs : List String) : Prop := ∃ dir ∈ dirs, lit dir ++ lit "/" <+: dropSlash path

instance : Decidable (IsHttp path) := inferInstanceAs (Decidable (_ ∨ _))
instance : Decidable (IsDataImage path) := inferInstanceAs (Decidable (∃ _ ∈ _, _))
instance : Decidable (HasProtocol path) := inferInstanceAs (Decidable (_ ∧ _))
instance : Decidable (Refused path) := inferInstanceAs (Decidable (_ ∨ _))
instance (dirs : List String) : Decidable (IsUnder path dirs) :=
  inferInstanceAs (Decidable (∃ _ ∈ _, _))

end Patterns

/-- `util.imageUrl` from where the path is trimmed and its backslashes are turned. -/
def imagePath (path : Str) : Str :=
  if IsHttp path then path
  else if IsDataImage path then path
  else if Refused path then []
  else if IsUnder path ["imgs"] then lit "/" ++ dropSlash path
  else if IsUnder path ["blogs", "icons", "shop", "types"] then lit "/imgs/" ++ dropSlash path
  else if lit "/" <+: path then path
  else lit "/imgs/" ++ path

def imageUrl (value : Option Str) : Str :=
  match value with
  | none => []
  | some value => if value = [] then [] else imagePath (slashes (trimBy isWhiteSpace value))

section Idempotent
variable {path : Str}

theorem ignoreCase_slash (s : Str) : ignoreCase (0x2F :: s) = 0x2F :: ignoreCase s := rfl

theorem not_isHttp_slash (s : Str) : ¬ IsHttp (0x2F :: s) := by
  simp [IsHttp, lit, ignoreCase_slash]

theorem not_isDataImage_slash (s : Str) : ¬ IsDataImage (0x2F :: s) := by
  simp [IsDataImage, lit, ignoreCase_slash]

theorem not_hasProtocol_slash (s : Str) : ¬ HasProtocol (0x2F :: s) := by
  have ha : isAsciiAlpha 0x2F = false := by decide
  simp [HasProtocol, ha]

theorem imagePath_imgs {s : Str} (hs : ¬ lit ".." <:+: s) :
    imagePath (lit "/imgs/" ++ s) = lit "/imgs/" ++ s := by
  have he : lit "/imgs/" ++ s = 0x2F :: (lit "imgs/" ++ s) := rfl
  have hdots : ¬ lit ".." <:+: lit "/imgs/" ++ s := by
    rw [show lit ".." = [0x2E, 0x2E] from rfl] at hs ⊢
    simp [lit, List.infix_cons_iff, hs]
  have hr : ¬ Refused (lit "/imgs/" ++ s) := by
    rintro (h | h | h)
    · simp [lit] at h
    · exact not_hasProtocol_slash _ (he ▸ h)
    · exact hdots h
  have hu : IsUnder (lit "/imgs/" ++ s) ["imgs"] := ⟨"imgs", by simp, s, rfl⟩
  rw [imagePath, if_neg (he ▸ not_isHttp_slash _), if_neg (he ▸ not_isDataImage_slash _),
    if_neg hr, if_pos hu]
  rfl

theorem infix_of_dropSlash {s : Str} (h : s <:+: dropSlash path) : s <:+: path := by
  cases path with
  | nil => exact h
  | cons c path =>
    by_cases hc : c = 0x2F
    · exact (by simpa [dropSlash, hc] using h : s <:+: path).trans (List.suffix_cons c path).isInfix
    · simpa [dropSlash, hc] using h

/-- Every way out of `imagePath` but the empty one is a fixed point. -/
theorem imagePath_imagePath (path : Str) :
    imagePath path = [] ∨ imagePath (imagePath path) = imagePath path := by
  by_cases hh : IsHttp path
  · exact Or.inr (by simp [imagePath, hh])
  by_cases hd : IsDataImage path
  · exact Or.inr (by simp [imagePath, hh, hd])
  by_cases hr : Refused path
  · exact Or.inl (by simp [imagePath, hh, hd, hr])
  have hdots : ¬ lit ".." <:+: path := fun h => hr (Or.inr (Or.inr h))
  have hdrop : ¬ lit ".." <:+: dropSlash path := fun h => hdots (infix_of_dropSlash h)
  right
  by_cases hi : IsUnder path ["imgs"]
  · have he : imagePath path = lit "/" ++ dropSlash path := by simp [imagePath, hh, hd, hr, hi]
    obtain ⟨dir, hdir, s, hs⟩ := hi
    obtain rfl : dir = "imgs" := by simpa using hdir
    have hs' : ¬ lit ".." <:+: s := fun h => hdrop (h.trans ⟨_, [], by rw [List.append_nil, hs]⟩)
    rw [he, ← hs]
    exact imagePath_imgs hs'
  by_cases hb : IsUnder path ["blogs", "icons", "shop", "types"]
  · simpa [imagePath, hh, hd, hr, hi, hb] using imagePath_imgs hdrop
  by_cases hs : lit "/" <+: path
  · simp [imagePath, hh, hd, hr, hi, hb, hs]
  · simpa [imagePath, hh, hd, hr, hi, hb, hs] using imagePath_imgs hdots

/-- What is neither padded nor written with backslashes. -/
def Tidy (s : Str) : Prop := Trimmed isWhiteSpace s ∧ 0x5C ∉ s

theorem tidy_slashes_trim (s : Str) : Tidy (slashes (trimBy isWhiteSpace s)) := by
  have hw : ∀ c, isWhiteSpace c = false → isWhiteSpace (if c = 0x5C then 0x2F else c) = false := by
    intro c hc
    split
    · decide
    · exact hc
  obtain ⟨hh, hl⟩ := trimBy_trimmed isWhiteSpace s
  refine ⟨⟨?_, ?_⟩, ?_⟩
  · intro c hc
    obtain ⟨d, hd, rfl⟩ := by simpa [slashes] using hc
    exact hw d (hh d hd)
  · intro c hc
    obtain ⟨d, hd, rfl⟩ := by simpa [slashes] using hc
    exact hw d (hl d hd)
  · intro hm
    obtain ⟨d, -, hd⟩ := List.mem_map.mp hm
    split at hd
    · exact absurd hd (by decide)
    · next hne => exact hne hd

theorem Tidy.imageUrl {s : Str} (h : Tidy s) (hs : s ≠ []) : imageUrl (some s) = imagePath s := by
  simp [Frontend.imageUrl, hs, h.1.trimBy_eq, slashes_eq h.2]

theorem Tidy.dropSlash {s : Str} (h : Tidy s) :
    (∀ c ∈ (dropSlash s).getLast?, isWhiteSpace c = false) ∧ 0x5C ∉ dropSlash s := by
  cases s with
  | nil => simp [Frontend.dropSlash]
  | cons c s =>
    have hb : 0x5C ∉ c :: s := h.2
    by_cases hc : c = 0x2F
    · refine ⟨?_, by simpa [Frontend.dropSlash, hc] using hb⟩
      intro d hd
      have hl : s.getLast? = some d := by simpa [Frontend.dropSlash, hc] using hd
      exact h.1.2 d (by simp [List.getLast?_cons, hl])
    · rw [Frontend.dropSlash, if_neg hc]
      exact ⟨h.1.2, hb⟩

theorem tidy_append {s t : Str} (hs : Tidy s) (hne : s ≠ [])
    (ht : (∀ c ∈ t.getLast?, isWhiteSpace c = false) ∧ 0x5C ∉ t) : Tidy (s ++ t) := by
  refine ⟨⟨?_, ?_⟩, by simp [hs.2, ht.2]⟩
  · intro c hc
    exact hs.1.1 c (by rwa [List.head?_append_of_ne_nil s hne] at hc)
  · intro c hc
    rw [List.getLast?_append] at hc
    cases hl : t.getLast? with
    | none => exact hs.1.2 c (by simpa [hl] using hc)
    | some d => exact ht.1 c (by simpa [hl] using hc)

theorem tidy_imagePath {path : Str} (h : Tidy path) :
    imagePath path = [] ∨ Tidy (imagePath path) := by
  have hslash : Tidy (lit "/") := by
    refine ⟨⟨?_, ?_⟩, by decide⟩ <;> rintro c ⟨⟩ <;> decide
  have himgs : Tidy (lit "/imgs/") := by
    refine ⟨⟨?_, ?_⟩, by decide⟩ <;> rintro c ⟨⟩ <;> decide
  unfold imagePath
  split_ifs
  · exact Or.inr h
  · exact Or.inr h
  · exact Or.inl rfl
  · exact Or.inr (tidy_append hslash (by decide) h.dropSlash)
  · exact Or.inr (tidy_append himgs (by decide) h.dropSlash)
  · exact Or.inr h
  · exact Or.inr (tidy_append himgs (by decide) ⟨h.1.2, h.2⟩)

/-- What `util.imageUrl` makes it leaves as it is. -/
theorem imageUrl_imageUrl (value : Option Str) : imageUrl (some (imageUrl value)) = imageUrl value := by
  have hpath : ∀ path, Tidy path → imageUrl (some (imagePath path)) = imagePath path := by
    intro path hp
    by_cases hne : imagePath path = []
    · simp [imageUrl, hne]
    · rw [((tidy_imagePath hp).resolve_left hne).imageUrl hne]
      exact (imagePath_imagePath path).resolve_left hne
  cases value with
  | none => rfl
  | some v =>
    by_cases hv : v = []
    · simp [imageUrl, hv]
    · have he : imageUrl (some v) = imagePath (slashes (trimBy isWhiteSpace v)) := by
        simp [imageUrl, hv]
      rw [he]
      exact hpath _ (tidy_slashes_trim v)

end Idempotent

def imageListOf (list : List Str) : List Str :=
  (list.map fun item => imageUrl (some item)).filter fun src => src ≠ []

def imageList (value : Option Str) : List Str := imageListOf ((value.getD []).splitOn 0x2C)

def join (list : List Str) : Str := List.intercalate [0x2C] list

section Lists
variable {list : List Str}

theorem imageListOf_eq (h : ∀ src ∈ list, src ≠ [] ∧ imageUrl (some src) = src) :
    imageListOf list = list := by
  have hmap : list.map (fun item => imageUrl (some item)) = list := by
    rw [List.map_congr_left fun src hsrc => (h src hsrc).2, List.map_id']
  rw [imageListOf, hmap, List.filter_eq_self]
  exact fun src hsrc => decide_eq_true (h src hsrc).1

/-- Addresses without commas are read back as they were joined. -/
theorem imageList_join (h : ∀ src ∈ list, src ≠ [] ∧ imageUrl (some src) = src)
    (hcomma : ∀ src ∈ list, 0x2C ∉ src) : imageList (some (join list)) = list := by
  by_cases hlist : list = []
  · subst hlist
    decide
  · rw [imageList, Option.getD_some, join, List.splitOn_intercalate _ hcomma hlist, imageListOf_eq h]

end Lists

end HmDianPing.Frontend
