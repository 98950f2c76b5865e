import HmDianPing.Frontend.ImageUrl
import HmDianPing.Text.Paths
import HmDianPing.Text.Uuid
import Mathlib.Algebra.GroupWithZero.Nat
import Mathlib.Data.List.Count

/-! # Images of notes

`UploadController` stores an image under a name of its own making and deletes the
image whose name it is sent.
-/
namespace HmDianPing.Upload
open Text Frontend

inductive FileKind where
  | directory | file
deriving DecidableEq

abbrev Files := Path → Option FileKind

def hashCode (s : Str) : UInt32 := s.foldl (fun h c => 31 * h + c.toUInt32) 0

/-- `StrUtil.subAfter(string, ".", true)`. -/
def subAfterDot : Option Str → Option Str
  | none => none
  | some s => some (if 0x2E ∈ s then s.rtakeWhile fun c => c ≠ 0x2E else [])

structure MultipartFile where
  originalFilename : Option Str
  size : ℕ

def trimLeadingSlash (path : Option Str) : Str :=
  (path.getD []).dropWhile fun c => c = 0x2F ∨ c = 0x5C

def createNewFileName (originalFilename : Option Str) (uuid : UUID) : Str :=
  let suffix := subAfterDot originalFilename
  let name := uuid.toStr
  let hash := hashCode name
  let d1 := hash &&& 0xF
  -- the sign bits that `>>` moves in are masked out
  let d2 := (hash >>> 4) &&& 0xF
  let relativeDir := lit "blogs/" ++ lit (toString d1.toNat) ++ lit "/" ++ lit (toString d2.toNat)
  lit "/" ++ relativeDir ++ lit "/" ++ name ++ lit "." ++ suffix.getD (lit "null")

/-- The suffixes of images; outside ASCII no character has one of these letters as its
lower case. -/
def IsImageSuffix (suffix : Str) : Prop :=
  ignoreCase suffix ∈ ["jpg", "jpeg", "png", "gif", "webp"].map lit

instance : DecidablePred IsImageSuffix := fun _ => inferInstanceAs (Decidable (_ ∈ _))

/-- The name that is answered and the path of the file that is written. -/
def uploadImage (root : Path) (uuid : UUID) (image : MultipartFile) : Except String (Str × Path) := do
  if image.size = 0 then
    throw "请选择图片文件"
  if image.size > 5 * 1024 * 1024 then
    throw "图片不能超过5MB"
  match subAfterDot image.originalFilename with
  | none => throw "仅支持JPG、PNG、GIF、WebP图片"
  | some suffix =>
    if ¬ IsImageSuffix suffix then
      throw "仅支持JPG、PNG、GIF、WebP图片"
    let fileName := createNewFileName image.originalFilename uuid
    return (fileName, root ++ names (trimLeadingSlash (some fileName)))

def isHighSurrogate (c : UInt16) : Bool := inRange 0xD800 0xDBFF c

def isLowSurrogate (c : UInt16) : Bool := inRange 0xDC00 0xDFFF c

/-- What can be the text of a path: no NUL, and the surrogates come in pairs. -/
def isPathText : Str → Bool
  | [] => true
  | [c] => c ≠ 0 && !isHighSurrogate c && !isLowSurrogate c
  | c :: d :: s =>
    if isHighSurrogate c then isLowSurrogate d && isPathText s
    else c ≠ 0 && !isLowSurrogate c && isPathText (d :: s)

/-- `root.resolve(name).normalize()`. -/
def resolve (root : Path) (name : Str) : Path :=
  normalize (if lit "/" <+: name then names name else root ++ names name)

/-- The name below the root that a request is about. -/
def relativeName (filename : Option Str) : Str :=
  let name := trimLeadingSlash filename
  slashes (if lit "imgs/" <+: name then name.drop 5 else name)

/-- What a request ends with, and the path that `FileUtil.del` deletes if it exists. -/
inductive Deletion where
  | invalidPath
  | fail (errorMsg : String)
  | ok (deleted : Option Path)
deriving DecidableEq

def deleteBlogImg (files : Files) (root : Path) (filename : Option Str) : Deletion :=
  let name := relativeName filename
  if ¬ isPathText name then .invalidPath
  else
    let target := resolve (normalize root) name
    if ¬ lit "blogs/" <+: name ∨ ¬ normalize root ++ [lit "blogs"] <+: target then
      .fail "错误的文件名称"
    else if files target = some .directory then .fail "错误的文件名称"
    else .ok (if files target = none then none else some target)

section Confinement
variable {files : Files} {root : Path} {filename : Option Str} {path : Path}

/-- The directory `blogs` of the root. -/
def blogsOf (root : Path) : Path := normalize (root ++ [lit "blogs"])

theorem blogsOf_eq (root : Path) : blogsOf root = normalize root ++ [lit "blogs"] :=
  normalize_append_plain fun name hn => by
    obtain rfl := List.mem_singleton.mp hn
    decide

/-- The name passes the checks on its text and comes down to `blogs` itself. -/
def NamesBlogs (root : Path) (filename : Option Str) : Prop :=
  isPathText (relativeName filename) ∧ lit "blogs/" <+: relativeName filename ∧
    resolve (normalize root) (relativeName filename) = blogsOf root

theorem deleteBlogImg_deletes_iff :
    deleteBlogImg files root filename = .ok (some path) ↔
      isPathText (relativeName filename) ∧ lit "blogs/" <+: relativeName filename ∧
        resolve (normalize root) (relativeName filename) = path ∧ blogsOf root <+: path ∧
        files path = some .file := by
  rw [blogsOf_eq, deleteBlogImg]
  by_cases ht : isPathText (relativeName filename) = true
  · by_cases hb : lit "blogs/" <+: relativeName filename
    · by_cases hr : normalize root ++ [lit "blogs"] <+: resolve (normalize root) (relativeName filename)
      · rcases hf : files (resolve (normalize root) (relativeName filename)) with _ | (_ | _)
        all_goals simp [ht, hb, hr, hf]
        all_goals rintro rfl
        all_goals simp [hf, hr]
      · simp [ht, hb, hr]
        rintro rfl h
        exact absurd h hr
    · simp [ht, hb]
  · simp [ht]

theorem normalize_resolve (root : Path) (name : Str) :
    normalize (resolve root name) = resolve root name :=
  normalize_normalize _

/-- A request deletes nothing outside `blogs`, and `blogs` itself only where that is a
plain file. -/
theorem deleteBlogImg_strictlyInside_iff (files : Files) (root : Path) (filename : Option Str) :
    (∀ path, deleteBlogImg files root filename = .ok (some path) →
      StrictlyInside (blogsOf root) (normalize path)) ↔
    ¬ (NamesBlogs root filename ∧ files (blogsOf root) = some .file) := by
  constructor
  · rintro h ⟨⟨ht, hb, hr⟩, hf⟩
    have hd : deleteBlogImg files root filename = .ok (some (blogsOf root)) :=
      deleteBlogImg_deletes_iff.mpr ⟨ht, hb, hr, List.prefix_rfl, hf⟩
    exact (h _ hd).2 (normalize_normalize _)
  · intro h path hd
    obtain ⟨ht, hb, hr, hin, hf⟩ := deleteBlogImg_deletes_iff.mp hd
    rw [← hr, normalize_resolve, hr]
    exact ⟨hin, fun he => h ⟨⟨ht, hb, hr.trans he⟩, he ▸ hf⟩⟩

end Confinement

/-- What the pieces of an image's name are made of. -/
def isWordChar (c : UInt16) : Bool := isAsciiAlpha c || inRange 0x30 0x39 c || c = 0x2D

def IsWord (s : Str) : Prop := s ≠ [] ∧ s.all isWordChar

instance : DecidablePred IsWord := fun _ => inferInstanceAs (Decidable (_ ∧ _))

section Words
variable {s t : Str}

theorem IsWord.isWordChar (hs : IsWord s) {c : UInt16} (hc : c ∈ s) : isWordChar c = true :=
  List.all_eq_true.mp hs.2 c hc

theorem IsWord.not_mem (hs : IsWord s) {c : UInt16} (hc : Upload.isWordChar c = false) : c ∉ s := by
  intro hm
  have h := hs.isWordChar hm
  simp [hc] at h

theorem toStr_isWord (u : UUID) : IsWord u.toStr := by
  have hdigit : ∀ d < 16, isWordChar (UUID.hexDigit d) = true := by decide
  refine ⟨by simp [UUID.toStr, show lit "-" ≠ [] by decide], List.all_eq_true.mpr fun c hc => ?_⟩
  obtain rfl | ⟨d, hd, rfl⟩ := UUID.exists_of_mem_toStr hc
  · rfl
  · exact hdigit d hd

theorem repr_isWord : ∀ n < 16, IsWord (lit (toString n)) := by decide

theorem nibble_lt (h : UInt32) : (h &&& 0xF).toNat < 16 := by
  rw [UInt32.toNat_and]
  exact lt_of_le_of_lt Nat.and_le_right (by decide)

theorem isWordChar_of_ignoreCase {c : UInt16}
    (h : isAsciiAlpha (if inRange 0x41 0x5A c then c + 0x20 else c) = true) : isWordChar c = true := by
  split at h
  · next hc => simp [isWordChar, isAsciiAlpha, hc]
  · simp [isWordChar, h]

theorem IsImageSuffix.isWord (h : IsImageSuffix s) : IsWord s := by
  have hl : ∀ t ∈ ["jpg", "jpeg", "png", "gif", "webp"].map lit, t ≠ [] ∧ t.all isAsciiAlpha = true := by
    decide
  obtain ⟨hne, hall⟩ := hl _ h
  rw [ignoreCase, List.all_map, List.all_eq_true] at hall
  refine ⟨fun hs => hne (by simp [hs, ignoreCase]), List.all_eq_true.mpr ?_⟩
  exact fun c hm => isWordChar_of_ignoreCase (hall c hm)

theorem isPathText_of_forall (h : ∀ c ∈ s, c ≠ 0 ∧ isHighSurrogate c = false ∧ isLowSurrogate c = false) :
    isPathText s = true := by
  fun_induction isPathText s with
  | case1 => rfl
  | case2 c => simpa [and_assoc] using h c
  | case3 c d s hc => simp [hc] at h
  | case4 c d s hc ih =>
    obtain ⟨h0, -, hl⟩ := h c (by simp)
    simp [h0, hl, ih fun e he => h e (List.mem_cons_of_mem _ he)]

theorem isWordChar_lt {c : UInt16} (h : isWordChar c) : 0x2D ≤ c.toNat ∧ c.toNat < 0x80 := by
  have h' : ((0x41 ≤ c.toNat ∧ c.toNat ≤ 0x5A ∨ 0x61 ≤ c.toNat ∧ c.toNat ≤ 0x7A) ∨
      0x30 ≤ c.toNat ∧ c.toNat ≤ 0x39) ∨ c.toNat = 0x2D := by
    simpa [isWordChar, isAsciiAlpha, inRange, ← UInt16.toNat_inj] using h
  omega

theorem not_surrogate {c : UInt16} (h : 0x2D ≤ c.toNat ∧ c.toNat < 0x80) :
    c ≠ 0 ∧ isHighSurrogate c = false ∧ isLowSurrogate c = false := by
  refine ⟨fun hc => ?_, ?_, ?_⟩
  · subst hc
    exact absurd h.1 (by decide)
  · simp [isHighSurrogate, inRange]
    omega
  · simp [isLowSurrogate, inRange]
    omega

theorem not_isWhiteSpace {c : UInt16} (h : 0x2D ≤ c.toNat ∧ c.toNat < 0x80) :
    isWhiteSpace c = false := by
  simp [isWhiteSpace, inRange, ← UInt16.toNat_inj]
  omega

end Words

/-- `blogs/d1/d2/name.suffix`. -/
def imageName (d1 d2 name suffix : Str) : Str :=
  lit "blogs" ++ 0x2F :: (d1 ++ 0x2F :: (d2 ++ 0x2F :: (name ++ 0x2E :: suffix)))

section Names
variable {d1 d2 name suffix : Str} (h1 : IsWord d1) (h2 : IsWord d2) (hn : IsWord name)
  (hs : IsWord suffix)

include h1 h2 hn hs

theorem of_mem_imageName {c : UInt16} (hc : c ∈ imageName d1 d2 name suffix) :
    isWordChar c ∨ c = 0x2F ∨ c = 0x2E := by
  have hb : IsWord (lit "blogs") := by decide
  simp only [imageName, List.mem_append, List.mem_cons] at hc
  rcases hc with h | h | h | h | h | h | h | h | h
  · exact Or.inl (hb.isWordChar h)
  · exact Or.inr (Or.inl h)
  · exact Or.inl (h1.isWordChar h)
  · exact Or.inr (Or.inl h)
  · exact Or.inl (h2.isWordChar h)
  · exact Or.inr (Or.inl h)
  · exact Or.inl (hn.isWordChar h)
  · exact Or.inr (Or.inr h)
  · exact Or.inl (hs.isWordChar h)

theorem imageName_backslash : 0x5C ∉ imageName d1 d2 name suffix := by
  intro h
  rcases of_mem_imageName h1 h2 hn hs h with h | h | h <;> exact absurd h (by decide)

theorem imageName_range {c : UInt16} (hc : c ∈ imageName d1 d2 name suffix) :
    0x2D ≤ c.toNat ∧ c.toNat < 0x80 := by
  rcases of_mem_imageName h1 h2 hn hs hc with h | rfl | rfl
  · exact isWordChar_lt h
  · decide
  · decide

theorem imageName_isPathText : isPathText (imageName d1 d2 name suffix) = true :=
  isPathText_of_forall fun _ hc => not_surrogate (imageName_range h1 h2 hn hs hc)

theorem names_imageName :
    names (imageName d1 d2 name suffix) = [lit "blogs", d1, d2, name ++ 0x2E :: suffix] := by
  have hslash : (0x2F : UInt16) ∉ name ++ 0x2E :: suffix := by
    simp [hn.not_mem (c := 0x2F) (by decide), hs.not_mem (c := 0x2F) (by decide)]
  rw [imageName, names_append_slash, names_append_slash, names_append_slash,
    names_singleton (by decide) (by decide), names_singleton h1.1 (h1.not_mem (by decide)),
    names_singleton h2.1 (h2.not_mem (by decide)), names_singleton (by simp) hslash]
  rfl

theorem plain_names_imageName : ∀ n ∈ names (imageName d1 d2 name suffix), Plain n := by
  have hword : ∀ {w : Str}, IsWord w → Plain w := by
    intro w hw
    exact ⟨fun h => hw.not_mem (c := 0x2E) (by decide) (by simp [h, lit]),
      fun h => hw.not_mem (c := 0x2E) (by decide) (by simp [h, lit])⟩
  have hfile : Plain (name ++ 0x2E :: suffix) := by
    obtain ⟨c, w, rfl⟩ := List.exists_cons_of_ne_nil hn.1
    have hc : c ≠ 0x2E := by
      rintro rfl
      exact absurd (hn.isWordChar List.mem_cons_self) (by decide)
    have hdot : lit "." = [0x2E] := rfl
    have hdots : lit ".." = [0x2E, 0x2E] := rfl
    simp [Plain, hdot, hdots, hc]
  rw [names_imageName h1 h2 hn hs]
  simp only [List.mem_cons, List.not_mem_nil, or_false, forall_eq_or_imp, forall_eq]
  exact ⟨by decide, hword h1, hword h2, hfile⟩

theorem relativeName_imageName :
    relativeName (some (0x2F :: imageName d1 d2 name suffix)) = imageName d1 d2 name suffix := by
  have hp : ¬ lit "imgs/" <+: imageName d1 d2 name suffix := by
    simp [imageName, lit]
  have ht : trimLeadingSlash (some (0x2F :: imageName d1 d2 name suffix)) =
      imageName d1 d2 name suffix := rfl
  rw [relativeName, ht, if_neg hp, slashes_eq (imageName_backslash h1 h2 hn hs)]

theorem relativeName_imgs :
    relativeName (some (lit "/imgs/" ++ imageName d1 d2 name suffix)) =
      imageName d1 d2 name suffix := by
  have ht : trimLeadingSlash (some (lit "/imgs/" ++ imageName d1 d2 name suffix)) =
      lit "imgs/" ++ imageName d1 d2 name suffix := rfl
  rw [relativeName, ht, if_pos (List.prefix_append _ _)]
  exact slashes_eq (imageName_backslash h1 h2 hn hs)

theorem imageName_dots : ¬ lit ".." <:+: imageName d1 d2 name suffix := by
  intro h
  have hc := h.sublist.count_le 0x2E
  have hz : ∀ {w : Str}, IsWord w → w.count 0x2E = 0 := fun hw =>
    List.count_eq_zero.mpr (hw.not_mem (by decide))
  have hb : (lit "blogs").count 0x2E = 0 := by decide
  have h2' : (lit "..").count 0x2E = 2 := by decide
  simp [imageName, List.count_append, hb, hz h1, hz h2, hz hn, hz hs, h2'] at hc

/-- What the editor makes of the name it is answered. -/
theorem imageUrl_imageName :
    imageUrl (some (0x2F :: imageName d1 d2 name suffix)) =
      lit "/imgs/" ++ imageName d1 d2 name suffix := by
  have hb := imageName_backslash h1 h2 hn hs
  have hws : ∀ c ∈ 0x2F :: imageName d1 d2 name suffix, isWhiteSpace c = false := by
    intro c hc
    rcases List.mem_cons.mp hc with rfl | hc
    · decide
    · exact not_isWhiteSpace (imageName_range h1 h2 hn hs hc)
  have ht : Tidy (0x2F :: imageName d1 d2 name suffix) :=
    ⟨⟨fun c hc => hws c (List.mem_of_mem_head? hc), fun c hc => hws c (List.mem_of_getLast? hc)⟩,
      by simpa using hb⟩
  have hdots : ¬ lit ".." <:+: 0x2F :: imageName d1 d2 name suffix := by
    rw [List.infix_cons_iff]
    rintro (h | h)
    · simp [lit] at h
    · exact imageName_dots h1 h2 hn hs h
  have hr : ¬ Refused (0x2F :: imageName d1 d2 name suffix) := by
    rintro (h | h | h)
    · simp [lit, imageName] at h
    · exact not_hasProtocol_slash _ h
    · exact hdots h
  have hi : ¬ IsUnder (0x2F :: imageName d1 d2 name suffix) ["imgs"] := by
    simp [IsUnder, dropSlash, imageName, lit]
  have hu : IsUnder (0x2F :: imageName d1 d2 name suffix) ["blogs", "icons", "shop", "types"] :=
    ⟨"blogs", by simp, _, by rw [List.append_assoc]; rfl⟩
  rw [ht.imageUrl (by simp), imagePath, if_neg (not_isHttp_slash _), if_neg (not_isDataImage_slash _),
    if_neg hr, if_neg hi, if_pos hu]
  rfl

/-- Both names under which the editor knows the image are those of the file. -/
theorem deleteBlogImg_imageName {files : Files} {root : Path}
    (hf : files (normalize (root ++ names (imageName d1 d2 name suffix))) = some .file)
    {filename : Str} (hr : relativeName (some filename) = imageName d1 d2 name suffix) :
    deleteBlogImg files root (some filename) =
      .ok (some (normalize (root ++ names (imageName d1 d2 name suffix)))) := by
  have hpl := plain_names_imageName h1 h2 hn hs
  have hslash : ¬ lit "/" <+: imageName d1 d2 name suffix := by
    simp [imageName, lit]
  refine deleteBlogImg_deletes_iff.mpr ?_
  rw [hr]
  refine ⟨imageName_isPathText h1 h2 hn hs, ?_, ?_, ?_, hf⟩
  · exact ⟨_, by rw [imageName, show lit "blogs/" = lit "blogs" ++ [0x2F] from rfl, List.append_assoc]; rfl⟩
  · rw [resolve, if_neg hslash, normalize_append_plain hpl, normalize_append_plain hpl,
      normalize_normalize]
  · rw [normalize_append_plain hpl, blogsOf_eq, names_imageName h1 h2 hn hs]
    exact ⟨[d1, d2, name ++ 0x2E :: suffix], by simp⟩

end Names

theorem createNewFileName_eq {originalFilename : Option Str} {suffix : Str}
    (h : subAfterDot originalFilename = some suffix) (uuid : UUID) :
    ∃ d1 d2, IsWord d1 ∧ IsWord d2 ∧
      createNewFileName originalFilename uuid = 0x2F :: imageName d1 d2 uuid.toStr suffix := by
  refine ⟨_, _, repr_isWord _ (nibble_lt (hashCode uuid.toStr)),
    repr_isWord _ (nibble_lt (hashCode uuid.toStr >>> 4)), ?_⟩
  have hb : lit "blogs/" = lit "blogs" ++ [0x2F] := rfl
  have hs : lit "/" = [0x2F] := rfl
  have hd : lit "." = [0x2E] := rfl
  simp [createNewFileName, h, imageName, hb, hs, hd]

theorem uploadImage_ok {root : Path} {uuid : UUID} {image : MultipartFile} {fileName : Str}
    {path : Path} (h : uploadImage root uuid image = .ok (fileName, path)) :
    ∃ suffix, subAfterDot image.originalFilename = some suffix ∧ IsImageSuffix suffix ∧
      fileName = createNewFileName image.originalFilename uuid ∧
      path = root ++ names (trimLeadingSlash (some fileName)) := by
  unfold uploadImage at h
  by_cases h0 : image.size = 0
  · simp [h0] at h
    cases h
  by_cases h5 : image.size > 5 * 1024 * 1024
  · simp [h0, h5] at h
    cases h
  cases hs : subAfterDot image.originalFilename with
  | none => simp [h0, h5, hs] at h
  | some suffix =>
    by_cases hi : IsImageSuffix suffix
    · simp [h0, h5, hs, hi] at h
      cases h
      exact ⟨suffix, rfl, hi, rfl, rfl⟩
    · simp [h0, h5, hs, hi] at h
      cases h

/-- Nothing outside `blogs` is deleted unless the name comes down to a plain file that
stands in its place, and what was uploaded is deleted under both its names. -/
theorem deleteBlogImg_confined_iff (files : Files) (root : Path) :
    (∀ filename, (∀ path, deleteBlogImg files root filename = .ok (some path) →
        StrictlyInside (blogsOf root) (normalize path)) ↔
      ¬ (NamesBlogs root filename ∧ files (blogsOf root) = some .file)) ∧
    ∀ uuid image fileName path, uploadImage root uuid image = .ok (fileName, path) →
      files (normalize path) = some .file →
      ∀ name ∈ [fileName, imageUrl (some fileName)],
        deleteBlogImg files root (some name) = .ok (some (normalize path)) := by
  refine ⟨deleteBlogImg_strictlyInside_iff files root, ?_⟩
  intro uuid image fileName path hup hf name hname
  obtain ⟨suffix, hsuf, hi, rfl, rfl⟩ := uploadImage_ok hup
  obtain ⟨d1, d2, h1, h2, he⟩ := createNewFileName_eq hsuf uuid
  have hn := toStr_isWord uuid
  have hs := hi.isWord
  have ht : trimLeadingSlash (some (0x2F :: imageName d1 d2 uuid.toStr suffix)) =
      imageName d1 d2 uuid.toStr suffix := rfl
  rw [he, ht] at hf ⊢
  rw [he, imageUrl_imageName h1 h2 hn hs] at hname
  have hr : relativeName (some name) = imageName d1 d2 uuid.toStr suffix := by
    rcases (by simpa using hname : name = _ ∨ name = _) with rfl | rfl
    · exact relativeName_imageName h1 h2 hn hs
    · exact relativeName_imgs h1 h2 hn hs
  exact deleteBlogImg_imageName h1 h2 hn hs hf hr

/-- `blogs/.` where `blogs` is a plain file of the root `/r`. -/
theorem deleteBlogImg_deletes_blogs :
    ¬ ∀ (files : Files) (root : Path) (filename : Option Str) (path : Path),
      deleteBlogImg files root filename = .ok (some path) →
        StrictlyInside (blogsOf root) (normalize path) := by
  intro h
  have hd := h (fun path => if path = [lit "r", lit "blogs"] then some .file else none) [lit "r"]
    (some (lit "blogs/.")) [lit "r", lit "blogs"] (by decide)
  exact hd.2 (by decide)

end HmDianPing.Upload
