import HmDianPing.Text.Decimal
import HmDianPing.Upload.BlogImages

/-! # The files of the uploader

What an upload and a deletion do to the files, and which file a name that the
uploader answered stands for.
-/
namespace HmDianPing.Upload
open Text Frontend

section Files
variable (files : Files) (path : Path)

/-- A plain file stands where `mkdirs` wants a directory. -/
def Blocked : Prop := ∃ dir ∈ path.inits, files dir = some .file

instance : Decidable (Blocked files path) := inferInstanceAs (Decidable (∃ _ ∈ _, _))

def mkdirs : Files := fun dir =>
  if ¬ Blocked files path ∧ dir <+: path ∧ files dir = none then some .directory else files dir

def transferTo : Option Files :=
  if (∀ dir ∈ path.dropLast.inits, files dir = some .directory) ∧ files path ≠ some .directory then
    some (Function.update files path (some .file))
  else none

end Files

def serverError : String := "服务器异常"

/-- `uploadImage` with what it does to the files; `works` is whether the disk does. -/
def receiveImage (files : Files) (root : Path) (uuid : UUID) (image : MultipartFile) (works : Bool) :
    Files × Except String Str :=
  match uploadImage root uuid image with
  | .error errorMsg => (files, .error errorMsg)
  | .ok (fileName, path) =>
    let made := mkdirs files (normalize path).dropLast
    match if works then transferTo made (normalize path) else none with
    | some files => (files, .ok fileName)
    | none => (made, .error serverError)

/-- `deleteBlogImg` with what it does to the files. -/
def removeImage (files : Files) (root : Path) (filename : Str) (works : Bool) :
    Files × Except String Unit :=
  match deleteBlogImg files root (some filename) with
  | .invalidPath => (files, .error serverError)
  | .fail errorMsg => (files, .error errorMsg)
  | .ok none => (files, .ok ())
  | .ok (some path) =>
    if works then (Function.update files path none, .ok ()) else (files, .error serverError)

/-- The path under which the image of that name is written. -/
def fileOf (root : Path) (fileName : Str) : Path :=
  normalize (root ++ names (trimLeadingSlash (some fileName)))

/-- What `deleteBlogImg` takes the name for. -/
def targetOf (root : Path) (filename : Str) : Path :=
  resolve (normalize root) (relativeName (some filename))

/-- A name that the uploader makes of this UUID. -/
def IsImageName (uuid : UUID) (fileName : Str) : Prop :=
  ∃ originalFilename suffix, subAfterDot originalFilename = some suffix ∧ IsImageSuffix suffix ∧
    fileName = createNewFileName originalFilename uuid

section Names
variable {root : Path} {uuid uuid' : UUID} {fileName fileName' : Str}

theorem IsImageName.shape (h : IsImageName uuid fileName) :
    ∃ d1 d2 suffix, IsWord d1 ∧ IsWord d2 ∧ IsWord suffix ∧
      fileName = 0x2F :: imageName d1 d2 uuid.toStr suffix := by
  obtain ⟨originalFilename, suffix, hsuffix, himage, rfl⟩ := h
  obtain ⟨d1, d2, h1, h2, heq⟩ := createNewFileName_eq hsuffix uuid
  exact ⟨d1, d2, suffix, h1, h2, himage.isWord, heq⟩

theorem IsImageName.fileOf_eq (h : IsImageName uuid fileName) (root : Path) :
    ∃ d1 d2 suffix, fileOf root fileName =
      blogsOf root ++ [d1, d2, uuid.toStr ++ 0x2E :: suffix] := by
  obtain ⟨d1, d2, suffix, h1, h2, hs, rfl⟩ := h.shape
  have hn := toStr_isWord uuid
  have ht : trimLeadingSlash (some (0x2F :: imageName d1 d2 uuid.toStr suffix)) =
      imageName d1 d2 uuid.toStr suffix := rfl
  refine ⟨d1, d2, suffix, ?_⟩
  rw [fileOf, ht, normalize_append_plain (plain_names_imageName h1 h2 hn hs),
    names_imageName h1 h2 hn hs, blogsOf_eq, List.append_assoc]
  rfl

theorem IsImageName.fileOf_inj (h : IsImageName uuid fileName) (h' : IsImageName uuid' fileName')
    (heq : fileOf root fileName = fileOf root fileName') : uuid = uuid' := by
  obtain ⟨d1, d2, suffix, hf⟩ := h.fileOf_eq root
  obtain ⟨d1', d2', suffix', hf'⟩ := h'.fileOf_eq root
  have hname : uuid.toStr ++ 0x2E :: suffix = uuid'.toStr ++ 0x2E :: suffix' := by
    have := hf.symm.trans (heq.trans hf')
    simp at this
    exact this.2.2
  have hdot : ∀ u : UUID, (0x2E : UInt16) ∉ u.toStr := fun u => (toStr_isWord u).not_mem (by decide)
  exact UUID.toStr_inj (append_cons_inj (hdot uuid) (hdot uuid') hname).1

/-- The address of an image on the site. -/
theorem IsImageName.imageUrl (h : IsImageName uuid fileName) :
    imageUrl (some fileName) = lit "/imgs" ++ fileName := by
  obtain ⟨d1, d2, suffix, h1, h2, hs, rfl⟩ := h.shape
  rw [imageUrl_imageName h1 h2 (toStr_isWord uuid) hs]
  rfl

theorem IsImageName.targetOf_imageUrl (h : IsImageName uuid fileName) (root : Path) :
    targetOf root (Frontend.imageUrl (some fileName)) = fileOf root fileName := by
  obtain ⟨d1, d2, suffix, h1, h2, hs, rfl⟩ := h.shape
  have hn := toStr_isWord uuid
  have hpl := plain_names_imageName h1 h2 hn hs
  have hslash : ¬ lit "/" <+: imageName d1 d2 uuid.toStr suffix := by
    simp [imageName, lit]
  have ht : trimLeadingSlash (some (0x2F :: imageName d1 d2 uuid.toStr suffix)) =
      imageName d1 d2 uuid.toStr suffix := rfl
  rw [targetOf, imageUrl_imageName h1 h2 hn hs, relativeName_imgs h1 h2 hn hs, resolve, if_neg hslash,
    fileOf, ht, normalize_append_plain hpl, normalize_append_plain hpl, normalize_normalize]

theorem IsImageName.comma (h : IsImageName uuid fileName) :
    (0x2C : UInt16) ∉ Frontend.imageUrl (some fileName) := by
  rw [h.imageUrl]
  obtain ⟨d1, d2, suffix, h1, h2, hs, rfl⟩ := h.shape
  have himgs : (0x2C : UInt16) ∉ lit "/imgs" := by decide
  simp only [List.mem_append, List.mem_cons, not_or]
  refine ⟨himgs, by decide, fun hc => ?_⟩
  rcases of_mem_imageName h1 h2 (toStr_isWord uuid) hs hc with h | h | h
  · exact absurd h (by decide)
  · exact absurd h (by decide)
  · exact absurd h (by decide)

theorem length_repr : ∀ n < 16, (lit (toString n)).length ≤ 2 := by decide

theorem IsImageSuffix.length_le {suffix : Str} (h : IsImageSuffix suffix) : suffix.length ≤ 4 := by
  have hall : ∀ t ∈ ["jpg", "jpeg", "png", "gif", "webp"].map lit, t.length ≤ 4 := by decide
  simpa [ignoreCase] using hall _ h

theorem IsImageName.length_imageUrl (h : IsImageName uuid fileName) :
    (Frontend.imageUrl (some fileName)).length ≤ 59 := by
  rw [h.imageUrl]
  obtain ⟨originalFilename, suffix, hsuffix, himage, rfl⟩ := h
  have h1 := length_repr _ (nibble_lt (hashCode uuid.toStr))
  have h2 := length_repr _ (nibble_lt (hashCode uuid.toStr >>> 4))
  have h3 := himage.length_le
  have hone : (lit "/").length = 1 ∧ (lit ".").length = 1 ∧ (lit "-").length = 1 ∧
      (lit "blogs/").length = 6 ∧ (lit "/imgs").length = 5 := by decide
  simp only [createNewFileName, hsuffix, Option.getD_some, UUID.toStr, List.length_append,
    UUID.length_digits, hone] at h1 h2 ⊢
  omega

end Names

section Effects
variable {files : Files} {root path : Path} {uuid : UUID} {image : MultipartFile} {works : Bool}

theorem mkdirs_file (h : files path = some .file) (dir : Path) : mkdirs files dir path = some .file := by
  simp [mkdirs, h]

theorem transferTo_eq {made : Files} (h : transferTo files path = some made) :
    made = Function.update files path (some .file) := by
  simp only [transferTo, Option.ite_none_right_eq_some, Option.some.injEq] at h
  exact h.2.symm

theorem receiveImage_keeps (h : files path = some .file) :
    (receiveImage files root uuid image works).1 path = some .file := by
  unfold receiveImage
  cases uploadImage root uuid image with
  | error errorMsg => exact h
  | ok written =>
    have hmade := mkdirs_file h (normalize written.2).dropLast
    simp only
    split
    · next made hmoved =>
      obtain ⟨-, hmoved⟩ := Option.ite_none_right_eq_some.mp hmoved
      simp only [transferTo_eq hmoved, Function.update_apply, hmade, ite_self]
    · exact hmade

theorem receiveImage_ok {fileName : Str}
    (h : (receiveImage files root uuid image works).2 = .ok fileName) :
    IsImageName uuid fileName ∧
      (receiveImage files root uuid image works).1 (fileOf root fileName) = some .file := by
  unfold receiveImage at h ⊢
  cases hup : uploadImage root uuid image with
  | error errorMsg => simp [hup] at h
  | ok written =>
    obtain ⟨name, path⟩ := written
    obtain ⟨suffix, hsuffix, himage, rfl, rfl⟩ := uploadImage_ok hup
    simp only [hup] at h ⊢
    split at h
    · next made hmoved =>
      obtain ⟨-, hmoved⟩ := Option.ite_none_right_eq_some.mp hmoved
      simp only [Except.ok.injEq] at h
      subst h
      exact ⟨⟨_, suffix, hsuffix, himage, rfl⟩, by rw [transferTo_eq hmoved]; exact Function.update_self ..⟩
    · simp at h

/-- A deletion takes away at most the file that its name stands for. -/
theorem removeImage_keeps {filename : Str} (h : files path = some .file)
    (hne : path ≠ targetOf root filename) :
    (removeImage files root filename works).1 path = some .file := by
  unfold removeImage
  split
  · exact h
  · exact h
  · exact h
  · next deleted hdel =>
    obtain ⟨-, -, htarget, -, -⟩ := deleteBlogImg_deletes_iff.mp hdel
    cases works with
    | false => exact h
    | true =>
      have hpath : path ≠ deleted := fun he => hne (he.trans htarget.symm)
      simpa [Function.update_of_ne hpath] using h

end Effects

end HmDianPing.Upload
