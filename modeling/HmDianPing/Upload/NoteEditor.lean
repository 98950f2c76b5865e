import HmDianPing.Upload.Storage
import Mathlib.Data.List.Nodup
import Mathlib.Data.List.Perm.Basic
import Mathlib.Logic.Function.Basic
import Mathlib.Logic.Relation

/-! # The editor of notes

Pages of `blog-edit.html` upload images, delete them again and publish notes, while
other clients of the site send whatever they like. Requests and their answers are on
their way for any time, and a page may give up a request that is carried out later.
-/
namespace HmDianPing.Upload
open Text Frontend

/-- A file that the author picks; `type` is the one the browser tells. -/
structure PickedFile where
  image : MultipartFile
  type : Str

/-- `/^image\/(jpeg|png|gif|webp)$/i`. -/
def IsImageType (type : Str) : Prop :=
  ignoreCase type ∈ ["image/jpeg", "image/png", "image/gif", "image/webp"].map lit

instance : DecidablePred IsImageType := fun _ => inferInstanceAs (Decidable (_ ∈ _))

structure Blog where
  title : Str
  content : Str
  images : Str
  shopId : ℤ

inductive Request where
  | upload (image : MultipartFile)
  | delete (name : Str)
  | publish (blog : Blog)

/-- The data of an answer, or the text of an error. -/
abbrev Answer := Except String (Option Str)

/-- The data of a page; `waiting` is what the loop of `fileSelected` has not come to. -/
structure Page where
  fileList : List Str := []
  title : Str := []
  content : Str := []
  selectedShop : Option ℤ := none
  uploading : Bool := false
  publishing : Bool := false
  waiting : List MultipartFile := []
  message : String := ""
  sent : List Request := []
  answers : List (Request × Answer) := []

/-- `list.splice(list.indexOf(src), 1)`; an index of -1 is that of the last element. -/
def spliceOut (list : List Str) (src : Str) : List Str :=
  if src ∈ list then list.erase src else list.dropLast

namespace Page
variable (p : Page)

def uploadNext : Page :=
  match p.waiting with
  | [] => { p with uploading := false }
  | image :: rest => { p with waiting := rest, sent := p.sent ++ [.upload image] }

def fileSelected (files : List PickedFile) : Page :=
  if files = [] ∨ p.uploading then p
  else if p.fileList.length + files.length > 9 then { p with message := "最多上传9张图片" }
  else if ∃ f ∈ files, ¬ IsImageType f.type then
    { p with message := "请选择 JPG、PNG、GIF 或 WebP 图片" }
  else if ∃ f ∈ files, f.image.size > 5 * 1024 * 1024 then { p with message := "每张图片不能超过5MB" }
  else { p with uploading := true, waiting := files.map PickedFile.image }.uploadNext

def deletePic (i : ℕ) : Page :=
  if p.uploading ∨ p.publishing then p
  else match p.fileList[i]? with
    | none => p
    | some src => { p with sent := p.sent ++ [.delete src] }

def submitBlog : Page :=
  if p.uploading ∨ p.publishing then p
  else if trimBy isWhiteSpace p.title = [] then { p with message := "请填写笔记标题" }
  else if trimBy isWhiteSpace p.content = [] ∧ p.fileList = [] then
    { p with message := "请填写正文或上传图片" }
  else
    let blog := ⟨trimBy isWhiteSpace p.title, trimBy isWhiteSpace p.content, join p.fileList,
      p.selectedShop.getD 0⟩
    { p with publishing := true, sent := p.sent ++ [.publish blog] }

/-- An error thrown in the loop of `fileSelected`. -/
def uploadFailed (error : String) : Page :=
  { p with message := error, uploading := false, waiting := [] }

/-- What a page does with the answer to a request. -/
def receive : Request → Answer → Page
  | .upload _, .ok data =>
    let src := imageUrl data
    if src = [] then p.uploadFailed "上传结果无效，请重试"
    else { p with fileList := p.fileList ++ [src] }.uploadNext
  | .upload _, .error e => p.uploadFailed e
  | .delete src, .ok _ => { p with fileList := spliceOut p.fileList src }
  | .delete _, .error e => { p with message := e }
  | .publish _, .ok _ => { p with publishing := false }
  | .publish _, .error e => { p with message := e, publishing := false }

end Page

inductive Gesture where
  | write (title content : Str) (selectedShop : Option ℤ)
  | select (files : List PickedFile)
  | delete (i : ℕ)
  | submit

def Page.act (p : Page) : Gesture → Page
  | .write title content selectedShop =>
    { p with title := title, content := content, selectedShop := selectedShop }
  | .select files => p.fileSelected files
  | .delete i => p.deletePic i
  | .submit => p.submitBlog

/-- The characters of a text as a column counts them; a pair of surrogates is one. -/
def characters : Str → ℕ
  | [] => 0
  | [_] => 1
  | c :: d :: s =>
    if isHighSurrogate c && isLowSurrogate d then characters s + 1 else characters (d :: s) + 1

/-- The columns of `tb_blog` hold the texts of the note. -/
def Blog.Fits (blog : Blog) : Prop :=
  characters blog.title ≤ 255 ∧ characters blog.images ≤ 2048 ∧ characters blog.content ≤ 2048

instance : DecidablePred Blog.Fits := fun _ => inferInstanceAs (Decidable (_ ∧ _ ∧ _))

/-- An image that has been stored; the sender is a page, or another client. -/
structure StoredImage where
  sender : Option ℕ
  uuid : UUID
  fileName : Str

/-- `deletions` are the names that deletions were asked for, by whom. -/
structure Site where
  files : Files
  pages : ℕ → Page
  stored : List StoredImage
  deletions : List (Option ℕ × Str)
  blogs : List (Option ℕ × Blog)
  /-- The requests that their pages have given up. -/
  abandoned : List (ℕ × Request)

namespace Site

/-- The uploader and `saveBlog`; `works` is whether the disk and the database do. -/
def handle (root : Path) (s : Site) (sender : Option ℕ) (uuid : UUID) (works : Bool) :
    Request → Site × Answer
  | .upload image =>
    match receiveImage s.files root uuid image works with
    | (files, .ok fileName) =>
      ({ s with files := files, stored := s.stored ++ [⟨sender, uuid, fileName⟩] },
        .ok (some fileName))
    | (files, .error e) => ({ s with files := files }, .error e)
  | .delete name =>
    let (files, answer) := removeImage s.files root name works
    ({ s with files := files, deletions := s.deletions ++ [(sender, name)] },
      answer.map fun _ => none)
  | .publish blog =>
    if works ∧ blog.Fits then ({ s with blogs := s.blogs ++ [(sender, blog)] }, .ok none)
    else (s, .error serverError)

def setPage (s : Site) (n : ℕ) (p : Page) : Site := { s with pages := Function.update s.pages n p }

inductive Action where
  | gesture (n : ℕ) (g : Gesture)
  /-- The server carries out a request of a page. -/
  | serve (n k : ℕ) (uuid : UUID) (works : Bool)
  /-- An answer comes to a page, or is lost with an error in its place. -/
  | answer (n k : ℕ) (lost : Option String)
  /-- A page gives a request up. -/
  | giveUp (n k : ℕ) (error : String)
  /-- The server carries out a request that was given up. -/
  | serveLate (k : ℕ) (uuid : UUID) (works : Bool)
  /-- The server carries out a request that no page sent. -/
  | other (request : Request) (uuid : UUID) (works : Bool)

/-- One step; a UUID is drawn once only. -/
def step (root : Path) (s : Site) : Action → Option Site
  | .gesture n g => some (s.setPage n ((s.pages n).act g))
  | .serve n k uuid works =>
    let p := s.pages n
    match p.sent[k]? with
    | some request =>
      if ∀ u ∈ s.stored, u.uuid ≠ uuid then
        let (s', answer) := s.handle root (some n) uuid works request
        some (s'.setPage n { p with
          sent := p.sent.eraseIdx k, answers := p.answers ++ [(request, answer)] })
      else none
    | none => none
  | .answer n k lost =>
    let p := s.pages n
    match p.answers[k]? with
    | some (request, answer) =>
      let received := match lost with | none => answer | some e => .error e
      some (s.setPage n ({ p with answers := p.answers.eraseIdx k }.receive request received))
    | none => none
  | .giveUp n k e =>
    let p := s.pages n
    match p.sent[k]? with
    | some request =>
      some ({ s with abandoned := s.abandoned ++ [(n, request)] }.setPage n
        ({ p with sent := p.sent.eraseIdx k }.receive request (.error e)))
    | none => none
  | .serveLate k uuid works =>
    match s.abandoned[k]? with
    | some (n, request) =>
      if ∀ u ∈ s.stored, u.uuid ≠ uuid then
        some ({ s with abandoned := s.abandoned.eraseIdx k }.handle root (some n) uuid works request).1
      else none
    | none => none
  | .other request uuid works =>
    if ∀ u ∈ s.stored, u.uuid ≠ uuid then some (s.handle root none uuid works request).1 else none

def opened (files : Files) : Site := ⟨files, fun _ => {}, [], [], [], []⟩

def Reaches (root : Path) : Site → Site → Prop :=
  Relation.ReflTransGen fun s s' => ∃ a, s.step root a = some s'

end Site

section Invariant
variable {root : Path} {stored stored' : List StoredImage} {n : ℕ} {src : Str} {p : Page}

/-- The address of an image that the page itself has stored. -/
def OfPage (stored : List StoredImage) (n : ℕ) (src : Str) : Prop :=
  ∃ u ∈ stored, u.sender = some n ∧ src = imageUrl (some u.fileName)

/-- The note shows different images of the page, no more than nine. -/
def Blog.Sound (stored : List StoredImage) (n : ℕ) (blog : Blog) : Prop :=
  ∃ list, blog.images = join list ∧ list.length ≤ 9 ∧ list.Nodup ∧ ∀ src ∈ list, OfPage stored n src

def Request.Sound (stored : List StoredImage) (n : ℕ) : Request → Prop
  | .upload _ => True
  | .delete src => OfPage stored n src
  | .publish blog => blog.Sound stored n

def Request.isUpload : Request → Bool
  | .upload _ => true
  | _ => false

def broughtSrc : Request × Answer → Option Str
  | (.upload _, .ok data) => some (imageUrl data)
  | _ => none

/-- The addresses of the page's images, those on their way to it included. -/
def Page.addresses (p : Page) : List Str := p.fileList ++ p.answers.filterMap broughtSrc

def Page.underway (p : Page) : ℕ :=
  p.sent.countP Request.isUpload + p.answers.countP fun a => a.1.isUpload

structure Page.Holds (stored : List StoredImage) (n : ℕ) (p : Page) : Prop where
  owned : ∀ src ∈ p.addresses, OfPage stored n src
  nodup : p.addresses.Nodup
  sent : ∀ r ∈ p.sent, r.Sound stored n
  answers : ∀ a ∈ p.answers, a.1.Sound stored n

/-- The images of the page with those that `fileSelected` is still about; `extra` of them
are no longer underway and not yet received. -/
structure Page.Counted (p : Page) (extra : ℕ) : Prop where
  underway : p.underway + extra = if p.uploading then 1 else 0
  room : p.fileList.length + p.underway + extra + p.waiting.length ≤ 9
  waiting : p.uploading = false → p.waiting = []

theorem OfPage.mono (hsub : stored ⊆ stored') (h : OfPage stored n src) : OfPage stored' n src := by
  obtain ⟨u, hu, hsender, hsrc⟩ := h
  exact ⟨u, hsub hu, hsender, hsrc⟩

theorem Blog.Sound.mono (hsub : stored ⊆ stored') {blog : Blog} (h : blog.Sound stored n) :
    blog.Sound stored' n := by
  obtain ⟨list, hjoin, hlength, hnodup, howned⟩ := h
  exact ⟨list, hjoin, hlength, hnodup, fun src hsrc => (howned src hsrc).mono hsub⟩

theorem Request.Sound.mono (hsub : stored ⊆ stored') {r : Request} (h : r.Sound stored n) :
    r.Sound stored' n := by
  cases r with
  | upload image => trivial
  | delete name => exact OfPage.mono hsub h
  | publish blog => exact Blog.Sound.mono hsub h

theorem Page.Holds.mono (hsub : stored ⊆ stored') (h : p.Holds stored n) : p.Holds stored' n where
  owned src hsrc := (h.owned src hsrc).mono hsub
  nodup := h.nodup
  sent r hr := (h.sent r hr).mono hsub
  answers a ha := (h.answers a ha).mono hsub

theorem perm_eraseIdx {α : Type} {l : List α} {k : ℕ} {a : α} (h : l[k]? = some a) :
    (a :: l.eraseIdx k).Perm l := by
  obtain ⟨hk, rfl⟩ := List.getElem?_eq_some_iff.mp h
  exact List.getElem_cons_eraseIdx_perm hk

namespace Page

theorem Holds.send (h : p.Holds stored n) {r : Request} (hr : r.Sound stored n) :
    Page.Holds stored n { p with sent := p.sent ++ [r] } where
  owned := h.owned
  nodup := h.nodup
  sent := by simpa [or_imp, forall_and, hr] using h.sent
  answers := h.answers

theorem Holds.uploadNext (h : p.Holds stored n) : p.uploadNext.Holds stored n := by
  unfold Page.uploadNext
  split
  · exact ⟨h.owned, h.nodup, h.sent, h.answers⟩
  · next image rest _ =>
    obtain ⟨howned, hnodup, hsent, hanswers⟩ := h.send (r := .upload image) trivial
    exact ⟨howned, hnodup, hsent, hanswers⟩

theorem underway_send (r : Request) : Page.underway { p with sent := p.sent ++ [r] } =
    p.underway + if r.isUpload then 1 else 0 := by
  simp only [underway, List.countP_append, List.countP_singleton]
  omega

theorem counted_uploadNext (hu : p.underway = 0) (hup : p.uploading = true)
    (hroom : p.fileList.length + p.waiting.length ≤ 9) : p.uploadNext.Counted 0 := by
  unfold Page.uploadNext
  split
  · next hw =>
    have hu' : Page.underway { p with uploading := false } = 0 := hu
    refine ⟨hu', ?_, fun _ => hw⟩
    rw [hu']
    exact hroom
  · next image rest hw =>
    rw [hw, List.length_cons] at hroom
    have hu' : Page.underway { p with waiting := rest, sent := p.sent ++ [.upload image] } = 1 :=
      (p.underway_send (.upload image)).trans (by rw [hu]; rfl)
    refine ⟨?_, ?_, fun hf => absurd hup (by simp [show p.uploading = false from hf])⟩
    · rw [hu', hup]
      rfl
    · rw [hu']
      show p.fileList.length + 1 + 0 + rest.length ≤ 9
      omega

theorem Counted.of_idle (h : p.Counted 0) (hup : p.uploading = false) :
    p.underway = 0 ∧ p.waiting = [] ∧ p.fileList.length ≤ 9 := by
  obtain ⟨hu, hroom, hw⟩ := h
  simp only [hup, Bool.false_eq_true, if_false] at hu
  exact ⟨by omega, hw hup, by omega⟩

theorem Counted.send {extra : ℕ} (h : p.Counted extra) {r : Request} (hr : r.isUpload = false) :
    Page.Counted { p with sent := p.sent ++ [r] } extra := by
  have hu : Page.underway { p with sent := p.sent ++ [r] } = p.underway := by
    rw [underway_send, hr]
    rfl
  exact ⟨by rw [hu]; exact h.underway, by rw [hu]; exact h.room, h.waiting⟩

theorem Holds.fileSelected (h : p.Holds stored n) (files : List PickedFile) :
    (p.fileSelected files).Holds stored n := by
  unfold Page.fileSelected
  have hsame : ∀ q : Page, q.fileList = p.fileList → q.sent = p.sent → q.answers = p.answers →
      q.Holds stored n := by
    intro q hlist hsent hanswers
    have haddr : q.addresses = p.addresses := by rw [addresses, addresses, hlist, hanswers]
    exact ⟨haddr ▸ h.owned, haddr ▸ h.nodup, hsent ▸ h.sent, hanswers ▸ h.answers⟩
  split_ifs
  · exact h
  · exact hsame _ rfl rfl rfl
  · exact hsame _ rfl rfl rfl
  · exact hsame _ rfl rfl rfl
  · exact Holds.uploadNext (hsame _ rfl rfl rfl)

theorem Counted.fileSelected (h : p.Counted 0) (files : List PickedFile) :
    (p.fileSelected files).Counted 0 := by
  unfold Page.fileSelected
  split_ifs with hbusy hmany
  · exact h
  · exact ⟨h.underway, h.room, h.waiting⟩
  · exact ⟨h.underway, h.room, h.waiting⟩
  · exact ⟨h.underway, h.room, h.waiting⟩
  · simp only [not_or, Bool.not_eq_true] at hbusy
    obtain ⟨hu, -, -⟩ := h.of_idle hbusy.2
    refine counted_uploadNext hu rfl ?_
    rw [List.length_map]
    exact Nat.le_of_not_lt hmany

theorem Holds.deletePic (h : p.Holds stored n) (i : ℕ) : (p.deletePic i).Holds stored n := by
  unfold Page.deletePic
  split_ifs
  · exact h
  · split
    · exact h
    · next src hsrc =>
      have hmem : src ∈ p.addresses := List.mem_append_left _ (List.mem_of_getElem? hsrc)
      exact h.send (h.owned src hmem)

theorem Counted.deletePic (h : p.Counted 0) (i : ℕ) : (p.deletePic i).Counted 0 := by
  unfold Page.deletePic
  split_ifs
  · exact h
  · split
    · exact h
    · exact h.send rfl

theorem Holds.submitBlog (h : p.Holds stored n) (hc : p.Counted 0) :
    p.submitBlog.Holds stored n := by
  unfold Page.submitBlog
  split_ifs with hbusy
  · exact h
  · exact ⟨h.owned, h.nodup, h.sent, h.answers⟩
  · exact ⟨h.owned, h.nodup, h.sent, h.answers⟩
  · simp only [not_or, Bool.not_eq_true] at hbusy
    have hblog : Request.Sound stored n (.publish ⟨trimBy isWhiteSpace p.title,
        trimBy isWhiteSpace p.content, join p.fileList, p.selectedShop.getD 0⟩) :=
      ⟨p.fileList, rfl, (hc.of_idle hbusy.1).2.2, (List.nodup_append.mp h.nodup).1,
        fun src hsrc => h.owned src (List.mem_append_left _ hsrc)⟩
    obtain ⟨howned, hnodup, hsent, hanswers⟩ := h.send hblog
    exact ⟨howned, hnodup, hsent, hanswers⟩

theorem Counted.submitBlog (h : p.Counted 0) : p.submitBlog.Counted 0 := by
  unfold Page.submitBlog
  split_ifs
  · exact h
  · exact ⟨h.underway, h.room, h.waiting⟩
  · exact ⟨h.underway, h.room, h.waiting⟩
  · obtain ⟨hu, hroom, hw⟩ := h.send (r := .publish ⟨trimBy isWhiteSpace p.title,
        trimBy isWhiteSpace p.content, join p.fileList, p.selectedShop.getD 0⟩) rfl
    exact ⟨hu, hroom, hw⟩

theorem spliceOut_sublist (list : List Str) (src : Str) : (spliceOut list src).Sublist list := by
  unfold spliceOut
  split_ifs
  · exact List.erase_sublist
  · exact List.dropLast_sublist list

theorem Holds.of_sublist {q : Page} (h : p.Holds stored n) (haddr : q.addresses.Sublist p.addresses)
    (hsent : q.sent ⊆ p.sent) (hanswers : q.answers ⊆ p.answers) : q.Holds stored n where
  owned src hsrc := h.owned src (haddr.subset hsrc)
  nodup := h.nodup.sublist haddr
  sent r hr := h.sent r (hsent hr)
  answers a ha := h.answers a (hanswers ha)

theorem Holds.push (h : p.Holds stored n) (howned : OfPage stored n src) (hnew : src ∉ p.addresses) :
    Page.Holds stored n { p with fileList := p.fileList ++ [src] } := by
  have haddr : Page.addresses { p with fileList := p.fileList ++ [src] } =
      p.fileList ++ src :: p.answers.filterMap broughtSrc := by
    simp [addresses]
  refine ⟨?_, ?_, h.sent, h.answers⟩
  · rw [haddr]
    intro other hother
    rcases List.mem_append.mp hother with hother | hother
    · exact h.owned other (List.mem_append_left _ hother)
    · rcases List.mem_cons.mp hother with rfl | hother
      · exact howned
      · exact h.owned other (List.mem_append_right _ hother)
  · rw [haddr, List.perm_middle.nodup_iff]
    exact List.nodup_cons.mpr ⟨hnew, h.nodup⟩

theorem Counted.of_upload (h : p.Counted 1) :
    p.underway = 0 ∧ p.uploading = true ∧ p.fileList.length + 1 + p.waiting.length ≤ 9 := by
  obtain ⟨hu, hroom, -⟩ := h
  cases hup : p.uploading with
  | false =>
    rw [hup, if_neg (by decide)] at hu
    omega
  | true =>
    rw [hup, if_pos rfl] at hu
    exact ⟨by omega, rfl, by omega⟩

theorem counted_uploadFailed (h : p.Counted 1) (e : String) : (p.uploadFailed e).Counted 0 := by
  obtain ⟨hu, -, hroom⟩ := h.of_upload
  have hu' : (p.uploadFailed e).underway = 0 := hu
  refine ⟨hu', ?_, fun _ => rfl⟩
  rw [hu']
  show p.fileList.length + 0 + 0 + 0 ≤ 9
  omega

end Page

/-- What every page keeps. -/
def Page.Sound (stored : List StoredImage) (n : ℕ) (p : Page) : Prop :=
  p.Holds stored n ∧ p.Counted 0

theorem Page.Sound.act (h : p.Sound stored n) (g : Gesture) : (p.act g).Sound stored n := by
  obtain ⟨hp, hc⟩ := h
  cases g with
  | write title content selectedShop =>
    exact ⟨⟨hp.owned, hp.nodup, hp.sent, hp.answers⟩, ⟨hc.underway, hc.room, hc.waiting⟩⟩
  | select files => exact ⟨hp.fileSelected files, hc.fileSelected files⟩
  | delete i => exact ⟨hp.deletePic i, hc.deletePic i⟩
  | submit => exact ⟨hp.submitBlog hc, hc.submitBlog⟩

/-- An answer to a request that is no longer underway; what it brings is the page's own
and has not been brought before. -/
theorem Page.Sound.receive {r : Request} {a : Answer} (hp : p.Holds stored n)
    (hc : p.Counted (if r.isUpload then 1 else 0))
    (hsrc : ∀ src, broughtSrc (r, a) = some src → OfPage stored n src ∧ src ∉ p.addresses) :
    (p.receive r a).Sound stored n := by
  cases r with
  | upload image =>
    have hc : p.Counted 1 := hc
    have hfailed : ∀ e, (p.uploadFailed e).Sound stored n := fun e =>
      ⟨hp.of_sublist (List.Sublist.refl _) (List.Subset.refl _) (List.Subset.refl _),
        Page.counted_uploadFailed hc e⟩
    cases a with
    | error e => exact hfailed e
    | ok data =>
      obtain ⟨howned, hnew⟩ := hsrc _ rfl
      obtain ⟨hu, hup, hroom⟩ := hc.of_upload
      simp only [Page.receive]
      split_ifs
      · exact hfailed _
      · refine ⟨(hp.push howned hnew).uploadNext, Page.counted_uploadNext hu hup ?_⟩
        simpa using hroom
  | delete src =>
    have hc : p.Counted 0 := hc
    cases a with
    | error e =>
      exact ⟨hp.of_sublist (List.Sublist.refl _) (List.Subset.refl _) (List.Subset.refl _),
        ⟨hc.underway, hc.room, hc.waiting⟩⟩
    | ok data =>
      have hsub := Page.spliceOut_sublist p.fileList src
      refine ⟨hp.of_sublist (hsub.append (List.Sublist.refl _)) (List.Subset.refl _)
        (List.Subset.refl _), ⟨hc.underway, ?_, hc.waiting⟩⟩
      have hroom := hc.room
      have hlength := hsub.length_le
      show (spliceOut p.fileList src).length + p.underway + 0 + p.waiting.length ≤ 9
      omega
  | publish blog =>
    have hc : p.Counted 0 := hc
    cases a with
    | error e =>
      exact ⟨hp.of_sublist (List.Sublist.refl _) (List.Subset.refl _) (List.Subset.refl _),
        ⟨hc.underway, hc.room, hc.waiting⟩⟩
    | ok data =>
      exact ⟨hp.of_sublist (List.Sublist.refl _) (List.Subset.refl _) (List.Subset.refl _),
        ⟨hc.underway, hc.room, hc.waiting⟩⟩

/-- The server's answer is on its way to the page. -/
theorem Page.Sound.answered {r : Request} {a : Answer} (hp : p.Holds stored n)
    (hc : p.Counted (if r.isUpload then 1 else 0)) (hr : r.Sound stored n)
    (hsrc : ∀ src, broughtSrc (r, a) = some src → OfPage stored n src ∧ src ∉ p.addresses) :
    Page.Sound stored n { p with answers := p.answers ++ [(r, a)] } := by
  have haddr : Page.addresses { p with answers := p.answers ++ [(r, a)] } =
      p.addresses ++ (broughtSrc (r, a)).toList := by
    simp only [Page.addresses, List.filterMap_append, List.append_assoc]
    cases hb : broughtSrc (r, a) <;> simp [hb]
  have hanswers : ∀ b ∈ p.answers ++ [(r, a)], b.1.Sound stored n := by
    intro b hb
    rcases List.mem_append.mp hb with hb | hb
    · exact hp.answers b hb
    · rw [List.mem_singleton.mp hb]
      exact hr
  refine ⟨⟨?_, ?_, hp.sent, hanswers⟩, ?_⟩
  · rw [haddr]
    intro src hmem
    rcases List.mem_append.mp hmem with hmem | hmem
    · exact hp.owned src hmem
    · exact (hsrc src (Option.mem_toList.mp hmem)).1
  · rw [haddr]
    cases hb : broughtSrc (r, a) with
    | none => simpa using hp.nodup
    | some src =>
      rw [Option.toList_some, List.nodup_append]
      refine ⟨hp.nodup, by simp, fun other hother brought hbrought => ?_⟩
      rw [List.mem_singleton.mp hbrought]
      rintro rfl
      exact (hsrc other hb).2 hother
  · have hu : Page.underway { p with answers := p.answers ++ [(r, a)] } =
        p.underway + if r.isUpload then 1 else 0 := by
      simp only [Page.underway, List.countP_append, List.countP_singleton]
      omega
    have hroom := hc.room
    refine ⟨by rw [hu]; exact hc.underway, ?_, hc.waiting⟩
    rw [hu]
    show p.fileList.length + (p.underway + if r.isUpload then 1 else 0) + 0 + p.waiting.length ≤ 9
    omega

section Taking
variable {k : ℕ} {r : Request} {a : Answer}

theorem Page.Counted.takeSent (h : p.Counted 0) (hk : p.sent[k]? = some r) :
    Page.Counted { p with sent := p.sent.eraseIdx k } (if r.isUpload then 1 else 0) := by
  have hcount := (perm_eraseIdx hk).countP_eq Request.isUpload
  rw [List.countP_cons] at hcount
  have hu : Page.underway { p with sent := p.sent.eraseIdx k } + (if r.isUpload then 1 else 0) =
      p.underway := by
    simp only [Page.underway]
    omega
  refine ⟨hu.trans h.underway, ?_, h.waiting⟩
  have hroom := h.room
  show p.fileList.length + Page.underway { p with sent := p.sent.eraseIdx k } +
    (if r.isUpload then 1 else 0) + p.waiting.length ≤ 9
  omega

theorem Page.Holds.takeSent (h : p.Holds stored n) :
    Page.Holds stored n { p with sent := p.sent.eraseIdx k } :=
  h.of_sublist (List.Sublist.refl _) (List.eraseIdx_sublist _ k).subset (List.Subset.refl _)

theorem Page.Counted.takeAnswer (h : p.Counted 0) (hk : p.answers[k]? = some (r, a)) :
    Page.Counted { p with answers := p.answers.eraseIdx k } (if r.isUpload then 1 else 0) := by
  have hcount := (perm_eraseIdx hk).countP_eq fun a : Request × Answer => a.1.isUpload
  rw [List.countP_cons] at hcount
  dsimp only at hcount
  have hu : Page.underway { p with answers := p.answers.eraseIdx k } +
      (if r.isUpload then 1 else 0) = p.underway := by
    simp only [Page.underway]
    omega
  refine ⟨hu.trans h.underway, ?_, h.waiting⟩
  have hroom := h.room
  show p.fileList.length + Page.underway { p with answers := p.answers.eraseIdx k } +
    (if r.isUpload then 1 else 0) + p.waiting.length ≤ 9
  omega

theorem Page.Holds.takeAnswer (h : p.Holds stored n) :
    Page.Holds stored n { p with answers := p.answers.eraseIdx k } :=
  h.of_sublist ((List.Sublist.refl _).append ((List.eraseIdx_sublist _ k).filterMap _))
    (List.Subset.refl _) (List.eraseIdx_sublist _ k).subset

theorem Page.Holds.brought (h : p.Holds stored n) (hk : p.answers[k]? = some (r, a))
    (hsrc : broughtSrc (r, a) = some src) :
    OfPage stored n src ∧ src ∉ Page.addresses { p with answers := p.answers.eraseIdx k } := by
  have hperm : (src :: Page.addresses { p with answers := p.answers.eraseIdx k }).Perm
      p.addresses := by
    have hbrought := (perm_eraseIdx hk).filterMap broughtSrc
    rw [List.filterMap_cons_some hsrc] at hbrought
    exact List.perm_middle.symm.trans (hbrought.append_left p.fileList)
  exact ⟨h.owned src (hperm.subset List.mem_cons_self),
    (List.nodup_cons.mp (hperm.nodup_iff.mpr h.nodup)).1⟩

end Taking

/-- A file that was written stands until a deletion asks for it; every deletion asked for
by a page, and every note published by one, is about images of that page. -/
structure Site.Sound (root : Path) (s : Site) : Prop where
  pages : ∀ n, (s.pages n).Sound s.stored n
  named : ∀ u ∈ s.stored, IsImageName u.uuid u.fileName
  distinct : ∀ u ∈ s.stored, ∀ v ∈ s.stored, u.uuid = v.uuid → u = v
  standing : ∀ u ∈ s.stored, s.files (fileOf root u.fileName) = some .file ∨
    ∃ d ∈ s.deletions, targetOf root d.2 = fileOf root u.fileName
  deletions : ∀ n name, (some n, name) ∈ s.deletions → OfPage s.stored n name
  blogs : ∀ n blog, (some n, blog) ∈ s.blogs → blog.Sound s.stored n
  abandoned : ∀ n request, (n, request) ∈ s.abandoned → request.Sound s.stored n

namespace Site
variable {s : Site}

theorem Sound.setPage (h : s.Sound root) (hp : p.Sound s.stored n) : (s.setPage n p).Sound root where
  pages m := by
    by_cases hm : m = n
    · subst hm
      simpa [Site.setPage] using hp
    · simpa [Site.setPage, hm] using h.pages m
  named := h.named
  distinct := h.distinct
  standing := h.standing
  deletions := h.deletions
  blogs := h.blogs
  abandoned := h.abandoned

section Handling
variable {sender : Option ℕ} {uuid : UUID} {works : Bool} {r : Request}

theorem handle_stores {image : MultipartFile} {fileName : Str}
    (hr : (receiveImage s.files root uuid image works).2 = .ok fileName) :
    s.handle root sender uuid works (.upload image) =
      ({ s with files := (receiveImage s.files root uuid image works).1,
                stored := s.stored ++ [⟨sender, uuid, fileName⟩] }, .ok (some fileName)) := by
  rw [handle, ← Prod.eta (receiveImage s.files root uuid image works), hr]

theorem handle_refuses {image : MultipartFile} {e : String}
    (hr : (receiveImage s.files root uuid image works).2 = .error e) :
    s.handle root sender uuid works (.upload image) =
      ({ s with files := (receiveImage s.files root uuid image works).1 }, .error e) := by
  rw [handle, ← Prod.eta (receiveImage s.files root uuid image works), hr]

theorem handle_publishes (blog : Blog) :
    s.handle root sender uuid works (.publish blog) =
        ({ s with blogs := s.blogs ++ [(sender, blog)] }, .ok none) ∨
      s.handle root sender uuid works (.publish blog) = (s, .error serverError) := by
  rw [handle]
  split_ifs
  · exact .inl rfl
  · exact .inr rfl

theorem handle_stored : s.stored ⊆ (s.handle root sender uuid works r).1.stored := by
  cases r with
  | upload image =>
    cases hr : (receiveImage s.files root uuid image works).2 with
    | ok fileName =>
      rw [handle_stores hr]
      exact List.subset_append_left _ _
    | error e =>
      rw [handle_refuses hr]
      exact List.Subset.refl _
  | delete name => exact List.Subset.refl _
  | publish blog =>
    rcases handle_publishes blog with h | h
    all_goals rw [h]; exact List.Subset.refl _

/-- The address that the server answers is that of a new image of the sender. -/
theorem Sound.handle_brings (h : s.Sound root) (hfresh : ∀ u ∈ s.stored, u.uuid ≠ uuid)
    (hsrc : broughtSrc (r, (s.handle root (some n) uuid works r).2) = some src) :
    OfPage (s.handle root (some n) uuid works r).1.stored n src ∧ ∀ m, ¬ OfPage s.stored m src := by
  cases r with
  | upload image =>
    cases hr : (receiveImage s.files root uuid image works).2 with
    | ok fileName =>
      rw [handle_stores hr] at hsrc ⊢
      obtain rfl : imageUrl (some fileName) = src := Option.some.inj hsrc
      have hname : IsImageName uuid fileName := (receiveImage_ok hr).1
      refine ⟨⟨⟨some n, uuid, fileName⟩, by simp, rfl, rfl⟩, ?_⟩
      rintro m ⟨u, hu, -, heq⟩
      have htarget : fileOf root fileName = fileOf root u.fileName := by
        rw [← hname.targetOf_imageUrl, heq, (h.named u hu).targetOf_imageUrl]
      exact hfresh u hu (hname.fileOf_inj (h.named u hu) htarget).symm
    | error e =>
      rw [handle_refuses hr] at hsrc
      simp [broughtSrc] at hsrc
  | delete name => simp [broughtSrc] at hsrc
  | publish blog => simp [broughtSrc] at hsrc

theorem Sound.receiveImage (h : s.Sound root) {image : MultipartFile} {u : StoredImage}
    (hu : u ∈ s.stored) :
    (receiveImage s.files root uuid image works).1 (fileOf root u.fileName) = some .file ∨
      ∃ d ∈ s.deletions, targetOf root d.2 = fileOf root u.fileName :=
  (h.standing u hu).imp_left receiveImage_keeps

theorem Sound.handle (h : s.Sound root) (hfresh : ∀ u ∈ s.stored, u.uuid ≠ uuid)
    (hr : ∀ n, sender = some n → r.Sound s.stored n) :
    (s.handle root sender uuid works r).1.Sound root := by
  cases r with
  | upload image =>
    cases hreceived : (Upload.receiveImage s.files root uuid image works).2 with
    | ok fileName =>
      obtain ⟨hname, hfile⟩ := receiveImage_ok hreceived
      have hsub : s.stored ⊆ s.stored ++ [⟨sender, uuid, fileName⟩] := List.subset_append_left _ _
      rw [handle_stores hreceived]
      refine ⟨fun n => ⟨(h.pages n).1.mono hsub, (h.pages n).2⟩, ?_, ?_, ?_,
        fun n name hd => (h.deletions n name hd).mono hsub,
        fun n blog hb => (h.blogs n blog hb).mono hsub,
        fun n request ha => (h.abandoned n request ha).mono hsub⟩
      · simpa [or_imp, forall_and] using ⟨h.named, hname⟩
      · intro u hu v hv heq
        rcases List.mem_append.mp hu with hu | hu <;> rcases List.mem_append.mp hv with hv | hv
        · exact h.distinct u hu v hv heq
        · obtain rfl := List.mem_singleton.mp hv
          exact absurd heq (hfresh u hu)
        · obtain rfl := List.mem_singleton.mp hu
          exact absurd heq.symm (hfresh v hv)
        · rw [List.mem_singleton.mp hu, List.mem_singleton.mp hv]
      · intro u hu
        rcases List.mem_append.mp hu with hu | hu
        · exact h.receiveImage hu
        · obtain rfl := List.mem_singleton.mp hu
          exact .inl hfile
    | error e =>
      rw [handle_refuses hreceived]
      exact ⟨h.pages, h.named, h.distinct, fun u hu => h.receiveImage hu, h.deletions, h.blogs,
        h.abandoned⟩
  | delete name =>
    refine ⟨h.pages, h.named, h.distinct, fun u hu => ?_, fun n name' hd => ?_, h.blogs, h.abandoned⟩
    · by_cases htarget : targetOf root name = fileOf root u.fileName
      · exact .inr ⟨(sender, name), List.mem_append_right _ List.mem_cons_self, htarget⟩
      · refine (h.standing u hu).imp (fun hf => removeImage_keeps hf (Ne.symm htarget)) ?_
        rintro ⟨d, hd, heq⟩
        exact ⟨d, List.mem_append_left _ hd, heq⟩
    · rcases List.mem_append.mp hd with hd | hd
      · exact h.deletions n name' hd
      · cases List.mem_singleton.mp hd
        exact hr n rfl
  | publish blog =>
    have hpublish : s.handle root sender uuid works (.publish blog) =
        ({ s with blogs := s.blogs ++ [(sender, blog)] }, .ok none) ∨
        s.handle root sender uuid works (.publish blog) = (s, .error serverError) :=
      handle_publishes blog
    rcases hpublish with heq | heq
    · rw [heq]
      refine ⟨h.pages, h.named, h.distinct, h.standing, h.deletions, fun n blog' hb => ?_, h.abandoned⟩
      rcases List.mem_append.mp hb with hb | hb
      · exact h.blogs n blog' hb
      · cases List.mem_singleton.mp hb
        exact hr n rfl
    · rw [heq]
      exact h

end Handling

theorem Sound.step (h : s.Sound root) {a : Action} {s' : Site} (hs : s.step root a = some s') :
    s'.Sound root := by
  cases a with
  | gesture n g =>
    cases hs
    exact h.setPage ((h.pages n).act g)
  | serve n k uuid works =>
    simp only [Site.step] at hs
    split at hs
    · next r hk =>
      obtain ⟨hfresh, hs⟩ := Option.ite_none_right_eq_some.mp hs
      cases hs
      obtain ⟨hp, hc⟩ := h.pages n
      have hr : r.Sound s.stored n := hp.sent r (List.mem_of_getElem? hk)
      have hsub : s.stored ⊆ (s.handle root (some n) uuid works r).1.stored := handle_stored
      have hsound : (s.handle root (some n) uuid works r).1.Sound root :=
        h.handle hfresh fun m hm => Option.some.inj hm ▸ hr
      refine hsound.setPage (Page.Sound.answered (hp.takeSent.mono hsub) (hc.takeSent hk)
        (hr.mono hsub) fun src hsrc => ?_)
      obtain ⟨howned, hnew⟩ := h.handle_brings hfresh hsrc
      exact ⟨howned, fun hmem => hnew n (hp.owned src hmem)⟩
    · cases hs
  | answer n k lost =>
    simp only [Site.step] at hs
    split at hs
    · next r a hk =>
      cases hs
      obtain ⟨hp, hc⟩ := h.pages n
      refine h.setPage (Page.Sound.receive hp.takeAnswer (hc.takeAnswer hk) fun src hsrc => ?_)
      cases lost with
      | none => exact hp.brought hk hsrc
      | some e => cases r <;> simp [broughtSrc] at hsrc
    · cases hs
  | giveUp n k e =>
    simp only [Site.step] at hs
    split at hs
    · next r hk =>
      cases hs
      obtain ⟨hp, hc⟩ := h.pages n
      have hr : r.Sound s.stored n := hp.sent r (List.mem_of_getElem? hk)
      have habandoned : ∀ m request, (m, request) ∈ s.abandoned ++ [(n, r)] →
          request.Sound s.stored m := by
        intro m request hmem
        rcases List.mem_append.mp hmem with hmem | hmem
        · exact h.abandoned m request hmem
        · cases List.mem_singleton.mp hmem
          exact hr
      have hsound : Sound root { s with abandoned := s.abandoned ++ [(n, r)] } :=
        ⟨h.pages, h.named, h.distinct, h.standing, h.deletions, h.blogs, habandoned⟩
      refine hsound.setPage (Page.Sound.receive hp.takeSent (hc.takeSent hk) fun src hsrc => ?_)
      cases r <;> simp [broughtSrc] at hsrc
    · cases hs
  | serveLate k uuid works =>
    simp only [Site.step] at hs
    split at hs
    · next n r hk =>
      obtain ⟨hfresh, hs⟩ := Option.ite_none_right_eq_some.mp hs
      cases hs
      have hr : r.Sound s.stored n := h.abandoned n r (List.mem_of_getElem? hk)
      have hsound : Sound root { s with abandoned := s.abandoned.eraseIdx k } :=
        ⟨h.pages, h.named, h.distinct, h.standing, h.deletions, h.blogs, fun m request hmem =>
          h.abandoned m request ((List.eraseIdx_sublist _ k).subset hmem)⟩
      have hrequest : ∀ m, some n = some m → r.Sound s.stored m := fun m hm =>
        Option.some.inj hm ▸ hr
      exact hsound.handle hfresh hrequest
    · cases hs
  | other r uuid works =>
    obtain ⟨hfresh, hs⟩ := Option.ite_none_right_eq_some.mp hs
    cases hs
    exact h.handle hfresh (by simp)

theorem Sound.tidy (h : s.Sound root) {list : List Str} (howned : ∀ src ∈ list, OfPage s.stored n src) :
    (∀ src ∈ list, src ≠ [] ∧ imageUrl (some src) = src) ∧ (∀ src ∈ list, 0x2C ∉ src) ∧
      ∀ src ∈ list, src.length ≤ 59 := by
  refine ⟨fun src hsrc => ?_, fun src hsrc => ?_, fun src hsrc => ?_⟩ <;>
    obtain ⟨u, hu, -, rfl⟩ := howned src hsrc
  · refine ⟨?_, imageUrl_imageUrl _⟩
    rw [(h.named u hu).imageUrl]
    exact List.append_ne_nil_of_left_ne_nil (by decide) _
  · exact (h.named u hu).comma
  · exact (h.named u hu).length_imageUrl

/-- The texts of the images in a note are read as those that the page had. -/
theorem Sound.blog (h : s.Sound root) {blog : Blog} (hb : blog.Sound s.stored n) :
    join (imageList (some blog.images)) = blog.images ∧
      (imageList (some blog.images)).length ≤ 9 ∧ (imageList (some blog.images)).Nodup ∧
      ∀ src ∈ imageList (some blog.images), OfPage s.stored n src := by
  obtain ⟨list, hjoin, hlength, hnodup, howned⟩ := hb
  obtain ⟨hurl, hcomma, -⟩ := h.tidy howned
  have hlist : imageList (some blog.images) = list := by rw [hjoin, imageList_join hurl hcomma]
  rw [hlist]
  exact ⟨hjoin.symm, hlength, hnodup, howned⟩

end Site

end Invariant

namespace Site

def play (root : Path) (s : Site) (actions : List Action) : Option Site :=
  actions.foldlM (step root) s

end Site

end HmDianPing.Upload
