import HmDianPing.Frontend.ImageUrl
import HmDianPing.Web.Dom

/-! # What is left of a note

`util.safeContent` cleans the tree it has parsed from the inside out: it drops blocked
elements, unwraps those that are not allowed and takes the attributes off the others.
It walks the tree by properties of its nodes, which a form can hide, and begins at what
`doc.body` gives, which elements with that name can hide.
-/
namespace HmDianPing.Frontend
open Text Web

def blocked : List Str :=
  ["SCRIPT", "STYLE", "IFRAME", "OBJECT", "EMBED", "SVG", "MATH", "LINK", "META"].map lit

def allowed : List Str :=
  ["P", "BR", "DIV", "SPAN", "STRONG", "B", "EM", "I", "U", "UL", "OL", "LI", "BLOCKQUOTE", "H2",
    "H3", "H4", "IMG"].map lit

inductive Failure where
  | typeError
  /-- The walk goes on with the controls of a form or with options, wherever they are. -/
  | astray
  /-- Nothing has been walked, and `doc.body.innerHTML` is no text. -/
  | noMarkup
deriving DecidableEq

/-- `clean(parent)`, when cleaning the children of `parent` gives `cleaned`. -/
def clean (live : List Element) (parent : Element) (childNodes : Nodes)
    (cleaned : Except Failure Nodes) : Except Failure Nodes :=
  match parent.shadow live "children" with
  | none => cleaned
  | some .one => .ok childNodes
  | some .many => .error .astray

def unwrap (live : List Element) (form : Option ℕ) (node : Element) (childNodes : Nodes) :
    Except Failure Nodes :=
  match node.shadow live "replaceWith", node.shadow live "childNodes" with
  | none, none => .ok (childNodes.moved form)
  | none, some .many => .error .astray
  | _, _ => .error .typeError

def strip (node : Element) (childNodes : Nodes) : Nodes :=
  let source := if node.tagName = lit "IMG" then imageUrl (node.getAttribute (lit "src")) else []
  let attributes := node.attributes.foldl (fun attributes attr => removeAttribute attributes attr.name)
    node.attributes
  if node.tagName = lit "IMG" then
    if source = [] then .nil
    else
      let attributes := setAttribute attributes (lit "src") source
      let attributes := setAttribute attributes (lit "alt") (lit "笔记图片")
      let attributes := setAttribute attributes (lit "loading") (lit "lazy")
      .element (node.withAttributes attributes) childNodes .nil
  else .element (node.withAttributes attributes) childNodes .nil

/-- What becomes of a node whose children have been cleaned. -/
def leave (live : List Element) (form : Option ℕ) (node : Element) (childNodes : Nodes) :
    Except Failure Nodes :=
  if node.tagName ∉ allowed then unwrap live form node childNodes else .ok (strip node childNodes)

def cleanAll (place : Place) : Nodes → Except Failure Nodes
  | .nil => .ok .nil
  | .character data rest => (cleanAll place rest).map (Nodes.character data)
  | .element node childNodes rest =>
    let replaced :=
      if node.tagName ∈ blocked then .ok .nil
      else (clean (place.live (.element node childNodes rest)) node childNodes
        (cleanAll (place.within node rest) childNodes)).bind fun childNodes =>
          leave (place.live (.element node childNodes rest)) place.form node childNodes
    replaced.bind fun replaced => (cleanAll (place.behind replaced) rest).map replaced.append

/-- What `doc.body` gives: the body or the one element of that name, or the list of several. -/
inductive Body where
  | node (body : Element) (childNodes : Nodes)
  | collection (elements : List Element)

namespace Body

def childNodes : Body → Nodes
  | .node _ childNodes => childNodes
  | .collection _ => .nil

def withChildNodes (childNodes : Nodes) : Body → Body
  | .node body _ => .node body childNodes
  | .collection elements => .collection elements

end Body

def namedItem (elements : List Element) (name : Str) : Option Element :=
  elements.find? fun e => e.getAttribute (lit "id") = some name ∨
    e.namespaceURI = .html ∧ e.getAttribute (lit "name") = some name

/-- `util.safeContent` from where the note is parsed: the children of `doc.body`. -/
def safeContent (place : Place) : Body → Except Failure Nodes
  | .node body childNodes => clean (place.live (.element body childNodes .nil)) body childNodes
      (cleanAll (place.within body .nil) childNodes)
  | .collection elements =>
    -- A list has no children but by that name.
    match namedItem elements (lit "children") with
    | none => .error .typeError
    | some e => .error (if e.isHtml "FORM" then .astray else .noMarkup)

/-- An element as the parser makes it: foreign ones have names that begin with a small letter, and
HTML ones have attributes in lower case. -/
structure ParsedElement (e : Element) : Prop where
  foreign : e.namespaceURI ≠ .html → e.tagName.head?.any (inRange 0x61 0x7A)
  attributes : e.namespaceURI = .html → ∀ a ∈ e.attributes, ignoreCase a.name = a.name

instance (e : Element) : Decidable (ParsedElement e) :=
  decidable_of_iff ((e.namespaceURI ≠ .html → e.tagName.head?.any (inRange 0x61 0x7A)) ∧
    (e.namespaceURI = .html → ∀ a ∈ e.attributes, ignoreCase a.name = a.name))
    ⟨fun h => ⟨h.1, h.2⟩, fun h => ⟨h.foreign, h.attributes⟩⟩

/-- The trees the parser makes, in which images have no children. -/
def Parsed : Nodes → Prop
  | .nil => True
  | .character _ rest => Parsed rest
  | .element e childNodes rest => ParsedElement e ∧ (e.tagName = lit "IMG" → childNodes = .nil) ∧
      Parsed childNodes ∧ Parsed rest

instance decidableParsed : (nodes : Nodes) → Decidable (Parsed nodes)
  | .nil => .isTrue trivial
  | .character _ rest => decidableParsed rest
  | .element _ childNodes rest =>
    have := decidableParsed childNodes
    have := decidableParsed rest
    inferInstanceAs (Decidable (_ ∧ (_ → _) ∧ Parsed childNodes ∧ Parsed rest))

structure SafeElement (e : Element) : Prop where
  html : e.namespaceURI = .html
  tag : e.tagName ∈ allowed
  unblocked : e.tagName ∉ blocked
  attributes : ∀ a ∈ e.attributes, a.name ∈ [lit "src", lit "alt", lit "loading"] ∧
    e.tagName = lit "IMG" ∧
    ∃ value, imageUrl value ≠ [] ∧ e.getAttribute (lit "src") = some (imageUrl value)

def imageAttributes (source : Str) : List Attr :=
  [⟨lit "src", source⟩, ⟨lit "alt", lit "笔记图片"⟩, ⟨lit "loading", lit "lazy"⟩]

/-- An element as the cleaning leaves it. -/
structure CleanElement (e : Element) : Prop where
  html : e.namespaceURI = .html
  tag : e.tagName ∈ allowed
  plain : e.tagName ≠ lit "IMG" → e.attributes = []
  image : e.tagName = lit "IMG" →
    ∃ value, imageUrl value ≠ [] ∧ e.attributes = imageAttributes (imageUrl value)

/-- The cleaning ends, what is left is safe, and cleaning it again changes nothing. -/
def Sanitized (place : Place) (body : Body) : Prop :=
  ∃ cleaned, safeContent place body = .ok cleaned ∧ cleaned.All SafeElement ∧
    safeContent place (body.withChildNodes cleaned) = .ok cleaned

/-- The walk into a node: its children are not hidden, or hidden by one element and clean. -/
def Enters (live : List Element) (parent : Element) (inside hidden : Prop) : Prop :=
  match parent.shadow live "children" with
  | none => inside
  | some .one => hidden
  | some .many => False

/-- No form that the walk comes to has its properties hidden, unless its content is clean. -/
def Walkable (place : Place) : Nodes → Prop
  | .nil => True
  | .character _ rest => Walkable place rest
  | .element node childNodes rest =>
    (node.tagName ∉ blocked →
      Enters (place.live (.element node childNodes rest)) node
        (Walkable (place.within node rest) childNodes) (childNodes.All CleanElement) ∧
      node.shadow (place.live (.element node .nil rest)) "replaceWith" = none ∧
      node.shadow (place.live (.element node .nil rest)) "childNodes" = none) ∧
    Walkable place rest

section Except
variable {ε α β : Type} {x : Except ε α} {b : β}

theorem except_map_eq_ok {f : α → β} : x.map f = .ok b ↔ ∃ a, x = .ok a ∧ f a = b := by
  cases x <;> simp [Except.map]

theorem except_bind_eq_ok {f : α → Except ε β} :
    x.bind f = .ok b ↔ ∃ a, x = .ok a ∧ f a = .ok b := by
  cases x <;> simp [Except.bind]

end Except

section Elements
variable {e : Element} {nodes childNodes : Nodes} {live : List Element} {property : String}

theorem not_blocked_of_allowed (h : e.tagName ∈ allowed) : e.tagName ∉ blocked := by
  have hdisjoint : ∀ tagName ∈ allowed, tagName ∉ blocked := by decide
  exact hdisjoint _ h

theorem not_isHtml_of_allowed (h : e.tagName ∈ allowed) {tagName : String}
    (hn : lit tagName ∉ allowed) : e.isHtml tagName = false := by
  have hne : e.tagName ≠ lit tagName := fun he => hn (he ▸ h)
  simp [Element.isHtml, hne]

theorem shadow_of_allowed (h : e.tagName ∈ allowed) : e.shadow live property = none :=
  shadow_of_not_form (not_isHtml_of_allowed h (by decide))

theorem SafeElement.isNamed (h : SafeElement e) : e.isNamed = false := by
  have hattribute (name : Str) (hn : name ∉ [lit "src", lit "alt", lit "loading"]) :
      e.getAttribute name = none := by
    rw [Element.getAttribute, Option.map_eq_none_iff, List.find?_eq_none]
    intro a ha he
    exact hn (of_decide_eq_true he ▸ (h.attributes a ha).1)
  have hnames : e.names = [] := by
    simp only [Element.names, List.filterMap_cons, List.filterMap_nil,
      hattribute (lit "id") (by decide), hattribute (lit "name") (by decide)]
  simp [Element.isNamed, hnames]

theorem named_of_safe (h : nodes.All SafeElement) : nodes.named = [] :=
  List.filter_eq_nil_iff.mpr fun e he => by simp [(h e he).isNamed]

theorem getAttribute_src (source : Str) (h : e.attributes = imageAttributes source) :
    e.getAttribute (lit "src") = some source := by
  simp [Element.getAttribute, h, imageAttributes]

theorem CleanElement.safe (h : CleanElement e) : SafeElement e := by
  refine ⟨h.html, h.tag, not_blocked_of_allowed h.tag, fun a ha => ?_⟩
  by_cases himg : e.tagName = lit "IMG"
  · obtain ⟨value, hvalue, hattributes⟩ := h.image himg
    have ha' := ha
    rw [hattributes] at ha'
    refine ⟨?_, himg, value, hvalue, getAttribute_src _ hattributes⟩
    simp only [imageAttributes, List.mem_cons, List.not_mem_nil, or_false] at ha'
    rcases ha' with rfl | rfl | rfl <;> simp
  · rw [h.plain himg] at ha
    cases ha

theorem named_of_clean (h : nodes.All CleanElement) : nodes.named = [] :=
  named_of_safe (h.mono fun _ => CleanElement.safe)

theorem cleanElement_form (e : Element) (form : Option ℕ) :
    CleanElement { e with form := form } ↔ CleanElement e :=
  ⟨fun h => ⟨h.html, h.tag, h.plain, h.image⟩, fun h => ⟨h.html, h.tag, h.plain, h.image⟩⟩

theorem setAttributes (source : Str) :
    setAttribute (setAttribute (setAttribute [] (lit "src") source) (lit "alt") (lit "笔记图片"))
      (lit "loading") (lit "lazy") = imageAttributes source := by
  have halt : lit "src" ≠ lit "alt" := by decide
  have hloading : lit "src" ≠ lit "loading" ∧ lit "alt" ≠ lit "loading" := by decide
  simp [setAttribute, imageAttributes, halt, hloading]

theorem strip_eq (hlower : ∀ a ∈ e.attributes, ignoreCase a.name = a.name) :
    strip e childNodes = if e.tagName = lit "IMG" then
      if imageUrl (e.getAttribute (lit "src")) = [] then .nil
      else .element (e.withAttributes (imageAttributes (imageUrl (e.getAttribute (lit "src")))))
        childNodes .nil
    else .element (e.withAttributes []) childNodes .nil := by
  unfold strip
  rw [foldl_removeAttribute hlower]
  by_cases himg : e.tagName = lit "IMG"
  · simp only [if_pos himg, setAttributes]
  · simp only [if_neg himg]

theorem strip_clean (hhtml : e.namespaceURI = .html) (hallowed : e.tagName ∈ allowed)
    (hlower : ∀ a ∈ e.attributes, ignoreCase a.name = a.name)
    (h : childNodes.All CleanElement) : (strip e childNodes).All CleanElement := by
  rw [strip_eq hlower]
  by_cases himg : e.tagName = lit "IMG"
  · rw [if_pos himg]
    split
    · exact Nodes.all_nil
    next hsource =>
      refine Nodes.all_element.mpr ⟨⟨hhtml, hallowed, fun hn => absurd himg hn, fun _ => ?_⟩, h,
        Nodes.all_nil⟩
      exact ⟨_, hsource, rfl⟩
  · rw [if_neg himg]
    refine Nodes.all_element.mpr ⟨⟨hhtml, hallowed, fun _ => rfl, fun hn => absurd hn himg⟩, h,
      Nodes.all_nil⟩

theorem CleanElement.strip (h : CleanElement e) :
    Frontend.strip e childNodes = .element e childNodes .nil := by
  by_cases himg : e.tagName = lit "IMG"
  · obtain ⟨value, hvalue, hattributes⟩ := h.image himg
    have hlower : ∀ a ∈ e.attributes, ignoreCase a.name = a.name := by
      have hnames : ∀ name ∈ [lit "src", lit "alt", lit "loading"], ignoreCase name = name := by
        decide
      exact fun a ha => hnames _ (h.safe.attributes a ha).1
    have hsource : imageUrl (e.getAttribute (lit "src")) = imageUrl value := by
      rw [getAttribute_src _ hattributes, imageUrl_imageUrl]
    rw [strip_eq hlower, if_pos himg, hsource, if_neg hvalue, ← hattributes,
      Element.withAttributes_self]
  · have hnone := h.plain himg
    rw [strip_eq (by simp [hnone]), if_neg himg, ← hnone, Element.withAttributes_self]

theorem ParsedElement.html (h : ParsedElement e) (hallowed : e.tagName ∈ allowed) :
    e.namespaceURI = .html := by
  by_contra hforeign
  have hupper : ∀ tagName ∈ allowed, tagName.head?.any (inRange 0x61 0x7A) = false := by
    decide
  have hlower := h.foreign hforeign
  rw [hupper _ hallowed] at hlower
  cases hlower

end Elements

section Places
variable {p : Place} {e : Element} {nodes rest : Nodes}

theorem behind_of_clean (h : nodes.All CleanElement) : p.behind nodes = p := by
  simp [Place.behind, named_of_clean h]

theorem live_of_clean (h : nodes.All CleanElement) :
    p.live (.element e nodes rest) = p.live (.element e .nil rest) := by
  have hnone : nodes.elements.filter Element.isNamed = [] := named_of_clean h
  simp [Place.live, Nodes.named, Nodes.elements, List.filter_cons, hnone]

/-- The named elements of a document whose last nodes are the child nodes of an element. -/
theorem live_element : p.live (.element e nodes .nil) =
    p.before ++ [e].filter Element.isNamed ++ (nodes.named ++ p.after) := by
  by_cases he : e.isNamed = true <;>
    simp [Place.live, Nodes.named, Nodes.elements, he]

end Places

section Cleaning
variable {e : Element} {nodes out childNodes rest : Nodes} {live : List Element} {place : Place}
  {form : Option ℕ}

theorem cleanAll_element : cleanAll place (.element e childNodes rest) = .ok out ↔
    ∃ replaced rest', (e.tagName ∈ blocked ∧ replaced = .nil ∨ e.tagName ∉ blocked ∧ ∃ childNodes',
        clean (place.live (.element e childNodes rest)) e childNodes
          (cleanAll (place.within e rest) childNodes) = .ok childNodes' ∧
        leave (place.live (.element e childNodes' rest)) place.form e childNodes' = .ok replaced) ∧
      cleanAll (place.behind replaced) rest = .ok rest' ∧ replaced.append rest' = out := by
  simp only [cleanAll, except_bind_eq_ok, except_map_eq_ok]
  by_cases hb : e.tagName ∈ blocked
  · simp only [hb, if_true, Except.ok.injEq, true_and, not_true_eq_false, false_and, or_false]
    constructor
    · rintro ⟨_, rfl, rest', hrest, hout⟩
      exact ⟨.nil, rest', rfl, hrest, hout⟩
    · rintro ⟨_, rest', rfl, hrest, hout⟩
      exact ⟨.nil, rfl, rest', hrest, hout⟩
  · simp only [hb, if_false, except_bind_eq_ok, false_and, not_false_eq_true, true_and, false_or]
    constructor
    · rintro ⟨replaced, hreplaced, rest', hrest, hout⟩
      exact ⟨replaced, rest', hreplaced, hrest, hout⟩
    · rintro ⟨replaced, rest', hreplaced, hrest, hout⟩
      exact ⟨replaced, hreplaced, rest', hrest, hout⟩

theorem clean_eq_ok {parent : Element} {cleaned : Except Failure Nodes} :
    clean live parent childNodes cleaned = .ok out ↔
      parent.shadow live "children" = none ∧ cleaned = .ok out ∨
      parent.shadow live "children" = some .one ∧ childNodes = out := by
  unfold clean
  split <;> simp [*]

theorem unwrap_eq_ok : unwrap live form e childNodes = .ok out ↔
    e.shadow live "replaceWith" = none ∧ e.shadow live "childNodes" = none ∧
      childNodes.moved form = out := by
  unfold unwrap
  split <;> simp_all

theorem enters_iff {inside hidden : Prop} : Enters live e inside hidden ↔
    e.shadow live "children" = none ∧ inside ∨
      e.shadow live "children" = some .one ∧ hidden := by
  unfold Enters
  split <;> simp [*]

theorem leave_clean (hp : ParsedElement e) (himg : e.tagName = lit "IMG" → nodes = .nil)
    (h : leave live form e childNodes = .ok out)
    (hnil : nodes = .nil → childNodes = .nil) : out.All CleanElement ↔
      childNodes.All CleanElement := by
  unfold leave at h
  by_cases htag : e.tagName ∈ allowed
  · rw [if_neg (not_not_intro htag)] at h
    obtain rfl := Except.ok.inj h
    refine ⟨fun hclean => ?_, strip_clean (hp.html htag) htag (hp.attributes (hp.html htag))⟩
    by_cases hi : e.tagName = lit "IMG"
    · rw [hnil (himg hi)]
      exact Nodes.all_nil
    · rw [strip_eq (hp.attributes (hp.html htag)), if_neg hi] at hclean
      exact (Nodes.all_element.mp hclean).2.1
  · rw [if_pos htag] at h
    obtain ⟨-, -, rfl⟩ := unwrap_eq_ok.mp h
    exact all_moved cleanElement_form

theorem nil_of_clean (h : clean live e childNodes (cleanAll place childNodes) = .ok out)
    (hnil : childNodes = .nil) : out = .nil := by
  subst hnil
  rcases clean_eq_ok.mp h with ⟨-, hcleaned⟩ | ⟨-, rfl⟩
  · exact (Except.ok.inj hcleaned).symm
  · rfl

theorem strip_cases (e : Element) (childNodes : Nodes) : strip e childNodes = .nil ∨
    ∃ attributes, strip e childNodes = .element (e.withAttributes attributes) childNodes .nil := by
  unfold strip
  dsimp only
  split
  · split
    · exact .inl rfl
    · exact .inr ⟨_, rfl⟩
  · exact .inr ⟨_, rfl⟩

theorem leave_length (h : leave live form e childNodes = .ok out) :
    out.elements.length ≤ childNodes.elements.length + 1 := by
  unfold leave at h
  split at h
  · obtain ⟨-, -, rfl⟩ := unwrap_eq_ok.mp h
    exact length_moved.le.trans (Nat.le_succ _)
  · obtain rfl := Except.ok.inj h
    rcases strip_cases e childNodes with hnil | ⟨attributes, hself⟩
    · rw [hnil]
      exact Nat.zero_le _
    · rw [hself]
      simp [Nodes.elements]

/-- A node can be left unless a form hides what unwraps it. -/
theorem leave_ok_iff : (∃ out, leave live form e childNodes = .ok out) ↔
    e.shadow live "replaceWith" = none ∧ e.shadow live "childNodes" = none := by
  unfold leave
  by_cases htag : e.tagName ∈ allowed
  · simp [htag, shadow_of_allowed htag]
  · simp only [if_pos htag, unwrap_eq_ok]
    exact ⟨fun ⟨_, hwith, hnodes, _⟩ => ⟨hwith, hnodes⟩, fun ⟨hwith, hnodes⟩ =>
      ⟨_, hwith, hnodes, rfl⟩⟩

/-- The loop leaves a clean tree exactly when it can walk all the way. -/
theorem cleanAll_clean_iff (hp : Parsed nodes) :
    (∃ out, cleanAll place nodes = .ok out ∧ out.All CleanElement) ↔ Walkable place nodes := by
  induction nodes generalizing place with
  | nil => exact iff_of_true ⟨.nil, rfl, Nodes.all_nil⟩ trivial
  | character data rest ih =>
    refine Iff.trans ?_ (ih hp)
    simp only [cleanAll, except_map_eq_ok]
    constructor
    · rintro ⟨_, ⟨out, hout, rfl⟩, hclean⟩
      exact ⟨out, hout, hclean⟩
    · rintro ⟨out, hout, hclean⟩
      exact ⟨_, ⟨out, hout, rfl⟩, hclean⟩
  | element e childNodes rest ihc ihr =>
    obtain ⟨he, himg, hpc, hpr⟩ := hp
    constructor
    · rintro ⟨out, hout, hclean⟩
      obtain ⟨replaced, rest', hnode, hrest, rfl⟩ := cleanAll_element.mp hout
      obtain ⟨hreplaced, hrest'⟩ := Nodes.all_append.mp hclean
      rw [behind_of_clean hreplaced] at hrest
      refine ⟨fun hb => ?_, (ihr hpr).mp ⟨rest', hrest, hrest'⟩⟩
      obtain ⟨hb', -⟩ | ⟨-, childNodes', hinto, hleave⟩ := hnode
      · exact absurd hb' hb
      have hchildren := (leave_clean he himg hleave (nil_of_clean hinto)).mp hreplaced
      have hunwrap := leave_ok_iff.mp ⟨replaced, hleave⟩
      rw [live_of_clean hchildren] at hunwrap
      refine ⟨enters_iff.mpr ?_, hunwrap⟩
      rcases clean_eq_ok.mp hinto with ⟨hnone, hcleaned⟩ | ⟨hone, rfl⟩
      · exact .inl ⟨hnone, (ihc hpc).mp ⟨childNodes', hcleaned, hchildren⟩⟩
      · exact .inr ⟨hone, hchildren⟩
    · rintro ⟨hnode, hrest⟩
      obtain ⟨rest', hrest', hcleanrest⟩ := (ihr hpr).mpr hrest
      by_cases hb : e.tagName ∈ blocked
      · exact ⟨rest', cleanAll_element.mpr ⟨.nil, rest', .inl ⟨hb, rfl⟩,
          (behind_of_clean Nodes.all_nil).symm ▸ hrest', rfl⟩, hcleanrest⟩
      · obtain ⟨hwalk, hunwrap⟩ := hnode hb
        obtain ⟨childNodes', hinto, hchildren⟩ : ∃ childNodes',
            clean (place.live (.element e childNodes rest)) e childNodes
              (cleanAll (place.within e rest) childNodes) = .ok childNodes' ∧
            childNodes'.All CleanElement := by
          rcases enters_iff.mp hwalk with ⟨hnone, hinside⟩ | ⟨hone, hhidden⟩
          · obtain ⟨childNodes', hcleaned, hchildren⟩ := (ihc hpc).mpr hinside
            exact ⟨childNodes', clean_eq_ok.mpr (.inl ⟨hnone, hcleaned⟩), hchildren⟩
          · exact ⟨childNodes, clean_eq_ok.mpr (.inr ⟨hone, rfl⟩), hhidden⟩
        rw [← live_of_clean hchildren] at hunwrap
        obtain ⟨replaced, hleave⟩ := leave_ok_iff.mpr hunwrap
        have hreplaced := (leave_clean he himg hleave (nil_of_clean hinto)).mpr hchildren
        refine ⟨replaced.append rest', cleanAll_element.mpr ⟨replaced, rest',
          .inr ⟨hb, childNodes', hinto, hleave⟩, ?_, rfl⟩, Nodes.all_append.mpr
            ⟨hreplaced, hcleanrest⟩⟩
        rwa [behind_of_clean hreplaced]

theorem cleanAll_of_clean (h : nodes.All CleanElement) : cleanAll place nodes = .ok nodes := by
  induction nodes generalizing place with
  | nil => rfl
  | character data rest ih =>
    rw [cleanAll, ih h]
    rfl
  | element e childNodes rest ihc ihr =>
    obtain ⟨he, hchildren, hrest⟩ := Nodes.all_element.mp h
    have hself : (Nodes.element e childNodes .nil).All CleanElement :=
      Nodes.all_element.mpr ⟨he, hchildren, Nodes.all_nil⟩
    refine cleanAll_element.mpr ⟨.element e childNodes .nil, rest,
      .inr ⟨he.safe.unblocked, childNodes, ?_, ?_⟩, ?_, rfl⟩
    · exact clean_eq_ok.mpr (.inl ⟨shadow_of_allowed he.tag, ihc hchildren⟩)
    · rw [leave, if_neg (not_not_intro he.tag), he.strip]
    · rw [behind_of_clean hself]
      exact ihr hrest

theorem cleanAll_length (h : cleanAll place nodes = .ok out) :
    out.elements.length ≤ nodes.elements.length := by
  induction nodes generalizing place out with
  | nil =>
    obtain rfl := Except.ok.inj h
    exact le_refl _
  | character data rest ih =>
    obtain ⟨rest', hrest, rfl⟩ := except_map_eq_ok.mp h
    show rest'.elements.length ≤ rest.elements.length
    exact ih hrest
  | element e childNodes rest ihc ihr =>
    obtain ⟨replaced, rest', hnode, hrest, rfl⟩ := cleanAll_element.mp h
    have hlength : replaced.elements.length ≤ childNodes.elements.length + 1 := by
      obtain ⟨-, rfl⟩ | ⟨-, childNodes', hinto, hleave⟩ := hnode
      · exact Nat.zero_le _
      have hchildren : childNodes'.elements.length ≤ childNodes.elements.length := by
        rcases clean_eq_ok.mp hinto with ⟨-, hcleaned⟩ | ⟨-, rfl⟩
        · exact ihc hcleaned
        · exact le_refl _
      exact (leave_length hleave).trans (Nat.add_le_add_right hchildren 1)
    have hrest' := ihr hrest
    simp only [Nodes.elements_append, Nodes.elements, List.length_append, List.length_cons]
    omega

theorem clean_of_cleanAll (hs : nodes.All SafeElement) (h : cleanAll place nodes = .ok nodes) :
    nodes.All CleanElement := by
  induction nodes generalizing place with
  | nil => exact Nodes.all_nil
  | character data rest ih =>
    obtain ⟨rest', hrest, he⟩ := except_map_eq_ok.mp h
    injection he with _ hsame
    exact ih hs (hsame ▸ hrest)
  | element e childNodes rest ihc ihr =>
    obtain ⟨he, hchildren, hsafe⟩ := Nodes.all_element.mp hs
    obtain ⟨replaced, rest', hnode, hrest, heq⟩ := cleanAll_element.mp h
    obtain ⟨hb, -⟩ | ⟨-, childNodes', hinto, hleave⟩ := hnode
    · exact absurd hb he.unblocked
    rw [leave, if_neg (not_not_intro he.tag)] at hleave
    obtain rfl := Except.ok.inj hleave
    have hlower : ∀ a ∈ e.attributes, ignoreCase a.name = a.name := by
      have hnames : ∀ name ∈ [lit "src", lit "alt", lit "loading"], ignoreCase name = name := by
        decide
      exact fun a ha => hnames _ (he.attributes a ha).1
    rcases strip_cases e childNodes' with hnil | ⟨attributes, hself⟩
    · -- The image would have gone, and the loop over the rest cannot bring it back.
      rw [hnil] at heq
      have hlength := cleanAll_length hrest
      rw [show rest' = .element e childNodes rest from heq] at hlength
      simp only [Nodes.elements, List.length_cons, List.length_append] at hlength
      omega
    · rw [hself] at heq
      obtain ⟨heq', rfl, rfl⟩ := Nodes.element.inj heq
      have hcleaned : cleanAll _ childNodes' = .ok childNodes' :=
        (clean_eq_ok.mp hinto).elim And.right fun hone => by
          rw [shadow_of_allowed he.tag] at hone
          cases hone.1
      have hclean := strip_clean he.html he.tag hlower (ihc hchildren hcleaned)
      rw [hself, heq'] at hclean
      obtain ⟨hce, hcc, -⟩ := Nodes.all_element.mp hclean
      exact Nodes.all_element.mpr ⟨hce, hcc, ihr hsafe hrest⟩

/-- The walk into the whole tree; a body whose children are hidden keeps them. -/
def Reaches (place : Place) : Body → Prop
  | .node body childNodes => Enters (place.live (.element body childNodes .nil)) body
      (Walkable (place.within body .nil) childNodes) (childNodes.All SafeElement)
  | .collection _ => False

/-- The cleaning of a parsed tree ends with a safe tree, and leaves that as it is, when it begins at
one node and no form hides the properties it walks by. Otherwise it does not, unless it goes
astray. -/
theorem safeContent_sanitized {body : Body} (hp : Parsed body.childNodes) :
    (Reaches place body → Sanitized place body) ∧
      (¬ Reaches place body → safeContent place body ≠ .error .astray →
        ¬ Sanitized place body) := by
  cases body with
  | collection elements =>
    refine ⟨False.elim, ?_⟩
    rintro - - ⟨cleaned, hcleaned, -⟩
    rw [safeContent] at hcleaned
    split at hcleaned <;> cases hcleaned
  | node body childNodes =>
    have hfewer (h : body.shadow (place.live (.element body childNodes .nil)) "children" = none)
        {cleaned : Nodes} (hs : cleaned.All SafeElement) :
        body.shadow (place.live (.element body cleaned .nil)) "children" = none := by
      rw [live_element] at h ⊢
      rw [named_of_safe hs, List.nil_append]
      exact shadow_eq_none_of_subset h (List.subset_append_right _ _)
    rw [Reaches, enters_iff]
    constructor
    · rintro (⟨hnone, hwalk⟩ | ⟨hone, hsafe⟩)
      · obtain ⟨cleaned, hall, hclean⟩ := (cleanAll_clean_iff hp).mpr hwalk
        have hsafe := hclean.mono fun _ => CleanElement.safe
        exact ⟨cleaned, clean_eq_ok.mpr (.inl ⟨hnone, hall⟩), hsafe,
          clean_eq_ok.mpr (.inl ⟨hfewer hnone hsafe, cleanAll_of_clean hclean⟩)⟩
      · have hkept : safeContent place (.node body childNodes) = .ok childNodes :=
          clean_eq_ok.mpr (.inr ⟨hone, rfl⟩)
        exact ⟨childNodes, hkept, hsafe, hkept⟩
    · rintro hreaches - ⟨cleaned, hcleaned, hsafe, hagain⟩
      apply hreaches
      rcases clean_eq_ok.mp hcleaned with ⟨hnone, hall⟩ | ⟨hone, rfl⟩
      · refine .inl ⟨hnone, (cleanAll_clean_iff hp).mp ⟨cleaned, hall, ?_⟩⟩
        rcases clean_eq_ok.mp hagain with ⟨-, hfix⟩ | ⟨hone, -⟩
        · exact clean_of_cleanAll hsafe hfix
        · rw [hfewer hnone hsafe] at hone
          cases hone
      · exact .inr ⟨hone, hsafe⟩

theorem walkable_of_no_form (h : nodes.All fun e => e.isHtml "FORM" = false) :
    Walkable place nodes := by
  induction nodes generalizing place with
  | nil => trivial
  | character data rest ih => exact ih h
  | element e childNodes rest ihc ihr =>
    obtain ⟨he, hchildren, hrest⟩ := Nodes.all_element.mp h
    refine ⟨fun _ => ⟨enters_iff.mpr (.inl ⟨shadow_of_not_form he, ihc hchildren⟩), ?_⟩, ihr hrest⟩
    exact ⟨shadow_of_not_form he, shadow_of_not_form he⟩

end Cleaning

section Notes

/-- An HTML element outside of every form, written with literals. -/
def htmlElement (tagName : String) (attributes : List (String × String)) : Element :=
  ⟨.html, lit tagName, attributes.map fun a => ⟨lit a.1, lit a.2⟩, 0, none⟩

/-- `<form><p onclick="x"><svg><title><img src="a.png" onerror="x"></title></svg></p></form>`. -/
def plainNote : Nodes :=
  .element (htmlElement "FORM" []) (.element (htmlElement "P" [("onclick", "x")])
    (.element ⟨.svg, lit "svg", [], 0, none⟩ (.element ⟨.svg, lit "title", [], 0, none⟩
      (.element (htmlElement "IMG" [("src", "a.png"), ("onerror", "x")]) .nil .nil) .nil) .nil)
    .nil) .nil

def plainBody (childNodes : Nodes) : Body := .node (htmlElement "BODY" []) childNodes

theorem safeContent_sanitized_plainNote : Sanitized ⟨[], [], none⟩ (plainBody plainNote) := by
  refine (safeContent_sanitized (by decide +kernel)).1 ?_
  rw [plainBody, Reaches, enters_iff]
  refine .inl ⟨rfl, fun _ => ⟨enters_iff.mpr (.inl ⟨?_, ?_⟩), ?_⟩, trivial⟩
  · decide +kernel
  · exact walkable_of_no_form (by decide +kernel)
  · decide +kernel

/-- `<p id="x"></p><form id="x"><img src="q" onerror="y"></form>` and then
`<input form="x" name="children">`. -/
def reclaimedNote : Nodes :=
  .element (htmlElement "P" [("id", "x")]) .nil
    (.element { htmlElement "FORM" [("id", "x")] with node := 1 }
      (.element { htmlElement "IMG" [("src", "q"), ("onerror", "y")] with form := some 1 }
        .nil .nil)
      (.element (htmlElement "INPUT" [("form", "x"), ("name", "children")]) .nil .nil))

/-- The form has the control from when the paragraph has lost its id. -/
example : safeContent ⟨[], [], none⟩ (plainBody reclaimedNote) =
    .ok (.element (htmlElement "P" []) .nil
      (.element (htmlElement "IMG" [("src", "q"), ("onerror", "y")]) .nil .nil)) := by
  decide +kernel

/-- `<form><input name="children"><img src="x" onerror="alert(1)"></form>`. -/
def hidingNote : Nodes :=
  .element { htmlElement "FORM" [] with node := 1 }
    (.element { htmlElement "INPUT" [("name", "children")] with form := some 1 } .nil
      (.element { htmlElement "IMG" [("src", "x"), ("onerror", "alert(1)")] with form := some 1 }
        .nil .nil)) .nil

/-- The form goes, and what it holds is left as it was. -/
theorem safeContent_hidingNote : safeContent ⟨[], [], none⟩ (plainBody hidingNote) =
    .ok (.element (htmlElement "INPUT" [("name", "children")]) .nil
      (.element (htmlElement "IMG" [("src", "x"), ("onerror", "alert(1)")]) .nil .nil)) := by
  decide +kernel

theorem safeContent_unsanitized : ¬ ∀ place body, Parsed body.childNodes →
    Sanitized place body := by
  intro h
  obtain ⟨cleaned, hcleaned, hsafe, -⟩ :=
    h ⟨[], [], none⟩ (plainBody hidingNote) (by decide +kernel)
  rw [safeContent_hidingNote] at hcleaned
  obtain rfl := Except.ok.inj hcleaned
  have htag := (hsafe _ List.mem_cons_self).tag
  exact absurd htag (by decide +kernel)

end Notes
end HmDianPing.Frontend
