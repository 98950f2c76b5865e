import HmDianPing.Text.Utf16

/-! # Trees of DOM nodes

The part of the DOM that scripts edit trees with: elements and their attributes, and
the names by which a form answers for its controls. A name that is also a property of
every element hides that property of the form.
-/
namespace HmDianPing.Web
open Text

inductive Namespace where
  | html | svg | mathml
deriving DecidableEq, Repr

structure Attr where
  name : Str
  value : Str
deriving DecidableEq

/-- `node` tells a form from the others; `form` is the form owner, which need not be an ancestor, of
an image or of a control without the attribute of that name. -/
structure Element where
  namespaceURI : Namespace
  tagName : Str
  attributes : List Attr
  node : ℕ
  form : Option ℕ
deriving DecidableEq

namespace Element

def withAttributes (e : Element) (attributes : List Attr) : Element :=
  { e with attributes := attributes }

@[simp] theorem withAttributes_self (e : Element) : e.withAttributes e.attributes = e := rfl

def isHtml (e : Element) (tagName : String) : Bool :=
  e.namespaceURI = .html ∧ e.tagName = lit tagName

def getAttribute (e : Element) (name : Str) : Option Str :=
  (e.attributes.find? fun a => a.name = name).map Attr.value

end Element

inductive CharacterData where
  | text (data : Str)
  | comment (data : Str)
deriving DecidableEq

/-- A list of nodes, each with its child nodes. -/
inductive Nodes where
  | nil
  | character (data : CharacterData) (rest : Nodes)
  | element (e : Element) (childNodes rest : Nodes)
deriving DecidableEq

namespace Nodes

def append : Nodes → Nodes → Nodes
  | .nil, nodes => nodes
  | .character data rest, nodes => .character data (rest.append nodes)
  | .element e childNodes rest, nodes => .element e childNodes (rest.append nodes)

/-- The elements at any depth, in tree order. -/
def elements : Nodes → List Element
  | .nil => []
  | .character _ rest => rest.elements
  | .element e childNodes rest => e :: (childNodes.elements ++ rest.elements)

def All (P : Element → Prop) (nodes : Nodes) : Prop := ∀ e ∈ nodes.elements, P e

instance (P : Element → Prop) [DecidablePred P] (nodes : Nodes) : Decidable (nodes.All P) :=
  inferInstanceAs (Decidable (∀ e ∈ nodes.elements, P e))

section Lemmas
variable {P Q : Element → Prop} {nodes nodes' childNodes rest : Nodes} {e : Element}

@[simp] theorem elements_append (nodes nodes' : Nodes) :
    (nodes.append nodes').elements = nodes.elements ++ nodes'.elements := by
  induction nodes with
  | nil => rfl
  | character data rest ih => exact ih
  | element e childNodes rest _ ih => simp [append, elements, ih]

theorem all_nil : Nodes.nil.All P := by simp [All, elements]

theorem all_element :
    (element e childNodes rest).All P ↔ P e ∧ childNodes.All P ∧ rest.All P := by
  simp [All, elements, or_imp, forall_and]

theorem all_append : (nodes.append nodes').All P ↔ nodes.All P ∧ nodes'.All P := by
  simp [All, or_imp, forall_and]

theorem All.mono (h : nodes.All P) (hPQ : ∀ e, P e → Q e) : nodes.All Q :=
  fun e he => hPQ e (h e he)

end Lemmas
end Nodes

section Attributes

/-- `removeAttribute`, of an HTML element: it looks for the name in lower case. -/
def removeAttribute (attributes : List Attr) (name : Str) : List Attr :=
  attributes.eraseP fun a => a.name = ignoreCase name

def setAttribute : List Attr → Str → Str → List Attr
  | [], name, value => [⟨name, value⟩]
  | a :: attributes, name, value =>
    if a.name = name then ⟨name, value⟩ :: attributes
    else a :: setAttribute attributes name value

theorem foldl_removeAttribute {attributes : List Attr}
    (h : ∀ a ∈ attributes, ignoreCase a.name = a.name) :
    attributes.foldl (fun attributes a => removeAttribute attributes a.name) attributes = [] := by
  induction attributes with
  | nil => rfl
  | cons a attributes ih =>
    have hfirst : removeAttribute (a :: attributes) a.name = attributes :=
      List.eraseP_cons_of_pos (by simp [h a List.mem_cons_self])
    rw [List.foldl_cons, hfirst]
    exact ih fun b hb => h b (List.mem_cons_of_mem a hb)

end Attributes

section Moves
variable (inside : List ℕ) (e : Element) (form : Option ℕ)

/-- The form owner is reset to the nearest form around, unless it has moved as well. -/
def Element.resetForm : Element :=
  if e.form.any fun owner => owner ∈ inside then e else { e with form := form }

/-- The nearest form around the child nodes, when `form` is the one around the element. -/
def Element.formWithin : Option ℕ := if e.isHtml "FORM" then some e.node else form

namespace Nodes

def forms (nodes : Nodes) : List ℕ :=
  (nodes.elements.filter fun e => e.isHtml "FORM").map Element.node

def resetForms (form : Option ℕ) : Nodes → Nodes
  | .nil => .nil
  | .character data rest => .character data (resetForms form rest)
  | .element e childNodes rest => .element (e.resetForm inside form)
      (resetForms (e.formWithin form) childNodes) (resetForms form rest)

/-- The nodes after a move, one by one, to where `form` is the nearest form around. -/
def moved (form : Option ℕ) : Nodes → Nodes
  | .nil => .nil
  | .character data rest => .character data (moved form rest)
  | .element e childNodes rest =>
    ((element e childNodes .nil).resetForms (element e childNodes .nil).forms form).append
      (moved form rest)

end Nodes

end Moves

section MoveLemmas
variable {inside : List ℕ} {form : Option ℕ} {nodes : Nodes} {P : Element → Prop}

theorem all_resetForms (hP : ∀ e form, P { e with form := form } ↔ P e) :
    (nodes.resetForms inside form).All P ↔ nodes.All P := by
  have hreset (e : Element) (form : Option ℕ) : P (e.resetForm inside form) ↔ P e := by
    unfold Element.resetForm
    split
    · exact Iff.rfl
    · exact hP e form
  induction nodes generalizing form with
  | nil => exact Iff.rfl
  | character data rest ih => exact ih
  | element e childNodes rest ihc ihr =>
    simp only [Nodes.resetForms, Nodes.all_element, hreset, ihc, ihr]

theorem all_moved (hP : ∀ e form, P { e with form := form } ↔ P e) :
    (nodes.moved form).All P ↔ nodes.All P := by
  induction nodes with
  | nil => exact Iff.rfl
  | character data rest ih => exact ih
  | element e childNodes rest _ ih =>
    rw [Nodes.moved, Nodes.all_append, all_resetForms hP, ih, Nodes.all_element,
      Nodes.all_element, and_assoc]
    simp [Nodes.all_nil]

theorem length_resetForms :
    (nodes.resetForms inside form).elements.length = nodes.elements.length := by
  induction nodes generalizing form with
  | nil => rfl
  | character data rest ih => exact ih
  | element e childNodes rest ihc ihr => simp [Nodes.resetForms, Nodes.elements, ihc, ihr]

theorem length_moved : (nodes.moved form).elements.length = nodes.elements.length := by
  induction nodes with
  | nil => rfl
  | character data rest ih => exact ih
  | element e childNodes rest _ ih =>
    simp [Nodes.moved, Nodes.elements, length_resetForms, ih, Nat.add_right_comm]

end MoveLemmas

section Forms

/-- An input in the state Image Button. -/
def Element.isImageButton (e : Element) : Bool :=
  e.isHtml "INPUT" && ((e.getAttribute (lit "type")).map ignoreCase = some (lit "image"))

/-- The listed elements, as far as a form answers for them. -/
def Element.isControl (e : Element) : Bool :=
  ["BUTTON", "FIELDSET", "INPUT", "OBJECT", "OUTPUT", "SELECT", "TEXTAREA"].any e.isHtml &&
    !e.isImageButton

def Element.names (e : Element) : List Str := [lit "id", lit "name"].filterMap e.getAttribute

/-- An element with an id or a name. -/
def Element.isNamed (e : Element) : Bool := !e.names.isEmpty

def Nodes.named (nodes : Nodes) : List Element := nodes.elements.filter Element.isNamed

/-- The element belongs to the form `f`, in the document whose named elements are `live` in tree
order: a control with the attribute `form` to the first element of that id. -/
def Element.isOf (c f : Element) (live : List Element) : Bool :=
  match c.isControl, c.getAttribute (lit "form") with
  | true, some id => id ≠ [] ∧ live.find? (fun e => e.getAttribute (lit "id") = some id) = some f
  | _, _ => c.form = some f.node

/-- Where nodes stand: the named elements before and behind them and the nearest form around. -/
structure Place where
  before : List Element
  after : List Element
  form : Option ℕ

namespace Place
variable (p : Place)

def live (nodes : Nodes) : List Element := p.before ++ nodes.named ++ p.after

/-- The place of the child nodes of an element with `rest` behind it. -/
def within (e : Element) (rest : Nodes) : Place :=
  ⟨p.before ++ [e].filter Element.isNamed, rest.named ++ p.after, e.formWithin p.form⟩

def behind (nodes : Nodes) : Place := { p with before := p.before ++ nodes.named }

end Place

inductive Shadow where
  /-- One element that is not itself a list. -/
  | one
  /-- A `select`, which is the list of its options, or the list of several elements. -/
  | many
deriving DecidableEq

/-- The elements the form answers with under a name: its controls, or else its images. -/
def Element.answers (f : Element) (live : List Element) (name : Str) : List Element :=
  let named := live.filter fun c => c.isOf f live ∧ name ∈ c.names
  if named.filter Element.isControl = [] then named.filter fun c => c.isHtml "IMG"
  else named.filter Element.isControl

def Element.shadow (f : Element) (live : List Element) (property : String) : Option Shadow :=
  if f.isHtml "FORM" then
    match f.answers live (lit property) with
    | [] => none
    | [c] => some (if c.isHtml "SELECT" then .many else .one)
    | _ => some .many
  else none

variable {f e : Element} {live live' : List Element} {property : String}

theorem shadow_eq_none_iff : f.shadow live property = none ↔
    (f.isHtml "FORM" = true → f.answers live (lit property) = []) := by
  unfold Element.shadow
  by_cases hf : f.isHtml "FORM" = true
  · rw [if_pos hf]
    match f.answers live (lit property) with
    | [] => simp
    | [c] => simp [hf]
    | c :: d :: cs => simp [hf]
  · simp [hf]

theorem shadow_of_not_form (hf : f.isHtml "FORM" = false) : f.shadow live property = none :=
  shadow_eq_none_iff.mpr fun h => absurd h (by simp [hf])

theorem answers_eq_nil_iff {name : Str} : f.answers live name = [] ↔
    ∀ c ∈ live, c.isControl = true ∨ c.isHtml "IMG" = true →
      ¬ (c.isOf f live = true ∧ name ∈ c.names) := by
  unfold Element.answers
  dsimp only
  split
  next h =>
    simp only [List.filter_eq_nil_iff, List.mem_filter, decide_eq_true_eq] at h ⊢
    constructor
    · rintro himg c hc (hcontrol | hc') hn
      · exact h c ⟨hc, hn⟩ hcontrol
      · exact himg c ⟨hc, hn⟩ hc'
    · intro hall c hc himg
      exact hall c hc.1 (.inr himg) hc.2
  next h =>
    refine iff_of_false h fun hall => h ?_
    simp only [List.filter_eq_nil_iff, List.mem_filter, decide_eq_true_eq]
    exact fun c hc hcontrol => hall c hc.1 (.inl hcontrol) hc.2

theorem isOf_of_subset {c : Element} {before after after' : List Element}
    (h : c.isOf f (before ++ [f].filter Element.isNamed ++ after') = true) :
    c.isOf f (before ++ [f].filter Element.isNamed ++ after) = true := by
  unfold Element.isOf at h ⊢
  split
  next id hcontrol hform =>
    simp only [hcontrol, hform, decide_eq_true_eq] at h ⊢
    obtain ⟨hid, hfind⟩ := h
    refine ⟨hid, ?_⟩
    -- The form has the id itself, so that no element behind it is looked at.
    have hf : f.getAttribute (lit "id") = some id := by simpa using List.find?_some hfind
    have hnamed : f.isNamed = true := by simp [Element.isNamed, Element.names, hf]
    have hfirst : ((before ++ [f].filter Element.isNamed).find?
        fun e => e.getAttribute (lit "id") = some id).isSome := by
      rw [List.find?_isSome]
      exact ⟨f, by simp [hnamed], by simpa using hf⟩
    obtain ⟨e, he⟩ := Option.isSome_iff_exists.mp hfirst
    rw [List.find?_append, he] at hfind ⊢
    exact hfind
  next hother =>
    split at h
    next id hcontrol hform => exact absurd hform (hother id hcontrol)
    next => exact h

/-- Fewer elements behind the form hide no more. -/
theorem shadow_eq_none_of_subset {before after after' : List Element}
    (h : f.shadow (before ++ [f].filter Element.isNamed ++ after) property = none)
    (hsub : after' ⊆ after) :
    f.shadow (before ++ [f].filter Element.isNamed ++ after') property = none := by
  rw [shadow_eq_none_iff] at h ⊢
  intro hf
  have hnone := answers_eq_nil_iff.mp (h hf)
  refine answers_eq_nil_iff.mpr fun c hc hkind hc' => hnone c ?_ hkind ⟨isOf_of_subset hc'.1, hc'.2⟩
  rcases List.mem_append.mp hc with hc | hc
  · exact List.mem_append_left _ hc
  · exact List.mem_append_right _ (hsub hc)

end Forms
end HmDianPing.Web
