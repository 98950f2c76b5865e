import HmDianPing.Frontend.Destination
import HmDianPing.Text.Decimal
import HmDianPing.Text.UrlEncoded

/-! # What queries carry

`common.js` writes the parameters of requests and the way back from the login page into
queries. The browser encodes them once more when it parses the address, and the other
side reads them as form data.
-/
namespace HmDianPing.Frontend
open Text

/-- The parameters that are sent; `none` stands for `undefined` and `null`, and a number for its
text. -/
def keptParams (params : List (Str × Option Str)) : List (Str × Str) :=
  params.filterMap fun p => (p.2.filter fun value => value ≠ []).map fun value => (p.1, value)

def serializeParam (p : Str × Str) : Option Str := do
  let key ← encodeURIComponent p.1
  let value ← encodeURIComponent p.2
  return key ++ lit "=" ++ value

def paramsSerializer (params : List (Str × Option Str)) : Option Str := do
  let parts ← (keptParams params).mapM serializeParam
  return (lit "&").intercalate parts

/-- Where a page is. The URL serializer of the browser writes ASCII, without surrogates. -/
structure Location where
  pathname : Str
  search : Str
  wellFormed : isWellFormed (pathname ++ search) = true

def toLogin (location : Location) : Option Str := do
  let next := location.pathname ++ location.search
  let redirect ← encodeURIComponent next
  return lit "/login.html?redirect=" ++ redirect

/-- `location.search` of the page that is navigated to `reference`. -/
def searchOf (reference : Str) : Str :=
  match cut 0x3F ((urlInput reference).takeWhile (· ≠ 0x23)) with
  | none => []
  | some (_, query) => if query = [] then [] else 0x3F :: storedQuery query

def searchParam (search name : Str) : Option Str :=
  ((parseForm (if search.head? = some 0x3F then search.tail else search)).find?
    fun p => p.1 = name).map Prod.snd

section Encoding
variable {s : Str} {p : Str × Str}

theorem harmless_isUnescaped : Harmless isUnescaped := by
  intro n hn
  simp only [isUnescaped, isAlphanumeric, Bool.or_eq_true, Bool.and_eq_true, decide_eq_true_eq,
    List.mem_cons, List.not_mem_nil, or_false] at hn
  omega

/-- A character of an encoded text ends no address, and the parser drops none. -/
theorem encoded_range {c : UInt16} (h : c ∈ percentEncode isUnescaped s) :
    0x20 < c.toNat ∧ c.toNat ≠ 0x23 := by
  have hc := mem_percentEncode harmless_isUnescaped h
  simp only [isUnescaped, isAlphanumeric, Bool.or_eq_true, Bool.and_eq_true, decide_eq_true_eq,
    List.mem_cons, List.not_mem_nil, or_false] at hc
  omega

def Sendable (p : Str × Str) : Prop := isWellFormed p.1 = true ∧ isWellFormed p.2 = true

instance : DecidablePred Sendable := fun _ => inferInstanceAs (Decidable (_ ∧ _))

theorem serializeParam_eq (p : Str × Str) :
    serializeParam p = if Sendable p then some (encodedPair isUnescaped p) else none := by
  unfold serializeParam encodeURIComponent Sendable
  by_cases hkey : isWellFormed p.1 = true <;> by_cases hvalue : isWellFormed p.2 = true <;>
    simp [hkey, hvalue, encodedPair, lit]

theorem mapM_serializeParam (ps : List (Str × Str)) : ps.mapM serializeParam =
    if ∀ p ∈ ps, Sendable p then some (ps.map (encodedPair isUnescaped)) else none := by
  induction ps with
  | nil => rfl
  | cons p ps ih =>
    rw [List.mapM_cons, serializeParam_eq, ih]
    by_cases hp : Sendable p
    · by_cases hps : ∀ q ∈ ps, Sendable q
      · rw [if_pos hp, if_pos hps, if_pos (List.forall_mem_cons.mpr ⟨hp, hps⟩)]
        rfl
      · rw [if_pos hp, if_neg hps, if_neg fun h => hps (List.forall_mem_cons.mp h).2]
        rfl
    · rw [if_neg hp, if_neg fun h => hp (List.forall_mem_cons.mp h).1]
      rfl

end Encoding

/-- What is sent is read as the parameters that have a value, in their order; nothing is sent
exactly when one of them holds an unpaired surrogate. -/
theorem paramsSerializer_readBack (params : List (Str × Option Str)) :
    (∀ query, paramsSerializer params = some query →
      parseForm (storedQuery query) = keptParams params) ∧
    (paramsSerializer params = none ↔ ∃ p ∈ keptParams params, ¬ Sendable p) := by
  have hserialize : paramsSerializer params = if ∀ p ∈ keptParams params, Sendable p
      then some (encodedPairs isUnescaped (keptParams params)) else none := by
    rw [paramsSerializer, mapM_serializeParam]
    split_ifs <;> rfl
  rw [hserialize]
  by_cases hall : ∀ p ∈ keptParams params, Sendable p
  · rw [if_pos hall]
    refine ⟨fun query hquery => ?_, ?_⟩
    · cases hquery
      rw [storedQuery_encodedPairs harmless_isUnescaped]
      exact parseForm_encodedPairs harmless_isUnescaped.keptInQuery hall
    · simpa using hall
  · rw [if_neg hall]
    refine ⟨fun query hquery => ?_, ?_⟩
    · cases hquery
    · simpa using hall

theorem paramsSerializer_readBack_search : ∃ query,
    paramsSerializer [(lit "name", some (lit "茶 & coffee")), (lit "typeId", none)] = some query ∧
      parseForm (storedQuery query) = [(lit "name", lit "茶 & coffee")] := by
  have hsent : (paramsSerializer
      [(lit "name", some (lit "茶 & coffee")), (lit "typeId", none)]).isSome = true := by
    decide
  obtain ⟨query, hquery⟩ := Option.isSome_iff_exists.mp hsent
  have hkept : keptParams [(lit "name", some (lit "茶 & coffee")), (lit "typeId", none)] =
      [(lit "name", lit "茶 & coffee")] := by decide
  exact ⟨query, hquery, ((paramsSerializer_readBack _).1 query hquery).trans hkept⟩

section Login
variable {s : Str}

theorem urlInput_eq (h : ∀ c ∈ s, 0x20 < c.toNat) : urlInput s = s := by
  have hcontrol : ∀ c ∈ s, isC0ControlOrSpace c = false := by
    intro c hc
    have hlarge := h c hc
    simp only [isC0ControlOrSpace, inRange, Bool.and_eq_false_iff, decide_eq_false_iff_not]
    omega
  have htrimmed : Trimmed isC0ControlOrSpace s :=
    ⟨fun c hc => hcontrol c (List.mem_of_mem_head? hc),
      fun c hc => hcontrol c (List.mem_of_mem_getLast? hc)⟩
  rw [urlInput, htrimmed.trimBy_eq, List.filter_eq_self]
  intro c hc
  have hlarge := h c hc
  have hne : ∀ d : UInt16, d.toNat ≤ 0x20 → c ≠ d := by
    rintro d hd rfl
    omega
  simp [isTabOrNewline, hne 0x09 (by decide), hne 0x0A (by decide), hne 0x0D (by decide)]

theorem searchParam_searchOf (path name : Str)
    (hpath : ∀ c ∈ path ++ name, 0x20 < c.toNat ∧ c ≠ 0x23 ∧ c ≠ 0x3F)
    (hname : percentEncode isUnescaped name = name) (hwell : isWellFormed name = true)
    (hs : isWellFormed s = true) :
    searchParam (searchOf (path ++ 0x3F :: (name ++ 0x3D :: percentEncode isUnescaped s))) name =
      some s := by
  have hquery : name ++ 0x3D :: percentEncode isUnescaped s =
      encodedPairs isUnescaped [(name, s)] := by
    simp [encodedPairs, encodedPair, hname]
  have hrange : ∀ c ∈ path ++ 0x3F :: (name ++ 0x3D :: percentEncode isUnescaped s),
      0x20 < c.toNat ∧ c ≠ 0x23 := by
    intro c hc
    simp only [List.mem_append, List.mem_cons] at hc hpath
    rcases hc with hc | rfl | hc | rfl | hc
    · exact ⟨(hpath c (.inl hc)).1, (hpath c (.inl hc)).2.1⟩
    · decide
    · exact ⟨(hpath c (.inr hc)).1, (hpath c (.inr hc)).2.1⟩
    · decide
    · obtain ⟨hlarge, hne⟩ := encoded_range hc
      exact ⟨hlarge, fun h => hne (by rw [h]; rfl)⟩
  have hcut : 0x3F ∉ path := fun hc => (hpath _ (List.mem_append_left _ hc)).2.2 rfl
  have hsearch : searchOf (path ++ 0x3F :: (name ++ 0x3D :: percentEncode isUnescaped s)) =
      0x3F :: encodedPairs (keptInQuery isUnescaped) [(name, s)] := by
    rw [searchOf, urlInput_eq fun c hc => (hrange c hc).1,
      List.takeWhile_eq_self_iff.mpr fun c hc => decide_eq_true (hrange c hc).2, cut_append hcut,
      hquery]
    have hne : encodedPairs isUnescaped [(name, s)] ≠ [] := by
      simp [encodedPairs, encodedPair]
    simp only [if_neg hne, storedQuery_encodedPairs harmless_isUnescaped]
  have hread : parseForm (encodedPairs (keptInQuery isUnescaped) [(name, s)]) = [(name, s)] :=
    parseForm_encodedPairs harmless_isUnescaped.keptInQuery (by simp [hwell, hs])
  simp [searchParam, hsearch, hread]

end Login

/-- The login page leads back to the page that has sent the user there, with its query, and to the
page of the user when the address is one it does not accept, as its own is. -/
theorem login_leads_back (location : Location) :
    ∃ reference, toLogin location = some reference ∧
      loginDestination (searchParam (searchOf reference) (lit "redirect")) =
        if Accepted (location.pathname ++ location.search)
        then location.pathname ++ location.search else lit "/info.html" := by
  have hwell := location.wellFormed
  refine ⟨lit "/login.html?redirect=" ++
    percentEncode isUnescaped (location.pathname ++ location.search), ?_, ?_⟩
  · simp [toLogin, encodeURIComponent, hwell]
  · have hreference : lit "/login.html?redirect=" ++
        percentEncode isUnescaped (location.pathname ++ location.search) =
        lit "/login.html" ++ 0x3F :: (lit "redirect" ++ 0x3D ::
          percentEncode isUnescaped (location.pathname ++ location.search)) := rfl
    have hpath : (lit "/login.html" ++ lit "redirect").all
        (fun c => 0x20 < c.toNat ∧ c ≠ 0x23 ∧ c ≠ 0x3F) = true := by decide
    have hparam := searchParam_searchOf (lit "/login.html") (lit "redirect")
      (fun c hc => of_decide_eq_true (List.all_eq_true.mp hpath c hc)) (by decide) (by decide) hwell
    rw [hreference, hparam]
    rfl

end HmDianPing.Frontend
