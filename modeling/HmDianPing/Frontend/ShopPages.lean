import HmDianPing.Geo.Discovery
import HmDianPing.Interleaving.Machine

/-! # Pages that list shops

`map.html` and `shop-list.html` load ten shops at a time, and begin anew when something
else is looked for. Replies come back in any order. Each is compared with the generation
of the page, so that one that comes too late changes nothing.
-/
namespace HmDianPing.Frontend
open Interleaving Program Ranking

variable {S Q Row : Type}

/-- The data of a page, of what its requests are made and what its template shows. -/
structure ShopPage (Q Row : Type) where
  params : Q
  shops : List Row
  current : ℕ
  loading : Bool
  hasMore : Bool
  error : String
  generation : ℕ

/-- What a request asks for, with the generation that its callbacks remember. -/
structure PageRequest (Q : Type) where
  generation : ℕ
  params : Q
  current : ℕ

namespace ShopPage

def blank (params : Q) : ShopPage Q Row := ⟨params, [], 1, false, true, "", 0⟩

def query (p : ShopPage Q Row) (reset : Bool) : ShopPage Q Row × Option (PageRequest Q) :=
  if !reset && (p.loading || !p.hasMore) then (p, none)
  else
    let p := if reset then
        { p with generation := p.generation + 1, current := 1, shops := [], hasMore := true }
      else p
    ({ p with loading := true, error := "" }, some ⟨p.generation, p.params, p.current⟩)

/-- The callback of `then`. -/
def received (p : ShopPage Q Row) (generation : ℕ) (rows : List Row) : ShopPage Q Row :=
  if generation ≠ p.generation then p
  else { p with
    shops := p.shops ++ rows
    current := p.current + 1
    hasMore := rows.length == 10 }

/-- The callback of `catch`. -/
def failed (p : ShopPage Q Row) (generation : ℕ) (e : String) : ShopPage Q Row :=
  if generation = p.generation then { p with error := e } else p

/-- The callback of `finally`. -/
def settled (p : ShopPage Q Row) (generation : ℕ) : ShopPage Q Row :=
  if generation = p.generation then { p with loading := false } else p

end ShopPage

inductive PageCommand (Q Row : Type) where
  | get (request : PageRequest Q)
  | received (generation : ℕ) (rows : List Row)
  | failed (generation : ℕ) (e : String)
  | settled (generation : ℕ)

abbrev PageCommand.Reply : PageCommand Q Row → Type
  | .get _ => List Row
  | _ => Unit

abbrev PageProgram (Q Row : Type) := Program (PageCommand Q Row) PageCommand.Reply String

/-- `axios.get(url, params).then(…).catch(…).finally(…)`. -/
def PageRequest.run (request : PageRequest Q) : PageProgram Q Row Unit := do
  try
    let rows ← perform (PageCommand.get request)
    perform (PageCommand.received request.generation rows)
  catch e =>
    perform (PageCommand.failed request.generation e)
  perform (PageCommand.settled request.generation)

structure PageSite (S Q Row : Type) where
  server : S
  page : ShopPage Q Row

/-- What becomes of a request: an answer, or the text of the interceptor where there is none. -/
inductive Delivery where
  | answered
  | lost (e : String)

/-- What a page shows of a server. -/
abbrev Service (S Q Row : Type) := S → Q → ℕ → Except String (List Row)

namespace PageSite

def onPage (s : PageSite S Q Row) (page : ShopPage Q Row) :
    Option (Except String Unit × PageSite S Q Row) := some (.ok (), { s with page := page })

def exec (serve : Service S Q Row) : (c : PageCommand Q Row) → Delivery → PageSite S Q Row →
    Option (Except String c.Reply × PageSite S Q Row)
  | .get request, .answered, s => some (serve s.server request.params request.current, s)
  | .get _, .lost e, s => some (.error e, s)
  | .received generation rows, .answered, s => s.onPage (s.page.received generation rows)
  | .failed generation e, .answered, s => s.onPage (s.page.failed generation e)
  | .settled generation, .answered, s => s.onPage (s.page.settled generation)
  | _, .lost _, _ => none

end PageSite

/-- The user looks for something else or wants more, or the server changes. -/
inductive PageAction (S Q : Type) where
  | reset (params : Q)
  | more
  | update (server : S)

abbrev PageThread (Q Row : Type) := Thread (PageCommand Q Row) PageCommand.Reply String (PageRequest Q)

abbrev PagePool (S Q Row : Type) :=
  Config (PageSite S Q Row) (PageCommand Q Row) PageCommand.Reply String (PageRequest Q)

def PageSite.query (s : PageSite S Q Row) (reset : Bool) :
    PageSite S Q Row × List (PageThread Q Row) :=
  ({ s with page := (s.page.query reset).1 },
    (s.page.query reset).2.toList.map fun request => ⟨request, request.run⟩)

def shopPages (serve : Service S Q Row) : Machine (PageSite S Q Row) (PageCommand Q Row)
    PageCommand.Reply String (PageRequest Q) Delivery (PageAction S Q) where
  exec := PageSite.exec serve
  act
    | .reset params, s => some ({ s with page := { s.page with params := params } }.query true)
    | .more, s => some (s.query false)
    | .update server, s => some ({ s with server := server }, [])

/-- Every request ends, by its timeout if not before, and the answers to what the page looks for
stay the same while it does. -/
def AnswersStay (serve : Service S Q Row) (c : PagePool S Q Row) :
    Move Delivery (PageAction S Q) → Prop
  | .crash _ => False
  | .act (.update server) => ∀ current,
    serve server c.shared.page.params current = serve c.shared.server c.shared.page.params current
  | _ => True

def userMove : Move Delivery (PageAction S Q) → Bool
  | .run _ _ => true
  | .act (.reset _) => true
  | .act .more => true
  | _ => false

theorem answersStay_of_userMove {serve : Service S Q Row} (c : PagePool S Q Row)
    (m : Move Delivery (PageAction S Q)) (h : userMove m = true) : AnswersStay serve c m := by
  cases m with
  | run i f => trivial
  | crash i => cases h
  | act action =>
    cases action with
    | update server => cases h
    | _ => trivial

def opened (server : S) (params : Q) : PagePool S Q Row :=
  let s := (PageSite.mk server (ShopPage.blank params)).query true
  ⟨s.1, s.2⟩

/-- A request whose callbacks are still to come and are not too late. -/
def InProgress (page : ShopPage Q Row) (t : PageThread Q Row) : Prop :=
  t.tag.generation = page.generation ∧ t.program.ended = false

namespace PageRequest

inductive Stage (Row : Type) where
  | sent
  | answered (rows : List Row)
  | rejected (e : String)
  | handled
  | finished

variable (request : PageRequest Q)

def rest : Stage Row → PageProgram Q Row Unit
  | .sent => request.run
  | .answered rows => do
    try
      perform (PageCommand.received request.generation rows)
    catch e =>
      perform (PageCommand.failed request.generation e)
    perform (PageCommand.settled request.generation)
  | .rejected e => do
    perform (PageCommand.failed request.generation e)
    perform (PageCommand.settled request.generation)
  | .handled => perform (PageCommand.settled request.generation)
  | .finished => .done (.ok ())

/-- What the page and the server know of a request that is not too late. -/
def Fits (serve : Service S Q Row) (s : PageSite S Q Row) : Stage Row → Prop
  | .sent => request.params = s.page.params ∧ request.current = s.page.current ∧
    s.page.hasMore = true
  | .answered rows => serve s.server s.page.params s.page.current = .ok rows ∧ s.page.hasMore = true
  | _ => True

/-- Everything the next command of a request can do. -/
inductive Advances (serve : Service S Q Row) (s : PageSite S Q Row) :
    Stage Row → ShopPage Q Row → Stage Row → Prop
  | answered {rows : List Row} (answer : serve s.server request.params request.current = .ok rows) :
      Advances serve s .sent s.page (.answered rows)
  | rejected {e : String} : Advances serve s .sent s.page (.rejected e)
  | received {rows : List Row} : Advances serve s (.answered rows)
      (s.page.received request.generation rows) .handled
  | failed {e : String} : Advances serve s (.rejected e) (s.page.failed request.generation e) .handled
  | settled : Advances serve s .handled (s.page.settled request.generation) .finished

end PageRequest

section Step
variable {serve : Service S Q Row} {request : PageRequest Q} {s s' : PageSite S Q Row}
  {stage stage' : PageRequest.Stage Row} {page' : ShopPage Q Row}

theorem advances_of_request {cmd : PageCommand Q Row} {f : Delivery} {r : Except String cmd.Reply}
    {k : Except String cmd.Reply → PageProgram Q Row Unit} (h : request.rest stage = .call cmd k)
    (hexec : PageSite.exec serve cmd f s = some (r, s')) :
    ∃ stage', k r = request.rest stage' ∧ s'.server = s.server ∧
      request.Advances serve s stage s'.page stage' := by
  cases stage with
  | sent =>
    cases h
    cases f with
    | answered =>
      obtain ⟨hr, rfl⟩ := Prod.mk.inj (Option.some.inj hexec)
      cases r with
      | ok rows => exact ⟨.answered rows, rfl, rfl, .answered hr⟩
      | error e => exact ⟨.rejected e, rfl, rfl, .rejected⟩
    | lost e =>
      cases hexec
      exact ⟨.rejected e, rfl, rfl, .rejected⟩
  | answered rows =>
    cases h
    cases f <;> cases hexec
    exact ⟨.handled, rfl, rfl, .received⟩
  | rejected e =>
    cases h
    cases f <;> cases hexec
    exact ⟨.handled, rfl, rfl, .failed⟩
  | handled =>
    cases h
    cases f <;> cases hexec
    exact ⟨.finished, rfl, rfl, .settled⟩
  | finished => cases h

theorem PageRequest.Advances.stale (h : request.Advances serve s stage page' stage')
    (hold : request.generation ≠ s.page.generation) : page' = s.page := by
  cases h with
  | answered => rfl
  | rejected => rfl
  | received => exact if_pos hold
  | failed => exact if_neg hold
  | settled => exact if_neg hold

theorem PageRequest.Advances.keeps (h : request.Advances serve s stage page' stage') :
    page'.params = s.page.params ∧ page'.generation = s.page.generation := by
  cases h with
  | answered => exact ⟨rfl, rfl⟩
  | rejected => exact ⟨rfl, rfl⟩
  | received => unfold ShopPage.received; split <;> exact ⟨rfl, rfl⟩
  | failed => unfold ShopPage.failed; split <;> exact ⟨rfl, rfl⟩
  | settled => unfold ShopPage.settled; split <;> exact ⟨rfl, rfl⟩

theorem PageRequest.finished_of_ended (h : (request.rest stage).ended = true) :
    stage = .finished := by
  cases stage with
  | finished => rfl
  | _ => cases h

end Step

/-- The page shows the pages it has asked for, and waits for the next one as long as there is a
request for it. -/
structure InStep (serve : Service S Q Row) (c : PagePool S Q Row) : Prop where
  loaded : Loaded 10 (serve c.shared.server c.shared.page.params) c.shared.page.current
    c.shared.page.shops c.shared.page.hasMore
  bound : ∀ t ∈ c.threads, t.tag.generation ≤ c.shared.page.generation
  stages : ∀ t ∈ c.threads, ∃ stage, t.program = t.tag.rest stage ∧
    (t.tag.generation = c.shared.page.generation → t.tag.Fits serve c.shared stage)
  single : ∀ (i j : ℕ) (t t' : PageThread Q Row), c.threads[i]? = some t → c.threads[j]? = some t' →
    InProgress c.shared.page t → InProgress c.shared.page t' → i = j
  loading : c.shared.page.loading = true ↔ ∃ t ∈ c.threads, InProgress c.shared.page t

namespace InStep
variable {serve : Service S Q Row} {c : PagePool S Q Row}

section Request
variable {i : ℕ} {tag : PageRequest Q} {stage stage' : PageRequest.Stage Row}
  {page' : ShopPage Q Row} (hi : c.threads[i]? = some ⟨tag, tag.rest stage⟩)
include hi

theorem advance_stale (h : InStep serve c) (hadv : tag.Advances serve c.shared stage page' stage')
    (hold : tag.generation ≠ c.shared.page.generation) :
    InStep serve ⟨⟨c.shared.server, page'⟩, c.threads.set i ⟨tag, tag.rest stage'⟩⟩ := by
  obtain rfl := hadv.stale hold
  have hnew : ¬ InProgress c.shared.page ⟨tag, tag.rest stage'⟩ := fun hp => hold hp.1
  refine ⟨h.loaded, fun t ht => ?_, fun t ht => ?_, fun j₁ j₂ t t' h₁ h₂ hp hp' => ?_,
    h.loading.trans ⟨?_, ?_⟩⟩
  · rcases Machine.mem_set_thread ht with rfl | ⟨j, -, hj⟩
    · exact h.bound ⟨tag, tag.rest stage⟩ (List.mem_of_getElem? hi)
    · exact h.bound t (List.mem_of_getElem? hj)
  · rcases Machine.mem_set_thread ht with rfl | ⟨j, -, hj⟩
    · exact ⟨stage', rfl, fun hgen => absurd hgen hold⟩
    · exact h.stages t (List.mem_of_getElem? hj)
  · rw [List.getElem?_set] at h₁ h₂
    split at h₁
    · split at h₁ <;> cases h₁
      exact absurd hp hnew
    · split at h₂
      · split at h₂ <;> cases h₂
        exact absurd hp' hnew
      · exact h.single j₁ j₂ t t' h₁ h₂ hp hp'
  · rintro ⟨t, ht, hp⟩
    obtain ⟨j, hj⟩ := List.mem_iff_getElem?.mp ht
    have hji : i ≠ j := by
      rintro rfl
      rw [hi] at hj
      cases hj
      exact hold hp.1
    exact ⟨t, List.mem_of_getElem? (by rwa [List.getElem?_set_ne hji]), hp⟩
  · rintro ⟨t, ht, hp⟩
    rcases Machine.mem_set_thread ht with rfl | ⟨j, -, hj⟩
    · exact absurd hp hnew
    · exact ⟨t, List.mem_of_getElem? hj, hp⟩

omit hi in
theorem advance_loaded (h : InStep serve c) (hadv : tag.Advances serve c.shared stage page' stage')
    (hcurrent : tag.generation = c.shared.page.generation) (hfits : tag.Fits serve c.shared stage) :
    Loaded 10 (serve c.shared.server page'.params) page'.current page'.shops page'.hasMore ∧
      tag.Fits serve ⟨c.shared.server, page'⟩ stage' := by
  cases hadv with
  | answered answer =>
    obtain ⟨hparams, hpage, hmore⟩ := hfits
    rw [hparams, hpage] at answer
    exact ⟨h.loaded, answer, hmore⟩
  | rejected => exact ⟨h.loaded, trivial⟩
  | received =>
    obtain ⟨answer, hmore⟩ := hfits
    rw [ShopPage.received, if_neg (not_not.mpr hcurrent)]
    exact ⟨.next (hmore ▸ h.loaded) answer, trivial⟩
  | failed =>
    rw [ShopPage.failed, if_pos hcurrent]
    exact ⟨h.loaded, trivial⟩
  | settled =>
    rw [ShopPage.settled, if_pos hcurrent]
    exact ⟨h.loaded, trivial⟩

omit hi in
theorem advance_loading (hadv : tag.Advances serve c.shared stage page' stage')
    (hcurrent : tag.generation = c.shared.page.generation) (hloading : c.shared.page.loading = true) :
    page'.loading = true ↔ (tag.rest stage').ended = false := by
  cases hadv with
  | answered => exact ⟨fun _ => rfl, fun _ => hloading⟩
  | rejected => exact ⟨fun _ => rfl, fun _ => hloading⟩
  | received =>
    rw [ShopPage.received, if_neg (not_not.mpr hcurrent)]
    exact ⟨fun _ => rfl, fun _ => hloading⟩
  | failed =>
    rw [ShopPage.failed, if_pos hcurrent]
    exact ⟨fun _ => rfl, fun _ => hloading⟩
  | settled =>
    rw [ShopPage.settled, if_pos hcurrent]
    exact iff_of_false (fun hfalse => by cases hfalse) (fun hfalse => by cases hfalse)

theorem advance_current (h : InStep serve c) (hadv : tag.Advances serve c.shared stage page' stage')
    (hrunning : (tag.rest stage).ended = false)
    (hcurrent : tag.generation = c.shared.page.generation) (hfits : tag.Fits serve c.shared stage) :
    InStep serve ⟨⟨c.shared.server, page'⟩, c.threads.set i ⟨tag, tag.rest stage'⟩⟩ := by
  obtain ⟨hparams, hgeneration⟩ := hadv.keeps
  obtain ⟨hloaded, hfits'⟩ := h.advance_loaded hadv hcurrent hfits
  have hmem := List.mem_of_getElem? hi
  have hself : InProgress c.shared.page ⟨tag, tag.rest stage⟩ := ⟨hcurrent, hrunning⟩
  -- every other request is over or too late
  have hothers : ∀ (j : ℕ) (t : PageThread Q Row), j ≠ i → c.threads[j]? = some t →
      ¬ InProgress c.shared.page t :=
    fun j t hji hj hp => hji (h.single j i t _ hj hi hp hself)
  have hkeep : ∀ t : PageThread Q Row, InProgress page' t ↔ InProgress c.shared.page t := by
    intro t
    rw [InProgress, InProgress, hgeneration]
  have honly : ∀ (j : ℕ) (t : PageThread Q Row),
      (c.threads.set i ⟨tag, tag.rest stage'⟩)[j]? = some t → InProgress page' t → i = j := by
    intro j t hj hp
    by_contra hij
    rw [List.getElem?_set_ne hij] at hj
    exact hothers j t (Ne.symm hij) hj ((hkeep t).mp hp)
  refine ⟨hloaded, fun t ht => ?_, fun t ht => ?_, fun j₁ j₂ t t' h₁ h₂ hp hp' => ?_, ?_⟩
  · rw [hgeneration]
    rcases Machine.mem_set_thread ht with rfl | ⟨j, -, hj⟩
    · exact h.bound ⟨tag, tag.rest stage⟩ hmem
    · exact h.bound t (List.mem_of_getElem? hj)
  · rcases Machine.mem_set_thread ht with rfl | ⟨j, hji, hj⟩
    · exact ⟨stage', rfl, fun _ => hfits'⟩
    · obtain ⟨stage₁, hprogram, -⟩ := h.stages t (List.mem_of_getElem? hj)
      refine ⟨stage₁, hprogram, fun hgen => ?_⟩
      have hended : t.program.ended = true := by
        by_contra hfalse
        exact hothers j t hji hj ⟨hgen.trans hgeneration, by simpa using hfalse⟩
      rw [hprogram] at hended
      rw [PageRequest.finished_of_ended hended]
      trivial
  · rw [← honly j₁ t h₁ hp, ← honly j₂ t' h₂ hp']
  · rw [advance_loading hadv hcurrent (h.loading.mpr ⟨_, hmem, hself⟩)]
    have hset : (c.threads.set i ⟨tag, tag.rest stage'⟩)[i]? = some ⟨tag, tag.rest stage'⟩ :=
      List.getElem?_set_self (List.getElem?_eq_some_iff.mp hi).1
    constructor
    · intro hended
      exact ⟨_, List.mem_of_getElem? hset, hcurrent.trans hgeneration.symm, hended⟩
    · rintro ⟨t, ht, hp⟩
      obtain ⟨j, hj⟩ := List.mem_iff_getElem?.mp ht
      obtain rfl := honly j t hj hp
      rw [hset] at hj
      cases hj
      exact hp.2

end Request

theorem send {server : S} (page : ShopPage Q Row) {threads : List (PageThread Q Row)}
    (hloaded : Loaded 10 (serve server page.params) page.current page.shops page.hasMore)
    (hmore : page.hasMore = true) (hloading : page.loading = true)
    (hbound : ∀ t ∈ threads, t.tag.generation ≤ page.generation)
    (hstages : ∀ t ∈ threads, ∃ stage, t.program = t.tag.rest stage)
    (hnone : ∀ t ∈ threads, ¬ InProgress page t) :
    InStep serve ⟨⟨server, page⟩, threads ++
      [⟨⟨page.generation, page.params, page.current⟩,
        PageRequest.run ⟨page.generation, page.params, page.current⟩⟩]⟩ := by
  have hlast : ∀ (j : ℕ) (t : PageThread Q Row), (threads ++ [⟨⟨page.generation, page.params,
      page.current⟩, PageRequest.run ⟨page.generation, page.params, page.current⟩⟩])[j]? = some t →
      InProgress page t → j = threads.length := by
    intro j t hj hp
    rcases Nat.lt_trichotomy j threads.length with hlt | heq | hgt
    · rw [List.getElem?_append_left hlt] at hj
      exact absurd hp (hnone t (List.mem_of_getElem? hj))
    · exact heq
    · rw [List.getElem?_eq_none (by simpa [Nat.succ_le_iff] using hgt)] at hj
      cases hj
  refine ⟨hloaded, fun t ht => ?_, fun t ht => ?_, fun i j t t' hi hj hp hp' => ?_,
    iff_of_true hloading ⟨_, List.mem_append_right _ (List.mem_singleton_self _), rfl, rfl⟩⟩
  · rcases List.mem_append.mp ht with ht | ht
    · exact hbound t ht
    · rw [List.mem_singleton.mp ht]
  · rcases List.mem_append.mp ht with ht | ht
    · obtain ⟨stage, hprogram⟩ := hstages t ht
      refine ⟨stage, hprogram, fun hgen => ?_⟩
      have hended : t.program.ended = true := by
        by_contra hfalse
        exact hnone t ht ⟨hgen, by simpa using hfalse⟩
      rw [hprogram] at hended
      rw [PageRequest.finished_of_ended hended]
      trivial
    · rw [List.mem_singleton.mp ht]
      exact ⟨.sent, rfl, fun _ => ⟨rfl, rfl, hmore⟩⟩
  · rw [hlast i t hi hp, hlast j t' hj hp']

theorem reset (h : InStep serve c) (params : Q) :
    InStep serve ⟨(PageSite.query ⟨c.shared.server, { c.shared.page with params := params }⟩ true).1,
      c.threads ++ (PageSite.query ⟨c.shared.server, { c.shared.page with params := params }⟩ true).2⟩ := by
  refine send _ .start rfl rfl (fun t ht => Nat.le_succ_of_le (h.bound t ht)) (fun t ht => ?_) ?_
  · obtain ⟨stage, hprogram, -⟩ := h.stages t ht
    exact ⟨stage, hprogram⟩
  · intro t ht hp
    exact absurd (h.bound t ht) (by rw [hp.1]; exact Nat.not_succ_le_self _)

theorem more (h : InStep serve c) :
    InStep serve ⟨(c.shared.query false).1, c.threads ++ (c.shared.query false).2⟩ := by
  by_cases hready : c.shared.page.loading = false ∧ c.shared.page.hasMore = true
  · have hquery : c.shared.page.query false = ({ c.shared.page with loading := true, error := "" },
        some ⟨c.shared.page.generation, c.shared.page.params, c.shared.page.current⟩) := by
      simp [ShopPage.query, hready]
    rw [PageSite.query, hquery]
    refine send { c.shared.page with loading := true, error := "" } h.loaded hready.2 rfl h.bound
      (fun t ht => ?_) fun t ht hp => ?_
    · obtain ⟨stage, hprogram, -⟩ := h.stages t ht
      exact ⟨stage, hprogram⟩
    · have hloading := h.loading.mpr ⟨t, ht, hp⟩
      rw [hready.1] at hloading
      cases hloading
  · have hquery : c.shared.page.query false = (c.shared.page, none) := by
      refine if_pos ?_
      cases hl : c.shared.page.loading <;> cases hm : c.shared.page.hasMore <;> simp_all
    rw [PageSite.query, hquery]
    simpa using h

theorem update (h : InStep serve c) {server : S} (hstay : ∀ current,
    serve server c.shared.page.params current = serve c.shared.server c.shared.page.params current) :
    InStep serve ⟨{ c.shared with server := server }, c.threads⟩ := by
  refine ⟨h.loaded.congr hstay, h.bound, fun t ht => ?_, h.single, h.loading⟩
  obtain ⟨stage, hprogram, hfits⟩ := h.stages t ht
  refine ⟨stage, hprogram, fun hgen => ?_⟩
  cases stage with
  | answered rows => exact ⟨(hstay _).trans (hfits hgen).1, (hfits hgen).2⟩
  | _ => exact hfits hgen

theorem opened (server : S) (params : Q) : InStep serve (opened server params : PagePool S Q Row) :=
  send _ .start rfl rfl (List.forall_mem_nil _) (List.forall_mem_nil _) (List.forall_mem_nil _)

theorem step {m : Move Delivery (PageAction S Q)} {c' : PagePool S Q Row} (h : InStep serve c)
    (hm : AnswersStay serve c m) (hfires : (shopPages serve).Fires c m c') : InStep serve c' := by
  cases hfires with
  | @run i f tag cmd k r s thread exec =>
    obtain ⟨stage, hprogram, hfits⟩ := h.stages _ (List.mem_of_getElem? thread)
    change Program.call cmd k = tag.rest stage at hprogram
    obtain ⟨stage', hk, hserver, hadv⟩ := advances_of_request hprogram.symm exec
    have hrunning : (tag.rest stage : PageProgram Q Row Unit).ended = false := by rw [← hprogram]; rfl
    rw [hprogram] at thread
    obtain ⟨server, page⟩ := s
    obtain rfl : server = c.shared.server := hserver
    rw [hk]
    by_cases hcurrent : tag.generation = c.shared.page.generation
    · exact h.advance_current thread hadv hrunning hcurrent (hfits hcurrent)
    · exact h.advance_stale thread hadv hcurrent
  | crash bound => exact hm.elim
  | @act action s started act =>
    cases action with
    | reset params => cases act; exact h.reset params
    | more => cases act; exact h.more
    | update server =>
      cases act
      rw [List.append_nil]
      exact h.update hm

theorem of_run {server : S} {params : Q} (hrun : (shopPages serve).Run (AnswersStay serve)
    (Frontend.opened server params) c) : InStep serve c :=
  hrun.invariant (opened server params) fun _ _ _ hI hm hfires => hI.step hm hfires

end InStep
end HmDianPing.Frontend
