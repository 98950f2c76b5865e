import HmDianPing.Social.Likes
import HmDianPing.Text.Decimal
import Mathlib.Data.String.Basic
import Mathlib.Data.List.Infix

/-! # Scrolling the feed

The cursor of a page is the lowest score it saw and how many members of that score
are behind it. The server counts them inside one page, the client adds them up
over the pages, and blogs are pushed in the meantime.
-/
namespace HmDianPing.Social
open Text (longValueOf longValueOf_toString)
open Redis

structure Blog where
  id : Long
  userId : Long
  name : Option String
  icon : Option String
  isLike : Option Bool
deriving DecidableEq

structure User where
  nickName : Option String
  icon : Option String

structure BlogTable where
  row : Long → Option Blog
  id_row : ∀ id b, row id = some b → b.id = id ∧ -2 ^ 63 ≤ id ∧ id < 2 ^ 63

namespace BlogTable

def insert (t : BlogTable) (blog : Blog) (h : -2 ^ 63 ≤ blog.id ∧ blog.id < 2 ^ 63) : BlogTable where
  row := Function.update t.row blog.id (some blog)
  id_row id b hb := by
    by_cases hid : id = blog.id
    · subst hid
      rw [Function.update_self] at hb
      cases hb
      exact ⟨rfl, h⟩
    · rw [Function.update_of_ne hid] at hb
      exact t.id_row id b hb

/-- `SELECT … WHERE id IN (ids) ORDER BY FIELD(id, ids)`: a row stands where its id stands first. -/
def listByField (t : BlogTable) (ids : List Long) : List Blog :=
  ids.reverse.dedup.reverse.filterMap t.row

end BlogTable

structure FeedWorld where
  /-- `feed:{userId}`. -/
  feed : SortedSet String
  tbBlog : BlogTable
  tbUser : Long → Option User
  likeSet : Long → SortedSet Long

structure ScrollResult where
  list : List Blog
  minTime : ℤ
  offset : ℕ

namespace FeedWorld
variable (w : FeedWorld) (userId : Long)

def queryBlogUser (blog : Blog) : Blog :=
  match w.tbUser blog.userId with
  | none => { blog with name := some "用户已注销", icon := none }
  | some user => { blog with name := user.nickName, icon := user.icon }

def isBlogLiked (blog : Blog) : Blog :=
  { blog with isLike := some ((w.likeSet blog.id).zscore userId).isSome }

/-- The loop over the typed tuples: `minTime` and `os`. -/
def scan (typedTuples : List (String × ℤ)) : ℤ × ℕ :=
  typedTuples.foldl
    (fun acc tuple => if tuple.2 = acc.1 then (acc.1, acc.2 + 1) else (tuple.2, 1)) (0, 1)

def blogId (tuple : String × ℤ) : Except Failure Long :=
  match longValueOf tuple.1 with
  | some id => .ok id
  | none => .error ("java.lang.NumberFormatException: For input string: " ++ tuple.1)

/-- The page size is 2. -/
def queryBlogOfFollow (max : ℤ) (offset : ℕ) : Except Failure (Option ScrollResult) := do
  let typedTuples := w.feed.zrevrangeByScore 0 max offset 2
  if typedTuples = [] then
    return none
  let blogIds ← typedTuples.mapM blogId
  let blogs := w.tbBlog.listByField blogIds
  return some ⟨blogs.map fun blog => w.isBlogLiked userId (w.queryBlogUser blog),
    (scan typedTuples).1, (scan typedTuples).2⟩

end FeedWorld

/-- The cursor of the client. -/
structure Params where
  minTime : ℤ
  offset : ℕ

structure Scroller where
  params : Params
  blogs2 : List Blog
  followMore : Bool

namespace Scroller

def clear (minTime : ℤ) : Scroller := ⟨⟨minTime, 0⟩, [], true⟩

variable (c : Scroller)

def receive (data : Option ScrollResult) : Scroller :=
  let rows := match data with
    | some r => r.list
    | none => []
  { followMore := rows.length = 2
    blogs2 := c.blogs2 ++ rows.filter fun b => b.id ∉ c.blogs2.map Blog.id
    params := match data with
      | some r =>
        if rows = [] then c.params
        else ⟨r.minTime, if r.minTime = c.params.minTime then c.params.offset + r.offset
          else r.offset⟩
      | none => c.params }

def queryBlogsOfFollow (w : FeedWorld) (userId : Long) : Scroller :=
  if c.followMore then
    match w.queryBlogOfFollow userId c.params.minTime c.params.offset with
    | .ok data => c.receive data
    | .error _ => c
  else c

end Scroller

/-- The client loads a page; meanwhile blogs are saved, and pushed to the feed. -/
inductive FeedAction where
  | load
  | save (blog : Blog)
  | push (id : Long) (time : ℤ)

structure FeedState where
  world : FeedWorld
  client : Scroller

def FeedWorld.save (w : FeedWorld) (blog : Blog) : FeedWorld :=
  if h : -2 ^ 63 ≤ blog.id ∧ blog.id < 2 ^ 63 then { w with tbBlog := w.tbBlog.insert blog h } else w

def FeedWorld.push (w : FeedWorld) (id : Long) (time : ℤ) : FeedWorld :=
  { w with feed := w.feed.zadd time (toString id) }

namespace FeedState
variable (userId : Long) (s : FeedState)

def step : FeedAction → FeedState
  | .load => ⟨s.world, s.client.queryBlogsOfFollow s.world userId⟩
  | .save blog => ⟨s.world.save blog, s.client⟩
  | .push id time => ⟨s.world.push id time, s.client⟩

def run (actions : List FeedAction) : FeedState := actions.foldl (step userId) s

/-- A blog is saved under a new id, and what is pushed gets a score above the cursor. -/
def PushesLater : FeedAction → Prop
  | .load => True
  | .save blog => s.world.tbBlog.row blog.id = none
  | .push id time => (s.world.tbBlog.row id).isSome ∧ 0 < time ∧ s.client.params.minTime < time

instance : (a : FeedAction) → Decidable (s.PushesLater a)
  | .load => inferInstanceAs (Decidable True)
  | .save _ => inferInstanceAs (Decidable (_ = _))
  | .push _ _ => inferInstanceAs (Decidable (_ ∧ _))

/-- What is pushed does not stand at the cursor or below it. A second row of one follower in
`tb_follow` pushes the blog a second time. -/
def LeavesBehind : FeedAction → Prop
  | .push id _ => ∀ score ∈ s.world.feed.zscore (toString id), s.client.params.minTime < score
  | _ => True

instance : (a : FeedAction) → Decidable (s.LeavesBehind a)
  | .load | .save _ => inferInstanceAs (Decidable True)
  | .push _ _ => inferInstanceAs (Decidable (∀ score ∈ (_ : Option ℤ), _))

/-- Every action meets the condition when it comes. -/
def Throughout (condition : FeedState → FeedAction → Prop) (userId : Long) :
    FeedState → List FeedAction → Prop
  | _, [] => True
  | s, a :: actions => condition s a ∧ Throughout condition userId (s.step userId a) actions

instance (condition : FeedState → FeedAction → Prop) [∀ s a, Decidable (condition s a)]
    (userId : Long) : (s : FeedState) → (actions : List FeedAction) →
    Decidable (Throughout condition userId s actions)
  | _, [] => inferInstanceAs (Decidable True)
  | s, a :: actions =>
    have := instDecidableThroughout condition userId (s.step userId a) actions
    inferInstanceAs (Decidable (_ ∧ _))

end FeedState

/-- The scores of the feed are positive and its members are ids of blogs. -/
def FeedWorld.Populated (w : FeedWorld) : Prop :=
  ∀ p ∈ w.feed.members, 0 < p.2 ∧ ∃ id, toString id = p.1 ∧ (w.tbBlog.row id).isSome

section Page
variable {w : FeedWorld} {page : List (String × ℤ)}

theorem BlogTable.map_id_listByField {t : BlogTable} {ids : List Long} (hnodup : ids.Nodup)
    (hrows : ∀ id ∈ ids, (t.row id).isSome) : (t.listByField ids).map Blog.id = ids := by
  rw [listByField, (List.nodup_reverse.mpr hnodup).dedup, List.reverse_reverse]
  clear hnodup
  induction ids with
  | nil => rfl
  | cons id ids ih =>
    obtain ⟨blog, hblog⟩ := Option.isSome_iff_exists.mp (hrows id List.mem_cons_self)
    rw [List.filterMap_cons_some hblog, List.map_cons, (t.id_row id blog hblog).1,
      ih fun id' hid => hrows id' (List.mem_cons_of_mem _ hid)]

theorem FeedWorld.Populated.blogIds (h : w.Populated) (hpage : ∀ p ∈ page, p ∈ w.feed.members) :
    ∃ ids, page.mapM FeedWorld.blogId = .ok ids ∧ ids.map toString = page.map Prod.fst ∧
      ∀ id ∈ ids, (w.tbBlog.row id).isSome := by
  induction page with
  | nil => exact ⟨[], rfl, rfl, by simp⟩
  | cons p page ih =>
    obtain ⟨ids, hids, htexts, hrows⟩ := ih fun q hq => hpage q (List.mem_cons_of_mem _ hq)
    obtain ⟨-, id, htext, hrow⟩ := h p (hpage p List.mem_cons_self)
    obtain ⟨blog, hblog⟩ := Option.isSome_iff_exists.mp hrow
    have hid : FeedWorld.blogId p = .ok id := by
      rw [FeedWorld.blogId, ← htext, longValueOf_toString (w.tbBlog.id_row id blog hblog).2]
    refine ⟨id :: ids, ?_, by simp [htext, htexts], ?_⟩
    · rw [List.mapM_cons, hid, hids]
      rfl
    · intro id' hmem
      rcases List.mem_cons.mp hmem with rfl | hmem
      · exact hrow
      · exact hrows id' hmem

theorem FeedWorld.Populated.queryBlogOfFollow (h : w.Populated) (userId : Long) {max : ℤ}
    {offset : ℕ} (hpage : page = ((w.feed.upTo max).drop offset).take 2) (hne : page ≠ [])
    (hnodup : (page.map Prod.fst).Nodup) :
    ∃ list, w.queryBlogOfFollow userId max offset =
        .ok (some ⟨list, (FeedWorld.scan page).1, (FeedWorld.scan page).2⟩) ∧
      list.map (fun b => toString b.id) = page.map Prod.fst := by
  have hmem : ∀ p ∈ page, p ∈ w.feed.members := by
    intro p hp
    rw [hpage] at hp
    exact ((SortedSet.mem_upTo _).mp (List.mem_of_mem_drop (List.mem_of_mem_take hp))).1
  obtain ⟨ids, hids, htexts, hrows⟩ := h.blogIds hmem
  have hrange : w.feed.zrevrangeByScore 0 max offset 2 = page := by
    rw [hpage]
    exact SortedSet.zrevrangeByScore_eq _ fun p hp => (h p hp).1.le
  have hids_nodup : ids.Nodup := List.Nodup.of_map toString (htexts ▸ hnodup)
  refine ⟨(w.tbBlog.listByField ids).map fun blog => w.isBlogLiked userId (w.queryBlogUser blog),
    ?_, ?_⟩
  · simp only [FeedWorld.queryBlogOfFollow, hrange, hne, hids]
    rfl
  · have hkeep : (fun b : Blog => toString (w.isBlogLiked userId (w.queryBlogUser b)).id) =
        toString ∘ Blog.id := by
      funext b
      cases hu : w.tbUser b.userId <;>
        simp [FeedWorld.isBlogLiked, FeedWorld.queryBlogUser, hu]
    rw [List.map_map, ← htexts]
    change List.map (fun b => toString (w.isBlogLiked userId (w.queryBlogUser b)).id) _ = _
    rw [hkeep, ← List.map_map, BlogTable.map_id_listByField hids_nodup hrows]

theorem FeedWorld.Populated.queryBlogOfFollow_nil (h : w.Populated) (userId : Long) {max : ℤ}
    {offset : ℕ} (hpage : ((w.feed.upTo max).drop offset).take 2 = []) :
    w.queryBlogOfFollow userId max offset = .ok none := by
  have hrange : w.feed.zrevrangeByScore 0 max offset 2 = [] :=
    (SortedSet.zrevrangeByScore_eq _ fun p hp => (h p hp).1.le).trans hpage
  simp only [FeedWorld.queryBlogOfFollow, hrange]
  rfl

theorem scan_eq (hne : page ≠ []) (hpos : ∀ p ∈ page, 0 < p.2)
    (hdesc : page.Pairwise fun p q => q.2 ≤ p.2) :
    (∃ p ∈ page, p.2 = (FeedWorld.scan page).1) ∧ (∀ p ∈ page, (FeedWorld.scan page).1 ≤ p.2) ∧
      (FeedWorld.scan page).2 = page.countP fun p => p.2 = (FeedWorld.scan page).1 := by
  induction page using List.reverseRecOn with
  | nil => exact absurd rfl hne
  | append_singleton page p ih =>
    have hp : 0 < p.2 := hpos p (by simp)
    have hscan : FeedWorld.scan (page ++ [p]) = if p.2 = (FeedWorld.scan page).1 then
        ((FeedWorld.scan page).1, (FeedWorld.scan page).2 + 1) else (p.2, 1) := by
      rw [FeedWorld.scan, List.foldl_append]
      rfl
    by_cases hnil : page = []
    · subst hnil
      have hfirst : FeedWorld.scan ([] ++ [p]) = (p.2, 1) :=
        hscan.trans (if_neg fun h => absurd h hp.ne')
      rw [hfirst]
      simp
    · obtain ⟨hpage, -, hlast⟩ := List.pairwise_append.mp hdesc
      obtain ⟨⟨q, hq, hmin⟩, hle, hcount⟩ := ih hnil (fun q hq => hpos q (by simp [hq])) hpage
      have hpq : p.2 ≤ q.2 := hlast q hq p List.mem_cons_self
      by_cases hsame : p.2 = (FeedWorld.scan page).1
      · rw [if_pos hsame] at hscan
        rw [hscan]
        refine ⟨⟨q, by simp [hq], hmin⟩, fun r hr => ?_, ?_⟩
        · rcases List.mem_append.mp hr with hr | hr
          · exact hle r hr
          · rw [List.mem_singleton.mp hr, hsame]
        · simp [List.countP_append, hcount, hsame]
      · rw [if_neg hsame] at hscan
        rw [hscan]
        have hlower : ∀ r ∈ page, p.2 < r.2 := by
          intro r hr
          have hr_le := hle r hr
          omega
        refine ⟨⟨p, by simp, rfl⟩, fun r hr => ?_, ?_⟩
        · rcases List.mem_append.mp hr with hr | hr
          · exact (hlower r hr).le
          · rw [List.mem_singleton.mp hr]
        · have hnone : page.countP (fun r => r.2 = p.2) = 0 :=
            List.countP_eq_zero.mpr fun r hr => by simpa using (hlower r hr).ne'
          simp [List.countP_append, hnone]

end Page

/-- The members at and below the cursor: those of its score that are behind it, then those to come. -/
structure Behind (w : FeedWorld) (params : Params) (seen rest : List (String × ℤ)) : Prop where
  upTo_eq : w.feed.upTo params.minTime = seen ++ rest
  length : seen.length = params.offset
  score : ∀ p ∈ seen, p.2 = params.minTime

def Params.advance (params : Params) (page : List (String × ℤ)) : Params :=
  ⟨(FeedWorld.scan page).1, if (FeedWorld.scan page).1 = params.minTime
    then params.offset + (FeedWorld.scan page).2 else (FeedWorld.scan page).2⟩

section Cursor
variable {w : FeedWorld} {params : Params} {seen page rest : List (String × ℤ)}

theorem Behind.advance (h : Behind w params seen (page ++ rest)) (hw : w.Populated)
    (hne : page ≠ []) : ∃ seen, Behind w (params.advance page) seen rest := by
  have hsorted : (seen ++ (page ++ rest)).Pairwise fun p q => q.2 ≤ p.2 := by
    rw [← h.upTo_eq]
    refine (SortedSet.pairwise_upTo _ _).imp fun {p q} hpq => ?_
    rcases hpq with hlt | ⟨heq, -⟩ <;> omega
  have hmem : ∀ p ∈ seen ++ (page ++ rest), p ∈ w.feed.members ∧ p.2 ≤ params.minTime := by
    intro p hp
    rw [← h.upTo_eq] at hp
    exact (SortedSet.mem_upTo _).mp hp
  obtain ⟨-, hafter, -⟩ := List.pairwise_append.mp hsorted
  obtain ⟨hpage, hrest, hlower⟩ := List.pairwise_append.mp hafter
  obtain ⟨⟨p₀, hp₀, hmin⟩, hle, hcount⟩ :=
    scan_eq hne (fun p hp => (hw p (hmem p (by simp [hp])).1).1) hpage
  set m := (FeedWorld.scan page).1 with hm
  have hm_le : m ≤ params.minTime := hmin ▸ (hmem p₀ (by simp [hp₀])).2
  have hrest_le : ∀ p ∈ rest, p.2 ≤ m := fun p hp => hmin ▸ hlower p₀ hp₀ p hp
  refine ⟨(seen ++ page).filter fun p => p.2 ≤ m, ?_, ?_, ?_⟩
  · change w.feed.upTo m = _
    rw [SortedSet.upTo_of_le _ hm_le, h.upTo_eq, ← List.append_assoc, List.filter_append]
    congr 1
    exact List.filter_eq_self.mpr fun p hp => decide_eq_true (hrest_le p hp)
  · have hpage_count : page.countP (fun p => p.2 ≤ m) = (FeedWorld.scan page).2 := by
      rw [hcount]
      refine List.countP_congr fun p hp => ?_
      have hp_le := hle p hp
      simp only [decide_eq_true_eq]
      omega
    rw [← List.countP_eq_length_filter, List.countP_append, hpage_count]
    by_cases hsame : m = params.minTime
    · have hseen : seen.countP (fun p => p.2 ≤ m) = seen.length :=
        List.countP_eq_length.mpr fun p hp => decide_eq_true (by rw [h.score p hp, hsame])
      rw [hseen, h.length]
      simp [Params.advance, ← hm, hsame]
    · have hseen : seen.countP (fun p => p.2 ≤ m) = 0 :=
        List.countP_eq_zero.mpr fun p hp => by
          rw [h.score p hp]
          simpa using lt_of_le_of_ne hm_le hsame
      simp [hseen, Params.advance, ← hm, hsame]
  · intro p hp
    obtain ⟨hp, hp_le⟩ := List.mem_filter.mp hp
    have hup : p.2 ≤ m := of_decide_eq_true hp_le
    change p.2 = m
    rcases List.mem_append.mp hp with hp | hp
    · have hscore := h.score p hp
      omega
    · exact le_antisymm hup (hle p hp)

end Cursor

/-- The client shows the first members and the cursor stands before the rest. -/
structure Scrolls (loads : ℕ) (s : FeedState) (shown rest : List (String × ℤ)) : Prop where
  populated : s.world.Populated
  blogs2 : s.client.blogs2.map (fun b => toString b.id) = shown.map Prod.fst
  behind : ∃ seen, Behind s.world s.client.params seen rest
  stopped : s.client.followMore = false → rest = []
  loaded : s.client.followMore = true → shown.length = 2 * loads

section Scroll
open FeedState
variable {s : FeedState} {shown rest : List (String × ℤ)} {loads : ℕ}

theorem receive_page {c : Scroller} {list : List Blog} {page : List (String × ℤ)}
    (hshown : c.blogs2.map (fun b => toString b.id) = shown.map Prod.fst)
    (hlist : list.map (fun b => toString b.id) = page.map Prod.fst) (hne : page ≠ [])
    (hnodup : ((shown ++ page).map Prod.fst).Nodup) :
    ∃ blogs2, c.receive (some ⟨list, (FeedWorld.scan page).1, (FeedWorld.scan page).2⟩) =
        ⟨c.params.advance page, blogs2, page.length = 2⟩ ∧
      blogs2.map (fun b => toString b.id) = (shown ++ page).map Prod.fst := by
  have hlength : list.length = page.length := by
    simpa using congrArg List.length hlist
  have hlist_ne : list ≠ [] := by
    rintro rfl
    exact hne (List.length_eq_zero_iff.mp hlength.symm)
  have hkept : list.filter (fun b => b.id ∉ c.blogs2.map Blog.id) = list := by
    refine List.filter_eq_self.mpr fun b hb => decide_eq_true fun hid => ?_
    obtain ⟨b', hb', hid⟩ := List.mem_map.mp hid
    rw [List.map_append] at hnodup
    refine (List.nodup_append.mp hnodup).2.2 (toString b'.id) ?_ (toString b.id) ?_ (by rw [hid])
    · rw [← hshown]
      exact List.mem_map_of_mem hb'
    · rw [← hlist]
      exact List.mem_map_of_mem hb
  refine ⟨c.blogs2 ++ list, ?_, ?_⟩
  · simp only [Scroller.receive, hkept, hlist_ne, hlength, Params.advance, if_false]
  · rw [List.map_append, List.map_append, hshown, hlist]

theorem Scrolls.load (h : Scrolls loads s shown rest) (userId : Long)
    (hnodup : ((shown ++ rest).map Prod.fst).Nodup) :
    ∃ shown' rest', shown' ++ rest' = shown ++ rest ∧
      Scrolls (loads + 1) (s.step userId .load) shown' rest' := by
  obtain ⟨seen, hbehind⟩ := h.behind
  by_cases hmore : s.client.followMore = true
  · have hleft : (s.world.feed.upTo s.client.params.minTime).drop s.client.params.offset = rest := by
      rw [hbehind.upTo_eq, ← hbehind.length, List.drop_left]
    by_cases hnil : rest.take 2 = []
    · have hrest : rest = [] := by simpa using hnil
      have hquery := h.populated.queryBlogOfFollow_nil userId (hleft.symm ▸ hnil)
      refine ⟨shown, rest, rfl, ?_⟩
      have hstep : s.step userId .load = ⟨s.world, ⟨s.client.params, s.client.blogs2, false⟩⟩ := by
        simp [FeedState.step, Scroller.queryBlogsOfFollow, hmore, hquery, Scroller.receive]
      rw [hstep]
      exact ⟨h.populated, h.blogs2, ⟨seen, hbehind⟩, fun _ => hrest, fun hfalse => by cases hfalse⟩
    · have hsplit : rest.take 2 ++ rest.drop 2 = rest := List.take_append_drop 2 rest
      have hpage_nodup : ((shown ++ rest.take 2).map Prod.fst).Nodup := by
        refine hnodup.sublist (List.Sublist.map _ ?_)
        exact List.Sublist.append_left (List.take_sublist 2 rest) shown
      obtain ⟨list, hquery, hlist⟩ := h.populated.queryBlogOfFollow userId
        (congrArg (List.take 2) hleft.symm) hnil (hpage_nodup.sublist (by simp))
      obtain ⟨blogs2, hreceive, hblogs2⟩ := receive_page h.blogs2 hlist hnil hpage_nodup
      obtain ⟨seen', hbehind'⟩ := Behind.advance (hsplit.symm ▸ hbehind) h.populated hnil
      have hstep : s.step userId .load = ⟨s.world,
          ⟨s.client.params.advance (rest.take 2), blogs2, (rest.take 2).length = 2⟩⟩ := by
        rw [FeedState.step, Scroller.queryBlogsOfFollow, if_pos hmore, hquery]
        exact congrArg _ hreceive
      refine ⟨shown ++ rest.take 2, rest.drop 2, by rw [List.append_assoc, hsplit], ?_⟩
      rw [hstep]
      refine ⟨h.populated, hblogs2, ⟨seen', hbehind'⟩, fun hstop => ?_, fun hfull => ?_⟩
      · have hshort : (rest.take 2).length ≠ 2 := of_decide_eq_false hstop
        rw [List.length_take] at hshort
        exact List.drop_eq_nil_of_le (by omega)
      · have hlength : (rest.take 2).length = 2 := of_decide_eq_true hfull
        rw [List.length_append, hlength, h.loaded hmore]
        omega
  · refine ⟨shown, rest, rfl, ?_⟩
    have hstep : s.step userId .load = s := by
      simp [FeedState.step, Scroller.queryBlogsOfFollow, hmore]
    rw [hstep]
    exact ⟨h.populated, h.blogs2, h.behind, h.stopped, fun htrue => absurd htrue hmore⟩

theorem Scrolls.save (h : Scrolls loads s shown rest) {userId : Long} {blog : Blog}
    (hlater : s.PushesLater (.save blog)) :
    Scrolls loads (s.step userId (.save blog)) shown rest := by
  have hfeed : (s.world.save blog).feed = s.world.feed := by
    unfold FeedWorld.save
    split <;> rfl
  have hrow : ∀ id, (s.world.tbBlog.row id).isSome → ((s.world.save blog).tbBlog.row id).isSome := by
    intro id hid
    have hne : id ≠ blog.id := by
      rintro rfl
      rw [show s.world.tbBlog.row blog.id = none from hlater] at hid
      cases hid
    unfold FeedWorld.save
    split
    · simpa [BlogTable.insert, hne] using hid
    · exact hid
  obtain ⟨seen, hbehind⟩ := h.behind
  refine ⟨fun p hp => ?_, h.blogs2, ⟨seen, ?_, hbehind.length, hbehind.score⟩, h.stopped, h.loaded⟩
  · obtain ⟨hpos, id, htext, hid⟩ := h.populated p (hfeed ▸ hp)
    exact ⟨hpos, id, htext, hrow id hid⟩
  · change (s.world.save blog).feed.upTo _ = _
    rw [hfeed]
    exact hbehind.upTo_eq

theorem Scrolls.push (h : Scrolls loads s shown rest) {userId id : Long} {time : ℤ}
    (hlater : s.PushesLater (.push id time)) (hbehind : s.LeavesBehind (.push id time)) :
    Scrolls loads (s.step userId (.push id time)) shown rest := by
  obtain ⟨hrow, hpos, htime⟩ := hlater
  obtain ⟨seen, hcursor⟩ := h.behind
  refine ⟨fun p hp => ?_, h.blogs2, ⟨seen, ?_, hcursor.length, hcursor.score⟩, h.stopped, h.loaded⟩
  · rcases (SortedSet.mem_members_zadd _).mp hp with rfl | ⟨-, hp⟩
    · exact ⟨hpos, id, rfl, hrow⟩
    · exact h.populated p hp
  · exact (SortedSet.upTo_zadd _ hbehind htime).trans hcursor.upTo_eq

def FeedAction.isLoad : FeedAction → Bool
  | .load => true
  | _ => false

theorem Scrolls.run (h : Scrolls loads s shown rest) {userId : Long} {actions : List FeedAction}
    (hnodup : ((shown ++ rest).map Prod.fst).Nodup)
    (hlater : Throughout PushesLater userId s actions)
    (hbehind : Throughout LeavesBehind userId s actions) :
    ∃ shown' rest', shown' ++ rest' = shown ++ rest ∧
      Scrolls (loads + actions.countP FeedAction.isLoad) (s.run userId actions) shown' rest' := by
  induction actions generalizing loads s shown rest with
  | nil => exact ⟨shown, rest, rfl, h⟩
  | cons a actions ih =>
    obtain ⟨hfirst, hlater⟩ := hlater
    obtain ⟨hleft, hbehind⟩ := hbehind
    cases a with
    | load =>
      obtain ⟨shown₁, rest₁, hall₁, h₁⟩ := h.load userId hnodup
      obtain ⟨shown₂, rest₂, hall₂, h₂⟩ := ih h₁ (hall₁ ▸ hnodup) hlater hbehind
      refine ⟨shown₂, rest₂, hall₂.trans hall₁, ?_⟩
      have hcount : loads + (FeedAction.load :: actions).countP FeedAction.isLoad =
          loads + 1 + actions.countP FeedAction.isLoad := by
        rw [List.countP_cons_of_pos rfl]
        omega
      rw [hcount]
      exact h₂
    | save blog => exact ih (h.save hfirst) hnodup hlater hbehind
    | push id time => exact ih (h.push hfirst hleft) hnodup hlater hbehind

end Scroll

/-- The members up to `lastId` are `all`, in strictly descending order: the client shows a first part
of them, all of them once it has stopped, and it stops after enough pages. -/
def ShowsInOrder (w : FeedWorld) (lastId : ℤ) (loads : ℕ) (c : Scroller) : Prop :=
  ∃ all : List (String × ℤ),
    all.Pairwise (fun p q => q.2 < p.2 ∨ q.2 = p.2 ∧ q.1 < p.1) ∧
    (∀ p, p ∈ all ↔ p ∈ w.feed.members ∧ p.2 ≤ lastId) ∧
    c.blogs2.map (fun b => toString b.id) <+: all.map Prod.fst ∧
    (c.followMore = false → c.blogs2.map (fun b => toString b.id) = all.map Prod.fst) ∧
    (all.length < 2 * loads → c.followMore = false)

/-- The client's cursor takes it through the feed without a gap or a repetition, as long as no push
takes away what stands at the cursor or below it. -/
theorem feed_scroll (w : FeedWorld) (userId : Long) (lastId : ℤ) (actions : List FeedAction)
    (hw : w.Populated)
    (hlater : FeedState.Throughout FeedState.PushesLater userId ⟨w, .clear lastId⟩ actions)
    (hbehind : FeedState.Throughout FeedState.LeavesBehind userId ⟨w, .clear lastId⟩ actions) :
    ShowsInOrder w lastId (actions.countP FeedAction.isLoad)
      ((⟨w, .clear lastId⟩ : FeedState).run userId actions).client := by
  have hstart : Scrolls 0 ⟨w, .clear lastId⟩ [] (w.feed.upTo lastId) :=
    ⟨hw, rfl, ⟨[], rfl, rfl, by simp⟩, (fun hfalse => by cases hfalse), fun _ => rfl⟩
  obtain ⟨shown, rest, hall, h⟩ := hstart.run (w.feed.map_fst_upTo_nodup lastId) hlater hbehind
  rw [List.nil_append] at hall
  refine ⟨w.feed.upTo lastId, w.feed.upTo_strict lastId, fun p => SortedSet.mem_upTo _, ?_, ?_, ?_⟩
  · rw [h.blogs2, ← hall, List.map_append]
    exact List.prefix_append _ _
  · intro hstop
    rw [h.blogs2, ← hall, h.stopped hstop, List.append_nil]
  · intro hloads
    refine Bool.eq_false_iff.mpr fun hmore => ?_
    have hshown := h.loaded hmore
    rw [← hall, List.length_append] at hloads
    omega

def fourBlogs : BlogTable where
  row id := if 1 ≤ id ∧ id ≤ 4 then some ⟨id, 7, none, none, none⟩ else none
  id_row id b hb := by
    split at hb
    next hid =>
      cases hb
      exact ⟨rfl, le_trans (by decide) hid.1, lt_of_le_of_lt hid.2 (by decide)⟩
    next => cases hb

/-- Three blogs of one millisecond, and an older one. -/
def sampleFeed : FeedWorld where
  feed := ((((∅ : SortedSet String).zadd 20 "1").zadd 20 "2").zadd 20 "3").zadd 10 "4"
  tbBlog := fourBlogs
  tbUser _ := none
  likeSet _ := ∅

theorem populated_sampleFeed : sampleFeed.Populated := by
  intro p hp
  have hmembers : sampleFeed.feed.members = [("4", 10), ("3", 20), ("2", 20), ("1", 20)] := by
    decide +kernel
  simp only [hmembers, List.mem_cons, List.not_mem_nil, or_false] at hp
  obtain rfl | rfl | rfl | rfl := hp
  · exact ⟨by decide, 4, by decide, by decide⟩
  · exact ⟨by decide, 3, by decide, by decide⟩
  · exact ⟨by decide, 2, by decide, by decide⟩
  · exact ⟨by decide, 1, by decide, by decide⟩

/-- Blog 5 is saved after the first page, and pushed for each of two rows of the follower. -/
def sampleActions : List FeedAction :=
  [.load, .save ⟨5, 7, none, none, none⟩, .push 5 30, .load, .push 5 31, .load]

theorem feed_scroll_sampleFeed : ShowsInOrder sampleFeed 25 3
    ((⟨sampleFeed, .clear 25⟩ : FeedState).run 9 sampleActions).client :=
  feed_scroll sampleFeed 9 25 sampleActions populated_sampleFeed (by decide +kernel)
    (by decide +kernel)

/-- Blog 3 has been pushed for one row of the follower, and after the first page for another. -/
def pushedTwice : List FeedAction := [.load, .push 3 21, .load, .load]

theorem feedScroll_fails : ¬ ∀ (w : FeedWorld) (userId : Long) (lastId : ℤ)
    (actions : List FeedAction), w.Populated →
    FeedState.Throughout FeedState.PushesLater userId ⟨w, .clear lastId⟩ actions →
    ShowsInOrder w lastId (actions.countP FeedAction.isLoad)
      ((⟨w, .clear lastId⟩ : FeedState).run userId actions).client := by
  intro h
  obtain ⟨all, -, hall, -, hstop, -⟩ :=
    h sampleFeed 9 25 pushedTwice populated_sampleFeed (by decide +kernel)
  have hmem : ("1", 20) ∈ all := (hall _).mpr (by decide +kernel)
  have hshown := List.mem_map_of_mem (f := Prod.fst) hmem
  rw [← hstop (by decide +kernel)] at hshown
  exact absurd hshown (by decide +kernel)

end HmDianPing.Social
