import HmDianPing.Ranking.Top
import HmDianPing.Redis.SortedSet
import HmDianPing.Social.Likes
import HmDianPing.Text.Decimal
import Mathlib.Data.Prod.Lex
import Mathlib.Data.String.Basic

/-! # Recent activity

The view is merged from one query for each own note, one for the recent notes and one
for the nearby shops. Every query stops at fifty rows, before the rows that are no
event are dropped. Times of MySQL are milliseconds of the local clock, the scores of the
like sets and the times of the view are milliseconds since the epoch.
-/
namespace HmDianPing.Social.Activity
open Text (longValueOf)
open Ranking Redis

structure Blog where
  id : Long
  userId : Long
  title : Option String
  images : Option String
  createTime : Option ℤ

structure Follow where
  userId : Long
  followUserId : Long
  createTime : ℤ

structure Shop (Double : Type) where
  id : Long
  name : Option String
  images : Option String
  address : Option String
  x : Double
  y : Double
  createTime : Option ℤ
  /-- Set by the query. -/
  distance : Option Double

structure User where
  nickName : Option String

structure Records (Double : Type) where
  tbBlog : List Blog
  blog_id : (tbBlog.map Blog.id).Nodup
  tbFollow : List Follow
  tbShop : List (Shop Double)
  shop_id : (tbShop.map Shop.id).Nodup
  tbUser : Long → Option User
  /-- `blog:liked:{id}`. -/
  likeSet : Long → SortedSet String

inductive MessageType where
  | like | published | followedPost | newShop

inductive TargetType where
  | blog | shop

structure ActivityMessageDTO (Double : Type) where
  id : String
  type : MessageType
  title : String
  content : String
  image : Option String
  targetType : TargetType
  targetId : Long
  createdAt : ℤ
  distance : Option Double

def orNull (s : Option String) : String := s.getD "null"

namespace Records
variable {Double : Type} (r : Records Double)

def ownedNotes (userId : Long) : List Blog := r.tbBlog.filter fun b => b.userId = userId

/-- `recentNotes` without its `LIMIT`. -/
def recentRows (userId : Long) (since : ℤ) : List Blog :=
  ranked (fun b => OrderDual.toDual (toLex (b.createTime.getD 0, b.id))) <|
    r.tbBlog.filter fun b => b.createTime.any fun t => since ≤ t ∧ (b.userId = userId ∨
      r.tbFollow.any fun f => f.userId = userId ∧ f.followUserId = b.userId ∧ f.createTime ≤ t)

def recentNotes (userId : Long) (since : ℤ) (limit : ℕ) : List Blog :=
  (r.recentRows userId since).take limit

/-- `nearby` without its `LIMIT`; `within` is the distance when it is at most the radius. -/
def nearbyRows (within : Double → Double → Shop Double → Option Double) (x y : Double)
    (since : ℤ) : List (Shop Double) :=
  ranked (fun s => OrderDual.toDual (toLex (s.createTime.getD 0, s.id))) <|
    r.tbShop.filterMap fun s =>
      if s.createTime.any (since ≤ ·) then
        (within x y s).map fun distance => { s with distance := some distance }
      else none

def nearby (within : Double → Double → Shop Double → Option Double) (x y : Double)
    (since : ℤ) (offset limit : ℕ) : List (Shop Double) :=
  ((r.nearbyRows within x y since).drop offset).take limit

def actorName (actor : Long) : String :=
  match r.tbUser actor with
  | none => "用户已注销"
  | some user => user.nickName.getD "用户"

def likeMessage (userId : Long) (blog : Blog) (like : String × ℤ) :
    Option (ActivityMessageDTO Double) := do
  let actor ← longValueOf like.1
  if actor = userId then none
  else return {
    id := "like:" ++ toString blog.id ++ ":" ++ toString actor
    type := .like
    title := "收到新的点赞"
    content := r.actorName actor ++ " 赞了你的笔记《" ++ blog.title.getD "未命名笔记" ++ "》"
    image := blog.images
    targetType := .blog
    targetId := blog.id
    createdAt := like.2
    distance := none }

def noteMessage (zone : ℤ → ℤ) (userId : Long) (blog : Blog) :
    Option (ActivityMessageDTO Double) := do
  let createTime ← blog.createTime
  let mine := userId = blog.userId
  return {
    id := "note:" ++ toString blog.id
    type := if mine then .published else .followedPost
    title := if mine then "笔记发布成功" else "关注的人发布了新笔记"
    content := (if mine then "你发布了" else r.actorName blog.userId ++ " 发布了") ++
      "《" ++ orNull blog.title ++ "》"
    image := blog.images
    targetType := .blog
    targetId := blog.id
    createdAt := zone createTime
    distance := none }

end Records

def shopMessage {Double : Type} (zone : ℤ → ℤ) (shop : Shop Double) :
    Option (ActivityMessageDTO Double) := do
  let createTime ← shop.createTime
  return {
    id := "shop:" ++ toString shop.id
    type := .newShop
    title := "附近有新商户"
    content := orNull shop.name ++ " · " ++ shop.address.getD "查看商户详情"
    image := shop.images
    targetType := .shop
    targetId := shop.id
    createdAt := zone createTime
    distance := shop.distance }

def LIMIT : ℕ := 50

def ActivityMessageDTO.order {Double : Type} (m : ActivityMessageDTO Double) : ℤᵒᵈ ×ₗ String :=
  toLex (OrderDual.toDual m.createdAt, m.id)

section recent
variable {Double : Type} (within : Double → Double → Shop Double → Option Double) (zone : ℤ → ℤ)
variable (r : Records Double) (userId : Long) (x y : Option Double)

/-- `recent`, which reads the clock for the day to begin at and again for the present; `zone` is the
instant of a local time. -/
def recent (localNow now : ℤ) : List (ActivityMessageDTO Double) :=
  let since := localNow - 30 * 24 * 60 * 60 * 1000
  let owned := r.ownedNotes userId
  let likes := owned.flatMap fun blog =>
    ((r.likeSet blog.id).zrevrangeByScore (zone since) now 0 LIMIT).filterMap
      (r.likeMessage userId blog)
  let notes := (r.recentNotes userId since LIMIT).filterMap (r.noteMessage zone userId)
  let shops := match x, y with
    | some x, some y => (r.nearby within x y since 0 LIMIT).filterMap (shopMessage zone)
    | _, _ => []
  let messages := likes ++ notes ++ shops
  (ranked ActivityMessageDTO.order (messages.filter fun m => m.createdAt ≤ now)).take LIMIT

/-- The rows of every query in its order and without its `LIMIT`, as the events they are, if any. -/
def queries (localNow now : ℤ) : List (List (Option (ActivityMessageDTO Double))) :=
  let since := localNow - 30 * 24 * 60 * 60 * 1000
  (r.ownedNotes userId).map (fun blog =>
    ((r.likeSet blog.id).descending.filter fun like => zone since ≤ like.2 ∧ like.2 ≤ now).map
      (r.likeMessage userId blog)) ++
  [(r.recentRows userId since).map (r.noteMessage zone userId),
    match x, y with
    | some x, some y => (r.nearbyRows within x y since).map (shopMessage zone)
    | _, _ => []]

def eligible (localNow now : ℤ) : List (ActivityMessageDTO Double) :=
  ((queries within zone r userId x y localNow now).flatMap fun rows => rows.filterMap id).filter
    fun m => m.createdAt ≤ now

/-- The ones among the first rows of their query. -/
def visible (localNow now : ℤ) : List (ActivityMessageDTO Double) :=
  ((queries within zone r userId x y localNow now).flatMap fun rows =>
    (rows.take LIMIT).filterMap id).filter fun m => m.createdAt ≤ now

def cutOff (localNow now : ℤ) : List (ActivityMessageDTO Double) :=
  ((queries within zone r userId x y localNow now).flatMap fun rows =>
    (rows.drop LIMIT).filterMap id).filter fun m => m.createdAt ≤ now

/-- Notes and shops that are created later than now. -/
def future (localNow now : ℤ) : List (ActivityMessageDTO Double) :=
  ((queries within zone r userId x y localNow now).flatMap fun rows => rows.filterMap id).filter
    fun m => ¬ m.createdAt ≤ now

/-- Of two visible events with one id, the later one stands beyond the fiftieth place. -/
def DistinctIds (l : List (ActivityMessageDTO Double)) : Prop :=
  l.Pairwise fun m m' => m.id = m'.id → LIMIT ≤ place ActivityMessageDTO.order l m m'

/-- Fifty of the visible events are no older than any that is cut off. -/
def NoneMissed (l cutOff : List (ActivityMessageDTO Double)) : Prop :=
  ∀ e ∈ cutOff, LIMIT ≤ l.countP fun m => e.createdAt ≤ m.createdAt

end recent

/-- The list is the view of these events. -/
structure IsTopFifty {Double : Type} (l events : List (ActivityMessageDTO Double)) : Prop where
  distinct : (l.map ActivityMessageDTO.id).Nodup
  sorted : l.Pairwise fun m m' =>
    m'.createdAt < m.createdAt ∨ m'.createdAt = m.createdAt ∧ m.id ≤ m'.id
  newest : l.map ActivityMessageDTO.createdAt =
    (ranked OrderDual.toDual (events.map ActivityMessageDTO.createdAt)).take LIMIT

section
variable {Double : Type} {within : Double → Double → Shop Double → Option Double} {zone : ℤ → ℤ}
variable {r : Records Double} {userId : Long} {x y : Option Double} {localNow now : ℤ}

theorem recent_eq : recent within zone r userId x y localNow now =
    (ranked ActivityMessageDTO.order
      (visible within zone r userId x y localNow now)).take LIMIT := by
  have hcut {α : Type} (rows : List α) (f : α → Option (ActivityMessageDTO Double)) :
      ((rows.map f).take LIMIT).filterMap (fun m => m) = (rows.take LIMIT).filterMap f := by
    rw [← List.map_take, List.filterMap_map]
    rfl
  cases x <;> cases y <;>
    simp [recent, visible, queries, hcut, List.flatMap_map, SortedSet.zrevrangeByScore,
      Records.recentNotes, Records.nearby]

theorem eligible_perm : (eligible within zone r userId x y localNow now).Perm
    (visible within zone r userId x y localNow now ++
      cutOff within zone r userId x y localNow now) := by
  rw [eligible, visible, cutOff, ← List.filter_append]
  apply List.Perm.filter
  induction queries within zone r userId x y localNow now with
  | nil => exact .nil
  | cons rows rest ih =>
    have hrows : rows.filterMap id =
        (rows.take LIMIT).filterMap id ++ (rows.drop LIMIT).filterMap id := by
      rw [← List.filterMap_append, List.take_append_drop]
    rw [List.flatMap_cons, List.flatMap_cons, List.flatMap_cons, hrows, List.append_assoc,
      List.append_assoc]
    exact ((ih.append_left _).trans (List.perm_append_comm_assoc _ _ _)).append_left _

theorem le_now_of_mem_visible {m : ActivityMessageDTO Double}
    (hm : m ∈ visible within zone r userId x y localNow now) : m.createdAt ≤ now := by
  simpa using (List.mem_filter.mp hm).2

theorem order_le_iff {m m' : ActivityMessageDTO Double} : m.order ≤ m'.order ↔
    m'.createdAt < m.createdAt ∨ m'.createdAt = m.createdAt ∧ m.id ≤ m'.id := by
  rw [ActivityMessageDTO.order, ActivityMessageDTO.order, Prod.Lex.toLex_le_toLex]
  simp [eq_comm]

theorem map_createdAt_ranked (l : List (ActivityMessageDTO Double)) :
    (ranked ActivityMessageDTO.order l).map ActivityMessageDTO.createdAt =
      ranked OrderDual.toDual (l.map ActivityMessageDTO.createdAt) := by
  apply map_ranked OrderDual.toDual.injective
  intro m m' h
  rcases order_le_iff.mp h with hlt | ⟨heq, -⟩
  · exact hlt.le
  · exact heq.le

theorem isTopFifty_recent_iff {events left : List (ActivityMessageDTO Double)}
    (hperm : events.Perm (visible within zone r userId x y localNow now ++ left)) :
    IsTopFifty (recent within zone r userId x y localNow now) events ↔
      DistinctIds (visible within zone r userId x y localNow now) ∧
        NoneMissed (visible within zone r userId x y localNow now) left := by
  have hdistinct := nodup_take_ranked_iff ActivityMessageDTO.order
    (visible within zone r userId x y localNow now) LIMIT fun k => (ofLex k).2
  have hnewest := take_ranked_append_iff (K := ℤᵒᵈ) LIMIT
    ((visible within zone r userId x y localNow now).map ActivityMessageDTO.createdAt)
    (left.map ActivityMessageDTO.createdAt)
  have htimes : (ranked OrderDual.toDual (events.map ActivityMessageDTO.createdAt)) =
      ranked OrderDual.toDual ((visible within zone r userId x y localNow now).map
        ActivityMessageDTO.createdAt ++ left.map ActivityMessageDTO.createdAt) := by
    rw [← List.map_append]
    exact ranked_eq_of_perm OrderDual.toDual.injective (hperm.map _)
  have hsame : (recent within zone r userId x y localNow now).map ActivityMessageDTO.createdAt =
        (ranked OrderDual.toDual (events.map ActivityMessageDTO.createdAt)).take LIMIT ↔
      NoneMissed (visible within zone r userId x y localNow now) left := by
    rw [recent_eq, List.map_take, map_createdAt_ranked, htimes, eq_comm]
    refine hnewest.trans (List.forall_mem_map.trans ?_)
    have hcount (t : ℤ) : upTo (id : ℤᵒᵈ → ℤᵒᵈ) ((visible within zone r userId x y localNow now).map
        ActivityMessageDTO.createdAt) t =
        (visible within zone r userId x y localNow now).countP fun m => t ≤ m.createdAt :=
      List.countP_map
    simp only [hcount, NoneMissed]
  rw [← hsame]
  constructor
  · rintro ⟨hids, -, htop⟩
    rw [recent_eq] at hids
    exact ⟨hdistinct.mp hids, htop⟩
  · rintro ⟨hids, htop⟩
    refine ⟨recent_eq ▸ hdistinct.mpr hids, ?_, htop⟩
    rw [recent_eq]
    have hranked := (ranked_pairwise ActivityMessageDTO.order
      (visible within zone r userId x y localNow now)).sublist (List.take_sublist LIMIT _)
    exact hranked.imp fun h => order_le_iff.mp h

theorem noneMissed_append_future {left : List (ActivityMessageDTO Double)} :
    NoneMissed (visible within zone r userId x y localNow now)
        (left ++ future within zone r userId x y localNow now) ↔
      NoneMissed (visible within zone r userId x y localNow now) left ∧
        future within zone r userId x y localNow now = [] := by
  rw [NoneMissed, List.forall_mem_append]
  refine and_congr_right' ⟨fun h => ?_, fun h => by simp [h]⟩
  refine List.eq_nil_iff_forall_not_mem.mpr fun e he => ?_
  have hlate : ¬ e.createdAt ≤ now := by simpa using (List.mem_filter.mp he).2
  have hnone : (visible within zone r userId x y localNow now).countP
      (fun m => e.createdAt ≤ m.createdAt) = 0 := by
    refine List.countP_eq_zero.mpr fun m hm hle => hlate ?_
    exact (of_decide_eq_true hle).trans (le_now_of_mem_visible hm)
  have := h e he
  rw [hnone] at this
  exact absurd this (by decide)

/-- The view is the true top fifty of the events that are not in the future exactly when no event
that the limit of its query cuts off would be in it, and no two have one id. If notes and shops of
the future counted, there would have to be none. -/
theorem recent_isTopFifty_iff (within : Double → Double → Shop Double → Option Double)
    (zone : ℤ → ℤ) (r : Records Double) (userId : Long) (x y : Option Double) (localNow now : ℤ) :
    (IsTopFifty (recent within zone r userId x y localNow now)
        (eligible within zone r userId x y localNow now) ↔
      DistinctIds (visible within zone r userId x y localNow now) ∧
        NoneMissed (visible within zone r userId x y localNow now)
          (cutOff within zone r userId x y localNow now)) ∧
    (IsTopFifty (recent within zone r userId x y localNow now)
        (eligible within zone r userId x y localNow now ++
          future within zone r userId x y localNow now) ↔
      (DistinctIds (visible within zone r userId x y localNow now) ∧
        NoneMissed (visible within zone r userId x y localNow now)
          (cutOff within zone r userId x y localNow now)) ∧
        future within zone r userId x y localNow now = []) := by
  refine ⟨isTopFifty_recent_iff eligible_perm, ?_⟩
  have hperm : (eligible within zone r userId x y localNow now ++
      future within zone r userId x y localNow now).Perm
        (visible within zone r userId x y localNow now ++
          (cutOff within zone r userId x y localNow now ++
            future within zone r userId x y localNow now)) := by
    rw [← List.append_assoc]
    exact eligible_perm.append_right _
  rw [isTopFifty_recent_iff hperm, noneMissed_append_future, and_assoc]

end

/-- Fifty likes of others on the one note there is, and a newer one of its author. -/
def fiftyOneLikes : Records Unit where
  tbBlog := [⟨1, 1, none, none, none⟩]
  blog_id := by decide
  tbFollow := []
  tbShop := []
  shop_id := by decide
  tbUser _ := none
  likeSet _ := (List.range 51).foldr (fun i z => z.zadd (100 - i) (toString (i + 1))) ∅

/-- The like of the author takes one of the fifty rows. -/
theorem recent_misses_like :
    let l := recent (fun _ _ _ => none) id fiftyOneLikes 1 none none 0 100
    let events := eligible (fun _ _ _ => none) id fiftyOneLikes 1 none none 0 100
    ¬ IsTopFifty l events ∧
      ¬ IsTopFifty l (events ++ future (fun _ _ _ => none) id fiftyOneLikes 1 none none 0 100) := by
  intro l events
  have hfuture : future (fun _ _ _ => none) id fiftyOneLikes 1 none none 0 100 = [] :=
    List.length_eq_zero_iff.mp (by decide +kernel)
  have hl : l.length = 49 := by decide +kernel
  have hevents : events.length = 50 := by decide +kernel
  have hnot : ¬ IsTopFifty l events := by
    intro h
    have hlength := congrArg List.length h.newest
    rw [List.length_map, hl, List.length_take, (ranked_perm _).length_eq, List.length_map,
      hevents] at hlength
    exact absurd hlength (by decide)
  rw [hfuture, List.append_nil]
  exact ⟨hnot, hnot⟩

end HmDianPing.Social.Activity
