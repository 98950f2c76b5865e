import HmDianPing.Interleaving.Trace
import HmDianPing.Social.Feed
import HmDianPing.Social.Follow

/-! # Pushing a blog to the followers

`saveBlog` inserts the blog, reads who follows its author, and pushes the id to one
feed after the other, each with the time of its own push. Nothing holds these calls
together: follows are committed between them, and any of them can fail.
-/
namespace HmDianPing.Social
open Interleaving Program Redis

inductive FanOutCommand where
  | save (blog : Blog)
  | listFollows (followUserId : Long)
  | currentTimeMillis
  | zadd (userId id : Long) (score : ℤ)

/-- `save` sets the id of the blog it has inserted; a list of follows is one of their users. -/
abbrev FanOutCommand.Reply : FanOutCommand → Type
  | .save _ => Option Long
  | .listFollows _ => List Long
  | .currentTimeMillis => ℤ
  | .zadd _ _ _ => Unit

abbrev FanOutProgram := Program FanOutCommand FanOutCommand.Reply Failure

def pushTo (id userId : Long) : FanOutProgram Unit := do
  let now ← perform FanOutCommand.currentTimeMillis
  perform (FanOutCommand.zadd userId id now)

def saveBlog (user : Long) (blog : Blog) : FanOutProgram (Except String Long) := do
  let saved ← perform (FanOutCommand.save { blog with userId := user })
  match saved with
  | none => return .error "新增探店笔记失败"
  | some id =>
    let follows ← perform (FanOutCommand.listFollows user)
    forEach follows (pushTo id)
    return .ok id

structure FanOutWorld where
  tbBlog : BlogTable
  /-- The `AUTO_INCREMENT` counter of `tb_blog`. -/
  nextId : Long
  /-- What is committed. -/
  tables : FollowTables
  /-- `feed:{userId}`. -/
  feeds : Long → SortedSet String
  clock : ℤ
  /-- History: the rows that `tb_follow` has had since a blog was saved. -/
  since : Long → List (Long × Long)

inductive FanOutChoice where
  | performed
  | fails (e : Failure)
  /-- The call is performed, and its answer is lost. -/
  | failsAfter (e : Failure)
  /-- No row is inserted. -/
  | refused

namespace FanOutWorld
variable (w : FanOutWorld)

/-- What the feed of a user is served from. -/
def served (userId : Long) (tbUser : Long → Option User) (likeSet : Long → SortedSet Long) :
    FeedWorld :=
  ⟨w.feeds userId, w.tbBlog, tbUser, likeSet⟩

/-- The columns that a feed is served from; the name, the icon and the like are not columns. -/
def rowOf (blog : Blog) : Blog := ⟨w.nextId, blog.userId, none, none, none⟩

def insertBlog (blog : Blog) (h : -2 ^ 63 ≤ w.nextId ∧ w.nextId < 2 ^ 63) : FanOutWorld :=
  { w with
    tbBlog := w.tbBlog.insert (w.rowOf blog) h
    nextId := w.nextId + 1
    since := Function.update w.since w.nextId w.tables.tbFollow }

def push (userId id : Long) (score : ℤ) : FanOutWorld :=
  { w with feeds := Function.update w.feeds userId ((w.feeds userId).zadd score (toString id)) }

def answer : (c : FanOutCommand) → Except Failure c.Reply × FanOutWorld
  | .save blog =>
    if h : -2 ^ 63 ≤ w.nextId ∧ w.nextId < 2 ^ 63 then (.ok (some w.nextId), w.insertBlog blog h)
    else (.error "Failed to read auto-increment value from storage engine", w)
  | .listFollows followUserId =>
    (.ok ((w.tables.tbFollow.filter fun p => p.2 = followUserId).map Prod.fst), w)
  | .currentTimeMillis => (.ok w.clock, w)
  | .zadd userId id score => (.ok (), w.push userId id score)

def exec : (c : FanOutCommand) → FanOutChoice → FanOutWorld →
    Option (Except Failure c.Reply × FanOutWorld)
  | c, .performed, w => some (w.answer c)
  | _, .fails e, w => some (.error e, w)
  | c, .failsAfter e, w => some (.error e, (w.answer c).2)
  | .save _, .refused, w => some (.ok none, w)
  | _, .refused, _ => none

end FanOutWorld

inductive FanOutAction where
  | saveBlog (user : Long) (blog : Blog)
  /-- A transaction of `follow` commits its writes. -/
  | follow (writes : List FollowWrite)
  | tick (clock : ℤ)

/-- Blogs are saved by any users, while follows are committed. -/
def blogPosts : Machine FanOutWorld FanOutCommand FanOutCommand.Reply Failure Long FanOutChoice
    FanOutAction where
  exec := FanOutWorld.exec
  act
  | .saveBlog user blog, w => some (w, [⟨user, do
      let _ ← saveBlog user blog⟩])
  | .follow writes, w =>
    let tables := w.tables.writeAll writes
    some ({ w with tables := tables, since := fun id => w.since id ++ tables.tbFollow }, [])
  | .tick clock, w => if 0 < clock then some ({ w with clock := clock }, []) else none

abbrev FanOutPool := Config FanOutWorld FanOutCommand FanOutCommand.Reply Failure Long

namespace FanOutWorld

/-- Rows stay, histories grow, and no feed loses a member. -/
structure Grows (w w' : FanOutWorld) : Prop where
  row : ∀ id blog, w.tbBlog.row id = some blog → w'.tbBlog.row id = some blog
  since : ∀ id, (w.tbBlog.row id).isSome → w.since id ⊆ w'.since id
  feeds : ∀ userId m, ((w.feeds userId).zscore m).isSome → ((w'.feeds userId).zscore m).isSome

/-- The member is in the feed from before, or its user has followed the author since the saving. -/
def Due (w₀ w : FanOutWorld) (userId id : Long) : Prop :=
  ∃ blog, w.tbBlog.row id = some blog ∧
    (((w₀.feeds userId).zscore (toString id)).isSome ∨ (userId, blog.userId) ∈ w.since id)

/-- What holds in every state of a run from `w₀`. -/
structure Sound (w₀ w : FanOutWorld) : Prop where
  clock : 0 < w.clock
  fresh : ∀ id, w.nextId ≤ id → w.tbBlog.row id = none
  since : ∀ id, w.tables.tbFollow ⊆ w.since id
  feeds : ∀ userId, ∀ p ∈ (w.feeds userId).members, 0 < p.2 ∧
    ∃ id, toString id = p.1 ∧ w₀.Due w userId id

structure Opening (w : FanOutWorld) : Prop where
  clock : 0 < w.clock
  fresh : ∀ id, w.nextId ≤ id → w.tbBlog.row id = none
  since : ∀ id, w.since id = w.tables.tbFollow
  feeds : ∀ userId, ∀ p ∈ (w.feeds userId).members, 0 < p.2 ∧
    ∃ id, toString id = p.1 ∧ (w.tbBlog.row id).isSome

section Grows
variable {w₀ w w' w'' : FanOutWorld}

theorem Grows.refl (w : FanOutWorld) : Grows w w :=
  ⟨fun _ _ => id, fun _ _ => List.Subset.refl _, fun _ _ => id⟩

theorem Grows.trans (h : Grows w w') (h' : Grows w' w'') : Grows w w'' where
  row id blog hrow := h'.row id blog (h.row id blog hrow)
  since id hrow := by
    obtain ⟨blog, hblog⟩ := Option.isSome_iff_exists.mp hrow
    have hlater : (w'.tbBlog.row id).isSome := by rw [h.row id blog hblog]; rfl
    exact List.Subset.trans (h.since id hrow) (h'.since id hlater)
  feeds userId m hm := h'.feeds userId m (h.feeds userId m hm)

theorem Grows.due (h : Grows w w') {userId id : Long} (hdue : w₀.Due w userId id) :
    w₀.Due w' userId id := by
  obtain ⟨blog, hrow, hold | hsince⟩ := hdue
  · exact ⟨blog, h.row id blog hrow, .inl hold⟩
  · exact ⟨blog, h.row id blog hrow, .inr (h.since id (by rw [hrow]; rfl) hsince)⟩

theorem zscore_push (userId id : Long) (score : ℤ) :
    ((w.push userId id score).feeds userId).zscore (toString id) = some score := by
  simp only [push, Function.update_self]
  exact AList.lookup_insert _

theorem row_insertBlog (blog : Blog) (h : -2 ^ 63 ≤ w.nextId ∧ w.nextId < 2 ^ 63) :
    (w.insertBlog blog h).tbBlog.row w.nextId = some (w.rowOf blog) :=
  Function.update_self _ _ _

theorem zscore_zadd_isSome {z : SortedSet String} {score : ℤ} {a m : String}
    (h : (z.zscore m).isSome) : ((z.zadd score a).zscore m).isSome := by
  by_cases hm : m = a
  · subst hm
    simp [SortedSet.zadd, SortedSet.zscore]
  · simpa [SortedSet.zadd, SortedSet.zscore, AList.lookup_insert_ne hm] using h

theorem grows_insertBlog (hfresh : ∀ id, w.nextId ≤ id → w.tbBlog.row id = none) (blog : Blog)
    (h : -2 ^ 63 ≤ w.nextId ∧ w.nextId < 2 ^ 63) : Grows w (w.insertBlog blog h) := by
  have hne : ∀ id, (w.tbBlog.row id).isSome → id ≠ w.nextId := by
    rintro id hid rfl
    rw [hfresh _ (le_refl _)] at hid
    cases hid
  refine ⟨fun id b hb => ?_, fun id hid => ?_, fun _ _ => id⟩
  · have hid := hne id (by rw [hb]; rfl)
    simpa [insertBlog, BlogTable.insert, rowOf, hid] using hb
  · simp [insertBlog, hne id hid]

theorem grows_push (userId id : Long) (score : ℤ) : Grows w (w.push userId id score) := by
  refine ⟨fun _ _ => fun h => h, fun _ _ => List.Subset.refl _, fun userId' m hm => ?_⟩
  by_cases hu : userId' = userId
  · subst hu
    simpa [push] using zscore_zadd_isSome hm
  · simpa [push, hu] using hm

theorem grows_answer (hw : w₀.Sound w) (c : FanOutCommand) : Grows w (w.answer c).2 := by
  cases c with
  | save blog =>
    simp only [answer]
    split
    · exact grows_insertBlog hw.fresh blog _
    · exact .refl w
  | listFollows followUserId => exact .refl w
  | currentTimeMillis => exact .refl w
  | zadd userId id score => exact grows_push userId id score

theorem exec_world {c : FanOutCommand} {f : FanOutChoice} {r : Except Failure c.Reply}
    (h : exec c f w = some (r, w')) : w' = (w.answer c).2 ∨ w' = w := by
  cases f with
  | performed =>
    have hanswer : w.answer c = (r, w') := by cases c <;> exact Option.some.inj h
    exact .inl (by rw [hanswer])
  | fails e => cases c <;> cases h <;> exact .inr rfl
  | failsAfter e => cases c <;> cases h <;> exact .inl rfl
  | refused =>
    cases c <;> cases h
    exact .inr rfl

theorem grows_exec (hw : w₀.Sound w) {c : FanOutCommand} {f : FanOutChoice}
    {r : Except Failure c.Reply} (h : exec c f w = some (r, w')) : Grows w w' := by
  rcases exec_world h with rfl | rfl
  · exact grows_answer hw c
  · exact .refl _

theorem grows_act {a : FanOutAction} {started : List (Thread FanOutCommand _ Failure Long)}
    (h : blogPosts.act a w = some (w', started)) : Grows w w' := by
  cases a with
  | saveBlog user blog =>
    cases h
    exact .refl w
  | follow writes =>
    cases h
    exact ⟨fun _ _ => id, fun _ _ => List.subset_append_left _ _, fun _ _ => id⟩
  | tick clock =>
    simp only [blogPosts, Option.ite_none_right_eq_some] at h
    obtain ⟨-, h⟩ := h
    cases h
    exact ⟨fun _ _ => id, fun _ _ => List.Subset.refl _, fun _ _ => id⟩

end Grows
end FanOutWorld

/-- What a handler can know: a blog that it has saved, a user it has found among the followers of
the author, and a time. -/
inductive FanOutFact where
  | saved (id author : Long)
  | follower (userId id : Long)
  | time (now : ℤ)

def FanOutFact.Holds (w₀ w : FanOutWorld) : FanOutFact → Prop
  | .saved id author => ∃ blog, w.tbBlog.row id = some blog ∧ blog.userId = author
  | .follower userId id => w₀.Due w userId id
  | .time now => 0 < now

/-- What a reply teaches. -/
def fanOutTaught (κ : Set FanOutFact) :
    (c : FanOutCommand) → Except Failure c.Reply → Set FanOutFact
  | .save blog, .ok (some id) => {.saved id blog.userId}
  | .listFollows author, .ok users =>
    {x | ∃ userId ∈ users, ∃ id, .saved id author ∈ κ ∧ x = .follower userId id}
  | .currentTimeMillis, .ok now => {.time now}
  | _, _ => ∅

/-- A feed is written to only with a blog its user is due, and with a time that was read. -/
def fanOutLogic : Logic FanOutCommand FanOutCommand.Reply Failure (Set FanOutFact) where
  pre κ c := match c with
    | .zadd userId id score => .follower userId id ∈ κ ∧ .time score ∈ κ
    | _ => True
  meets _ _ _ := True
  learn κ c r := κ ∪ fanOutTaught κ c r

theorem fanOutLogic_growing : fanOutLogic.Growing where
  learn _ _ _ := Set.subset_union_left
  pre κ κ' c hle hpre := by
    cases c with
    | zadd userId id score => exact ⟨hle hpre.1, hle hpre.2⟩
    | _ => trivial

theorem saveBlog_safe (user : Long) (blog : Blog) (κ : Set FanOutFact) :
    fanOutLogic.Safe (saveBlog user blog) κ := by
  refine ⟨trivial, fun r _ => ?_⟩
  cases r with
  | error e => trivial
  | ok saved =>
    cases saved with
    | none => trivial
    | some id =>
      refine ⟨trivial, fun r _ => ?_⟩
      cases r with
      | error e => trivial
      | ok users =>
        change fanOutLogic.Safe (forEach users (pushTo id) >>= fun _ => pure (Except.ok id)) _
        refine fanOutLogic_growing.safe_bind (fanOutLogic_growing.safe_forEach ?_)
          fun _ _ _ => trivial
        intro κ' userId huser hle
        have hfollower : FanOutFact.follower userId id ∈ κ' :=
          hle (.inr ⟨userId, huser, id, .inr rfl, rfl⟩)
        refine ⟨trivial, fun r _ => ?_⟩
        cases r with
        | error e => trivial
        | ok now =>
          refine ⟨⟨.inl hfollower, .inr rfl⟩, fun r _ => ?_⟩
          cases r <;> trivial

section Run
open FanOutWorld
variable {w₀ w w' : FanOutWorld} {c c' : FanOutPool}

theorem FanOutFact.Holds.grows {x : FanOutFact} (hx : x.Holds w₀ w) (h : Grows w w') :
    x.Holds w₀ w' := by
  cases x with
  | saved id author =>
    obtain ⟨blog, hrow, hauthor⟩ := hx
    exact ⟨blog, h.row id blog hrow, hauthor⟩
  | follower userId id => exact h.due hx
  | time now => exact hx

theorem holds_taught (hw : w₀.Sound w) {κ : Set FanOutFact} (hκ : ∀ x ∈ κ, x.Holds w₀ w)
    {cmd : FanOutCommand} {f : FanOutChoice} {r : Except Failure cmd.Reply}
    (h : FanOutWorld.exec cmd f w = some (r, w')) : ∀ x ∈ fanOutTaught κ cmd r, x.Holds w₀ w' := by
  intro x hx
  cases r with
  | error e => cases cmd <;> exact absurd hx (Set.notMem_empty x)
  | ok a =>
    cases cmd with
    | save blog =>
      cases a with
      | none => exact absurd hx (Set.notMem_empty x)
      | some id =>
        cases f <;> try cases h
        simp only [FanOutWorld.exec, FanOutWorld.answer, Option.some.injEq] at h
        split at h
        · cases h
          cases hx
          exact ⟨w.rowOf blog, row_insertBlog blog _, rfl⟩
        · cases h
    | listFollows author =>
      cases f <;> cases h
      obtain ⟨userId, huser, id, hsaved, rfl⟩ := hx
      obtain ⟨blog, hrow, rfl⟩ := hκ _ hsaved
      refine ⟨blog, hrow, .inr (hw.since id ?_)⟩
      obtain ⟨p, hp, rfl⟩ := List.mem_map.mp huser
      obtain ⟨hp, hauthor⟩ := List.mem_filter.mp hp
      have hauthor : p.2 = blog.userId := of_decide_eq_true hauthor
      rwa [← hauthor]
    | currentTimeMillis =>
      cases f <;> cases h
      cases hx
      exact hw.clock
    | zadd userId id score => exact absurd hx (Set.notMem_empty x)

theorem FanOutWorld.Sound.insertBlog (hw : w₀.Sound w) (blog : Blog)
    (h : -2 ^ 63 ≤ w.nextId ∧ w.nextId < 2 ^ 63) : w₀.Sound (w.insertBlog blog h) where
  clock := hw.clock
  fresh id hid := by
    have hlt : w.nextId < id := Int.lt_of_add_one_le hid
    simpa [FanOutWorld.insertBlog, BlogTable.insert, rowOf, hlt.ne'] using hw.fresh id hlt.le
  since id := by
    by_cases hid : id = w.nextId
    · subst hid
      simp [FanOutWorld.insertBlog]
    · simpa [FanOutWorld.insertBlog, hid] using hw.since id
  feeds userId p hp := by
    obtain ⟨hpos, id, htext, hdue⟩ := hw.feeds userId p hp
    exact ⟨hpos, id, htext, (grows_insertBlog hw.fresh blog h).due hdue⟩

theorem FanOutWorld.Sound.push (hw : w₀.Sound w) {userId id : Long} {score : ℤ}
    (hdue : w₀.Due w userId id) (hscore : 0 < score) : w₀.Sound (w.push userId id score) where
  clock := hw.clock
  fresh := hw.fresh
  since := hw.since
  feeds userId' p hp := by
    by_cases hu : userId' = userId
    · subst hu
      simp only [FanOutWorld.push, Function.update_self] at hp
      rcases (SortedSet.mem_members_zadd _).mp hp with rfl | ⟨-, hp⟩
      · exact ⟨hscore, id, rfl, hdue⟩
      · exact hw.feeds userId' p hp
    · exact hw.feeds userId' p (by simpa [FanOutWorld.push, hu] using hp)

theorem FanOutWorld.Sound.answer (hw : w₀.Sound w) {κ : Set FanOutFact}
    (hκ : ∀ x ∈ κ, x.Holds w₀ w) {cmd : FanOutCommand} (hpre : fanOutLogic.pre κ cmd) :
    w₀.Sound (w.answer cmd).2 := by
  cases cmd with
  | save blog =>
    simp only [FanOutWorld.answer]
    split
    · exact hw.insertBlog blog _
    · exact hw
  | listFollows author => exact hw
  | currentTimeMillis => exact hw
  | zadd userId id score => exact hw.push (hκ _ hpre.1) (hκ _ hpre.2)

/-- The handlers know only what is true. -/
structure FanOutKnown (w₀ : FanOutWorld) (c : FanOutPool) : Prop where
  sound : w₀.Sound c.shared
  known : Machine.Knows fanOutLogic (fun w _ κ => ∀ x ∈ κ, x.Holds w₀ w) c

theorem FanOutKnown.step {mv : Move FanOutChoice FanOutAction} (h : FanOutKnown w₀ c)
    (hf : blogPosts.Fires c mv c') : FanOutKnown w₀ c' := by
  cases hf with
  | @run i f tag cmd k r s hi hexec =>
    have hgrows := grows_exec h.sound hexec
    obtain ⟨κ, hκ, hpre, -⟩ := h.known.thread hi
    refine ⟨?_, h.known.run hi (fun _ _ _ _ κ hκ x hx => (hκ x hx).grows hgrows) ?_⟩
    · rcases exec_world hexec with rfl | rfl
      · exact h.sound.answer hκ hpre
      · exact h.sound
    · intro κ hκ _
      refine ⟨trivial, fun x hx => ?_⟩
      rcases hx with hx | hx
      · exact (hκ x hx).grows hgrows
      · exact holds_taught h.sound hκ hexec x hx
  | crash hb => exact ⟨h.sound, h.known.crash _⟩
  | @act a s started hact =>
    have hgrows := grows_act hact
    refine ⟨?_, h.known.act (fun _ κ hκ x hx => (hκ x hx).grows hgrows) fun t ht => ?_⟩
    · cases a with
      | saveBlog user blog =>
        cases hact
        exact h.sound
      | follow writes =>
        cases hact
        refine ⟨h.sound.clock, h.sound.fresh, fun id => List.subset_append_right _ _, ?_⟩
        intro userId p hp
        obtain ⟨hpos, id, htext, hdue⟩ := h.sound.feeds userId p hp
        exact ⟨hpos, id, htext, hgrows.due hdue⟩
      | tick clock =>
        simp only [blogPosts, Option.ite_none_right_eq_some] at hact
        obtain ⟨hclock, hact⟩ := hact
        cases hact
        exact ⟨hclock, h.sound.fresh, h.sound.since, h.sound.feeds⟩
    · cases a with
      | saveBlog user blog =>
        cases hact
        obtain rfl := List.mem_singleton.mp ht
        exact ⟨∅, by simp, (saveBlog_safe user blog ∅).bind fun _ _ => trivial⟩
      | follow writes => cases hact; cases ht
      | tick clock =>
        simp only [blogPosts, Option.ite_none_right_eq_some] at hact
        obtain ⟨-, hact⟩ := hact
        cases hact
        cases ht

theorem FanOutKnown.opening (hw : w₀.Opening) : FanOutKnown w₀ ⟨w₀, []⟩ := by
  refine ⟨⟨hw.clock, hw.fresh, fun id => by rw [hw.since id]; exact List.Subset.refl _, ?_⟩,
    by simp [Machine.Knows]⟩
  intro userId p hp
  obtain ⟨hpos, id, htext, hrow⟩ := hw.feeds userId p hp
  obtain ⟨blog, hblog⟩ := Option.isSome_iff_exists.mp hrow
  refine ⟨hpos, id, htext, blog, hblog, .inl ?_⟩
  rw [htext, (SortedSet.mem_members _).mp hp]
  rfl

theorem fanOutKnown_of_run (hw : w₀.Opening) (hrun : blogPosts.Run (fun _ _ => True) ⟨w₀, []⟩ c) :
    FanOutKnown w₀ c :=
  hrun.invariant (.opening hw) fun _ _ _ hd _ hf => hd.step hf

end Run

section Serving
open FanOutWorld
variable {w₀ w : FanOutWorld} {userId : Long} {tbUser : Long → Option User}
  {likeSet : Long → SortedSet Long} {max : ℤ} {offset : ℕ}

theorem FanOutWorld.Sound.populated (h : w₀.Sound w) (userId : Long) (tbUser : Long → Option User)
    (likeSet : Long → SortedSet Long) : (w.served userId tbUser likeSet).Populated := by
  intro p hp
  obtain ⟨hpos, id, htext, blog, hrow, -⟩ := h.feeds userId p hp
  exact ⟨hpos, id, htext, by simp [served, hrow]⟩

theorem row_of_queryBlogOfFollow {w : FeedWorld} {r : ScrollResult} {blog : Blog}
    (h : w.queryBlogOfFollow userId max offset = .ok (some r)) (hblog : blog ∈ r.list) :
    ∃ row, w.tbBlog.row blog.id = some row ∧ row.userId = blog.userId := by
  simp only [FeedWorld.queryBlogOfFollow] at h
  split at h
  · cases h
  · cases hids : (w.feed.zrevrangeByScore 0 max offset 2).mapM FeedWorld.blogId with
    | error e => rw [hids] at h; cases h
    | ok ids =>
      rw [hids] at h
      cases h
      obtain ⟨row, hrow, rfl⟩ := List.mem_map.mp hblog
      obtain ⟨id, -, hid⟩ := List.mem_filterMap.mp hrow
      have hkeep : (w.isBlogLiked userId (w.queryBlogUser row)).id = row.id ∧
          (w.isBlogLiked userId (w.queryBlogUser row)).userId = row.userId := by
        cases hu : w.tbUser row.userId <;>
          simp [FeedWorld.isBlogLiked, FeedWorld.queryBlogUser, hu]
      rw [hkeep.1, hkeep.2, (w.tbBlog.id_row id row hid).1]
      exact ⟨row, hid, rfl⟩

/-- A stored blog whose id is a member of the feed is due to its user. -/
theorem FanOutWorld.Sound.due_of_member (h : w₀.Sound w) {p : String × ℤ} {id : Long} {blog : Blog}
    (hp : p ∈ (w.feeds userId).members) (htext : toString id = p.1)
    (hrow : w.tbBlog.row id = some blog) : w₀.Due w userId id := by
  obtain ⟨-, id', htext', blog', hrow', hshown⟩ := h.feeds userId p hp
  have hparse := Text.longValueOf_toString (w.tbBlog.id_row id blog hrow).2
  have hparse' := Text.longValueOf_toString (w.tbBlog.id_row id' blog' hrow').2
  rw [htext] at hparse
  rw [htext', hparse] at hparse'
  obtain rfl := Option.some.inj hparse'
  exact ⟨blog', hrow', hshown⟩

end Serving

/-- Whatever is saved, followed and lost, a page of a feed is answered with all of its members, and
shows, beyond what the feed held from the start, only blogs of authors whom its user has followed
since they were saved. -/
theorem feeds_show_followed {w₀ : FanOutWorld} {c : FanOutPool} (hw : w₀.Opening)
    (hrun : blogPosts.Run (fun _ _ => True) ⟨w₀, []⟩ c) (userId : Long)
    (tbUser : Long → Option User) (likeSet : Long → SortedSet Long) (max : ℤ) (offset : ℕ) :
    ∃ data, (c.shared.served userId tbUser likeSet).queryBlogOfFollow userId max offset = .ok data ∧
      (data.elim [] ScrollResult.list).map (fun blog => toString blog.id) =
        ((((c.shared.feeds userId).upTo max).drop offset).take 2).map Prod.fst ∧
      ∀ r ∈ data, ∀ blog ∈ r.list,
        ((w₀.feeds userId).zscore (toString blog.id)).isSome ∨
          (userId, blog.userId) ∈ c.shared.since blog.id := by
  have hsound := (fanOutKnown_of_run hw hrun).sound
  have hpopulated := hsound.populated userId tbUser likeSet
  by_cases hnil : (((c.shared.feeds userId).upTo max).drop offset).take 2 = []
  · refine ⟨none, hpopulated.queryBlogOfFollow_nil userId hnil, by rw [hnil]; rfl, by simp⟩
  · have hnodup :
        (((((c.shared.feeds userId).upTo max).drop offset).take 2).map Prod.fst).Nodup := by
      refine ((c.shared.feeds userId).map_fst_upTo_nodup max).sublist (List.Sublist.map _ ?_)
      exact (List.take_sublist _ _).trans (List.drop_sublist _ _)
    obtain ⟨list, hquery, hlist⟩ := hpopulated.queryBlogOfFollow userId rfl hnil hnodup
    refine ⟨_, hquery, hlist, ?_⟩
    intro r hr blog hblog
    cases hr
    obtain ⟨row, hrow, hauthor⟩ := row_of_queryBlogOfFollow hquery hblog
    have hmem := List.mem_map_of_mem (f := fun blog : Blog => toString blog.id) hblog
    rw [hlist] at hmem
    obtain ⟨p, hp, htext⟩ := List.mem_map.mp hmem
    have hmember : p ∈ (c.shared.feeds userId).members :=
      ((SortedSet.mem_upTo _).mp (List.mem_of_mem_drop (List.mem_of_mem_take hp))).1
    obtain ⟨row', hrow', hdue⟩ := hsound.due_of_member hmember htext.symm hrow
    obtain rfl := Option.some.inj (hrow.symm.trans hrow')
    rwa [← hauthor]

/-- User 9 follows user 7, and nothing has been pushed. -/
def samplePosts : FanOutWorld where
  tbBlog := fourBlogs
  nextId := 5
  tables := ⟨[(9, 7)], fun _ => none, fun _ _ h => by cases h⟩
  feeds _ := ∅
  clock := 100
  since _ := [(9, 7)]

theorem samplePosts_opening : samplePosts.Opening where
  clock := by decide
  fresh id hid := by
    have hnot : ¬ (1 ≤ id ∧ id ≤ 4) := fun h => absurd (le_trans hid h.2) (by decide)
    simp [samplePosts, fourBlogs, hnot]
  since _ := rfl
  feeds userId p hp := by cases hp

/-- User 7 saves blog 5, user 9 stops following, and the blog is pushed. -/
def postedOnce : Option FanOutPool :=
  blogPosts.play (fun _ _ => true) ⟨samplePosts, []⟩
    [.act (.saveBlog 7 ⟨0, 0, none, none, none⟩), .run 0 .performed, .run 0 .performed,
      .act (.follow [.delete (9, 7)]), .run 0 .performed, .run 0 .performed]

theorem feeds_show_followed_postedOnce : ∃ c, postedOnce = some c ∧
    ∃ data, (c.shared.served 9 (fun _ => none) (fun _ => ∅)).queryBlogOfFollow 9 200 0 = .ok data ∧
      (data.elim [] ScrollResult.list).map (fun blog => toString blog.id) = ["5"] ∧
      ∀ r ∈ data, ∀ blog ∈ r.list, ((samplePosts.feeds 9).zscore (toString blog.id)).isSome ∨
        (9, blog.userId) ∈ c.shared.since blog.id := by
  have hplay : postedOnce.map (fun c => decide
      (((((c.shared.feeds 9).upTo 200).drop 0).take 2).map Prod.fst = ["5"])) = some true := by
    decide
  obtain ⟨c, hc, hpage⟩ := Option.map_eq_some_iff.mp hplay
  have hrun : blogPosts.Run (fun _ _ => True) ⟨samplePosts, []⟩ c :=
    Machine.run_of_play (fun _ _ _ => trivial) hc
  obtain ⟨data, hquery, hlist, hshown⟩ :=
    feeds_show_followed samplePosts_opening hrun 9 (fun _ => none) (fun _ => ∅) 200 0
  exact ⟨c, hc, data, hquery, hlist.trans (of_decide_eq_true hpage), hshown⟩

/-- Between two calls of a handler other blogs may be saved and follows committed. -/
def MeetsPosts (w₀ w w' : FanOutWorld) : Prop :=
  ∃ c c', c.shared = w ∧ c'.shared = w' ∧ blogPosts.Run (fun _ _ => True) ⟨w₀, []⟩ c ∧
    blogPosts.Run (fun _ _ => True) c c'

section Reaching
open FanOutWorld
variable {w₀ w w' : FanOutWorld} {id userId : Long}
  {es : List (Event FanOutWorld FanOutCommand FanOutCommand.Reply Failure)}

theorem grows_of_fires {c c' : FanOutPool} {mv : Move FanOutChoice FanOutAction}
    (h : FanOutKnown w₀ c) (hf : blogPosts.Fires c mv c') : Grows c.shared c'.shared := by
  cases hf with
  | run hi hexec => exact grows_exec h.sound hexec
  | crash hb => exact .refl _
  | act hact => exact grows_act hact

theorem MeetsPosts.grows (hw : w₀.Opening) (h : MeetsPosts w₀ w w') :
    Grows w w' ∧ w₀.Sound w' := by
  obtain ⟨c, c', rfl, rfl, hc, hc'⟩ := h
  have hall : FanOutKnown w₀ c' ∧ Grows c.shared c'.shared :=
    hc'.invariant (I := fun d => FanOutKnown w₀ d ∧ Grows c.shared d.shared)
      ⟨fanOutKnown_of_run hw hc, .refl _⟩
      fun d _ _ hd _ hf => ⟨hd.1.step hf, hd.2.trans (grows_of_fires hd.1 hf)⟩
  exact ⟨hall.2, hall.1.sound⟩

theorem grows_of_perform (hw : w₀.Opening) {cmd : FanOutCommand} {x : Except Failure cmd.Reply}
    (h : Trace FanOutWorld.exec (MeetsPosts w₀) w (perform cmd) es w' x) :
    ∃ w₁ f, Grows w w₁ ∧ Grows w₁ w' ∧ FanOutWorld.exec cmd f w₁ = some (x, w') ∧
      es = [⟨w₁, cmd, x, w'⟩] := by
  obtain ⟨w₁, f, hrely, hexec, hes⟩ := Trace.of_perform h
  obtain ⟨hgrows, hsound⟩ := hrely.grows hw
  exact ⟨w₁, f, hgrows, grows_exec hsound hexec, hexec, hes⟩

theorem pushTo_pushes (hw : w₀.Opening)
    (h : Trace FanOutWorld.exec (MeetsPosts w₀) w (pushTo id userId) es w' (.ok ())) :
    Grows w w' ∧ ((w'.feeds userId).zscore (toString id)).isSome := by
  rcases Trace.of_bind h with ⟨now, es₁, es₂, w₁, -, htime, hpush⟩ | ⟨e, he, -⟩
  swap
  · cases he
  obtain ⟨w₂, f, hgrows, hgrows', -, -⟩ := grows_of_perform hw htime
  obtain ⟨w₃, f', hgrows₂, hgrows₃, hexec, -⟩ := grows_of_perform hw hpush
  refine ⟨(hgrows.trans hgrows').trans (hgrows₂.trans hgrows₃), ?_⟩
  cases f' <;> cases hexec
  rw [zscore_push]
  rfl

/-- When `saveBlog` answers with the id, the blog is stored for its author, and every user who
followed the author at each of its calls has it in the feed. -/
theorem saveBlog_reaches_followers (hw : w₀.Opening) {user : Long} {blog : Blog}
    (htrace : Trace FanOutWorld.exec (MeetsPosts w₀) w (saveBlog user blog) es w' (.ok (.ok id)))
    (hfollows : ∀ ev ∈ es, (userId, user) ∈ ev.before.tables.tbFollow) :
    (∃ row, w'.tbBlog.row id = some row ∧ row.userId = user) ∧
      ((w'.feeds userId).zscore (toString id)).isSome := by
  rcases Trace.of_bind htrace with ⟨saved, es₁, es₂, w₁, rfl, hsave, hrest⟩ | ⟨e, he, -⟩
  swap
  · cases he
  obtain ⟨w₂, f, -, -, hexec, rfl⟩ := grows_of_perform hw hsave
  cases saved with
  | none => cases (Trace.of_pure hrest).2.2
  | some newId =>
    have hrow : ∃ row, w₁.tbBlog.row newId = some row ∧ row.userId = user := by
      cases f <;> try cases hexec
      simp only [FanOutWorld.exec, FanOutWorld.answer, Option.some.injEq] at hexec
      split at hexec
      · cases hexec
        exact ⟨w₂.rowOf _, row_insertBlog _ _, rfl⟩
      · cases hexec
    rcases Trace.of_bind hrest with ⟨users, es₃, es₄, w₃, rfl, hlist, hloop⟩ | ⟨e, he, -⟩
    swap
    · cases he
    obtain ⟨w₄, f', hgrows₁, hgrows₂, hexec', rfl⟩ := grows_of_perform hw hlist
    have hlisted : userId ∈ users := by
      have hfollow : (userId, user) ∈ w₄.tables.tbFollow :=
        hfollows _ (List.mem_append_right _ (List.mem_append_left _ (List.mem_singleton_self _)))
      cases f' <;> cases hexec'
      exact List.mem_map.mpr ⟨(userId, user), List.mem_filter.mpr ⟨hfollow, by simp⟩, rfl⟩
    rcases Trace.of_bind hloop with ⟨u, es₅, es₆, w₅, -, hpushes, hend⟩ | ⟨e, he, -⟩
    swap
    · cases he
    obtain ⟨-, rfl, hid⟩ := Trace.of_pure hend
    cases hid
    obtain ⟨hgrows, hpushed⟩ := hpushes.forEach_ok
      (fun s is => Grows w₃ s ∧ (userId ∈ is ∨ ((s.feeds userId).zscore (toString id)).isSome))
      ⟨.refl _, .inl hlisted⟩ fun s i is es s' hI hbody => by
        obtain ⟨hgrows, hpushed⟩ := pushTo_pushes hw hbody
        refine ⟨hI.1.trans hgrows, ?_⟩
        rcases hI.2 with hmem | hdone
        · rcases List.mem_cons.mp hmem with rfl | hmem
          · exact .inr hpushed
          · exact .inl hmem
        · exact .inr (hgrows.feeds userId _ hdone)
    refine ⟨?_, hpushed.resolve_left List.not_mem_nil⟩
    obtain ⟨row, hrow, hauthor⟩ := hrow
    exact ⟨row, ((hgrows₁.trans hgrows₂).trans hgrows).row id row hrow, hauthor⟩

end Reaching

/-- Blog 5 of user 7 is saved and pushed to user 9. -/
theorem saveBlog_reaches_followers_samplePosts : ∃ w' : FanOutWorld,
    (∃ es, Trace FanOutWorld.exec (MeetsPosts samplePosts) samplePosts
      (saveBlog 7 ⟨0, 0, none, none, none⟩) es w' (.ok (.ok 5))) ∧
    (∃ row, w'.tbBlog.row 5 = some row ∧ row.userId = 7) ∧
      ((w'.feeds 9).zscore (toString (5 : Long))).isSome := by
  let blog : Blog := ⟨0, 7, none, none, none⟩
  let w₁ : FanOutWorld := samplePosts.insertBlog blog (by decide)
  have hstart : MeetsPosts samplePosts samplePosts samplePosts := ⟨_, _, rfl, rfl, .refl, .refl⟩
  have hsaved : MeetsPosts samplePosts w₁ w₁ := by
    refine ⟨⟨w₁, _⟩, ⟨w₁, _⟩, rfl, rfl, .tail (.tail .refl trivial
      (show blogPosts.step _ (.act (.saveBlog 7 blog)) = some _ from rfl)) trivial
      (show blogPosts.step _ (.run 0 .performed) = some _ from rfl), .refl⟩
  have htrace : Trace FanOutWorld.exec (MeetsPosts samplePosts) samplePosts
      (saveBlog 7 ⟨0, 0, none, none, none⟩)
      [⟨samplePosts, .save blog, .ok (some 5), w₁⟩, ⟨w₁, .listFollows 7, .ok [9], w₁⟩,
        ⟨w₁, .currentTimeMillis, .ok 100, w₁⟩, ⟨w₁, .zadd 9 5 100, .ok (), w₁.push 9 5 100⟩]
      (w₁.push 9 5 100) (.ok (.ok 5)) :=
    .call (f := .performed) hstart rfl (.call (f := .performed) hsaved rfl
      (.call (f := .performed) hsaved rfl (.call (f := .performed) hsaved rfl .done)))
  refine ⟨_, ⟨_, htrace⟩, saveBlog_reaches_followers samplePosts_opening htrace fun ev hev => ?_⟩
  simp only [List.mem_cons, List.not_mem_nil, or_false] at hev
  obtain rfl | rfl | rfl | rfl := hev <;> exact List.mem_singleton_self _

end HmDianPing.Social
