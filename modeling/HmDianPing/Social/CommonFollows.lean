import HmDianPing.Interleaving.Trace
import HmDianPing.Login.Authentication
import HmDianPing.Social.FollowRuns

/-! # Follows that two users have in common

`followCommons` intersects two sets of Redis and `isFollow` counts rows of `tb_follow`.
Both are read while other users follow and unfollow.
-/
namespace HmDianPing.Social
open Interleaving Program
open Login (UserDTO UserTable)

/-- What the two queries read. -/
inductive RelationQuery where
  | count (userId followUserId : Long)
  /-- `SINTER follows:{userId} follows:{id}`. -/
  | intersect (userId id : Long)
  | listByIds (ids : Finset Long)

abbrev RelationQuery.Reply : RelationQuery → Type
  | .count _ _ => ℕ
  | .intersect _ _ => Finset Long
  | .listByIds _ => List UserDTO

abbrev RelationProgram := Program RelationQuery RelationQuery.Reply Failure

def isFollow (userId followUserId : Long) : RelationProgram Bool := do
  let count ← perform (RelationQuery.count userId followUserId)
  return count > 0

def followCommons (userId id : Long) : RelationProgram (List UserDTO) := do
  let intersect ← perform (RelationQuery.intersect userId id)
  if intersect = ∅ then
    return []
  perform (RelationQuery.listByIds intersect)

/-- The requests in progress, and `tb_user`. -/
structure RelationSite where
  pool : FollowPool
  tbUser : UserTable

namespace RelationSite

def answer : (q : RelationQuery) → RelationSite → Except Failure q.Reply × RelationSite
  | .count userId followUserId, s =>
    (.ok (s.pool.shared.tables.tbFollow.count (userId, followUserId)), s)
  | .intersect userId id, s => (.ok (s.pool.shared.follows userId ∩ s.pool.shared.follows id), s)
  | .listByIds ids, s => (.ok ((s.tbUser.rows.filter (·.id ∈ ids)).map Login.User.toUserDTO), s)

def exec (q : RelationQuery) : FollowChoice → RelationSite →
    Option (Except Failure q.Reply × RelationSite)
  | .performed, s => some (answer q s)
  | .fails e, s => some (.error e, s)

/-- Between two reads requests go on, and `tb_user` may change. -/
def GoesOn (s s' : RelationSite) : Prop := followRequests.Run Foreseen s.pool s'.pool

end RelationSite

/-- An open transaction has written to Redis that the user follows, or follows no more. -/
def FollowWorld.Unsettled (w : FollowWorld) (pair : Long × Long) : Prop :=
  w.Published (.insert pair) ∨ w.Published (.delete pair)

section Agree
variable {s s' : RelationSite} {userId id x : Long} {c : FollowPool}

theorem isFollow_iff : ((isFollow userId x).run RelationSite.answer s).1 = .ok true ↔
    (userId, x) ∈ s.pool.shared.tables.tbFollow := by
  simp [isFollow, RelationSite.answer, List.count_pos_iff]

theorem Attended.mem_follows (h : Attended c) (hsettled : ¬ c.shared.Unsettled (userId, x)) :
    x ∈ c.shared.follows userId ↔ (userId, x) ∈ c.shared.tables.tbFollow := by
  obtain ⟨hinsert, hdelete⟩ := not_or.mp hsettled
  rw [h.sound.follows, or_iff_right hinsert, and_iff_left hdelete]

theorem Attended.settled (h : Attended c) (hidle : AllEnded c) (pair : Long × Long) :
    ¬ c.shared.Unsettled pair := by
  have hclosed : ∀ tx, c.shared.opened tx = none := by
    intro tx
    by_contra hsome
    obtain ⟨o, ho⟩ := Option.ne_none_iff_exists'.mp hsome
    obtain ⟨t, ht, rfl⟩ := List.mem_map.mp (h.owned tx o ho)
    exact hsome ((h.attends t ht).closed (hidle t ht))
  rintro (⟨tx, o, ho, -⟩ | ⟨tx, o, ho, -⟩) <;> rw [hclosed tx] at ho <;> cases ho

theorem mem_listByIds {ids : Finset Long} : some x ∈ ((s.tbUser.rows.filter (·.id ∈ ids)).map
    Login.User.toUserDTO).map UserDTO.id ↔ x ∈ ids ∧ ∃ row ∈ s.tbUser.rows, row.id = x := by
  simp only [List.map_map, List.mem_map, List.mem_filter, decide_eq_true_eq]
  constructor
  · rintro ⟨row, ⟨hrow, hid⟩, heq⟩
    obtain rfl : row.id = x := Option.some.inj heq
    exact ⟨hid, row, hrow, rfl⟩
  · rintro ⟨hx, row, hrow, rfl⟩
    exact ⟨row, ⟨hrow, hx⟩, rfl⟩

theorem attended_of_run {tables : FollowTables} {follows : Long → Finset Long}
    (hstart : Consistent tables follows)
    (hrun : followRequests.Run Foreseen ⟨.start tables follows, []⟩ c) : Attended c :=
  hrun.invariant (attended_start hstart) fun _ _ _ hI hm hfires => hI.step hm hfires

end Agree

/-- `followCommons` answers with the users both follow as `isFollow` says at one point of its run,
as far as no open transaction has written the relation to Redis there. -/
theorem followCommons_agrees (tables : FollowTables) (follows : Long → Finset Long) (userId id : Long)
    (s s' : RelationSite) (es : List (Event RelationSite RelationQuery RelationQuery.Reply Failure))
    (users : List UserDTO) (hstart : Consistent tables follows)
    (hrun : followRequests.Run Foreseen ⟨.start tables follows, []⟩ s.pool)
    (htrace : Trace RelationSite.exec RelationSite.GoesOn s (followCommons userId id) es s'
      (.ok users)) :
    ∃ ev ∈ es, s.GoesOn ev.before ∧ ev.before.GoesOn s' ∧ ∀ x,
      ¬ ev.before.pool.shared.Unsettled (userId, x) → ¬ ev.before.pool.shared.Unsettled (id, x) →
      (some x ∈ users.map UserDTO.id ↔
        ((isFollow userId x).run RelationSite.answer ev.before).1 = .ok true ∧
        ((isFollow id x).run RelationSite.answer ev.before).1 = .ok true ∧
        ∃ row ∈ s'.tbUser.rows, row.id = x) := by
  rcases Trace.of_bind htrace with ⟨intersect, es₁, es₂, d, rfl, hfirst, hrest⟩ | ⟨e, he, -⟩
  swap
  · cases he
  obtain ⟨d', f, hbefore, hexec, rfl⟩ := Trace.of_perform hfirst
  cases f with
  | fails e => cases hexec
  | performed =>
    obtain ⟨hintersect, rfl⟩ := Prod.mk.inj (Option.some.inj hexec)
    obtain rfl := Except.ok.inj hintersect
    have hattended : Attended d'.pool := attended_of_run hstart (hrun.trans hbefore)
    have hboth : ∀ x, ¬ d'.pool.shared.Unsettled (userId, x) → ¬ d'.pool.shared.Unsettled (id, x) →
        (x ∈ d'.pool.shared.follows userId ∩ d'.pool.shared.follows id ↔
          ((isFollow userId x).run RelationSite.answer d').1 = .ok true ∧
          ((isFollow id x).run RelationSite.answer d').1 = .ok true) := by
      intro x hu hid
      rw [Finset.mem_inter, hattended.mem_follows hu, hattended.mem_follows hid, isFollow_iff,
        isFollow_iff]
    refine ⟨_, List.mem_append_left _ (List.mem_singleton_self _), hbefore, ?_⟩
    split at hrest
    next hempty =>
      obtain ⟨-, rfl, hnil⟩ := Trace.of_pure hrest
      obtain rfl := Except.ok.inj hnil
      refine ⟨.refl, fun x hu hid => iff_of_false (List.not_mem_nil) fun h => ?_⟩
      have hx := (hboth x hu hid).mpr ⟨h.1, h.2.1⟩
      rw [hempty] at hx
      exact Finset.notMem_empty x hx
    next =>
      obtain ⟨d₁, f, hbetween, hlist, -⟩ := Trace.of_perform hrest
      cases f with
      | fails e => cases hlist
      | performed =>
        obtain ⟨husers, rfl⟩ := Prod.mk.inj (Option.some.inj hlist)
        obtain rfl := Except.ok.inj husers
        refine ⟨hbetween, fun x hu hid => ?_⟩
        rw [mem_listByIds, hboth x hu hid, and_assoc]

def userSeven : UserTable where
  rows := [⟨7, "13800000007", "user_7", ""⟩]
  nextId := 8
  unique := List.pairwise_singleton _ _
  below := by decide

/-- User 9 comes to follow user 7, as user 8 does. -/
def nineFollows : List (Move FollowChoice FollowRequest) :=
  .act (.follow 9 7 true) :: List.replicate 10 (.run 0 .performed)

theorem followCommons_agrees_nineFollows : ∃ c : FollowPool,
    followRequests.play (fun c m => decide (Foreseen c m)) ⟨.start oneFollow oneFollowSet, []⟩
      nineFollows = some c ∧
    ((isFollow 8 7).run RelationSite.answer ⟨c, userSeven⟩).1 = .ok true ∧
    ((isFollow 9 7).run RelationSite.answer ⟨c, userSeven⟩).1 = .ok true := by
  have hplay : (followRequests.play (fun c m => decide (Foreseen c m))
      ⟨.start oneFollow oneFollowSet, []⟩ nineFollows).map (fun c =>
        decide (AllEnded c ∧ c.shared.follows 8 ∩ c.shared.follows 9 = {7})) = some true := by
    decide
  obtain ⟨c, hc, hend⟩ := Option.map_eq_some_iff.mp hplay
  obtain ⟨hidle, hcommon⟩ := of_decide_eq_true hend
  have hrun : followRequests.Run Foreseen ⟨.start oneFollow oneFollowSet, []⟩ c :=
    Machine.run_of_play (fun _ _ => of_decide_eq_true) hc
  have hsettled := (attended_of_run consistent_oneFollow hrun).settled hidle
  have hlist : Trace RelationSite.exec RelationSite.GoesOn ⟨c, userSeven⟩
      (perform (RelationQuery.listByIds {7})) [⟨⟨c, userSeven⟩, .listByIds {7},
        .ok [⟨some 7, some "user_7", some ""⟩], ⟨c, userSeven⟩⟩] ⟨c, userSeven⟩
      (.ok [⟨some 7, some "user_7", some ""⟩]) := .call (f := .performed) .refl rfl .done
  have htrace : Trace RelationSite.exec RelationSite.GoesOn ⟨c, userSeven⟩ (followCommons 8 9)
      [⟨⟨c, userSeven⟩, .intersect 8 9, .ok (c.shared.follows 8 ∩ c.shared.follows 9), ⟨c, userSeven⟩⟩,
        ⟨⟨c, userSeven⟩, .listByIds {7}, .ok [⟨some 7, some "user_7", some ""⟩], ⟨c, userSeven⟩⟩]
      ⟨c, userSeven⟩ (.ok [⟨some 7, some "user_7", some ""⟩]) := by
    refine .call (f := .performed) .refl rfl ?_
    rw [hcommon]
    exact hlist
  obtain ⟨ev, hev, -, -, hagree⟩ := followCommons_agrees oneFollow oneFollowSet 8 9 ⟨c, userSeven⟩
    ⟨c, userSeven⟩ _ _ consistent_oneFollow hrun htrace
  obtain rfl | rfl := List.mem_pair.mp hev <;>
  · obtain ⟨h₁, h₂, -⟩ := (hagree 7 (hsettled _) (hsettled _)).mp (by decide)
    exact ⟨c, hc, h₁, h₂⟩

end HmDianPing.Social
