import HmDianPing.Social.Follow
import Mathlib.Data.List.Perm.Basic

/-! # The counters and the set follow the relation

Everything rests on the commit. A transaction that commits one row of the relation
and one step of each counter keeps the counters right, whatever was committed since
it started, as long as the row is still missing, a row of `tb_user_info` that it
creates is for a user nobody names, and `updateProfile` writes back no old counter.
-/
namespace HmDianPing.Social
open Interleaving Program
open Login (UserInfo UserInfoRow UserDTO LoginCommand UserProfileUpdateDTO)

/-- The user for whom a row of `tb_follow` counts. -/
def Counter.user (pair : Long × Long) : Counter → Long
  | .fans => pair.2
  | .followee => pair.1

/-- What the counter of a user should be. -/
def Counter.degree (counter : Counter) (tbFollow : List (Long × Long)) (userId : Long) : ℕ :=
  tbFollow.countP fun pair => counter.user pair = userId

/-- The relation has no row twice, and the counters count its rows. -/
structure FollowTables.Right (t : FollowTables) : Prop where
  unique : t.tbFollow.Nodup
  counters : ∀ userId info, t.tbUserInfo userId = some info →
    ∀ counter : Counter, counter.get info = some (counter.degree t.tbFollow userId : ℤ)

/-- `tb_follow`, its counters and the sets agree. -/
structure Consistent (t : FollowTables) (follows : Long → Finset Long) : Prop where
  right : t.Right
  follows : ∀ userId followUserId, followUserId ∈ follows userId ↔ (userId, followUserId) ∈ t.tbFollow

/-- A write finds in the committed tables what the request it belongs to takes for granted. -/
def FollowTables.Expects (t : FollowTables) : FollowWrite → Prop
  | .insert pair => pair ∉ t.tbFollow
  | .saveInfo info => t.tbUserInfo info.userId = none →
      ∀ pair ∈ t.tbFollow, pair.1 ≠ info.userId ∧ pair.2 ≠ info.userId
  | .updateInfo info => ∀ row ∈ t.tbUserInfo info.userId,
      (info.fans = none ∨ info.fans = row.fans) ∧
        (info.followee = none ∨ info.followee = row.followee)
  | _ => True

instance (t : FollowTables) : (x : FollowWrite) → Decidable (t.Expects x)
  | .insert _ => inferInstanceAs (Decidable (_ ∉ _))
  | .saveInfo _ => inferInstanceAs (Decidable (_ → _))
  | .updateInfo _ => inferInstanceAs (Decidable (∀ row ∈ _, _))
  | .delete _ => inferInstanceAs (Decidable True)
  | .increment _ _ => inferInstanceAs (Decidable True)
  | .decrement _ _ => inferInstanceAs (Decidable True)

def FollowCommand.commits (w : FollowWorld) : FollowCommand → List FollowWrite
  | .commit tx => ((w.opened tx).map OpenFollow.writes).getD []
  | .profile _ _ (.saveInfo info) => [.saveInfo info]
  | .profile _ _ (.updateInfoById info) => [.updateInfo info]
  | _ => []

/-- A commit or a write of `follow` to Redis. -/
def FollowCommand.mustSucceed : FollowCommand → Bool
  | .commit _ => true
  | .statement _ s => s.publishes
  | _ => false

def FollowChoice.failing : FollowChoice → Bool
  | .performed => false
  | .fails _ => true

/-- The next command of a program does not fail where nothing undoes it. -/
def Succeeds (f : FollowChoice) :
    Program FollowCommand FollowCommand.Reply Failure Unit → Prop
  | .call cmd _ => cmd.mustSucceed = true → f.failing = false
  | .done _ => True

/-- What the next command of a program commits finds what it expects. -/
def CommitsAsExpected (w : FollowWorld) :
    Program FollowCommand FollowCommand.Reply Failure Unit → Prop
  | .call cmd _ => ∀ x ∈ cmd.commits w, w.tables.Expects x
  | .done _ => True

instance (f : FollowChoice) : (p : Program FollowCommand FollowCommand.Reply Failure Unit) →
    Decidable (Succeeds f p)
  | .call _ _ => inferInstanceAs (Decidable (_ → _))
  | .done _ => inferInstanceAs (Decidable True)

instance (w : FollowWorld) : (p : Program FollowCommand FollowCommand.Reply Failure Unit) →
    Decidable (CommitsAsExpected w p)
  | .call _ _ => inferInstanceAs (Decidable (∀ x ∈ _, _))
  | .done _ => inferInstanceAs (Decidable True)

/-- No request is lost, no commit fails and no write to Redis. -/
def NoLoss (c : FollowPool) : Move FollowChoice FollowRequest → Prop
  | .run i f => ∀ t ∈ c.threads[i]?, Succeeds f t.program
  | .crash _ => False
  | .act _ => True

/-- Besides, every commit finds what it expects. -/
def Foreseen (c : FollowPool) : Move FollowChoice FollowRequest → Prop
  | .run i f => ∀ t ∈ c.threads[i]?, Succeeds f t.program ∧ CommitsAsExpected c.shared t.program
  | .crash _ => False
  | .act _ => True

instance (c : FollowPool) : (m : Move FollowChoice FollowRequest) → Decidable (NoLoss c m)
  | .run i _ => inferInstanceAs (Decidable (∀ t ∈ c.threads[i]?, _))
  | .crash _ => inferInstanceAs (Decidable False)
  | .act _ => inferInstanceAs (Decidable True)

instance (c : FollowPool) : (m : Move FollowChoice FollowRequest) → Decidable (Foreseen c m)
  | .run i _ => inferInstanceAs (Decidable (∀ t ∈ c.threads[i]?, _))
  | .crash _ => inferInstanceAs (Decidable False)
  | .act _ => inferInstanceAs (Decidable True)

section Tables
variable {t : FollowTables} {d : Counter → Long → ℤ} {counter : Counter} {userId : Long}
  {pair : Long × Long} {info : UserInfo}

/-- The counters that are there are given by `d`. -/
def FollowTables.Tallied (t : FollowTables) (d : Counter → Long → ℤ) : Prop :=
  ∀ userId info, t.tbUserInfo userId = some info →
    ∀ counter : Counter, counter.get info = some (d counter userId)

theorem get_modify (g : Option ℤ → Option ℤ) (counter counter' : Counter) (info : UserInfoRow) :
    counter'.get (counter.modify g info) =
      if counter' = counter then g (counter'.get info) else counter'.get info := by
  cases counter <;> cases counter' <;> rfl

theorem get_updatedBy (row : UserInfoRow) (info : UserInfo) (counter : Counter) :
    counter.get (UserInfoRow.updatedBy row info) = (counter.get info <|> counter.get row) := by
  cases counter <;> rfl

theorem get_withDefaults (info : UserInfo) (counter : Counter) :
    counter.get (UserInfo.withDefaults info) = (counter.get info <|> some 0) := by
  cases counter <;> rfl

theorem FollowTables.Tallied.setInfo (h : t.Tallied d) {d' : Counter → Long → ℤ}
    {new : Option UserInfoRow} {hkey : ∀ row ∈ new, row.userId = userId}
    (hother : ∀ counter x, x ≠ userId → d' counter x = d counter x)
    (hnew : ∀ row, new = some row → ∀ counter : Counter, counter.get row = some (d' counter userId)) :
    (t.setInfo userId new hkey).Tallied d' := by
  intro x info hx counter
  by_cases hxu : x = userId
  · subst hxu
    exact hnew info (by simpa [FollowTables.setInfo] using hx) counter
  · rw [hother counter x hxu]
    exact h x info (by simpa [FollowTables.setInfo, hxu] using hx) counter

theorem FollowTables.Tallied.updateRow (h : t.Tallied d) {d' : Counter → Long → ℤ}
    {g : UserInfoRow → UserInfoRow} (hkey : ∀ row, (g row).userId = row.userId)
    (hother : ∀ counter x, x ≠ userId → d' counter x = d counter x)
    (hnew : ∀ row, t.tbUserInfo userId = some row →
      ∀ counter : Counter, counter.get (g row) = some (d' counter userId)) :
    (t.updateRow userId g hkey).Tallied d' := by
  refine h.setInfo hother fun row hrow counter => ?_
  obtain ⟨old, hold, rfl⟩ := Option.map_eq_some_iff.mp hrow
  exact hnew old hold counter

theorem FollowTables.Tallied.saveInfo (h : t.Tallied d) (info : UserInfo)
    (hnull : ∀ counter : Counter, counter.get info = none)
    (hzero : t.tbUserInfo info.userId = none → ∀ counter, d counter info.userId = 0) :
    (t.write (.saveInfo info)).Tallied d := by
  by_cases hnone : t.tbUserInfo info.userId = none
  · rw [FollowTables.write, if_pos hnone]
    refine h.setInfo (fun _ _ _ => rfl) fun row hrow counter => ?_
    cases hrow
    rw [get_withDefaults, hnull, hzero hnone]
    rfl
  · rw [FollowTables.write, if_neg hnone]
    exact h

theorem FollowTables.Tallied.updateInfo (h : t.Tallied d) (hexpects : t.Expects (.updateInfo info)) :
    (t.write (.updateInfo info)).Tallied d := by
  have hkey : ∀ row, (UserInfoRow.updatedBy row info).userId = row.userId := fun _ => rfl
  refine h.updateRow hkey (fun _ _ _ => rfl) fun old hold counter => ?_
  obtain ⟨hfans, hfollowee⟩ := hexpects old hold
  have hsame : counter.get info = none ∨ counter.get info = counter.get old := by
    cases counter with
    | fans => exact hfans
    | followee => exact hfollowee
  rw [get_updatedBy, h _ old hold counter]
  rcases hsame with hnull | hsame
  · rw [hnull]; rfl
  · rw [hsame, h _ old hold counter]; rfl

theorem FollowTables.Tallied.increment (h : t.Tallied d) (counter : Counter) (userId : Long) :
    (t.write (.increment counter userId)).Tallied fun counter' x =>
      d counter' x + if counter' = counter ∧ x = userId then 1 else 0 := by
  refine h.updateRow (counter.userId_modify _) (fun _ x hx => by simp [hx]) fun old hold counter' => ?_
  rw [get_modify, h _ old hold counter']
  by_cases hc : counter' = counter <;> simp [hc]

theorem FollowTables.Tallied.decrement (h : t.Tallied d) (counter : Counter) (userId : Long)
    (hpos : 0 < d counter userId) : (t.write (.decrement counter userId)).Tallied fun counter' x =>
      d counter' x - if counter' = counter ∧ x = userId then 1 else 0 := by
  refine h.updateRow (counter.userId_modify _) (fun _ x hx => by simp [hx]) fun old hold counter' => ?_
  rw [get_modify, h _ old hold counter']
  by_cases hc : counter' = counter
  · subst hc; simp [hpos]
  · simp [hc]

theorem tbUserInfo_updateRow {g : UserInfoRow → UserInfoRow}
    (hkey : ∀ row, (g row).userId = row.userId) {x : Long} (h : t.tbUserInfo userId ≠ none) :
    (t.updateRow x g hkey).tbUserInfo userId ≠ none := by
  by_cases hu : userId = x
  · subst hu
    simpa [FollowTables.updateRow, FollowTables.setInfo] using h
  · simpa [FollowTables.updateRow, FollowTables.setInfo, hu] using h

theorem tbUserInfo_write (x : FollowWrite) (h : t.tbUserInfo userId ≠ none) :
    (t.write x).tbUserInfo userId ≠ none := by
  cases x with
  | insert pair => exact h
  | delete pair => exact h
  | saveInfo info =>
    by_cases hnone : t.tbUserInfo info.userId = none
    · have hne : userId ≠ info.userId := by
        rintro rfl
        exact h hnone
      simpa [FollowTables.write, hnone, FollowTables.setInfo, hne] using h
    · simpa [FollowTables.write, hnone] using h
  | updateInfo info =>
    have hkey : ∀ row, (UserInfoRow.updatedBy row info).userId = row.userId := fun _ => rfl
    exact tbUserInfo_updateRow hkey h
  | increment counter userId' => exact tbUserInfo_updateRow (counter.userId_modify _) h
  | decrement counter userId' => exact tbUserInfo_updateRow (counter.userId_modify _) h

theorem tbUserInfo_writeAll {writes : List FollowWrite} (h : t.tbUserInfo userId ≠ none) :
    (t.writeAll writes).tbUserInfo userId ≠ none := by
  induction writes generalizing t with
  | nil => exact h
  | cons x writes ih => exact ih (tbUserInfo_write x h)

def saveNew (userId : Long) : FollowWrite := .saveInfo (.new userId)

theorem get_new (userId : Long) (counter : Counter) : counter.get (UserInfo.new userId) = none := by
  cases counter <;> rfl

theorem tbFollow_saveInfo (t : FollowTables) (info : UserInfo) :
    (t.write (.saveInfo info)).tbFollow = t.tbFollow := by
  by_cases hnone : t.tbUserInfo info.userId = none
  · rw [FollowTables.write, if_pos hnone]; rfl
  · rw [FollowTables.write, if_neg hnone]

theorem FollowTables.Tallied.saveAll {saved : List Long} (h : t.Tallied d)
    (hzero : ∀ x ∈ saved, t.tbUserInfo x = none → ∀ counter, d counter x = 0) :
    (t.writeAll (saved.map saveNew)).Tallied d ∧
      (t.writeAll (saved.map saveNew)).tbFollow = t.tbFollow := by
  induction saved generalizing t with
  | nil => exact ⟨h, rfl⟩
  | cons x saved ih =>
    obtain ⟨hx, hsaved⟩ := List.forall_mem_cons.mp hzero
    obtain ⟨htallied, htbFollow⟩ := ih (h.saveInfo (.new x) (get_new x) hx) <| by
      intro y hy hnone
      refine hsaved y hy ?_
      by_contra hsome
      exact tbUserInfo_write (saveNew x) hsome hnone
    exact ⟨htallied, htbFollow.trans (tbFollow_saveInfo t _)⟩

/-- What a transaction that follows has written. -/
def Followed (pair : Long × Long) (writes : List FollowWrite) : Prop :=
  ∃ saved : List Long, writes = .insert pair :: saved.map saveNew ++
    [.increment .followee pair.1, .increment .fans pair.2]

/-- What a transaction that unfollows has written. -/
def Unfollowed (pair : Long × Long) (writes : List FollowWrite) : Prop :=
  writes = [.delete pair, .decrement .followee pair.1, .decrement .fans pair.2]

section Pending
variable {pair q : Long × Long} {writes : List FollowWrite}

theorem Followed.insert_mem (h : Followed pair writes) : .insert q ∈ writes ↔ q = pair := by
  obtain ⟨saved, rfl⟩ := h
  simp [saveNew]

theorem Followed.delete_notMem (h : Followed pair writes) : .delete q ∉ writes := by
  obtain ⟨saved, rfl⟩ := h
  simp [saveNew]

theorem Unfollowed.delete_mem (h : Unfollowed pair writes) : .delete q ∈ writes ↔ q = pair := by
  subst h
  simp

theorem Unfollowed.insert_notMem (h : Unfollowed pair writes) : .insert q ∉ writes := by
  subst h
  simp

end Pending

theorem degree_cons (counter : Counter) (pair : Long × Long) (tbFollow : List (Long × Long))
    (userId : Long) : counter.degree (pair :: tbFollow) userId =
      counter.degree tbFollow userId + if counter.user pair = userId then 1 else 0 := by
  simp [Counter.degree, List.countP_cons]

theorem degree_filter (counter : Counter) {tbFollow : List (Long × Long)} (hunique : tbFollow.Nodup)
    (hpair : pair ∈ tbFollow) (userId : Long) : counter.degree tbFollow userId =
      counter.degree (tbFollow.filter fun p => p ≠ pair) userId +
        if counter.user pair = userId then 1 else 0 := by
  have herase : tbFollow.filter (fun p => p ≠ pair) = tbFollow.erase pair := by
    rw [hunique.erase_eq_filter]
    congr 1
    funext p
    simp [bne, Bool.beq_eq_decide_eq]
  rw [herase, ← degree_cons, Counter.degree, Counter.degree]
  exact (List.perm_cons_erase hpair).countP_eq _

theorem degree_eq_zero (counter : Counter) {tbFollow : List (Long × Long)}
    (h : ∀ p ∈ tbFollow, p.1 ≠ userId ∧ p.2 ≠ userId) : counter.degree tbFollow userId = 0 := by
  refine List.countP_eq_zero.mpr fun p hp => ?_
  cases counter with
  | fans => exact fun heq => (h p hp).2 (of_decide_eq_true heq)
  | followee => exact fun heq => (h p hp).1 (of_decide_eq_true heq)

/-- A row counts for one user of each counter. -/
theorem cast_counts (counter : Counter) (pair : Long × Long) (userId : Long) :
    ((if counter.user pair = userId then 1 else 0 : ℕ) : ℤ) =
      (if counter = .followee ∧ userId = pair.1 then 1 else 0) +
        if counter = .fans ∧ userId = pair.2 then 1 else 0 := by
  cases counter with
  | fans => by_cases hu : userId = pair.2 <;> simp [Counter.user, hu, Ne.symm]
  | followee => by_cases hu : userId = pair.1 <;> simp [Counter.user, hu, Ne.symm]

theorem FollowTables.Right.saveInfo (h : t.Right) (hfans : info.fans = none)
    (hfollowee : info.followee = none) (hexpects : t.Expects (.saveInfo info)) :
    (t.write (.saveInfo info)).Right := by
  have hnull : ∀ counter : Counter, counter.get info = none := by
    intro counter
    cases counter with
    | fans => exact hfans
    | followee => exact hfollowee
  have htallied := FollowTables.Tallied.saveInfo h.counters info hnull fun hnone counter =>
    congrArg _ (degree_eq_zero counter (hexpects hnone))
  rw [← tbFollow_saveInfo t info] at htallied
  exact ⟨(tbFollow_saveInfo t info).symm ▸ h.unique, htallied⟩

theorem FollowTables.Right.updateInfo (h : t.Right) (hexpects : t.Expects (.updateInfo info)) :
    (t.write (.updateInfo info)).Right :=
  ⟨h.unique, FollowTables.Tallied.updateInfo h.counters hexpects⟩

theorem FollowTables.Right.follow {writes : List FollowWrite} (h : t.Right)
    (hwrites : Followed pair writes) (hexpects : ∀ x ∈ writes, t.Expects x) :
    (t.writeAll writes).Right ∧ (t.writeAll writes).tbFollow = pair :: t.tbFollow := by
  obtain ⟨saved, rfl⟩ := hwrites
  have hnew : pair ∉ t.tbFollow := hexpects (.insert pair) (by simp)
  have hzero : ∀ x ∈ saved, t.tbUserInfo x = none →
      ∀ counter : Counter, (counter.degree t.tbFollow x : ℤ) = 0 := by
    intro x hx hnone counter
    have hunnamed : ∀ p ∈ t.tbFollow, p.1 ≠ x ∧ p.2 ≠ x :=
      hexpects (saveNew x) (by simp; exact .inr (.inl ⟨x, hx, rfl⟩)) hnone
    exact congrArg _ (degree_eq_zero counter hunnamed)
  have htallied : (t.write (.insert pair)).Tallied
      fun counter x => (counter.degree t.tbFollow x : ℤ) := h.counters
  obtain ⟨hsaved, htbFollow⟩ := htallied.saveAll hzero
  have hall := (hsaved.increment .followee pair.1).increment .fans pair.2
  have hwriteAll : t.writeAll (.insert pair :: saved.map saveNew ++
      [.increment .followee pair.1, .increment .fans pair.2]) =
      (((t.write (.insert pair)).writeAll (saved.map saveNew)).write
        (.increment .followee pair.1)).write (.increment .fans pair.2) := by
    rw [FollowTables.writeAll, List.foldl_append]
    rfl
  have hrows : (t.writeAll (.insert pair :: saved.map saveNew ++
      [.increment .followee pair.1, .increment .fans pair.2])).tbFollow = pair :: t.tbFollow := by
    rw [hwriteAll]
    exact htbFollow
  refine ⟨⟨?_, fun userId info hinfo counter => ?_⟩, hrows⟩
  · rw [hrows]
    exact List.nodup_cons.mpr ⟨hnew, h.unique⟩
  · rw [hwriteAll] at hinfo
    have hstored := hall userId info hinfo counter
    beta_reduce at hstored
    rw [hstored, hrows, degree_cons, Int.natCast_add, cast_counts]
    exact congrArg some (by omega)

theorem FollowTables.Right.unfollow {writes : List FollowWrite} (h : t.Right)
    (hwrites : Unfollowed pair writes) (hpair : pair ∈ t.tbFollow) : (t.writeAll writes).Right ∧
      (t.writeAll writes).tbFollow = t.tbFollow.filter fun p => p ≠ pair := by
  subst hwrites
  have hpos : ∀ counter : Counter, 0 < counter.degree t.tbFollow (counter.user pair) := by
    intro counter
    exact List.countP_pos_iff.mpr ⟨pair, hpair, by simp⟩
  have htallied : (t.write (.delete pair)).Tallied
      fun counter x => (counter.degree t.tbFollow x : ℤ) := h.counters
  have hfollowee := htallied.decrement .followee pair.1 (Int.natCast_pos.mpr (hpos .followee))
  have hfans : 0 < Counter.fans.degree t.tbFollow pair.2 := hpos .fans
  have hall := hfollowee.decrement .fans pair.2 (by simpa using hfans)
  refine ⟨⟨h.unique.filter _, fun userId info hinfo counter => ?_⟩, rfl⟩
  have hstored := hall userId info hinfo counter
  beta_reduce at hstored
  rw [degree_filter counter h.unique hpair, Int.natCast_add, cast_counts] at hstored
  rw [hstored]
  change _ = some (counter.degree (t.tbFollow.filter fun p => p ≠ pair) userId : ℤ)
  exact congrArg some (by omega)

end Tables
end HmDianPing.Social
