import HmDianPing.Social.FollowCounts

/-! # Runs of follow requests

A transaction holds the pair it writes until it ends, and writes the set of the user
in between. So the set of a user differs from the committed relation only in the
pairs of the transactions that have written to Redis and not yet committed.
-/
namespace HmDianPing.Social
open Interleaving Program
open Login (UserInfo UserDTO LoginCommand UserProfileUpdateDTO)

/-- A write of an open transaction that Redis has seen already. -/
def FollowWorld.Published (w : FollowWorld) (x : FollowWrite) : Prop :=
  ∃ tx o, w.opened tx = some o ∧ o.published = true ∧ x ∈ o.writes

/-- The committed tables are right, open transactions hold different rows, and the sets are what
the committed relation and the published writes make of them. -/
structure FollowWorld.Sound (w : FollowWorld) : Prop where
  right : w.tables.Right
  old : ∀ tx o, w.opened tx = some o → tx < w.nextTx
  apart : ∀ tx tx' o o', tx ≠ tx' → w.opened tx = some o → w.opened tx' = some o' →
    ∀ a ∈ o.writes, ∀ b ∈ o'.writes, ¬ a.Locks b
  deletes : ∀ tx o pair, w.opened tx = some o → .delete pair ∈ o.writes → pair ∈ w.tables.tbFollow
  follows : ∀ userId followUserId, followUserId ∈ w.follows userId ↔
    w.Published (.insert (userId, followUserId)) ∨
      (userId, followUserId) ∈ w.tables.tbFollow ∧ ¬ w.Published (.delete (userId, followUserId))

/-- A transaction has nothing to commit, or has moved one row, its counters and its set. -/
def OpenFollow.Complete (o : OpenFollow) : Prop :=
  o.writes = [] ∧ o.published = false ∨
    o.published = true ∧ ∃ pair, Followed pair o.writes ∨ Unfollowed pair o.writes

/-- What a statement needs to have been written before it. -/
def Permits (writes : List FollowWrite) : FollowStatement → Prop
  | .remove _ _ => writes = []
  | .sadd userId followUserId => Followed (userId, followUserId) writes
  | .srem userId followUserId => Unfollowed (userId, followUserId) writes
  | _ => True

/-- A transaction writes to Redis when its rows are written, and commits after that. -/
def followLogic (tx : ℕ) :
    Logic FollowCommand FollowCommand.Reply Failure (Option OpenFollow) where
  pre κ
    | .start tx' => tx' = tx ∧ κ = none
    | .statement tx' s => tx' = tx ∧ ∃ writes, κ = some ⟨writes, false⟩ ∧ Permits writes s
    | .commit tx' => tx' = tx ∧ ∃ o, κ = some o ∧ o.Complete
    | .rollback tx' => tx' = tx ∧ ∃ writes, κ = some ⟨writes, false⟩
    | .profile _ _ _ => False
  meets _
    | .statement _ s, r => s.publishes = true → ∃ a, r = .ok a
    | .commit _, r => ∃ a, r = .ok a
    | _, _ => True
  learn κ
    | .start _, .ok _ => some ⟨[], false⟩
    | .statement _ s, .ok a => κ.map fun o => o.after s a
    | .commit _, _ => none
    | .rollback _, _ => none
    | _, _ => κ

/-- `updateProfile` writes no counter of a row it has not seen. -/
def profileLogic : Logic FollowCommand FollowCommand.Reply Failure (Set Long) where
  pre _
    | .profile _ _ (.saveInfo info) => info.fans = none ∧ info.followee = none
    | .profile _ _ _ => True
    | _ => False
  meets seen
    | .profile _ _ (.getInfoById userId), .ok found =>
      (found = none → userId ∉ seen) ∧ ∀ info, found = some info → info.userId = userId
    | _, _ => True
  learn seen
    | .profile _ _ (.getInfoById userId), .ok (some _) => insert userId seen
    | _, _ => seen

section Safe
variable {tx : ℕ} {writes : List FollowWrite} {Q : Option OpenFollow → Except Failure Unit → Prop}

theorem ensureUserInfo_wp (userId : Long)
    (hok : ∀ saved : List Long, Q (some ⟨writes ++ saved.map saveNew, false⟩) (.ok ()))
    (herror : ∀ e, Q (some ⟨writes, false⟩) (.error e)) :
    ((followLogic tx).comap (FollowCommand.statement tx)).wp (ensureUserInfo userId) Q
      (some ⟨writes, false⟩) := by
  have hnothing : Q (some ⟨writes ++ [], false⟩) (.ok ()) := hok []
  refine (Logic.wp_perform_bind _ _).mpr ⟨⟨rfl, writes, rfl, trivial⟩, fun found _ => ?_, ?_⟩
  · refine (Logic.wp_ite _ _ _).mpr ⟨fun _ => hnothing, fun _ => ?_⟩
    change ((followLogic tx).comap (FollowCommand.statement tx)).wp _ Q (some ⟨writes ++ [], false⟩)
    rw [List.append_nil]
    refine ⟨⟨rfl, writes, rfl, trivial⟩, fun r _ => ?_⟩
    cases r with
    | ok u => exact hok [userId]
    | error e => exact herror e
  · exact fun e _ => herror e

/-- What `follow` leaves to the proxy. -/
def Leaves (κ : Option OpenFollow) : Except Failure Unit → Prop
  | .ok _ => ∃ o, κ = some o ∧ o.Complete
  | .error _ => ∃ writes, κ = some ⟨writes, false⟩

theorem leaves_nothing : Leaves (some ⟨[], false⟩) (.ok ()) := ⟨_, rfl, .inl ⟨rfl, rfl⟩⟩

theorem addFollow_wp (userId followUserId : Long) :
    ((followLogic tx).comap (FollowCommand.statement tx)).wp (addFollow userId followUserId) Leaves
      (some ⟨[], false⟩) := by
  refine (Logic.wp_perform_bind _ _).mpr ⟨⟨rfl, [], rfl, trivial⟩, fun isSuccess _ => ?_, ?_⟩
  swap
  · exact fun e _ => ⟨[], rfl⟩
  cases isSuccess with
  | false => exact (Logic.wp_ite _ _ _).mpr ⟨fun _ => leaves_nothing, fun h => absurd rfl h⟩
  | true =>
    refine (Logic.wp_ite _ _ _).mpr ⟨(fun h => by cases h), fun _ => ?_⟩
    change ((followLogic tx).comap (FollowCommand.statement tx)).wp _ Leaves
      (some ⟨[.insert (userId, followUserId)], false⟩)
    rw [Logic.wp_bind]
    apply ensureUserInfo_wp userId
    swap
    · exact fun e => ⟨_, rfl⟩
    intro saved
    rw [Logic.andThen_ok, Logic.wp_bind]
    apply ensureUserInfo_wp followUserId
    swap
    · exact fun e => ⟨_, rfl⟩
    intro saved'
    rw [Logic.andThen_ok]
    refine (Logic.wp_perform_bind _ _).mpr ⟨⟨rfl, _, rfl, trivial⟩, fun _ _ => ?_, fun e _ => ⟨_, rfl⟩⟩
    refine (Logic.wp_perform_bind _ _).mpr ⟨⟨rfl, _, rfl, trivial⟩, fun _ _ => ?_, fun e _ => ⟨_, rfl⟩⟩
    have hfollowed : Followed (userId, followUserId) ([.insert (userId, followUserId)] ++
        saved.map saveNew ++ saved'.map saveNew ++ [.increment .followee userId] ++
        [.increment .fans followUserId]) := ⟨saved ++ saved', by simp⟩
    refine ⟨⟨rfl, _, rfl, hfollowed⟩, fun r hr => ?_⟩
    obtain ⟨u, rfl⟩ := hr rfl
    refine ⟨_, rfl, .inr ⟨rfl, (userId, followUserId), .inl ?_⟩⟩
    simpa [OpenFollow.after, FollowStatement.writes] using hfollowed

theorem removeFollow_wp (userId followUserId : Long) :
    ((followLogic tx).comap (FollowCommand.statement tx)).wp (removeFollow userId followUserId) Leaves
      (some ⟨[], false⟩) := by
  refine (Logic.wp_perform_bind _ _).mpr ⟨⟨rfl, [], rfl, rfl⟩, fun isSuccess _ => ?_, ?_⟩
  swap
  · exact fun e _ => ⟨[], rfl⟩
  cases isSuccess with
  | false => exact (Logic.wp_ite _ _ _).mpr ⟨fun _ => leaves_nothing, fun h => absurd rfl h⟩
  | true =>
    refine (Logic.wp_ite _ _ _).mpr ⟨(fun h => by cases h), fun _ => ?_⟩
    refine (Logic.wp_perform_bind _ _).mpr ⟨⟨rfl, _, rfl, trivial⟩, fun _ _ => ?_, fun e _ => ⟨_, rfl⟩⟩
    refine (Logic.wp_perform_bind _ _).mpr ⟨⟨rfl, _, rfl, trivial⟩, fun _ _ => ?_, fun e _ => ⟨_, rfl⟩⟩
    refine ⟨⟨rfl, _, rfl, rfl⟩, fun r hr => ?_⟩
    obtain ⟨u, rfl⟩ := hr rfl
    exact ⟨_, rfl, .inr ⟨rfl, (userId, followUserId), .inr rfl⟩⟩

theorem follow_wp (userId followUserId : Long) (isFollow : Bool) :
    ((followLogic tx).comap (FollowCommand.statement tx)).wp (follow userId followUserId isFollow)
      Leaves (some ⟨[], false⟩) := by
  refine (Logic.wp_perform_bind _ _).mpr ⟨⟨rfl, _, rfl, trivial⟩, fun count _ => ?_, fun e _ => ?_⟩
  · refine (Logic.wp_ite _ _ _).mpr ⟨fun _ => ?_, fun _ => ?_⟩
    · exact (Logic.wp_ite _ _ _).mpr ⟨fun _ => leaves_nothing, fun _ => addFollow_wp userId followUserId⟩
    · exact (Logic.wp_ite _ _ _).mpr ⟨fun _ => leaves_nothing, fun _ => removeFollow_wp userId followUserId⟩
  · exact ⟨[], rfl⟩

theorem transactional_wp (userId followUserId : Long) (isFollow : Bool) :
    (followLogic tx).wp (transactional tx (follow userId followUserId isFollow))
      (fun κ _ => κ = none) none := by
  refine (Logic.wp_perform_bind _ _).mpr ⟨⟨rfl, rfl⟩, fun _ _ => ?_, fun e _ => rfl⟩
  rw [Logic.wp_bind, Logic.wp_tryCatch, Logic.wp_lift]
  refine Logic.wp_mono (follow_wp userId followUserId isFollow) fun κ r hleaves => ?_
  cases r with
  | ok u =>
    obtain ⟨o, rfl, hcomplete⟩ := hleaves
    exact ⟨⟨rfl, o, rfl, hcomplete⟩, fun r _ => rfl⟩
  | error e =>
    obtain ⟨writes, rfl⟩ := hleaves
    exact ⟨⟨rfl, writes, rfl⟩, fun r _ => by cases r <;> rfl⟩

def Harmless : LoginCommand → Prop
  | .saveInfo _ => False
  | _ => True

theorem profileLogic_growing (user : Option UserDTO) :
    (profileLogic.comap (FollowCommand.profile tx user)).Growing where
  learn seen c r := by
    cases c with
    | getInfoById userId =>
      cases r with
      | ok found =>
        cases found with
        | none => exact le_refl seen
        | some info => exact Set.subset_insert userId seen
      | error e => exact le_refl seen
    | _ => exact le_refl seen
  pre seen seen' c _ h := by
    cases c <;> exact h

theorem harmless_pre (user : Option UserDTO) (seen : Set Long) {c : LoginCommand} (h : Harmless c) :
    (profileLogic.comap (FollowCommand.profile tx user)).pre seen c := by
  cases c with
  | saveInfo info => exact h.elim
  | _ => trivial

/-- A row is inserted only where none was seen, and then without counters. -/
theorem saveOrUpdateInfo_safe (user : Option UserDTO) {seen : Set Long} (info : UserInfo)
    (h : info.userId ∈ seen ∨ info.fans = none ∧ info.followee = none) :
    (profileLogic.comap (FollowCommand.profile tx user)).Safe (Login.saveOrUpdateInfo info) seen := by
  refine (Logic.wp_perform_bind _ _).mpr ⟨trivial, fun found hfound => ?_, fun e _ => trivial⟩
  refine (Logic.wp_ite _ _ _).mpr ⟨fun hnone => ?_, fun _ => ⟨trivial, fun _ _ => trivial⟩⟩
  subst hnone
  have hunseen : info.userId ∉ seen := hfound.1 rfl
  exact ⟨h.resolve_left hunseen, fun _ _ => trivial⟩

theorem updateProfile_safe (user : Option UserDTO) (profile : Option UserProfileUpdateDTO)
    (token : Option String) (seen : Set Long) :
    profileLogic.Safe ((FollowRequest.updateProfile user profile token).run tx) seen := by
  refine Logic.Safe.bind ?_ fun _ _ => trivial
  rw [Logic.Safe, Logic.wp_lift]
  refine (Logic.wp_perform_bind _ _).mpr ⟨trivial, fun currentUser _ => ?_, fun e _ => trivial⟩
  cases hid : currentUser.bind UserDTO.id with
  | none => trivial
  | some userId =>
    cases hcheck : Login.checkProfile profile with
    | error errorMsg => trivial
    | ok checked =>
      refine (Logic.wp_perform_bind _ _).mpr ⟨trivial, fun _ _ => ?_, fun e _ => trivial⟩
      refine (Logic.wp_perform_bind _ _).mpr ⟨trivial, fun found hfound => ?_, fun e _ => trivial⟩
      refine Logic.Safe.bind (saveOrUpdateInfo_safe user _ ?_) fun seen _ => ?_
      · cases found with
        | none => exact .inr ⟨rfl, rfl⟩
        | some info =>
          obtain rfl : info.userId = userId := hfound.2 info rfl
          exact .inl (Set.mem_insert info.userId seen)
      · have hcalls : ∀ nickName icon, (do
            Login.putProfile token nickName icon
            perform (LoginCommand.saveUser ⟨some userId, some nickName, icon⟩)
            return Login.Result.ok : Login.LoginProgram Login.Result).Calls Harmless := by
          intro nickName icon
          refine Calls.bind ?_ fun _ => by simp [Harmless]
          simp [Login.putProfile, Harmless]
        exact (profileLogic_growing user).safe_of_calls ((hcalls _ _).mono fun c => harmless_pre user _)

end Safe

section World
variable {w w' : FollowWorld} {tx : ℕ} {o : OpenFollow} {new : Option OpenFollow}
  {tables : FollowTables} {follows : Long → Finset Long} {pair : Long × Long}

theorem FollowWrite.Locks.symm {a b : FollowWrite} (h : a.Locks b) : b.Locks a := by
  cases a <;> cases b <;> simp_all [FollowWrite.Locks, FollowWrite.userInfo]

/-- A transaction has published the write. -/
def OpenFollow.Shows (x : FollowWrite) (o : Option OpenFollow) : Prop :=
  ∃ o', o = some o' ∧ o'.published = true ∧ x ∈ o'.writes

/-- A transaction other than this one has published the write. -/
def FollowWorld.ShownBeside (w : FollowWorld) (tx : ℕ) (x : FollowWrite) : Prop :=
  ∃ tx', tx' ≠ tx ∧ OpenFollow.Shows x (w.opened tx')

theorem published_setOpened (x : FollowWrite) :
    (w.setOpened tx new).Published x ↔ OpenFollow.Shows x new ∨ w.ShownBeside tx x := by
  constructor
  · rintro ⟨tx', o, ho, hshown⟩
    by_cases htx : tx' = tx
    · subst htx
      exact .inl ⟨o, by simpa [FollowWorld.setOpened] using ho, hshown⟩
    · exact .inr ⟨tx', htx, o, by simpa [FollowWorld.setOpened, htx] using ho, hshown⟩
  · rintro (⟨o, ho, hshown⟩ | ⟨tx', htx, o, ho, hshown⟩)
    · exact ⟨tx, o, by simpa [FollowWorld.setOpened] using ho, hshown⟩
    · exact ⟨tx', o, by simpa [FollowWorld.setOpened, htx] using ho, hshown⟩

theorem published_iff (tx : ℕ) (x : FollowWrite) :
    w.Published x ↔ OpenFollow.Shows x (w.opened tx) ∨ w.ShownBeside tx x := by
  rw [← published_setOpened]
  simp [FollowWorld.setOpened]

theorem shows_none (x : FollowWrite) : ¬ OpenFollow.Shows x none := by
  rintro ⟨o, ho, -⟩
  cases ho

theorem shows_some (x : FollowWrite) :
    OpenFollow.Shows x (some o) ↔ o.published = true ∧ x ∈ o.writes := by
  constructor
  · rintro ⟨o', ho, hshown⟩
    cases ho
    exact hshown
  · exact fun hshown => ⟨o, rfl, hshown⟩

theorem not_shows_of_unpublished (hnew : ∀ o, new = some o → o.published = false) (x : FollowWrite) :
    ¬ OpenFollow.Shows x new := by
  rintro ⟨o, ho, hpublished, -⟩
  rw [hnew o ho] at hpublished
  cases hpublished

theorem FollowWorld.Sound.move (h : w.Sound) (hright : tables.Right)
    (hold : new ≠ none → tx < w.nextTx)
    (hapart : ∀ o, new = some o → ∀ tx' o', tx' ≠ tx → w.opened tx' = some o' →
      ∀ a ∈ o'.writes, ∀ b ∈ o.writes, ¬ a.Locks b)
    (hdeletes : ∀ o pair, new = some o → .delete pair ∈ o.writes → pair ∈ tables.tbFollow)
    (hothers : ∀ tx' o pair, tx' ≠ tx → w.opened tx' = some o → .delete pair ∈ o.writes →
      pair ∈ tables.tbFollow)
    (hfollows : ∀ userId followUserId, followUserId ∈ follows userId ↔
      (OpenFollow.Shows (.insert (userId, followUserId)) new ∨
        w.ShownBeside tx (.insert (userId, followUserId))) ∨
      (userId, followUserId) ∈ tables.tbFollow ∧
        ¬ (OpenFollow.Shows (.delete (userId, followUserId)) new ∨
          w.ShownBeside tx (.delete (userId, followUserId)))) :
    FollowWorld.Sound { w.setOpened tx new with tables := tables, follows := follows } where
  right := hright
  old tx' o ho := by
    by_cases htx : tx' = tx
    · subst htx
      refine hold fun hnone => ?_
      simp [FollowWorld.setOpened, hnone] at ho
    · exact h.old tx' o (by simpa [FollowWorld.setOpened, htx] using ho)
  apart tx₁ tx₂ o₁ o₂ hne h₁ h₂ := by
    by_cases htx₁ : tx₁ = tx
    · subst htx₁
      have hnew : new = some o₁ := by simpa [FollowWorld.setOpened] using h₁
      have hsecond : w.opened tx₂ = some o₂ := by
        simpa [FollowWorld.setOpened, Ne.symm hne] using h₂
      exact fun a ha b hb hlocks =>
        hapart o₁ hnew tx₂ o₂ (Ne.symm hne) hsecond b hb a ha hlocks.symm
    · have hfirst : w.opened tx₁ = some o₁ := by simpa [FollowWorld.setOpened, htx₁] using h₁
      by_cases htx₂ : tx₂ = tx
      · subst htx₂
        exact hapart o₂ (by simpa [FollowWorld.setOpened] using h₂) tx₁ o₁ hne hfirst
      · exact h.apart tx₁ tx₂ o₁ o₂ hne hfirst (by simpa [FollowWorld.setOpened, htx₂] using h₂)
  deletes tx' o pair ho hmem := by
    by_cases htx : tx' = tx
    · subst htx
      exact hdeletes o pair (by simpa [FollowWorld.setOpened] using ho) hmem
    · exact hothers tx' o pair htx (by simpa [FollowWorld.setOpened, htx] using ho) hmem
  follows userId followUserId := by
    have hmine := hfollows userId followUserId
    rw [← published_setOpened, ← published_setOpened] at hmine
    exact hmine

theorem FollowWorld.Sound.unpublished (h : w.Sound)
    (hbefore : ∀ o, w.opened tx = some o → o.published = false)
    (hafter : ∀ o, new = some o → o.published = false) (hold : new ≠ none → tx < w.nextTx)
    (hapart : ∀ o, new = some o → ∀ tx' o', tx' ≠ tx → w.opened tx' = some o' →
      ∀ a ∈ o'.writes, ∀ b ∈ o.writes, ¬ a.Locks b)
    (hdeletes : ∀ o pair, new = some o → .delete pair ∈ o.writes → pair ∈ w.tables.tbFollow) :
    (w.setOpened tx new).Sound := by
  refine h.move h.right hold hapart hdeletes (fun tx' o pair _ => h.deletes tx' o pair) ?_
  intro userId followUserId
  rw [h.follows userId followUserId, published_iff tx, published_iff tx]
  simp only [not_shows_of_unpublished hbefore, not_shows_of_unpublished hafter]

theorem FollowWorld.Sound.drop (h : w.Sound) (ho : w.opened tx = some o)
    (hpublished : o.published = false) : (w.setOpened tx none).Sound := by
  apply h.unpublished
  · intro o' ho'
    rw [ho] at ho'
    cases ho'
    exact hpublished
  · exact fun o' ho' => by cases ho'
  · exact fun hne => absurd rfl hne
  · exact fun o' ho' => by cases ho'
  · exact fun o' pair ho' => by cases ho'

theorem FollowWorld.Sound.publish (h : w.Sound) {writes : List FollowWrite}
    (ho : w.opened tx = some ⟨writes, false⟩)
    (hfollows : ∀ userId followUserId, followUserId ∈ follows userId ↔
      (.insert (userId, followUserId) ∈ writes ∨
        w.ShownBeside tx (.insert (userId, followUserId))) ∨
      (userId, followUserId) ∈ w.tables.tbFollow ∧
        ¬ (.delete (userId, followUserId) ∈ writes ∨
          w.ShownBeside tx (.delete (userId, followUserId)))) :
    FollowWorld.Sound { w.setOpened tx (some ⟨writes, true⟩) with follows := follows } := by
  refine h.move h.right (fun _ => h.old tx _ ho) ?_ ?_ (fun tx' o pair _ => h.deletes tx' o pair) ?_
  · intro o heq tx' o' htx ho' a ha b hb
    cases heq
    exact h.apart tx' tx o' _ htx ho' ho a ha b hb
  · intro o pair heq hmem
    cases heq
    exact h.deletes tx _ pair ho hmem
  · intro userId followUserId
    rw [shows_some, shows_some, and_iff_right rfl, and_iff_right rfl]
    exact hfollows userId followUserId

/-- What the sets show is the committed relation, until the transaction writes to Redis. -/
theorem FollowWorld.Sound.follows_of_unpublished (h : w.Sound) {writes : List FollowWrite}
    (ho : w.opened tx = some ⟨writes, false⟩) (userId followUserId : Long) :
    followUserId ∈ w.follows userId ↔ w.ShownBeside tx (.insert (userId, followUserId)) ∨
      (userId, followUserId) ∈ w.tables.tbFollow ∧
        ¬ w.ShownBeside tx (.delete (userId, followUserId)) := by
  rw [h.follows userId followUserId, published_iff tx, published_iff tx, ho, shows_some, shows_some]
  simp only [Bool.false_eq_true, false_and, false_or]

theorem FollowWorld.Sound.start (h : w.Sound) (htx : tx < w.nextTx) (hnone : w.opened tx = none) :
    (w.setOpened tx (some ⟨[], false⟩)).Sound := by
  apply h.unpublished
  · intro o ho
    rw [hnone] at ho
    cases ho
  · intro o ho
    cases ho
    rfl
  · exact fun _ => htx
  · intro o ho _ _ _ _ _ _ b hb
    cases ho
    cases hb
  · intro o pair ho hmem
    cases ho
    cases hmem

/-- What other transactions show is not what this one holds. -/
theorem FollowWorld.Sound.not_shownBeside (h : w.Sound) (ho : w.opened tx = some o)
    {a b : FollowWrite} (ha : a ∈ o.writes) (hlocks : a.Locks b) : ¬ w.ShownBeside tx b := by
  rintro ⟨tx', htx, o', ho', -, hb⟩
  exact h.apart tx tx' o o' (Ne.symm htx) ho ho' a ha b hb hlocks

theorem FollowWorld.Sound.sadd (h : w.Sound) {writes : List FollowWrite} {userId followUserId : Long}
    (ho : w.opened tx = some ⟨writes, false⟩) (hwrites : Followed (userId, followUserId) writes) :
    FollowWorld.Sound { w.setOpened tx (some ⟨writes, true⟩) with
      follows := Function.update w.follows userId (insert followUserId (w.follows userId)) } := by
  refine h.publish ho fun userId' followUserId' => ?_
  have hbefore := h.follows_of_unpublished ho userId' followUserId'
  rw [hwrites.insert_mem, iff_false_intro hwrites.delete_notMem, false_or]
  by_cases hu : userId' = userId
  · subst hu
    by_cases hf : followUserId' = followUserId
    · simp [hf]
    · simpa [hf] using hbefore
  · simpa [hu] using hbefore

theorem FollowWorld.Sound.srem (h : w.Sound) {writes : List FollowWrite} {userId followUserId : Long}
    (ho : w.opened tx = some ⟨writes, false⟩) (hwrites : Unfollowed (userId, followUserId) writes) :
    FollowWorld.Sound { w.setOpened tx (some ⟨writes, true⟩) with
      follows := Function.update w.follows userId ((w.follows userId).erase followUserId) } := by
  have hmine : ¬ w.ShownBeside tx (.insert (userId, followUserId)) :=
    h.not_shownBeside ho (hwrites.delete_mem.mpr rfl) rfl
  refine h.publish ho fun userId' followUserId' => ?_
  have hbefore := h.follows_of_unpublished ho userId' followUserId'
  rw [iff_false_intro hwrites.insert_notMem, hwrites.delete_mem, false_or]
  by_cases hu : userId' = userId
  · subst hu
    by_cases hf : followUserId' = followUserId
    · simp [hf, hmine]
    · simpa [hf] using hbefore
  · simpa [hu] using hbefore

theorem FollowWorld.Sound.commitFollow (h : w.Sound) {writes : List FollowWrite}
    (ho : w.opened tx = some ⟨writes, true⟩) (hwrites : Followed pair writes)
    (hexpects : ∀ x ∈ writes, w.tables.Expects x) :
    FollowWorld.Sound { w.setOpened tx none with tables := w.tables.writeAll writes } := by
  obtain ⟨hright, hrows⟩ := h.right.follow hwrites hexpects
  refine h.move hright (fun hnone => absurd rfl hnone) (fun o ho => by cases ho)
    (fun o pair ho => by cases ho) (fun tx' o q htx ho' hmem => ?_) fun userId followUserId => ?_
  · rw [hrows]
    exact List.mem_cons_of_mem _ (h.deletes tx' o q ho' hmem)
  · rw [FollowWorld.follows_setOpened, h.follows userId followUserId, published_iff tx,
      published_iff tx, ho, shows_some, shows_some, hrows]
    simp only [hwrites.insert_mem, hwrites.delete_notMem, shows_none, true_and, and_false, false_or,
      List.mem_cons]
    have hmine : ¬ w.ShownBeside tx (.delete pair) :=
      h.not_shownBeside ho (hwrites.insert_mem.mpr rfl) rfl
    by_cases hpair : (userId, followUserId) = pair
    · simp [hpair, hmine]
    · simp [hpair]

theorem FollowWorld.Sound.commitUnfollow (h : w.Sound) {writes : List FollowWrite}
    (ho : w.opened tx = some ⟨writes, true⟩) (hwrites : Unfollowed pair writes) :
    FollowWorld.Sound { w.setOpened tx none with tables := w.tables.writeAll writes } := by
  have hmem : pair ∈ w.tables.tbFollow := h.deletes tx _ pair ho (hwrites.delete_mem.mpr rfl)
  obtain ⟨hright, hrows⟩ := h.right.unfollow hwrites hmem
  refine h.move hright (fun hnone => absurd rfl hnone) (fun o ho => by cases ho)
    (fun o pair ho => by cases ho) (fun tx' o q htx ho' hmem' => ?_) fun userId followUserId => ?_
  · rw [hrows, List.mem_filter]
    refine ⟨h.deletes tx' o q ho' hmem', decide_eq_true ?_⟩
    rintro rfl
    exact h.apart tx' tx o _ htx ho' ho _ hmem' _ (hwrites.delete_mem.mpr rfl) rfl
  · rw [FollowWorld.follows_setOpened, h.follows userId followUserId, published_iff tx,
      published_iff tx, ho, shows_some, shows_some, hrows]
    simp only [hwrites.insert_notMem, hwrites.delete_mem, shows_none, true_and, and_false, false_or,
      List.mem_filter]
    have hmine : ¬ w.ShownBeside tx (.insert pair) :=
      h.not_shownBeside ho (hwrites.delete_mem.mpr rfl) rfl
    by_cases hpair : (userId, followUserId) = pair
    · simp [hpair, hmine]
    · simp [hpair]

theorem FollowWorld.Sound.commit (h : w.Sound) (ho : w.opened tx = some o) (hcomplete : o.Complete)
    (hexpects : ∀ x ∈ o.writes, w.tables.Expects x) :
    FollowWorld.Sound { w.setOpened tx none with tables := w.tables.writeAll o.writes } := by
  obtain ⟨writes, published⟩ := o
  rcases hcomplete with ⟨hnothing, hunpublished⟩ | ⟨hpublished, pair, hfollowed | hunfollowed⟩
  · change writes = [] at hnothing
    subst hnothing
    exact h.drop ho hunpublished
  · change published = true at hpublished
    subst hpublished
    exact h.commitFollow ho hfollowed hexpects
  · change published = true at hpublished
    subst hpublished
    exact h.commitUnfollow ho hunfollowed

theorem statement_cases {s : FollowStatement} {r : Except Failure s.Reply}
    (ho : w.opened tx = some o) (hexec : w.statement tx s = some (r, w')) :
    (∃ e, (w.tables.writeAll o.writes).answer s = .error e ∧ r = .error e ∧ w' = w) ∨
    ∃ a, (w.tables.writeAll o.writes).answer s = .ok a ∧ r = .ok a ∧ ¬ w.Waits tx (s.writes a) ∧
      w' = { w.setOpened tx (some (o.after s a)) with follows := s.publish w.follows } := by
  simp only [FollowWorld.statement, ho, Option.bind_some] at hexec
  cases hanswer : (w.tables.writeAll o.writes).answer s with
  | error e =>
    rw [hanswer] at hexec
    cases hexec
    exact .inl ⟨e, rfl, rfl, rfl⟩
  | ok a =>
    rw [hanswer] at hexec
    simp only [Option.ite_none_left_eq_some, Option.some.injEq, Prod.mk.injEq] at hexec
    obtain ⟨hwaits, rfl, rfl⟩ := hexec
    exact .inr ⟨a, rfl, rfl, hwaits, rfl⟩

/-- A statement that does not wait needs nothing that another transaction holds. -/
theorem FollowWorld.Sound.apart_of_not_waits (h : w.Sound) {writes : List FollowWrite}
    (hwaits : ¬ w.Waits tx writes) {tx' : ℕ} (htx : tx' ≠ tx) (ho : w.opened tx' = some o) :
    ∀ a ∈ o.writes, ∀ b ∈ writes, ¬ a.Locks b :=
  fun a ha b hb hlocks => hwaits ⟨tx', h.old tx' o ho, htx, o, ho, a, ha, b, hb, hlocks⟩

theorem answer_of_publishes {s : FollowStatement} (t : FollowTables) (h : s.publishes = true) :
    ∃ a, t.answer s = .ok a := by
  cases s with
  | sadd userId followUserId => exact ⟨(), rfl⟩
  | srem userId followUserId => exact ⟨(), rfl⟩
  | _ => cases h

theorem FollowWorld.Sound.append (h : w.Sound) {writes more : List FollowWrite}
    (ho : w.opened tx = some ⟨writes, false⟩) (hwaits : ¬ w.Waits tx more)
    (hdeleted : ∀ pair, .delete pair ∈ more → pair ∈ w.tables.tbFollow) :
    (w.setOpened tx (some ⟨writes ++ more, false⟩)).Sound := by
  apply h.unpublished
  · intro o ho'
    rw [ho] at ho'
    cases ho'
    rfl
  · intro o heq
    cases heq
    rfl
  · exact fun _ => h.old tx _ ho
  · intro o heq tx' o' htx ho' x hx y hy
    cases heq
    rcases List.mem_append.mp hy with hy | hy
    · exact h.apart tx' tx o' _ htx ho' ho x hx y hy
    · exact h.apart_of_not_waits hwaits htx ho' x hx y hy
  · intro o pair heq hmem
    cases heq
    rcases List.mem_append.mp hmem with hmem | hmem
    · exact h.deletes tx _ pair ho hmem
    · exact hdeleted pair hmem

theorem FollowWorld.Sound.statement (h : w.Sound) {writes : List FollowWrite} {s : FollowStatement}
    {a : s.Reply} (ho : w.opened tx = some ⟨writes, false⟩) (hpermits : Permits writes s)
    (hanswer : (w.tables.writeAll writes).answer s = .ok a) (hwaits : ¬ w.Waits tx (s.writes a)) :
    FollowWorld.Sound { w.setOpened tx (some ⟨writes ++ s.writes a, s.publishes⟩) with
      follows := s.publish w.follows } := by
  cases s with
  | sadd userId followUserId =>
    have hsound := h.sadd ho hpermits
    simpa [FollowStatement.writes, FollowStatement.publishes, FollowStatement.publish] using hsound
  | srem userId followUserId =>
    have hsound := h.srem ho hpermits
    simpa [FollowStatement.writes, FollowStatement.publishes, FollowStatement.publish] using hsound
  | remove userId followUserId =>
    refine h.append ho hwaits fun pair hmem => ?_
    have hwrites : writes = [] := hpermits
    subst hwrites
    have hreply : decide ((userId, followUserId) ∈ w.tables.tbFollow) = a := Except.ok.inj hanswer
    cases a with
    | false => cases hmem
    | true =>
      obtain rfl : pair = (userId, followUserId) := by simpa [FollowStatement.writes] using hmem
      exact of_decide_eq_true hreply
  | save userId followUserId =>
    refine h.append ho hwaits fun pair hmem => ?_
    cases a <;> simp [FollowStatement.writes] at hmem
  | _ =>
    refine h.append ho hwaits fun pair hmem => ?_
    simp [FollowStatement.writes] at hmem

/-- Everything a command of one transaction leaves alone. -/
structure FollowWorld.Beyond (tx : ℕ) (w w' : FollowWorld) : Prop where
  opened : ∀ tx', tx' ≠ tx → w'.opened tx' = w.opened tx'
  rows : ∀ userId, w.tables.tbUserInfo userId ≠ none → w'.tables.tbUserInfo userId ≠ none
  nextTx : w'.nextTx = w.nextTx

theorem FollowWorld.Beyond.refl (w : FollowWorld) (tx : ℕ) : w.Beyond tx w :=
  ⟨fun _ _ => rfl, fun _ h => h, rfl⟩

theorem beyond_setOpened (hrows : ∀ userId, w.tables.tbUserInfo userId ≠ none →
    tables.tbUserInfo userId ≠ none) : FollowWorld.Beyond tx w
      { w.setOpened tx new with tables := tables, follows := follows } where
  opened tx' htx := by simp [FollowWorld.setOpened, htx]
  rows := hrows
  nextTx := rfl

theorem FollowWorld.Sound.transaction (h : w.Sound) (htx : tx < w.nextTx) {cmd : FollowCommand}
    {f : FollowChoice} {r : Except Failure cmd.Reply} (hpre : (followLogic tx).pre (w.opened tx) cmd)
    (hsucceeds : cmd.mustSucceed = true → f.failing = false)
    (hexpects : ∀ x ∈ cmd.commits w, w.tables.Expects x)
    (hexec : FollowWorld.exec cmd f w = some (r, w')) :
    w'.Sound ∧ (followLogic tx).meets (w.opened tx) cmd r ∧
      w'.opened tx = (followLogic tx).learn (w.opened tx) cmd r ∧ w.Beyond tx w' := by
  cases cmd with
  | start tx' =>
    obtain ⟨rfl, hnone⟩ := hpre
    cases f with
    | performed =>
      cases hexec
      refine ⟨h.start htx hnone, trivial, ?_, beyond_setOpened fun _ hrow => hrow⟩
      simp [FollowWorld.setOpened, followLogic]
    | fails e =>
      cases hexec
      exact ⟨h, trivial, rfl, .refl w _⟩
  | statement tx' s =>
    obtain ⟨rfl, writes, ho, hpermits⟩ := hpre
    cases f with
    | performed =>
      rcases statement_cases ho hexec with ⟨e, hanswer, rfl, rfl⟩ | ⟨a, hanswer, rfl, hwaits, rfl⟩
      · refine ⟨h, fun hpublishes => ?_, rfl, .refl _ _⟩
        obtain ⟨a, ha⟩ := answer_of_publishes (w'.tables.writeAll writes) hpublishes
        rw [ha] at hanswer
        cases hanswer
      · refine ⟨h.statement ho hpermits hanswer hwaits, fun _ => ⟨a, rfl⟩, ?_, ?_⟩
        · rw [ho]
          simp [FollowWorld.setOpened, followLogic]
        · exact beyond_setOpened fun _ hrow => hrow
    | fails e =>
      cases hexec
      refine ⟨h, fun hpublishes => ?_, rfl, .refl w _⟩
      cases hsucceeds hpublishes
  | commit tx' =>
    obtain ⟨rfl, o, ho, hcomplete⟩ := hpre
    cases f with
    | fails e => cases hsucceeds rfl
    | performed =>
      simp only [FollowWorld.exec, FollowWorld.commit, ho, Option.map_some, Option.some.injEq,
        Prod.mk.injEq] at hexec
      obtain ⟨rfl, rfl⟩ := hexec
      have hbeyond : w.Beyond tx'
          { w.setOpened tx' none with tables := w.tables.writeAll o.writes } :=
        beyond_setOpened fun _ hrow => tbUserInfo_writeAll hrow
      have hsound := h.commit ho hcomplete (by simpa [FollowCommand.commits, ho] using hexpects)
      exact ⟨hsound, ⟨(), rfl⟩, by simp [FollowWorld.setOpened, followLogic], hbeyond⟩
  | rollback tx' =>
    obtain ⟨rfl, writes, ho⟩ := hpre
    have hw : w' = w.setOpened tx' none := by cases f <;> cases hexec <;> rfl
    subst hw
    refine ⟨h.drop ho rfl, trivial, ?_, beyond_setOpened fun _ hrow => hrow⟩
    cases r <;> simp [FollowWorld.setOpened, followLogic]
  | profile tx' user command => exact hpre.elim

theorem FollowWorld.Sound.setTables (h : w.Sound) (hright : tables.Right)
    (hrows : tables.tbFollow = w.tables.tbFollow) :
    FollowWorld.Sound { w with tables := tables } where
  right := hright
  old := h.old
  apart := h.apart
  deletes tx o pair ho hmem := by
    rw [hrows]
    exact h.deletes tx o pair ho hmem
  follows userId followUserId := by
    rw [hrows]
    exact h.follows userId followUserId

theorem FollowWorld.Sound.autocommit (h : w.Sound) {x : FollowWrite} {r : Except Failure Unit}
    (hexec : w.autocommit tx x = some (r, w')) (hright : (w.tables.write x).Right)
    (hrows : (w.tables.write x).tbFollow = w.tables.tbFollow) :
    w'.Sound ∧ w'.opened = w.opened ∧ w.Beyond tx w' := by
  simp only [FollowWorld.autocommit, Option.ite_none_left_eq_some, Option.some.injEq,
    Prod.mk.injEq] at hexec
  obtain ⟨-, -, rfl⟩ := hexec
  exact ⟨h.setTables hright hrows, rfl, fun _ _ => rfl, fun _ hrow => tbUserInfo_write x hrow, rfl⟩

theorem FollowWorld.Sound.profile (h : w.Sound) {seen : Set Long}
    (hseen : ∀ x ∈ seen, w.tables.tbUserInfo x ≠ none) {cmd : FollowCommand} {f : FollowChoice}
    {r : Except Failure cmd.Reply} (hpre : profileLogic.pre seen cmd)
    (hexpects : ∀ x ∈ cmd.commits w, w.tables.Expects x)
    (hexec : FollowWorld.exec cmd f w = some (r, w')) :
    w'.Sound ∧ profileLogic.meets seen cmd r ∧
      (∀ x ∈ profileLogic.learn seen cmd r, w'.tables.tbUserInfo x ≠ none) ∧
      w'.opened = w.opened ∧ ∃ tx, w.Beyond tx w' := by
  cases cmd with
  | profile tx' user command =>
    cases f with
    | fails e =>
      cases hexec
      refine ⟨h, ?_, fun x hx => hseen x ?_, rfl, tx', .refl w _⟩
      · cases command <;> trivial
      · cases command <;> exact hx
    | performed =>
      change w.profile tx' user command = some (r, w') at hexec
      cases command with
      | getInfoById userId =>
        cases hexec
        have hunseen (hnone : (w.tables.tbUserInfo userId).map Login.UserInfoRow.entity = none)
            (hmem : userId ∈ seen) : False :=
          hseen userId hmem (Option.map_eq_none_iff.mp hnone)
        have hkey (info : UserInfo)
            (hinfo : (w.tables.tbUserInfo userId).map Login.UserInfoRow.entity = some info) :
            info.userId = userId := by
          obtain ⟨row, hrow, rfl⟩ := Option.map_eq_some_iff.mp hinfo
          exact w.tables.keyed userId row hrow
        refine ⟨h, ⟨hunseen, hkey⟩, fun x hx => ?_, rfl, tx', .refl w _⟩
        cases hrow : w.tables.tbUserInfo userId with
        | none =>
          rw [hrow] at hx
          exact hseen x hx
        | some info =>
          rw [hrow] at hx
          rcases Set.mem_insert_iff.mp hx with rfl | hx
          · simp [hrow]
          · exact hseen x hx
      | saveInfo info =>
        simp only [FollowWorld.profile] at hexec
        split at hexec
        · have hright := h.right.saveInfo hpre.1 hpre.2 (hexpects (.saveInfo info) (by
            simp [FollowCommand.commits]))
          obtain ⟨hsound, hopened, hbeyond⟩ :=
            h.autocommit hexec hright (tbFollow_saveInfo w.tables info)
          exact ⟨hsound, trivial, fun x hx => hbeyond.rows x (hseen x hx), hopened, tx', hbeyond⟩
        · cases hexec
          exact ⟨h, trivial, hseen, rfl, tx', .refl w _⟩
      | updateInfoById info =>
        have hright := h.right.updateInfo (hexpects (.updateInfo info) (by
          simp [FollowCommand.commits]))
        obtain ⟨hsound, hopened, hbeyond⟩ := h.autocommit hexec hright rfl
        exact ⟨hsound, trivial, fun x hx => hbeyond.rows x (hseen x hx), hopened, tx', hbeyond⟩
      | _ =>
        cases hexec
        exact ⟨h, trivial, hseen, rfl, tx', .refl w _⟩
  | _ => exact hpre.elim

end World

abbrev FollowThread := Thread FollowCommand FollowCommand.Reply Failure FollowTag

/-- A thread stays inside its logic, from what is true of the world. -/
def Attends (w : FollowWorld) (t : FollowThread) : Prop :=
  match t.tag.request with
  | .follow _ _ _ =>
    (followLogic t.tag.tx).wp t.program (fun κ _ => κ = none) (w.opened t.tag.tx)
  | .updateProfile _ _ _ => w.opened t.tag.tx = none ∧
    ∃ seen, (∀ x ∈ seen, w.tables.tbUserInfo x ≠ none) ∧ profileLogic.Safe t.program seen

structure Attended (c : FollowPool) : Prop where
  sound : c.shared.Sound
  tags : (c.threads.map fun t => t.tag.tx).Nodup
  old : ∀ t ∈ c.threads, t.tag.tx < c.shared.nextTx
  owned : ∀ tx o, c.shared.opened tx = some o → tx ∈ c.threads.map fun t => t.tag.tx
  attends : ∀ t ∈ c.threads, Attends c.shared t

section Run
variable {c c' : FollowPool} {w w' : FollowWorld} {t : FollowThread}

theorem Attends.frame (h : Attends w t) (hopened : w'.opened t.tag.tx = w.opened t.tag.tx)
    (hrows : ∀ x, w.tables.tbUserInfo x ≠ none → w'.tables.tbUserInfo x ≠ none) : Attends w' t := by
  unfold Attends at h ⊢
  rw [hopened]
  cases ht : t.tag.request with
  | follow userId followUserId isFollow =>
    rw [ht] at h
    exact h
  | updateProfile user profile token =>
    rw [ht] at h
    obtain ⟨hnone, seen, hseen, hsafe⟩ := h
    exact ⟨hnone, seen, fun x hx => hrows x (hseen x hx), hsafe⟩

theorem Attends.closed (h : Attends w t) (hended : t.program.ended = true) :
    w.opened t.tag.tx = none := by
  unfold Attends at h
  cases ht : t.tag.request with
  | follow userId followUserId isFollow =>
    obtain ⟨r, hp⟩ := exists_done_of_ended hended
    rw [ht, hp] at h
    exact h
  | updateProfile user profile token =>
    rw [ht] at h
    exact h.1

theorem Attends.exec {tag : FollowTag} {cmd : FollowCommand} {f : FollowChoice}
    {k : Except Failure cmd.Reply → Program FollowCommand FollowCommand.Reply Failure Unit}
    {r : Except Failure cmd.Reply} (h : Attends w ⟨tag, .call cmd k⟩) (hw : w.Sound)
    (htx : tag.tx < w.nextTx) (hsucceeds : cmd.mustSucceed = true → f.failing = false)
    (hexpects : ∀ x ∈ cmd.commits w, w.tables.Expects x)
    (hexec : FollowWorld.exec cmd f w = some (r, w')) :
    w'.Sound ∧ Attends w' ⟨tag, k r⟩ ∧ w.Beyond tag.tx w' := by
  obtain ⟨tx, request⟩ := tag
  cases request with
  | follow userId followUserId isFollow =>
    obtain ⟨hpre, hk⟩ := h
    obtain ⟨hsound, hmeets, hlearn, hbeyond⟩ := hw.transaction htx hpre hsucceeds hexpects hexec
    refine ⟨hsound, ?_, hbeyond⟩
    change (followLogic tx).wp (k r) (fun κ _ => κ = none) (w'.opened tx)
    rw [hlearn]
    exact hk r hmeets
  | updateProfile user profile token =>
    obtain ⟨hnone, seen, hseen, hpre, hk⟩ := h
    obtain ⟨hsound, hmeets, hlearn, hopened, other, hbeyond⟩ := hw.profile hseen hpre hexpects hexec
    refine ⟨hsound, ⟨?_, _, hlearn, hk r hmeets⟩, fun _ _ => by rw [hopened], hbeyond.rows,
      hbeyond.nextTx⟩
    rw [hopened]
    exact hnone

theorem attends_start (hw : w.Sound) (request : FollowRequest) :
    Attends w ⟨⟨w.nextTx, request⟩, request.run w.nextTx⟩ := by
  have hnone : w.opened w.nextTx = none := by
    by_contra hsome
    obtain ⟨o, ho⟩ := Option.ne_none_iff_exists'.mp hsome
    exact absurd (hw.old _ o ho) (Nat.lt_irrefl _)
  cases request with
  | follow userId followUserId isFollow =>
    change (followLogic w.nextTx).wp _ (fun κ _ => κ = none) (w.opened w.nextTx)
    rw [hnone]
    exact transactional_wp userId followUserId isFollow
  | updateProfile user profile token =>
    exact ⟨hnone, ∅, by simp, updateProfile_safe user profile token ∅⟩

theorem Attended.step {m : Move FollowChoice FollowRequest} (h : Attended c) (hm : Foreseen c m)
    (hfires : followRequests.Fires c m c') : Attended c' := by
  cases hfires with
  | @run i f tag cmd k r s hi hexec =>
    have hmem := List.mem_of_getElem? hi
    obtain ⟨hsucceeds, hexpects⟩ := hm _ hi
    obtain ⟨hsound, hattends, hbeyond⟩ :=
      (h.attends _ hmem).exec h.sound (h.old _ hmem) hsucceeds hexpects hexec
    have htags : (c.threads.set i ⟨tag, k r⟩).map (fun t => t.tag.tx) =
        c.threads.map fun t => t.tag.tx := Machine.map_tag_set FollowTag.tx hi
    refine ⟨hsound, htags ▸ h.tags, fun t ht => ?_, fun tx o ho => ?_, fun t ht => ?_⟩
    · rw [hbeyond.nextTx]
      rcases Machine.mem_set_thread ht with rfl | ⟨j, -, hj⟩
      · exact h.old ⟨tag, .call cmd k⟩ hmem
      · exact h.old t (List.mem_of_getElem? hj)
    · rw [htags]
      by_cases htx : tx = tag.tx
      · subst htx
        exact List.mem_map_of_mem hmem
      · exact h.owned tx o ((hbeyond.opened tx htx).symm.trans ho)
    · rcases Machine.mem_set_thread ht with rfl | ⟨j, hji, hj⟩
      · exact hattends
      · have hne : t.tag.tx ≠ tag.tx := Machine.tag_ne_of_nodup h.tags hi hj hji
        exact (h.attends t (List.mem_of_getElem? hj)).frame (hbeyond.opened _ hne) hbeyond.rows
  | crash bound => exact hm.elim
  | @act request s started hact =>
    cases hact
    refine ⟨⟨h.sound.right, ?_, h.sound.apart, h.sound.deletes, h.sound.follows⟩, ?_, ?_, ?_, ?_⟩
    · exact fun tx o ho => Nat.lt_succ_of_lt (h.sound.old tx o ho)
    · exact Machine.nodup_append_fresh (g := FollowTag.tx) h.tags h.old rfl
    · exact Machine.lt_append_fresh (g := FollowTag.tx) h.old rfl
    · intro tx o ho
      rw [List.map_append]
      exact List.mem_append_left _ (h.owned tx o ho)
    · intro t ht
      rcases List.mem_append.mp ht with ht | ht
      · exact (h.attends t ht).frame rfl fun _ hrow => hrow
      · obtain rfl := List.mem_singleton.mp ht
        exact (attends_start h.sound request).frame rfl fun _ hrow => hrow

theorem attended_start {tables : FollowTables} {follows : Long → Finset Long}
    (h : Consistent tables follows) : Attended ⟨.start tables follows, []⟩ where
  sound := {
    right := h.right
    old := fun tx o ho => by cases ho
    apart := fun tx tx' o o' _ ho => by cases ho
    deletes := fun tx o pair ho => by cases ho
    follows := fun userId followUserId => by
      have hnothing : ∀ x, ¬ (FollowWorld.start tables follows).Published x := by
        rintro x ⟨tx, o, ho, -⟩
        cases ho
      simp only [hnothing, false_or, not_false_eq_true, and_true]
      exact h.follows userId followUserId }
  tags := List.nodup_nil
  old := by simp
  owned tx o ho := by cases ho
  attends := by simp

/-- Where no request is in progress, the committed relation is what the sets show. -/
theorem Attended.consistent (h : Attended c) (hidle : ∀ t ∈ c.threads, t.program.ended = true) :
    Consistent c.shared.tables c.shared.follows where
  right := h.sound.right
  follows userId followUserId := by
    have hnothing : ∀ x, ¬ c.shared.Published x := by
      rintro x ⟨tx, o, ho, -⟩
      obtain ⟨t, ht, rfl⟩ := List.mem_map.mp (h.owned tx o ho)
      have hclosed := (h.attends t ht).closed (hidle t ht)
      rw [ho] at hclosed
      cases hclosed
    rw [h.sound.follows, or_iff_right (hnothing _), and_iff_left (hnothing _)]

end Run

def AllEnded (c : FollowPool) : Prop := ∀ t ∈ c.threads, t.program.ended = true

instance (c : FollowPool) : Decidable (AllEnded c) := inferInstanceAs (Decidable (∀ t ∈ c.threads, _))

/-- The relation, its counters and the sets agree whenever no request is in progress, as long as
every commit finds what its request took for granted. -/
theorem follows_stay_consistent (tables : FollowTables) (follows : Long → Finset Long) (c : FollowPool)
    (hstart : Consistent tables follows)
    (hrun : followRequests.Run Foreseen ⟨.start tables follows, []⟩ c) (hidle : AllEnded c) :
    Consistent c.shared.tables c.shared.follows :=
  (hrun.invariant (attended_start hstart) fun _ _ _ hI hm hfires => hI.step hm hfires).consistent hidle

/-- User 8 follows user 7, and both have a row of `tb_user_info`. -/
def oneFollow : FollowTables where
  tbFollow := [(8, 7)]
  tbUserInfo userId :=
    if userId = 7 then some (UserInfo.withDefaults { UserInfo.new 7 with fans := some 1 })
    else if userId = 8 then some (UserInfo.withDefaults { UserInfo.new 8 with followee := some 1 })
    else none
  keyed userId info h := by
    split at h
    · cases h; exact Eq.symm ‹_›
    · split at h
      · cases h; exact Eq.symm ‹_›
      · cases h

def oneFollowSet (userId : Long) : Finset Long := if userId = 8 then {7} else ∅

theorem consistent_oneFollow : Consistent oneFollow oneFollowSet where
  right := {
    unique := by decide
    counters := fun userId info hinfo counter => by
      simp only [oneFollow] at hinfo
      split at hinfo
      next hu => subst hu; cases hinfo; cases counter <;> decide
      next hu =>
        split at hinfo
        next hu' => subst hu'; cases hinfo; cases counter <;> decide
        next => cases hinfo }
  follows userId followUserId := by
    by_cases hu : userId = 8 <;> simp [oneFollow, oneFollowSet, hu]

def moon : UserDTO := ⟨some 8, some "user_8", none⟩

def moonProfile : UserProfileUpdateDTO := ⟨some "moon", none, none, none, none, none⟩

/-- User 7 follows back while user 8 unfollows, then user 9 follows and user 8 updates the profile. -/
def followsInTurn : List (Move FollowChoice FollowRequest) :=
  .act (.follow 7 8 true) :: .act (.follow 8 7 false) :: List.replicate 2 (.run 0 .performed) ++
    List.replicate 2 (.run 1 .performed) ++ List.replicate 7 (.run 0 .performed) ++
    List.replicate 5 (.run 1 .performed) ++ .act (.follow 9 8 true) ::
    List.replicate 10 (.run 2 .performed) ++
    .act (.updateProfile (some moon) (some moonProfile) none) :: List.replicate 6 (.run 3 .performed)

/-- User 7 follows user 8 twice at once. -/
def followsAtOnce : List (Move FollowChoice FollowRequest) :=
  .act (.follow 7 8 true) :: .act (.follow 7 8 true) :: List.replicate 2 (.run 0 .performed) ++
    List.replicate 2 (.run 1 .performed) ++ List.replicate 7 (.run 0 .performed) ++
    List.replicate 7 (.run 1 .performed)

theorem follows_stay_consistent_followsInTurn : ∃ c, followRequests.play
    (fun c m => decide (Foreseen c m)) ⟨.start oneFollow oneFollowSet, []⟩ followsInTurn = some c ∧
    c.shared.tables.tbFollow = [(9, 8), (7, 8)] ∧ Consistent c.shared.tables c.shared.follows := by
  have hplay : (followRequests.play (fun c m => decide (Foreseen c m))
      ⟨.start oneFollow oneFollowSet, []⟩ followsInTurn).map (fun c =>
        decide (AllEnded c ∧ c.shared.tables.tbFollow = [(9, 8), (7, 8)])) = some true := by
    decide +kernel
  obtain ⟨c, hc, hend⟩ := Option.map_eq_some_iff.mp hplay
  obtain ⟨hidle, hrows⟩ := of_decide_eq_true hend
  exact ⟨c, hc, hrows, follows_stay_consistent oneFollow oneFollowSet c consistent_oneFollow
    (Machine.run_of_play (fun _ _ => of_decide_eq_true) hc) hidle⟩

/-- Both requests find no row, and each inserts one. -/
theorem followsStayConsistent_fails : ¬ ∀ (tables : FollowTables) (follows : Long → Finset Long)
    (c : FollowPool), Consistent tables follows →
      followRequests.Run NoLoss ⟨.start tables follows, []⟩ c → AllEnded c →
      Consistent c.shared.tables c.shared.follows := by
  intro h
  have hplay : (followRequests.play (fun c m => decide (NoLoss c m))
      ⟨.start oneFollow oneFollowSet, []⟩ followsAtOnce).map (fun c =>
        decide (AllEnded c ∧ ¬ c.shared.tables.tbFollow.Nodup)) = some true := by decide +kernel
  obtain ⟨c, hc, hend⟩ := Option.map_eq_some_iff.mp hplay
  obtain ⟨hidle, htwice⟩ := of_decide_eq_true hend
  exact htwice (h oneFollow oneFollowSet c consistent_oneFollow
    (Machine.run_of_play (fun _ _ => of_decide_eq_true) hc) hidle).right.unique

end HmDianPing.Social
