import HmDianPing.Interleaving.Machine
import HmDianPing.Redis.SortedSet
import Mathlib.Data.Finset.Card
import Mathlib.Logic.Function.Basic

/-! # The like counter and the like set

A like is counted in MySQL and then written to Redis, on the strength of a score
that was read before either. The counter follows the set when every call counts
from what the set still says.
-/
namespace HmDianPing.Social
open Interleaving Program Redis

abbrev Long := ℤ

abbrev Failure := String

structure LikeCall where
  userId : Long
  id : Long
deriving DecidableEq

/-- The commands of `likeBlog`; the SQL reads only the id of the blog. -/
inductive LikeCommand where
  | zscore (call : LikeCall)
  | updateLiked (call : LikeCall) (delta : ℤ)
  | currentTimeMillis
  | zadd (call : LikeCall) (score : ℤ)
  | zrem (call : LikeCall)

abbrev LikeCommand.Reply : LikeCommand → Type
  | .zscore _ => Option ℤ
  | .updateLiked _ _ => Bool
  | .currentTimeMillis => ℤ
  | _ => Unit

abbrev LikeProgram := Program LikeCommand LikeCommand.Reply Failure

namespace LikeCall
variable (call : LikeCall)

def addLike : LikeProgram Unit := do
  let now ← perform LikeCommand.currentTimeMillis
  perform (LikeCommand.zadd call now)

def removeLike : LikeProgram Unit := perform (LikeCommand.zrem call)

def toggle (score : Option ℤ) : LikeProgram Unit := do
  if score = none then
    let isSuccess ← perform (LikeCommand.updateLiked call 1)
    if isSuccess then call.addLike else return ()
  else
    let isSuccess ← perform (LikeCommand.updateLiked call (-1))
    if isSuccess then call.removeLike else return ()

def likeBlog : LikeProgram Unit := do
  let score ← perform (LikeCommand.zscore call)
  call.toggle score

end LikeCall

/-- The column of a row of `tb_blog` that is counted; it is nullable. -/
structure LikedRow where
  liked : Option ℤ
deriving DecidableEq

structure LikeWorld where
  tbBlog : Long → Option LikedRow
  /-- `blog:liked:{id}`. -/
  likeSet : Long → SortedSet Long
  /-- History: the users whose like the counter holds. -/
  counted : Long → Finset Long

def maxUnsigned : ℤ := 4294967295

namespace LikeWorld

/-- The members of the sets are the likes that have been counted. -/
def start (tbBlog : Long → Option LikedRow) (likeSet : Long → SortedSet Long) : LikeWorld :=
  ⟨tbBlog, likeSet, fun id => (likeSet id).keys.toFinset⟩

variable (w : LikeWorld) (call : LikeCall)

def count (delta : ℤ) (liked : Option ℤ) : LikeWorld where
  tbBlog := Function.update w.tbBlog call.id (some ⟨liked⟩)
  likeSet := w.likeSet
  counted := Function.update w.counted call.id <|
    if delta = 1 then insert call.userId (w.counted call.id)
    else (w.counted call.id).erase call.userId

/-- `UPDATE tb_blog SET liked=liked±1 WHERE id=?`; `NULL` stays `NULL`. -/
def updateLiked (delta : ℤ) : Except Failure Bool × LikeWorld :=
  match w.tbBlog call.id with
  | none => (.ok false, w)
  | some ⟨liked⟩ =>
    if ∀ n ∈ liked, 0 ≤ n + delta ∧ n + delta ≤ maxUnsigned then
      (.ok true, w.count call delta (liked.map (· + delta)))
    else (.error "com.mysql.cj.jdbc.exceptions.MysqlDataTruncation", w)

def writeSet (z : SortedSet Long) : LikeWorld :=
  { w with likeSet := Function.update w.likeSet call.id z }

def exec : (c : LikeCommand) → ℤ → LikeWorld → Option (Except Failure c.Reply × LikeWorld)
  | .zscore like, _, w => some (.ok ((w.likeSet like.id).zscore like.userId), w)
  | .updateLiked like delta, _, w => some (w.updateLiked like delta)
  | .currentTimeMillis, clock, w => some (.ok clock, w)
  | .zadd like score, _, w =>
    some (.ok (), w.writeSet like ((w.likeSet like.id).zadd score like.userId))
  | .zrem like, _, w => some (.ok (), w.writeSet like ((w.likeSet like.id).zrem like.userId))

end LikeWorld

def likeCalls : Machine LikeWorld LikeCommand LikeCommand.Reply Failure LikeCall ℤ LikeCall where
  exec := LikeWorld.exec
  act call w := some (w, [⟨call, call.likeBlog⟩])

abbrev LikePool := Config LikeWorld LikeCommand LikeCommand.Reply Failure LikeCall

abbrev LikeThread := Thread LikeCommand LikeCommand.Reply Failure LikeCall

/-- The counter has been updated, the set has not. -/
def AwaitsSet : LikeProgram Unit → Prop
  | .call .currentTimeMillis _ => True
  | .call (.zadd _ _) _ => True
  | .call (.zrem _) _ => True
  | _ => False

instance : (p : LikeProgram Unit) → Decidable (AwaitsSet p)
  | .call .currentTimeMillis _ => inferInstanceAs (Decidable True)
  | .call (.zadd _ _) _ => inferInstanceAs (Decidable True)
  | .call (.zrem _) _ => inferInstanceAs (Decidable True)
  | .call (.zscore _) _ => inferInstanceAs (Decidable False)
  | .call (.updateLiked _ _) _ => inferInstanceAs (Decidable False)
  | .done _ => inferInstanceAs (Decidable False)

/-- A call that goes on to count finds the set as it has read it, and none of the same user for the
same blog is about to write the set. -/
def CountsFromSet (c : LikePool) : LikeProgram Unit → Prop
  | .call (.updateLiked like delta) _ =>
    (delta = 1 ↔ (c.shared.likeSet like.id).zscore like.userId = none) ∧
      ∀ t ∈ c.threads, t.tag = like → ¬ AwaitsSet t.program
  | _ => True

instance (c : LikePool) : (p : LikeProgram Unit) → Decidable (CountsFromSet c p)
  | .call (.updateLiked _ _) _ => inferInstanceAs (Decidable (_ ∧ _))
  | .call .currentTimeMillis _ => inferInstanceAs (Decidable True)
  | .call (.zadd _ _) _ => inferInstanceAs (Decidable True)
  | .call (.zrem _) _ => inferInstanceAs (Decidable True)
  | .call (.zscore _) _ => inferInstanceAs (Decidable True)
  | .done _ => inferInstanceAs (Decidable True)

def NoCrash (_ : LikePool) : Move ℤ LikeCall → Prop
  | .crash _ => False
  | _ => True

instance (c : LikePool) : (m : Move ℤ LikeCall) → Decidable (NoCrash c m)
  | .run _ _ => inferInstanceAs (Decidable True)
  | .crash _ => inferInstanceAs (Decidable False)
  | .act _ => inferInstanceAs (Decidable True)

/-- No call is lost, and every call counts from what the set still says. -/
def Steady (c : LikePool) : Move ℤ LikeCall → Prop
  | .run i _ => ∀ t ∈ c.threads[i]?, CountsFromSet c t.program
  | .crash _ => False
  | .act _ => True

instance (c : LikePool) : (m : Move ℤ LikeCall) → Decidable (Steady c m)
  | .run i _ => inferInstanceAs (Decidable (∀ t ∈ c.threads[i]?, _))
  | .crash _ => inferInstanceAs (Decidable False)
  | .act _ => inferInstanceAs (Decidable True)

def Idle (id : Long) (c : LikePool) : Prop :=
  ∀ t ∈ c.threads, t.tag.id = id → t.program.ended = true

namespace LikeCall

inductive Stage where
  | reading
  | read (score : Option ℤ)
  | adding
  | stamped (now : ℤ)
  | removing
  | ended (r : Except Failure Unit)

variable (call : LikeCall)

def rest : Stage → LikeProgram Unit
  | .reading => call.likeBlog
  | .read score => call.toggle score
  | .adding => call.addLike
  | .stamped now => perform (LikeCommand.zadd call now)
  | .removing => call.removeLike
  | .ended r => .done r

/-- What the counter holds while a call is at the stage. -/
def Holds (w : LikeWorld) : Stage → Prop
  | .adding => call.userId ∈ w.counted call.id
  | .stamped _ => call.userId ∈ w.counted call.id
  | .removing => call.userId ∉ w.counted call.id
  | _ => True

/-- Everything the next command of a call can do. -/
inductive Advances (w : LikeWorld) : Stage → LikeWorld → Stage → Prop
  | zscore : Advances w .reading w (.read ((w.likeSet call.id).zscore call.userId))
  | noRow {score : Option ℤ} : Advances w (.read score) w (.ended (.ok ()))
  | outOfRange {score : Option ℤ} {e : Failure} : Advances w (.read score) w (.ended (.error e))
  | increment {blog : LikedRow} (row : w.tbBlog call.id = some blog) :
      Advances w (.read none) (w.count call 1 (blog.liked.map (· + 1))) .adding
  | decrement {blog : LikedRow} {time : ℤ} (row : w.tbBlog call.id = some blog) :
      Advances w (.read (some time)) (w.count call (-1) (blog.liked.map (· + -1))) .removing
  | stamp {now : ℤ} : Advances w .adding w (.stamped now)
  | zadd {now : ℤ} : Advances w (.stamped now)
      (w.writeSet call ((w.likeSet call.id).zadd now call.userId)) (.ended (.ok ()))
  | zrem : Advances w .removing (w.writeSet call ((w.likeSet call.id).zrem call.userId))
      (.ended (.ok ()))

end LikeCall

section Step
variable {call : LikeCall} {w w' : LikeWorld} {stage stage' : LikeCall.Stage}

theorem exec_updateLiked {delta clock : ℤ} {r : Except Failure Bool}
    (h : w.exec (.updateLiked call delta) clock = some (r, w')) :
    (r = .ok false ∧ w' = w) ∨ (∃ e, r = .error e ∧ w' = w) ∨
      ∃ blog, w.tbBlog call.id = some blog ∧ r = .ok true ∧
        w' = w.count call delta (blog.liked.map (· + delta)) := by
  simp only [LikeWorld.exec, LikeWorld.updateLiked] at h
  cases hrow : w.tbBlog call.id with
  | none =>
    rw [hrow] at h
    cases h
    exact .inl ⟨rfl, rfl⟩
  | some blog =>
    rw [hrow] at h
    dsimp only at h
    by_cases hrange : ∀ n ∈ blog.liked, 0 ≤ n + delta ∧ n + delta ≤ maxUnsigned
    · rw [if_pos hrange] at h
      cases h
      exact .inr (.inr ⟨blog, rfl, rfl, rfl⟩)
    · rw [if_neg hrange] at h
      cases h
      exact .inr (.inl ⟨_, rfl, rfl⟩)

theorem advances_of_exec {cmd : LikeCommand} {clock : ℤ} {r : Except Failure cmd.Reply}
    {k : Except Failure cmd.Reply → LikeProgram Unit} (h : call.rest stage = .call cmd k)
    (hexec : w.exec cmd clock = some (r, w')) :
    ∃ stage', k r = call.rest stage' ∧ call.Advances w stage w' stage' := by
  cases stage with
  | reading =>
    cases h
    cases hexec
    exact ⟨_, rfl, .zscore⟩
  | read score =>
    cases score with
    | none =>
      cases h
      rcases exec_updateLiked hexec with ⟨rfl, rfl⟩ | ⟨e, rfl, rfl⟩ | ⟨blog, hrow, rfl, rfl⟩
      · exact ⟨.ended (.ok ()), rfl, .noRow⟩
      · exact ⟨.ended (.error e), rfl, .outOfRange⟩
      · exact ⟨.adding, rfl, .increment hrow⟩
    | some time =>
      cases h
      rcases exec_updateLiked hexec with ⟨rfl, rfl⟩ | ⟨e, rfl, rfl⟩ | ⟨blog, hrow, rfl, rfl⟩
      · exact ⟨.ended (.ok ()), rfl, .noRow⟩
      · exact ⟨.ended (.error e), rfl, .outOfRange⟩
      · exact ⟨.removing, rfl, .decrement hrow⟩
  | adding =>
    cases h
    cases hexec
    exact ⟨_, rfl, .stamp⟩
  | stamped now =>
    cases h
    cases hexec
    exact ⟨_, rfl, .zadd⟩
  | removing =>
    cases h
    cases hexec
    exact ⟨_, rfl, .zrem⟩
  | ended r => cases h

end Step

/-- The members of the set are counted, and nobody else is, where no call is about to write it. -/
structure Counted (tbBlog : Long → Option LikedRow) (likeSet : Long → SortedSet Long) (c : LikePool) :
    Prop where
  stages : ∀ t ∈ c.threads, ∃ stage, t.program = t.tag.rest stage ∧ t.tag.Holds c.shared stage
  agree : ∀ call : LikeCall, (∃ t ∈ c.threads, t.tag = call ∧ AwaitsSet t.program) ∨
    (call.userId ∈ c.shared.counted call.id ↔ call.userId ∈ c.shared.likeSet call.id)
  counter : ∀ id n₀, tbBlog id = some ⟨some n₀⟩ → ∃ n, c.shared.tbBlog id = some ⟨some n⟩ ∧
    n + (likeSet id).zcard = n₀ + (c.shared.counted id).card

section Invariant
variable {tbBlog : Long → Option LikedRow} {likeSet : Long → SortedSet Long} {c : LikePool}
  {call : LikeCall} {w' : LikeWorld} {stage stage' : LikeCall.Stage}

theorem counted_start : Counted tbBlog likeSet ⟨.start tbBlog likeSet, []⟩ where
  stages := by simp
  agree call := .inr <| by simp [LikeWorld.start, AList.mem_keys]
  counter id n₀ hrow := by
    refine ⟨n₀, hrow, ?_⟩
    simp only [LikeWorld.start, List.toFinset_card_of_nodup (likeSet id).keys_nodup]
    rfl

theorem zscore_eq_none {z : SortedSet Long} {a : Long} : z.zscore a = none ↔ a ∉ z :=
  AList.lookup_eq_none

/-- The calls that are not the user's on the blog see no change. -/
theorem LikeCall.Advances.frame (h : call.Advances c.shared stage w' stage') {other : LikeCall}
    (hne : other ≠ call) :
    (other.userId ∈ w'.counted other.id ↔ other.userId ∈ c.shared.counted other.id) ∧
      (other.userId ∈ w'.likeSet other.id ↔ other.userId ∈ c.shared.likeSet other.id) := by
  have huser : other.id = call.id → other.userId ≠ call.userId := by
    intro hid hu
    apply hne
    cases other
    cases call
    simp_all
  cases h <;> by_cases hid : other.id = call.id <;>
    simp [LikeWorld.count, LikeWorld.writeSet, SortedSet.zadd, SortedSet.zrem, AList.mem_insert,
      AList.mem_erase, hid, huser]

theorem LikeCall.Holds.mono {w : LikeWorld} (h : call.Holds w stage)
    (hc : call.userId ∈ w'.counted call.id ↔ call.userId ∈ w.counted call.id) :
    call.Holds w' stage := by
  cases stage with
  | adding => exact hc.mpr h
  | stamped now => exact hc.mpr h
  | removing => exact fun hmem => h (hc.mp hmem)
  | _ => trivial

theorem LikeCall.holds_of_not_awaitsSet (w : LikeWorld) (h : ¬ AwaitsSet (call.rest stage)) :
    call.Holds w stage := by
  cases stage with
  | adding => exact absurd trivial h
  | stamped now => exact absurd trivial h
  | removing => exact absurd trivial h
  | _ => trivial

theorem not_awaitsSet_read (score : Option ℤ) : ¬ AwaitsSet (call.rest (.read score)) := by
  cases score <;> exact id

theorem awaitsSet_set {ts : List LikeThread} {i : ℕ} {t₀ t₁ : LikeThread} (hi : ts[i]? = some t₀)
    (h : ∃ t ∈ ts, t.tag = call ∧ AwaitsSet t.program)
    (hne : t₀.tag = call → ¬ AwaitsSet t₀.program) :
    ∃ t ∈ ts.set i t₁, t.tag = call ∧ AwaitsSet t.program := by
  obtain ⟨t, ht, htag, hawaits⟩ := h
  obtain ⟨j, hj⟩ := List.mem_iff_getElem?.mp ht
  have hji : i ≠ j := by
    rintro rfl
    obtain rfl : t₀ = t := Option.some.inj (hi.symm.trans hj)
    exact hne htag hawaits
  exact ⟨t, List.mem_of_getElem? ((List.getElem?_set_ne hji).trans hj), htag, hawaits⟩

theorem LikeCall.Advances.holds {w : LikeWorld} (h : call.Advances w stage w' stage')
    (hholds : call.Holds w stage) : call.Holds w' stage' := by
  cases h with
  | increment hrow => simp [LikeCall.Holds, LikeWorld.count]
  | decrement hrow => simp [LikeCall.Holds, LikeWorld.count]
  | stamp => exact hholds
  | _ => trivial

section Run
variable {i : ℕ} (h : Counted tbBlog likeSet c)
  (hi : c.threads[i]? = some ⟨call, call.rest stage⟩) (hadv : call.Advances c.shared stage w' stage')
  (hholds : call.Holds c.shared stage) (hsteady : CountsFromSet c (call.rest stage))
include h hi hadv hholds

theorem Counted.agree_run : ∀ call' : LikeCall,
    (∃ t ∈ c.threads.set i ⟨call, call.rest stage'⟩, t.tag = call' ∧ AwaitsSet t.program) ∨
      (call'.userId ∈ w'.counted call'.id ↔ call'.userId ∈ w'.likeSet call'.id) := by
  intro call'
  by_cases hcall : call' = call
  · subst hcall
    have hmem := List.mem_of_getElem? hi
    have hnew : ⟨call', call'.rest stage'⟩ ∈ c.threads.set i ⟨call', call'.rest stage'⟩ :=
      List.mem_set (List.getElem?_eq_some_iff.mp hi).1 _
    cases hadv with
    | increment row => exact .inl ⟨_, hnew, rfl, trivial⟩
    | decrement row => exact .inl ⟨_, hnew, rfl, trivial⟩
    | stamp => exact .inl ⟨_, hnew, rfl, trivial⟩
    | zadd =>
      right
      have hcounted : call'.userId ∈ c.shared.counted call'.id := hholds
      simpa [LikeWorld.writeSet, SortedSet.zadd, AList.mem_insert] using hcounted
    | zrem =>
      right
      have hcounted : call'.userId ∉ c.shared.counted call'.id := hholds
      simpa [LikeWorld.writeSet, SortedSet.zrem, AList.mem_erase] using hcounted
    | zscore => exact (h.agree call').imp_left fun hawaits => awaitsSet_set hi hawaits fun _ => id
    | _ =>
      refine (h.agree call').imp_left fun hawaits => awaitsSet_set hi hawaits fun _ => ?_
      exact not_awaitsSet_read _
  · rcases h.agree call' with hawaits | hiff
    · exact .inl (awaitsSet_set hi hawaits fun htag => absurd htag.symm hcall)
    · have hframe := hadv.frame hcall
      exact .inr (hframe.1.trans (hiff.trans hframe.2.symm))

include hsteady

theorem Counted.stages_run : ∀ t ∈ c.threads.set i ⟨call, call.rest stage'⟩,
    ∃ stage, t.program = t.tag.rest stage ∧ t.tag.Holds w' stage := by
  intro t ht
  rcases Machine.mem_set_thread ht with rfl | ⟨j, hji, hj⟩
  · exact ⟨stage', rfl, hadv.holds hholds⟩
  · have hmem := List.mem_of_getElem? hj
    obtain ⟨stage₀, hprogram, hother⟩ := h.stages t hmem
    refine ⟨stage₀, hprogram, ?_⟩
    by_cases htag : t.tag = call
    · cases hadv with
      | increment hrow =>
        apply LikeCall.holds_of_not_awaitsSet
        rw [← hprogram]
        exact hsteady.2 t hmem htag
      | decrement hrow =>
        apply LikeCall.holds_of_not_awaitsSet
        rw [← hprogram]
        exact hsteady.2 t hmem htag
      | _ => exact hother.mono Iff.rfl
    · exact hother.mono (hadv.frame htag).1

omit hi hadv hholds in
/-- A call that goes on to count finds the counter with the set. -/
theorem Counted.counted_iff {score : Option ℤ} (hstage : stage = .read score) :
    call.userId ∈ c.shared.counted call.id ↔ score ≠ none := by
  subst hstage
  have hagree : call.userId ∈ c.shared.counted call.id ↔
      call.userId ∈ c.shared.likeSet call.id := by
    refine (h.agree call).resolve_left ?_
    rintro ⟨t, ht, htag, hawaits⟩
    cases score <;> exact hsteady.2 t ht htag hawaits
  rw [hagree]
  cases score with
  | none => simpa using zscore_eq_none.mp (hsteady.1.mp rfl)
  | some time =>
    have hscore : (c.shared.likeSet call.id).zscore call.userId ≠ none :=
      fun hnone => absurd (hsteady.1.mpr hnone) (by decide)
    simpa [zscore_eq_none] using hscore

omit hi hholds in
theorem Counted.counter_run : ∀ id n₀, tbBlog id = some ⟨some n₀⟩ →
    ∃ n, w'.tbBlog id = some ⟨some n⟩ ∧ n + (likeSet id).zcard = n₀ + (w'.counted id).card := by
  intro id n₀ hrow₀
  obtain ⟨n, hrow, hn⟩ := h.counter id n₀ hrow₀
  cases hadv with
  | @increment blog row =>
    by_cases hid : id = call.id
    · subst hid
      obtain rfl : (⟨some n⟩ : LikedRow) = blog := Option.some.inj (hrow.symm.trans row)
      have hnew : call.userId ∉ c.shared.counted call.id := by
        simpa using (h.counted_iff hsteady rfl).not
      refine ⟨n + 1, by simp [LikeWorld.count], ?_⟩
      simp only [LikeWorld.count, Function.update_self, if_true, Finset.card_insert_of_notMem hnew]
      omega
    · exact ⟨n, by simpa [LikeWorld.count, hid] using hrow, by simpa [LikeWorld.count, hid] using hn⟩
  | @decrement blog time row =>
    by_cases hid : id = call.id
    · subst hid
      obtain rfl : (⟨some n⟩ : LikedRow) = blog := Option.some.inj (hrow.symm.trans row)
      have hold : call.userId ∈ c.shared.counted call.id := by
        simpa using h.counted_iff hsteady rfl
      have hcard := Finset.card_erase_add_one hold
      refine ⟨n + -1, by simp [LikeWorld.count], ?_⟩
      simp only [LikeWorld.count, Function.update_self]
      rw [if_neg (by decide)]
      omega
    · exact ⟨n, by simpa [LikeWorld.count, hid] using hrow, by simpa [LikeWorld.count, hid] using hn⟩
  | _ => exact ⟨n, hrow, hn⟩

end Run

theorem Counted.step {m : Move ℤ LikeCall} {c' : LikePool} (h : Counted tbBlog likeSet c)
    (hm : Steady c m) (hfires : likeCalls.Fires c m c') : Counted tbBlog likeSet c' := by
  cases hfires with
  | @run i f tag cmd k r s thread exec =>
    obtain ⟨stage, hprogram, hholds⟩ := h.stages _ (List.mem_of_getElem? thread)
    change Program.call cmd k = tag.rest stage at hprogram
    obtain ⟨stage', hk, hadv⟩ := advances_of_exec hprogram.symm exec
    have hsteady := hm _ thread
    change CountsFromSet c (Program.call cmd k) at hsteady
    rw [hprogram] at thread hsteady
    rw [hk]
    exact ⟨h.stages_run thread hadv hholds hsteady, h.agree_run thread hadv hholds,
      h.counter_run hadv hsteady⟩
  | crash bound => exact hm.elim
  | @act call s started act =>
    cases act
    refine ⟨?_, fun other => (h.agree other).imp_left ?_, h.counter⟩
    · intro t ht
      rcases List.mem_append.mp ht with ht | ht
      · exact h.stages t ht
      · obtain rfl := List.mem_singleton.mp ht
        exact ⟨.reading, rfl, trivial⟩
    · rintro ⟨t, ht, hawaits⟩
      exact ⟨t, List.mem_append_left _ ht, hawaits⟩

end Invariant

/-- The counter moves with the number of members, and stays above what it had beyond them, when
every call counts from what the set still says. -/
theorem liked_follows_set (tbBlog : Long → Option LikedRow) (likeSet : Long → SortedSet Long)
    (c : LikePool) (id : Long) (n₀ : ℤ)
    (hrun : likeCalls.Run Steady ⟨.start tbBlog likeSet, []⟩ c)
    (hrow : tbBlog id = some ⟨some n₀⟩) :
    ∃ n, c.shared.tbBlog id = some ⟨some n⟩ ∧ n₀ - (likeSet id).zcard ≤ n ∧
      (Idle id c → n - n₀ = (c.shared.likeSet id).zcard - (likeSet id).zcard) := by
  have h : Counted tbBlog likeSet c :=
    hrun.invariant counted_start fun _ _ _ hI hm hfires => hI.step hm hfires
  obtain ⟨n, hn, hcount⟩ := h.counter id n₀ hrow
  refine ⟨n, hn, by omega, fun hidle => ?_⟩
  have hsame : c.shared.counted id = (c.shared.likeSet id).keys.toFinset := by
    ext userId
    rw [List.mem_toFinset, ← AList.mem_keys]
    refine (h.agree ⟨userId, id⟩).resolve_left ?_
    rintro ⟨t, ht, htag, hawaits⟩
    have hended := hidle t ht (by rw [htag])
    cases hp : t.program with
    | done r => rw [hp] at hawaits; exact hawaits
    | call cmd k => rw [hp] at hended; cases hended
  have hcard : (c.shared.counted id).card = (c.shared.likeSet id).zcard := by
    rw [hsame, List.toFinset_card_of_nodup (c.shared.likeSet id).keys_nodup]
    rfl
  omega

instance (id : Long) (c : LikePool) : Decidable (Idle id c) :=
  inferInstanceAs (Decidable (∀ t ∈ c.threads, _))

/-- Blog 1 with a like of user 7. -/
def likedOnce : LikePool := ⟨.start (fun id => if id = 1 then some ⟨some 1⟩ else none)
  (fun id => if id = 1 then (∅ : SortedSet Long).zadd 100 7 else ∅), []⟩

/-- Users 7 and 8 toggle at once, and user 8 again afterwards. -/
def togglesInTurn : List (Move ℤ LikeCall) :=
  [.act ⟨7, 1⟩, .act ⟨8, 1⟩, .run 0 200, .run 1 200, .run 1 201, .run 0 202, .run 1 203, .run 0 204,
    .run 1 205, .act ⟨8, 1⟩, .run 2 206, .run 2 207, .run 2 208]

/-- Two calls of user 8 that both find no like of theirs. -/
def togglesAtOnce : List (Move ℤ LikeCall) :=
  [.act ⟨8, 1⟩, .act ⟨8, 1⟩, .run 0 200, .run 1 200, .run 0 201, .run 1 202, .run 0 203, .run 0 204,
    .run 1 205, .run 1 206]

theorem liked_follows_set_togglesInTurn :
    ∃ c n, likeCalls.play (fun c m => decide (Steady c m)) likedOnce togglesInTurn = some c ∧
      c.shared.tbBlog 1 = some ⟨some n⟩ ∧ n - 1 = (c.shared.likeSet 1).zcard - 1 := by
  have hplay : (likeCalls.play (fun c m => decide (Steady c m)) likedOnce togglesInTurn).map
      (fun c => decide (Idle 1 c)) = some true := by decide +kernel
  obtain ⟨c, hc, hidle⟩ := Option.map_eq_some_iff.mp hplay
  obtain ⟨n, hn, -, hcard⟩ := liked_follows_set _ _ c 1 1
    (Machine.run_of_play (fun _ _ => of_decide_eq_true) hc) rfl
  exact ⟨c, n, hc, hn, hcard (of_decide_eq_true hidle)⟩

/-- Both calls count and one member is added. -/
theorem likedFollowsSet_fails : ¬ ∀ (tbBlog : Long → Option LikedRow) (likeSet : Long → SortedSet Long)
    (c : LikePool) (id : Long) (n₀ : ℤ), likeCalls.Run NoCrash ⟨.start tbBlog likeSet, []⟩ c →
      tbBlog id = some ⟨some n₀⟩ → ∃ n, c.shared.tbBlog id = some ⟨some n⟩ ∧
        n₀ - (likeSet id).zcard ≤ n ∧
        (Idle id c → n - n₀ = (c.shared.likeSet id).zcard - (likeSet id).zcard) := by
  intro h
  have hplay : (likeCalls.play (fun c m => decide (NoCrash c m)) likedOnce togglesAtOnce).map
      (fun c => decide (Idle 1 c ∧ c.shared.tbBlog 1 = some ⟨some 3⟩ ∧
        (c.shared.likeSet 1).zcard = 2)) = some true := by decide +kernel
  obtain ⟨c, hc, hend⟩ := Option.map_eq_some_iff.mp hplay
  obtain ⟨hidle, hliked, hcard⟩ := of_decide_eq_true hend
  obtain ⟨n, hn, -, hdrift⟩ := h _ _ c 1 1
    (Machine.run_of_play (fun _ _ => of_decide_eq_true) hc) rfl
  have hmoved := hdrift hidle
  rw [hliked] at hn
  cases hn
  rw [hcard] at hmoved
  exact absurd hmoved (by decide)

end HmDianPing.Social
