import HmDianPing.Redis.Expiring

/-! # Leases

A key that is set only where there is none, and deleted only while it has the value of
whom it was given to, is held by one owner at a time, as long as nobody relies on it
beyond its deadline.
-/
namespace HmDianPing.Redis

/-- What each owner has been granted and has not given back, with its deadline. -/
abbrev Leases (ι κ : Type) := ι → κ → Option (Option ℤ)

namespace Leases
variable {ι κ : Type}

def Holds (l : Leases ι κ) (now : ℤ) (i : ι) (k : κ) : Prop :=
  ∃ d, l i k = some d ∧ ∀ deadline ∈ d, now ≤ deadline

variable [DecidableEq ι] [DecidableEq κ] (l : Leases ι κ)

def grant (i : ι) (k : κ) (d : Option ℤ) : Leases ι κ := fun j k' =>
  if j = i ∧ k' = k then some d else l j k'

def release (i : ι) (k : κ) : Leases ι κ := fun j k' => if j = i ∧ k' = k then none else l j k'

end Leases

namespace Keyspace
variable {κ α : Type} [DecidableEq κ] [DecidableEq α]

/-- `SET k v NX` with this deadline. -/
def setNx (db : Keyspace κ α) (now : ℤ) (k : κ) (v : α) (expireAt : Option ℤ) :
    Bool × Keyspace κ α :=
  match db.found now k with
  | none => (true, Function.update db k (some ⟨v, expireAt⟩))
  | some _ => (false, db)

/-- `DEL k`, where `GET k` is the value. -/
def delIf (db : Keyspace κ α) (now : ℤ) (k : κ) (v : α) : ℤ × Keyspace κ α :=
  if db.get now k = some v then db.del now k else (0, db)

end Keyspace

section Leased
variable {ι κ α : Type} {value : ι → α} {db : Keyspace κ α} {now : ℤ} {l : Leases ι κ} {i j : ι} {k : κ}

/-- Under the key of a lease that is not over stands the value of its owner. -/
def Leased (value : ι → α) (db : Keyspace κ α) (now : ℤ) (l : Leases ι κ) : Prop :=
  ∀ i k d, l i k = some d → (∀ deadline ∈ d, now ≤ deadline) → db k = some ⟨value i, d⟩

namespace Leased

theorem found (h : Leased value db now l) (hi : l.Holds now i k) :
    ∃ e, db.found now k = some e ∧ e.value = value i := by
  obtain ⟨d, hd, hlive⟩ := hi
  refine ⟨_, Keyspace.found_eq_some.mpr ⟨h i k d hd hlive, ?_⟩, rfl⟩
  cases d with
  | none => rfl
  | some deadline => simpa [Entry.live] using hlive deadline rfl

/-- No two owners hold one key. -/
theorem exclusive (h : Leased value db now l) (hvalue : Function.Injective value)
    (hi : l.Holds now i k) (hj : l.Holds now j k) : i = j := by
  obtain ⟨e, he, hei⟩ := h.found hi
  obtain ⟨e', he', hej⟩ := h.found hj
  rw [he] at he'
  cases he'
  exact hvalue (hei.symm.trans hej)

theorem tick {later : ℤ} (h : Leased value db now l) (hle : now ≤ later) : Leased value db later l :=
  fun i k d hd hlive => h i k d hd fun deadline hmem => Int.le_trans hle (hlive deadline hmem)

variable [DecidableEq κ]

theorem setNx_held (h : Leased value db now l) (hi : l.Holds now i k) (v : α) (d : Option ℤ) :
    db.setNx now k v d = (false, db) := by
  obtain ⟨e, he, -⟩ := h.found hi
  rw [Keyspace.setNx, he]

theorem setNx (h : Leased value db now l) (k : κ) (v : α) (d : Option ℤ) :
    Leased value (db.setNx now k v d).2 now l := by
  intro j k' d' hd hlive
  by_cases hk : k' = k
  · subst hk
    rw [h.setNx_held ⟨d', hd, hlive⟩]
    exact h j k' d' hd hlive
  · unfold Keyspace.setNx
    split
    · exact (Function.update_of_ne hk _ _).trans (h j k' d' hd hlive)
    · exact h j k' d' hd hlive

theorem found_delIf [DecidableEq α] (h : Leased value db now l) (hi : l.Holds now i k) :
    (db.delIf now k (value i)).2.found now k = none := by
  obtain ⟨e, he, hei⟩ := h.found hi
  have hget : db.get now k = some (value i) := by rw [Keyspace.get, he, ← hei]; rfl
  rw [Keyspace.delIf, if_pos hget, Keyspace.del, he]
  exact Keyspace.found_update_self none

variable [DecidableEq ι]

theorem grant (h : Leased value db now l) {d : Option ℤ}
    (htaken : (db.setNx now k (value i) d).1 = true) :
    Leased value (db.setNx now k (value i) d).2 now (l.grant i k d) := by
  intro j k' d' hd hlive
  rw [Leases.grant] at hd
  split at hd
  next hown =>
    obtain ⟨rfl, rfl⟩ := hown
    cases hd
    unfold Keyspace.setNx at htaken ⊢
    split at htaken
    · exact Function.update_self _ _ _
    · cases htaken
  next => exact h.setNx k (value i) d j k' d' hd hlive

theorem release (h : Leased value db now l) : Leased value db now (l.release i k) := by
  intro j k' d hd hlive
  rw [Leases.release, Option.ite_none_left_eq_some] at hd
  exact h j k' d hd.2 hlive

theorem delIf [DecidableEq α] (h : Leased value db now l) (hvalue : Function.Injective value) :
    Leased value (db.delIf now k (value i)).2 now (l.release i k) := by
  intro j k' d hd hlive
  rw [Leases.release, Option.ite_none_left_eq_some] at hd
  obtain ⟨hother, hd⟩ := hd
  have hkeep := h j k' d hd hlive
  unfold Keyspace.delIf
  split
  next howned =>
    unfold Keyspace.del
    split
    · exact hkeep
    · by_cases hk : k' = k
      · subst hk
        obtain ⟨e, he, hej⟩ := h.found ⟨d, hd, hlive⟩
        rw [Keyspace.get, he] at howned
        exact absurd ⟨hvalue (hej.symm.trans (Option.some.inj howned)), rfl⟩ hother
      · exact (Function.update_of_ne hk _ _).trans hkeep
  next => exact hkeep

end Leased
end Leased
end HmDianPing.Redis
