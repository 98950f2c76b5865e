import Mathlib.Data.List.AList
import Mathlib.Data.List.Sort
import Mathlib.Data.Int.Order.Basic

/-! # Sorted sets

A Redis sorted set maps each of its members to one score. An empty set and a
missing key are the same thing, as they are for Redis.
-/
namespace HmDianPing.Redis

/-- Members and their scores. -/
abbrev SortedSet (α : Type) := AList fun _ : α => ℤ

namespace SortedSet
variable {α : Type}

def zcard (z : SortedSet α) : ℕ := z.keys.length

def zremRangeByScore (z : SortedSet α) (lo hi : ℤ) : SortedSet α :=
  ⟨z.entries.filter fun p => ¬ (lo ≤ p.2 ∧ p.2 ≤ hi), z.nodupKeys.sublist List.filter_sublist⟩

/-- The members with their scores, in no particular order. -/
def members (z : SortedSet α) : List (α × ℤ) := z.entries.map fun p => (p.1, p.2)

variable (z : SortedSet α)

@[simp] theorem length_members : z.members.length = z.zcard := by
  simp [members, zcard, AList.keys, List.keys]

theorem map_fst_members : z.members.map Prod.fst = z.keys := by
  simp [members, AList.keys, List.keys, Function.comp_def]

theorem members_nodup : z.members.Nodup :=
  List.Nodup.of_map Prod.fst (z.map_fst_members ▸ z.keys_nodup)

@[simp] theorem members_zremRangeByScore (lo hi : ℤ) : (z.zremRangeByScore lo hi).members =
    z.members.filter fun p => ¬ (lo ≤ p.2 ∧ p.2 ≤ hi) := by
  simp [members, zremRangeByScore, List.filter_map, Function.comp_def]

variable [DecidableEq α]

def zscore (a : α) : Option ℤ := z.lookup a

def zadd (score : ℤ) (a : α) : SortedSet α := z.insert a score

def zrem (a : α) : SortedSet α := z.erase a

theorem mem_members {p : α × ℤ} : p ∈ z.members ↔ z.zscore p.1 = some p.2 := by
  refine Iff.trans ?_ (AList.mem_lookup_iff (s := z)).symm
  refine ⟨fun h => ?_, fun h => List.mem_map.mpr ⟨_, h, rfl⟩⟩
  obtain ⟨q, hq, rfl⟩ := List.mem_map.mp h
  exact hq

/-- A member that is new comes beside the others. -/
theorem members_zadd {score : ℤ} {a : α} (h : z.zscore a = none) :
    (z.zadd score a).members = (a, score) :: z.members := by
  rw [members, zadd, AList.entries_insert_of_notMem (AList.lookup_eq_none.mp h)]
  rfl

/-- Another member keeps its score. -/
theorem mem_members_zadd {score : ℤ} {a : α} {p : α × ℤ} :
    p ∈ (z.zadd score a).members ↔ p = (a, score) ∨ p.1 ≠ a ∧ p ∈ z.members := by
  obtain ⟨b, t⟩ := p
  rw [mem_members, mem_members, zadd, zscore, zscore]
  by_cases hb : b = a
  · subst hb
    simp [eq_comm]
  · simp [hb, AList.lookup_insert_ne hb]

section Descending
variable {α : Type} [LinearOrder α]

/-- `p` is listed before `q`, or is `q`, when the order is by descending score and member. -/
def ListedFirst (p q : α × ℤ) : Prop := q.2 < p.2 ∨ q.2 = p.2 ∧ q.1 ≤ p.1

instance (p q : α × ℤ) : Decidable (ListedFirst p q) := inferInstanceAs (Decidable (_ ∨ _ ∧ _))

instance : IsTrans (α × ℤ) ListedFirst where
  trans p q r := by
    rintro (hpq | ⟨hpq, hm⟩) (hqr | ⟨hqr, hm'⟩)
    · exact .inl (hqr.trans hpq)
    · exact .inl (hqr ▸ hpq)
    · exact .inl (hpq ▸ hqr)
    · exact .inr ⟨hqr.trans hpq, hm'.trans hm⟩

instance : Std.Total (α := α × ℤ) ListedFirst where
  total p q := by
    rcases lt_trichotomy p.2 q.2 with h | h | h
    · exact .inr (.inl h)
    · rcases le_total p.1 q.1 with hm | hm
      · exact .inr (.inr ⟨h, hm⟩)
      · exact .inl (.inr ⟨h.symm, hm⟩)
    · exact .inl (.inl h)

instance : Std.Antisymm (α := α × ℤ) ListedFirst where
  antisymm p q := by
    rintro (hpq | ⟨hpq, hm⟩) (hqp | ⟨hqp, hm'⟩)
    · exact absurd hpq (lt_asymm hqp)
    · exact absurd hpq (hqp ▸ lt_irrefl _)
    · exact absurd hqp (hpq ▸ lt_irrefl _)
    · exact Prod.ext (le_antisymm hm' hm) hqp

/-- All members, as `ZREVRANGE` lists them. -/
def descending (z : SortedSet α) : List (α × ℤ) := z.members.insertionSort ListedFirst

/-- The members with a score of at most `hi`, as listed. -/
def upTo (z : SortedSet α) (hi : ℤ) : List (α × ℤ) := z.descending.filter fun p => p.2 ≤ hi

/-- `ZREVRANGEBYSCORE key hi lo WITHSCORES LIMIT offset count`. -/
def zrevrangeByScore (z : SortedSet α) (lo hi : ℤ) (offset count : ℕ) : List (α × ℤ) :=
  (((z.descending.filter fun p => lo ≤ p.2 ∧ p.2 ≤ hi).drop offset).take count)

variable (z : SortedSet α)

@[simp] theorem mem_descending {p : α × ℤ} : p ∈ z.descending ↔ p ∈ z.members :=
  List.mem_insertionSort _

theorem pairwise_descending : z.descending.Pairwise ListedFirst :=
  List.pairwise_insertionSort _ _

theorem pairwise_upTo (hi : ℤ) : (z.upTo hi).Pairwise ListedFirst :=
  z.pairwise_descending.filter _

theorem upTo_nodup (hi : ℤ) : (z.upTo hi).Nodup :=
  ((List.perm_insertionSort _ _).nodup_iff.mpr z.members_nodup).filter _

theorem map_fst_upTo_nodup (hi : ℤ) : ((z.upTo hi).map Prod.fst).Nodup := by
  have hperm : (z.descending.map Prod.fst).Perm z.keys := by
    rw [← map_fst_members]
    exact (List.perm_insertionSort _ _).map _
  exact (hperm.nodup_iff.mpr z.keys_nodup).sublist (List.filter_sublist.map _)

/-- The order is strict, since no two members are the same. -/
theorem upTo_strict (hi : ℤ) :
    (z.upTo hi).Pairwise fun p q => q.2 < p.2 ∨ q.2 = p.2 ∧ q.1 < p.1 := by
  refine ((z.pairwise_upTo hi).and (z.upTo_nodup hi)).imp fun {p q} h => ?_
  obtain ⟨hlt | ⟨hscore, hle⟩, hne⟩ := h
  · exact .inl hlt
  · exact .inr ⟨hscore, lt_of_le_of_ne hle fun hm => hne (Prod.ext hm.symm hscore.symm)⟩

theorem mem_upTo {hi : ℤ} {p : α × ℤ} : p ∈ z.upTo hi ↔ p ∈ z.members ∧ p.2 ≤ hi := by
  simp [upTo]

theorem upTo_of_le {hi hi' : ℤ} (h : hi' ≤ hi) :
    z.upTo hi' = (z.upTo hi).filter fun p => p.2 ≤ hi' := by
  rw [upTo, upTo, List.filter_filter]
  refine List.filter_congr fun p _ => ?_
  simp only [Bool.and_eq_decide, decide_eq_decide, decide_eq_true_eq]
  omega

/-- A member that is new, or stands above `hi`, does not show when its score is above `hi`. -/
theorem upTo_zadd {score hi : ℤ} {a : α} (ha : ∀ t ∈ z.zscore a, hi < t) (h : hi < score) :
    (z.zadd score a).upTo hi = z.upTo hi := by
  refine List.Perm.eq_of_pairwise' (pairwise_upTo _ _) (pairwise_upTo _ _) ?_
  refine (List.perm_ext_iff_of_nodup (upTo_nodup _ _) (upTo_nodup _ _)).mpr fun p => ?_
  rw [mem_upTo, mem_upTo, mem_members_zadd]
  constructor
  · rintro ⟨rfl | ⟨-, hp⟩, hle⟩
    · exact absurd hle (not_le.mpr h)
    · exact ⟨hp, hle⟩
  · rintro ⟨hp, hle⟩
    refine ⟨.inr ⟨?_, hp⟩, hle⟩
    rintro rfl
    exact absurd hle (not_le.mpr (ha p.2 ((mem_members _).mp hp)))

theorem zrevrangeByScore_eq {lo hi : ℤ} {offset count : ℕ} (h : ∀ p ∈ z.members, lo ≤ p.2) :
    z.zrevrangeByScore lo hi offset count = ((z.upTo hi).drop offset).take count := by
  rw [zrevrangeByScore, upTo]
  congr 2
  refine List.filter_congr fun p hp => ?_
  simp [h p (z.mem_descending.mp hp)]

end Descending
end SortedSet
end HmDianPing.Redis
