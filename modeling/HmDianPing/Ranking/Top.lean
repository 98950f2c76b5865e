import Mathlib.Data.List.Sort
import Mathlib.Order.Lattice
import Mathlib.Order.MinMax

/-! # The first of a ranking

A ranking lists its entries by a key, the least first. It matters which entries come
to stand among the first `n`, and whether an entry that is left out would have.
-/
namespace HmDianPing.Ranking
variable {α K I : Type} [LinearOrder K]

/-- The entries, the least key first. -/
def ranked (key : α → K) (l : List α) : List α := l.insertionSort fun a b => key a ≤ key b

def ahead (key : α → K) (l : List α) (k : K) : ℕ := l.countP fun a => key a < k

def upTo (key : α → K) (l : List α) (k : K) : ℕ := l.countP fun a => key a ≤ k

variable {key : α → K} {l l' : List α} {n : ℕ}

theorem ranked_perm (l : List α) : (ranked key l).Perm l := List.perm_insertionSort _ l

theorem ranked_pairwise (key : α → K) (l : List α) : (ranked key l).Pairwise fun a b => key a ≤ key b := by
  have : Std.Total fun a b : α => key a ≤ key b := ⟨fun a b => le_total (key a) (key b)⟩
  have : IsTrans α fun a b => key a ≤ key b := ⟨fun _ _ _ => le_trans⟩
  exact List.pairwise_insertionSort _ l

section injective
variable {β L : Type} [LinearOrder L] {key' : β → L} (hinj : Function.Injective key')
include hinj

theorem ranked_eq_of_perm {l l' : List β} (h : l.Perm l') : ranked key' l = ranked key' l' := by
  have : Std.Antisymm fun a b : β => key' a ≤ key' b := ⟨fun _ _ h h' => hinj (h.antisymm h')⟩
  exact List.Perm.eq_of_pairwise' (ranked_pairwise _ l) (ranked_pairwise _ l')
    (((ranked_perm l).trans h).trans (ranked_perm l').symm)

/-- A finer key ranks the same. -/
theorem map_ranked {f : α → β} (hmono : ∀ a b, key a ≤ key b → key' (f a) ≤ key' (f b)) :
    (ranked key l).map f = ranked key' (l.map f) := by
  have : Std.Antisymm fun a b : β => key' a ≤ key' b := ⟨fun _ _ h h' => hinj (h.antisymm h')⟩
  have hl : (ranked key l).Pairwise fun a b => key a ≤ key b := ranked_pairwise key l
  have hmap : ((ranked key l).map f).Pairwise fun a b => key' a ≤ key' b :=
    List.pairwise_map.mpr (hl.imp fun {a b} h => hmono a b h)
  exact List.Perm.eq_of_pairwise' hmap (ranked_pairwise _ _)
    (((ranked_perm l).map f).trans (ranked_perm _).symm)

end injective

/-- What holds of the earlier entries only holds of as many as there are, from the first on. -/
theorem lt_countP_iff {p : α → Bool} (h : l.Pairwise fun a b => p b → p a) {i : ℕ}
    (hi : i < l.length) : i < l.countP p ↔ p l[i] := by
  induction l generalizing i with
  | nil => exact absurd hi (Nat.not_lt_zero i)
  | cons a l ih =>
    obtain ⟨ha, hl⟩ := List.pairwise_cons.mp h
    by_cases hpa : p a
    · cases i with
      | zero => simp [hpa]
      | succ i =>
        rw [List.getElem_cons_succ, ← ih hl (by simpa using hi)]
        simp [hpa]
    · have hnone : (a :: l).countP p = 0 := by
        refine List.countP_eq_zero.mpr fun b hb hpb => ?_
        rcases List.mem_cons.mp hb with rfl | hb
        · exact hpa hpb
        · exact hpa (ha b hb hpb)
      rw [hnone]
      cases i with
      | zero => simpa using hpa
      | succ i => simpa using fun hp => hpa (ha _ (List.getElem_mem _) hp)

section sorted
variable (h : l.Pairwise fun a b => key a ≤ key b) {i : ℕ} (hi : i < l.length) (k : K)
include h

theorem lt_ahead_iff : i < ahead key l k ↔ key l[i] < k := by
  have hp : l.Pairwise fun a b => decide (key b < k) = true → decide (key a < k) = true :=
    h.imp fun hab hb => by simpa using hab.trans_lt (by simpa using hb)
  simpa [ahead] using lt_countP_iff hp hi

theorem lt_upTo_iff : i < upTo key l k ↔ key l[i] ≤ k := by
  have hp : l.Pairwise fun a b => decide (key b ≤ k) = true → decide (key a ≤ k) = true :=
    h.imp fun hab hb => by simpa using hab.trans (by simpa using hb)
  simpa [upTo] using lt_countP_iff hp hi

theorem ahead_le (k : K) (hk : k ≤ key l[i]) : ahead key l k ≤ i :=
  not_lt.mp fun hlt => absurd ((lt_ahead_iff h hi k).mp hlt) (not_lt.mpr hk)

theorem key_mono {i j : ℕ} (hi : i < l.length) (hj : j < l.length) (hij : i ≤ j) :
    key l[i] ≤ key l[j] := by
  rcases hij.lt_or_eq with hij | rfl
  · exact List.pairwise_iff_getElem.mp h i j hi hj hij
  · exact le_rfl

end sorted

/-! ### Entries that are said to be the same -/

/-- How far down `b` stands at the least, when `a` is before it. -/
def place (key : α → K) (l : List α) (a b : α) : ℕ :=
  ahead key l (max (key a) (key b)) + if key a = key b then 1 else 0

theorem place_comm (a b : α) : place key l a b = place key l b a := by
  simp only [place, max_comm (key a), eq_comm (a := key a)]

theorem nodup_take_iff_of_pairwise (h : l.Pairwise fun a b => key a ≤ key b) (name : K → I) :
    ((l.take n).map fun a => name (key a)).Nodup ↔
      l.Pairwise fun a b => name (key a) = name (key b) → n ≤ place key l a b := by
  rw [List.Nodup, List.pairwise_map, List.pairwise_iff_getElem, List.pairwise_iff_getElem]
  simp only [List.length_take, lt_inf_iff, List.getElem_take]
  constructor
  · intro hdistinct i j hi hj hij hname
    by_contra hplace
    rw [place, max_eq_right (key_mono h hi hj hij.le), not_le] at hplace
    have hcj := ahead_le h hj (key l[j]) le_rfl
    -- the entries with the key of `l[j]` begin at `c`
    generalize hc : ahead key l (key l[j]) = c at hplace hcj
    have hkey : ∀ m (hm : m < l.length), c ≤ m → m ≤ j → key l[m] = key l[j] := by
      intro m hm hcm hmj
      apply (key_mono h hm hj hmj).antisymm
      exact not_lt.mp fun hlt => absurd ((lt_ahead_iff h hm _).mpr hlt) (by omega)
    by_cases hsame : key l[i] = key l[j]
    · have hci := hc ▸ ahead_le h hi (key l[j]) hsame.ge
      rw [if_pos hsame] at hplace
      have hfirst := hkey c (by omega) le_rfl (by omega)
      have hsecond := hkey (c + 1) (by omega) (by omega) (by omega)
      exact hdistinct c (c + 1) (by omega) (by omega) (by omega) (by rw [hfirst, hsecond])
    · have hic : i < c :=
        hc ▸ (lt_ahead_iff h hi _).mpr (lt_of_le_of_ne (key_mono h hi hj hij.le) hsame)
      rw [if_neg hsame] at hplace
      have hfirst := hkey c (by omega) le_rfl hcj
      exact hdistinct i c (by omega) (by omega) hic (by rw [hname, hfirst])
  · intro hplace i j hi hj hij hname
    have hn := hplace i j hi.2 hj.2 hij hname
    rw [place, max_eq_right (key_mono h hi.2 hj.2 hij.le)] at hn
    have hahead := ahead_le h hj.2 (key l[j]) le_rfl
    by_cases hsame : key l[i] = key l[j]
    · have hahead' := ahead_le h hi.2 (key l[j]) hsame.ge
      rw [if_pos hsame] at hn
      omega
    · rw [if_neg hsame] at hn
      omega

/-- The names of the first `n` are distinct when, of two entries with one name, the later one
stands too far down. -/
theorem nodup_take_ranked_iff (key : α → K) (l : List α) (n : ℕ) (name : K → I) :
    (((ranked key l).take n).map fun a => name (key a)).Nodup ↔
      l.Pairwise fun a b => name (key a) = name (key b) → n ≤ place key l a b := by
  have hahead : place key (ranked key l) = place key l := by
    funext a b
    rw [place, place, ahead, (ranked_perm l).countP_eq, ahead]
  rw [nodup_take_iff_of_pairwise (ranked_pairwise key l), hahead]
  refine (ranked_perm l).pairwise_iff fun {a b} hab hname => ?_
  have hplace := hab hname.symm
  rwa [place_comm] at hplace

/-! ### Entries that are left out -/

theorem upTo_take (h : l.Pairwise fun a b => key a ≤ key b) (k : K) :
    upTo key (l.take n) k = min n (upTo key l k) := by
  induction l generalizing n with
  | nil => simp [upTo]
  | cons a l ih =>
    obtain ⟨ha, hl⟩ := List.pairwise_cons.mp h
    cases n with
    | zero => simp [upTo]
    | succ n =>
      by_cases hak : key a ≤ k
      · simpa [upTo, hak] using ih hl
      · have hnone : ∀ l' : List α, (∀ b ∈ l', key a ≤ key b) → upTo key l' k = 0 := by
          intro l' hl'
          refine List.countP_eq_zero.mpr fun b hb => ?_
          simpa using (not_le.mp hak).trans_le (hl' b hb)
        rw [hnone (a :: l), hnone]
        · simp
        · intro b hb
          exact (List.mem_cons.mp (List.mem_of_mem_take hb)).elim (fun h => h ▸ le_rfl) (ha b)
        · intro b hb
          exact (List.mem_cons.mp hb).elim (fun h => h ▸ le_rfl) (ha b)

theorem lt_length_of_lt_upTo {i : ℕ} {k : K} (hi : i < upTo key l k) : i < l.length :=
  hi.trans_le List.countP_le_length

theorem take_eq_iff_of_pairwise {l l' : List K} (h : l.Pairwise fun a b => id a ≤ id b)
    (h' : l'.Pairwise fun a b => id a ≤ id b) :
    l.take n = l'.take n ↔ ∀ k, min n (upTo id l k) = min n (upTo id l' k) := by
  constructor
  · intro htake k
    rw [← upTo_take h, htake, upTo_take h']
  · intro hcount
    apply List.ext_getElem?
    intro i
    by_cases hin : i < n
    · have hiff (k : K) : i < upTo id l k ↔ i < upTo id l' k := by
        have := hcount k
        omega
      have hlength : i < l.length ↔ i < l'.length := by
        constructor
        · intro hi
          exact lt_length_of_lt_upTo ((hiff l[i]).mp ((lt_upTo_iff h hi _).mpr le_rfl))
        · intro hi
          exact lt_length_of_lt_upTo ((hiff l'[i]).mpr ((lt_upTo_iff h' hi _).mpr le_rfl))
      rw [List.getElem?_take_of_lt hin, List.getElem?_take_of_lt hin]
      by_cases hi : i < l.length
      · have hi' := hlength.mp hi
        rw [List.getElem?_eq_getElem hi, List.getElem?_eq_getElem hi', Option.some_inj]
        apply le_antisymm
        · exact (lt_upTo_iff h hi _).mp ((hiff _).mpr ((lt_upTo_iff h' hi' _).mpr le_rfl))
        · exact (lt_upTo_iff h' hi' _).mp ((hiff _).mp ((lt_upTo_iff h hi _).mpr le_rfl))
      · rw [List.getElem?_eq_none (not_lt.mp hi),
          List.getElem?_eq_none (not_lt.mp (mt hlength.mpr hi))]
    · rw [List.getElem?_take_eq_none (not_lt.mp hin), List.getElem?_take_eq_none (not_lt.mp hin)]

/-- The first `n` keys stay the same without the entries that have `n` others no later. -/
theorem take_ranked_append_iff (n : ℕ) (l l' : List K) :
    (ranked id (l ++ l')).take n = (ranked id l).take n ↔ ∀ k ∈ l', n ≤ upTo id l k := by
  have hupTo (l : List K) (k : K) : upTo id (ranked id l) k = upTo id l k :=
    (ranked_perm l).countP_eq _
  have happend (k : K) : upTo id (l ++ l') k = upTo id l k + upTo id l' k := List.countP_append
  rw [take_eq_iff_of_pairwise (ranked_pairwise _ _) (ranked_pairwise _ _)]
  simp only [hupTo, happend]
  constructor
  · intro hcount k hk
    have hpos : 0 < upTo id l' k := List.countP_pos_iff.mpr ⟨k, hk, by simp⟩
    have := hcount k
    omega
  · intro hout k
    by_cases hk : ∃ k' ∈ l', k' ≤ k
    · obtain ⟨k', hk', hle⟩ := hk
      have hmono : upTo id l k' ≤ upTo id l k := by
        refine List.countP_mono_left fun a _ ha => ?_
        simpa using (of_decide_eq_true ha).trans hle
      have := hout k' hk'
      omega
    · have hnone : upTo id l' k = 0 :=
        List.countP_eq_zero.mpr fun a ha hle => hk ⟨a, ha, by simpa using hle⟩
      omega

end HmDianPing.Ranking
