import HmDianPing.Ranking.Top

/-! # Lists that are read page by page

A page is a stretch of `n` entries. Whoever asks for one page after the other, up to
the first that is not full, has read the whole list.
-/
namespace HmDianPing.Ranking
variable {α β E : Type} {n k current : ℕ} {l rows shown : List α} {hasMore : Bool}

/-- The `n` entries that `k` pages come before. -/
def page (n k : ℕ) (l : List α) : List α := (l.drop (n * k)).take n

theorem take_append_page (n k : ℕ) (l : List α) :
    l.take (n * k) ++ page n k l = l.take (n * (k + 1)) := by
  rw [page, Nat.mul_succ, List.take_add]

theorem take_of_short (h : (page n k l).length ≠ n) : l.take (n * (k + 1)) = l := by
  refine List.take_of_length_le ?_
  have hle : (page n k l).length ≤ n := List.length_take_le _ _
  have hlength : (page n k l).length = min n (l.length - n * k) := by simp [page]
  rw [Nat.mul_succ]
  omega

section filterMap

theorem filterMap_take {f : α → Option β} (h : ∀ a ∈ l, (f a).isSome) (m : ℕ) :
    (l.take m).filterMap f = (l.filterMap f).take m := by
  induction l generalizing m with
  | nil => simp
  | cons a l ih =>
    obtain ⟨b, hb⟩ := Option.isSome_iff_exists.mp (h a List.mem_cons_self)
    cases m with
    | zero => rfl
    | succ m =>
      rw [List.take_succ_cons, List.filterMap_cons_some hb, List.filterMap_cons_some hb,
        List.take_succ_cons, ih (fun a' ha' => h a' (List.mem_cons_of_mem _ ha'))]

theorem filterMap_drop {f : α → Option β} (h : ∀ a ∈ l, (f a).isSome) (m : ℕ) :
    (l.drop m).filterMap f = (l.filterMap f).drop m := by
  induction l generalizing m with
  | nil => simp
  | cons a l ih =>
    obtain ⟨b, hb⟩ := Option.isSome_iff_exists.mp (h a List.mem_cons_self)
    cases m with
    | zero => rfl
    | succ m =>
      rw [List.drop_succ_cons, List.filterMap_cons_some hb, List.drop_succ_cons,
        ih (fun a' ha' => h a' (List.mem_cons_of_mem _ ha'))]

theorem page_filterMap {f : α → Option β} (h : ∀ a ∈ l, (f a).isSome) (n k : ℕ) :
    (page n k l).filterMap f = page n k (l.filterMap f) := by
  rw [page, filterMap_take (fun a ha => h a (List.mem_of_mem_drop ha)), filterMap_drop h, page]

end filterMap

/-- What a reader has that asks for page `current` next, beginning at page 1; `hasMore` says whether
the page before was full. -/
inductive Loaded (n : ℕ) (answers : ℕ → Except E (List α)) : ℕ → List α → Bool → Prop
  | start : Loaded n answers 1 [] true
  | next {current : ℕ} {shown rows : List α} (before : Loaded n answers current shown true)
      (answer : answers current = .ok rows) :
      Loaded n answers (current + 1) (shown ++ rows) (rows.length == n)

namespace Loaded
variable {answers answers' : ℕ → Except E (List α)}

theorem pos (h : Loaded n answers current shown hasMore) : 1 ≤ current := by
  cases h with
  | start => exact Nat.le_refl 1
  | next => exact Nat.le_add_left 1 _

theorem congr (h : Loaded n answers current shown hasMore) (heq : ∀ i, answers' i = answers i) :
    Loaded n answers' current shown hasMore := by
  obtain rfl : answers' = answers := funext heq
  exact h

theorem length_eq (h : Loaded n answers current shown hasMore) (hmore : hasMore = true) :
    shown.length = n * (current - 1) := by
  induction h with
  | start => rfl
  | @next current shown rows before answer ih =>
    have hfull : rows.length = n := by simpa using hmore
    have hpos := before.pos
    rw [List.length_append, ih rfl, hfull, ← Nat.mul_succ, Nat.add_sub_cancel]
    congr 1
    omega

/-- Where the answers are the pages of a list, what is shown is its beginning, and all of it after a
page that was not full. -/
theorem eq_take (h : Loaded n answers current shown hasMore) (hpages : ∀ i rows, 1 ≤ i →
    n * (i - 1) ≤ l.length → answers i = .ok rows → rows = page n (i - 1) l) :
    shown = l.take (n * (current - 1)) ∧ (hasMore = false → shown = l) := by
  induction h with
  | start => simp
  | @next current shown rows before answer ih =>
    obtain ⟨k, rfl⟩ : ∃ k, current = k + 1 := ⟨current - 1, by have := before.pos; omega⟩
    have hlength : n * k ≤ l.length := by
      have hshown := before.length_eq rfl
      rw [ih.1, List.length_take, Nat.add_sub_cancel] at hshown
      omega
    obtain rfl := hpages (k + 1) rows before.pos hlength answer
    have htake : shown ++ page n k l = l.take (n * (k + 1)) := by
      rw [ih.1, Nat.add_sub_cancel, take_append_page]
    refine ⟨htake, fun hshort => ?_⟩
    rw [Nat.add_sub_cancel, htake]
    exact take_of_short (by simpa using hshort)

end Loaded

/-- These are the first of a ranking, in its order, however many. -/
structure Leads {K : Type} [LinearOrder K] (key : α → K) (l shown : List α) : Prop where
  nodup : shown.Nodup
  subset : shown ⊆ l
  sorted : shown.Pairwise fun a b => key a ≤ key b
  ahead : ∀ a ∈ shown, ∀ b ∈ l, b ∉ shown → key a ≤ key b

theorem leads_take {K : Type} [LinearOrder K] (key : α → K) (h : l.Nodup) (n : ℕ) :
    Leads key l ((ranked key l).take n) where
  nodup := ((ranked_perm l).nodup_iff.mpr h).sublist (List.take_sublist _ _)
  subset a ha := (ranked_perm l).mem_iff.mp (List.mem_of_mem_take ha)
  sorted := (ranked_pairwise key l).sublist (List.take_sublist _ _)
  ahead a ha b hb hleft := by
    have hdrop : b ∈ (ranked key l).drop n := by
      have hmem : b ∈ (ranked key l).take n ++ (ranked key l).drop n := by
        rw [List.take_append_drop]
        exact (ranked_perm l).mem_iff.mpr hb
      exact (List.mem_append.mp hmem).resolve_left hleft
    have hsplit := ranked_pairwise key l
    rw [← List.take_append_drop n (ranked key l)] at hsplit
    exact (List.pairwise_append.mp hsplit).2.2 a ha b hdrop

end HmDianPing.Ranking
