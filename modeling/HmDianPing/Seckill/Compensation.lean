import HmDianPing.Seckill.Scripts

/-! # Compensation, at most once and only for its owner

A restore that adds to the stock uses up what entitled the user to it: the
reservation of that order, or the user's old entry. Requests only make reservations.
-/
namespace HmDianPing.Seckill

/-- How often `P` holds of a call and the keys it meets, in a run. -/
def countCalls (P : VoucherKeys → ScriptCall → Prop) [∀ k c, Decidable (P k c)] (k : VoucherKeys) :
    List ScriptCall → ℕ
  | [] => 0
  | c :: calls => (if P k c then 1 else 0) + countCalls P (c.run k) calls

def Accepts (u o : Long) (k : VoucherKeys) : ScriptCall → Prop
  | .seckill u' v o' now time => u' = u ∧ o' = o ∧ (seckillLua u' v o' now time k).1 = .accepted
  | .restore _ _ => False

def Compensates (u o : Long) (k : VoucherKeys) (c : ScriptCall) : Prop :=
  c = .restore u o ∧ k.stockValue < (c.run k).stockValue

instance (u o : Long) (k : VoucherKeys) : (c : ScriptCall) → Decidable (Accepts u o k c)
  | .seckill _ _ _ _ _ => inferInstanceAs (Decidable (_ ∧ _ ∧ _))
  | .restore _ _ => inferInstanceAs (Decidable False)

instance (u o : Long) (k : VoucherKeys) : (c : ScriptCall) → Decidable (Compensates u o k c)
  | .seckill _ _ _ _ _ => isFalse fun h => by cases h.1
  | .restore u' o' => decidable_of_iff ((u' = u ∧ o' = o) ∧ k.stockValue <
      (ScriptCall.run k (.restore u' o')).stockValue) (by simp [Compensates])

/-- What entitles the user to a restore of this order: the reservation of it, and an old entry. -/
def VoucherKeys.entitled (k : VoucherKeys) (u o : Long) : ℕ :=
  (if k.reservation.lookup u = some o then 1 else 0) + if u ∈ k.legacyOrder then 1 else 0

section Calls
variable {k k' : VoucherKeys} {u o u' o' : Long} {n : ℤ}

theorem entitled_reserve {v now stock : Long} {time : ℤ × ℤ} (hfree : u' ∉ k.reservation) :
    (k.reserve u' v o' now time stock).entitled u o =
      (if u' = u ∧ o' = o then 1 else 0) + k.entitled u o := by
  change (if (k.reservation.insert u' o').lookup u = some o then 1 else 0) +
    (if u ∈ k.legacyOrder then 1 else 0) = _ + k.entitled u o
  rw [VoucherKeys.entitled, ← Nat.add_assoc]
  congr 1
  by_cases hu : u = u'
  · subst hu
    simp [AList.lookup_eq_none.mpr hfree]
  · simp [AList.lookup_insert_ne hu, Ne.symm hu]

theorem entitled_restore_le (h : seckillRestoreLua u' o' k = some (n, k')) :
    k'.entitled u o ≤ k.entitled u o := by
  rcases seckillRestoreLua_cases h with ⟨-, -, rfl⟩ | ⟨-, -, -, rfl⟩ | ⟨-, -, -, rfl⟩
  · change (if (k.reservation.erase u').lookup u = some o then 1 else 0) +
      (if u ∈ k.legacyOrder then 1 else 0) ≤ _
    refine Nat.add_le_add_right ?_ _
    by_cases hu : u = u'
    · subst hu
      simp
    · rw [AList.lookup_erase_ne hu]
  · change (if k.reservation.lookup u = some o then 1 else 0) +
      (if u ∈ k.legacyOrder.erase u' then 1 else 0) ≤ _
    refine Nat.add_le_add_left ?_ _
    by_cases hleg : u ∈ k.legacyOrder
    · rw [if_pos hleg]
      split <;> omega
    · rw [if_neg fun h => hleg (Finset.mem_of_mem_erase h)]
      exact Nat.zero_le _
  · exact le_refl _

theorem entitled_restore (h : seckillRestoreLua u o k = some (n, k'))
    (hmore : k.stockValue < k'.stockValue) : k'.entitled u o + 1 = k.entitled u o := by
  rcases seckillRestoreLua_cases h with ⟨-, hown, rfl⟩ | ⟨-, hres, hleg, rfl⟩ | ⟨-, -, -, rfl⟩
  · change (if (k.reservation.erase u).lookup u = some o then 1 else 0) +
      (if u ∈ k.legacyOrder then 1 else 0) + 1 = _
    rw [VoucherKeys.entitled, if_pos hown, AList.lookup_erase, if_neg (by simp)]
    omega
  · have hnone : k.reservation.lookup u = none := AList.lookup_eq_none.mpr hres
    change (if k.reservation.lookup u = some o then 1 else 0) +
      (if u ∈ k.legacyOrder.erase u then 1 else 0) + 1 = _
    rw [VoucherKeys.entitled, if_pos hleg, if_neg (Finset.notMem_erase u _), hnone]
  · exact absurd hmore (lt_irrefl _)

/-- No call creates more entitlement than it is accepted for, nor leaves what it compensates. -/
theorem entitled_call (c : ScriptCall) :
    (if Compensates u o k c then 1 else 0) + (c.run k).entitled u o ≤
      (if Accepts u o k c then 1 else 0) + k.entitled u o := by
  cases c with
  | seckill u' v o' now time =>
    have hnot : ¬ Compensates u o k (.seckill u' v o' now time) := fun h => by cases h.1
    rw [if_neg hnot, Nat.zero_add]
    rcases hrun : seckillLua u' v o' now time k with ⟨reply, k'⟩
    simp only [ScriptCall.run, Accepts, hrun]
    rcases seckillLua_cases hrun with ⟨hne, rfl⟩ | ⟨stock, rfl, hfree, -, -, -, rfl⟩
    · simp [hne]
    · rw [entitled_reserve hfree]
      simp
  | restore u' o' =>
    cases hrun : seckillRestoreLua u' o' k with
    | none => simp [ScriptCall.run, Compensates, hrun]
    | some p =>
      obtain ⟨n, k'⟩ := p
      have hle : k'.entitled u o ≤ k.entitled u o := entitled_restore_le hrun
      have hkeys : ScriptCall.run k (.restore u' o') = k' := by simp [ScriptCall.run, hrun]
      rw [hkeys]
      by_cases hc : Compensates u o k (.restore u' o')
      · obtain ⟨hcall, hmore⟩ := hc
        cases hcall
        rw [hkeys] at hmore
        have huse := entitled_restore hrun hmore
        split <;> omega
      · simp only [if_neg hc, Accepts]
        omega

theorem restore_keeps_reservation (hother : u' ≠ u ∨ k.reservation.lookup u' ≠ some o) :
    (ScriptCall.run k (.restore u o)).reservation.lookup u' = k.reservation.lookup u' := by
  cases hrun : seckillRestoreLua u o k with
  | none => simp [ScriptCall.run, hrun]
  | some p =>
    obtain ⟨n, k'⟩ := p
    simp only [ScriptCall.run, hrun, Option.map_some, Option.getD_some]
    rcases seckillRestoreLua_cases hrun with ⟨-, hown, rfl⟩ | ⟨-, -, -, rfl⟩ | ⟨-, -, -, rfl⟩
    · have hu : u' ≠ u := by
        rintro rfl
        exact hother.elim (fun h => h rfl) fun h => h hown
      simp [VoucherKeys.zremPending, AList.lookup_erase_ne hu]
    · rfl
    · rfl

end Calls

theorem countCalls_compensates (k : VoucherKeys) (calls : List ScriptCall) (u o : Long) :
    countCalls (Compensates u o) k calls + (runScripts k calls).entitled u o ≤
      countCalls (Accepts u o) k calls + k.entitled u o := by
  induction calls generalizing k with
  | nil => simp [countCalls, runScripts]
  | cons c calls ih =>
    have hcall := entitled_call (k := k) (u := u) (o := o) c
    have hrest : countCalls (Compensates u o) (c.run k) calls +
        (runScripts k (c :: calls)).entitled u o ≤
          countCalls (Accepts u o) (c.run k) calls + (c.run k).entitled u o := ih (c.run k)
    simp only [countCalls]
    omega

/-- In every run of the two scripts a user is compensated for an order at most as often as it was
accepted, and once more for an old entry; and whatever has run before, a restore touches no
reservation of another user or of another order. -/
theorem compensation_at_most_once (k : VoucherKeys) (calls : List ScriptCall) (u o : Long)
    (hnew : k.reservation.lookup u ≠ some o) :
    countCalls (Compensates u o) k calls ≤
        countCalls (Accepts u o) k calls + (if u ∈ k.legacyOrder then 1 else 0) ∧
      ∀ u', u' ≠ u ∨ (runScripts k calls).reservation.lookup u' ≠ some o →
        (ScriptCall.run (runScripts k calls) (.restore u o)).reservation.lookup u' =
          (runScripts k calls).reservation.lookup u' := by
  refine ⟨?_, fun u' hother => restore_keeps_reservation hother⟩
  have hcount := countCalls_compensates k calls u o
  have hstart : k.entitled u o = if u ∈ k.legacyOrder then 1 else 0 := by
    simp [VoucherKeys.entitled, hnew]
  omega

/-- User 7 is compensated for order 100 once, however often the failed message comes back, and
keeps the reservation made afterwards. -/
theorem compensation_at_most_once_repeated :
    let calls := [ScriptCall.seckill 7 1 100 5 (1, 0), .restore 7 100, .restore 7 100,
      .seckill 7 1 101 6 (1, 0), .restore 7 100]
    countCalls (Compensates 7 100) (openedVoucher 2) calls ≤ 1 ∧
      (ScriptCall.run (runScripts (openedVoucher 2) calls) (.restore 7 100)).reservation.lookup 7 =
        some 101 := by
  intro calls
  have h := compensation_at_most_once (openedVoucher 2) calls 7 100 (by decide)
  have hreserved : (runScripts (openedVoucher 2) calls).reservation.lookup 7 = some 101 := by decide
  have haccepted : countCalls (Accepts 7 100) (openedVoucher 2) calls = 1 := by decide
  refine ⟨?_, (h.2 7 (.inr (by rw [hreserved]; decide))).trans hreserved⟩
  have hold : (7 : Long) ∉ (openedVoucher 2).legacyOrder := by decide
  have hle := h.1
  rwa [haccepted, if_neg hold] at hle

end HmDianPing.Seckill
