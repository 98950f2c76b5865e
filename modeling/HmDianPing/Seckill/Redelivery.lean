import HmDianPing.Interleaving.Progress
import HmDianPing.Seckill.Provenance
import Mathlib.Data.List.Perm.Basic

/-! # A delivery without failures

A copy that is given to its consumer, when every call is performed, is consumed, or
is lighter afterwards: it has a round less before it, or it has gone on to the queue
of the failed orders, from which it is released.
-/
namespace HmDianPing.Seckill
open Interleaving Program

namespace World

/-- A copy of the message waits to be consumed; the parking queue has no consumer. -/
def Waits (w : World) (m : Message) : Prop :=
  (∃ q, q ≠ .parking ∧ ∃ c ∈ w.queues q, c.message = m) ∨
    ∃ d ∈ w.unacked, d.queue ≠ .parking ∧ d.copy.message = m

/-- The order is in the table or its user has one there, or it has failed and its user no
longer holds it. -/
def Resolved (w : World) (m : Message) : Prop :=
  (∃ row ∈ w.db.orders.rows, m.order.Clashes row) ∨
    (w.redis m.voucherId).hget m.orderId .status = some (.status .failed) ∧
      (w.redis m.voucherId).reservation.lookup m.userId ≠ some m.orderId

/-- Nothing waits to be consumed, and no delivery is open. -/
structure Emptied (w : World) : Prop where
  order : w.queues .order = []
  retry : w.queues .retry = []
  failed : w.queues .failed = []
  unacked : w.unacked = []

/-- The rounds a copy in the order queue has before it, and what comes after them. -/
def orderLoad (c : Copy) : ℕ := 2 * (maxRetryCount - getRetryCount c.xDeath) + 2

/-- A bound on the moves of copies that are still to come. -/
def load (w : World) : ℕ :=
  ((w.queues .order).map orderLoad).sum + ((w.queues .retry).map fun c => orderLoad c + 1).sum +
    (w.queues .failed).length

/-- The stock that the scripts have to count fits a script's numbers. -/
def Countable (w : World) : Prop :=
  ∀ v, 0 ≤ (w.redis v).stockValue ∧ (w.redis v).total < 2 ^ 63

theorem emptied_of_load {w : World} (h : w.load = 0) (hunacked : w.unacked = []) : w.Emptied := by
  simp only [load, Nat.add_eq_zero_iff, List.length_eq_zero_iff] at h
  obtain ⟨⟨horder, hretry⟩, hfailed⟩ := h
  refine ⟨?_, ?_, hfailed, hunacked⟩
  · cases hq : w.queues .order with
    | nil => rfl
    | cons c cs => simp [hq, orderLoad] at horder
  · cases hq : w.queues .retry with
    | nil => rfl
    | cons c cs => simp [hq] at hretry

end World

section Deaths
variable (c : Copy)

theorem getRetryCount_eq_find (xs : List XDeath) : getRetryCount xs =
    ((xs.find? fun x => decide (x.queue = .order ∧ x.reason = .rejected)).map
      XDeath.count).getD 0 := by
  unfold getRetryCount
  cases xs.find? fun x => decide (x.queue = .order ∧ x.reason = .rejected) <;> rfl

theorem getRetryCount_rejected :
    getRetryCount (c.die .order .rejected).xDeath = getRetryCount c.xDeath + 1 := by
  rw [getRetryCount_eq_find, getRetryCount_eq_find, Copy.die]
  rw [List.find?_cons_of_pos (by simp)]
  rfl

theorem getRetryCount_expired :
    getRetryCount (c.die .retry .expired).xDeath = getRetryCount c.xDeath := by
  have hfind : ∀ xs : List XDeath,
      (xs.filter fun x => !decide (x.queue = .retry ∧ x.reason = .expired)).find?
        (fun x => decide (x.queue = .order ∧ x.reason = .rejected)) =
      xs.find? fun x => decide (x.queue = .order ∧ x.reason = .rejected) := by
    intro xs
    rw [List.find?_filter]
    congr 1
    funext x
    rcases x with ⟨_ | _ | _ | _, _ | _, n⟩ <;> rfl
  rw [getRetryCount_eq_find, getRetryCount_eq_find, Copy.die]
  rw [List.find?_cons_of_neg (by simp)]
  exact congrArg (fun x => (Option.map XDeath.count x).getD 0) (hfind c.xDeath)

end Deaths

def World.copyLoad : QueueName → Copy → ℕ
  | .order, c => orderLoad c
  | .retry, c => orderLoad c + 1
  | .failed, _ => 1
  | .parking, _ => 0

section Waits
variable {w : World} {q : QueueName} {n : ℕ} {c : Copy} {m : Message}

theorem World.Waits.enqueue (h : w.Waits m) : (w.enqueue q c).Waits m := by
  rcases h with ⟨q', hq', c', hc', hm⟩ | hheld
  · refine .inl ⟨q', hq', c', ?_, hm⟩
    by_cases hqq : q' = q
    · subst hqq
      simp [World.enqueue, hc']
    · simpa [World.enqueue, hqq] using hc'
  · exact .inr hheld

theorem waits_enqueue (hq : q ≠ .parking) : (w.enqueue q c).Waits c.message :=
  .inl ⟨q, hq, c, by simp [World.enqueue], rfl⟩

theorem World.Waits.congr {w' : World} (h : w.Waits m) (hqueues : w'.queues = w.queues)
    (hunacked : w'.unacked = w.unacked) : w'.Waits m := by
  rwa [World.Waits, hqueues, hunacked]

theorem World.Waits.removeCopy (h : w.Waits m) (hcopy : (w.queues q)[n]? = some c) :
    m = c.message ∨ (w.removeCopy q n).Waits m := by
  rcases h with ⟨q', hq', c', hc', rfl⟩ | hheld
  · by_cases hqq : q' = q
    · subst hqq
      obtain ⟨j, hj⟩ := List.mem_iff_getElem?.mp hc'
      by_cases hjn : j = n
      · subst hjn
        exact .inl (by rw [Option.some.inj (hj.symm.trans hcopy)])
      · refine .inr (.inl ⟨q', hq', c', ?_, rfl⟩)
        simpa [World.removeCopy] using List.mem_eraseIdx_iff_getElem?.mpr ⟨j, hjn, hj⟩
    · exact .inr (.inl ⟨q', hq', c', by simpa [World.removeCopy, hqq] using hc', rfl⟩)
  · exact .inr (.inr hheld)

end Waits

section Load
variable {w : World} {q : QueueName} {n : ℕ} {c : Copy}

theorem load_removeCopy (h : (w.queues q)[n]? = some c) :
    (w.removeCopy q n).load + World.copyLoad q c = w.load := by
  have hperm : (c :: (w.queues q).eraseIdx n).Perm (w.queues q) := by
    obtain ⟨hn, rfl⟩ := List.getElem?_eq_some_iff.mp h
    exact List.getElem_cons_eraseIdx_perm hn
  have hsum : ∀ g : Copy → ℕ, (((w.queues q).eraseIdx n).map g).sum + g c =
      ((w.queues q).map g).sum := by
    intro g
    rw [← (hperm.map g).sum_nat, List.map_cons, List.sum_cons, Nat.add_comm]
  have hlength := hperm.length_eq
  rw [List.length_cons] at hlength
  cases q with
  | order => simp [World.load, World.removeCopy, World.copyLoad, ← hsum]; omega
  | retry => simp [World.load, World.removeCopy, World.copyLoad, ← hsum]; omega
  | failed => simp [World.load, World.removeCopy, World.copyLoad]; omega
  | parking => simp [World.load, World.removeCopy, World.copyLoad]

theorem load_enqueue : (w.enqueue q c).load = w.load + World.copyLoad q c := by
  cases q with
  | order => simp [World.load, World.enqueue, World.copyLoad]; omega
  | retry => simp [World.load, World.enqueue, World.copyLoad]; omega
  | failed => simp [World.load, World.enqueue, World.copyLoad]; omega
  | parking => simp [World.load, World.enqueue, World.copyLoad]

end Load

/-- The handler comes to its end when every call is performed. -/
abbrev Finishes (p : Handler Unit) (Q : Except Exn Unit → World → Prop) (w : World) : Prop :=
  p.Completes seckillProtocol.exec .performed Q w

theorem exec_performs (c : Cmd) (w : World) : seckillProtocol.exec c .performed w = w.answer c := by
  have hgenuine : Choice.Genuine .performed := by
    intro e he
    cases he
  simp [seckillProtocol, hgenuine]

/-- The calls by which a consumer records how far an order has come. -/
def Cmd.Records (v o : Long) : Cmd → Prop
  | .currentTimeMillis => True
  | .redis v' (.hget o' _) | .redis v' (.hset o' _ _) | .redis v' (.hsetnx o' _ _)
  | .redis v' (.expire o' _) | .redis v' (.zremPending o') | .redis v' (.zaddFailed o' _) =>
    v' = v ∧ o' = o
  | _ => False

section Records
variable (v o : Long)

theorem markConsuming_records (startedAt : ℤ) :
    (markConsuming v o startedAt).Plain (Cmd.Records v o) := by
  simp [markConsuming, refreshDataTtl, Cmd.Records]

theorem putDuration_records (field : Field) (upto : ℤ) (since : Option Long) :
    (putDuration v o field upto since).Plain (Cmd.Records v o) := by
  cases since <;> simp [putDuration, Cmd.Records]

theorem removePendingAt_records (committedAt : ℤ) :
    (removePendingAt v o committedAt).Plain (Cmd.Records v o) := by
  have hread : ∀ field, (readLong v o field).Plain (Cmd.Records v o) := fun field => by
    simp [readLong, Cmd.Records]
  refine (hread _).bind fun _ => (hread _).bind fun startedAt => ?_
  simp only [plain_perform_bind, Cmd.Records, and_self, true_and]
  intro _ _ _
  refine (putDuration_records _ _ _ _ _).bind fun _ => ?_
  cases startedAt with
  | none =>
    refine (putDuration_records _ _ _ _ _).bind fun _ => ?_
    simp [refreshDataTtl, Cmd.Records]
  | some startedAt =>
    refine (putDuration_records _ _ _ _ _).bind fun _ => ?_
    refine (putDuration_records _ _ _ _ _).bind fun _ => ?_
    simp [refreshDataTtl, Cmd.Records]

theorem removePending_records : (removePending v o).Plain (Cmd.Records v o) := by
  simp only [removePending, plain_perform_bind, Cmd.Records, true_and]
  exact fun now => removePendingAt_records v o now

end Records

/-- Only records of the order have been changed. -/
structure Noted (v o : Long) (w w' : World) : Prop where
  db : w'.db = w.db
  queues : w'.queues = w.queues
  unacked : w'.unacked = w.unacked
  accepted : w'.accepted = w.accepted
  reservation : ∀ v', (w'.redis v').reservation = (w.redis v').reservation
  others : ∀ v' o', (v' = v → o' ≠ o) →
    (w'.redis v').hget o' .status = (w.redis v').hget o' .status

section Noted
variable {v o : Long} {w w' w'' : World}

theorem Noted.refl (w : World) : Noted v o w w :=
  ⟨rfl, rfl, rfl, rfl, fun _ => rfl, fun _ _ _ => rfl⟩

theorem Noted.trans (h : Noted v o w w') (h' : Noted v o w' w'') : Noted v o w w'' where
  db := h'.db.trans h.db
  queues := h'.queues.trans h.queues
  unacked := h'.unacked.trans h.unacked
  accepted := h'.accepted.trans h.accepted
  reservation v' := (h'.reservation v').trans (h.reservation v')
  others v' o' hne := (h'.others v' o' hne).trans (h.others v' o' hne)

theorem noted_setRedis {k : VoucherKeys} (hreservation : k.reservation = (w.redis v).reservation)
    (hothers : ∀ o', o' ≠ o → k.hget o' .status = (w.redis v).hget o' .status) :
    Noted v o w (w.setRedis v k) := by
  refine ⟨rfl, rfl, rfl, rfl, fun v' => ?_, fun v' o' hne => ?_⟩
  · by_cases hv : v' = v
    · subst hv
      simpa [World.setRedis] using hreservation
    · simp [World.setRedis, hv]
  · by_cases hv : v' = v
    · subst hv
      simpa [World.setRedis] using hothers o' (hne rfl)
    · simp [World.setRedis, hv]

theorem records_answer {c : Cmd} (hc : c.Records v o) (w : World) :
    ∃ a w', seckillProtocol.exec c .performed w = some (.ok a, w') ∧ Noted v o w w' := by
  simp only [exec_performs]
  cases c with
  | currentTimeMillis => exact ⟨_, _, rfl, .refl w⟩
  | redis v' c =>
    have hledger := RedisCmd.run_ledger (c := c) (fun u o' he => by subst he; exact hc) w.redisNow
      (w.redis v')
    have hothers : ∀ o', o' ≠ o →
        (c.run w.redisNow (w.redis v')).2.hget o' .status = (w.redis v').hget o' .status := by
      intro o' ho
      refine RedisCmd.run_hget (fun hwrites => ho ?_) _ _
      cases c <;> first
        | exact hwrites.elim
        | exact hc.elim
        | exact hwrites.1.symm.trans hc.2
    have hreply : ∃ a, (c.run w.redisNow (w.redis v')).1 = .ok a := by
      cases c <;> first
        | exact hc.elim
        | exact ⟨_, rfl⟩
    obtain ⟨a, ha⟩ := hreply
    obtain rfl : v' = v := by
      cases c <;> first
        | exact hc.elim
        | exact hc.1
    exact ⟨a, _, by rw [World.answer, ha], noted_setRedis hledger.2.1 hothers⟩
  | _ => exact hc.elim

theorem finishes_records {α : Type} {p : Handler α} {g : α → Handler Unit}
    {Q : Except Exn Unit → World → Prop} (hp : p.Plain (Cmd.Records v o))
    (hrest : ∀ a w', Noted v o w w' → Finishes (g a) Q w') : Finishes (p >>= g) Q w := by
  refine Program.Completes.plain_bind (Noted v o w) hp (fun c w' hc hw' => ?_) (.refl w) hrest
  obtain ⟨a, w'', hexec, hnoted⟩ := records_answer hc w'
  exact ⟨a, w'', hexec, hw'.trans hnoted⟩

end Noted

/-- While a copy is with its consumer: no other copy has moved, and nothing has been taken
back but the order's own reservation and status. -/
structure Held (w : World) (q : QueueName) (n : ℕ) (copy : Copy) (w' : World) : Prop where
  queues : w'.queues = (w.removeCopy q n).queues
  unacked : w'.unacked = [⟨w.nextTag, q, copy⟩]
  accepted : w'.accepted = w.accepted
  rows : w.db.orders.rows ⊆ w'.db.orders.rows
  reservation : ∀ v u o, (w'.redis v).reservation.lookup u = some o →
    (w.redis v).reservation.lookup u = some o
  others : ∀ v o, (v = copy.message.voucherId → o ≠ copy.message.orderId) →
    (w'.redis v).hget o .status = (w.redis v).hget o .status

/-- Nothing is lost on the way from `w` to `w'`: what waits or is resolved is one of the two. -/
structure Accounts (w w' : World) : Prop where
  accepted : w'.accepted = w.accepted
  accounted : ∀ m ∈ w.accepted, w.Waits m ∨ w.Resolved m → w'.Waits m ∨ w'.Resolved m

/-- A delivery has been dealt with. -/
structure Progress (w w' : World) : Prop extends Accounts w w' where
  lighter : w'.load < w.load
  unacked : w'.unacked = []

section Held
variable {w w' w'' : World} {q : QueueName} {n : ℕ} {copy : Copy}

theorem load_congr (h : w'.queues = w.queues) : w'.load = w.load := by
  simp only [World.load, h]

theorem held_deliver (hunacked : w.unacked = []) : Held w q n copy (w.deliver q n copy) where
  queues := rfl
  unacked := by simp [World.deliver, hunacked]
  accepted := rfl
  rows := List.Subset.refl _
  reservation _ _ _ h := h
  others _ _ _ := rfl

theorem Held.noted (h : Held w q n copy w')
    (hn : Noted copy.message.voucherId copy.message.orderId w' w'') : Held w q n copy w'' where
  queues := hn.queues.trans h.queues
  unacked := hn.unacked.trans h.unacked
  accepted := hn.accepted.trans h.accepted
  rows := hn.db ▸ h.rows
  reservation v u o hlookup := h.reservation v u o (by rwa [hn.reservation] at hlookup)
  others v o hne := (hn.others v o hne).trans (h.others v o hne)

theorem Held.other (h : Held w q n copy w') (hp : Provenance w)
    (hcopy : (w.queues q)[n]? = some copy) {m : Message} (hm : m ∈ w.accepted)
    (hne : m ≠ copy.message) (hw : w.Waits m ∨ w.Resolved m) :
    (w.removeCopy q n).Waits m ∨ w'.Resolved m := by
  rcases hw with hwaits | ⟨row, hrow, hclash⟩ | ⟨hstatus, hreserved⟩
  · exact .inl ((hwaits.removeCopy hcopy).resolve_left hne)
  · exact .inr (.inl ⟨row, h.rows hrow, hclash⟩)
  · have hother : m.voucherId = copy.message.voucherId → m.orderId ≠ copy.message.orderId := by
      intro _ heq
      have hcopied : copy.message ∈ w.accepted :=
        hp.copies q.side _ (.inl ⟨q, rfl, copy, List.mem_of_getElem? hcopy, rfl⟩)
      exact hne (hp.unique m hm _ hcopied heq)
    exact .inr (.inr ⟨(h.others _ _ hother).trans hstatus, fun hlookup =>
      hreserved (h.reservation _ _ _ hlookup)⟩)

/-- How a delivery ends: `w''` has the stores of `w'`, and what waits besides the copy waits. -/
theorem Held.progress (h : Held w q n copy w') (hp : Provenance w)
    (hcopy : (w.queues q)[n]? = some copy) (hlighter : w''.load < w.load)
    (hclosed : w''.unacked = []) (hsame : w'.SameStores w'')
    (hwaits : ∀ m, (w.removeCopy q n).Waits m → w''.Waits m)
    (hself : w''.Waits copy.message ∨ w''.Resolved copy.message) : Progress w w'' where
  lighter := hlighter
  unacked := hclosed
  accepted := hsame.accepted.trans h.accepted
  accounted m hm hw := by
    by_cases hne : m = copy.message
    · rwa [hne]
    · rcases h.other hp hcopy hm hne hw with hrest | hresolved
      · exact .inl (hwaits m hrest)
      · refine .inr ?_
        simpa only [World.Resolved, hsame.redis, hsame.db] using hresolved

theorem Held.settle_unacked (h : Held w q n copy w') : (w'.settle w.nextTag).unacked = [] := by
  simp [World.settle, h.unacked]

theorem Held.load_removed (h : Held w q n copy w') (hcopy : (w.queues q)[n]? = some copy) :
    w'.load + World.copyLoad q copy = w.load := by
  rw [load_congr h.queues]
  exact load_removeCopy hcopy

theorem copyLoad_pos (hq : q ≠ .parking) : 0 < World.copyLoad q copy := by
  cases q with
  | order => exact Nat.succ_pos _
  | retry => exact Nat.succ_pos _
  | failed => exact Nat.succ_pos _
  | parking => exact absurd rfl hq

theorem Held.acked (h : Held w q n copy w') (hp : Provenance w)
    (hcopy : (w.queues q)[n]? = some copy) (hunacked : w.unacked = []) (hq : q ≠ .parking)
    (hresolved : w'.Resolved copy.message) : Progress w (w'.settle w.nextTag) := by
  have hload := h.load_removed hcopy
  have hpos : 0 < World.copyLoad q copy := copyLoad_pos hq
  have hsame : (w'.settle w.nextTag).load = w'.load := load_congr rfl
  refine h.progress hp hcopy (by omega) h.settle_unacked ⟨rfl, rfl, rfl, rfl⟩ (fun m hm => ?_)
    (.inr hresolved)
  exact hm.congr h.queues (h.settle_unacked.trans hunacked.symm)

theorem Held.forwarded (h : Held w .order n copy w') (hp : Provenance w)
    (hcopy : (w.queues .order)[n]? = some copy) (hunacked : w.unacked = []) :
    Progress w ((w'.forward copy.message .stored).settle w.nextTag) := by
  have hclosed : ((w'.forward copy.message .stored).settle w.nextTag).unacked = [] :=
    h.settle_unacked
  have hqueues : ((w'.forward copy.message .stored).settle w.nextTag).queues =
      (w'.enqueue .failed ⟨copy.message, []⟩).queues := rfl
  have hrest : (w'.enqueue .failed ⟨copy.message, []⟩).queues =
      ((w.removeCopy .order n).enqueue .failed ⟨copy.message, []⟩).queues := by
    simp only [World.enqueue, h.queues]
  have hload := h.load_removed hcopy
  refine h.progress hp hcopy ?_ hclosed ⟨rfl, rfl, rfl, rfl⟩ (fun m hm => ?_) (.inl ?_)
  · rw [load_congr hqueues, load_enqueue]
    simp only [World.copyLoad, World.orderLoad] at hload ⊢
    omega
  · exact hm.enqueue.congr (hqueues.trans hrest) (hclosed.trans hunacked.symm)
  · have hself : ((w.removeCopy .order n).enqueue .failed ⟨copy.message, []⟩).Waits copy.message :=
      waits_enqueue (by decide)
    exact hself.congr (hqueues.trans hrest) (hclosed.trans hunacked.symm)

theorem Held.rejected (h : Held w .order n copy w') (hp : Provenance w)
    (hcopy : (w.queues .order)[n]? = some copy) (hunacked : w.unacked = [])
    (hretry : getRetryCount copy.xDeath < maxRetryCount) :
    Progress w (w'.reject w.nextTag false) := by
  have hreject : w'.reject w.nextTag false =
      (w'.settle w.nextTag).enqueue .retry (copy.die .order .rejected) := by
    simp [World.reject, h.unacked]
  have hclosed : ((w'.settle w.nextTag).enqueue .retry (copy.die .order .rejected)).unacked = [] :=
    h.settle_unacked
  have hrest : ((w'.settle w.nextTag).enqueue .retry (copy.die .order .rejected)).queues =
      ((w.removeCopy .order n).enqueue .retry (copy.die .order .rejected)).queues := by
    simp only [World.enqueue, World.settle, h.queues]
  have hload := h.load_removed hcopy
  have hsame : (w'.settle w.nextTag).load = w'.load := load_congr rfl
  rw [hreject]
  refine h.progress hp hcopy ?_ hclosed ⟨rfl, rfl, rfl, rfl⟩ (fun m hm => ?_) (.inl ?_)
  · rw [load_enqueue, hsame]
    simp only [World.copyLoad, World.orderLoad, getRetryCount_rejected] at hload ⊢
    omega
  · exact hm.enqueue.congr hrest (hclosed.trans hunacked.symm)
  · exact waits_enqueue (c := copy.die .order .rejected) (by decide)

end Held

section Listeners
variable {w w' : World} {n : ℕ} {copy : Copy}

theorem finishes_manualContainer {l : Handler Unit} {Q : World → Prop} (tag : ℕ)
    (h : Finishes l (fun r w' => r = .ok () ∧ Q w') w) :
    Finishes (manualContainer tag l) (fun _ w' => Q w') w := by
  refine Program.Completes.tryCatch (h.mono ?_)
  rintro _ w' ⟨rfl, hQ⟩
  exact hQ

theorem finishes_time {g : ℤ → Handler Unit} {Q : Except Exn Unit → World → Prop}
    (h : Finishes (g w.clock) Q w) : Finishes (currentTimeMillis >>= g) Q w :=
  Program.Completes.perform_bind (by rw [exec_performs]; rfl) h

theorem finishes_ack {Q : Except Exn Unit → World → Prop} {tag : ℕ}
    (h : Q (.ok ()) (w.settle tag)) : Finishes (perform (Cmd.basicAck tag)) Q w :=
  Program.Completes.perform (by rw [exec_performs]; rfl) h

/-- What ends a copy whose order is in the table, or clashes with a row. -/
theorem finishes_removed {q : QueueName} (hheld : Held w q n copy w') (hp : Provenance w)
    (hcopy : (w.queues q)[n]? = some copy) (hunacked : w.unacked = []) (hq : q ≠ .parking)
    (hrow : ∃ row ∈ w'.db.orders.rows, copy.message.order.Clashes row) :
    Finishes (consumeDuplicate copy.message w.nextTag)
      (fun r w' => r = .ok () ∧ Progress w w') w' := by
  refine finishes_records (removePending_records _ _) fun _ w₁ hnoted => finishes_ack ⟨rfl, ?_⟩
  exact (hheld.noted hnoted).acked hp hcopy hunacked hq (.inl (hnoted.db ▸ hrow))

theorem sendToFailedQueue_finishes {m : Message} {Q : Except Exn Unit → World → Prop}
    (h : Q (.ok ()) (w.forward m .stored)) :
    Finishes (sendToFailedQueueAndWaitForConfirm m) Q w := by
  refine Program.Completes.perform_bind (by rw [exec_performs]; rfl) ?_
  refine Program.Completes.perform_bind (a := some ⟨true, "", none⟩)
    (by rw [exec_performs]; rfl) ?_
  exact h

theorem consumeFailure_finishes (hheld : Held w .order n copy w') (hp : Provenance w)
    (hcopy : (w.queues .order)[n]? = some copy) (hunacked : w.unacked = []) :
    Finishes (consumeFailure copy.message copy.xDeath w.nextTag)
      (fun r w' => r = .ok () ∧ Progress w w') w' := by
  unfold consumeFailure
  split_ifs with hcount
  · refine Program.Completes.tryCatch (Program.Completes.bind (sendToFailedQueue_finishes ?_))
    exact finishes_ack ⟨rfl, hheld.forwarded hp hcopy hunacked⟩
  · refine Program.Completes.perform (by rw [exec_performs]; rfl) ⟨rfl, ?_⟩
    exact hheld.rejected hp hcopy hunacked (Nat.lt_of_not_ge hcount)

theorem Held.commit {q : QueueName} (h : Held w q n copy w') (order : VoucherOrder) :
    Held w q n copy (w'.commit order).2 :=
  ⟨h.queues, h.unacked, h.accepted, List.Subset.trans h.rows (w'.rows_subset_commit order),
    h.reservation, h.others⟩

theorem consumeOrder_finishes (hp : Provenance w) (hcopy : (w.queues .order)[n]? = some copy)
    (hunacked : w.unacked = []) :
    Finishes (consumeOrder copy.message w.nextTag)
      (fun r w' => match r with
        | .ok _ => Progress w w'
        | .error e => Held w .order n copy w' ∧
          (e.kind = .duplicateKey → ∃ row ∈ w'.db.orders.rows, copy.message.order.Clashes row))
      (w.deliver .order n copy) := by
  refine finishes_time (finishes_records (markConsuming_records _ _ _) fun _ w₁ hnoted => ?_)
  have hheld := (held_deliver hunacked).noted hnoted
  rcases w₁.commit_cases copy.message.order with
    ⟨db₁, db₂, hsave, hstock, hc⟩ | ⟨hclash, hc⟩ | ⟨-, hc⟩
  · have hheld' := hheld.commit copy.message.order
    rw [hc] at hheld'
    refine Program.Completes.perform_bind (by rw [exec_performs, World.answer, hc]) ?_
    refine finishes_time (finishes_records (removePendingAt_records _ _ _) fun _ w₂ hnoted => ?_)
    refine finishes_ack ((hheld'.noted hnoted).acked hp hcopy hunacked (by decide) (.inl ?_))
    refine ⟨copy.message.order, ?_, .inl rfl⟩
    rw [hnoted.db, show db₂.orders = db₁.orders from (Database.decrementStock_eq_some hstock).2.1,
      (Database.save_eq_some hsave).2.1]
    exact List.mem_cons_self
  · exact Program.Completes.perform_throws (by rw [exec_performs, World.answer, hc])
      ⟨hheld, fun _ => hclash⟩
  · refine Program.Completes.perform_throws (by rw [exec_performs, World.answer, hc])
      ⟨hheld, fun hkind => ?_⟩
    cases hkind

/-- The consumer of the order queue deals with its delivery. -/
theorem listenVoucherOrder_finishes (hp : Provenance w)
    (hcopy : (w.queues .order)[n]? = some copy) (hunacked : w.unacked = []) :
    Finishes (manualContainer w.nextTag (listenVoucherOrder copy.message copy.xDeath w.nextTag))
      (fun _ w' => Progress w w') (w.deliver .order n copy) := by
  refine finishes_manualContainer _ (Program.Completes.tryCatch
    ((consumeOrder_finishes hp hcopy hunacked).mono ?_))
  intro r w' hr
  cases r with
  | ok u => exact ⟨rfl, hr⟩
  | error e =>
    obtain ⟨hheld, hclash⟩ := hr
    by_cases hkind : e.kind = .duplicateKey
    · simp only [if_pos hkind]
      exact finishes_removed hheld hp hcopy hunacked (by decide) (hclash hkind)
    · simp only [if_neg hkind]
      exact consumeFailure_finishes hheld hp hcopy hunacked

/-- The restore script counts, and the user does not hold the order afterwards. -/
theorem restore_answers {m : Message} (hcount : w.Countable) (hp : Provenance w)
    (hm : m ∈ w.accepted) : ∃ i k, seckillRestoreLua m.userId m.orderId (w.redis m.voucherId) =
      some (i, k) := by
  obtain ⟨hnonneg, htotal⟩ := hcount m.voucherId
  unfold seckillRestoreLua
  split_ifs with hown hlegacy
  · have hmem : m.userId ∈ (w.redis m.voucherId).reservation.keys :=
      AList.mem_keys.mp (AList.lookup_isSome.mp (by rw [hown]; rfl))
    have hpos := List.length_pos_of_mem hmem
    have hfits : incrBy (w.redis m.voucherId).stock 1 =
        some ((w.redis m.voucherId).stockValue + 1) := by
      simp only [VoucherKeys.total, VoucherKeys.reserved] at htotal
      simp only [VoucherKeys.stockValue] at hnonneg htotal ⊢
      rw [incrBy, if_pos (by omega)]
    rw [hfits]
    exact ⟨_, _, rfl⟩
  · exact absurd hlegacy.2 ((hp.keys _).legacy m hm rfl)
  · exact ⟨_, _, rfl⟩

/-- The keys after `markFailed`. -/
def failedKeys (w : World) (v o : Long) (reason : Option String) : VoucherKeys :=
  let k := ((w.redis v).zremPending o).zaddFailed o w.clock
  let k := (k.hset o .status (.status .failed)).hset o .lastError (.text (safe reason))
  (k.hset o .failedTime (.number w.clock)).expire o (w.redisNow + dataTtlMillis)

theorem setRedis_setRedis (v : Long) (k k' : VoucherKeys) :
    (w.setRedis v k).setRedis v k' = w.setRedis v k' := by
  simp [World.setRedis]

theorem hget_failedKeys (v o : Long) (reason : Option String) :
    (failedKeys w v o reason).hget o .status = some (.status .failed) := by
  simp [failedKeys, VoucherKeys.hget_hset]

theorem reservation_failedKeys (v o : Long) (reason : Option String) :
    (failedKeys w v o reason).reservation = (w.redis v).reservation := rfl

theorem noted_failedKeys (v o : Long) (reason : Option String) :
    Noted v o w (w.setRedis v (failedKeys w v o reason)) := by
  refine noted_setRedis rfl fun o' ho => ?_
  simp [failedKeys, VoucherKeys.hget_hset, ho]

theorem markFailed_finishes {v o : Long} {reason : Option String} {g : Unit → Handler Unit}
    {Q : Except Exn Unit → World → Prop}
    (hrest : Finishes (g ()) Q (w.setRedis v (failedKeys w v o reason))) :
    Finishes (markFailed v o reason >>= g) Q w := by
  refine Program.Completes.bind (finishes_time ?_)
  refine Program.Completes.perform_bind (by rw [exec_performs]; rfl) ?_
  refine Program.Completes.perform_bind (by rw [exec_performs]; rfl) ?_
  refine Program.Completes.perform_bind (by rw [exec_performs]; rfl) ?_
  refine Program.Completes.perform_bind (by rw [exec_performs]; rfl) ?_
  refine Program.Completes.perform_bind (by rw [exec_performs]; rfl) ?_
  refine Program.Completes.perform (by rw [exec_performs]; rfl) ?_
  simp only [setRedis_setRedis]
  simpa [failedKeys, RedisCmd.run, World.setRedis, World.redisNow] using hrest

theorem Held.restore {q : QueueName} (h : Held w q n copy w') {u o v : Long} {i : ℤ}
    {k : VoucherKeys} (hrestore : seckillRestoreLua u o (w'.redis v) = some (i, k)) :
    Held w q n copy (w'.setRedis v k) := by
  have hrun : (RedisCmd.run 0 (w'.redis v) (.restore u o)).2 = k := by
    simp only [RedisCmd.run, hrestore]
  refine ⟨h.queues, h.unacked, h.accepted, h.rows, fun v' u' o' hlookup => ?_, fun v' o' hne => ?_⟩
  · refine h.reservation v' u' o' ?_
    by_cases hv : v' = v
    · subst hv
      simp only [World.setRedis, Function.update_self, ← hrun] at hlookup
      exact reservation_run hlookup
    · simpa [World.setRedis, hv] using hlookup
  · rw [← h.others v' o' hne]
    by_cases hv : v' = v
    · subst hv
      simpa [World.setRedis] using hget_restore hrestore
    · simp [World.setRedis, hv]

theorem listenFailedOrder_finishes (hp : Provenance w) (hcount : w.Countable)
    (hcopy : (w.queues .failed)[n]? = some copy) (hunacked : w.unacked = []) :
    Finishes (listenFailedOrder copy.message w.nextTag) (fun r w' => r = .ok () ∧ Progress w w')
      (w.deliver .failed n copy) := by
  have hheld : Held w .failed n copy (w.deliver .failed n copy) := held_deliver hunacked
  have hm : copy.message ∈ w.accepted :=
    hp.copies .failed _ (.inl ⟨.failed, rfl, copy, List.mem_of_getElem? hcopy, rfl⟩)
  refine Program.Completes.perform_bind (by rw [exec_performs]; rfl) ?_
  by_cases hrow : ((w.deliver .failed n copy).db.row copy.message.orderId).isSome
  · obtain ⟨row, hrow'⟩ := Option.isSome_iff_exists.mp hrow
    obtain ⟨hmem, hid⟩ := Database.persisted_of_row hrow'
    rw [if_pos hrow]
    exact finishes_removed hheld hp hcopy hunacked (by decide) ⟨row, hmem, .inl hid.symm⟩
  · rw [if_neg hrow]
    obtain ⟨i, k, hrestore⟩ := restore_answers hcount hp hm
    have hanswer : (w.deliver .failed n copy).answer
        (.redis copy.message.voucherId (.restore copy.message.userId copy.message.orderId)) =
          some (.ok (some i), (w.deliver .failed n copy).setRedis copy.message.voucherId k) := by
      have hredis : (w.deliver .failed n copy).redis = w.redis := rfl
      simp only [World.answer, RedisCmd.run, hredis, hrestore]
    refine Program.Completes.perform_bind (by rw [exec_performs, hanswer]) ?_
    refine markFailed_finishes (finishes_ack ⟨rfl, ?_⟩)
    refine ((hheld.restore hrestore).noted (noted_failedKeys _ _ _)).acked hp hcopy hunacked
      (by decide) (.inr ⟨?_, ?_⟩)
    · simp only [World.setRedis, Function.update_self]
      exact hget_failedKeys _ _ _
    · intro hlookup
      refine seckillRestoreLua_releases hrestore ?_
      simpa only [World.setRedis, Function.update_self, reservation_failedKeys] using hlookup

/-- The consumer of the failed orders deals with its delivery at the first attempt. -/
theorem listenFailedOrderRetrying_finishes (hp : Provenance w) (hcount : w.Countable)
    (hcopy : (w.queues .failed)[n]? = some copy) (hunacked : w.unacked = []) :
    Finishes (manualContainer w.nextTag (listenFailedOrderRetrying copy.message w.nextTag))
      (fun _ w' => Progress w w') (w.deliver .failed n copy) := by
  refine finishes_manualContainer _ (Program.Completes.tryCatch
    ((listenFailedOrder_finishes hp hcount hcopy hunacked).mono ?_))
  rintro _ w' ⟨rfl, hprogress⟩
  exact ⟨rfl, hprogress⟩

end Listeners

/-- A copy whose time in the retry queue is over goes back to the order queue. -/
theorem expireRetry_progress {w : World} {n : ℕ} {copy : Copy}
    (hcopy : (w.queues .retry)[n]? = some copy) (hunacked : w.unacked = []) :
    Progress w (w.expireRetry n copy) where
  lighter := by
    have hload := load_removeCopy hcopy
    rw [World.expireRetry, load_enqueue]
    simp only [World.copyLoad, World.orderLoad, getRetryCount_expired] at hload ⊢
    omega
  unacked := hunacked
  accepted := rfl
  accounted m _ hw := by
    refine hw.imp (fun hwaits => ?_) id
    rcases hwaits.removeCopy hcopy with rfl | hrest
    · exact waits_enqueue (c := copy.die .retry .expired) (by decide)
    · exact hrest.enqueue

end HmDianPing.Seckill
