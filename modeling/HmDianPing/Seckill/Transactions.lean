import HmDianPing.Interleaving.Machine
import HmDianPing.Seckill.Database
import Mathlib.Tactic.Linarith

/-! # Interleaved transactions of `createVouchOrder`

The server keeps the committed tables and, for each open transaction, the writes
it has made. A statement waits while another transaction holds the row or the
index entry it needs. Any statement, and the commit itself, may fail, and a
connection may be lost at any point.
-/
namespace HmDianPing.Seckill
open Interleaving Interleaving.Program

inductive Write where
  | insert (order : VoucherOrder)
  | decrement (voucherId : Long)
deriving DecidableEq

/-- Two writes that need the same row or index entry. -/
def Write.Locks : Write → Write → Prop
  | .insert a, .insert b => a.Clashes b
  | .decrement v, .decrement w => v = w
  | _, _ => False

instance (a b : Write) : Decidable (a.Locks b) := by
  cases a <;> cases b <;> unfold Write.Locks <;> infer_instance

def Database.write (db : Database) : Write → Option Database
  | .insert order => db.save order
  | .decrement voucherId => db.decrementStock voucherId

def Database.writeAll (db : Database) (log : List Write) : Database :=
  log.foldl (fun db w => (db.write w).getD db) db

/-- The committed tables and the writes of each open transaction. -/
structure Server where
  committed : Database
  logs : Hash ℕ (List Write)
  nextTx : ℕ

namespace Server

def Waits (s : Server) (tx : ℕ) (w : Write) : Prop :=
  ∃ e ∈ s.logs.entries, e.1 ≠ tx ∧ ∃ w' ∈ e.2, w.Locks w'

instance (s : Server) (tx : ℕ) (w : Write) : Decidable (s.Waits tx w) :=
  inferInstanceAs (Decidable (∃ e ∈ s.logs.entries, _))

/-- One write of an open transaction and whether it took effect; none while it waits. -/
def write (s : Server) (tx : ℕ) (w : Write) : Option (Bool × Server) :=
  match s.logs.lookup tx with
  | none => none
  | some log =>
    if s.Waits tx w then none
    else if ((s.committed.writeAll log).write w).isSome then
      some (true, { s with logs := s.logs.insert tx (log ++ [w]) })
    else some (false, s)

def commit (s : Server) (tx : ℕ) : Option Server :=
  (s.logs.lookup tx).map fun log =>
    { s with committed := s.committed.writeAll log, logs := s.logs.erase tx }

def abandon (s : Server) (tx : ℕ) : Server := { s with logs := s.logs.erase tx }

end Server

/-- What the proxy and the method body send over one connection. -/
inductive TxCmd where
  | start (tx : ℕ)
  | statement (tx : ℕ) (s : Statement)
  | commit (tx : ℕ)
  | rollback (tx : ℕ)

abbrev TxCmd.Reply : TxCmd → Type
  | .statement _ s => s.Reply
  | _ => Unit

/-- How one call goes: as the tables have it, no row written, failed, or done with the reply lost. -/
inductive TxChoice where
  | performed (now : ℤ)
  | noRow
  | fails (e : Exn)
  | failsAfter (e : Exn)

def Server.statement (s : Server) (tx : ℕ) (now : ℤ) :
    (stmt : Statement) → Option (Except Exn stmt.Reply × Server)
  | .save order => (s.write tx (.insert order)).map fun p =>
      (if p.1 then .ok true else .error (duplicateKeyException order), p.2)
  | .decrementStock voucherId => (s.write tx (.decrement voucherId)).map fun p => (.ok p.1, p.2)
  | .currentTimeMillis => some (.ok now, s)
  | .publishEvent _ => some (.ok (), s)

def Server.exec : (c : TxCmd) → TxChoice → Server → Option (Except Exn c.Reply × Server)
  | .start tx, .performed _, s =>
    if tx ∈ s.logs then none else some (.ok (), { s with logs := s.logs.insert tx [] })
  | .start _, .fails e, s => some (.error e, s)
  | .statement tx stmt, .performed now, s => s.statement tx now stmt
  | .statement _ (.save _), .noRow, s => some (.ok false, s)
  | .statement _ _, .fails e, s => some (.error e, s)
  | .statement tx stmt, .failsAfter e, s =>
    (s.statement tx 0 stmt).map fun p => (.error e, p.2)
  | .commit tx, .performed _, s => (s.commit tx).map fun s' => (.ok (), s')
  | .commit tx, .fails e, s => some (.error e, s.abandon tx)
  | .commit tx, .failsAfter e, s => (s.commit tx).map fun s' => (.error e, s')
  | .rollback tx, .performed _, s => some (.ok (), s.abandon tx)
  | .rollback tx, .fails e, s => some (.error e, s.abandon tx)
  | _, _, _ => none

/-- What the transactional proxy does around a method body. -/
def transactional (tx : ℕ) (body : SqlProgram Unit) :
    Program TxCmd TxCmd.Reply Exn Unit := do
  perform (TxCmd.start tx)
  try
    lift (TxCmd.statement tx) body
  catch e =>
    perform (TxCmd.rollback tx)
    throw e
  perform (TxCmd.commit tx)

/-- A transaction is started for one delivered order. -/
structure TxTag where
  tx : ℕ
  order : VoucherOrder

inductive TxAction where
  | deliver (order : VoucherOrder)
  | disconnect (tx : ℕ)

def Server.act : TxAction → Server →
    Option (Server × List (Thread TxCmd TxCmd.Reply Exn TxTag))
  | .deliver order, s => some ({ s with nextTx := s.nextTx + 1 },
      [⟨⟨s.nextTx, order⟩, transactional s.nextTx (createVouchOrder order)⟩])
  | .disconnect tx, s => some (s.abandon tx, [])

def orderTransactions : Machine Server TxCmd TxCmd.Reply Exn TxTag TxChoice TxAction where
  exec := Server.exec
  act := Server.act

abbrev ServerConfig := Config Server TxCmd TxCmd.Reply Exn TxTag

def idleServer (db : Database) : ServerConfig := ⟨⟨db, ∅, 0⟩, []⟩

section Writes
variable {db db' : Database} {w w' : Write}

theorem Database.write_mono (h : db.write w = some db') (hw : (db'.write w').isSome) :
    (db.write w').isSome := by
  rw [Option.isSome_iff_ne_none] at hw ⊢
  cases w' with
  | insert order =>
    simp only [Database.write, ne_eq, Database.save_eq_none, not_exists, not_and] at hw ⊢
    intro row hrow
    refine hw row ?_
    cases w with
    | insert o => rw [(Database.save_eq_some h).2.1]; exact List.mem_cons_of_mem _ hrow
    | decrement v => rwa [(Database.decrementStock_eq_some h).2.1]
  | decrement v =>
    simp only [Database.write, ne_eq, Database.decrementStock_eq_none, not_le] at hw ⊢
    cases w with
    | insert o => rwa [← Database.save_stockOf h]
    | decrement u =>
      rw [Database.decrementStock_stockOf h] at hw
      split at hw <;> omega

theorem Database.write_apart (h : db.write w = some db') (hl : ¬ w'.Locks w)
    (hw : (db.write w').isSome) : (db'.write w').isSome := by
  rw [Option.isSome_iff_ne_none] at hw ⊢
  cases w' with
  | insert order =>
    simp only [Database.write, ne_eq, Database.save_eq_none, not_exists, not_and] at hw ⊢
    intro row hrow
    cases w with
    | insert o =>
      rw [(Database.save_eq_some h).2.1] at hrow
      rcases List.mem_cons.mp hrow with rfl | hrow
      · exact hl
      · exact hw row hrow
    | decrement v => exact hw row (by rwa [(Database.decrementStock_eq_some h).2.1] at hrow)
  | decrement v =>
    simp only [Database.write, ne_eq, Database.decrementStock_eq_none, not_le] at hw ⊢
    cases w with
    | insert o => rwa [Database.save_stockOf h]
    | decrement u =>
      have hne : v ≠ u := hl
      rw [Database.decrementStock_stockOf h, if_neg hne]
      omega

theorem Database.write_of_writeAll {log : List Write} (hw : ((db.writeAll log).write w).isSome) :
    (db.write w).isSome := by
  induction log generalizing db with
  | nil => exact hw
  | cons w' log ih =>
    have h := ih hw
    cases hd : db.write w' with
    | none => simpa [hd] using h
    | some db' => exact Database.write_mono hd (by simpa [hd] using h)

end Writes

/-- The writes of one execution of `createVouchOrder`. -/
def VoucherOrder.writes (order : VoucherOrder) : List Write :=
  [.insert order, .decrement order.voucherId]

theorem Database.writeAll_writes {db : Database} {order : VoucherOrder}
    (h : ∀ w ∈ order.writes, (db.write w).isSome) :
    ∃ db₁ db₂, db.save order = some db₁ ∧ db₁.decrementStock order.voucherId = some db₂ ∧
      db.writeAll order.writes = db₂ := by
  obtain ⟨db₁, h₁⟩ := Option.isSome_iff_exists.mp (h (.insert order) (by simp [VoucherOrder.writes]))
  have h₂ := Database.write_apart h₁ (by simp [Write.Locks])
    (h (.decrement order.voucherId) (by simp [VoucherOrder.writes]))
  obtain ⟨db₂, h₂⟩ := Option.isSome_iff_exists.mp h₂
  simp only [Database.write] at h₁ h₂
  exact ⟨db₁, db₂, h₁, h₂, by simp [Database.writeAll, VoucherOrder.writes, Database.write, h₁, h₂]⟩

/-- Everything transaction `tx` can do to the server short of a commit. -/
inductive Server.Changes (s : Server) (tx : ℕ) : Server → Prop
  | same : s.Changes tx s
  | start (closed : tx ∉ s.logs) : s.Changes tx { s with logs := s.logs.insert tx [] }
  | write {log : List Write} {w : Write} (opened : s.logs.lookup tx = some log)
      (granted : ¬ s.Waits tx w) (possible : ((s.committed.writeAll log).write w).isSome) :
      s.Changes tx { s with logs := s.logs.insert tx (log ++ [w]) }
  | abandon : s.Changes tx (s.abandon tx)

def TxCmd.tx : TxCmd → ℕ
  | .start tx | .statement tx _ | .commit tx | .rollback tx => tx

section Changes
variable {s s' : Server} {tx : ℕ} {w : Write}

theorem Server.write_cases {b : Bool} (h : s.write tx w = some (b, s')) :
    (b = true ∧ ∃ log, s.logs.lookup tx = some log ∧ ¬ s.Waits tx w ∧
        ((s.committed.writeAll log).write w).isSome ∧
        s' = { s with logs := s.logs.insert tx (log ++ [w]) }) ∨
      (b = false ∧ s' = s) := by
  unfold Server.write at h
  split at h
  · cases h
  · next log hlog =>
    split at h
    · cases h
    · next hwait =>
      split at h
      · next hw => cases h; exact .inl ⟨rfl, log, hlog, hwait, hw, rfl⟩
      · cases h; exact .inr ⟨rfl, rfl⟩

theorem Server.Changes.of_write {b : Bool} (h : s.write tx w = some (b, s')) :
    s.Changes tx s' := by
  rcases Server.write_cases h with ⟨-, log, hlog, hwait, hw, rfl⟩ | ⟨-, rfl⟩
  · exact .write hlog hwait hw
  · exact .same

theorem Server.Changes.of_statement {now : ℤ} {stmt : Statement} {r : Except Exn stmt.Reply}
    (h : s.statement tx now stmt = some (r, s')) : s.Changes tx s' := by
  cases stmt with
  | save order =>
    obtain ⟨⟨b, _⟩, hw, hp⟩ := Option.map_eq_some_iff.mp h
    cases hp; exact .of_write hw
  | decrementStock v =>
    obtain ⟨⟨b, _⟩, hw, hp⟩ := Option.map_eq_some_iff.mp h
    cases hp; exact .of_write hw
  | currentTimeMillis => cases h; exact .same
  | publishEvent e => cases h; exact .same

theorem Server.exec_cases {c : TxCmd} {f : TxChoice} {r : Except Exn c.Reply}
    (h : Server.exec c f s = some (r, s')) :
    s.Changes c.tx s' ∨ ∃ tx, c = .commit tx ∧ s.commit tx = some s' := by
  cases c with
  | start tx =>
    cases f with
    | performed now =>
      simp only [Server.exec, Option.ite_none_left_eq_some, Option.some.injEq] at h
      cases h.2; exact .inl (.start h.1)
    | fails e => cases h; exact .inl .same
    | noRow => cases h
    | failsAfter e => cases h
  | statement tx stmt =>
    cases f with
    | performed now => exact .inl (.of_statement h)
    | noRow =>
      cases stmt with
      | save order => cases h; exact .inl .same
      | _ => cases h
    | fails e => cases stmt <;> (cases h; exact .inl .same)
    | failsAfter e =>
      obtain ⟨p, hp, hs⟩ : ∃ p, s.statement tx 0 stmt = some p ∧ (.error e, p.2) = (r, s') :=
        Option.map_eq_some_iff.mp (by cases stmt <;> exact h)
      cases hs; exact .inl (.of_statement hp)
  | commit tx =>
    cases f with
    | performed now =>
      obtain ⟨_, hs, hp⟩ := Option.map_eq_some_iff.mp h
      cases hp; exact .inr ⟨tx, rfl, hs⟩
    | fails e => cases h; exact .inl .abandon
    | failsAfter e =>
      obtain ⟨_, hs, hp⟩ := Option.map_eq_some_iff.mp h
      cases hp; exact .inr ⟨tx, rfl, hs⟩
    | noRow => cases h
  | rollback tx =>
    cases f with
    | performed now => cases h; exact .inl .abandon
    | fails e => cases h; exact .inl .abandon
    | noRow => cases h
    | failsAfter e => cases h

/-- No transaction touches the log of another. -/
theorem Server.Changes.lookup_ne (h : s.Changes tx s') {tx' : ℕ} (hne : tx' ≠ tx) :
    s'.logs.lookup tx' = s.logs.lookup tx' := by
  cases h with
  | same => rfl
  | start => exact AList.lookup_insert_ne hne
  | write => exact AList.lookup_insert_ne hne
  | abandon => exact AList.lookup_erase_ne hne

theorem Server.Changes.nextTx (h : s.Changes tx s') : s'.nextTx = s.nextTx := by
  cases h <;> rfl

theorem Server.Changes.committed (h : s.Changes tx s') : s'.committed = s.committed := by
  cases h <;> rfl

theorem Server.commit_eq_some (h : s.commit tx = some s') :
    ∃ log, s.logs.lookup tx = some log ∧
      s' = { s with committed := s.committed.writeAll log, logs := s.logs.erase tx } := by
  obtain ⟨log, hlog, rfl⟩ := Option.map_eq_some_iff.mp h
  exact ⟨log, hlog, rfl⟩

end Changes

/-- Which logs the server may hold for the transaction of one thread. -/
structure TxKnowledge where
  tag : TxTag
  logs : Set (List Write)

/-- The possible logs after one more write, which a lost reply leaves open. -/
def TxKnowledge.wrote (κ : TxKnowledge) (w : Write) : Except Exn Bool → TxKnowledge
  | .ok true => { κ with logs := (· ++ [w]) '' κ.logs }
  | .ok false => κ
  | .error _ => { κ with logs := κ.logs ∪ (· ++ [w]) '' κ.logs }

def TxKnowledge.allows (κ : TxKnowledge) : TxCmd → Prop
  | .start tx | .statement tx _ | .rollback tx => tx = κ.tag.tx
  | .commit tx => tx = κ.tag.tx ∧ ∀ log ∈ κ.logs, log = κ.tag.order.writes

def TxKnowledge.learn (κ : TxKnowledge) : (c : TxCmd) → Except Exn c.Reply → TxKnowledge
  | .start _, .ok _ => { κ with logs := {[]} }
  | .start _, .error _ => κ
  | .statement _ (.save order), r => κ.wrote (.insert order) r
  | .statement _ (.decrementStock voucherId), r => κ.wrote (.decrement voucherId) r
  | .statement _ .currentTimeMillis, _ => κ
  | .statement _ (.publishEvent _), _ => κ
  | .commit _, _ => { κ with logs := ∅ }
  | .rollback _, _ => { κ with logs := ∅ }

/-- A thread sends only its own transaction's commands, and commits only the two writes together. -/
def txLogic : Logic TxCmd TxCmd.Reply Exn TxKnowledge :=
  ⟨TxKnowledge.allows, fun _ _ _ => True, TxKnowledge.learn⟩

def TxKnowledge.Holds (s : Server) (tag : TxTag) (κ : TxKnowledge) : Prop :=
  κ.tag = tag ∧ ∀ log, s.logs.lookup tag.tx = some log → log ∈ κ.logs

theorem transactional_safe (tag : TxTag) :
    txLogic.Safe (transactional tag.tx (createVouchOrder tag.order)) ⟨tag, ∅⟩ := by
  simp [Logic.Safe, transactional, createVouchOrder, txLogic, forall_except, TxKnowledge.allows,
    TxKnowledge.learn, TxKnowledge.wrote, Logic.wp_ite, VoucherOrder.writes]

/-- What the locks keep true of the server: all pending writes can be made, in any order. -/
structure Server.Sound (s : Server) : Prop where
  opened : ∀ tx ∈ s.logs, tx < s.nextTx
  writable : ∀ tx log, s.logs.lookup tx = some log → ∀ w ∈ log, (s.committed.write w).isSome
  apart : ∀ tx tx' log log', tx ≠ tx' → s.logs.lookup tx = some log →
    s.logs.lookup tx' = some log' → ∀ w ∈ log, ∀ w' ∈ log', ¬ w.Locks w'

theorem Write.Locks.symm {a b : Write} (h : a.Locks b) : b.Locks a := by
  cases a <;> cases b
  case insert.insert => exact VoucherOrder.Clashes.symm h
  case decrement.decrement => exact Eq.symm h
  all_goals exact h

section Sound
variable {s s' : Server} {tx : ℕ}

theorem Server.Sound.abandon (h : s.Sound) (tx : ℕ) : (s.abandon tx).Sound := by
  have hsub : ∀ {t log}, (s.logs.erase tx).lookup t = some log → s.logs.lookup t = some log := by
    intro t log ht
    by_cases htx : t = tx
    · subst htx; simp at ht
    · rwa [AList.lookup_erase_ne htx] at ht
  exact ⟨fun t ht => h.opened t (AList.mem_erase.mp ht).2,
    fun t log ht => h.writable t log (hsub ht),
    fun t t' log log' hne ht ht' => h.apart t t' log log' hne (hsub ht) (hsub ht')⟩

/-- The log of one transaction, when no other transaction has a lock that it needs. -/
theorem Server.Sound.setLog (h : s.Sound) (htx : tx < s.nextTx) {log : List Write}
    (hwritable : ∀ w ∈ log, (s.committed.write w).isSome)
    (hfree : ∀ t log', t ≠ tx → s.logs.lookup t = some log' → ∀ w ∈ log, ∀ w' ∈ log',
      ¬ w.Locks w') :
    Server.Sound { s with logs := s.logs.insert tx log } := by
  have hlog : ∀ {t log'}, (s.logs.insert tx log).lookup t = some log' →
      (t = tx ∧ log' = log) ∨ (t ≠ tx ∧ s.logs.lookup t = some log') := by
    intro t log' ht
    by_cases htt : t = tx
    · subst htt
      rw [AList.lookup_insert] at ht
      exact .inl ⟨rfl, by simpa using ht.symm⟩
    · rw [AList.lookup_insert_ne htt] at ht
      exact .inr ⟨htt, ht⟩
  refine ⟨?_, ?_, ?_⟩
  · intro t ht
    rcases (AList.mem_insert _).mp ht with rfl | ht
    · exact htx
    · exact h.opened t ht
  · intro t log' ht
    rcases hlog ht with ⟨-, rfl⟩ | ⟨-, ht⟩
    · exact hwritable
    · exact h.writable t log' ht
  · intro t t' log₁ log₂ hne ht ht' w hw w' hw' hl
    rcases hlog ht with ⟨rfl, rfl⟩ | ⟨htt, hs⟩ <;> rcases hlog ht' with ⟨rfl, rfl⟩ | ⟨htt', hs'⟩
    · exact hne rfl
    · exact hfree t' log₂ htt' hs' w hw w' hw' hl
    · exact hfree t log₁ htt hs w' hw' w hw hl.symm
    · exact h.apart _ _ _ _ hne hs hs' w hw w' hw' hl

theorem Server.Sound.changes (h : s.Sound) (hc : s.Changes tx s') (htx : tx < s.nextTx) :
    s'.Sound := by
  cases hc with
  | same => exact h
  | abandon => exact h.abandon _
  | start closed => exact h.setLog htx (by simp) (by simp)
  | @write log₀ w₀ opened granted possible =>
    refine h.setLog htx (fun w hw => ?_) fun t log' hne ht w hw w' hw' hl => ?_
    · rcases List.mem_append.mp hw with hw | hw
      · exact h.writable _ _ opened w hw
      · rw [List.mem_singleton.mp hw]
        exact Database.write_of_writeAll possible
    · rcases List.mem_append.mp hw with hw | hw
      · exact h.apart _ _ _ _ hne.symm opened ht w hw w' hw' hl
      · rw [List.mem_singleton.mp hw] at hl
        exact granted ⟨⟨t, log'⟩, AList.mem_lookup_iff.mp ht, hne, w', hw', hl⟩

theorem Server.Sound.commit (h : s.Sound) {order : VoucherOrder}
    (hlog : s.logs.lookup tx = some order.writes) (hc : s.commit tx = some s') :
    s'.Sound ∧ ∃ db₁ db₂, s.committed.save order = some db₁ ∧
      db₁.decrementStock order.voucherId = some db₂ ∧ s'.committed = db₂ := by
  obtain ⟨log, hlog', rfl⟩ := Server.commit_eq_some hc
  rw [hlog] at hlog'
  cases hlog'
  obtain ⟨db₁, db₂, h₁, h₂, hall⟩ := Database.writeAll_writes (h.writable tx _ hlog)
  have ha := h.abandon tx
  refine ⟨⟨ha.opened, ?_, ha.apart⟩, db₁, db₂, h₁, h₂, hall⟩
  intro t log ht w hw
  have hne : tx ≠ t := fun e => by subst e; simp at ht
  rw [AList.lookup_erase_ne hne.symm] at ht
  have hapart : ∀ w' ∈ order.writes, ¬ w.Locks w' := fun w' hw' hl =>
    h.apart tx t _ _ hne hlog ht w' hw' w hw hl.symm
  have hi : s.committed.write (.insert order) = some db₁ := h₁
  have hd : db₁.write (.decrement order.voucherId) = some db₂ := h₂
  have hw₁ := Database.write_apart hi (hapart _ (by simp [VoucherOrder.writes]))
    (h.writable t log ht w hw)
  change ((s.committed.writeAll order.writes).write w).isSome
  rw [hall]
  exact Database.write_apart hd (hapart _ (by simp [VoucherOrder.writes])) hw₁

end Sound

/-- The invariant of every run: sound locks, one thread for each transaction, and true knowledge. -/
structure Isolated (c : ServerConfig) : Prop where
  server : c.shared.Sound
  distinct : (c.threads.map fun t => t.tag.tx).Nodup
  issued : ∀ t ∈ c.threads, t.tag.tx < c.shared.nextTx
  knows : Machine.Knows txLogic TxKnowledge.Holds c

theorem TxKnowledge.Holds.wrote {s s' : Server} {tag : TxTag} {κ : TxKnowledge} {w : Write} {b : Bool}
    (h : TxKnowledge.Holds s tag κ) (hw : s.write tag.tx w = some (b, s')) :
    TxKnowledge.Holds s' tag (κ.wrote w (.ok b)) ∧
      ∀ e, TxKnowledge.Holds s' tag (κ.wrote w (.error e)) := by
  obtain ⟨rfl, hlogs⟩ := h
  rcases Server.write_cases hw with ⟨rfl, log, hlog, -, -, rfl⟩ | ⟨rfl, rfl⟩
  · refine ⟨⟨rfl, ?_⟩, fun e => ⟨rfl, ?_⟩⟩
    · intro log' h'
      rw [AList.lookup_insert] at h'
      cases h'
      exact ⟨log, hlogs _ hlog, rfl⟩
    · intro log' h'
      rw [AList.lookup_insert] at h'
      cases h'
      exact .inr ⟨log, hlogs _ hlog, rfl⟩
  · exact ⟨⟨rfl, hlogs⟩, fun e => ⟨rfl, fun log hl => .inl (hlogs log hl)⟩⟩

theorem TxKnowledge.Holds.closed {s : Server} {κ : TxKnowledge} (logs : Set (List Write))
    (db : Database) (n : ℕ) :
    TxKnowledge.Holds ⟨db, s.logs.erase κ.tag.tx, n⟩ κ.tag { κ with logs := logs } :=
  ⟨rfl, fun log hl => by simp at hl⟩

/-- Every reply teaches the thread something true. -/
theorem TxKnowledge.Holds.learn {s s' : Server} {tag : TxTag} {κ : TxKnowledge} {cmd : TxCmd}
    {f : TxChoice} {r : Except Exn cmd.Reply} (h : TxKnowledge.Holds s tag κ) (ha : κ.allows cmd)
    (hexec : Server.exec cmd f s = some (r, s')) : TxKnowledge.Holds s' tag (κ.learn cmd r) := by
  have htag := h.1
  subst htag
  cases cmd with
  | start tx =>
    cases f with
    | performed now =>
      simp only [Server.exec, Option.ite_none_left_eq_some, Option.some.injEq] at hexec
      cases ha
      cases hexec.2
      refine ⟨rfl, fun log hl => ?_⟩
      rw [AList.lookup_insert] at hl
      cases hl; rfl
    | fails e => cases hexec; exact h
    | noRow => cases hexec
    | failsAfter e => cases hexec
  | statement tx stmt =>
    cases ha
    cases stmt with
    | save order =>
      cases f with
      | performed now =>
        obtain ⟨⟨b, _⟩, hw, hp⟩ := Option.map_eq_some_iff.mp hexec
        cases hp
        cases b with
        | true => exact (h.wrote hw).1
        | false => exact (h.wrote hw).2 (duplicateKeyException order)
      | noRow => cases hexec; exact h
      | fails e => cases hexec; exact ⟨rfl, fun log hl => .inl (h.2 log hl)⟩
      | failsAfter e =>
        obtain ⟨_, hs, hp⟩ := Option.map_eq_some_iff.mp hexec
        obtain ⟨_, hw, rfl⟩ := Option.map_eq_some_iff.mp hs
        cases hp; exact (h.wrote hw).2 e
    | decrementStock v =>
      cases f with
      | performed now =>
        obtain ⟨_, hw, hp⟩ := Option.map_eq_some_iff.mp hexec
        cases hp; exact (h.wrote hw).1
      | noRow => cases hexec
      | fails e => cases hexec; exact ⟨rfl, fun log hl => .inl (h.2 log hl)⟩
      | failsAfter e =>
        obtain ⟨_, hs, hp⟩ := Option.map_eq_some_iff.mp hexec
        obtain ⟨_, hw, rfl⟩ := Option.map_eq_some_iff.mp hs
        cases hp; exact (h.wrote hw).2 e
    | currentTimeMillis => cases f <;> cases hexec <;> exact h
    | publishEvent event => cases f <;> cases hexec <;> exact h
  | commit tx =>
    cases ha.1
    cases f with
    | performed now =>
      obtain ⟨_, hs, hp⟩ := Option.map_eq_some_iff.mp hexec
      obtain ⟨log, -, rfl⟩ := Server.commit_eq_some hs
      cases hp; exact .closed _ _ _
    | fails e => cases hexec; exact .closed _ _ _
    | failsAfter e =>
      obtain ⟨_, hs, hp⟩ := Option.map_eq_some_iff.mp hexec
      obtain ⟨log, -, rfl⟩ := Server.commit_eq_some hs
      cases hp; exact .closed _ _ _
    | noRow => cases hexec
  | rollback tx =>
    cases ha
    cases f with
    | performed now => cases hexec; exact .closed _ _ _
    | fails e => cases hexec; exact .closed _ _ _
    | noRow => cases hexec
    | failsAfter e => cases hexec

/-- What one command can do to the committed tables: nothing, or the whole of `createVouchOrder`. -/
def Server.Commits (db db' : Database) (order : VoucherOrder) : Prop :=
  ∃ db₁, db.save order = some db₁ ∧ db₁.decrementStock order.voucherId = some db'

theorem TxCmd.tx_of_allows {κ : TxKnowledge} {cmd : TxCmd} (h : κ.allows cmd) :
    cmd.tx = κ.tag.tx := by
  cases cmd with
  | start | statement | rollback => exact h
  | commit => exact h.1

theorem Isolated.run {c : ServerConfig} (h : Isolated c) {i : ℕ} {f : TxChoice} {tag : TxTag}
    {cmd : TxCmd} {k : Except Exn cmd.Reply → Program TxCmd TxCmd.Reply Exn Unit}
    {r : Except Exn cmd.Reply} {s : Server} (hi : c.threads[i]? = some ⟨tag, .call cmd k⟩)
    (hexec : Server.exec cmd f c.shared = some (r, s)) :
    Isolated ⟨s, c.threads.set i ⟨tag, k r⟩⟩ ∧
      (s.committed = c.shared.committed ∨ Server.Commits c.shared.committed s.committed tag.order) := by
  obtain ⟨κ, ⟨rfl, hlogs⟩, ha, -⟩ := h.knows.thread hi
  have htx := TxCmd.tx_of_allows ha
  have hi' := List.mem_of_getElem? hi
  have htags := (Machine.map_tag_set TxTag.tx hi : ((c.threads.set i ⟨κ.tag, k r⟩).map _) = _)
  have hsound : s.Sound ∧ s.nextTx = c.shared.nextTx ∧
      (∀ tx ≠ κ.tag.tx, s.logs.lookup tx = c.shared.logs.lookup tx) ∧
      (s.committed = c.shared.committed ∨
        Server.Commits c.shared.committed s.committed κ.tag.order) := by
    rcases Server.exec_cases hexec with hc | ⟨tx, rfl, hc⟩
    · rw [htx] at hc
      exact ⟨h.server.changes hc (h.issued _ hi'), hc.nextTx, fun tx => hc.lookup_ne,
        .inl hc.committed⟩
    · obtain ⟨rfl, hown⟩ := ha
      obtain ⟨log, hlog, hs⟩ := Server.commit_eq_some hc
      rw [hown log (hlogs log hlog)] at hlog
      obtain ⟨hsound, db₁, db₂, h₁, h₂, h₃⟩ := h.server.commit hlog hc
      refine ⟨hsound, by rw [hs], fun tx hne => ?_, .inr ⟨db₁, h₁, h₃ ▸ h₂⟩⟩
      rw [hs]
      exact AList.lookup_erase_ne hne
  obtain ⟨hsound, hnext, hframe, hcommitted⟩ := hsound
  refine ⟨⟨hsound, htags ▸ h.distinct, ?_, ?_⟩, hcommitted⟩
  · intro t ht
    rw [hnext]
    rcases Machine.mem_set_thread ht with rfl | ⟨j, -, hj⟩
    · exact h.issued ⟨_, .call cmd k⟩ hi'
    · exact h.issued t (List.mem_of_getElem? hj)
  · refine h.knows.run hi ?_ fun κ' hκ' ha' => ⟨trivial, hκ'.learn ha' hexec⟩
    intro j t hji hj κ' hκ'
    have hne : t.tag.tx ≠ κ.tag.tx := Machine.tag_ne_of_nodup h.distinct hi hj hji
    exact ⟨hκ'.1, fun log hl => hκ'.2 log (by rwa [hframe _ hne] at hl)⟩

theorem Isolated.step {c c' : ServerConfig} {m : Move TxChoice TxAction} (h : Isolated c)
    (hf : orderTransactions.Fires c m c') : Isolated c' := by
  cases hf with
  | run thread exec => exact (h.run thread exec).1
  | crash bound =>
    have hsub := List.eraseIdx_sublist c.threads
    exact ⟨h.server, h.distinct.sublist ((hsub _).map _),
      fun t ht => h.issued t (List.mem_of_mem_eraseIdx ht), h.knows.crash _⟩
  | @act a s started act =>
    cases a with
    | deliver order =>
      cases act
      have hlt : ∀ t ∈ c.threads, t.tag.tx < c.shared.nextTx := h.issued
      refine ⟨⟨fun tx htx => Nat.lt_succ_of_lt (h.server.opened tx htx), h.server.writable,
        h.server.apart⟩, ?_, ?_, ?_⟩
      · simp only [List.map_append, List.map_cons, List.map_nil]
        refine List.nodup_append.mpr ⟨h.distinct, List.nodup_singleton _, ?_⟩
        intro tx htx tx' htx' heq
        obtain ⟨t, ht, rfl⟩ := List.mem_map.mp htx
        rw [List.mem_singleton.mp htx'] at heq
        exact absurd (hlt t ht) (by omega)
      · intro t ht
        rcases List.mem_append.mp ht with ht | ht
        · exact Nat.lt_succ_of_lt (hlt t ht)
        · rw [List.mem_singleton.mp ht]; exact Nat.lt_succ_self _
      · refine h.knows.act (fun _ _ hκ => hκ) fun t ht => ?_
        rw [List.mem_singleton.mp ht]
        refine ⟨⟨⟨c.shared.nextTx, order⟩, ∅⟩, ⟨rfl, fun log hl => ?_⟩, transactional_safe _⟩
        have := h.server.opened c.shared.nextTx (AList.lookup_isSome.mp (by rw [hl]; rfl))
        omega
    | disconnect tx =>
      cases act
      refine ⟨h.server.abandon tx, by simpa using h.distinct,
        fun t ht => h.issued t (by simpa using ht), h.knows.act ?_ (by simp)⟩
      rintro tag κ ⟨hκ, hl⟩
      refine ⟨hκ, fun log hlog => hl log ?_⟩
      by_cases he : tag.tx = tx
      · subst he; simp [Server.abandon] at hlog
      · rwa [Server.abandon, AList.lookup_erase_ne he] at hlog

theorem isolated_idle (db : Database) : Isolated (idleServer db) := by
  refine ⟨⟨?_, ?_, ?_⟩, List.nodup_nil, ?_, ?_⟩ <;> simp [idleServer, Machine.Knows]

section Commits
variable {db db' : Database} {order : VoucherOrder}

theorem Server.Commits.sum (h : Server.Commits db db' order) (v : Long) :
    (db'.ordersOf v : ℤ) + db'.stockOf v = db.ordersOf v + db.stockOf v := by
  obtain ⟨db₁, h₁, h₂⟩ := h
  rw [Database.decrementStock_ordersOf h₂, Database.decrementStock_stockOf h₂,
    Database.save_ordersOf h₁, Database.save_stockOf h₁]
  by_cases hv : v = order.voucherId
  · subst hv; simp
  · simp [hv, Ne.symm hv]

theorem Server.Commits.nonneg (h : Server.Commits db db' order) {v : Long} (hv : 0 ≤ db.stockOf v) :
    0 ≤ db'.stockOf v := by
  obtain ⟨db₁, h₁, h₂⟩ := h
  have hpos := (Database.decrementStock_eq_some h₂).1
  rw [Database.decrementStock_stockOf h₂]
  rw [← Database.save_stockOf h₁] at hv
  split
  · next he => subst he; omega
  · omega

theorem Server.Commits.rows (h : Server.Commits db db' order) :
    db'.orders.rows = order :: db.orders.rows ∧ db.orders.Free order := by
  obtain ⟨db₁, h₁, h₂⟩ := h
  rw [(Database.decrementStock_eq_some h₂).2.1]
  exact ⟨(Database.save_eq_some h₁).2.1, (Database.save_eq_some h₁).1⟩

theorem Server.Commits.transact (h : Server.Commits db db' order) (now : ℤ) :
    transact now (createVouchOrder order) db = (.ok (), db') := by
  obtain ⟨db₁, h₁, h₂⟩ := h
  rcases transact_createVouchOrder now order db with
    ⟨e₁, e₂, h₁', h₂', ht⟩ | ⟨hclash, -⟩ | ⟨hstock, -⟩
  · rw [h₁] at h₁'
    cases h₁'
    rw [h₂] at h₂'
    cases h₂'
    exact ht
  · rw [Database.save_eq_none.mpr hclash] at h₁
    cases h₁
  · have hpos := (Database.decrementStock_eq_some h₂).1
    rw [Database.save_stockOf h₁] at hpos
    omega

end Commits

/-- What any step does to the committed tables. -/
theorem Isolated.committed {c c' : ServerConfig} {m : Move TxChoice TxAction} (h : Isolated c)
    (hf : orderTransactions.Fires c m c') :
    c'.shared.committed = c.shared.committed ∨ ∃ i f t, m = .run i f ∧ c.threads[i]? = some t ∧
      Server.Commits c.shared.committed c'.shared.committed t.tag.order := by
  cases hf with
  | run thread exec => exact (h.run thread exec).2.imp id fun hc => ⟨_, _, _, rfl, thread, hc⟩
  | crash => exact .inl rfl
  | @act a s started act => cases a <;> (cases act; exact .inl rfl)

structure SellsFrom (db : Database) (c : ServerConfig) : Prop where
  isolated : Isolated c
  sum : ∀ v, (c.shared.committed.ordersOf v : ℤ) + c.shared.committed.stockOf v =
    db.ordersOf v + db.stockOf v
  nonneg : ∀ v, 0 ≤ db.stockOf v → 0 ≤ c.shared.committed.stockOf v
  kept : db.orders.rows ⊆ c.shared.committed.orders.rows

theorem SellsFrom.step {db : Database} {c c' : ServerConfig} {m : Move TxChoice TxAction}
    (h : SellsFrom db c) (hf : orderTransactions.Fires c m c') : SellsFrom db c' := by
  rcases h.isolated.committed hf with he | ⟨i, f, t, -, -, hc⟩
  · exact ⟨h.isolated.step hf, he ▸ h.sum, he ▸ h.nonneg, he ▸ h.kept⟩
  · refine ⟨h.isolated.step hf, fun v => (hc.sum v).trans (h.sum v),
      fun v hv => hc.nonneg (h.nonneg v hv), ?_⟩
    rw [hc.rows.1]
    exact List.subset_cons_of_subset _ h.kept

theorem SellsFrom.run {c c' : ServerConfig} (h : Isolated c)
    (hr : orderTransactions.Run (fun _ _ => True) c c') : SellsFrom c.shared.committed c' :=
  hr.invariant ⟨h, fun _ => rfl, fun _ => id, List.Subset.refl _⟩ fun _ _ _ hi _ hf => hi.step hf

/-- No interleaving of transactions with failures, rollbacks and repeated deliveries oversells:
rows plus stock stay constant, stock stays nonnegative, both keys stay unique, and handling a
message whose row already exists changes neither table. -/
theorem createVouchOrder_never_oversells (db : Database) (c : ServerConfig)
    (hrun : orderTransactions.Run (fun _ _ => True) (idleServer db) c) :
    (∀ v, (c.shared.committed.ordersOf v : ℤ) + c.shared.committed.stockOf v =
        db.ordersOf v + db.stockOf v) ∧
      (∀ v, 0 ≤ db.stockOf v → 0 ≤ c.shared.committed.stockOf v) ∧
      (c.shared.committed.orders.rows.Pairwise fun a b =>
        a.id ≠ b.id ∧ (a.userId, a.voucherId) ≠ (b.userId, b.voucherId)) ∧
      ∀ c₁ i f c₂ t, orderTransactions.Run (fun _ _ => True) c c₁ →
        orderTransactions.step c₁ (.run i f) = some c₂ → c₁.threads[i]? = some t →
        (∃ row ∈ c.shared.committed.orders.rows, t.tag.order.Clashes row) →
        c₂.shared.committed = c₁.shared.committed := by
  have h := SellsFrom.run (isolated_idle db) hrun
  refine ⟨h.sum, h.nonneg, ?_, ?_⟩
  · refine c.shared.committed.orders.unique.imp fun {a b} hab => ?_
    simpa [VoucherOrder.Clashes] using hab
  · rintro c₁ i f c₂ t hrun₁ hstep ht ⟨row, hrow, hclash⟩
    have h₁ := SellsFrom.run h.isolated hrun₁
    rcases h₁.isolated.committed (Machine.fires_of_step hstep) with he | ⟨j, g, t', hm, ht', hc⟩
    · exact he
    · cases hm
      cases ht.symm.trans ht'
      exact absurd hclash (hc.rows.2 row (h₁.kept hrow))

/-- Order 100 is delivered twice and order 101 loses its connection between its two writes. -/
def redelivery : Option ServerConfig :=
  orderTransactions.play (fun _ _ => true) (idleServer twoLeft) <|
    [.act (.deliver ⟨100, 7, 1⟩), .act (.deliver ⟨101, 8, 1⟩), .act (.deliver ⟨100, 7, 1⟩)] ++
    [.run 1 (.performed 0), .run 1 (.performed 0), .act (.disconnect 1)] ++
    List.replicate 6 (.run 0 (.performed 0)) ++ List.replicate 3 (.run 2 (.performed 0))

theorem createVouchOrder_never_oversells_redelivery :
    ((redelivery.get (by decide +kernel)).shared.committed.ordersOf 1 : ℤ) +
      (redelivery.get (by decide +kernel)).shared.committed.stockOf 1 = 2 :=
  (createVouchOrder_never_oversells twoLeft _
    (Machine.run_of_play_isSome (fun _ _ _ => trivial) _)).1 1

end HmDianPing.Seckill
