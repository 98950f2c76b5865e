import Mathlib.Logic.Function.Basic
import Mathlib.Data.List.Basic
import Mathlib.Algebra.Ring.Int.Defs

/-! # The header of dead-lettered messages

`x-death` has one entry for each queue and reason. At every dead-lettering the broker
counts the entry up, or begins one, and puts it at the front of the list.
-/
namespace HmDianPing.Amqp

/-- A value in a field table, as a client library hands it over. -/
inductive FieldValue where
  | string (s : String)
  | number (longValue : ℤ)
  /-- Anything else, by what `toString` makes of it. -/
  | other (text : String)
deriving DecidableEq, Repr

abbrev FieldTable := String → Option FieldValue

/-- The header; it can be missing, and need not be a list. -/
inductive DeathHeader where
  | absent
  | malformed
  | events (tables : List FieldTable)

def DeathHeader.tables : DeathHeader → List FieldTable
  | .events tables => tables
  | _ => []

/-- One dead-lettering, with the other fields of its entry. -/
structure Death where
  queue : String
  reason : String
  details : FieldTable

def describes (queue reason : String) (t : FieldTable) : Bool :=
  t "queue" = some (.string queue) ∧ t "reason" = some (.string reason)

def countOf (t : FieldTable) : ℤ :=
  match t "count" with
  | some (.number n) => n
  | _ => 0

def withCount (t : FieldTable) (n : ℤ) : FieldTable :=
  Function.update t "count" (some (.number n))

/-- The entry of a first dead-lettering, still without a count. -/
def Death.fresh (d : Death) : FieldTable :=
  Function.update (Function.update d.details "queue" (some (.string d.queue)))
    "reason" (some (.string d.reason))

def Death.entry (d : Death) (tables : List FieldTable) : FieldTable :=
  match tables.find? (describes d.queue d.reason) with
  | some t => withCount t (countOf t + 1)
  | none => withCount d.fresh 1

def valueOf : Option FieldValue → String
  | none => "null"
  | some (.string s) => s
  | some (.number n) => toString n
  | some (.other text) => text

/-- What a reader takes for an entry of this queue and reason is one, with a number. -/
def Legible (queue reason : String) (t : FieldTable) : Prop :=
  valueOf (t "queue") = queue → valueOf (t "reason") = reason →
    describes queue reason t = true ∧ ∃ n, t "count" = some (.number n)

/-- What the broker makes of the header; one that is no list is given up. -/
def DeathHeader.record (h : DeathHeader) (d : Death) : DeathHeader :=
  .events (d.entry h.tables :: h.tables.filter fun t => !describes d.queue d.reason t)

def DeathHeader.deathCount (h : DeathHeader) (queue reason : String) : ℤ :=
  ((h.tables.find? (describes queue reason)).map countOf).getD 0

section Entries
variable {queue reason : String} {t : FieldTable} {tables : List FieldTable} {d : Death} {n : ℤ}

@[simp] theorem describes_withCount :
    describes queue reason (withCount t n) = describes queue reason t := by
  simp [describes, withCount]

@[simp] theorem withCount_withCount {m : ℤ} : withCount (withCount t m) n = withCount t n := by
  simp [withCount]

@[simp] theorem countOf_withCount : countOf (withCount t n) = n := by
  simp [countOf, withCount]

theorem describes_fresh : describes d.queue d.reason d.fresh = true := by
  simp [describes, Death.fresh]

/-- A table is the entry of one queue and one reason only. -/
theorem describes_unique {queue' reason' : String} (h : describes queue reason t = true)
    (h' : describes queue' reason' t = true) : queue = queue' ∧ reason = reason' := by
  simp only [describes, decide_eq_true_eq] at h h'
  rw [h.1, h.2] at h'
  simpa using h'

theorem describes_entry : describes d.queue d.reason (d.entry tables) = true := by
  unfold Death.entry
  split
  next t ht => simpa using List.find?_some ht
  next => simpa using describes_fresh

theorem countOf_entry : countOf (d.entry tables) =
    ((tables.find? (describes d.queue d.reason)).map countOf).getD 0 + 1 := by
  unfold Death.entry
  split
  next t ht => simp [ht]
  next hnone => simp [hnone]

theorem entry_count : ∃ n, d.entry tables "count" = some (.number n) := by
  cases hfind : tables.find? (describes d.queue d.reason) with
  | some t => exact ⟨countOf t + 1, by simp [Death.entry, hfind, withCount]⟩
  | none => exact ⟨1, by simp [Death.entry, hfind, withCount]⟩

theorem describes_iff : describes queue reason t = true ↔
    t "queue" = some (.string queue) ∧ t "reason" = some (.string reason) := by
  simp [describes]

theorem legible_entry : Legible queue reason (d.entry tables) := by
  have hdescribed : describes d.queue d.reason (d.entry tables) = true := describes_entry
  have hentry := describes_iff.mp hdescribed
  intro hqueue hreason
  rw [hentry.1] at hqueue
  rw [hentry.2] at hreason
  obtain rfl : d.queue = queue := hqueue
  obtain rfl : d.reason = reason := hreason
  exact ⟨describes_entry, entry_count⟩

theorem find?_filter_other (h : ¬ (d.queue = queue ∧ d.reason = reason)) :
    (tables.filter fun t => !describes d.queue d.reason t).find? (describes queue reason) =
      tables.find? (describes queue reason) := by
  rw [List.find?_filter]
  congr 1
  funext t
  cases ht : describes queue reason t with
  | false => simp
  | true =>
    have hother : describes d.queue d.reason t = false := by
      by_contra hd
      exact h (describes_unique (by simpa using hd) ht)
    simp [hother]

end Entries

namespace DeathHeader
variable (h : DeathHeader) (d : Death) (queue reason : String)

@[simp] theorem tables_record : (h.record d).tables =
    d.entry h.tables :: h.tables.filter fun t => !describes d.queue d.reason t := rfl

/-- One dead-lettering adds one to its own count and leaves the others. -/
theorem deathCount_record : (h.record d).deathCount queue reason =
    h.deathCount queue reason + if d.queue = queue ∧ d.reason = reason then 1 else 0 := by
  by_cases hd : d.queue = queue ∧ d.reason = reason
  · obtain ⟨rfl, rfl⟩ := hd
    rw [if_pos ⟨rfl, rfl⟩, deathCount, tables_record, List.find?_cons_of_pos describes_entry]
    exact countOf_entry
  · have hentry : ¬ describes queue reason (d.entry h.tables) = true := by
      intro hdesc
      exact hd (describes_unique describes_entry hdesc)
    rw [if_neg hd, add_zero, deathCount, tables_record, List.find?_cons_of_neg hentry,
      find?_filter_other hd, deathCount]

theorem legible_record {h : DeathHeader} (hl : ∀ t ∈ h.tables, Legible queue reason t) :
    ∀ t ∈ (h.record d).tables, Legible queue reason t := by
  intro t ht
  rw [tables_record, List.mem_cons, List.mem_filter] at ht
  obtain rfl | ht := ht
  · exact legible_entry
  · exact hl t ht.1

def after (deaths : List Death) : DeathHeader := deaths.foldr (fun d h => h.record d) h

/-- Whatever else happened, the count is the number of dead-letterings of its kind. -/
theorem deathCount_after (deaths : List Death) : (h.after deaths).deathCount queue reason =
    h.deathCount queue reason +
      deaths.countP fun d => d.queue = queue ∧ d.reason = reason := by
  induction deaths with
  | nil => simp [after]
  | cons d deaths ih =>
    have hstep : (h.after (d :: deaths)).deathCount queue reason =
        ((h.after deaths).record d).deathCount queue reason := rfl
    rw [hstep, deathCount_record, ih, List.countP_cons, add_assoc]
    by_cases hd : d.queue = queue ∧ d.reason = reason <;> simp [hd]

theorem legible_after {h : DeathHeader} (hl : ∀ t ∈ h.tables, Legible queue reason t)
    (deaths : List Death) : ∀ t ∈ (h.after deaths).tables, Legible queue reason t := by
  induction deaths with
  | nil => exact hl
  | cons d deaths ih => exact legible_record d queue reason ih

end DeathHeader
end HmDianPing.Amqp
