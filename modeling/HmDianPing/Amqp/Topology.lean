import HmDianPing.Amqp.DeadLetter

/-! # Exchanges, queues and bindings

A topology says where a published message goes, and where one that is rejected or
expires goes from its queue. The broker keeps what is ready in each queue and what
has been delivered and not settled yet.
-/
namespace HmDianPing.Amqp

inductive ExchangeType where
  | direct | fanout
deriving DecidableEq, Repr

structure Exchange where
  name : String
  type : ExchangeType
deriving DecidableEq, Repr

structure Queue where
  name : String
  durable : Bool
  exclusive : Bool
  autoDelete : Bool
  messageTtl : Option ℕ
  deadLetterExchange : Option String
  deadLetterRoutingKey : Option String
deriving DecidableEq, Repr

structure Binding where
  queue : String
  exchange : String
  routingKey : String
deriving DecidableEq, Repr

structure Topology where
  exchanges : List Exchange
  queues : List Queue
  bindings : List Binding

/-- A binding takes the message to its queue. -/
def Exchange.Takes (e : Exchange) (key : String) (b : Binding) : Prop :=
  b.exchange = e.name ∧ (e.type = .fanout ∨ b.routingKey = key)

instance (e : Exchange) (key : String) (b : Binding) : Decidable (e.Takes key b) :=
  inferInstanceAs (Decidable (_ ∧ (_ ∨ _)))

/-- The header leads back to the queue without a rejection on the way. -/
def automaticCycle (queue : String) : List FieldTable → Bool
  | [] => false
  | t :: tables => decide (t "reason" ≠ some (.string "rejected")) &&
      (decide (t "queue" = some (.string queue)) || automaticCycle queue tables)

/-- A queue whose messages only ever died by rejection closes no automatic cycle. -/
theorem automaticCycle_eq_false {queue : String} {tables : List FieldTable}
    (hrejected : ∀ t ∈ tables, t "queue" = some (.string queue) →
      t "reason" = some (.string "rejected")) : automaticCycle queue tables = false := by
  induction tables with
  | nil => rfl
  | cons t tables ih =>
    rw [List.forall_mem_cons] at hrejected
    rw [automaticCycle, ih hrejected.2, Bool.or_false, Bool.and_eq_false_imp]
    intro hreason
    rw [decide_eq_false_iff_not]
    exact fun hqueue => of_decide_eq_true hreason (hrejected.1 hqueue)

namespace Topology
variable (T : Topology)

def queue? (name : String) : Option Queue := T.queues.find? fun q => q.name = name

def bound (e : Exchange) (key queue : String) : Bool :=
  T.bindings.any fun b => decide (b.queue = queue ∧ e.Takes key b)

/-- The queues a message goes to, each of them once; the exchange is a declared one. -/
def route (exchange key : String) : List String :=
  match T.exchanges.find? fun e => e.name = exchange with
  | none => []
  | some e => (T.queues.filter fun q => T.bound e key q.name).map Queue.name

/-- Where a message that has died in this queue goes, under which key. A message that would go
round without anybody rejecting it is dropped. -/
def deadLetters (name reason key : String) (tables : List FieldTable) : List String × String :=
  match T.queue? name with
  | none => ([], key)
  | some q => match q.deadLetterExchange with
    | none => ([], key)
    | some exchange =>
      let newKey := q.deadLetterRoutingKey.getD key
      ((T.route exchange newKey).filter fun target =>
        decide (reason = "rejected") || !automaticCycle target tables, newKey)

end Topology

structure Envelope (α : Type) where
  body : α
  routingKey : String
  deaths : DeathHeader

structure Unacked (α : Type) where
  tag : ℕ
  queue : String
  envelope : Envelope α

structure Broker (α : Type) where
  ready : String → List (Envelope α)
  unacked : List (Unacked α)
  nextTag : ℕ

/-- What clients and time make the broker do. -/
inductive Command (α : Type) where
  | publish (exchange key : String) (body : α)
  | deliver (queue : String) (n : ℕ)
  | ack (tag : ℕ)
  | reject (tag : ℕ) (requeue : Bool) (details : FieldTable)
  | expire (queue : String) (n : ℕ) (details : FieldTable)

namespace Broker
variable {α : Type}

def start : Broker α := ⟨fun _ => [], [], 0⟩

def enqueue (b : Broker α) (queues : List String) (e : Envelope α) : Broker α :=
  { b with ready := fun q => if q ∈ queues then b.ready q ++ [e] else b.ready q }

def settle (b : Broker α) (tag : ℕ) : Broker α :=
  { b with unacked := b.unacked.filter fun d => d.tag ≠ tag }

def die (T : Topology) (b : Broker α) (d : Death) (e : Envelope α) : Broker α :=
  let deaths := e.deaths.record d
  let target := T.deadLetters d.queue d.reason e.routingKey deaths.tables
  b.enqueue target.1 { e with routingKey := target.2, deaths := deaths }

def removeReady (b : Broker α) (queue : String) (n : ℕ) : Broker α :=
  { b with ready := Function.update b.ready queue ((b.ready queue).eraseIdx n) }

/-- One command, when it is possible. What names a delivery that is no longer open does nothing. -/
def step (T : Topology) (b : Broker α) : Command α → Option (Broker α)
  | .publish exchange key body => some (b.enqueue (T.route exchange key) ⟨body, key, .absent⟩)
  | .deliver queue n => (b.ready queue)[n]?.map fun e =>
      { b.removeReady queue n with
        unacked := ⟨b.nextTag, queue, e⟩ :: b.unacked
        nextTag := b.nextTag + 1 }
  | .ack tag => some (b.settle tag)
  | .reject tag requeue details => match b.unacked.find? fun d => d.tag = tag with
    | none => some b
    | some d =>
      if requeue then some ((b.settle tag).enqueue [d.queue] d.envelope)
      else some ((b.settle tag).die T ⟨d.queue, "rejected", details⟩ d.envelope)
  | .expire queue n details =>
    match (T.queue? queue).bind Queue.messageTtl, (b.ready queue)[n]? with
    | some _, some e => some ((b.removeReady queue n).die T ⟨queue, "expired", details⟩ e)
    | _, _ => none

inductive Run (T : Topology) : Broker α → Broker α → Prop
  | refl (b : Broker α) : Run T b b
  | tail {b b' b'' : Broker α} (c : Command α) (init : Run T b b') (last : b'.step T c = some b'') :
      Run T b b''

end Broker
end HmDianPing.Amqp
