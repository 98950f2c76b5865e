import HmDianPing.Text.Decimal
import HmDianPing.Text.Uuid
import HmDianPing.Seckill.Messaging

/-! # The ids of publisher confirms

One callback serves three families of ids: an order message has the order id and the
voucher id, a forwarded failure has a prefix and the order id, and what the parking
recoverer publishes has a random UUID.
-/
namespace HmDianPing.Seckill
open Interleaving Program Text

namespace VoucherOrderProducer

def orderCorrelationSeparator : UInt16 := 0x3A

/-- `RabbitMqConstants.FAILED_CORRELATION_PREFIX`. -/
def failedCorrelationPrefix : Str := lit "failed-order:"

def messageId (orderId voucherId : Long) : Str :=
  decimal orderId ++ orderCorrelationSeparator :: decimal voucherId

/-- The id that `sendToFailedQueueAndWaitForConfirm` gives to a forwarded message. -/
def failedCorrelationId (orderId : Long) : Str := failedCorrelationPrefix ++ decimal orderId

structure OrderCorrelation where
  orderId : Long
  voucherId : Long
deriving DecidableEq

def parseOrderCorrelation (correlationId : Str) : Option OrderCorrelation :=
  match cut orderCorrelationSeparator correlationId with
  | none => none
  | some (first, second) => do
    let orderId ← parseLong first
    let voucherId ← parseLong second
    return ⟨orderId, voucherId⟩

/-- `confirm`, on the correlation data and the id in it. -/
def confirm (correlationData : Option (Option Str)) (ack : Bool) (cause : Option String) :
    Handler Unit :=
  match correlationData with
  | some (some correlationId) =>
    if failedCorrelationPrefix.isPrefixOf correlationId then pure () else
    match parseOrderCorrelation correlationId with
    | none => pure ()
    | some correlation =>
      if ack then markSendSuccess correlation.voucherId correlation.orderId
      else markSendFailed correlation.voucherId correlation.orderId cause
  | _ => pure ()

end VoucherOrderProducer

open VoucherOrderProducer

theorem separator_not_mem_decimal (n : Long) : orderCorrelationSeparator ∉ decimal n :=
  not_mem_decimal n (by decide) rfl

section Order
variable (orderId voucherId : Int64)

theorem parseLong_toInt (n : Int64) : parseLong (decimal n.toInt) = some n.toInt :=
  parseLong_decimal ⟨n.le_toInt, n.toInt_lt⟩

/-- An order id begins with a digit or a sign, which the prefix of a failed id does not. -/
theorem not_failed_messageId (o v : Long) :
    failedCorrelationPrefix.isPrefixOf (messageId o v) = false := by
  obtain ⟨c, cs, hc⟩ := List.exists_cons_of_ne_nil (decimal_ne_nil o)
  have hne : c ≠ 0x66 := by
    rintro rfl
    exact not_mem_decimal o (by decide) rfl (hc ▸ List.mem_cons_self)
  simp [messageId, hc, failedCorrelationPrefix, lit, List.isPrefixOf, Ne.symm hne]

theorem parseOrderCorrelation_messageId :
    parseOrderCorrelation (messageId orderId.toInt voucherId.toInt) =
      some ⟨orderId.toInt, voucherId.toInt⟩ := by
  rw [parseOrderCorrelation, messageId, cut_append (separator_not_mem_decimal _)]
  simp only [parseLong_toInt]
  rfl

theorem confirm_messageId (ack : Bool) (cause : Option String) :
    VoucherOrderProducer.confirm (some (some (messageId orderId.toInt voucherId.toInt))) ack cause =
      if ack then markSendSuccess voucherId.toInt orderId.toInt
      else markSendFailed voucherId.toInt orderId.toInt cause := by
  simp only [VoucherOrderProducer.confirm, not_failed_messageId, Bool.false_eq_true, if_false,
    parseOrderCorrelation_messageId]

end Order

theorem parseOrderCorrelation_failed (orderId : Long) :
    parseOrderCorrelation (failedCorrelationId orderId) = none := by
  have hcut : cut orderCorrelationSeparator (failedCorrelationId orderId) =
      some (lit "failed-order", decimal orderId) :=
    cut_append (s := lit "failed-order") (by decide +kernel)
  have hword : parseLong (lit "failed-order") = none := by decide +kernel
  rw [parseOrderCorrelation, hcut]
  simp only [hword]
  rfl

theorem parseOrderCorrelation_uuid (uuid : UUID) : parseOrderCorrelation uuid.toStr = none := by
  have hdigit : ∀ d < 16, UUID.hexDigit d ≠ orderCorrelationSeparator := by decide
  have hcolon : orderCorrelationSeparator ∉ uuid.toStr := by
    intro hmem
    obtain hdash | ⟨d, hd, hcolon⟩ := UUID.exists_of_mem_toStr hmem
    · cases hdash
    · exact hdigit d hd hcolon.symm
  rw [parseOrderCorrelation, cut_eq_none hcolon]

theorem confirm_of_parse_none {correlationId : Str}
    (h : parseOrderCorrelation correlationId = none) (ack : Bool) (cause : Option String) :
    VoucherOrderProducer.confirm (some (some correlationId)) ack cause = pure () := by
  simp only [VoucherOrderProducer.confirm, h, ite_self]

/-- What the three senders give to the template for the ids of the model. -/
inductive CorrelationText : CorrelationId → Str → Prop where
  | order (orderId voucherId : Int64) : CorrelationText (.order orderId.toInt voucherId.toInt)
      (messageId orderId.toInt voucherId.toInt)
  | failed (orderId : Int64) :
      CorrelationText (.failed orderId.toInt) (failedCorrelationId orderId.toInt)
  | parked (uuid : UUID) : CorrelationText .unknown uuid.toStr

theorem CorrelationText.confirm_eq {c : CorrelationId} {correlationId : Str}
    (h : CorrelationText c correlationId) (ack : Bool) (cause : Option String) :
    VoucherOrderProducer.confirm (some (some correlationId)) ack cause =
      Seckill.confirm (some c) ack cause := by
  cases h with
  | order orderId voucherId => exact confirm_messageId orderId voucherId ack cause
  | failed orderId => exact confirm_of_parse_none (parseOrderCorrelation_failed _) ack cause
  | parked uuid => exact confirm_of_parse_none (parseOrderCorrelation_uuid uuid) ack cause

/-- An order id is read as its order, the other ids that are in use as none, and so the callback
writes to the pending state of that order and to no other. -/
theorem correlation_decodes (ack : Bool) (cause : Option String) :
    (∀ orderId voucherId : Int64,
      failedCorrelationPrefix.isPrefixOf (messageId orderId.toInt voucherId.toInt) = false ∧
      parseOrderCorrelation (messageId orderId.toInt voucherId.toInt) =
        some ⟨orderId.toInt, voucherId.toInt⟩ ∧
      VoucherOrderProducer.confirm (some (some (messageId orderId.toInt voucherId.toInt)))
          ack cause =
        if ack then markSendSuccess voucherId.toInt orderId.toInt
        else markSendFailed voucherId.toInt orderId.toInt cause) ∧
    (∀ orderId : Int64, parseOrderCorrelation (failedCorrelationId orderId.toInt) = none ∧
      VoucherOrderProducer.confirm (some (some (failedCorrelationId orderId.toInt))) ack cause =
        pure ()) ∧
    ∀ uuid : UUID, parseOrderCorrelation uuid.toStr = none ∧
      VoucherOrderProducer.confirm (some (some uuid.toStr)) ack cause = pure () := by
  refine ⟨fun orderId voucherId => ?_, fun orderId => ?_, fun uuid => ?_⟩
  · exact ⟨not_failed_messageId _ _, parseOrderCorrelation_messageId orderId voucherId,
      confirm_messageId orderId voucherId ack cause⟩
  · have hparse := parseOrderCorrelation_failed orderId.toInt
    exact ⟨hparse, confirm_of_parse_none hparse ack cause⟩
  · have hparse := parseOrderCorrelation_uuid uuid
    exact ⟨hparse, confirm_of_parse_none hparse ack cause⟩

end HmDianPing.Seckill
