import HmDianPing.Redis.Keyspace
import HmDianPing.Seckill.Redis

/-! # The texts of the seckill keys

The builders of `SeckillRedisKeys` and the key lists of the two scripts. Every key is
a fixed prefix, the voucher id in braces and a rest, and reading it as such is unique.
-/
namespace HmDianPing.Seckill
open Text Redis

namespace SeckillRedisKeys

def tag (voucherId : Long) : Str := lit "\x7b" ++ decimal voucherId ++ lit "\x7d"

def stockKey (voucherId : Long) : Str := lit "seckill:stock:" ++ tag voucherId

def activityTimeKey (voucherId : Long) : Str := lit "seckill:time:" ++ tag voucherId

def reservationKey (voucherId : Long) : Str := lit "seckill:reservation:" ++ tag voucherId

def legacyOrderKey (voucherId : Long) : Str := lit "seckill:order:" ++ tag voucherId

def pendingKey (voucherId : Long) : Str := lit "seckill:pending:" ++ tag voucherId

def failedKey (voucherId : Long) : Str := lit "seckill:pending:failed:" ++ tag voucherId

def pendingDataKey (voucherId orderId : Long) : Str :=
  lit "seckill:pending:data:" ++ tag voucherId ++ lit ":" ++ decimal orderId

def pendingDataPattern (voucherId : Long) : Str :=
  lit "seckill:pending:data:" ++ tag voucherId ++ lit ":*"

end SeckillRedisKeys

open SeckillRedisKeys

/-- The keys of `SECKILL_SCRIPT`. -/
def seckillScriptKeys (voucherId orderId : Long) : List Str :=
  [stockKey voucherId, reservationKey voucherId, legacyOrderKey voucherId, pendingKey voucherId,
    pendingDataKey voucherId orderId, activityTimeKey voucherId]

/-- The keys of `RESTORE_SCRIPT`, the same in `restorePreDeduct` and `listenFailedOrder`. -/
def restoreScriptKeys (voucherId : Long) : List Str :=
  [stockKey voucherId, reservationKey voucherId, legacyOrderKey voucherId, pendingKey voucherId]

inductive KeyBuilder where
  | stock | activityTime | reservation | legacyOrder | pending | failed | pendingData
deriving DecidableEq

namespace KeyBuilder

/-- What stands before the tag. -/
def leading : KeyBuilder → Str
  | stock => lit "seckill:stock:"
  | activityTime => lit "seckill:time:"
  | reservation => lit "seckill:reservation:"
  | legacyOrder => lit "seckill:order:"
  | pending => lit "seckill:pending:"
  | failed => lit "seckill:pending:failed:"
  | pendingData => lit "seckill:pending:data:"

theorem leading_injective : Function.Injective leading := by
  have hnodup : ([stock, activityTime, reservation, legacyOrder, pending, failed,
      pendingData].map leading).Nodup := by decide +kernel
  intro b b' h
  refine List.inj_on_of_nodup_map hnodup ?_ ?_ h
  · cases b <;> simp
  · cases b' <;> simp

theorem not_mem_leading (b : KeyBuilder) : 0x7B ∉ b.leading := by
  cases b <;> decide +kernel

end KeyBuilder

/-- A call of one of the builders of keys, which is what a key stands for. -/
inductive SeckillKey where
  | stock (voucherId : Long)
  | activityTime (voucherId : Long)
  | reservation (voucherId : Long)
  | legacyOrder (voucherId : Long)
  | pending (voucherId : Long)
  | failed (voucherId : Long)
  | pendingData (voucherId orderId : Long)
deriving DecidableEq

namespace SeckillKey

def text : SeckillKey → Str
  | stock voucherId => stockKey voucherId
  | activityTime voucherId => activityTimeKey voucherId
  | reservation voucherId => reservationKey voucherId
  | legacyOrder voucherId => legacyOrderKey voucherId
  | pending voucherId => pendingKey voucherId
  | failed voucherId => failedKey voucherId
  | pendingData voucherId orderId => pendingDataKey voucherId orderId

def voucherId : SeckillKey → Long
  | stock v | activityTime v | reservation v | legacyOrder v | pending v | failed v
  | pendingData v _ => v

def builder : SeckillKey → KeyBuilder
  | stock _ => .stock
  | activityTime _ => .activityTime
  | reservation _ => .reservation
  | legacyOrder _ => .legacyOrder
  | pending _ => .pending
  | failed _ => .failed
  | pendingData _ _ => .pendingData

/-- What stands behind the tag. -/
def rest : SeckillKey → Str
  | pendingData _ orderId => lit ":" ++ decimal orderId
  | _ => []

end SeckillKey

/-- A text with the tag of a voucher in it. -/
def tagged (s : Str) (voucherId : Long) (t : Str) : Str :=
  s ++ 0x7B :: (decimal voucherId ++ 0x7D :: t)

theorem SeckillKey.text_eq (k : SeckillKey) :
    k.text = tagged k.builder.leading k.voucherId k.rest := by
  cases k <;>
    simp [text, builder, KeyBuilder.leading, voucherId, rest, tagged, stockKey, activityTimeKey,
      reservationKey, legacyOrderKey, pendingKey, failedKey, pendingDataKey, tag, lit]

theorem pendingDataPattern_eq (voucherId : Long) : pendingDataPattern voucherId =
    tagged KeyBuilder.pendingData.leading voucherId (lit ":*") := by
  simp [pendingDataPattern, KeyBuilder.leading, tag, tagged, lit]

/-- The braces cannot be read in two ways, as the prefix has no brace and the id has none. -/
theorem tagged_inj {s s' t t' : Str} {v v' : Long} (hs : 0x7B ∉ s) (hs' : 0x7B ∉ s')
    (h : tagged s v t = tagged s' v' t') : s = s' ∧ v = v' ∧ t = t' := by
  obtain ⟨hleading, hrest⟩ := append_cons_inj hs hs' h
  obtain ⟨hid, ht⟩ := append_cons_inj (not_mem_decimal v (by decide) rfl)
    (not_mem_decimal v' (by decide) rfl) hrest
  exact ⟨hleading, decimal_injective hid, ht⟩

namespace SeckillKey

/-- A key is read off its builder, its voucher and what stands behind the tag. -/
theorem eq_of_parts {k k' : SeckillKey} (hbuilder : k.builder = k'.builder)
    (hvoucher : k.voucherId = k'.voucherId) (hrest : k.rest = k'.rest) : k = k' := by
  cases k <;> cases k' <;> first
    | exact congrArg _ hvoucher
    | simp [builder] at hbuilder
  case pendingData.pendingData v o v' o' =>
    have horder : o = o' := decimal_injective (List.append_cancel_left hrest)
    rw [show v = v' from hvoucher, horder]

theorem text_injective : Function.Injective text := by
  intro k k' h
  rw [text_eq, text_eq] at h
  obtain ⟨hleading, hvoucher, hrest⟩ :=
    tagged_inj k.builder.not_mem_leading k'.builder.not_mem_leading h
  exact eq_of_parts (KeyBuilder.leading_injective hleading) hvoucher hrest

theorem hashTag_text (k : SeckillKey) : hashTag k.text = decimal k.voucherId := by
  rw [text_eq]
  exact hashTag_eq k.builder.not_mem_leading (not_mem_decimal _ (by decide) rfl) (decimal_ne_nil _)

theorem hashSlot_text {k k' : SeckillKey} (h : k.voucherId = k'.voucherId) :
    hashSlot k.text = hashSlot k'.text := by
  simp only [hashSlot, hashTag_text, h]

end SeckillKey

theorem pendingDataPattern_injective : Function.Injective pendingDataPattern := by
  intro v v' h
  rw [pendingDataPattern_eq, pendingDataPattern_eq] at h
  exact (tagged_inj (KeyBuilder.not_mem_leading _) (KeyBuilder.not_mem_leading _) h).2.1

/-- A pattern is no key: an order id has no star. -/
theorem pendingDataPattern_ne_text (v : Long) (k : SeckillKey) :
    pendingDataPattern v ≠ k.text := by
  rw [pendingDataPattern_eq, SeckillKey.text_eq]
  intro h
  obtain ⟨-, -, hrest⟩ := tagged_inj (KeyBuilder.not_mem_leading _) k.builder.not_mem_leading h
  cases k with
  | pendingData v' o =>
    have hstar : lit "*" = decimal o := (List.append_right_inj (lit ":")).mp hrest
    have hmem : 0x2A ∉ decimal o := not_mem_decimal o (by decide) rfl
    exact hmem (hstar ▸ List.mem_singleton.mpr rfl)
  | _ => exact absurd hrest (by simp [SeckillKey.rest, lit])

def dataKeyPrefix (v : Long) : Str := tagged KeyBuilder.pendingData.leading v (lit ":")

theorem plain_dataKeyPrefix (v : Long) : ∀ c ∈ dataKeyPrefix v, Plain c := by
  have hdecimal : ∀ c ∈ decimal v, Plain c := by
    intro c hc
    refine ⟨?_, ?_, ?_, ?_⟩ <;> rintro rfl <;>
      exact not_mem_decimal v (by decide) rfl hc
  have hall : (KeyBuilder.pendingData.leading.all fun c =>
      c ≠ 0x2A ∧ c ≠ 0x3F ∧ c ≠ 0x5B ∧ c ≠ 0x5C) = true := by
    decide +kernel
  have hleading : ∀ c ∈ KeyBuilder.pendingData.leading, Plain c := by
    intro c hc
    simpa only [Plain, decide_eq_true_eq] using List.all_eq_true.mp hall c hc
  intro c hc
  simp only [dataKeyPrefix, tagged, List.mem_append, List.mem_cons] at hc
  obtain hc | rfl | hc | rfl | hc := hc
  · exact hleading c hc
  · simp [Plain]
  · exact hdecimal c hc
  · simp [Plain]
  · obtain rfl : c = 0x3A := List.mem_singleton.mp hc
    simp [Plain]

theorem globMatch_pendingDataPattern (v : Long) (k : SeckillKey) :
    globMatch (pendingDataPattern v) k.text = true ↔ ∃ o, k = .pendingData v o := by
  have hpattern : pendingDataPattern v = dataKeyPrefix v ++ [0x2A] := by
    simp [pendingDataPattern_eq, dataKeyPrefix, tagged, lit]
  rw [hpattern, globMatch_star (plain_dataKeyPrefix v)]
  constructor
  · rintro ⟨t, ht⟩
    have htagged : tagged KeyBuilder.pendingData.leading v (lit ":" ++ t) =
        tagged k.builder.leading k.voucherId k.rest := by
      rw [← k.text_eq, ← ht]
      simp [dataKeyPrefix, tagged]
    obtain ⟨hleading, hvoucher, -⟩ :=
      tagged_inj (KeyBuilder.not_mem_leading _) k.builder.not_mem_leading htagged
    have hbuilder := KeyBuilder.leading_injective hleading
    cases k with
    | pendingData v' o => exact ⟨o, by rw [show v = v' from hvoucher]⟩
    | _ => exact absurd hbuilder (by simp [SeckillKey.builder])
  · rintro ⟨o, rfl⟩
    refine ⟨decimal o, ?_⟩
    rw [SeckillKey.text_eq]
    simp [dataKeyPrefix, tagged, SeckillKey.builder, SeckillKey.voucherId, SeckillKey.rest]

/-- The keys of a script, as calls of the builders. -/
def seckillScriptCalls (v o : Long) : List SeckillKey :=
  [.stock v, .reservation v, .legacyOrder v, .pending v, .pendingData v o, .activityTime v]

theorem mem_scriptKeys {v o : Long} {key : Str}
    (h : key ∈ seckillScriptKeys v o ∨ key ∈ restoreScriptKeys v) :
    ∃ k : SeckillKey, k.voucherId = v ∧ k.text = key := by
  have hsub : key ∈ (seckillScriptCalls v o).map SeckillKey.text := by
    obtain h | h := h
    · exact h
    · exact (List.take_sublist 4 (seckillScriptKeys v o)).subset h
  obtain ⟨k, hk, rfl⟩ := List.mem_map.mp hsub
  refine ⟨k, ?_, rfl⟩
  simp only [seckillScriptCalls, List.mem_cons, List.not_mem_nil, or_false] at hk
  obtain rfl | rfl | rfl | rfl | rfl | rfl := hk <;> rfl

theorem seckillScriptKeys_nodup (v o : Long) : (seckillScriptKeys v o).Nodup := by
  have hcalls : (seckillScriptCalls v o).Nodup := by simp [seckillScriptCalls]
  exact hcalls.map SeckillKey.text_injective

/-- The texts of the keys keep apart what the builders keep apart, the keys of a voucher are in
one slot, and the pattern of a voucher finds its data keys and nothing else. -/
theorem seckillRedisKeys_separate :
    (Function.Injective SeckillKey.text ∧ Function.Injective pendingDataPattern ∧
      ∀ v k, pendingDataPattern v ≠ SeckillKey.text k) ∧
    (∀ k : SeckillKey, hashTag k.text = decimal k.voucherId) ∧
    (∀ v o, ∀ key ∈ seckillScriptKeys v o, hashSlot key = hashSlot (stockKey v)) ∧
    (∀ v, ∀ key ∈ restoreScriptKeys v, hashSlot key = hashSlot (stockKey v)) ∧
    ∀ v (k : SeckillKey),
      globMatch (pendingDataPattern v) k.text = true ↔ ∃ o, k = .pendingData v o := by
  have hslot : ∀ v o key, key ∈ seckillScriptKeys v o ∨ key ∈ restoreScriptKeys v →
      hashSlot key = hashSlot (stockKey v) := by
    intro v o key h
    obtain ⟨k, hk, rfl⟩ := mem_scriptKeys h
    have hstock : k.voucherId = (SeckillKey.stock v).voucherId := hk
    have hslot := SeckillKey.hashSlot_text hstock
    exact hslot
  refine ⟨⟨SeckillKey.text_injective, pendingDataPattern_injective, pendingDataPattern_ne_text⟩,
    SeckillKey.hashTag_text, ?_, ?_, globMatch_pendingDataPattern⟩
  · intro v o key h
    exact hslot v o key (.inl h)
  · intro v key h
    exact hslot v 0 key (.inr h)

end HmDianPing.Seckill
