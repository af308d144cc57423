/-
`ratchet/header.rs`: the message header and its JSON form, the associated data of every message.
The JSON text determines the header.
-/
import GhostCrypt.Core.Primitives
import GhostCrypt.Lib.Decimal

namespace GhostCrypt.Ratchet

/-- `MessageHeader`. -/
structure MessageHeader where
  dhPublicKey : Bytes
  messageNumber : UInt32
  previousChainLength : UInt32
  deriving DecidableEq

namespace MessageHeader

/-- `MessageHeader::new`. -/
def new (dhKey : PublicKey) (msgNum prevChainLen : UInt32) : MessageHeader :=
  { dhPublicKey := dhKey.toVec, messageNumber := msgNum, previousChainLength := prevChainLen }

/-- `to_public_key`: nothing where `copy_from_slice` panics. -/
def toPublicKey (h : MessageHeader) : Option PublicKey := (toArray32 h.dhPublicKey).map PublicKey.mk

/-! ## JSON -/

/-- `serde_json::to_vec` of the derived `Serialize`: a compact object with the fields in order,
byte vectors as arrays of decimal numbers. Writing to a vector does not fail. -/
def serdeJsonToVec (h : MessageHeader) : Except String Bytes :=
  .ok (ascii "\x7b\"dh_public_key\":[" ++ (Decimal.commaList (h.dhPublicKey.map UInt8.toNat) ++
    93 :: (ascii ",\"message_number\":" ++ (Decimal.numeral h.messageNumber.toNat ++
    44 :: (ascii "\"previous_chain_length\":" ++ (Decimal.numeral h.previousChainLength.toNat ++ [125]))))))

/-- `to_bytes`. -/
def toBytes (h : MessageHeader) : Bytes :=
  match h.serdeJsonToVec with
  | .ok bytes => bytes
  | .error _ => []

theorem map_toNat_injective : Function.Injective (List.map UInt8.toNat) :=
  List.map_injective_iff.2 fun _ _ h => UInt8.toNat_inj.1 h

/-- The associated data determines the header. -/
theorem toBytes_injective : Function.Injective toBytes := by
  rintro ⟨k, n, p⟩ ⟨k', n', p'⟩ h
  simp only [toBytes, serdeJsonToVec, List.append_cancel_left_eq] at h
  obtain ⟨hk, h⟩ := Decimal.commaList_append_inj (by decide) (by decide) h
  simp only [List.append_cancel_left_eq] at h
  obtain ⟨hn, h⟩ := Decimal.numeral_append_inj (Decimal.stopsAt_cons (by decide))
    (Decimal.stopsAt_cons (by decide)) h
  simp only [List.cons.injEq, true_and, List.append_cancel_left_eq] at h
  obtain ⟨hp, -⟩ := Decimal.numeral_append_inj (Decimal.stopsAt_cons (by decide))
    (Decimal.stopsAt_cons (by decide)) h
  rw [map_toNat_injective hk, UInt32.toNat_inj.1 hn, UInt32.toNat_inj.1 hp]

theorem toBytes_ne_nil (h : MessageHeader) : h.toBytes ≠ [] := by
  unfold toBytes serdeJsonToVec
  apply List.append_ne_nil_of_left_ne_nil
  decide

/-- Headers with the same associated data agree in all three fields, and the fallback to the empty
string is never taken. -/
theorem toBytes_determines (h h' : MessageHeader) :
    (h.toBytes = h'.toBytes ↔ h.dhPublicKey = h'.dhPublicKey ∧ h.messageNumber = h'.messageNumber ∧
      h.previousChainLength = h'.previousChainLength) ∧
    h.serdeJsonToVec = .ok h.toBytes ∧ h.toBytes ≠ [] := by
  refine ⟨?_, rfl, toBytes_ne_nil h⟩
  constructor
  · intro heq
    obtain rfl := toBytes_injective heq
    exact ⟨rfl, rfl, rfl⟩
  · obtain ⟨k, n, p⟩ := h
    rintro ⟨rfl, rfl, rfl⟩
    rfl

/-! ## Public keys -/

@[simp] theorem toPublicKey_new (k : PublicKey) (n p : UInt32) : (new k n p).toPublicKey = some k := by
  simp [toPublicKey, new, PublicKey.toVec]

theorem toPublicKey_eq_none {h : MessageHeader} : h.toPublicKey = none ↔ h.dhPublicKey.length ≠ 32 := by
  simp [toPublicKey, toArray32_eq_none]

theorem toPublicKey_eq_some {h : MessageHeader} {k : PublicKey} :
    h.toPublicKey = some k ↔ h.dhPublicKey = k.toVec := by
  obtain ⟨b⟩ := k
  simp [toPublicKey, toArray32_eq_some, PublicKey.toVec]

end MessageHeader

example : (MessageHeader.toBytes ⟨[7, 255], 10, 0⟩) =
    ascii "\x7b\"dh_public_key\":[7,255],\"message_number\":10,\"previous_chain_length\":0\x7d" := by
  decide

end GhostCrypt.Ratchet
