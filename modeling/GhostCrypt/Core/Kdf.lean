/-
`kdf/mod.rs`: HKDF and the symmetric ratchet's HMAC pair.
-/
import GhostCrypt.Core.Error
import GhostCrypt.Core.Primitives

namespace GhostCrypt.Kdf

variable {B : Type} [ByteString B] (P : Primitives B)

/-- `derive`; HKDF-SHA256 expands to at most 255 blocks of 32 bytes. -/
def derive (ikm salt : B) (info : Bytes) (length : Nat) : Except CryptoError B :=
  if length > 255 * 32 then
    .error (.keyGeneration "HKDF expand failed: invalid number of blocks, too large output")
  else .ok (P.hkdf salt ikm info length)

/-- `hmac_sha256`; `new_from_slice` accepts keys of every length. -/
def hmacSha256 (key : B) (data : Bytes) : Except CryptoError B := .ok (P.hmac key data)

/-- `derive_chain_and_message_key`. -/
def deriveChainAndMessageKey (chainKey : B) : Except CryptoError (B × B) := do
  let newChainKey ← hmacSha256 P chainKey [0x01]
  let messageKey ← hmacSha256 P chainKey [0x02]
  return (newChainKey, messageKey)

theorem derive_ok {ikm salt : B} {info : Bytes} {length : Nat} (h : length ≤ 255 * 32) :
    derive P ikm salt info length = .ok (P.hkdf salt ikm info length) := if_neg (by omega)

@[simp] theorem deriveChainAndMessageKey_eq (chainKey : B) :
    deriveChainAndMessageKey P chainKey = .ok (P.hmac chainKey [0x01], P.hmac chainKey [0x02]) := rfl

end GhostCrypt.Kdf
