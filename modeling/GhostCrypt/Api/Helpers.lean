/-
The helpers of `api.rs`: byte vectors from the foreign side to keys, and errors to texts.
-/
import GhostCrypt.Identity.Keys

namespace GhostCrypt.Api

open Identity

/-- `bytes_to_public_key`. -/
def bytesToPublicKey (bytes : Bytes) : Except String PublicKey :=
  if h : bytes.length = 32 then .ok ⟨⟨bytes, h⟩⟩
  else .error s!"Expected 32 bytes for public key, got {bytes.length}"

/-- `bytes_to_verifying_key`. -/
def bytesToVerifyingKey (E : Ed25519) (bytes : Bytes) : Except String VerifyingKey :=
  if h : bytes.length = 32 then
    match E.fromBytes ⟨bytes, h⟩ with
    | .ok key => .ok key
    | .error e => .error s!"Invalid Ed25519 verifying key: {e}"
  else .error s!"Expected 32 bytes for verifying key, got {bytes.length}"

/-- A `Result` of the library, with `map_err`. -/
def mapErr {α : Type} : Except CryptoError α → Except String α := Except.mapError CryptoError.display

@[simp] theorem bytesToPublicKey_toVec (k : PublicKey) : bytesToPublicKey k.toVec = .ok k := by
  unfold bytesToPublicKey
  rw [dif_pos k.length_toVec]
  rfl

end GhostCrypt.Api
