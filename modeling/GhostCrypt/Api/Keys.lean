/-
The key calls of `api.rs`. Nothing is stored: every call returns the keys it drew as bytes, and the calls
that use a key restore it from these bytes.
-/
import GhostCrypt.Api.X3dh

namespace GhostCrypt.Api

open Identity

variable {B : Type} [ByteString B] (P : Primitives B) (E : Ed25519)

/-! ## The calls -/

/-- `IdentityKeyResult`. -/
structure IdentityKeyResult where
  identitySecret : Bytes
  identityPublic : Bytes
  signingSecret : Bytes
  signingPublic : Bytes
  deriving DecidableEq

/-- `SignedPreKeyResult`. -/
structure SignedPreKeyResult where
  secret : Bytes
  publicKey : Bytes
  signature : Bytes
  deriving DecidableEq

/-- `OneTimePreKeyResult`. -/
structure OneTimePreKeyResult where
  id : UInt32
  publicKey : Bytes
  secret : Bytes
  deriving DecidableEq

/-- `generate_identity_keypair`, on the random seeds drawn. -/
def generateIdentityKeypair (secretSeed : Bytes32) (signingKey : SigningKey) : IdentityKeyResult :=
  let kp := IdentityKeyPair.generate P secretSeed signingKey
  { identitySecret := kp.secretSeed.1, identityPublic := kp.x25519Public.toVec
    signingSecret := kp.signingKey.bytes.1, signingPublic := (kp.verifyingKey E).bytes.1 }

/-- `generate_signed_pre_key`, on the random seed drawn. -/
def generateSignedPreKey (secretSeed : Bytes32) (identitySecret signingSecret : Bytes) :
    Except String SignedPreKeyResult := do
  let identity ← mapErr (IdentityKeyPair.fromBytes P identitySecret signingSecret)
  let spk := SignedPreKey.generate P E identity secretSeed
  return { secret := spk.secretSeed.1, publicKey := spk.x25519Public.toVec, signature := spk.signature }

/-- `generate_one_time_pre_keys`, on the random seeds drawn. -/
def generateOneTimePreKeys (seeds : ℕ → Bytes32) (count : UInt32) : List OneTimePreKeyResult :=
  (OneTimePreKey.generateBatch P ((List.range count.toNat).map seeds)).map fun k =>
    { id := k.id, publicKey := k.x25519Public.toVec, secret := k.secretSeed.1 }

/-! ## Keys restored -/

variable {P E}

/-- An identity is restored from its two secrets. -/
theorem restore_identity (secretSeed : Bytes32) (signingKey : SigningKey) :
    mapErr (IdentityKeyPair.fromBytes P (generateIdentityKeypair P E secretSeed signingKey).identitySecret
      (generateIdentityKeypair P E secretSeed signingKey).signingSecret) =
      .ok (IdentityKeyPair.generate P secretSeed signingKey) := identity_fromBytes P secretSeed signingKey

/-- A signed pre-key is made on every restored identity, and is restored from what the call returns. -/
theorem restore_signedPreKey {identitySecret signingSecret : Bytes} {identity : IdentityKeyPair}
    (h : mapErr (IdentityKeyPair.fromBytes P identitySecret signingSecret) = .ok identity) (secretSeed : Bytes32) :
    ∃ r, generateSignedPreKey P E secretSeed identitySecret signingSecret = .ok r ∧
      mapErr (SignedPreKey.fromBytes r.secret r.publicKey r.signature) =
        .ok (SignedPreKey.generate P E identity secretSeed) ∧
      r.publicKey = (P.publicKey ⟨secretSeed⟩).toVec ∧
      r.signature = identity.sign E (P.publicKey ⟨secretSeed⟩).toVec := by
  have hsig := (E.sign identity.signingKey (P.publicKey ⟨secretSeed⟩).toVec).2
  refine ⟨⟨secretSeed.1, (P.publicKey ⟨secretSeed⟩).toVec, _⟩, ?_, signedPreKey_fromBytes P secretSeed hsig, rfl, rfl⟩
  unfold generateSignedPreKey
  rw [h]
  rfl

end GhostCrypt.Api
