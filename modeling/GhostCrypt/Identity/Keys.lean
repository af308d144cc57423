/-
`identity/keys.rs`: identity key pairs, signed pre-keys and one-time pre-keys, with the Ed25519
functions of ed25519-dalek as a structure.
-/
import GhostCrypt.Core.Error
import GhostCrypt.Core.Primitives

namespace GhostCrypt.Identity

/-! ## Ed25519 -/

/-- An Ed25519 signing key, `ed25519_dalek::SigningKey`. -/
structure SigningKey where
  bytes : Bytes32
  deriving DecidableEq

/-- An Ed25519 verifying key, `ed25519_dalek::VerifyingKey`. -/
structure VerifyingKey where
  bytes : Bytes32
  deriving DecidableEq

/-- A 64-byte signature. -/
abbrev Bytes64 := { b : Bytes // b.length = 64 }

/-- The Ed25519 functions. `fromBytes` refuses strings that are not curve points. -/
structure Ed25519 where
  verifyingKey : SigningKey → VerifyingKey
  fromBytes : Bytes32 → Except String VerifyingKey
  sign : SigningKey → Bytes → Bytes64
  verify : VerifyingKey → Bytes → Bytes64 → Bool

/-! ## Key pairs -/

/-- `IdentityKeyPair`. -/
structure IdentityKeyPair where
  secretSeed : Bytes32
  x25519Secret : StaticSecret
  x25519Public : PublicKey
  signingKey : SigningKey
  deriving DecidableEq

/-- `SignedPreKey`. -/
structure SignedPreKey where
  secretSeed : Bytes32
  x25519Secret : StaticSecret
  x25519Public : PublicKey
  signature : Bytes
  deriving DecidableEq

/-- `OneTimePreKey`. -/
structure OneTimePreKey where
  id : UInt32
  secretSeed : Bytes32
  x25519Secret : StaticSecret
  x25519Public : PublicKey
  deriving DecidableEq

section

variable {B : Type} [ByteString B] (P : Primitives B) (E : Ed25519)

/-- `IdentityKeyPair::generate`, on the random seeds drawn. -/
def IdentityKeyPair.generate (secretSeed : Bytes32) (signingKey : SigningKey) : IdentityKeyPair :=
  { secretSeed, x25519Secret := ⟨secretSeed⟩, x25519Public := P.publicKey ⟨secretSeed⟩, signingKey }

/-- `IdentityKeyPair::from_bytes`. -/
def IdentityKeyPair.fromBytes (identitySecret signingSecret : Bytes) :
    Except CryptoError IdentityKeyPair :=
  if hs : identitySecret.length = 32 then
    if hk : signingSecret.length = 32 then
      .ok (IdentityKeyPair.generate P ⟨identitySecret, hs⟩ ⟨⟨signingSecret, hk⟩⟩)
    else .error (.invalidKey s!"signing secret must be 32 bytes, got {signingSecret.length}")
  else .error (.invalidKey s!"identity secret must be 32 bytes, got {identitySecret.length}")

/-- `IdentityKeyPair::verifying_key`. -/
def IdentityKeyPair.verifyingKey (k : IdentityKeyPair) : VerifyingKey := E.verifyingKey k.signingKey

/-- `IdentityKeyPair::dh`. -/
def IdentityKeyPair.dh (k : IdentityKeyPair) (theirPublic : PublicKey) : B :=
  P.diffieHellman k.x25519Secret theirPublic

/-- `IdentityKeyPair::sign`. -/
def IdentityKeyPair.sign (k : IdentityKeyPair) (message : Bytes) : Bytes :=
  (E.sign k.signingKey message).1

/-- `IdentityKeyPair::verify`. -/
def IdentityKeyPair.verify (verifyingKey : VerifyingKey) (message signature : Bytes) : Bool :=
  if h : signature.length = 64 then E.verify verifyingKey message ⟨signature, h⟩ else false

/-- `SignedPreKey::generate`, on the random seed drawn. -/
def SignedPreKey.generate (identity : IdentityKeyPair) (secretSeed : Bytes32) : SignedPreKey :=
  { secretSeed, x25519Secret := ⟨secretSeed⟩, x25519Public := P.publicKey ⟨secretSeed⟩,
    signature := identity.sign E (P.publicKey ⟨secretSeed⟩).toVec }

/-- `SignedPreKey::from_bytes`; the public key is taken as given, not recomputed. -/
def SignedPreKey.fromBytes (secret publicKey signature : Bytes) : Except CryptoError SignedPreKey :=
  if hs : secret.length = 32 then
    if hp : publicKey.length = 32 then
      if signature.length = 64 then
        .ok { secretSeed := ⟨secret, hs⟩, x25519Secret := ⟨⟨secret, hs⟩⟩,
              x25519Public := ⟨⟨publicKey, hp⟩⟩, signature }
      else .error (.invalidKey s!"signature must be 64 bytes, got {signature.length}")
    else .error (.invalidKey s!"public key must be 32 bytes, got {publicKey.length}")
  else .error (.invalidKey s!"secret must be 32 bytes, got {secret.length}")

/-- `SignedPreKey::dh`. -/
def SignedPreKey.dh (k : SignedPreKey) (theirPublic : PublicKey) : B :=
  P.diffieHellman k.x25519Secret theirPublic

/-- One key of `OneTimePreKey::generate_batch`, on the random seed drawn for it. -/
def OneTimePreKey.generate (id : UInt32) (secretSeed : Bytes32) : OneTimePreKey :=
  { id, secretSeed, x25519Secret := ⟨secretSeed⟩, x25519Public := P.publicKey ⟨secretSeed⟩ }

/-- `OneTimePreKey::generate_batch`: sequential ids from 0 over the seeds drawn. -/
def OneTimePreKey.generateBatch (seeds : List Bytes32) : List OneTimePreKey :=
  seeds.mapIdx fun i seed => OneTimePreKey.generate P (UInt32.ofNat i) seed

/-- `OneTimePreKey::dh`. -/
def OneTimePreKey.dh (k : OneTimePreKey) (theirPublic : PublicKey) : B :=
  P.diffieHellman k.x25519Secret theirPublic

end

end GhostCrypt.Identity
