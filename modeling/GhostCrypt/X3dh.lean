/-
`x3dh/mod.rs` and `x3dh/bundle.rs`: the key agreement. The two halves take the same three or four
Diffie-Hellman outputs, so they agree exactly when both use the one-time pre-key or neither does.
-/
import GhostCrypt.Core.Kdf
import GhostCrypt.Identity.Keys

namespace GhostCrypt.X3dh

open Identity

variable {B : Type} [ByteString B] (P : Primitives B) (E : Ed25519)

/-! ## The two halves -/

/-- `PreKeyBundle`. -/
structure PreKeyBundle where
  identityKey : PublicKey
  identityVerifyingKey : VerifyingKey
  signedPreKey : PublicKey
  signature : Bytes
  oneTimePreKey : Option PublicKey

/-- `X3DHResult`. -/
structure X3DHResult (B : Type) where
  sharedSecret : B
  ephemeralKey : PublicKey

/-- `X3DH_SALT`. -/
def x3dhSalt : B := ByteString.ofBytes (ascii "GhostCrypt_X3DH")

/-- `X3DH_INFO`. -/
def x3dhInfo : Bytes := ascii "X3DH_shared_secret"

/-- `SHARED_SECRET_LEN`. -/
def sharedSecretLen : Nat := 32

/-- `dh_concat`: three outputs, and a fourth if there is a one-time pre-key. -/
def dhConcat (dh1 dh2 dh3 : B) (dh4 : Option B) : B :=
  let dhConcat := ByteString.append (ByteString.append dh1 dh2) dh3
  match dh4 with
  | some dh4 => ByteString.append dhConcat dh4
  | none => dhConcat

/-- `initiate`, on the ephemeral secret drawn. -/
def initiate (ephemeralSecret : StaticSecret) (aliceIdentity : IdentityKeyPair) (bobBundle : PreKeyBundle) :
    Except CryptoError (X3DHResult B) :=
  if !IdentityKeyPair.verify E bobBundle.identityVerifyingKey bobBundle.signedPreKey.toVec bobBundle.signature then
    .error (.invalidSignature "signed pre-key signature failed verification")
  else do
    let ephemeralPublic := P.publicKey ephemeralSecret
    let dh1 := aliceIdentity.dh P bobBundle.signedPreKey
    let dh2 := P.diffieHellman ephemeralSecret bobBundle.identityKey
    let dh3 := P.diffieHellman ephemeralSecret bobBundle.signedPreKey
    let dh4 := bobBundle.oneTimePreKey.map fun opk => P.diffieHellman ephemeralSecret opk
    let sharedSecret ← Kdf.derive P (dhConcat dh1 dh2 dh3 dh4) x3dhSalt x3dhInfo sharedSecretLen
    return { sharedSecret, ephemeralKey := ephemeralPublic }

/-- `respond`. -/
def respond (bobIdentity : IdentityKeyPair) (bobSpk : SignedPreKey) (bobOpk : Option OneTimePreKey)
    (aliceIdentityPub aliceEphemeralPub : PublicKey) : Except CryptoError (X3DHResult B) := do
  let dh1 := bobSpk.dh P aliceIdentityPub
  let dh2 := bobIdentity.dh P aliceEphemeralPub
  let dh3 := bobSpk.dh P aliceEphemeralPub
  let dh4 := bobOpk.map fun opk => opk.dh P aliceEphemeralPub
  let sharedSecret ← Kdf.derive P (dhConcat dh1 dh2 dh3 dh4) x3dhSalt x3dhInfo sharedSecretLen
  return { sharedSecret, ephemeralKey := aliceEphemeralPub }

/-! ## Agreement -/

/-- The shared secret of the outputs. -/
def secretOf (dh1 dh2 dh3 : B) (dh4 : Option B) : B :=
  P.hkdf x3dhSalt (dhConcat dh1 dh2 dh3 dh4) x3dhInfo sharedSecretLen

variable {P E}

theorem initiate_ok {ephemeralSecret : StaticSecret} {aliceIdentity : IdentityKeyPair} {bobBundle : PreKeyBundle}
    {r : X3DHResult B} : initiate P E ephemeralSecret aliceIdentity bobBundle = .ok r ↔
      IdentityKeyPair.verify E bobBundle.identityVerifyingKey bobBundle.signedPreKey.toVec bobBundle.signature = true ∧
      r = { sharedSecret := secretOf P (aliceIdentity.dh P bobBundle.signedPreKey)
              (P.diffieHellman ephemeralSecret bobBundle.identityKey)
              (P.diffieHellman ephemeralSecret bobBundle.signedPreKey)
              (bobBundle.oneTimePreKey.map fun opk => P.diffieHellman ephemeralSecret opk)
            ephemeralKey := P.publicKey ephemeralSecret } := by
  unfold initiate
  simp only [Kdf.derive_ok P (show sharedSecretLen ≤ 255 * 32 by decide)]
  cases IdentityKeyPair.verify E bobBundle.identityVerifyingKey bobBundle.signedPreKey.toVec bobBundle.signature with
  | false =>
    refine iff_of_false ?_ (by simp)
    rintro ⟨⟩
  | true => exact ⟨fun h => ⟨rfl, (Except.ok.inj h).symm⟩, fun h => h.2 ▸ rfl⟩

theorem respond_eq (bobIdentity : IdentityKeyPair) (bobSpk : SignedPreKey) (bobOpk : Option OneTimePreKey)
    (aliceIdentityPub aliceEphemeralPub : PublicKey) :
    respond P bobIdentity bobSpk bobOpk aliceIdentityPub aliceEphemeralPub = .ok
      { sharedSecret := secretOf P (bobSpk.dh P aliceIdentityPub) (bobIdentity.dh P aliceEphemeralPub)
          (bobSpk.dh P aliceEphemeralPub) (bobOpk.map fun opk => opk.dh P aliceEphemeralPub)
        ephemeralKey := aliceEphemeralPub } := by
  unfold respond
  simp only [Kdf.derive_ok P (show sharedSecretLen ≤ 255 * 32 by decide)]
  rfl

theorem length_dhConcat (dh1 dh2 dh3 : B) (dh4 : Option B) : ByteString.length (dhConcat dh1 dh2 dh3 dh4) =
    ByteString.length dh1 + ByteString.length dh2 + ByteString.length dh3 + (dh4.map ByteString.length).getD 0 := by
  cases dh4 <;> simp [dhConcat, ByteString.length_append]

/-- Where HKDF has no collisions, a secret with a fourth output is none without. -/
theorem secretOf_some_ne_none (hinj : ∀ salt info n, Function.Injective fun ikm : B => P.hkdf salt ikm info n)
    (dh1 dh2 dh3 : B) {dh4 : B} (h4 : 0 < ByteString.length dh4) :
    secretOf P dh1 dh2 dh3 (some dh4) ≠ secretOf P dh1 dh2 dh3 none := by
  intro h
  have hlen := congrArg ByteString.length (hinj _ _ _ h)
  simp only [length_dhConcat, Option.map_some, Option.map_none, Option.getD_some, Option.getD_none] at hlen
  omega

end GhostCrypt.X3dh
