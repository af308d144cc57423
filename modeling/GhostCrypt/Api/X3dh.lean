/-
The exported key agreement of `api.rs`. `x3dh_initiate` takes an optional one-time pre-key of Bob
and `x3dh_respond` takes none, so the two agree exactly when Alice was given none.
-/
import GhostCrypt.Api.Helpers
import GhostCrypt.Core.Symbolic
import GhostCrypt.X3dh

namespace GhostCrypt.Api

open Identity X3dh

variable {B : Type} [ByteString B] (P : Primitives B) (E : Ed25519)

/-! ## The exported halves -/

/-- `X3dhInitResult`. -/
structure X3dhInitResult (B : Type) where
  sharedSecret : B
  ephemeralPublic : Bytes

/-- `X3dhRespondResult`. -/
structure X3dhRespondResult (B : Type) where
  sharedSecret : B

/-- An optional public key. -/
def optionToPublicKey : Option Bytes → Except String (Option PublicKey)
  | some bytes => some <$> bytesToPublicKey bytes
  | none => .ok none

/-- `x3dh_initiate`, on the ephemeral secret drawn. -/
def x3dhInitiate (ephemeralSecret : StaticSecret) (aliceIdentitySecret aliceSigningSecret bobIdentityPublic
    bobSigningPublic bobSpkPublic bobSpkSignature : Bytes) (bobOpkPublic : Option Bytes) :
    Except String (X3dhInitResult B) := do
  let aliceIdentity ← mapErr (IdentityKeyPair.fromBytes P aliceIdentitySecret aliceSigningSecret)
  let bobIk ← bytesToPublicKey bobIdentityPublic
  let bobSpk ← bytesToPublicKey bobSpkPublic
  let bobVk ← bytesToVerifyingKey E bobSigningPublic
  let bobOpk ← optionToPublicKey bobOpkPublic
  let bundle : PreKeyBundle :=
    { identityKey := bobIk, identityVerifyingKey := bobVk, signedPreKey := bobSpk,
      signature := bobSpkSignature, oneTimePreKey := bobOpk }
  let result ← mapErr (initiate P E ephemeralSecret aliceIdentity bundle)
  return { sharedSecret := result.sharedSecret, ephemeralPublic := result.ephemeralKey.toVec }

/-- `x3dh_respond`; no one-time pre-key reaches `respond`. -/
def x3dhRespond (bobIdentitySecret bobSigningSecret bobSpkSecret bobSpkPublic bobSpkSignature
    aliceIdentityPublic aliceEphemeralPublic : Bytes) : Except String (X3dhRespondResult B) := do
  let bobIdentity ← mapErr (IdentityKeyPair.fromBytes P bobIdentitySecret bobSigningSecret)
  let bobSpk ← mapErr (SignedPreKey.fromBytes bobSpkSecret bobSpkPublic bobSpkSignature)
  let aliceIk ← bytesToPublicKey aliceIdentityPublic
  let aliceEk ← bytesToPublicKey aliceEphemeralPublic
  let result ← mapErr (respond P bobIdentity bobSpk none aliceIk aliceEk)
  return { sharedSecret := result.sharedSecret }

/-! ## What each computes -/

/-- Bob's signed pre-key from its secret, with a signature. -/
def signedPreKey (secretSeed : Bytes32) (signature : Bytes) : SignedPreKey :=
  { secretSeed, x25519Secret := ⟨secretSeed⟩, x25519Public := P.publicKey ⟨secretSeed⟩, signature }

theorem identity_fromBytes (secretSeed : Bytes32) (signingKey : SigningKey) :
    mapErr (IdentityKeyPair.fromBytes P secretSeed.1 signingKey.bytes.1) =
      .ok (IdentityKeyPair.generate P secretSeed signingKey) := by
  simp only [IdentityKeyPair.fromBytes, secretSeed.2, signingKey.bytes.2]
  rfl

theorem optionToPublicKey_toVec : ∀ k : Option PublicKey, optionToPublicKey (k.map PublicKey.toVec) = .ok k
  | none => rfl
  | some k => by
    rw [Option.map_some, optionToPublicKey, bytesToPublicKey_toVec]
    rfl

theorem signedPreKey_fromBytes (secretSeed : Bytes32) {signature : Bytes} (h : signature.length = 64) :
    mapErr (SignedPreKey.fromBytes secretSeed.1 (P.publicKey ⟨secretSeed⟩).toVec signature) =
      .ok (signedPreKey P secretSeed signature) := by
  simp only [SignedPreKey.fromBytes, secretSeed.2, PublicKey.length_toVec, h]
  rfl

theorem length_of_verify {E : Ed25519} {key : VerifyingKey} {message signature : Bytes}
    (h : IdentityKeyPair.verify E key message signature = true) : signature.length = 64 := by
  unfold IdentityKeyPair.verify at h
  split at h
  · assumption
  · cases h

variable {P E}

/-- A successful `x3dh_initiate` on published keys. -/
theorem x3dhInitiate_ok {ephemeralSecret : StaticSecret} {aliceSeed : Bytes32} {aliceSigning : SigningKey}
    {bobIk bobSpk : PublicKey} {bobVk signature : Bytes} {bobOpk : Option PublicKey} {r : X3dhInitResult B}
    (h : x3dhInitiate P E ephemeralSecret aliceSeed.1 aliceSigning.bytes.1 bobIk.toVec bobVk bobSpk.toVec signature
      (bobOpk.map PublicKey.toVec) = .ok r) :
    signature.length = 64 ∧
      r.sharedSecret = secretOf P (P.diffieHellman ⟨aliceSeed⟩ bobSpk) (P.diffieHellman ephemeralSecret bobIk)
        (P.diffieHellman ephemeralSecret bobSpk) (bobOpk.map fun opk => P.diffieHellman ephemeralSecret opk) ∧
      r.ephemeralPublic = (P.publicKey ephemeralSecret).toVec := by
  unfold x3dhInitiate at h
  rw [identity_fromBytes, bytesToPublicKey_toVec, bytesToPublicKey_toVec, optionToPublicKey_toVec] at h
  cases hvk : bytesToVerifyingKey E bobVk with
  | error e =>
    rw [hvk] at h
    cases h
  | ok vk =>
    rw [hvk] at h
    cases hinit : initiate P E ephemeralSecret (IdentityKeyPair.generate P aliceSeed aliceSigning)
        ⟨bobIk, vk, bobSpk, signature, bobOpk⟩ with
    | error e =>
      simp only [bind, Except.bind, hinit] at h
      cases h
    | ok result =>
      simp only [bind, Except.bind, hinit] at h
      obtain ⟨hverify, rfl⟩ := initiate_ok.1 hinit
      obtain rfl := Except.ok.inj h
      exact ⟨length_of_verify hverify, rfl, rfl⟩

theorem x3dhRespond_eq (bobSeed spkSeed : Bytes32) (bobSigning : SigningKey) {signature : Bytes}
    (hsig : signature.length = 64) (aliceIk aliceEk : PublicKey) :
    x3dhRespond P bobSeed.1 bobSigning.bytes.1 spkSeed.1 (P.publicKey ⟨spkSeed⟩).toVec signature
      aliceIk.toVec aliceEk.toVec =
    .ok ⟨secretOf P (P.diffieHellman ⟨spkSeed⟩ aliceIk) (P.diffieHellman ⟨bobSeed⟩ aliceEk)
      (P.diffieHellman ⟨spkSeed⟩ aliceEk) none⟩ := by
  unfold x3dhRespond
  rw [identity_fromBytes, signedPreKey_fromBytes P spkSeed hsig, bytesToPublicKey_toVec, bytesToPublicKey_toVec]
  simp only [bind, Except.bind, respond_eq]
  rfl

/-! ## Agreement -/

variable (P) in
/-- What X25519 and HKDF promise here. -/
structure Agreeable : Prop where
  commutes : ∀ a b, P.diffieHellman a (P.publicKey b) = P.diffieHellman b (P.publicKey a)
  collisionFree : ∀ salt info n, Function.Injective fun ikm : B => P.hkdf salt ikm info n

section

variable {aliceSeed bobSeed spkSeed ephemeralSeed : Bytes32} {aliceSigning bobSigning : SigningKey} {signature : Bytes}
  {r : X3dhInitResult B}

/-- Where Diffie-Hellman commutes, the two agree exactly if the fourth output makes no difference to the secret. -/
theorem x3dhRespond_eq_ok_iff (hdh : ∀ a b, P.diffieHellman a (P.publicKey b) = P.diffieHellman b (P.publicKey a))
    (bobOpk : Option PublicKey)
    (h : x3dhInitiate P E ⟨ephemeralSeed⟩ aliceSeed.1 aliceSigning.bytes.1 (P.publicKey ⟨bobSeed⟩).toVec
      (E.verifyingKey bobSigning).bytes.1 (P.publicKey ⟨spkSeed⟩).toVec signature
      (bobOpk.map PublicKey.toVec) = .ok r) :
    x3dhRespond P bobSeed.1 bobSigning.bytes.1 spkSeed.1 (P.publicKey ⟨spkSeed⟩).toVec signature
      (P.publicKey ⟨aliceSeed⟩).toVec r.ephemeralPublic = .ok ⟨r.sharedSecret⟩ ↔
    let secret := secretOf P (P.diffieHellman ⟨spkSeed⟩ (P.publicKey ⟨aliceSeed⟩))
      (P.diffieHellman ⟨bobSeed⟩ (P.publicKey ⟨ephemeralSeed⟩))
      (P.diffieHellman ⟨spkSeed⟩ (P.publicKey ⟨ephemeralSeed⟩))
    secret none = secret (bobOpk.map fun opk => P.diffieHellman ⟨ephemeralSeed⟩ opk) := by
  obtain ⟨hsig, hsecret, hephemeral⟩ := x3dhInitiate_ok h
  rw [hephemeral, x3dhRespond_eq bobSeed spkSeed bobSigning hsig, hsecret, hdh ⟨aliceSeed⟩,
    hdh ⟨ephemeralSeed⟩ ⟨bobSeed⟩, hdh ⟨ephemeralSeed⟩ ⟨spkSeed⟩, Except.ok.injEq, X3dhRespondResult.mk.injEq]

/-- So they agree without a one-time pre-key, whatever HKDF does. -/
theorem x3dhRespond_eq_ok (hdh : ∀ a b, P.diffieHellman a (P.publicKey b) = P.diffieHellman b (P.publicKey a))
    (h : x3dhInitiate P E ⟨ephemeralSeed⟩ aliceSeed.1 aliceSigning.bytes.1 (P.publicKey ⟨bobSeed⟩).toVec
      (E.verifyingKey bobSigning).bytes.1 (P.publicKey ⟨spkSeed⟩).toVec signature none = .ok r) :
    x3dhRespond P bobSeed.1 bobSigning.bytes.1 spkSeed.1 (P.publicKey ⟨spkSeed⟩).toVec signature
      (P.publicKey ⟨aliceSeed⟩).toVec r.ephemeralPublic = .ok ⟨r.sharedSecret⟩ :=
  (x3dhRespond_eq_ok_iff hdh none h).2 rfl

end

/-- When `x3dh_initiate` succeeds on Bob's published keys, `x3dh_respond` computes the same secret
exactly when no one-time pre-key of Bob's was used. -/
theorem x3dh_agree_iff (hP : Agreeable P) (aliceSeed bobSeed spkSeed ephemeralSeed : Bytes32)
    (aliceSigning bobSigning : SigningKey) (signature : Bytes) (bobOpk : Option OneTimePreKey) {r : X3dhInitResult B}
    (h : x3dhInitiate P E ⟨ephemeralSeed⟩ aliceSeed.1 aliceSigning.bytes.1 (P.publicKey ⟨bobSeed⟩).toVec
      (E.verifyingKey bobSigning).bytes.1 (P.publicKey ⟨spkSeed⟩).toVec signature
      (bobOpk.map fun opk => opk.x25519Public.toVec) = .ok r) :
    x3dhRespond P bobSeed.1 bobSigning.bytes.1 spkSeed.1 (P.publicKey ⟨spkSeed⟩).toVec signature
      (P.publicKey ⟨aliceSeed⟩).toVec r.ephemeralPublic = .ok ⟨r.sharedSecret⟩ ↔ bobOpk = none := by
  cases bobOpk with
  | none => exact iff_of_true (x3dhRespond_eq_ok hP.commutes h) rfl
  | some opk =>
    -- a fourth output makes a longer input, and so another secret
    rw [x3dhRespond_eq_ok_iff hP.commutes (some opk.x25519Public) h]
    refine iff_of_false (fun heq => ?_) (Option.some_ne_none opk)
    refine secretOf_some_ne_none hP.collisionFree _ _ _ ?_ heq.symm
    rw [P.length_diffieHellman]
    decide

end GhostCrypt.Api

/-! ## A sample agreement -/

namespace GhostCrypt.Sample

open Identity

/-- A sample Ed25519, in which the signature of every message is 64 zero bytes. -/
def ed25519 : Ed25519 where
  verifyingKey k := ⟨k.bytes⟩
  fromBytes b := .ok ⟨b⟩
  sign _ _ := ⟨List.replicate 64 0, by simp⟩
  verify _ _ signature := signature.1 = List.replicate 64 0

theorem agreeable : Api.Agreeable aead where
  commutes _ _ := congrArg Symbolic.Term.dh Sym2.eq_swap
  collisionFree _ _ _ _ _ h := (Symbolic.Term.hkdf.inj h).2.1

/-- Alice's call on the keys of a sample Bob. -/
def initiateWith (bobOpk : Option OneTimePreKey) : Except String (Api.X3dhInitResult Key) :=
  Api.x3dhInitiate aead ed25519 ⟨bytes32 4⟩ (bytes32 1).1 (bytes32 5).1 (pub ⟨bytes32 2⟩).toVec
    (ed25519.verifyingKey ⟨bytes32 6⟩).bytes.1 (pub ⟨bytes32 3⟩).toVec (List.replicate 64 0)
    (bobOpk.map fun opk => opk.x25519Public.toVec)

end GhostCrypt.Sample

namespace GhostCrypt.Api

open Identity X3dh

/-- Without a one-time pre-key. -/
theorem x3dh_agree_iff_without : ∃ r, Sample.initiateWith none = .ok r ∧
    (x3dhRespond Sample.aead (Sample.bytes32 2).1 (Sample.bytes32 6).1 (Sample.bytes32 3).1
      (Sample.pub ⟨Sample.bytes32 3⟩).toVec (List.replicate 64 0) (Sample.pub ⟨Sample.bytes32 1⟩).toVec
      r.ephemeralPublic = .ok ⟨r.sharedSecret⟩ ↔ (none : Option OneTimePreKey) = none) :=
  ⟨_, rfl, x3dh_agree_iff Sample.agreeable (E := Sample.ed25519) (Sample.bytes32 1) (Sample.bytes32 2)
    (Sample.bytes32 3) (Sample.bytes32 4) ⟨Sample.bytes32 5⟩ ⟨Sample.bytes32 6⟩ (List.replicate 64 0) none rfl⟩

/-- With the first one-time pre-key of a batch, the two secrets differ. -/
theorem x3dh_disagree :
    ¬ ∀ (aliceSeed bobSeed spkSeed ephemeralSeed : Bytes32) (aliceSigning bobSigning : SigningKey) (signature : Bytes)
      (bobOpk : Option OneTimePreKey) (r : X3dhInitResult Key),
      (∀ opk ∈ bobOpk, ∃ seeds, opk ∈ OneTimePreKey.generateBatch Sample.aead seeds) →
      x3dhInitiate Sample.aead Sample.ed25519 ⟨ephemeralSeed⟩ aliceSeed.1 aliceSigning.bytes.1
        (Sample.pub ⟨bobSeed⟩).toVec (Sample.ed25519.verifyingKey bobSigning).bytes.1 (Sample.pub ⟨spkSeed⟩).toVec
        signature (bobOpk.map fun opk => opk.x25519Public.toVec) = .ok r →
      x3dhRespond Sample.aead bobSeed.1 bobSigning.bytes.1 spkSeed.1 (Sample.pub ⟨spkSeed⟩).toVec signature
        (Sample.pub ⟨aliceSeed⟩).toVec r.ephemeralPublic = .ok ⟨r.sharedSecret⟩ := by
  intro h
  have hagree := h (Sample.bytes32 1) (Sample.bytes32 2) (Sample.bytes32 3) (Sample.bytes32 4) ⟨Sample.bytes32 5⟩
    ⟨Sample.bytes32 6⟩ (List.replicate 64 0) (some (OneTimePreKey.generate Sample.aead 0 (Sample.bytes32 7))) _
    (by rintro opk ⟨⟩; exact ⟨[Sample.bytes32 7], List.mem_singleton_self _⟩) rfl
  -- three outputs on Bob's side, four on Alice's
  have hconcat := (Symbolic.Term.hkdf.inj (X3dhRespondResult.mk.inj (Except.ok.inj hagree))).2.1
  cases hconcat

end GhostCrypt.Api
