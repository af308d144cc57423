/-
`pqc/hybrid_kem.rs`: X25519 and ML-KEM-768 side by side. The two secrets are put one after the other
without lengths, so what keeps them apart is that an X25519 output always has 32 bytes.
-/
import GhostCrypt.Api.X3dh

namespace GhostCrypt.Pqc

/-! ## ML-KEM -/

/-- `HYBRID_SALT`. -/
def hybridSalt {B : Type} [ByteString B] : B := ByteString.ofBytes (ascii "GhostCrypt_Hybrid_PQ")

/-- `HYBRID_INFO`. -/
def hybridInfo : Bytes := ascii "hybrid_shared_secret"

/-- `SHARED_SECRET_LEN`. -/
def sharedSecretLen : Nat := 32

/-- `MLKEM_PUBLIC_KEY_LEN`. -/
def mlkemPublicKeyLen : Nat := 1184

/-- `MLKEM_SECRET_KEY_LEN`. -/
def mlkemSecretKeyLen : Nat := 2400

/-- `MLKEM_CIPHERTEXT_LEN`. -/
def mlkemCiphertextLen : Nat := 1088

/-- An array of `n` bytes, `ml_kem::Encoded` or `ml_kem::Ciphertext`. -/
abbrev Encoded (n : Nat) := { b : Bytes // b.length = n }

/-- ML-KEM-768 of the ml-kem crate, on the randomness drawn. An error is its `Debug` text. -/
structure MlKem (B : Type) where
  Rng : Type
  EncapsulationKey : Type
  DecapsulationKey : Type
  generate : Rng → DecapsulationKey × EncapsulationKey
  publicAsBytes : EncapsulationKey → Encoded mlkemPublicKeyLen
  publicFromBytes : Encoded mlkemPublicKeyLen → EncapsulationKey
  secretAsBytes : DecapsulationKey → Encoded mlkemSecretKeyLen
  secretFromBytes : Encoded mlkemSecretKeyLen → DecapsulationKey
  encapsulate : EncapsulationKey → Rng → Except String (Encoded mlkemCiphertextLen × B)
  decapsulate : DecapsulationKey → Encoded mlkemCiphertextLen → Except String B

section

variable {B : Type} (M : MlKem B)

/-- `generate_kem_keypair`, on the randomness drawn. -/
def generateKemKeypair (rng : M.Rng) : Except CryptoError (Bytes × Bytes) :=
  let (dk, ek) := M.generate rng
  .ok ((M.publicAsBytes ek).1, (M.secretAsBytes dk).1)

/-- `try_into` of a slice, with the error of a wrong length. -/
def toEncoded (what : String) (n : Nat) (bytes : Bytes) : Except CryptoError (Encoded n) :=
  if h : bytes.length = n then .ok ⟨bytes, h⟩
  else .error (.invalidKey s!"ML-KEM {what} must be {n} bytes, got {bytes.length}")

/-- `encapsulate`, on the randomness drawn. -/
def encapsulate (rng : M.Rng) (recipientPublicKey : Bytes) : Except CryptoError (Bytes × B) :=
  match toEncoded "public key" mlkemPublicKeyLen recipientPublicKey with
  | .error e => .error e
  | .ok ekEncoded =>
    match M.encapsulate (M.publicFromBytes ekEncoded) rng with
    | .error e => .error (.keyExchange s!"ML-KEM encapsulation failed: {e}")
    | .ok (ct, ss) => .ok (ct.1, ss)

/-- `decapsulate`. -/
def decapsulate (secretKey ciphertext : Bytes) : Except CryptoError B :=
  match toEncoded "secret key" mlkemSecretKeyLen secretKey with
  | .error e => .error e
  | .ok dkEncoded =>
    match toEncoded "ciphertext" mlkemCiphertextLen ciphertext with
    | .error e => .error e
    | .ok ct =>
      match M.decapsulate (M.secretFromBytes dkEncoded) ct with
      | .error e => .error (.keyExchange s!"ML-KEM decapsulation failed: {e}")
      | .ok ss => .ok ss

theorem toEncoded_eq_ok {what : String} {n : Nat} {bytes : Bytes} {a : Encoded n} :
    toEncoded what n bytes = .ok a ↔ bytes = a.1 := by
  unfold toEncoded
  constructor
  · intro h
    split at h
    · cases h; rfl
    · cases h
  · rintro rfl
    rw [dif_pos a.2]

variable {M}

theorem encapsulate_eq_ok {rng : M.Rng} {publicKey ct : Bytes} {ss : B} :
    encapsulate M rng publicKey = .ok (ct, ss) ↔ ∃ (ek : Encoded mlkemPublicKeyLen) (c : Encoded mlkemCiphertextLen),
      publicKey = ek.1 ∧ ct = c.1 ∧ M.encapsulate (M.publicFromBytes ek) rng = .ok (c, ss) := by
  constructor
  · intro h
    unfold encapsulate at h
    rcases hek : toEncoded "public key" mlkemPublicKeyLen publicKey with e | ek <;> rw [hek] at h
    · cases h
    simp only at h
    rcases henc : M.encapsulate (M.publicFromBytes ek) rng with e | ⟨c, ss'⟩ <;> rw [henc] at h
    · cases h
    cases h
    exact ⟨ek, c, toEncoded_eq_ok.1 hek, rfl, henc⟩
  · rintro ⟨ek, c, rfl, rfl, henc⟩
    unfold encapsulate
    rw [toEncoded_eq_ok.2 rfl]
    simp only [henc]

theorem decapsulate_eq_ok {secretKey ciphertext : Bytes} {ss : B} :
    decapsulate M secretKey ciphertext = .ok ss ↔ ∃ (dk : Encoded mlkemSecretKeyLen) (c : Encoded mlkemCiphertextLen),
      secretKey = dk.1 ∧ ciphertext = c.1 ∧ M.decapsulate (M.secretFromBytes dk) c = .ok ss := by
  constructor
  · intro h
    unfold decapsulate at h
    rcases hdk : toEncoded "secret key" mlkemSecretKeyLen secretKey with e | dk <;> rw [hdk] at h
    · cases h
    simp only at h
    rcases hc : toEncoded "ciphertext" mlkemCiphertextLen ciphertext with e | c <;> rw [hc] at h
    · cases h
    simp only at h
    rcases hdec : M.decapsulate (M.secretFromBytes dk) c with e | ss' <;> rw [hdec] at h
    · cases h
    cases h
    exact ⟨dk, c, toEncoded_eq_ok.1 hdk, toEncoded_eq_ok.1 hc, hdec⟩
  · rintro ⟨dk, c, rfl, rfl, hdec⟩
    unfold decapsulate
    rw [toEncoded_eq_ok.2 rfl, toEncoded_eq_ok.2 rfl]
    simp only [hdec]

end

/-! ## The hybrid -/

/-- `HybridKeyPair`. -/
structure HybridKeyPair where
  x25519Public : Bytes
  x25519Secret : Bytes
  mlkemPublic : Bytes
  mlkemSecret : Bytes
  deriving DecidableEq

/-- `HybridEncapsulation`. -/
structure HybridEncapsulation (B : Type) where
  x25519EphemeralPublic : Bytes
  mlkemCiphertext : Bytes
  sharedSecret : B

section

variable {B : Type} [ByteString B] (P : Primitives B) (M : MlKem B)

/-- `hybrid_shared_secret`. -/
def hybridSharedSecret (x25519Shared mlkemShared : B) : Except CryptoError B :=
  Kdf.derive P (ByteString.append x25519Shared mlkemShared) hybridSalt hybridInfo sharedSecretLen

/-- `generate_hybrid_keypair`, on the secret and the randomness drawn. -/
def generateHybridKeypair (x25519Secret : StaticSecret) (rng : M.Rng) : Except CryptoError HybridKeyPair := do
  let x25519Public := P.publicKey x25519Secret
  let (mlkemPublic, mlkemSecret) ← generateKemKeypair M rng
  return { x25519Public := x25519Public.toVec, x25519Secret := x25519Secret.bytes.1, mlkemPublic, mlkemSecret }

/-- `hybrid_encapsulate`, on the randomness drawn. -/
def hybridEncapsulate (rng : M.Rng) (ourX25519Secret theirX25519Public : Bytes32) (theirMlkemPublic : Bytes) :
    Except CryptoError (HybridEncapsulation B) := do
  let x25519Shared := P.diffieHellman ⟨ourX25519Secret⟩ ⟨theirX25519Public⟩
  let (mlkemCiphertext, mlkemShared) ← encapsulate M rng theirMlkemPublic
  let hybrid ← hybridSharedSecret P x25519Shared mlkemShared
  let ephemeralPub := P.publicKey ⟨ourX25519Secret⟩
  return { x25519EphemeralPublic := ephemeralPub.toVec, mlkemCiphertext, sharedSecret := hybrid }

/-- `hybrid_decapsulate`. -/
def hybridDecapsulate (ourX25519Secret theirX25519Public : Bytes32) (ourMlkemSecret mlkemCiphertext : Bytes) :
    Except CryptoError B := do
  let x25519Shared := P.diffieHellman ⟨ourX25519Secret⟩ ⟨theirX25519Public⟩
  let mlkemShared ← decapsulate M ourMlkemSecret mlkemCiphertext
  hybridSharedSecret P x25519Shared mlkemShared

/-- The combination of two secrets. -/
def combined (x25519Shared mlkemShared : B) : B :=
  P.hkdf hybridSalt (ByteString.append x25519Shared mlkemShared) hybridInfo sharedSecretLen

@[simp] theorem hybridSharedSecret_eq (x25519Shared mlkemShared : B) :
    hybridSharedSecret P x25519Shared mlkemShared = .ok (combined P x25519Shared mlkemShared) :=
  Kdf.derive_ok P (by decide)

variable {P M}

theorem hybridEncapsulate_eq_ok {rng : M.Rng} {secret theirPublic : Bytes32} {mlkemPublic : Bytes}
    {r : HybridEncapsulation B} : hybridEncapsulate P M rng secret theirPublic mlkemPublic = .ok r ↔
      ∃ ss, encapsulate M rng mlkemPublic = .ok (r.mlkemCiphertext, ss) ∧
        r.x25519EphemeralPublic = (P.publicKey ⟨secret⟩).toVec ∧
        r.sharedSecret = combined P (P.diffieHellman ⟨secret⟩ ⟨theirPublic⟩) ss := by
  unfold hybridEncapsulate
  rcases henc : encapsulate M rng mlkemPublic with e | ⟨ct, ss⟩
  · simp only [bind, Except.bind]
    refine iff_of_false (by rintro ⟨⟩) ?_
    rintro ⟨ss, ⟨⟩, -⟩
  · simp only [bind, Except.bind, hybridSharedSecret_eq, pure, Except.pure, Except.ok.injEq]
    constructor
    · rintro rfl
      exact ⟨ss, rfl, rfl, rfl⟩
    · obtain ⟨ephemeral, c, s⟩ := r
      rintro ⟨ss', ⟨⟩, rfl, rfl⟩
      rfl

theorem hybridDecapsulate_eq_ok {secret theirPublic : Bytes32} {mlkemSecret ciphertext : Bytes} {s : B} :
    hybridDecapsulate P M secret theirPublic mlkemSecret ciphertext = .ok s ↔
      ∃ ss, decapsulate M mlkemSecret ciphertext = .ok ss ∧
        s = combined P (P.diffieHellman ⟨secret⟩ ⟨theirPublic⟩) ss := by
  unfold hybridDecapsulate
  rcases hdec : decapsulate M mlkemSecret ciphertext with e | ss
  · simp only [bind, Except.bind]
    refine iff_of_false (by rintro ⟨⟩) ?_
    rintro ⟨ss, ⟨⟩, -⟩
  · simp only [bind, Except.bind, hybridSharedSecret_eq, Except.ok.injEq]
    constructor
    · rintro rfl
      exact ⟨ss, rfl, rfl⟩
    · rintro ⟨ss', rfl, rfl⟩
      rfl

/-! ## Agreement -/

variable (M) in
/-- What ML-KEM promises here: keys survive their encoding, and decapsulation recovers what was encapsulated to the
same pair. -/
structure Recoverable : Prop where
  publicEncoding : ∀ ek, M.publicFromBytes (M.publicAsBytes ek) = ek
  secretEncoding : ∀ dk, M.secretFromBytes (M.secretAsBytes dk) = dk
  recovers : ∀ rng rng' c ss, M.encapsulate (M.generate rng).2 rng' = .ok (c, ss) →
    M.decapsulate (M.generate rng).1 c = .ok ss

variable (P M) in
/-- What X25519, HKDF and ML-KEM promise here. -/
structure Promises : Prop extends Api.Agreeable P, Recoverable M

omit [ByteString B] in
/-- What is encapsulated to a generated pair is recovered by it. -/
theorem decapsulate_encapsulate (h : Recoverable M) {rng rng' : M.Rng} {publicKey secretKey ct : Bytes} {ss : B}
    (hkeys : generateKemKeypair M rng = .ok (publicKey, secretKey))
    (henc : encapsulate M rng' publicKey = .ok (ct, ss)) : decapsulate M secretKey ct = .ok ss := by
  obtain ⟨ek, c, hek, rfl, henc⟩ := encapsulate_eq_ok.1 henc
  unfold generateKemKeypair at hkeys
  simp only [Except.ok.injEq, Prod.mk.injEq] at hkeys
  obtain ⟨rfl, rfl⟩ := hkeys
  obtain rfl := Subtype.ext hek
  rw [h.publicEncoding] at henc
  refine decapsulate_eq_ok.2 ⟨_, c, rfl, rfl, ?_⟩
  rw [h.secretEncoding]
  exact h.recovers rng rng' c ss henc

theorem generateHybridKeypair_eq_ok {x25519Secret : StaticSecret} {rng : M.Rng} {keys : HybridKeyPair} :
    generateHybridKeypair P M x25519Secret rng = .ok keys ↔
      generateKemKeypair M rng = .ok (keys.mlkemPublic, keys.mlkemSecret) ∧
        keys.x25519Public = (P.publicKey x25519Secret).toVec ∧ keys.x25519Secret = x25519Secret.bytes.1 := by
  unfold generateHybridKeypair
  rcases hkem : generateKemKeypair M rng with e | ⟨mlkemPublic, mlkemSecret⟩
  · cases hkem
  · simp only [bind, Except.bind, pure, Except.pure, Except.ok.injEq]
    constructor
    · rintro rfl
      exact ⟨rfl, rfl, rfl⟩
    · obtain ⟨x25519Public, secret, mlkemPublic', mlkemSecret'⟩ := keys
      rintro ⟨⟨⟩, rfl, rfl⟩
      rfl

/-- A recipient of a hybrid encapsulation decapsulates the same secret, whatever HKDF does. -/
theorem hybridDecapsulate_encapsulated
    (hdh : ∀ a b, P.diffieHellman a (P.publicKey b) = P.diffieHellman b (P.publicKey a)) (h : Recoverable M)
    {x25519Secret : StaticSecret} {rng rng' : M.Rng} {keys : HybridKeyPair}
    (hkeys : generateHybridKeypair P M x25519Secret rng = .ok keys) {ourSecret theirPublic theirSecret : Bytes32}
    (hpublic : toArray32 keys.x25519Public = some theirPublic)
    (hsecret : toArray32 keys.x25519Secret = some theirSecret) {r : HybridEncapsulation B}
    (hr : hybridEncapsulate P M rng' ourSecret theirPublic keys.mlkemPublic = .ok r) :
    ∃ ephemeral, toArray32 r.x25519EphemeralPublic = some ephemeral ∧
      hybridDecapsulate P M theirSecret ephemeral keys.mlkemSecret r.mlkemCiphertext = .ok r.sharedSecret := by
  obtain ⟨hkem, hx25519Public, hx25519Secret⟩ := generateHybridKeypair_eq_ok.1 hkeys
  obtain ⟨mlkemShared, henc, hephemeral, hshared⟩ := hybridEncapsulate_eq_ok.1 hr
  -- the X25519 keys cross the boundary as bytes and come back as they were
  rw [toArray32_eq_some, hx25519Public] at hpublic
  rw [toArray32_eq_some, hx25519Secret] at hsecret
  obtain rfl : x25519Secret = ⟨theirSecret⟩ := congrArg StaticSecret.mk (Subtype.ext hsecret)
  have hkey : (⟨theirPublic⟩ : PublicKey) = P.publicKey ⟨theirSecret⟩ := PublicKey.toVec_injective hpublic.symm
  refine ⟨(P.publicKey ⟨ourSecret⟩).bytes, by rw [hephemeral]; exact toArray32_val _, ?_⟩
  refine hybridDecapsulate_eq_ok.2 ⟨mlkemShared, decapsulate_encapsulate h hkem henc, ?_⟩
  rw [hshared, hkey, hdh]

/-- Two combinations are equal only part by part, since X25519 outputs have one length. -/
theorem combined_inj [LawfulByteString B]
    (hfree : Function.Injective fun ikm : B => P.hkdf hybridSalt ikm hybridInfo sharedSecretLen)
    {secret secret' : StaticSecret} {theirPublic theirPublic' : PublicKey} {ss ss' : B} :
    combined P (P.diffieHellman secret theirPublic) ss = combined P (P.diffieHellman secret' theirPublic') ss' ↔
      P.diffieHellman secret theirPublic = P.diffieHellman secret' theirPublic' ∧ ss = ss' := by
  constructor
  · intro heq
    have happend := hfree heq
    apply LawfulByteString.append_inj ?_ happend
    rw [P.length_diffieHellman, P.length_diffieHellman]
  · rintro ⟨hdh, rfl⟩
    rw [hdh]

/-- A recipient of a hybrid encapsulation decapsulates the same secret, and any other decapsulation
gives that secret exactly if both its X25519 output and its ML-KEM secret are the sender's. -/
theorem hybrid_agrees_and_binds [LawfulByteString B] (h : Promises P M) {x25519Secret : StaticSecret}
    {rng rng' : M.Rng} {keys : HybridKeyPair} (hkeys : generateHybridKeypair P M x25519Secret rng = .ok keys)
    {ourSecret theirPublic theirSecret : Bytes32} (hpublic : toArray32 keys.x25519Public = some theirPublic)
    (hsecret : toArray32 keys.x25519Secret = some theirSecret) {r : HybridEncapsulation B}
    (hr : hybridEncapsulate P M rng' ourSecret theirPublic keys.mlkemPublic = .ok r) :
    (∃ ephemeral, toArray32 r.x25519EphemeralPublic = some ephemeral ∧
      hybridDecapsulate P M theirSecret ephemeral keys.mlkemSecret r.mlkemCiphertext = .ok r.sharedSecret) ∧
    ∃ mlkemShared, encapsulate M rng' keys.mlkemPublic = .ok (r.mlkemCiphertext, mlkemShared) ∧
      ∀ (secret key : Bytes32) (mlkemSecret ciphertext : Bytes) (s : B),
        hybridDecapsulate P M secret key mlkemSecret ciphertext = .ok s →
          (s = r.sharedSecret ↔ P.diffieHellman ⟨secret⟩ ⟨key⟩ = P.diffieHellman ⟨ourSecret⟩ ⟨theirPublic⟩ ∧
            decapsulate M mlkemSecret ciphertext = .ok mlkemShared) := by
  refine ⟨hybridDecapsulate_encapsulated h.commutes h.toRecoverable hkeys hpublic hsecret hr, ?_⟩
  obtain ⟨mlkemShared, henc, -, hshared⟩ := hybridEncapsulate_eq_ok.1 hr
  refine ⟨mlkemShared, henc, ?_⟩
  intro secret key mlkemSecret ciphertext s hs
  obtain ⟨ss, hdec, rfl⟩ := hybridDecapsulate_eq_ok.1 hs
  rw [hshared, combined_inj (h.collisionFree ..), hdec, Except.ok.injEq]

end

end GhostCrypt.Pqc

/-! ## A sample exchange -/

namespace GhostCrypt.Sample

open Pqc

/-- `n` bytes that start with `tag`. -/
def tagged (n : Nat) (tag : Bytes) : Encoded n := ⟨(tag ++ List.replicate n 0).take n, by simp⟩

/-- A sample ML-KEM: both keys of a pair are the byte drawn for it. A ciphertext names the key and the
byte drawn for it; a secret is determined by these two, and under another key it is another one. -/
def mlkem : MlKem Key where
  Rng := UInt8
  EncapsulationKey := UInt8
  DecapsulationKey := UInt8
  generate rng := (rng, rng)
  publicAsBytes ek := tagged _ [ek]
  publicFromBytes b := b.1.headD 0
  secretAsBytes dk := tagged _ [dk]
  secretFromBytes b := b.1.headD 0
  encapsulate ek rng := .ok (tagged _ [ek, rng], .hmac (.bytes [ek, rng]) [ek])
  decapsulate dk c := .ok (.hmac (.bytes (c.1.take 2)) [dk])

theorem mlkem_promises : Promises aead mlkem where
  toAgreeable := agreeable
  publicEncoding _ := rfl
  secretEncoding _ := rfl
  recovers := by
    rintro _ _ _ _ ⟨⟩
    rfl

end GhostCrypt.Sample

namespace GhostCrypt.Pqc

/-- A recipient with the secret `2` and the byte `7`, a sender with the secret `1` and the byte `9`. -/
theorem hybrid_agrees_and_binds_sample : ∃ (keys : HybridKeyPair) (r : HybridEncapsulation Key),
    generateHybridKeypair Sample.aead Sample.mlkem ⟨Sample.bytes32 2⟩ (7 : UInt8) = .ok keys ∧
    hybridEncapsulate Sample.aead Sample.mlkem (9 : UInt8) (Sample.bytes32 1) (Sample.bytes32 2) keys.mlkemPublic =
      .ok r ∧
    (∃ ephemeral, toArray32 r.x25519EphemeralPublic = some ephemeral ∧
      hybridDecapsulate Sample.aead Sample.mlkem (Sample.bytes32 2) ephemeral keys.mlkemSecret r.mlkemCiphertext =
        .ok r.sharedSecret) ∧
    ∃ mlkemShared, encapsulate Sample.mlkem (9 : UInt8) keys.mlkemPublic = .ok (r.mlkemCiphertext, mlkemShared) ∧
      ∀ (secret key : Bytes32) (mlkemSecret ciphertext : Bytes) (s : Key),
        hybridDecapsulate Sample.aead Sample.mlkem secret key mlkemSecret ciphertext = .ok s →
          (s = r.sharedSecret ↔ Sample.aead.diffieHellman ⟨secret⟩ ⟨key⟩ =
              Sample.aead.diffieHellman ⟨Sample.bytes32 1⟩ ⟨Sample.bytes32 2⟩ ∧
            decapsulate Sample.mlkem mlkemSecret ciphertext = .ok mlkemShared) := by
  have hkeys : generateHybridKeypair Sample.aead Sample.mlkem ⟨Sample.bytes32 2⟩ (7 : UInt8) = .ok _ := rfl
  have henc : encapsulate Sample.mlkem (9 : UInt8) (Sample.mlkem.publicAsBytes (7 : UInt8)).1 = .ok _ :=
    encapsulate_eq_ok.2 ⟨_, _, rfl, rfl, rfl⟩
  have hr : hybridEncapsulate Sample.aead Sample.mlkem (9 : UInt8) (Sample.bytes32 1) (Sample.bytes32 2)
      (Sample.mlkem.publicAsBytes (7 : UInt8)).1 = .ok ⟨_, _, _⟩ :=
    hybridEncapsulate_eq_ok.2 ⟨_, henc, rfl, rfl⟩
  exact ⟨_, _, hkeys, hr, hybrid_agrees_and_binds Sample.mlkem_promises hkeys (toArray32_val _) (toArray32_val _) hr⟩

end GhostCrypt.Pqc
