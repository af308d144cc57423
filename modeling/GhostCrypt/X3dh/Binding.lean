/-
What the shared secret depends on. The three or four Diffie-Hellman outputs pin down the keys of both
halves, so two calls get one secret exactly if they used the same keys.
-/
import GhostCrypt.X3dh.Server

namespace GhostCrypt.X3dh

open Identity

variable {B : Type} [ByteString B] {P : Primitives B} {E : Ed25519}

variable (P) in
/-- X25519 outputs are equal exactly for the same two public keys, and HKDF has no collisions. -/
structure CollisionFree : Prop where
  diffieHellman : ∀ a b p q, P.diffieHellman a p = P.diffieHellman b q ↔ s(P.publicKey a, p) = s(P.publicKey b, q)
  hkdf : ∀ salt info n, Function.Injective fun ikm : B => P.hkdf salt ikm info n

/-! ## The outputs -/

/-- Three outputs side by side give each of them. -/
theorem append_three_inj [LawfulByteString B] {a b c a' b' c' : B} (ha : ByteString.length a = ByteString.length a')
    (hb : ByteString.length b = ByteString.length b')
    (h : ByteString.append (ByteString.append a b) c = ByteString.append (ByteString.append a' b') c') :
    a = a' ∧ b = b' ∧ c = c' := by
  have hlen : ByteString.length (ByteString.append a b) = ByteString.length (ByteString.append a' b') := by
    rw [ByteString.length_append, ByteString.length_append, ha, hb]
  obtain ⟨hab, rfl⟩ := LawfulByteString.append_inj hlen h
  obtain ⟨rfl, rfl⟩ := LawfulByteString.append_inj ha hab
  exact ⟨rfl, rfl, rfl⟩

/-- The secrets of 32-byte outputs are equal exactly if the outputs are, the fourth included. -/
theorem secretOf_inj [LawfulByteString B] (hP : CollisionFree P) {a b c a' b' c' : B} {d d' : Option B}
    (hlen : ∀ x ∈ [a, b, c, a', b', c'], ByteString.length x = 32)
    (hd : ∀ x ∈ d, ByteString.length x = 32) (hd' : ∀ x ∈ d', ByteString.length x = 32) :
    secretOf P a b c d = secretOf P a' b' c' d' ↔ a = a' ∧ b = b' ∧ c = c' ∧ d = d' := by
  simp only [List.forall_mem_cons, List.not_mem_nil, false_imp_iff, implies_true, and_true] at hlen
  obtain ⟨ha, hb, hc, ha', hb', hc'⟩ := hlen
  constructor
  · intro h
    have hconcat : dhConcat a b c d = dhConcat a' b' c' d' := hP.hkdf _ _ _ h
    have hlen := congrArg ByteString.length hconcat
    simp only [length_dhConcat, ha, hb, hc, ha', hb', hc', Nat.add_left_cancel_iff] at hlen
    cases d with
    | none =>
      cases d' with
      | none =>
        obtain ⟨rfl, rfl, rfl⟩ := append_three_inj (ha.trans ha'.symm) (hb.trans hb'.symm) hconcat
        exact ⟨rfl, rfl, rfl, rfl⟩
      | some y =>
        -- a fourth output on one side only shows in the length
        simp [hd' y rfl] at hlen
    | some x =>
      cases d' with
      | none =>
        simp [hd x rfl] at hlen
      | some y =>
        have hthree : ByteString.length (ByteString.append (ByteString.append a b) c) =
            ByteString.length (ByteString.append (ByteString.append a' b') c') := by
          simp only [ByteString.length_append, ha, hb, hc, ha', hb', hc']
        obtain ⟨h3, rfl⟩ := LawfulByteString.append_inj hthree hconcat
        obtain ⟨rfl, rfl, rfl⟩ := append_three_inj (ha.trans ha'.symm) (hb.trans hb'.symm) h3
        exact ⟨rfl, rfl, rfl, rfl⟩
  · rintro ⟨rfl, rfl, rfl, rfl⟩
    rfl

/-- A key that is not in a pair can only be matched by the other member. -/
theorem pair_eq_iff {e k k' q : PublicKey} (hne : e ≠ k') : s(e, k) = s(k', q) ↔ k' = k ∧ q = e := by
  rw [Sym2.eq_iff]
  constructor
  · rintro (⟨h, -⟩ | ⟨rfl, rfl⟩)
    · exact absurd h hne
    · exact ⟨rfl, rfl⟩
  · rintro ⟨rfl, rfl⟩
    exact .inr ⟨rfl, rfl⟩

/-- Outputs with two one-time pre-keys, if any. -/
theorem map_dh_eq_iff (hP : CollisionFree P) {ephemeralSecret : StaticSecret} {opk : Option PublicKey}
    {bobOpk : Option OneTimePreKey} {aliceEphemeralPub : PublicKey}
    (hne : ∀ k ∈ bobOpk, P.publicKey ephemeralSecret ≠ P.publicKey k.x25519Secret)
    (hephemeral : aliceEphemeralPub = P.publicKey ephemeralSecret) :
    (opk.map fun opk => P.diffieHellman ephemeralSecret opk) = (bobOpk.map fun opk => opk.dh P aliceEphemeralPub) ↔
      (bobOpk.map fun opk => P.publicKey opk.x25519Secret) = opk := by
  cases opk with
  | none =>
    cases bobOpk with
    | none => exact iff_of_true rfl rfl
    | some k => exact iff_of_false (by rintro ⟨⟩) (by rintro ⟨⟩)
  | some opk =>
    cases bobOpk with
    | none => exact iff_of_false (by rintro ⟨⟩) (by rintro ⟨⟩)
    | some k =>
      simp only [Option.map_some, Option.some.injEq, OneTimePreKey.dh, hP.diffieHellman, pair_eq_iff (hne k rfl)]
      exact and_iff_left hephemeral

/-! ## The keys -/

/-- The secret of a responder equals that of an initiator exactly if the responder's keys are those of
the bundle, one-time pre-key or none included, and the public keys it was given are the initiator's. -/
theorem shared_secret_eq_iff [LawfulByteString B] (hP : CollisionFree P) {ephemeralSecret : StaticSecret}
    {aliceIdentity : IdentityKeyPair} {bundle : PreKeyBundle} {r r' : X3DHResult B}
    (hinitiate : initiate P E ephemeralSecret aliceIdentity bundle = .ok r) {bobIdentity : IdentityKeyPair}
    {bobSpk : SignedPreKey} {bobOpk : Option OneTimePreKey} {aliceIdentityPub aliceEphemeralPub : PublicKey}
    (hrespond : respond P bobIdentity bobSpk bobOpk aliceIdentityPub aliceEphemeralPub = .ok r')
    (hidentity : P.publicKey ephemeralSecret ≠ P.publicKey bobIdentity.x25519Secret)
    (hspk : P.publicKey ephemeralSecret ≠ P.publicKey bobSpk.x25519Secret)
    (hopk : ∀ k ∈ bobOpk, P.publicKey ephemeralSecret ≠ P.publicKey k.x25519Secret) :
    r.sharedSecret = r'.sharedSecret ↔
      P.publicKey bobIdentity.x25519Secret = bundle.identityKey ∧
      P.publicKey bobSpk.x25519Secret = bundle.signedPreKey ∧
      (bobOpk.map fun opk => P.publicKey opk.x25519Secret) = bundle.oneTimePreKey ∧
      aliceIdentityPub = P.publicKey aliceIdentity.x25519Secret ∧ aliceEphemeralPub = r.ephemeralKey := by
  obtain ⟨-, rfl⟩ := initiate_ok.1 hinitiate
  rw [respond_eq] at hrespond
  obtain rfl := Except.ok.inj hrespond
  have hlength : ∀ (o : Option B), (∀ x ∈ o, ∃ a p, x = P.diffieHellman a p) → ∀ x ∈ o, ByteString.length x = 32 := by
    intro o ho x hx
    obtain ⟨a, p, rfl⟩ := ho x hx
    exact P.length_diffieHellman a p
  rw [secretOf_inj hP]
  · simp only [IdentityKeyPair.dh, SignedPreKey.dh, hP.diffieHellman, pair_eq_iff hidentity, pair_eq_iff hspk]
    constructor
    · rintro ⟨h1, ⟨h2, hephemeral⟩, ⟨h3, -⟩, h4⟩
      refine ⟨h2, h3, (map_dh_eq_iff hP hopk hephemeral).1 h4, ?_, hephemeral⟩
      -- the pre-key is the same, so what is left of the first pair is too
      rw [h3, Sym2.eq_swap, Sym2.congr_right] at h1
      exact h1.symm
    · rintro ⟨h2, h3, h4, rfl, hephemeral⟩
      refine ⟨?_, ⟨h2, hephemeral⟩, ⟨h3, hephemeral⟩, (map_dh_eq_iff hP hopk hephemeral).2 h4⟩
      rw [h3, Sym2.eq_swap]
  · intro x hx
    simp only [List.mem_cons, List.not_mem_nil, or_false] at hx
    rcases hx with rfl | rfl | rfl | rfl | rfl | rfl <;> exact P.length_diffieHellman _ _
  · apply hlength
    intro x hx
    obtain ⟨k, -, rfl⟩ := Option.map_eq_some_iff.1 hx
    exact ⟨_, _, rfl⟩
  · apply hlength
    intro x hx
    obtain ⟨k, -, rfl⟩ := Option.map_eq_some_iff.1 hx
    exact ⟨_, _, rfl⟩

end GhostCrypt.X3dh

/-! ## A sample agreement -/

namespace GhostCrypt.Sample

open Identity X3dh

theorem collisionFree : CollisionFree aead where
  diffieHellman _ _ _ _ := ⟨fun h => Symbolic.Term.dh.inj h, fun h => congrArg Symbolic.Term.dh h⟩
  hkdf _ _ _ _ _ h := (Symbolic.Term.hkdf.inj h).2.1

/-- Bob's signed pre-key, a one-time pre-key of his, and the bundle with both. -/
def bobSpk : SignedPreKey := SignedPreKey.generate aead naming bobIdentity (bytes32 4)

def bobOpk : OneTimePreKey := OneTimePreKey.generate aead 0 (bytes32 10)

def bobBundle : PreKeyBundle :=
  { identityKey := bobIdentity.x25519Public, identityVerifyingKey := bobIdentity.verifyingKey naming
    signedPreKey := bobSpk.x25519Public, signature := bobSpk.signature, oneTimePreKey := some bobOpk.x25519Public }

end GhostCrypt.Sample

namespace GhostCrypt.X3dh

/-- Carol initiates with Bob's bundle, and Bob responds with the keys of it. -/
theorem shared_secret_eq_iff_sample : ∃ r r' : X3DHResult Key,
    initiate Sample.aead Sample.naming ⟨Sample.bytes32 11⟩ Sample.carolIdentity Sample.bobBundle = .ok r ∧
    respond Sample.aead Sample.bobIdentity Sample.bobSpk (some Sample.bobOpk) Sample.carolIdentity.x25519Public
      r.ephemeralKey = .ok r' ∧
    (r.sharedSecret = r'.sharedSecret ↔
      Sample.pub Sample.bobIdentity.x25519Secret = Sample.bobBundle.identityKey ∧
      Sample.pub Sample.bobSpk.x25519Secret = Sample.bobBundle.signedPreKey ∧
      (some Sample.bobOpk).map (fun opk => Sample.pub opk.x25519Secret) = Sample.bobBundle.oneTimePreKey ∧
      Sample.carolIdentity.x25519Public = Sample.pub Sample.carolIdentity.x25519Secret ∧
      r.ephemeralKey = r.ephemeralKey) := by
  have hverify := Server.verify_sign Sample.server_sound.verifies Sample.bobIdentity.signingKey
    Sample.bobSpk.x25519Public.toVec
  have hinitiate : initiate Sample.aead Sample.naming ⟨Sample.bytes32 11⟩ Sample.carolIdentity Sample.bobBundle =
      .ok _ :=
    initiate_ok.2 ⟨hverify, rfl⟩
  have hrespond := respond_eq (P := Sample.aead) Sample.bobIdentity Sample.bobSpk (some Sample.bobOpk)
    Sample.carolIdentity.x25519Public (Sample.pub ⟨Sample.bytes32 11⟩)
  exact ⟨_, _, hinitiate, hrespond, shared_secret_eq_iff Sample.collisionFree hinitiate hrespond (by decide) (by decide)
    (by rintro _ ⟨⟩; decide)⟩

end GhostCrypt.X3dh
