/-
A key-distribution server that answers with bundles of its own making. `initiate` checks the signature
of the pre-key under the verifying key of the same bundle, and nothing ties that key to the identity
key. So the pre-key is one the owner of the identity key signed exactly if the verifying key is hers.
-/
import Mathlib.Data.Set.Disjoint
import GhostCrypt.Core.Symbolic
import GhostCrypt.X3dh

namespace GhostCrypt.X3dh

open Identity

variable {B : Type} [ByteString B]

/-! ## What the server can answer -/

/-- The users who publish their keys at the server, the seeds of the pre-keys they signed and their
one-time pre-keys; the server's own keys; and the other bytes it may give for a signature. -/
structure Server where
  users : Set IdentityKeyPair
  preKeySeeds : IdentityKeyPair → Set Bytes32
  oneTimePreKeys : IdentityKeyPair → Set OneTimePreKey
  secrets : Set StaticSecret
  signingKeys : Set SigningKey
  otherBytes : Set Bytes

namespace Server

variable (P : Primitives B) (E : Ed25519) (S : Server)

/-- The signed pre-keys a user has published. -/
def signedPreKeys (user : IdentityKeyPair) : Set SignedPreKey :=
  {spk | ∃ seed ∈ S.preKeySeeds user, spk = SignedPreKey.generate P E user seed}

/-- The user's identity key signed this pre-key. -/
def SignedBy (user : IdentityKeyPair) (key : PublicKey) : Prop :=
  ∃ spk ∈ S.signedPreKeys P E user, spk.x25519Public = key

def verifyingKeys : Set VerifyingKey :=
  {vk | (∃ user ∈ S.users, vk = user.verifyingKey E) ∨ ∃ k ∈ S.signingKeys, vk = E.verifyingKey k}

def preKeys : Set PublicKey :=
  {key | (∃ user ∈ S.users, S.SignedBy P E user key) ∨ ∃ s ∈ S.secrets, key = P.publicKey s}

/-- Signatures that users published, signatures of the server's own keys on anything, and noise. -/
def signatures : Set Bytes :=
  {sig | (∃ user ∈ S.users, ∃ spk ∈ S.signedPreKeys P E user, sig = spk.signature) ∨
    (∃ k ∈ S.signingKeys, ∃ message, sig = (E.sign k message).1) ∨ sig ∈ S.otherBytes}

def identityKeys : Set PublicKey :=
  {key | (∃ user ∈ S.users, key = user.x25519Public) ∨ ∃ s ∈ S.secrets, key = P.publicKey s}

def publishedOneTimePreKeys : Set PublicKey :=
  {key | (∃ user ∈ S.users, ∃ opk ∈ S.oneTimePreKeys user, key = opk.x25519Public) ∨
    ∃ s ∈ S.secrets, key = P.publicKey s}

/-- A bundle put together from published fields and the server's own keys. -/
structure Assembles (bundle : PreKeyBundle) : Prop where
  identityKey : bundle.identityKey ∈ S.identityKeys P
  identityVerifyingKey : bundle.identityVerifyingKey ∈ S.verifyingKeys E
  signedPreKey : bundle.signedPreKey ∈ S.preKeys P E
  signature : bundle.signature ∈ S.signatures P E
  oneTimePreKey : ∀ key ∈ bundle.oneTimePreKey, key ∈ S.publishedOneTimePreKeys P

/-- No one but its owner signs under an identity key. -/
def Unforgeable : Prop :=
  ∀ user ∈ S.users, ∀ key, ∀ sig ∈ S.signatures P E,
    IdentityKeyPair.verify E (user.verifyingKey E) key.toVec sig = true → S.SignedBy P E user key

/-- Ed25519 works and is unforgeable; every user has published a signed pre-key; users do not sign the
same pre-key, nor a key of the server's, and it has one. -/
structure Sound : Prop where
  verifies : ∀ k message, E.verify (E.verifyingKey k) message (E.sign k message) = true
  unforgeable : S.Unforgeable P E
  published : ∀ user ∈ S.users, ∃ key, S.SignedBy P E user key
  apart : ∀ user ∈ S.users, ∀ other ∈ S.users, ∀ key, S.SignedBy P E user key → S.SignedBy P E other key → user = other
  own : ∃ s ∈ S.secrets, ∀ user ∈ S.users, ¬ S.SignedBy P E user (P.publicKey s)

/-! ## Substituted pre-keys -/

variable {P E S}

theorem verify_sign (hverifies : ∀ k message, E.verify (E.verifyingKey k) message (E.sign k message) = true)
    (k : SigningKey) (message : Bytes) :
    IdentityKeyPair.verify E (E.verifyingKey k) message (E.sign k message).1 = true := by
  unfold IdentityKeyPair.verify
  rw [dif_pos (E.sign k message).2]
  exact hverifies k message

/-- Under any verifying key but `user`'s the server has a pre-key to offer that verifies and that
`user` did not sign. -/
theorem exists_substitute (hS : S.Sound P E) {user : IdentityKeyPair} (huser : user ∈ S.users) {vk : VerifyingKey}
    (hvk : vk ∈ S.verifyingKeys E) (hne : vk ≠ user.verifyingKey E) :
    ∃ key ∈ S.preKeys P E, ∃ sig ∈ S.signatures P E,
      IdentityKeyPair.verify E vk key.toVec sig = true ∧ ¬ S.SignedBy P E user key := by
  rcases hvk with ⟨other, hother, rfl⟩ | ⟨k, hk, rfl⟩
  · -- another user's pre-key, with its signature
    obtain ⟨_, spk, ⟨seed, hseed, rfl⟩, rfl⟩ := hS.published other hother
    have hsigned : S.SignedBy P E other (SignedPreKey.generate P E other seed).x25519Public :=
      ⟨_, ⟨seed, hseed, rfl⟩, rfl⟩
    refine ⟨_, .inl ⟨other, hother, hsigned⟩, _, .inl ⟨other, hother, _, ⟨seed, hseed, rfl⟩, rfl⟩, ?_, fun h => ?_⟩
    · exact verify_sign hS.verifies other.signingKey _
    · exact hne (congrArg (IdentityKeyPair.verifyingKey E) (hS.apart other hother user huser _ hsigned h))
  · -- a pre-key of the server's, signed by itself
    obtain ⟨s, hs, hnot⟩ := hS.own
    exact ⟨_, .inr ⟨s, hs, rfl⟩, _, .inr (.inl ⟨k, hk, _, rfl⟩), verify_sign hS.verifies k _, hnot user huser⟩

/-- Among the bundles with the identity key of `bob` and the verifying key `vk`, `initiate` accepts
only such as carry a pre-key that `bob` signed exactly if `vk` is `bob`'s verifying key. -/
theorem initiate_signed_iff (hS : S.Sound P E) {bob : IdentityKeyPair} (hbob : bob ∈ S.users) {vk : VerifyingKey}
    (hvk : vk ∈ S.verifyingKeys E) :
    (∀ bundle, S.Assembles P E bundle → bundle.identityKey = bob.x25519Public → bundle.identityVerifyingKey = vk →
      ∀ ephemeralSecret aliceIdentity r, initiate P E ephemeralSecret aliceIdentity bundle = .ok r →
        S.SignedBy P E bob bundle.signedPreKey) ↔ vk = bob.verifyingKey E := by
  constructor
  · intro h
    by_contra hne
    obtain ⟨key, hkey, sig, hsig, hverify, hnot⟩ := exists_substitute hS hbob hvk hne
    let bundle : PreKeyBundle := ⟨bob.x25519Public, vk, key, sig, none⟩
    have hassembles : S.Assembles P E bundle :=
      ⟨.inl ⟨bob, hbob, rfl⟩, hvk, hkey, hsig, fun _ hmem => by cases hmem⟩
    obtain ⟨s, -, -⟩ := hS.own
    exact hnot (h bundle hassembles rfl rfl s bob _ (initiate_ok.2 ⟨hverify, rfl⟩))
  · rintro rfl bundle hassembles - hbundle ephemeralSecret aliceIdentity r hok
    obtain ⟨hverify, -⟩ := initiate_ok.1 hok
    rw [hbundle] at hverify
    exact hS.unforgeable bob hbob _ _ hassembles.signature hverify

end Server

end GhostCrypt.X3dh

/-! ## A sample server -/

namespace GhostCrypt.Sample

open Identity X3dh

/-- A message as 32 bytes, cut or filled up with zeros. -/
def fit (message : Bytes) : Bytes := (message ++ List.replicate 32 0).take 32

/-- A sample Ed25519, in which a signature names the key and the message. -/
def naming : Ed25519 where
  verifyingKey k := ⟨k.bytes⟩
  fromBytes b := .ok ⟨b⟩
  sign k message := ⟨k.bytes.1 ++ fit message, by simp [fit, k.bytes.2]⟩
  verify key message signature := signature.1 = key.bytes.1 ++ fit message

/-- Bob and Carol, as the server knows them. -/
def bobIdentity : IdentityKeyPair := IdentityKeyPair.generate aead (bytes32 2) ⟨bytes32 6⟩

def carolIdentity : IdentityKeyPair := IdentityKeyPair.generate aead (bytes32 3) ⟨bytes32 7⟩

/-- A server with keys of its own. -/
def server : Server where
  users := {bobIdentity, carolIdentity}
  preKeySeeds user := if user = bobIdentity then {bytes32 4} else {bytes32 5}
  oneTimePreKeys _ := ∅
  secrets := {⟨bytes32 8⟩}
  signingKeys := {⟨bytes32 9⟩}
  otherBytes := ∅

theorem fit_toVec (key : PublicKey) : fit key.toVec = key.toVec := by
  unfold fit
  rw [List.take_append_of_le_length key.length_toVec.ge, List.take_of_length_le key.length_toVec.le]

theorem verify_naming {k : SigningKey} {key : PublicKey} {message : Bytes} {v : VerifyingKey}
    (h : IdentityKeyPair.verify naming v key.toVec (k.bytes.1 ++ fit message) = true) :
    v.bytes = k.bytes ∧ key.toVec = fit message := by
  unfold IdentityKeyPair.verify at h
  split at h
  · have heq := of_decide_eq_true h
    obtain ⟨hk, hm⟩ := List.append_inj heq (by rw [k.bytes.2, v.bytes.2])
    exact ⟨Subtype.ext hk.symm, by rw [← fit_toVec key, hm]⟩
  · cases h

theorem server_signedBy {user : IdentityKeyPair} {key : PublicKey} : server.SignedBy aead naming user key ↔
    key = pub ⟨if user = bobIdentity then bytes32 4 else bytes32 5⟩ := by
  constructor
  · rintro ⟨_, ⟨seed, hseed, rfl⟩, rfl⟩
    have heq : seed = if user = bobIdentity then bytes32 4 else bytes32 5 := by
      simp only [server] at hseed
      split at hseed <;> rename_i h <;> simpa [h] using hseed
    rw [← heq]
    rfl
  · rintro rfl
    refine ⟨_, ⟨if user = bobIdentity then bytes32 4 else bytes32 5, ?_, rfl⟩, rfl⟩
    simp only [server]
    split <;> rfl

theorem server_unforgeable : server.Unforgeable aead naming := by
  rintro user huser key sig (⟨other, hother, spk, ⟨seed, hseed, rfl⟩, rfl⟩ | ⟨k, hk, message, rfl⟩ | hnone) hverify
  · obtain ⟨hkey, hmessage⟩ := verify_naming (k := other.signingKey) hverify
    -- the verifying key is that of the user who signed
    have hsame : user = other := by
      rcases huser with rfl | rfl <;> rcases hother with rfl | rfl
      · rfl
      · exact absurd hkey (by decide)
      · exact absurd hkey (by decide)
      · rfl
    rw [fit_toVec] at hmessage
    rw [hsame, PublicKey.toVec_injective hmessage]
    exact ⟨_, ⟨seed, hseed, rfl⟩, rfl⟩
  · obtain rfl := hk
    obtain ⟨hkey, -⟩ := verify_naming hverify
    rcases huser with rfl | rfl <;> exact absurd hkey (by decide)
  · cases hnone

theorem server_sound : server.Sound aead naming where
  verifies _ _ := decide_eq_true rfl
  unforgeable := server_unforgeable
  published user _ := ⟨_, server_signedBy.2 rfl⟩
  apart := by
    intro user huser other hother key h h'
    rw [server_signedBy] at h h'
    have heq := h.symm.trans h'
    rcases huser with rfl | rfl <;> rcases hother with rfl | rfl
    · rfl
    · exact absurd heq (by decide)
    · exact absurd heq (by decide)
    · rfl
  own := by
    refine ⟨⟨bytes32 8⟩, rfl, fun user huser h => ?_⟩
    rw [server_signedBy] at h
    rcases huser with rfl | rfl <;> exact absurd h (by decide)

end GhostCrypt.Sample

namespace GhostCrypt.X3dh.Server

open Identity

/-- The server's own verifying key, in a bundle with Bob's identity key. -/
theorem initiate_signed_iff_own :
    (∀ bundle, Sample.server.Assembles Sample.aead Sample.naming bundle →
      bundle.identityKey = Sample.bobIdentity.x25519Public → bundle.identityVerifyingKey = ⟨Sample.bytes32 9⟩ →
      ∀ ephemeralSecret aliceIdentity r,
        initiate Sample.aead Sample.naming ephemeralSecret aliceIdentity bundle = .ok r →
        Sample.server.SignedBy Sample.aead Sample.naming Sample.bobIdentity bundle.signedPreKey) ↔
      (⟨Sample.bytes32 9⟩ : VerifyingKey) = Sample.bobIdentity.verifyingKey Sample.naming :=
  initiate_signed_iff Sample.server_sound (.inl rfl) (.inr ⟨_, rfl, rfl⟩)

/-- The server's own pre-key and verifying key next to Bob's identity key: `initiate` accepts. -/
theorem initiate_accepts_substitute :
    ¬ ∀ bundle, Sample.server.Assembles Sample.aead Sample.naming bundle →
      bundle.identityKey = Sample.bobIdentity.x25519Public →
      ∀ ephemeralSecret aliceIdentity r,
        initiate Sample.aead Sample.naming ephemeralSecret aliceIdentity bundle = .ok r →
        Sample.server.SignedBy Sample.aead Sample.naming Sample.bobIdentity bundle.signedPreKey := by
  intro h
  let key : PublicKey := Sample.pub ⟨Sample.bytes32 8⟩
  let bundle : PreKeyBundle :=
    ⟨Sample.bobIdentity.x25519Public, ⟨Sample.bytes32 9⟩, key, (Sample.naming.sign ⟨Sample.bytes32 9⟩ key.toVec).1,
      none⟩
  have hassembles : Sample.server.Assembles Sample.aead Sample.naming bundle :=
    ⟨.inl ⟨_, .inl rfl, rfl⟩, .inr ⟨_, rfl, rfl⟩, .inr ⟨_, rfl, rfl⟩, .inr (.inl ⟨_, rfl, _, rfl⟩), by rintro _ ⟨⟩⟩
  have hverify := verify_sign Sample.server_sound.verifies ⟨Sample.bytes32 9⟩ key.toVec
  have hsigned := h bundle hassembles rfl ⟨Sample.bytes32 1⟩ Sample.carolIdentity _ (initiate_ok.2 ⟨hverify, rfl⟩)
  rw [Sample.server_signedBy] at hsigned
  exact absurd hsigned (by decide)

end GhostCrypt.X3dh.Server
