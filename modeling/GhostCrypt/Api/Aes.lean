/-
The exported decryptions of `api.rs` and where they panic. The key of `aes_decrypt` is checked and its
nonce is not; a session's header key and nonce are checked by neither the store nor the session.
-/
import GhostCrypt.Core.Symbolic
import GhostCrypt.Ratchet.Panic

namespace GhostCrypt.Api

open Ratchet

variable {B : Type} [ByteString B] (P : Primitives B)

/-! ## AES-256-GCM under a caller's key -/

/-- `SimpleEncryptResult`. -/
structure SimpleEncryptResult where
  ciphertext : Bytes
  nonce : Bytes
  deriving DecidableEq

/-- `aes_encrypt`, under the nonce drawn. -/
def aesEncrypt (nonce : Aead.Nonce) (key plaintext : Bytes) : Outcome String SimpleEncryptResult :=
  if key.length ≠ 32 then .err s!"Key must be 32 bytes, got {key.length}"
  else ((Aead.encrypt P nonce (ByteString.ofBytes key) plaintext []).mapErr CryptoError.display).map fun encrypted =>
    { ciphertext := encrypted.ciphertext, nonce := encrypted.nonce }

/-- `aes_decrypt`. -/
def aesDecrypt (key ciphertext nonce : Bytes) : Outcome String Bytes :=
  if key.length ≠ 32 then .err s!"Key must be 32 bytes, got {key.length}"
  else (Aead.decrypt P (ByteString.ofBytes key) ⟨nonce, ciphertext⟩ []).mapErr CryptoError.display

theorem mapErr_eq_panic {ε ε' α : Type} {f : ε → ε'} {x : Outcome ε α} : x.mapErr f = .panic ↔ x = .panic := by
  cases x <;> simp [Outcome.mapErr]

theorem aesDecrypt_panic {key ciphertext nonce : Bytes} :
    aesDecrypt P key ciphertext nonce = .panic ↔ key.length = 32 ∧ nonce.length ≠ 12 := by
  unfold aesDecrypt
  by_cases hkey : key.length = 32
  · rw [if_neg (not_not.2 hkey), mapErr_eq_panic, Aead.decrypt_panic]
    exact (and_iff_right hkey).symm
  · rw [if_pos hkey]
    exact iff_of_false (by simp) fun h => hkey h.1

/-- `aes_decrypt` undoes `aes_encrypt` where AES-GCM decrypts what it encrypted. -/
theorem aesDecrypt_aesEncrypt {nonce : Aead.Nonce} {key plaintext : Bytes} {r : SimpleEncryptResult}
    (hinverts : ∀ ciphertext, P.aesGcmEncrypt (ByteString.ofBytes key) nonce.1 plaintext [] = some ciphertext →
      P.aesGcmDecrypt (ByteString.ofBytes key) nonce.1 ciphertext [] = some plaintext)
    (h : aesEncrypt P nonce key plaintext = .ok r) : aesDecrypt P key r.ciphertext r.nonce = .ok plaintext := by
  unfold aesEncrypt at h
  split at h
  · cases h
  · rename_i hkey
    obtain ⟨encrypted, hencrypted, rfl⟩ := Outcome.map_eq_ok.1 h
    cases henc : Aead.encrypt P nonce (ByteString.ofBytes key) plaintext [] with
    | ok e =>
      rw [henc] at hencrypted
      obtain rfl := Outcome.ok.inj hencrypted
      obtain ⟨hnonce, hseal⟩ := (Aead.encrypt_ok P).1 henc
      have hopen : Aead.decrypt P (ByteString.ofBytes key) ⟨e.nonce, e.ciphertext⟩ [] = .ok plaintext :=
        (Aead.decrypt_ok P).2 ⟨hnonce ▸ nonce.2, by rw [hnonce]; exact hinverts _ hseal⟩
      unfold aesDecrypt
      rw [if_neg hkey, hopen]
      rfl
    | err e =>
      rw [henc] at hencrypted
      cases hencrypted
    | panic =>
      rw [henc] at hencrypted
      cases hencrypted

/-! ## Panics -/

/-- `decrypt` returns exactly when the lengths it relies on are right, and so does `aes_decrypt`. -/
theorem decryption_returns_iff :
    (∀ (fresh : StaticSecret) (s : Session B) (header : MessageHeader) (encrypted : Aead.Encrypted),
      (s.decrypt P fresh header encrypted).1 ≠ .panic ↔ s.WellFormed header encrypted) ∧
    (∀ key ciphertext nonce : Bytes,
      aesDecrypt P key ciphertext nonce ≠ .panic ↔ (key.length = 32 → nonce.length = 12)) := by
  constructor
  · intro fresh s header encrypted
    rw [ne_eq, Session.decrypt_panic_iff, not_not]
  · intro key ciphertext nonce
    rw [ne_eq, aesDecrypt_panic, not_and, ne_eq, not_not]

/-- A header with an empty key panics in the first `decrypt` of a responder. -/
theorem decryption_panics :
    ¬ ((∀ (fresh : StaticSecret) (s : Session Key) (header : MessageHeader) (encrypted : Aead.Encrypted),
        s.Reachable Sample.aead → (s.decrypt Sample.aead fresh header encrypted).1 ≠ .panic) ∧
      (∀ key ciphertext nonce : Bytes, aesDecrypt Sample.aead key ciphertext nonce ≠ .panic)) := by
  rintro ⟨h, -⟩
  refine h Sample.freshSecret Sample.bob ⟨[], 0, 0⟩ Sample.garbage Sample.bob_created.reachable ?_
  exact (Session.decrypt_panic_iff Sample.aead _ _ _ _).2 fun hw => absurd (hw.1 rfl) (by decide)

end GhostCrypt.Api
