/-
`aead/mod.rs`: AES-256-GCM with a random nonce and associated data.
-/
import GhostCrypt.Core.Error
import GhostCrypt.Core.Primitives

namespace GhostCrypt.Aead

variable {B : Type} [ByteString B] (P : Primitives B)

/-- `Encrypted`. -/
structure Encrypted where
  nonce : Bytes
  ciphertext : Bytes
  deriving DecidableEq

/-- A nonce drawn by `generate_nonce`. -/
abbrev Nonce := { b : Bytes // b.length = 12 }

/-- `encrypt`, under the nonce drawn. -/
def encrypt (nonce : Nonce) (key : B) (plaintext associatedData : Bytes) :
    Outcome CryptoError Encrypted :=
  match P.aesGcmEncrypt key nonce.1 plaintext associatedData with
  | some ciphertext => .ok ⟨nonce.1, ciphertext⟩
  | none => .err (.encryption "Encryption failed: aead::Error")

/-- `decrypt`; `Nonce::from_slice` panics unless the nonce has 12 bytes. -/
def decrypt (key : B) (encrypted : Encrypted) (associatedData : Bytes) : Outcome CryptoError Bytes :=
  if encrypted.nonce.length = 12 then
    match P.aesGcmDecrypt key encrypted.nonce encrypted.ciphertext associatedData with
    | some plaintext => .ok plaintext
    | none => .err (.decryption "Decryption failed: aead::Error")
  else .panic

theorem encrypt_ok {nonce : Nonce} {key : B} {plaintext ad : Bytes} {e : Encrypted} :
    encrypt P nonce key plaintext ad = .ok e ↔
      e.nonce = nonce.1 ∧ P.aesGcmEncrypt key nonce.1 plaintext ad = some e.ciphertext := by
  unfold encrypt
  cases h : P.aesGcmEncrypt key nonce.1 plaintext ad with
  | none => simp
  | some c =>
    obtain ⟨n, ct⟩ := e
    simp [eq_comm]

theorem decrypt_ok {key : B} {e : Encrypted} {ad plaintext : Bytes} :
    decrypt P key e ad = .ok plaintext ↔
      e.nonce.length = 12 ∧ P.aesGcmDecrypt key e.nonce e.ciphertext ad = some plaintext := by
  unfold decrypt
  split
  · cases h : P.aesGcmDecrypt key e.nonce e.ciphertext ad <;> simp_all
  · simp_all

theorem decrypt_panic {key : B} {e : Encrypted} {ad : Bytes} :
    decrypt P key e ad = .panic ↔ e.nonce.length ≠ 12 := by
  unfold decrypt
  split
  · cases h : P.aesGcmDecrypt key e.nonce e.ciphertext ad <;> simp_all
  · simp_all

end GhostCrypt.Aead
