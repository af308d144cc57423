/-
The crates over symbolic byte strings: X25519, HKDF and HMAC as free operations. AES-GCM works on
actual bytes and stays a parameter.
-/
import GhostCrypt.Core.Primitives
import GhostCrypt.Lib.Symbolic

namespace GhostCrypt

/-- Key material as symbolic terms. -/
abbrev Key := Symbolic.Term StaticSecret PublicKey

instance : ByteString Key where
  ofBytes := .bytes
  length := Symbolic.Term.length
  append := .append
  lower := .lower
  upper := .upper
  length_append := fun _ _ => rfl

instance : LawfulByteString Key where
  append_inj _ h := Symbolic.Term.append.inj h

/-- The symbolic crates, on a public-key map and an AEAD. -/
def symbolic (pub : StaticSecret → PublicKey)
    (aesGcmEncrypt aesGcmDecrypt : Key → Bytes → Bytes → Bytes → Option Bytes) : Primitives Key where
  publicKey := pub
  diffieHellman a p := .dh s(pub a, p)
  hkdf := .hkdf
  hmac := .hmac
  aesGcmEncrypt
  aesGcmDecrypt
  length_diffieHellman := fun _ _ => rfl
  length_hkdf := fun _ _ _ _ => rfl
  length_hmac := fun _ _ => rfl

namespace Sample

/-- A sample public-key map, injective. -/
def pub (s : StaticSecret) : PublicKey := ⟨s.bytes⟩

/-- Sealing in a sample AEAD: the message and a tag of 16 zero bytes. -/
def sealMsg (_ : Key) (_ msg _ : Bytes) : Option Bytes := some (msg ++ List.replicate 16 0)

/-- Opening in the sample AEAD: like AES-GCM it opens what it sealed, and rejects what is shorter
than a tag. -/
def openMsg (_ : Key) (_ ciphertext _ : Bytes) : Option Bytes :=
  if 16 ≤ ciphertext.length then some (ciphertext.take (ciphertext.length - 16)) else none

/-- The sample crates. -/
def aead : Primitives Key := symbolic pub sealMsg openMsg

/-- The 32 bytes that are all `b`. -/
def bytes32 (b : UInt8) : Bytes32 := ⟨List.replicate 32 b, by simp⟩

end Sample

end GhostCrypt
