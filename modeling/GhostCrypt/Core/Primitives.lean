/-
Byte strings, keys and the cryptographic crates.

`Bytes` are the bytes that cross the wire. Key material (root keys, chain keys, message keys,
Diffie-Hellman outputs) is a `Vec<u8>` in the source as well; here it is any type `B` of byte
strings, with the operations the source uses on it, so that the same definitions run on actual
bytes and on the symbolic terms of `Symbolic.Term`. The crates (x25519-dalek, hkdf, hmac, sha2,
aes-gcm) are a structure of functions with the output lengths they document.
-/
import Mathlib.Data.List.Basic

namespace GhostCrypt

/-! ## Bytes and fixed-size keys -/

abbrev Bytes := List UInt8

instance bytes_lawfulBEq : LawfulBEq Bytes := List.instLawfulBEq

/-- The bytes of an ASCII text, as in `b"..."`. -/
def ascii (s : String) : Bytes := s.toList.map fun c => UInt8.ofNat c.toNat

/-- `[u8; 32]`. -/
abbrev Bytes32 := { b : Bytes // b.length = 32 }

/-- An X25519 secret, `x25519_dalek::StaticSecret`. -/
structure StaticSecret where
  bytes : Bytes32
  deriving DecidableEq

/-- An X25519 public key, `x25519_dalek::PublicKey`; equality is equality of bytes. -/
structure PublicKey where
  bytes : Bytes32
  deriving DecidableEq

/-- `as_bytes().to_vec()`. -/
def PublicKey.toVec (k : PublicKey) : Bytes := k.bytes.1

@[simp] theorem PublicKey.length_toVec (k : PublicKey) : k.toVec.length = 32 := k.bytes.2

theorem PublicKey.toVec_injective : Function.Injective PublicKey.toVec := by
  rintro ⟨⟨a, ha⟩⟩ ⟨⟨b, hb⟩⟩ h
  simp only [toVec] at h
  subst h; rfl

@[simp] theorem PublicKey.toVec_inj {a b : PublicKey} : a.toVec = b.toVec ↔ a = b :=
  toVec_injective.eq_iff

/-- `copy_from_slice` into a `[u8; 32]`: the array, or nothing where the copy panics. -/
def toArray32 (b : Bytes) : Option Bytes32 :=
  if h : b.length = 32 then some ⟨b, h⟩ else none

@[simp] theorem toArray32_val (b : Bytes32) : toArray32 b.1 = some b := by
  simp [toArray32, b.2]

theorem toArray32_eq_none {b : Bytes} : toArray32 b = none ↔ b.length ≠ 32 := by
  simp [toArray32]

theorem toArray32_eq_some {b : Bytes} {a : Bytes32} : toArray32 b = some a ↔ b = a.1 := by
  constructor
  · intro h
    unfold toArray32 at h
    split at h
    · cases h; rfl
    · cases h
  · rintro rfl; exact toArray32_val a

/-! ## Key material -/

/-- A type of byte strings for key material: literals, lengths, concatenation, and the two slices
`[..32]` and `[32..]`. -/
class ByteString (B : Type) where
  ofBytes : Bytes → B
  length : B → Nat
  append : B → B → B
  lower : B → B
  upper : B → B
  length_append : ∀ a b, length (append a b) = length a + length b

namespace ByteString

instance : ByteString Bytes where
  ofBytes := id
  length := List.length
  append := List.append
  lower := List.take 32
  upper := List.drop 32
  length_append := fun _ _ => List.length_append

end ByteString

/-- Two concatenations whose first parts have one length are equal part by part. -/
class LawfulByteString (B : Type) [ByteString B] : Prop where
  append_inj : ∀ {a b c d : B}, ByteString.length a = ByteString.length c →
    ByteString.append a b = ByteString.append c d → a = c ∧ b = d

instance : LawfulByteString Bytes where
  append_inj hlen h := List.append_inj h hlen

/-- The functions of the cryptographic crates, with the output lengths they document. `aesGcm…`
are AES-256-GCM under a 32-byte key and a 12-byte nonce; sealing fails on oversized messages. -/
structure Primitives (B : Type) [ByteString B] where
  publicKey : StaticSecret → PublicKey
  diffieHellman : StaticSecret → PublicKey → B
  hkdf : (salt ikm : B) → (info : Bytes) → (length : Nat) → B
  hmac : (key : B) → (data : Bytes) → B
  aesGcmEncrypt : (key : B) → (nonce msg aad : Bytes) → Option Bytes
  aesGcmDecrypt : (key : B) → (nonce ciphertext aad : Bytes) → Option Bytes
  length_diffieHellman : ∀ a p, ByteString.length (diffieHellman a p) = 32
  length_hkdf : ∀ salt ikm info n, ByteString.length (hkdf salt ikm info n) = n
  length_hmac : ∀ key data, ByteString.length (hmac key data) = 32

end GhostCrypt
