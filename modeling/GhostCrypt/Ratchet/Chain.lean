/-
`ratchet/chain.rs` and `ratchet/dh_ratchet.rs`: the symmetric chain and the root-key step.
Counters are `u32` and wrap, as in the release profile.
-/
import GhostCrypt.Core.Kdf
import GhostCrypt.Ratchet.Header

namespace GhostCrypt.Ratchet

variable {B : Type} [ByteString B] (P : Primitives B)

/-! ## The symmetric chain -/

/-- `ChainKey`. -/
structure ChainKey (B : Type) where
  key : B
  index : UInt32
  deriving DecidableEq

/-- `ChainKey::advance`: the message key and the chain moved on. -/
def ChainKey.advance (c : ChainKey B) : Except CryptoError (B × ChainKey B) := do
  let (newChainKey, messageKey) ← Kdf.deriveChainAndMessageKey P c.key
  return (messageKey, { key := newChainKey, index := c.index + 1 })

/-- The chain key after `n` advances. -/
def chainKeyAt (ck : B) : Nat → B
  | 0 => ck
  | n + 1 => P.hmac (chainKeyAt ck n) [0x01]

/-- The message key of the `n`-th message of a chain. -/
def messageKeyAt (ck : B) (n : Nat) : B := P.hmac (chainKeyAt P ck n) [0x02]

/-- A chain that started from `ck` and has been advanced `n` times. -/
def chainAt (ck : B) (n : Nat) : ChainKey B := { key := chainKeyAt P ck n, index := UInt32.ofNat n }

theorem advance_eq (c : ChainKey B) :
    c.advance P = .ok (P.hmac c.key [0x02], { key := P.hmac c.key [0x01], index := c.index + 1 }) := rfl

@[simp] theorem length_messageKeyAt (ck : B) (n : Nat) : ByteString.length (messageKeyAt P ck n) = 32 :=
  P.length_hmac _ _

theorem chainKeyAt_add (ck : B) (m : Nat) : ∀ n, chainKeyAt P ck (m + n) = chainKeyAt P (chainKeyAt P ck m) n
  | 0 => rfl
  | n + 1 => by rw [← Nat.add_assoc, chainKeyAt, chainKeyAt, chainKeyAt_add ck m n]

/-! ## The root-key step -/

/-- `dh_ratchet_step`: 64 bytes from HKDF, the new root key and the new chain key. -/
def dhRatchetStep (rootKey dhOutput : B) : Except CryptoError (B × B) := do
  let derived ← Kdf.derive P dhOutput rootKey (ascii "GhostCrypt_Ratchet") 64
  return (ByteString.lower derived, ByteString.upper derived)

/-- `dh`. -/
def dh (ourSecret : StaticSecret) (theirPublic : PublicKey) : B := P.diffieHellman ourSecret theirPublic

/-- The 64 bytes of a root-key step. -/
def stepBlock (rootKey dhOutput : B) : B :=
  P.hkdf rootKey dhOutput (ascii "GhostCrypt_Ratchet") 64

/-- The root key of a root-key step. -/
def nextRoot (rootKey dhOutput : B) : B := ByteString.lower (stepBlock P rootKey dhOutput)

/-- The chain key of a root-key step. -/
def nextChain (rootKey dhOutput : B) : B := ByteString.upper (stepBlock P rootKey dhOutput)

@[simp] theorem dhRatchetStep_eq (rootKey dhOutput : B) :
    dhRatchetStep P rootKey dhOutput = .ok (nextRoot P rootKey dhOutput, nextChain P rootKey dhOutput) := by
  unfold dhRatchetStep
  rw [Kdf.derive_ok P (by norm_num)]
  rfl

end GhostCrypt.Ratchet
