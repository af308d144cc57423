/-
`ratchet/state.rs`: the Double Ratchet session. Randomness is an argument: the nonce drawn by
`encrypt`, and the secret `decrypt` draws if it performs a DH ratchet. `decrypt` is split where it
calls the AEAD: `takeMessageKey` is everything before, and decides the state the call leaves.
-/
import GhostCrypt.Core.Aead
import GhostCrypt.Identity.Keys
import GhostCrypt.Ratchet.Chain
import Mathlib.Data.Finmap

namespace GhostCrypt.Ratchet

variable {B : Type} [ByteString B] (P : Primitives B)

/-- `MAX_SKIP`. -/
def maxSkip : Nat := 100

/-- The stored keys: `(dh_public_bytes, message_number) ↦ message_key`. -/
abbrev SkippedKeys (B : Type) := Finmap fun _ : Bytes × UInt32 => B

/-- `Session`. -/
structure Session (B : Type) where
  rootKey : B
  dhSecret : StaticSecret
  dhPublic : PublicKey
  remoteDhPublic : Option PublicKey
  sendingChain : Option (ChainKey B)
  receivingChain : Option (ChainKey B)
  previousSendingChainLength : UInt32
  skippedKeys : SkippedKeys B

namespace Session

/-! ## Creation -/

/-- `init_alice`, on the secret drawn. -/
def initAlice (fresh : StaticSecret) (sharedSecret : B) (bobSpkPublic : PublicKey) :
    Outcome CryptoError (Session B) :=
  let dhOutput := dh P fresh bobSpkPublic
  match dhRatchetStep P sharedSecret dhOutput with
  | .ok (rootKey, chainKey) =>
    .ok { rootKey, dhSecret := fresh, dhPublic := P.publicKey fresh, remoteDhPublic := some bobSpkPublic,
          sendingChain := some { key := chainKey, index := 0 }, receivingChain := none,
          previousSendingChainLength := 0, skippedKeys := ∅ }
  | .error _ => .panic

/-- `init_bob`. -/
def initBob (sharedSecret : B) (ourSpk : Identity.SignedPreKey) : Session B :=
  { rootKey := sharedSecret, dhSecret := ⟨ourSpk.secretSeed⟩, dhPublic := ourSpk.x25519Public,
    remoteDhPublic := none, sendingChain := none, receivingChain := none,
    previousSendingChainLength := 0, skippedKeys := ∅ }

/-! ## Encrypt -/

/-- `try_into::<[u8; 32]>` of a message key. -/
def tryInto32 (key : B) (msg : String) : Outcome CryptoError B :=
  if ByteString.length key = 32 then .ok key else .err (.ratchet msg)

/-- `encrypt` up to the AEAD call: the header and the message key. -/
def nextMessageKey (s : Session B) : Outcome CryptoError (MessageHeader × B) × Session B :=
  match s.sendingChain with
  | none => (.err (.ratchet "No sending chain established"), s)
  | some sendingChain =>
    match sendingChain.advance P with
    | .error e => (.err e, s)
    | .ok (messageKey, sendingChain) =>
      let s := { s with sendingChain := some sendingChain }
      let msgNum := sendingChain.index - 1
      let header := MessageHeader.new s.dhPublic msgNum s.previousSendingChainLength
      match tryInto32 messageKey "Invalid message key length" with
      | .ok key => (.ok (header, key), s)
      | .err e => (.err e, s)
      | .panic => (.panic, s)

/-- `encrypt`, under the nonce drawn. -/
def encrypt (nonce : Aead.Nonce) (s : Session B) (plaintext : Bytes) :
    Outcome CryptoError (MessageHeader × Aead.Encrypted) × Session B :=
  Outcome.andThen (s.nextMessageKey P) fun (header, key) s =>
    match Aead.encrypt P nonce key plaintext header.toBytes with
    | .ok encrypted => (.ok (header, encrypted), s)
    | .err e => (.err e, s)
    | .panic => (.panic, s)

/-! ## Decrypt -/

/-- The loop `while recv_chain.index() < up_to`, storing the keys it passes under `dhBytes`. Each
turn raises the index, so `upTo - index` turns are fuel enough (`skipLoop_fuel`). -/
def skipLoop (dhBytes : Bytes) (upTo : UInt32) :
    Nat → ChainKey B → SkippedKeys B → Outcome CryptoError Unit × ChainKey B × SkippedKeys B
  | 0, recvChain, skipped => (.ok (), recvChain, skipped)
  | fuel + 1, recvChain, skipped =>
    if recvChain.index < upTo then
      match recvChain.advance P with
      | .error e => (.err e, recvChain, skipped)
      | .ok (skippedMk, recvChain) =>
        let skipped := skipped.insert (dhBytes, recvChain.index - 1) skippedMk
        -- the limit is tested after the insertion
        if skipped.keys.card > maxSkip then
          (.err (.ratchet "Too many skipped messages"), recvChain, skipped)
        else skipLoop dhBytes upTo fuel recvChain skipped
    else (.ok (), recvChain, skipped)

/-- `skipLoop` on a session's receiving chain `recvChain`. -/
def skipUntil (dhBytes : Bytes) (upTo : UInt32) (recvChain : ChainKey B) (s : Session B) :
    Outcome CryptoError (ChainKey B) × Session B :=
  match skipLoop P dhBytes upTo (upTo.toNat - recvChain.index.toNat) recvChain s.skippedKeys with
  | (.ok (), recvChain, skipped) =>
    (.ok recvChain, { s with receivingChain := some recvChain, skippedKeys := skipped })
  | (.err e, recvChain, skipped) =>
    (.err e, { s with receivingChain := some recvChain, skippedKeys := skipped })
  | (.panic, recvChain, skipped) =>
    (.panic, { s with receivingChain := some recvChain, skippedKeys := skipped })

/-- `skip_current_receiving_chain`. -/
def skipCurrentReceivingChain (s : Session B) (upTo : UInt32) : Outcome CryptoError Unit × Session B :=
  match s.receivingChain, s.remoteDhPublic with
  | some recvChain, some remote =>
    Outcome.andThen (s.skipUntil P remote.toVec upTo recvChain) fun _ s => (.ok (), s)
  | _, _ => (.ok (), s)

/-- The DH ratchet of `decrypt` (step 2, after the skipping), on the secret drawn. -/
def dhRatchet (fresh : StaticSecret) (s : Session B) (headerDhPublic : PublicKey) :
    Outcome CryptoError Unit × Session B :=
  match dhRatchetStep P s.rootKey (dh P s.dhSecret headerDhPublic) with
  | .error e => (.err e, s)
  | .ok (rootKey, recvChainKey) =>
    let s := { s with
      rootKey, receivingChain := some { key := recvChainKey, index := 0 },
      remoteDhPublic := some headerDhPublic,
      previousSendingChainLength := (s.sendingChain.map ChainKey.index).getD 0 }
    match dhRatchetStep P s.rootKey (dh P fresh headerDhPublic) with
    | .error e => (.err e, s)
    | .ok (rootKey, sendChainKey) =>
      (.ok (), { s with
        rootKey, dhSecret := fresh, dhPublic := P.publicKey fresh,
        sendingChain := some { key := sendChainKey, index := 0 } })

/-- Steps 3 and 4 of `decrypt`: skip ahead in the receiving chain, then derive this message's key. -/
def receivingKey (s : Session B) (header : MessageHeader) : Outcome CryptoError B × Session B :=
  match s.receivingChain with
  | none => (.err (.ratchet "No receiving chain established"), s)
  | some recvChain =>
    Outcome.andThen (s.skipUntil P header.dhPublicKey header.messageNumber recvChain) fun recvChain s =>
      match recvChain.advance P with
      | .error e => (.err e, s)
      | .ok (messageKey, recvChain) =>
        (tryInto32 messageKey "Invalid message key length", { s with receivingChain := some recvChain })

/-- `need_ratchet`. -/
def needRatchet (s : Session B) (headerDhPublic : PublicKey) : Bool := s.remoteDhPublic != some headerDhPublic

/-- `decrypt` up to the AEAD call: the message key the session has for this header. -/
def takeMessageKey (fresh : StaticSecret) (s : Session B) (header : MessageHeader) :
    Outcome CryptoError B × Session B :=
  match s.skippedKeys.lookup (header.dhPublicKey, header.messageNumber) with
  | some storedMk =>
    (tryInto32 storedMk "Invalid skipped key length",
      { s with skippedKeys := s.skippedKeys.erase (header.dhPublicKey, header.messageNumber) })
  | none =>
    match header.toPublicKey with
    | none => (.panic, s)
    | some headerDhPublic =>
      if s.needRatchet headerDhPublic then
        Outcome.andThen (s.skipCurrentReceivingChain P header.previousChainLength) fun _ s =>
        Outcome.andThen (s.dhRatchet P fresh headerDhPublic) fun _ s =>
        s.receivingKey P header
      else s.receivingKey P header

/-- `decrypt`, on the secret drawn if it performs a DH ratchet. -/
def decrypt (fresh : StaticSecret) (s : Session B) (header : MessageHeader) (encrypted : Aead.Encrypted) :
    Outcome CryptoError Bytes × Session B :=
  Outcome.andThen (s.takeMessageKey P fresh header) fun key s =>
    (Aead.decrypt P key encrypted header.toBytes, s)

end Session

end GhostCrypt.Ratchet
