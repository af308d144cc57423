/-
Where `decrypt` panics: on a header key that is not 32 bytes long, unless a key is stored under it,
and on a nonce that is not 12 bytes long, once a message key has been found.
-/
import GhostCrypt.Ratchet.Bound

namespace GhostCrypt.Ratchet.Session

variable {B : Type} [ByteString B] (P : Primitives B)

/-! ## The condition -/

/-- A skip loop that adds the entries `need` to those stored ends without an error. -/
def HasRoom (stored need : Finset (Bytes × UInt32)) : Prop := need = ∅ ∨ (stored ∪ need).card ≤ maxSkip

/-- A message key is found: a stored one, or one of the receiving chain, after a DH ratchet if the
header names a new remote key. -/
def FindsKey (s : Session B) (header : MessageHeader) : Prop :=
  match s.skippedKeys.lookup (header.dhPublicKey, header.messageNumber), header.toPublicKey with
  | some storedMk, _ => ByteString.length storedMk = 32
  | none, some k =>
    if s.needRatchet k then
      HasRoom s.skippedKeys.keys (s.toSkipOld header) ∧
        HasRoom (s.skippedKeys.keys ∪ s.toSkipOld header) (passed header.dhPublicKey 0 header.messageNumber.toNat)
    else s.receivingChain ≠ none ∧ HasRoom s.skippedKeys.keys (s.toSkipNew header)
  | none, none => False

/-- The lengths a `decrypt` call relies on. -/
def WellFormed (s : Session B) (header : MessageHeader) (encrypted : Aead.Encrypted) : Prop :=
  (s.skippedKeys.lookup (header.dhPublicKey, header.messageNumber) = none → header.dhPublicKey.length = 32) ∧
    (s.FindsKey header → encrypted.nonce.length = 12)

/-! ## The loops -/

theorem passed_eq_empty {dhBytes : Bytes} {i : UInt32} {j : Nat} : passed dhBytes i j = ∅ ↔ j = 0 := by
  rw [passed, Finset.image_eq_empty, Finset.range_eq_empty_iff]

/-- A loop that ended had room. -/
theorem hasRoom_of_done {dhBytes : Bytes} {c : ChainKey B} {n : Nat} {s : Session B}
    (h : 0 < n → (s.skipBy P dhBytes c n).skippedKeys.keys.card ≤ maxSkip) :
    HasRoom s.skippedKeys.keys (passed dhBytes c.index n) := by
  rcases Nat.eq_zero_or_pos n with rfl | hpos
  · exact .inl (passed_eq_empty.2 rfl)
  · rw [HasRoom, ← keys_skipBy P]
    exact .inr (h hpos)

/-- A loop that stopped at the limit had none. -/
theorem not_hasRoom_of_stopped {dhBytes : Bytes} {c : ChainKey B} {j n : Nat} {s : Session B} (h0 : 0 < j) (hjn : j ≤ n)
    (hgt : maxSkip < (s.skipBy P dhBytes c j).skippedKeys.keys.card) :
    ¬ HasRoom s.skippedKeys.keys (passed dhBytes c.index n) := by
  rintro (hempty | hle)
  · have := passed_eq_empty.1 hempty
    omega
  · exact absurd hle (not_le.2 (lt_card_of_stopped P hjn hgt))

theorem receive_findsKey {header : MessageHeader} {s : Session B} {r : Outcome CryptoError B × Session B}
    (hr : ReceiveResult P header s r) :
    (∃ key, r.1 = .ok key) ↔ s.receivingChain ≠ none ∧ HasRoom s.skippedKeys.keys (s.toSkipNew header) := by
  cases hr with
  | noChain hc =>
    refine iff_of_false ?_ fun h => h.1 hc
    rintro ⟨key, ⟨⟩⟩
  | tooMany c j hc h0 hjn hgt =>
    refine iff_of_false ?_ fun h => ?_
    · rintro ⟨key, ⟨⟩⟩
    · rw [toSkipNew, hc] at h
      exact not_hasRoom_of_stopped P h0 hjn hgt h.2
  | key c n hc hn h =>
    refine iff_of_true ⟨_, rfl⟩ ⟨by rw [hc]; exact Option.some_ne_none c, ?_⟩
    have hroom := hasRoom_of_done P h
    rw [hn] at hroom
    rwa [toSkipNew, hc]

/-! ## The call -/

/-- `decrypt` comes to the AEAD exactly when it finds a key. -/
theorem findsKey_iff (fresh : StaticSecret) (s : Session B) (header : MessageHeader) :
    (∃ key, (s.takeMessageKey P fresh header).1 = .ok key) ↔ s.FindsKey header := by
  have htake := takeMessageKey_cases P fresh header s
  generalize s.takeMessageKey P fresh header = r at htake
  rw [FindsKey]
  cases htake with
  | stored mk hl =>
    rw [hl]
    simp only [tryInto32]
    split <;> simp_all
  | badHeader hl hlen =>
    rw [hl, MessageHeader.toPublicKey_eq_none.2 hlen]
    simp
  | current k r hl hk hrem hr =>
    rw [hl, MessageHeader.toPublicKey_eq_some.2 hk, receive_findsKey P hr]
    simp [needRatchet, hrem]
  | oldTooMany k old c j hl hk hrem hne hc h0 hjn hgt =>
    have hneed : s.needRatchet k = true := by simp [needRatchet, hrem, hne]
    rw [hl, MessageHeader.toPublicKey_eq_some.2 hk]
    simp only [hneed, if_true, toSkipOld, hc, hrem]
    refine iff_of_false ?_ fun h => not_hasRoom_of_stopped P h0 hjn hgt h.1
    rintro ⟨key, ⟨⟩⟩
  | ratchet k s₁ r hl hk hrem hold hr =>
    have hneed : s.needRatchet k = true := by simp [needRatchet, hrem]
    have hs₁ : HasRoom s.skippedKeys.keys (s.toSkipOld header) ∧
        s₁.skippedKeys.keys = s.skippedKeys.keys ∪ s.toSkipOld header := by
      cases hold with
      | noChain hnone =>
        have hempty : s.toSkipOld header = ∅ := by rcases hnone with h | h <;> simp [toSkipOld, h]
        rw [hempty, Finset.union_empty]
        exact ⟨.inl rfl, rfl⟩
      | skipped c old n hc hrem' hn h =>
        have hroom := hasRoom_of_done P h
        rw [keys_skipBy, toSkipOld, hc, hrem']
        rw [hn] at hroom ⊢
        exact ⟨hroom, rfl⟩
    rw [hl, MessageHeader.toPublicKey_eq_some.2 hk, receive_findsKey P hr]
    simp only [hneed, if_true, ← hs₁.2]
    refine ⟨fun h => ⟨hs₁.1, h.2⟩, fun h => ⟨Option.some_ne_none _, h.2⟩⟩

theorem takeMessageKey_panic_iff (fresh : StaticSecret) (s : Session B) (header : MessageHeader) :
    (s.takeMessageKey P fresh header).1 = .panic ↔
      s.skippedKeys.lookup (header.dhPublicKey, header.messageNumber) = none ∧ header.dhPublicKey.length ≠ 32 := by
  have htake := takeMessageKey_cases P fresh header s
  generalize s.takeMessageKey P fresh header = r at htake
  cases htake with
  | stored mk hl =>
    simp only [tryInto32, hl]
    split <;> simp
  | badHeader hl hlen => exact iff_of_true rfl ⟨hl, hlen⟩
  | current k r _ hk _ hr =>
    refine iff_of_false ?_ fun h => h.2 (hk ▸ PublicKey.length_toVec k)
    cases hr <;> simp
  | oldTooMany k old c j _ hk =>
    refine iff_of_false ?_ fun h => h.2 (hk ▸ PublicKey.length_toVec k)
    simp
  | ratchet k s₁ r _ hk _ _ hr =>
    refine iff_of_false ?_ fun h => h.2 (hk ▸ PublicKey.length_toVec k)
    cases hr <;> simp

/-- `decrypt` panics exactly when a length it relies on is wrong. -/
theorem decrypt_panic_iff (fresh : StaticSecret) (s : Session B) (header : MessageHeader) (encrypted : Aead.Encrypted) :
    (s.decrypt P fresh header encrypted).1 = .panic ↔ ¬ s.WellFormed header encrypted := by
  have hpanic := takeMessageKey_panic_iff P fresh s header
  have hfinds := findsKey_iff P fresh s header
  rw [WellFormed, ← hfinds, decrypt]
  rcases htake : s.takeMessageKey P fresh header with ⟨key | e | _, s'⟩ <;> rw [htake] at hpanic
  · -- the AEAD call decides
    have hkey : s.skippedKeys.lookup (header.dhPublicKey, header.messageNumber) = none →
        header.dhPublicKey.length = 32 := by simpa using hpanic
    rw [Outcome.andThen_ok, Aead.decrypt_panic, not_and]
    constructor
    · exact fun hnonce _ h => hnonce (h ⟨key, rfl⟩)
    · exact fun h hnonce => h hkey fun _ => hnonce
  · have hkey : s.skippedKeys.lookup (header.dhPublicKey, header.messageNumber) = none →
        header.dhPublicKey.length = 32 := by simpa using hpanic
    refine iff_of_false (by simp) (not_not.2 ⟨hkey, ?_⟩)
    rintro ⟨key, ⟨⟩⟩
  · have hkey := hpanic.1 rfl
    exact iff_of_true rfl fun h => hkey.2 (h.1 hkey.1)

theorem encrypt_ne_panic (nonce : Aead.Nonce) (s : Session B) (plaintext : Bytes) :
    (s.encrypt P nonce plaintext).1 ≠ .panic := by
  rcases nextMessageKey_cases P s with ⟨-, h⟩ | ⟨c, -, h⟩
  · simp [encrypt, h]
  · simp only [encrypt, h, Outcome.andThen_ok, Aead.encrypt]
    cases P.aesGcmEncrypt (messageKeyAt P c.key 0) nonce.1 plaintext
      (MessageHeader.new s.dhPublic c.index s.previousSendingChainLength).toBytes <;> simp

end GhostCrypt.Ratchet.Session
