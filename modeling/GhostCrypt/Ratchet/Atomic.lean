/-
What a failed `decrypt` leaves. Every change to the session comes before the AEAD call, so a
message that fails to authenticate, or that asks for too many skipped keys, has already moved the
session; only the exit for a missing receiving chain comes before the first change.
-/
import GhostCrypt.Ratchet.Stored

namespace GhostCrypt.Ratchet.Session

variable {B : Type} [ByteString B] (P : Primitives B)

/-- The exit before any change: no key is stored for the header, it names the current remote key,
and there is no receiving chain. -/
def FailsUntouched (s : Session B) (header : MessageHeader) : Prop :=
  s.skippedKeys.lookup (header.dhPublicKey, header.messageNumber) = none ∧
    s.remoteDhPublic.map PublicKey.toVec = some header.dhPublicKey ∧ s.receivingChain = none

/-! ## Each exit after a change -/

theorem advanced_ne (c : ChainKey B) {j : Nat} (h0 : 0 < j) (hj : j < 2 ^ 32) : c.advanced P j ≠ c :=
  fun h => add_ofNat_ne h0 hj (congrArg ChainKey.index h)

omit [ByteString B] in
/-- A session whose receiving chain moved is another session. -/
theorem ne_of_receivingChain {s s' : Session B} {c : ChainKey B} (hc : s.receivingChain = some c)
    (h' : s'.receivingChain ≠ some c) : s' ≠ s := by
  rintro rfl
  exact h' hc

theorem skipBy_ne {s : Session B} {c : ChainKey B} (hc : s.receivingChain = some c) (dhBytes : Bytes)
    {j : Nat} (h0 : 0 < j) (hj : j < 2 ^ 32) : s.skipBy P dhBytes c j ≠ s :=
  ne_of_receivingChain hc fun h => advanced_ne P c h0 hj (Option.some.inj h)

/-- Looking for a key in the receiving chain moves it. -/
theorem receive_eq_iff {header : MessageHeader} {s : Session B} {r : Outcome CryptoError B × Session B}
    (hr : ReceiveResult P header s r) : r.2 = s ↔ s.receivingChain = none := by
  cases hr with
  | noChain hc => exact iff_of_true rfl hc
  | tooMany c j hc h0 hj _ =>
    have hlt := toNat_sub_lt header.messageNumber c.index
    refine iff_of_false (skipBy_ne P hc _ h0 (by omega)) ?_
    rw [hc]
    exact Option.some_ne_none c
  | key c n hc hn h =>
    have hlt := toNat_sub_lt header.messageNumber c.index
    -- a loop that ends has stored no more than the limit, so the index does not come round
    have hsmall : n ≤ maxSkip := by
      rcases Nat.eq_zero_or_pos n with rfl | hpos
      · exact Nat.zero_le _
      · exact (le_card_storeSkipped P header.dhPublicKey c s.skippedKeys (by omega)).trans (h hpos)
    have hmax : maxSkip = 100 := rfl
    refine iff_of_false (ne_of_receivingChain hc fun h' => ?_) ?_
    · exact advanced_ne P c (Nat.succ_pos n) (by omega) (Option.some.inj h')
    · rw [hc]
      exact Option.some_ne_none c

theorem receive_remote {header : MessageHeader} {s : Session B} {r : Outcome CryptoError B × Session B}
    (hr : ReceiveResult P header s r) : r.2.remoteDhPublic = s.remoteDhPublic := by
  cases hr <;> rfl

/-! ## Failed calls -/

/-- A call with a well-formed header leaves the session as it was exactly at the early exit. -/
theorem decrypt_eq_iff (fresh : StaticSecret) (s : Session B) {header : MessageHeader} (encrypted : Aead.Encrypted)
    (hk : header.dhPublicKey.length = 32) :
    (s.decrypt P fresh header encrypted).2 = s ↔ FailsUntouched s header := by
  rw [decrypt_snd]
  have htake := takeMessageKey_cases P fresh header s
  generalize s.takeMessageKey P fresh header = r at htake
  cases htake with
  | stored mk hl =>
    refine iff_of_false (fun h => ?_) (fun h => ?_)
    · have hkeys := congrArg (fun s : Session B => s.skippedKeys.lookup (header.dhPublicKey, header.messageNumber)) h
      simp only [Finmap.lookup_erase, hl] at hkeys
      cases hkeys
    · have hnone := h.1
      rw [hl] at hnone
      cases hnone
  | badHeader _ hlen => exact absurd hk hlen
  | current k r hl hkey hrem hr =>
    rw [receive_eq_iff P hr]
    constructor
    · intro hc
      exact ⟨hl, by rw [hrem, hkey]; rfl, hc⟩
    · exact fun h => h.2.2
  | oldTooMany k old c j _ hkey hrem hne hc h0 hj _ =>
    have hlt := toNat_sub_lt header.previousChainLength c.index
    refine iff_of_false (skipBy_ne P hc _ h0 (by omega)) (fun h => hne ?_)
    have := h.2.1
    rwa [hrem, hkey, Option.map_some, Option.some_inj, PublicKey.toVec_inj] at this
  | ratchet k s₁ r _ hkey hrem _ hr =>
    have hk' : r.2.remoteDhPublic = some k := receive_remote P hr
    refine iff_of_false (fun h => hrem (h ▸ hk')) (fun h => hrem ?_)
    obtain ⟨old, hold, heq⟩ := Option.map_eq_some_iff.1 h.2.1
    rw [hkey, PublicKey.toVec_inj] at heq
    rw [hold, heq]

/-- A `decrypt` that returns an error leaves every field as it was exactly when it stopped for want
of a receiving chain. -/
theorem failed_decrypt_atomic_iff (fresh : StaticSecret) (s : Session B) (header : MessageHeader)
    (encrypted : Aead.Encrypted) (e : CryptoError) (hk : header.dhPublicKey.length = 32)
    (_herr : (s.decrypt P fresh header encrypted).1 = .err e) :
    (s.decrypt P fresh header encrypted).2 = s ↔ FailsUntouched s header :=
  decrypt_eq_iff P fresh s encrypted hk

/-- A forged first message moves Bob's session. -/
theorem failed_decrypt_atomic_iff_forged :
    (Sample.bob.decrypt Sample.aead Sample.freshSecret (Sample.header 0) Sample.garbage).2 = Sample.bob ↔
      FailsUntouched Sample.bob (Sample.header 0) :=
  failed_decrypt_atomic_iff Sample.aead Sample.freshSecret Sample.bob (Sample.header 0) Sample.garbage
    (.decryption "Decryption failed: aead::Error") rfl rfl

/-- Some failed calls change the session: the forged message replaces Bob's root key, key pair and
chains before it fails to open. -/
theorem failed_decrypt_not_atomic :
    ¬ ∀ (s : Session Key) (fresh : StaticSecret) (header : MessageHeader) (encrypted : Aead.Encrypted)
      (e : CryptoError), Reachable Sample.aead s → header.dhPublicKey.length = 32 → encrypted.nonce.length = 12 →
      (s.decrypt Sample.aead fresh header encrypted).1 = .err e →
      (s.decrypt Sample.aead fresh header encrypted).2 = s := by
  intro h
  have heq := h Sample.bob Sample.freshSecret (Sample.header 0) Sample.garbage
    (.decryption "Decryption failed: aead::Error") Sample.bob_created.reachable rfl rfl rfl
  have huntouched := (decrypt_eq_iff Sample.aead Sample.freshSecret Sample.bob Sample.garbage rfl).1 heq
  cases huntouched.2.1

end GhostCrypt.Ratchet.Session
