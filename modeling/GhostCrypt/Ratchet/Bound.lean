/-
The size of the skipped-key store. Both skip loops test `MAX_SKIP` after they insert, and a failed
call keeps what it inserted, so the store can outgrow the limit; it stays within it exactly as
long as no header asks for more entries than the limit leaves room for.
-/
import GhostCrypt.Ratchet.Stored

namespace GhostCrypt.Ratchet.Session

variable {B : Type} [ByteString B] (P : Primitives B)

/-! ## The condition -/

/-- The entries a ratchet has to store for the chain it replaces. -/
def toSkipOld (s : Session B) (header : MessageHeader) : Finset (Bytes × UInt32) :=
  match s.receivingChain, s.remoteDhPublic with
  | some c, some old => passed old.toVec c.index (header.previousChainLength.toNat - c.index.toNat)
  | _, _ => ∅

/-- The entries to store for the messages before the header's in the receiving chain. -/
def toSkipNew (s : Session B) (header : MessageHeader) : Finset (Bytes × UInt32) :=
  match s.receivingChain with
  | some c => passed header.dhPublicKey c.index (header.messageNumber.toNat - c.index.toNat)
  | none => ∅

/-- The entries `decrypt` has to store before it reaches the header's message. A message whose key
is stored needs none, and neither does one whose key is malformed. -/
def toSkip (s : Session B) (header : MessageHeader) : Finset (Bytes × UInt32) :=
  match s.skippedKeys.lookup (header.dhPublicKey, header.messageNumber), header.toPublicKey with
  | none, some k =>
    if s.needRatchet k then s.toSkipOld header ∪ passed header.dhPublicKey 0 header.messageNumber.toNat
    else s.toSkipNew header
  | _, _ => ∅

/-- The store has room for what the call has to store. -/
def WithinLimit (s : Session B) : Call → Prop
  | .encrypt _ _ => True
  | .decrypt _ header _ => (s.skippedKeys.keys ∪ s.toSkip header).card ≤ maxSkip

/-- The store is within its limit. -/
def Bounded (s : Session B) : Prop := s.skippedKeys.keys.card ≤ maxSkip

/-! ## One call -/

theorem keys_skipBy (dhBytes : Bytes) (c : ChainKey B) (j : Nat) (s : Session B) :
    (s.skipBy P dhBytes c j).skippedKeys.keys = s.skippedKeys.keys ∪ passed dhBytes c.index j :=
  keys_storeSkipped P dhBytes c s.skippedKeys j

/-- A loop that stopped at the limit was asked for more than it. -/
theorem lt_card_of_stopped {dhBytes : Bytes} {c : ChainKey B} {j n : Nat} {s : Session B} (hjn : j ≤ n)
    (hgt : maxSkip < (s.skipBy P dhBytes c j).skippedKeys.keys.card) :
    maxSkip < (s.skippedKeys.keys ∪ passed dhBytes c.index n).card := by
  have := card_storeSkipped_mono P dhBytes c s.skippedKeys hjn
  rw [keys_storeSkipped P dhBytes c s.skippedKeys n] at this
  exact hgt.trans_le this

/-- A loop that ended left room, given that there was room before. -/
theorem bounded_skipBy {dhBytes : Bytes} {c : ChainKey B} {n : Nat} {s : Session B} (hs : Bounded s)
    (h : 0 < n → (s.skipBy P dhBytes c n).skippedKeys.keys.card ≤ maxSkip) : Bounded (s.skipBy P dhBytes c n) := by
  rcases Nat.eq_zero_or_pos n with rfl | hpos
  · exact hs
  · exact h hpos

theorem receive_bounded_iff {header : MessageHeader} {s : Session B} {r : Outcome CryptoError B × Session B}
    (hr : ReceiveResult P header s r) (hs : Bounded s) :
    Bounded r.2 ↔ (s.skippedKeys.keys ∪ s.toSkipNew header).card ≤ maxSkip := by
  cases hr with
  | noChain hc =>
    rw [toSkipNew, hc, Finset.union_empty]
    exact Iff.rfl
  | tooMany c j hc _ hjn hgt =>
    rw [toSkipNew, hc]
    have hlt := lt_card_of_stopped P hjn hgt
    constructor
    · intro h
      exact absurd h (not_le.2 hgt)
    · intro h
      exact absurd h (not_le.2 hlt)
  | key c n hc hn h =>
    have hb : Bounded (s.skipBy P header.dhPublicKey c n) := bounded_skipBy P hs h
    rw [toSkipNew, hc]
    simp only
    rw [← hn, ← keys_skipBy P]
    exact Iff.rfl

/-- The store is within its limit after `decrypt` exactly when it had room for the call. -/
theorem decrypt_bounded_iff (fresh : StaticSecret) (s : Session B) (header : MessageHeader)
    (encrypted : Aead.Encrypted) (hs : Bounded s) :
    Bounded (s.decrypt P fresh header encrypted).2 ↔ WithinLimit s (.decrypt fresh header encrypted) := by
  rw [decrypt_snd, WithinLimit]
  have htake := takeMessageKey_cases P fresh header s
  generalize s.takeMessageKey P fresh header = r at htake
  cases htake with
  | stored mk hl =>
    have hskip : s.toSkip header = ∅ := by rw [toSkip, hl]
    have herase : Bounded { s with skippedKeys := s.skippedKeys.erase (header.dhPublicKey, header.messageNumber) } := by
      refine le_trans (Finset.card_le_card fun x hx => ?_) hs
      rw [Finmap.mem_keys, Finmap.mem_erase] at hx
      exact Finmap.mem_keys.2 hx.2
    rw [hskip, Finset.union_empty]
    exact iff_of_true herase hs
  | badHeader hl hlen =>
    rw [toSkip, hl, MessageHeader.toPublicKey_eq_none.2 hlen, Finset.union_empty]
    exact Iff.rfl
  | current k r hl hk hrem hr =>
    rw [toSkip, hl, MessageHeader.toPublicKey_eq_some.2 hk]
    simp only [needRatchet, hrem, bne_self_eq_false, Bool.false_eq_true, if_false]
    exact receive_bounded_iff P hr hs
  | oldTooMany k old c j hl hk hrem hne hc _ hjn hgt =>
    have hneed : s.needRatchet k = true := by simp [needRatchet, hrem, hne]
    rw [toSkip, hl, MessageHeader.toPublicKey_eq_some.2 hk]
    simp only [hneed, if_true, toSkipOld, hc, hrem]
    refine iff_of_false (not_le.2 hgt) (not_le.2 ?_)
    refine (lt_card_of_stopped P hjn hgt).trans_le (Finset.card_le_card ?_)
    exact Finset.union_subset_union_right Finset.subset_union_left
  | ratchet k s₁ r hl hk hrem hold hr =>
    have hneed : s.needRatchet k = true := by simp [needRatchet, hrem]
    -- the replaced chain has been skipped within the limit
    have hs₁ : Bounded s₁ ∧ s₁.skippedKeys.keys = s.skippedKeys.keys ∪ s.toSkipOld header := by
      cases hold with
      | noChain hnone =>
        refine ⟨hs, ?_⟩
        rcases hnone with h | h <;> simp [toSkipOld, h]
      | skipped c old n hc hrem' hn h =>
        refine ⟨bounded_skipBy P hs h, ?_⟩
        rw [keys_skipBy, toSkipOld, hc, hrem', hn]
    rw [toSkip, hl, MessageHeader.toPublicKey_eq_some.2 hk]
    simp only [hneed, if_true]
    rw [← Finset.union_assoc, ← hs₁.2]
    exact receive_bounded_iff P hr hs₁.1

theorem encrypt_skippedKeys (nonce : Aead.Nonce) (s : Session B) (plaintext : Bytes) :
    (s.encrypt P nonce plaintext).2.skippedKeys = s.skippedKeys := by
  rw [encrypt_snd]
  rcases nextMessageKey_cases P s with ⟨-, h⟩ | ⟨c, -, h⟩ <;> rw [h]

theorem call_bounded_iff (s : Session B) (c : Call) (hs : Bounded s) : Bounded (s.call P c) ↔ WithinLimit s c := by
  cases c with
  | encrypt nonce plaintext =>
    refine iff_of_true ?_ trivial
    rw [Bounded, call, encrypt_skippedKeys]
    exact hs
  | decrypt fresh header encrypted => exact decrypt_bounded_iff P fresh s header encrypted hs

theorem Created.bounded {sharedSecret : B} {s : Session B} (h : Created P sharedSecret s) : Bounded s := by
  rw [Bounded, h.skippedKeys]
  exact Nat.zero_le _

/-- Bob's first message asks for the entries before it. -/
theorem toSkip_bob (n : UInt32) :
    Sample.bob.toSkip (Sample.header n) = passed (Sample.pub Sample.aliceSecret).toVec 0 n.toNat := by
  have hl : Sample.bob.skippedKeys.lookup ((Sample.header n).dhPublicKey, n) = none := rfl
  rw [toSkip, show (Sample.header n).messageNumber = n from rfl, hl,
    show (Sample.header n).toPublicKey = some _ from MessageHeader.toPublicKey_new _ n 0]
  exact Finset.empty_union _

/-! ## Runs -/

/-- A session's store is within its limit after every call of a run exactly when it had room for
each of the calls. -/
theorem bounded_throughout_iff {sharedSecret : B} {s : Session B} (hs : Created P sharedSecret s)
    (calls : List Call) :
    Run.Throughout (call P) Bounded s calls ↔ Run.Along (call P) WithinLimit s calls :=
  Run.throughout_iff_along (call_bounded_iff P) (hs.bounded P)

theorem bounded_throughout_iff_bob :
    Run.Throughout (call Sample.aead) Bounded Sample.bob
      [.decrypt Sample.freshSecret (Sample.header 100) Sample.garbage] := by
  refine (bounded_throughout_iff Sample.aead Sample.bob_created _).2 ⟨?_, trivial⟩
  rw [WithinLimit, toSkip_bob, show Sample.bob.skippedKeys.keys = ∅ from rfl, Finset.empty_union,
    card_passed _ _ (by decide)]
  decide

/-- Message 101 of a fresh chain leaves 101 entries. -/
theorem store_exceeds_limit :
    ¬ ∀ (sharedSecret : Key) (s : Session Key) (calls : List Call), Created Sample.aead sharedSecret s →
      Run.Throughout (call Sample.aead) Bounded s calls := by
  intro h
  have hrun := h _ Sample.bob [.decrypt Sample.freshSecret (Sample.header 101) Sample.garbage] Sample.bob_created
  have hroom := (call_bounded_iff Sample.aead _ _ hrun.1).1 hrun.2
  rw [WithinLimit, toSkip_bob, show Sample.bob.skippedKeys.keys = ∅ from rfl, Finset.empty_union,
    card_passed _ _ (by decide)] at hroom
  exact absurd hroom (by decide)

end GhostCrypt.Ratchet.Session
