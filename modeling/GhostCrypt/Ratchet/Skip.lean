/-
What `decrypt` does before its AEAD call, said once: the skip loops in closed form, and the cases
of `takeMessageKey` with the session each leaves. Everything proved about sessions starts from
`takeMessageKey_cases` and `nextMessageKey_cases`.
-/
import GhostCrypt.Ratchet.State

namespace GhostCrypt.Ratchet

open Session

variable {B : Type} [ByteString B] (P : Primitives B)

/-- The error of both skip loops. -/
def tooMany : CryptoError := .ratchet "Too many skipped messages"

/-! ## The loop in closed form -/

/-- A chain advanced `j` times. -/
def ChainKey.advanced (c : ChainKey B) (j : Nat) : ChainKey B :=
  { key := chainKeyAt P c.key j, index := c.index + UInt32.ofNat j }

/-- The stored keys after skipping the next `j` messages of the chain `c`. -/
def storeSkipped (dhBytes : Bytes) (c : ChainKey B) (m : SkippedKeys B) : Nat → SkippedKeys B
  | 0 => m
  | j + 1 => (storeSkipped dhBytes c m j).insert (dhBytes, c.index + UInt32.ofNat j) (messageKeyAt P c.key j)

@[simp] theorem advanced_zero (c : ChainKey B) : c.advanced P 0 = c := by
  simp [ChainKey.advanced, chainKeyAt]

theorem advanced_succ (c : ChainKey B) (j : Nat) : (c.advanced P 1).advanced P j = c.advanced P (j + 1) := by
  simp only [ChainKey.advanced, ChainKey.mk.injEq]
  constructor
  · rw [← chainKeyAt_add, Nat.add_comm]
  · rw [UInt32.add_assoc, ← UInt32.ofNat_add, Nat.add_comm]

theorem advanced_add_one (c : ChainKey B) (j : Nat) : (c.advanced P j).advanced P 1 = c.advanced P (j + 1) := by
  simp only [ChainKey.advanced, ChainKey.mk.injEq]
  constructor
  · rw [← chainKeyAt_add]
  · rw [UInt32.add_assoc, ← UInt32.ofNat_add]

theorem messageKeyAt_succ (ck : B) (j : Nat) :
    messageKeyAt P (chainKeyAt P ck 1) j = messageKeyAt P ck (j + 1) := by
  unfold messageKeyAt
  rw [← chainKeyAt_add, Nat.add_comm]

theorem advance_advanced (c : ChainKey B) (j : Nat) :
    (c.advanced P j).advance P = .ok (messageKeyAt P c.key j, c.advanced P (j + 1)) := by
  rw [advance_eq]
  simp only [ChainKey.advanced, UInt32.ofNat_add, UInt32.add_assoc]
  rfl

@[simp] theorem advanced_chainAt (ck : B) (n j : Nat) :
    (chainAt P ck n).advanced P j = chainAt P ck (n + j) := by
  simp only [ChainKey.advanced, chainAt, ChainKey.mk.injEq, UInt32.ofNat_add, and_true]
  exact (chainKeyAt_add P ck n j).symm

theorem storeSkipped_one (dhBytes : Bytes) (c : ChainKey B) (m : SkippedKeys B) :
    storeSkipped P dhBytes c m 1 = m.insert (dhBytes, c.index) (P.hmac c.key [0x02]) := by
  simp [storeSkipped, messageKeyAt, chainKeyAt]

/-- The first message can be skipped on its own. -/
theorem storeSkipped_succ (dhBytes : Bytes) (c : ChainKey B) (m : SkippedKeys B) : ∀ j,
    storeSkipped P dhBytes (c.advanced P 1) (storeSkipped P dhBytes c m 1) j = storeSkipped P dhBytes c m (j + 1)
  | 0 => rfl
  | j + 1 => by
    have hi : (c.advanced P 1).index + UInt32.ofNat j = c.index + UInt32.ofNat (j + 1) := by
      rw [ChainKey.advanced, UInt32.add_assoc, ← UInt32.ofNat_add, Nat.add_comm 1]
    have hk : messageKeyAt P (c.advanced P 1).key j = messageKeyAt P c.key (j + 1) :=
      messageKeyAt_succ P c.key j
    rw [storeSkipped, storeSkipped_succ dhBytes c m j, hi, hk]
    rfl

/-- How the loop over `n` messages ends. -/
inductive LoopResult (dhBytes : Bytes) (c : ChainKey B) (m : SkippedKeys B) (n : Nat) :
    Outcome CryptoError Unit × ChainKey B × SkippedKeys B → Prop
  | done : (0 < n → (storeSkipped P dhBytes c m n).keys.card ≤ maxSkip) →
      LoopResult dhBytes c m n (.ok (), c.advanced P n, storeSkipped P dhBytes c m n)
  | tooMany (j : Nat) : 0 < j → j ≤ n → maxSkip < (storeSkipped P dhBytes c m j).keys.card →
      LoopResult dhBytes c m n (.err tooMany, c.advanced P j, storeSkipped P dhBytes c m j)

variable {P} in
theorem toNat_index_advanced {c : ChainKey B} {upTo : UInt32} (h : c.index < upTo) :
    (c.advanced P 1).index.toNat = c.index.toNat + 1 := by
  rw [UInt32.lt_iff_toNat_lt] at h
  have := upTo.toNat_lt
  rw [ChainKey.advanced, UInt32.toNat_add]
  simp only [UInt32.reduceOfNat, UInt32.reduceToNat]
  omega

/-- The loop ends by its own test. -/
theorem skipLoop_of_not_lt (dhBytes : Bytes) {upTo : UInt32} {c : ChainKey B} (hge : ¬ c.index < upTo) (n : Nat)
    (m : SkippedKeys B) : skipLoop P dhBytes upTo n c m = (.ok (), c, m) := by
  cases n with
  | zero => rfl
  | succ n => rw [skipLoop, if_neg hge]

/-- A turn of the loop. -/
theorem skipLoop_of_lt (dhBytes : Bytes) {upTo : UInt32} {c : ChainKey B} (hlt : c.index < upTo) (n : Nat)
    (m : SkippedKeys B) : skipLoop P dhBytes upTo (n + 1) c m =
      if (storeSkipped P dhBytes c m 1).keys.card > maxSkip then
        (.err tooMany, c.advanced P 1, storeSkipped P dhBytes c m 1)
      else skipLoop P dhBytes upTo n (c.advanced P 1) (storeSkipped P dhBytes c m 1) := by
  have hidx : c.index + 1 - 1 = c.index := UInt32.add_sub_cancel ..
  rw [skipLoop, if_pos hlt, advance_eq]
  simp only [hidx, storeSkipped_one]
  rfl

/-- The loop stores the keys of the messages from the chain's index up to `upTo`, or stops at the
first insertion that leaves more than `maxSkip` keys. -/
theorem skipLoop_result (dhBytes : Bytes) (upTo : UInt32) : ∀ (n : Nat) (c : ChainKey B) (m : SkippedKeys B),
    n = upTo.toNat - c.index.toNat → LoopResult P dhBytes c m n (skipLoop P dhBytes upTo n c m)
  | 0, c, m, _ => by
    have hdone : LoopResult P dhBytes c m 0 (.ok (), c.advanced P 0, storeSkipped P dhBytes c m 0) := .done (by omega)
    simpa [skipLoop, storeSkipped] using hdone
  | n + 1, c, m, hn => by
    have hlt : c.index < upTo := by rw [UInt32.lt_iff_toNat_lt]; omega
    rw [skipLoop_of_lt P dhBytes hlt]
    split
    · rename_i hcard
      exact .tooMany 1 (by omega) (by omega) hcard
    · rename_i hcard
      have hih := skipLoop_result dhBytes upTo n (c.advanced P 1) (storeSkipped P dhBytes c m 1)
        (by rw [toNat_index_advanced hlt]; omega)
      generalize skipLoop P dhBytes upTo n (c.advanced P 1) (storeSkipped P dhBytes c m 1) = r at hih ⊢
      cases hih with
      | done h =>
        rw [storeSkipped_succ] at h ⊢
        rw [advanced_succ]
        refine .done fun _ => ?_
        rcases Nat.eq_zero_or_pos n with rfl | hpos
        · exact Nat.not_lt.1 hcard
        · exact h hpos
      | tooMany j hj hjn hgt =>
        rw [storeSkipped_succ] at hgt ⊢
        rw [advanced_succ]
        exact .tooMany (j + 1) (by omega) (by omega) hgt

/-- More fuel changes nothing: the loop ends by its own test. -/
theorem skipLoop_fuel (dhBytes : Bytes) (upTo : UInt32) : ∀ (n k : Nat) (c : ChainKey B) (m : SkippedKeys B),
    upTo.toNat - c.index.toNat ≤ n → skipLoop P dhBytes upTo (n + k) c m = skipLoop P dhBytes upTo n c m
  | 0, k, c, m, h => by
    have hge : ¬ c.index < upTo := by rw [UInt32.lt_iff_toNat_lt]; omega
    rw [skipLoop_of_not_lt P dhBytes hge, skipLoop_of_not_lt P dhBytes hge]
  | n + 1, k, c, m, h => by
    by_cases hlt : c.index < upTo
    · rw [Nat.add_right_comm, skipLoop_of_lt P dhBytes hlt, skipLoop_of_lt P dhBytes hlt,
        skipLoop_fuel dhBytes upTo n k _ _ (by rw [toNat_index_advanced hlt]; omega)]
    · rw [skipLoop_of_not_lt P dhBytes hlt, skipLoop_of_not_lt P dhBytes hlt]

/-! ## Sessions -/

namespace Session

/-- The session after skipping the next `j` messages of its receiving chain `c`. -/
def skipBy (dhBytes : Bytes) (c : ChainKey B) (j : Nat) (s : Session B) : Session B :=
  { s with receivingChain := some (c.advanced P j), skippedKeys := storeSkipped P dhBytes c s.skippedKeys j }

/-- The session after the DH ratchet. -/
def ratcheted (fresh : StaticSecret) (s : Session B) (k : PublicKey) : Session B :=
  let root := nextRoot P s.rootKey (dh P s.dhSecret k)
  { s with
    rootKey := nextRoot P root (dh P fresh k)
    dhSecret := fresh
    dhPublic := P.publicKey fresh
    remoteDhPublic := some k
    sendingChain := some { key := nextChain P root (dh P fresh k), index := 0 }
    receivingChain := some { key := nextChain P s.rootKey (dh P s.dhSecret k), index := 0 }
    previousSendingChainLength := (s.sendingChain.map ChainKey.index).getD 0 }

@[simp] theorem dhRatchet_eq (fresh : StaticSecret) (s : Session B) (k : PublicKey) :
    s.dhRatchet P fresh k = (.ok (), s.ratcheted P fresh k) := by
  simp [dhRatchet, ratcheted]

theorem initAlice_eq (fresh : StaticSecret) (sharedSecret : B) (bobSpkPublic : PublicKey) :
    initAlice P fresh sharedSecret bobSpkPublic = .ok
      { rootKey := nextRoot P sharedSecret (dh P fresh bobSpkPublic), dhSecret := fresh,
        dhPublic := P.publicKey fresh, remoteDhPublic := some bobSpkPublic,
        sendingChain := some { key := nextChain P sharedSecret (dh P fresh bobSpkPublic), index := 0 },
        receivingChain := none, previousSendingChainLength := 0, skippedKeys := ∅ } := by
  simp [initAlice]

theorem tryInto32_messageKey (ck : B) (n : Nat) (msg : String) :
    tryInto32 (messageKeyAt P ck n) msg = .ok (messageKeyAt P ck n) := by
  simp [tryInto32]

/-- How `encrypt` gets its key: there is no sending chain, or the chain moves on by one. -/
theorem nextMessageKey_cases (s : Session B) :
    (s.sendingChain = none ∧ s.nextMessageKey P = (.err (.ratchet "No sending chain established"), s)) ∨
    (∃ c, s.sendingChain = some c ∧ s.nextMessageKey P =
      (.ok (MessageHeader.new s.dhPublic c.index s.previousSendingChainLength, messageKeyAt P c.key 0),
        { s with sendingChain := some (c.advanced P 1) })) := by
  unfold nextMessageKey
  cases hc : s.sendingChain with
  | none => exact .inl ⟨rfl, rfl⟩
  | some c =>
    refine .inr ⟨c, rfl, ?_⟩
    have hadv := advance_advanced P c 0
    rw [advanced_zero] at hadv
    have hidx : (c.advanced P 1).index - 1 = c.index := UInt32.add_sub_cancel ..
    simp only [hadv, hidx, tryInto32_messageKey]

/-- How skipping the next `n` messages of the chain `c` ends. -/
inductive SkipResult (dhBytes : Bytes) (c : ChainKey B) (n : Nat) (s : Session B) :
    Outcome CryptoError (ChainKey B) × Session B → Prop
  | done : (0 < n → (s.skipBy P dhBytes c n).skippedKeys.keys.card ≤ maxSkip) →
      SkipResult dhBytes c n s (.ok (c.advanced P n), s.skipBy P dhBytes c n)
  | tooMany (j : Nat) : 0 < j → j ≤ n → maxSkip < (s.skipBy P dhBytes c j).skippedKeys.keys.card →
      SkipResult dhBytes c n s (.err tooMany, s.skipBy P dhBytes c j)

theorem skipUntil_result (dhBytes : Bytes) (upTo : UInt32) (c : ChainKey B) (s : Session B) :
    SkipResult P dhBytes c (upTo.toNat - c.index.toNat) s (s.skipUntil P dhBytes upTo c) := by
  unfold skipUntil
  have h := skipLoop_result P dhBytes upTo _ c s.skippedKeys rfl
  generalize skipLoop P dhBytes upTo (upTo.toNat - c.index.toNat) c s.skippedKeys = r at h
  cases h with
  | done h => exact .done h
  | tooMany j hj hjn hgt => exact .tooMany j hj hjn hgt

/-- How `receivingKey` ends. -/
inductive ReceiveResult (header : MessageHeader) (s : Session B) :
    Outcome CryptoError B × Session B → Prop
  | noChain : s.receivingChain = none →
      ReceiveResult header s (.err (.ratchet "No receiving chain established"), s)
  | tooMany (c : ChainKey B) (j : Nat) : s.receivingChain = some c → 0 < j →
      j ≤ header.messageNumber.toNat - c.index.toNat →
      maxSkip < (s.skipBy P header.dhPublicKey c j).skippedKeys.keys.card →
      ReceiveResult header s (.err Ratchet.tooMany, s.skipBy P header.dhPublicKey c j)
  | key (c : ChainKey B) (n : Nat) : s.receivingChain = some c →
      n = header.messageNumber.toNat - c.index.toNat →
      (0 < n → (s.skipBy P header.dhPublicKey c n).skippedKeys.keys.card ≤ maxSkip) →
      ReceiveResult header s (.ok (messageKeyAt P c.key n),
        { s.skipBy P header.dhPublicKey c n with receivingChain := some (c.advanced P (n + 1)) })

theorem receivingKey_result (header : MessageHeader) (s : Session B) :
    ReceiveResult P header s (s.receivingKey P header) := by
  unfold receivingKey
  cases hc : s.receivingChain with
  | none => exact .noChain hc
  | some c =>
    have h := skipUntil_result P header.dhPublicKey header.messageNumber c s
    simp only
    generalize s.skipUntil P header.dhPublicKey header.messageNumber c = r at h
    cases h with
    | done h =>
      simp only [Outcome.andThen_ok, advance_advanced, tryInto32_messageKey]
      exact .key c _ hc rfl h
    | tooMany j hj hjn hgt => exact .tooMany c j hc hj hjn hgt

/-- The session `decrypt` ratchets from: the rest of the current receiving chain, up to
`previous_chain_length`, has been skipped. -/
inductive SkippedOld (header : MessageHeader) (s : Session B) : Session B → Prop
  | noChain : s.receivingChain = none ∨ s.remoteDhPublic = none → SkippedOld header s s
  | skipped (c : ChainKey B) (old : PublicKey) (n : Nat) : s.receivingChain = some c →
      s.remoteDhPublic = some old → n = header.previousChainLength.toNat - c.index.toNat →
      (0 < n → (s.skipBy P old.toVec c n).skippedKeys.keys.card ≤ maxSkip) →
      SkippedOld header s (s.skipBy P old.toVec c n)

/-- How `takeMessageKey` ends. -/
inductive TakeResult (fresh : StaticSecret) (header : MessageHeader) (s : Session B) :
    Outcome CryptoError B × Session B → Prop
  | stored (mk : B) : s.skippedKeys.lookup (header.dhPublicKey, header.messageNumber) = some mk →
      TakeResult fresh header s (tryInto32 mk "Invalid skipped key length",
        { s with skippedKeys := s.skippedKeys.erase (header.dhPublicKey, header.messageNumber) })
  | badHeader : s.skippedKeys.lookup (header.dhPublicKey, header.messageNumber) = none →
      header.dhPublicKey.length ≠ 32 → TakeResult fresh header s (.panic, s)
  | current (k : PublicKey) (r : Outcome CryptoError B × Session B) :
      s.skippedKeys.lookup (header.dhPublicKey, header.messageNumber) = none →
      header.dhPublicKey = k.toVec → s.remoteDhPublic = some k →
      ReceiveResult P header s r → TakeResult fresh header s r
  | oldTooMany (k old : PublicKey) (c : ChainKey B) (j : Nat) :
      s.skippedKeys.lookup (header.dhPublicKey, header.messageNumber) = none →
      header.dhPublicKey = k.toVec → s.remoteDhPublic = some old → old ≠ k →
      s.receivingChain = some c → 0 < j → j ≤ header.previousChainLength.toNat - c.index.toNat →
      maxSkip < (s.skipBy P old.toVec c j).skippedKeys.keys.card →
      TakeResult fresh header s (.err tooMany, s.skipBy P old.toVec c j)
  | ratchet (k : PublicKey) (s₁ : Session B) (r : Outcome CryptoError B × Session B) :
      s.skippedKeys.lookup (header.dhPublicKey, header.messageNumber) = none →
      header.dhPublicKey = k.toVec → s.remoteDhPublic ≠ some k → SkippedOld P header s s₁ →
      ReceiveResult P header (s₁.ratcheted P fresh k) r → TakeResult fresh header s r

theorem takeMessageKey_cases (fresh : StaticSecret) (header : MessageHeader) (s : Session B) :
    TakeResult P fresh header s (s.takeMessageKey P fresh header) := by
  unfold takeMessageKey
  cases hl : s.skippedKeys.lookup (header.dhPublicKey, header.messageNumber) with
  | some mk => exact .stored mk hl
  | none =>
    cases hk : header.toPublicKey with
    | none => exact .badHeader hl (MessageHeader.toPublicKey_eq_none.1 hk)
    | some k =>
      have hkey := MessageHeader.toPublicKey_eq_some.1 hk
      simp only [needRatchet, bne_iff_ne, ne_eq]
      split
      · rename_i hne
        unfold skipCurrentReceivingChain
        split
        · rename_i c old hc hold
          have h := skipUntil_result P old.toVec header.previousChainLength c s
          generalize s.skipUntil P old.toVec header.previousChainLength c = r at h
          cases h with
          | done h =>
            simp only [Outcome.andThen_ok, dhRatchet_eq]
            exact .ratchet k _ _ hl hkey hne (.skipped c old _ hc hold rfl h) (receivingKey_result P header _)
          | tooMany j hj hjn hgt =>
            exact .oldTooMany k old c j hl hkey hold (fun h => hne (h ▸ hold)) hc hj hjn hgt
        · rename_i hnone
          simp only [Outcome.andThen_ok, dhRatchet_eq]
          refine .ratchet k s _ hl hkey hne (.noChain ?_) (receivingKey_result P header _)
          cases hc : s.receivingChain with
          | none => exact .inl rfl
          | some c =>
            cases hr : s.remoteDhPublic with
            | none => exact .inr rfl
            | some old => exact absurd hr (hnone c old hc)
      · rename_i heq
        exact .current k _ hl hkey (not_not.1 heq) (receivingKey_result P header s)

/-- Where the skip limit is met, more than `MAX_SKIP` keys are stored. -/
theorem takeMessageKey_tooMany {fresh : StaticSecret} {header : MessageHeader} {s : Session B}
    (h : (s.takeMessageKey P fresh header).1 = .err tooMany) :
    maxSkip < (s.takeMessageKey P fresh header).2.skippedKeys.keys.card := by
  have htake := takeMessageKey_cases P fresh header s
  generalize s.takeMessageKey P fresh header = r at h htake ⊢
  have hreceive : ∀ {s₁ : Session B}, ReceiveResult P header s₁ r → maxSkip < r.2.skippedKeys.keys.card := by
    intro s₁ hr
    cases hr with
    | noChain _ => simp [tooMany] at h
    | tooMany c j _ _ _ hgt => exact hgt
    | key c n _ _ _ => cases h
  cases htake with
  | stored mk _ =>
    unfold tryInto32 at h
    split at h <;> simp [tooMany] at h
  | badHeader _ _ => cases h
  | current _ _ _ _ _ hr => exact hreceive hr
  | oldTooMany _ _ _ _ _ _ _ _ _ _ _ hgt => exact hgt
  | ratchet _ _ _ _ _ _ _ hr => exact hreceive hr

theorem skipBy_zero {dhBytes : Bytes} {c : ChainKey B} {s : Session B} (hc : s.receivingChain = some c) :
    s.skipBy P dhBytes c 0 = s := by
  rw [skipBy, advanced_zero, storeSkipped, ← hc]

/-- A message of the current chain that is not ahead of it, and whose key is not stored. -/
theorem takeMessageKey_current (fresh : StaticSecret) {header : MessageHeader} {s : Session B} {k : PublicKey}
    {c : ChainKey B} (hl : s.skippedKeys.lookup (header.dhPublicKey, header.messageNumber) = none)
    (hk : header.dhPublicKey = k.toVec) (hrem : s.remoteDhPublic = some k) (hc : s.receivingChain = some c)
    (hnum : header.messageNumber.toNat ≤ c.index.toNat) :
    (s.takeMessageKey P fresh header).2 = { s with receivingChain := some (c.advanced P 1) } := by
  have h := takeMessageKey_cases P fresh header s
  generalize s.takeMessageKey P fresh header = r at h ⊢
  have hsame : ∀ k' : PublicKey, header.dhPublicKey = k'.toVec → k' = k :=
    fun k' hk' => PublicKey.toVec_inj.1 (hk'.symm.trans hk)
  cases h with
  | stored mk hs =>
    rw [hl] at hs
    cases hs
  | badHeader _ hlen => exact absurd (hk ▸ PublicKey.length_toVec k) hlen
  | current _ _ _ _ _ hr =>
    cases hr with
    | noChain hnone =>
      rw [hc] at hnone
      cases hnone
    | tooMany c' j hc' hj hle _ =>
      obtain rfl := Option.some.inj (hc.symm.trans hc')
      omega
    | key c' n hc' hn _ =>
      obtain rfl := Option.some.inj (hc.symm.trans hc')
      obtain rfl : n = 0 := by omega
      rw [skipBy_zero P hc]
  | oldTooMany k' old _ _ _ hk' hrem' hne _ _ _ _ =>
    rw [hrem, ← hsame k' hk'] at hrem'
    exact absurd (Option.some.inj hrem').symm hne
  | ratchet k' _ _ _ hk' hne _ _ =>
    rw [hsame k' hk'] at hne
    exact absurd hrem hne

/-- The session after the first message of a new chain: the DH ratchet, and the new receiving chain
has moved on by one. -/
def turned (fresh : StaticSecret) (s : Session B) (k : PublicKey) : Session B :=
  { s.ratcheted P fresh k with receivingChain := some (chainAt P (nextChain P s.rootKey (dh P s.dhSecret k)) 1) }

/-- The first message of a new chain, when nothing of the old one is left to skip. -/
theorem takeMessageKey_first (fresh : StaticSecret) {header : MessageHeader} {s : Session B} {k : PublicKey}
    (hl : s.skippedKeys.lookup (header.dhPublicKey, header.messageNumber) = none)
    (hk : header.dhPublicKey = k.toVec) (hrem : s.remoteDhPublic ≠ some k)
    (hold : ∀ c, s.receivingChain = some c → header.previousChainLength.toNat ≤ c.index.toNat)
    (hnum : header.messageNumber = 0) :
    (s.takeMessageKey P fresh header).2 = s.turned P fresh k := by
  have h := takeMessageKey_cases P fresh header s
  generalize s.takeMessageKey P fresh header = r at h ⊢
  cases h with
  | stored mk hs =>
    rw [hl] at hs
    cases hs
  | badHeader _ hlen => exact absurd (hk ▸ PublicKey.length_toVec k) hlen
  | current k' _ _ hk' hr' _ =>
    obtain rfl := PublicKey.toVec_inj.1 (hk.symm.trans hk')
    exact absurd hr' hrem
  | oldTooMany k' old c j _ _ _ _ hc hj hle _ =>
    have := hold c hc
    omega
  | ratchet k' s₁ r _ hk' _ hskip hr =>
    obtain rfl := PublicKey.toVec_inj.1 (hk.symm.trans hk')
    obtain rfl : s₁ = s := by
      cases hskip with
      | noChain _ => rfl
      | skipped c old n hc _ hn _ =>
        obtain rfl : n = 0 := by
          have := hold c hc
          omega
        exact skipBy_zero P hc
    have hchain : (s₁.ratcheted P fresh k).receivingChain =
      some (chainAt P (nextChain P s₁.rootKey (dh P s₁.dhSecret k)) 0) := rfl
    cases hr with
    | noChain hc => cases hchain.symm.trans hc
    | tooMany c j hc hj hle _ =>
      rw [hnum] at hle
      exact absurd (hj.trans_le hle) (by simp)
    | key c n hc hn _ =>
      obtain rfl := Option.some.inj (hchain.symm.trans hc)
      obtain rfl : n = 0 := by simp [hn, hnum]
      rw [skipBy_zero P hchain, advanced_chainAt]
      rfl

end Session

end GhostCrypt.Ratchet
